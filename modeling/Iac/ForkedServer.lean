import Iac.DatabaseMain

/-! A forked server: the loop of `server/forkedServer.c` over the two versions of
`conn_send` and `conn_receive`. Several of them share the pipes to the database server and
the mutex of `server/dbConn.c`. -/

namespace Iac

open CText Interaction SharedPipe

/-! What a forked server does besides using the shared pipes. -/

/-- The version of `common/comm.h` that the program is linked with. -/
inductive Backend
  | sockets
  | fifos
  deriving DecidableEq, Repr

inductive Handler
  | getProducts
  | processOrder
  deriving DecidableEq, Repr

/-- Marks for the record; they are no steps of the code. -/
inductive Note
  | enter (handler : Handler)
  | leave (handler : Handler)
  /-- the `switch` on a message code -/
  | command (msgCode : Int32)
  deriving DecidableEq, Repr

/-- Calls that concern one process only. Reading and writing are whole calls of
`ensureRead` and `ensureWrite` on the client's connection. -/
inductive Local
  | readLength
  | readData (size : Nat)
  | readNull
  | write (data : Bytes)
  | malloc (size : Nat)
  | uninitialised (size : Nat)
  | note (note : Note)
  deriving DecidableEq, Repr

abbrev Block (size : Nat) := { bytes : Bytes // bytes.length = size }

/-- What arrived before the call returned: everything that was asked for, unless it failed. -/
abbrev Arrived (size : Nat) := { bytes : Bytes // bytes.length ≤ size }

abbrev Local.Answer : Local → Type
  | .readLength => Arrived 8
  | .readData size => Arrived size
  | .readNull => Unit
  | .write _ => Bool
  | .malloc size => Option (Block size)
  | .uninitialised size => Block size
  | .note _ => Unit

abbrev ForkedProgram := Body Local Local.Answer

abbrev ForkedEvent := Sigma (Action.Answer Local.Answer)

def undefinedStep {α : Type} : ForkedProgram α := .perform .undefined fun (never : Empty) => nomatch never

def own (op : Local) : ForkedProgram op.Answer := .perform (.own op) .ret

def mark (note : Note) : ForkedProgram Unit := own (.note note)

def shConnOpen : ForkedProgram Unit := .perform .lock .ret

def shConnClose : ForkedProgram Unit := .perform .unlock .ret

/-- On the pipe to the database server; it counts in an `int`. -/
def ensureWrite (data : Bytes) : ForkedProgram Bool :=
  if data.length < 2 ^ 31 then writeBytes data else undefinedStep

/-- On the pipe from the database server: tells what is then in the destination. -/
def ensureRead (dest : Bytes) : ForkedProgram (Bool × Bytes) :=
  if dest.length < 2 ^ 31 then readBytes dest else undefinedStep

/-! The client's connection. -/

/-- Where a pointer leads: to nothing, to a block of its own, or anywhere. -/
inductive Pointer
  | null
  | block (contents : Bytes)
  | stray
  deriving DecidableEq, Repr

def Pointer.payload : Pointer → Bytes
  | .block contents => contents
  | _ => []

structure Received where
  ok : Bool
  length : Bytes
  data : Pointer
  deriving DecidableEq, Repr

def overlay (old arrived : Bytes) : Bytes := arrived ++ old.drop arrived.length

theorem overlay_whole {old arrived : Bytes} (whole : arrived.length = old.length) :
    overlay old arrived = arrived := by
  rw [overlay, whole, List.drop_length, List.append_nil]

def readBlock (block : Bytes) : ForkedProgram (Bool × Bytes) :=
  if block.length = 0 then .ret (true, block)
  else do
    let arrived ← own (.readData block.length)
    if arrived.val.length < 2 ^ 31 then
      return (arrived.val.length = block.length, overlay block arrived.val)
    else undefinedStep

/-- Reading into `NULL` fails, if there is anything to read. -/
def readNothing (size : Nat) : ForkedProgram Bool :=
  if size = 0 then .ret true
  else do
    own .readNull
    return false

/-- The FIFO version frees a block that it could not fill. -/
def connReceive (backend : Backend) (length : Bytes) (data : Pointer) : ForkedProgram Received := do
  let arrived ← own .readLength
  let length := overlay length arrived.val
  if arrived.val.length < 8 then return ⟨false, length, data⟩
  else
    let size := fromLittleEndian length
    match ← own (.malloc size) with
    | none =>
        let ok ← readNothing size
        return ⟨ok, length, .null⟩
    | some block =>
        let (ok, contents) ← readBlock block.val
        if ok || backend = .sockets then return ⟨ok, length, .block contents⟩
        else return ⟨false, length, .stray⟩

def clientWrite (data : Bytes) : ForkedProgram Bool :=
  if data.length < 2 ^ 31 then own (.write data) else undefinedStep

/-- The result is 0 for `NULL`, which cannot be written from. -/
def connSend (data : Pointer) (length : Nat) : ForkedProgram Bool :=
  if length = 0 then .ret true
  else do
    let sent : Bool ← own (.write (sizeBytes length))
    if sent then
      match data with
      | .null => return false
      | .block contents => clientWrite contents
      | .stray => undefinedStep
    else return false

def Pointer.free : Pointer → ForkedProgram Unit
  | .stray => undefinedStep
  | _ => .ret ()

/-- `ensureWrite` on the pipe to the database server, from where a pointer leads. -/
def Pointer.forward (data : Pointer) (size : Nat) : ForkedProgram Bool :=
  if size = 0 then .ret true
  else
    match data with
    | .null => .ret false
    | .block contents => ensureWrite contents
    | .stray => undefinedStep

def sendInt (value : Bytes) : ForkedProgram Bool := connSend (.block value) value.length

/-! Orders. -/

/-- What is read behind the code of an unsatisfiable order. -/
def relayOrder (serializedLen : Bytes) : ForkedProgram Unit := do
  let (_, serializedLen) ← ensureRead serializedLen
  let size := fromLittleEndian serializedLen
  match ← own (.malloc size) with
  | none =>
      -- the read into `NULL` fails, and nobody looks at its result
      let _ ← connSend .null size
  | some block =>
      let (_, contents) ← ensureRead block.val
      let _ ← connSend (.block contents) size

def relayReply (serializedLen : Bytes) : ForkedProgram Unit := do
  let (_, code) ← ensureRead (intBytes cmdPlaceOrder)
  let _ ← sendInt code
  if bytesInt code = messageUnsatisfiableOrder then relayOrder serializedLen
  else return ()

def passOrder (received : Received) : ForkedProgram Unit := do
  shConnOpen
  let _ ← ensureWrite (intBytes cmdPlaceOrder)
  let _ ← ensureWrite received.length
  let _ ← received.data.forward (fromLittleEndian received.length)
  received.data.free
  relayReply received.length
  shConnClose

def processOrder (backend : Backend) : ForkedProgram Unit := do
  mark (.enter .processOrder)
  let serializedLen ← own (.uninitialised 8)
  let received ← connReceive backend serializedLen.val .stray
  passOrder received
  mark (.leave .processOrder)

/-! Products. -/

/-- The loop over the products of the reply; `array` tells whether there is memory for them. -/
def readProducts (array : Bool) : Nat → ForkedProgram (Option (List Product))
  | 0 => .ret (some [])
  | count + 1 => do
      let serializedLen ← own (.uninitialised 8)
      let (ok, serializedLen) ← ensureRead serializedLen.val
      if ok then
        match ← own (.malloc (fromLittleEndian serializedLen)) with
        | none =>
            -- only a read of no bytes into `NULL` succeeds, and then `NULL` is decoded
            if fromLittleEndian serializedLen = 0 then undefinedStep else return none
        | some block =>
            let (ok, serialized) ← ensureRead block.val
            if ok then
              match productUnserialize serialized, array with
              | some product, true =>
                  let rest ← readProducts array count
                  return rest.map (product :: ·)
              | _, _ => undefinedStep
            else return none
      else return none

/-- The size of an array of `code` pointers, as a `size_t`. -/
def arraySize (code : Int32) : Nat := (8 * code.toInt % 2 ^ 64).toNat

/-- The early returns come with -1, and without `sh_conn_close`. -/
def requestProducts : ForkedProgram (Int32 × List Product) := do
  shConnOpen
  if ← ensureWrite (intBytes cmdGetProducts) then
    let (ok, code) ← ensureRead (intBytes cmdGetProducts)
    if !ok || bytesInt code = messageError then return (-1, [])
    else
      let code := bytesInt code
      let destArray ← own (.malloc (arraySize code))
      match ← readProducts destArray.isSome code.toInt.toNat with
      | none => return (-1, [])
      | some products =>
          shConnClose
          return (code, products)
  else return (-1, [])

def getProducts : ForkedProgram (Int32 × List Product) := do
  mark (.enter .getProducts)
  let result ← requestProducts
  mark (.leave .getProducts)
  return result

def sendAll : List Product → ForkedProgram Unit
  | [] => .ret ()
  | product :: rest =>
      match productSerialize product with
      | some serialized => do
          let _ ← connSend (.block serialized) serialized.length
          sendAll rest
      | none => undefinedStep

def sendProducts : ForkedProgram Unit := do
  let (numProducts, products) ← getProducts
  if numProducts = -1 then
    let _ ← sendInt (intBytes messageError)
  else
    let _ ← sendInt (intBytes numProducts)
    sendAll products

/-! The loop. -/

/-- `conn_close`; closing the descriptors needs no step of its own. -/
def shutDown (backend : Backend) : ForkedProgram Unit :=
  match backend with
  | .sockets => do
      let _ ← sendInt (intBytes messageClose)
  | .fifos => .ret ()

def execute (backend : Backend) (msgCode : Int32) : ForkedProgram Bool := do
  mark (.command msgCode)
  if msgCode = cmdGetProducts then
    sendProducts
    return false
  else if msgCode = cmdPlaceOrder then
    processOrder backend
    return false
  else if msgCode = messageClose then
    shutDown backend
    return true
  else return false

/-- One round; `clientData` is declared inside the loop and starts without a value. -/
def forkedServer (backend : Backend) : ForkedProgram Bool := do
  let length ← own (.uninitialised 8)
  let received ← connReceive backend length.val .stray
  match received.data with
  | .block contents =>
      match field contents 0 4 with
      | some clientData => execute backend (bytesInt clientData)
      | none => undefinedStep
  | _ => undefinedStep

def Local.reachesPeer : Local → Bool
  | .write _ => true
  | _ => false

/-- Any number of forked servers and the database server. -/
abbrev system (backend : Backend) : Setup where
  Local := Local
  Answer := Local.Answer
  Choice := Circumstances
  Store := Database
  body := forkedServer backend
  serve := serve
  reachesPeer := Local.reachesPeer

end Iac
