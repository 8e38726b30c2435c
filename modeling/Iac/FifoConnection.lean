import Mathlib.Logic.Relation
import Iac.ForkedServer
import Iac.Library.Funnel

/-! Connecting over FIFOs: `conn_open` with `sendFIFOPaths`, and `conn_accept`, of
`common/commWithFIFOs.c`. Any number of clients meet the main server at its FIFO. -/

namespace Iac

namespace Fifo

open CText Interaction

/-! Paths. -/

/-- A C string in a block of its own. -/
structure Path where
  text : Bytes
  clean : (0 : UInt8) ∉ text
  short : text.length + 1 < 2 ^ 31

def Path.block (path : Path) : Bytes := path.text ++ [0]

/-- `strlen(path)+1` -/
def Path.len (path : Path) : Nat := (cstring path.block).length + 1

structure Connection where
  outFIFOPath : Path
  inFIFOPath : Path

theorem itoa_short (pid : Int32) : (itoa pid.toInt).length ≤ 11 := by
  rw [← countDigits_eq]
  exact countDigits_le pid

def basePath (pid : Int32) : Bytes := ascii "/tmp/" ++ itoa pid.toInt

theorem basePath_clean (pid : Int32) {ending : Bytes} (clean : (0 : UInt8) ∉ ending) :
    (0 : UInt8) ∉ basePath pid ++ ending := by
  intro member
  rcases List.mem_append.mp member with member | member
  · rcases List.mem_append.mp member with member | member
    · exact absurd member (by decide)
    · exact itoa_no_nul _ member
  · exact clean member

theorem basePath_length (pid : Int32) : (basePath pid).length ≤ 16 := by
  have digits := itoa_short pid
  have start : (ascii "/tmp/").length = 5 := rfl
  rw [basePath, List.length_append, start]
  omega

/-- The paths that `createProcessFIFOs` makes up for a process. -/
def processFIFOs (pid : Int32) : Connection where
  outFIFOPath := {
    text := basePath pid ++ ascii "-out"
    clean := basePath_clean pid (by decide)
    short := by
      have base := basePath_length pid
      have ending : (ascii "-out").length = 4 := rfl
      rw [List.length_append, ending]
      omega }
  inFIFOPath := {
    text := basePath pid ++ ascii "-in"
    clean := basePath_clean pid (by decide)
    short := by
      have base := basePath_length pid
      have ending : (ascii "-in").length = 3 := rfl
      rw [List.length_append, ending]
      omega }

/-! The client. -/

inductive Selected
  | error
  | timeout
  | ready
  deriving DecidableEq, Repr

inductive Call
  | makeFIFOs
  /-- its in-FIFO, for reading and without blocking -/
  | openIn
  | openMain
  | lock
  /-- `ensureWrite` to the main server's FIFO -/
  | write (src : Bytes)
  | unlock
  | close
  | select
  /-- `conn_receive` from its in-FIFO -/
  | receive
  /-- its out-FIFO, for writing -/
  | openOut
  | undefined
  deriving DecidableEq, Repr

abbrev Call.Answer : Call → Type
  | .makeFIFOs => Bool
  | .openIn => Unit
  | .openMain => Bool
  | .lock => Bool
  | .write _ => Bool
  | .unlock => Unit
  | .close => Unit
  | .select => Selected
  | .receive => Option Bytes
  | .openOut => Unit
  | .undefined => Empty

abbrev ClientProgram := Program Call Call.Answer

def call (op : Call) : ClientProgram op.Answer := .perform op .ret

def sendPath (path : Path) : ClientProgram Bool := do
  let ok ← call (.write (sizeBytes path.len))
  if ok then call (.write (path.block.take path.len)) else return false

def sendFIFOPaths (c : Connection) : ClientProgram Bool := do
  if ← call .openMain then
    if ← call .lock then
      if ← sendPath c.outFIFOPath then
        if ← sendPath c.inFIFOPath then
          call .unlock
          call .close
          return true
        else
          call .close
          return false
      else
        call .close
        return false
    else return false
  else return false

/-- The result is whether there is a connection. -/
def connOpen (c : Connection) : ClientProgram Bool := do
  if ← call .makeFIFOs then
    call .openIn
    if ← sendFIFOPaths c then
      match ← call .select with
      | .ready =>
          match ← call .receive with
          | none => return false
          | some ack =>
              match field ack 0 4 with
              | none => .perform .undefined fun never => nomatch (never : Empty)
              | some code =>
                  if bytesInt code = messageOk then
                    call .openOut
                    return true
                  else return false
      | _ => return false
    else return false
  else return false

/-! The main server. -/

structure Accepted where
  inFIFOPath : Pointer
  outFIFOPath : Pointer
  deriving DecidableEq, Repr

inductive AcceptCall
  | select
  | allocate
  /-- `ensureRead` from the main server's FIFO -/
  | read (size : Nat)
  | malloc (size : Nat)
  /-- for reading and without blocking -/
  | openIn (path : Pointer)
  /-- for writing, which blocks while nobody reads -/
  | openOut (path : Pointer)
  | sendOk (path : Pointer)
  | undefined
  deriving DecidableEq, Repr

abbrev AcceptCall.Answer : AcceptCall → Type
  | .select => Bool
  | .allocate => Unit
  | .read size => Option (Block size)
  | .malloc _ => Bool
  | .openIn _ => Unit
  | .openOut _ => Unit
  | .sendOk _ => Unit
  | .undefined => Empty

abbrev AcceptProgram := Program AcceptCall AcceptCall.Answer

def acceptCall (op : AcceptCall) : AcceptProgram op.Answer := .perform op .ret

/-- Nothing if a read fails, also one into `NULL`. -/
def readPath : AcceptProgram (Option Pointer) := do
  match ← acceptCall (.read 8) with
  | none => return none
  | some len =>
      let size := fromLittleEndian len.val
      let granted ← acceptCall (.malloc size)
      if granted then
        if size < 2 ^ 31 then
          match ← acceptCall (.read size) with
          | none => return none
          | some path => return some (.block path.val)
        else .perform .undefined fun never => nomatch (never : Empty)
      else if size = 0 then return some .null
      else return none

def establish (c : Accepted) : AcceptProgram (Option Accepted) := do
  acceptCall (.openIn c.inFIFOPath)
  acceptCall (.openOut c.outFIFOPath)
  acceptCall (.sendOk c.outFIFOPath)
  return some c

/-- What the client calls its out-FIFO is read as the in-FIFO. -/
def connAccept : AcceptProgram (Option Accepted) := do
  if ← acceptCall .select then
    acceptCall .allocate
    match ← readPath with
    | none => return none
    | some inFIFOPath =>
        match ← readPath with
        | none => return none
        | some outFIFOPath => establish ⟨inFIFOPath, outFIFOPath⟩
  else return none

/-! All of them. -/

/-- `moved` is what the `ensureWrite` it is in has written. -/
structure Requester where
  program : ClientProgram Bool
  moved : Bytes

/-- `got` is what the `ensureRead` it is in has read. -/
structure Acceptor where
  program : AcceptProgram (Option Accepted)
  got : Bytes

/-- The last five fields are records: who obtained the lock, in which order; what each call of
`conn_accept` has read and returned, and what the one that is going on has read; how many in-FIFOs
of clients have been opened. The main server never closes what it has opened. -/
structure Gate (ι : Type) where
  clients : ι → Requester
  readers : ι → Bool
  inbox : ι → List Bytes
  holder : Option ι
  fifo : Bytes
  server : Acceptor
  reading : List Pointer
  order : List ι
  calls : List (Accepted × Bytes)
  current : Bytes
  linked : Nat

def Gate.start {ι : Type} (conn : ι → Connection) : Gate ι where
  clients i := ⟨connOpen (conn i), []⟩
  readers _ := false
  inbox _ := []
  holder := none
  fifo := []
  server := ⟨connAccept, []⟩
  reading := []
  order := []
  calls := []
  current := []
  linked := 0

/-- Calls of a client that concern nobody else; each answer is possible, but no write fails. -/
def Call.Free : (op : Call) → op.Answer → Prop
  | .makeFIFOs, _ => True
  | .openMain, _ => True
  | .lock, (obtained : Bool) => obtained = false
  | .select, _ => True
  | .receive, (payload : Option Bytes) => payload = none
  | _, _ => False

def AcceptCall.Free : (op : AcceptCall) → op.Answer → Prop
  | .select, _ => True
  | .allocate, _ => True
  | .malloc _, _ => True
  | .read _, (block : Option (Block _)) => block = none
  | _, _ => False

section

variable {ι : Type} [DecidableEq ι]

def Gate.setClient (s : Gate ι) (i : ι) (client : Requester) : Gate ι :=
  { s with clients := Function.update s.clients i client }

def Gate.release (s : Gate ι) (i : ι) : Option ι := if s.holder = some i then none else s.holder

/-- A client may leave whenever it does not hold the lock, with or without a connection. -/
inductive Step (conn : ι → Connection) (s : Gate ι) : Gate ι → Prop
  | free {i : ι} {op : Call} {next : op.Answer → ClientProgram Bool} (answer : op.Answer)
      (shape : s.clients i = ⟨.perform op next, []⟩) (possible : op.Free answer) :
      Step conn s (s.setClient i ⟨next answer, []⟩)
  | openIn {i : ι} {next : Unit → ClientProgram Bool}
      (shape : s.clients i = ⟨.perform .openIn next, []⟩) :
      Step conn s { s.setClient i ⟨next (), []⟩ with readers := Function.update s.readers i true }
  | lock {i : ι} {next : Bool → ClientProgram Bool} (shape : s.clients i = ⟨.perform .lock next, []⟩)
      (unlocked : s.holder = none) :
      Step conn s { s.setClient i ⟨next true, []⟩ with holder := some i, order := s.order ++ [i] }
  | write {i : ι} {src moved piece left : Bytes} {next : Bool → ClientProgram Bool}
      (shape : s.clients i = ⟨.perform (.write src) next, moved⟩)
      (split : src = moved ++ (piece ++ left)) :
      Step conn s { s.setClient i ⟨.perform (.write src) next, moved ++ piece⟩ with
        fifo := s.fifo ++ piece }
  | written {i : ι} {src : Bytes} {next : Bool → ClientProgram Bool}
      (shape : s.clients i = ⟨.perform (.write src) next, src⟩) :
      Step conn s (s.setClient i ⟨next true, []⟩)
  | unlock {i : ι} {next : Unit → ClientProgram Bool}
      (shape : s.clients i = ⟨.perform .unlock next, []⟩) :
      Step conn s { s.setClient i ⟨next (), []⟩ with holder := s.release i }
  | close {i : ι} {next : Unit → ClientProgram Bool}
      (shape : s.clients i = ⟨.perform .close next, []⟩) :
      Step conn s { s.setClient i ⟨next (), []⟩ with holder := s.release i }
  | receive {i : ι} {payload : Bytes} {rest : List Bytes} {next : Option Bytes → ClientProgram Bool}
      (shape : s.clients i = ⟨.perform .receive next, []⟩) (arrived : s.inbox i = payload :: rest) :
      Step conn s { s.setClient i ⟨next (some payload), []⟩ with
        inbox := Function.update s.inbox i rest }
  | openOut {i : ι} {next : Unit → ClientProgram Bool}
      (shape : s.clients i = ⟨.perform .openOut next, []⟩)
      (reader : .block (conn i).outFIFOPath.block ∈ s.reading) :
      Step conn s (s.setClient i ⟨next (), []⟩)
  | leave {i : ι} (unlocked : s.holder ≠ some i) :
      Step conn s { s.setClient i ⟨.ret false, []⟩ with readers := Function.update s.readers i false }
  | acceptFree {op : AcceptCall} {next : op.Answer → AcceptProgram (Option Accepted)}
      (answer : op.Answer) (shape : s.server = ⟨.perform op next, []⟩) (possible : op.Free answer) :
      Step conn s { s with server := ⟨next answer, []⟩ }
  | read {size : Nat} {next : Option (Block size) → AcceptProgram (Option Accepted)}
      {got piece rest : Bytes} (shape : s.server = ⟨.perform (.read size) next, got⟩)
      (there : s.fifo = piece ++ rest) (most : (got ++ piece).length ≤ size) :
      Step conn s { s with
        server := ⟨.perform (.read size) next, got ++ piece⟩
        fifo := rest
        current := s.current ++ piece }
  | arrived {size : Nat} {next : Option (Block size) → AcceptProgram (Option Accepted)} {got : Bytes}
      (shape : s.server = ⟨.perform (.read size) next, got⟩) (whole : got.length = size) :
      Step conn s { s with server := ⟨next (some ⟨got, whole⟩), []⟩ }
  | acceptOpenIn {path : Pointer} {next : Unit → AcceptProgram (Option Accepted)}
      (shape : s.server = ⟨.perform (.openIn path) next, []⟩) :
      Step conn s { s with server := ⟨next (), []⟩, reading := s.reading ++ [path] }
  | acceptOpenOut {path : Pointer} {next : Unit → AcceptProgram (Option Accepted)} {i : ι}
      (shape : s.server = ⟨.perform (.openOut path) next, []⟩)
      (same : path = .block (conn i).inFIFOPath.block) (reader : s.readers i = true) :
      Step conn s { s with server := ⟨next (), []⟩, linked := s.linked + 1 }
  | sendOk {path : Pointer} {next : Unit → AcceptProgram (Option Accepted)}
      (shape : s.server = ⟨.perform (.sendOk path) next, []⟩) :
      Step conn s { s with
        server := ⟨next (), []⟩
        inbox := fun i => if path = .block (conn i).inFIFOPath.block then
          s.inbox i ++ [intBytes messageOk] else s.inbox i }
  | accepted {c : Accepted} (shape : s.server = ⟨.ret (some c), []⟩) :
      Step conn s { s with
        server := ⟨connAccept, []⟩
        calls := s.calls ++ [(c, s.current)]
        current := [] }

end

end Fifo

end Iac
