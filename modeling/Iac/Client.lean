import Iac.Session

/-! The client of `client/client.c`: fetching the products and submitting an order. -/

namespace Iac

open CText Interaction SharedPipe

def allocation {size : Nat} : Option (Block size) → Pointer
  | none => .null
  | some block => .block block.val

namespace Client

/-! Products. -/

/-- The size of the array of products: `malloc(*numProducts)`. -/
def arraySize (numProducts : Int32) : Nat := (numProducts.toInt % 2 ^ 64).toNat

/-- The loop over the products; a block is allocated for each of them with a size that nobody
has set, and dropped. -/
def receiveProducts (backend : Backend) (array : Bool) : Nat → ForkedProgram (List Product)
  | 0 => .ret []
  | count + 1 => do
      let serializedLen ← own (.uninitialised 8)
      let serialized ← own (.malloc (fromLittleEndian serializedLen))
      let received ← connReceive backend serializedLen.val (allocation serialized)
      match received.data with
      | .block contents =>
          match productUnserialize contents, array with
          | some product, true =>
              let rest ← receiveProducts backend array count
              return product :: rest
          | _, _ => undefinedStep
      | _ => undefinedStep

/-- The count and the products, or nothing for the result -1. -/
def requestProducts (backend : Backend) : ForkedProgram (Option (Int32 × List Product)) := do
  let _ ← sendInt (intBytes cmdGetProducts)
  let responseLength ← own (.uninitialised 8)
  let received ← connReceive backend responseLength.val .stray
  match received.data with
  | .block serverResponse =>
      match field serverResponse 0 4 with
      | some response =>
          let responseCode := bytesInt response
          if responseCode = messageError then return none
          else
            let products ← own (.malloc (arraySize responseCode))
            let received ← receiveProducts backend products.isSome responseCode.toInt.toNat
            return some (responseCode, received)
      | none => undefinedStep
  | _ => undefinedStep

/-! An order, as it is put together. -/

/-- A negative stock is refused, with the result 0. -/
def productSetStock (p : Product) (newStock : Int32) : Int32 × Product :=
  if newStock < 0 then (0, p) else (1, { p with stock := newStock })

/-- A difference of two `int`s that must be an `int` again. -/
def subInt (left right : Int32) : Option Int32 :=
  let difference := left.toInt - right.toInt
  if -2 ^ 31 ≤ difference ∧ difference < 2 ^ 31 then some (Int32.ofInt difference) else none

/-- The first of the numbers typed in that is accepted. -/
def chooseAmount (availStock : Int32) (typed : List Int32) : Option Int32 :=
  typed.find? fun num => ¬(num < 0 ∨ availStock < num)

/-- There is no result without such a product, without an accepted number, and where the sum of
two quantities or what is left of the stock is no `int`. -/
def addToOrder (index : Nat) (products : List Product) (order : Order) (typed : List Int32) :
    Option (List Product × Order) := do
  let product ← products[index]?
  let availStock := product.stock
  let num ← chooseAmount availStock typed
  if num = 0 then return (products, order)
  else
    let (result, order) ← orderAdd order product.id num product.price
    if result = -1 then return (products, order)
    else
      let newStock ← subInt availStock num
      return (products.set index (productSetStock product newStock).2, order)

/-! The address. -/

def isalnum (c : UInt8) : Bool :=
  48 ≤ c && c ≤ 57 || 65 ≤ c && c ≤ 90 || 97 ≤ c && c ≤ 122

def newline : UInt8 := 10

def space : UInt8 := 32

/-- The inner loop with so much room in the array: what it stores, whether it comes to the end of
the line, and what is left to read. -/
def enterAddress : Nat → Bytes → Bytes × Bool × Bytes
  | 0, input => ([], false, input)
  | _, [] => ([], false, [])
  | room + 1, c :: input =>
      if c = newline then ([], true, input)
      else if isalnum c || c = space then
        let (address, valid, rest) := enterAddress room input
        (c :: address, valid, rest)
      else ([], false, input)

/-- The rest of the entry; without a newline this never ends. -/
def consumeRest : Bytes → Option Bytes
  | [] => none
  | c :: input => if c = newline then some input else consumeRest input

/-- The outer loop; each entry that is rejected ends with a newline of its own. -/
def readAddressRounds : Nat → Bytes → Option (Bytes × Bytes)
  | 0, _ => none
  | rounds + 1, input =>
      let (address, valid, rest) := enterAddress 1023 input
      if valid then some (address, rest)
      else (consumeRest rest).bind (readAddressRounds rounds)

/-- The address that `submitOrder` takes from what is typed in. -/
def readAddress (input : Bytes) : Option (Bytes × Bytes) := readAddressRounds (input.length + 1) input

/-! Submitting it. -/

/-- What follows the code of the answer; the order that comes with it replaces the client's. -/
def readAnswer (backend : Backend) (order : Order) (buffSize : Bytes) (responseCode : Int32) :
    ForkedProgram (Int32 × Order) :=
  if responseCode = messageError then return (-1, order)
  else if responseCode = messageUnsatisfiableOrder then do
    let received ← connReceive backend buffSize .stray
    if received.ok then
      match received.data with
      | .block buff =>
          match orderUnserialize buff with
          | some order => return (0, order)
          | none => undefinedStep
      | _ => undefinedStep
    else return (-1, order)
  else return (1, order)

/-- The first part of the answer is an `int`, its length is ignored. -/
def awaitAnswer (backend : Backend) (order : Order) (buffSize : Bytes) :
    ForkedProgram (Int32 × Order) := do
  let lenAux ← own (.uninitialised 8)
  let received ← connReceive backend lenAux.val .stray
  if received.ok then
    match received.data with
    | .block response =>
        match field response 0 4 with
        | some code => readAnswer backend order buffSize (bytesInt code)
        | none => undefinedStep
    | _ => undefinedStep
  else return (-1, order)

def submitOrder (backend : Backend) (order : Order) (address : Bytes) :
    ForkedProgram (Int32 × Order) := do
  let order := orderSetAddress order address
  if ← sendInt (intBytes cmdPlaceOrder) then
    match orderSerialize order with
    | some buff =>
        if ← connSend (.block buff) buff.length then
          awaitAnswer backend order (sizeBytes buff.length)
        else return (-1, order)
    | none => undefinedStep
  else return (-1, order)

end Client

end Iac
