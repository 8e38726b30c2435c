import Iac.Database
import Iac.Digits
import Iac.Order

/-! How `database/databaseServer.c` places an order. The result is missing where the C
standard leaves the behaviour undefined. -/

namespace Iac

open CText

/-! Message codes of `common/comm.h`. -/

def messageOk : Int32 := 1
def messageClose : Int32 := 2
def cmdGetProducts : Int32 := 3
def cmdPlaceOrder : Int32 := 4
def messageError : Int32 := -1
def messageUnsatisfiableOrder : Int32 := -2

/-- The statements that serving one request may issue. -/
inductive Query
  | count
  | products
  | stock (entry : Nat)
  | order
  | entry (i : Nat)
  | update (i : Nat)
  deriving DecidableEq

/-- What a request meets besides its bytes: SQLite and its own failures, the clock, and
the contents of variables that the code does not initialise. -/
structure Circumstances where
  sqlite : Sqlite
  refuses : Query → Bool
  timestamp : Int
  leftover : Nat → Int32
  stack : Bytes
  stackSize : stack.length = 1024

/-- `strtol` saturates, and the assignment to `int` keeps the low 32 bits. -/
def storeSingleNumber (column : Int) : Int32 :=
  Int32.ofInt (max (-2 ^ 63) (min (2 ^ 63 - 1) column))

theorem storeSingleNumber_eq {column : Int} (nonnegative : 0 ≤ column) (small : column < 2 ^ 31) :
    (storeSingleNumber column).toInt = column := by
  have saturated : max (-2 ^ 63) (min (2 ^ 63 - 1) column) = column := by omega
  rw [storeSingleNumber, saturated]
  exact Int32.toInt_ofInt_of_le (by omega) (by omega)

/-- Reading a column as an `int` may lose bits but never adds to it. -/
theorem storeSingleNumber_le {column : Int} (nonnegative : 0 ≤ column) :
    (storeSingleNumber column).toInt ≤ column := by
  have saturated : max (-2 ^ 63) (min (2 ^ 63 - 1) column) ≤ column ∧
      0 ≤ max (-2 ^ 63) (min (2 ^ 63 - 1) column) := by omega
  have size : ((Int32.size : Nat) : Int) = 2 ^ 32 := rfl
  rw [storeSingleNumber, Int32.toInt_ofInt, Int.bmod_def, size]
  split <;> omega

def snprintf (size : Nat) (text : Bytes) : Bytes := text.take (size - 1) ++ [0]

def stockBase : Bytes := ascii "SELECT quantity FROM products WHERE id="

def stockQuery (productId : Int32) : Bytes :=
  snprintf (stockBase.length + countDigits productId + 1) (stockBase ++ itoa productId.toInt)

theorem stockQuery_whole (productId : Int32) :
    stockQuery productId = stockBase ++ itoa productId.toInt ++ [0] := by
  unfold stockQuery snprintf
  rw [List.take_of_length_le]
  rw [countDigits_eq, List.length_append]
  omega

/-- The callback runs once for each row, so without a row the local `result` stays as it was. -/
def getStock (c : Circumstances) (entry : Nat) (productId : Int32) (db : Database) : Int32 :=
  let result := runQuery c.sqlite (c.refuses (.stock entry)) (stockQuery productId) db
  if result.ok then
    result.rows.foldl (fun _ column => storeSingleNumber column) (c.leftover entry)
  else -1

/-! Verifying. -/

def verifyEntries (c : Circumstances) (db : Database) : Nat → List OrderEntry →
    Bool × List OrderEntry
  | _, [] => (true, [])
  | i, entry :: rest =>
      let stock := getStock c i entry.productId db
      let others := verifyEntries c db (i + 1) rest
      if stock < entry.quantity then (false, { entry with quantity := stock } :: others.2)
      else (others.1, entry :: others.2)

@[simp] theorem verifyEntries_length (c : Circumstances) (db : Database) (i : Nat)
    (items : List OrderEntry) : (verifyEntries c db i items).2.length = items.length := by
  induction items generalizing i with
  | nil => rfl
  | cons entry rest ih =>
      simp only [verifyEntries]
      split <;> simp [ih]

def verifyOrderStock (c : Circumstances) (o : Order) (db : Database) : Bool × Order :=
  let checked := verifyEntries c db 0 o.items
  (checked.1, { o with
    items := checked.2
    counted := by rw [verifyEntries_length]; exact o.counted
    fits := by rw [verifyEntries_length]; exact o.fits })

/-! Storing. -/

def orderBase : Bytes := ascii "INSERT INTO orders (total, address, `time`) VALUES ("

def entryBase : Bytes := ascii "INSERT INTO orderEntry (order_id, product_id, quantity) VALUES ("

/-- The text of the first statement, built at positions computed with `countDigits`. -/
def orderQuery (c : Circumstances) (total : Binary32.Single) (address : Bytes) : Option Bytes := do
  let query ← sprintfAt c.stack 0 orderBase
  let index := orderBase.length
  let query ← sprintfAt query index (Binary32.fixed2 total ++ ascii ",")
  let index := index + (countDigits (Int32.ofInt (Binary32.toInt total)) + 1 + 2 + 1)
  let query ← sprintfAt query index (ascii "\"" ++ address ++ ascii "\",")
  let index := index + (1 + address.length + 1 + 1)
  let query ← sprintfAt query index (itoa c.timestamp ++ ascii ")")
  let index := index + (countDigits (Int32.ofInt c.timestamp) + 1)
  -- query[index] = 0
  sprintfAt query index []

/-- The text of an entry's statement, over what the array held before. -/
def entryQuery (query : Bytes) (orderId : Int) (entry : OrderEntry) : Option Bytes := do
  let query ← sprintfAt query 0 entryBase
  let index := entryBase.length
  let query ← sprintfAt query index (itoa orderId ++ ascii ",")
  let index := index + (countDigits (Int32.ofInt orderId) + 1)
  let query ← sprintfAt query index (itoa entry.productId.toInt ++ ascii ",")
  let index := index + (countDigits entry.productId + 1)
  let query ← sprintfAt query index (itoa entry.quantity.toInt ++ ascii ")")
  let index := index + (countDigits entry.quantity + 1)
  sprintfAt query index []

def storeEntries (c : Circumstances) (orderId : Int) : Nat → List OrderEntry → Bytes → Database →
    Option (Bool × Database)
  | _, [], _, db => some (true, db)
  | i, entry :: rest, query, db =>
      match entryQuery query orderId entry with
      | none => none
      | some query =>
          let result := runQuery c.sqlite (c.refuses (.entry i)) query db
          if result.ok then storeEntries c orderId (i + 1) rest query result.db
          else some (false, result.db)

/-- The first statement of `store_verified_order`; the address must be there and terminated. -/
def orderStatement (c : Circumstances) (o : Order) : Option Bytes :=
  match o.address with
  | none => none
  | some block => if Terminated block then orderQuery c (orderGetTotal o) (cstring block) else none

/-- Returns the new order's id, or -1. -/
def storeVerifiedOrder (c : Circumstances) (o : Order) (db : Database) :
    Option (Int × Database) :=
  match orderStatement c o with
  | none => none
  | some query =>
      let result := runQuery c.sqlite (c.refuses .order) query db
      if result.ok then
        let orderId := result.db.lastRowid
        (storeEntries c orderId 0 o.items query result.db).map fun stored =>
          (if stored.1 then orderId else -1, stored.2)
      else some (-1, result.db)

def updateQuery (query : Bytes) (entry : OrderEntry) : Option Bytes :=
  sprintfAt query 0 (ascii "UPDATE products SET quantity=quantity-" ++ itoa entry.quantity.toInt ++
    ascii " WHERE id=" ++ itoa entry.productId.toInt)

def updateEntries (c : Circumstances) : Nat → List OrderEntry → Bytes → Database →
    Option (Int × Database)
  | _, [], _, db => some (1, db)
  | i, entry :: rest, query, db =>
      match updateQuery query entry with
      | none => none
      | some query =>
          let result := runQuery c.sqlite (c.refuses (.update i)) query db
          if result.ok then updateEntries c (i + 1) rest query result.db
          else some (-1, result.db)

def updateStock (c : Circumstances) (o : Order) (db : Database) : Option (Int × Database) :=
  updateEntries c 0 o.items c.stack db

/-! Answering. -/

/-- What `place_order` writes back: a code, and for an unsatisfiable order its largest
satisfiable part. -/
structure Reply where
  code : Int32
  order : Option Bytes
  deriving DecidableEq, Repr

/-- Stores a verified order and takes its goods; the two calls joined by `||`. -/
def acceptOrder (c : Circumstances) (o : Order) (db : Database) : Option (Reply × Database) :=
  match storeVerifiedOrder c o db with
  | none => none
  | some (orderId, db) =>
      if orderId = -1 then some (⟨messageError, none⟩, db)
      else
        match updateStock c o db with
        | none => none
        | some (updated, db) =>
            if updated = -1 then some (⟨messageError, none⟩, db) else some (⟨messageOk, none⟩, db)

def placeOrder (c : Circumstances) (serialized : Bytes) (db : Database) :
    Option (Reply × Database) :=
  match orderUnserialize serialized with
  | none => none
  | some order =>
      let verified := verifyOrderStock c order db
      if verified.1 then acceptOrder c verified.2 db
      else
        (orderSerialize verified.2).map fun bytes => (⟨messageUnsatisfiableOrder, some bytes⟩, db)

end Iac
