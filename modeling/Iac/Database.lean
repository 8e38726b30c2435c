import Iac.Library.Buffer
import Iac.Library.Sql

/-! The database file: its three tables as `init` of `databaseServer.c` creates them,
and what SQLite does to them for the statements that the server issues. -/

namespace Iac

open CText

/-- A row of `products`; `check` is its constraint `check(quantity >= 0)`. The price is
the `float` that `atof` of the column gives. -/
structure ProductRow where
  id : Int
  name : Bytes
  quantity : Int
  price : UInt32
  description : Option Bytes
  check : 0 ≤ quantity
  deriving DecidableEq, Repr

structure OrderRow where
  id : Int
  total : Sql.Value
  address : Sql.Value
  time : Sql.Value
  deriving DecidableEq, Repr

structure EntryRow where
  id : Int
  orderId : Int
  productId : Int
  quantity : Int
  deriving DecidableEq, Repr

/-- The tables and the connection's last row id; `keys` is the primary key of `products`. -/
structure Database where
  products : List ProductRow
  orders : List OrderRow
  orderEntry : List EntryRow
  lastRowid : Int
  keys : (products.map ProductRow.id).Nodup
  deriving DecidableEq, Repr

/-- What the choice of a new row id by SQLite promises. -/
structure Rowids where
  rowid : List Int → Int
  positive : ∀ ids, 1 ≤ rowid ids
  bounded : ∀ ids, rowid ids < 2 ^ 63

def idColumn : Bytes := ascii "id"
def quantityColumn : Bytes := ascii "quantity"
def productsTable : Bytes := ascii "products"
def ordersTable : Bytes := ascii "orders"
def orderEntryTable : Bytes := ascii "orderEntry"
def ordersColumns : List Bytes := [ascii "total", ascii "address", ascii "time"]
def orderEntryColumns : List Bytes := [ascii "order_id", ascii "product_id", ascii "quantity"]

/-! Single statements. A statement that fails has no result and no effect. -/

def Database.insertOrder (rowids : Rowids) (total address time : Sql.Value) (db : Database) :
    Database :=
  let id := rowids.rowid (db.orders.map OrderRow.id)
  { db with orders := db.orders ++ [⟨id, total, address, time⟩], lastRowid := id }

/-- The foreign keys of `orderEntry` are declared but not enforced. -/
def Database.insertEntry (rowids : Rowids) (orderId productId quantity : Int) (db : Database) :
    Database :=
  let id := rowids.rowid (db.orderEntry.map EntryRow.id)
  { db with orderEntry := db.orderEntry ++ [⟨id, orderId, productId, quantity⟩], lastRowid := id }

def ProductRow.subtract (amount : Nat) (row : ProductRow) : Option ProductRow :=
  if check : 0 ≤ row.quantity - amount then
    some { row with quantity := row.quantity - amount, check }
  else none

/-- Takes `amount` from every row that matches, or fails as a whole. -/
def subtractRows (isMatch : ProductRow → Bool) (amount : Nat) :
    List ProductRow → Option (List ProductRow)
  | [] => some []
  | row :: rest =>
      match if isMatch row then row.subtract amount else some row, subtractRows isMatch amount rest with
      | some row, some rest => some (row :: rest)
      | _, _ => none

theorem ProductRow.subtract_id {amount : Nat} {row taken : ProductRow}
    (done : row.subtract amount = some taken) : taken.id = row.id := by
  unfold ProductRow.subtract at done
  split at done
  · simp only [Option.some.injEq] at done
    subst taken
    rfl
  · simp at done

theorem subtractRows_cons {isMatch : ProductRow → Bool} {amount : Nat} {row : ProductRow}
    {rest taken : List ProductRow}
    (done : subtractRows isMatch amount (row :: rest) = some taken) :
    ∃ first others, taken = first :: others ∧
      (if isMatch row then row.subtract amount else some row) = some first ∧
      subtractRows isMatch amount rest = some others := by
  rw [subtractRows] at done
  split at done
  · rename_i first others head tail
    simp only [Option.some.injEq] at done
    exact ⟨first, others, done.symm, head, tail⟩
  · simp at done

theorem subtractRows_ids {isMatch : ProductRow → Bool} {amount : Nat} {rows taken : List ProductRow}
    (done : subtractRows isMatch amount rows = some taken) :
    taken.map ProductRow.id = rows.map ProductRow.id := by
  induction rows generalizing taken with
  | nil =>
      simp only [subtractRows, Option.some.injEq] at done
      subst taken
      rfl
  | cons row rest ih =>
      obtain ⟨first, others, rfl, head, tail⟩ := subtractRows_cons done
      have same : first.id = row.id := by
        split at head
        · exact ProductRow.subtract_id head
        · simp only [Option.some.injEq] at head
          rw [head]
      simp [ih tail, same]

def Database.updateStock (isMatch : ProductRow → Bool) (amount : Nat) (db : Database) :
    Option Database :=
  match done : subtractRows isMatch amount db.products with
  | some products => some { db with products, keys := by rw [subtractRows_ids done]; exact db.keys }
  | none => none

def hasId (productId : Int) (row : ProductRow) : Bool := row.id = productId

/-- The rows that a `WHERE` clause on the key selects; no clause selects all. -/
def rowFilter : Option (Bytes × Int) → Option (ProductRow → Bool)
  | none => some fun _ => true
  | some (column, key) =>
      if column = idColumn then some (hasId key) else none

def execStatement (rowids : Rowids) (statement : Sql.Statement) (db : Database) :
    Option (Database × List Int) :=
  match statement with
  | .insert table columns row =>
      if table = ordersTable ∧ columns = ordersColumns then
        match row with
        | [total, address, time] => some (db.insertOrder rowids total address time, [])
        | _ => none
      else if table = orderEntryTable ∧ columns = orderEntryColumns then
        match row with
        | [.integer orderId, .integer productId, .integer quantity] =>
            some (db.insertEntry rowids orderId productId quantity, [])
        | _ => none
      else none
  | .update table target source amount condition =>
      if table = productsTable ∧ target = quantityColumn ∧ source = quantityColumn then
        match rowFilter condition with
        | some isMatch => (db.updateStock isMatch amount).map fun db => (db, [])
        | none => none
      else none
  | .select column table condition =>
      if table = productsTable ∧ column = quantityColumn then
        match rowFilter condition with
        | some isMatch => some (db, (db.products.filter isMatch).map ProductRow.quantity)
        | none => none
      else none

/-! Whole query texts. -/

structure QueryResult where
  ok : Bool
  db : Database
  rows : List Int
  deriving DecidableEq, Repr

def carriedOut (rowids : Rowids) (statement : Sql.Statement) (db : Database) : QueryResult :=
  match execStatement rowids statement db with
  | some (after, rows) => ⟨true, after, rows⟩
  | none => ⟨false, db, []⟩

/-- The statements that the server means to issue. -/
inductive Issued : Sql.Statement → Prop
  | order {total time : Sql.Value} (address : Bytes) (isTotal : total.Plain) (isTime : time.Plain) :
      Issued (.insert ordersTable ordersColumns [total, .text address, time])
  | entry {orderId productId quantity : Int} (isOrder : (Sql.Value.integer orderId).Plain)
      (isProduct : (Sql.Value.integer productId).Plain) (isQuantity : (Sql.Value.integer quantity).Plain) :
      Issued (.insert orderEntryTable orderEntryColumns
        [.integer orderId, .integer productId, .integer quantity])
  | update {amount : Nat} {key : Option Int} (isAmount : amount < 2 ^ 63)
      (isKey : ∀ id ∈ key, (Sql.Value.integer id).Plain) :
      Issued (.update productsTable quantityColumn quantityColumn amount (key.map (idColumn, ·)))
  | select {key : Int} (isKey : (Sql.Value.integer key).Plain) :
      Issued (.select quantityColumn productsTable (some (idColumn, key)))

/-- `sqlite3_exec`. Nothing is said about other texts than these: they may do anything. -/
structure Sqlite extends Rowids where
  exec : Bytes → Database → QueryResult
  /-- a single statement of this kind is carried out, or fails as a whole -/
  executes : ∀ {text : Bytes} {statement : Sql.Statement}, Sql.parse text = [some statement] →
    Issued statement → ∀ db, exec text db = carriedOut toRowids statement db
  /-- nothing is executed of a text that begins with a syntax error -/
  rejects : ∀ {text : Bytes}, Sql.BrokenInsert text → ∀ db, exec text db = ⟨false, db, []⟩

instance : CoeOut Sqlite Rowids := ⟨Sqlite.toRowids⟩

/-- `run_query`; `refused` stands for a failure of SQLite's own, such as a locked file. -/
def runQuery (sqlite : Sqlite) (refused : Bool) (query : Bytes) (db : Database) : QueryResult :=
  if refused then ⟨false, db, []⟩ else sqlite.exec (cstring query) db

theorem runQuery_refused (sqlite : Sqlite) (query : Bytes) (db : Database) :
    runQuery sqlite true query db = ⟨false, db, []⟩ := rfl

theorem runQuery_accepted (sqlite : Sqlite) {query : Bytes} {statement : Sql.Statement}
    (parsed : Sql.parse (cstring query) = [some statement]) (issued : Issued statement) (db : Database) :
    runQuery sqlite false query db = carriedOut sqlite statement db :=
  sqlite.executes parsed issued db

theorem runQuery_malformed (sqlite : Sqlite) (refused : Bool) {query : Bytes}
    (broken : Sql.BrokenInsert (cstring query)) (db : Database) :
    runQuery sqlite refused query db = ⟨false, db, []⟩ := by
  cases refused
  · exact sqlite.rejects broken db
  · rfl

/-! One that executes these statements and no others. -/

/-- Runs the statements of a text one by one, each committed on its own, up to the first
that fails. -/
def execScript (rowids : Rowids) : List (Option Sql.Statement) → Database → List Int → QueryResult
  | [], db, rows => ⟨true, db, rows⟩
  | none :: _, db, rows => ⟨false, db, rows⟩
  | some statement :: rest, db, rows =>
      match execStatement rowids statement db with
      | some (db, more) => execScript rowids rest db (rows ++ more)
      | none => ⟨false, db, rows⟩

theorem execStatement_short (rowids : Rowids) {table : Bytes} {columns : List Bytes} {row : List Sql.Value}
    (short : row.length < columns.length) (db : Database) :
    execStatement rowids (.insert table columns row) db = none := by
  unfold execStatement
  dsimp only
  split
  · rename_i isOrder
    split
    · rw [isOrder.2] at short
      exact absurd short (by simp [ordersColumns])
    · rfl
  · split
    · rename_i isEntry
      split
      · rw [isEntry.2] at short
        exact absurd short (by simp [orderEntryColumns])
      · rfl
    · rfl

/-- A connection that knows only the statements of the three forms. -/
def Rowids.sqlite (rowids : Rowids) : Sqlite where
  toRowids := rowids
  exec text db := execScript rowids (Sql.parse text) db []
  executes := by
    intro text statement parsed _ db
    rw [parsed, execScript, carriedOut]
    cases execStatement rowids statement db <;> rfl
  rejects := by
    intro text broken db
    obtain ⟨head, more, parsed, short⟩ := Sql.parse_broken broken
    rw [parsed]
    cases head with
    | none => rfl
    | some statement =>
        obtain ⟨table, columns, row, rfl, few⟩ := short statement rfl
        rw [execScript, execStatement_short rowids few]

/-! Stock by product id. -/

def Database.stock (db : Database) (productId : Int) : Int :=
  ((db.products.filter fun row => row.id = productId).map ProductRow.quantity).headD 0

def Database.ids (db : Database) : List Int := db.products.map ProductRow.id

theorem Database.row_unique (db : Database) {row : ProductRow} (member : row ∈ db.products) :
    db.products.filter (fun other => other.id = row.id) = [row] := by
  have keys := db.keys
  generalize db.products = rows at member keys
  induction rows with
  | nil => simp at member
  | cons first rest ih =>
      simp only [List.map_cons, List.nodup_cons, List.mem_map, not_exists, not_and] at keys
      rcases List.mem_cons.mp member with same | later
      · subst row
        have none_left : rest.filter (fun other => other.id = first.id) = [] := by
          rw [List.filter_eq_nil_iff]
          intro other otherMember
          simpa using keys.1 other otherMember
        simp [none_left]
      · have different : first.id ≠ row.id := fun equal => keys.1 row later equal.symm
        simpa [different] using ih later keys.2

theorem Database.stock_row (db : Database) {row : ProductRow} (member : row ∈ db.products) :
    db.stock row.id = row.quantity := by
  simp [Database.stock, db.row_unique member]

theorem Database.filter_absent (db : Database) {productId : Int} (absent : productId ∉ db.ids) :
    db.products.filter (fun row => row.id = productId) = [] := by
  rw [List.filter_eq_nil_iff]
  intro row member
  have different : row.id ≠ productId := by
    intro equal
    exact absent (equal ▸ List.mem_map_of_mem member)
  simpa using different

theorem Database.stock_absent (db : Database) {productId : Int} (absent : productId ∉ db.ids) :
    db.stock productId = 0 := by
  simp [Database.stock, db.filter_absent absent]

theorem Database.stock_nonnegative (db : Database) (productId : Int) : 0 ≤ db.stock productId := by
  by_cases present : productId ∈ db.ids
  · obtain ⟨row, member, rfl⟩ := List.mem_map.mp present
    rw [db.stock_row member]
    exact row.check
  · rw [db.stock_absent present]

/-! The effect of an `UPDATE` on the stock. -/

theorem ProductRow.subtract_quantity {amount : Nat} {row taken : ProductRow}
    (done : row.subtract amount = some taken) : taken.quantity = row.quantity - amount := by
  unfold ProductRow.subtract at done
  split at done
  · simp only [Option.some.injEq] at done
    subst taken
    rfl
  · simp at done

theorem subtractRows_isSome {isMatch : ProductRow → Bool} {amount : Nat} {rows : List ProductRow} :
    (subtractRows isMatch amount rows).isSome ↔
      ∀ row ∈ rows, isMatch row = true → (amount : Int) ≤ row.quantity := by
  induction rows with
  | nil => simp [subtractRows]
  | cons row rest ih =>
      rw [subtractRows, List.forall_mem_cons, ← ih]
      by_cases matched : isMatch row = true
      · by_cases enough : 0 ≤ row.quantity - amount
        · have bound : (amount : Int) ≤ row.quantity := by omega
          cases tail : subtractRows isMatch amount rest <;>
            simp [matched, ProductRow.subtract, bound]
        · have bound : ¬(amount : Int) ≤ row.quantity := by omega
          simp [matched, ProductRow.subtract, bound]
      · cases tail : subtractRows isMatch amount rest <;> simp [matched]

theorem subtractRows_row {isMatch : ProductRow → Bool} {amount : Nat}
    {rows taken : List ProductRow} (done : subtractRows isMatch amount rows = some taken)
    {row : ProductRow} (member : row ∈ rows) :
    ∃ after ∈ taken, (if isMatch row then row.subtract amount else some row) = some after := by
  induction rows generalizing taken with
  | nil => simp at member
  | cons first rest ih =>
      obtain ⟨head, others, rfl, headDone, tailDone⟩ := subtractRows_cons done
      rcases List.mem_cons.mp member with same | later
      · subst row
        exact ⟨head, by simp, headDone⟩
      · obtain ⟨after, afterMember, facts⟩ := ih tailDone later
        exact ⟨after, List.mem_cons_of_mem _ afterMember, facts⟩

theorem subtractRows_zero (isMatch : ProductRow → Bool) (rows : List ProductRow) :
    subtractRows isMatch 0 rows = some rows := by
  induction rows with
  | nil => rfl
  | cons row rest ih =>
      have unchanged : row.subtract 0 = some row := by
        simp [ProductRow.subtract, row.check]
      simp [subtractRows, ih, unchanged]

theorem Database.updateStock_eq_some {isMatch : ProductRow → Bool} {amount : Nat}
    {db after : Database} (done : db.updateStock isMatch amount = some after) :
    subtractRows isMatch amount db.products = some after.products ∧
      after.orders = db.orders ∧ after.orderEntry = db.orderEntry ∧
      after.lastRowid = db.lastRowid := by
  unfold Database.updateStock at done
  split at done
  · rename_i products rows
    simp only [Option.some.injEq] at done
    subst after
    exact ⟨rows, rfl, rfl, rfl⟩
  · simp at done

theorem Database.updateStock_isSome {isMatch : ProductRow → Bool} {amount : Nat} {db : Database} :
    (db.updateStock isMatch amount).isSome ↔
      ∀ row ∈ db.products, isMatch row = true → (amount : Int) ≤ row.quantity := by
  rw [← subtractRows_isSome]
  unfold Database.updateStock
  split
  · rename_i products rows
    simp [rows]
  · rename_i rows
    simp [rows]

theorem Database.updateStock_ids {isMatch : ProductRow → Bool} {amount : Nat}
    {db after : Database} (done : db.updateStock isMatch amount = some after) :
    after.ids = db.ids :=
  subtractRows_ids (Database.updateStock_eq_some done).1

theorem Database.ext_of {left right : Database} (products : left.products = right.products)
    (orders : left.orders = right.orders) (orderEntry : left.orderEntry = right.orderEntry)
    (lastRowid : left.lastRowid = right.lastRowid) : left = right := by
  cases left
  cases right
  simp_all

/-- An `UPDATE` that takes nothing away changes nothing, whichever rows it names. -/
theorem Database.updateStock_zero (isMatch : ProductRow → Bool) (db : Database) :
    db.updateStock isMatch 0 = some db := by
  have done : (db.updateStock isMatch 0).isSome := by
    rw [Database.updateStock_isSome]
    intro row _ _
    exact row.check
  obtain ⟨after, equal⟩ := Option.isSome_iff_exists.mp done
  obtain ⟨rows, orders, entries, rowid⟩ := Database.updateStock_eq_some equal
  rw [subtractRows_zero, Option.some.injEq] at rows
  rw [equal, Database.ext_of rows.symm orders entries rowid]

theorem Database.updateStock_hasId_isSome {db : Database} {productId : Int} {amount : Nat} :
    (db.updateStock (hasId productId) amount).isSome ↔
      productId ∈ db.ids → (amount : Int) ≤ db.stock productId := by
  rw [Database.updateStock_isSome]
  constructor
  · intro enough present
    obtain ⟨row, member, rfl⟩ := List.mem_map.mp present
    rw [db.stock_row member]
    exact enough row member (by simp [hasId])
  · intro enough row member matched
    have same : row.id = productId := by simpa [hasId] using matched
    subst same
    rw [← db.stock_row member]
    exact enough (List.mem_map_of_mem member)

theorem Database.updateStock_hasId_stock {db after : Database} {productId : Int} {amount : Nat}
    (done : db.updateStock (hasId productId) amount = some after) {other : Int}
    (present : other ∈ db.ids) :
    after.stock other = db.stock other - if productId = other then (amount : Int) else 0 := by
  obtain ⟨row, member, rfl⟩ := List.mem_map.mp present
  obtain ⟨taken, takenMember, step⟩ :=
    subtractRows_row (Database.updateStock_eq_some done).1 member
  rw [db.stock_row member]
  by_cases matched : row.id = productId
  · simp only [hasId, matched, decide_true, if_true] at step
    rw [← ProductRow.subtract_id step, after.stock_row takenMember,
      ProductRow.subtract_quantity step, if_pos ((ProductRow.subtract_id step).trans matched).symm]
  · simp only [hasId, matched, decide_false, Bool.false_eq_true, if_false, Option.some.injEq] at step
    subst taken
    rw [after.stock_row takenMember, if_neg (Ne.symm matched), Int.sub_zero]

theorem Database.updateStock_other {db after : Database} {isMatch : ProductRow → Bool}
    {amount : Nat} (done : db.updateStock isMatch amount = some after) {row : ProductRow}
    (member : row ∈ db.products) (unmatched : isMatch row = false) : row ∈ after.products := by
  obtain ⟨taken, takenMember, step⟩ :=
    subtractRows_row (Database.updateStock_eq_some done).1 member
  simp only [unmatched, Bool.false_eq_true, if_false, Option.some.injEq] at step
  rwa [step]

/-! The tables that `init` leaves in a new file. -/

def initialProducts : List ProductRow :=
  [{ id := 1, name := ascii "Vodka", quantity := 60, price := 0x41F40000,
     description := some (ascii ("A Russian favourite imported from the heart of the coldest " ++
       "place on Earth, Serbia")), check := by decide },
   { id := 2, name := ascii "Gin", quantity := 30, price := 0x42200000,
     description := some (ascii "A Dutch favourite"), check := by decide },
   { id := 3, name := ascii "Chianti", quantity := 40, price := 0x42B40000,
     description := some (ascii "Aged wine imported from the cuore of Tuscany, Italy"),
     check := by decide },
   { id := 4, name := ascii "Fernet", quantity := 100, price := 0x41C80000,
     description := some (ascii ("Want to get drunk at a pregame with your amigos? Nothing beats " ++
       "the terrible hangover that Fernet gives you")), check := by decide },
   { id := 5, name := ascii "Quilmes", quantity := 200, price := 0x41A00000,
     description := some (ascii ("You aren't Argentine until you've drunk Quilmes, the most " ++
       "famous beer in la Tierra de la Plata")), check := by decide }]

def init : Database where
  products := initialProducts
  orders := []
  orderEntry := []
  lastRowid := 5
  keys := by decide

end Iac
