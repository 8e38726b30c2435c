import Iac.InsertQueries
import Iac.Library.Depot

/-! What the passes of `place_order` over an order do to the tables. -/

namespace Iac

open CText Sql Binary32 Depot

/-! Storing the entries. -/

def EntryRow.contents (row : EntryRow) : Int × Int × Int :=
  (row.orderId, row.productId, row.quantity)

/-- The contents of the row that an entry becomes. -/
def OrderEntry.contents (orderId : Int) (entry : OrderEntry) : Int × Int × Int :=
  (orderId, entry.productId.toInt, entry.quantity.toInt)

def Database.insertEntries (rowids : Rowids) (orderId : Int) :
    List OrderEntry → Database → Database
  | [], db => db
  | entry :: rest, db => Database.insertEntries rowids orderId rest
      (db.insertEntry rowids orderId entry.productId.toInt entry.quantity.toInt)

section

variable (rowids : Rowids) (orderId : Int)

@[simp] theorem Database.insertEntries_products (items : List OrderEntry) (db : Database) :
    (db.insertEntries rowids orderId items).products = db.products := by
  induction items generalizing db with
  | nil => rfl
  | cons entry rest ih =>
      rw [Database.insertEntries, ih]
      rfl

@[simp] theorem Database.insertEntries_orders (items : List OrderEntry) (db : Database) :
    (db.insertEntries rowids orderId items).orders = db.orders := by
  induction items generalizing db with
  | nil => rfl
  | cons entry rest ih =>
      rw [Database.insertEntries, ih]
      rfl

theorem Database.insertEntries_rows (items : List OrderEntry) (db : Database) :
    ∃ rows, (db.insertEntries rowids orderId items).orderEntry = db.orderEntry ++ rows ∧
      rows.map EntryRow.contents = items.map (OrderEntry.contents orderId) := by
  induction items generalizing db with
  | nil => exact ⟨[], by simp [Database.insertEntries], rfl⟩
  | cons entry rest ih =>
      obtain ⟨rows, appended, contents⟩ :=
        ih (db.insertEntry rowids orderId entry.productId.toInt entry.quantity.toInt)
      refine ⟨⟨rowids.rowid (db.orderEntry.map EntryRow.id), orderId, entry.productId.toInt,
        entry.quantity.toInt⟩ :: rows, ?_, ?_⟩
      · rw [Database.insertEntries, appended, Database.insertEntry, List.append_assoc]
        rfl
      · rw [List.map_cons, List.map_cons, contents]
        rfl

end

/-- Every entry's statement goes through; without entries there is nothing to fail. -/
def StoresAll (c : Circumstances) (orderId : Int) (i : Nat) (items : List OrderEntry) : Prop :=
  ∀ j < items.length, c.refuses (.entry (i + j)) = false ∧ IdExact orderId

theorem storesAll_cons (c : Circumstances) (orderId : Int) (i : Nat) (entry : OrderEntry)
    (rest : List OrderEntry) :
    StoresAll c orderId i (entry :: rest) ↔
      (c.refuses (.entry i) = false ∧ IdExact orderId) ∧ StoresAll c orderId (i + 1) rest := by
  constructor
  · intro all
    refine ⟨all 0 (by simp), ?_⟩
    intro j bound
    have later := all (j + 1) (by simpa using bound)
    rwa [← Nat.add_assoc, Nat.add_right_comm] at later
  · rintro ⟨first, later⟩ j bound
    cases j with
    | zero => exact first
    | succ j =>
        have here := later j (by simpa using bound)
        rwa [Nat.add_right_comm, Nat.add_assoc] at here

/-- The entries whose statements go through, up to the first that fails. -/
def storedUntil (c : Circumstances) (orderId : Int) : Nat → List OrderEntry → List OrderEntry
  | _, [] => []
  | i, entry :: rest =>
      if c.refuses (.entry i) = false ∧ IdExact orderId then entry :: storedUntil c orderId (i + 1) rest
      else []

theorem storedUntil_prefix (c : Circumstances) (orderId : Int) (i : Nat) (items : List OrderEntry) :
    storedUntil c orderId i items <+: items := by
  induction items generalizing i with
  | nil => exact List.nil_prefix
  | cons entry rest ih =>
      rw [storedUntil]
      split
      · exact List.cons_prefix_cons.mpr ⟨rfl, ih (i + 1)⟩
      · exact List.nil_prefix

theorem storedUntil_all {c : Circumstances} {orderId : Int} {i : Nat} {items : List OrderEntry} :
    storedUntil c orderId i items = items ↔ StoresAll c orderId i items := by
  induction items generalizing i with
  | nil => simp [storedUntil, StoresAll]
  | cons entry rest ih =>
      rw [storedUntil, storesAll_cons, ← ih]
      split
      · rename_i accepted
        simp [accepted]
      · rename_i refused
        simp [refused]

/-- The loop stores these entries and tells whether they are all. -/
theorem storeEntries_done {c : Circumstances} {orderId : Int} {i : Nat} {items : List OrderEntry}
    {query : Bytes} {db : Database} {result : Bool × Database}
    (done : storeEntries c orderId i items query db = some result) :
    (result.1 = true ↔ StoresAll c orderId i items) ∧
      result.2 = db.insertEntries c.sqlite orderId (storedUntil c orderId i items) := by
  induction items generalizing i query db with
  | nil =>
      cases done
      exact ⟨by simp [StoresAll], rfl⟩
  | cons entry rest ih =>
      simp only [storeEntries] at done
      split at done
      · contradiction
      · rename_i written isText
        rw [entryQuery_run (c.refuses (.entry i)) isText db] at done
        rw [storesAll_cons, storedUntil]
        split at done
        · rename_i accepted
          rw [if_pos accepted, Database.insertEntries]
          obtain ⟨all, stored⟩ := ih (by simpa using done)
          exact ⟨by rw [all]; exact ⟨fun later => ⟨accepted, later⟩, fun both => both.2⟩, stored⟩
        · rename_i failed
          rw [if_neg failed]
          simp only [Bool.false_eq_true, if_false, Option.some.injEq] at done
          subst done
          refine ⟨⟨fun impossible => by contradiction, fun both => absurd both.1 failed⟩, rfl⟩

theorem storeEntries_isSome {c : Circumstances} {orderId : Int} (positive : 1 ≤ orderId)
    (bounded : orderId < 2 ^ 63) (i : Nat) (items : List OrderEntry) {query : Bytes}
    (size : query.length = 1024) (db : Database) : (storeEntries c orderId i items query db).isSome := by
  induction items generalizing i query db with
  | nil => rfl
  | cons entry rest ih =>
      obtain ⟨written, isText⟩ :=
        Option.isSome_iff_exists.mp (entryQuery_isSome size (by omega) bounded entry)
      simp only [storeEntries, isText]
      split
      · exact ih _ ((entryQuery_length isText).trans size) _
      · rfl

/-- The loop stores the entries up to the first failure and tells whether there was one. -/
theorem storeEntries_spec {c : Circumstances} {orderId : Int} (positive : 1 ≤ orderId)
    (bounded : orderId < 2 ^ 63) (i : Nat) (items : List OrderEntry) {query : Bytes}
    (size : query.length = 1024) (db : Database) :
    ∃ ok stored, storeEntries c orderId i items query db =
        some (ok, db.insertEntries c.sqlite orderId stored) ∧
      stored <+: items ∧ (ok = true ↔ StoresAll c orderId i items) ∧
      (ok = true → stored = items) ∧ (¬IdExact orderId → stored = []) ∧
      (c.refuses (.entry i) = false → IdExact orderId → items ≠ [] → stored ≠ []) := by
  obtain ⟨⟨ok, after⟩, done⟩ :=
    Option.isSome_iff_exists.mp (storeEntries_isSome positive bounded i items size db)
  obtain ⟨all, rfl⟩ := storeEntries_done done
  refine ⟨ok, storedUntil c orderId i items, done, storedUntil_prefix c orderId i items, all,
    fun isOk => storedUntil_all.mpr (all.mp isOk), fun wrong => ?_, fun answers precise nonempty => ?_⟩
  · cases items with
    | nil => rfl
    | cons entry rest => rw [storedUntil, if_neg fun both => wrong both.2]
  · cases items with
    | nil => contradiction
    | cons entry rest =>
        rw [storedUntil, if_pos ⟨answers, precise⟩]
        exact List.cons_ne_nil _ _

/-! Taking the goods. -/

/-- What an entry takes of its product; a negative quantity takes nothing. -/
def OrderEntry.takes (entry : OrderEntry) : Int := max 0 entry.quantity.toInt

def OrderEntry.goods (entry : OrderEntry) : Int := entry.productId.toInt

/-- What an order takes of one product. -/
def taken (productId : Int) (items : List OrderEntry) : Int :=
  tally OrderEntry.goods OrderEntry.takes productId items

/-- What an order asks for of one product. -/
def ordered (productId : Int) (items : List OrderEntry) : Int :=
  tally OrderEntry.goods (fun entry => entry.quantity.toInt) productId items

theorem recorded_eq {items : List OrderEntry} {rows : List EntryRow} {orderId : Int}
    (contents : rows.map EntryRow.contents = items.map (OrderEntry.contents orderId))
    (productId : Int) :
    tally EntryRow.productId EntryRow.quantity productId rows = ordered productId items := by
  have through := congrArg (tally (fun row : Int × Int × Int => row.2.1) (fun row => row.2.2) productId)
    contents
  rw [tally_map, tally_map] at through
  exact through

theorem taken_nonnegative (productId : Int) (items : List OrderEntry) : 0 ≤ taken productId items := by
  apply tally_nonnegative
  intro entry _ _
  exact le_max_left _ _

def takeEntries : List OrderEntry → Database → Option Database
  | [], db => some db
  | entry :: rest, db => (takeEntry entry db).bind (takeEntries rest)

theorem takeEntry_eq (entry : OrderEntry) (db : Database) :
    takeEntry entry db = db.updateStock (hasId entry.goods) entry.takes.toNat := by
  unfold takeEntry
  split
  · rename_i nonnegative
    congr 1
    simp only [OrderEntry.takes]
    omega
  · rename_i negative
    have nothing : entry.takes.toNat = 0 := by
      simp only [OrderEntry.takes]
      omega
    rw [nothing, Database.updateStock_zero]

theorem takeEntry_frame {entry : OrderEntry} {db after : Database}
    (done : takeEntry entry db = some after) :
    after.ids = db.ids ∧ after.orders = db.orders ∧ after.orderEntry = db.orderEntry := by
  rw [takeEntry_eq] at done
  obtain ⟨-, orders, entries, -⟩ := Database.updateStock_eq_some done
  exact ⟨Database.updateStock_ids done, orders, entries⟩

theorem takeEntries_frame {items : List OrderEntry} {db after : Database}
    (done : takeEntries items db = some after) :
    after.ids = db.ids ∧ after.orders = db.orders ∧ after.orderEntry = db.orderEntry := by
  induction items generalizing db with
  | nil =>
      simp only [takeEntries, Option.some.injEq] at done
      subst after
      exact ⟨rfl, rfl, rfl⟩
  | cons entry rest ih =>
      simp only [takeEntries, Option.bind_eq_some_iff] at done
      obtain ⟨middle, first, later⟩ := done
      obtain ⟨ids, orders, entries⟩ := takeEntry_frame first
      rw [← ids, ← orders, ← entries]
      exact ih later

theorem takeEntry_stock {entry : OrderEntry} {db after : Database}
    (done : takeEntry entry db = some after) {productId : Int} (present : productId ∈ db.ids) :
    after.stock productId =
      db.stock productId - if entry.goods = productId then entry.takes else 0 := by
  have nonnegative : 0 ≤ entry.takes := le_max_left _ _
  rw [takeEntry_eq] at done
  rw [Database.updateStock_hasId_stock done present]
  split
  · omega
  · rfl

theorem takeEntries_stock {items : List OrderEntry} {db after : Database}
    (done : takeEntries items db = some after) {productId : Int} (present : productId ∈ db.ids) :
    after.stock productId = db.stock productId - taken productId items := by
  induction items generalizing db with
  | nil =>
      simp only [takeEntries, Option.some.injEq] at done
      subst after
      simp [taken, tally]
  | cons entry rest ih =>
      simp only [takeEntries, Option.bind_eq_some_iff] at done
      obtain ⟨middle, first, later⟩ := done
      have kept : productId ∈ middle.ids := (takeEntry_frame first).1 ▸ present
      rw [ih later kept, takeEntry_stock first present]
      simp only [taken, tally]
      omega

/-- The goods of all entries can be taken exactly if their sum is there for every product. -/
theorem takeEntries_isSome {items : List OrderEntry} {db : Database} :
    (takeEntries items db).isSome ↔
      ∀ productId ∈ db.ids, taken productId items ≤ db.stock productId := by
  induction items generalizing db with
  | nil =>
      simp only [takeEntries, Option.isSome_some, true_iff]
      intro productId _
      exact db.stock_nonnegative productId
  | cons entry rest ih =>
      have first := @Database.updateStock_hasId_isSome db entry.goods entry.takes.toNat
      rw [← takeEntry_eq] at first
      have nonnegative : 0 ≤ entry.takes := le_max_left _ _
      have sum : ∀ productId, taken productId (entry :: rest) =
          (if entry.goods = productId then entry.takes else 0) + taken productId rest :=
        fun _ => rfl
      rw [takeEntries]
      cases step : takeEntry entry db with
      | none =>
          rw [step] at first
          simp only [Option.isSome_none, Bool.false_eq_true, false_iff] at first
          simp only [Option.bind_none, Option.isSome_none, Bool.false_eq_true, false_iff]
          intro enough
          apply first
          intro present
          have bound := enough entry.goods present
          have others := taken_nonnegative entry.goods rest
          rw [sum, if_pos rfl] at bound
          omega
      | some middle =>
          rw [Option.bind_some, ih, (takeEntry_frame step).1]
          constructor
          · intro enough productId present
            have bound := enough productId present
            rw [takeEntry_stock step present] at bound
            rw [sum]
            omega
          · intro enough productId present
            have bound := enough productId present
            rw [sum] at bound
            rw [takeEntry_stock step present]
            omega

theorem takeEntries_other {items : List OrderEntry} {db after : Database}
    (done : takeEntries items db = some after) {row : ProductRow} (member : row ∈ db.products)
    (unnamed : ∀ entry ∈ items, entry.goods ≠ row.id) : row ∈ after.products := by
  induction items generalizing db with
  | nil =>
      simp only [takeEntries, Option.some.injEq] at done
      rwa [← done]
  | cons entry rest ih =>
      simp only [List.forall_mem_cons] at unnamed
      simp only [takeEntries, Option.bind_eq_some_iff] at done
      obtain ⟨middle, first, later⟩ := done
      rw [takeEntry_eq] at first
      have kept := Database.updateStock_other first member (by simp [hasId, Ne.symm unnamed.1])
      exact ih later kept unnamed.2

/-- Every entry's update goes through. -/
def TakesAll (c : Circumstances) (i : Nat) (items : List OrderEntry) (db : Database) : Prop :=
  (∀ j < items.length, c.refuses (.update (i + j)) = false) ∧
    ∀ productId ∈ db.ids, taken productId items ≤ db.stock productId

theorem takesAll_cons (c : Circumstances) (i : Nat) {entry : OrderEntry} {rest : List OrderEntry}
    {db middle : Database} (step : takeEntry entry db = some middle) :
    TakesAll c i (entry :: rest) db ↔
      c.refuses (.update i) = false ∧ TakesAll c (i + 1) rest middle := by
  rw [TakesAll, TakesAll, ← takeEntries_isSome, ← takeEntries_isSome, takeEntries, step,
    Option.bind_some]
  constructor
  · rintro ⟨accepted, enough⟩
    refine ⟨accepted 0 (by simp), ?_, enough⟩
    intro j bound
    have later := accepted (j + 1) (by simpa using bound)
    rwa [← Nat.add_assoc, Nat.add_right_comm] at later
  · rintro ⟨first, accepted, enough⟩
    refine ⟨?_, enough⟩
    intro j bound
    cases j with
    | zero => exact first
    | succ j =>
        have here := accepted j (by simpa using bound)
        rwa [Nat.add_right_comm, Nat.add_assoc] at here

/-- The tables when the loop is done, or comes to the first statement that fails. -/
def takenUntil (c : Circumstances) : Nat → List OrderEntry → Database → Database
  | _, [], db => db
  | i, entry :: rest, db =>
      match c.refuses (.update i), takeEntry entry db with
      | false, some middle => takenUntil c (i + 1) rest middle
      | _, _ => db

theorem updateEntries_spec (c : Circumstances) (i : Nat) (items : List OrderEntry) {query : Bytes}
    (size : query.length = 1024) (db : Database) :
    ∃ code done, updateEntries c i items query db = some (code, takenUntil c i items db) ∧
      done <+: items ∧ takeEntries done db = some (takenUntil c i items db) ∧
      (code = 1 ∧ TakesAll c i items db ∧ done = items ∨ code = -1 ∧ ¬TakesAll c i items db) := by
  induction items generalizing i query db with
  | nil =>
      refine ⟨1, [], rfl, List.nil_prefix, rfl, .inl ⟨rfl, ⟨?_, ?_⟩, rfl⟩⟩
      · intro j bound
        simp at bound
      · intro productId _
        exact db.stock_nonnegative productId
  | cons entry rest ih =>
      obtain ⟨written, written_eq⟩ := Option.isSome_iff_exists.mp (updateQuery_isSome size entry)
      have written_size : written.length = 1024 := (sprintfAt_length written_eq).trans size
      have run := updateQuery_run c (c.refuses (.update i)) written_eq db
      cases refused : c.refuses (.update i) with
      | true =>
          rw [refused] at run
          have stays : takenUntil c i (entry :: rest) db = db := by rw [takenUntil, refused]
          rw [stays]
          refine ⟨-1, [], ?_, List.nil_prefix, rfl, .inr ⟨rfl, ?_⟩⟩
          · simp [updateEntries, written_eq, refused, run]
          · rintro ⟨accepted, -⟩
            have first := accepted 0 (by simp)
            rw [Nat.add_zero, refused] at first
            contradiction
      | false =>
          rw [refused] at run
          cases step : takeEntry entry db with
          | none =>
              rw [step] at run
              have stays : takenUntil c i (entry :: rest) db = db := by rw [takenUntil, refused, step]
              rw [stays]
              refine ⟨-1, [], ?_, List.nil_prefix, rfl, .inr ⟨rfl, ?_⟩⟩
              · simp [updateEntries, written_eq, refused, run]
              · rintro ⟨-, enough⟩
                rw [← takeEntries_isSome, takeEntries, step] at enough
                simp at enough
          | some middle =>
              rw [step] at run
              have goes_on : takenUntil c i (entry :: rest) db = takenUntil c (i + 1) rest middle := by
                rw [takenUntil, refused, step]
              obtain ⟨code, done, result, within, takes, outcome⟩ := ih (i + 1) written_size middle
              rw [goes_on]
              refine ⟨code, entry :: done, ?_, List.cons_prefix_cons.mpr ⟨rfl, within⟩, ?_, ?_⟩
              · simp only [updateEntries, written_eq, refused, run, if_true, result]
              · rw [takeEntries, step, Option.bind_some, takes]
              · rw [takesAll_cons c i step]
                rcases outcome with ⟨one, all, whole⟩ | ⟨minus, short⟩
                · exact .inl ⟨one, ⟨refused, all⟩, by rw [whole]⟩
                · exact .inr ⟨minus, fun both => short both.2⟩

/-! Verifying. -/

/-- No entry asks for more than the stock that is read for it. -/
def Covered (c : Circumstances) (db : Database) : Nat → List OrderEntry → Prop
  | _, [] => True
  | i, entry :: rest =>
      entry.quantity.toInt ≤ (getStock c i entry.productId db).toInt ∧ Covered c db (i + 1) rest

theorem Covered.each {c : Circumstances} {db : Database} {i : Nat} {items : List OrderEntry}
    (covered : Covered c db i items) : ∀ item ∈ items.zipIdx i,
      item.1.quantity.toInt ≤ (getStock c item.2 item.1.productId db).toInt := by
  induction items generalizing i with
  | nil => exact fun item member => absurd member List.not_mem_nil
  | cons entry rest ih =>
      rw [List.zipIdx_cons, List.forall_mem_cons]
      exact ⟨covered.1, ih covered.2⟩

def OrderEntry.limit (stock : Int32) (entry : OrderEntry) : OrderEntry :=
  if stock < entry.quantity then { entry with quantity := stock } else entry

/-- The entries, each cut to the stock that is read for it. -/
def limited (c : Circumstances) (db : Database) : Nat → List OrderEntry → List OrderEntry
  | _, [] => []
  | i, entry :: rest =>
      entry.limit (getStock c i entry.productId db) :: limited c db (i + 1) rest

theorem OrderEntry.limit_goods (stock : Int32) (entry : OrderEntry) :
    (entry.limit stock).goods = entry.goods := by
  unfold OrderEntry.limit
  split <;> rfl

theorem OrderEntry.limit_quantity (stock : Int32) (entry : OrderEntry) :
    (entry.limit stock).quantity.toInt = min entry.quantity.toInt stock.toInt := by
  unfold OrderEntry.limit
  split
  · rename_i short
    rw [Int32.lt_iff_toInt_lt] at short
    exact (min_eq_right (le_of_lt short)).symm
  · rename_i enough
    rw [Int32.lt_iff_toInt_lt, not_lt] at enough
    exact (min_eq_left enough).symm

theorem verifyEntries_spec (c : Circumstances) (db : Database) (i : Nat) (items : List OrderEntry) :
    ((verifyEntries c db i items).1 = true ↔ Covered c db i items) ∧
      (verifyEntries c db i items).2 = limited c db i items := by
  induction items generalizing i with
  | nil => simp [verifyEntries, Covered, limited]
  | cons entry rest ih =>
      obtain ⟨rest_covered, rest_limited⟩ := ih (i + 1)
      simp only [verifyEntries, Covered, limited, OrderEntry.limit]
      split
      · rename_i short
        refine ⟨?_, by rw [rest_limited]⟩
        rw [Int32.lt_iff_toInt_lt] at short
        simp only [Bool.false_eq_true, false_iff, not_and]
        intro enough
        exact absurd short (not_lt.mpr enough)
      · rename_i enough
        refine ⟨?_, by rw [rest_limited]⟩
        rw [Int32.lt_iff_toInt_lt, not_lt] at enough
        rw [rest_covered]
        exact ⟨fun later => ⟨enough, later⟩, fun both => both.2⟩

theorem limited_of_covered {c : Circumstances} {db : Database} {i : Nat} {items : List OrderEntry}
    (covered : Covered c db i items) : limited c db i items = items := by
  induction items generalizing i with
  | nil => rfl
  | cons entry rest ih =>
      have enough : ¬getStock c i entry.productId db < entry.quantity := by
        rw [Int32.lt_iff_toInt_lt, not_lt]
        exact covered.1
      rw [limited, OrderEntry.limit, if_neg enough, ih covered.2]

theorem verifyOrderStock_spec (c : Circumstances) (o : Order) (db : Database) :
    ((verifyOrderStock c o db).1 = true ↔ Covered c db 0 o.items) ∧
      (verifyOrderStock c o db).2.items = limited c db 0 o.items ∧
      (verifyOrderStock c o db).2.address = o.address := by
  obtain ⟨covered, entries⟩ := verifyEntries_spec c db 0 o.items
  exact ⟨covered, entries, rfl⟩

theorem verifyOrderStock_verified {c : Circumstances} {o : Order} {db : Database}
    (covered : Covered c db 0 o.items) : (verifyOrderStock c o db).2 = o := by
  have entries := (verifyEntries_spec c db 0 o.items).2
  rw [limited_of_covered covered] at entries
  cases o
  simp only [verifyOrderStock] at entries ⊢
  simp [entries]

/-! Accepting. -/

/-- The id that the next order gets. -/
def newOrderId (c : Circumstances) (db : Database) : Int :=
  c.sqlite.rowid (db.orders.map OrderRow.id)

/-- The order's own statement goes through. -/
def OrderStored (c : Circumstances) (o : Order) : Prop :=
  c.refuses .order = false ∧ TotalExact (orderGetTotal o) ∧ TimeExact c.timestamp

instance (c : Circumstances) (o : Order) : Decidable (OrderStored c o) := inferInstanceAs (Decidable (_ ∧ _ ∧ _))

def Database.withOrder (c : Circumstances) (o : Order) (block : Bytes) (db : Database) : Database :=
  db.insertOrder c.sqlite (totalValue (orderGetTotal o)) (.text (cstring block))
    (.integer c.timestamp)

/-- The tables once a verified order and all its entries are stored. -/
def Database.withEntries (c : Circumstances) (o : Order) (block : Bytes) (items : List OrderEntry)
    (db : Database) : Database :=
  (db.withOrder c o block).insertEntries c.sqlite (newOrderId c db) items

@[simp] theorem Database.withEntries_products (c : Circumstances) (o : Order) (block : Bytes)
    (items : List OrderEntry) (db : Database) :
    (db.withEntries c o block items).products = db.products :=
  Database.insertEntries_products _ _ _ _

@[simp] theorem Database.withEntries_orders (c : Circumstances) (o : Order) (block : Bytes)
    (items : List OrderEntry) (db : Database) :
    (db.withEntries c o block items).orders = db.orders ++ [⟨newOrderId c db,
      totalValue (orderGetTotal o), .text (cstring block), .integer c.timestamp⟩] :=
  Database.insertEntries_orders _ _ _ _

theorem Database.withEntries_rows (c : Circumstances) (o : Order) (block : Bytes)
    (items : List OrderEntry) (db : Database) :
    ∃ rows, (db.withEntries c o block items).orderEntry = db.orderEntry ++ rows ∧
      rows.map EntryRow.contents = items.map (OrderEntry.contents (newOrderId c db)) :=
  Database.insertEntries_rows _ _ _ _

theorem Database.ids_congr {left right : Database} (same : left.products = right.products) :
    left.ids = right.ids := congrArg (List.map ProductRow.id) same

theorem Database.stock_congr {left right : Database} (same : left.products = right.products)
    (productId : Int) : left.stock productId = right.stock productId := by
  unfold Database.stock
  rw [same]

theorem takesAll_congr {c : Circumstances} {i : Nat} {items : List OrderEntry}
    {left right : Database} (same : left.products = right.products) :
    TakesAll c i items left ↔ TakesAll c i items right := by
  simp only [TakesAll, Database.ids_congr same, Database.stock_congr same]

/-- The tables when these statements are done, or come to the first that fails. -/
def Database.behind (c : Circumstances) (items : List OrderEntry) (opened : Database) : Database :=
  let entries := storedUntil c opened.lastRowid 0 items
  let stored := opened.insertEntries c.sqlite opened.lastRowid entries
  if entries = items ∧ opened.lastRowid ≠ -1 then takenUntil c 0 items stored else stored

/-- All ways in which accepting an order can end. -/
inductive Accepted (c : Circumstances) (o : Order) (block : Bytes) (db : Database) :
    Reply → Database → Prop
  | unstored (failed : ¬OrderStored c o) : Accepted c o block db ⟨messageError, none⟩ db
  | cut (stored : List OrderEntry) (order : OrderStored c o) (within : stored <+: o.items)
      (failed : ¬StoresAll c (newOrderId c db) 0 o.items)
      (wrongId : ¬IdExact (newOrderId c db) → stored = [])
      (first : c.refuses (.entry 0) = false → IdExact (newOrderId c db) → stored ≠ []) :
      Accepted c o block db ⟨messageError, none⟩ (db.withEntries c o block stored)
  | untaken (done : List OrderEntry) (after : Database) (order : OrderStored c o)
      (entries : StoresAll c (newOrderId c db) 0 o.items) (failed : ¬TakesAll c 0 o.items db)
      (within : done <+: o.items)
      (takes : takeEntries done (db.withEntries c o block o.items) = some after) :
      Accepted c o block db ⟨messageError, none⟩ after
  | placed (after : Database) (order : OrderStored c o)
      (entries : StoresAll c (newOrderId c db) 0 o.items) (all : TakesAll c 0 o.items db)
      (takes : takeEntries o.items (db.withEntries c o block o.items) = some after) :
      Accepted c o block db ⟨messageOk, none⟩ after

theorem orderStatement_eq_some {c : Circumstances} {o : Order} {block query : Bytes}
    (address : o.address = some block) (done : orderStatement c o = some query) :
    Terminated block ∧ orderQuery c (orderGetTotal o) (cstring block) = some query := by
  simp only [orderStatement, address] at done
  split at done
  · rename_i terminated
    exact ⟨terminated, done⟩
  · contradiction

theorem acceptOrder_spec {c : Circumstances} {o : Order} {block query : Bytes}
    (address : o.address = some block) (statement : orderStatement c o = some query)
    (clean : doubleQuote ∉ cstring block) (db : Database) :
    ∃ reply after, acceptOrder c o db = some (reply, after) ∧ Accepted c o block db reply after := by
  obtain ⟨-, fits⟩ := orderStatement_eq_some address statement
  have run := orderQuery_run clean (cstring_no_nul block) (c.refuses .order) fits db
  by_cases order : OrderStored c o
  · rw [OrderStored] at order
    rw [if_pos order] at run
    have positive : 1 ≤ newOrderId c db := c.sqlite.positive _
    have bounded : newOrderId c db < 2 ^ 63 := c.sqlite.bounded _
    have valid : newOrderId c db ≠ -1 := by omega
    obtain ⟨ok, stored, result, within, succeeds, whole, wrongId, first⟩ :=
      storeEntries_spec positive bounded 0 o.items (orderQuery_length fits) (db.withOrder c o block)
    have store : storeVerifiedOrder c o db =
        some (if ok then newOrderId c db else -1, db.withEntries c o block stored) := by
      have rowid : (db.withOrder c o block).lastRowid = newOrderId c db := rfl
      simp only [storeVerifiedOrder, statement, run, if_true]
      rw [← Database.withOrder, rowid, result]
      rfl
    cases ok with
    | false =>
        have failed : ¬StoresAll c (newOrderId c db) 0 o.items := by
          intro all
          exact absurd (succeeds.mpr all) (by simp)
        have some_items : o.items ≠ [] := by
          intro empty
          apply failed
          rw [empty]
          intro j bound
          contradiction
        refine ⟨⟨messageError, none⟩, db.withEntries c o block stored, ?_, .cut stored order within failed
          wrongId fun answers precise => first answers precise some_items⟩
        simp [acceptOrder, store]
    | true =>
        have entries := succeeds.mp rfl
        rw [whole rfl] at store
        obtain ⟨code, done, update, prefixed, takes, outcome⟩ :=
          updateEntries_spec c 0 o.items c.stackSize (db.withEntries c o block o.items)
        generalize takenUntil c 0 o.items (db.withEntries c o block o.items) = after at update takes
        rw [takesAll_congr (Database.withEntries_products c o block o.items db)] at outcome
        rcases outcome with ⟨one, all, complete⟩ | ⟨minus, short⟩
        · rw [complete] at takes
          refine ⟨⟨messageOk, none⟩, after, ?_, .placed after order entries all takes⟩
          simp [acceptOrder, store, valid, updateStock, update, one]
        · refine ⟨⟨messageError, none⟩, after, ?_, .untaken done after order entries short prefixed takes⟩
          simp [acceptOrder, store, valid, updateStock, update, minus]
  · rw [OrderStored] at order
    rw [if_neg order] at run
    refine ⟨⟨messageError, none⟩, db, ?_, .unstored order⟩
    simp [acceptOrder, storeVerifiedOrder, statement, run]

theorem acceptOrder_cases {c : Circumstances} {o : Order} {block : Bytes} {db after : Database}
    {reply : Reply} (address : o.address = some block) (clean : doubleQuote ∉ cstring block)
    (done : acceptOrder c o db = some (reply, after)) : Accepted c o block db reply after := by
  cases statement : orderStatement c o with
  | none => simp [acceptOrder, storeVerifiedOrder, statement] at done
  | some query =>
      obtain ⟨reply', after', result, outcome⟩ := acceptOrder_spec address statement clean db
      rw [result] at done
      simp only [Option.some.injEq, Prod.mk.injEq] at done
      rw [← done.1, ← done.2]
      exact outcome

/-- A request is accepted, or it is answered without touching the tables. -/
theorem placeOrder_cases {c : Circumstances} {serialized : Bytes} {order : Order}
    {db after : Database} {reply : Reply} (decoded : orderUnserialize serialized = some order)
    (done : placeOrder c serialized db = some (reply, after)) :
    (Covered c db 0 order.items ∧ acceptOrder c order db = some (reply, after)) ∨
      (¬Covered c db 0 order.items ∧ reply.code = messageUnsatisfiableOrder ∧ after = db) := by
  simp only [placeOrder, decoded] at done
  split at done
  · rename_i verified
    have covered := (verifyOrderStock_spec c order db).1.mp verified
    rw [verifyOrderStock_verified covered] at done
    exact .inl ⟨covered, done⟩
  · rename_i unverified
    right
    simp only [Option.map_eq_some_iff, Prod.mk.injEq] at done
    obtain ⟨bytes, _, same, kept⟩ := done
    refine ⟨fun covered => unverified ((verifyOrderStock_spec c order db).1.mpr covered), ?_, kept.symm⟩
    rw [← same]

end Iac
