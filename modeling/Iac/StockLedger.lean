import Iac.PlacementProperties

/-! Stock and recorded entries over whole runs of requests: the tables behave as a depot. -/

namespace Iac

open CText Sql Binary32 Depot

/-! Runs. -/

structure Request where
  circumstances : Circumstances
  bytes : Bytes

def Request.place (request : Request) (db : Database) : Option (Reply × Database) :=
  placeOrder request.circumstances request.bytes db

def serveAll : List Request → Database → Option (List Reply × Database)
  | [], db => some ([], db)
  | request :: rest, db => do
      let (reply, db) ← request.place db
      let (replies, db) ← serveAll rest db
      return (reply :: replies, db)

def isPlain (byte : UInt8) : Bool :=
  isDigit byte || 65 ≤ byte && byte ≤ 90 || 97 ≤ byte && byte ≤ 122 || byte = 32

/-- A request as the client program makes it: distinct known products, quantities that are
not negative, a plain address that fits the query buffer. SQLite may refuse to read the
stock or to store the order, but none of the statements after that. -/
structure Regular (products : List Int) (request : Request) (order : Order) (block : Bytes) :
    Prop where
  decoded : orderUnserialize request.bytes = some order
  address : order.address = some block
  plain : ∀ byte ∈ cstring block, isPlain byte = true
  fits : (orderStatement request.circumstances order).isSome
  distinct : (order.items.map OrderEntry.goods).Nodup
  known : ∀ entry ∈ order.items, entry.goods ∈ products
  quantities : ∀ entry ∈ order.items, 0 ≤ entry.quantity.toInt
  entries : ∀ i, request.circumstances.refuses (.entry i) = false
  updates : ∀ i, request.circumstances.refuses (.update i) = false

/-! The depot behind the tables. -/

def Database.sold (db : Database) (productId : Int) : Int :=
  tally EntryRow.productId EntryRow.quantity productId db.orderEntry

def Database.depot (db : Database) : Depot.State Int := ⟨db.stock, db.sold⟩

theorem covered_taken {c : Circumstances} {db : Database} {items : List OrderEntry}
    (known : ∀ entry ∈ items, entry.goods ∈ db.ids)
    (distinct : (items.map OrderEntry.goods).Nodup) (covered : Covered c db 0 items)
    (productId : Int) : taken productId items ≤ db.stock productId := by
  have each : ∀ i, Covered c db i items → ∀ entry ∈ items, entry.takes ≤ db.stock entry.goods := by
    clear covered distinct
    induction items with
    | nil =>
        intro i _ entry member
        simp at member
    | cons first rest ih =>
        intro i covered entry member
        simp only [List.forall_mem_cons] at known
        rcases List.mem_cons.mp member with rfl | later
        · have bound := covered.1
          have nonnegative := db.stock_nonnegative entry.goods
          rw [getStock_eq] at bound
          split at bound
          · have least : (-1 : Int32).toInt = -1 := by decide
            rw [least] at bound
            simp only [OrderEntry.takes]
            omega
          · have present : entry.productId.toInt ∈ db.ids := known.1
            rw [if_pos present] at bound
            have read := storeSingleNumber_le nonnegative
            simp only [OrderEntry.goods] at read nonnegative ⊢
            simp only [OrderEntry.takes]
            omega
        · exact ih known.2 (i + 1) covered.2 entry later
  by_cases named : ∃ entry ∈ items, entry.goods = productId
  · obtain ⟨entry, member, rfl⟩ := named
    rw [taken, tally_of_mem _ _ distinct member]
    exact each 0 covered entry member
  · have absent : ∀ entry ∈ items, entry.goods ≠ productId := by
      intro entry member same
      exact named ⟨entry, member, same⟩
    rw [taken, tally_absent _ _ _ absent]
    exact db.stock_nonnegative productId

theorem plain_unquoted {address : Bytes} (plain : ∀ byte ∈ address, isPlain byte = true) :
    doubleQuote ∉ address := by
  intro member
  exact absurd (plain doubleQuote member) (by decide)

/-! One request. -/

/-- Exactly one new order, and one row with its id for each entry. -/
def Recorded (items : List OrderEntry) (db after : Database) : Prop :=
  ∃ row rows, after.orders = db.orders ++ [row] ∧ after.orderEntry = db.orderEntry ++ rows ∧
    rows.map EntryRow.contents = items.map (OrderEntry.contents row.id)

/-- What a regular request does to the depot and to the tables. -/
structure Served (items : List OrderEntry) (db after : Database) (reply : Reply) : Prop where
  step : Depot.Step db.depot after.depot
  ids : after.ids = db.ids
  ok : reply.code = messageOk → Recorded items db after
  unsatisfiable : reply.code = messageUnsatisfiableOrder → after = db

theorem depot_congr {left right : Database} (products : left.products = right.products)
    (entries : left.orderEntry = right.orderEntry) : left.depot = right.depot := by
  have stock : left.stock = right.stock := funext (Database.stock_congr products)
  have sold : left.sold = right.sold := by
    funext productId
    rw [Database.sold, Database.sold, entries]
  rw [Database.depot, Database.depot, stock, sold]

section

variable {request : Request} {order : Order} {block : Bytes} {db : Database}

/-- Without refusals the entries can only fail together, because of their order's id. -/
theorem Regular.storesAll_iff (regular : Regular db.ids request order block) :
    StoresAll request.circumstances (newOrderId request.circumstances db) 0 order.items ↔
      order.items = [] ∨ IdExact (newOrderId request.circumstances db) := by
  constructor
  · intro all
    cases items : order.items with
    | nil => exact .inl rfl
    | cons entry rest => exact .inr (all 0 (by simp [items])).2
  · rintro (empty | precise) j bound
    · rw [empty] at bound
      simp at bound
    · exact ⟨regular.entries _, precise⟩

theorem Regular.takesAll (regular : Regular db.ids request order block)
    (covered : Covered request.circumstances db 0 order.items) :
    TakesAll request.circumstances 0 order.items db := by
  constructor
  · intro j _
    exact regular.updates _
  · intro productId _
    exact covered_taken regular.known regular.distinct covered productId

theorem Regular.depot_step (regular : Regular db.ids request order block)
    (covered : Covered request.circumstances db 0 order.items) {after : Database}
    (takes : takeEntries order.items
      (db.withEntries request.circumstances order block order.items) = some after) :
    Depot.Step db.depot after.depot := by
  let goods := fun productId => ordered productId order.items
  have all_taken : ∀ productId, ordered productId order.items = taken productId order.items := by
    intro productId
    apply tally_congr
    intro entry member _
    exact (max_eq_right (regular.quantities entry member)).symm
  have same := Database.withEntries_products request.circumstances order block order.items db
  have frame := takeEntries_frame takes
  have stock : after.stock = fun productId => db.stock productId - goods productId := by
    funext productId
    by_cases present : productId ∈ db.ids
    · have present' : productId ∈
          (db.withEntries request.circumstances order block order.items).ids := by
        rwa [Database.ids_congr same]
      rw [takeEntries_stock takes present', Database.stock_congr same]
      exact congrArg (db.stock productId - ·) (all_taken productId).symm
    · have gone : productId ∉ after.ids := by
        rwa [frame.1, Database.ids_congr same]
      have absent : ∀ entry ∈ order.items, entry.goods ≠ productId := by
        intro entry member equal
        exact present (equal ▸ regular.known entry member)
      have nothing : goods productId = 0 := tally_absent _ _ _ absent
      rw [after.stock_absent gone, db.stock_absent present, nothing]
      rfl
  have sold : after.sold = fun productId => db.sold productId + goods productId := by
    funext productId
    obtain ⟨rows, appended, contents⟩ :=
      Database.withEntries_rows request.circumstances order block order.items db
    rw [Database.sold, frame.2.2, appended, tally_append, recorded_eq contents]
    rfl
  have enough : ∀ productId, 0 ≤ db.depot.stock productId - goods productId := by
    intro productId
    have bound := covered_taken regular.known regular.distinct covered productId
    rw [← all_taken] at bound
    exact Int.sub_nonneg_of_le bound
  have moved : after.depot = ⟨fun productId => db.stock productId - goods productId,
      fun productId => db.sold productId + goods productId⟩ := by
    rw [Database.depot, stock, sold]
  rw [moved]
  exact .sell goods enough

theorem addressLength_lt {c : Circumstances} {total : Single} {address query : Bytes}
    (done : orderQuery c total address = some query) : address.length < 1024 := by
  simp only [orderQuery, Option.bind_eq_bind, Option.bind_eq_some_iff] at done
  obtain ⟨q₁, write₁, q₂, write₂, q₃, write₃, -⟩ := done
  have size₂ : q₂.length = 1024 := by
    rw [sprintfAt_length write₂, sprintfAt_length write₁, c.stackSize]
  have inside := sprintfAt_isSome.mp (Option.isSome_iff_exists.mpr ⟨q₃, write₃⟩)
  rw [size₂, List.length_append, List.length_append] at inside
  omega

/-- The answer to an unsatisfiable order can always be encoded. -/
theorem Regular.serializes (regular : Regular db.ids request order block)
    (uncovered : ¬Covered request.circumstances db 0 order.items) :
    (orderSerialize (verifyOrderStock request.circumstances order db).2).isSome := by
  obtain ⟨query, statement⟩ := Option.isSome_iff_exists.mp regular.fits
  obtain ⟨terminated, text⟩ := orderStatement_eq_some regular.address statement
  have short := addressLength_lt text
  have items_bound := (verifyOrderStock request.circumstances order db).2.fits
  have counted := order.counted
  have some_items : 0 < order.items.length := by
    rw [List.length_pos_iff]
    intro empty
    rw [empty] at uncovered
    exact uncovered trivial
  have address : addressBytes (verifyOrderStock request.circumstances order db).2 =
      some (cstring block ++ [0]) := by
    simp [addressBytes, verifyOrderStock, regular.address, terminated]
  have positive : ¬(verifyOrderStock request.circumstances order db).2.numEntries < 0 := by
    have same : (verifyOrderStock request.circumstances order db).2.numEntries = order.numEntries :=
      rfl
    rw [same, Int32.lt_iff_toInt_lt, Int32.toInt_zero]
    omega
  rw [orderMaxSize] at items_bound
  have size : (cstring block ++ [(0 : UInt8)]).length = (cstring block).length + 1 := by simp
  have bounded : ¬2 ^ 31 ≤ 12 + (cstring block ++ [(0 : UInt8)]).length +
      12 * (verifyOrderStock request.circumstances order db).2.items.length := by
    omega
  rw [orderSerialize, address]
  simp only [if_neg (not_or.mpr ⟨positive, bounded⟩), Option.isSome_some]

theorem Regular.answered (regular : Regular db.ids request order block) :
    ∃ reply after, request.place db = some (reply, after) := by
  by_cases covered : Covered request.circumstances db 0 order.items
  · obtain ⟨query, statement⟩ := Option.isSome_iff_exists.mp regular.fits
    obtain ⟨reply, after, accepted, -⟩ :=
      acceptOrder_spec regular.address statement (plain_unquoted regular.plain) db
    have verified := (verifyOrderStock_spec request.circumstances order db).1.mpr covered
    refine ⟨reply, after, ?_⟩
    rw [Request.place, placeOrder, regular.decoded]
    simp only [verified, if_true, verifyOrderStock_verified covered, accepted]
  · obtain ⟨bytes, encoded⟩ := Option.isSome_iff_exists.mp (regular.serializes covered)
    have unverified : ¬(verifyOrderStock request.circumstances order db).1 = true := by
      rw [(verifyOrderStock_spec request.circumstances order db).1]
      exact covered
    refine ⟨⟨messageUnsatisfiableOrder, some bytes⟩, db, ?_⟩
    rw [Request.place, placeOrder, regular.decoded]
    simp only [if_neg unverified, encoded, Option.map_some]

theorem Regular.served (regular : Regular db.ids request order block) {after : Database}
    {reply : Reply} (placed : request.place db = some (reply, after)) :
    Served order.items db after reply := by
  have clean := plain_unquoted regular.plain
  rcases placeOrder_cases regular.decoded placed with ⟨covered, accepted⟩ | ⟨-, code, rfl⟩
  · cases acceptOrder_cases regular.address clean accepted with
    | unstored failed =>
        refine ⟨.refuse, rfl, ?_, fun _ => rfl⟩
        intro wrong
        exact absurd wrong (by decide)
    | cut stored stored_order within failed wrongId =>
        rw [regular.storesAll_iff, not_or] at failed
        rw [wrongId failed.2]
        have kept : (db.withEntries request.circumstances order block []).depot = db.depot :=
          depot_congr rfl rfl
        refine ⟨kept ▸ .refuse, rfl, ?_, ?_⟩
        · intro wrong
          exact absurd wrong (by decide)
        · intro wrong
          exact absurd wrong (by decide)
    | untaken done _ stored_order entries failed within takes =>
        exact absurd (regular.takesAll covered) failed
    | placed _ stored_order entries all takes =>
        have same := Database.withEntries_products request.circumstances order block order.items db
        have frame := takeEntries_frame takes
        obtain ⟨rows, appended, contents⟩ :=
          Database.withEntries_rows request.circumstances order block order.items db
        refine ⟨regular.depot_step covered takes, ?_, ?_, ?_⟩
        · rw [frame.1, Database.ids_congr same]
        · intro _
          refine ⟨⟨newOrderId request.circumstances db, totalValue (orderGetTotal order),
            .text (cstring block), .integer request.circumstances.timestamp⟩, rows, ?_, ?_, contents⟩
          · rw [frame.2.1, Database.withEntries_orders]
          · rw [frame.2.2, appended]
        · intro wrong
          exact absurd wrong (by decide)
  · refine ⟨.refuse, rfl, ?_, fun _ => rfl⟩
    intro ok
    rw [code] at ok
    exact absurd ok (by decide)

end

/-! Runs of requests. -/

theorem serveAll_steps {initial : Database} {requests : List Request}
    (regular : ∀ request ∈ requests, ∃ order block, Regular initial.ids request order block)
    {db : Database} (ids : db.ids = initial.ids) (steps : Depot.Steps initial.depot db.depot) :
    ∃ replies after, serveAll requests db = some (replies, after) ∧ after.ids = initial.ids ∧
      Depot.Steps initial.depot after.depot := by
  induction requests generalizing db with
  | nil => exact ⟨[], db, rfl, ids, steps⟩
  | cons request rest ih =>
      simp only [List.forall_mem_cons] at regular
      obtain ⟨⟨order, block, first⟩, later⟩ := regular
      rw [← ids] at first
      obtain ⟨reply, middle, placed⟩ := first.answered
      have served := first.served placed
      obtain ⟨replies, after, run, kept, more⟩ :=
        ih later (served.ids.trans ids) (.tail steps served.step)
      refine ⟨reply :: replies, after, ?_, kept, more⟩
      simp [serveAll, placed, run]

/-- After any run of regular requests every product's stock and its recorded entries add up
to the initial stock, and the answers tell what happened to the tables. -/
theorem serveAll_ledger {initial : Database} (fresh : initial.orderEntry = [])
    {earlier : List Request} {request : Request} {order : Order} {block : Bytes}
    (regularEarlier : ∀ other ∈ earlier, ∃ order block, Regular initial.ids other order block)
    (regular : Regular initial.ids request order block) :
    ∃ replies db reply after, serveAll earlier initial = some (replies, db) ∧
      request.place db = some (reply, after) ∧
      (∀ productId, 0 ≤ after.stock productId ∧
        after.stock productId + after.sold productId = initial.stock productId) ∧
      (reply.code = messageOk → Recorded order.items db after) ∧
      (reply.code = messageUnsatisfiableOrder → after = db) := by
  obtain ⟨replies, db, run, ids, steps⟩ := serveAll_steps regularEarlier rfl .refl
  rw [← ids] at regular
  obtain ⟨reply, after, placed⟩ := regular.answered
  have served := regular.served placed
  refine ⟨replies, db, reply, after, run, placed, ?_, served.ok, served.unsatisfiable⟩
  intro productId
  have history := Depot.Steps.tail steps served.step
  refine ⟨history.no_oversell initial.stock_nonnegative productId, ?_⟩
  have conserved := history.conserves productId
  have nothing_sold : initial.sold productId = 0 := by
    rw [Database.sold, fresh]
    rfl
  simp only [Database.depot, nothing_sold, Int.add_zero] at conserved
  exact conserved

theorem vodka_regular {quantity : Int32} (nonnegative : 0 ≤ quantity.toInt)
    (decoded : orderUnserialize (requestBytes (ascii "Madero 399") [vodka quantity]) =
      some (vodkaOrder (ascii "Madero 399") quantity))
    (fits : (orderStatement calm (vodkaOrder (ascii "Madero 399") quantity)).isSome) :
    Regular init.ids ⟨calm, requestBytes (ascii "Madero 399") [vodka quantity]⟩
      (vodkaOrder (ascii "Madero 399") quantity) (ascii "Madero 399" ++ [0]) where
  decoded := decoded
  address := rfl
  plain := by decide
  fits := fits
  distinct := by simp [vodkaOrder]
  known := by
    intro entry member
    rw [List.mem_singleton.mp member]
    exact (by decide : (1 : Int) ∈ init.ids)
  quantities := by
    intro entry member
    rw [List.mem_singleton.mp member]
    exact nonnegative
  entries _ := rfl
  updates _ := rfl

/-- Two orders of forty bottles, of which there are sixty. -/
theorem serveAll_ledger_vodka :
    ∃ replies db reply after,
      serveAll [⟨calm, requestBytes (ascii "Madero 399") [vodka 40]⟩] init = some (replies, db) ∧
      Request.place ⟨calm, requestBytes (ascii "Madero 399") [vodka 40]⟩ db = some (reply, after) ∧
      (∀ productId, 0 ≤ after.stock productId ∧
        after.stock productId + after.sold productId = init.stock productId) ∧
      (reply.code = messageOk → Recorded [vodka 40] db after) ∧
      (reply.code = messageUnsatisfiableOrder → after = db) := by
  have fits : (orderStatement calm (vodkaOrder (ascii "Madero 399") 40)).isSome := by
    decide +kernel
  have regular := vodka_regular (by decide) vodka_decoded fits
  refine serveAll_ledger rfl ?_ regular
  intro other member
  rw [List.mem_singleton.mp member]
  exact ⟨_, _, regular⟩

end Iac
