import Iac.KeyboardOrder

/-! What becomes of the first order of a session: `orderPrint` of `common/order.c` on the screen, and
the tables. -/

namespace Iac

open CText Sql SharedPipe

/-! On the screen. -/

def rule : Bytes := ascii "-----------------------------------------------------\n"

def entryLine (numEntries : Int32) (entry : OrderEntry) (i : Nat) : Bytes :=
  itoa (i + 1) ++ ascii " of " ++ itoa numEntries.toInt ++ ascii "\n\tProduct #" ++
    itoa entry.productId.toInt ++ ascii ", unit price $" ++ Binary32.fixed2 (Binary32.ofBits entry.price) ++
    ascii ", quantity " ++ itoa entry.quantity.toInt ++ ascii "\n"

def totalLine (total : Bytes) : Bytes := ascii "GRAND TOTAL: $" ++ total ++ ascii "\n"

def orderPrint (o : Order) : Bytes :=
  rule ++
    (if o.numEntries = 0 then ascii "Empty order (we require more booze!)\n"
    else o.items.zipIdx.flatMap (fun item => entryLine o.numEntries item.1 item.2) ++
      totalLine (Binary32.fixed2 (orderGetTotal o))) ++
    rule

/-! In the tables. -/

/-- Nothing of what was fetched is gone, nor has anything of it been sold since that was not
brought back. -/
def Database.Keeps (now db : Database) : Prop :=
  ∀ productId ∈ db.ids, productId ∈ now.ids ∧ db.stock productId ≤ now.stock productId ∧
    now.stock productId < 2 ^ 31

/-- The stock of every entry can be read. -/
def StockAnswers (c : Circumstances) (order : Order) : Prop :=
  ∀ i < order.items.length, c.refuses (.stock i) = false

/-- Every statement goes through that stores the order and takes its goods. -/
structure Recordable (c : Circumstances) (now : Database) (order : Order) : Prop where
  stored : OrderStored c order
  entries : StoresAll c (newOrderId c now) 0 order.items
  updates : ∀ i < order.items.length, c.refuses (.update i) = false

/-- The order as it was shown and typed in, its goods, and nothing else. -/
structure Receipt (c : Circumstances) (now : Database) (order : Order) (address : Bytes)
    (after : Database) : Prop where
  row : ∃ total, totalLine total <:+: orderPrint order ∧ after.orders = now.orders ++
    [⟨newOrderId c now, .real total, .text address, .integer c.timestamp⟩]
  entries : ∃ rows, after.orderEntry = now.orderEntry ++ rows ∧
    rows.map EntryRow.contents = order.items.map (OrderEntry.contents (newOrderId c now))
  products : after.ids = now.ids
  stock : ∀ productId ∈ now.ids, after.stock productId = now.stock productId - ordered productId order.items
  others : ∀ row ∈ now.products, (∀ entry ∈ order.items, entry.goods ≠ row.id) → row ∈ after.products

/-- What `submitOrder` returns, and the tables after it. -/
inductive Settled (c : Circumstances) (now : Database) (order : Order) (address : Bytes) :
    Int32 → Database → Prop
  | unread (refused : ¬StockAnswers c order) : Settled c now order address 0 now
  | failed {after : Database} (answers : StockAnswers c order) (cut : ¬Recordable c now order) :
      Settled c now order address (-1) after
  | placed {after : Database} (answers : StockAnswers c order) (recordable : Recordable c now order)
      (receipt : Receipt c now order address after) : Settled c now order address 1 after

namespace Keyboard

section

variable {fetched : List Product} {order : Order} {address : Bytes} {c : Circumstances} {db now : Database}

theorem Orders.positive (orders : Orders fetched order address) : order.Positive := by
  intro entry member
  obtain ⟨_, _, _, some_units, _⟩ := orders.amounts entry member
  exact some_units

theorem shown_row {rows : List ProductRow} (shows : List.Forall₂ Shows rows fetched) {product : Product}
    (member : product ∈ fetched) : ∃ row ∈ rows, Shows row product := by
  induction shows with
  | nil => contradiction
  | cons first _ ih =>
      rcases List.mem_cons.mp member with rfl | later
      · exact ⟨_, List.mem_cons_self, first⟩
      · obtain ⟨row, inside, here⟩ := ih later
        exact ⟨row, List.mem_cons_of_mem _ inside, here⟩

/-- What is ordered is in the table, as much as is shown. -/
theorem Orders.shown (orders : Orders fetched order address) (shows : List.Forall₂ Shows db.products fetched)
    {entry : OrderEntry} (member : entry ∈ order.items) :
    entry.goods ∈ db.ids ∧ entry.quantity.toInt ≤ db.stock entry.goods := by
  obtain ⟨product, present, same, _, enough⟩ := orders.amounts entry member
  obtain ⟨row, inside, shown⟩ := shown_row shows present
  have id : row.id = entry.goods := by rw [← shown.id, same, OrderEntry.goods]
  have stock := db.stock_row inside
  rw [id, ← shown.stock] at stock
  exact ⟨id ▸ List.mem_map_of_mem inside, by rw [stock]; exact enough⟩

theorem Orders.kept (orders : Orders fetched order address) (shows : List.Forall₂ Shows db.products fetched)
    (keeps : now.Keeps db) {entry : OrderEntry} (member : entry ∈ order.items) :
    entry.goods ∈ now.ids ∧ entry.quantity.toInt ≤ now.stock entry.goods ∧
      now.stock entry.goods < 2 ^ 31 := by
  obtain ⟨present, enough⟩ := orders.shown shows member
  obtain ⟨still, more, small⟩ := keeps entry.goods present
  exact ⟨still, enough.trans more, small⟩

/-- The order is covered as soon as the stock can be read. -/
theorem Orders.covered_iff (orders : Orders fetched order address)
    (shows : List.Forall₂ Shows db.products fetched) (keeps : now.Keeps db) :
    Covered c now 0 order.items ↔ StockAnswers c order := by
  rw [Iac.covered_iff fun entry member => (orders.kept shows keeps member).1]
  constructor
  · intro covered i inside
    have member : (order.items[i], i) ∈ order.items.zipIdx := by simp [List.mem_zipIdx_iff_getElem?, inside]
    have some_units := orders.positive order.items[i] (List.getElem_mem inside)
    have enough := covered _ member
    by_contra refused
    rw [stockSeen, if_pos (by simpa using refused)] at enough
    dsimp only at enough
    omega
  · rintro answers ⟨entry, i⟩ member
    obtain ⟨inside, same⟩ := List.mem_zipIdx' member
    obtain ⟨_, enough, small⟩ := orders.kept shows keeps (same ▸ List.getElem_mem inside)
    rw [stockSeen, answers i inside, if_neg Bool.false_ne_true,
      storeSingleNumber_eq (now.stock_nonnegative _) small]
    exact enough

/-- So are the goods there. -/
theorem Orders.takesAll_iff (orders : Orders fetched order address)
    (shows : List.Forall₂ Shows db.products fetched) (keeps : now.Keeps db) :
    TakesAll c 0 order.items now ↔ ∀ i < order.items.length, c.refuses (.update i) = false := by
  have taken_ordered : ∀ productId, taken productId order.items = ordered productId order.items := by
    intro productId
    refine ((taken_eq_ordered_iff productId order.items).mpr ?_).symm
    intro entry member _
    exact Int.le_of_lt (orders.positive entry member)
  have enough : ∀ productId ∈ now.ids, taken productId order.items ≤ now.stock productId := by
    intro productId _
    rw [taken_ordered]
    exact ordered_le orders.distinct (fun entry member => (orders.kept shows keeps member).2.1) productId
  simp only [TakesAll, Nat.zero_add]
  exact ⟨fun all => all.1, fun answers => ⟨answers, enough⟩⟩

theorem Orders.counted (orders : Orders fetched order address) : 0 < order.numEntries.toInt := by
  have some_items := List.length_pos_iff.mpr orders.some_entries
  have counted := order.counted
  omega

theorem Orders.clean (orders : Orders fetched order address) :
    (0 : UInt8) ∉ address ∧ doubleQuote ∉ address :=
  ⟨addressText_clean orders.accepted.1, plain_unquoted orders.accepted.1⟩

/-- What the database server makes of what is sent. -/
theorem Orders.sent (orders : Orders fetched order address) :
    ∃ bytes sent, orderSerialize (orderSetAddress order address) = some bytes ∧
      orderUnserialize bytes = some sent ∧ sent.address = some (address ++ [0]) ∧
      sent.numEntries = order.numEntries ∧ sent.items = order.items := by
  obtain ⟨bytes, sent, _, encoded, decoded, _⟩ := orders.decoded
  have clean := orders.clean.1
  have found := (walks_readOrder encoded []).result
  rw [List.append_nil, readOrder_result, decoded, Option.map_some, Option.some.injEq] at found
  obtain ⟨text, numEntries, items⟩ := RawOrder.mk.inj found
  refine ⟨bytes, sent, encoded, decoded, ?_, numEntries, items⟩
  rw [text, decodedAddress, orderSetAddress, Option.map_some, cstring_eq_self clean,
    cstring_append_nul clean]

theorem totalValue_real {total : Binary32.Single} (precise : TotalExact total) :
    totalValue total = .real (Binary32.fixed2 total) := by
  obtain ⟨units, rfl⟩ := totalExact_finite (Nat.le_of_eq precise.symm)
  have point : ¬(Binary32.hundredths (Binary32.nearestEven (units.natAbs * 100) Binary32.one)).all isDigit = true := by
    intro digits
    exact absurd (List.all_eq_true.mp digits Binary32.point (by simp [Binary32.hundredths])) (by decide)
  rw [totalValue, numberValue, if_neg point, Binary32.fixed2, signed]

theorem shows_total (some_entries : order.numEntries ≠ 0) :
    totalLine (Binary32.fixed2 (orderGetTotal order)) <:+: orderPrint order := by
  rw [orderPrint, if_neg some_entries]
  exact ⟨rule ++ order.items.zipIdx.flatMap fun item => entryLine order.numEntries item.1 item.2, rule,
    by simp only [List.append_assoc]⟩

/-- The tables behind an order that is placed. -/
theorem Orders.receipt (orders : Orders fetched order address) {sent : Order} {block : Bytes} {after : Database}
    (text : cstring block = address) (total : orderGetTotal sent = orderGetTotal order)
    (items : sent.items = order.items) (stored : OrderStored c order)
    (takes : takeEntries sent.items (now.withEntries c sent block sent.items) = some after) :
    Receipt c now order address after := by
  have some_entries : order.numEntries ≠ 0 := by
    intro none
    have counted := orders.counted
    rw [none, Int32.toInt_zero] at counted
    omega
  have same := Database.withEntries_products c sent block sent.items now
  have ids := Database.ids_congr same
  obtain ⟨rows, appended, contents⟩ := Database.withEntries_rows c sent block sent.items now
  obtain ⟨kept, rowsKept, entriesKept⟩ := takeEntries_frame takes
  constructor
  · refine ⟨_, shows_total some_entries, ?_⟩
    rw [rowsKept, Database.withEntries_orders, text, total, totalValue_real stored.2.1]
  · exact ⟨rows, by rw [entriesKept, appended], by rw [contents, items]⟩
  · rw [kept, ids]
  · intro productId present
    have taken_ordered : taken productId sent.items = ordered productId order.items := by
      rw [items]
      refine ((taken_eq_ordered_iff productId order.items).mpr ?_).symm
      intro entry member _
      exact Int.le_of_lt (orders.positive entry member)
    rw [takeEntries_stock takes (by rwa [ids]), Database.stock_congr same, taken_ordered]
  · intro row member unnamed
    exact takeEntries_other takes (by rwa [same]) (by rwa [items])

theorem Orders.settled_accepted (orders : Orders fetched order address)
    (shows : List.Forall₂ Shows db.products fetched) (keeps : now.Keeps db) {sent : Order} {block : Bytes}
    (text : cstring block = address) (items : sent.items = order.items) (answers : StockAnswers c order)
    {reply : Reply} {after : Database} (accepted : Iac.Accepted c sent block now reply after)
    {result : Int32 × Order} (outcome : Outcome (orderSetAddress order address) reply result) :
    Settled c now order address result.1 after := by
  have total : orderGetTotal sent = orderGetTotal order := by rw [orderGetTotal, items, orderGetTotal]
  have stored_iff : OrderStored c sent ↔ OrderStored c order := by rw [OrderStored, total, OrderStored]
  have takes_iff := @Orders.takesAll_iff _ _ _ c _ _ orders shows keeps
  have refused : ∀ {after : Database}, ¬Recordable c now order → ∀ {result : Int32 × Order},
      Outcome (orderSetAddress order address) ⟨messageError, none⟩ result →
      Settled c now order address result.1 after := by
    intro after cut result outcome
    cases outcome with
    | error => exact .failed answers cut
    | unsatisfiable wrong => exact absurd wrong (by decide)
    | placed other => exact absurd rfl other
  cases accepted with
  | unstored failed => exact refused (fun recordable => failed (stored_iff.mpr recordable.stored)) outcome
  | cut stored _ within failed =>
      rw [items] at failed
      exact refused (fun recordable => failed recordable.entries) outcome
  | untaken done _ _ _ failed =>
      rw [items, takes_iff] at failed
      exact refused (fun recordable => failed recordable.updates) outcome
  | placed _ stored entries all takes =>
      rw [items] at entries
      rw [items, takes_iff] at all
      have here := stored_iff.mp stored
      cases outcome with
      | error wrong => exact absurd wrong (by decide)
      | unsatisfiable wrong => exact absurd wrong (by decide)
      | placed => exact .placed answers ⟨here, entries, all⟩ (orders.receipt text total items here takes)

theorem Orders.settled (orders : Orders fetched order address)
    (shows : List.Forall₂ Shows db.products fetched) (keeps : now.Keeps db) {backend : Backend}
    {result : Int32 × Order} {after : Database}
    (submits : Submits backend c now order address result after) :
    Settled c now order address result.1 after := by
  obtain ⟨bytes, sent, encoded, decoded, present, _, items⟩ := orders.sent
  obtain ⟨text, reply, again, placed, outcome⟩ := submits_iff.mp submits
  obtain rfl := Option.some.inj (encoded.symm.trans again)
  have block := cstring_append_nul orders.clean.1 []
  rcases placeOrder_cases decoded placed with ⟨covered, accepts⟩ | ⟨uncovered, cut, rfl⟩
  · rw [items, orders.covered_iff shows keeps] at covered
    have clean : doubleQuote ∉ cstring (address ++ [0]) := by
      rw [block]
      exact orders.clean.2
    exact orders.settled_accepted shows keeps block items covered (acceptOrder_cases present clean accepts) outcome
  · rw [items, orders.covered_iff shows keeps] at uncovered
    cases outcome with
    | error failed => exact absurd (failed.symm.trans cut) (by decide)
    | unsatisfiable => exact .unread uncovered
    | placed _ another => exact absurd cut another

/-- An order that was read can be sent back. -/
theorem Orders.sendable (orders : Orders fetched order address) {sent : Order}
    (present : sent.address = some (address ++ [0])) (numEntries : sent.numEntries = order.numEntries) :
    ∃ blob, orderSerialize (verifyOrderStock c sent now).2 = some blob := by
  refine orderSerialize_codable ⟨?_, ?_⟩
  · change 0 ≤ sent.numEntries.toInt
    rw [numEntries]
    exact Int.le_of_lt orders.counted
  · intro block member
    have same : sent.address = some block := member
    obtain rfl := Option.some.inj (present.symm.trans same)
    have short := orders.accepted.2
    rw [cstring_append_nul orders.clean.1]
    exact ⟨by simp [Terminated], by omega⟩

theorem Orders.answered (orders : Orders fetched order address)
    (shows : List.Forall₂ Shows db.products fetched) (keeps : now.Keeps db) (backend : Backend) :
    (∃ result after, Submits backend c now order address result after) ↔
      ¬StockAnswers c order ∨ (orderQuery c (orderGetTotal order) address).isSome := by
  obtain ⟨bytes, sent, encoded, decoded, present, numEntries, items⟩ := orders.sent
  have block := cstring_append_nul orders.clean.1 []
  have total : orderGetTotal sent = orderGetTotal order := by rw [orderGetTotal, items, orderGetTotal]
  have statement : orderStatement c sent = orderQuery c (orderGetTotal order) address := by
    have terminated : Terminated (address ++ [0]) := by simp [Terminated]
    simp only [orderStatement, present, if_pos terminated, block, total]
  have clean : doubleQuote ∉ cstring (address ++ [0]) := by
    rw [block]
    exact orders.clean.2
  obtain ⟨verified, _, _⟩ := verifyOrderStock_spec c sent now
  rw [items, orders.covered_iff shows keeps] at verified
  constructor
  · rintro ⟨result, after, submits⟩
    obtain ⟨text, reply, again, placed, outcome⟩ := submits_iff.mp submits
    obtain rfl := Option.some.inj (encoded.symm.trans again)
    rcases placeOrder_cases decoded placed with ⟨_, accepts⟩ | ⟨uncovered, _⟩
    · cases query : orderStatement c sent with
      | none => simp [acceptOrder, storeVerifiedOrder, query] at accepts
      | some text => exact .inr (by rw [← statement, query, Option.isSome_some])
    · rw [items, orders.covered_iff shows keeps] at uncovered
      exact .inl uncovered
  · intro condition
    by_cases answers : StockAnswers c order
    · obtain ⟨query, fits⟩ := Option.isSome_iff_exists.mp (condition.resolve_left fun wrong => wrong answers)
      obtain ⟨reply, after, accepts, _⟩ := acceptOrder_spec present (statement.trans fits) clean now
      have covered : Covered c now 0 sent.items := by
        rw [items]
        exact (orders.covered_iff shows keeps).mpr answers
      have placed : placeOrder c bytes now = some (reply, after) := by
        simp only [placeOrder, decoded, verified.mpr answers, if_true, verifyOrderStock_verified covered, accepts]
      have other := (acceptOrder_reply accepts).1
      by_cases failed : reply.code = messageError
      · exact ⟨_, after, submits_iff.mpr ⟨bytes, reply, encoded, placed, .error failed⟩⟩
      · exact ⟨_, after, submits_iff.mpr ⟨bytes, reply, encoded, placed, .placed failed other⟩⟩
    · obtain ⟨blob, encodedBack⟩ := @Orders.sendable _ _ _ c now orders _ present numEntries
      have unverified : ¬(verifyOrderStock c sent now).1 = true := fun yes => answers (verified.mp yes)
      have placed : placeOrder c bytes now = some (⟨messageUnsatisfiableOrder, some blob⟩, now) := by
        simp only [placeOrder, decoded, if_neg unverified, encodedBack, Option.map_some]
      obtain ⟨_, received, submits, _⟩ := unsatisfiable_received backend ⟨bytes, _, _, encoded, placed, rfl⟩
      exact ⟨_, _, submits⟩

end

end Keyboard

end Iac
