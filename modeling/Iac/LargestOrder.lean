import Mathlib.Data.List.Forall2
import Iac.StockLedger
import Iac.Submission

/-! What comes back for an order that cannot be satisfied, and what becomes of it when it is
submitted again. -/

namespace Iac

open CText Depot

/-! The stock that is read. -/

/-- The stock of the entry's product is read as it is, or it is read as enough. -/
def ReadsStock (c : Circumstances) (db : Database) (item : OrderEntry × Nat) : Prop :=
  (c.refuses (.stock item.2) = false ∧ db.stock item.1.goods < 2 ^ 31) ∨
    item.1.quantity.toInt ≤ stockSeen c db item.1 item.2

theorem min_seen_iff {c : Circumstances} {db : Database} {entry : OrderEntry} {i : Nat}
    (nonnegative : 0 ≤ entry.quantity.toInt) :
    min entry.quantity.toInt (stockSeen c db entry i) =
      min entry.quantity.toInt (db.stock entry.goods) ↔ ReadsStock c db (entry, i) := by
  have stock := db.stock_nonnegative entry.goods
  have lossy := storeSingleNumber_le stock
  have upper := (storeSingleNumber (db.stock entry.goods)).toInt_lt
  unfold ReadsStock stockSeen
  dsimp only
  by_cases refused : c.refuses (.stock i) = true
  · rw [if_pos refused, refused]
    simp only [Bool.true_eq_false, false_and, false_or]
    omega
  · rw [if_neg refused, Bool.eq_false_iff.mpr refused]
    simp only [true_and]
    by_cases small : db.stock entry.goods < 2 ^ 31
    · rw [storeSingleNumber_eq stock small]
      exact iff_of_true rfl (.inl small)
    · omega

/-! Cutting an order to the stock. -/

/-- The same entry with the smaller of its quantity and the stock. -/
structure Cut (db : Database) (requested received : OrderEntry) : Prop where
  productId : received.productId = requested.productId
  price : received.price = requested.price
  quantity : received.quantity.toInt = min requested.quantity.toInt (db.stock requested.goods)

theorem Cut.goods {db : Database} {requested received : OrderEntry} (cut : Cut db requested received) :
    received.goods = requested.goods := by
  rw [OrderEntry.goods, cut.productId, OrderEntry.goods]

theorem OrderEntry.limit_same (stock : Int32) (entry : OrderEntry) :
    (entry.limit stock).productId = entry.productId ∧ (entry.limit stock).price = entry.price := by
  unfold OrderEntry.limit
  split
  · exact ⟨rfl, rfl⟩
  · exact ⟨rfl, rfl⟩

theorem cut_limit_iff {c : Circumstances} {db : Database} {entry : OrderEntry} {i : Nat}
    (known : entry.goods ∈ db.ids) (nonnegative : 0 ≤ entry.quantity.toInt) :
    Cut db entry (entry.limit (getStock c i entry.productId db)) ↔ ReadsStock c db (entry, i) := by
  obtain ⟨productId, price⟩ := OrderEntry.limit_same (getStock c i entry.productId db) entry
  rw [← min_seen_iff nonnegative, ← getStock_seen known, ← OrderEntry.limit_quantity]
  constructor
  · intro cut
    exact cut.quantity
  · intro quantity
    exact ⟨productId, price, quantity⟩

theorem cut_limited_iff {c : Circumstances} {db : Database} {items : List OrderEntry} {i : Nat}
    (known : ∀ entry ∈ items, entry.goods ∈ db.ids)
    (nonnegative : ∀ entry ∈ items, 0 ≤ entry.quantity.toInt) :
    List.Forall₂ (Cut db) items (limited c db i items) ↔
      ∀ item ∈ items.zipIdx i, ReadsStock c db item := by
  induction items generalizing i with
  | nil => simp [limited]
  | cons entry rest ih =>
      simp only [List.forall_mem_cons] at known nonnegative
      rw [limited, List.forall₂_cons, cut_limit_iff known.1 nonnegative.1, ih known.2 nonnegative.2,
        List.zipIdx_cons, List.forall_mem_cons]

theorem covered_cut {c other : Circumstances} {db later : Database} {items : List OrderEntry}
    {i j : Nat} (known : ∀ entry ∈ items, entry.goods ∈ db.ids)
    (nonnegative : ∀ entry ∈ items, 0 ≤ entry.quantity.toInt)
    (reads : ∀ item ∈ items.zipIdx i, ReadsStock c db item)
    (same : later.products = db.products) (answers : ∀ k, other.refuses (.stock k) = false) :
    Covered other later j (limited c db i items) := by
  induction items generalizing i j with
  | nil => trivial
  | cons entry rest ih =>
      simp only [List.forall_mem_cons] at known nonnegative
      rw [List.zipIdx_cons, List.forall_mem_cons] at reads
      refine ⟨?_, ih known.2 nonnegative.2 reads.2⟩
      obtain ⟨productId, _⟩ := OrderEntry.limit_same (getStock c i entry.productId db) entry
      have cut := ((cut_limit_iff known.1 nonnegative.1).mpr reads.1).quantity
      have stock := db.stock_nonnegative entry.goods
      have seen : (getStock other j entry.productId later).toInt =
          (storeSingleNumber (db.stock entry.goods)).toInt := by
        rw [getStock_seen (by rw [Database.ids_congr same]; exact known.1), stockSeen, answers j,
          Database.stock_congr same]
        rfl
      rw [productId, seen, cut]
      rcases reads.1 with ⟨_, small⟩ | enough
      · rw [storeSingleNumber_eq stock small]
        exact min_le_right _ _
      · unfold stockSeen at enough
        dsimp only at enough
        split at enough
        · have least := nonnegative.1
          omega
        · exact le_trans (min_le_left _ _) enough

/-! The largest order that can be filled. -/

/-- A smaller order for the same goods in the same places that the stock can satisfy. -/
structure SubOrder (db : Database) (requested items : List OrderEntry) : Prop where
  below : List.Forall₂ (fun request entry => entry.productId = request.productId ∧
    entry.price = request.price ∧ entry.quantity.toInt ≤ request.quantity.toInt) requested items
  satisfied : ∀ productId ∈ db.ids, ordered productId items ≤ db.stock productId

/-- What a client should have in hands when its order could not be satisfied. -/
structure Largest (db : Database) (requested received : Order) : Prop where
  address : received.address.map cstring = requested.address.map cstring
  entries : List.Forall₂ (Cut db) requested.items received.items
  subOrder : SubOrder db requested.items received.items
  greatest : ∀ items, SubOrder db requested.items items →
    List.Forall₂ (fun entry best => entry.quantity.toInt ≤ best.quantity.toInt) items received.items
  smaller : ∃ pair ∈ requested.items.zip received.items,
    pair.2.quantity.toInt < pair.1.quantity.toInt

theorem ordered_le {db : Database} {items : List OrderEntry}
    (distinct : (items.map OrderEntry.goods).Nodup)
    (enough : ∀ entry ∈ items, entry.quantity.toInt ≤ db.stock entry.goods) (productId : Int) :
    ordered productId items ≤ db.stock productId := by
  by_cases named : ∃ entry ∈ items, entry.goods = productId
  · obtain ⟨entry, member, rfl⟩ := named
    rw [ordered, tally_of_mem _ _ distinct member]
    exact enough entry member
  · have absent : ∀ entry ∈ items, entry.goods ≠ productId := by
      intro entry member same
      exact named ⟨entry, member, same⟩
    rw [ordered, tally_absent _ _ _ absent]
    exact db.stock_nonnegative productId

theorem goods_same {requested items : List OrderEntry}
    (related : List.Forall₂ (fun request entry => entry.productId = request.productId) requested items) :
    items.map OrderEntry.goods = requested.map OrderEntry.goods := by
  induction related with
  | nil => rfl
  | cons same _ ih => rw [List.map_cons, List.map_cons, ih, OrderEntry.goods, same, OrderEntry.goods]

section

variable {db : Database} {requested received : List OrderEntry}

theorem cut_enough (cut : List.Forall₂ (Cut db) requested received) :
    ∀ entry ∈ received, entry.quantity.toInt ≤ db.stock entry.goods := by
  induction cut with
  | nil =>
      intro entry member
      exact absurd member List.not_mem_nil
  | @cons request entry _ _ head _ ih =>
      refine List.forall_mem_cons.mpr ⟨?_, ih⟩
      rw [head.quantity, head.goods]
      exact min_le_right _ _

theorem subOrder_cut (distinct : (requested.map OrderEntry.goods).Nodup)
    (cut : List.Forall₂ (Cut db) requested received) : SubOrder db requested received := by
  have goods := goods_same (cut.imp fun _ _ head => head.productId)
  constructor
  · refine cut.imp ?_
    intro request entry head
    refine ⟨head.productId, head.price, ?_⟩
    rw [head.quantity]
    exact min_le_left _ _
  · intro productId _
    exact ordered_le (goods ▸ distinct) (cut_enough cut) productId

/-- An entry of a sub-order is within the stock, as no other entry has its goods. -/
theorem SubOrder.enough {items : List OrderEntry} (sub : SubOrder db requested items)
    (known : ∀ entry ∈ requested, entry.goods ∈ db.ids)
    (distinct : (requested.map OrderEntry.goods).Nodup) :
    ∀ entry ∈ items, entry.quantity.toInt ≤ db.stock entry.goods := by
  have goods := goods_same (sub.below.imp fun _ _ facts => facts.1)
  intro entry member
  have named : entry.goods ∈ requested.map OrderEntry.goods := by
    rw [← goods]
    exact List.mem_map_of_mem member
  obtain ⟨request, requestMember, same⟩ := List.mem_map.mp named
  have bound := sub.satisfied entry.goods (same ▸ known request requestMember)
  rw [ordered, tally_of_mem _ _ (goods ▸ distinct) member] at bound
  exact bound

theorem greatest_cut {items : List OrderEntry} (cut : List.Forall₂ (Cut db) requested received)
    (below : List.Forall₂ (fun request entry => entry.productId = request.productId ∧
      entry.price = request.price ∧ entry.quantity.toInt ≤ request.quantity.toInt) requested items)
    (enough : ∀ entry ∈ items, entry.quantity.toInt ≤ db.stock entry.goods) :
    List.Forall₂ (fun entry best => entry.quantity.toInt ≤ best.quantity.toInt) items received := by
  induction cut generalizing items with
  | nil =>
      cases below
      exact .nil
  | @cons request best _ _ head _ ih =>
      cases below with
      | @cons _ entry _ _ facts rest =>
          obtain ⟨stock, others⟩ := List.forall_mem_cons.mp enough
          refine .cons ?_ (ih rest others)
          rw [OrderEntry.goods, facts.1] at stock
          rw [head.quantity]
          exact le_min facts.2.2 stock

end

theorem smaller_of_not_covered {c : Circumstances} {db : Database} {items : List OrderEntry} {i : Nat}
    (uncovered : ¬Covered c db i items) : ∃ pair ∈ items.zip (limited c db i items),
      pair.2.quantity.toInt < pair.1.quantity.toInt := by
  induction items generalizing i with
  | nil => exact absurd trivial uncovered
  | cons entry rest ih =>
      rw [limited, List.zip_cons_cons]
      by_cases enough : entry.quantity.toInt ≤ (getStock c i entry.productId db).toInt
      · obtain ⟨pair, member, less⟩ := ih fun covered => uncovered ⟨enough, covered⟩
        exact ⟨pair, List.mem_cons_of_mem _ member, less⟩
      · refine ⟨_, List.mem_cons_self, ?_⟩
        rw [OrderEntry.limit_quantity]
        dsimp only
        omega

/-! The answer. -/

/-- The request is answered with a smaller order. -/
def Unsatisfiable (c : Circumstances) (db : Database) (order : Order) (address : Bytes) : Prop :=
  ∃ bytes reply after, orderSerialize (orderSetAddress order address) = some bytes ∧
    placeOrder c bytes db = some (reply, after) ∧ reply.code = messageUnsatisfiableOrder

/-- The client gets the largest order that can be filled, which is satisfiable from then on. -/
def CutToStock (backend : Backend) (c : Circumstances) (db : Database) (order : Order)
    (address : Bytes) : Prop :=
  ∃ received, Submits backend c db order address (0, received) db ∧
    (∀ result after, Submits backend c db order address result after → result = (0, received)) ∧
    Largest db (orderSetAddress order address) received ∧
    ∀ c' db' address' result after, db'.products = db.products →
      (∀ i, c'.refuses (.stock i) = false) →
      Submits backend c' db' received address' result after → result.1 ≠ 0

/-- What such an answer brings, whatever the stocks that were read. -/
theorem unsatisfiable_received (backend : Backend) {c : Circumstances} {db : Database}
    {order : Order} {address : Bytes} (answered : Unsatisfiable c db order address) :
    ¬Covered c db 0 order.items ∧ ∃ received, Submits backend c db order address (0, received) db ∧
      (∀ result after, Submits backend c db order address result after → result = (0, received)) ∧
      received.address.map cstring = (orderSetAddress order address).address.map cstring ∧
      received.items = limited c db 0 order.items := by
  obtain ⟨bytes, reply, after, encoded, placed, cut⟩ := answered
  obtain ⟨sent, decoded, same, _⟩ := orderUnserialize_encoded encoded []
  rw [List.append_nil] at decoded
  obtain ⟨verified, entries, kept⟩ := verifyOrderStock_spec c sent db
  rw [show sent.items = order.items from same.items] at verified entries
  have answer := placed
  simp only [placeOrder, decoded] at answer
  split at answer
  · exact absurd cut (acceptOrder_reply answer).1
  · rename_i rejected
    simp only [Option.map_eq_some_iff, Prod.mk.injEq] at answer
    obtain ⟨blob, encodedBack, rfl, rfl⟩ := answer
    obtain ⟨received, decodedBack, sameBack, _⟩ := orderUnserialize_encoded encodedBack []
    rw [List.append_nil] at decodedBack
    refine ⟨fun covered => rejected (verified.mpr covered), received, ?_, ?_, ?_, ?_⟩
    · exact submits_iff.mpr ⟨bytes, _, encoded, placed, .unsatisfiable rfl rfl decodedBack⟩
    · intro result other submits
      obtain ⟨again, reply, encodedAgain, placedAgain, outcome⟩ := submits_iff.mp submits
      rw [encoded, Option.some.injEq] at encodedAgain
      subst again
      rw [placed, Option.some.injEq, Prod.mk.injEq] at placedAgain
      obtain ⟨rfl, rfl⟩ := placedAgain
      cases outcome with
      | error failed =>
          exact absurd (show messageUnsatisfiableOrder = messageError from failed) (by decide)
      | placed _ another => exact absurd rfl another
      | unsatisfiable _ sentBack decodes =>
          cases sentBack
          rw [decodedBack, Option.some.injEq] at decodes
          rw [decodes]
    · rw [sameBack.address, kept, same.address]
    · rw [sameBack.items, entries]

theorem Submits.covered {backend : Backend} {c : Circumstances} {db after : Database} {order : Order}
    {address : Bytes} {result : Int32 × Order} (submits : Submits backend c db order address result after)
    (covered : Covered c db 0 order.items) : result.1 ≠ 0 := by
  obtain ⟨bytes, reply, encoded, placed, outcome⟩ := submits_iff.mp submits
  obtain ⟨sent, decoded, same, _⟩ := orderUnserialize_encoded encoded []
  rw [List.append_nil] at decoded
  cases outcome with
  | error => exact (by decide : (-1 : Int32) ≠ 0)
  | placed => exact (by decide : (1 : Int32) ≠ 0)
  | unsatisfiable cut =>
      rcases placeOrder_cases decoded placed with ⟨_, accepted⟩ | ⟨uncovered, _⟩
      · exact absurd cut (acceptOrder_reply accepted).1
      · rw [show sent.items = order.items from same.items] at uncovered
        exact absurd covered uncovered

/-- The order that comes back is the largest one that can be filled exactly where each stock
that decides about a cut is read as it is. -/
theorem unsatisfiable_largest_iff (backend : Backend) {c : Circumstances} {db : Database}
    {order : Order} {address : Bytes} (known : ∀ entry ∈ order.items, entry.goods ∈ db.ids)
    (distinct : (order.items.map OrderEntry.goods).Nodup)
    (nonnegative : ∀ entry ∈ order.items, 0 ≤ entry.quantity.toInt)
    (answered : Unsatisfiable c db order address) :
    CutToStock backend c db order address ↔ ∀ item ∈ order.items.zipIdx,
      (c.refuses (.stock item.2) = false ∧ db.stock item.1.goods < 2 ^ 31) ∨
        item.1.quantity.toInt ≤ stockSeen c db item.1 item.2 := by
  obtain ⟨uncovered, received, submits, only, address, items⟩ := unsatisfiable_received backend answered
  constructor
  · rintro ⟨other, otherSubmits, _, largest, _⟩
    have same := only _ _ otherSubmits
    cases same
    have cut := largest.entries
    rw [items] at cut
    exact (cut_limited_iff known nonnegative).mp cut
  · intro reads
    have cut := (cut_limited_iff known nonnegative).mpr reads
    rw [← items] at cut
    refine ⟨received, submits, only, ?_, ?_⟩
    · constructor
      · exact address
      · exact cut
      · exact subOrder_cut distinct cut
      · intro others sub
        exact greatest_cut cut sub.below (sub.enough known distinct)
      · rw [items]
        exact smaller_of_not_covered uncovered
    · intro c' db' address' result after same answers again
      apply again.covered
      rw [items]
      exact covered_cut known nonnegative reads same answers

/-- The decision, for one database at a time. -/
def isUnsatisfiable (c : Circumstances) (db : Database) (order : Order) (address : Bytes) : Bool :=
  (orderSerialize (orderSetAddress order address)).any fun bytes =>
    (placeOrder c bytes db).any fun answer => answer.1.code = messageUnsatisfiableOrder

theorem unsatisfiable_of_decision {c : Circumstances} {db : Database} {order : Order}
    {address : Bytes} (decision : isUnsatisfiable c db order address = true) :
    Unsatisfiable c db order address := by
  obtain ⟨bytes, encoded, rest⟩ := (Option.any_eq_true _ _).mp decision
  obtain ⟨⟨reply, after⟩, placed, cut⟩ := (Option.any_eq_true _ _).mp rest
  exact ⟨bytes, reply, after, encoded, placed, of_decide_eq_true cut⟩

theorem unsatisfiable_largest_vodka :
    CutToStock .sockets calm init (vodkaOrder [] 70) (ascii "Madero 399") := by
  have answered := @unsatisfiable_of_decision calm init (vodkaOrder [] 70) (ascii "Madero 399")
    (by decide +kernel)
  apply (unsatisfiable_largest_iff .sockets (by decide) (by decide) (by decide) answered).mpr
  decide +kernel

/-- A database with more bottles of product 1 than an `int` can count. -/
def plentiful : Database where
  products := [⟨1, ascii "Vodka", 3000000000, 0x41F40000, some (ascii "Plenty"), by decide⟩]
  orders := []
  orderEntry := []
  lastRowid := 1
  keys := by decide

/-- Five bottles out of three thousand million come back as a negative number of bottles. -/
theorem unsatisfiable_negative :
    (∀ entry ∈ (vodkaOrder [] 5).items, entry.goods ∈ plentiful.ids) ∧
      ((vodkaOrder [] 5).items.map OrderEntry.goods).Nodup ∧
      (∀ entry ∈ (vodkaOrder [] 5).items, 0 ≤ entry.quantity.toInt) ∧
      Unsatisfiable calm plentiful (vodkaOrder [] 5) (ascii "Madero 399") ∧
      ¬CutToStock .sockets calm plentiful (vodkaOrder [] 5) (ascii "Madero 399") := by
  have answered := @unsatisfiable_of_decision calm plentiful (vodkaOrder [] 5) (ascii "Madero 399")
    (by decide +kernel)
  refine ⟨by decide, by decide, by decide, answered, ?_⟩
  rintro ⟨other, otherSubmits, _, largest, _⟩
  obtain ⟨_, received, _, only, _, items⟩ := unsatisfiable_received .sockets answered
  cases only _ _ otherSubmits
  have entries := largest.entries
  have cut : limited calm plentiful 0 (vodkaOrder [] 5).items = [vodka (-1294967296)] := by
    decide +kernel
  rw [items, cut] at entries
  obtain ⟨head, _⟩ := List.forall₂_cons.mp entries
  have quantity := head.quantity
  contradiction

end Iac
