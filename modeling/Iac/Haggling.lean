import Iac.LargestOrder

/-! An order that is submitted again each time it comes back smaller, while others buy and the command line
changes the stocks. -/

namespace Iac

open CText

/-- A submission that is answered with a smaller order. -/
structure Round where
  circumstances : Circumstances
  db : Database
  address : Bytes
  after : Database

/-- The first order, what was met each time, and the order that the client has got in the end. -/
inductive Haggles (backend : Backend) (order : Order) : List Round → Order → Prop
  | start : Haggles backend order [] order
  | again {rounds : List Round} {last received : Order} (before : Haggles backend order rounds last) (round : Round)
      (submits : Submits backend round.circumstances round.db last round.address (0, received) round.after) :
      Haggles backend order (rounds ++ [round]) received

/-- The same product at the same price, and not more of it. -/
structure Shrinks (requested left : OrderEntry) : Prop where
  productId : left.productId = requested.productId
  price : left.price = requested.price
  quantity : left.quantity.toInt ≤ requested.quantity.toInt

/-- By how much the entries are above the least stock that is read. -/
def worth (least : Int) (items : List OrderEntry) : Int := (items.map fun entry => entry.quantity.toInt - least).sum

/-- No stock that is read for these products is smaller. -/
def LeastStock (least : Int) (round : Round) (items : List OrderEntry) : Prop :=
  ∀ i, ∀ entry ∈ items, least ≤ (getStock round.circumstances i entry.productId round.db).toInt

theorem Shrinks.refl (entry : OrderEntry) : Shrinks entry entry := ⟨rfl, rfl, Int.le_refl _⟩

theorem Shrinks.trans {requested between left : OrderEntry} (first : Shrinks requested between)
    (second : Shrinks between left) : Shrinks requested left :=
  ⟨second.productId.trans first.productId, second.price.trans first.price, second.quantity.trans first.quantity⟩

section

variable {least : Int} {c : Circumstances} {db : Database} {items : List OrderEntry} {i : Nat}

theorem worth_cons (entry : OrderEntry) (rest : List OrderEntry) :
    worth least (entry :: rest) = (entry.quantity.toInt - least) + worth least rest := rfl

theorem worth_nonneg (above : ∀ entry ∈ items, least ≤ entry.quantity.toInt) : 0 ≤ worth least items := by
  induction items with
  | nil => exact Int.le_refl 0
  | cons entry rest ih =>
      obtain ⟨first, others⟩ := List.forall_mem_cons.mp above
      rw [worth_cons]
      have later := ih others
      omega

/-! One round. -/

theorem shrinks_limited {requested : List OrderEntry} (shrinks : List.Forall₂ Shrinks requested items) :
    List.Forall₂ Shrinks requested (limited c db i items) := by
  induction shrinks generalizing i with
  | nil => exact .nil
  | @cons first entry _ rest one _ ih =>
      obtain ⟨productId, price⟩ := OrderEntry.limit_same (getStock c i entry.productId db) entry
      refine .cons (one.trans ⟨productId, price, ?_⟩) ih
      rw [OrderEntry.limit_quantity]
      exact min_le_left _ _

theorem limited_least (above : ∀ entry ∈ items, least ≤ entry.quantity.toInt)
    (stocks : ∀ i, ∀ entry ∈ items, least ≤ (getStock c i entry.productId db).toInt) :
    ∀ entry ∈ limited c db i items, least ≤ entry.quantity.toInt := by
  induction items generalizing i with
  | nil => exact fun entry member => absurd member List.not_mem_nil
  | cons entry rest ih =>
      obtain ⟨first, others⟩ := List.forall_mem_cons.mp above
      refine List.forall_mem_cons.mpr ⟨?_, ?_⟩
      · rw [OrderEntry.limit_quantity]
        exact le_min first (stocks i entry List.mem_cons_self)
      · exact ih others fun j other member => stocks j other (List.mem_cons_of_mem _ member)

/-- An order that is cut is worth less. -/
theorem worth_limited (c : Circumstances) (db : Database) (i : Nat) (items : List OrderEntry) :
    worth least (limited c db i items) ≤ worth least items ∧
      (¬Covered c db i items → worth least (limited c db i items) < worth least items) := by
  induction items generalizing i with
  | nil => exact ⟨Int.le_refl _, fun uncovered => absurd trivial uncovered⟩
  | cons entry rest ih =>
      obtain ⟨less, cut⟩ := ih (i + 1)
      have quantity := OrderEntry.limit_quantity (getStock c i entry.productId db) entry
      rw [limited, worth_cons, worth_cons, quantity]
      refine ⟨by omega, fun uncovered => ?_⟩
      by_cases enough : entry.quantity.toInt ≤ (getStock c i entry.productId db).toInt
      · have later := cut fun covered => uncovered ⟨enough, covered⟩
        omega
      · omega

theorem round_cuts {backend : Backend} {last received : Order} {round : Round}
    (submits : Submits backend round.circumstances round.db last round.address (0, received) round.after) :
    ¬Covered round.circumstances round.db 0 last.items ∧
      received.items = limited round.circumstances round.db 0 last.items ∧ round.after = round.db := by
  obtain ⟨bytes, reply, encoded, placed, outcome⟩ := submits_iff.mp submits
  have code : reply.code = messageUnsatisfiableOrder := by
    cases outcome with
    | unsatisfiable cut => exact cut
  obtain ⟨uncovered, other, asked, only, _, items⟩ :=
    unsatisfiable_received backend ⟨bytes, reply, round.after, encoded, placed, code⟩
  obtain rfl : received = other := congrArg Prod.snd (only _ _ submits)
  refine ⟨uncovered, items, ?_⟩
  obtain ⟨sent, decoded, same, _⟩ := orderUnserialize_encoded encoded []
  rw [List.append_nil] at decoded
  rcases placeOrder_cases decoded placed with ⟨_, accepted⟩ | ⟨_, _, kept⟩
  · exact absurd code (acceptOrder_reply accepted).1
  · exact kept

end

/-! All rounds. -/

section

variable {backend : Backend} {order last : Order} {rounds : List Round} {least : Int}

/-- What has come back so far, and what it is still worth. -/
structure Haggled (order : Order) (least : Int) (rounds : List Round) (last : Order) : Prop where
  entries : List.Forall₂ Shrinks order.items last.items
  above : ∀ entry ∈ last.items, least ≤ entry.quantity.toInt
  worth : rounds.length + worth least last.items ≤ worth least order.items
  kept : ∀ round ∈ rounds, round.after = round.db

theorem LeastStock.shrunk {round : Round} {items left : List OrderEntry} (stocks : LeastStock least round items)
    (shrinks : List.Forall₂ Shrinks items left) : LeastStock least round left := by
  intro i entry member
  obtain ⟨requested, isOne, same⟩ : ∃ requested ∈ items, Shrinks requested entry := by
    clear stocks
    induction shrinks with
    | nil => contradiction
    | cons first _ ih =>
        rcases List.mem_cons.mp member with rfl | later
        · exact ⟨_, List.mem_cons_self, first⟩
        · obtain ⟨requested, isOne, same⟩ := ih later
          exact ⟨requested, List.mem_cons_of_mem _ isOne, same⟩
  rw [same.productId]
  exact stocks i requested isOne

theorem haggles_worth (haggles : Haggles backend order rounds last)
    (above : ∀ entry ∈ order.items, least ≤ entry.quantity.toInt)
    (stocks : ∀ round ∈ rounds, LeastStock least round order.items) : Haggled order least rounds last := by
  induction haggles with
  | start =>
      refine ⟨List.forall₂_same.mpr fun entry _ => Shrinks.refl entry, above, ?_, ?_⟩
      · simp
      · exact fun round member => absurd member List.not_mem_nil
  | @again rounds last received before round submits ih =>
      simp only [List.forall_mem_append, List.forall_mem_singleton] at stocks
      have haggled := ih stocks.1
      obtain ⟨uncovered, items, kept⟩ := round_cuts submits
      have cheaper := (@worth_limited least round.circumstances round.db 0 last.items).2 uncovered
      refine ⟨?_, ?_, ?_, ?_⟩
      · rw [items]
        exact shrinks_limited haggled.entries
      · rw [items]
        exact limited_least haggled.above (stocks.2.shrunk haggled.entries)
      · have worth := haggled.worth
        rw [items, List.length_append, List.length_singleton]
        omega
      · simp only [List.forall_mem_append, List.forall_mem_singleton]
        exact ⟨haggled.kept, kept⟩

/-- Whatever others buy and the command line sets in between: an order for products that are there and whose
stocks are read as they are is not cut more often than the units that it asks for, and a refused stock query
costs one more round for each entry. Each round leaves the tables as they were. -/
theorem haggling_ends (haggles : Haggles backend order rounds last)
    (asked : ∀ entry ∈ order.items, 0 ≤ entry.quantity.toInt)
    (there : ∀ round ∈ rounds, ∀ entry ∈ order.items,
      entry.goods ∈ round.db.ids ∧ round.db.stock entry.goods < 2 ^ 31) :
    List.Forall₂ Shrinks order.items last.items ∧ (∀ round ∈ rounds, round.after = round.db) ∧
      (rounds.length : Int) ≤ (order.items.map fun entry => entry.quantity.toInt + 1).sum ∧
      ((∀ round ∈ rounds, ∀ i, round.circumstances.refuses (.stock i) = false) →
        (rounds.length : Int) ≤ (order.items.map fun entry => entry.quantity.toInt).sum) := by
  have seen : ∀ round ∈ rounds, ∀ i, ∀ entry ∈ order.items,
      (getStock round.circumstances i entry.productId round.db).toInt =
        if round.circumstances.refuses (.stock i) then -1 else round.db.stock entry.goods := by
    intro round member i entry isOne
    obtain ⟨known, small⟩ := there round member entry isOne
    rw [getStock_seen known, stockSeen, storeSingleNumber_eq (round.db.stock_nonnegative _) small]
  have above : ∀ entry ∈ order.items, (-1 : Int) ≤ entry.quantity.toInt := by
    intro entry member
    have nonnegative := asked entry member
    omega
  have refusable := haggles_worth haggles above (by
    intro round member i entry isOne
    rw [seen round member i entry isOne]
    have nonnegative := round.db.stock_nonnegative entry.goods
    split <;> omega)
  refine ⟨refusable.entries, refusable.kept, ?_, fun answers => ?_⟩
  · have bound := refusable.worth
    have rest := worth_nonneg refusable.above
    have units : worth (-1) order.items = (order.items.map fun entry => entry.quantity.toInt + 1).sum := by
      simp [worth]
    omega
  · have answered := haggles_worth haggles asked (by
      intro round member i entry isOne
      rw [seen round member i entry isOne, answers round member i]
      exact round.db.stock_nonnegative entry.goods)
    have bound := answered.worth
    have rest := worth_nonneg answered.above
    have units : worth 0 order.items = (order.items.map fun entry => entry.quantity.toInt).sum := by
      simp [worth]
    omega

end

/-- Seventy bottles, of which there are sixty. -/
theorem haggling_ends_vodka : ∃ received, Haggles .sockets (vodkaOrder [] 70) [⟨calm, init, ascii "Madero 399", init⟩] received ∧
    List.Forall₂ Shrinks (vodkaOrder [] 70).items received.items ∧
    (∀ round ∈ [(⟨calm, init, ascii "Madero 399", init⟩ : Round)], round.after = round.db) ∧
    ((1 : Nat) : Int) ≤ ((vodkaOrder [] 70).items.map fun entry => entry.quantity.toInt + 1).sum ∧
    ((∀ round ∈ [(⟨calm, init, ascii "Madero 399", init⟩ : Round)], ∀ i, round.circumstances.refuses (.stock i) = false) →
      ((1 : Nat) : Int) ≤ ((vodkaOrder [] 70).items.map fun entry => entry.quantity.toInt).sum) := by
  have answered := @unsatisfiable_of_decision calm init (vodkaOrder [] 70) (ascii "Madero 399") (by decide +kernel)
  obtain ⟨_, received, submits, _⟩ := unsatisfiable_received .sockets answered
  have haggles : Haggles .sockets (vodkaOrder [] 70) [⟨calm, init, ascii "Madero 399", init⟩] received :=
    .again .start ⟨calm, init, ascii "Madero 399", init⟩ submits
  refine ⟨received, haggles, haggling_ends haggles ?_ ?_⟩
  · decide
  · intro round member entry isOne
    rw [List.mem_singleton.mp member, List.mem_singleton.mp isOne]
    decide

end Iac
