import Mathlib.Algebra.BigOperators.Group.List.Basic
import Mathlib.Tactic.Common

/-! A depot of goods: what is in stock of each kind and what has been sold of it.
An order is a list of lines, each with a kind and an amount. -/

namespace Depot

section Tally

variable {line kind : Type} [DecidableEq kind]

/-- The sum of the amounts of all lines of one kind. -/
def tally (kindOf : line → kind) (amount : line → Int) (goods : kind) : List line → Int
  | [] => 0
  | first :: rest =>
      (if kindOf first = goods then amount first else 0) + tally kindOf amount goods rest

variable (kindOf : line → kind) (amount : line → Int) (goods : kind)

@[simp] theorem tally_append (left right : List line) :
    tally kindOf amount goods (left ++ right) =
      tally kindOf amount goods left + tally kindOf amount goods right := by
  induction left with
  | nil => simp [tally]
  | cons first rest ih => simp [tally, ih, Int.add_assoc]

theorem tally_absent {lines : List line} (absent : ∀ item ∈ lines, kindOf item ≠ goods) :
    tally kindOf amount goods lines = 0 := by
  induction lines with
  | nil => rfl
  | cons first rest ih =>
      simp only [List.forall_mem_cons] at absent
      simp [tally, absent.1, ih absent.2]

theorem tally_nonnegative {lines : List line}
    (positive : ∀ item ∈ lines, kindOf item = goods → 0 ≤ amount item) :
    0 ≤ tally kindOf amount goods lines := by
  induction lines with
  | nil => exact Int.le_refl 0
  | cons first rest ih =>
      simp only [List.forall_mem_cons] at positive
      have tail := ih positive.2
      simp only [tally]
      split
      · rename_i same
        have head := positive.1 same
        omega
      · omega

theorem tally_mono {lines : List line} {other : line → Int}
    (less : ∀ item ∈ lines, kindOf item = goods → amount item ≤ other item) :
    tally kindOf amount goods lines ≤ tally kindOf other goods lines := by
  induction lines with
  | nil => exact Int.le_refl 0
  | cons first rest ih =>
      simp only [List.forall_mem_cons] at less
      have tail := ih less.2
      simp only [tally]
      split
      · rename_i same
        have head := less.1 same
        omega
      · omega

theorem tally_congr {lines : List line} {other : line → Int}
    (same : ∀ item ∈ lines, kindOf item = goods → amount item = other item) :
    tally kindOf amount goods lines = tally kindOf other goods lines := by
  apply Int.le_antisymm
  · exact tally_mono _ _ _ fun item member equal => Int.le_of_eq (same item member equal)
  · exact tally_mono _ _ _ fun item member equal => Int.le_of_eq (same item member equal).symm

/-- Two amounts that agree or differ in one direction have equal tallies only if they agree. -/
theorem tally_eq_iff {lines : List line} {other : line → Int}
    (less : ∀ item ∈ lines, kindOf item = goods → amount item ≤ other item) :
    tally kindOf amount goods lines = tally kindOf other goods lines ↔
      ∀ item ∈ lines, kindOf item = goods → amount item = other item := by
  constructor
  · intro equal
    induction lines with
    | nil => simp
    | cons first rest ih =>
        simp only [List.forall_mem_cons] at less ⊢
        have tail := tally_mono kindOf amount goods less.2
        simp only [tally] at equal
        split at equal
        · rename_i same
          have head := less.1 same
          exact ⟨fun _ => by omega, ih less.2 (by omega)⟩
        · rename_i different
          exact ⟨fun same => absurd same different, ih less.2 (by omega)⟩
  · exact tally_congr _ _ _

theorem tally_map {item : Type} (render : item → line) (lines : List item) :
    tally kindOf amount goods (lines.map render) =
      tally (fun entry => kindOf (render entry)) (fun entry => amount (render entry)) goods lines := by
  induction lines with
  | nil => rfl
  | cons first rest ih => simp [tally, ih]

theorem tally_of_mem {lines : List line} (unique : (lines.map kindOf).Nodup) {item : line}
    (member : item ∈ lines) :
    tally kindOf amount (kindOf item) lines = amount item := by
  induction lines with
  | nil => simp at member
  | cons first rest ih =>
      simp only [List.map_cons, List.nodup_cons, List.mem_map, not_exists, not_and] at unique
      rcases List.mem_cons.mp member with same | later
      · subst item
        have absent := tally_absent kindOf amount (kindOf first) unique.1
        simp [tally, absent]
      · have different : kindOf first ≠ kindOf item := fun equal => unique.1 item later equal.symm
        simpa [tally, different] using ih unique.2 later

theorem tally_member_le {lines : List line}
    (nonnegative : ∀ item ∈ lines, kindOf item = goods → 0 ≤ amount item) {item : line}
    (member : item ∈ lines) (named : kindOf item = goods) :
    amount item ≤ tally kindOf amount goods lines := by
  obtain ⟨before, behind, rfl⟩ := List.append_of_mem member
  simp only [List.forall_mem_append, List.forall_mem_cons] at nonnegative
  have first := tally_nonnegative _ _ _ nonnegative.1
  have last := tally_nonnegative _ _ _ nonnegative.2.2
  simp only [tally_append, tally, if_pos named]
  omega

theorem tally_zero {lines : List line}
    (nothing : ∀ item ∈ lines, kindOf item = goods → amount item = 0) :
    tally kindOf amount goods lines = 0 := by
  induction lines with
  | nil => rfl
  | cons first rest ih =>
      simp only [List.forall_mem_cons] at nothing
      simpa [tally, ih nothing.2] using nothing.1

/-- The number of lines that ask for something of one kind. -/
def asking (lines : List line) : Nat := lines.countP fun item => kindOf item = goods ∧ 0 < amount item

theorem asking_zero_iff {lines : List line}
    (nonnegative : ∀ item ∈ lines, kindOf item = goods → 0 ≤ amount item) :
    asking kindOf amount goods lines = 0 ↔ ∀ item ∈ lines, kindOf item = goods → amount item = 0 := by
  simp only [asking, List.countP_eq_zero, decide_eq_true_eq, not_and]
  constructor
  · intro nothing item member named
    have least := nonnegative item member named
    have most := nothing item member named
    omega
  · intro nothing item member named
    rw [nothing item member named]
    exact Int.lt_irrefl 0

/-- Where every line counts for at most one bound, the whole keeps to that bound exactly if no second line
asks for anything or the bound does not come into it. -/
theorem tally_capped_iff {lines : List line} {cap : Int} (stocked : 0 < cap)
    (nonnegative : ∀ item ∈ lines, kindOf item = goods → 0 ≤ amount item) :
    tally kindOf (fun item => min (amount item) cap) goods lines ≤ cap ↔
      asking kindOf amount goods lines ≤ 1 ∨ tally kindOf amount goods lines ≤ cap := by
  have least : ∀ item ∈ lines, kindOf item = goods → 0 ≤ min (amount item) cap := by
    intro item member named
    have bound := nonnegative item member named
    omega
  induction lines with
  | nil => simp [tally, asking, Int.le_of_lt stocked]
  | cons first rest ih =>
      simp only [List.forall_mem_cons] at nonnegative least
      by_cases asks : kindOf first = goods ∧ 0 < amount first
      · have counted : asking kindOf amount goods (first :: rest) = asking kindOf amount goods rest + 1 := by
          simp [asking, asks]
        simp only [tally, if_pos asks.1, counted]
        by_cases alone : asking kindOf amount goods rest = 0
        · have nothing := (asking_zero_iff kindOf amount goods nonnegative.2).mp alone
          have none_capped : tally kindOf (fun item => min (amount item) cap) goods rest = 0 := by
            refine tally_zero _ _ _ fun item member named => ?_
            rw [nothing item member named]
            omega
          rw [none_capped, alone]
          omega
        · have more : ¬asking kindOf amount goods rest + 1 ≤ 1 := by omega
          simp only [more, false_or]
          have grows : 0 < tally kindOf (fun item => min (amount item) cap) goods rest := by
            obtain ⟨item, member, asked⟩ := List.countP_pos_iff.mp (Nat.pos_of_ne_zero alone)
            simp only [decide_eq_true_eq] at asked
            have bound := tally_member_le _ _ _ least.2 member asked.1
            omega
          have below := tally_mono kindOf (fun item => min (amount item) cap) goods
            (fun item (_ : item ∈ rest) (_ : kindOf item = goods) => Int.min_le_left (amount item) cap)
          constructor
          · intro capped
            have same : tally kindOf (fun item => min (amount item) cap) goods rest =
                tally kindOf amount goods rest := by
              refine tally_congr _ _ _ fun item member named => ?_
              have bound := tally_member_le _ _ _ least.2 member named
              omega
            omega
          · intro whole
            omega
      · have counted : asking kindOf amount goods (first :: rest) = asking kindOf amount goods rest := by
          simp [asking, asks]
        have nothing : (if kindOf first = goods then amount first else 0) = 0 ∧
            (if kindOf first = goods then min (amount first) cap else 0) = 0 := by
          split
          · rename_i named
            have zero := nonnegative.1 named
            have none_asked : ¬0 < amount first := fun more => asks ⟨named, more⟩
            omega
          · exact ⟨rfl, rfl⟩
        simp only [tally, nothing, counted, Int.zero_add]
        exact ih nonnegative.2 least.2

end Tally

/-! The depot as a machine. -/

variable {kind : Type}

structure State (kind : Type) where
  stock : kind → Int
  sold : kind → Int

/-- One request: goods leave the stock and are recorded as sold, never more than there
is; or nothing happens. -/
inductive Step : State kind → State kind → Prop
  | sell {state : State kind} (goods : kind → Int)
      (taken : ∀ item, 0 ≤ state.stock item - goods item) :
      Step state ⟨fun item => state.stock item - goods item,
        fun item => state.sold item + goods item⟩
  | refuse {state : State kind} : Step state state

inductive Steps : State kind → State kind → Prop
  | refl {state : State kind} : Steps state state
  | tail {first middle last : State kind} : Steps first middle → Step middle last →
      Steps first last

theorem Step.conserves {before after : State kind} (step : Step before after) (item : kind) :
    after.stock item + after.sold item = before.stock item + before.sold item := by
  cases step with
  | sell goods taken =>
      simp only
      omega
  | refuse => rfl

theorem Step.no_oversell {before after : State kind} (step : Step before after)
    (start : ∀ item, 0 ≤ before.stock item) (item : kind) : 0 ≤ after.stock item := by
  cases step with
  | sell goods taken => exact taken item
  | refuse => exact start item

theorem Steps.conserves {before after : State kind} (steps : Steps before after) (item : kind) :
    after.stock item + after.sold item = before.stock item + before.sold item := by
  induction steps with
  | refl => rfl
  | tail _ step ih => rw [step.conserves item, ih]

theorem Steps.no_oversell {before after : State kind} (steps : Steps before after)
    (start : ∀ item, 0 ≤ before.stock item) (item : kind) : 0 ≤ after.stock item := by
  induction steps generalizing item with
  | refl => exact start item
  | tail _ step ih => exact step.no_oversell ih item

end Depot
