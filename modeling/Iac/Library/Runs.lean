import Mathlib.Algebra.Group.Defs
import Iac.Library.Program

/-! Single runs of a program and what they move, in a monoid: an operation moves something
for each answer, or the answer has no part in the runs. -/

namespace Interaction

variable {Op : Type} {Answer : Op → Type} {M α β : Type} [Monoid M]

inductive Runs (moves : (op : Op) → Answer op → Option M) : Program Op Answer α → M → α → Prop
  | ret (value : α) : Runs moves (.ret value) 1 value
  | perform {op : Op} {next : Answer op → Program Op Answer α} {first rest : M} {value : α}
      (answer : Answer op) (moved : moves op answer = some first)
      (behind : Runs moves (next answer) rest value) : Runs moves (.perform op next) (first * rest) value

variable {moves : (op : Op) → Answer op → Option M}

theorem runs_ret {result value : α} {moved : M} :
    Runs moves (.ret result) moved value ↔ moved = 1 ∧ value = result := by
  constructor
  · intro runs
    cases runs
    exact ⟨rfl, rfl⟩
  · rintro ⟨rfl, rfl⟩
    exact .ret _

theorem runs_perform {op : Op} {next : Answer op → Program Op Answer α} {moved : M} {value : α} :
    Runs moves (.perform op next) moved value ↔ ∃ answer first rest, moves op answer = some first ∧
      Runs moves (next answer) rest value ∧ moved = first * rest := by
  constructor
  · intro runs
    cases runs with
    | perform answer known behind => exact ⟨answer, _, _, known, behind, rfl⟩
  · rintro ⟨answer, first, rest, known, behind, rfl⟩
    exact .perform answer known behind

theorem runs_bind {program : Program Op Answer α} {after : α → Program Op Answer β} {moved : M}
    {value : β} : Runs moves (program >>= after) moved value ↔ ∃ first middle second,
      Runs moves program first middle ∧ Runs moves (after middle) second value ∧
        moved = first * second := by
  induction program generalizing moved with
  | ret result =>
      rw [Program.ret_bind]
      constructor
      · intro runs
        exact ⟨1, result, moved, .ret result, runs, (one_mul moved).symm⟩
      · rintro ⟨first, middle, second, left, right, rfl⟩
        obtain ⟨rfl, rfl⟩ := runs_ret.mp left
        rw [one_mul]
        exact right
  | perform op next ih =>
      rw [Program.perform_bind, runs_perform]
      constructor
      · rintro ⟨answer, first, rest, known, behind, rfl⟩
        obtain ⟨before, middle, second, left, right, rfl⟩ := (ih answer).mp behind
        exact ⟨first * before, middle, second, .perform answer known left, right,
          (mul_assoc first before second).symm⟩
      · rintro ⟨before, middle, second, left, right, rfl⟩
        obtain ⟨answer, first, rest, known, behind, rfl⟩ := runs_perform.mp left
        exact ⟨answer, first, rest * second, known,
          (ih answer).mpr ⟨rest, middle, second, behind, right, rfl⟩, mul_assoc first rest second⟩

theorem runs_call {op : Op} {moved : M} {answer : Answer op} :
    Runs moves (.perform op .ret) moved answer ↔ moves op answer = some moved := by
  rw [runs_perform]
  constructor
  · rintro ⟨other, first, rest, known, behind, rfl⟩
    obtain ⟨rfl, rfl⟩ := runs_ret.mp behind
    rw [mul_one]
    exact known
  · intro known
    exact ⟨answer, moved, 1, known, .ret answer, (mul_one moved).symm⟩

theorem runs_bind_of {program : Program Op Answer α} {after : α → Program Op Answer β}
    {only moved : M} {middle : α} {value : β}
    (first : ∀ traffic result, Runs moves program traffic result ↔ traffic = only ∧ result = middle) :
    Runs moves (program >>= after) moved value ↔
      ∃ rest, Runs moves (after middle) rest value ∧ moved = only * rest := by
  rw [runs_bind]
  constructor
  · rintro ⟨before, result, rest, left, right, rfl⟩
    obtain ⟨rfl, rfl⟩ := (first before result).mp left
    exact ⟨rest, right, rfl⟩
  · rintro ⟨rest, right, rfl⟩
    exact ⟨only, middle, rest, (first only middle).mpr ⟨rfl, rfl⟩, right, rfl⟩

theorem runs_bind_idle {program : Program Op Answer α} {after : α → Program Op Answer β} {moved : M}
    {value : β} (idle : ∀ traffic result, Runs moves program traffic result → traffic = 1) :
    Runs moves (program >>= after) moved value ↔
      ∃ middle, Runs moves program 1 middle ∧ Runs moves (after middle) moved value := by
  rw [runs_bind]
  constructor
  · rintro ⟨before, middle, rest, left, right, rfl⟩
    obtain rfl := idle before middle left
    rw [one_mul]
    exact ⟨middle, left, right⟩
  · rintro ⟨middle, left, right⟩
    exact ⟨1, middle, moved, left, right, (one_mul moved).symm⟩

end Interaction
