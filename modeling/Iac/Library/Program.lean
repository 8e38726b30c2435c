import Mathlib.Tactic.Common

/-! Programs that interact with their surroundings: a program ends with a value, or performs
an operation and goes on depending on the answer. -/

namespace Interaction

inductive Program (Op : Type) (Answer : Op → Type) (α : Type)
  | ret (value : α)
  | perform (op : Op) (next : Answer op → Program Op Answer α)

namespace Program

variable {Op : Type} {Answer : Op → Type} {α β γ : Type}

protected def bind : Program Op Answer α → (α → Program Op Answer β) → Program Op Answer β
  | .ret value, after => after value
  | .perform op next, after => .perform op fun answer => (next answer).bind after

instance : Monad (Program Op Answer) where
  pure := .ret
  bind := Program.bind

def call (op : Op) : Program Op Answer (Answer op) := .perform op .ret

@[simp] theorem pure_eq (value : α) : (pure value : Program Op Answer α) = .ret value := rfl

@[simp] theorem ret_bind (value : α) (after : α → Program Op Answer β) :
    (.ret value >>= after) = after value := rfl

@[simp] theorem perform_bind (op : Op) (next : Answer op → Program Op Answer α)
    (after : α → Program Op Answer β) :
    (.perform op next >>= after) = .perform op fun answer => next answer >>= after := rfl

@[simp] theorem call_bind (op : Op) (after : Answer op → Program Op Answer β) :
    (call op >>= after) = .perform op after := rfl

theorem perform_congr {op : Op} {next other : Answer op → Program Op Answer α}
    (same : ∀ answer, next answer = other answer) :
    (.perform op next : Program Op Answer α) = .perform op other := by
  rw [funext same]

@[simp] theorem bind_ret (program : Program Op Answer α) : (program >>= .ret) = program := by
  induction program with
  | ret value => rfl
  | perform op next ih =>
      simp only [perform_bind]
      exact perform_congr ih

@[simp] theorem bind_assoc (program : Program Op Answer α) (first : α → Program Op Answer β)
    (second : β → Program Op Answer γ) :
    (program >>= first >>= second) = program >>= fun value => first value >>= second := by
  induction program with
  | ret value => rfl
  | perform op next ih =>
      simp only [perform_bind]
      exact perform_congr ih

/-! Programs that perform only certain operations. -/

inductive Only (good : Op → Bool) : Program Op Answer α → Prop
  | ret (value : α) : Only good (.ret value)
  | perform {op : Op} {next : Answer op → Program Op Answer α} (here : good op = true)
      (later : ∀ answer, Only good (next answer)) : Only good (.perform op next)

section

variable {good better : Op → Bool} {program : Program Op Answer α}

theorem only_bind {after : α → Program Op Answer β} (first : Only good program)
    (second : ∀ value, Only good (after value)) : Only good (program >>= after) := by
  induction first with
  | ret value => exact second value
  | perform here _ ih => exact .perform here ih

theorem only_call {op : Op} (here : good op = true) :
    Only good (.perform op .ret : Program Op Answer (Answer op)) :=
  .perform here fun answer => .ret answer

theorem Only.mono (only : Only good program) (weaker : ∀ op, good op = true → better op = true) :
    Only better program := by
  induction only with
  | ret value => exact .ret value
  | perform here _ ih => exact .perform (weaker _ here) ih

end

end Program

end Interaction
