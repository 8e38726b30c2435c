import Iac.Library.Program

/-! Programs whose operations act on a state: their runs, and the weakest condition on the state
before for what is to hold behind every run. And operations that are programs themselves. -/

namespace Interaction

variable {Op : Type} {Answer : Op → Type} {State α β : Type}

/-- A relation between the state before an operation, its answer and the state behind it gives
the runs of a program. -/
inductive Executes (effect : State → (op : Op) → Answer op → State → Prop) :
    State → Program Op Answer α → List (Sigma Answer) → State → α → Prop
  | ret {state : State} (value : α) : Executes effect state (.ret value) [] state value
  | perform {before middle after : State} {op : Op} {next : Answer op → Program Op Answer α}
      {trace : List (Sigma Answer)} {value : α} (answer : Answer op)
      (acts : effect before op answer middle) (behind : Executes effect middle (next answer) trace after value) :
      Executes effect before (.perform op next) (⟨op, answer⟩ :: trace) after value

namespace Program

/-- `post` holds behind every run, if there is one. -/
def wp (effect : State → (op : Op) → Answer op → State → Prop) :
    Program Op Answer α → (α → State → Prop) → State → Prop
  | .ret value, post => post value
  | .perform op next, post => fun before =>
      ∀ answer middle, effect before op answer middle → (next answer).wp effect post middle

end Program

variable {effect : State → (op : Op) → Answer op → State → Prop}

theorem wp_iff {program : Program Op Answer α} {post : α → State → Prop} {before : State} :
    program.wp effect post before ↔
      ∀ trace after value, Executes effect before program trace after value → post value after := by
  constructor
  · intro holds trace after value run
    induction run with
    | ret value => exact holds
    | perform answer acts _ ih => exact ih (holds answer _ acts)
  · intro all
    induction program generalizing before with
    | ret value => exact all [] before value (.ret value)
    | perform op next ih =>
        intro answer middle acts
        refine ih answer ?_
        intro trace after value behind
        exact all _ after value (.perform answer acts behind)

theorem wp_mono {program : Program Op Answer α} {post weaker : α → State → Prop} {before : State}
    (holds : program.wp effect post before) (implies : ∀ value after, post value after → weaker value after) :
    program.wp effect weaker before := by
  induction program generalizing before with
  | ret value => exact implies value before holds
  | perform op next ih =>
      intro answer middle acts
      exact ih answer (holds answer middle acts)

theorem wp_bind (program : Program Op Answer α) (rest : α → Program Op Answer β)
    (post : β → State → Prop) : (program >>= rest).wp effect post =
      program.wp effect fun value => (rest value).wp effect post := by
  induction program with
  | ret value => rfl
  | perform op next ih =>
      funext before
      simp only [Program.perform_bind, Program.wp, ih]

theorem wp_seq {program : Program Op Answer α} {rest : α → Program Op Answer β}
    {middle : α → State → Prop} {post : β → State → Prop} {before : State}
    (first : program.wp effect middle before)
    (second : ∀ value after, middle value after → (rest value).wp effect post after) :
    (program >>= rest).wp effect post before := by
  rw [wp_bind]
  exact wp_mono first second

/-! Runs that may be cut off anywhere. -/

namespace Program

/-- `inv` holds all along every run, and `post` behind it. -/
def always (effect : State → (op : Op) → Answer op → State → Prop) (inv : State → Prop) :
    Program Op Answer α → (α → State → Prop) → State → Prop
  | .ret value, post => fun state => inv state ∧ post value state
  | .perform op next, post => fun before =>
      inv before ∧ ∀ answer middle, effect before op answer middle → (next answer).always effect inv post middle

end Program

section

variable {inv : State → Prop}

theorem always_now {program : Program Op Answer α} {post : α → State → Prop} {before : State}
    (holds : program.always effect inv post before) : inv before := by
  cases program with
  | ret value => exact holds.1
  | perform op next => exact holds.1

theorem always_seq {program : Program Op Answer α} {rest : α → Program Op Answer β}
    {middle : α → State → Prop} {post : β → State → Prop} {before : State}
    (first : program.always effect inv middle before)
    (second : ∀ value after, middle value after → (rest value).always effect inv post after) :
    (program >>= rest).always effect inv post before := by
  induction program generalizing before with
  | ret value => exact second value before first.2
  | perform op next ih =>
      refine ⟨first.1, ?_⟩
      intro answer after acts
      exact ih answer (first.2 answer after acts)

/-- What all the operations of a program keep. -/
theorem always_only {kept : State → Prop} {good : Op → Bool} {program : Program Op Answer α}
    (only : program.Only good) (implies : ∀ state, kept state → inv state)
    (keeps : ∀ before op answer after, good op = true → effect before op answer after →
      kept before → kept after) {before : State} (now : kept before) :
    program.always effect inv (fun _ => kept) before := by
  induction only generalizing before with
  | ret value => exact ⟨implies before now, now⟩
  | perform here _ ih =>
      refine ⟨implies before now, ?_⟩
      intro answer middle acts
      exact ih answer (keeps before _ answer middle here acts now)

end

/-! Operations that are performed by programs, which keep something of their own. -/

section

variable {Kept Low : Type} {Reply : Low → Type}
  (means : (op : Op) → Kept → Program Low Reply (Answer op × Kept))

def Program.handle : Program Op Answer α → Kept → Program Low Reply (α × Kept)
  | .ret value, kept => .ret (value, kept)
  | .perform op next, kept => means op kept >>= fun (answer, kept) => (next answer).handle kept

theorem handle_bind (program : Program Op Answer α) (rest : α → Program Op Answer β) (kept : Kept) :
    (program >>= rest).handle means kept =
      program.handle means kept >>= fun (value, kept) => (rest value).handle means kept := by
  induction program generalizing kept with
  | ret value => rfl
  | perform op next ih =>
      simp only [Program.perform_bind, Program.handle, Program.bind_assoc, ih]

theorem only_handle {good : Low → Bool} (keeps : ∀ op kept, (means op kept).Only good)
    (program : Program Op Answer α) (kept : Kept) : (program.handle means kept).Only good := by
  induction program generalizing kept with
  | ret value => exact .ret _
  | perform op next ih => exact Program.only_bind (keeps op kept) fun answer => ih answer.1 answer.2

end

/-! Operations that are performed by programs, each of which may come to another end of the whole. -/

def Program.divert {Low : Type} {Reply : Low → Type} (means : (op : Op) → Program Low Reply (β ⊕ Answer op)) :
    Program Op Answer α → Program Low Reply (β ⊕ α)
  | .ret value => .ret (.inr value)
  | .perform op next =>
      means op >>= Sum.elim (fun ending => .ret (.inl ending)) fun answer => (next answer).divert means

end Interaction
