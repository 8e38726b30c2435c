import Iac.Library.Program

/-! What a program does with given answers: the operations that it performs, in order, and
whether it returns or stops at one of the operations where a program may stop. -/

namespace Interaction

variable {Op : Type} {Answer : Op → Type} {α β : Type}

inductive Ending (Op α : Type)
  | returned (value : α)
  | stopped (op : Op)
  deriving DecidableEq, Repr

inductive Plays (stops : Op → Bool) : Program Op Answer α → List (Sigma Answer) → Ending Op α → Prop
  | ret (value : α) : Plays stops (.ret value) [] (.returned value)
  | stop {op : Op} {next : Answer op → Program Op Answer α} (here : stops op = true) :
      Plays stops (.perform op next) [] (.stopped op)
  | perform {op : Op} {next : Answer op → Program Op Answer α} {trace : List (Sigma Answer)}
      {ending : Ending Op α} (answer : Answer op) (behind : Plays stops (next answer) trace ending) :
      Plays stops (.perform op next) (⟨op, answer⟩ :: trace) ending

namespace Program

/-- Play against fixed answers; there is none where the program is to stop. -/
def play (answers : (op : Op) → Option (Answer op)) :
    Program Op Answer α → List (Sigma Answer) × Ending Op α
  | .ret value => ([], .returned value)
  | .perform op next =>
      match answers op with
      | none => ([], .stopped op)
      | some answer =>
          let played := (next answer).play answers
          (⟨op, answer⟩ :: played.1, played.2)

theorem play_plays {stops : Op → Bool} {answers : (op : Op) → Option (Answer op)}
    (silent : ∀ op, answers op = none → stops op = true) (program : Program Op Answer α) :
    Plays stops program (program.play answers).1 (program.play answers).2 := by
  induction program with
  | ret value => exact .ret value
  | perform op next ih =>
      rw [play]
      cases answered : answers op with
      | none => exact .stop (silent op answered)
      | some answer => exact .perform answer (ih answer)

end Program

section

variable {stops : Op → Bool} {program : Program Op Answer α} {trace : List (Sigma Answer)}

theorem plays_ret {value : α} {ending : Ending Op α} (plays : Plays stops (.ret value) trace ending) :
    trace = [] ∧ ending = .returned value := by
  cases plays
  exact ⟨rfl, rfl⟩

theorem plays_perform {op : Op} {next : Answer op → Program Op Answer α} {ending : Ending Op α}
    (goes : stops op = false) (plays : Plays stops (.perform op next) trace ending) :
    ∃ answer behind, Plays stops (next answer) behind ending ∧ trace = ⟨op, answer⟩ :: behind := by
  cases plays with
  | stop here =>
      rw [goes] at here
      contradiction
  | perform answer behind => exact ⟨answer, _, behind, rfl⟩

theorem plays_stop {op : Op} {next : Answer op → Program Op Answer α} {ending : Ending Op α}
    (unanswered : Answer op → False) (plays : Plays stops (.perform op next) trace ending) :
    trace = [] ∧ ending = .stopped op := by
  cases plays with
  | stop here => exact ⟨rfl, rfl⟩
  | perform answer behind => exact (unanswered answer).elim

theorem plays_bind {after : α → Program Op Answer β} {ending : Ending Op β}
    (plays : Plays stops (program >>= after) trace ending) :
    (∃ value before behind, Plays stops program before (.returned value) ∧
        Plays stops (after value) behind ending ∧ trace = before ++ behind) ∨
      ∃ op, Plays stops program trace (.stopped op) ∧ ending = .stopped op := by
  induction program generalizing trace with
  | ret value => exact .inl ⟨value, [], trace, .ret value, plays, rfl⟩
  | perform op next ih =>
      rw [Program.perform_bind] at plays
      cases plays with
      | stop here => exact .inr ⟨op, .stop here, rfl⟩
      | perform answer behind =>
          rcases ih answer behind with ⟨value, before, rest, first, second, rfl⟩ | ⟨op, first, rfl⟩
          · exact .inl ⟨value, _, rest, .perform answer first, second, rfl⟩
          · exact .inr ⟨op, .perform answer first, rfl⟩

theorem plays_bind_returned {after : α → Program Op Answer β} {value : α} {behind : List (Sigma Answer)}
    {ending : Ending Op β} (first : Plays stops program trace (.returned value))
    (second : Plays stops (after value) behind ending) :
    Plays stops (program >>= after) (trace ++ behind) ending := by
  induction program generalizing trace with
  | ret result =>
      obtain ⟨rfl, same⟩ := plays_ret first
      rw [← Ending.returned.inj same]
      exact second
  | perform op next ih =>
      cases first with
      | perform answer rest => exact .perform answer (ih answer rest)

theorem plays_bind_stopped {after : α → Program Op Answer β} {op : Op}
    (first : Plays stops program trace (.stopped op)) :
    Plays stops (program >>= after) trace (.stopped op) := by
  induction program generalizing trace with
  | ret result =>
      obtain ⟨_, same⟩ := plays_ret first
      contradiction
  | perform op next ih =>
      cases first with
      | stop here => exact .stop here
      | perform answer rest => exact .perform answer (ih answer rest)

/-- The answers determine how far a program comes, and what it returns. -/
theorem plays_unique {before other behind rest : List (Sigma Answer)} {value result : α}
    (plays : Plays stops program before (.returned value))
    (again : Plays stops program other (.returned result)) (same : before ++ behind = other ++ rest) :
    before = other ∧ value = result := by
  induction program generalizing before other with
  | ret returned =>
      obtain ⟨rfl, shown⟩ := plays_ret plays
      obtain ⟨rfl, known⟩ := plays_ret again
      exact ⟨rfl, Ending.returned.inj (shown.trans known.symm)⟩
  | perform op next ih =>
      cases plays with
      | perform answer first =>
          cases again with
          | perform reply second =>
              rw [List.cons_append, List.cons_append] at same
              obtain ⟨event, tail⟩ := List.cons.inj same
              cases event
              obtain ⟨rfl, rfl⟩ := ih answer first second tail
              exact ⟨rfl, rfl⟩

theorem only_plays {good : Op → Bool} {ending : Ending Op α} (only : Program.Only good program)
    (plays : Plays stops program trace ending) : ∀ event ∈ trace, good event.1 = true := by
  induction plays with
  | ret value => exact fun event member => absurd member (List.not_mem_nil)
  | stop here => exact fun event member => absurd member (List.not_mem_nil)
  | perform answer behind ih =>
      cases only with
      | perform here later =>
          intro event member
          rcases List.mem_cons.mp member with rfl | member
          · exact here
          · exact ih (later answer) event member

end

end Interaction
