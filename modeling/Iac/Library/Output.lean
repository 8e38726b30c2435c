import Iac.Library.Plays

/-! What a program has put out when it is interrupted, at one of its operations or in the
middle of it. -/

namespace Interaction

variable {Op : Type} {Answer : Op → Type} {Item α β : Type}

/-- What an operation puts out, piece by piece, until it is answered; and the answers that say
that it did. -/
structure Outlet (Op : Type) (Answer : Op → Type) (Item : Type) where
  begun : Op → List Item
  works : Sigma Answer → Prop

def Outlet.output (outlet : Outlet Op Answer Item) (trace : List (Sigma Answer)) : List Item :=
  trace.flatMap fun event => outlet.begun event.1

/-- At every moment of every run that works, what was put out is allowed. -/
inductive Emits (outlet : Outlet Op Answer Item) (allowed : List Item → Prop)
    (ends : α → List Item → Prop) : Program Op Answer α → List Item → Prop
  | ret {value : α} {soFar : List Item} (done : ends value soFar) :
      Emits outlet allowed ends (.ret value) soFar
  | perform {op : Op} {next : Answer op → Program Op Answer α} {soFar : List Item}
      (here : ∀ front, front <+: outlet.begun op → allowed (soFar ++ front))
      (later : ∀ answer, outlet.works ⟨op, answer⟩ →
        Emits outlet allowed ends (next answer) (soFar ++ outlet.begun op)) :
      Emits outlet allowed ends (.perform op next) soFar

section

variable {outlet : Outlet Op Answer Item} {allowed : List Item → Prop} {ends : α → List Item → Prop}
  {soFar : List Item}

theorem emits_bind {middle : β → List Item → Prop} {program : Program Op Answer β}
    {after : β → Program Op Answer α} (first : Emits outlet allowed middle program soFar)
    (second : ∀ value soFar, middle value soFar → Emits outlet allowed ends (after value) soFar) :
    Emits outlet allowed ends (program >>= after) soFar := by
  induction first with
  | ret done => exact second _ _ done
  | perform here _ ih => exact .perform here ih

theorem emits_mono {weaker : α → List Item → Prop} {program : Program Op Answer α}
    (emits : Emits outlet allowed ends program soFar)
    (weaken : ∀ value soFar, ends value soFar → weaker value soFar) :
    Emits outlet allowed weaker program soFar := by
  induction emits with
  | ret done => exact .ret (weaken _ _ done)
  | perform here _ ih => exact .perform here ih

theorem emits_silent {silent : Op → Bool} {program : Program Op Answer α}
    (only : Program.Only silent program) (nothing : ∀ op, silent op = true → outlet.begun op = [])
    (now : allowed soFar) : Emits outlet allowed (fun _ after => after = soFar) program soFar := by
  induction only with
  | ret value => exact .ret rfl
  | perform here _ ih =>
      have empty := nothing _ here
      refine .perform ?_ ?_
      · intro front begins
        rw [empty, List.prefix_nil] at begins
        rw [begins, List.append_nil]
        exact now
      · intro answer _
        rw [empty, List.append_nil]
        exact ih answer

theorem emits_interrupted {program : Program Op Answer α} {trace : List (Sigma Answer)} {op : Op}
    {front : List Item} (emits : Emits outlet allowed ends program soFar)
    (plays : Plays (fun _ => true) program trace (.stopped op))
    (works : ∀ event ∈ trace, outlet.works event) (begins : front <+: outlet.begun op) :
    allowed (soFar ++ (outlet.output trace ++ front)) := by
  induction emits generalizing trace with
  | ret done =>
      obtain ⟨_, ended⟩ := plays_ret plays
      contradiction
  | @perform step next soFar here _ ih =>
      cases plays with
      | stop _ => exact here front begins
      | perform answer behind =>
          obtain ⟨worked, others⟩ := List.forall_mem_cons.mp works
          have rest := ih answer worked behind others
          rw [Outlet.output, List.flatMap_cons, List.append_assoc, ← List.append_assoc]
          exact rest

end

end Interaction
