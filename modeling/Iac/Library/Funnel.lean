import Mathlib.Data.List.Nodup
import Mathlib.Logic.Function.Basic

/-! Any number of writers and one reader: whoever holds the lock puts a message into the pipe,
piece by piece, and the reader takes pieces of its own. -/

namespace Funnel

variable {Writer Item : Type}

/-- What a writer still has to put while it holds the lock. -/
inductive Turn (Item : Type)
  | before
  | holding (owed : List Item)
  | after

def Turn.owed : Turn Item → List Item
  | .holding owed => owed
  | _ => []

/-- `order` lists the writers as they obtained the lock, `taken` is what has been read so far. -/
structure State (Writer Item : Type) where
  turns : Writer → Turn Item
  holder : Option Writer
  pipe : List Item
  taken : List Item
  order : List Writer

/-- What is still to come from whoever holds the lock. -/
def owedBy (turns : Writer → Turn Item) : Option Writer → List Item
  | none => []
  | some w => (turns w).owed

inductive Step [DecidableEq Writer] (message : Writer → List Item) :
    State Writer Item → State Writer Item → Prop
  | lock {s : State Writer Item} {w : Writer} (waits : s.turns w = .before) (free : s.holder = none) :
      Step message s { s with
        turns := Function.update s.turns w (.holding (message w))
        holder := some w
        order := s.order ++ [w] }
  | put {s : State Writer Item} {w : Writer} {piece rest : List Item}
      (holds : s.turns w = .holding (piece ++ rest)) :
      Step message s { s with
        turns := Function.update s.turns w (.holding rest)
        pipe := s.pipe ++ piece }
  | unlock {s : State Writer Item} {w : Writer} (through : s.turns w = .holding []) :
      Step message s { s with turns := Function.update s.turns w .after, holder := none }
  | leave {s : State Writer Item} {w : Writer} (waits : s.turns w = .before) :
      Step message s { s with turns := Function.update s.turns w .after }
  | take {s : State Writer Item} {piece rest : List Item} (there : s.pipe = piece ++ rest) :
      Step message s { s with pipe := rest, taken := s.taken ++ piece }

/-- Nothing is lost, doubled or mixed. -/
structure Good (message : Writer → List Item) (s : State Writer Item) : Prop where
  holder_iff : ∀ w, s.holder = some w ↔ ∃ owed, s.turns w = .holding owed
  ordered : ∀ w ∈ s.order, s.turns w ≠ .before
  once : s.order.Nodup
  conserved : s.taken ++ (s.pipe ++ owedBy s.turns s.holder) = s.order.flatMap message

section

variable {message : Writer → List Item} {s after : State Writer Item}

variable [DecidableEq Writer]

theorem Good.holder_update (good : Good message s) {w : Writer} {turn : Turn Item}
    {holder : Option Writer} (here : holder = some w ↔ ∃ owed, turn = .holding owed)
    (others : ∀ other, other ≠ w → (holder = some other ↔ s.holder = some other)) (other : Writer) :
    holder = some other ↔ ∃ owed, Function.update s.turns w turn other = .holding owed := by
  by_cases same : other = w
  · subst other
    rw [Function.update_self]
    exact here
  · rw [Function.update_of_ne same]
    exact (others other same).trans (good.holder_iff other)

theorem Good.ordered_update (good : Good message s) {w : Writer} {turn : Turn Item}
    (later : turn ≠ .before) : ∀ other ∈ s.order, Function.update s.turns w turn other ≠ .before := by
  intro other member
  by_cases same : other = w
  · subst other
    rw [Function.update_self]
    exact later
  · rw [Function.update_of_ne same]
    exact good.ordered other member

theorem Step.good (step : Step message s after) (good : Good message s) : Good message after := by
  have whole := good.conserved
  cases step with
  | @lock w waits free =>
      rw [free, owedBy, List.append_nil] at whole
      have fresh : w ∉ s.order := fun member => good.ordered w member waits
      constructor
      · refine good.holder_update (by simp) ?_
        intro other different
        rw [free]
        simp [Ne.symm different]
      · intro other member
        rcases List.mem_append.mp member with earlier | last
        · exact good.ordered_update (by simp) other earlier
        · rw [List.mem_singleton.mp last]
          dsimp only
          rw [Function.update_self]
          simp
      · rw [List.nodup_append]
        refine ⟨good.once, List.nodup_singleton w, ?_⟩
        rintro one member other last rfl
        exact fresh (List.mem_singleton.mp last ▸ member)
      · dsimp only
        rw [owedBy, Function.update_self, Turn.owed, List.flatMap_append, List.flatMap_singleton, ← whole,
          List.append_assoc]
  | @put w piece rest holds =>
      have holder := (good.holder_iff w).mpr ⟨_, holds⟩
      rw [holder, owedBy, holds, Turn.owed] at whole
      constructor
      · exact good.holder_update (by simp [holder]) fun _ _ => Iff.rfl
      · exact good.ordered_update (by simp)
      · exact good.once
      · dsimp only
        rw [holder, owedBy, Function.update_self, Turn.owed, List.append_assoc, whole]
  | @unlock w through =>
      have holder := (good.holder_iff w).mpr ⟨_, through⟩
      rw [holder, owedBy, through, Turn.owed] at whole
      constructor
      · refine good.holder_update (by simp) ?_
        intro other different
        rw [holder]
        simp [Ne.symm different]
      · exact good.ordered_update (by simp)
      · exact good.once
      · exact whole
  | @leave w waits =>
      have other : s.holder ≠ some w := by
        intro holder
        obtain ⟨owed, holds⟩ := (good.holder_iff w).mp holder
        rw [waits] at holds
        contradiction
      constructor
      · exact good.holder_update (by simp [other]) fun _ _ => Iff.rfl
      · exact good.ordered_update (by simp)
      · exact good.once
      · dsimp only
        cases holder : s.holder with
        | none =>
            rw [holder] at whole
            exact whole
        | some writer =>
            have different : writer ≠ w := fun equal => other (equal ▸ holder)
            rw [holder] at whole
            rw [owedBy, Function.update_of_ne different]
            exact whole
  | @take piece rest there =>
      rw [there] at whole
      refine ⟨good.holder_iff, good.ordered, good.once, ?_⟩
      simp only [List.append_assoc] at whole ⊢
      exact whole

end

theorem start_good (message : Writer → List Item) :
    Good message ⟨fun _ => .before, none, [], [], []⟩ where
  holder_iff w := by simp
  ordered w member := absurd member List.not_mem_nil
  once := List.nodup_nil
  conserved := rfl

theorem Good.taken_prefix {message : Writer → List Item} {s : State Writer Item}
    (good : Good message s) : s.taken <+: s.order.flatMap message :=
  ⟨_, good.conserved⟩

end Funnel
