import Mathlib.Logic.Relation
import Mathlib.Tactic.Common

/-! What a system comes to whichever steps it takes. -/

namespace Inevitable

variable {State : Type}

/-- Every run reaches the goal: it cannot get stuck before, and it cannot go on for ever. -/
inductive Inevitably (step : State → State → Prop) (goal : State → Prop) : State → Prop
  | now {state : State} (reached : goal state) : Inevitably step goal state
  | later {state : State} (goes : ∃ next, step state next)
      (every : ∀ next, step state next → Inevitably step goal next) : Inevitably step goal state

variable {step : State → State → Prop} {goal : State → Prop}

/-- An invariant with a number that each step makes smaller. -/
theorem inevitably_of_measure {holds : Nat → State → Prop}
    (progress : ∀ count state, holds count state → goal state ∨ ∃ next, step state next)
    (decrease : ∀ count state next, holds count state → step state next →
      ∃ less, less < count ∧ holds less next)
    {count : Nat} {state : State} (start : holds count state) : Inevitably step goal state := by
  induction count using Nat.strongRecOn generalizing state with
  | ind count ih =>
      rcases progress count state start with reached | goes
      · exact .now reached
      · refine .later goes ?_
        intro next moves
        obtain ⟨less, smaller, behind⟩ := decrease count state next start moves
        exact ih less smaller behind

/-- A run that can always be kept away from the goal, or gets stuck away from it. -/
theorem not_inevitably {away : State → Prop} (apart : ∀ state, away state → ¬goal state)
    (stays : ∀ state next, away state → step state next → ∃ other, step state other ∧ away other)
    {state : State} (start : away state) : ¬Inevitably step goal state := by
  intro inevitable
  induction inevitable with
  | now reached => exact apart _ start reached
  | later goes _ ih =>
      obtain ⟨next, moves⟩ := goes
      obtain ⟨other, moved, behind⟩ := stays _ next start moves
      exact ih other moved behind

/-- Where there is one step only, it makes no difference. -/
theorem inevitably_iff_next {state next : State} (apart : ¬goal state) (moves : step state next)
    (only : ∀ other, step state other → other = next) :
    Inevitably step goal state ↔ Inevitably step goal next := by
  constructor
  · intro inevitable
    cases inevitable with
    | now reached => exact absurd reached apart
    | later _ every => exact every next moves
  · intro behind
    refine .later ⟨next, moves⟩ ?_
    intro other moved
    rw [only other moved]
    exact behind

/-- For a system that computes its next state. -/
theorem inevitably_next {next : State → Option State} {state after : State} (apart : ¬goal state)
    (moves : next state = some after) :
    Inevitably (fun state after => next state = some after) goal state ↔
      Inevitably (fun state after => next state = some after) goal after := by
  refine inevitably_iff_next apart moves ?_
  intro other moved
  exact Option.some.inj (moved.symm.trans moves)

theorem inevitably_iff_stuck {state : State} (stuck : ∀ next, ¬step state next) :
    Inevitably step goal state ↔ goal state := by
  constructor
  · intro inevitable
    cases inevitable with
    | now reached => exact reached
    | later goes _ =>
        obtain ⟨next, moves⟩ := goes
        exact absurd moves (stuck next)
  · exact .now

/-- One part after another: the first has to end, and wherever it ends the rest has to. -/
theorem inevitably_through {Part : Type} {move : Part → Part → Prop} {finished : Part → Prop} {enter : Part → State}
    (apart : ∀ part, ¬goal (enter part)) (final : ∀ part next, finished part → ¬move part next)
    (inside : ∀ part, ¬finished part → ∀ next, step (enter part) next ↔ ∃ other, move part other ∧ next = enter other)
    {part : Part} :
    Inevitably step goal (enter part) ↔ Inevitably move finished part ∧
      ∀ last, Relation.ReflTransGen move part last → finished last → Inevitably step goal (enter last) := by
  constructor
  · intro inevitable
    generalize same : enter part = state at inevitable
    induction inevitable generalizing part with
    | now reached =>
        subst same
        exact absurd reached (apart part)
    | later goes every ih =>
        subst same
        by_cases ended : finished part
        · refine ⟨.now ended, ?_⟩
          intro last run _
          rcases run.cases_head with rfl | ⟨next, moves, _⟩
          · exact .later goes every
          · exact absurd moves (final part next ended)
        · have steps : ∀ other, move part other → step (enter part) (enter other) :=
            fun other moves => (inside part ended _).mpr ⟨other, moves, rfl⟩
          constructor
          · obtain ⟨next, stepped⟩ := goes
            obtain ⟨other, moves, _⟩ := (inside part ended next).mp stepped
            exact .later ⟨other, moves⟩ fun other moves => (ih _ (steps other moves) rfl).1
          · intro last run reached
            rcases run.cases_head with rfl | ⟨other, moves, rest⟩
            · exact absurd reached ended
            · exact (ih _ (steps other moves) rfl).2 last rest reached
  · rintro ⟨ends, behind⟩
    induction ends with
    | now reached => exact behind _ .refl reached
    | @later part goes _ ih =>
        by_cases ended : finished part
        · exact behind _ .refl ended
        · obtain ⟨other, moves⟩ := goes
          refine .later ⟨_, (inside part ended _).mpr ⟨other, moves, rfl⟩⟩ ?_
          intro next stepped
          obtain ⟨other, moves, rfl⟩ := (inside part ended next).mp stepped
          exact ih other moves fun last run reached => behind last (run.head moves) reached

theorem Inevitably.reaches {state : State} (inevitable : Inevitably step goal state) :
    ∃ last, Relation.ReflTransGen step state last ∧ goal last := by
  induction inevitable with
  | now reached => exact ⟨_, .refl, reached⟩
  | later goes _ ih =>
      obtain ⟨next, moves⟩ := goes
      obtain ⟨last, run, reached⟩ := ih next moves
      exact ⟨last, run.head moves, reached⟩

/-! Systems that compute their next state. -/

section

variable {next : State → Option State}

theorem inevitably_along {state after : State} (final : ∀ last, goal last → next last = none)
    (run : Relation.ReflTransGen (fun state after => next state = some after) state after)
    (inevitable : Inevitably (fun state after => next state = some after) goal after) :
    Inevitably (fun state after => next state = some after) goal state := by
  induction run using Relation.ReflTransGen.head_induction_on with
  | refl => exact inevitable
  | head moves _ ih =>
      refine (inevitably_next ?_ moves).mpr ih
      intro reached
      rw [final _ reached] at moves
      contradiction

/-- A run that comes home again and again never ends. -/
theorem not_inevitably_home {home : State → Prop} (final : ∀ last, goal last → next last = none)
    (returns : ∀ state, home state → ∃ other, home other ∧
      Relation.TransGen (fun state after => next state = some after) state other) {state other : State}
    (comes : Relation.ReflTransGen (fun state after => next state = some after) state other)
    (here : home other) : ¬Inevitably (fun state after => next state = some after) goal state := by
  have goes : ∀ state other, home other →
      Relation.ReflTransGen (fun state after => next state = some after) state other →
      ∃ after, next state = some after ∧ ∃ other, home other ∧
        Relation.ReflTransGen (fun state after => next state = some after) after other := by
    intro state other here run
    rcases run.cases_head with rfl | ⟨after, moves, run⟩
    · obtain ⟨again, there, run⟩ := returns _ here
      obtain ⟨after, moves, run⟩ := Relation.TransGen.head'_iff.mp run
      exact ⟨after, moves, again, there, run⟩
    · exact ⟨after, moves, other, here, run⟩
  refine @not_inevitably _ _ _ (fun state => ∃ other, home other ∧
    Relation.ReflTransGen (fun state after => next state = some after) state other) ?_ ?_ _ ⟨other, here, comes⟩
  · rintro state ⟨other, here, run⟩ reached
    obtain ⟨after, moves, _⟩ := goes state other here run
    rw [final _ reached] at moves
    contradiction
  · rintro state after ⟨other, here, run⟩ moves
    obtain ⟨only, moved, again, there, rest⟩ := goes state other here run
    obtain rfl := Option.some.inj (moved.symm.trans moves)
    exact ⟨only, moves, again, there, rest⟩

end

end Inevitable
