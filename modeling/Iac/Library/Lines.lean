import Iac.Library.Inevitable

/-! Inputs as lines, each of which ends with a newline but for the last one, and programs that take
one line after another until one is accepted. -/

namespace Lines

open Inevitable

variable {α : Type} {newline : α} {accepted : List α → Prop}

theorem lines_induction {motive : List α → Prop} (tail : ∀ line, newline ∉ line → motive line)
    (line : ∀ line rest, newline ∉ line → motive rest → motive (line ++ newline :: rest))
    (input : List α) : motive input := by
  generalize size : input.length = length
  induction length using Nat.strongRecOn generalizing input with
  | ind length ih =>
      by_cases more : newline ∈ input
      · obtain ⟨first, rest, rfl, clean⟩ := List.eq_append_cons_of_mem more
        rw [List.length_append, List.length_cons] at size
        exact line first rest clean (ih rest.length (by omega) rest rfl)
      · exact tail input more

/-- The first line that is accepted, and what comes behind it. -/
structure First (newline : α) (accepted : List α → Prop) (input line rest : List α) : Prop where
  shape : ∃ others : List (List α), input = others.flatMap (· ++ [newline]) ++ (line ++ newline :: rest) ∧
    ∀ other ∈ others, newline ∉ other ∧ ¬accepted other
  clean : newline ∉ line
  accepted : accepted line

theorem first_line {line : List α} (clean : newline ∉ line) (here : accepted line) (rest : List α) :
    First newline accepted (line ++ newline :: rest) line rest :=
  ⟨⟨[], rfl, fun _ member => absurd member List.not_mem_nil⟩, clean, here⟩

theorem First.behind {other input line rest : List α} (first : First newline accepted input line rest)
    (clean : newline ∉ other) (rejected : ¬accepted other) :
    First newline accepted (other ++ newline :: input) line rest := by
  obtain ⟨⟨others, shape, refused⟩, plain, good⟩ := first
  refine ⟨⟨other :: others, ?_, List.forall_mem_cons.mpr ⟨⟨clean, rejected⟩, refused⟩⟩, plain, good⟩
  simp only [shape, List.flatMap_cons, List.append_assoc, List.cons_append, List.nil_append]

/-- Character by character up to the newline; where the input ends before, for ever. -/
structure Skips {State : Type} (newline : α) (next : State → Option State)
    (skipping behind : List α → State) : Prop where
  drops : ∀ c line, c ≠ newline → next (skipping (c :: line)) = some (skipping line)
  ends : ∀ rest, next (skipping (newline :: rest)) = some (behind rest)
  stays : next (skipping []) = some (skipping [])

section

variable {State : Type} {next : State → Option State} {skipping behind : List α → State}
  {goal : State → Prop} {line : List α}

theorem Skips.apart (skips : Skips newline next skipping behind) (final : ∀ state, goal state → next state = none)
    (line : List α) : ¬goal (skipping line) := by
  intro reached
  have nothing := final _ reached
  cases line with
  | nil =>
      rw [skips.stays] at nothing
      contradiction
  | cons c line =>
      by_cases same : c = newline
      · rw [same, skips.ends] at nothing
        contradiction
      · rw [skips.drops c line same] at nothing
        contradiction

theorem Skips.passes (skips : Skips newline next skipping behind) (final : ∀ state, goal state → next state = none)
    (clean : newline ∉ line) (rest : List α) :
    Inevitably (fun state after => next state = some after) goal (skipping (line ++ newline :: rest)) ↔
      Inevitably (fun state after => next state = some after) goal (behind rest) := by
  induction line with
  | nil => exact inevitably_next (skips.apart final _) (skips.ends rest)
  | cons c line ih =>
      obtain ⟨other, cleaner⟩ := List.ne_and_not_mem_of_not_mem_cons clean
      rw [← ih cleaner]
      exact inevitably_next (skips.apart final _) (skips.drops c _ other.symm)

theorem Skips.never (skips : Skips newline next skipping behind) (final : ∀ state, goal state → next state = none)
    (clean : newline ∉ line) :
    ¬Inevitably (fun state after => next state = some after) goal (skipping line) := by
  refine @not_inevitably _ _ _ (fun state => ∃ line, state = skipping line ∧ newline ∉ line) ?_ ?_ _
    ⟨line, rfl, clean⟩
  · rintro state ⟨line, rfl, _⟩
    exact skips.apart final line
  · rintro state after ⟨line, rfl, clean⟩ moves
    refine ⟨after, moves, ?_⟩
    cases line with
    | nil =>
        rw [skips.stays] at moves
        exact ⟨[], (Option.some.inj moves).symm, clean⟩
    | cons c line =>
        obtain ⟨other, cleaner⟩ := List.ne_and_not_mem_of_not_mem_cons clean
        rw [skips.drops c line other.symm] at moves
        exact ⟨line, (Option.some.inj moves).symm, cleaner⟩

end

section

variable [DecidableEq α]

/-- The lines that end with a newline. -/
def completeLines (newline : α) (input : List α) : List (List α) := (input.splitOn newline).dropLast

theorem completeLines_tail {line : List α} (clean : newline ∉ line) : completeLines newline line = [] := by
  rw [completeLines, List.splitOn_eq_singleton clean]
  rfl

theorem completeLines_line {line : List α} (clean : newline ∉ line) (rest : List α) :
    completeLines newline (line ++ newline :: rest) = line :: completeLines newline rest := by
  rw [completeLines, List.splitOn_append_cons_self_of_not_mem clean,
    List.dropLast_cons_of_ne_nil (List.splitOn_ne_nil newline rest), completeLines]

/-- Lines that are each ended by a newline. -/
theorem splitOn_ended {lines : List (List α)} (clean : ∀ line ∈ lines, newline ∉ line) :
    (lines.flatMap (· ++ [newline])).splitOn newline = lines ++ [[]] := by
  induction lines with
  | nil => rfl
  | cons line rest ih =>
      obtain ⟨first, others⟩ := List.forall_mem_cons.mp clean
      rw [List.flatMap_cons, List.append_assoc, List.singleton_append,
        List.splitOn_append_cons_self_of_not_mem first, ih others]
      rfl

theorem first_exists {input : List α} (some_line : ∃ line ∈ completeLines newline input, accepted line) :
    ∃ line rest, First newline accepted input line rest := by
  induction input using @lines_induction _ newline with
  | tail line clean =>
      obtain ⟨other, member, _⟩ := some_line
      rw [completeLines_tail clean] at member
      contradiction
  | line line rest clean ih =>
      rw [completeLines_line clean] at some_line
      by_cases here : accepted line
      · exact ⟨line, rest, first_line clean here rest⟩
      · obtain ⟨other, member, later⟩ := some_line
        rcases List.mem_cons.mp member with rfl | member
        · exact absurd later here
        · obtain ⟨found, behind, first⟩ := ih ⟨other, member, later⟩
          exact ⟨found, behind, first.behind clean here⟩

/-- A program that ends at an accepted line, goes on to the next one at any other, and never ends
in a line that nothing ends. -/
theorem ends_iff_line {State : Type} {ends : State → List α → Prop}
    (accepts : ∀ state line rest, newline ∉ line → accepted line → ends state (line ++ newline :: rest))
    (rejects : ∀ state line rest, newline ∉ line → ¬accepted line →
      ∃ next, ends state (line ++ newline :: rest) ↔ ends next rest)
    (hangs : ∀ state line, newline ∉ line → ¬ends state line) (state : State) (input : List α) :
    ends state input ↔ ∃ line ∈ completeLines newline input, accepted line := by
  induction input using @lines_induction _ newline generalizing state with
  | tail line clean =>
      rw [completeLines_tail clean]
      refine iff_of_false (hangs state line clean) ?_
      rintro ⟨other, member, _⟩
      contradiction
  | line line rest clean ih =>
      rw [completeLines_line clean]
      by_cases here : accepted line
      · exact iff_of_true (accepts state line rest clean here) ⟨line, List.mem_cons_self, here⟩
      · obtain ⟨next, same⟩ := rejects state line rest clean here
        rw [same, ih next]
        constructor
        · rintro ⟨other, member, good⟩
          exact ⟨other, List.mem_cons_of_mem _ member, good⟩
        · rintro ⟨other, member, good⟩
          rcases List.mem_cons.mp member with rfl | later
          · exact absurd good here
          · exact ⟨other, later, good⟩

end

/-! Lines that are read into an array piece by piece. -/

/-- The pieces of a line that fill the array. -/
def fullPieces (width : Nat) (line : List α) : List (List α) :=
  (List.range (line.length / width)).map fun k => (line.drop (width * k)).take width

/-- What is left of it, which may be nothing. -/
def lastPiece (width : Nat) (line : List α) : List α := line.drop (width * (line.length / width))

section

variable {width : Nat} {line : List α}

theorem fullPieces_short (short : line.length < width) : fullPieces width line = [] := by
  rw [fullPieces, Nat.div_eq_of_lt short]
  rfl

theorem lastPiece_short (short : line.length < width) : lastPiece width line = line := by
  rw [lastPiece, Nat.div_eq_of_lt short, Nat.mul_zero, List.drop_zero]

theorem pieces_more (positive : 0 < width) (more : width ≤ line.length) :
    line.length / width = (line.drop width).length / width + 1 := by
  rw [List.length_drop, ← Nat.add_div_right _ positive, Nat.sub_add_cancel more]

theorem fullPieces_more (positive : 0 < width) (more : width ≤ line.length) :
    fullPieces width line = line.take width :: fullPieces width (line.drop width) := by
  rw [fullPieces, pieces_more positive more, List.range_succ_eq_map, List.map_cons, List.map_map,
    Nat.mul_zero, List.drop_zero, fullPieces]
  refine congrArg _ (List.map_congr_left ?_)
  intro k _
  rw [Function.comp_apply, List.drop_drop, Nat.mul_succ, Nat.add_comm]

theorem lastPiece_more (positive : 0 < width) (more : width ≤ line.length) :
    lastPiece width line = lastPiece width (line.drop width) := by
  rw [lastPiece, pieces_more positive more, lastPiece, List.drop_drop, Nat.mul_succ, Nat.add_comm]

end

end Lines
