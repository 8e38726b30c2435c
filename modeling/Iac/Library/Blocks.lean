import Mathlib.Computability.Language

/-! Words that consist of letters to be skipped and of blocks, each with an opening and a
closing letter: their language, and the two-state automaton that follows it. -/

namespace Blocks

open scoped Computability

variable {α : Type}

def letter (isOne : α → Prop) : Language α := {word | ∃ a, isOne a ∧ word = [a]}

/-- The kinds of letters; the two that are told apart at one place exclude each other. -/
structure Shape (α : Type) where
  skips : α → Prop
  opens : α → Prop
  holds : α → Prop
  closes : α → Prop
  outside : ∀ a, opens a → ¬skips a
  inside : ∀ a, closes a → ¬holds a

def Shape.language (shape : Shape α) : Language α :=
  (letter shape.skips + letter shape.opens * (letter shape.holds)∗ * letter shape.closes)∗

/-- The state behind a word, `true` in an open block; no state if the word leads nowhere. -/
inductive Shape.Follows (shape : Shape α) : Bool → List α → Bool → Prop
  | done (state : Bool) : shape.Follows state [] state
  | skip {a : α} {rest : List α} {last : Bool} (isOne : shape.skips a)
      (next : shape.Follows false rest last) : shape.Follows false (a :: rest) last
  | opening {a : α} {rest : List α} {last : Bool} (isOne : shape.opens a)
      (next : shape.Follows true rest last) : shape.Follows false (a :: rest) last
  | hold {a : α} {rest : List α} {last : Bool} (isOne : shape.holds a)
      (next : shape.Follows true rest last) : shape.Follows true (a :: rest) last
  | closing {a : α} {rest : List α} {last : Bool} (isOne : shape.closes a)
      (next : shape.Follows false rest last) : shape.Follows true (a :: rest) last

variable {shape : Shape α}

theorem Shape.Follows.split {start last : Bool} {first second : List α}
    (whole : shape.Follows start (first ++ second) last) :
    ∃ middle, shape.Follows start first middle ∧ shape.Follows middle second last := by
  induction first generalizing start with
  | nil => exact ⟨start, .done start, whole⟩
  | cons a rest ih =>
      cases whole with
      | skip isOne behind =>
          obtain ⟨middle, before, after⟩ := ih behind
          exact ⟨middle, .skip isOne before, after⟩
      | opening isOne behind =>
          obtain ⟨middle, before, after⟩ := ih behind
          exact ⟨middle, .opening isOne before, after⟩
      | hold isOne behind =>
          obtain ⟨middle, before, after⟩ := ih behind
          exact ⟨middle, .hold isOne before, after⟩
      | closing isOne behind =>
          obtain ⟨middle, before, after⟩ := ih behind
          exact ⟨middle, .closing isOne before, after⟩

/-- What the automaton does with one letter. -/
inductive Shape.Step (shape : Shape α) (a : α) : Bool → Bool → Prop
  | skip (isOne : shape.skips a) : shape.Step a false false
  | opening (isOne : shape.opens a) : shape.Step a false true
  | hold (isOne : shape.holds a) : shape.Step a true true
  | closing (isOne : shape.closes a) : shape.Step a true false

theorem Shape.Step.unique {a : α} {state one other : Bool} (left : shape.Step a state one)
    (right : shape.Step a state other) : one = other := by
  cases left with
  | skip isOne =>
      cases right with
      | skip _ => rfl
      | opening another => exact absurd isOne (shape.outside a another)
  | opening isOne =>
      cases right with
      | skip another => exact absurd another (shape.outside a isOne)
      | opening _ => rfl
  | hold isOne =>
      cases right with
      | hold _ => rfl
      | closing another => exact absurd isOne (shape.inside a another)
  | closing isOne =>
      cases right with
      | hold another => exact absurd another (shape.inside a isOne)
      | closing _ => rfl

theorem Shape.Step.follows {a : α} {state next last : Bool} {rest : List α}
    (step : shape.Step a state next) (behind : shape.Follows next rest last) :
    shape.Follows state (a :: rest) last := by
  cases step with
  | skip isOne => exact .skip isOne behind
  | opening isOne => exact .opening isOne behind
  | hold isOne => exact .hold isOne behind
  | closing isOne => exact .closing isOne behind

theorem Shape.Follows.first {a : α} {state last : Bool} {rest : List α}
    (follows : shape.Follows state (a :: rest) last) :
    ∃ next, shape.Step a state next ∧ shape.Follows next rest last := by
  cases follows with
  | skip isOne behind => exact ⟨false, .skip isOne, behind⟩
  | opening isOne behind => exact ⟨true, .opening isOne, behind⟩
  | hold isOne behind => exact ⟨true, .hold isOne, behind⟩
  | closing isOne behind => exact ⟨false, .closing isOne, behind⟩

theorem Shape.Step.follows_iff {a : α} {state next last : Bool} {rest : List α}
    (step : shape.Step a state next) :
    shape.Follows state (a :: rest) last ↔ shape.Follows next rest last := by
  constructor
  · intro follows
    obtain ⟨other, another, behind⟩ := follows.first
    rw [step.unique another]
    exact behind
  · exact step.follows

theorem letter_kstar {isOne : α → Prop} {word : List α} :
    word ∈ (letter isOne)∗ ↔ ∀ a ∈ word, isOne a := by
  rw [Language.mem_kstar]
  constructor
  · rintro ⟨parts, rfl, every⟩ a member
    obtain ⟨part, partMember, inPart⟩ := List.mem_flatten.mp member
    obtain ⟨b, one, rfl⟩ := every part partMember
    rw [List.mem_singleton.mp inPart]
    exact one
  · intro every
    refine ⟨word.map fun a => [a], by rw [← List.flatMap_def, List.flatMap_singleton'], ?_⟩
    intro part member
    obtain ⟨a, inWord, rfl⟩ := List.mem_map.mp member
    exact ⟨a, every a inWord, rfl⟩

theorem follows_block {word rest : List α} {a : α} {last : Bool}
    (body : ∀ b ∈ word, shape.holds b) (closed : shape.closes a)
    (behind : shape.Follows false rest last) : shape.Follows true (word ++ a :: rest) last := by
  induction word with
  | nil => exact .closing closed behind
  | cons b word ih =>
      exact .hold (body b List.mem_cons_self) (ih fun c member => body c (List.mem_cons_of_mem _ member))

theorem kstar_cons {language : Language α} {first rest : List α} (one : first ∈ language)
    (more : rest ∈ language∗) : first ++ rest ∈ language∗ := by
  rw [Language.mem_kstar] at more ⊢
  obtain ⟨parts, rfl, every⟩ := more
  refine ⟨first :: parts, rfl, ?_⟩
  intro part member
  rcases List.mem_cons.mp member with rfl | later
  · exact one
  · exact every part later

theorem language_skip {a : α} {rest : List α} (isOne : shape.skips a)
    (more : rest ∈ shape.language) : a :: rest ∈ shape.language :=
  @kstar_cons α _ [a] rest ((Language.mem_add _ _ _).mpr (.inl ⟨a, isOne, rfl⟩)) more

theorem language_block {body rest : List α} {a b : α} (opened : shape.opens a)
    (held : ∀ c ∈ body, shape.holds c) (closed : shape.closes b) (more : rest ∈ shape.language) :
    a :: (body ++ b :: rest) ∈ shape.language := by
  have start : [a] ++ body ∈ letter shape.opens * (letter shape.holds)∗ :=
    Language.append_mem_mul ⟨a, opened, rfl⟩ (letter_kstar.mpr held)
  have block : [a] ++ body ++ [b] ∈ letter shape.opens * (letter shape.holds)∗ * letter shape.closes :=
    Language.append_mem_mul start ⟨b, closed, rfl⟩
  have whole := kstar_cons ((Language.mem_add (letter shape.skips) _ _).mpr (.inr block)) more
  have same : [a] ++ body ++ [b] ++ rest = a :: (body ++ b :: rest) := by simp
  rw [same] at whole
  exact whole

/-- From a state on to the end: between blocks, or with the rest of a block first. -/
theorem follows_inversion {state last : Bool} {word : List α}
    (follows : shape.Follows state word last) (ends : last = false) :
    (state = false → word ∈ shape.language) ∧
      (state = true → ∃ body a rest, word = body ++ a :: rest ∧ (∀ b ∈ body, shape.holds b) ∧
        shape.closes a ∧ rest ∈ shape.language) := by
  induction follows with
  | done _ =>
      subst ends
      exact ⟨fun _ => Language.nil_mem_kstar _, by simp⟩
  | skip isOne _ ih => exact ⟨fun _ => language_skip isOne ((ih ends).1 rfl), by simp⟩
  | opening isOne _ ih =>
      obtain ⟨body, b, rest, rfl, held, closed, more⟩ := (ih ends).2 rfl
      exact ⟨fun _ => language_block isOne held closed more, by simp⟩
  | @hold a _ _ isOne _ ih =>
      obtain ⟨body, b, rest, rfl, held, closed, more⟩ := (ih ends).2 rfl
      refine ⟨by simp, fun _ => ⟨a :: body, b, rest, rfl, ?_, closed, more⟩⟩
      intro c member
      rcases List.mem_cons.mp member with rfl | later
      · exact isOne
      · exact held c later
  | @closing a rest _ isOne _ ih =>
      exact ⟨by simp, fun _ => ⟨[], a, rest, rfl, by simp, isOne, (ih ends).1 rfl⟩⟩

theorem mem_language_iff {word : List α} :
    word ∈ shape.language ↔ shape.Follows false word false := by
  constructor
  · intro member
    obtain ⟨parts, rfl, every⟩ := Language.mem_kstar.mp member
    induction parts with
    | nil => exact .done false
    | cons part rest ih =>
        have others := fun other inRest => every other (List.mem_cons_of_mem part inRest)
        have behind := ih others (Language.join_mem_kstar others)
        rcases (Language.mem_add _ _ _).mp (every part List.mem_cons_self) with skip | block
        · obtain ⟨a, isOne, rfl⟩ := skip
          exact .skip isOne behind
        · obtain ⟨_, ⟨_, ⟨a, opened, rfl⟩, body, held, rfl⟩, _, ⟨b, closed, rfl⟩, rfl⟩ := block
          have inner := follows_block (letter_kstar.mp held) closed behind
          simpa using Shape.Follows.opening opened inner
  · intro follows
    exact (follows_inversion follows rfl).1 rfl

end Blocks
