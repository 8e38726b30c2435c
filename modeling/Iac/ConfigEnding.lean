import Iac.ConfigGrammar
import Iac.Library.Inevitable

/-! Whether `parse` ends, on streams that end with an end of file or with a read error. -/

namespace Iac

open CText Inevitable

inductive StreamEnd
  | endOfFile
  | readError
  deriving DecidableEq, Repr

/-- At a read error `getc` returns `EOF`, too, but `feof` does not hold. -/
def StreamEnd.flag (ending : StreamEnd) (fp : Stream) : Stream :=
  match ending with
  | .endOfFile => fp
  | .readError => { fp with eof := false }

def Call.flagged (ending : StreamEnd) : Call → Call
  | .acts line parser => .acts line { parser with fp := ending.flag parser.fp }
  | call => call

inductive Acts (ending : StreamEnd) (behind : Behind) : Call → Call → Prop
  | acts (line : Option Bytes) (parser : Parser) :
      Acts ending behind (.acts line parser) ((action behind line parser).flagged ending)

inductive Call.Returned : Call → Prop
  | final {config : Config} : Returned (.returns 0 config)
  | error {config : Config} : Returned (.returns (-1) config)

def Ended (ending : StreamEnd) (behind : Behind) : Call → Prop :=
  Inevitably (Acts ending behind) Call.Returned

/-! What a line does to the parser: whether it is in a section, and how many parameters it has seen. -/

/-- The key of a parameter is taken for the tag that closes the section. -/
def TakenForEnd (behind : Behind) (params : Nat) (key : Bytes) : Prop :=
  ((arcs .q1).find? fun arc => strcmpEqual key (behind params key.length) arc.tag).map Arc.next = some .q0

inductive Passes (behind : Behind) (line : Bytes) : Bool × Nat → Bool × Nat → Prop
  | skip {state : Bool × Nat} (empty : line = []) : Passes behind line state state
  | opening {params : Nat} (opens : line = openTag) : Passes behind line (false, params) (true, params)
  | closing {params : Nat} (closes : line = endTag) : Passes behind line (true, params) (false, params)
  | parameter {params : Nat} {key value : Bytes} (shape : Parameter key value line)
      (other : ¬TakenForEnd behind params key) : Passes behind line (true, params) (true, params + 1)
  | endKey {params : Nat} {key value : Bytes} (shape : Parameter key value line)
      (taken : TakenForEnd behind params key) : Passes behind line (true, params) (false, params + 1)

inductive Comes (behind : Behind) : Bool × Nat → List Bytes → Bool × Nat → Prop
  | done (state : Bool × Nat) : Comes behind state [] state
  | line {state next last : Bool × Nat} {segment : Bytes} {rest : List Bytes}
      (passes : Passes behind (lineOf segment) state next) (comes : Comes behind next rest last) :
      Comes behind state (segment :: rest) last

/-- Each segment that the parser comes to is short enough for its buffer. -/
def ShortFrom (behind : Behind) (state : Bool × Nat) (rest : List Bytes) : Prop :=
  ∀ before segment after last, rest = before ++ segment :: after → Comes behind state before last →
    segment.length < lineLimit

def RefusedFrom (behind : Behind) (state : Bool × Nat) (rest : List Bytes) : Prop :=
  ∃ before segment after last, rest = before ++ segment :: after ∧ Comes behind state before last ∧
    ∀ next, ¬Passes behind (lineOf segment) last next

def Concludes (ending : StreamEnd) (behind : Behind) (state : Bool × Nat) (rest : List Bytes) : Prop :=
  ShortFrom behind state rest ∧ (ending = .readError → RefusedFrom behind state rest)

section

variable {behind : Behind} {ending : StreamEnd} {state next : Bool × Nat} {line segment : Bytes}
  {more : List Bytes}

theorem Parameter.ne {key value : Bytes} (shape : Parameter key value line) :
    line ≠ [] ∧ line ≠ endTag := by
  constructor
  · rintro rfl
    exact absurd shape.equals List.not_mem_nil
  · rintro rfl
    exact absurd shape.equals (by decide)

theorem Passes.unique {other : Bool × Nat} (left : Passes behind line state next)
    (right : Passes behind line state other) : next = other := by
  have open_empty : openTag ≠ [] := by decide
  have end_empty : endTag ≠ [] := by decide
  cases left with
  | skip empty =>
      cases right with
      | skip _ => rfl
      | opening opens => exact absurd (opens.symm.trans empty) open_empty
      | closing closes => exact absurd (closes.symm.trans empty) end_empty
      | parameter shape _ => exact absurd empty shape.ne.1
      | endKey shape _ => exact absurd empty shape.ne.1
  | opening opens =>
      cases right with
      | skip empty => exact absurd (opens.symm.trans empty) open_empty
      | opening _ => rfl
  | closing closes =>
      cases right with
      | skip empty => exact absurd (closes.symm.trans empty) end_empty
      | closing _ => rfl
      | parameter shape _ => exact absurd closes shape.ne.2
      | endKey shape _ => exact absurd closes shape.ne.2
  | parameter shape different =>
      cases right with
      | skip empty => exact absurd empty shape.ne.1
      | closing closes => exact absurd closes shape.ne.2
      | parameter _ _ => rfl
      | endKey another taken =>
          rw [← another.getParam, shape.getParam] at taken
          exact absurd taken different
  | endKey shape taken =>
      cases right with
      | skip empty => exact absurd empty shape.ne.1
      | closing closes => exact absurd closes shape.ne.2
      | parameter another different =>
          rw [← another.getParam, shape.getParam] at different
          exact absurd taken different
      | endKey _ _ => rfl

/-! Where the lines take the parser. -/

theorem Comes.concat {first : Bool × Nat} {before : List Bytes} (comes : Comes behind first before state)
    (passes : Passes behind (lineOf segment) state next) : Comes behind first (before ++ [segment]) next := by
  induction comes with
  | done _ => exact .line passes (.done next)
  | line before _ ih => exact .line before (ih passes)

theorem concludes_nil : Concludes ending behind state [] ↔ ending = .endOfFile := by
  constructor
  · rintro ⟨_, refused⟩
    cases ending with
    | endOfFile => rfl
    | readError =>
        obtain ⟨before, segment, after, _, shape, _⟩ := refused rfl
        simp at shape
  · rintro rfl
    refine ⟨?_, ?_⟩
    · intro before segment after _ shape
      simp at shape
    · intro error
      contradiction

theorem concludes_long (long : lineLimit ≤ segment.length) :
    ¬Concludes ending behind state (segment :: more) := by
  intro concludes
  have short := concludes.1 [] segment more state rfl (.done state)
  omega

theorem concludes_refused (short : segment.length < lineLimit)
    (refused : ∀ next, ¬Passes behind (lineOf segment) state next) :
    Concludes ending behind state (segment :: more) := by
  constructor
  · intro before other after last shape comes
    cases comes with
    | done =>
        cases shape
        exact short
    | line passes _ =>
        cases shape
        exact absurd passes (refused _)
  · exact fun _ => ⟨[], segment, more, state, rfl, .done state, refused⟩

theorem concludes_passes (short : segment.length < lineLimit)
    (passes : Passes behind (lineOf segment) state next) :
    Concludes ending behind state (segment :: more) ↔ Concludes ending behind next more := by
  constructor
  · rintro ⟨shorts, refused⟩
    refine ⟨?_, fun error => ?_⟩
    · rintro before other after last rfl comes
      exact shorts (segment :: before) other after last rfl (.line passes comes)
    · obtain ⟨before, other, after, last, shape, comes, stops⟩ := refused error
      cases comes with
      | done =>
          cases shape
          exact absurd passes (stops _)
      | line first rest =>
          cases shape
          rw [first.unique passes] at rest
          exact ⟨_, other, after, last, rfl, rest, stops⟩
  · rintro ⟨shorts, refused⟩
    refine ⟨?_, fun error => ?_⟩
    · intro before other after last shape comes
      cases comes with
      | done =>
          cases shape
          exact short
      | line first rest =>
          cases shape
          rw [first.unique passes] at rest
          exact shorts _ other after last rfl rest
    · obtain ⟨before, other, after, last, rfl, comes, stops⟩ := refused error
      exact ⟨segment :: before, other, after, last, rfl, .line passes comes, stops⟩

/-! One action. -/

theorem ended_acts (arg : Option Bytes) (parser : Parser) :
    Ended ending behind (.acts arg parser) ↔
      Ended ending behind ((action behind arg parser).flagged ending) := by
  refine inevitably_iff_next ?_ (.acts arg parser) ?_
  · intro returned
    cases returned
  · rintro other ⟨_, _⟩
    rfl

theorem ended_action {arg : Option Bytes} {parser : Parser} {call : Call}
    (same : action behind arg parser = call) :
    Ended ending behind (.acts arg parser) ↔ Ended ending behind (call.flagged ending) := by
  rw [ended_acts, same]

theorem ended_q0 {fp : Stream} {config : Config} {params : Nat} {arg : Option Bytes} {call : Call}
    (same : q0Action ⟨fp, .q0, config, params⟩ = call) :
    Ended ending behind (.acts arg ⟨fp, .q0, config, params⟩) ↔ Ended ending behind (call.flagged ending) :=
  ended_action same

theorem ended_q1 {fp : Stream} {config : Config} {params : Nat} {arg : Option Bytes} {call : Call}
    (same : q1Action behind ⟨fp, .q1, config, params⟩ = call) :
    Ended ending behind (.acts arg ⟨fp, .q1, config, params⟩) ↔ Ended ending behind (call.flagged ending) :=
  ended_action same

theorem ended_returns {result : Int32} {config : Config} (known : result = 0 ∨ result = -1) :
    Ended ending behind (.returns result config) := by
  rcases known with rfl | rfl
  · exact .now .final
  · exact .now .error

theorem not_ended_undefined : ¬Ended ending behind .undefined := by
  rw [Ended, inevitably_iff_stuck]
  · intro returned
    cases returned
  · intro next step
    cases step

section

variable {fp fresh : Stream} {inside after : Bool} {params count : Nat}

theorem flag_flag (ending : StreamEnd) (fp : Stream) : ending.flag (ending.flag fp) = ending.flag fp := by
  cases ending with
  | endOfFile => rfl
  | readError => rfl

theorem ended_copy {name : StateName} (value : Bytes) (config : Config)
    (copies : name ≠ .q0 ∧ name ≠ .q1) : ∃ stored,
      Ended ending behind (.acts (some value) ⟨ending.flag fresh, name, config, params⟩) ↔
        Ended ending behind (.acts none ⟨ending.flag fresh, .q1, stored, params⟩) := by
  have copied : ∀ stored, action behind (some value) ⟨ending.flag fresh, name, config, params⟩ =
      .acts none ⟨ending.flag fresh, .q1, stored, params⟩ →
      (Ended ending behind (.acts (some value) ⟨ending.flag fresh, name, config, params⟩) ↔
        Ended ending behind (.acts none ⟨ending.flag fresh, .q1, stored, params⟩)) := by
    intro stored acts
    rw [ended_action acts]
    change Ended ending behind (.acts none ⟨ending.flag (ending.flag fresh), .q1, stored, params⟩) ↔ _
    rw [flag_flag]
  cases name with
  | q0 => exact absurd rfl copies.1
  | q1 => exact absurd rfl copies.2
  | q2 => exact ⟨_, copied _ rfl⟩
  | q3 => exact ⟨_, copied _ rfl⟩
  | q4 => exact ⟨_, copied _ rfl⟩
  | q5 => exact ⟨_, copied _ rfl⟩

theorem q1_moves {arc : Arc} (member : arc ∈ arcs .q1) (parser : Parser) (at_q1 : parser.actualState = .q1)
    (arg : Option Bytes) : parser.moveTo arc.next arg = .acts arg { parser with actualState := arc.next } := by
  have found : ∀ arc ∈ arcs .q1, moveTo .q1 arc.next = some arc.next := by decide
  rw [Parser.moveTo, at_q1, found arc member]

theorem ended_line (passes : Passes behind line (inside, params) (after, count))
    (unread : fp.eof = false) (read : readLine fp = some (line, fresh)) (config : Config)
    (arg : Option Bytes) : ∃ passed stored,
      Ended ending behind (.acts arg ⟨fp, stateOf inside, config, params⟩) ↔
        Ended ending behind (.acts passed ⟨ending.flag fresh, stateOf after, stored, count⟩) := by
  cases passes with
  | skip empty =>
      subst line
      cases inside with
      | false => exact ⟨none, config, ended_q0 (q0_skips unread read)⟩
      | true => exact ⟨none, config, ended_q1 (q1_skips unread read)⟩
  | opening opens =>
      subst line
      exact ⟨none, config, ended_q0 (q0_opens unread read)⟩
  | closing closes =>
      subst line
      exact ⟨none, config, ended_q1 (q1_closes unread read)⟩
  | @parameter _ key value shape other =>
      have acts : action behind arg ⟨fp, .q1, config, params⟩ = _ := q1_key shape unread read
      unfold TakenForEnd at other
      cases found : (arcs .q1).find? fun arc => strcmpEqual key (behind params key.length) arc.tag with
      | none =>
          rw [found] at acts
          exact ⟨none, config, ended_action acts⟩
      | some arc =>
          have member := List.mem_of_find?_eq_some found
          rw [found] at acts other
          have only : ∀ arc ∈ arcs .q1, arc.next ≠ .q1 := by decide
          have copies : arc.next ≠ .q0 ∧ arc.next ≠ .q1 :=
            ⟨fun end_tag => other (congrArg some end_tag), only arc member⟩
          obtain ⟨stored, copied⟩ := @ended_copy behind ending fresh (params + 1) _ value config copies
          exact ⟨none, stored, (ended_action (acts.trans (q1_moves member _ rfl _))).trans copied⟩
  | @endKey _ key value shape taken =>
      have acts : action behind arg ⟨fp, .q1, config, params⟩ = _ := q1_key shape unread read
      obtain ⟨arc, found, end_tag⟩ := Option.map_eq_some_iff.mp taken
      have member := List.mem_of_find?_eq_some found
      rw [found] at acts
      have moves := acts.trans (q1_moves member _ rfl _)
      rw [end_tag] at moves
      exact ⟨some value, config, ended_action moves⟩

theorem action_refused (refused : ∀ next, ¬Passes behind line (inside, params) next)
    (unread : fp.eof = false) (read : readLine fp = some (line, fresh)) (config : Config)
    (arg : Option Bytes) :
    action behind arg ⟨fp, stateOf inside, config, params⟩ = .returns (-1) config := by
  have some_text : line ≠ [] := fun empty => refused _ (.skip empty)
  cases inside with
  | false =>
      have noTag : line ≠ openTag := fun opens => refused _ (.opening opens)
      exact q0_refuses unread read noTag some_text
  | true =>
      have noEnd : line ≠ endTag := fun closes => refused _ (.closing closes)
      have noParam : isParam line = false := by
        rw [Bool.eq_false_iff]
        intro found
        by_cases taken : TakenForEnd behind params (getParam line)
        · exact refused _ (.endKey (isParam_parameter found) taken)
        · exact refused _ (.parameter (isParam_parameter found) taken)
      exact q1_refuses unread read noEnd noParam some_text

theorem action_long (unread : fp.eof = false) (full : readLine fp = none) (config : Config)
    (arg : Option Bytes) : action behind arg ⟨fp, stateOf inside, config, params⟩ = .undefined := by
  cases inside with
  | false =>
      change q0Action _ = _
      unfold q0Action
      rw [if_neg (by simp [unread]), full]
  | true =>
      change q1Action behind _ = _
      unfold q1Action
      rw [if_neg (by simp [unread]), full]

theorem action_end (atEnd : fp.eof = true) (config : Config) (arg : Option Bytes) :
    action behind arg ⟨fp, stateOf inside, config, params⟩ =
      .returns (if inside then -1 else 0) config := by
  cases inside with
  | false =>
      change q0Action _ = _
      unfold q0Action
      rw [if_pos atEnd]
      rfl
  | true =>
      change q1Action behind _ = _
      unfold q1Action
      rw [if_pos atEnd]
      rfl

/-! Whole streams. -/

/-- The lines that are still to be read; after a read error there are empty ones for ever. -/
def Feeds (ending : StreamEnd) (fp : Stream) (rest : List Bytes) : Prop :=
  match ending with
  | .endOfFile => Delivers fp rest
  | .readError => fp.eof = false ∧ (rest = segments fp.rest ∨ rest = [] ∧ fp.rest = [])

theorem readLine_rest (unread : fp.eof = false) (read : readLine fp = some (line, fresh))
    (atEnd : fresh.eof = true) : fresh.rest = [] := by
  unfold readLine at read
  dsimp only at read
  split at read
  · split at read
    · cases read
      rfl
    · cases read
      rw [unread] at atEnd
      contradiction
  · contradiction

theorem feeds_readLine (feeds : Feeds ending fp (segment :: more)) :
    fp.eof = false ∧ ((segment.length < lineLimit ∧
        ∃ fresh, readLine fp = some (lineOf segment, fresh) ∧ Feeds ending (ending.flag fresh) more) ∨
      lineLimit ≤ segment.length ∧ readLine fp = none) := by
  cases ending with
  | endOfFile => exact delivers_readLine feeds
  | readError =>
      obtain ⟨unread, shape | ⟨nothing, _⟩⟩ := feeds
      · refine ⟨unread, ?_⟩
        obtain ⟨_, ⟨short, fresh, read, later⟩ | long⟩ := delivers_readLine (.inr ⟨unread, shape⟩)
        · refine .inl ⟨short, fresh, read, rfl, ?_⟩
          rcases later with ⟨atEnd, nothing⟩ | ⟨_, rest⟩
          · have empty := readLine_rest unread read atEnd
            exact .inr ⟨nothing, empty⟩
          · exact .inl rest
        · exact .inr long
      · contradiction

/-- Behind a read error there is an empty line, and then the same again. -/
theorem not_ended_error (unread : fp.eof = false) (nothing : fp.rest = []) (config : Config)
    (arg : Option Bytes) : ¬Ended .readError behind (.acts arg ⟨fp, stateOf inside, config, params⟩) := by
  obtain ⟨rest, eof⟩ := fp
  subst unread nothing
  have read : readLine ⟨[], false⟩ = some ([], ⟨[], true⟩) := by decide
  refine @not_inevitably _ _ _ (fun call => ∃ arg inside,
    call = .acts arg ⟨⟨[], false⟩, stateOf inside, config, params⟩) ?_ ?_ _ ⟨arg, inside, rfl⟩
  · rintro call ⟨arg, inside, rfl⟩ returned
    cases returned
  · rintro call next ⟨arg, inside, rfl⟩ step
    refine ⟨next, step, none, inside, ?_⟩
    cases step with
    | acts _ _ =>
        cases inside with
        | false =>
            have skips : action behind arg ⟨⟨[], false⟩, .q0, config, params⟩ = _ := q0_skips rfl read
            rw [stateOf, skips]
            rfl
        | true =>
            have skips : action behind arg ⟨⟨[], false⟩, .q1, config, params⟩ = _ := q1_skips rfl read
            rw [stateOf, skips]
            rfl

theorem ended_iff (rest : List Bytes) (feeds : Feeds ending fp rest) (config : Config)
    (arg : Option Bytes) : Ended ending behind (.acts arg ⟨fp, stateOf inside, config, params⟩) ↔
      Concludes ending behind (inside, params) rest := by
  induction rest generalizing fp inside params config arg with
  | nil =>
      rw [concludes_nil]
      cases ending with
      | endOfFile =>
          have atEnd : fp.eof = true := by
            rcases feeds with ⟨atEnd, _⟩ | ⟨_, shape⟩
            · exact atEnd
            · rw [segments_eq] at shape
              contradiction
          refine iff_of_true ((ended_action (action_end atEnd config arg)).mpr (ended_returns ?_)) rfl
          cases inside with
          | false => exact .inl rfl
          | true => exact .inr rfl
      | readError =>
          obtain ⟨unread, shape | ⟨_, nothing⟩⟩ := feeds
          · rw [segments_eq] at shape
            contradiction
          · refine iff_of_false (not_ended_error unread nothing config arg) ?_
            intro wrong
            contradiction
  | cons segment more ih =>
      obtain ⟨unread, ⟨short, fresh, read, later⟩ | ⟨long, full⟩⟩ := feeds_readLine feeds
      · by_cases goes : ∃ next, Passes behind (lineOf segment) (inside, params) next
        · obtain ⟨⟨after, count⟩, passes⟩ := goes
          obtain ⟨passed, stored, same⟩ := @ended_line behind ending _ _ _ _ _ _ _ passes unread read config arg
          rw [concludes_passes short passes, same]
          exact ih later stored passed
        · have refused := not_exists.mp goes
          have returns := @ended_action behind ending _ _ _ (action_refused refused unread read config arg)
          exact iff_of_true (returns.mpr (ended_returns (.inr rfl))) (concludes_refused short refused)
      · refine iff_of_false ?_ (concludes_long long)
        rw [ended_action (action_long unread full config arg)]
        exact not_ended_undefined

end

end

/-- `parse` ends with a result unless it comes to a line that is too long for its buffer, or to a
read error: every line up to that must have been one that may stand there. -/
theorem parse_ends_iff (ending : StreamEnd) (behind : Behind) (file : Bytes) (initial : Config) :
    Ended ending behind (parseFrom file initial) ↔
      Concludes ending behind (false, 0) (segments file) := by
  refine @ended_iff behind ending _ false 0 (segments file) ?_ initial none
  cases ending with
  | endOfFile => exact .inr ⟨rfl, rfl⟩
  | readError => exact ⟨rfl, .inl rfl⟩

/-- A directory can be opened, but not read. -/
theorem directory_never_ends : ¬∀ behind initial, Ended .readError behind (parseFrom [] initial) := by
  intro ends
  let blank : Config := ⟨.leftover 0, .leftover 0, .leftover 0, .leftover 0⟩
  exact @not_ended_error (fun _ _ _ => 0) ⟨[], false⟩ false 0 rfl rfl blank none (ends _ _)

end Iac
