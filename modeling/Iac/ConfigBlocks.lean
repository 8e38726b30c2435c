import Mathlib.Logic.Relation
import Iac.ConfigEnding
import Iac.ReadLine

/-! The parser of `common/config.c` with its pointers into blocks of memory: which strings it makes
while it runs. -/

namespace Iac.Blockwise

open CText

/-- A pointer behind the `=`, into the block of the line. -/
def getValue (line : Str) : Option Str :=
  if equalsSign ∈ line.inside then
    some { line with start := line.start + (line.inside.takeWhile (· ≠ equalsSign)).length + 1 }
  else none

/-- `calloc(1, i)`, and `i` bytes are copied. -/
def getParam (line : Str) : Option Str :=
  if equalsSign ∈ line.inside then
    let result := line.inside.takeWhile (· ≠ equalsSign)
    some { size := result.length, bytes := result, start := 0 }
  else none

inductive Call
  | returns (result : Int32) (config : Config)
  | acts (line : Option Str) (parser : Parser)
  | undefined
  deriving DecidableEq, Repr

/-- What an action does next, and the strings that it has made. -/
abbrev Acted := Call × List Str

def moveTo (parser : Parser) (name : StateName) (line : Option Str) : Call :=
  match Iac.moveTo parser.actualState name with
  | some next => .acts line { parser with actualState := next }
  | none => .undefined

def q0Action (parser : Parser) : Acted :=
  if parser.fp.eof then (.returns 0 parser.config, [])
  else
    match readLine parser.fp with
    | none => (.undefined, [])
    | some read =>
        let line := read.line
        let strings := [read.filled.buffer, line]
        let parser := { parser with fp := read.filled.fp }
        if isSectionTag line.text then
          match (arcs parser.actualState).find? fun arc => line.text = arc.tag with
          | some arc => (moveTo parser arc.next none, strings)
          | none => (.returns (-1) parser.config, strings)
        else if line.text = [] then (.acts none parser, strings)
        else (.returns (-1) parser.config, strings)

def q1Action (behind : Behind) (parser : Parser) : Acted :=
  if parser.fp.eof then (.returns (-1) parser.config, [])
  else
    match readLine parser.fp with
    | none => (.undefined, [])
    | some read =>
        let line := read.line
        let strings := [read.filled.buffer, line]
        let parser := { parser with fp := read.filled.fp }
        if line.text = ascii "end" then (moveTo parser .q0 none, strings)
        else if isParam line.text then
          match getParam line, getValue line with
          | some param, some value =>
              let follows := behind parser.params param.size
              let parser := { parser with params := parser.params + 1 }
              match (arcs parser.actualState).find? fun arc => strcmpEqual param.bytes follows arc.tag with
              | some arc => (moveTo parser arc.next (some value), strings ++ [param, value])
              | none => (.acts none parser, strings ++ [param])
          | _, _ => (.undefined, strings)
        else if line.text = [] then (.acts none parser, strings)
        else (.returns (-1) parser.config, strings)

def copyValue (store : Config → Slot → Config) (line : Option Str) (parser : Parser) : Acted :=
  match line.bind leadingTrim with
  | none => (.undefined, [])
  | some line =>
      let parser := { parser with config := store parser.config (.string line.text) }
      (moveTo parser .q1 none, [line])

def q2Action : Option Str → Parser → Acted := copyValue fun config slot => { config with server := slot }

def q3Action : Option Str → Parser → Acted :=
  copyValue fun config slot => { config with listeningPort := slot }

def q4Action : Option Str → Parser → Acted :=
  copyValue fun config slot => { config with database := slot }

def q5Action : Option Str → Parser → Acted :=
  copyValue fun config slot => { config with logging := slot }

def action (behind : Behind) (line : Option Str) (parser : Parser) : Acted :=
  match parser.actualState with
  | .q0 => q0Action parser
  | .q1 => q1Action behind parser
  | .q2 => q2Action line parser
  | .q3 => q3Action line parser
  | .q4 => q4Action line parser
  | .q5 => q5Action line parser

inductive Acts (behind : Behind) : Acted → Acted → Prop
  | acts (line : Option Str) (parser : Parser) (strings : List Str) :
      Acts behind (.acts line parser, strings)
        ((action behind line parser).1, strings ++ (action behind line parser).2)

def parseFrom (file : Bytes) (config : Config) : Acted :=
  (.acts none { fp := { rest := file, eof := false }, actualState := .q0, config, params := 0 }, [])

/-- Every string that is made while `parse` runs ends inside its own block. -/
def AllTerminated (behind : Behind) (file : Bytes) (initial : Config) : Prop :=
  ∀ call strings, Relation.ReflTransGen (Acts behind) (parseFrom file initial) (call, strings) →
    ∀ str ∈ strings, str.Terminated

/-- The call with the texts of the strings. -/
def Call.texts : Call → Iac.Call
  | .returns result config => .returns result config
  | .acts line parser => .acts (line.map Str.text) parser
  | .undefined => .undefined

section

variable {line : Str} {key value : Bytes}

/-- The key has no room for a terminator; the value ends with the line. -/
theorem getParam_getValue (terminated : line.Terminated) (parameter : Parameter key value line.text) :
    getParam line = some ⟨key.length, key, 0⟩ ∧
      ∃ pointer, getValue line = some pointer ∧ pointer.Terminated ∧ pointer.text = value := by
  obtain ⟨more, split⟩ := terminated_split terminated
  have split : line.inside = key ++ equalsSign :: (value ++ 0 :: more) := by
    rw [split]
    change line.text ++ 0 :: more = _
    rw [parameter.shape, List.append_assoc, List.cons_append]
  have member : equalsSign ∈ line.inside := by
    rw [split]
    exact List.mem_append_right _ List.mem_cons_self
  have found : line.inside.takeWhile (· ≠ equalsSign) = key := by
    have clean : ∀ byte ∈ key, decide (byte ≠ equalsSign) = true := fun byte inKey =>
      decide_eq_true (isKeyByte_ne (parameter.keyBytes byte inKey)).1
    rw [split, List.takeWhile_append_of_pos clean, List.takeWhile_cons_of_neg (by simp), List.append_nil]
  unfold getParam getValue
  rw [if_pos member, if_pos member, found]
  refine ⟨rfl, _, rfl, ?_⟩
  have behind : (line.bytes.take line.size).drop (line.start + key.length + 1) = value ++ 0 :: more := by
    have drop : (line.bytes.take line.size).drop (line.start + key.length + 1) =
        (line.inside.drop key.length).drop 1 := by
      rw [List.drop_drop, Str.inside, List.drop_drop, Nat.add_assoc]
    rw [drop, split, List.drop_left]
    rfl
  have plain : (0 : UInt8) ∉ value := by
    intro inValue
    have inText : (0 : UInt8) ∈ line.text := by
      rw [parameter.shape]
      exact List.mem_append_right _ (List.mem_cons_of_mem _ inValue)
    exact cstring_no_nul _ inText
  constructor
  · rw [Str.Terminated, Str.inside]
    change (0 : UInt8) ∈ (line.bytes.take line.size).drop (line.start + key.length + 1)
    rw [behind]
    exact List.mem_append_right _ List.mem_cons_self
  · rw [Str.text, Str.inside]
    change cstring ((line.bytes.take line.size).drop (line.start + key.length + 1)) = value
    rw [behind, cstring_append_nul plain]

theorem param_unterminated (parameter : Parameter key value line.text) :
    ¬(Str.mk key.length key 0).Terminated := by
  rw [Str.Terminated, Str.inside, List.drop_zero, List.take_length]
  exact fun member => (isKeyByte_ne (parameter.keyBytes 0 member)).2 rfl

end

/-! The same calls with the texts of the strings. -/

theorem moveTo_texts (parser : Parser) (name : StateName) (line : Option Str) :
    (moveTo parser name line).texts = parser.moveTo name (line.map Str.text) := by
  unfold moveTo Parser.moveTo
  cases Iac.moveTo parser.actualState name with
  | none => rfl
  | some next => rfl

theorem readLine_cases (fp : Stream) :
    (readLine fp = none ∧ Iac.readLine fp = none) ∨
      ∃ read, readLine fp = some read ∧ Iac.readLine fp = some (read.line.text, read.filled.fp) ∧
        read.filled.buffer.Terminated ∧ read.line.Terminated := by
  have refines := readLine_refines fp
  have spec := readLine_spec fp
  split at spec
  · obtain ⟨read, result, holds, inside⟩ := spec
    rw [result] at refines
    exact .inr ⟨read, result, refines.symm, Str.terminated_of_inside (inside_of_holds holds),
      Str.terminated_of_inside inside⟩
  · rw [spec] at refines
    exact .inl ⟨spec, refines.symm⟩

theorem q0Action_texts (parser : Parser) : (q0Action parser).1.texts = Iac.q0Action parser ∧
    ∀ str ∈ (q0Action parser).2, str.Terminated := by
  unfold q0Action Iac.q0Action
  by_cases atEnd : parser.fp.eof = true
  · rw [if_pos atEnd, if_pos atEnd]
    exact ⟨rfl, fun _ member => absurd member List.not_mem_nil⟩
  · rw [if_neg atEnd, if_neg atEnd]
    rcases readLine_cases parser.fp with ⟨full, same⟩ | ⟨read, result, same, buffer, line⟩
    · rw [full, same]
      exact ⟨rfl, fun _ member => absurd member List.not_mem_nil⟩
    · have both : ∀ str ∈ [read.filled.buffer, read.line], str.Terminated :=
        List.forall_mem_cons.mpr ⟨buffer, List.forall_mem_singleton.mpr line⟩
      rw [result, same]
      dsimp only
      split
      · cases (arcs parser.actualState).find? fun arc => read.line.text = arc.tag with
        | none => exact ⟨rfl, both⟩
        | some arc => exact ⟨moveTo_texts _ _ _, both⟩
      · split
        · exact ⟨rfl, both⟩
        · exact ⟨rfl, both⟩

section

variable {behind : Behind} {parser : Parser}

theorem q1Action_texts : (q1Action behind parser).1.texts = Iac.q1Action behind parser := by
  unfold q1Action Iac.q1Action
  by_cases atEnd : parser.fp.eof = true
  · rw [if_pos atEnd, if_pos atEnd]
    rfl
  · rw [if_neg atEnd, if_neg atEnd]
    rcases readLine_cases parser.fp with ⟨full, same⟩ | ⟨read, result, same, _, terminated⟩
    · rw [full, same]
      rfl
    · rw [result, same]
      dsimp only
      by_cases closes : read.line.text = ascii "end"
      · rw [if_pos closes, if_pos closes]
        exact moveTo_texts _ _ _
      · rw [if_neg closes, if_neg closes]
        by_cases found : isParam read.line.text = true
        · obtain ⟨param, value, points, _, text⟩ := getParam_getValue terminated (isParam_parameter found)
          rw [if_pos found, if_pos found, param, points]
          dsimp only
          cases (arcs parser.actualState).find? fun arc => strcmpEqual (Iac.getParam read.line.text)
            (behind parser.params (Iac.getParam read.line.text).length) arc.tag with
          | none => rfl
          | some arc =>
              rw [← text]
              exact moveTo_texts _ _ _
        · rw [if_neg found, if_neg found]
          split
          · rfl
          · rfl

theorem copyValue_texts (store : Config → Slot → Config) {line : Option Str}
    (terminated : ∀ str ∈ line, str.Terminated) :
    (copyValue store line parser).1.texts = Iac.copyValue store (line.map Str.text) parser ∧
      ∀ str ∈ (copyValue store line parser).2, str.Terminated := by
  unfold copyValue Iac.copyValue
  cases line with
  | none => exact ⟨rfl, fun _ member => absurd member List.not_mem_nil⟩
  | some str =>
      obtain ⟨trimmed, result, inside⟩ := leadingTrim_spec (terminated str rfl)
      have clean : (0 : UInt8) ∉ Iac.leadingTrim str.text := trim_clean (cstring_no_nul _)
      have text : trimmed.text = Iac.leadingTrim str.text := by
        rw [Str.text_of_inside inside, cstring_eq_self clean]
      rw [Option.bind_some, result, Option.map_some]
      dsimp only
      rw [text]
      exact ⟨moveTo_texts _ _ _, List.forall_mem_singleton.mpr (Str.terminated_of_inside inside)⟩

theorem action_texts {line : Option Str} (terminated : ∀ str ∈ line, str.Terminated) :
    (action behind line parser).1.texts = Iac.action behind (line.map Str.text) parser := by
  unfold action Iac.action
  cases parser.actualState with
  | q0 => exact (q0Action_texts parser).1
  | q1 => exact q1Action_texts
  | q2 => exact (copyValue_texts _ terminated).1
  | q3 => exact (copyValue_texts _ terminated).1
  | q4 => exact (copyValue_texts _ terminated).1
  | q5 => exact (copyValue_texts _ terminated).1

/-- Without a parameter every string ends inside its block, and with one the key does not. -/
theorem q1Action_strings : (∀ str ∈ (q1Action behind parser).2, str.Terminated) ∨
    parser.fp.eof = false ∧
      ∃ line next, Iac.readLine parser.fp = some (line, next) ∧ IsParameter line := by
  unfold q1Action
  split
  · exact .inl fun _ member => absurd member List.not_mem_nil
  · rename_i goes
    have unread := Bool.eq_false_iff.mpr goes
    rcases readLine_cases parser.fp with ⟨full, same⟩ | ⟨read, result, same, buffer, line⟩
    · rw [full]
      exact .inl fun _ member => absurd member List.not_mem_nil
    · have both : ∀ str ∈ [read.filled.buffer, read.line], str.Terminated :=
        List.forall_mem_cons.mpr ⟨buffer, List.forall_mem_singleton.mpr line⟩
      rw [result]
      dsimp only
      split
      · exact .inl both
      · split
        · rename_i found
          exact .inr ⟨unread, _, _, same, (isParam_iff _).mp found⟩
        · split
          · exact .inl both
          · exact .inl both

theorem q1Action_unterminated {line : Bytes} {next : Stream} (unread : parser.fp.eof = false)
    (read : Iac.readLine parser.fp = some (line, next)) (parameter : IsParameter line) :
    ∃ str ∈ (q1Action behind parser).2, ¬str.Terminated := by
  obtain ⟨key, value, parameter⟩ := parameter
  have no_end : line ≠ ascii "end" := parameter.ne.2
  have found : isParam line = true := (isParam_iff line).mpr ⟨key, value, parameter⟩
  rcases readLine_cases parser.fp with ⟨_, same⟩ | ⟨made, result, same, _, terminated⟩
  · rw [read] at same
    contradiction
  · rw [read, Option.some.injEq, Prod.mk.injEq] at same
    obtain ⟨rfl, rfl⟩ := same
    obtain ⟨param, pointer, points, _⟩ := getParam_getValue terminated parameter
    refine ⟨⟨key.length, key, 0⟩, ?_, param_unterminated parameter⟩
    unfold q1Action
    rw [if_neg (by simp [unread]), result]
    dsimp only
    rw [if_neg no_end, if_pos found, param, points]
    dsimp only
    split
    · exact List.mem_append_right _ List.mem_cons_self
    · exact List.mem_append_right _ List.mem_cons_self

end

/-! Lines and whole files. -/

inductive AtLine (behind : Behind) (state : Bool × Nat) (config : Config) : List Bytes → Acted → Prop
  | parameter {segment : Bytes} {more : List Bytes} {acted : Acted} (short : segment.length < lineLimit)
      (inside : state.1 = true) (shape : IsParameter (lineOf segment))
      (made : ∃ str ∈ acted.2, ¬str.Terminated) : AtLine behind state config (segment :: more) acted
  | passes {segment : Bytes} {more : List Bytes} {fresh : Stream} {after : Bool} {strings : List Str}
      (short : segment.length < lineLimit)
      (passes : Passes behind (lineOf segment) state (after, state.2)) (delivers : Delivers fresh more)
      (terminated : ∀ str ∈ strings, str.Terminated) :
      AtLine behind state config (segment :: more)
        (.acts none ⟨fresh, stateOf after, config, state.2⟩, strings)
  | stops {rest : List Bytes} {acted : Acted} (final : ∀ line parser, acted.1 ≠ .acts line parser)
      (stuck : ∀ segment more, rest = segment :: more → segment.length < lineLimit →
        ∀ next, ¬Passes behind (lineOf segment) state next)
      (terminated : ∀ str ∈ acted.2, str.Terminated) : AtLine behind state config rest acted

section

variable {behind : Behind} {fp fresh : Stream} {inside : Bool} {params : Nat} {config : Config}
  {line : Bytes} {arg : Option Str}

theorem texts_acts {call : Call} {parser : Parser} (same : call.texts = .acts none parser) :
    call = .acts none parser := by
  cases call with
  | returns result config => contradiction
  | undefined => contradiction
  | acts line other =>
      cases line with
      | none =>
          cases same
          rfl
      | some str =>
          rw [Call.texts] at same
          cases same

theorem texts_final {call : Call} {final : Iac.Call} (same : call.texts = final) (isFinal : final.isFinal = true) :
    ∀ line parser, call ≠ .acts line parser := by
  rintro line parser rfl
  rw [← same] at isFinal
  contradiction

theorem boundary_texts : (action behind arg ⟨fp, stateOf inside, config, params⟩).1.texts =
    Iac.action behind none ⟨fp, stateOf inside, config, params⟩ := by
  cases inside with
  | false => exact (q0Action_texts _).1
  | true => exact q1Action_texts

theorem boundary_strings (other : fp.eof = false → ∀ line next, Iac.readLine fp = some (line, next) →
      ¬(inside = true ∧ IsParameter line)) :
    ∀ str ∈ (action behind arg ⟨fp, stateOf inside, config, params⟩).2, str.Terminated := by
  cases inside with
  | false => exact (q0Action_texts _).2
  | true =>
      rcases @q1Action_strings behind ⟨fp, .q1, config, params⟩ with
        terminated | ⟨unread, line, next, read, shape⟩
      · exact terminated
      · exact absurd ⟨rfl, shape⟩ (other unread line next read)

theorem action_passes {after : Bool} {count : Nat} (passes : Passes behind line (inside, params) (after, count))
    (other : ¬(inside = true ∧ IsParameter line)) (unread : fp.eof = false)
    (read : Iac.readLine fp = some (line, fresh)) : count = params ∧
      Iac.action behind none ⟨fp, stateOf inside, config, params⟩ =
        .acts none ⟨fresh, stateOf after, config, params⟩ := by
  cases passes with
  | skip empty =>
      subst line
      cases inside with
      | false => exact ⟨rfl, q0_skips unread read⟩
      | true => exact ⟨rfl, q1_skips unread read⟩
  | opening opens =>
      subst line
      exact ⟨rfl, q0_opens unread read⟩
  | closing closes =>
      subst line
      exact ⟨rfl, q1_closes unread read⟩
  | parameter shape _ => exact absurd ⟨rfl, _, _, shape⟩ other
  | endKey shape _ => exact absurd ⟨rfl, _, _, shape⟩ other

theorem atLine (rest : List Bytes) (delivers : Delivers fp rest) :
    AtLine behind (inside, params) config rest (action behind arg ⟨fp, stateOf inside, config, params⟩) := by
  have texts := @boundary_texts behind fp inside params config arg
  cases rest with
  | nil =>
      have atEnd := (delivers_eof delivers).mpr rfl
      rw [action_end atEnd] at texts
      refine .stops (texts_final texts rfl) ?_ (boundary_strings ?_)
      · intro segment more shape
        contradiction
      · intro unread
        rw [unread] at atEnd
        contradiction
  | cons segment more =>
      obtain ⟨unread, ⟨short, fresh, read, later⟩ | ⟨long, full⟩⟩ := delivers_readLine delivers
      · by_cases found : inside = true ∧ IsParameter (lineOf segment)
        · obtain ⟨rfl, shape⟩ := found
          exact .parameter short rfl shape
            (@q1Action_unterminated behind ⟨fp, .q1, config, params⟩ _ _ unread read shape)
        · have terminated := @boundary_strings behind fp inside params config arg (by
            intro _ line next again
            rw [read] at again
            cases again
            exact found)
          by_cases goes : ∃ next, Passes behind (lineOf segment) (inside, params) next
          · obtain ⟨⟨after, count⟩, passes⟩ := goes
            obtain ⟨rfl, acts⟩ := @action_passes _ _ _ _ _ config _ _ _ passes found unread read
            rw [acts] at texts
            have acted : action behind arg ⟨fp, stateOf inside, config, count⟩ =
                (.acts none ⟨fresh, stateOf after, config, count⟩,
                  (action behind arg ⟨fp, stateOf inside, config, count⟩).2) := by
              rw [← texts_acts texts]
            rw [acted]
            exact .passes short passes later terminated
          · have refused := not_exists.mp goes
            rw [action_refused refused unread read config none] at texts
            refine .stops (texts_final texts rfl) ?_ terminated
            intro other others shape _
            cases shape
            exact refused
      · rw [action_long unread full] at texts
        refine .stops (texts_final texts rfl) ?_ (boundary_strings ?_)
        · intro other others shape short
          cases shape
          omega
        · intro _ line next again
          rw [full] at again
          contradiction

def ReachesParameter (behind : Behind) (file : Bytes) : Prop :=
  ∃ before segment after params, segments file = before ++ segment :: after ∧
    (∀ other ∈ before, other.length < lineLimit) ∧ segment.length < lineLimit ∧
    Comes behind (false, 0) before (true, params) ∧ IsParameter (lineOf segment)

theorem parameter_passes {state : Bool × Nat} (shape : IsParameter line) (inside : state.1 = true) :
    (∃ next, Passes behind line state next) ∧ ∀ after, ¬Passes behind line state (after, state.2) := by
  obtain ⟨key, value, parameter⟩ := shape
  obtain ⟨_, params⟩ := state
  subst inside
  constructor
  · by_cases taken : TakenForEnd behind params key
    · exact ⟨_, .endKey parameter taken⟩
    · exact ⟨_, .parameter parameter taken⟩
  · intro after passes
    cases passes with
    | skip empty => exact parameter.ne.1 empty
    | closing closes => exact parameter.ne.2 closes

theorem acts_step {line : Option Str} {parser : Parser} {acted : Acted}
    (same : action behind line parser = acted) (strings : List Str) :
    Acts behind (.acts line parser, strings) (acted.1, strings ++ acted.2) := by
  rw [← same]
  exact .acts line parser strings

theorem made_here {line : Option Str} {parser : Parser} {acted : Acted}
    (same : action behind line parser = acted) (strings : List Str) (made : ∃ str ∈ acted.2, ¬str.Terminated) :
    ∃ call all, Relation.ReflTransGen (Acts behind) (.acts line parser, strings) (call, all) ∧
      ∃ str ∈ all, ¬str.Terminated := by
  obtain ⟨str, member, open_end⟩ := made
  exact ⟨_, _, .single (acts_step same strings), str, List.mem_append_right _ member, open_end⟩

/-- On the way to a parameter, or at one before, a key is made that does not end in its block. -/
theorem comes_unterminated {before after : List Bytes} {segment : Bytes} {state last : Bool × Nat}
    (comes : Comes behind state before last) (delivers : Delivers fp (before ++ segment :: after))
    (shorts : ∀ other ∈ before, other.length < lineLimit) (short : segment.length < lineLimit)
    (inSection : last.1 = true) (shape : IsParameter (lineOf segment))
    (arg : Option Str) (strings : List Str) : ∃ call all,
      Relation.ReflTransGen (Acts behind)
        (.acts arg ⟨fp, stateOf state.1, config, state.2⟩, strings) (call, all) ∧
      ∃ str ∈ all, ¬str.Terminated := by
  induction comes generalizing fp arg strings with
  | done state =>
      have acted := @atLine behind fp state.1 state.2 config arg _ delivers
      generalize same : action behind arg ⟨fp, stateOf state.1, config, state.2⟩ = next at acted
      obtain ⟨goes, apart⟩ := @parameter_passes behind _ _ shape inSection
      cases acted with
      | parameter _ _ _ made => exact made_here same strings made
      | passes _ passes _ _ => exact absurd passes (apart _)
      | stops _ stuck _ =>
          obtain ⟨next, passes⟩ := goes
          exact absurd passes (stuck _ _ rfl short next)
  | @line state middle last other rest passes comes ih =>
      obtain ⟨first, others⟩ := List.forall_mem_cons.mp shorts
      have acted := @atLine behind fp state.1 state.2 config arg _ delivers
      generalize same : action behind arg ⟨fp, stateOf state.1, config, state.2⟩ = next at acted
      cases acted with
      | parameter _ _ _ made => exact made_here same strings made
      | @passes _ _ _ _ made _ passed later _ =>
          cases passed.unique passes
          obtain ⟨call, all, run, outcome⟩ := ih later others inSection none (strings ++ made)
          exact ⟨call, all, run.head (acts_step same strings), outcome⟩
      | stops _ stuck _ => exact absurd passes (stuck _ _ rfl first _)

/-- Between two lines, or at the end, with nothing but strings that end in their blocks. -/
inductive Unharmed (behind : Behind) (file : Bytes) : Acted → Prop
  | between {fp : Stream} {state : Bool × Nat} {config : Config} {before rest : List Bytes}
      {strings : List Str} (delivers : Delivers fp rest) (shape : segments file = before ++ rest)
      (shorts : ∀ other ∈ before, other.length < lineLimit) (comes : Comes behind (false, 0) before state)
      (terminated : ∀ str ∈ strings, str.Terminated) :
      Unharmed behind file (.acts none ⟨fp, stateOf state.1, config, state.2⟩, strings)
  | final {call : Call} {strings : List Str} (final : ∀ line parser, call ≠ .acts line parser)
      (terminated : ∀ str ∈ strings, str.Terminated) : Unharmed behind file (call, strings)

theorem Unharmed.terminated {file : Bytes} {call : Call} {strings : List Str}
    (unharmed : Unharmed behind file (call, strings)) : ∀ str ∈ strings, str.Terminated := by
  cases unharmed with
  | between _ _ _ _ terminated => exact terminated
  | final _ terminated => exact terminated

theorem Unharmed.next {file : Bytes} {acted after : Acted} (unharmed : Unharmed behind file acted)
    (free : ¬ReachesParameter behind file) (step : Acts behind acted after) : Unharmed behind file after := by
  have both : ∀ {first second : List Str}, (∀ str ∈ first, str.Terminated) →
      (∀ str ∈ second, str.Terminated) → ∀ str ∈ first ++ second, str.Terminated := by
    intro first second left right str member
    exact (List.mem_append.mp member).elim (left str) (right str)
  cases step with
  | acts line parser strings =>
      cases unharmed with
      | final final _ => exact absurd rfl (final line parser)
      | @between fp state config before rest _ delivers shape shorts comes terminated =>
          have acted := @atLine behind fp state.1 state.2 config none _ delivers
          generalize action behind none ⟨fp, stateOf state.1, config, state.2⟩ = next at acted
          cases acted with
          | @parameter segment more _ short inSection parameter _ =>
              obtain ⟨_, params⟩ := state
              subst inSection
              exact absurd ⟨before, segment, more, params, shape, shorts, short, comes, parameter⟩ free
          | @passes segment more fresh next _ short passes later made =>
              refine @Unharmed.between behind file fresh (next, state.2) config (before ++ [segment]) more _
                later ?_ ?_ (comes.concat passes) (both terminated made)
              · rw [shape, List.append_assoc, List.singleton_append]
              · intro other member
                rcases List.mem_append.mp member with old | new
                · exact shorts other old
                · rw [List.mem_singleton.mp new]
                  exact short
          | stops final _ made => exact .final final (both terminated made)

/-- Every string ends in its block just where the parser never comes to a parameter. -/
theorem allTerminated_iff (behind : Behind) (file : Bytes) (initial : Config) :
    AllTerminated behind file initial ↔ ¬ReachesParameter behind file := by
  have start : Delivers { rest := file, eof := false } (segments file) := delivers_start file
  constructor
  · rintro terminated ⟨before, segment, after, params, shape, shorts, short, comes, parameter⟩
    rw [shape] at start
    obtain ⟨call, strings, run, str, member, open_end⟩ :=
      @comes_unterminated behind _ initial before after segment _ _ comes start shorts short rfl parameter none []
    exact open_end (terminated call strings run str member)
  · intro free call strings run
    have unharmed : Unharmed behind file (call, strings) := by
      generalize (call, strings) = last at run
      induction run with
      | refl =>
          exact @Unharmed.between behind file _ (false, 0) initial [] _ [] start rfl
            (fun _ member => absurd member List.not_mem_nil) (.done _)
            (fun _ member => absurd member List.not_mem_nil)
      | tail _ step ih => exact ih.next free step
    exact unharmed.terminated

end

/-- The block of the key `server` has six bytes, and none of them is NUL. -/
theorem server_unterminated :
    ¬∀ behind initial, AllTerminated behind (ascii "[addresses]\nserver=/tmp/iac\nend\n") initial := by
  intro terminated
  let blank : Config := ⟨.leftover 0, .leftover 0, .leftover 0, .leftover 0⟩
  let behind : Behind := fun _ _ _ => 0
  have pieces : segments (ascii "[addresses]\nserver=/tmp/iac\nend\n") =
      [openTag] ++ ascii "server=/tmp/iac" :: [endTag, []] := by decide
  have start := delivers_start (ascii "[addresses]\nserver=/tmp/iac\nend\n")
  rw [pieces] at start
  have comes : Comes behind (false, 0) [openTag] (true, 0) := .line (.opening (by decide)) (.done _)
  have parameter : IsParameter (lineOf (ascii "server=/tmp/iac")) :=
    ⟨ascii "server", ascii "/tmp/iac", by decide, ⟨115, ascii "erver", by decide⟩, by decide, by decide⟩
  obtain ⟨call, strings, run, str, member, open_end⟩ :=
    @comes_unterminated behind _ blank _ _ _ _ _ comes start (by decide) (by decide) rfl parameter none []
  exact open_end (terminated behind blank call strings run str member)

end Iac.Blockwise
