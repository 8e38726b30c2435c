import Mathlib.Data.List.Find
import Iac.Config
import Iac.Library.Blocks

/-! The language of configuration files, and the files for which the parser follows it. -/

namespace Iac

open CText Ere RegularExpression Blocks

/-! The grammar. -/

/-- `key=value`, as the expression for parameters describes it. -/
structure Parameter (key value line : Bytes) : Prop where
  shape : line = key ++ equalsSign :: value
  letter : ∃ first rest, key = first :: rest ∧ isAlpha first = true
  keyBytes : ∀ byte ∈ key, isKeyByte byte = true
  valueBytes : ∀ byte ∈ value, isValueByte byte = true

def IsParameter (line : Bytes) : Prop := ∃ key value, Parameter key value line

def openTag : Bytes := ascii "[addresses]"

def endTag : Bytes := ascii "end"

theorem isKeyByte_ne {byte : UInt8} (isOne : isKeyByte byte = true) : byte ≠ equalsSign ∧ byte ≠ 0 := by
  constructor
  · rintro rfl
    exact absurd isOne (by decide)
  · rintro rfl
    exact absurd isOne (by decide)

theorem Parameter.equals {key value line : Bytes} (parameter : Parameter key value line) :
    equalsSign ∈ line := by
  rw [parameter.shape]
  simp

theorem Parameter.getParam {key value line : Bytes} (parameter : Parameter key value line) :
    getParam line = key := by
  have clean : ∀ byte ∈ key, decide (byte ≠ equalsSign) = true := fun byte member =>
    decide_eq_true (isKeyByte_ne (parameter.keyBytes byte member)).1
  rw [parameter.shape, Iac.getParam, List.takeWhile_append_of_pos clean]
  simp

theorem Parameter.getValue {key value line : Bytes} (parameter : Parameter key value line) :
    getValue line = value := by
  have found := parameter.getParam
  rw [Iac.getValue, found, parameter.shape, List.drop_append]
  simp

theorem isParam_iff (line : Bytes) : isParam line = true ↔ IsParameter line := by
  have mark : ascii "=" = [equalsSign] := by decide
  rw [isParam, regexec_iff, paramExpr, matches'_mul, matches'_mul, matches'_mul]
  simp only [Language.mem_mul, mem_anyOf, mem_star_anyOf, mem_text, mark]
  constructor
  · rintro ⟨_, ⟨_, ⟨_, ⟨first, letter, rfl⟩, rest, keyBytes, rfl⟩, _, rfl, rfl⟩, value, valueBytes, rfl⟩
    refine ⟨first :: rest, value, by simp, ⟨first, rest, rfl, letter⟩, ?_, valueBytes⟩
    intro byte member
    rcases List.mem_cons.mp member with rfl | later
    · simp [isKeyByte, letter]
    · exact keyBytes byte later
  · rintro ⟨_, value, rfl, ⟨first, rest, rfl, letter⟩, keyBytes, valueBytes⟩
    have others := fun byte member => keyBytes byte (List.mem_cons_of_mem first member)
    exact ⟨_, ⟨_, ⟨[first], ⟨first, letter, rfl⟩, rest, others, rfl⟩, _, rfl, rfl⟩, value,
      valueBytes, by simp⟩

theorem isParam_parameter {line : Bytes} (found : isParam line = true) :
    Parameter (getParam line) (getValue line) line := by
  obtain ⟨key, value, parameter⟩ := (isParam_iff line).mp found
  rw [parameter.getParam, parameter.getValue]
  exact parameter

/-- Blank lines and sections, each from `[addresses]` to `end` with blank lines and
parameters in between. -/
def fileShape : Shape Bytes where
  skips line := line = []
  opens line := line = openTag
  holds line := line = [] ∨ IsParameter line
  closes line := line = endTag
  outside := by
    rintro _ rfl
    decide
  inside := by
    rintro _ rfl (empty | ⟨key, value, parameter⟩)
    · exact absurd empty (by decide)
    · exact absurd parameter.equals (by decide)

/-- The same, except that a parameter with the key `end` closes a section as well. -/
def parserShape : Shape Bytes where
  skips line := line = []
  opens line := line = openTag
  holds line := line = [] ∨ ∃ key value, Parameter key value line ∧ key ≠ endTag
  closes line := line = endTag ∨ ∃ value, Parameter endTag value line
  outside := by
    rintro _ rfl
    decide
  inside := by
    rintro line (rfl | ⟨value, closing⟩) (empty | ⟨key, other, parameter, different⟩)
    · exact absurd empty (by decide)
    · exact absurd parameter.equals (by decide)
    · rw [empty] at closing
      exact absurd closing.equals List.not_mem_nil
    · rw [← parameter.getParam, closing.getParam] at different
      exact different rfl

/-! Lines, segments and streams. -/

/-- What `readLine` gives for each piece of the file. -/
def segments (file : Bytes) : List Bytes := file.splitOnP endsLine

def lineOf (segment : Bytes) : Bytes := leadingTrim (cstring segment)

def Delivers (fp : Stream) (rest : List Bytes) : Prop :=
  (fp.eof = true ∧ rest = []) ∨ (fp.eof = false ∧ rest = segments fp.rest)

theorem segments_eq (file : Bytes) : segments file = file.takeWhile (!endsLine ·) ::
    match file.drop (file.takeWhile (!endsLine ·)).length with
    | [] => []
    | _ :: rest => segments rest := by
  induction file with
  | nil => rfl
  | cons byte rest ih =>
      unfold segments at ih ⊢
      rw [List.splitOnP_cons_eq_if_modifyHead]
      by_cases isEnd : endsLine byte = true
      · rw [if_pos isEnd, List.takeWhile_cons_of_neg (by simp [isEnd])]
        rfl
      · rw [if_neg isEnd, ih, List.modifyHead_cons, List.takeWhile_cons_of_pos (by simp [isEnd])]
        rfl

theorem delivers_readLine {fp : Stream} {segment : Bytes} {more : List Bytes}
    (delivers : Delivers fp (segment :: more)) :
    fp.eof = false ∧ ((segment.length < lineLimit ∧
        ∃ next, readLine fp = some (lineOf segment, next) ∧ Delivers next more) ∨
      (lineLimit ≤ segment.length ∧ readLine fp = none)) := by
  rcases delivers with ⟨_, nothing⟩ | ⟨unread, shape⟩
  · contradiction
  · refine ⟨unread, ?_⟩
    rw [segments_eq, List.cons.injEq] at shape
    obtain ⟨rfl, tail⟩ := shape
    unfold readLine
    by_cases short : (fp.rest.takeWhile (!endsLine ·)).length < lineLimit
    · refine .inl ⟨short, ?_⟩
      rw [if_pos short]
      dsimp only
      split
      · rename_i final
        rw [final] at tail
        exact ⟨_, rfl, .inl ⟨rfl, tail⟩⟩
      · rename_i rest behind
        rw [behind] at tail
        exact ⟨_, rfl, .inr ⟨unread, tail⟩⟩
    · exact .inr ⟨Nat.le_of_not_lt short, if_neg short⟩

/-! Comparing a key with the tags. -/

/-- Blocks of fewer than 24 bytes have a byte to spare, which is zero. -/
def Cleared (behind : Behind) : Prop := ∀ call size, size < 24 → behind call size 0 = 0

theorem strcmpEqual_iff {behind : Behind} (cleared : Cleared behind) {param tag : Bytes}
    (cleanParam : (0 : UInt8) ∉ param) (cleanTag : (0 : UInt8) ∉ tag) (short : tag.length < 24)
    (call : Nat) : strcmpEqual param (behind call param.length) tag = true ↔ param = tag := by
  rw [strcmpEqual, decide_eq_true_eq, List.range_succ_eq_map, List.map_cons]
  by_cases longer : tag.length + 1 ≤ param.length
  · rw [List.take_append_of_le_length longer]
    constructor
    · intro same
      have member : (0 : UInt8) ∈ param.take (tag.length + 1) := by
        rw [same]
        simp
      exact absurd (List.mem_of_mem_take member) cleanParam
    · rintro rfl
      omega
  · have zero : behind call param.length 0 = 0 := cleared call param.length (by omega)
    obtain ⟨gap, positive⟩ : ∃ gap, tag.length + 1 - param.length = gap + 1 :=
      ⟨tag.length - param.length, by omega⟩
    rw [zero, List.take_append, List.take_of_length_le (by omega), positive, List.take_succ_cons]
    constructor
    · intro same
      have texts := congrArg cstring same
      rw [cstring_append_nul cleanParam, cstring_append_nul cleanTag] at texts
      exact texts
    · rintro rfl
      have none_left : gap = 0 := by omega
      rw [none_left, List.take_zero]

/-- The field that a key stands for, and the value stored in it. -/
def assign (config : Config) (key value : Bytes) : Config :=
  let slot := Slot.string (leadingTrim value)
  if key = ascii "server" then { config with server := slot }
  else if key = ascii "listening port" then { config with listeningPort := slot }
  else if key = ascii "database" then { config with database := slot }
  else if key = ascii "logging" then { config with logging := slot }
  else config

def settle (config : Config) (line : Bytes) : Config :=
  if isParam line then assign config (getParam line) (getValue line) else config

theorem find_arc {behind : Behind} (cleared : Cleared behind) {param : Bytes}
    (clean : (0 : UInt8) ∉ param) (call : Nat) :
    ((arcs .q1).find? fun arc => strcmpEqual param (behind call param.length) arc.tag) =
      (arcs .q1).find? fun arc => param = arc.tag := by
  have tags : ∀ arc ∈ arcs .q1, (0 : UInt8) ∉ arc.tag ∧ arc.tag.length < 24 := by decide
  apply List.find?_congr
  intro arc member
  obtain ⟨cleanTag, short⟩ := tags arc member
  rw [Bool.eq_iff_iff, decide_eq_true_eq]
  exact strcmpEqual_iff cleared clean cleanTag short call

/-! Runs of the automaton. -/

def Leads (behind : Behind) (call last : Call) : Prop :=
  ∃ fuel, runActions behind fuel call = last

section

variable {behind : Behind}

theorem runActions_add (first second : Nat) (call : Call) :
    runActions behind (first + second) call =
      runActions behind second (runActions behind first call) := by
  induction first generalizing call with
  | zero =>
      rw [Nat.zero_add]
      rfl
  | succ first ih =>
      rw [Nat.add_right_comm]
      cases call with
      | acts line parser => exact ih _
      | returns result config =>
          cases second <;> rfl
      | undefined =>
          cases second <;> rfl

theorem Leads.trans {call middle last : Call} (first : Leads behind call middle)
    (second : Leads behind middle last) : Leads behind call last := by
  obtain ⟨before, rfl⟩ := first
  obtain ⟨after, rfl⟩ := second
  exact ⟨before + after, runActions_add before after call⟩

theorem leads_action (line : Option Bytes) (parser : Parser) :
    Leads behind (.acts line parser) (action behind line parser) := ⟨1, rfl⟩

def Call.isFinal : Call → Bool
  | .acts _ _ => false
  | _ => true

theorem runActions_final {call : Call} (final : call.isFinal = true) (fuel : Nat) :
    runActions behind fuel call = call := by
  cases call with
  | acts line parser => contradiction
  | returns result config => cases fuel <;> rfl
  | undefined => cases fuel <;> rfl

theorem Leads.unique {call one other : Call} (first : Leads behind call one)
    (second : Leads behind call other) (oneFinal : one.isFinal = true)
    (otherFinal : other.isFinal = true) : one = other := by
  obtain ⟨before, rfl⟩ := first
  obtain ⟨after, rfl⟩ := second
  rw [← runActions_final oneFinal after, ← runActions_add, Nat.add_comm, runActions_add,
    runActions_final otherFinal before]

/-! One line. -/

theorem openTag_section : isSectionTag openTag = true := by decide

section

variable {fp next : Stream} {line : Bytes} {config : Config} {params : Nat}

theorem q0_opens (unread : fp.eof = false) (read : readLine fp = some (openTag, next)) :
    q0Action ⟨fp, .q0, config, params⟩ = .acts none ⟨next, .q1, config, params⟩ := by
  unfold q0Action
  rw [if_neg (by simp [unread]), read]
  dsimp only
  rw [if_pos openTag_section]
  rfl

theorem q0_skips (unread : fp.eof = false) (read : readLine fp = some ([], next)) :
    q0Action ⟨fp, .q0, config, params⟩ = .acts none ⟨next, .q0, config, params⟩ := by
  have plain : isSectionTag [] = false := by decide
  unfold q0Action
  rw [if_neg (by simp [unread]), read]
  dsimp only
  rw [plain]
  rfl

theorem q0_refuses (unread : fp.eof = false) (read : readLine fp = some (line, next))
    (noTag : line ≠ openTag) (some_text : line ≠ []) :
    q0Action ⟨fp, .q0, config, params⟩ = .returns (-1) config := by
  have noArc : ((arcs .q0).find? fun arc => line = arc.tag) = none := by
    apply List.find?_eq_none.mpr
    intro arc member
    rw [List.mem_singleton.mp member, decide_eq_true_eq]
    exact noTag
  unfold q0Action
  rw [if_neg (by simp [unread]), read]
  dsimp only
  rw [noArc, if_neg some_text]
  split <;> rfl

theorem q1_closes (unread : fp.eof = false) (read : readLine fp = some (endTag, next)) :
    q1Action behind ⟨fp, .q1, config, params⟩ = .acts none ⟨next, .q0, config, params⟩ := by
  unfold q1Action
  rw [if_neg (by simp [unread]), read]
  dsimp only
  rw [if_pos (show endTag = ascii "end" from rfl)]
  rfl

theorem q1_skips (unread : fp.eof = false) (read : readLine fp = some ([], next)) :
    q1Action behind ⟨fp, .q1, config, params⟩ = .acts none ⟨next, .q1, config, params⟩ := by
  have plain : isParam [] = false := by decide
  unfold q1Action
  rw [if_neg (by simp [unread]), read]
  dsimp only
  rw [if_neg (by decide), plain]
  rfl

theorem q1_refuses (unread : fp.eof = false) (read : readLine fp = some (line, next))
    (noEnd : line ≠ endTag) (noParam : isParam line = false) (some_text : line ≠ []) :
    q1Action behind ⟨fp, .q1, config, params⟩ = .returns (-1) config := by
  unfold q1Action
  rw [if_neg (by simp [unread]), read]
  dsimp only
  rw [if_neg (show line ≠ ascii "end" from noEnd), noParam, if_neg some_text]
  rfl

/-- Whatever is behind the block of the key. -/
theorem q1_key {key value : Bytes} (parameter : Parameter key value line) (unread : fp.eof = false)
    (read : readLine fp = some (line, next)) :
    q1Action behind ⟨fp, .q1, config, params⟩ =
      ((arcs .q1).find? fun arc => strcmpEqual key (behind params key.length) arc.tag).elim
        (.acts none ⟨next, .q1, config, params + 1⟩)
        fun arc => Parser.moveTo ⟨next, .q1, config, params + 1⟩ arc.next (some value) := by
  have noEnd : line ≠ ascii "end" := by
    rintro rfl
    exact absurd parameter.equals (by decide)
  have isOne : isParam line = true := (isParam_iff line).mpr ⟨key, value, parameter⟩
  unfold q1Action
  rw [if_neg (by simp [unread]), read]
  simp only [if_neg noEnd, if_pos isOne, parameter.getParam, parameter.getValue]
  cases (arcs .q1).find? fun arc => strcmpEqual key (behind params key.length) arc.tag with
  | none => rfl
  | some arc => rfl

theorem q1_parameter (cleared : Cleared behind) {key value : Bytes}
    (parameter : Parameter key value line) (unread : fp.eof = false)
    (read : readLine fp = some (line, next)) :
    q1Action behind ⟨fp, .q1, config, params⟩ =
      match (arcs .q1).find? fun arc => key = arc.tag with
      | some arc => Parser.moveTo ⟨next, .q1, config, params + 1⟩ arc.next (some value)
      | none => .acts none ⟨next, .q1, config, params + 1⟩ := by
  have clean : (0 : UInt8) ∉ key := fun member =>
    (isKeyByte_ne (parameter.keyBytes 0 member)).2 rfl
  rw [q1_key parameter unread read, find_arc cleared clean params]
  cases (arcs .q1).find? fun arc => key = arc.tag with
  | none => rfl
  | some arc => rfl

end

theorem leads_parameter (cleared : Cleared behind) {fp next : Stream} {key value line : Bytes}
    (parameter : Parameter key value line) (different : key ≠ endTag) (unread : fp.eof = false)
    (read : readLine fp = some (line, next)) (config : Config) (params : Nat)
    (arg : Option Bytes) : ∃ count, Leads behind (.acts arg ⟨fp, .q1, config, params⟩)
      (.acts none ⟨next, .q1, settle config line, count⟩) := by
  have isOne : isParam line = true := (isParam_iff line).mpr ⟨key, value, parameter⟩
  have first : Leads behind (.acts arg ⟨fp, .q1, config, params⟩)
    (q1Action behind ⟨fp, .q1, config, params⟩) := leads_action arg _
  rw [q1_parameter cleared parameter unread read] at first
  refine ⟨params + 1, first.trans ?_⟩
  rw [settle, if_pos isOne, parameter.getParam, parameter.getValue, assign]
  by_cases server : key = ascii "server"
  · subst key
    have found : ((arcs .q1).find? fun arc => ascii "server" = arc.tag) =
      some ⟨ascii "server", .q2⟩ := by decide
    rw [found, if_pos rfl]
    exact leads_action (some value) _
  · rw [if_neg server]
    by_cases listeningPort : key = ascii "listening port"
    · subst key
      have found : ((arcs .q1).find? fun arc => ascii "listening port" = arc.tag) =
        some ⟨ascii "listening port", .q3⟩ := by decide
      rw [found, if_pos rfl]
      exact leads_action (some value) _
    · rw [if_neg listeningPort]
      by_cases database : key = ascii "database"
      · subst key
        have found : ((arcs .q1).find? fun arc => ascii "database" = arc.tag) =
          some ⟨ascii "database", .q4⟩ := by decide
        rw [found, if_pos rfl]
        exact leads_action (some value) _
      · rw [if_neg database]
        by_cases logging : key = ascii "logging"
        · subst key
          have found : ((arcs .q1).find? fun arc => ascii "logging" = arc.tag) =
            some ⟨ascii "logging", .q5⟩ := by decide
          rw [found, if_pos rfl]
          exact leads_action (some value) _
        · have missing : ((arcs .q1).find? fun arc => key = arc.tag) = none := by
            apply List.find?_eq_none.mpr
            intro arc member
            rw [decide_eq_true_eq]
            rintro rfl
            simp only [arcs, List.mem_cons, List.not_mem_nil, or_false] at member
            rcases member with rfl | rfl | rfl | rfl | rfl <;> contradiction
          rw [missing, if_neg logging]
          exact ⟨0, rfl⟩

/-- A parameter with the key `end` closes the section. -/
theorem leads_endKey (cleared : Cleared behind) {fp next : Stream} {value line : Bytes}
    (parameter : Parameter endTag value line) (unread : fp.eof = false)
    (read : readLine fp = some (line, next)) (config : Config) (params : Nat)
    (arg : Option Bytes) : ∃ count, Leads behind (.acts arg ⟨fp, .q1, config, params⟩)
      (.acts (some value) ⟨next, .q0, settle config line, count⟩) := by
  have isOne : isParam line = true := (isParam_iff line).mpr ⟨endTag, value, parameter⟩
  have found : ((arcs .q1).find? fun arc => endTag = arc.tag) = some ⟨endTag, .q0⟩ := by decide
  have untouched : settle config line = config := by
    rw [settle, if_pos isOne, parameter.getParam, assign]
    rfl
  have first : Leads behind (.acts arg ⟨fp, .q1, config, params⟩)
    (q1Action behind ⟨fp, .q1, config, params⟩) := leads_action arg _
  rw [q1_parameter cleared parameter unread read, found] at first
  rw [untouched]
  exact ⟨params + 1, first⟩

/-! Whole files. -/

def stateOf : Bool → StateName
  | false => .q0
  | true => .q1

/-- Each line that the parser comes to is short enough for its buffer. -/
def ReadableFrom (inside : Bool) (rest : List Bytes) : Prop :=
  ∀ before segment after, rest = before ++ segment :: after →
    (∃ state, parserShape.Follows inside (before.map lineOf) state) → segment.length < lineLimit

theorem ReadableFrom.head {inside : Bool} {segment : Bytes} {more : List Bytes}
    (readable : ReadableFrom inside (segment :: more)) : segment.length < lineLimit :=
  readable [] segment more rfl ⟨inside, .done inside⟩

theorem ReadableFrom.tail {inside next : Bool} {segment : Bytes} {more : List Bytes}
    (readable : ReadableFrom inside (segment :: more))
    (step : ∀ {rest : List Bytes} {last : Bool}, parserShape.Follows next rest last →
      parserShape.Follows inside (lineOf segment :: rest) last) : ReadableFrom next more := by
  rintro before other after rfl ⟨state, follows⟩
  exact readable (segment :: before) other after rfl ⟨state, step follows⟩

theorem settle_plain {line : Bytes} (noParam : isParam line = false) (config : Config) :
    settle config line = config := by
  rw [settle, noParam]
  rfl

/-- How the parser ends: with 0 and all parameters stored, or with -1. -/
def Judged (follows : Prop) (result : Int32) (final stored : Config) : Prop :=
  (follows → result = 0 ∧ final = stored) ∧ (¬follows → result = -1)

theorem leads_line (cleared : Cleared behind) {fp next : Stream} {line : Bytes}
    {inside after : Bool} (step : parserShape.Step line inside after) (unread : fp.eof = false)
    (read : readLine fp = some (line, next)) (config : Config) (params : Nat)
    (arg : Option Bytes) : ∃ count passed, Leads behind
      (.acts arg ⟨fp, stateOf inside, config, params⟩)
      (.acts passed ⟨next, stateOf after, settle config line, count⟩) := by
  cases step with
  | skip empty =>
      subst line
      rw [settle_plain (by decide)]
      exact ⟨params, none, ⟨1, q0_skips unread read⟩⟩
  | opening opens =>
      subst line
      rw [settle_plain (by decide)]
      exact ⟨params, none, ⟨1, q0_opens unread read⟩⟩
  | hold holds =>
      rcases holds with empty | ⟨key, value, parameter, different⟩
      · subst line
        rw [settle_plain (by decide)]
        exact ⟨params, none, ⟨1, q1_skips unread read⟩⟩
      · obtain ⟨count, leads⟩ := leads_parameter cleared parameter different unread read config params arg
        exact ⟨count, none, leads⟩
  | closing closes =>
      rcases closes with same | ⟨value, parameter⟩
      · subst line
        rw [settle_plain (by decide)]
        exact ⟨params, none, ⟨1, q1_closes unread read⟩⟩
      · obtain ⟨count, leads⟩ := leads_endKey cleared parameter unread read config params arg
        exact ⟨count, some value, leads⟩

theorem leads_error {fp next : Stream} {line : Bytes} {inside : Bool}
    (noStep : ∀ after, ¬parserShape.Step line inside after) (unread : fp.eof = false)
    (read : readLine fp = some (line, next)) (config : Config) (params : Nat)
    (arg : Option Bytes) : Leads behind (.acts arg ⟨fp, stateOf inside, config, params⟩)
      (.returns (-1) config) := by
  cases inside with
  | false =>
      exact ⟨1, q0_refuses unread read (fun same => noStep true (.opening same))
        fun empty => noStep false (.skip empty)⟩
  | true =>
      have noParam : isParam line = false := by
        rw [Bool.eq_false_iff]
        intro found
        have parameter := isParam_parameter found
        by_cases closing : getParam line = endTag
        · rw [closing] at parameter
          exact noStep false (.closing (.inr ⟨_, parameter⟩))
        · exact noStep true (.hold (.inr ⟨_, _, parameter, closing⟩))
      exact ⟨1, q1_refuses unread read (fun same => noStep false (.closing (.inl same))) noParam
        fun empty => noStep true (.hold (.inl empty))⟩

theorem leads_end {fp : Stream} (atEnd : fp.eof = true) (inside : Bool) (config : Config)
    (params : Nat) (arg : Option Bytes) :
    Leads behind (.acts arg ⟨fp, stateOf inside, config, params⟩)
      (.returns (if inside then -1 else 0) config) := by
  cases inside with
  | false =>
      refine ⟨1, ?_⟩
      change q0Action _ = _
      unfold q0Action
      rw [if_pos atEnd]
      rfl
  | true =>
      refine ⟨1, ?_⟩
      change q1Action behind _ = _
      unfold q1Action
      rw [if_pos atEnd]
      rfl

theorem leads_segments (cleared : Cleared behind) {rest : List Bytes} {inside : Bool} {fp : Stream}
    (delivers : Delivers fp rest) (readable : ReadableFrom inside rest) (config : Config)
    (params : Nat) (arg : Option Bytes) :
    ∃ result final, Leads behind (.acts arg ⟨fp, stateOf inside, config, params⟩)
        (.returns result final) ∧
      Judged (parserShape.Follows inside (rest.map lineOf) false) result final
        ((rest.map lineOf).foldl settle config) := by
  induction rest generalizing inside fp config params arg with
  | nil =>
      have atEnd : fp.eof = true := by
        rcases delivers with ⟨atEnd, _⟩ | ⟨_, shape⟩
        · exact atEnd
        · rw [segments_eq] at shape
          contradiction
      refine ⟨_, _, leads_end atEnd inside config params arg, ?_⟩
      cases inside with
      | false => exact ⟨fun _ => ⟨rfl, rfl⟩, fun refused => absurd (.done false) refused⟩
      | true =>
          refine ⟨fun follows => ?_, fun _ => rfl⟩
          cases follows
  | cons segment more ih =>
      obtain ⟨unread, ⟨_, next, read, later⟩ | ⟨long, _⟩⟩ := delivers_readLine delivers
      · by_cases goes : ∃ after, parserShape.Step (lineOf segment) inside after
        · obtain ⟨after, step⟩ := goes
          obtain ⟨count, passed, leads⟩ := leads_line cleared step unread read config params arg
          obtain ⟨result, final, runs, judged⟩ := ih later (readable.tail step.follows)
            (settle config (lineOf segment)) count passed
          rw [List.map_cons, List.foldl_cons, step.follows_iff]
          exact ⟨result, final, leads.trans runs, judged⟩
        · have noStep : ∀ after, ¬parserShape.Step (lineOf segment) inside after :=
            fun after step => goes ⟨after, step⟩
          refine ⟨-1, config, leads_error noStep unread read config params arg, ?_, fun _ => rfl⟩
          intro follows
          obtain ⟨after, step, _⟩ := follows.first
          exact absurd step (noStep after)
      · exact absurd readable.head (Nat.not_lt.mpr long)

end

end Iac
