import Iac.ConfigGrammar

/-! Which configuration files `parse` accepts, and what an accepted file leaves in the
configuration. -/

namespace Iac

open CText Blocks

variable {behind : Behind}

/-! The two ends of `parse`. -/

theorem ReadableFrom.cons {inside : Bool} {segment : Bytes} {more : List Bytes}
    (short : segment.length < lineLimit)
    (later : ∀ next, parserShape.Step (lineOf segment) inside next → ReadableFrom next more) :
    ReadableFrom inside (segment :: more) := by
  rintro before other after shape ⟨state, follows⟩
  cases before with
  | nil =>
      obtain ⟨rfl, rfl⟩ := List.cons.inj shape
      exact short
  | cons first before =>
      obtain ⟨rfl, rfl⟩ := List.cons.inj shape
      obtain ⟨next, step, rest⟩ := follows.first
      exact later next step before other after rfl ⟨state, rest⟩

theorem overflows {fp : Stream} (unread : fp.eof = false) (full : readLine fp = none)
    (inside : Bool) (config : Config) (params : Nat) (arg : Option Bytes) :
    Leads behind (.acts arg ⟨fp, stateOf inside, config, params⟩) .undefined := by
  refine ⟨1, ?_⟩
  cases inside with
  | false =>
      change q0Action _ = _
      unfold q0Action
      rw [if_neg (by simp [unread]), full]
  | true =>
      change q1Action behind _ = _
      unfold q1Action
      rw [if_neg (by simp [unread]), full]

theorem leads_unreadable (cleared : Cleared behind) {rest : List Bytes} {inside : Bool}
    {fp : Stream} (delivers : Delivers fp rest) (unreadable : ¬ReadableFrom inside rest)
    (config : Config) (params : Nat) (arg : Option Bytes) :
    Leads behind (.acts arg ⟨fp, stateOf inside, config, params⟩) .undefined := by
  induction rest generalizing inside fp config params arg with
  | nil =>
      refine absurd ?_ unreadable
      intro before segment after shape
      simp at shape
  | cons segment more ih =>
      obtain ⟨unread, ⟨short, next, read, later⟩ | ⟨_, full⟩⟩ := delivers_readLine delivers
      · by_cases goes : ∃ after, parserShape.Step (lineOf segment) inside after ∧
          ¬ReadableFrom after more
        · obtain ⟨after, step, long⟩ := goes
          obtain ⟨count, passed, leads⟩ := leads_line cleared step unread read config params arg
          exact leads.trans (ih later long _ count passed)
        · refine absurd (ReadableFrom.cons short ?_) unreadable
          intro after step
          by_contra long
          exact goes ⟨after, step, long⟩
      · exact overflows unread full inside config params arg

/-- The lines of a file as the parser reads them. -/
def readLines (file : Bytes) : List Bytes := (segments file).map lineOf

def Readable (file : Bytes) : Prop := ReadableFrom false (segments file)

theorem Parses.unique {file : Bytes} {initial one other : Config} {first second : Int32}
    (left : Parses behind file initial first one)
    (right : Parses behind file initial second other) : first = second ∧ one = other := by
  have same := Leads.unique left right rfl rfl
  injection same with results configs
  exact ⟨results, configs⟩

theorem delivers_start (file : Bytes) :
    Delivers { rest := file, eof := false } (segments file) := .inr ⟨rfl, rfl⟩

theorem parses_readable (cleared : Cleared behind) {file : Bytes} (readable : Readable file)
    (initial : Config) : ∃ result final, Parses behind file initial result final ∧
      Judged (readLines file ∈ parserShape.language) result final
        ((readLines file).foldl settle initial) := by
  rw [mem_language_iff]
  exact leads_segments cleared (delivers_start file) readable initial 0 none

theorem Parses.readable (cleared : Cleared behind) {file : Bytes} {initial final : Config}
    {result : Int32} (parses : Parses behind file initial result final) : Readable file := by
  by_contra unreadable
  have stuck := leads_unreadable cleared (delivers_start file) unreadable initial 0 none
  have same := Leads.unique parses stuck rfl rfl
  contradiction

/-- `parse` returns 0 on the files of the parser's shape, with each line settled in order. -/
theorem parses_zero_iff (cleared : Cleared behind) {file : Bytes} {initial final : Config} :
    Parses behind file initial 0 final ↔ Readable file ∧
      readLines file ∈ parserShape.language ∧ final = (readLines file).foldl settle initial := by
  constructor
  · intro parses
    have readable := parses.readable cleared
    obtain ⟨result, other, runs, inShape, outside⟩ := parses_readable cleared readable initial
    obtain ⟨rfl, rfl⟩ := parses.unique runs
    by_cases member : readLines file ∈ parserShape.language
    · exact ⟨readable, member, (inShape member).2⟩
    · exact absurd (outside member) (by decide)
  · rintro ⟨readable, member, rfl⟩
    obtain ⟨result, other, runs, inShape, _⟩ := parses_readable cleared readable initial
    obtain ⟨rfl, rfl⟩ := inShape member
    exact runs

theorem parses_error (cleared : Cleared behind) {file : Bytes} (readable : Readable file)
    (refused : readLines file ∉ parserShape.language) (initial : Config) :
    ∃ final, Parses behind file initial (-1) final := by
  obtain ⟨result, final, runs, _, outside⟩ := parses_readable cleared readable initial
  rw [outside refused] at runs
  exact ⟨final, runs⟩

/-! What the lines leave in the four fields. -/

def fields : List (Bytes × (Config → Slot)) :=
  [(ascii "server", Config.server), (ascii "listening port", Config.listeningPort),
    (ascii "database", Config.database), (ascii "logging", Config.logging)]

/-- The last parameter line with this key. -/
def LastParameter (lines : List Bytes) (key value : Bytes) : Prop :=
  ∃ before line after, lines = before ++ line :: after ∧ Parameter key value line ∧
    ∀ later ∈ after, ∀ other, ¬Parameter key other later

theorem lastParameter_exists {lines : List Bytes} {key : Bytes}
    (occurs : ∃ line ∈ lines, ∃ value, Parameter key value line) :
    ∃ value, LastParameter lines key value := by
  induction lines with
  | nil =>
      obtain ⟨line, member, _⟩ := occurs
      exact absurd member List.not_mem_nil
  | cons line rest ih =>
      by_cases later : ∃ line ∈ rest, ∃ value, Parameter key value line
      · obtain ⟨value, before, last, after, rfl, parameter, none_after⟩ := ih later
        exact ⟨value, line :: before, last, after, rfl, parameter, none_after⟩
      · obtain ⟨found, member, value, parameter⟩ := occurs
        rcases List.mem_cons.mp member with rfl | inRest
        · refine ⟨value, [], found, rest, rfl, parameter, ?_⟩
          intro other otherMember otherValue another
          exact later ⟨other, otherMember, otherValue, another⟩
        · exact absurd ⟨found, inRest, value, parameter⟩ later

theorem assign_field {key value : Bytes} {config : Config} {field : Bytes × (Config → Slot)}
    (isField : field ∈ fields) : field.2 (assign config key value) =
      if key = field.1 then .string (leadingTrim value) else field.2 config := by
  simp only [fields, List.mem_cons, List.not_mem_nil, or_false] at isField
  rcases isField with rfl | rfl | rfl | rfl
  all_goals
    unfold assign
    split_ifs
    all_goals first | rfl | (subst_vars; contradiction)

theorem settle_field_parameter {value line : Bytes} {config : Config}
    {field : Bytes × (Config → Slot)} (isField : field ∈ fields)
    (parameter : Parameter field.1 value line) :
    field.2 (settle config line) = .string (leadingTrim value) := by
  have isOne : isParam line = true := (isParam_iff line).mpr ⟨field.1, value, parameter⟩
  rw [settle, if_pos isOne, assign_field isField, parameter.getParam, parameter.getValue, if_pos rfl]

theorem settle_field_other {line : Bytes} {config : Config} {field : Bytes × (Config → Slot)}
    (isField : field ∈ fields) (noParameter : ∀ value, ¬Parameter field.1 value line) :
    field.2 (settle config line) = field.2 config := by
  unfold settle
  split
  · rename_i isOne
    have different : getParam line ≠ field.1 := by
      intro same
      have parameter := isParam_parameter isOne
      rw [same] at parameter
      exact noParameter _ parameter
    rw [assign_field isField, if_neg different]
  · rfl

theorem settled_other {lines : List Bytes} {config : Config} {field : Bytes × (Config → Slot)}
    (isField : field ∈ fields)
    (absent : ∀ line ∈ lines, ∀ value, ¬Parameter field.1 value line) :
    field.2 (lines.foldl settle config) = field.2 config := by
  induction lines generalizing config with
  | nil => rfl
  | cons line rest ih =>
      have behind := fun other member => absent other (List.mem_cons_of_mem line member)
      rw [List.foldl_cons, ih behind]
      exact settle_field_other isField (absent line List.mem_cons_self)

theorem settled_last {lines : List Bytes} {config : Config} {field : Bytes × (Config → Slot)}
    {value : Bytes} (isField : field ∈ fields) (last : LastParameter lines field.1 value) :
    field.2 (lines.foldl settle config) = .string (leadingTrim value) := by
  obtain ⟨before, line, after, rfl, parameter, none_after⟩ := last
  rw [List.foldl_append, List.foldl_cons, settled_other isField none_after]
  exact settle_field_parameter isField parameter

/-! The grammar against the parser's shape. -/

theorem step_same {line : Bytes} (noEnd : ∀ value, ¬Parameter endTag value line)
    {state next : Bool} : fileShape.Step line state next ↔ parserShape.Step line state next := by
  constructor
  · intro step
    cases step with
    | skip empty => exact .skip empty
    | opening opens => exact .opening opens
    | hold holds =>
        rcases holds with empty | ⟨key, value, parameter⟩
        · exact .hold (.inl empty)
        · refine .hold (.inr ⟨key, value, parameter, ?_⟩)
          rintro rfl
          exact noEnd value parameter
    | closing closes => exact .closing (.inl closes)
  · intro step
    cases step with
    | skip empty => exact .skip empty
    | opening opens => exact .opening opens
    | hold holds =>
        rcases holds with empty | ⟨key, value, parameter, _⟩
        · exact .hold (.inl empty)
        · exact .hold (.inr ⟨key, value, parameter⟩)
    | closing closes =>
        rcases closes with same | ⟨value, parameter⟩
        · exact .closing same
        · exact absurd parameter (noEnd value)

theorem follows_same {lines : List Bytes} {state last : Bool}
    (noEnd : ∀ line ∈ lines, ∀ value, ¬Parameter endTag value line) :
    fileShape.Follows state lines last ↔ parserShape.Follows state lines last := by
  induction lines generalizing state with
  | nil =>
      constructor
      · intro follows
        cases follows
        exact .done last
      · intro follows
        cases follows
        exact .done last
  | cons line rest ih =>
      have here := noEnd line List.mem_cons_self
      have behind := fun other member => noEnd other (List.mem_cons_of_mem line member)
      constructor
      · intro follows
        obtain ⟨next, step, later⟩ := follows.first
        exact ((step_same here).mp step).follows ((ih behind).mp later)
      · intro follows
        obtain ⟨next, step, later⟩ := follows.first
        exact ((step_same here).mpr step).follows ((ih behind).mpr later)

theorem follows_apart {lines : List Bytes} (closes : fileShape.Follows true lines false)
    (opens : parserShape.Follows false lines false) : False := by
  induction lines with
  | nil => cases closes
  | cons line rest ih =>
      obtain ⟨next, step, later⟩ := opens.first
      cases step with
      | skip empty =>
          have held : fileShape.Step line true true := .hold (.inl empty)
          exact ih (held.follows_iff.mp closes) later
      | opening tag =>
          have tagged : line = openTag := tag
          subst tagged
          obtain ⟨_, other, _⟩ := closes.first
          cases other with
          | hold holds =>
              rcases holds with empty | ⟨key, value, parameter⟩
              · exact absurd empty (by decide)
              · exact absurd parameter.equals (by decide)
          | closing ends => exact absurd (show openTag = endTag from ends) (by decide)

/-- With the key `end`, the parser and the grammar never both accept. -/
theorem follows_endKey {lines : List Bytes} {state : Bool}
    (occurs : ∃ line ∈ lines, ∃ value, Parameter endTag value line)
    (grammar : fileShape.Follows state lines false)
    (accepts : parserShape.Follows state lines false) : False := by
  induction lines generalizing state with
  | nil =>
      obtain ⟨line, member, _⟩ := occurs
      exact absurd member List.not_mem_nil
  | cons line rest ih =>
      obtain ⟨next, step, later⟩ := accepts.first
      by_cases ending : ∃ value, Parameter endTag value line
      · obtain ⟨value, parameter⟩ := ending
        have equals := parameter.equals
        cases state with
        | false =>
            cases step with
            | skip empty =>
                rw [show line = [] from empty] at equals
                exact absurd equals List.not_mem_nil
            | opening tag =>
                rw [show line = openTag from tag] at equals
                exact absurd equals (by decide)
        | true =>
            have closed : parserShape.Step line true false := .closing (.inr ⟨value, parameter⟩)
            have held : fileShape.Step line true true := .hold (.inr ⟨endTag, value, parameter⟩)
            exact follows_apart (held.follows_iff.mp grammar) (closed.follows_iff.mp accepts)
      · have noEnd : ∀ value, ¬Parameter endTag value line :=
          fun value parameter => ending ⟨value, parameter⟩
        obtain ⟨found, member, shape⟩ := occurs
        have inRest : found ∈ rest := by
          rcases List.mem_cons.mp member with rfl | inRest
          · exact absurd shape ending
          · exact inRest
        have same := (step_same noEnd).mpr step
        exact ih ⟨found, inRest, shape⟩ (same.follows_iff.mp grammar) later

/-! Files without bytes that `readLine` treats in a way of their own. -/

def Plain (file : Bytes) : Prop := ∀ byte ∈ file, byte ≠ 0 ∧ byte < 128

instance (file : Bytes) : Decidable (Plain file) :=
  inferInstanceAs (Decidable (∀ byte ∈ file, byte ≠ 0 ∧ byte < 128))

def linesOf (file : Bytes) : List Bytes := (file.splitOn 10).map leadingTrim

theorem segments_splitOn {file : Bytes} (narrow : (255 : UInt8) ∉ file) :
    segments file = file.splitOn 10 := by
  unfold segments
  induction file with
  | nil => rfl
  | cons byte rest ih =>
      obtain ⟨low, behind⟩ := not_or.mp (mt List.mem_cons.mpr narrow)
      have only : endsLine byte = (byte == 10) := by
        rw [endsLine, decide_eq_false (Ne.symm low), Bool.or_false]
        rfl
      rw [List.splitOnP_cons_eq_if_modifyHead, List.splitOn_cons_eq_if_modifyHead, only, ih behind]

theorem Plain.narrow {file : Bytes} (plain : Plain file) : (255 : UInt8) ∉ file := fun member =>
  absurd (plain 255 member).2 (by decide)

theorem segment_sublist {file segment : Bytes} (member : segment ∈ segments file) :
    segment.Sublist file := by
  unfold segments at member
  induction file generalizing segment with
  | nil =>
      rw [List.splitOnP_nil, List.mem_singleton] at member
      rw [member]
  | cons first rest ih =>
      rw [List.splitOnP_cons_eq_if_modifyHead] at member
      split at member
      · rcases List.mem_cons.mp member with rfl | later
        · exact List.nil_sublist _
        · exact (ih later).cons first
      · obtain ⟨head, tail, shape⟩ := List.exists_cons_of_ne_nil (List.splitOnP_ne_nil endsLine rest)
        rw [shape, List.modifyHead_cons] at member
        rw [shape] at ih
        rcases List.mem_cons.mp member with rfl | later
        · exact (ih List.mem_cons_self).cons_cons first
        · exact (ih (List.mem_cons_of_mem head later)).cons first

theorem readable_of_length {file : Bytes} (short : file.length < lineLimit) : Readable file := by
  intro before segment after shape _
  have member : segment ∈ segments file := by
    rw [shape]
    simp
  exact Nat.lt_of_le_of_lt (segment_sublist member).length_le short

theorem readLines_clean {file : Bytes} (clean : (0 : UInt8) ∉ file) :
    readLines file = (segments file).map leadingTrim := by
  apply List.map_congr_left
  intro segment member
  have noNul : (0 : UInt8) ∉ segment := fun inside => clean ((segment_sublist member).subset inside)
  rw [lineOf, cstring_eq_self noNul]

theorem readLines_plain {file : Bytes} (plain : Plain file) : readLines file = linesOf file := by
  rw [readLines_clean fun member => (plain 0 member).1 rfl, segments_splitOn plain.narrow, linesOf]

/-! The grammar and the parser. -/

/-- What the lines of a file leave in the fields, by the last parameter with each key. -/
def Stored (lines : List Bytes) (initial final : Config) : Prop :=
  ∀ field ∈ fields,
    (∀ value, LastParameter lines field.1 value →
      field.2 final = .string (value.dropWhile (· = 32))) ∧
    ((∀ line ∈ lines, ∀ value, ¬Parameter field.1 value line) → field.2 final = field.2 initial)

def ConfigExact (behind : Behind) (file : Bytes) (initial : Config) : Prop :=
  ∃ result final, Parses behind file initial result final ∧
    (linesOf file ∈ fileShape.language → result = 0 ∧ Stored (linesOf file) initial final) ∧
    (linesOf file ∉ fileShape.language → result = -1)

theorem Parameter.trimmed {key value line : Bytes} (parameter : Parameter key value line) :
    leadingTrim value = value.dropWhile (· = 32) := by
  have noTab : ∀ byte ∈ value, isBlank byte = decide (byte = 32) := by
    intro byte member
    have other : byte ≠ 9 := by
      rintro rfl
      exact absurd (parameter.valueBytes 9 member) (by decide)
    rw [isBlank, decide_eq_false other, Bool.or_false]
  clear parameter
  unfold leadingTrim
  induction value with
  | nil => rfl
  | cons byte rest ih =>
      rw [List.dropWhile_cons, List.dropWhile_cons, noTab byte List.mem_cons_self,
        ih fun other member => noTab other (List.mem_cons_of_mem byte member)]

theorem stored_settled (lines : List Bytes) (initial : Config) :
    Stored lines initial (lines.foldl settle initial) := by
  intro field isField
  constructor
  · intro value last
    have parameter := last
    obtain ⟨_, _, _, _, parameter, _⟩ := parameter
    rw [settled_last isField last, parameter.trimmed]
  · intro absent
    exact settled_other isField absent

/-- The parser follows the grammar except for the key `end`, which closes a section, and for
lines beyond the range of its index. -/
theorem parse_exact_iff (cleared : Cleared behind) {file : Bytes} (plain : Plain file)
    (initial : Config) : ConfigExact behind file initial ↔ Readable file ∧
      ((∀ line ∈ linesOf file, ∀ value, ¬Parameter endTag value line) ∨
        linesOf file ∉ fileShape.language ∧ linesOf file ∉ parserShape.language) := by
  have lines := readLines_plain plain
  constructor
  · rintro ⟨result, final, parses, inside, outside⟩
    have readable := parses.readable cleared
    refine ⟨readable, ?_⟩
    by_cases occurs : ∃ line ∈ linesOf file, ∃ value, Parameter endTag value line
    · have grammarOnly : linesOf file ∉ fileShape.language := by
        intro member
        obtain ⟨rfl, _⟩ := inside member
        have accepted := ((parses_zero_iff cleared).mp parses).2.1
        rw [lines] at accepted
        exact follows_endKey occurs (mem_language_iff.mp member) (mem_language_iff.mp accepted)
      refine .inr ⟨grammarOnly, ?_⟩
      intro accepted
      rw [← lines] at accepted
      have zero := (@parses_zero_iff behind cleared file initial _).mpr ⟨readable, accepted, rfl⟩
      have wrong := (parses.unique zero).1
      rw [outside grammarOnly] at wrong
      exact absurd wrong (by decide)
    · left
      intro line member value parameter
      exact occurs ⟨line, member, value, parameter⟩
  · rintro ⟨readable, condition⟩
    have same : linesOf file ∈ fileShape.language ↔ linesOf file ∈ parserShape.language := by
      rcases condition with noEnd | ⟨first, second⟩
      · rw [mem_language_iff, mem_language_iff]
        exact follows_same noEnd
      · exact iff_of_false first second
    by_cases member : linesOf file ∈ fileShape.language
    · have accepted := same.mp member
      rw [← lines] at accepted
      refine ⟨0, _, (parses_zero_iff cleared).mpr ⟨readable, accepted, rfl⟩, ?_, ?_⟩
      · intro _
        rw [lines]
        exact ⟨rfl, stored_settled (linesOf file) initial⟩
      · intro refused
        exact absurd member refused
    · have refused : readLines file ∉ parserShape.language := by
        rw [lines]
        exact fun accepted => member (same.mpr accepted)
      obtain ⟨final, parses⟩ := parses_error cleared readable refused initial
      exact ⟨-1, final, parses, fun accepted => absurd accepted member, fun _ => rfl⟩

/-- An allocator that clears what it gives, and a block with leftovers. -/
def clearedBehind : Behind := fun _ _ _ => 0

def leftovers : Config := ⟨.leftover 0, .leftover 0, .leftover 0, .leftover 0⟩

theorem clearedBehind_cleared : Cleared clearedBehind := fun _ _ _ => rfl

def serverFile : Bytes := ascii "[addresses]\nserver=1\nend\n"

theorem parse_exact_serverFile : ConfigExact clearedBehind serverFile leftovers := by
  apply (parse_exact_iff clearedBehind_cleared (by decide) leftovers).mpr
  refine ⟨readable_of_length (by decide), .inl ?_⟩
  intro line member value parameter
  have key := parameter.getParam
  have lines : linesOf serverFile = [openTag, ascii "server=1", endTag, []] := by decide
  rw [lines] at member
  simp only [List.mem_cons, List.not_mem_nil, or_false] at member
  rcases member with rfl | rfl | rfl | rfl
  · exact absurd parameter.equals (by decide)
  · exact absurd key (by decide)
  · exact absurd parameter.equals (by decide)
  · exact absurd parameter.equals (by decide)

def endKeyFile : Bytes := ascii "[addresses]\nend=x\n"

/-- A parameter with the key `end` closes the section, so that the file is accepted. -/
theorem parse_accepts_endKey : Plain endKeyFile ∧ Cleared clearedBehind ∧
    ¬ConfigExact clearedBehind endKeyFile leftovers := by
  refine ⟨by decide, clearedBehind_cleared, ?_⟩
  rintro ⟨result, final, parses, _, outside⟩
  have lines : linesOf endKeyFile = [openTag, ascii "end=x", []] := by decide
  have read : readLines endKeyFile = [openTag, ascii "end=x", []] := by decide
  have parameter : Parameter endTag (ascii "x") (ascii "end=x") :=
    ⟨by decide, ⟨101, ascii "nd", by decide, by decide⟩, by decide, by decide⟩
  have refused : linesOf endKeyFile ∉ fileShape.language := by
    rw [lines, mem_language_iff]
    intro follows
    have opened : fileShape.Step openTag false true := .opening rfl
    have held : fileShape.Step (ascii "end=x") true true := .hold (.inr ⟨_, _, parameter⟩)
    have blank : fileShape.Step [] true true := .hold (.inl rfl)
    rw [opened.follows_iff, held.follows_iff, blank.follows_iff] at follows
    cases follows
  have accepted : readLines endKeyFile ∈ parserShape.language := by
    rw [read, mem_language_iff]
    exact .opening rfl (.closing (.inr ⟨_, parameter⟩) (.skip rfl (.done false)))
  have readable : Readable endKeyFile := readable_of_length (by decide)
  have zero := (@parses_zero_iff clearedBehind clearedBehind_cleared endKeyFile leftovers _).mpr
    ⟨readable, accepted, rfl⟩
  have wrong := (parses.unique zero).1
  rw [outside refused] at wrong
  exact absurd wrong (by decide)

/-! `setup` -/

def getServerAddress (config : Config) : Slot := config.server

def getListeningPort (config : Config) : Slot := config.listeningPort

/-- `setup` returns this configuration, from the file that `fopen` opens and from the block
that `malloc` gives. -/
def SetsUp (behind : Behind) (fp : Option Bytes) (block : Option Config) (config : Config) : Prop :=
  ∃ file initial, fp = some file ∧ block = some initial ∧ Parses behind file initial 0 config

/-- Parameter lines of the file have given the slot its value. -/
def Assigned (file key : Bytes) (slot : Slot) : Prop :=
  ∃ value, LastParameter (readLines file) key value ∧ slot = .string (leadingTrim value)

structure CompleteConfig (behind : Behind) (file : Bytes) : Prop where
  assigned : ∀ block config, SetsUp behind (some file) block config →
    Assigned file (ascii "server") (getServerAddress config) ∧
      Assigned file (ascii "listening port") (getListeningPort config)
  determined : ∀ block other config config', SetsUp behind (some file) block config →
    SetsUp behind (some file) other config' →
      getServerAddress config = getServerAddress config' ∧
        getListeningPort config = getListeningPort config'

def Occurs (file key : Bytes) : Prop := ∃ line ∈ readLines file, ∃ value, Parameter key value line

theorem setsUp_iff (cleared : Cleared behind) {file : Bytes} {block : Option Config}
    {config : Config} : SetsUp behind (some file) block config ↔ ∃ initial, block = some initial ∧
      Readable file ∧ readLines file ∈ parserShape.language ∧
        config = (readLines file).foldl settle initial := by
  constructor
  · rintro ⟨_, initial, opened, rfl, parses⟩
    cases opened
    exact ⟨initial, rfl, (parses_zero_iff cleared).mp parses⟩
  · rintro ⟨initial, rfl, accepted⟩
    exact ⟨file, initial, rfl, rfl, (parses_zero_iff cleared).mpr accepted⟩

theorem server_field : (ascii "server", getServerAddress) ∈ fields := List.mem_cons_self

theorem listeningPort_field : (ascii "listening port", getListeningPort) ∈ fields :=
  List.mem_cons_of_mem _ List.mem_cons_self

theorem assigned_of_occurs {file : Bytes} {field : Bytes × (Config → Slot)}
    (isField : field ∈ fields) (occurs : Occurs file field.1) (initial : Config) :
    Assigned file field.1 (field.2 ((readLines file).foldl settle initial)) := by
  obtain ⟨value, last⟩ := lastParameter_exists occurs
  exact ⟨value, last, settled_last isField last⟩

theorem determined_of_occurs {file : Bytes} {field : Bytes × (Config → Slot)}
    (isField : field ∈ fields) (occurs : Occurs file field.1) (initial other : Config) :
    field.2 ((readLines file).foldl settle initial) =
      field.2 ((readLines file).foldl settle other) := by
  obtain ⟨value, last⟩ := lastParameter_exists occurs
  rw [settled_last isField last, settled_last isField last]

theorem Assigned.occurs {file key : Bytes} {slot : Slot} (assigned : Assigned file key slot) :
    Occurs file key := by
  obtain ⟨value, ⟨before, line, after, shape, parameter, _⟩, _⟩ := assigned
  refine ⟨line, ?_, value, parameter⟩
  rw [shape]
  simp

/-- Only an accepted file that lacks one of the two keys is incomplete. -/
theorem setup_complete_iff (cleared : Cleared behind) (file : Bytes) : CompleteConfig behind file ↔
    (Readable file → readLines file ∈ parserShape.language →
      Occurs file (ascii "server") ∧ Occurs file (ascii "listening port")) := by
  constructor
  · intro complete readable accepted
    have given : SetsUp behind (some file) (some ⟨.leftover 0, .leftover 0, .leftover 0, .leftover 0⟩)
        _ := (setsUp_iff cleared).mpr ⟨_, rfl, readable, accepted, rfl⟩
    obtain ⟨server, port⟩ := complete.assigned _ _ given
    exact ⟨server.occurs, port.occurs⟩
  · intro condition
    constructor
    · intro block config given
      obtain ⟨initial, _, readable, accepted, rfl⟩ := (setsUp_iff cleared).mp given
      obtain ⟨server, port⟩ := condition readable accepted
      exact ⟨assigned_of_occurs server_field server initial,
        assigned_of_occurs listeningPort_field port initial⟩
    · intro block other config config' given another
      obtain ⟨initial, _, readable, accepted, rfl⟩ := (setsUp_iff cleared).mp given
      obtain ⟨second, _, _, _, rfl⟩ := (setsUp_iff cleared).mp another
      obtain ⟨server, port⟩ := condition readable accepted
      exact ⟨determined_of_occurs server_field server initial second,
        determined_of_occurs listeningPort_field port initial second⟩

def bothFile : Bytes := ascii "[addresses]\nserver=1\nlistening port=2\nend\n"

theorem setup_complete_bothFile : CompleteConfig clearedBehind bothFile := by
  have lines : readLines bothFile =
    [openTag, ascii "server=1", ascii "listening port=2", endTag, []] := by decide
  have serverLine : Parameter (ascii "server") (ascii "1") (ascii "server=1") :=
    ⟨by decide, ⟨115, ascii "erver", by decide, by decide⟩, by decide, by decide⟩
  have portLine : Parameter (ascii "listening port") (ascii "2") (ascii "listening port=2") :=
    ⟨by decide, ⟨108, ascii "istening port", by decide, by decide⟩, by decide, by decide⟩
  apply (setup_complete_iff clearedBehind_cleared bothFile).mpr
  intro _ _
  unfold Occurs
  rw [lines]
  constructor
  · exact ⟨ascii "server=1", by simp, _, serverLine⟩
  · exact ⟨ascii "listening port=2", by simp, _, portLine⟩

/-- The empty file sets nothing and is accepted. -/
theorem setup_accepts_empty : Cleared clearedBehind ∧ ¬CompleteConfig clearedBehind [] := by
  refine ⟨clearedBehind_cleared, ?_⟩
  intro complete
  have blank : readLines [] = [[]] := rfl
  have accepted : readLines [] ∈ parserShape.language := by
    rw [blank, mem_language_iff]
    exact .skip rfl (.done false)
  have given : SetsUp clearedBehind (some []) (some leftovers) _ :=
    (setsUp_iff clearedBehind_cleared).mpr
      ⟨_, rfl, readable_of_length (by decide), accepted, rfl⟩
  obtain ⟨_, ⟨before, line, after, shape, parameter, _⟩, _⟩ := (complete.assigned _ _ given).1
  have only : line ∈ readLines [] := by
    rw [shape]
    simp
  rw [List.mem_singleton.mp only] at parameter
  exact absurd parameter.equals List.not_mem_nil

end Iac
