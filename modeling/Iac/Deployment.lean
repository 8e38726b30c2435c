import Iac.ConfigFile
import Iac.SocketAddress
import Iac.Library.Lines

/-! Configuration files as the skeletons in `configSkeleton` are written, and what the client and the
main server make of one: `setup`, and the beginnings of `conn_open` and `conn_listen`. -/

namespace Iac

open CText Blocks Lines

variable {behind : Behind}

/-! Files that are written. -/

/-- A line of a section, indented. -/
structure Param where
  indent : Bytes
  key : Bytes
  value : Bytes
  blank : ∀ byte ∈ indent, isBlank byte = true
  parameter : Parameter key value (key ++ equalsSign :: value)
  goesOn : key ≠ endTag
  clean : ∀ byte ∈ value, byte ≠ 0 ∧ byte ≠ 255

def Param.line (setting : Param) : Bytes := setting.key ++ equalsSign :: setting.value

def Param.text (setting : Param) : Bytes := setting.indent ++ setting.line

def sectionTexts (settings : List Param) : List Bytes := openTag :: (settings.map Param.text ++ [endTag])

def sectionLines (settings : List Param) : List Bytes := openTag :: (settings.map Param.line ++ [endTag])

def write (sections : List (List Param)) : Bytes := (sections.flatMap sectionTexts).flatMap (· ++ [10])

/-- What was last written for a key. -/
def lastWritten (key : Bytes) (sections : List (List Param)) : Option Bytes :=
  (sections.flatten.filter (·.key = key)).getLast?.map fun setting => leadingTrim setting.value

/-! Their lines. -/

/-- A byte that `readLine` takes as it is. -/
def Ordinary (byte : UInt8) : Prop := byte ≠ 0 ∧ byte ≠ 10 ∧ byte ≠ 255

theorem ordinary_key {byte : UInt8} (isOne : isKeyByte byte = true) : Ordinary byte := by
  refine ⟨?_, ?_, ?_⟩
  · rintro rfl
    exact absurd isOne (by decide)
  · rintro rfl
    exact absurd isOne (by decide)
  · rintro rfl
    exact absurd isOne (by decide)

theorem ordinary_blank {byte : UInt8} (isOne : isBlank byte = true) : Ordinary byte := by
  refine ⟨?_, ?_, ?_⟩
  · rintro rfl
    exact absurd isOne (by decide)
  · rintro rfl
    exact absurd isOne (by decide)
  · rintro rfl
    exact absurd isOne (by decide)

theorem Param.ordinary (setting : Param) : ∀ byte ∈ setting.text, Ordinary byte := by
  intro byte member
  rcases List.mem_append.mp member with indent | line
  · exact ordinary_blank (setting.blank byte indent)
  · rcases List.mem_append.mp line with key | value
    · exact ordinary_key (setting.parameter.keyBytes byte key)
    · rcases List.mem_cons.mp value with rfl | value
      · exact ⟨by decide, by decide, by decide⟩
      · obtain ⟨noNul, narrow⟩ := setting.clean byte value
        refine ⟨noNul, ?_, narrow⟩
        rintro rfl
        exact absurd (setting.parameter.valueBytes 10 value) (by decide)

theorem tags_ordinary : (∀ byte ∈ openTag, Ordinary byte) ∧ ∀ byte ∈ endTag, Ordinary byte := by
  unfold Ordinary
  decide

theorem texts_ordinary {sections : List (List Param)} {text : Bytes} (member : text ∈ sections.flatMap sectionTexts) :
    ∀ byte ∈ text, Ordinary byte := by
  obtain ⟨settings, _, inside⟩ := List.mem_flatMap.mp member
  rcases List.mem_cons.mp inside with rfl | later
  · exact tags_ordinary.1
  · rcases List.mem_append.mp later with inner | last
    · obtain ⟨setting, _, rfl⟩ := List.mem_map.mp inner
      exact setting.ordinary
    · rw [List.mem_singleton.mp last]
      exact tags_ordinary.2

theorem segments_write (sections : List (List Param)) :
    segments (write sections) = sections.flatMap sectionTexts ++ [[]] := by
  have narrow : (255 : UInt8) ∉ write sections := by
    intro member
    obtain ⟨text, isOne, inside⟩ := List.mem_flatMap.mp member
    rcases List.mem_append.mp inside with own | newline
    · exact (texts_ordinary isOne 255 own).2.2 rfl
    · exact absurd (List.mem_singleton.mp newline) (by decide)
  rw [segments_splitOn narrow, write]
  exact splitOn_ended fun text member newline => (texts_ordinary member 10 newline).2.1 rfl

/-- Behind its indentation a line begins with a letter. -/
theorem Param.lineOf_text (setting : Param) : lineOf setting.text = setting.line := by
  obtain ⟨first, rest, key, letter⟩ := setting.parameter.letter
  have noNul : (0 : UInt8) ∉ setting.text := fun member => (setting.ordinary 0 member).1 rfl
  have starts : isBlank first = false := by
    by_contra blank
    rw [Bool.not_eq_false, isBlank, Bool.or_eq_true, decide_eq_true_eq, decide_eq_true_eq] at blank
    rcases blank with rfl | rfl
    · exact absurd letter (by decide)
    · exact absurd letter (by decide)
  rw [lineOf, cstring_eq_self noNul, Param.text, leadingTrim, List.dropWhile_append_of_pos setting.blank,
    Param.line, key, List.cons_append, List.dropWhile_cons_of_neg (by simp [starts])]

theorem sectionTexts_lines (settings : List Param) : (sectionTexts settings).map lineOf = sectionLines settings := by
  have opened : lineOf openTag = openTag := by decide
  have ended : lineOf endTag = endTag := by decide
  have inner : (settings.map Param.text).map lineOf = settings.map Param.line := by
    rw [List.map_map]
    exact List.map_congr_left fun setting _ => setting.lineOf_text
  rw [sectionTexts, List.map_cons, List.map_append, inner, List.map_singleton, opened, ended, sectionLines]

theorem readLines_write (sections : List (List Param)) :
    readLines (write sections) = sections.flatMap sectionLines ++ [[]] := by
  have all : (sections.flatMap sectionTexts).map lineOf = sections.flatMap sectionLines := by
    rw [List.map_flatMap]
    exact List.flatMap_congr fun settings _ => sectionTexts_lines settings
  rw [readLines, segments_write, List.map_append, all]
  rfl

theorem follows_section (settings : List Param) {rest : List Bytes} (later : parserShape.Follows false rest false) :
    parserShape.Follows false (sectionLines settings ++ rest) false := by
  rw [sectionLines, List.cons_append, List.append_assoc]
  refine .opening rfl (follows_block ?_ (.inl rfl) later)
  intro line member
  obtain ⟨setting, _, rfl⟩ := List.mem_map.mp member
  exact .inr ⟨setting.key, setting.value, setting.parameter, setting.goesOn⟩

theorem follows_write (sections : List (List Param)) :
    parserShape.Follows false (readLines (write sections)) false := by
  rw [readLines_write]
  induction sections with
  | nil => exact .skip rfl (.done false)
  | cons settings rest ih =>
      rw [List.flatMap_cons, List.append_assoc]
      exact follows_section settings ih

/-- The parser reads every line of a file that it accepts. -/
theorem accepted_short {file segment : Bytes} (readable : Readable file)
    (accepted : readLines file ∈ parserShape.language) (member : segment ∈ segments file) :
    segment.length < lineLimit := by
  obtain ⟨before, after, shape⟩ := List.append_of_mem member
  have follows := mem_language_iff.mp accepted
  rw [readLines, shape, List.map_append] at follows
  obtain ⟨middle, first, _⟩ := follows.split
  exact readable before segment after shape ⟨middle, first⟩

theorem readable_write {sections : List (List Param)} : Readable (write sections) ↔
    ∀ settings ∈ sections, ∀ setting ∈ settings, setting.text.length < lineLimit := by
  constructor
  · intro readable settings isSection setting member
    refine accepted_short readable (mem_language_iff.mpr (follows_write sections)) ?_
    rw [segments_write]
    refine List.mem_append_left _ (List.mem_flatMap.mpr ⟨settings, isSection, ?_⟩)
    exact List.mem_cons_of_mem _ (List.mem_append_left _ (List.mem_map_of_mem member))
  · intro short before segment after shape _
    have inside : segment ∈ segments (write sections) := by
      rw [shape]
      simp
    rw [segments_write] at inside
    rcases List.mem_append.mp inside with text | last
    · obtain ⟨settings, isSection, member⟩ := List.mem_flatMap.mp text
      rcases List.mem_cons.mp member with rfl | later
      · decide
      · rcases List.mem_append.mp later with inner | ended
        · obtain ⟨setting, isOne, rfl⟩ := List.mem_map.mp inner
          exact short settings isSection setting isOne
        · rw [List.mem_singleton.mp ended]
          decide
    · rw [List.mem_singleton.mp last]
      decide

/-! What they set. -/

def Param.store (config : Config) (setting : Param) : Config := assign config setting.key setting.value

theorem settle_setting (config : Config) (setting : Param) : settle config setting.line = setting.store config := by
  have isOne : isParam setting.line = true := (isParam_iff _).mpr ⟨_, _, setting.parameter⟩
  rw [settle, if_pos isOne, Param.line, setting.parameter.getParam, setting.parameter.getValue]
  rfl

theorem settle_other {line : Bytes} (noEquals : equalsSign ∉ line) (config : Config) : settle config line = config :=
  settle_plain (by
    by_contra isOne
    rw [Bool.not_eq_false] at isOne
    exact noEquals (isParam_parameter isOne).equals) config

theorem settle_section (settings : List Param) (config : Config) :
    (sectionLines settings).foldl settle config = settings.foldl Param.store config := by
  have noEquals : equalsSign ∉ openTag ∧ equalsSign ∉ endTag := by decide
  rw [sectionLines, List.foldl_cons, settle_other noEquals.1, List.foldl_append, List.foldl_cons, List.foldl_nil,
    settle_other noEquals.2, List.foldl_map]
  exact List.foldl_ext _ _ _ fun config setting _ => settle_setting config setting

theorem settle_write (sections : List (List Param)) (config : Config) :
    (readLines (write sections)).foldl settle config = sections.flatten.foldl Param.store config := by
  rw [readLines_write, List.foldl_append, List.foldl_cons, List.foldl_nil, settle_other List.not_mem_nil]
  induction sections generalizing config with
  | nil => rfl
  | cons settings rest ih =>
      rw [List.flatMap_cons, List.foldl_append, settle_section, ih, List.flatten_cons, List.foldl_append]

/-- The last one with the key wins. -/
theorem stored_last {field : Bytes × (Config → Slot)} (isField : field ∈ fields) (settings : List Param)
    (config : Config) : field.2 (settings.foldl Param.store config) =
      ((settings.filter (·.key = field.1)).getLast?.map fun setting =>
        Slot.string (leadingTrim setting.value)).getD (field.2 config) := by
  induction settings using List.reverseRecOn with
  | nil => rfl
  | append_singleton settings setting ih =>
      rw [List.foldl_append, List.foldl_cons, List.foldl_nil, Param.store, assign_field isField,
        List.filter_append, List.filter_singleton]
      by_cases own : setting.key = field.1
      · simp [own]
      · simp [own, ih]

theorem config_ext {one other : Config} (same : ∀ field ∈ fields, field.2 one = field.2 other) : one = other := by
  simp only [fields, List.forall_mem_cons] at same
  obtain ⟨server, listeningPort, database, logging, _⟩ := same
  cases one
  cases other
  simp only at server listeningPort database logging
  rw [server, listeningPort, database, logging]

/-- What is written is what is set: for each of the four keys the value that was written last, less its
leading blanks; a field whose key was not written keeps what the block held. -/
theorem setup_reads_back (cleared : Cleared behind) (sections : List (List Param)) (initial config : Config) :
    SetsUp behind (some (write sections)) (some initial) config ↔
      (∀ settings ∈ sections, ∀ setting ∈ settings, setting.text.length < lineLimit) ∧
        ∀ field ∈ fields, field.2 config = ((lastWritten field.1 sections).map Slot.string).getD (field.2 initial) := by
  have each : ∀ field ∈ fields, field.2 ((readLines (write sections)).foldl settle initial) =
      ((lastWritten field.1 sections).map Slot.string).getD (field.2 initial) := by
    intro field isField
    rw [settle_write, stored_last isField, lastWritten, Option.map_map]
    rfl
  rw [setsUp_iff cleared, ← readable_write]
  constructor
  · rintro ⟨_, same, readable, _, rfl⟩
    obtain rfl := Option.some.inj same
    exact ⟨readable, each⟩
  · rintro ⟨readable, all⟩
    refine ⟨initial, rfl, readable, mem_language_iff.mpr (follows_write sections), config_ext ?_⟩
    intro field isField
    rw [all field isField, each field isField]

/-! Where the client connects to, and what the main server listens on. -/

/-- `conn_open`, up to the socket; there is no answer where a position in the address is no `int`. -/
def connOpen (address : Bytes) : Option (Option Endpoint) :=
  match isValidAddress address with
  | none => none
  | some false => some none
  | some true => (initializeClient address).map some

/-- The numbers that the expression for ports accepts. -/
def Dialable (p : Nat) : Prop := p = 0 ∨ (10 ≤ p ∧ p ≤ 99999)

/-- The addresses that are accepted. -/
structure Dials (address : Bytes) (octets : List Nat) (p : Nat) : Prop where
  two : 2 ≤ octets.length
  four : octets.length ≤ 4
  small : ∀ octet ∈ octets, octet ≤ 255
  port : Dialable p
  shape : address = dotted octets ++ colon :: decimal p

/-- The client asks for the port that is listened on. -/
def Meets (address port : Bytes) : Prop :=
  ∃ endpoint listening, connOpen address = some (some endpoint) ∧ connListen port = some listening ∧
    endpoint.port = listening

theorem portNumber_dialable {p : Nat} (range : Dialable p) : (portNumber (decimal p)).toNat = p % 65536 := by
  refine portNumber_decimal ?_
  rcases range with rfl | ⟨_, bound⟩
  · exact Nat.zero_le _
  · exact bound

section

variable {address : Bytes} {octets : List Nat} {p : Nat}

theorem behindColon_length (address : Bytes) : (behindColon address).length ≤ address.length :=
  (List.drop_sublist _ _).length_le

theorem counted_short (short : address.length < lineLimit) : Counted address := by
  have before : (beforeColon address).length ≤ address.length := (List.takeWhile_prefix _).length_le
  have behind := behindColon_length address
  rw [lineLimit] at short
  refine ⟨fun _ => ?_, fun _ => by omega⟩
  rw [portPartLength, Int32.toInt_ofInt_of_le (by omega) (by omega)]
  omega

theorem Dials.parts (dials : Dials address octets p) :
    colon ∈ address ∧ beforeColon address = dotted octets ∧ behindColon address = decimal p := by
  obtain ⟨before, behind⟩ := beforeColon_append (dotted_no_colon octets) (decimal p)
  rw [← dials.shape] at before behind
  refine ⟨?_, before, behind⟩
  rw [dials.shape]
  exact List.mem_append_right _ List.mem_cons_self

theorem dials_iff (member : colon ∈ address) :
    (checkIP (beforeColon address) && checkPort (behindColon address)) = true ↔ ∃ octets p, Dials address octets p := by
  rw [Bool.and_eq_true, checkIP_iff, checkPort_iff]
  constructor
  · rintro ⟨⟨octets, two, four, small, ip⟩, p, port, range⟩
    refine ⟨octets, p, two, four, small, range, ?_⟩
    rw [← ip, ← port]
    exact address_split member
  · rintro ⟨octets, p, dials⟩
    obtain ⟨_, before, behind⟩ := dials.parts
    exact ⟨⟨octets, dials.two, dials.four, dials.small, before⟩, p, behind, dials.port⟩

theorem Dials.endpoint (dials : Dials address octets p) (counted : Counted address) :
    ∃ endpoint, initializeClient address = some endpoint ∧ endpoint.ip = dotted octets ∧
      endpoint.port.toNat = p % 65536 := by
  obtain ⟨member, before, behind⟩ := dials.parts
  refine ⟨_, initializeClient_found member counted, before, ?_⟩
  rw [behind, portNumber_dialable dials.port]

/-- An address that is short enough is accepted or refused. -/
theorem connOpen_answers (short : address.length < lineLimit) :
    (∃ octets p endpoint, Dials address octets p ∧ connOpen address = some (some endpoint) ∧
        endpoint.ip = dotted octets ∧ endpoint.port.toNat = p % 65536) ∨
      ((∀ octets p, ¬Dials address octets p) ∧ connOpen address = some none) := by
  have counted := counted_short short
  by_cases member : colon ∈ address
  · have portShort : (behindColon address).length < 2 ^ 31 := by
      have behind := behindColon_length address
      rw [lineLimit] at short
      omega
    have valid := isValidAddress_found member
    rw [if_pos counted, portPart_short portShort] at valid
    cases known : checkIP (beforeColon address) && checkPort (behindColon address) with
    | false =>
        right
        rw [known] at valid
        refine ⟨fun octets p dials => ?_, by rw [connOpen, valid]⟩
        have accepted := (dials_iff member).mpr ⟨octets, p, dials⟩
        rw [known] at accepted
        contradiction
    | true =>
        left
        rw [known] at valid
        obtain ⟨octets, p, dials⟩ := (dials_iff member).mp known
        obtain ⟨endpoint, initialized, ip, port⟩ := dials.endpoint counted
        refine ⟨octets, p, endpoint, dials, ?_, ip, port⟩
        rw [connOpen, valid, initialized]
        rfl
  · right
    have valid := isValidAddress_absent member
    rw [if_pos counted] at valid
    exact ⟨fun octets p dials => member dials.parts.1, by rw [connOpen, valid]⟩

theorem connListen_iff {port : Bytes} {listening : UInt16} : connListen port = some listening ↔
    ∃ p, port = decimal p ∧ Dialable p ∧ listening.toNat = p % 65536 := by
  rw [connListen]
  split
  · rename_i accepted
    obtain ⟨n, rfl, range⟩ := (checkPort_iff port).mp accepted
    constructor
    · intro same
      exact ⟨n, rfl, range, by rw [← Option.some.inj same, portNumber_dialable range]⟩
    · rintro ⟨p, same, _, cut⟩
      obtain rfl := decimal_injective same
      exact congrArg some (UInt16.toNat_inj.mp ((portNumber_dialable range).trans cut.symm))
  · rename_i refused
    refine ⟨fun none_is => by contradiction, ?_⟩
    rintro ⟨p, same, range, _⟩
    exact absurd ((checkPort_iff port).mpr ⟨p, same, range⟩) refused

theorem Dials.unique {others : List Nat} {q : Nat} (dials : Dials address octets p) (again : Dials address others q) :
    p = q := by
  have same := dials.parts.2.2.symm.trans again.parts.2.2
  exact decimal_injective same

/-- Ports that differ by 65536 are the same to the code. -/
theorem meets_iff {port : Bytes} (short : address.length < lineLimit) : Meets address port ↔
    ∃ octets p q, Dials address octets p ∧ port = decimal q ∧ Dialable q ∧ p % 65536 = q % 65536 := by
  rcases connOpen_answers short with ⟨octets, p, endpoint, dials, opened, _, number⟩ | ⟨refused, opened⟩
  · constructor
    · rintro ⟨other, listening, asked, listens, same⟩
      rw [opened] at asked
      obtain rfl := Option.some.inj (Option.some.inj asked)
      obtain ⟨q, shape, range, cut⟩ := connListen_iff.mp listens
      exact ⟨octets, p, q, dials, shape, range, by rw [← number, ← cut, same]⟩
    · rintro ⟨others, r, q, again, shape, range, same⟩
      obtain rfl := dials.unique again
      have listens : connListen port = some (portNumber (decimal q)) :=
        connListen_iff.mpr ⟨q, shape, range, portNumber_dialable range⟩
      refine ⟨endpoint, _, opened, listens, UInt16.toNat_inj.mp ?_⟩
      rw [number, same, portNumber_dialable range]
  · constructor
    · rintro ⟨other, listening, asked, _⟩
      rw [opened] at asked
      have refusal := Option.some.inj asked
      contradiction
    · rintro ⟨octets, p, _, dials, _⟩
      exact absurd dials (refused octets p)

end

/-! From the file to the sockets. -/

/-- A value that the parser has stored is short. -/
theorem assigned_short {file key : Bytes} {slot : Slot} (readable : Readable file)
    (accepted : readLines file ∈ parserShape.language) (assigned : Assigned file key slot) :
    ∃ value, slot = .string value ∧ value.length < lineLimit := by
  obtain ⟨value, ⟨before, line, after, shape, parameter, _⟩, rfl⟩ := assigned
  have inside : line ∈ readLines file := by
    rw [shape]
    simp
  obtain ⟨segment, member, rfl⟩ := List.mem_map.mp inside
  have short := accepted_short readable accepted member
  have trimmed : (lineOf segment).length ≤ segment.length := by
    have first : (leadingTrim (cstring segment)).length ≤ (cstring segment).length :=
      (List.dropWhile_suffix _).length_le
    exact first.trans (List.takeWhile_prefix _).length_le
  have inLine : value.length ≤ (lineOf segment).length := by
    rw [parameter.shape]
    simp
    omega
  have stored : (leadingTrim value).length ≤ value.length := (List.dropWhile_suffix _).length_le
  exact ⟨leadingTrim value, rfl, by omega⟩

/-- The client and the main server, with one and the same file: whatever its two values are, reading the
address overflows no `int`, and the client asks for the port that the main server listens on exactly if both
ports are accepted and agree in their low sixteen bits. -/
theorem setup_meets {behind' : Behind} (cleared : Cleared behind) (cleared' : Cleared behind') {file : Bytes}
    {block block' : Option Config} {client server : Config} (clientSets : SetsUp behind (some file) block client)
    (serverSets : SetsUp behind' (some file) block' server) (hasServer : Occurs file (ascii "server"))
    (hasPort : Occurs file (ascii "listening port")) :
    ∃ address port, getServerAddress client = .string address ∧ getListeningPort server = .string port ∧
      (connOpen address).isSome ∧
      (Meets address port ↔ ∃ octets p q, Dials address octets p ∧ port = decimal q ∧ Dialable q ∧
        p % 65536 = q % 65536) := by
  obtain ⟨initial, _, readable, accepted, rfl⟩ := (setsUp_iff cleared).mp clientSets
  obtain ⟨initial', _, _, _, rfl⟩ := (setsUp_iff cleared').mp serverSets
  obtain ⟨address, stored, short⟩ :=
    assigned_short readable accepted (assigned_of_occurs server_field hasServer initial)
  obtain ⟨port, listens, _⟩ :=
    assigned_short readable accepted (assigned_of_occurs listeningPort_field hasPort initial')
  refine ⟨address, port, stored, listens, ?_, meets_iff short⟩
  rcases connOpen_answers short with ⟨_, _, _, _, opened, _⟩ | ⟨_, opened⟩
  · rw [opened]
    rfl
  · rw [opened]
    rfl

/-! `sockets.conf`. -/

def tabbed (key value : Bytes) (parameter : Parameter key value (key ++ equalsSign :: value)) (goesOn : key ≠ endTag)
    (clean : ∀ byte ∈ value, byte ≠ 0 ∧ byte ≠ 255) : Param :=
  ⟨[9], key, value, by decide, parameter, goesOn, clean⟩

def socketsConf : List (List Param) :=
  [[tabbed (ascii "server") (ascii "127.0.0.1:8000")
      ⟨rfl, ⟨115, ascii "erver", by decide, by decide⟩, by decide, by decide⟩ (by decide) (by decide),
    tabbed (ascii "listening port") (ascii "8000")
      ⟨rfl, ⟨108, ascii "istening port", by decide, by decide⟩, by decide, by decide⟩ (by decide) (by decide)]]

def socketsText : Bytes :=
  ascii "[addresses]\n\tserver=127.0.0.1:8000\n\tlistening port=8000\nend\n"

def socketsConfig : Config :=
  ⟨.string (ascii "127.0.0.1:8000"), .string (ascii "8000"), .leftover 0, .leftover 0⟩

example : write socketsConf = socketsText := by decide

theorem socketsConf_short : ∀ settings ∈ socketsConf, ∀ setting ∈ settings, setting.text.length < lineLimit := by
  simp only [socketsConf, List.forall_mem_cons]
  decide

theorem setup_reads_back_sockets : SetsUp clearedBehind (some (write socketsConf)) (some leftovers) socketsConfig := by
  refine (setup_reads_back clearedBehind_cleared socketsConf leftovers socketsConfig).mpr ⟨socketsConf_short, ?_⟩
  decide

/-- The client at port 8000, where the main server listens. -/
theorem setup_meets_sockets : ∃ address port, getServerAddress socketsConfig = .string address ∧
    getListeningPort socketsConfig = .string port ∧ (connOpen address).isSome ∧
    (Meets address port ↔ ∃ octets p q, Dials address octets p ∧ port = decimal q ∧ Dialable q ∧
      p % 65536 = q % 65536) := by
  have sets : SetsUp clearedBehind (some (write socketsConf)) (some leftovers) socketsConfig :=
    (setsUp_iff clearedBehind_cleared).mpr ⟨leftovers, rfl, readable_write.mpr socketsConf_short,
      mem_language_iff.mpr (follows_write socketsConf), by rw [settle_write]; decide⟩
  have lines : readLines (write socketsConf) = [openTag, ascii "server=127.0.0.1:8000", ascii "listening port=8000",
      endTag, []] := by decide
  refine setup_meets clearedBehind_cleared clearedBehind_cleared sets sets ?_ ?_
  · unfold Occurs
    rw [lines]
    exact ⟨ascii "server=127.0.0.1:8000", by simp, ascii "127.0.0.1:8000",
      ⟨rfl, ⟨115, ascii "erver", by decide, by decide⟩, by decide, by decide⟩⟩
  · unfold Occurs
    rw [lines]
    exact ⟨ascii "listening port=8000", by simp, ascii "8000",
      ⟨rfl, ⟨108, ascii "istening port", by decide, by decide⟩, by decide, by decide⟩⟩

end Iac
