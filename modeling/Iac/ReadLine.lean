import Iac.ConfigFile

/-! `readLine` and `leadingTrim` of `common/config.c`, byte by byte and in blocks of memory. -/

namespace Iac.Blockwise

open CText

/-- A pointer into a block, of which the first bytes have been written. -/
structure Str where
  size : Nat
  bytes : Bytes
  start : Nat
  deriving DecidableEq, Repr

def Str.inside (str : Str) : Bytes := (str.bytes.take str.size).drop str.start

def Str.text (str : Str) : Bytes := cstring str.inside

abbrev Str.Terminated (str : Str) : Prop := (0 : UInt8) ∈ str.inside

/-- Without a terminator the loops leave the block. -/
def leadingTrim (str : Str) : Option Str :=
  if str.Terminated then
    let i := str.text.length
    let j := (str.text.takeWhile isBlank).length
    let length := i - j + 1
    some { size := length, bytes := (str.inside.drop j).take length, start := 0 }
  else none

def blockSize : Nat := 32

/-- The block for something that is stored at an index; its size is an `int`. -/
def grow (i size : Nat) : Option Nat :=
  if i % blockSize = 0 then
    if blockSize + i < 2 ^ 31 then some (blockSize + i) else none
  else some size

/-- What has been stored, the size of the block, and for each index that was stored to the size
that the block had then. -/
structure Filled where
  string : Bytes
  size : Nat
  stores : List (Nat × Nat)
  fp : Stream
  deriving DecidableEq, Repr

/-- The loop of `readLine`: at the end of the file `getc` tells `EOF`, which is -1 as a `char`. -/
def fill (eof : Bool) : Bytes → Bytes → Nat → List (Nat × Nat) → Option Filled
  | [], string, size, stores => do
      let size ← grow string.length size
      return ⟨string ++ [0], size, stores ++ [(string.length, size)], { rest := [], eof := true }⟩
  | byte :: rest, string, size, stores => do
      let size ← grow string.length size
      let stores := stores ++ [(string.length, size)]
      let c := byte.toInt8
      if c = 10 ∨ c = -1 then return ⟨string ++ [0], size, stores, { rest, eof }⟩
      else fill eof rest (string ++ [byte]) size stores

/-- The block that is filled, the line without leading blanks, and where the stream is then. -/
structure Line where
  filled : Filled
  line : Str
  deriving DecidableEq, Repr

def Filled.buffer (filled : Filled) : Str := ⟨filled.size, filled.string, 0⟩

def readLine (fp : Stream) : Option Line := do
  let filled ← fill fp.eof fp.rest [] 0 []
  let line ← leadingTrim filled.buffer
  return ⟨filled, line⟩

/-! The loop. -/

theorem ends_iff (byte : UInt8) : (byte.toInt8 = 10 ∨ byte.toInt8 = -1) ↔ endsLine byte = true := by
  have same : ∀ other : UInt8, byte.toInt8 = other.toInt8 ↔ byte = other := by
    intro other
    constructor
    · intro equal
      rw [← UInt8.toUInt8_toInt8 byte, equal, UInt8.toUInt8_toInt8]
    · exact congrArg UInt8.toInt8
  have newline : (10 : Int8) = (10 : UInt8).toInt8 := rfl
  have last : (-1 : Int8) = (255 : UInt8).toInt8 := rfl
  rw [newline, last, same, same, endsLine, Bool.or_eq_true, decide_eq_true_eq, decide_eq_true_eq]

/-- The index is inside the block, or the block is about to grow. -/
def Room (i size : Nat) : Prop := size % blockSize = 0 ∧ (i % blockSize = 0 ∨ i < size)

theorem grow_spec {i size : Nat} (room : Room i size) (most : i ≤ lineLimit) :
    (i = lineLimit ∧ grow i size = none) ∨
      (i < lineLimit ∧ ∃ larger, grow i size = some larger ∧ i < larger ∧ Room (i + 1) larger) := by
  have limit : lineLimit = 2 ^ 31 - 32 := rfl
  have whole : size % 32 = 0 := room.1
  have inside : i % 32 = 0 ∨ i < size := room.2
  unfold grow
  by_cases full : i % 32 = 0
  · rw [if_pos (show i % blockSize = 0 from full)]
    by_cases fits : 32 + i < 2 ^ 31
    · rw [if_pos (show blockSize + i < 2 ^ 31 from fits)]
      have next : Room (i + 1) (32 + i) := by
        constructor
        · change (32 + i) % 32 = 0
          omega
        · right
          omega
      exact .inr ⟨by omega, _, rfl, by change i < 32 + i; omega, next⟩
    · rw [if_neg (show ¬blockSize + i < 2 ^ 31 from fits)]
      exact .inl ⟨by omega, rfl⟩
  · rw [if_neg (show ¬i % blockSize = 0 from full)]
    have next : (i + 1) % 32 = 0 ∨ i + 1 < size := by omega
    exact .inr ⟨by omega, size, rfl, by omega, room.1, next⟩

/-- A line that is filled in: it ends with a NUL in its block, and nothing has been stored beyond
the block. -/
structure Filled.Holds (filled : Filled) (text : Bytes) (fp : Stream) : Prop where
  string : filled.string = text ++ [0]
  fits : filled.string.length ≤ filled.size
  inside : ∀ store ∈ filled.stores, store.1 < store.2
  fp : filled.fp = fp

def streamBehind (eof : Bool) : Bytes → Stream
  | [] => { rest := [], eof := true }
  | _ :: rest => { rest, eof }

def unended (rest : Bytes) : Bytes := rest.takeWhile (!endsLine ·)

theorem stores_inside {stores : List (Nat × Nat)} {i size : Nat} (safe : ∀ store ∈ stores, store.1 < store.2)
    (inside : i < size) : ∀ store ∈ stores ++ [(i, size)], store.1 < store.2 := by
  intro store member
  rcases List.mem_append.mp member with old | new
  · exact safe store old
  · rw [List.mem_singleton.mp new]
    exact inside

theorem fill_spec (eof : Bool) (rest string : Bytes) (size : Nat) (stores : List (Nat × Nat))
    (room : Room string.length size) (most : string.length ≤ lineLimit)
    (safe : ∀ store ∈ stores, store.1 < store.2) :
    if string.length + (unended rest).length < lineLimit then
      ∃ filled, fill eof rest string size stores = some filled ∧
        filled.Holds (string ++ unended rest) (streamBehind eof (rest.drop (unended rest).length))
    else fill eof rest string size stores = none := by
  induction rest generalizing string size stores with
  | nil =>
      have nothing : unended [] = [] := rfl
      rw [fill, nothing]
      rcases grow_spec room most with ⟨long, full⟩ | ⟨short, larger, grown, inside, _⟩
      · rw [full, if_neg (by rw [List.length_nil]; omega)]
        rfl
      · rw [grown, if_pos (by rw [List.length_nil]; omega)]
        refine ⟨_, rfl, ?_, ?_, stores_inside safe inside, rfl⟩
        · rw [List.append_nil]
        · rw [List.length_append, List.length_singleton]
          exact inside
  | cons byte rest ih =>
      rw [fill]
      have ends := ends_iff byte
      rcases grow_spec room most with ⟨long, full⟩ | ⟨short, larger, grown, inside, next⟩
      · rw [full, if_neg (by omega)]
        rfl
      · rw [grown, Option.bind_eq_bind, Option.bind_some]
        dsimp only
        by_cases last : endsLine byte = true
        · have nothing : unended (byte :: rest) = [] := by
            rw [unended, List.takeWhile_cons_of_neg (by simp [last])]
          rw [if_pos (ends.mpr last), nothing, if_pos (by rw [List.length_nil]; omega)]
          refine ⟨_, rfl, ?_, ?_, stores_inside safe inside, rfl⟩
          · rw [List.append_nil]
          · rw [List.length_append, List.length_singleton]
            exact inside
        · have more : unended (byte :: rest) = byte :: unended rest := by
            rw [unended, List.takeWhile_cons_of_pos (by simp [last])]
            rfl
          rw [if_neg (mt ends.mp last), more]
          have length : (string ++ [byte]).length = string.length + 1 := by
            rw [List.length_append, List.length_singleton]
          have behind := ih (string ++ [byte]) larger (stores ++ [(string.length, larger)])
            (length ▸ next) (by omega) (stores_inside safe inside)
          have total : (string ++ [byte]).length + (unended rest).length =
              string.length + (byte :: unended rest).length := by
            rw [length, List.length_cons]
            omega
          rw [total, List.append_assoc, List.singleton_append] at behind
          exact behind

/-! Strings that end where their blocks end. -/

theorem inside_of_holds {filled : Filled} {text : Bytes} {fp : Stream} (holds : filled.Holds text fp) :
    filled.buffer.inside = text ++ [0] := by
  rw [Str.inside, Filled.buffer, List.drop_zero, List.take_of_length_le holds.fits, holds.string]

theorem Str.terminated_of_inside {str : Str} {text : Bytes} (inside : str.inside = text ++ [0]) :
    str.Terminated := by
  rw [Str.Terminated, inside]
  exact List.mem_append_right _ (List.mem_singleton.mpr rfl)

theorem Str.text_of_inside {str : Str} {text : Bytes} (inside : str.inside = text ++ [0]) :
    str.text = cstring text := by
  rw [Str.text, inside]
  by_cases clean : (0 : UInt8) ∈ text
  · obtain ⟨rest, split⟩ := terminated_split clean
    rw [split, List.append_assoc, List.cons_append, cstring_append_nul (cstring_no_nul text),
      cstring_append_nul (cstring_no_nul text)]
  · rw [cstring_append_nul clean, cstring_eq_self clean]

theorem trim_clean {text : Bytes} (clean : (0 : UInt8) ∉ text) : (0 : UInt8) ∉ Iac.leadingTrim text :=
  fun member => clean ((List.dropWhile_suffix _).subset member)

theorem leadingTrim_spec {str : Str} (terminated : str.Terminated) :
    ∃ result, leadingTrim str = some result ∧ result.inside = Iac.leadingTrim str.text ++ [0] := by
  obtain ⟨rest, split⟩ := terminated_split terminated
  have split : str.inside = str.text ++ 0 :: rest := split
  have blanks : str.text.takeWhile isBlank ++ Iac.leadingTrim str.text = str.text :=
    List.takeWhile_append_dropWhile
  have lengths := congrArg List.length blanks
  rw [List.length_append] at lengths
  have trimmed : str.text.drop (str.text.takeWhile isBlank).length = Iac.leadingTrim str.text := by
    calc _ = (str.text.takeWhile isBlank ++ Iac.leadingTrim str.text).drop _ := by rw [blanks]
      _ = _ := List.drop_left
  have kept : (Iac.leadingTrim str.text ++ 0 :: rest).take
      (str.text.length - (str.text.takeWhile isBlank).length + 1) = Iac.leadingTrim str.text ++ [0] := by
    have count : str.text.length - (str.text.takeWhile isBlank).length + 1 =
        (Iac.leadingTrim str.text ++ [0]).length := by
      rw [List.length_append, List.length_singleton]
      omega
    have front : Iac.leadingTrim str.text ++ 0 :: rest = (Iac.leadingTrim str.text ++ [0]) ++ rest :=
      List.append_cons _ _ _
    rw [count, front, List.take_left]
  have copied : (str.inside.drop (str.text.takeWhile isBlank).length).take
      (str.text.length - (str.text.takeWhile isBlank).length + 1) = Iac.leadingTrim str.text ++ [0] := by
    rw [split, List.drop_append_of_le_length (by omega), trimmed, kept]
  unfold leadingTrim
  rw [if_pos terminated]
  refine ⟨_, rfl, ?_⟩
  rw [Str.inside, List.drop_zero]
  dsimp only
  rw [List.take_take, Nat.min_self, copied]

/-! A call. -/

theorem readLine_spec (fp : Stream) :
    if (unended fp.rest).length < lineLimit then
      ∃ read, readLine fp = some read ∧
        read.filled.Holds (unended fp.rest) (streamBehind fp.eof (fp.rest.drop (unended fp.rest).length)) ∧
        read.line.inside = lineOf (unended fp.rest) ++ [0]
    else readLine fp = none := by
  have filling := fill_spec fp.eof fp.rest [] 0 [] ⟨rfl, .inl rfl⟩ (Nat.zero_le _)
    (fun _ member => absurd member List.not_mem_nil)
  rw [List.length_nil, Nat.zero_add, List.nil_append] at filling
  unfold readLine
  by_cases short : (unended fp.rest).length < lineLimit
  · rw [if_pos short] at filling ⊢
    obtain ⟨filled, found, holds⟩ := filling
    have inside := inside_of_holds holds
    obtain ⟨line, trimmed, text⟩ := leadingTrim_spec (Str.terminated_of_inside inside)
    rw [Str.text_of_inside inside] at text
    rw [found, Option.bind_eq_bind, Option.bind_some, trimmed]
    exact ⟨_, rfl, holds, text⟩
  · rw [if_neg short] at filling ⊢
    rw [filling]
    rfl

theorem Line.text_eq {read : Line} {segment : Bytes} (inside : read.line.inside = lineOf segment ++ [0]) :
    read.line.text = lineOf segment := by
  have clean : (0 : UInt8) ∉ lineOf segment := trim_clean (cstring_no_nul segment)
  rw [Str.text_of_inside inside, cstring_eq_self clean]

theorem readLine_refines (fp : Stream) :
    (readLine fp).map (fun read => (read.line.text, read.filled.fp)) = Iac.readLine fp := by
  have spec := readLine_spec fp
  have same : fp.rest.takeWhile (!endsLine ·) = unended fp.rest := rfl
  unfold Iac.readLine
  dsimp only
  rw [same]
  by_cases short : (unended fp.rest).length < lineLimit
  · rw [if_pos short] at spec ⊢
    obtain ⟨read, found, holds, inside⟩ := spec
    rw [found, Option.map_some, read.text_eq inside, holds.fp]
    cases fp.rest.drop (unended fp.rest).length with
    | nil => rfl
    | cons => rfl
  · rw [if_neg short] at spec ⊢
    rw [spec]
    rfl

/-! A whole file. -/

/-- Calls of `readLine` until `feof` holds, with what they return and everything they store to. -/
inductive AllLines : Stream → List Bytes → List (Nat × Nat) → Prop
  | last {fp : Stream} {read : Line} (result : readLine fp = some read)
      (atEnd : read.filled.fp.eof = true) : AllLines fp [read.line.text] read.filled.stores
  | more {fp : Stream} {read : Line} {lines : List Bytes} {stores : List (Nat × Nat)}
      (result : readLine fp = some read) (unread : read.filled.fp.eof = false)
      (behind : AllLines read.filled.fp lines stores) :
      AllLines fp (read.line.text :: lines) (read.filled.stores ++ stores)

/-- The lines are those between the newlines, and every index is inside its block. -/
def SplitFaithfully (file : Bytes) : Prop :=
  ∃ lines stores, AllLines { rest := file, eof := false } lines stores ∧
    lines = linesOf file ∧ ∀ store ∈ stores, store.1 < store.2

section

variable {fp : Stream} {segment : Bytes} {more rest : List Bytes}

theorem readLine_segment (delivers : Delivers fp (segment :: more)) :
    (segment.length < lineLimit ∧ ∃ read, readLine fp = some read ∧ read.line.text = lineOf segment ∧
      (∀ store ∈ read.filled.stores, store.1 < store.2) ∧ Delivers read.filled.fp more) ∨
    readLine fp = none ∧ lineLimit ≤ segment.length := by
  have refines := readLine_refines fp
  have spec := readLine_spec fp
  rcases delivers_readLine delivers with ⟨_, ⟨short, next, found, later⟩ | ⟨long, full⟩⟩
  · rw [found] at refines
    obtain ⟨read, result, same⟩ := Option.map_eq_some_iff.mp refines
    obtain ⟨text, stream⟩ := Prod.mk.inj same
    split at spec
    · obtain ⟨other, again, holds, _⟩ := spec
      cases result.symm.trans again
      exact .inl ⟨short, read, result, text, holds.inside, stream ▸ later⟩
    · rw [spec] at result
      contradiction
  · rw [full] at refines
    exact .inr ⟨Option.map_eq_none_iff.mp refines, long⟩

theorem delivers_eof (delivers : Delivers fp rest) : fp.eof = true ↔ rest = [] := by
  rcases delivers with ⟨atEnd, nothing⟩ | ⟨unread, shape⟩
  · exact iff_of_true atEnd nothing
  · rw [segments_eq] at shape
    exact iff_of_false (by rw [unread]; decide) (by rw [shape]; exact List.cons_ne_nil _ _)

theorem allLines_exists (delivers : Delivers fp rest) (unread : fp.eof = false)
    (short : ∀ segment ∈ rest, segment.length < lineLimit) :
    ∃ stores, AllLines fp (rest.map lineOf) stores ∧ ∀ store ∈ stores, store.1 < store.2 := by
  induction rest generalizing fp with
  | nil =>
      have atEnd := (delivers_eof delivers).mpr rfl
      rw [unread] at atEnd
      contradiction
  | cons segment more ih =>
      rcases readLine_segment delivers with ⟨_, read, result, text, inside, later⟩ | ⟨_, long⟩
      · rw [List.map_cons, ← text]
        cases ends : read.filled.fp.eof with
        | true =>
            have nothing := (delivers_eof later).mp ends
            rw [nothing]
            exact ⟨_, .last result ends, inside⟩
        | false =>
            obtain ⟨stores, all, safe⟩ := ih later ends fun other member =>
              short other (List.mem_cons_of_mem _ member)
            refine ⟨_, .more result ends all, ?_⟩
            intro store member
            exact (List.mem_append.mp member).elim (inside store) (safe store)
      · have fits := short segment List.mem_cons_self
        omega

theorem readLine_delivered {read : Line} (result : readLine fp = some read) (delivers : Delivers fp rest)
    (unread : fp.eof = false) : ∃ segment more, rest = segment :: more ∧ segment.length < lineLimit ∧
      read.line.text = lineOf segment ∧ Delivers read.filled.fp more := by
  cases rest with
  | nil =>
      have ended := (delivers_eof delivers).mpr rfl
      rw [unread] at ended
      contradiction
  | cons segment more =>
      rcases readLine_segment delivers with ⟨short, other, again, text, _, later⟩ | ⟨full, _⟩
      · cases result.symm.trans again
        exact ⟨segment, more, rfl, short, text, later⟩
      · rw [full] at result
        contradiction

theorem AllLines.segments {lines : List Bytes} {stores : List (Nat × Nat)} (all : AllLines fp lines stores)
    (delivers : Delivers fp rest) (unread : fp.eof = false) :
    lines = rest.map lineOf ∧ ∀ segment ∈ rest, segment.length < lineLimit := by
  induction all generalizing rest with
  | @last fp read result atEnd =>
      obtain ⟨segment, more, rfl, short, text, later⟩ := readLine_delivered result delivers unread
      have nothing := (delivers_eof later).mp atEnd
      rw [nothing, text]
      exact ⟨rfl, List.forall_mem_singleton.mpr short⟩
  | @more fp read lines stores result ends _ ih =>
      obtain ⟨segment, more, rfl, short, text, later⟩ := readLine_delivered result delivers unread
      obtain ⟨rfl, shorts⟩ := ih later ends
      rw [text]
      exact ⟨rfl, List.forall_mem_cons.mpr ⟨short, shorts⟩⟩

end

/-! Where the lines end. -/

theorem splitOnP_length {α : Type} (p : α → Bool) (items : List α) :
    (items.splitOnP p).length = items.countP p + 1 := by
  induction items with
  | nil => rfl
  | cons item rest ih =>
      rw [List.splitOnP_cons_eq_if_modifyHead]
      split
      · rename_i ends
        rw [List.length_cons, ih, List.countP_cons_of_pos ends]
      · rename_i goes
        rw [List.length_modifyHead, ih, List.countP_cons_of_neg goes]

theorem segments_more {file : Bytes} (wide : (255 : UInt8) ∈ file) :
    (file.splitOn 10).length < (segments file).length := by
  obtain ⟨before, after, rfl⟩ := List.append_of_mem wide
  have less : ∀ bytes : Bytes, bytes.countP (· == 10) ≤ bytes.countP endsLine := by
    intro bytes
    apply List.countP_mono_left
    intro byte _ newline
    rw [endsLine, decide_eq_true (eq_of_beq newline), Bool.true_or]
  have first := less before
  have last := less after
  have no_newline : ¬((255 : UInt8) == 10) = true := by decide
  have ends : endsLine 255 = true := by decide
  rw [segments, List.splitOn_eq_splitOnP, splitOnP_length, splitOnP_length, List.countP_append,
    List.countP_append, @List.countP_cons_of_neg _ (· == 10) _ _ no_newline, List.countP_cons_of_pos ends]
  omega

/-- A byte 255 is taken for the end of a line. -/
theorem splitFaithfully_iff {file : Bytes} (clean : (0 : UInt8) ∉ file) : SplitFaithfully file ↔
    (255 : UInt8) ∉ file ∧ ∀ segment ∈ file.splitOn 10, segment.length < lineLimit := by
  have delivers : Delivers { rest := file, eof := false } (segments file) := .inr ⟨rfl, rfl⟩
  constructor
  · rintro ⟨lines, stores, all, faithful, _⟩
    obtain ⟨pieces, short⟩ := all.segments delivers rfl
    have narrow : (255 : UInt8) ∉ file := by
      intro wide
      have more := segments_more wide
      have lengths := congrArg List.length (pieces.symm.trans faithful)
      rw [linesOf, List.length_map, List.length_map] at lengths
      omega
    exact ⟨narrow, segments_splitOn narrow ▸ short⟩
  · rintro ⟨narrow, short⟩
    rw [← segments_splitOn narrow] at short
    obtain ⟨stores, all, safe⟩ := allLines_exists delivers rfl short
    have lines : (segments file).map lineOf = linesOf file := by
      rw [linesOf, ← segments_splitOn narrow]
      exact readLines_clean clean
    exact ⟨_, stores, all, lines, safe⟩

theorem splitFaithfully_indented : (0 : UInt8) ∉ ascii "server\n\t x\n" ∧
    SplitFaithfully (ascii "server\n\t x\n") := by
  have clean : (0 : UInt8) ∉ ascii "server\n\t x\n" := by decide
  refine ⟨clean, (splitFaithfully_iff clean).mpr ⟨by decide, ?_⟩⟩
  have pieces : (ascii "server\n\t x\n").splitOn 10 = [ascii "server", ascii "\t x", []] := by decide
  rw [pieces]
  decide

/-- One line with a byte 255 comes as two. -/
theorem wide_line_split : ¬∀ file : Bytes, (0 : UInt8) ∉ file → SplitFaithfully file := by
  intro faithful
  obtain ⟨lines, stores, all, same, _⟩ := faithful [97, 255, 98] (by decide)
  have pieces : segments [97, 255, 98] = [[97], [98]] := by decide
  have delivers : Delivers { rest := [97, 255, 98], eof := false } [[97], [98]] := .inr ⟨rfl, pieces.symm⟩
  obtain ⟨rfl, _⟩ := all.segments delivers rfl
  exact absurd same (by decide)

end Iac.Blockwise
