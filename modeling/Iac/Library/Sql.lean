import Iac.Library.Text

/-! The part of SQL text that a small client program issues: tokens, scripts and
the three statement forms `INSERT`, `UPDATE` and `SELECT`. -/

namespace Sql

open CText

/-! Tokens. -/

inductive Token
  | word (name : Bytes)
  | number (text : Bytes)
  | quoted (content : Bytes)
  | single (content : Bytes)
  | comma | opening | closing | equals | minus | semicolon
  | symbol (byte : UInt8)
  | illegal
  deriving DecidableEq, Repr

def doubleQuote : UInt8 := 34
def singleQuote : UInt8 := 39
def backQuote : UInt8 := 96
def newline : UInt8 := 10

def isSpace (byte : UInt8) : Bool := byte = 32 || byte = 9 || byte = 10 || byte = 12 || byte = 13

def isLetter (byte : UInt8) : Bool :=
  65 ≤ byte && byte ≤ 90 || 97 ≤ byte && byte ≤ 122 || byte = 95 || 128 ≤ byte

def isWordByte (byte : UInt8) : Bool := isLetter byte || isDigit byte || byte = 36

def isNumberByte (byte : UInt8) : Bool := isDigit byte || byte = 46

def isQuote (byte : UInt8) : Bool :=
  byte = doubleQuote || byte = singleQuote || byte = backQuote

/-- Where the scanner stands: between tokens, or inside one with what it has so far. -/
inductive Scan
  | blank
  | word (soFar : Bytes)
  | number (soFar : Bytes)
  | quoted (mark : UInt8) (soFar : Bytes)
  /-- just behind a quotation mark inside quotes: doubled, or the end -/
  | mark (mark : UInt8) (soFar : Bytes)
  | hyphen
  | comment
  deriving DecidableEq, Repr

def punctuation (byte : UInt8) : Token :=
  if byte = 44 then .comma
  else if byte = 40 then .opening
  else if byte = 41 then .closing
  else if byte = 61 then .equals
  else if byte = 59 then .semicolon
  else .symbol byte

/-- The first byte of a token, or a byte between tokens. -/
def start (byte : UInt8) : Scan × List Token :=
  if isSpace byte then (.blank, [])
  else if isQuote byte then (.quoted byte [], [])
  else if byte = hyphen then (.hyphen, [])
  else if isDigit byte then (.number [byte], [])
  else if isLetter byte then (.word [byte], [])
  else (.blank, [punctuation byte])

def upper (byte : UInt8) : UInt8 := if 97 ≤ byte && byte ≤ 122 then byte - 32 else byte

def keyword (text : String) (name : Bytes) : Bool := name.map upper = ascii text

def isKeyword (name : Bytes) : Bool :=
  ["INSERT", "INTO", "VALUES", "UPDATE", "SET", "SELECT", "FROM", "WHERE"].any (keyword · name)

/-- A name between back quotes is never a keyword. -/
def quotedToken (mark : UInt8) (content : Bytes) : Token :=
  if mark = doubleQuote then .quoted content
  else if mark = singleQuote then .single content
  else if isKeyword content then .symbol mark
  else .word content

def scanByte : Scan → UInt8 → Scan × List Token
  | .blank, byte => start byte
  | .word soFar, byte =>
      if isWordByte byte then (.word (soFar ++ [byte]), [])
      else ((start byte).1, .word soFar :: (start byte).2)
  | .number soFar, byte =>
      if isNumberByte byte then (.number (soFar ++ [byte]), [])
      else if isWordByte byte then (.word [byte], [.illegal])
      else ((start byte).1, .number soFar :: (start byte).2)
  | .quoted mark soFar, byte =>
      if byte = mark then (.mark mark soFar, []) else (.quoted mark (soFar ++ [byte]), [])
  | .mark mark soFar, byte =>
      if byte = mark then (.quoted mark (soFar ++ [mark]), [])
      else ((start byte).1, quotedToken mark soFar :: (start byte).2)
  | .hyphen, byte =>
      if byte = CText.hyphen then (.comment, [])
      else ((start byte).1, .minus :: (start byte).2)
  | .comment, byte => if byte = newline then (.blank, []) else (.comment, [])

def scanEnd : Scan → List Token
  | .blank | .comment => []
  | .word soFar => [.word soFar]
  | .number soFar => [.number soFar]
  | .quoted _ _ => [.illegal]
  | .mark mark soFar => [quotedToken mark soFar]
  | .hyphen => [.minus]

def scan : Scan → Bytes → List Token
  | state, [] => scanEnd state
  | state, byte :: rest => (scanByte state byte).2 ++ scan (scanByte state byte).1 rest

def tokens (text : Bytes) : List Token := scan .blank text

/-! Statements. -/

inductive Value
  | integer (value : Int)
  | real (text : Bytes)
  | text (content : Bytes)
  deriving DecidableEq, Repr

/-- A literal that is stored as it is written. -/
def Value.Plain : Value → Prop
  | .integer value => -2 ^ 63 ≤ value ∧ value < 2 ^ 63
  | .real written => ∃ negative whole places, written = signed negative (whole ++ 46 :: places) ∧
      whole ≠ [] ∧ places ≠ [] ∧ whole.all isDigit = true ∧ places.all isDigit = true
  | .text _ => True

inductive Statement
  | insert (table : Bytes) (columns : List Bytes) (row : List Value)
  /-- `UPDATE table SET target = source - subtracted WHERE condition` -/
  | update (table target source : Bytes) (subtracted : Nat) (condition : Option (Bytes × Int))
  | select (column table : Bytes) (condition : Option (Bytes × Int))
  deriving DecidableEq, Repr

def numberValue (negative : Bool) (text : Bytes) : Value :=
  if text.all isDigit then .integer (if negative then -(numeral text : Int) else numeral text)
  else .real (if negative then hyphen :: text else text)

def names : List Token → Option (List Bytes × List Token)
  | .word name :: .comma :: rest => (names rest).map fun (more, rest) => (name :: more, rest)
  | .word name :: .closing :: rest => some ([name], rest)
  | _ => none

def values : List Token → Option (List Value × List Token)
  | .number text :: .comma :: rest =>
      (values rest).map fun (more, rest) => (numberValue false text :: more, rest)
  | .minus :: .number text :: .comma :: rest =>
      (values rest).map fun (more, rest) => (numberValue true text :: more, rest)
  | .quoted content :: .comma :: rest =>
      (values rest).map fun (more, rest) => (.text content :: more, rest)
  | .number text :: .closing :: rest => some ([numberValue false text], rest)
  | .minus :: .number text :: .closing :: rest => some ([numberValue true text], rest)
  | .quoted content :: .closing :: rest => some ([.text content], rest)
  | _ => none

def condition : List Token → Option (Option (Bytes × Int))
  | [] => some none
  | [.word clause, .word column, .equals, .number text] =>
      if keyword "WHERE" clause && text.all isDigit then some (some (column, numeral text)) else none
  | [.word clause, .word column, .equals, .minus, .number text] =>
      if keyword "WHERE" clause && text.all isDigit then
        some (some (column, -(numeral text : Int)))
      else none
  | _ => none

def insertBody : List Token → Option Statement
  | .word into :: .word table :: .opening :: rest =>
      match keyword "INTO" into, names rest with
      | true, some (columns, .word clause :: .opening :: rest) =>
          match keyword "VALUES" clause, values rest with
          | true, some (row, []) => some (.insert table columns row)
          | _, _ => none
      | _, _ => none
  | _ => none

def updateBody : List Token → Option Statement
  | .word table :: .word set :: .word target :: .equals :: .word source :: .minus ::
      .number text :: rest =>
      if keyword "SET" set && text.all isDigit then
        (condition rest).map (.update table target source (numeral text))
      else none
  | .word table :: .word set :: .word target :: .equals :: .word source :: rest =>
      if keyword "SET" set then (condition rest).map (.update table target source 0) else none
  | _ => none

def selectBody : List Token → Option Statement
  | .word column :: .word from_ :: .word table :: rest =>
      if keyword "FROM" from_ then (condition rest).map (.select column table) else none
  | _ => none

/-- A statement of one of the three forms; nothing for any other text. -/
def statement : List Token → Option Statement
  | .word head :: rest =>
      if keyword "INSERT" head then insertBody rest
      else if keyword "UPDATE" head then updateBody rest
      else if keyword "SELECT" head then selectBody rest
      else none
  | _ => none

/-- The statements of a text, split at semicolons; empty ones are skipped. -/
def script (tokens : List Token) : List (List Token) :=
  (tokens.splitOn .semicolon).filter (· ≠ [])

def parse (text : Bytes) : List (Option Statement) := (script (tokens text)).map statement

/-! Scanning one token at a time. -/

theorem scan_number (soFar : Bytes) {text : Bytes}
    (digits : ∀ byte ∈ text, isNumberByte byte = true) (rest : Bytes) :
    scan (.number soFar) (text ++ rest) = scan (.number (soFar ++ text)) rest := by
  induction text generalizing soFar with
  | nil => simp
  | cons byte text ih =>
      have here := digits byte (by simp)
      have later := ih (soFar ++ [byte]) fun byte member => digits byte (by simp [member])
      simpa [scan, scanByte, here] using later

theorem scan_quoted (mark : UInt8) (soFar : Bytes) {text : Bytes} (clean : mark ∉ text)
    (rest : Bytes) :
    scan (.quoted mark soFar) (text ++ rest) = scan (.quoted mark (soFar ++ text)) rest := by
  induction text generalizing soFar with
  | nil => simp
  | cons byte text ih =>
      simp only [List.mem_cons, not_or] at clean
      have different : byte ≠ mark := Ne.symm clean.1
      simpa [scan, scanByte, different] using ih (soFar ++ [byte]) clean.2

theorem scan_comment {text : Bytes} (oneLine : newline ∉ text) : scan .comment text = [] := by
  induction text with
  | nil => rfl
  | cons byte text ih =>
      simp only [List.mem_cons, not_or] at oneLine
      simp [scan, scanByte, Ne.symm oneLine.1, ih oneLine.2]

/-- A numeral as it stands in a statement: a digit, then digits and points. -/
structure Numeral (text : Bytes) : Prop where
  head : ∃ first rest, text = first :: rest ∧ isDigit first = true
  all : ∀ byte ∈ text, isNumberByte byte = true

theorem start_digit {byte : UInt8} (isNumber : isDigit byte = true) :
    start byte = (.number [byte], []) := by
  have bounds : 48 ≤ byte ∧ byte ≤ 57 := by simpa [isDigit] using isNumber
  have cases : ∀ value < 10, start (UInt8.ofNat (48 + value)) = (.number [UInt8.ofNat (48 + value)], []) := by
    decide
  have lower : 48 ≤ byte.toNat := UInt8.le_iff_toNat_le.mp bounds.1
  have upperBound : byte.toNat ≤ 57 := UInt8.le_iff_toNat_le.mp bounds.2
  have equal : byte = UInt8.ofNat (48 + (byte.toNat - 48)) := by
    apply UInt8.toNat_inj.mp
    simp
    omega
  rw [equal]
  exact cases (byte.toNat - 48) (by omega)

/-- Bytes that end a number without making the text illegal. -/
def endsNumber (byte : UInt8) : Bool := !isNumberByte byte && !isWordByte byte

/-- The tokens of a printed number. -/
def signedTokens (negative : Bool) (text : Bytes) : List Token :=
  if negative then [.minus, .number text] else [.number text]

theorem scan_numeral_then {text : Bytes} {next : UInt8} (ends : endsNumber next = true)
    (rest : Bytes) :
    scan (.number text) (next :: rest) = .number text :: scan .blank (next :: rest) := by
  simp only [endsNumber, Bool.and_eq_true, Bool.not_eq_true'] at ends
  simp [scan, scanByte, ends.1, ends.2]

theorem scan_signed (negative : Bool) {text : Bytes} (shape : Numeral text) (rest : Bytes) :
    scan .blank (signed negative text ++ rest) =
      (if negative then [.minus] else []) ++ scan (.number text) rest := by
  obtain ⟨first, tail, rfl, firstDigit⟩ := shape.head
  have notHyphen : first ≠ hyphen := by
    rintro rfl
    exact absurd firstDigit (by decide)
  have tailDigits : ∀ byte ∈ tail, isNumberByte byte = true :=
    fun byte member => shape.all byte (by simp [member])
  have scanned := scan_number [first] tailDigits rest
  cases negative
  · simpa [signed, scan, scanByte, start_digit firstDigit] using scanned
  · have opened : scan .blank (signed true (first :: tail) ++ rest) =
        scan .hyphen (first :: tail ++ rest) := rfl
    rw [opened]
    simpa [scan, scanByte, notHyphen, start_digit firstDigit] using scanned

theorem scan_signed_then (negative : Bool) {text : Bytes} {next : UInt8} (shape : Numeral text)
    (ends : endsNumber next = true) (rest : Bytes) :
    scan .blank (signed negative text ++ next :: rest) =
      signedTokens negative text ++ scan .blank (next :: rest) := by
  rw [scan_signed negative shape, scan_numeral_then ends]
  cases negative <;> rfl

theorem scan_signed_end (negative : Bool) {text : Bytes} (shape : Numeral text) :
    scan .blank (signed negative text) = signedTokens negative text := by
  have scanned := scan_signed negative shape []
  rw [List.append_nil] at scanned
  rw [scanned]
  cases negative <;> rfl

theorem Numeral.take {text : Bytes} (shape : Numeral text) {width : Nat} (positive : 1 ≤ width) :
    Numeral (text.take width) := by
  obtain ⟨first, tail, rfl, firstDigit⟩ := shape.head
  obtain ⟨more, rfl⟩ : ∃ more, width = more + 1 := ⟨width - 1, by omega⟩
  refine ⟨⟨first, tail.take more, rfl, firstDigit⟩, ?_⟩
  intro byte member
  exact shape.all byte (List.mem_of_mem_take member)

theorem Numeral.append {left right : Bytes} (leftShape : Numeral left) (rightShape : Numeral right) :
    Numeral (left ++ right) := by
  obtain ⟨first, tail, rfl, firstDigit⟩ := leftShape.head
  refine ⟨⟨first, tail ++ right, rfl, firstDigit⟩, ?_⟩
  intro byte member
  rcases List.mem_append.mp member with inLeft | inRight
  · exact leftShape.all byte inLeft
  · exact rightShape.all byte inRight

theorem scan_quoted_close {content : Bytes} {next : UInt8} (clean : doubleQuote ∉ content)
    (different : next ≠ doubleQuote) (rest : Bytes) :
    scan .blank (doubleQuote :: content ++ doubleQuote :: next :: rest) =
      .quoted content :: scan .blank (next :: rest) := by
  have opened : scan .blank (doubleQuote :: content ++ doubleQuote :: next :: rest) =
      scan (.quoted doubleQuote []) (content ++ doubleQuote :: next :: rest) := rfl
  rw [opened, scan_quoted doubleQuote [] clean]
  simp [scan, scanByte, different, quotedToken]

theorem decimal_numeral (value : Nat) : Numeral (decimal value) := by
  have digits := decimal_digits value
  refine ⟨?_, fun byte member => by simp [isNumberByte, digits byte member]⟩
  cases shape : decimal value with
  | nil => exact absurd shape (decimal_ne_nil value)
  | cons first rest => exact ⟨first, rest, rfl, digits first (by simp [shape])⟩

theorem scan_itoa {next : UInt8} (value : Int) (ends : endsNumber next = true) (rest : Bytes) :
    scan .blank (itoa value ++ next :: rest) =
      signedTokens (value < 0) (decimal value.natAbs) ++ scan .blank (next :: rest) :=
  scan_signed_then _ (decimal_numeral _) ends rest

/-! Numbers as values. -/

theorem numberValue_decimal (negative : Bool) (value : Nat) :
    numberValue negative (decimal value) = .integer (if negative then -(value : Int) else value) := by
  have digits : (decimal value).all isDigit = true := List.all_eq_true.mpr (decimal_digits value)
  simp [numberValue, digits, numeral_decimal]

theorem numberValue_itoa (value : Int) :
    numberValue (value < 0) (decimal value.natAbs) = .integer value := by
  rw [numberValue_decimal]
  by_cases negative : value < 0
  · have magnitude : -(value.natAbs : Int) = value := by omega
    simp only [negative, decide_true, if_true, magnitude]
  · have magnitude : (value.natAbs : Int) = value := by omega
    simp only [negative, decide_false, Bool.false_eq_true, if_false, magnitude]

theorem values_signed_comma (negative : Bool) (text : Bytes) (rest : List Token) :
    values (signedTokens negative text ++ .comma :: rest) =
      (values rest).map fun (more, rest) => (numberValue negative text :: more, rest) := by
  cases negative <;> rfl

theorem values_signed_closing (negative : Bool) (text : Bytes) (rest : List Token) :
    values (signedTokens negative text ++ .closing :: rest) =
      some ([numberValue negative text], rest) := by
  cases negative <;> rfl

theorem values_signed_quoted (negative : Bool) (text content : Bytes) (rest : List Token) :
    values (signedTokens negative text ++ .quoted content :: rest) = none := by
  cases negative <;> rfl

theorem values_quoted_comma (content : Bytes) (rest : List Token) :
    values (.quoted content :: .comma :: rest) =
      (values rest).map fun (more, rest) => (.text content :: more, rest) := rfl

theorem values_signed_illegal (negative : Bool) (text : Bytes) (rest : List Token) :
    values (signedTokens negative text ++ .illegal :: rest) = none := by
  cases negative <;> rfl

theorem values_quoted_head {content : Bytes} {rest : List Token} {row : List Value}
    {behind : List Token} (read : values (.quoted content :: rest) = some (row, behind)) :
    ∃ more, row = .text content :: more := by
  unfold values at read
  split at read
  · rename_i shape
    simp at shape
  · rename_i shape
    simp at shape
  · rename_i same
    simp only [List.cons.injEq, Token.quoted.injEq] at same
    simp only [Option.map_eq_some_iff, Prod.mk.injEq] at read
    obtain ⟨⟨more, _⟩, _, equal, _⟩ := read
    rw [same.1]
    exact ⟨more, equal.symm⟩
  · rename_i shape
    simp at shape
  · rename_i shape
    simp at shape
  · rename_i same
    simp only [List.cons.injEq, Token.quoted.injEq] at same
    simp only [Option.some.injEq, Prod.mk.injEq] at read
    rw [same.1]
    exact ⟨[], read.1.symm⟩
  · contradiction

theorem values_signed_end (negative : Bool) (text : Bytes) :
    values (signedTokens negative text) = none := by
  cases negative <;> rfl

theorem condition_itoa {clause column : Bytes} (isWhere : keyword "WHERE" clause = true)
    (value : Int) :
    condition (.word clause :: .word column :: .equals ::
      signedTokens (value < 0) (decimal value.natAbs)) = some (some (column, value)) := by
  have digits : (decimal value.natAbs).all isDigit = true :=
    List.all_eq_true.mpr (decimal_digits _)
  by_cases negative : value < 0
  · have magnitude : -(value.natAbs : Int) = value := by omega
    simp only [signedTokens, negative, decide_true, if_true, condition, isWhere, digits,
      Bool.and_self, numeral_decimal, magnitude]
  · have magnitude : (value.natAbs : Int) = value := by omega
    simp only [signedTokens, negative, decide_false, Bool.false_eq_true, if_false, condition,
      isWhere, digits, Bool.and_self, if_true, numeral_decimal, magnitude]

/-- Tokens that are no parenthesis to close, no end of the statement and no operator. -/
def Token.isPlain : Token → Bool
  | .closing | .semicolon | .symbol _ | .illegal => false
  | _ => true

def Token.isNumeric : Token → Bool
  | .number _ | .minus | .comma => true
  | _ => false

theorem mem_signedTokens {negative : Bool} {text : Bytes} {token : Token}
    (member : token ∈ signedTokens negative text) : token = .minus ∨ token = .number text := by
  cases negative with
  | true => exact (List.mem_cons.mp member).imp_right List.mem_singleton.mp
  | false => exact .inr (List.mem_singleton.mp member)

theorem signedTokens_plain (negative : Bool) (text : Bytes) :
    ∀ token ∈ signedTokens negative text, token.isPlain = true := by
  intro token member
  rcases mem_signedTokens member with rfl | rfl
  · rfl
  · rfl

theorem signedTokens_numeric (negative : Bool) (text : Bytes) :
    ∀ token ∈ signedTokens negative text, token.isNumeric = true := by
  intro token member
  rcases mem_signedTokens member with rfl | rfl
  · rfl
  · rfl

theorem count_comma_signed (negative : Bool) (text : Bytes) :
    (signedTokens negative text).count .comma = 0 := by
  cases negative <;> rfl

theorem semicolon_not_signed (negative : Bool) (text : Bytes) :
    Token.semicolon ∉ signedTokens negative text := by
  cases negative <;> simp [signedTokens]

/-! Scripts of one statement. -/

theorem script_single {statement : List Token} (nonempty : statement ≠ [])
    (whole : Token.semicolon ∉ statement) : script statement = [statement] := by
  have split : statement.splitOn .semicolon = [statement] := by
    apply List.splitOnP_eq_singleton
    intro token member
    simpa using fun equal : token = .semicolon => whole (equal ▸ member)
  simp [script, split, nonempty]

theorem splitOn_start {start : List Token} (clean : Token.semicolon ∉ start) (rest : List Token) :
    (start ++ rest).splitOn .semicolon = (rest.splitOn .semicolon).modifyHead (start ++ ·) := by
  induction start with
  | nil =>
      rw [List.nil_append]
      cases rest.splitOn Token.semicolon <;> rfl
  | cons first start ih =>
      simp only [List.mem_cons, not_or] at clean
      have different : first ≠ .semicolon := Ne.symm clean.1
      rw [List.cons_append, List.splitOn_cons_eq_if_modifyHead, ih clean.2]
      cases rest.splitOn Token.semicolon <;> simp [different]

theorem script_head {start : List Token} {token : Token} (clean : Token.semicolon ∉ start)
    (whole : token ≠ .semicolon) (rest : List Token) :
    ∃ piece more, script (start ++ token :: rest) = (start ++ token :: piece) :: more := by
  obtain ⟨piece, more, split⟩ : ∃ piece more, rest.splitOn .semicolon = piece :: more :=
    List.exists_cons_of_ne_nil (List.splitOn_ne_nil _ _)
  have step : (start ++ token :: rest).splitOn .semicolon = (start ++ token :: piece) :: more := by
    rw [splitOn_start clean, List.splitOn_cons_eq_if_modifyHead, split]
    simp [whole]
  refine ⟨piece, more.filter (· ≠ []), ?_⟩
  simp [script, step]

/-! `INSERT` statements. -/

/-- The statement that a row of values completes. -/
def completeRow (table : Bytes) (columns : List Bytes) (rest : List Token) : Option Statement :=
  match values rest with
  | some (row, []) => some (.insert table columns row)
  | _ => none

def columnTokens : List Bytes → List Token
  | [] => []
  | [name] => [.word name, .closing]
  | name :: rest => .word name :: .comma :: columnTokens rest

theorem names_columnTokens {columns : List Bytes} (nonempty : columns ≠ []) (rest : List Token) :
    names (columnTokens columns ++ rest) = some (columns, rest) := by
  induction columns with
  | nil => contradiction
  | cons name more ih =>
      cases more with
      | nil => simp [columnTokens, names]
      | cons next more => simp [columnTokens, names, ih]

theorem semicolon_not_columns (columns : List Bytes) : Token.semicolon ∉ columnTokens columns := by
  induction columns with
  | nil => simp [columnTokens]
  | cons name more ih =>
      cases more with
      | nil => simp [columnTokens]
      | cons next more => simpa [columnTokens] using ih

def insertTokens (table : Bytes) (columns : List Bytes) : List Token :=
  [.word (ascii "INSERT"), .word (ascii "INTO"), .word table, .opening] ++ columnTokens columns ++
    [.word (ascii "VALUES"), .opening]

theorem semicolon_not_insert (table : Bytes) (columns : List Bytes) :
    Token.semicolon ∉ insertTokens table columns := by
  simp [insertTokens, semicolon_not_columns]

theorem statement_insertTokens (table : Bytes) {columns : List Bytes} (nonempty : columns ≠ [])
    (rest : List Token) :
    statement (insertTokens table columns ++ rest) = completeRow table columns rest := by
  have isInsert : keyword "INSERT" (ascii "INSERT") = true := by decide
  have isInto : keyword "INTO" (ascii "INTO") = true := by decide
  have isValues : keyword "VALUES" (ascii "VALUES") = true := by decide
  simp only [insertTokens, List.cons_append, List.nil_append, List.append_assoc, statement, isInsert,
    if_true, insertBody, isInto, names_columnTokens nonempty, isValues, completeRow]
  cases values rest with
  | none => rfl
  | some result =>
      obtain ⟨row, rest⟩ := result
      cases rest <;> rfl

/-- A text that is one `INSERT` statement, complete or not. -/
theorem parse_insert {text table : Bytes} {columns : List Bytes} {rest : List Token}
    (nonempty : columns ≠ []) (whole : Token.semicolon ∉ rest)
    (scanned : tokens text = insertTokens table columns ++ rest) :
    parse text = [completeRow table columns rest] := by
  have single : Token.semicolon ∉ tokens text := by
    rw [scanned, List.mem_append, not_or]
    exact ⟨semicolon_not_insert table columns, whole⟩
  have some_tokens : tokens text ≠ [] := by
    rw [scanned]
    simp [insertTokens]
  rw [parse, script_single some_tokens single, scanned, List.map_singleton,
    statement_insertTokens table nonempty]

theorem completeRow_eq_some {table : Bytes} {columns : List Bytes} {rest : List Token}
    {result : Statement} (done : completeRow table columns rest = some result) :
    ∃ row, values rest = some (row, []) ∧ result = .insert table columns row := by
  unfold completeRow at done
  split at done
  · rename_i row read
    exact ⟨row, read, (Option.some.inj done).symm⟩
  · contradiction

/-- What the first statement of a script is, when it starts as an `INSERT`. -/
theorem parse_insert_head {text table : Bytes} {columns : List Bytes} {start rest : List Token}
    {token : Token} (nonempty : columns ≠ []) (clean : Token.semicolon ∉ start)
    (whole : token ≠ .semicolon)
    (scanned : tokens text = insertTokens table columns ++ (start ++ token :: rest)) :
    ∃ piece more, parse text = completeRow table columns (start ++ token :: piece) :: more := by
  have startClean : Token.semicolon ∉ insertTokens table columns ++ start := by
    rw [List.mem_append, not_or]
    exact ⟨semicolon_not_insert table columns, clean⟩
  obtain ⟨piece, more, split⟩ := script_head startClean whole rest
  refine ⟨piece, more.map statement, ?_⟩
  rw [parse, scanned, ← List.append_assoc, split, List.map_cons, List.append_assoc,
    statement_insertTokens table nonempty]

/-! `INSERT` statements whose values cannot be read. -/

/-- What behind `VALUES (` makes it impossible to prepare an `INSERT` into these columns. -/
inductive Broken (columns : List Bytes) : List Token → Prop
  | unclosed {row : List Token} (plain : ∀ token ∈ row, token.isPlain = true) : Broken columns row
  | unseparated (negative : Bool) (text content : Bytes) (rest : List Token) :
      Broken columns (signedTokens negative text ++ .quoted content :: rest)
  | missing {row : List Token} (numeric : ∀ token ∈ row, token.isNumeric = true)
      (few : row.count .comma + 1 < columns.length) : Broken columns (row ++ [.closing])

def BrokenInsert (text : Bytes) : Prop :=
  ∃ table columns row, columns ≠ [] ∧ Broken columns row ∧
    tokens text = insertTokens table columns ++ row

/-- Values end with a parenthesis, and there are no more of them than commas ask for. -/
theorem values_shape {row : List Token} {read : List Value} {rest : List Token}
    (done : values row = some (read, rest)) :
    .closing ∈ row ∧ read.length ≤ row.count .comma + 1 := by
  have longer : ∀ {start tail : List Token} {first : Value} {read : List Value} {rest : List Token},
      (∀ {read rest}, values tail = some (read, rest) →
        .closing ∈ tail ∧ read.length ≤ tail.count .comma + 1) →
      ((values tail).map fun (more, rest) => (first :: more, rest)) = some (read, rest) →
      .closing ∈ start ++ .comma :: tail ∧ read.length ≤ (start ++ .comma :: tail).count .comma + 1 := by
    intro start tail first read rest ih done
    obtain ⟨⟨more, left⟩, later, same⟩ := Option.map_eq_some_iff.mp done
    cases same
    obtain ⟨closed, bound⟩ := ih later
    rw [List.count_append, List.count_cons_self, List.length_cons]
    exact ⟨by simp [closed], by omega⟩
  fun_induction values row generalizing read rest with
  | case1 text tail ih => exact @longer [.number text] tail _ read rest ih done
  | case2 text tail ih => exact @longer [.minus, .number text] tail _ read rest ih done
  | case3 content tail ih => exact @longer [.quoted content] tail _ read rest ih done
  | case4 =>
      cases done
      simp
  | case5 =>
      cases done
      simp
  | case6 =>
      cases done
      simp
  | case7 => contradiction

theorem parse_unclosed {text table : Bytes} {columns : List Bytes} {row : List Token}
    (nonempty : columns ≠ []) (plain : ∀ token ∈ row, token.isPlain = true)
    (scanned : tokens text = insertTokens table columns ++ row) : parse text = [none] := by
  have whole : Token.semicolon ∉ row := by
    intro member
    exact absurd (plain _ member) (by decide)
  rw [parse_insert nonempty whole scanned]
  cases read : completeRow table columns row with
  | none => rfl
  | some statement =>
      obtain ⟨values, done, _⟩ := completeRow_eq_some read
      exact absurd (plain _ (values_shape done).1) (by decide)

/-- The first statement of such a text is none, or has too few values. -/
theorem parse_broken {text : Bytes} (broken : BrokenInsert text) :
    ∃ head more, parse text = head :: more ∧ ∀ statement, head = some statement →
      ∃ table columns row, statement = .insert table columns row ∧ row.length < columns.length := by
  obtain ⟨table, columns, row, nonempty, broken, scanned⟩ := broken
  cases broken with
  | unclosed plain => exact ⟨_, [], parse_unclosed nonempty plain scanned, by simp⟩
  | unseparated negative text content rest =>
      obtain ⟨piece, more, head⟩ :=
        parse_insert_head nonempty (semicolon_not_signed negative text) (by simp) scanned
      refine ⟨_, more, head, ?_⟩
      intro statement read
      rw [completeRow, values_signed_quoted] at read
      contradiction
  | @missing row numeric few =>
      have whole : Token.semicolon ∉ row ++ [.closing] := by
        rw [List.mem_append, not_or]
        exact ⟨fun member => absurd (numeric _ member) (by decide), by simp⟩
      refine ⟨_, [], parse_insert nonempty whole scanned, ?_⟩
      intro statement read
      obtain ⟨values, done, same⟩ := completeRow_eq_some read
      refine ⟨table, columns, values, same, ?_⟩
      have bound := (values_shape done).2
      rw [List.count_append] at bound
      have last : [Token.closing].count .comma = 0 := by decide
      omega

/-! Quotation marks inside a literal. -/

/-- The content of a literal as it is written: each quotation mark twice. -/
def escape : Bytes → Bytes
  | [] => []
  | byte :: rest => if byte = doubleQuote then byte :: byte :: escape rest else byte :: escape rest

/-- A literal is unterminated, or ends at the first quotation mark that is not doubled. -/
theorem scan_literal (soFar text : Bytes) :
    scan (.quoted doubleQuote soFar) text = [.illegal] ∨
      ∃ content rest more, text = escape content ++ doubleQuote :: rest ∧
        scan (.quoted doubleQuote soFar) text = .quoted (soFar ++ content) :: more := by
  induction size : text.length using Nat.strongRecOn generalizing soFar text with
  | ind size ih =>
      cases text with
      | nil => exact .inl rfl
      | cons byte text =>
          by_cases isMark : byte = doubleQuote
          · subst isMark
            cases text with
            | nil =>
                refine .inr ⟨[], [], [], rfl, ?_⟩
                simp [scan, scanByte, scanEnd, quotedToken]
            | cons next text =>
                by_cases doubled : next = doubleQuote
                · subst doubled
                  have step : scan (.quoted doubleQuote soFar) (doubleQuote :: doubleQuote :: text) =
                      scan (.quoted doubleQuote (soFar ++ [doubleQuote])) text := by
                    simp [scan, scanByte]
                  rw [step]
                  rcases ih text.length (by simp at size; omega) (soFar ++ [doubleQuote]) text rfl with
                    illegal | ⟨content, rest, more, split, scanned⟩
                  · exact .inl illegal
                  · refine .inr ⟨doubleQuote :: content, rest, more, ?_, ?_⟩
                    · rw [split]
                      simp [escape]
                    · rw [scanned]
                      simp
                · refine .inr ⟨[], next :: text, (start next).2 ++ scan (start next).1 text, rfl, ?_⟩
                  simp [scan, scanByte, doubled, quotedToken]
          · have step : scan (.quoted doubleQuote soFar) (byte :: text) =
                scan (.quoted doubleQuote (soFar ++ [byte])) text := by
              simp [scan, scanByte, isMark]
            rw [step]
            rcases ih text.length (by simp at size; omega) (soFar ++ [byte]) text rfl with
              illegal | ⟨content, rest, more, split, scanned⟩
            · exact .inl illegal
            · refine .inr ⟨byte :: content, rest, more, ?_, ?_⟩
              · rw [split]
                simp [escape, isMark]
              · rw [scanned]
                simp

/-- Behind `count` marks that are still unread, a text cannot be its own escaped form. -/
theorem escape_late {text rest tail : Bytes} {next : UInt8} {count : Nat} (pending : 1 ≤ count)
    (different : next ≠ doubleQuote)
    (same : text ++ doubleQuote :: next :: rest =
      List.replicate count doubleQuote ++ escape text ++ doubleQuote :: tail) : False := by
  induction text generalizing count with
  | nil =>
      obtain ⟨more, rfl⟩ : ∃ more, count = more + 1 := ⟨count - 1, by omega⟩
      cases more with
      | zero => simp [escape, different] at same
      | succ more => simp [escape, List.replicate_succ, different] at same
  | cons byte text ih =>
      obtain ⟨more, rfl⟩ : ∃ more, count = more + 1 := ⟨count - 1, by omega⟩
      simp only [List.replicate_succ, List.cons_append, List.cons.injEq] at same
      obtain ⟨rfl, later⟩ := same
      refine @ih (more + 2) (by omega) ?_
      rw [later]
      simp [escape, List.replicate_succ']

/-- A literal denotes the bytes between its marks only if no mark is among them. -/
theorem escape_fixed {text rest tail : Bytes} {next : UInt8} (different : next ≠ doubleQuote)
    (same : text ++ doubleQuote :: next :: rest = escape text ++ doubleQuote :: tail) :
    doubleQuote ∉ text := by
  induction text with
  | nil => simp
  | cons byte text ih =>
      by_cases mark : byte = doubleQuote
      · subst mark
        simp only [escape, if_true, List.cons_append, List.cons.injEq, true_and] at same
        exact absurd (escape_late (Nat.le_refl 1) different (by simpa using same)) id
      · simp only [escape, if_neg mark, List.cons_append, List.cons.injEq, true_and] at same
        simp [Ne.symm mark, ih same]

end Sql
