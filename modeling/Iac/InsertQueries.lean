import Iac.Library.Single
import Iac.Queries

/-! The two `INSERT` statements of `store_verified_order`. Their texts are put together at
positions that `countDigits` predicts; where the prediction is wrong the text is cut. -/

namespace Iac

open CText Sql Binary32

/-! When the predicted widths are right. -/

/-- The width counted for the total: the digits of its integer part, a point, two places. -/
def TotalExact (total : Single) : Prop :=
  (fixed2 total).length = countDigits (Int32.ofInt (toInt total)) + 3

def TimeExact (timestamp : Int) : Prop :=
  (itoa timestamp).length ≤ countDigits (Int32.ofInt timestamp)

def IdExact (orderId : Int) : Prop :=
  (itoa orderId).length = countDigits (Int32.ofInt orderId)

instance (total : Single) : Decidable (TotalExact total) := inferInstanceAs (Decidable (_ = _))
instance (timestamp : Int) : Decidable (TimeExact timestamp) := inferInstanceAs (Decidable (_ ≤ _))
instance (orderId : Int) : Decidable (IdExact orderId) := inferInstanceAs (Decidable (_ = _))

/-! The text of a total. -/

theorem hundredths_numeral (value : Nat) : Numeral (hundredths value) := by
  obtain ⟨first, rest, shape, firstDigit⟩ := (decimal_numeral (value / 100)).head
  constructor
  · refine ⟨first, rest ++ [point, digit (value / 10 % 10), digit (value % 10)], ?_, firstDigit⟩
    rw [hundredths, shape]
    rfl
  · intro byte member
    simp only [hundredths, List.mem_append, List.mem_cons, List.not_mem_nil, or_false] at member
    rcases member with whole | rfl | rfl | rfl
    · exact (decimal_numeral _).all byte whole
    · decide
    · simp [isNumberByte, isDigit_digit (Nat.mod_lt (value / 10) (by omega : 0 < 10))]
    · simp [isNumberByte, isDigit_digit (Nat.mod_lt value (by omega : 0 < 10))]

theorem numeral_no_nul {text : Bytes} (shape : Numeral text) : (0 : UInt8) ∉ text := by
  intro member
  exact absurd (shape.all 0 member) (by decide)

theorem fixed2_no_nul (total : Single) : (0 : UInt8) ∉ fixed2 total := by
  cases total with
  | finite units => exact signed_no_nul _ (numeral_no_nul (hundredths_numeral _))
  | infinite negative => exact signed_no_nul _ (by decide)
  | notANumber negative => exact signed_no_nul _ (by decide)

theorem totalExact_finite {total : Single} (fits : countDigits (Int32.ofInt (toInt total)) + 3 ≤
    (fixed2 total).length) : ∃ units, total = .finite units := by
  have least : countDigits (Int32.ofInt (-2 ^ 31)) = 11 := by decide
  cases total with
  | finite units => exact ⟨units, rfl⟩
  | infinite negative =>
      have narrow : (fixed2 (.infinite negative)).length ≤ 4 := by cases negative <;> decide
      have wide : toInt (.infinite negative) = -2 ^ 31 := rfl
      rw [wide, least] at fits
      omega
  | notANumber negative =>
      have narrow : (fixed2 (.notANumber negative)).length ≤ 4 := by cases negative <;> decide
      have wide : toInt (.notANumber negative) = -2 ^ 31 := rfl
      rw [wide, least] at fits
      omega

/-! The text of the first statement. -/

def addressLiteral (address : Bytes) : Bytes := ascii "\"" ++ address ++ ascii "\","

theorem addressLiteral_length (address : Bytes) :
    (addressLiteral address).length = 1 + address.length + 1 + 1 := by
  have opening : (ascii "\"").length = 1 := rfl
  have closing : (ascii "\",").length = 2 := rfl
  simp only [addressLiteral, List.length_append]
  omega

def orderText (total : Single) (address : Bytes) (timestamp : Int) : Bytes :=
  assemble orderBase (fixed2 total ++ ascii ",") (countDigits (Int32.ofInt (toInt total)) + 1 + 2 + 1)
    (addressLiteral address) (itoa timestamp ++ ascii ")") (countDigits (Int32.ofInt timestamp) + 1)

theorem orderQuery_text {c : Circumstances} {total : Single} {address query : Bytes}
    (clean : (0 : UInt8) ∉ address) (done : orderQuery c total address = some query) :
    cstring query = orderText total address c.timestamp := by
  simp only [orderQuery, Option.bind_eq_bind, Option.bind_eq_some_iff] at done
  obtain ⟨q₁, write₁, q₂, write₂, q₃, write₃, q₄, write₄, write₅⟩ := done
  have width := addressLiteral_length address
  rw [← width] at write₄ write₅
  have cleanFirst : (0 : UInt8) ∉ fixed2 total ++ ascii "," := by
    rw [List.mem_append, not_or]
    exact ⟨fixed2_no_nul total, by decide⟩
  have cleanSecond : (0 : UInt8) ∉ addressLiteral address := by
    simp only [addressLiteral, List.mem_append, not_or]
    exact ⟨⟨by decide, clean⟩, by decide⟩
  have cleanLast : (0 : UInt8) ∉ itoa c.timestamp ++ ascii ")" := by
    rw [List.mem_append, not_or]
    exact ⟨itoa_no_nul _, by decide⟩
  exact assemble_cstring (by decide) cleanFirst cleanSecond cleanLast write₁ write₂ write₃ write₄ write₅

theorem orderQuery_length {c : Circumstances} {total : Single} {address query : Bytes}
    (done : orderQuery c total address = some query) : query.length = 1024 := by
  simp only [orderQuery, Option.bind_eq_bind, Option.bind_eq_some_iff] at done
  obtain ⟨q₁, write₁, q₂, write₂, q₃, write₃, q₄, write₄, write₅⟩ := done
  rw [sprintfAt_length write₅, sprintfAt_length write₄, sprintfAt_length write₃,
    sprintfAt_length write₂, sprintfAt_length write₁, c.stackSize]

/-! Its tokens. -/

def orderTokens : List Token := insertTokens ordersTable ordersColumns

set_option maxRecDepth 2000 in
theorem scan_orderBase (rest : Bytes) :
    scan .blank (orderBase ++ rest) = orderTokens ++ scan .blank rest := rfl

/-- The time as far as its predicted width reaches. -/
def timeText (timestamp : Int) : Bytes :=
  (itoa timestamp ++ ascii ")").take (countDigits (Int32.ofInt timestamp) + 1)

theorem scan_timeText {timestamp : Int} (precise : TimeExact timestamp) :
    scan .blank (timeText timestamp) =
      signedTokens (timestamp < 0) (decimal timestamp.natAbs) ++ [.closing] := by
  have whole : (itoa timestamp ++ ascii ")").length ≤ countDigits (Int32.ofInt timestamp) + 1 := by
    have closing : (ascii ")").length = 1 := rfl
    rw [List.length_append, closing]
    exact Nat.succ_le_succ precise
  rw [timeText, List.take_of_length_le whole, itoa]
  exact scan_signed_then _ (decimal_numeral _) (by decide) []

/-- A time that is wider than predicted loses its closing parenthesis. -/
theorem scan_timeText_cut {timestamp : Int} (wide : ¬TimeExact timestamp) :
    ∃ digits, scan .blank (timeText timestamp) = signedTokens (timestamp < 0) digits := by
  have positive := countDigits_positive (Int32.ofInt timestamp)
  rw [TimeExact, not_le] at wide
  obtain ⟨digits, some_digit, cut⟩ := signed_take (timestamp < 0) (decimal timestamp.natAbs)
    (by omega : 2 ≤ countDigits (Int32.ofInt timestamp) + 1)
  refine ⟨(decimal timestamp.natAbs).take digits, ?_⟩
  rw [timeText, List.take_append_of_le_length (by omega), itoa, cut]
  exact scan_signed_end _ ((decimal_numeral _).take some_digit)

theorem timeText_whole (timestamp : Int) : Token.semicolon ∉ scan .blank (timeText timestamp) := by
  by_cases precise : TimeExact timestamp
  · rw [scan_timeText precise, List.mem_append, not_or]
    exact ⟨semicolon_not_signed _ _, by simp⟩
  · obtain ⟨digits, scanned⟩ := scan_timeText_cut precise
    rw [scanned]
    exact semicolon_not_signed _ _

theorem timeText_values (timestamp : Int) :
    values (scan .blank (timeText timestamp)) =
      if TimeExact timestamp then some ([.integer timestamp], []) else none := by
  by_cases precise : TimeExact timestamp
  · rw [if_pos precise, scan_timeText precise, values_signed_closing, numberValue_itoa]
  · obtain ⟨digits, scanned⟩ := scan_timeText_cut precise
    rw [if_neg precise, scanned, values_signed_end]

/-! What the first statement means. -/

def totalValue : Single → Value
  | .finite units => numberValue (units < 0) (hundredths (nearestEven (units.natAbs * 100) one))
  | _ => .integer 0

theorem orderText_short {total : Single} (address : Bytes) (timestamp : Int)
    (short : (fixed2 total).length < countDigits (Int32.ofInt (toInt total)) + 3) :
    orderText total address timestamp = orderBase ++ (fixed2 total ++ ascii ",") := by
  have comma : (ascii ",").length = 1 := rfl
  rw [orderText, assemble, if_pos (by rw [List.length_append, comma]; omega)]

def addressText (address : Bytes) (timestamp : Int) : Bytes :=
  address ++ doubleQuote :: 44 :: timeText timestamp

theorem addressLiteral_append (address : Bytes) (timestamp : Int) :
    addressLiteral address ++ timeText timestamp = doubleQuote :: addressText address timestamp := by
  simp only [addressLiteral, addressText, List.append_assoc]
  rfl

theorem orderText_exact {total : Single} (address : Bytes) (timestamp : Int)
    (precise : TotalExact total) :
    orderText total address timestamp = orderBase ++ (fixed2 total ++ ascii "," ++
      doubleQuote :: addressText address timestamp) := by
  have comma : (ascii ",").length = 1 := rfl
  have width : (fixed2 total ++ ascii ",").length = countDigits (Int32.ofInt (toInt total)) + 1 + 2 + 1 := by
    rw [List.length_append, comma, precise]
  rw [orderText, assemble, if_neg (by omega), List.take_of_length_le (by omega), ← timeText,
    List.append_assoc, addressLiteral_append]

theorem orderText_wide {total : Single} (address : Bytes) (timestamp : Int)
    (wide : countDigits (Int32.ofInt (toInt total)) + 3 < (fixed2 total).length) :
    orderText total address timestamp = orderBase ++
      ((fixed2 total).take (countDigits (Int32.ofInt (toInt total)) + 1 + 2 + 1) ++
      doubleQuote :: addressText address timestamp) := by
  rw [orderText, assemble, if_neg (by rw [List.length_append]; omega),
    List.take_append_of_le_length (by omega), ← timeText, List.append_assoc, addressLiteral_append]

theorem scan_total (units : Int) (rest : Bytes) :
    scan .blank (fixed2 (.finite units) ++ ascii "," ++ rest) =
      signedTokens (units < 0) (hundredths (nearestEven (units.natAbs * 100) one)) ++
        .comma :: scan .blank rest := by
  have comma : fixed2 (.finite units) ++ ascii "," ++ rest =
      signed (units < 0) (hundredths (nearestEven (units.natAbs * 100) one)) ++ 44 :: rest := by
    simp only [fixed2, List.append_assoc]
    rfl
  rw [comma, scan_signed_then _ (hundredths_numeral _) (by decide)]
  rfl

/-- A total that is wider than predicted loses its comma to the address. -/
theorem scan_total_cut {total : Single}
    (wide : countDigits (Int32.ofInt (toInt total)) + 3 < (fixed2 total).length) :
    ∃ negative digits, ∀ rest, scan .blank
      ((fixed2 total).take (countDigits (Int32.ofInt (toInt total)) + 1 + 2 + 1) ++
        doubleQuote :: rest) =
        signedTokens negative digits ++ scan (.quoted doubleQuote []) rest := by
  obtain ⟨units, rfl⟩ := totalExact_finite (by omega : countDigits _ + 3 ≤ (fixed2 total).length)
  obtain ⟨width, some_digit, cut⟩ := signed_take (units < 0)
    (hundredths (nearestEven (units.natAbs * 100) one))
    (by omega : 2 ≤ countDigits (Int32.ofInt (toInt (.finite units))) + 1 + 2 + 1)
  refine ⟨decide (units < 0), (hundredths (nearestEven (units.natAbs * 100) one)).take width, ?_⟩
  intro rest
  rw [fixed2, cut, scan_signed_then _ ((hundredths_numeral _).take some_digit) (by decide)]
  rfl

theorem scan_addressText {address : Bytes} (clean : doubleQuote ∉ address) (timestamp : Int) :
    scan (.quoted doubleQuote []) (addressText address timestamp) =
      .quoted address :: .comma :: scan .blank (timeText timestamp) := by
  have scanned := scan_quoted_close clean (by decide : (44 : UInt8) ≠ doubleQuote) (timeText timestamp)
  exact scanned

theorem timeText_plain {timestamp : Int} (wide : ¬TimeExact timestamp) :
    ∀ token ∈ scan .blank (timeText timestamp), token.isPlain = true := by
  obtain ⟨digits, scanned⟩ := scan_timeText_cut wide
  rw [scanned]
  exact signedTokens_plain _ _

/-- Neither a narrow total nor one that is not finite leaves a complete statement. -/
theorem tokens_orderText_short {total : Single} (address : Bytes) (timestamp : Int)
    (short : (fixed2 total).length < countDigits (Int32.ofInt (toInt total)) + 3) :
    ∃ row, (∀ token ∈ row, token.isPlain = true) ∧
      tokens (orderText total address timestamp) = orderTokens ++ row := by
  rw [orderText_short address timestamp short]
  refine ⟨_, ?_, scan_orderBase (fixed2 total ++ ascii ",")⟩
  cases total with
  | finite units =>
      have tail := scan_total units []
      rw [List.append_nil] at tail
      rw [tail]
      intro token member
      rcases List.mem_append.mp member with number | comma
      · exact signedTokens_plain _ _ token number
      · rw [List.mem_singleton.mp comma]
        rfl
  | infinite negative => cases negative <;> decide
  | notANumber negative => cases negative <;> decide

theorem tokens_orderText_exact {units : Int} {address : Bytes} (clean : doubleQuote ∉ address)
    (timestamp : Int) (precise : TotalExact (.finite units)) :
    tokens (orderText (.finite units) address timestamp) = orderTokens ++
      (signedTokens (units < 0) (hundredths (nearestEven (units.natAbs * 100) one)) ++
        .comma :: .quoted address :: .comma :: scan .blank (timeText timestamp)) := by
  have scanned := scan_orderBase
    (fixed2 (.finite units) ++ ascii "," ++ doubleQuote :: addressText address timestamp)
  have quoted : scan .blank (doubleQuote :: addressText address timestamp) =
      scan (.quoted doubleQuote []) (addressText address timestamp) := rfl
  rw [scan_total, quoted, scan_addressText clean] at scanned
  rw [orderText_exact address timestamp precise]
  exact scanned

theorem tokens_orderText_wide {total : Single} {address : Bytes} (clean : doubleQuote ∉ address)
    (timestamp : Int) (wide : countDigits (Int32.ofInt (toInt total)) + 3 < (fixed2 total).length) :
    ∃ negative digits, tokens (orderText total address timestamp) = orderTokens ++
      (signedTokens negative digits ++ .quoted address :: .comma :: scan .blank (timeText timestamp)) := by
  obtain ⟨negative, digits, cut⟩ := scan_total_cut wide
  have scanned := scan_orderBase
    ((fixed2 total).take (countDigits (Int32.ofInt (toInt total)) + 1 + 2 + 1) ++
      doubleQuote :: addressText address timestamp)
  rw [cut, scan_addressText clean] at scanned
  rw [orderText_wide address timestamp wide]
  exact ⟨negative, digits, scanned⟩

theorem orderText_parse_short {total : Single} (address : Bytes) (timestamp : Int)
    (short : (fixed2 total).length < countDigits (Int32.ofInt (toInt total)) + 3) :
    parse (orderText total address timestamp) = [none] := by
  obtain ⟨row, plain, scanned⟩ := tokens_orderText_short address timestamp short
  exact parse_unclosed (by decide) plain scanned

theorem orderText_parse {address : Bytes} (clean : doubleQuote ∉ address) (total : Single)
    (timestamp : Int) :
    parse (orderText total address timestamp) =
      [if TotalExact total ∧ TimeExact timestamp then
        some (.insert ordersTable ordersColumns
          [totalValue total, .text address, .integer timestamp])
      else none] := by
  rcases Nat.lt_trichotomy (fixed2 total).length (countDigits (Int32.ofInt (toInt total)) + 3) with
    short | precise | wide
  · rw [orderText_parse_short address timestamp short, if_neg]
    rintro ⟨precise, -⟩
    exact absurd precise (Nat.ne_of_lt short)
  · obtain ⟨units, rfl⟩ := totalExact_finite (Nat.le_of_eq precise.symm)
    rw [parse_insert (by decide) ?_ (tokens_orderText_exact clean timestamp precise), completeRow,
      values_signed_comma, values_quoted_comma, timeText_values]
    · by_cases timely : TimeExact timestamp
      · rw [if_pos timely, if_pos ⟨precise, timely⟩]
        rfl
      · rw [if_neg timely, if_neg fun both => timely both.2]
        rfl
    · simp only [List.mem_append, List.mem_cons, not_or]
      exact ⟨semicolon_not_signed _ _, by simp, by simp, by simp, timeText_whole timestamp⟩
  · obtain ⟨negative, digits, scanned⟩ := tokens_orderText_wide clean timestamp wide
    rw [parse_insert (by decide) ?_ scanned, completeRow, values_signed_quoted,
      if_neg fun both => absurd both.1 (Nat.ne_of_gt wide)]
    simp only [List.mem_append, List.mem_cons, not_or]
    exact ⟨semicolon_not_signed _ _, by simp, by simp, timeText_whole timestamp⟩

/-- Where a predicted width is wrong, the statement is cut short. -/
theorem orderText_broken {address : Bytes} (clean : doubleQuote ∉ address) {total : Single}
    {timestamp : Int} (wrong : ¬(TotalExact total ∧ TimeExact timestamp)) :
    BrokenInsert (orderText total address timestamp) := by
  rcases Nat.lt_trichotomy (fixed2 total).length (countDigits (Int32.ofInt (toInt total)) + 3) with
    short | precise | wide
  · obtain ⟨row, plain, scanned⟩ := tokens_orderText_short address timestamp short
    exact ⟨_, _, row, by decide, .unclosed plain, scanned⟩
  · obtain ⟨units, rfl⟩ := totalExact_finite (Nat.le_of_eq precise.symm)
    refine ⟨_, _, _, by decide, .unclosed ?_, tokens_orderText_exact clean timestamp precise⟩
    intro token member
    simp only [List.mem_append, List.mem_cons] at member
    rcases member with number | rfl | rfl | rfl | time
    · exact signedTokens_plain _ _ token number
    · rfl
    · rfl
    · rfl
    · exact timeText_plain (fun timely => wrong ⟨precise, timely⟩) token time
  · obtain ⟨negative, digits, scanned⟩ := tokens_orderText_wide clean timestamp wide
    exact ⟨_, _, _, by decide, .unseparated _ _ _ _, scanned⟩

theorem plain_hundredths (negative : Bool) (value : Nat) :
    (numberValue negative (hundredths value)).Plain := by
  have isPoint : (hundredths value).all isDigit = false := by
    simp only [hundredths, List.all_append, List.all_cons]
    simp [show isDigit point = false by decide]
  have shape : numberValue negative (hundredths value) = .real (signed negative (hundredths value)) := by
    rw [numberValue, isPoint]
    cases negative <;> rfl
  rw [shape]
  refine ⟨negative, decimal (value / 100), [digit (value / 10 % 10), digit (value % 10)], rfl,
    decimal_ne_nil _, by simp, List.all_eq_true.mpr (decimal_digits _), ?_⟩
  simp [isDigit_digit (Nat.mod_lt (value / 10) (by omega : 0 < 10)),
    isDigit_digit (Nat.mod_lt value (by omega : 0 < 10))]

theorem plain_totalValue (total : Single) : (totalValue total).Plain := by
  cases total with
  | finite units => exact plain_hundredths _ _
  | infinite negative => exact ⟨by decide, by decide⟩
  | notANumber negative => exact ⟨by decide, by decide⟩

/-- A number that is no wider than an `int` can be is a 64-bit number. -/
theorem plain_narrow {value : Int} (narrow : (itoa value).length ≤ 11) : (Value.integer value).Plain := by
  have digits : (decimal value.natAbs).length ≤ 11 := by
    refine le_trans ?_ narrow
    unfold itoa signed
    split <;> simp
  have below := numeral_lt (decimal_digits value.natAbs)
  rw [numeral_decimal] at below
  have small : value.natAbs < 10 ^ 11 := lt_of_lt_of_le below (Nat.pow_le_pow_right (by decide) digits)
  exact ⟨by omega, by omega⟩

theorem plain_timestamp {timestamp : Int} (timely : TimeExact timestamp) :
    (Value.integer timestamp).Plain :=
  plain_narrow (le_trans timely (countDigits_le _))

theorem plain_orderId {orderId : Int} (precise : IdExact orderId) : (Value.integer orderId).Plain :=
  plain_narrow (le_trans (Nat.le_of_eq precise) (countDigits_le _))

/-- Only an address without quotation marks is read back as it is. -/
theorem orderText_literal {address : Bytes} {total : Single} {timestamp : Int}
    {table : Bytes} {columns : List Bytes} {first last : Value}
    (parsed : parse (orderText total address timestamp) =
      [some (.insert table columns [first, .text address, last])]) :
    doubleQuote ∉ address ∧ TotalExact total ∧ TimeExact timestamp := by
  have clean : doubleQuote ∉ address := by
    rcases Nat.lt_trichotomy (fixed2 total).length (countDigits (Int32.ofInt (toInt total)) + 3) with
      short | precise | wide
    · rw [orderText_parse_short address timestamp short] at parsed
      simp at parsed
    · obtain ⟨units, rfl⟩ := totalExact_finite (Nat.le_of_eq precise.symm)
      rw [orderText_exact address timestamp precise] at parsed
      have scanned := scan_orderBase
        (fixed2 (.finite units) ++ ascii "," ++ doubleQuote :: addressText address timestamp)
      have quoted : scan .blank (doubleQuote :: addressText address timestamp) =
          scan (.quoted doubleQuote []) (addressText address timestamp) := rfl
      rw [scan_total, quoted] at scanned
      have startClean : Token.semicolon ∉
          signedTokens (units < 0) (hundredths (nearestEven (units.natAbs * 100) one)) ++ [.comma] := by
        rw [List.mem_append, not_or]
        exact ⟨semicolon_not_signed _ _, by simp⟩
      rcases scan_literal [] (addressText address timestamp) with
        illegal | ⟨content, rest, more, split, literal⟩
      · rw [illegal, List.append_cons (signedTokens _ _) .comma] at scanned
        obtain ⟨piece, others, head⟩ := parse_insert_head (by decide) startClean (by simp) scanned
        rw [head, List.cons.injEq] at parsed
        obtain ⟨row, read, -⟩ := completeRow_eq_some parsed.1
        rw [← List.append_cons, values_signed_comma] at read
        simp [values] at read
      · rw [literal, List.append_cons (signedTokens _ _) .comma] at scanned
        obtain ⟨piece, others, head⟩ := parse_insert_head (by decide) startClean (by simp) scanned
        rw [head, List.cons.injEq] at parsed
        obtain ⟨row, read, same⟩ := completeRow_eq_some parsed.1
        rw [← List.append_cons, values_signed_comma, Option.map_eq_some_iff] at read
        obtain ⟨⟨behind, left⟩, tail, equal⟩ := read
        obtain ⟨others, rfl⟩ := values_quoted_head tail
        simp only [Prod.mk.injEq] at equal
        rw [← equal.1, Statement.insert.injEq] at same
        simp only [List.nil_append, List.cons.injEq, Value.text.injEq] at same
        rw [← same.2.2.2.1] at split
        exact escape_fixed (by decide) split
    · obtain ⟨negative, digits, cut⟩ := scan_total_cut wide
      rw [orderText_wide address timestamp wide] at parsed
      have scanned := scan_orderBase
        ((fixed2 total).take (countDigits (Int32.ofInt (toInt total)) + 1 + 2 + 1) ++
          doubleQuote :: addressText address timestamp)
      rw [cut] at scanned
      rcases scan_literal [] (addressText address timestamp) with
        illegal | ⟨content, rest, more, split, literal⟩
      · rw [illegal] at scanned
        obtain ⟨piece, others, head⟩ :=
          parse_insert_head (by decide) (semicolon_not_signed _ _) (by simp) scanned
        rw [head, completeRow, values_signed_illegal] at parsed
        simp at parsed
      · rw [literal] at scanned
        obtain ⟨piece, others, head⟩ :=
          parse_insert_head (by decide) (semicolon_not_signed _ _) (by simp) scanned
        rw [head, completeRow, values_signed_quoted] at parsed
        simp at parsed
  rw [orderText_parse clean] at parsed
  by_cases both : TotalExact total ∧ TimeExact timestamp
  · exact ⟨clean, both⟩
  · rw [if_neg both] at parsed
    simp at parsed

theorem orderQuery_run {c : Circumstances} {total : Single} {address query : Bytes}
    (clean : doubleQuote ∉ address) (noNul : (0 : UInt8) ∉ address) (refused : Bool)
    (done : orderQuery c total address = some query) (db : Database) :
    runQuery c.sqlite refused query db =
      if refused = false ∧ TotalExact total ∧ TimeExact c.timestamp then
        ⟨true, db.insertOrder c.sqlite (totalValue total) (.text address) (.integer c.timestamp), []⟩
      else ⟨false, db, []⟩ := by
  have text := orderQuery_text noNul done
  by_cases both : TotalExact total ∧ TimeExact c.timestamp
  · have parsed := orderText_parse clean total c.timestamp
    rw [if_pos both, ← text] at parsed
    cases refused with
    | true => rw [runQuery_refused, if_neg (by simp)]
    | false =>
        rw [runQuery_accepted c.sqlite parsed
          (.order address (plain_totalValue total) (plain_timestamp both.2)), if_pos ⟨rfl, both⟩]
        simp [carriedOut, execStatement]
  · have broken := orderText_broken clean both
    rw [← text] at broken
    rw [runQuery_malformed c.sqlite refused broken, if_neg fun all => both all.2]

/-! The statement for one entry. -/

def entryText (orderId : Int) (entry : OrderEntry) : Bytes :=
  assemble entryBase (itoa orderId ++ ascii ",") (countDigits (Int32.ofInt orderId) + 1)
    (itoa entry.productId.toInt ++ ascii ",") (itoa entry.quantity.toInt ++ ascii ")")
    (countDigits entry.quantity + 1)

theorem entryQuery_text {buffer query : Bytes} {orderId : Int} {entry : OrderEntry}
    (done : entryQuery buffer orderId entry = some query) :
    cstring query = entryText orderId entry := by
  simp only [entryQuery, Option.bind_eq_bind, Option.bind_eq_some_iff] at done
  obtain ⟨q₁, write₁, q₂, write₂, q₃, write₃, q₄, write₄, write₅⟩ := done
  have width : (itoa entry.productId.toInt ++ ascii ",").length = countDigits entry.productId + 1 := by
    rw [countDigits_eq, List.length_append]
    rfl
  rw [← width] at write₄ write₅
  have clean : ∀ value, ∀ text, (0 : UInt8) ∉ text → (0 : UInt8) ∉ itoa value ++ text := by
    intro value text noNul
    rw [List.mem_append, not_or]
    exact ⟨itoa_no_nul _, noNul⟩
  exact assemble_cstring (by decide) (clean _ _ (by decide)) (clean _ _ (by decide))
    (clean _ _ (by decide)) write₁ write₂ write₃ write₄ write₅

theorem entryQuery_length {buffer query : Bytes} {orderId : Int} {entry : OrderEntry}
    (done : entryQuery buffer orderId entry = some query) : query.length = buffer.length := by
  simp only [entryQuery, Option.bind_eq_bind, Option.bind_eq_some_iff] at done
  obtain ⟨q₁, write₁, q₂, write₂, q₃, write₃, q₄, write₄, write₅⟩ := done
  rw [sprintfAt_length write₅, sprintfAt_length write₄, sprintfAt_length write₃,
    sprintfAt_length write₂, sprintfAt_length write₁]

theorem sprintfAt_fits {room : Nat} {buffer : Bytes} {index : Nat} {text : Bytes}
    (size : buffer.length = room) (fits : index + text.length < room) :
    ∃ written, sprintfAt buffer index text = some written ∧ written.length = room := by
  obtain ⟨written, done⟩ := Option.isSome_iff_exists.mp (sprintfAt_isSome.mpr (size ▸ fits))
  exact ⟨written, done, (sprintfAt_length done).trans size⟩

/-- An entry's statement always fits, row ids being 64-bit numbers. -/
theorem entryQuery_isSome {buffer : Bytes} (size : buffer.length = 1024) {orderId : Int}
    (nonnegative : 0 ≤ orderId) (bounded : orderId < 2 ^ 63) (entry : OrderEntry) :
    (entryQuery buffer orderId entry).isSome := by
  have base : entryBase.length = 64 := by decide
  have comma : (ascii ",").length = 1 := rfl
  have closing : (ascii ")").length = 1 := rfl
  have idWidth : (itoa orderId).length ≤ 19 := by
    rw [itoa_nonnegative (by omega)]
    exact decimal_length_le (by omega) (by omega)
  have idDigits := countDigits_le (Int32.ofInt orderId)
  have productDigits := countDigits_le entry.productId
  have quantityDigits := countDigits_le entry.quantity
  rw [countDigits_eq] at productDigits quantityDigits
  obtain ⟨q₁, write₁, size₁⟩ := @sprintfAt_fits _ buffer 0 entryBase size (by omega)
  obtain ⟨q₂, write₂, size₂⟩ := @sprintfAt_fits _ q₁ entryBase.length (itoa orderId ++ ascii ",") size₁
    (by rw [List.length_append]; omega)
  obtain ⟨q₃, write₃, size₃⟩ := @sprintfAt_fits _ q₂
    (entryBase.length + (countDigits (Int32.ofInt orderId) + 1))
    (itoa entry.productId.toInt ++ ascii ",") size₂ (by rw [List.length_append]; omega)
  obtain ⟨q₄, write₄, size₄⟩ := @sprintfAt_fits _ q₃
    (entryBase.length + (countDigits (Int32.ofInt orderId) + 1) + (countDigits entry.productId + 1))
    (itoa entry.quantity.toInt ++ ascii ")") size₃
    (by rw [List.length_append, countDigits_eq entry.productId]; omega)
  obtain ⟨q₅, write₅, -⟩ := @sprintfAt_fits _ q₄
    (entryBase.length + (countDigits (Int32.ofInt orderId) + 1) + (countDigits entry.productId + 1) +
      (countDigits entry.quantity + 1)) [] size₄
    (by rw [countDigits_eq entry.productId, countDigits_eq entry.quantity, List.length_nil]; omega)
  simp [entryQuery, write₁, write₂, write₃, write₄, write₅]

def entryTokens : List Token := insertTokens orderEntryTable orderEntryColumns

set_option maxRecDepth 2000 in
theorem scan_entryBase (rest : Bytes) :
    scan .blank (entryBase ++ rest) = entryTokens ++ scan .blank rest := rfl

theorem scan_itoa_comma (value : Int) (rest : Bytes) :
    scan .blank (itoa value ++ ascii "," ++ rest) =
      signedTokens (value < 0) (decimal value.natAbs) ++ .comma :: scan .blank rest := by
  have comma : itoa value ++ ascii "," ++ rest = itoa value ++ 44 :: rest := by
    rw [List.append_assoc]
    rfl
  rw [comma, scan_itoa value (by decide)]
  rfl

theorem scan_itoa_closing (value : Int) :
    scan .blank (itoa value ++ ascii ")") =
      signedTokens (value < 0) (decimal value.natAbs) ++ [.closing] :=
  scan_itoa value (by decide) []

theorem entryText_exact {orderId : Int} (precise : IdExact orderId) (entry : OrderEntry) :
    entryText orderId entry = entryBase ++ (itoa orderId ++ ascii "," ++
      (itoa entry.productId.toInt ++ ascii "," ++ (itoa entry.quantity.toInt ++ ascii ")"))) := by
  have comma : (ascii ",").length = 1 := rfl
  have closing : (ascii ")").length = 1 := rfl
  have first : (itoa orderId ++ ascii ",").length = countDigits (Int32.ofInt orderId) + 1 := by
    rw [List.length_append, comma, precise]
  have last : (itoa entry.quantity.toInt ++ ascii ")").length = countDigits entry.quantity + 1 := by
    rw [List.length_append, closing, countDigits_eq]
  rw [entryText, assemble, if_neg (by omega), List.take_of_length_le (by omega),
    List.take_of_length_le (by omega)]
  simp only [List.append_assoc]

theorem entryText_parse_exact {orderId : Int} (precise : IdExact orderId) (entry : OrderEntry) :
    parse (entryText orderId entry) = [some (.insert orderEntryTable orderEntryColumns
      [.integer orderId, .integer entry.productId.toInt, .integer entry.quantity.toInt])] := by
  have scanned := scan_entryBase (itoa orderId ++ ascii "," ++
    (itoa entry.productId.toInt ++ ascii "," ++ (itoa entry.quantity.toInt ++ ascii ")")))
  rw [scan_itoa_comma, scan_itoa_comma, scan_itoa_closing] at scanned
  rw [entryText_exact precise entry, parse_insert (by decide) ?_ scanned, completeRow,
    values_signed_comma, values_signed_comma, values_signed_closing, numberValue_itoa,
    numberValue_itoa, numberValue_itoa]
  · rfl
  · simp only [List.mem_append, List.mem_cons, not_or]
    exact ⟨semicolon_not_signed _ _, by simp, semicolon_not_signed _ _, by simp,
      semicolon_not_signed _ _, by simp⟩

theorem entryText_broken_short {orderId : Int} (entry : OrderEntry)
    (short : (itoa orderId).length < countDigits (Int32.ofInt orderId)) :
    BrokenInsert (entryText orderId entry) := by
  have comma : (ascii ",").length = 1 := rfl
  have cut : entryText orderId entry = entryBase ++ (itoa orderId ++ ascii "," ++ []) := by
    rw [entryText, assemble, if_pos (by rw [List.length_append, comma]; omega), List.append_nil]
  have scanned := scan_entryBase (itoa orderId ++ ascii "," ++ [])
  rw [scan_itoa_comma] at scanned
  rw [cut]
  refine ⟨_, _, _, by decide, .unclosed ?_, scanned⟩
  intro token member
  rcases List.mem_append.mp member with number | comma
  · exact signedTokens_plain _ _ token number
  · rw [List.mem_singleton.mp comma]
    rfl

/-- An id that is wider than predicted runs into the product's, and a value is missing. -/
theorem entryText_broken_wide {orderId : Int} (entry : OrderEntry)
    (wide : countDigits (Int32.ofInt orderId) < (itoa orderId).length) :
    BrokenInsert (entryText orderId entry) := by
  have closing : (ascii ")").length = 1 := rfl
  have last : (itoa entry.quantity.toInt ++ ascii ")").length = countDigits entry.quantity + 1 := by
    rw [List.length_append, closing, countDigits_eq]
  have positive := countDigits_positive (Int32.ofInt orderId)
  obtain ⟨width, some_digit, cut⟩ := signed_take (orderId < 0) (decimal orderId.natAbs)
    (by omega : 2 ≤ countDigits (Int32.ofInt orderId) + 1)
  have shape := (decimal_numeral orderId.natAbs).take some_digit
  have text : entryText orderId entry = entryBase ++
      (signed (orderId < 0) ((decimal orderId.natAbs).take width) ++ (itoa entry.productId.toInt ++
        ascii "," ++ (itoa entry.quantity.toInt ++ ascii ")"))) := by
    rw [entryText, assemble, if_neg (by rw [List.length_append]; omega),
      List.take_append_of_le_length (by omega), List.take_of_length_le (Nat.le_of_eq last), ← cut, itoa]
    simp only [List.append_assoc]
  have amount := scan_itoa_closing entry.quantity.toInt
  -- the tokens of both ids, with a sign between them or joined
  obtain ⟨ids, numeric, none_left, joined⟩ : ∃ ids : List Token, (∀ token ∈ ids, token.isNumeric = true) ∧
      ids.count .comma = 0 ∧
      scan .blank (signed (orderId < 0) ((decimal orderId.natAbs).take width) ++ (itoa entry.productId.toInt ++
        ascii "," ++ (itoa entry.quantity.toInt ++ ascii ")"))) =
        ids ++ .comma :: scan .blank (itoa entry.quantity.toInt ++ ascii ")") := by
    by_cases negative : entry.productId.toInt < 0
    · have behind : itoa entry.productId.toInt ++ ascii "," ++ (itoa entry.quantity.toInt ++ ascii ")") =
          hyphen :: (decimal entry.productId.toInt.natAbs ++ ascii "," ++
            (itoa entry.quantity.toInt ++ ascii ")")) := by
        rw [itoa_negative negative]
        rfl
      have number := scan_itoa_comma entry.productId.toInt (itoa entry.quantity.toInt ++ ascii ")")
      rw [behind, decide_eq_true negative] at number
      refine ⟨signedTokens (orderId < 0) ((decimal orderId.natAbs).take width) ++
        signedTokens true (decimal entry.productId.toInt.natAbs), ?_, ?_, ?_⟩
      · exact List.forall_mem_append.mpr ⟨signedTokens_numeric _ _, signedTokens_numeric _ _⟩
      · rw [List.count_append, count_comma_signed, count_comma_signed]
      · rw [behind, scan_signed_then _ shape (by decide), number, List.append_assoc]
    · have together : signed (orderId < 0) ((decimal orderId.natAbs).take width) ++
          (itoa entry.productId.toInt ++ ascii "," ++ (itoa entry.quantity.toInt ++ ascii ")")) =
          signed (orderId < 0)
            ((decimal orderId.natAbs).take width ++ decimal entry.productId.toInt.natAbs) ++
            44 :: (itoa entry.quantity.toInt ++ ascii ")") := by
        rw [itoa_nonnegative (by omega), ← signed_append]
        simp only [List.append_assoc]
        rfl
      refine ⟨signedTokens (orderId < 0)
        ((decimal orderId.natAbs).take width ++ decimal entry.productId.toInt.natAbs),
        signedTokens_numeric _ _, count_comma_signed _ _, ?_⟩
      rw [together, scan_signed_then _ (shape.append (decimal_numeral _)) (by decide)]
      rfl
  have scanned := scan_entryBase
    (signed (orderId < 0) ((decimal orderId.natAbs).take width) ++ (itoa entry.productId.toInt ++
      ascii "," ++ (itoa entry.quantity.toInt ++ ascii ")")))
  rw [← text, joined, amount, ← List.cons_append, ← List.append_assoc ids] at scanned
  refine ⟨_, _, _, by decide, .missing ?_ ?_, scanned⟩
  · refine List.forall_mem_append.mpr ⟨numeric, ?_⟩
    exact List.forall_mem_cons.mpr ⟨rfl, signedTokens_numeric _ _⟩
  · rw [List.count_append, none_left, List.count_cons_self, count_comma_signed]
    decide

theorem entryQuery_run {c : Circumstances} {buffer query : Bytes} {orderId : Int}
    {entry : OrderEntry} (refused : Bool) (done : entryQuery buffer orderId entry = some query)
    (db : Database) :
    runQuery c.sqlite refused query db =
      if refused = false ∧ IdExact orderId then
        ⟨true, db.insertEntry c.sqlite orderId entry.productId.toInt entry.quantity.toInt, []⟩
      else ⟨false, db, []⟩ := by
  have text := entryQuery_text done
  cases refused with
  | true => rw [runQuery_refused, if_neg (by simp)]
  | false =>
      rcases Nat.lt_trichotomy (itoa orderId).length (countDigits (Int32.ofInt orderId)) with
        short | precise | wide
      · rw [runQuery_malformed c.sqlite false (text ▸ entryText_broken_short entry short),
          if_neg fun both => absurd both.2 (Nat.ne_of_lt short)]
      · rw [runQuery_accepted c.sqlite (text ▸ entryText_parse_exact precise entry)
          (.entry (plain_orderId precise) (plain_int _) (plain_int _)), if_pos ⟨rfl, precise⟩]
        simp [carriedOut, execStatement, orderEntryTable, ordersTable, ascii]
      · rw [runQuery_malformed c.sqlite false (text ▸ entryText_broken_wide entry wide),
          if_neg fun both => absurd both.2 (Nat.ne_of_gt wide)]

end Iac
