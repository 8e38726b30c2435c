import Mathlib.Data.List.Induction
import Mathlib.Data.List.TakeWhile
import Mathlib.Data.Nat.Digits.Defs
import Mathlib.Tactic.Common

/-! Byte strings of C programs: string constants, little-endian words, and the
decimal text that `printf` gives for integers. -/

namespace CText

abbrev Bytes := List UInt8

-- Bytes are finitely many, but what holds of a list of them is not decided by trying all.
instance (priority := high) decidableAll {α : Type} (items : List α) (p : α → Prop) [DecidablePred p] :
    Decidable (∀ item ∈ items, p item) := List.decidableBAll p items

def ascii (text : String) : Bytes := text.toList.map fun letter => UInt8.ofNat letter.toNat

/-! Fixed-width little-endian words. -/

def littleEndian : Nat → Nat → Bytes
  | 0, _ => []
  | width + 1, value => UInt8.ofNat (value % 256) :: littleEndian width (value / 256)

def fromLittleEndian : Bytes → Nat
  | [] => 0
  | byte :: rest => byte.toNat + 256 * fromLittleEndian rest

@[simp] theorem littleEndian_length (width value : Nat) :
    (littleEndian width value).length = width := by
  induction width generalizing value with
  | zero => rfl
  | succ width ih => simp [littleEndian, ih]

theorem fromLittleEndian_littleEndian (width value : Nat) :
    fromLittleEndian (littleEndian width value) = value % 256 ^ width := by
  induction width generalizing value with
  | zero => simp [littleEndian, fromLittleEndian, Nat.mod_one]
  | succ width ih =>
      have split : value % 256 ^ (width + 1) = value % 256 + 256 * (value / 256 % 256 ^ width) := by
        rw [Nat.pow_succ', Nat.mod_mul]
      simp only [littleEndian, fromLittleEndian, ih, split]
      simp

theorem fromLittleEndian_lt (bytes : Bytes) :
    fromLittleEndian bytes < 256 ^ bytes.length := by
  induction bytes with
  | nil => simp [fromLittleEndian]
  | cons byte rest ih =>
      have bound : byte.toNat < 256 := byte.toNat_lt
      simp only [fromLittleEndian, List.length_cons, Nat.pow_succ]
      omega

/-- The four bytes of a C `int`. -/
def intBytes (value : Int32) : Bytes := littleEndian 4 value.toUInt32.toNat

def bytesInt (bytes : Bytes) : Int32 := (UInt32.ofNat (fromLittleEndian bytes)).toInt32

/-- The eight bytes of a `size_t`. -/
def sizeBytes (value : Nat) : Bytes := littleEndian 8 value

@[simp] theorem intBytes_length (value : Int32) : (intBytes value).length = 4 :=
  littleEndian_length 4 _

@[simp] theorem sizeBytes_length (value : Nat) : (sizeBytes value).length = 8 :=
  littleEndian_length 8 _

@[simp] theorem bytesInt_intBytes (value : Int32) : bytesInt (intBytes value) = value := by
  have bound : value.toUInt32.toNat < 256 ^ 4 := value.toUInt32.toNat_lt
  simp only [bytesInt, intBytes, fromLittleEndian_littleEndian, Nat.mod_eq_of_lt bound]
  simp

theorem fromLittleEndian_sizeBytes {value : Nat} (bound : value < 2 ^ 64) :
    fromLittleEndian (sizeBytes value) = value := by
  rw [sizeBytes, fromLittleEndian_littleEndian]
  exact Nat.mod_eq_of_lt bound

theorem littleEndian_fromLittleEndian (bytes : Bytes) :
    littleEndian bytes.length (fromLittleEndian bytes) = bytes := by
  induction bytes with
  | nil => rfl
  | cons byte rest ih =>
      have bound : byte.toNat < 256 := byte.toNat_lt
      have high : (byte.toNat + 256 * fromLittleEndian rest) / 256 = fromLittleEndian rest := by omega
      rw [List.length_cons, fromLittleEndian, littleEndian, high, ih]
      congr 1
      apply UInt8.toNat.inj
      simp

theorem sizeBytes_fromLittleEndian {bytes : Bytes} (word : bytes.length = 8) :
    sizeBytes (fromLittleEndian bytes) = bytes := by
  rw [sizeBytes, ← word]
  exact littleEndian_fromLittleEndian bytes

theorem intBytes_bytesInt {bytes : Bytes} (word : bytes.length = 4) :
    intBytes (bytesInt bytes) = bytes := by
  have bound := fromLittleEndian_lt bytes
  rw [word] at bound
  have value : (bytesInt bytes).toUInt32.toNat = fromLittleEndian bytes := by
    simp only [bytesInt, UInt32.toUInt32_toInt32]
    exact UInt32.toNat_ofNat_of_lt' bound
  rw [intBytes, value, ← word]
  exact littleEndian_fromLittleEndian bytes

theorem fromLittleEndian_word (bits : UInt32) :
    UInt32.ofNat (fromLittleEndian (littleEndian 4 bits.toNat)) = bits := by
  have bound : bits.toNat < 256 ^ 4 := bits.toNat_lt
  rw [fromLittleEndian_littleEndian, Nat.mod_eq_of_lt bound]
  exact UInt32.ofNat_toNat

theorem intBytes_ofInt {value : Nat} (small : value < 2 ^ 31) :
    intBytes (Int32.ofInt value) = littleEndian 4 value := by
  have word : (Int32.ofInt value).toUInt32.toNat = value := by
    change (BitVec.ofInt 32 value).toNat = value
    rw [BitVec.toNat_ofInt]
    omega
  rw [intBytes, word]

/-! Decimal text. -/

def digit (value : Nat) : UInt8 := UInt8.ofNat (48 + value)

def hyphen : UInt8 := 45

def isDigit (byte : UInt8) : Bool := 48 ≤ byte && byte ≤ 57

def decimal (value : Nat) : Bytes :=
  if value = 0 then [digit 0] else ((Nat.digits 10 value).map digit).reverse

def signed (negative : Bool) (text : Bytes) : Bytes := if negative then hyphen :: text else text

/-- What `%i`, `%li` and `%lli` print. -/
def itoa (value : Int) : Bytes := signed (value < 0) (decimal value.natAbs)

/-- The value of a run of decimal digits. -/
def numeral (text : Bytes) : Nat :=
  text.foldl (fun value byte => 10 * value + (byte.toNat - 48)) 0

theorem isDigit_digit {value : Nat} (bound : value < 10) : isDigit (digit value) = true := by
  have cases : ∀ value < 10, isDigit (digit value) = true := by decide
  exact cases value bound

theorem digit_toNat {value : Nat} (bound : value < 10) : (digit value).toNat - 48 = value := by
  have cases : ∀ value < 10, (digit value).toNat - 48 = value := by decide
  exact cases value bound

theorem decimal_small {value : Nat} (bound : value < 10) : decimal value = [digit value] := by
  by_cases zero : value = 0
  · simp [decimal, zero]
  · simp [decimal, zero, Nat.digits_of_lt 10 value zero bound]

theorem decimal_step {value : Nat} (bound : 10 ≤ value) :
    decimal value = decimal (value / 10) ++ [digit (value % 10)] := by
  have nonzero : value ≠ 0 := by omega
  have quotient : value / 10 ≠ 0 := by omega
  simp [decimal, nonzero, quotient, Nat.digits_eq_cons_digits_div (by omega : 1 < 10) nonzero]

/-- Decimal text, one digit at a time: induction on the number divided by ten. -/
theorem decimal_induction {motive : Nat → Prop}
    (small : ∀ value < 10, motive value)
    (step : ∀ value, 10 ≤ value → motive (value / 10) → motive value) (value : Nat) :
    motive value := by
  induction value using Nat.strongRecOn with
  | ind value ih =>
      by_cases bound : value < 10
      · exact small value bound
      · exact step value (by omega) (ih (value / 10) (by omega))

theorem decimal_digits (value : Nat) : ∀ byte ∈ decimal value, isDigit byte = true := by
  induction value using decimal_induction with
  | small value bound => simp [decimal_small bound, isDigit_digit bound]
  | step value bound ih =>
      rw [decimal_step bound]
      intro byte member
      rcases List.mem_append.mp member with earlier | last
      · exact ih byte earlier
      · rw [List.mem_singleton.mp last]
        exact isDigit_digit (Nat.mod_lt _ (by omega))

theorem decimal_ne_nil (value : Nat) : decimal value ≠ [] := by
  by_cases bound : value < 10
  · simp [decimal_small bound]
  · simp [decimal_step (by omega : 10 ≤ value)]

theorem numeral_decimal (value : Nat) : numeral (decimal value) = value := by
  induction value using decimal_induction with
  | small value bound => simp [decimal_small bound, numeral, digit_toNat bound]
  | step value bound ih =>
      rw [decimal_step bound, numeral, List.foldl_append, ← numeral, ih]
      simp only [List.foldl_cons, List.foldl_nil, digit_toNat (Nat.mod_lt value (by omega))]
      omega

theorem decimal_injective {left right : Nat} (same : decimal left = decimal right) :
    left = right := by
  rw [← numeral_decimal left, same, numeral_decimal]

theorem decimal_length_le {value width : Nat} (positive : 0 < width) (bound : value < 10 ^ width) :
    (decimal value).length ≤ width := by
  induction width generalizing value with
  | zero => omega
  | succ width ih =>
      by_cases small : value < 10
      · simp [decimal_small small]
      · have widthPositive : 0 < width := by
          rcases Nat.eq_zero_or_pos width with zero | positive
          · subst zero
            omega
          · exact positive
        have quotient := @ih (value / 10) widthPositive (by rw [Nat.pow_succ] at bound; omega)
        rw [decimal_step (by omega), List.length_append]
        simpa using quotient

theorem signed_length (negative : Bool) (text : Bytes) :
    (signed negative text).length = text.length + if negative then 1 else 0 := by
  cases negative <;> rfl

theorem signed_append (negative : Bool) (text more : Bytes) :
    signed negative text ++ more = signed negative (text ++ more) := by
  cases negative <;> rfl

theorem signed_take (negative : Bool) (text : Bytes) {width : Nat} (behind : 2 ≤ width) :
    ∃ digits, 1 ≤ digits ∧ (signed negative text).take width = signed negative (text.take digits) := by
  cases negative
  · exact ⟨width, by omega, rfl⟩
  · obtain ⟨digits, rfl⟩ : ∃ digits, width = digits + 1 := ⟨width - 1, by omega⟩
    exact ⟨digits, by omega, rfl⟩

theorem digit_ne_nul {byte : UInt8} (isNumber : isDigit byte = true) : byte ≠ 0 := by
  rintro rfl
  exact absurd isNumber (by decide)

theorem signed_no_nul (negative : Bool) {text : Bytes} (clean : (0 : UInt8) ∉ text) :
    (0 : UInt8) ∉ signed negative text := by
  cases negative
  · exact clean
  · simpa [signed, hyphen] using clean

theorem itoa_no_nul (value : Int) : (0 : UInt8) ∉ itoa value :=
  signed_no_nul _ fun member => digit_ne_nul (decimal_digits _ 0 member) rfl

theorem itoa_length_positive (value : Int) : 0 < (itoa value).length := by
  have digits := List.length_pos_iff.mpr (decimal_ne_nil value.natAbs)
  rw [itoa, signed_length]
  omega

theorem itoa_nonnegative {value : Int} (nonnegative : 0 ≤ value) :
    itoa value = decimal value.natAbs := by
  simp [itoa, signed, Int.not_lt.mpr nonnegative]

theorem itoa_negative {value : Int} (negative : value < 0) :
    itoa value = hyphen :: decimal value.natAbs := by
  simp [itoa, signed, negative]

theorem decimal_ne_hyphen (value : Nat) (rest : Bytes) : decimal value ≠ hyphen :: rest := by
  intro same
  have number := decimal_digits value hyphen (by rw [same]; exact List.mem_cons_self)
  exact absurd number (by decide)

theorem itoa_injective {left right : Int} (same : itoa left = itoa right) : left = right := by
  rcases Int.lt_or_le left 0 with leftNegative | leftPositive
  · rw [itoa_negative leftNegative] at same
    rcases Int.lt_or_le right 0 with rightNegative | rightPositive
    · rw [itoa_negative rightNegative] at same
      have magnitude := decimal_injective (List.cons_inj_right hyphen |>.mp same)
      omega
    · rw [itoa_nonnegative rightPositive] at same
      exact absurd same.symm (decimal_ne_hyphen _ _)
  · rw [itoa_nonnegative leftPositive] at same
    rcases Int.lt_or_le right 0 with rightNegative | rightPositive
    · rw [itoa_negative rightNegative] at same
      exact absurd same (decimal_ne_hyphen _ _)
    · rw [itoa_nonnegative rightPositive] at same
      have magnitude := decimal_injective same
      omega

/-! Reading decimal text. -/

theorem numeral_append (text : Bytes) (byte : UInt8) :
    numeral (text ++ [byte]) = 10 * numeral text + (byte.toNat - 48) := by
  rw [numeral, List.foldl_append, ← numeral]
  rfl

theorem numeral_lt {text : Bytes} (digits : ∀ byte ∈ text, isDigit byte = true) :
    numeral text < 10 ^ text.length := by
  induction text using List.reverseRecOn with
  | nil => decide
  | append_singleton text byte ih =>
      have earlier := ih fun other member => digits other (List.mem_append_left _ member)
      have last := digits byte (by simp)
      simp only [isDigit, Bool.and_eq_true, decide_eq_true_eq, UInt8.le_iff_toNat_le] at last
      have upper : byte.toNat ≤ 57 := last.2
      rw [numeral_append, List.length_append, List.length_singleton, Nat.pow_succ]
      omega

theorem decimal_head (value : Nat) : (decimal value).head? ≠ some 48 ∨ value = 0 := by
  induction value using decimal_induction with
  | small value bound =>
      have cases : ∀ value < 10, [digit value].head? ≠ some 48 ∨ value = 0 := by decide
      rw [decimal_small bound]
      exact cases value bound
  | step value bound ih =>
      obtain ⟨first, rest, shape⟩ := List.exists_cons_of_ne_nil (decimal_ne_nil (value / 10))
      rw [decimal_step bound, shape, List.cons_append, List.head?_cons]
      rw [shape, List.head?_cons] at ih
      rcases ih with proper | zero
      · exact .inl proper
      · omega

/-- Digits without a leading zero are the decimal text of their value. -/
theorem decimal_of_numeral {text : Bytes} (digits : ∀ byte ∈ text, isDigit byte = true)
    (some_text : text ≠ []) (canonical : text.head? ≠ some 48 ∨ text.length = 1) :
    decimal (numeral text) = text := by
  induction text using List.reverseRecOn with
  | nil => contradiction
  | append_singleton text byte ih =>
      have last := digits byte (by simp)
      simp only [isDigit, Bool.and_eq_true, decide_eq_true_eq, UInt8.le_iff_toNat_le] at last
      have lower : 48 ≤ byte.toNat := last.1
      have upper : byte.toNat ≤ 57 := last.2
      have same : digit (byte.toNat - 48) = byte := by
        rw [digit, Nat.add_sub_cancel' lower]
        exact UInt8.ofNat_toNat
      rw [numeral_append]
      cases text with
      | nil =>
          rw [decimal_small (by simp [numeral]; omega)]
          simpa [numeral] using same
      | cons first rest =>
          have proper : (first :: rest).head? ≠ some 48 := by
            simpa using canonical
          have earlier := ih (fun other member => digits other (List.mem_append_left _ member))
            (List.cons_ne_nil _ _) (.inl proper)
          have positive : numeral (first :: rest) ≠ 0 := by
            intro zero
            rw [zero] at earlier
            rw [← earlier] at proper
            exact proper (by decide)
          rw [decimal_step (by omega)]
          have quotient : (10 * numeral (first :: rest) + (byte.toNat - 48)) / 10 =
              numeral (first :: rest) := by omega
          have remainder : (10 * numeral (first :: rest) + (byte.toNat - 48)) % 10 =
              byte.toNat - 48 := by omega
          rw [quotient, remainder, earlier, same]

def isspace (byte : UInt8) : Bool := byte = 32 || 9 ≤ byte && byte ≤ 13

/-- `strtol` in base ten, which saturates. -/
def strtol (text : Bytes) : Int :=
  let text := text.dropWhile isspace
  let negative := text.head? = some hyphen
  let digits := if negative ∨ text.head? = some 43 then text.tail else text
  let value : Int := numeral (digits.takeWhile isDigit)
  max (-2 ^ 63) (min (2 ^ 63 - 1) (if negative then -value else value))

theorem isDigit_plain {byte : UInt8} (isNumber : isDigit byte = true) :
    isspace byte = false ∧ byte ≠ hyphen ∧ byte ≠ 43 := by
  simp only [isDigit, Bool.and_eq_true, decide_eq_true_eq, UInt8.le_iff_toNat_le] at isNumber
  have lower : 48 ≤ byte.toNat := isNumber.1
  simp only [isspace, hyphen, ne_eq, Bool.or_eq_false_iff, Bool.and_eq_false_iff,
    decide_eq_false_iff_not, UInt8.le_iff_toNat_le, ← UInt8.toNat_inj, UInt8.reduceToNat]
  omega

theorem strtol_decimal {value : Nat} (small : value < 2 ^ 63) : strtol (decimal value) = value := by
  have digits := decimal_digits value
  have whole : (decimal value).takeWhile isDigit = decimal value :=
    List.takeWhile_eq_self_iff.mpr digits
  have number := numeral_decimal value
  obtain ⟨first, rest, shape⟩ := List.exists_cons_of_ne_nil (decimal_ne_nil value)
  obtain ⟨noSpace, noMinus, noPlus⟩ := isDigit_plain (digits first (by simp [shape]))
  have trimmed : (decimal value).dropWhile isspace = decimal value := by
    rw [shape, List.dropWhile_cons_of_neg (by simp [noSpace])]
  have unsigned : (decimal value).head? ≠ some hyphen ∧ (decimal value).head? ≠ some 43 := by
    rw [shape, List.head?_cons]
    simp [noMinus, noPlus]
  unfold strtol
  rw [trimmed]
  simp only [unsigned.1, unsigned.2, or_self, if_false, whole, number]
  omega

theorem strtol_hyphen {text : Bytes} (digits : ∀ byte ∈ text, isDigit byte = true)
    (small : numeral text ≤ 2 ^ 63) : strtol (hyphen :: text) = -(numeral text : Int) := by
  have whole : text.takeWhile isDigit = text := List.takeWhile_eq_self_iff.mpr digits
  have trimmed : (hyphen :: text).dropWhile isspace = hyphen :: text :=
    List.dropWhile_cons_of_neg (by decide)
  unfold strtol
  rw [trimmed]
  simp only [List.head?_cons, List.tail_cons, true_or, if_true, whole]
  omega

/-- A number is read back from the text that is printed for it. -/
theorem strtol_itoa {value : Int} (lower : -2 ^ 63 ≤ value) (upper : value < 2 ^ 63) :
    strtol (itoa value) = value := by
  by_cases negative : value < 0
  · rw [itoa_negative negative, strtol_hyphen (decimal_digits value.natAbs), numeral_decimal]
    · omega
    · rw [numeral_decimal]
      omega
  · rw [itoa_nonnegative (by omega), strtol_decimal (by omega)]
    omega
end CText
