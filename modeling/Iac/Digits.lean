import Iac.Library.Inevitable
import Iac.Library.Text

/-! `countDigits` of `common/lib.c`, on which every hand-computed text position of
the program rests. -/

namespace Iac

open CText Inevitable

/-- The loop of `countDigits`, with the number of rounds it may still take. -/
def countDigitsLoop : Nat → Int → Nat → Nat
  | 0, _, i => i
  | rounds + 1, number, i =>
      if number ≠ 0 then countDigitsLoop rounds (number.tdiv 10) (i + 1) else i

/-- No `int` has more than ten decimal digits. -/
def countDigits (number : Int32) : Nat :=
  countDigitsLoop 10 number.toInt (if number.toInt ≤ 0 then 1 else 0)

theorem countDigitsLoop_zero (rounds i : Nat) : countDigitsLoop rounds 0 i = i := by
  cases rounds <;> simp [countDigitsLoop]

theorem countDigitsLoop_length {rounds : Nat} {number : Int} (nonzero : number ≠ 0)
    (bound : number.natAbs < 10 ^ rounds) (i : Nat) :
    countDigitsLoop rounds number i = i + (decimal number.natAbs).length := by
  induction rounds generalizing number i with
  | zero => omega
  | succ rounds ih =>
      have quotient : (number.tdiv 10).natAbs = number.natAbs / 10 := Int.natAbs_tdiv number 10
      rw [countDigitsLoop, if_pos nonzero]
      by_cases small : number.natAbs < 10
      · have done : number.tdiv 10 = 0 := by omega
        rw [done, countDigitsLoop_zero, decimal_small small]
        rfl
      · have remains : number.tdiv 10 ≠ 0 := by omega
        have smaller : number.natAbs / 10 < 10 ^ rounds := by
          rw [Nat.pow_succ] at bound
          omega
        rw [ih remains (by rw [quotient]; exact smaller), quotient,
          @decimal_step number.natAbs (by omega), List.length_append, List.length_singleton]
        omega

/-- `countDigits` is the width of what `%i` prints, sign included. -/
theorem countDigits_eq (number : Int32) : countDigits number = (itoa number.toInt).length := by
  have lower := number.le_toInt
  have upper := number.toInt_lt
  have bound : number.toInt.natAbs < 10 ^ 10 := by omega
  unfold countDigits
  rcases Int.lt_trichotomy number.toInt 0 with negative | zero | positive
  · rw [countDigitsLoop_length (by omega) bound, itoa_negative negative, if_pos (by omega),
      List.length_cons]
    omega
  · rw [zero]
    decide
  · rw [countDigitsLoop_length (by omega) bound, itoa_nonnegative (by omega), if_neg (by omega)]
    omega

theorem countDigits_positive (number : Int32) : 0 < countDigits number := by
  rw [countDigits_eq]
  exact itoa_length_positive _

theorem countDigits_le (number : Int32) : countDigits number ≤ 11 := by
  have lower := number.le_toInt
  have upper := number.toInt_lt
  have digits : (decimal number.toInt.natAbs).length ≤ 10 :=
    decimal_length_le (by omega) (by omega)
  rw [countDigits_eq, itoa, signed_length]
  split <;> omega

/-! The loop on `int`s, round by round. -/

structure Counting where
  number : Int32
  i : Int32
  deriving DecidableEq, Repr

def Counting.start (number : Int32) : Counting where
  number := number
  i := if number ≤ 0 then 1 else 0

def Counting.next (s : Counting) : Option Counting :=
  if s.number ≠ 0 then some ⟨s.number / 10, s.i + 1⟩ else none

/-- The loop ends, and this is its result. -/
def Counts (s : Counting) (result : Nat) : Prop :=
  Inevitably (fun s after => s.next = some after) (fun s => s.next = none ∧ s.i.toInt = (result : Int)) s

theorem toInt_eq_zero {number : Int32} : number.toInt = 0 ↔ number = 0 := by
  rw [← Int32.toInt_zero, Int32.toInt_inj]

theorem counts_done {s : Counting} {result : Nat} (zero : s.number = 0)
    (counted : s.i.toInt = (result : Int)) : Counts s result := by
  refine .now ⟨?_, counted⟩
  rw [Counting.next, if_neg (not_not_intro zero)]

theorem counts_round {s : Counting} {result : Nat} (nonzero : s.number ≠ 0) :
    Counts s result ↔ Counts ⟨s.number / 10, s.i + 1⟩ result := by
  have moves : s.next = some ⟨s.number / 10, s.i + 1⟩ := if_pos nonzero
  refine inevitably_next ?_ moves
  rintro ⟨stopped, _⟩
  rw [moves] at stopped
  contradiction

theorem div_ten (number : Int32) : (number / 10).toInt = number.toInt.tdiv 10 :=
  Int32.toInt_div_of_ne_right number 10 (by decide)

theorem toInt_succ {i : Int32} {count : Nat} (counted : i.toInt = (count : Int))
    (small : count + 1 < 2 ^ 31) : (i + 1).toInt = ((count + 1 : Nat) : Int) := by
  have one : (1 : Int32).toInt = 1 := rfl
  rw [Int32.toInt_add, one, counted, Int.bmod_eq_of_le (by omega) (by omega)]
  omega

/-- The counter stays an `int` in all rounds. -/
theorem counts_loop {rounds i : Nat} {s : Counting} (bound : s.number.toInt.natAbs < 10 ^ rounds)
    (counted : s.i.toInt = (i : Int)) (room : i + rounds < 2 ^ 31) :
    Counts s (countDigitsLoop rounds s.number.toInt i) := by
  induction rounds generalizing s i with
  | zero => exact counts_done (toInt_eq_zero.mp (by omega)) counted
  | succ rounds ih =>
      by_cases zero : s.number = 0
      · refine counts_done zero ?_
        rw [zero, Int32.toInt_zero, countDigitsLoop_zero]
        exact counted
      · have quotient : (s.number / 10).toInt.natAbs < 10 ^ rounds := by
          have tenth : (s.number / 10).toInt.natAbs = s.number.toInt.natAbs / 10 := by
            rw [div_ten]
            exact Int.natAbs_tdiv s.number.toInt 10
          rw [Nat.pow_succ] at bound
          omega
        have behind := @ih (i + 1) ⟨s.number / 10, s.i + 1⟩ quotient (toInt_succ counted (by omega))
          (by omega)
        rw [countDigitsLoop, if_pos (mt toInt_eq_zero.mp zero), ← div_ten]
        exact (counts_round zero).mpr behind

/-- One initial value serves zero and the sign. -/
theorem counting_start (number : Int32) :
    (Counting.start number).i.toInt = (((if number.toInt ≤ 0 then 1 else 0) : Nat) : Int) := by
  have sign : number ≤ 0 ↔ number.toInt ≤ 0 := by
    rw [Int32.le_iff_toInt_le, Int32.toInt_zero]
  by_cases special : number.toInt ≤ 0
  · rw [Counting.start, if_pos (sign.mpr special), if_pos special]
    rfl
  · rw [Counting.start, if_neg (mt sign.mp special), if_neg special]
    rfl

theorem counts_digits (number : Int32) : Counts (.start number) (countDigits number) := by
  have lower := number.le_toInt
  have upper := number.toInt_lt
  have bound : (Counting.start number).number.toInt.natAbs < 10 ^ 10 := by
    change number.toInt.natAbs < 10 ^ 10
    omega
  exact counts_loop bound (counting_start number) (by split <;> omega)

end Iac
