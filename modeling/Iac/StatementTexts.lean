import Iac.Client
import Iac.PlacementProperties

/-! The texts that `store_verified_order` and `update_stock` build in their arrays: whether they
are what the format strings say, and whether they fit. -/

namespace Iac

open CText Sql Binary32

/-! The texts that the format strings stand for. -/

def orderFormat (total : Single) (address : Bytes) (timestamp : Int) : Bytes :=
  orderBase ++ fixed2 total ++ ascii "," ++ ascii "\"" ++ address ++ ascii "\"," ++ itoa timestamp ++
    ascii ")"

def entryFormat (orderId : Int) (entry : OrderEntry) : Bytes :=
  entryBase ++ itoa orderId ++ ascii "," ++ itoa entry.productId.toInt ++ ascii "," ++
    itoa entry.quantity.toInt ++ ascii ")"

/-- In an array of 1024 bytes, whatever it holds before. -/
structure AsFormatted (c : Circumstances) (total : Single) (address : Bytes) (orderId : Int)
    (items : List OrderEntry) : Prop where
  order : ∀ query, orderQuery c total address = some query →
    cstring query = orderFormat total address c.timestamp
  entries : ∀ entry ∈ items, ∀ buffer query, buffer.length = 1024 →
    entryQuery buffer orderId entry = some query → cstring query = entryFormat orderId entry

/-- Rounding to two decimals does not carry into a new digit. -/
def KeepsDigits (units : Int) : Prop :=
  ∀ digits, 1 ≤ digits → units < 10 ^ digits * one →
    nearestEven (units.natAbs * 100) one < 10 ^ digits * 100

/-! Widths. -/

theorem decimal_length_le_iff {value width : Nat} (positive : 0 < width) :
    (decimal value).length ≤ width ↔ value < 10 ^ width := by
  constructor
  · intro short
    have below := numeral_lt (decimal_digits value)
    rw [numeral_decimal] at below
    exact Nat.lt_of_lt_of_le below (Nat.pow_le_pow_right (by omega) short)
  · exact decimal_length_le positive

theorem decimal_length_positive (value : Nat) : 0 < (decimal value).length :=
  List.length_pos_iff.mpr (decimal_ne_nil value)

theorem decimal_length_mono {value larger : Nat} (less : value ≤ larger) :
    (decimal value).length ≤ (decimal larger).length := by
  refine (decimal_length_le_iff (decimal_length_positive larger)).mpr ?_
  exact Nat.lt_of_le_of_lt less ((decimal_length_le_iff (decimal_length_positive larger)).mp (Nat.le_refl _))

theorem one_positive : 0 < one := Nat.two_pow_pos 149

section

variable {units : Nat}

theorem whole_small (small : units < 2 ^ 31 * one) : units / one < 2 ^ 31 :=
  (Nat.div_lt_iff_lt_mul one_positive).mpr small

theorem toInt_small (small : units < 2 ^ 31 * one) : toInt (.finite units) = (units / one : Nat) := by
  have whole : (units : Int).tdiv one = (units / one : Nat) := (Int.ofNat_tdiv units one).symm
  have bound := whole_small small
  simp only [toInt, whole]
  generalize units / one = whole at bound
  rw [if_pos (by omega)]

theorem countDigits_whole (small : units < 2 ^ 31 * one) :
    countDigits (Int32.ofInt (toInt (.finite units))) = (decimal (units / one)).length := by
  have bound := whole_small small
  rw [toInt_small small]
  generalize units / one = whole at bound
  rw [countDigits_eq, Int32.toInt_ofInt_of_le (by omega) (by omega),
    itoa_nonnegative (by omega), Int.natAbs_natCast]

theorem fixed2_length (units : Nat) : (fixed2 (.finite units)).length =
    (decimal (nearestEven (units * 100) one / 100)).length + 3 := by
  rw [fixed2, signed_length, Int.natAbs_natCast, decide_eq_false (by omega), hundredths, List.length_append]
  rfl

theorem whole_le_rounded (units : Nat) : units / one ≤ nearestEven (units * 100) one / 100 := by
  have quotient : units * 100 / one ≤ nearestEven (units * 100) one := by
    unfold nearestEven
    dsimp only
    split
    · exact Nat.le_refl _
    · split
      · exact Nat.le_succ _
      · exact Nat.le_add_right _ _
  calc units / one = units * 100 / (one * 100) := (Nat.mul_div_mul_right units one (by omega)).symm
    _ = units * 100 / one / 100 := (Nat.div_div_eq_div_mul _ _ _).symm
    _ ≤ _ := Nat.div_le_div_right quotient

/-- The width counted for the total is right just where rounding brings no new digit. -/
theorem totalExact_iff (small : units < 2 ^ 31 * one) :
    TotalExact (.finite units) ↔ KeepsDigits units := by
  have least := decimal_length_mono (whole_le_rounded units)
  have widths : TotalExact (.finite units) ↔
      (decimal (nearestEven (units * 100) one / 100)).length ≤ (decimal (units / one)).length := by
    rw [TotalExact, fixed2_length, countDigits_whole small]
    omega
  rw [widths]
  constructor
  · intro narrow digits some_digit below
    have whole : units / one < 10 ^ digits :=
      (Nat.div_lt_iff_lt_mul one_positive).mpr (by exact_mod_cast below)
    have short := (decimal_length_le_iff some_digit).mpr whole
    have rounded := (decimal_length_le_iff some_digit).mp (Nat.le_trans narrow short)
    exact (Nat.div_lt_iff_lt_mul (by omega)).mp rounded
  · intro keeps
    have positive := decimal_length_positive (units / one)
    have whole := (decimal_length_le_iff positive).mp (Nat.le_refl (decimal (units / one)).length)
    have below := (Nat.div_lt_iff_lt_mul one_positive).mp whole
    have rounded := keeps _ positive (by exact_mod_cast below)
    exact (decimal_length_le_iff positive).mpr ((Nat.div_lt_iff_lt_mul (by omega)).mpr rounded)

end

/-! Which texts are as formatted. -/

theorem timeText_int {timestamp : Int} (lower : -2 ^ 31 ≤ timestamp) (upper : timestamp < 2 ^ 31) :
    countDigits (Int32.ofInt timestamp) = (itoa timestamp).length := by
  rw [countDigits_eq, Int32.toInt_ofInt_of_le lower upper]

theorem assemble_length_lt {base first second last : Bytes} {firstWidth lastWidth : Nat}
    (some_bytes : second ≠ []) (other : firstWidth ≠ first.length) :
    (assemble base first firstWidth second last lastWidth).length <
      base.length + (first.length + second.length + last.length) := by
  have positive := List.length_pos_iff.mpr some_bytes
  rw [assemble, List.length_append]
  split
  · omega
  · simp only [List.length_append, List.length_take]
    omega

theorem orderText_format {total : Single} {address : Bytes} {timestamp : Int}
    (lower : -2 ^ 31 ≤ timestamp) (upper : timestamp < 2 ^ 31) :
    orderText total address timestamp = orderFormat total address timestamp ↔ TotalExact total := by
  have comma : (ascii ",").length = 1 := rfl
  constructor
  · intro same
    by_contra other
    have shorter := @assemble_length_lt orderBase (fixed2 total ++ ascii ",") (addressLiteral address)
      (itoa timestamp ++ ascii ")") (countDigits (Int32.ofInt (toInt total)) + 1 + 2 + 1)
      (countDigits (Int32.ofInt timestamp) + 1) (by simp [addressLiteral, ascii]) ?_
    · have length := congrArg List.length same
      rw [orderText] at length
      rw [length] at shorter
      simp only [orderFormat, addressLiteral, List.length_append] at shorter
      omega
    · rw [List.length_append, comma]
      intro equal
      exact other (by rw [TotalExact]; omega)
  · intro precise
    have closing : (ascii ")").length = 1 := rfl
    have first : (fixed2 total ++ ascii ",").length =
        countDigits (Int32.ofInt (toInt total)) + 1 + 2 + 1 := by
      rw [List.length_append, comma, precise]
    have last : (itoa timestamp ++ ascii ")").length = countDigits (Int32.ofInt timestamp) + 1 := by
      rw [List.length_append, closing, timeText_int lower upper]
    rw [orderText, assemble, if_neg (by omega), List.take_of_length_le (by omega),
      List.take_of_length_le (by omega), addressLiteral, orderFormat]
    simp only [List.append_assoc]

theorem entryText_format {orderId : Int} {entry : OrderEntry} :
    entryText orderId entry = entryFormat orderId entry ↔ IdExact orderId := by
  have comma : (ascii ",").length = 1 := rfl
  constructor
  · intro same
    by_contra other
    have shorter := @assemble_length_lt entryBase (itoa orderId ++ ascii ",")
      (itoa entry.productId.toInt ++ ascii ",") (itoa entry.quantity.toInt ++ ascii ")")
      (countDigits (Int32.ofInt orderId) + 1) (countDigits entry.quantity + 1) (by simp [ascii]) ?_
    · have length := congrArg List.length same
      rw [entryText] at length
      rw [length] at shorter
      simp only [entryFormat, List.length_append] at shorter
      omega
    · rw [List.length_append, comma]
      intro equal
      exact other (by rw [IdExact]; omega)
  · intro precise
    rw [entryText_exact precise, entryFormat]
    simp only [List.append_assoc]

/-- For every total below 2^31 - 1, address, time, id of an order and entries. -/
theorem asFormatted_iff {c : Circumstances} {units : Int} {address : Bytes} {orderId : Int}
    {items : List OrderEntry} (nonnegative : 0 ≤ units) (small : units < (2 ^ 31 - 1) * one)
    (clean : (0 : UInt8) ∉ address) (lower : -2 ^ 31 ≤ c.timestamp) (upper : c.timestamp < 2 ^ 31)
    (positive : 1 ≤ orderId) (bounded : orderId < 2 ^ 63)
    (fits : (orderQuery c (.finite units) address).isSome) :
    AsFormatted c (.finite units) address orderId items ↔
      KeepsDigits units ∧ (items = [] ∨ IdExact orderId) := by
  obtain ⟨count, rfl⟩ := Int.eq_ofNat_of_zero_le nonnegative
  have below : count < 2 ^ 31 * one := by
    have positive := one_positive
    generalize one = unit at small positive ⊢
    omega
  rw [← totalExact_iff below]
  obtain ⟨query, built⟩ := Option.isSome_iff_exists.mp fits
  constructor
  · rintro ⟨order, entries⟩
    refine ⟨(orderText_format lower upper).mp ((orderQuery_text clean built).symm.trans (order query built)), ?_⟩
    by_cases empty : items = []
    · exact .inl empty
    · right
      obtain ⟨entry, rest, rfl⟩ := List.exists_cons_of_ne_nil empty
      have size : (List.replicate 1024 (0 : UInt8)).length = 1024 := List.length_replicate
      obtain ⟨text, done⟩ := Option.isSome_iff_exists.mp (entryQuery_isSome size (by omega) bounded entry)
      have same := entries entry List.mem_cons_self _ text size done
      exact entryText_format.mp ((entryQuery_text done).symm.trans same)
  · rintro ⟨precise, ids⟩
    constructor
    · intro text done
      rw [orderQuery_text clean done]
      exact (orderText_format lower upper).mpr precise
    · intro entry member buffer text _ done
      rw [entryQuery_text done]
      rcases ids with rfl | exact_id
      · exact absurd member List.not_mem_nil
      · exact entryText_format.mpr exact_id

theorem asFormatted_vodka :
    AsFormatted calm (.finite (1220 * one)) (ascii "Madero 399") 1 [vodka 40] ↔
      KeepsDigits (1220 * one) ∧ ([vodka 40] = [] ∨ IdExact 1) :=
  asFormatted_iff (by decide) (by decide) (by decide) (by decide) (by decide) (by decide) (by decide)
    (by decide +kernel)

def nearlyTen : Order where
  address := some (ascii "Madero 399" ++ [0])
  numEntries := 1
  items := [⟨1, 1, 0x411FEF9E⟩]
  counted := (vodkaOrder [] 1).counted
  fits := (vodkaOrder [] 1).fits

/-- The total is printed as 10.00, and its comma is overwritten. -/
theorem carried_total_cut :
    ∃ units, orderGetTotal nearlyTen = .finite units ∧ 0 ≤ units ∧ units < (2 ^ 31 - 1) * one ∧
      (orderQuery calm (.finite units) (ascii "Madero 399")).isSome ∧
      ¬AsFormatted calm (.finite units) (ascii "Madero 399") 1 nearlyTen.items := by
  have total : orderGetTotal nearlyTen = .finite (0x9FEF9E * 2 ^ 129) := by decide +kernel
  have computed : (orderQuery calm (.finite (0x9FEF9E * 2 ^ 129)) (ascii "Madero 399")).any (fun query =>
      cstring query ≠ orderFormat (.finite (0x9FEF9E * 2 ^ 129)) (ascii "Madero 399") calm.timestamp) = true := by
    decide +kernel
  rw [Option.any_eq_true] at computed
  obtain ⟨query, built, different⟩ := computed
  refine ⟨_, total, by decide, by decide, by rw [built]; rfl, ?_⟩
  intro formatted
  exact of_decide_eq_true different (formatted.order query built)

/-! What the client's loop accepts. -/

def AddressText (address : Bytes) : Prop :=
  ∀ c ∈ address, (Client.isalnum c || decide (c = Client.space)) = true

theorem enterAddress_valid {room : Nat} {input address rest : Bytes}
    (entered : Client.enterAddress room input = (address, true, rest)) :
    address.length + 1 ≤ room ∧ AddressText address := by
  induction room generalizing input address with
  | zero => simp [Client.enterAddress] at entered
  | succ room ih =>
      cases input with
      | nil => simp [Client.enterAddress] at entered
      | cons c input =>
          rw [Client.enterAddress] at entered
          split at entered
          · cases entered
            exact ⟨by simp, fun c member => absurd member List.not_mem_nil⟩
          · split at entered
            · rename_i accepted
              generalize later : Client.enterAddress room input = behind at entered
              obtain ⟨more, valid, left⟩ := behind
              simp only [Prod.mk.injEq] at entered
              obtain ⟨rfl, rfl, rfl⟩ := entered
              obtain ⟨short, letters⟩ := ih later
              refine ⟨by rw [List.length_cons]; omega, ?_⟩
              exact List.forall_mem_cons.mpr ⟨accepted, letters⟩
            · simp at entered

theorem enterAddress_line {room : Nat} {address : Bytes} (short : address.length + 1 ≤ room)
    (letters : AddressText address) (rest : Bytes) :
    Client.enterAddress room (address ++ Client.newline :: rest) = (address, true, rest) := by
  induction address generalizing room with
  | nil =>
      obtain ⟨less, rfl⟩ : ∃ less, room = less + 1 := ⟨room - 1, by omega⟩
      rfl
  | cons c address ih =>
      obtain ⟨less, rfl⟩ : ∃ less, room = less + 1 := ⟨room - 1, by omega⟩
      obtain ⟨here, later⟩ := List.forall_mem_cons.mp letters
      have other : c ≠ Client.newline := by
        rintro rfl
        exact absurd here (by decide)
      rw [List.length_cons] at short
      rw [List.cons_append, Client.enterAddress, if_neg other, if_pos here, ih (by omega) later]

theorem readAddress_iff (address : Bytes) :
    (∃ input rest, Client.readAddress input = some (address, rest)) ↔
      address.length ≤ 1022 ∧ AddressText address := by
  constructor
  · rintro ⟨input, rest, read⟩
    unfold Client.readAddress at read
    generalize input.length + 1 = rounds at read
    induction rounds generalizing input with
    | zero => contradiction
    | succ rounds ih =>
        rw [Client.readAddressRounds] at read
        generalize entered : Client.enterAddress 1023 input = result at read
        obtain ⟨typed, valid, left⟩ := result
        dsimp only at read
        cases valid with
        | true =>
            cases read
            obtain ⟨short, letters⟩ := enterAddress_valid entered
            exact ⟨by omega, letters⟩
        | false =>
            obtain ⟨behind, _, again⟩ := Option.bind_eq_some_iff.mp read
            exact ih behind again
  · rintro ⟨short, letters⟩
    refine ⟨address ++ [Client.newline], [], ?_⟩
    have line := @enterAddress_line 1023 address (by omega) letters []
    rw [Client.readAddress, Client.readAddressRounds, line]
    rfl

/-! Which texts fit. -/

/-- All that is written into the arrays lies inside them. -/
structure QueriesFit (c : Circumstances) (total : Single) (address : Bytes) (orderId : Int) : Prop where
  order : (orderQuery c total address).isSome
  entries : ∀ (buffer : Bytes) (entry : OrderEntry), buffer.length = 1024 →
    (entryQuery buffer orderId entry).isSome
  updates : ∀ (buffer : Bytes) (entry : OrderEntry), buffer.length = 1024 →
    (updateQuery buffer entry).isSome

theorem orderQuery_fits {c : Circumstances} {total : Single} {address : Bytes}
    (narrow : (fixed2 total).length ≤ 14)
    (time : (itoa c.timestamp).length = countDigits (Int32.ofInt c.timestamp)) :
    (orderQuery c total address).isSome ↔
      address.length + countDigits (Int32.ofInt (toInt total)) + (itoa c.timestamp).length ≤ 963 := by
  have base : orderBase.length = 52 := by decide
  have comma : (ascii ",").length = 1 := rfl
  have closing : (ascii ")").length = 1 := rfl
  have literal : (ascii "\"" ++ address ++ ascii "\",").length = address.length + 3 := by
    rw [← addressLiteral, addressLiteral_length]
    omega
  constructor
  · intro fits
    obtain ⟨query, done⟩ := Option.isSome_iff_exists.mp fits
    simp only [orderQuery, Option.bind_eq_bind, Option.bind_eq_some_iff] at done
    obtain ⟨q₁, write₁, q₂, write₂, q₃, write₃, q₄, write₄, _⟩ := done
    have room := sprintfAt_isSome.mp (Option.isSome_iff_exists.mpr ⟨q₄, write₄⟩)
    rw [sprintfAt_length write₃, sprintfAt_length write₂, sprintfAt_length write₁, c.stackSize,
      List.length_append] at room
    omega
  · intro room
    obtain ⟨q₁, write₁, size₁⟩ := @sprintfAt_fits _ c.stack 0 orderBase c.stackSize (by omega)
    obtain ⟨q₂, write₂, size₂⟩ := @sprintfAt_fits _ q₁ orderBase.length (fixed2 total ++ ascii ",") size₁
      (by rw [List.length_append]; omega)
    obtain ⟨q₃, write₃, size₃⟩ := @sprintfAt_fits _ q₂
      (orderBase.length + (countDigits (Int32.ofInt (toInt total)) + 1 + 2 + 1))
      (ascii "\"" ++ address ++ ascii "\",") size₂ (by omega)
    obtain ⟨q₄, write₄, size₄⟩ := @sprintfAt_fits _ q₃
      (orderBase.length + (countDigits (Int32.ofInt (toInt total)) + 1 + 2 + 1) +
        (1 + address.length + 1 + 1))
      (itoa c.timestamp ++ ascii ")") size₃ (by rw [List.length_append]; omega)
    obtain ⟨q₅, write₅, _⟩ := @sprintfAt_fits _ q₄
      (orderBase.length + (countDigits (Int32.ofInt (toInt total)) + 1 + 2 + 1) +
        (1 + address.length + 1 + 1) + (countDigits (Int32.ofInt c.timestamp) + 1)) [] size₄
      (by rw [List.length_nil]; omega)
    simp only [orderQuery, Option.bind_eq_bind, Option.bind_some, write₁, write₂, write₃, write₄, write₅,
      Option.isSome_some]

theorem fixed2_narrow {units : Nat} (small : units ≤ (2 ^ 31 - 1) * one) :
    (fixed2 (.finite units)).length ≤ 14 := by
  have rounded : nearestEven (units * 100) one ≤ units * 100 / one + 1 := by
    unfold nearestEven
    dsimp only
    split
    · exact Nat.le_succ _
    · split
      · exact Nat.le_refl _
      · omega
  have most : units * 100 / one ≤ (2 ^ 31 - 1) * 100 := by
    have scaled : units * 100 ≤ (2 ^ 31 - 1) * 100 * one := by
      have unit := one_positive
      generalize one = unit at *
      omega
    exact Nat.div_le_of_le_mul (Nat.mul_comm _ one ▸ scaled)
  have digits : (decimal (nearestEven (units * 100) one / 100)).length ≤ 10 :=
    decimal_length_le (by omega) (by omega)
  rw [fixed2_length]
  omega

/-- For every address, of which the client accepts some, every total, time and id. -/
theorem queries_fit_iff {c : Circumstances} {units : Int} {address : Bytes} {orderId : Int}
    (nonnegative : 0 ≤ units) (small : units ≤ (2 ^ 31 - 1) * one) (lower : -2 ^ 31 ≤ c.timestamp) (upper : c.timestamp < 2 ^ 31)
    (positive : 0 ≤ orderId) (bounded : orderId < 2 ^ 63) :
    QueriesFit c (.finite units) address orderId ↔
      address.length + countDigits (Int32.ofInt (toInt (.finite units))) +
        (itoa c.timestamp).length ≤ 963 := by
  obtain ⟨count, rfl⟩ := Int.eq_ofNat_of_zero_le nonnegative
  have narrow : (fixed2 (.finite (count : Int))).length ≤ 14 := by
    refine fixed2_narrow ?_
    generalize one = unit at small ⊢
    omega
  rw [← orderQuery_fits narrow (timeText_int lower upper).symm]
  constructor
  · exact fun fit => fit.order
  · intro order
    exact ⟨order, fun buffer entry size => entryQuery_isSome size positive bounded entry,
      fun buffer entry size => updateQuery_isSome size entry⟩

theorem queries_fit_vodka : QueriesFit calm (.finite (1220 * one)) (ascii "Madero 399") 1 ↔
    (ascii "Madero 399").length + countDigits (Int32.ofInt (toInt (.finite (1220 * one)))) +
      (itoa calm.timestamp).length ≤ 963 :=
  queries_fit_iff (by decide) (by decide) (by decide) (by decide) (by decide) (by decide)

def longAddress : Bytes := List.replicate 1022 97

theorem long_address_overflows :
    ∃ input rest, Client.readAddress input = some (longAddress, rest) ∧
      ¬QueriesFit calm (.finite (1220 * one)) longAddress 1 := by
  have length : longAddress.length = 1022 := List.length_replicate
  have letters : AddressText longAddress := by
    intro c member
    rw [List.eq_of_mem_replicate member]
    decide
  obtain ⟨input, rest, read⟩ := (readAddress_iff longAddress).mpr ⟨Nat.le_of_eq length, letters⟩
  refine ⟨input, rest, read, ?_⟩
  intro fit
  have room := (orderQuery_fits (by decide +kernel) (by decide)).mp fit.order
  rw [length] at room
  omega

end Iac
