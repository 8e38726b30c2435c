import Iac.Library.Ere

/-! Addresses of the socket backend: the checks of `common/commWithSockets.c`, and what is
stored of an accepted address. A step that makes an `int` overflow or that needs a block of
more than half the address space has no result. -/

namespace Iac

open CText Ere RegularExpression

def colon : UInt8 := 58

def searchForColon (address : Bytes) : Option Int :=
  let i := (address.takeWhile (· ≠ colon)).length
  if 2 ^ 31 ≤ i then none else if i = address.length then some (-1) else some i

def digitExpr : Expr := anyOf isDigit

/-- `0|[3-9][0-9]?|1[0-9]?[0-9]?|25[0-5]|2[0-4]?[0-9]?|2[0-9]` -/
def octetExpr : Expr :=
  text (ascii "0") +
  anyOf (between 51 57) * optional digitExpr +
  text (ascii "1") * optional digitExpr * optional digitExpr +
  text (ascii "25") * anyOf (between 48 53) +
  text (ascii "2") * optional (anyOf (between 48 52)) * optional digitExpr +
  text (ascii "2") * digitExpr

/-- `^((…)\.){1,3}(…)$` -/
def getIPRegEx : Expr := repeated (octetExpr * text (ascii ".")) 1 3 * octetExpr

/-- `^(0|[1-9][0-9]{1,4})$` -/
def getPortRegEx : Expr := text (ascii "0") + anyOf (between 49 57) * repeated digitExpr 1 4

def checkIP (ip : Bytes) : Bool := regexec getIPRegEx ip

/-- `(unsigned short) atoi(text)` -/
def portNumber (text : Bytes) : UInt16 := UInt16.ofInt (Int32.ofInt (strtol text)).toInt

/-- The upper limit is checked on an `unsigned short`. -/
def checkPort (portStr : Bytes) : Bool :=
  if regexec getPortRegEx portStr then
    let port := portNumber portStr
    !decide (65535 < port.toNat)
  else false

/-- What follows in `isValidAddress` once the colon has been looked for. -/
def checkParts (address : Bytes) (colonPosition : Int) : Option Bool :=
  let portPartLength := (Int32.ofInt (address.length - colonPosition - 1)).toInt
  if colonPosition < 0 then some false
  else if colonPosition + 1 < 2 ^ 31 ∧ 0 ≤ portPartLength ∧ portPartLength + 1 < 2 ^ 31 then
    let ipPart := address.take colonPosition.toNat
    let portPart := (address.drop (colonPosition.toNat + 1)).take portPartLength.toNat
    some (checkIP ipPart && checkPort portPart)
  else none

def isValidAddress (address : Bytes) : Option Bool :=
  (searchForColon address).bind (checkParts address)

structure Endpoint where
  ip : Bytes
  port : UInt16
  deriving DecidableEq, Repr

def initializeClient (address : Bytes) : Option Endpoint := do
  let colonPosition ← searchForColon address
  if 0 ≤ colonPosition ∧ colonPosition + 1 < 2 ^ 31 then
    return { ip := address.take colonPosition.toNat
             port := portNumber (address.drop (colonPosition.toNat + 1)) }
  else none

/-- The port that is listened on, where the sockets themselves cause no failure. -/
def connListen (listeningAddress : Bytes) : Option UInt16 :=
  if checkPort listeningAddress then some (portNumber listeningAddress) else none

/-! What the two expressions accept. -/

theorem isDigit_iff {byte : UInt8} : isDigit byte = true ↔ 48 ≤ byte.toNat ∧ byte.toNat ≤ 57 := by
  simp only [isDigit, Bool.and_eq_true, decide_eq_true_eq, UInt8.le_iff_toNat_le]
  rfl

theorem between_iff {first last byte : UInt8} : between first last byte = true ↔
    first.toNat ≤ byte.toNat ∧ byte.toNat ≤ last.toNat := by
  simp only [between, Bool.and_eq_true, decide_eq_true_eq, UInt8.le_iff_toNat_le]

/-- A byte string with a proper first digit is the number that it says. -/
theorem small_decimal {first : UInt8} {rest : Bytes} (head : 49 ≤ first.toNat ∧ first.toNat ≤ 57)
    (digits : ∀ byte ∈ rest, 48 ≤ byte.toNat ∧ byte.toNat ≤ 57)
    (bound : numeral (first :: rest) ≤ 255) : ∃ n ≤ 255, first :: rest = decimal n := by
  have every : ∀ byte ∈ first :: rest, isDigit byte = true := by
    intro byte member
    rw [isDigit_iff]
    rcases List.mem_cons.mp member with same | later
    · subst byte
      omega
    · exact digits byte later
  have proper : (first :: rest).head? ≠ some 48 := by
    intro same
    cases same
    exact absurd head.1 (by decide)
  exact ⟨_, bound, (decimal_of_numeral every (List.cons_ne_nil _ _) (.inl proper)).symm⟩

theorem one_digit {x : UInt8} (head : 49 ≤ x.toNat ∧ x.toNat ≤ 57) : ∃ n ≤ 255, [x] = decimal n := by
  refine small_decimal head (fun _ member => absurd member List.not_mem_nil) ?_
  simp only [numeral, List.foldl_cons, List.foldl_nil]
  omega

theorem two_digits {x y : UInt8} (head : 49 ≤ x.toNat ∧ x.toNat ≤ 57)
    (digit : 48 ≤ y.toNat ∧ y.toNat ≤ 57) : ∃ n ≤ 255, [x, y] = decimal n := by
  refine small_decimal head (List.forall_mem_singleton.mpr digit) ?_
  simp only [numeral, List.foldl_cons, List.foldl_nil]
  omega

/-- Three digits may be too many. -/
theorem three_digits {x y z : UInt8} (head : 49 ≤ x.toNat ∧ x.toNat ≤ 57)
    (middle : 48 ≤ y.toNat ∧ y.toNat ≤ 57) (last : 48 ≤ z.toNat ∧ z.toNat ≤ 57)
    (bound : 100 * (x.toNat - 48) + 10 * (y.toNat - 48) + (z.toNat - 48) ≤ 255) :
    ∃ n ≤ 255, [x, y, z] = decimal n := by
  refine small_decimal head ?_ ?_
  · exact List.forall_mem_cons.mpr ⟨middle, List.forall_mem_singleton.mpr last⟩
  · simp only [numeral, List.foldl_cons, List.foldl_nil]
    omega

theorem octet_bounded {string : Bytes} (octet : string ∈ octetExpr.matches') :
    ∃ n ≤ 255, string = decimal n := by
  have one : ascii "1" = [49] := by decide
  have two : ascii "2" = [50] := by decide
  have twentyFive : ascii "25" = [50, 53] := by decide
  simp only [octetExpr, matches'_add, matches'_mul, Language.mem_add, Language.mem_mul, mem_text,
    mem_optional, mem_anyOf, digitExpr, isDigit_iff, between_iff, one, two, twentyFive,
    UInt8.reduceToNat] at octet
  -- the alternatives of the expression, with each optional digit there or not
  rcases octet with ((((zero | ⟨_, ⟨x, head, rfl⟩, _, tail, rfl⟩) |
    ⟨_, ⟨_, rfl, _, middle, rfl⟩, _, tail, rfl⟩) | ⟨_, rfl, _, ⟨z, last, rfl⟩, rfl⟩) |
    ⟨_, ⟨_, rfl, _, middle, rfl⟩, _, tail, rfl⟩) | ⟨_, rfl, _, ⟨y, last, rfl⟩, rfl⟩
  · exact ⟨0, by omega, zero⟩
  · rcases tail with ⟨y, digit, rfl⟩ | rfl
    · exact two_digits (by omega) digit
    · exact one_digit (by omega)
  · rcases middle with ⟨y, digit, rfl⟩ | rfl <;> rcases tail with ⟨z, last, rfl⟩ | rfl
    · exact three_digits (by decide) digit last (by simp only [UInt8.reduceToNat]; omega)
    · exact two_digits (by decide) digit
    · exact two_digits (by decide) last
    · exact one_digit (by decide)
  · exact three_digits (by decide) (by decide) (by omega) (by simp only [UInt8.reduceToNat]; omega)
  · rcases middle with ⟨y, digit, rfl⟩ | rfl <;> rcases tail with ⟨z, last, rfl⟩ | rfl
    · exact three_digits (by decide) (by omega) last (by simp only [UInt8.reduceToNat]; omega)
    · exact two_digits (by decide) (by omega)
    · exact two_digits (by decide) last
    · exact one_digit (by decide)
  · exact two_digits (by decide) last

theorem mem_octet {string : Bytes} :
    string ∈ octetExpr.matches' ↔ ∃ n ≤ 255, string = decimal n := by
  constructor
  · exact octet_bounded
  · rintro ⟨n, bound, rfl⟩
    have accepted : ∀ n < 256, regexec octetExpr (decimal n) = true := by decide +kernel
    exact (regexec_iff _ _).mp (accepted n (by omega))

def dotted : List Nat → Bytes
  | [] => []
  | [octet] => decimal octet
  | octet :: rest => decimal octet ++ ascii "." ++ dotted rest

def Octets (octets : List Nat) (ip : Bytes) : Prop := (∀ octet ∈ octets, octet ≤ 255) ∧ ip = dotted octets

theorem dotted_concat (octets : List Nat) (last : Nat) : dotted (octets ++ [last]) =
    (octets.map fun octet => decimal octet ++ ascii ".").flatten ++ decimal last := by
  induction octets with
  | nil => rfl
  | cons octet rest ih =>
      have more : dotted (octet :: (rest ++ [last])) =
          decimal octet ++ ascii "." ++ dotted (rest ++ [last]) := by
        cases rest with
        | nil => rfl
        | cons _ _ => rfl
      simp only [List.cons_append, more, ih, List.map_cons, List.flatten_cons, List.append_assoc]

theorem dotted_parts {parts : List Bytes}
    (every : ∀ part ∈ parts, part ∈ (octetExpr * text (ascii ".")).matches') :
    ∃ octets : List Nat, (∀ octet ∈ octets, octet ≤ 255) ∧
      parts = octets.map fun octet => decimal octet ++ ascii "." := by
  induction parts with
  | nil => exact ⟨[], by simp, rfl⟩
  | cons part rest ih =>
      obtain ⟨octets, small, same⟩ := ih fun other member => every other (List.mem_cons_of_mem _ member)
      have first := every part List.mem_cons_self
      simp only [matches'_mul, Language.mem_mul, mem_octet, mem_text] at first
      obtain ⟨_, ⟨n, bound, rfl⟩, _, rfl, whole⟩ := first
      refine ⟨n :: octets, ?_, ?_⟩
      · intro octet member
        rcases List.mem_cons.mp member with rfl | later
        · exact bound
        · exact small octet later
      · rw [List.map_cons, ← same, whole]

theorem checkIP_iff (ip : Bytes) : checkIP ip = true ↔
    ∃ octets, 2 ≤ octets.length ∧ octets.length ≤ 4 ∧ Octets octets ip := by
  rw [checkIP, regexec_iff, getIPRegEx, matches'_mul, Language.mem_mul]
  simp only [mem_repeated (by omega : 1 ≤ 3), mem_octet]
  constructor
  · rintro ⟨_, ⟨parts, lower, upper, every, rfl⟩, _, ⟨last, bound, rfl⟩, rfl⟩
    obtain ⟨octets, small, rfl⟩ := dotted_parts every
    rw [List.length_map] at lower upper
    refine ⟨octets ++ [last], by simp; omega, by simp; omega, ?_, (dotted_concat octets last).symm⟩
    intro octet member
    rcases List.mem_append.mp member with earlier | final
    · exact small octet earlier
    · rw [List.mem_singleton.mp final]
      exact bound
  · rintro ⟨octets, lower, upper, small, rfl⟩
    have nonempty : octets ≠ [] := by
      rintro rfl
      simp at lower
    obtain ⟨first, last, rfl⟩ : ∃ first last, octets = first ++ [last] :=
      ⟨octets.dropLast, octets.getLast nonempty, (List.dropLast_append_getLast nonempty).symm⟩
    rw [List.length_append, List.length_singleton] at lower upper
    refine ⟨_, ⟨first.map fun octet => decimal octet ++ ascii ".", by simp; omega, by simp; omega,
      ?_, rfl⟩, decimal last, ⟨last, small last (by simp), rfl⟩, (dotted_concat first last).symm⟩
    intro part member
    obtain ⟨octet, octetMember, rfl⟩ := List.mem_map.mp member
    rw [matches'_mul]
    exact Language.append_mem_mul
      (mem_octet.mpr ⟨octet, small octet (List.mem_append_left _ octetMember), rfl⟩) (mem_text.mpr rfl)

theorem mem_port {string : Bytes} : string ∈ getPortRegEx.matches' ↔
    ∃ n, string = decimal n ∧ (n = 0 ∨ (10 ≤ n ∧ n ≤ 99999)) := by
  have zero : ascii "0" = decimal 0 := by decide
  rw [getPortRegEx, matches'_add, Language.mem_add, mem_text, matches'_mul, Language.mem_mul, zero]
  simp only [mem_anyOf, digitExpr, mem_repeated_anyOf (by omega : 1 ≤ 4), between_iff,
    UInt8.reduceToNat]
  constructor
  · rintro (rfl | ⟨_, ⟨first, head, rfl⟩, rest, ⟨lower, upper, digits⟩, rfl⟩)
    · exact ⟨0, rfl, .inl rfl⟩
    · have every : ∀ byte ∈ first :: rest, isDigit byte = true := by
        intro byte member
        rcases List.mem_cons.mp member with rfl | later
        · exact isDigit_iff.mpr (by omega)
        · exact digits byte later
      have proper : (first :: rest).head? ≠ some 48 := by
        intro same
        cases same
        exact absurd head.1 (by decide)
      have number := decimal_of_numeral every (List.cons_ne_nil _ _) (.inl proper)
      have bound := numeral_lt every
      refine ⟨numeral (first :: rest), number.symm, .inr ⟨?_, ?_⟩⟩
      · by_contra small
        rw [decimal_small (by omega)] at number
        have length := congrArg List.length number
        simp only [List.length_cons, List.length_nil] at length
        omega
      · have most : 10 ^ (first :: rest).length ≤ 10 ^ 5 :=
          Nat.pow_le_pow_right (by omega) (by rw [List.length_cons]; omega)
        omega
  · rintro ⟨n, rfl, rfl | ⟨lower, upper⟩⟩
    · exact .inl rfl
    · right
      have digits := decimal_digits n
      have proper := decimal_head n
      have short : (decimal n).length ≤ 5 := decimal_length_le (by omega) (by omega)
      have long : 2 ≤ (decimal n).length := by
        have some_digit := List.length_pos_iff.mpr (decimal_ne_nil (n / 10))
        rw [decimal_step lower, List.length_append, List.length_singleton]
        omega
      obtain ⟨first, rest, shape⟩ := List.exists_cons_of_ne_nil (decimal_ne_nil n)
      rw [shape] at digits proper short long ⊢
      rw [List.length_cons] at short long
      have isNumber := isDigit_iff.mp (digits first List.mem_cons_self)
      have nonzero : first.toNat ≠ 48 := by
        intro same
        have equal : first = 48 := UInt8.toNat_inj.mp same
        rcases proper with proper | zero
        · exact proper (by rw [equal]; rfl)
        · omega
      exact ⟨[first], ⟨first, by omega, rfl⟩, rest, ⟨by omega, by omega,
        fun byte member => digits byte (List.mem_cons_of_mem _ member)⟩, rfl⟩

/-- The range check behind the expression never fails. -/
theorem checkPort_iff (portStr : Bytes) : checkPort portStr = true ↔
    ∃ n, portStr = decimal n ∧ (n = 0 ∨ (10 ≤ n ∧ n ≤ 99999)) := by
  have range := (portNumber portStr).toNat_lt
  rw [← mem_port, ← regexec_iff, checkPort]
  split
  · rename_i accepted
    simp only [accepted, Bool.not_eq_true', decide_eq_false_iff_not, iff_true]
    omega
  · rename_i refused
    simp [refused]

theorem portNumber_decimal {n : Nat} (small : n ≤ 99999) :
    (portNumber (decimal n)).toNat = n % 65536 := by
  rw [portNumber, strtol_decimal (by omega), Int32.toInt_ofInt_of_le (by omega) (by omega)]
  rw [UInt16.ofInt, UInt16.toNat_ofNat']
  omega

/-! How the parts of an address are found again. -/

theorem decimal_no_byte {byte : UInt8} (other : isDigit byte = false) (n : Nat) :
    byte ∉ decimal n := by
  intro member
  rw [decimal_digits n byte member] at other
  contradiction

theorem dotted_count {octets : List Nat} (nonempty : octets ≠ []) :
    (dotted octets).count 46 + 1 = octets.length := by
  obtain ⟨first, last, rfl⟩ : ∃ first last, octets = first ++ [last] :=
    ⟨octets.dropLast, octets.getLast nonempty, (List.dropLast_append_getLast nonempty).symm⟩
  have none_in : ∀ n, (decimal n).count 46 = 0 := fun n =>
    List.count_eq_zero.mpr (decimal_no_byte (by decide) n)
  have dots : (first.map fun octet => decimal octet ++ ascii ".").flatten.count 46 = first.length := by
    clear nonempty
    induction first with
    | nil => rfl
    | cons octet rest ih =>
        have dot : (ascii ".").count 46 = 1 := by decide
        rw [List.map_cons, List.flatten_cons, List.count_append, List.count_append, none_in, dot, ih,
          List.length_cons]
        omega
  rw [dotted_concat, List.count_append, dots, none_in, List.length_append, List.length_singleton]

theorem dotted_no_colon (octets : List Nat) : colon ∉ dotted octets := by
  induction octets with
  | nil => exact List.not_mem_nil
  | cons octet rest ih =>
      have number : colon ∉ decimal octet := decimal_no_byte (by decide) octet
      cases rest with
      | nil => exact number
      | cons next more =>
          have dot : colon ∉ ascii "." := by decide
          simp only [dotted, List.mem_append, not_or]
          exact ⟨⟨number, dot⟩, ih⟩

/-! Which addresses and ports are handled as they should be. -/

/-- `d.d.d.d:p`, all numbers in canonical decimal. -/
def IsAddress (address : Bytes) (octets : List Nat) (p : Nat) : Prop :=
  octets.length = 4 ∧ (∀ octet ∈ octets, octet ≤ 255) ∧ p ≤ 65535 ∧
    address = dotted octets ++ ascii ":" ++ decimal p

/-- Accepted if and only if it has the form, and then stored as it is written. -/
def AddressExact (address : Bytes) : Prop :=
  ∃ valid, isValidAddress address = some valid ∧
    (valid = true ↔ ∃ octets p, IsAddress address octets p) ∧
    (valid = true → ∃ ip p, colon ∉ ip ∧ address = ip ++ ascii ":" ++ decimal p ∧
      ∃ stored, initializeClient address = some stored ∧ stored.ip = ip ∧ stored.port.toNat = p)

def PortExact (portStr : Bytes) : Prop :=
  ((connListen portStr).isSome ↔ ∃ p ≤ 65535, portStr = decimal p) ∧
    ∀ port, connListen portStr = some port → portStr = decimal port.toNat

/-! The parts of an address as the code sees them. -/

def beforeColon (address : Bytes) : Bytes := address.takeWhile (· ≠ colon)

def behindColon (address : Bytes) : Bytes := address.drop ((beforeColon address).length + 1)

def portPartLength (address : Bytes) : Int := (Int32.ofInt (behindColon address).length).toInt

def portPart (address : Bytes) : Bytes := (behindColon address).take (portPartLength address).toNat

/-- Positions and lengths fit an `int`, with room for a terminator. -/
def Counted (address : Bytes) : Prop :=
  (colon ∈ address → (beforeColon address).length + 1 < 2 ^ 31 ∧
    0 ≤ portPartLength address ∧ portPartLength address + 1 < 2 ^ 31) ∧
  (colon ∉ address → address.length < 2 ^ 31)

instance (address : Bytes) : Decidable (Counted address) := by
  unfold Counted
  infer_instance

theorem address_split {address : Bytes} (member : colon ∈ address) :
    address = beforeColon address ++ colon :: behindColon address := by
  induction address with
  | nil => contradiction
  | cons byte rest ih =>
      by_cases here : byte = colon
      · subst byte
        simp [beforeColon, behindColon]
      · have later : colon ∈ rest := by
          rcases List.mem_cons.mp member with same | later
          · exact absurd same.symm here
          · exact later
        have kept : beforeColon (byte :: rest) = byte :: beforeColon rest := by
          simp [beforeColon, here]
        have behind : behindColon (byte :: rest) = behindColon rest := by
          simp [behindColon, kept]
        rw [kept, behind, List.cons_append, ← ih later]

theorem beforeColon_whole {address : Bytes} (absent : colon ∉ address) :
    beforeColon address = address := by
  rw [beforeColon, List.takeWhile_eq_self_iff]
  intro byte member
  have other : byte ≠ colon := fun same => absent (same ▸ member)
  simp [other]

theorem searchForColon_found {address : Bytes} (member : colon ∈ address) :
    searchForColon address =
      if 2 ^ 31 ≤ (beforeColon address).length then none
      else some ((beforeColon address).length : Int) := by
  have length := congrArg List.length (address_split member)
  rw [List.length_append, List.length_cons] at length
  have inside : (beforeColon address).length ≠ address.length := by omega
  change (if 2 ^ 31 ≤ (beforeColon address).length then none
    else if (beforeColon address).length = address.length then some (-1)
    else some ((beforeColon address).length : Int)) = _
  rw [if_neg inside]

theorem counted_found {address : Bytes} (member : colon ∈ address) :
    Counted address ↔ (beforeColon address).length + 1 < 2 ^ 31 ∧
      0 ≤ portPartLength address ∧ portPartLength address + 1 < 2 ^ 31 := by
  constructor
  · intro counted
    exact counted.1 member
  · intro fits
    exact ⟨fun _ => fits, fun absent => absurd member absent⟩

theorem checkParts_found {address : Bytes} (member : colon ∈ address) :
    checkParts address (beforeColon address).length = if Counted address then
      some (checkIP (beforeColon address) && checkPort (portPart address)) else none := by
  have length := congrArg List.length (address_split member)
  rw [List.length_append, List.length_cons] at length
  have behind : (address.length : Int) - (beforeColon address).length - 1 =
      (behindColon address).length := by omega
  have ip : address.take (beforeColon address).length = beforeColon address :=
    (List.prefix_iff_eq_take.mp (List.takeWhile_prefix _)).symm
  unfold checkParts
  dsimp only
  rw [if_neg (by omega), behind, Int.toNat_natCast, ip]
  by_cases fits : Counted address
  · have bounds := (counted_found member).mp fits
    rw [if_pos fits, if_pos ⟨by omega, bounds.2⟩]
    rfl
  · rw [if_neg fits, if_neg]
    rintro ⟨near, bounds⟩
    exact fits ((counted_found member).mpr ⟨by omega, bounds⟩)

theorem isValidAddress_found {address : Bytes} (member : colon ∈ address) :
    isValidAddress address = if Counted address then
      some (checkIP (beforeColon address) && checkPort (portPart address)) else none := by
  rw [isValidAddress, searchForColon_found member]
  by_cases far : 2 ^ 31 ≤ (beforeColon address).length
  · have uncounted : ¬Counted address := fun fits =>
      absurd ((counted_found member).mp fits).1 (by omega)
    rw [if_pos far, if_neg uncounted, Option.bind_none]
  · rw [if_neg far, Option.bind_some, checkParts_found member]

theorem isValidAddress_absent {address : Bytes} (absent : colon ∉ address) :
    isValidAddress address = if Counted address then some false else none := by
  have whole := beforeColon_whole absent
  have counted : Counted address ↔ address.length < 2 ^ 31 := by simp [Counted, absent]
  unfold beforeColon at whole
  rw [isValidAddress, searchForColon, whole]
  by_cases short : address.length < 2 ^ 31
  · rw [if_neg (by omega), if_pos rfl, if_pos (counted.mpr short)]
    rfl
  · rw [if_pos (by omega), if_neg fun fits => short (counted.mp fits)]
    rfl

/-- What makes the answer right: positions and lengths fit an `int`; a text with two or three
octets, a port above 65535 or a port whose length was cut is not accepted; and the port
is not a single digit from 1 to 9 behind four octets. -/
structure AddressHandled (address : Bytes) : Prop where
  counted : Counted address
  accepted : ∀ octets p, Octets octets (beforeColon address) → 2 ≤ octets.length →
    octets.length ≤ 4 → portPart address = decimal p → (p = 0 ∨ (10 ≤ p ∧ p ≤ 99999)) →
    octets.length = 4 ∧ p ≤ 65535 ∧ (behindColon address).length < 2 ^ 31
  refused : ∀ octets p, Octets octets (beforeColon address) → octets.length = 4 →
    behindColon address = decimal p → p = 0 ∨ 10 ≤ p

theorem portPart_short {address : Bytes} (short : (behindColon address).length < 2 ^ 31) :
    portPart address = behindColon address := by
  rw [portPart, portPartLength, Int32.toInt_ofInt_of_le (by omega) (by omega), Int.toNat_natCast,
    List.take_length]

theorem decimal_short {p : Nat} (small : p ≤ 65535) : (decimal p).length < 2 ^ 31 := by
  have short : (decimal p).length ≤ 5 := decimal_length_le (by omega) (by omega)
  omega

theorem beforeColon_append {ip : Bytes} (clean : colon ∉ ip) (rest : Bytes) :
    beforeColon (ip ++ colon :: rest) = ip ∧ behindColon (ip ++ colon :: rest) = rest := by
  have before : beforeColon (ip ++ colon :: rest) = ip := by
    unfold beforeColon
    rw [List.takeWhile_append_of_pos]
    · simp
    · intro byte member
      have other : byte ≠ colon := fun same => clean (same ▸ member)
      simp [other]
  refine ⟨before, ?_⟩
  rw [behindColon, before, List.drop_append]
  simp

theorem isAddress_iff {address : Bytes} (member : colon ∈ address) {octets : List Nat} {p : Nat} :
    IsAddress address octets p ↔ octets.length = 4 ∧ Octets octets (beforeColon address) ∧
      p ≤ 65535 ∧ behindColon address = decimal p := by
  have mark : ascii ":" = [colon] := by decide
  constructor
  · rintro ⟨four, small, bound, shape⟩
    rw [mark, List.append_assoc, List.singleton_append] at shape
    obtain ⟨before, behind⟩ := beforeColon_append (dotted_no_colon octets) (decimal p)
    rw [← shape] at before behind
    exact ⟨four, ⟨small, before⟩, bound, behind⟩
  · rintro ⟨four, ⟨small, before⟩, bound, behind⟩
    refine ⟨four, small, bound, ?_⟩
    rw [mark, List.append_assoc, List.singleton_append, ← before, ← behind]
    exact address_split member

theorem initializeClient_found {address : Bytes} (member : colon ∈ address)
    (counted : Counted address) : initializeClient address =
      some ⟨beforeColon address, portNumber (behindColon address)⟩ := by
  have near := ((counted_found member).mp counted).1
  have ip : address.take (beforeColon address).length = beforeColon address :=
    (List.prefix_iff_eq_take.mp (List.takeWhile_prefix _)).symm
  rw [initializeClient, searchForColon_found member, if_neg (by omega), Option.bind_eq_bind,
    Option.bind_some, if_pos (by omega), Int.toNat_natCast, ip]
  rfl

theorem octets_unique {left right : List Nat} {ip : Bytes} (leftIp : Octets left ip)
    (rightIp : Octets right ip) (leftSome : left ≠ []) (rightSome : right ≠ []) :
    left.length = right.length := by
  rw [← dotted_count leftSome, ← dotted_count rightSome, ← leftIp.2, rightIp.2]

theorem addressExact_found {address : Bytes} (member : colon ∈ address) (counted : Counted address) :
    AddressExact address ↔ AddressHandled address := by
  have computed := isValidAddress_found member
  rw [if_pos counted] at computed
  constructor
  · rintro ⟨valid, result, exact, _⟩
    rw [computed, Option.some.injEq] at result
    subst valid
    rw [Bool.and_eq_true, checkIP_iff, checkPort_iff] at exact
    refine ⟨counted, ?_, ?_⟩
    · intro octets p ip lower upper port range
      obtain ⟨others, q, form⟩ := exact.mp ⟨⟨octets, lower, upper, ip⟩, p, port, range⟩
      obtain ⟨four, otherIp, bound, behind⟩ := (isAddress_iff member).mp form
      have short : (behindColon address).length < 2 ^ 31 := behind ▸ decimal_short bound
      rw [portPart_short short, behind] at port
      have count := octets_unique ip otherIp (by rintro rfl; simp at lower)
        (by rintro rfl; simp at four)
      exact ⟨by omega, by rw [← decimal_injective port]; exact bound, short⟩
    · intro octets p ip four behind
      by_contra digit
      have form := (isAddress_iff member).mpr ⟨four, ip, by omega, behind⟩
      obtain ⟨_, n, port, range⟩ := exact.mpr ⟨octets, p, form⟩
      rw [portPart_short (behind ▸ decimal_short (by omega)), behind] at port
      have same := decimal_injective port
      omega
  · rintro ⟨_, accepted, refused⟩
    have exact : (checkIP (beforeColon address) && checkPort (portPart address)) = true ↔
        ∃ octets p, IsAddress address octets p := by
      rw [Bool.and_eq_true, checkIP_iff, checkPort_iff]
      constructor
      · rintro ⟨⟨octets, lower, upper, ip⟩, p, port, range⟩
        obtain ⟨four, bound, short⟩ := accepted octets p ip lower upper port range
        rw [portPart_short short] at port
        exact ⟨octets, p, (isAddress_iff member).mpr ⟨four, ip, bound, port⟩⟩
      · rintro ⟨octets, p, form⟩
        obtain ⟨four, ip, bound, behind⟩ := (isAddress_iff member).mp form
        have range := refused octets p ip four behind
        refine ⟨⟨octets, by omega, by omega, ip⟩, p, ?_, by omega⟩
        rw [portPart_short (behind ▸ decimal_short bound), behind]
    refine ⟨_, computed, exact, ?_⟩
    intro valid
    obtain ⟨octets, p, form⟩ := exact.mp valid
    obtain ⟨four, ip, bound, behind⟩ := (isAddress_iff member).mp form
    refine ⟨dotted octets, p, dotted_no_colon octets, form.2.2.2, _,
      initializeClient_found member counted, ip.2, ?_⟩
    rw [behind, portNumber_decimal (by omega)]
    omega

theorem addressExact_absent {address : Bytes} (absent : colon ∉ address) :
    AddressExact address ↔ AddressHandled address := by
  have computed := isValidAddress_absent absent
  have formless : ¬∃ octets p, IsAddress address octets p := by
    rintro ⟨octets, p, _, _, _, shape⟩
    apply absent
    rw [shape]
    simp [ascii, colon]
  have nothing : behindColon address = [] := by
    rw [behindColon, beforeColon_whole absent]
    exact List.drop_eq_nil_of_le (by omega)
  have noPort : portPart address = [] := by rw [portPart, nothing, List.take_nil]
  by_cases counted : Counted address
  · rw [if_pos counted] at computed
    constructor
    · intro _
      refine ⟨counted, ?_, ?_⟩
      · intro _ p _ _ _ port
        rw [noPort] at port
        exact absurd port.symm (decimal_ne_nil p)
      · intro _ p _ _ behind
        rw [nothing] at behind
        exact absurd behind.symm (decimal_ne_nil p)
    · intro _
      exact ⟨false, computed, by simp [formless], by simp⟩
  · rw [if_neg counted] at computed
    constructor
    · rintro ⟨valid, result, _⟩
      rw [computed] at result
      contradiction
    · intro handled
      exact absurd handled.counted counted

theorem addressExact_iff (address : Bytes) : AddressExact address ↔ AddressHandled address := by
  by_cases member : colon ∈ address
  · by_cases counted : Counted address
    · exact addressExact_found member counted
    · have undecided := isValidAddress_found member
      rw [if_neg counted] at undecided
      constructor
      · rintro ⟨valid, result, _⟩
        rw [undecided] at result
        contradiction
      · intro handled
        exact absurd handled.counted counted
  · exact addressExact_absent member

/-- A port string that is not a single digit from 1 to 9 and no number from 65536 to 99999. -/
def PortHandled (portStr : Bytes) : Prop :=
  ∀ p, portStr = decimal p → p = 0 ∨ (10 ≤ p ∧ p ≤ 65535) ∨ 100000 ≤ p

theorem portExact_iff (portStr : Bytes) : PortExact portStr ↔ PortHandled portStr := by
  have listens : (connListen portStr).isSome = true ↔
      ∃ n, portStr = decimal n ∧ (n = 0 ∨ (10 ≤ n ∧ n ≤ 99999)) := by
    rw [← checkPort_iff, connListen]
    split <;> simp_all
  constructor
  · rintro ⟨exact, _⟩ p rfl
    rw [listens] at exact
    by_contra odd
    by_cases large : p ≤ 65535
    · obtain ⟨n, same, range⟩ := exact.mpr ⟨p, large, rfl⟩
      have equal := decimal_injective same
      omega
    · obtain ⟨q, bound, same⟩ := exact.mp ⟨p, rfl, by omega⟩
      have equal := decimal_injective same
      omega
  · intro handled
    constructor
    · rw [listens]
      constructor
      · rintro ⟨n, rfl, range⟩
        have bound := handled n rfl
        exact ⟨n, by omega, rfl⟩
      · rintro ⟨p, bound, rfl⟩
        have range := handled p rfl
        exact ⟨p, rfl, by omega⟩
    · intro port found
      obtain ⟨n, rfl, range⟩ := listens.mp (by rw [found]; rfl)
      have bound := handled n rfl
      unfold connListen at found
      split at found
      · simp only [Option.some.injEq] at found
        rw [← found, portNumber_decimal (by omega), Nat.mod_eq_of_lt (by omega)]
      · contradiction

/-- Exactly these addresses and ports are accepted and used as the comments have it. -/
theorem address_and_port_exact_iff (address portStr : Bytes) :
    (AddressExact address ↔ AddressHandled address) ∧ (PortExact portStr ↔ PortHandled portStr) :=
  ⟨addressExact_iff address, portExact_iff portStr⟩

/-- A port beyond the range is accepted, and cut to another one. -/
theorem isValidAddress_accepts_70000 :
    isValidAddress (ascii "127.0.0.1:70000") = some true ∧
      ¬AddressExact (ascii "127.0.0.1:70000") ∧ ¬PortExact (ascii "70000") := by
  have accepted : isValidAddress (ascii "127.0.0.1:70000") = some true := by decide
  have number : ascii "70000" = decimal 70000 := by decide
  refine ⟨accepted, ?_, ?_⟩
  · rintro ⟨valid, result, exact, _⟩
    rw [accepted, Option.some.injEq] at result
    obtain ⟨octets, p, form⟩ := exact.mp result.symm
    obtain ⟨_, _, bound, behind⟩ := (isAddress_iff (by decide)).mp form
    have port : behindColon (ascii "127.0.0.1:70000") = decimal 70000 := by decide
    rw [port] at behind
    have same := decimal_injective behind
    omega
  · rintro ⟨exact, _⟩
    obtain ⟨p, bound, same⟩ := exact.mp (by decide)
    rw [number] at same
    have equal := decimal_injective same
    omega

end Iac
