import Mathlib.Computability.RegularExpressions
import Iac.Library.Text

/-! Extended regular expressions of POSIX that are anchored at both ends, as regular
expressions over bytes. -/

namespace Ere

open CText RegularExpression

abbrev Expr := RegularExpression UInt8

/-- A bracket expression. -/
def anyOf (accepts : UInt8 → Bool) : Expr :=
  (((List.range 256).map UInt8.ofNat).filter accepts).foldr (fun byte rest => char byte + rest) 0

def between (first last : UInt8) (byte : UInt8) : Bool := first ≤ byte && byte ≤ last

def text (bytes : Bytes) : Expr := bytes.foldr (fun byte rest => char byte * rest) 1

/-- `P?` -/
def optional (P : Expr) : Expr := P + 1

def atMost (P : Expr) (least : Nat) : Nat → Expr
  | 0 => P ^ least
  | more + 1 => P ^ (least + (more + 1)) + atMost P least more

/-- `P{least,most}` -/
def repeated (P : Expr) (least most : Nat) : Expr := atMost P least (most - least)

/-- `regexec` for an expression between `^` and `$`, compiled without `REG_NEWLINE`. -/
def regexec (P : Expr) (string : Bytes) : Bool := P.rmatch string

theorem regexec_iff (P : Expr) (string : Bytes) : regexec P string ↔ string ∈ P.matches' :=
  rmatch_iff_matches' P string

/-! What belongs to such an expression. -/

theorem mem_anyOf {accepts : UInt8 → Bool} {string : Bytes} :
    string ∈ (anyOf accepts).matches' ↔ ∃ byte, accepts byte ∧ string = [byte] := by
  have sums : ∀ bytes : Bytes, string ∈ (bytes.foldr (fun byte rest => char byte + rest)
      (0 : Expr)).matches' ↔ ∃ byte ∈ bytes, string = [byte] := by
    intro bytes
    induction bytes with
    | nil => simp
    | cons byte rest ih =>
        have single : string ∈ (char byte).matches' ↔ string = [byte] := Iff.rfl
        rw [List.foldr_cons, matches'_add, Language.mem_add, ih, single]
        simp only [List.mem_cons, exists_eq_or_imp]
  have every : ∀ byte : UInt8, byte ∈ (List.range 256).map UInt8.ofNat := by
    intro byte
    rw [List.mem_map]
    exact ⟨byte.toNat, List.mem_range.mpr byte.toNat_lt, UInt8.ofNat_toNat⟩
  rw [anyOf, sums]
  constructor
  · rintro ⟨byte, member, same⟩
    exact ⟨byte, (List.mem_filter.mp member).2, same⟩
  · rintro ⟨byte, accepted, same⟩
    exact ⟨byte, List.mem_filter.mpr ⟨every byte, accepted⟩, same⟩

theorem mem_text {bytes string : Bytes} : string ∈ (text bytes).matches' ↔ string = bytes := by
  induction bytes generalizing string with
  | nil => rfl
  | cons byte rest ih =>
      rw [text, List.foldr_cons, matches'_mul, Language.mem_mul]
      constructor
      · rintro ⟨first, head, others, tail, rfl⟩
        rw [ih.mp tail]
        have single : first = [byte] := head
        rw [single]
        rfl
      · rintro rfl
        exact ⟨[byte], rfl, rest, ih.mpr rfl, rfl⟩

theorem mem_optional {P : Expr} {string : Bytes} :
    string ∈ (optional P).matches' ↔ string ∈ P.matches' ∨ string = [] := by
  rw [optional, matches'_add, Language.mem_add]
  rfl

theorem mem_atMost {P : Expr} {least more : Nat} {string : Bytes} :
    string ∈ (atMost P least more).matches' ↔ ∃ parts : List Bytes,
      least ≤ parts.length ∧ parts.length ≤ least + more ∧ (∀ part ∈ parts, part ∈ P.matches') ∧
        string = parts.flatten := by
  induction more with
  | zero =>
      rw [atMost, matches'_pow, Language.mem_pow]
      constructor
      · rintro ⟨parts, rfl, count, every⟩
        exact ⟨parts, by omega, by omega, every, rfl⟩
      · rintro ⟨parts, lower, upper, every, rfl⟩
        exact ⟨parts, rfl, by omega, every⟩
  | succ more ih =>
      rw [atMost, matches'_add, Language.mem_add, ih, matches'_pow, Language.mem_pow]
      constructor
      · rintro (⟨parts, rfl, count, every⟩ | ⟨parts, lower, upper, every, rfl⟩)
        · exact ⟨parts, by omega, by omega, every, rfl⟩
        · exact ⟨parts, lower, by omega, every, rfl⟩
      · rintro ⟨parts, lower, upper, every, rfl⟩
        by_cases most : parts.length = least + (more + 1)
        · exact .inl ⟨parts, rfl, most, every⟩
        · exact .inr ⟨parts, lower, by omega, every, rfl⟩

theorem mem_repeated {P : Expr} {least most : Nat} {string : Bytes} (order : least ≤ most) :
    string ∈ (repeated P least most).matches' ↔ ∃ parts : List Bytes,
      least ≤ parts.length ∧ parts.length ≤ most ∧ (∀ part ∈ parts, part ∈ P.matches') ∧
        string = parts.flatten := by
  rw [repeated, mem_atMost, Nat.add_sub_cancel' order]

theorem mem_repeated_anyOf {accepts : UInt8 → Bool} {least most : Nat} {string : Bytes}
    (order : least ≤ most) : string ∈ (repeated (anyOf accepts) least most).matches' ↔
      least ≤ string.length ∧ string.length ≤ most ∧ ∀ byte ∈ string, accepts byte := by
  rw [mem_repeated order]
  constructor
  · rintro ⟨parts, lower, upper, every, rfl⟩
    have singles : parts.flatten.length = parts.length ∧ ∀ byte ∈ parts.flatten, accepts byte := by
      clear lower upper
      induction parts with
      | nil => simp
      | cons part rest ih =>
          obtain ⟨count, accepted⟩ := ih fun other member => every other (List.mem_cons_of_mem _ member)
          obtain ⟨byte, good, rfl⟩ := mem_anyOf.mp (every part List.mem_cons_self)
          refine ⟨by simp [count], ?_⟩
          intro other member
          rcases List.mem_cons.mp member with rfl | later
          · exact good
          · exact accepted other later
    rw [singles.1]
    exact ⟨lower, upper, singles.2⟩
  · rintro ⟨lower, upper, every⟩
    refine ⟨string.map fun byte => [byte], by simpa using lower, by simpa using upper, ?_, ?_⟩
    · intro part member
      obtain ⟨byte, byteMember, rfl⟩ := List.mem_map.mp member
      exact mem_anyOf.mpr ⟨byte, every byte byteMember, rfl⟩
    · rw [← List.flatMap_def, List.flatMap_singleton']

/-- A repeated bracket expression restricts each byte on its own. -/
theorem mem_star_anyOf {accepts : UInt8 → Bool} {string : Bytes} :
    string ∈ (star (anyOf accepts)).matches' ↔ ∀ byte ∈ string, accepts byte := by
  rw [matches'_star, Language.mem_kstar]
  constructor
  · rintro ⟨parts, rfl, every⟩ byte member
    obtain ⟨part, partMember, byteMember⟩ := List.mem_flatten.mp member
    obtain ⟨only, accepted, rfl⟩ := mem_anyOf.mp (every part partMember)
    rw [List.mem_singleton.mp byteMember]
    exact accepted
  · intro every
    refine ⟨string.map fun byte => [byte], by rw [← List.flatMap_def, List.flatMap_singleton'], ?_⟩
    intro part member
    obtain ⟨byte, byteMember, rfl⟩ := List.mem_map.mp member
    exact mem_anyOf.mpr ⟨byte, every byte byteMember, rfl⟩

end Ere
