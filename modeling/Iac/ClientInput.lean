import Iac.Library.Inevitable
import Iac.Library.Lines
import Iac.StatementTexts

/-! The loops that read what is typed in, character by character: the address in `submitOrder` of
`client/client.c`, and `scanInt` of `common/lib.c`. Behind the input comes `EOF`, for ever. -/

namespace Iac.Keyboard

open CText Inevitable Lines Client

def getchar : Bytes → Option UInt8 × Bytes
  | [] => (none, [])
  | c :: input => (some c, input)

/-! The address. -/

/-- In front of the condition of the inner loop, while the rest of an entry is consumed, or behind
the loops. -/
inductive Entry
  | entering (address : Block 1024) (i : Nat) (c : Option UInt8) (input : Bytes)
  | consuming (address : Block 1024) (c : Option UInt8) (input : Bytes)
  | entered (address : Block 1024) (input : Bytes)

def store (address : Block 1024) (i : Nat) (c : UInt8) : Block 1024 :=
  ⟨address.val.set i c, by rw [List.length_set, address.property]⟩

/-- The condition behind the inner loop; the last character read tells how it ended. -/
def leave (address : Block 1024) (i : Nat) (c : Option UInt8) (input : Bytes) : Entry :=
  if c = some newline then .entered (store address i 0) input else .consuming address c input

def Entry.next : Entry → Option Entry
  | .entering address i c input =>
      if i < 1024 - 1 then
        match getchar input with
        | (some c, input) =>
            if c = newline then some (leave address i (some c) input)
            else if isalnum c || c = space then
              some (.entering (store address i c) (i + 1) (some c) input)
            else some (leave address i (some c) input)
        | (none, input) => some (leave address i none input)
      else some (leave address i c input)
  | .consuming address c input =>
      match getchar input with
      | (some d, input) =>
          if d = newline then some (.entering address 0 c input) else some (.consuming address c input)
      | (none, input) => some (.consuming address c input)
  | .entered _ _ => none

def Enters (post : Block 1024 → Bytes → Prop) (entry : Entry) : Prop :=
  Inevitably (fun entry after => entry.next = some after)
    (fun last => ∃ address rest, last = .entered address rest ∧ post address rest) entry

def Accepted (line : Bytes) : Prop := line.length ≤ 1022 ∧ AddressText line

section

variable {post : Block 1024 → Bytes → Prop} {address : Block 1024} {i : Nat} {c : Option UInt8}
  {line : Bytes}

theorem entered_final (entry : Entry) (reached : ∃ address rest, entry = .entered address rest ∧ post address rest) :
    entry.next = none := by
  obtain ⟨address, rest, rfl, _⟩ := reached
  rfl

theorem enters_next {entry after : Entry} (moves : entry.next = some after) :
    Enters post entry ↔ Enters post after := by
  refine inevitably_next ?_ moves
  intro reached
  rw [entered_final entry reached] at moves
  contradiction

theorem enters_entered (rest : Bytes) : Enters post (.entered address rest) ↔ post address rest := by
  rw [Enters, inevitably_iff_stuck]
  · constructor
    · rintro ⟨_, _, same, holds⟩
      cases same
      exact holds
    · exact fun holds => ⟨_, _, rfl, holds⟩
  · intro next moves
    contradiction

/-! What one round of the inner loop does. -/

theorem enters_letter {d : UInt8} (within : i < 1024 - 1) (different : d ≠ newline)
    (letter : (isalnum d || decide (d = space)) = true) (input : Bytes) :
    Enters post (.entering address i c (d :: input)) ↔
      Enters post (.entering (store address i d) (i + 1) (some d) input) := by
  refine enters_next ?_
  simp only [Entry.next, getchar, if_pos within, if_neg different, if_pos letter]

theorem enters_other {d : UInt8} (within : i < 1024 - 1) (different : d ≠ newline)
    (other : ¬(isalnum d || decide (d = space)) = true) (input : Bytes) :
    Enters post (.entering address i c (d :: input)) ↔
      Enters post (.consuming address (some d) input) := by
  refine enters_next ?_
  simp only [Entry.next, getchar, if_pos within, if_neg different, if_neg other, leave,
    Option.some.injEq]

theorem enters_full (full : ¬i < 1024 - 1) (behind : c ≠ some newline) (input : Bytes) :
    Enters post (.entering address i c input) ↔ Enters post (.consuming address c input) := by
  refine enters_next ?_
  simp only [Entry.next, if_neg full, leave, if_neg behind]

theorem enters_eof (within : i < 1024 - 1) :
    Enters post (.entering address i c []) ↔ Enters post (.consuming address none []) := by
  refine enters_next ?_
  simp only [Entry.next, getchar, if_pos within, leave, reduceCtorEq, ↓reduceIte]

theorem enters_newline (within : i < 1024 - 1) (rest : Bytes) :
    Enters post (.entering address i c (newline :: rest)) ↔ post (store address i 0) rest := by
  refine Iff.trans (enters_next ?_) (enters_entered rest)
  simp only [Entry.next, getchar, if_pos within, leave, ↓reduceIte]

theorem consuming_skips (address : Block 1024) (c : Option UInt8) :
    Skips newline Entry.next (.consuming address c) (.entering address 0 c) where
  drops d line other := by simp only [Entry.next, getchar, if_neg other]
  ends rest := rfl
  stays := rfl

theorem enters_consuming (clean : newline ∉ line) (rest : Bytes) :
    Enters post (.consuming address c (line ++ newline :: rest)) ↔
      Enters post (.entering address 0 c rest) :=
  (consuming_skips address c).passes entered_final clean rest

/-! One line. -/

theorem take_store (within : i < 1024) (byte : UInt8) :
    (store address i byte).val.take (i + 1) = address.val.take i ++ [byte] := by
  have bound : i < (address.val.set i byte).length := by
    rw [List.length_set, address.property]
    exact within
  rw [store, List.take_succ_eq_append_getElem bound, List.getElem_set_self, List.take_set,
    List.set_eq_of_length_le (List.length_take_le i address.val)]

theorem accepts_newline : (isalnum newline || decide (newline = space)) = false := by decide

/-- A line that fits is stored behind what is there already, with its terminator. -/
theorem enters_valid (letters : AddressText line) (short : i + line.length ≤ 1022) (rest : Bytes) :
    ∃ stored : Block 1024,
      stored.val.take (i + line.length + 1) = address.val.take i ++ line ++ [0] ∧
      ∀ post, Enters post (.entering address i c (line ++ newline :: rest)) ↔ post stored rest := by
  induction line generalizing address i c with
  | nil =>
      simp only [List.length_nil, Nat.add_zero] at short
      refine ⟨store address i 0, ?_, ?_⟩
      · rw [List.append_nil]
        exact @take_store address i (by omega) 0
      · intro post
        exact enters_newline (by omega) rest
  | cons d line ih =>
      obtain ⟨letter, letters⟩ := List.forall_mem_cons.mp letters
      have different : d ≠ newline := by
        rintro rfl
        rw [accepts_newline] at letter
        contradiction
      simp only [List.length_cons] at short
      obtain ⟨stored, text, ends⟩ := @ih (store address i d) (i + 1) (some d) letters (by omega)
      refine ⟨stored, ?_, ?_⟩
      · rw [take_store (by omega)] at text
        rw [List.length_cons, show i + (line.length + 1) + 1 = i + 1 + line.length + 1 by omega, text]
        simp only [List.append_assoc, List.cons_append, List.nil_append]
      · intro post
        rw [← ends post]
        exact enters_letter (by omega) different letter _

theorem enters_rejected (clean : newline ∉ line) (other : ¬(AddressText line ∧ i + line.length ≤ 1022))
    (bound : i ≤ 1023) (behind : 0 < i → c ≠ some newline) (rest : Bytes) :
    ∃ left last, ∀ post, Enters post (.entering address i c (line ++ newline :: rest)) ↔
      Enters post (.entering left 0 last rest) := by
  induction line generalizing address i c with
  | nil =>
      have full : ¬i < 1024 - 1 := by
        intro within
        exact other ⟨fun _ member => absurd member List.not_mem_nil, show i + 0 ≤ 1022 by omega⟩
      refine ⟨address, c, ?_⟩
      intro post
      exact (enters_full full (behind (by omega)) _).trans (enters_consuming clean rest)
  | cons d line ih =>
      obtain ⟨different, cleaner⟩ := List.ne_and_not_mem_of_not_mem_cons clean
      by_cases within : i < 1024 - 1
      · by_cases letter : (isalnum d || decide (d = space)) = true
        · have later : ¬(AddressText line ∧ i + 1 + line.length ≤ 1022) := by
            rintro ⟨letters, short⟩
            refine other ⟨List.forall_mem_cons.mpr ⟨letter, letters⟩, ?_⟩
            simp only [List.length_cons]
            omega
          have passed : some d ≠ some newline := mt Option.some.inj different.symm
          obtain ⟨left, last, ends⟩ := @ih (store address i d) (i + 1) (some d) cleaner later (by omega)
            fun _ => passed
          refine ⟨left, last, ?_⟩
          intro post
          rw [← ends post]
          exact enters_letter within different.symm letter _
        · refine ⟨address, some d, ?_⟩
          intro post
          exact (enters_other within different.symm letter _).trans (enters_consuming cleaner rest)
      · refine ⟨address, c, ?_⟩
        intro post
        exact (enters_full within (behind (by omega)) _).trans (enters_consuming clean rest)

/-! The end of the input. -/

theorem not_enters_consuming (clean : newline ∉ line) : ¬Enters post (.consuming address c line) :=
  (consuming_skips address c).never entered_final clean

theorem not_enters_tail (clean : newline ∉ line) (behind : 0 < i → c ≠ some newline) :
    ¬Enters post (.entering address i c line) := by
  induction line generalizing address i c with
  | nil =>
      by_cases within : i < 1024 - 1
      · rw [enters_eof within]
        exact not_enters_consuming clean
      · rw [enters_full within (behind (by omega))]
        exact not_enters_consuming clean
  | cons d line ih =>
      obtain ⟨different, cleaner⟩ := List.ne_and_not_mem_of_not_mem_cons clean
      by_cases within : i < 1024 - 1
      · by_cases letter : (isalnum d || decide (d = space)) = true
        · rw [enters_letter within different.symm letter]
          refine ih cleaner ?_
          intro _ same
          exact different (Option.some.inj same).symm
        · rw [enters_other within different.symm letter]
          exact not_enters_consuming cleaner
      · rw [enters_full within (behind (by omega))]
        exact not_enters_consuming clean

end

/-! All lines. -/

theorem Accepted.start {line : Bytes} : Accepted line ↔ AddressText line ∧ 0 + line.length ≤ 1022 := by
  rw [Accepted, Nat.zero_add]
  exact and_comm

theorem enters_lines {lines : List Bytes} (rejected : ∀ line ∈ lines, newline ∉ line ∧ ¬Accepted line)
    (address : Block 1024) (c : Option UInt8) (rest : Bytes) :
    ∃ left last, ∀ post,
      Enters post (.entering address 0 c (lines.flatMap (· ++ [newline]) ++ rest)) ↔
        Enters post (.entering left 0 last rest) := by
  induction lines generalizing address c with
  | nil => exact ⟨address, c, fun _ => Iff.rfl⟩
  | cons line lines ih =>
      obtain ⟨⟨clean, refused⟩, rejected⟩ := List.forall_mem_cons.mp rejected
      have next := @enters_rejected address 0 c line clean (mt Accepted.start.mpr refused) (by omega)
        (fun positive => absurd positive (Nat.lt_irrefl 0)) (lines.flatMap (· ++ [newline]) ++ rest)
      obtain ⟨between, passed, here⟩ := next
      obtain ⟨left, last, behind⟩ := ih rejected between passed
      refine ⟨left, last, ?_⟩
      intro post
      rw [← behind post, ← here post]
      simp only [List.flatMap_cons, List.append_assoc, List.cons_append, List.nil_append]

/-- What `submitOrder` has in its array, and in the order, when its loops end. -/
structure Stored (order : Order) (line rest : Bytes) (address : Block 1024) (left : Bytes) : Prop where
  array : address.val.take (line.length + 1) = line ++ [0]
  order : (orderSetAddress order address.val).address = some (line ++ [0])
  left : left = rest

theorem addressText_clean {line : Bytes} (letters : AddressText line) : (0 : UInt8) ∉ line := by
  intro member
  exact absurd (letters 0 member) (by decide)

theorem first_entered {input line rest : Bytes} (first : First newline Accepted input line rest)
    (order : Order) (address : Block 1024) (c : Option UInt8) :
    Enters (Stored order line rest) (.entering address 0 c input) := by
  obtain ⟨⟨others, shape, rejected⟩, clean, accepted⟩ := first
  obtain ⟨letters, short⟩ := Accepted.start.mp accepted
  obtain ⟨left, last, passed⟩ := enters_lines rejected address c (line ++ newline :: rest)
  obtain ⟨stored, text, ends⟩ := @enters_valid left 0 last line letters short rest
  rw [shape, passed, ends]
  simp only [Nat.zero_add, List.take_zero, List.nil_append] at text
  have string : cstring stored.val = line := by
    rw [← List.take_append_drop (line.length + 1) stored.val, text, List.append_assoc]
    exact cstring_append_nul (addressText_clean letters) _
  refine ⟨text, ?_, rfl⟩
  rw [orderSetAddress, string]

/-- Whatever is in the array and in `c` before. -/
theorem first_address_stored (order : Order) (address : Block 1024) (c : Option UInt8) (input : Bytes)
    (some_line : ∃ line ∈ completeLines newline input, Accepted line) :
    ∃ line rest, First newline Accepted input line rest ∧
      Enters (Stored order line rest) (.entering address 0 c input) := by
  obtain ⟨line, rest, first⟩ := first_exists some_line
  exact ⟨line, rest, first, first_entered first order address c⟩

theorem zeros_length : (List.replicate 1024 (0 : UInt8)).length = 1024 := List.length_replicate

def blankArray : Block 1024 := ⟨List.replicate 1024 0, zeros_length⟩

theorem second_line_stored : ∃ line rest,
    First newline Accepted (ascii "Madero 399, 2\nMadero 399\n1\n") line rest ∧
      Enters (Stored orderNew line rest)
        (.entering blankArray 0 none (ascii "Madero 399, 2\nMadero 399\n1\n")) :=
  first_address_stored orderNew blankArray none _
    ⟨ascii "Madero 399", by decide, by unfold Accepted AddressText; decide⟩

/-! The loops as functions. -/

theorem consumeRest_line {line : Bytes} (clean : newline ∉ line) (rest : Bytes) :
    consumeRest (line ++ newline :: rest) = some rest := by
  induction line with
  | nil => rfl
  | cons d line ih =>
      obtain ⟨different, cleaner⟩ := List.ne_and_not_mem_of_not_mem_cons clean
      simp only [List.cons_append, consumeRest, if_neg different.symm, ih cleaner]

theorem consumeRest_tail {line : Bytes} (clean : newline ∉ line) : consumeRest line = none := by
  induction line with
  | nil => rfl
  | cons d line ih =>
      obtain ⟨different, cleaner⟩ := List.ne_and_not_mem_of_not_mem_cons clean
      simp only [consumeRest, if_neg different.symm, ih cleaner]

theorem enterAddress_rejected {line : Bytes} {room : Nat} (clean : newline ∉ line)
    (other : ¬(AddressText line ∧ line.length + 1 ≤ room)) (rest : Bytes) :
    ∃ text unread, enterAddress room (line ++ newline :: rest) = (text, false, unread ++ newline :: rest) ∧
      newline ∉ unread := by
  induction line generalizing room with
  | nil =>
      cases room with
      | zero => exact ⟨[], [], rfl, clean⟩
      | succ room =>
          exact absurd ⟨fun _ member => absurd member List.not_mem_nil, Nat.le_add_left 1 room⟩ other
  | cons d line ih =>
      obtain ⟨different, cleaner⟩ := List.ne_and_not_mem_of_not_mem_cons clean
      cases room with
      | zero => exact ⟨[], d :: line, rfl, clean⟩
      | succ room =>
          by_cases letter : (isalnum d || decide (d = space)) = true
          · have later : ¬(AddressText line ∧ line.length + 1 ≤ room) := by
              rintro ⟨letters, short⟩
              exact other ⟨List.forall_mem_cons.mpr ⟨letter, letters⟩, Nat.succ_le_succ short⟩
            obtain ⟨text, unread, entered, plain⟩ := ih cleaner later
            refine ⟨d :: text, unread, ?_, plain⟩
            simp only [List.cons_append, enterAddress, if_neg different.symm, if_pos letter, entered]
          · refine ⟨[], line, ?_, cleaner⟩
            simp only [List.cons_append, enterAddress, if_neg different.symm, if_neg letter]

theorem enterAddress_tail {line : Bytes} {room : Nat} (clean : newline ∉ line) :
    ∃ text unread, enterAddress room line = (text, false, unread) ∧ newline ∉ unread := by
  induction line generalizing room with
  | nil =>
      cases room with
      | zero => exact ⟨[], [], rfl, clean⟩
      | succ room => exact ⟨[], [], rfl, clean⟩
  | cons d line ih =>
      obtain ⟨different, cleaner⟩ := List.ne_and_not_mem_of_not_mem_cons clean
      cases room with
      | zero => exact ⟨[], d :: line, rfl, clean⟩
      | succ room =>
          by_cases letter : (isalnum d || decide (d = space)) = true
          · obtain ⟨text, unread, entered, plain⟩ := @ih room cleaner
            refine ⟨d :: text, unread, ?_, plain⟩
            simp only [enterAddress, if_neg different.symm, if_pos letter, entered]
          · refine ⟨[], line, ?_, cleaner⟩
            simp only [enterAddress, if_neg different.symm, if_neg letter]

theorem readAddressRounds_first {rounds : Nat} {input line rest : Bytes}
    (read : readAddressRounds rounds input = some (line, rest)) :
    First newline Accepted input line rest := by
  induction input using @lines_induction _ newline generalizing rounds with
  | tail tail clean =>
      cases rounds with
      | zero => contradiction
      | succ rounds =>
          obtain ⟨text, unread, entered, plain⟩ := @enterAddress_tail tail 1023 clean
          simp only [readAddressRounds, entered, Bool.false_eq_true, ↓reduceIte, consumeRest_tail plain,
            Option.bind_none, reduceCtorEq] at read
  | line typed behind clean ih =>
      cases rounds with
      | zero => contradiction
      | succ rounds =>
          by_cases accepted : Accepted typed
          · have entered := @enterAddress_line 1023 typed (Nat.succ_le_succ accepted.1) accepted.2 behind
            simp only [readAddressRounds, entered, ↓reduceIte, Option.some.injEq, Prod.mk.injEq] at read
            obtain ⟨rfl, rfl⟩ := read
            exact first_line clean accepted behind
          · have other : ¬(AddressText typed ∧ typed.length + 1 ≤ 1023) := by
              rintro ⟨letters, short⟩
              exact accepted ⟨Nat.le_of_succ_le_succ short, letters⟩
            obtain ⟨text, unread, entered, plain⟩ := enterAddress_rejected clean other behind
            simp only [readAddressRounds, entered, Bool.false_eq_true, ↓reduceIte, consumeRest_line plain,
              Option.bind_some] at read
            exact (ih read).behind clean accepted

theorem readAddress_entered {input line rest : Bytes} (read : Client.readAddress input = some (line, rest))
    (order : Order) (address : Block 1024) (c : Option UInt8) :
    Enters (Stored order line rest) (.entering address 0 c input) :=
  first_entered (readAddressRounds_first read) order address c

/-! `scanInt`. -/

def isspace (c : UInt8) : Bool := c = space || 9 ≤ c && c ≤ 13

def plus : UInt8 := 43

def sign : Bytes → Int × Bytes
  | [] => (1, [])
  | c :: input => if c = hyphen then (-1, input) else if c = plus then (1, input) else (1, c :: input)

/-- `scanf("%d", &result)`: the number that is typed, if there is one, and what is left to read. Where
the number is no `int`, what is stored is undefined. -/
def scanf (input : Bytes) : Option Int × Bytes :=
  let (sign, input) := sign (input.dropWhile isspace)
  let digits := input.takeWhile isDigit
  (if digits = [] then none else some (sign * numeral digits), input.dropWhile isDigit)

/-- In front of a `scanf`, while the rest of the line is read, or at the end. -/
inductive Scan
  | asking (input : Bytes)
  | emptying (result : Option Int) (input : Bytes)
  | returned (result : Int) (input : Bytes)

def Scan.behind : Option Int → Bytes → Scan
  | some result, input => .returned result input
  | none, input => .asking input

def Scan.next : Scan → Option Scan
  | .asking input =>
      let (result, input) := scanf input
      some (.emptying result input)
  | .emptying result input =>
      match getchar input with
      | (some c, input) => if c = newline then some (.behind result input) else some (.emptying result input)
      | (none, input) => some (.emptying result input)
  | .returned _ _ => none

def Returns (scan : Scan) : Prop :=
  Inevitably (fun scan after => scan.next = some after)
    (fun last => ∃ result rest, last = .returned result rest) scan

def Numbered (line : Bytes) : Prop := (scanf line).1.isSome

section

variable {line : Bytes}

theorem returned_final (scan : Scan) (reached : ∃ result rest, scan = .returned result rest) :
    scan.next = none := by
  obtain ⟨result, rest, rfl⟩ := reached
  rfl

theorem returns_next {scan after : Scan} (moves : scan.next = some after) :
    Returns scan ↔ Returns after := by
  refine inevitably_next ?_ moves
  intro reached
  rw [returned_final scan reached] at moves
  contradiction

theorem emptying_skips (result : Option Int) :
    Skips newline Scan.next (.emptying result) (.behind result) where
  drops d line other := by simp only [Scan.next, getchar, if_neg other]
  ends rest := rfl
  stays := rfl

theorem returns_emptying {result : Option Int} (clean : newline ∉ line) (rest : Bytes) :
    Returns (.emptying result (line ++ newline :: rest)) ↔ Returns (.behind result rest) :=
  (emptying_skips result).passes returned_final clean rest

theorem not_returns_emptying {result : Option Int} (clean : newline ∉ line) :
    ¬Returns (.emptying result line) :=
  (emptying_skips result).never returned_final clean

theorem sign_append (line rest : Bytes) (some_byte : line ≠ []) :
    sign (line ++ rest) = ((sign line).1, (sign line).2 ++ rest) := by
  obtain ⟨c, line, rfl⟩ := List.exists_cons_of_ne_nil some_byte
  simp only [List.cons_append, sign]
  split
  · rfl
  · split
    · rfl
    · rfl

theorem sign_suffix (line : Bytes) : (sign line).2 <:+ line := by
  cases line with
  | nil => exact List.suffix_rfl
  | cons c line =>
      simp only [sign]
      split
      · exact List.suffix_cons c line
      · split
        · exact List.suffix_cons c line
        · exact List.suffix_rfl

theorem scanf_suffix (line : Bytes) : (scanf line).2 <:+ line := by
  have digits := List.dropWhile_suffix (l := (sign (line.dropWhile isspace)).2) isDigit
  exact digits.trans ((sign_suffix _).trans (List.dropWhile_suffix isspace))

theorem scanf_blank (blank : line.dropWhile isspace = []) (rest : Bytes) :
    scanf (line ++ newline :: rest) = scanf rest := by
  have skipped : (line ++ newline :: rest).dropWhile isspace = rest.dropWhile isspace := by
    rw [List.dropWhile_append, blank]
    rfl
  rw [scanf, skipped, scanf]

theorem digits_line (line rest : Bytes) :
    (line ++ newline :: rest).takeWhile isDigit = line.takeWhile isDigit := by
  induction line with
  | nil => rfl
  | cons c line ih => simp only [List.cons_append, List.takeWhile_cons, ih]

theorem after_digits_line (line rest : Bytes) :
    (line ++ newline :: rest).dropWhile isDigit = line.dropWhile isDigit ++ newline :: rest := by
  induction line with
  | nil => rfl
  | cons c line ih =>
      simp only [List.cons_append, List.dropWhile_cons, ih]
      split
      · rfl
      · rfl

theorem scanf_line (typed : line.dropWhile isspace ≠ []) (rest : Bytes) :
    scanf (line ++ newline :: rest) = ((scanf line).1, (scanf line).2 ++ newline :: rest) := by
  have skipped : (line ++ newline :: rest).dropWhile isspace =
      line.dropWhile isspace ++ newline :: rest := by
    rw [List.dropWhile_append, if_neg (by rw [List.isEmpty_iff]; exact typed)]
  simp only [scanf, skipped, sign_append _ _ typed, digits_line, after_digits_line]

theorem numbered_typed (numbered : Numbered line) : line.dropWhile isspace ≠ [] := by
  intro blank
  simp only [Numbered, scanf, blank] at numbered
  contradiction

/-! One line. -/

theorem returns_numbered (clean : newline ∉ line) (numbered : Numbered line) (rest : Bytes) :
    Returns (.asking (line ++ newline :: rest)) := by
  obtain ⟨result, number⟩ := Option.isSome_iff_exists.mp numbered
  have moves : (Scan.asking (line ++ newline :: rest)).next =
      some (.emptying (some result) ((scanf line).2 ++ newline :: rest)) := by
    rw [← number, Scan.next, scanf_line (numbered_typed numbered)]
  rw [returns_next moves, returns_emptying (fun member => clean ((scanf_suffix line).subset member))]
  exact .now ⟨result, rest, rfl⟩

theorem returns_other (clean : newline ∉ line) (other : ¬Numbered line) (rest : Bytes) :
    Returns (.asking (line ++ newline :: rest)) ↔ Returns (.asking rest) := by
  by_cases blank : line.dropWhile isspace = []
  · have moves : (Scan.asking (line ++ newline :: rest)).next =
        some (.emptying (scanf rest).1 (scanf rest).2) := by
      rw [Scan.next, scanf_blank blank]
    exact (returns_next moves).trans (returns_next rfl).symm
  · have nothing : (scanf line).1 = none := Option.not_isSome_iff_eq_none.mp other
    have moves : (Scan.asking (line ++ newline :: rest)).next =
        some (.emptying none ((scanf line).2 ++ newline :: rest)) := by
      rw [← nothing, Scan.next, scanf_line blank]
    rw [returns_next moves, returns_emptying (fun member => clean ((scanf_suffix line).subset member))]
    rfl

theorem not_returns_tail (clean : newline ∉ line) : ¬Returns (.asking line) := by
  rw [returns_next rfl]
  exact not_returns_emptying fun member => clean ((scanf_suffix line).subset member)

end

/-! All lines. -/

theorem returns_iff (input : Bytes) :
    Returns (.asking input) ↔ ∃ line ∈ completeLines newline input, Numbered line := by
  refine @ends_iff_line UInt8 newline Numbered _ Unit (fun _ input => Returns (.asking input)) ?_ ?_ ?_ () input
  · exact fun _ line rest clean numbered => returns_numbered clean numbered rest
  · exact fun _ line rest clean other => ⟨(), returns_other clean other rest⟩
  · exact fun _ line clean => not_returns_tail clean

theorem enters_iff (address : Block 1024) (c : Option UInt8) (input : Bytes) :
    Enters (fun _ _ => True) (.entering address 0 c input) ↔
      ∃ line ∈ completeLines newline input, Accepted line := by
  refine @ends_iff_line UInt8 newline Accepted _ (Block 1024 × Option UInt8)
    (fun state input => Enters (fun _ _ => True) (.entering state.1 0 state.2 input)) ?_ ?_ ?_ (address, c) input
  · rintro ⟨address, c⟩ line rest clean accepted
    obtain ⟨letters, short⟩ := Accepted.start.mp accepted
    obtain ⟨stored, _, ends⟩ := @enters_valid address 0 c line letters short rest
    exact (ends _).mpr trivial
  · rintro ⟨address, c⟩ line rest clean other
    obtain ⟨left, last, ends⟩ := @enters_rejected address 0 c line clean (mt Accepted.start.mpr other)
      (Nat.zero_le _) (fun positive => absurd positive (Nat.lt_irrefl 0)) rest
    exact ⟨(left, last), ends _⟩
  · rintro ⟨address, c⟩ line clean
    exact not_enters_tail clean fun positive => absurd positive (Nat.lt_irrefl 0)

/-- Both loops end only in a line that is complete and that they accept. -/
theorem inputLoops_end_iff (address : Block 1024) (c : Option UInt8) (input : Bytes) :
    (Returns (.asking input) ↔ ∃ line ∈ completeLines newline input, Numbered line) ∧
    (Enters (fun _ _ => True) (.entering address 0 c input) ↔
      ∃ line ∈ completeLines newline input, Accepted line) :=
  ⟨returns_iff input, enters_iff address c input⟩

theorem unfinished_line_hangs : ¬Returns (.asking (ascii "12")) ∧
    ¬Enters (fun _ _ => True) (.entering blankArray 0 none (ascii "Madero 399")) :=
  ⟨not_returns_tail (by decide), not_enters_tail (by decide) (by decide)⟩

end Iac.Keyboard
