import Iac.Library.Buffer

/-! Encoders and decoders that walk a buffer with an `int` offset. A decoder keeps a record
of its accesses, and the first one that misses its block ends it; an encoder fills a fresh
block piece by piece. -/

namespace Layout

open CText

/-- `offset += width`: a sum of `size_t`s that is cut to an `int`. -/
def moved (offset : Int) (width : Nat) : Int := (Int32.ofInt (offset + width)).toInt

theorem moved_eq {offset width : Nat} (small : offset + width < 2 ^ 31) :
    moved offset width = (offset + width : Nat) :=
  Int32.toInt_ofInt_of_le (by omega) (by omega)

theorem moved_negative {offset width : Nat} (small : offset < 2 ^ 31) (narrow : width < 2 ^ 31)
    (large : 2 ^ 31 ≤ offset + width) : moved offset width < 0 := by
  rw [moved, Int32.toInt_ofInt]
  simp only [Int.bmod, Int32.size]
  split <;> omega

/-! Decoding. -/

/-- An access to the buffer that is decoded, or to `count` cells of a block of `size`. -/
inductive Access
  | read (offset : Int) (width : Nat)
  | write (first count size : Nat)
  deriving DecidableEq, Repr

def Access.Inside (length : Nat) : Access → Prop
  | .read offset width => 0 ≤ offset ∧ offset + width ≤ length
  | .write first count size => first + count ≤ size

instance (length : Nat) : (a : Access) → Decidable (a.Inside length)
  | .read _ _ => inferInstanceAs (Decidable (_ ∧ _))
  | .write _ _ _ => inferInstanceAs (Decidable (_ ≤ _))

structure Traced (α : Type) where
  accesses : List Access
  result : Option α
  deriving Repr

namespace Traced

variable {α β : Type}

protected def bind (t : Traced α) (next : α → Traced β) : Traced β :=
  match t.result with
  | none => ⟨t.accesses, none⟩
  | some value => ⟨t.accesses ++ (next value).accesses, (next value).result⟩

instance : Monad Traced where
  pure value := ⟨[], some value⟩
  bind := Traced.bind

def access (length : Nat) (a : Access) : Traced Unit :=
  ⟨[a], if a.Inside length then some () else none⟩

@[simp] theorem pure_result (value : α) : (pure value : Traced α).result = some value := rfl

@[simp] theorem bind_result (t : Traced α) (next : α → Traced β) :
    (t >>= next).result = t.result.bind fun value => (next value).result := by
  change (Traced.bind t next).result = _
  unfold Traced.bind
  split <;> simp_all

theorem access_inside {length : Nat} {a : Access} (inside : a.Inside length) :
    (access length a).result = some () := if_pos inside

theorem access_outside {length : Nat} {a : Access} (outside : ¬a.Inside length) :
    (access length a).result = none := if_neg outside

theorem mem_bind {t : Traced α} {next : α → Traced β} {a : Access} :
    a ∈ (t >>= next).accesses ↔
      a ∈ t.accesses ∨ ∃ value, t.result = some value ∧ a ∈ (next value).accesses := by
  change a ∈ (Traced.bind t next).accesses ↔ _
  unfold Traced.bind
  split <;> simp_all

/-- There is a result unless an access misses its block. -/
def Sound (length : Nat) (t : Traced α) : Prop :=
  t.result.isSome ↔ ∀ a ∈ t.accesses, a.Inside length

/-- Nothing outside its block is touched, and what comes out is as it should be. -/
def Safely (length : Nat) (t : Traced α) (post : α → Prop) : Prop :=
  (∀ a ∈ t.accesses, a.Inside length) ∧ ∀ value, t.result = some value → post value

section

variable {length : Nat}

theorem sound_pure (value : α) : Sound length (pure value) := by
  constructor
  · intro _ a member
    exact absurd member List.not_mem_nil
  · intro _
    rfl

theorem sound_bind {t : Traced α} {next : α → Traced β} (first : Sound length t)
    (second : ∀ value, t.result = some value → Sound length (next value)) :
    Sound length (t >>= next) := by
  unfold Sound at first second ⊢
  simp only [mem_bind, bind_result]
  cases found : t.result with
  | none =>
      simp only [found, Option.isSome_none, Bool.false_eq_true, false_iff] at first
      simpa using first
  | some value =>
      simp only [found, Option.isSome_some, true_iff] at first
      have later := second value found
      rw [Option.bind_some, later]
      constructor
      · rintro inside a (member | ⟨other, same, member⟩)
        · exact first a member
        · cases same
          exact inside a member
      · intro inside a member
        exact inside a (.inr ⟨value, rfl, member⟩)

theorem sound_access (a : Access) : Sound length (access length a) := by
  by_cases inside : a.Inside length
  · simp [Sound, access, inside]
  · simp [Sound, access, inside]

theorem Sound.safely {t : Traced α} (sound : Sound length t) (post : α → Prop) :
    Safely length t post ↔ ∃ value, t.result = some value ∧ post value := by
  constructor
  · rintro ⟨inside, good⟩
    obtain ⟨value, found⟩ := Option.isSome_iff_exists.mp (sound.mpr inside)
    exact ⟨value, found, good value found⟩
  · rintro ⟨value, found, good⟩
    refine ⟨sound.mp (by rw [found]; rfl), ?_⟩
    intro other same
    rw [found, Option.some.injEq] at same
    exact same ▸ good

end

/-- `i` is among the offsets that were read. -/
def Touches (t : Traced α) (i : Nat) : Prop :=
  ∃ offset width, Access.read offset width ∈ t.accesses ∧ offset ≤ i ∧ (i : Int) < offset + width

/-- The result is `value`, and read was exactly what lies between `start` and `stop`. -/
structure Walks (t : Traced α) (start stop : Nat) (value : α) : Prop where
  result : t.result = some value
  forward : start ≤ stop
  touches : ∀ i, t.Touches i ↔ start ≤ i ∧ i < stop

theorem walks_pure (value : α) (offset : Nat) : Walks (pure value) offset offset value where
  result := rfl
  forward := Nat.le_refl _
  touches i := by
    constructor
    · rintro ⟨_, _, member, _⟩
      exact absurd member List.not_mem_nil
    · omega

theorem walks_bind {t : Traced α} {next : α → Traced β} {start middle stop : Nat} {value : α}
    {last : β} (first : Walks t start middle value) (second : Walks (next value) middle stop last) :
    Walks (t >>= next) start stop last where
  result := by rw [bind_result, first.result, Option.bind_some, second.result]
  forward := Nat.le_trans first.forward second.forward
  touches i := by
    have before := first.touches i
    have behind := second.touches i
    have order₁ := first.forward
    have order₂ := second.forward
    simp only [Touches, mem_bind, first.result, Option.some.injEq, exists_eq_left'] at before behind ⊢
    have split : (∃ offset width, (Access.read offset width ∈ t.accesses ∨
          Access.read offset width ∈ (next value).accesses) ∧ offset ≤ (i : Int) ∧
            (i : Int) < offset + width) ↔ (start ≤ i ∧ i < middle) ∨ (middle ≤ i ∧ i < stop) := by
      rw [← before, ← behind]
      constructor
      · rintro ⟨offset, width, member | member, range⟩
        · exact .inl ⟨offset, width, member, range⟩
        · exact .inr ⟨offset, width, member, range⟩
      · rintro (⟨offset, width, member, range⟩ | ⟨offset, width, member, range⟩)
        · exact ⟨offset, width, .inl member, range⟩
        · exact ⟨offset, width, .inr member, range⟩
    rw [split]
    omega

theorem walks_write {length first count size : Nat} (inside : first + count ≤ size) (offset : Nat) :
    Walks (access length (.write first count size)) offset offset () where
  result := if_pos inside
  forward := Nat.le_refl _
  touches i := by
    constructor
    · rintro ⟨_, _, member, _⟩
      simp [access] at member
    · omega

theorem walks_read {length offset width : Nat} (inside : offset + width ≤ length) :
    Walks (access length (.read offset width)) offset (offset + width) () where
  result := by
    apply if_pos
    simp only [Access.Inside]
    omega
  forward := Nat.le_add_right _ _
  touches i := by
    constructor
    · rintro ⟨start, wide, member, range⟩
      simp only [access, List.mem_singleton, Access.read.injEq] at member
      omega
    · intro range
      exact ⟨offset, width, by simp [access], by omega, by omega⟩

end Traced

open Traced

def memcpy (data : Bytes) (offset : Int) (width : Nat) : Traced Bytes := do
  access data.length (.read offset width)
  return (data.drop offset.toNat).take width

/-- `strncpy` of `size` bytes into a block of `available`: behind the NUL it fills with zeros. -/
def strncpy (data : Bytes) (offset : Int) (size available : Nat) : Traced Bytes := do
  let text := cstring (data.drop offset.toNat)
  access data.length (.read offset (min size (text.length + 1)))
  access data.length (.write 0 size available)
  return text.take size ++ List.replicate (size - text.length) 0

/-- `memcpy` of a field into the cells from `first` on of a block of `available`. -/
def copyInto (data : Bytes) (offset : Int) (width first available : Nat) : Traced Bytes := do
  let bytes ← memcpy data offset width
  access data.length (.write first width available)
  return bytes

/-- `rest` is what the buffer holds from `offset` on. -/
def Ahead (data : Bytes) (offset : Nat) (rest : Bytes) : Prop :=
  ∃ before, data = before ++ rest ∧ before.length = offset

theorem Ahead.next {data bytes rest : Bytes} {offset : Nat}
    (ahead : Ahead data offset (bytes ++ rest)) : Ahead data (offset + bytes.length) rest := by
  obtain ⟨before, rfl, rfl⟩ := ahead
  exact ⟨before ++ bytes, by simp, by simp⟩

theorem Ahead.drop {data rest : Bytes} {offset : Nat} (ahead : Ahead data offset rest) :
    data.drop offset = rest := by
  obtain ⟨before, rfl, rfl⟩ := ahead
  exact List.drop_left

theorem Ahead.length {data rest : Bytes} {offset : Nat} (ahead : Ahead data offset rest) :
    data.length = offset + rest.length := by
  obtain ⟨before, rfl, rfl⟩ := ahead
  exact List.length_append

theorem walks_memcpy {data bytes rest : Bytes} {offset : Nat}
    (ahead : Ahead data offset (bytes ++ rest)) :
    Walks (memcpy data offset bytes.length) offset (offset + bytes.length) bytes := by
  have inside := ahead.length
  rw [List.length_append] at inside
  refine walks_bind (walks_read (by omega)) ?_
  have text : (data.drop (offset : Int).toNat).take bytes.length = bytes := by
    rw [Int.toNat_natCast, ahead.drop]
    exact List.take_left
  rw [text]
  exact walks_pure _ _

theorem walks_copyInto {data bytes rest : Bytes} {offset first available : Nat}
    (ahead : Ahead data offset (bytes ++ rest)) (room : first + bytes.length ≤ available) :
    Walks (copyInto data offset bytes.length first available) offset (offset + bytes.length) bytes :=
  walks_bind (walks_memcpy ahead) (walks_bind (walks_write room _) (walks_pure _ _))

theorem walks_strncpy {data text rest : Bytes} {offset available : Nat} (clean : (0 : UInt8) ∉ text)
    (ahead : Ahead data offset (text ++ 0 :: rest)) (room : text.length + 1 ≤ available) :
    Walks (strncpy data offset (text.length + 1) available) offset (offset + (text.length + 1))
      (text ++ [0]) := by
  have inside := ahead.length
  rw [List.length_append, List.length_cons] at inside
  have found : cstring (data.drop (offset : Int).toNat) = text := by
    rw [Int.toNat_natCast, ahead.drop]
    exact cstring_append_nul clean rest
  unfold strncpy
  simp only [found, Nat.min_self]
  refine walks_bind (walks_read (by omega)) (walks_bind (walks_write (by omega) _) ?_)
  have padded : text.take (text.length + 1) ++ List.replicate (text.length + 1 - text.length) 0 =
      text ++ [0] := by
    rw [List.take_of_length_le (by omega), Nat.add_sub_cancel_left]
    rfl
  rw [padded]
  exact walks_pure _ _

theorem sound_memcpy (data : Bytes) (offset : Int) (width : Nat) :
    Sound data.length (memcpy data offset width) :=
  sound_bind (sound_access _) fun _ _ => sound_pure _

theorem sound_copyInto (data : Bytes) (offset : Int) (width first available : Nat) :
    Sound data.length (copyInto data offset width first available) :=
  sound_bind (sound_memcpy _ _ _) fun _ _ => sound_bind (sound_access _) fun _ _ => sound_pure _

theorem sound_strncpy (data : Bytes) (offset : Int) (size available : Nat) :
    Sound data.length (strncpy data offset size available) :=
  sound_bind (sound_access _) fun _ _ => sound_bind (sound_access _) fun _ _ => sound_pure _

theorem memcpy_result (data : Bytes) (offset : Int) (width : Nat) :
    (memcpy data offset width).result =
      if 0 ≤ offset ∧ offset + width ≤ data.length then some ((data.drop offset.toNat).take width)
      else none := by
  rw [memcpy, bind_result]
  by_cases inside : 0 ≤ offset ∧ offset + width ≤ data.length
  · rw [if_pos inside, @access_inside data.length (.read offset width) inside]
    rfl
  · rw [if_neg inside, @access_outside data.length (.read offset width) inside]
    rfl

theorem copyInto_result {first width available : Nat} (room : first + width ≤ available) (data : Bytes)
    (offset : Int) : (copyInto data offset width first available).result =
      (memcpy data offset width).result := by
  simp only [copyInto, bind_result, @access_inside data.length (.write first width available) room,
    Option.bind_some, pure_result, Option.bind_fun_some]

theorem copyInto_refused {first width available : Nat} (missed : ¬first + width ≤ available) (data : Bytes)
    (offset : Int) : (copyInto data offset width first available).result = none := by
  simp only [copyInto, bind_result, @access_outside data.length (.write first width available) missed,
    Option.bind_none, Option.bind_fun_none]

theorem strncpy_result (data : Bytes) (offset : Int) (size available : Nat) :
    (strncpy data offset size available).result =
      let text := cstring (data.drop offset.toNat)
      if (0 ≤ offset ∧ offset + (min size (text.length + 1) : Nat) ≤ data.length) ∧ size ≤ available
      then some (text.take size ++ List.replicate (size - text.length) 0) else none := by
  dsimp only
  generalize written : cstring (data.drop offset.toNat) = text
  simp only [strncpy, written, bind_result]
  by_cases inside : (Access.read offset (min size (text.length + 1))).Inside data.length
  · rw [access_inside inside, Option.bind_some]
    by_cases room : (Access.write 0 size available).Inside data.length
    · have both := And.intro inside room
      simp only [Access.Inside, Nat.zero_add] at both
      rw [access_inside room, if_pos both]
      rfl
    · rw [access_outside room, if_neg]
      · rfl
      · rintro ⟨_, available⟩
        apply room
        simpa only [Access.Inside, Nat.zero_add] using available
  · rw [access_outside inside, if_neg]
    · rfl
    · rintro ⟨within, _⟩
      exact inside within

/-! Encoding. -/

/-- A block that is being filled: nothing where it has not been written. -/
abbrev Draft := List (Option UInt8)

def fresh (size : Nat) : Draft := List.replicate size none

def Draft.store (draft : Draft) (offset : Int) (bytes : Bytes) : Option Draft :=
  if 0 ≤ offset ∧ offset + bytes.length ≤ draft.length then
    some (draft.take offset.toNat ++ bytes.map some ++ draft.drop (offset.toNat + bytes.length))
  else none

/-- The first bytes are written and the others are not. -/
def filled (bytes : Bytes) (rest : Nat) : Draft := bytes.map some ++ fresh rest

theorem filled_store {before bytes : Bytes} {rest : Nat} (room : bytes.length ≤ rest) :
    (filled before rest).store before.length bytes =
      some (filled (before ++ bytes) (rest - bytes.length)) := by
  have inside : (0 : Int) ≤ before.length ∧
      (before.length : Int) + bytes.length ≤ (filled before rest).length := by
    simp only [filled, fresh, List.length_append, List.length_map, List.length_replicate]
    omega
  rw [Draft.store, if_pos inside, Int.toNat_natCast]
  simp [filled, fresh, List.drop_append]

/-- A block of `size` bytes is written up to the offset. -/
structure Filling (size : Nat) (dest : Draft) (offset : Int) (before : Bytes) : Prop where
  dest : dest = filled before (size - before.length)
  offset : offset = before.length

theorem filling_fresh (size : Nat) : Filling size (fresh size) 0 [] where
  dest := rfl
  offset := rfl

/-- One `memcpy` behind what is already there, and the offset behind it. -/
theorem Filling.store {size width : Nat} {dest : Draft} {offset : Int} {before bytes : Bytes}
    (filling : Filling size dest offset before) (small : size < 2 ^ 31)
    (wide : bytes.length = width) (room : before.length + width ≤ size) :
    ∃ next, dest.store offset bytes = some next ∧
      Filling size next (moved offset width) (before ++ bytes) := by
  obtain ⟨rfl, rfl⟩ := filling
  subst width
  refine ⟨_, filled_store (by omega), ?_, ?_⟩
  · rw [List.length_append, Nat.sub_sub]
  · rw [List.length_append]
    exact moved_eq (by omega)

theorem Filling.full {size : Nat} {dest : Draft} {offset : Int} {before : Bytes}
    (filling : Filling size dest offset before) (whole : before.length = size) :
    dest = before.map some := by
  obtain ⟨rfl, _⟩ := filling
  simp [filled, fresh, whole]

end Layout
