import Iac.Library.Layout
import Iac.Order

/-! `orderSerialize` and `orderUnserialize` access by access: what is read and written where,
for every frame that may arrive. -/

namespace Iac

open CText Layout Layout.Traced

/-! Decoding, with the offsets as the code computes them. -/

/-- The fields of an order before anything is known about them. -/
structure RawOrder where
  address : Option Bytes
  numEntries : Int32
  items : List OrderEntry
  deriving DecidableEq, Repr

def Order.raw (o : Order) : RawOrder := ⟨o.address, o.numEntries, o.items⟩

/-- The blocks that decoding an order asks for. -/
inductive Allocation
  | order
  | items
  | address (size : Nat)
  | entry (i : Nat)
  deriving DecidableEq, Repr

/-- How much may be written to a block: nothing behind the `NULL` of a refused request. -/
def blockRoom (malloc : Allocation → Bool) (block : Allocation) (size : Nat) : Nat :=
  if malloc block then size else 0

theorem blockRoom_granted {malloc : Allocation → Bool} {block : Allocation} (granted : malloc block = true)
    (size : Nat) : blockRoom malloc block size = size := if_pos granted

theorem blockRoom_refused {malloc : Allocation → Bool} {block : Allocation} (refused : malloc block ≠ true)
    (size : Nat) : blockRoom malloc block size = 0 := if_neg refused

def readEntry (data : Bytes) (offset : Int) (room : Nat) : Traced OrderEntry := do
  let productId ← copyInto data offset 4 0 room
  let offset := moved offset 4
  let quantity ← copyInto data offset 4 4 room
  let offset := moved offset 4
  let price ← copyInto data offset 4 8 room
  return ⟨bytesInt productId, bytesInt quantity, UInt32.ofNat (fromLittleEndian price)⟩

def afterEntry (offset : Int) : Int := moved (moved (moved offset 4) 4) 4

/-- The loop, from index `i` of the array on. -/
def readEntries (malloc : Allocation → Bool) (data : Bytes) : Int → Nat → Nat → Traced (List OrderEntry)
  | _, _, 0 => pure []
  | offset, i, count + 1 => do
      access data.length (.write i 1 (blockRoom malloc .items orderMaxSize))
      let entry ← readEntry data offset (blockRoom malloc (.entry i) 12)
      let rest ← readEntries malloc data (afterEntry offset) (i + 1) count
      return entry :: rest

def readAddress (malloc : Allocation → Bool) (data : Bytes) (offset : Int) (addressLen : Nat) :
    Traced (Option Bytes) :=
  if addressLen = 0 then pure none
  else do
    let block ← strncpy data offset addressLen (blockRoom malloc (.address addressLen) addressLen)
    return some block

/-- `orderUnserialize`, with `orderNew` in its first line, for any answers of `malloc` and `calloc`. -/
def unserialize (malloc : Allocation → Bool) (data : Bytes) : Traced RawOrder := do
  access data.length (.write 0 1 (blockRoom malloc .order 1))
  let header ← memcpy data 0 8
  let addressLen := fromLittleEndian header
  let offset := moved 0 8
  let address ← readAddress malloc data offset addressLen
  let offset := moved offset addressLen
  let count ← memcpy data offset 4
  let numEntries := bytesInt count
  let offset := moved offset 4
  let items ← readEntries malloc data offset 0 numEntries.toInt.toNat
  return { address, numEntries, items }

/-- Memory for whatever fits half the address space. -/
def ample : Allocation → Bool
  | .address size => size < mallocLimit
  | _ => true

def readOrder (data : Bytes) : Traced RawOrder := unserialize ample data

/-- What `malloc(size)` provides an encoder: a refused request has no room for anything. -/
def allocated (size : Nat) : Nat := if size < mallocLimit then size else 0

theorem allocated_granted {size : Nat} (small : size < 2 ^ 63) : allocated size = size :=
  if_pos small

theorem allocated_refused {size : Nat} (large : 2 ^ 63 ≤ size) : allocated size = 0 :=
  if_neg (Nat.not_lt.mpr large)

/-! The values are those of `orderUnserialize`. -/

/-- An `int` offset next to the sum that it stands for. -/
def Stands (offset : Int) (sum : Nat) : Prop :=
  (sum < 2 ^ 31 ∧ offset = sum) ∨ (2 ^ 31 ≤ sum ∧ offset < 0)

theorem stands_field {data : Bytes} {offset : Int} {sum : Nat} (stands : Stands offset sum)
    (width : Nat) : (memcpy data offset width).result = field data sum width := by
  rw [memcpy_result, field]
  rcases stands with ⟨small, same⟩ | ⟨large, negative⟩
  · subst offset
    rw [Int.toNat_natCast]
    by_cases inside : sum + width ≤ data.length
    · rw [if_pos (by omega), if_pos ⟨inside, small⟩]
    · rw [if_neg (by omega), if_neg (by omega)]
  · rw [if_neg (by omega), if_neg (by omega)]

theorem stands_moved {data bytes : Bytes} {offset : Int} {sum width : Nat}
    (stands : Stands offset sum) (read : field data sum width = some bytes)
    (narrow : width < 2 ^ 31) : Stands (moved offset width) (sum + width) := by
  have small : sum < 2 ^ 31 := by
    unfold field at read
    split at read
    · rename_i inside
      exact inside.2
    · contradiction
  rcases stands with ⟨_, same⟩ | ⟨large, _⟩
  · subst offset
    by_cases fits : sum + width < 2 ^ 31
    · exact .inl ⟨fits, moved_eq fits⟩
    · exact .inr ⟨by omega, moved_negative small narrow (by omega)⟩
  · omega

theorem bind_agree {α β : Type} {x : Option α} {f g : α → Option β}
    (agree : ∀ value, x = some value → f value = g value) : x.bind f = x.bind g := by
  cases x with
  | none => rfl
  | some value => exact agree value rfl

theorem stands_entry {data : Bytes} {offset : Int} {sum : Nat} (stands : Stands offset sum) :
    (readEntry data offset 12).result = entryAt data sum := by
  simp only [readEntry, entryAt, bind_result, pure_result, Option.bind_eq_bind, Option.pure_def]
  rw [copyInto_result (by decide), stands_field stands]
  apply bind_agree
  intro productId read₁
  have quantityStands := stands_moved stands read₁ (by decide)
  rw [copyInto_result (by decide), stands_field quantityStands]
  apply bind_agree
  intro quantity read₂
  have priceStands := stands_moved quantityStands read₂ (by decide)
  rw [copyInto_result (by decide), stands_field priceStands]

theorem readEntry_refused (data : Bytes) (offset : Int) : (readEntry data offset 0).result = none := by
  simp only [readEntry, bind_result, @copyInto_refused 0 4 0 (by decide), Option.bind_none]

theorem stands_afterEntry {data : Bytes} {offset : Int} {sum : Nat} {entry : OrderEntry}
    (stands : Stands offset sum) (read : entryAt data sum = some entry) :
    Stands (afterEntry offset) (sum + 12) := by
  simp only [entryAt, Option.bind_eq_bind, Option.bind_eq_some_iff] at read
  obtain ⟨productId, read₁, quantity, read₂, price, read₃, _⟩ := read
  have quantityStands := stands_moved stands read₁ (by decide)
  have priceStands := stands_moved quantityStands read₂ (by decide)
  exact stands_moved priceStands read₃ (by decide)

/-- There is memory for the entries from index `i` on and for the array that they go to. -/
def Supplied (malloc : Allocation → Bool) (i count : Nat) : Prop :=
  (0 < count → malloc .items = true) ∧ ∀ j < count, malloc (.entry (i + j)) = true

instance (malloc : Allocation → Bool) (i count : Nat) : Decidable (Supplied malloc i count) :=
  inferInstanceAs (Decidable ((0 < count → _) ∧ ∀ j < count, malloc (.entry (i + j)) = true))

theorem supplied_succ {malloc : Allocation → Bool} {i count : Nat} : Supplied malloc i (count + 1) ↔
    malloc .items = true ∧ malloc (.entry i) = true ∧ Supplied malloc (i + 1) count := by
  constructor
  · rintro ⟨items, entries⟩
    refine ⟨items (Nat.succ_pos _), entries 0 (Nat.succ_pos _), fun _ => items (Nat.succ_pos _), fun j below => ?_⟩
    rw [Nat.add_assoc, Nat.add_comm 1 j]
    exact entries (j + 1) (Nat.succ_lt_succ below)
  · rintro ⟨items, first, _, entries⟩
    refine ⟨fun _ => items, fun j below => ?_⟩
    cases j with
    | zero => exact first
    | succ j =>
        rw [Nat.add_comm j 1, ← Nat.add_assoc]
        exact entries j (Nat.lt_of_succ_lt_succ below)

theorem supplied_ample (i count : Nat) : Supplied ample i count := ⟨fun _ => rfl, fun _ _ => rfl⟩

/-- With more entries than the array has room for, it overflows before the loop is done. -/
theorem stands_entries (malloc : Allocation → Bool) {data : Bytes} {offset : Int} {sum i : Nat}
    (stands : Stands offset sum) (within : i ≤ orderMaxSize) (count : Nat) :
    (readEntries malloc data offset i count).result =
      if i + count ≤ orderMaxSize ∧ Supplied malloc i count then entriesAt data sum count else none := by
  induction count generalizing offset sum i with
  | zero =>
      rw [if_pos ⟨within, fun none => absurd none (Nat.lt_irrefl 0), fun j below => absurd below (Nat.not_lt_zero j)⟩]
      rfl
  | succ count ih =>
      simp only [readEntries, entriesAt, bind_result, pure_result, Option.bind_eq_bind,
        Option.pure_def, supplied_succ]
      by_cases room : i + 1 ≤ orderMaxSize ∧ malloc .items = true ∧ malloc (.entry i) = true
      · obtain ⟨below, items, first⟩ := room
        rw [blockRoom_granted items, blockRoom_granted first,
          @access_inside data.length (.write i 1 orderMaxSize) below, Option.bind_some, stands_entry stands]
        by_cases fits : i + (count + 1) ≤ orderMaxSize ∧ Supplied malloc (i + 1) count
        · rw [if_pos ⟨fits.1, items, first, fits.2⟩]
          apply bind_agree
          intro entry read
          rw [ih (stands_afterEntry stands read) below, if_pos ⟨by omega, fits.2⟩]
        · rw [if_neg fun whole => fits ⟨whole.1, whole.2.2.2⟩]
          cases read : entryAt data sum with
          | none => rfl
          | some entry =>
              rw [Option.bind_some, ih (stands_afterEntry stands read) below,
                if_neg fun rest => fits ⟨by omega, rest.2⟩]
              rfl
      · rw [if_neg fun whole => room ⟨by omega, whole.2.1, whole.2.2.1⟩]
        by_cases item : i + 1 ≤ blockRoom malloc .items orderMaxSize
        · have items : malloc .items = true := by
            by_contra refused
            rw [blockRoom_refused refused] at item
            omega
          rw [blockRoom_granted items] at item ⊢
          rw [@access_inside data.length (.write i 1 orderMaxSize) item, Option.bind_some,
            blockRoom_refused fun first => room ⟨item, items, first⟩, readEntry_refused]
          rfl
        · rw [@access_outside data.length (.write i 1 (blockRoom malloc .items orderMaxSize)) item]
          rfl

theorem strncpy_block {data : Bytes} (header : 8 ≤ data.length) (size : Nat) :
    (strncpy data 8 size size).result = strncpyBlock (data.drop 8) size := by
  have lengths := cstring_length_le (data.drop 8)
  rw [List.length_drop] at lengths
  have start : (8 : Int).toNat = 8 := rfl
  rw [strncpy_result, start]
  dsimp only
  unfold strncpyBlock
  dsimp only
  by_cases cut : size ≤ (cstring (data.drop 8)).length
  · rw [if_pos cut, if_pos (by omega), Nat.sub_eq_zero_of_le cut, List.replicate_zero,
      List.append_nil]
  · rw [if_neg cut, List.take_of_length_le (by omega), List.length_drop]
    by_cases terminated : (cstring (data.drop 8)).length < data.length - 8
    · rw [if_pos terminated, if_pos (by omega)]
    · rw [if_neg terminated, if_neg (by omega)]

theorem readAddress_result {malloc : Allocation → Bool} {data : Bytes} (header : 8 ≤ data.length)
    (addressLen : Nat) : (readAddress malloc data 8 addressLen).result =
      if addressLen = 0 then some none
      else if malloc (.address addressLen) then (strncpyBlock (data.drop 8) addressLen).map some else none := by
  unfold readAddress
  by_cases null : addressLen = 0
  · rw [if_pos null, if_pos null]
    rfl
  · rw [if_neg null, if_neg null, bind_result]
    by_cases granted : malloc (.address addressLen) = true
    · rw [if_pos granted, blockRoom_granted granted, strncpy_block header]
      cases strncpyBlock (data.drop 8) addressLen with
      | none => rfl
      | some block => rfl
    · rw [if_neg granted, blockRoom_refused granted, strncpy_result, if_neg (by omega)]
      rfl

theorem readAddress_ample {data : Bytes} (header : 8 ≤ data.length) (addressLen : Nat) :
    (readAddress ample data 8 addressLen).result = addressAt data addressLen := by
  rw [readAddress_result header, addressAt]
  by_cases granted : addressLen < mallocLimit
  · simp only [ample, granted, decide_true, if_true, Nat.not_le.mpr granted, if_false]
  · simp only [ample, granted, decide_false, Bool.false_eq_true, if_false, Nat.not_lt.mp granted, if_true]

theorem readOrder_result (data : Bytes) :
    (readOrder data).result = (orderUnserialize data).map Order.raw := by
  unfold readOrder unserialize orderUnserialize
  simp only [bind_result, pure_result]
  have first : Stands 0 0 := .inl ⟨by decide, rfl⟩
  rw [@access_inside data.length (.write 0 1 (blockRoom ample .order 1)) (Nat.le_refl _), Option.bind_some,
    stands_field first]
  cases read : field data 0 8 with
  | none => rfl
  | some header =>
      have long : 8 ≤ data.length := by
        unfold field at read
        split at read
        · rename_i inside
          omega
        · contradiction
      have start : moved 0 8 = 8 := by decide
      rw [Option.bind_some, start, readAddress_ample long]
      dsimp only
      have cut : moved 8 (fromLittleEndian header) =
        (Int32.ofInt (8 + fromLittleEndian header)).toInt := rfl
      have upper := (Int32.ofInt (8 + fromLittleEndian header)).toInt_lt
      rw [cut]
      cases addressAt data (fromLittleEndian header) with
      | none => rfl
      | some address =>
          rw [Option.bind_some]
          by_cases negative : (Int32.ofInt (8 + fromLittleEndian header)).toInt < 0
          · rw [memcpy_result, if_neg (by omega), decide_eq_true negative]
            rfl
          · have stands : Stands (Int32.ofInt (8 + fromLittleEndian header)).toInt
                (Int32.ofInt (8 + fromLittleEndian header)).toInt.toNat := .inl ⟨by omega, by omega⟩
            rw [stands_field stands, decide_eq_false negative]
            cases found : field data (Int32.ofInt (8 + fromLittleEndian header)).toInt.toNat 4 with
            | none => rfl
            | some count =>
                have later := stands_moved stands found (by decide)
                rw [Option.bind_some, stands_entries ample later (Nat.zero_le _), Nat.zero_add]
                simp only [supplied_ample, and_true]
                split
                · rename_i fits
                  split
                  · rename_i items entries
                    exact congrArg (Option.bind · _) entries
                  · rename_i missing
                    exact congrArg (Option.bind · _) missing
                · rfl

/-! Which frames are safe. -/

theorem sound_readEntry (data : Bytes) (offset : Int) (room : Nat) :
    Sound data.length (readEntry data offset room) :=
  sound_bind (sound_copyInto _ _ _ _ _) fun _ _ => sound_bind (sound_copyInto _ _ _ _ _) fun _ _ =>
    sound_bind (sound_copyInto _ _ _ _ _) fun _ _ => sound_pure _

section

variable (malloc : Allocation → Bool)

theorem sound_readEntries (data : Bytes) (offset : Int) (i count : Nat) :
    Sound data.length (readEntries malloc data offset i count) := by
  induction count generalizing offset i with
  | zero => exact sound_pure _
  | succ count ih =>
      exact sound_bind (sound_access _) fun _ _ => sound_bind (sound_readEntry _ _ _) fun _ _ =>
        sound_bind (ih _ _) fun _ _ => sound_pure _

theorem sound_readAddress (data : Bytes) (offset : Int) (addressLen : Nat) :
    Sound data.length (readAddress malloc data offset addressLen) := by
  unfold readAddress
  split
  · exact sound_pure _
  · exact sound_bind (sound_strncpy _ _ _ _) fun _ _ => sound_pure _

theorem sound_unserialize (data : Bytes) : Sound data.length (unserialize malloc data) :=
  sound_bind (sound_access _) fun _ _ => sound_bind (sound_memcpy _ _ _) fun _ _ =>
    sound_bind (sound_readAddress _ _ _ _) fun _ _ => sound_bind (sound_memcpy _ _ _) fun _ _ =>
      sound_bind (sound_readEntries _ _ _ _ _) fun _ _ => sound_pure _

end

/-- Every access hits its block, and the order that comes out can be used; or none comes out. -/
def OrderSafe (malloc : Allocation → Bool) (data : Bytes) : Prop :=
  Safely data.length (unserialize malloc data) fun o =>
    0 ≤ o.numEntries.toInt ∧ o.numEntries.toInt ≤ orderMaxSize ∧
      ∀ block ∈ o.address, Terminated block

/-! The fields of a frame that steer the decoder. -/

def frameAddressLen (data : Bytes) : Nat := fromLittleEndian (data.take 8)

def frameCountOffset (data : Bytes) : Int := (Int32.ofInt (8 + frameAddressLen data)).toInt

def frameNumEntries (data : Bytes) : Int :=
  (bytesInt ((data.drop (frameCountOffset data).toNat).take 4)).toInt

/-- The length fields fit the frame, the count fits the array, the address ends, and there is memory for
whatever is allocated. -/
structure OrderFrame (malloc : Allocation → Bool) (data : Bytes) : Prop where
  order : malloc .order = true
  header : 8 ≤ data.length
  address : frameAddressLen data = 0 ∨ (malloc (.address (frameAddressLen data)) = true ∧
    Terminated ((data.drop 8).take (frameAddressLen data)))
  count : 0 ≤ frameCountOffset data ∧ frameCountOffset data + 4 ≤ data.length
  lower : 0 ≤ frameNumEntries data
  upper : frameNumEntries data ≤ orderMaxSize
  items : 0 < frameNumEntries data → malloc .items = true
  entries : ∀ i < (frameNumEntries data).toNat, malloc (.entry i) = true
  room : frameNumEntries data = 0 ∨
    (frameCountOffset data + 4 + 12 * frameNumEntries data ≤ data.length ∧
      frameCountOffset data + 12 * frameNumEntries data < 2 ^ 31)

theorem strncpyBlock_terminated (source : Bytes) (size : Nat) :
    (∃ block, strncpyBlock source size = some block ∧ Terminated block) ↔
      Terminated (source.take size) := by
  have clean := cstring_no_nul source
  have cut : source.take (cstring source).length = cstring source :=
    (List.prefix_iff_eq_take.mp (List.takeWhile_prefix _)).symm
  unfold strncpyBlock
  dsimp only
  by_cases short : size ≤ (cstring source).length
  · have text : source.take size = (cstring source).take size := by
      rw [← cut, List.take_take, Nat.min_eq_left short]
    have absent : ¬Terminated ((cstring source).take size) := fun member =>
      clean (List.mem_of_mem_take member)
    rw [if_pos short, text]
    constructor
    · rintro ⟨block, same, terminated⟩
      cases same
      exact terminated
    · intro terminated
      exact absurd terminated absent
  · rw [if_neg short]
    by_cases ends : (cstring source).length < source.length
    · have terminated : Terminated source := by
        by_contra absent
        rw [cstring_eq_self absent] at ends
        omega
      obtain ⟨rest, shape⟩ := terminated_split terminated
      obtain ⟨more, longer⟩ : ∃ more, size - (cstring source).length = more + 1 :=
        ⟨size - (cstring source).length - 1, by omega⟩
      rw [if_pos ends]
      constructor
      · intro _
        rw [shape, Terminated, List.take_append, longer, List.take_succ_cons]
        simp
      · intro _
        refine ⟨_, rfl, ?_⟩
        rw [Terminated, longer, List.replicate_succ]
        simp
    · rw [if_neg ends]
      have whole : (cstring source).length = source.length :=
        Nat.le_antisymm (cstring_length_le source) (Nat.le_of_not_lt ends)
      have absent : (0 : UInt8) ∉ source := by
        rw [whole, List.take_length] at cut
        rw [cut]
        exact clean
      constructor
      · rintro ⟨block, missing, _⟩
        contradiction
      · intro member
        exact absurd (List.mem_of_mem_take member) absent

theorem entryAt_isSome (data : Bytes) (offset : Nat) :
    (entryAt data offset).isSome ↔ offset + 12 ≤ data.length ∧ offset + 8 < 2 ^ 31 := by
  unfold entryAt field
  by_cases inside : offset + 12 ≤ data.length ∧ offset + 8 < 2 ^ 31
  · rw [if_pos (by omega), if_pos (by omega), if_pos (by omega)]
    simpa using inside
  · rw [if_neg (by omega : ¬(offset + 8 + 4 ≤ data.length ∧ offset + 8 < 2 ^ 31))]
    simp only [Option.bind_eq_bind, Option.bind_none, Option.bind_fun_none]
    simpa using inside

theorem entriesAt_isSome (data : Bytes) (offset count : Nat) :
    (entriesAt data offset count).isSome ↔ count = 0 ∨
      (offset + 12 * count ≤ data.length ∧ offset + 12 * count < 2 ^ 31 + 4) := by
  induction count generalizing offset with
  | zero => simp [entriesAt]
  | succ count ih =>
      have here := entryAt_isSome data offset
      have later := ih (offset + 12)
      simp only [entriesAt, Option.bind_eq_bind]
      cases first : entryAt data offset with
      | none =>
          simp only [first, Option.isSome_none, Bool.false_eq_true, false_iff] at here
          simp only [Option.bind_none, Option.isSome_none, Bool.false_eq_true, false_iff]
          omega
      | some entry =>
          simp only [first, Option.isSome_some, true_iff] at here
          cases rest : entriesAt data (offset + 12) count with
          | none =>
              simp only [rest, Option.isSome_none, Bool.false_eq_true, false_iff] at later
              simp only [Option.bind_some, Option.bind_none, Option.isSome_none,
                Bool.false_eq_true, false_iff]
              omega
          | some entries =>
              simp only [rest, Option.isSome_some, true_iff] at later
              simp only [Option.bind_some, Option.pure_def, Option.isSome_some, true_iff]
              omega

theorem unserialize_eq_some {malloc : Allocation → Bool} (granted : malloc .order = true) (data : Bytes)
    (o : RawOrder) : (unserialize malloc data).result = some o ↔
    8 ≤ data.length ∧ (readAddress malloc data 8 (frameAddressLen data)).result = some o.address ∧
      (0 ≤ frameCountOffset data ∧ frameCountOffset data + 4 ≤ data.length) ∧
      o.numEntries.toInt = frameNumEntries data ∧
      (o.numEntries.toInt.toNat ≤ orderMaxSize ∧ Supplied malloc 0 o.numEntries.toInt.toNat) ∧
      entriesAt data ((frameCountOffset data).toNat + 4) o.numEntries.toInt.toNat =
        some o.items := by
  have start : moved 0 8 = 8 := by decide
  have made : (access data.length (.write 0 1 (blockRoom malloc .order 1))).result = some () :=
    access_inside (by rw [blockRoom_granted granted]; exact Nat.le_refl _)
  simp only [unserialize, bind_result, pure_result, made, Option.bind_some, Option.bind_eq_some_iff,
    memcpy_result, start]
  by_cases long : 8 ≤ data.length
  · rw [if_pos (by omega)]
    have header : (data.drop (0 : Int).toNat).take 8 = data.take 8 := rfl
    have cut : moved 8 (frameAddressLen data) = frameCountOffset data := rfl
    have named : fromLittleEndian (data.take 8) = frameAddressLen data := rfl
    simp only [header, named, Option.some.injEq, exists_eq_left', cut]
    by_cases inside : 0 ≤ frameCountOffset data ∧ frameCountOffset data + (4 : Nat) ≤ data.length
    · have upper := (Int32.ofInt (8 + frameAddressLen data)).toInt_lt
      have stands : Stands (frameCountOffset data) (frameCountOffset data).toNat := by
        refine .inl ⟨?_, by omega⟩
        change (Int32.ofInt (8 + frameAddressLen data)).toInt.toNat < 2 ^ 31
        omega
      have found : field data (frameCountOffset data).toNat 4 =
          some ((data.drop (frameCountOffset data).toNat).take 4) := by
        rw [← stands_field stands, memcpy_result, if_pos inside]
      have later := stands_moved stands found (by decide)
      rw [if_pos inside]
      simp only [Option.some.injEq, exists_eq_left', stands_entries malloc later (Nat.zero_le _),
        Nat.zero_add]
      constructor
      · rintro ⟨address, read, items, entries, same⟩
        subst o
        split at entries
        · rename_i fits
          exact ⟨long, read, inside, rfl, fits, entries⟩
        · contradiction
      · rintro ⟨_, read, _, count, fits, entries⟩
        have same : bytesInt ((data.drop (frameCountOffset data).toNat).take 4) = o.numEntries :=
          Int32.toInt_inj.mp count.symm
        refine ⟨o.address, read, o.items, ?_, ?_⟩
        · rw [same, if_pos fits, entries]
        · rw [same]
    · rw [if_neg inside]
      constructor
      · rintro ⟨_, _, _, missing, _⟩
        contradiction
      · rintro ⟨_, _, found, _⟩
        exact absurd found inside
  · rw [if_neg (by omega)]
    constructor
    · rintro ⟨_, missing, _⟩
      contradiction
    · rintro ⟨found, _⟩
      exact absurd found long

theorem readAddress_terminated (malloc : Allocation → Bool) {data : Bytes} (header : 8 ≤ data.length)
    (addressLen : Nat) :
    (∃ address, (readAddress malloc data 8 addressLen).result = some address ∧
        ∀ block ∈ address, Terminated block) ↔
      addressLen = 0 ∨
        (malloc (.address addressLen) = true ∧ Terminated ((data.drop 8).take addressLen)) := by
  rw [readAddress_result header]
  by_cases null : addressLen = 0
  · simp [null]
  · rw [if_neg null]
    by_cases granted : malloc (.address addressLen) = true
    · rw [if_pos granted, ← strncpyBlock_terminated]
      simp [null, granted]
    · rw [if_neg granted]
      simp [null, granted]

/-- Whatever memory there is, the decoder is safe on exactly the well-formed frames for which it suffices. -/
theorem orderUnserialize_safe_iff (malloc : Allocation → Bool) (data : Bytes) :
    OrderSafe malloc data ↔ OrderFrame malloc data := by
  rw [OrderSafe, (sound_unserialize malloc data).safely]
  constructor
  · rintro ⟨o, read, lower, upper, terminated⟩
    have order : malloc .order = true := by
      by_contra refused
      rw [unserialize, bind_result, @access_outside data.length (.write 0 1 (blockRoom malloc .order 1))
        (by rw [blockRoom_refused refused]; exact Nat.not_succ_le_zero _)] at read
      contradiction
    obtain ⟨long, addressed, inside, count, ⟨fits, items, given⟩, entries⟩ :=
      (unserialize_eq_some order data o).mp read
    have room := (entriesAt_isSome _ _ _).mp (Option.isSome_of_mem entries)
    exact {
      order
      header := long
      address := (readAddress_terminated malloc long _).mp ⟨o.address, addressed, terminated⟩
      count := inside
      lower := by omega
      upper := by omega
      items := fun more => items (by omega)
      entries := fun i below => by
        have granted := given i (by omega)
        rwa [Nat.zero_add] at granted
      room := by omega }
  · rintro ⟨order, long, addressed, inside, lower, upper, items, given, room⟩
    simp only [unserialize_eq_some order]
    obtain ⟨block, read, terminated⟩ := (readAddress_terminated malloc long _).mpr addressed
    have entries : (entriesAt data ((frameCountOffset data).toNat + 4)
        (frameNumEntries data).toNat).isSome := by
      rw [entriesAt_isSome]
      omega
    obtain ⟨list, found⟩ := Option.isSome_iff_exists.mp entries
    refine ⟨⟨block, bytesInt ((data.drop (frameCountOffset data).toNat).take 4), list⟩,
      ⟨long, read, inside, rfl, ⟨?_, fun more => items ?_, fun i below => ?_⟩, found⟩, lower, upper, terminated⟩
    · change (frameNumEntries data).toNat ≤ orderMaxSize
      omega
    · change 0 < (frameNumEntries data).toNat at more
      omega
    · rw [Nat.zero_add]
      exact given i below

/-- The length of the address is already read beyond a frame of four bytes. -/
theorem orderUnserialize_overruns : ¬OrderSafe ample [0, 0, 0, 0] := by
  intro safe
  have inside := safe.1 (.read 0 8) (by decide)
  simp [Access.Inside] at inside

/-! Encoding. -/

def writeEntry (dest : Draft) (offset : Int) (entry : OrderEntry) : Option Draft := do
  let dest ← dest.store offset (intBytes entry.productId)
  let offset := moved offset 4
  let dest ← dest.store offset (intBytes entry.quantity)
  let offset := moved offset 4
  dest.store offset (littleEndian 4 entry.price.toNat)

def writeEntries : Draft → Int → List OrderEntry → Option Draft
  | dest, _, [] => some dest
  | dest, offset, entry :: rest => do
      let dest ← writeEntry dest offset entry
      writeEntries dest (afterEntry offset) rest

def writeAddress (dest : Draft) (offset : Int) (address : Bytes) : Option Draft :=
  if 0 < address.length then dest.store offset address else some dest

/-- The size that `orderSerialize` returns, and the block that it leaves in `*dest`. -/
def writeOrder (o : Order) : Option (Nat × Draft) := do
  let address ← addressBytes o
  let addressLen := address.length
  let totalLen := ((8 + addressLen + 4 + o.numEntries.toInt * 12) % 2 ^ 64).toNat
  let dest ← (fresh (allocated totalLen)).store 0 (sizeBytes addressLen)
  let offset := moved 0 8
  let dest ← writeAddress dest offset address
  let offset := moved offset addressLen
  let dest ← dest.store offset (intBytes o.numEntries)
  let offset := moved offset 4
  let dest ← writeEntries dest offset o.items
  return (totalLen, dest)

section

variable {size : Nat} {dest : Draft} {offset : Int} {before : Bytes}

theorem filling_entry (entry : OrderEntry) (filling : Filling size dest offset before)
    (small : size < 2 ^ 31) (room : before.length + 12 ≤ size) :
    ∃ next, writeEntry dest offset entry = some next ∧
      Filling size next (afterEntry offset) (before ++ entryBytes entry) := by
  obtain ⟨dest₁, stored₁, filling₁⟩ := filling.store small (intBytes_length entry.productId)
    (by omega)
  obtain ⟨dest₂, stored₂, filling₂⟩ := filling₁.store small (intBytes_length entry.quantity)
    (by simp; omega)
  obtain ⟨dest₃, stored₃, filling₃⟩ := filling₂.store small
    (littleEndian_length 4 entry.price.toNat) (by simp; omega)
  refine ⟨dest₃, ?_, ?_⟩
  · simp only [writeEntry, stored₁, stored₂, stored₃, Option.bind_eq_bind, Option.bind_some]
  · simpa only [entryBytes, afterEntry, List.append_assoc] using filling₃

theorem filling_entries (items : List OrderEntry) (filling : Filling size dest offset before)
    (small : size < 2 ^ 31) (room : before.length + 12 * items.length ≤ size) :
    ∃ next last, writeEntries dest offset items = some next ∧
      Filling size next last (before ++ items.flatMap entryBytes) := by
  induction items generalizing dest offset before with
  | nil => exact ⟨dest, offset, rfl, by simpa using filling⟩
  | cons entry rest ih =>
      rw [List.length_cons] at room
      obtain ⟨dest₁, written, filling₁⟩ := filling_entry entry filling small (by omega)
      obtain ⟨next, last, others, whole⟩ := ih filling₁ (by simp [entryBytes]; omega)
      refine ⟨next, last, ?_, ?_⟩
      · rw [writeEntries, written]
        exact others
      · simpa only [List.flatMap_cons, List.append_assoc] using whole

theorem filling_address (address : Bytes) (filling : Filling size dest offset before)
    (small : size < 2 ^ 31) (room : before.length + address.length ≤ size) :
    ∃ next, writeAddress dest offset address = some next ∧
      Filling size next (moved offset address.length) (before ++ address) := by
  obtain ⟨next, stored, later⟩ := filling.store small (@rfl _ address.length) room
  unfold writeAddress
  split
  · exact ⟨next, stored, later⟩
  · rename_i empty
    have null : address = [] := List.eq_nil_of_length_eq_zero (by omega)
    subst address
    refine ⟨dest, rfl, ?_⟩
    rw [List.append_nil] at later ⊢
    exact ⟨filling.dest, later.offset⟩

end

/-- The encoder returns the number of bytes of the encoding and has written each of them. -/
theorem writeOrder_eq {o : Order} {bytes : Bytes} (done : orderSerialize o = some bytes) :
    writeOrder o = some (bytes.length, bytes.map some) := by
  unfold orderSerialize at done
  split at done
  · rename_i address found
    split at done
    · contradiction
    · rename_i fits
      simp only [not_or, Int32.lt_iff_toInt_lt, Int32.toInt_zero] at fits
      have counted := o.counted
      have total : ((8 + address.length + 4 + o.numEntries.toInt * 12) % 2 ^ 64).toNat =
          12 + address.length + 12 * o.items.length := by omega
      have small : 12 + address.length + 12 * o.items.length < 2 ^ 31 := by omega
      have granted := allocated_granted (by omega : 12 + address.length + 12 * o.items.length < 2 ^ 63)
      have start := filling_fresh (12 + address.length + 12 * o.items.length)
      obtain ⟨dest₁, stored₁, filling₁⟩ := start.store small (sizeBytes_length address.length)
        (by simp; omega)
      obtain ⟨dest₂, stored₂, filling₂⟩ := filling_address address filling₁ small (by simp; omega)
      obtain ⟨dest₃, stored₃, filling₃⟩ := filling₂.store small (intBytes_length o.numEntries)
        (by simp; omega)
      obtain ⟨dest₄, last, stored₄, filling₄⟩ := filling_entries o.items filling₃ small
        (by simp; omega)
      rw [List.nil_append] at filling₄
      cases done
      have length : (sizeBytes address.length ++ address ++ intBytes o.numEntries ++
          o.items.flatMap entryBytes).length = 12 + address.length + 12 * o.items.length := by
        simp only [List.length_append, sizeBytes_length, intBytes_length, entries_length]
        omega
      simp only [writeOrder, found, total, granted, stored₁, stored₂, stored₃, stored₄,
        Option.bind_eq_bind, Option.bind_some, Option.pure_def, filling₄.full length, length]
  · contradiction

/-! The round trip. -/

/-- Any number of entries that the array holds, and no address or a string of any length
for which the size of the encoding is still an `int`. -/
structure Order.Codable (o : Order) : Prop where
  counted : 0 ≤ o.numEntries.toInt
  address : ∀ block ∈ o.address, Terminated block ∧ (cstring block).length < 2 ^ 31 - 300

/-- The same order, for whoever reads the address as a string. -/
structure Order.Same (left right : Order) : Prop where
  address : left.address.map cstring = right.address.map cstring
  numEntries : left.numEntries = right.numEntries
  items : left.items = right.items

/-- What the decoder makes of an address: a block that ends with the NUL. -/
def decodedAddress (o : Order) : Option Bytes := o.address.map fun block => cstring block ++ [0]

theorem walks_readEntry {data rest : Bytes} {offset : Nat} {entry : OrderEntry}
    (ahead : Ahead data offset (entryBytes entry ++ rest)) (small : offset + 12 < 2 ^ 31) :
    Walks (readEntry data offset 12) offset (offset + 12) entry ∧
      afterEntry offset = (offset + 12 : Nat) := by
  have moved₁ : moved offset 4 = (offset + 4 : Nat) := moved_eq (by omega)
  have moved₂ : moved (offset + 4 : Nat) 4 = (offset + 4 + 4 : Nat) := moved_eq (by omega)
  have moved₃ : moved (offset + 4 + 4 : Nat) 4 = (offset + 4 + 4 + 4 : Nat) := moved_eq (by omega)
  simp only [entryBytes, List.append_assoc] at ahead
  have walk₁ := @walks_copyInto _ _ _ _ 0 12 ahead (by rw [intBytes_length]; decide)
  have walk₂ := @walks_copyInto _ _ _ _ 4 12 ahead.next (by rw [intBytes_length]; decide)
  have walk₃ := @walks_copyInto _ _ _ _ 8 12 ahead.next.next (by rw [littleEndian_length])
  rw [intBytes_length] at walk₁ walk₂ walk₃
  rw [intBytes_length] at walk₂ walk₃
  rw [littleEndian_length] at walk₃
  constructor
  · unfold readEntry
    refine walks_bind walk₁ ?_
    rw [moved₁]
    refine walks_bind walk₂ ?_
    rw [moved₂]
    refine walks_bind walk₃ ?_
    rw [bytesInt_intBytes, bytesInt_intBytes, fromLittleEndian_word]
    exact walks_pure _ _
  · rw [afterEntry, moved₁, moved₂, moved₃]

theorem walks_readEntries {data rest : Bytes} {offset i : Nat} {items : List OrderEntry}
    (ahead : Ahead data offset (items.flatMap entryBytes ++ rest))
    (small : offset + 12 * items.length < 2 ^ 31) (room : i + items.length ≤ orderMaxSize) :
    Walks (readEntries ample data offset i items.length) offset (offset + 12 * items.length) items := by
  induction items generalizing offset i with
  | nil => exact walks_pure _ _
  | cons entry others ih =>
      rw [List.length_cons] at small room
      rw [List.flatMap_cons, List.append_assoc] at ahead
      obtain ⟨walk, next⟩ := walks_readEntry ahead (by omega)
      have behind := ahead.next
      rw [entryBytes_length] at behind
      have later := ih behind (by omega) (by omega : i + 1 + others.length ≤ orderMaxSize)
      have stop : offset + 12 * (entry :: others).length = offset + 12 + 12 * others.length := by
        rw [List.length_cons]
        omega
      have array : i + 1 ≤ blockRoom ample .items orderMaxSize := by
        change i + 1 ≤ orderMaxSize
        omega
      rw [stop, List.length_cons, readEntries]
      refine walks_bind (walks_write array offset) (walks_bind walk ?_)
      rw [next]
      exact walks_bind later (walks_pure _ _)

theorem walks_readAddress {data rest text : Bytes} {o : Order} (found : addressBytes o = some text)
    (ahead : Ahead data 8 (text ++ rest)) (small : text.length < 2 ^ 31) :
    Walks (readAddress ample data 8 text.length) 8 (8 + text.length) (decodedAddress o) := by
  unfold addressBytes at found
  unfold decodedAddress
  cases address : o.address with
  | none =>
      rw [address] at found
      cases found
      exact walks_pure _ _
  | some block =>
      rw [address] at found
      dsimp only at found
      split at found
      · cases found
        rw [List.append_assoc] at ahead
        rw [List.length_append, List.length_singleton] at small ⊢
        have granted : ample (.address ((cstring block).length + 1)) = true :=
          decide_eq_true (by unfold mallocLimit; omega)
        rw [readAddress, if_neg (by omega), blockRoom_granted granted]
        exact walks_bind (walks_strncpy (cstring_no_nul block) ahead (Nat.le_refl _)) (walks_pure _ _)
      · contradiction

theorem walks_readOrder {o : Order} {bytes : Bytes} (done : orderSerialize o = some bytes)
    (r : Bytes) : Walks (readOrder (bytes ++ r)) 0 bytes.length
      ⟨decodedAddress o, o.numEntries, o.items⟩ := by
  unfold orderSerialize at done
  split at done
  · rename_i address found
    split at done
    · contradiction
    · rename_i fits
      simp only [not_or, Int32.lt_iff_toInt_lt, Int32.toInt_zero] at fits
      have counted := o.counted
      have array := o.fits
      cases done
      generalize whole : sizeBytes address.length ++ address ++ intBytes o.numEntries ++
        o.items.flatMap entryBytes ++ r = data
      have total : (sizeBytes address.length ++ address ++ intBytes o.numEntries ++
          o.items.flatMap entryBytes).length = 8 + address.length + 4 + 12 * o.items.length := by
        simp only [List.length_append, sizeBytes_length, intBytes_length, entries_length]
      have ahead₀ : Ahead data 0 (sizeBytes address.length ++
          (address ++ (intBytes o.numEntries ++ (o.items.flatMap entryBytes ++ r)))) := by
        refine ⟨[], ?_, rfl⟩
        rw [← whole]
        simp only [List.nil_append, List.append_assoc]
      have ahead₁ := ahead₀.next
      have ahead₂ := ahead₁.next
      have ahead₃ := ahead₂.next
      have walk₀ := walks_memcpy ahead₀
      rw [sizeBytes_length, Nat.zero_add] at ahead₁ ahead₂ ahead₃ walk₀
      have walk₁ := walks_readAddress found ahead₁ (by omega)
      have walk₂ := walks_memcpy ahead₂
      rw [intBytes_length] at ahead₃ walk₂
      have walk₃ := @walks_readEntries data r (8 + address.length + 4) 0 o.items ahead₃ (by omega)
        (by omega)
      have start : moved 0 8 = (8 : Nat) := by decide
      have moved₁ : moved (8 : Nat) address.length = (8 + address.length : Nat) :=
        moved_eq (by omega)
      have moved₂ : moved (8 + address.length : Nat) 4 = (8 + address.length + 4 : Nat) :=
        moved_eq (by omega)
      have lengths : fromLittleEndian (sizeBytes address.length) = address.length :=
        fromLittleEndian_sizeBytes (by omega)
      rw [total]
      unfold readOrder unserialize
      refine walks_bind (walks_write (by decide) 0) (walks_bind walk₀ ?_)
      rw [start, lengths]
      refine walks_bind walk₁ ?_
      rw [moved₁]
      refine walks_bind walk₂ ?_
      rw [moved₂, bytesInt_intBytes]
      dsimp only
      rw [← counted]
      exact walks_bind walk₃ (walks_pure _ _)
  · contradiction

theorem orderSerialize_codable {o : Order} (codable : o.Codable) :
    ∃ bytes, orderSerialize o = some bytes := by
  have array := o.fits
  have lower : ¬o.numEntries < 0 := by
    rw [Int32.lt_iff_toInt_lt]
    exact Int.not_lt.mpr codable.counted
  unfold orderSerialize addressBytes
  cases address : o.address with
  | none =>
      dsimp only
      rw [if_neg]
      · exact ⟨_, rfl⟩
      · simp only [lower, false_or, List.length_nil, orderMaxSize] at array ⊢
        omega
  | some block =>
      obtain ⟨terminated, short⟩ := codable.address block address
      dsimp only
      rw [if_pos terminated]
      dsimp only
      rw [if_neg]
      · exact ⟨_, rfl⟩
      · simp only [lower, false_or, List.length_append, List.length_singleton, orderMaxSize] at array ⊢
        omega

theorem decodedAddress_string (o : Order) :
    (decodedAddress o).map cstring = o.address.map cstring := by
  cases address : o.address with
  | none => simp [decodedAddress, address]
  | some block => simp [decodedAddress, address, cstring_append_nul (cstring_no_nul block)]

theorem orderUnserialize_encoded {o : Order} {bytes : Bytes} (done : orderSerialize o = some bytes)
    (r : Bytes) : ∃ decoded, orderUnserialize (bytes ++ r) = some decoded ∧ decoded.Same o ∧
      Walks (readOrder (bytes ++ r)) 0 bytes.length decoded.raw := by
  have walk := walks_readOrder done r
  have found := walk.result
  rw [readOrder_result, Option.map_eq_some_iff] at found
  obtain ⟨decoded, read, same⟩ := found
  rw [← same] at walk
  refine ⟨decoded, read, ?_, walk⟩
  obtain ⟨address, numEntries, items⟩ := RawOrder.mk.inj same
  constructor
  · rw [address, decodedAddress_string]
  · exact numEntries
  · exact items

/-- An encoding tells where it ends. -/
theorem orderSerialize_prefix_free {o other : Order} {bytes longer : Bytes}
    (done : orderSerialize o = some bytes) (otherDone : orderSerialize other = some longer)
    (starts : bytes <+: longer) : longer = bytes ∧ other.Same o := by
  obtain ⟨r, rfl⟩ := starts
  obtain ⟨decoded, read, same, walk⟩ := orderUnserialize_encoded done r
  obtain ⟨again, readAgain, sameOther, walkAgain⟩ := orderUnserialize_encoded otherDone []
  rw [List.append_nil] at readAgain walkAgain
  rw [read, Option.some.injEq] at readAgain
  subst again
  have stop : ∀ i, i < bytes.length ↔ i < (bytes ++ r).length := by
    intro i
    have here := walk.touches i
    have there := walkAgain.touches i
    rw [here] at there
    omega
  have nothing : r = [] := by
    have more := stop bytes.length
    rw [List.length_append] at more
    exact List.eq_nil_of_length_eq_zero (by omega)
  refine ⟨by rw [nothing, List.append_nil], ?_⟩
  constructor
  · rw [← sameOther.address, same.address]
  · rw [← sameOther.numEntries, same.numEntries]
  · rw [← sameOther.items, same.items]

/-- Decoding gives the order back and reads exactly the encoding, whatever follows it; the
size that is returned is the number of bytes written; different orders have encodings of
which none begins another. -/
theorem orderSerialize_roundTrip (o : Order) (codable : o.Codable) :
    ∃ bytes, orderSerialize o = some bytes ∧ writeOrder o = some (bytes.length, bytes.map some) ∧
      (∀ r, ∃ decoded, orderUnserialize (bytes ++ r) = some decoded ∧ decoded.Same o ∧
        Walks (readOrder (bytes ++ r)) 0 bytes.length decoded.raw) ∧
      ∀ other : Order, other.Codable → ∀ longer, orderSerialize other = some longer →
        bytes <+: longer → longer = bytes ∧ other.Same o := by
  obtain ⟨bytes, done⟩ := orderSerialize_codable codable
  refine ⟨bytes, done, writeOrder_eq done, orderUnserialize_encoded done, ?_⟩
  intro other _ longer otherDone starts
  exact orderSerialize_prefix_free done otherDone starts

theorem orderSerialize_roundTrip_vodka :
    let o : Order := ⟨some (ascii "Madero 399" ++ [0]), 1, [⟨1, 40, 0⟩], by decide, by decide⟩
    o.Codable ∧ ∃ bytes, orderSerialize o = some bytes ∧
      writeOrder o = some (bytes.length, bytes.map some) := by
  intro o
  have codable : o.Codable := by
    refine ⟨by decide, ?_⟩
    intro block found
    cases found
    decide
  obtain ⟨bytes, done, written, _⟩ := orderSerialize_roundTrip o codable
  exact ⟨codable, bytes, done, written⟩

end Iac
