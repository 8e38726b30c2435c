import Iac.Library.Buffer
import Iac.Library.Single

/-! Orders and their wire format: `common/order.c`. A step whose behaviour the C
standard leaves undefined (an access outside a block, a missing terminator, an
`int` offset that overflows) has no result here. -/

namespace Iac

open CText

structure OrderEntry where
  productId : Int32
  quantity : Int32
  price : UInt32
  deriving DecidableEq, Repr

/-- `ORDER_MAX_SIZE`, the length of the array that `orderNew` allocates. -/
def orderMaxSize : Nat := 16

/-- `address` is the allocated block, not the string in it. -/
structure Order where
  address : Option Bytes
  numEntries : Int32
  items : List OrderEntry
  counted : items.length = numEntries.toInt.toNat
  fits : items.length ≤ orderMaxSize
  deriving DecidableEq, Repr

def orderNew : Order where
  address := none
  numEntries := 0
  items := []
  counted := rfl
  fits := Nat.zero_le _

/-- A copy of the string replaces the address. -/
def orderSetAddress (o : Order) (address : Bytes) : Order :=
  { o with address := some (cstring address ++ [0]) }

def orderGetNumEntries (o : Order) : Int32 := o.numEntries

/-- A sum of two `int`s that must be an `int` again. -/
def addInt (left right : Int32) : Option Int32 :=
  let sum := left.toInt + right.toInt
  if -2 ^ 31 ≤ sum ∧ sum < 2 ^ 31 then some (Int32.ofInt sum) else none

theorem toNat_next (value : Int32) : (value + 1).toInt.toNat ≤ value.toInt.toNat + 1 := by
  have lower := value.le_toInt
  have upper := value.toInt_lt
  have one : (1 : Int32).toInt = 1 := by decide
  rw [Int32.toInt_add, one]
  by_cases last : value.toInt = 2 ^ 31 - 1
  · rw [last]
    decide
  · rw [Int.bmod_eq_of_le (by omega) (by omega)]
    omega

/-- Returns -1 for a product for which there is no room; of the array only the counted
entries matter. -/
def orderAdd (o : Order) (productId quantity : Int32) (price : UInt32) : Option (Int32 × Order) :=
  let i := o.items.findIdx fun entry => productId = entry.productId
  if present : i < o.items.length then
    (addInt o.items[i].quantity quantity).map fun sum => (0, { o with
      items := o.items.set i { o.items[i] with quantity := sum }
      counted := by rw [List.length_set]; exact o.counted
      fits := by rw [List.length_set]; exact o.fits })
  else if room : o.items.length < orderMaxSize then
    some (0, { o with
      numEntries := o.numEntries + 1
      items := (o.items ++ [OrderEntry.mk productId quantity price]).take (o.numEntries + 1).toInt.toNat
      counted := by
        have next := toNat_next o.numEntries
        rw [List.length_take, List.length_append, List.length_singleton, o.counted]
        omega
      fits := by
        rw [List.length_take, List.length_append, List.length_singleton]
        omega })
  else some (-1, o)

/-- `result += price * quantity`, in single precision. -/
def orderGetTotal (o : Order) : Binary32.Single :=
  o.items.foldl (fun result entry => Binary32.add result
    (Binary32.mul (Binary32.ofBits entry.price) (Binary32.ofInt entry.quantity.toInt))) (.finite 0)

/-! Decoding. -/

/-- `memcpy(dest, data + offset, width)` with an `int` offset, which is negative from 2^31 on. -/
def field (data : Bytes) (offset width : Nat) : Option Bytes :=
  if offset + width ≤ data.length ∧ offset < 2 ^ 31 then
    some ((data.drop offset).take width)
  else none

theorem field_start {data : Bytes} {width : Nat} (enough : width ≤ data.length) :
    field data 0 width = some (data.take width) := by
  rw [field, if_pos ⟨by omega, by omega⟩, List.drop_zero]

theorem field_short {data : Bytes} {width : Nat} (short : data.length < width) :
    field data 0 width = none := by
  rw [field, if_neg (by omega)]

/-- `strncpy` into a fresh block of `size` bytes: up to the NUL, then zeros. -/
def strncpyBlock (source : Bytes) (size : Nat) : Option Bytes :=
  let text := cstring source
  if size ≤ text.length then some (text.take size)
  else if text.length < source.length then some (text ++ List.replicate (size - text.length) 0)
  else none

def entryAt (data : Bytes) (offset : Nat) : Option OrderEntry := do
  let productId ← field data offset 4
  let quantity ← field data (offset + 4) 4
  let price ← field data (offset + 8) 4
  return ⟨bytesInt productId, bytesInt quantity, UInt32.ofNat (fromLittleEndian price)⟩

def entriesAt (data : Bytes) : Nat → Nat → Option (List OrderEntry)
  | _, 0 => some []
  | offset, count + 1 => do
      let entry ← entryAt data offset
      let rest ← entriesAt data (offset + 12) count
      return entry :: rest

theorem entriesAt_length {data : Bytes} {offset count : Nat} {entries : List OrderEntry}
    (read : entriesAt data offset count = some entries) : entries.length = count := by
  induction count generalizing offset entries with
  | zero =>
      simp only [entriesAt, Option.some.injEq] at read
      subst entries
      rfl
  | succ count ih =>
      simp only [entriesAt, Option.bind_eq_bind, Option.bind_eq_some_iff, Option.pure_def,
        Option.some.injEq] at read
      obtain ⟨entry, _, rest, tail, rfl⟩ := read
      simp [ih tail]

/-- No block takes more than half the address space. Whether a smaller one is granted is left open in
`OrderCodec`; the values here are those for which memory is there. -/
def mallocLimit : Nat := 2 ^ 63

/-- The address block, or `NULL` for length zero. -/
def addressAt (data : Bytes) (addressLen : Nat) : Option (Option Bytes) :=
  if addressLen = 0 then some none
  else if mallocLimit ≤ addressLen then none
  else (strncpyBlock (data.drop 8) addressLen).map some

def orderUnserialize (data : Bytes) : Option Order :=
  match field data 0 8 with
  | none => none
  | some header =>
      let addressLen := fromLittleEndian header
      let offset := (Int32.ofInt (8 + addressLen)).toInt
      match addressAt data addressLen, decide (offset < 0), field data offset.toNat 4 with
      | some address, false, some count =>
          let numEntries := bytesInt count
          if fits : numEntries.toInt.toNat ≤ orderMaxSize then
            match read : entriesAt data (offset.toNat + 4) numEntries.toInt.toNat with
            | some items => some {
                address
                numEntries
                items
                counted := entriesAt_length read
                fits := by rw [entriesAt_length read]; exact fits }
            | none => none
          else none
      | _, _, _ => none

/-! Encoding. -/

def entryBytes (entry : OrderEntry) : Bytes :=
  intBytes entry.productId ++ intBytes entry.quantity ++ littleEndian 4 entry.price.toNat

/-- The address bytes of the encoding, terminator included. -/
def addressBytes (o : Order) : Option Bytes :=
  match o.address with
  | none => some []
  | some block => if Terminated block then some (cstring block ++ [0]) else none

def orderSerialize (o : Order) : Option Bytes :=
  match addressBytes o with
  | some address =>
      if o.numEntries < 0 ∨ 2 ^ 31 ≤ 12 + address.length + 12 * o.items.length then none
      else some (sizeBytes address.length ++ address ++ intBytes o.numEntries ++
        o.items.flatMap entryBytes)
  | none => none

theorem entryBytes_length (entry : OrderEntry) : (entryBytes entry).length = 12 := by
  simp [entryBytes]

theorem entries_length (items : List OrderEntry) :
    (items.flatMap entryBytes).length = 12 * items.length := by
  induction items with
  | nil => rfl
  | cons entry rest ih =>
      rw [List.flatMap_cons, List.length_append, entryBytes_length, ih, List.length_cons]
      omega

theorem orderSerialize_length {o : Order} {bytes : Bytes} (done : orderSerialize o = some bytes) :
    bytes.length < 2 ^ 31 := by
  unfold orderSerialize at done
  split at done
  · rename_i address _
    split at done
    · contradiction
    · rename_i fits
      simp only [Option.some.injEq] at done
      subst bytes
      simp only [List.length_append, sizeBytes_length, intBytes_length, entries_length]
      omega
  · contradiction

end Iac
