import Iac.OrderCodec
import Iac.Product

/-! `productSerialize` and `productUnserialize` access by access. -/

namespace Iac

open CText Layout Layout.Traced

/-! Decoding. -/

/-- `malloc(length)` and `memcpy` of as many bytes; a negative length is a huge `size_t`. -/
def readText (data : Bytes) (offset : Int) (length : Int32) : Traced Bytes := do
  let size := (length.toInt % 2 ^ 64).toNat
  let text ← memcpy data offset size
  access data.length (.write 0 size (allocated size))
  return text

def readProduct (data : Bytes) : Traced Product := do
  let id ← memcpy data 0 4
  let offset := moved 0 4
  let nameLen ← memcpy data offset 4
  let offset := moved offset 4
  let name ← readText data offset (bytesInt nameLen)
  let offset := moved offset (bytesInt nameLen).toInt.toNat
  let descrLen ← memcpy data offset 4
  let offset := moved offset 4
  let description ← readText data offset (bytesInt descrLen)
  let offset := moved offset (bytesInt descrLen).toInt.toNat
  let price ← memcpy data offset 4
  let offset := moved offset 4
  let stock ← memcpy data offset 4
  return ⟨bytesInt id, name, description, UInt32.ofNat (fromLittleEndian price), bytesInt stock⟩

theorem field_length {data bytes : Bytes} {offset width : Nat}
    (read : field data offset width = some bytes) : bytes.length = width := by
  unfold field at read
  split at read
  · cases read
    rw [List.length_take, List.length_drop]
    omega
  · contradiction

theorem stands_readText {data : Bytes} {offset : Int} {sum : Nat} (stands : Stands offset sum)
    (length : Int32) : (readText data offset length).result = blockAt data sum length := by
  have upper := length.toInt_lt
  have lower := length.le_toInt
  rw [readText, blockAt, bind_result, stands_field stands]
  by_cases negative : length < 0
  · have sign := Int32.lt_iff_toInt_lt.mp negative
    rw [Int32.toInt_zero] at sign
    have huge : 2 ^ 63 ≤ (length.toInt % 2 ^ 64).toNat := by omega
    rw [if_pos negative]
    cases field data sum (length.toInt % 2 ^ 64).toNat with
    | none => rfl
    | some text =>
        rw [Option.bind_some, bind_result, access_outside]
        · rfl
        · simp only [Access.Inside, allocated_refused huge]
          omega
  · have sign : 0 ≤ length.toInt := by
      rw [Int32.lt_iff_toInt_lt, Int32.toInt_zero] at negative
      omega
    have size : (length.toInt % 2 ^ 64).toNat = length.toInt.toNat := by omega
    rw [if_neg negative, size]
    cases field data sum length.toInt.toNat with
    | none => rfl
    | some text =>
        rw [Option.bind_some, bind_result, access_inside]
        · rfl
        · rw [Access.Inside, allocated_granted (by omega), Nat.zero_add]

theorem stands_behind {data text : Bytes} {offset : Int} {sum : Nat} {length : Int32}
    (stands : Stands offset sum) (read : blockAt data sum length = some text) :
    Stands (moved offset length.toInt.toNat) (sum + text.length) := by
  have upper := length.toInt_lt
  unfold blockAt at read
  split at read
  · contradiction
  · rw [field_length read]
    exact stands_moved stands read (by omega)

theorem readProduct_result (data : Bytes) : (readProduct data).result = productUnserialize data := by
  simp only [readProduct, productUnserialize, bind_result, pure_result, Option.bind_eq_bind,
    Option.pure_def]
  have idStands : Stands 0 0 := .inl ⟨by decide, rfl⟩
  rw [stands_field idStands]
  refine bind_agree fun id idRead => ?_
  have nameLenStands := stands_moved idStands idRead (by decide)
  rw [stands_field nameLenStands]
  refine bind_agree fun nameLen nameLenRead => ?_
  have nameStands := stands_moved nameLenStands nameLenRead (by decide)
  rw [stands_readText nameStands]
  refine bind_agree fun name nameRead => ?_
  have descrLenStands := stands_behind nameStands nameRead
  rw [stands_field descrLenStands]
  refine bind_agree fun descrLen descrLenRead => ?_
  have descriptionStands := stands_moved descrLenStands descrLenRead (by decide)
  rw [stands_readText descriptionStands]
  refine bind_agree fun description descriptionRead => ?_
  have priceStands := stands_behind descriptionStands descriptionRead
  rw [stands_field priceStands]
  refine bind_agree fun price priceRead => ?_
  have stockStands := stands_moved priceStands priceRead (by decide)
  rw [stands_field stockStands]

/-! Encoding. -/

/-- `memcpy(*dest + offset, text, length)`. -/
def writeText (dest : Draft) (offset : Int) (text : Bytes) (length : Int32) : Option Draft :=
  if length < 0 then none else dest.store offset (text.take length.toInt.toNat)

/-- The size that `productSerialize` returns, and the block that it leaves in `*dest`. -/
def writeProduct (p : Product) : Option (Nat × Draft) :=
  if Terminated p.name ∧ Terminated p.description then do
    let name := cstring p.name ++ [0]
    let description := cstring p.description ++ [0]
    let nameLen := Int32.ofInt name.length
    let descrLen := Int32.ofInt description.length
    let totalLen := ((4 + 4 + nameLen.toInt + 4 + descrLen.toInt + 4 + 4) % 2 ^ 64).toNat
    let dest ← (fresh (allocated totalLen)).store 0 (intBytes p.id)
    let offset := moved 0 4
    let dest ← dest.store offset (intBytes nameLen)
    let offset := moved offset 4
    let dest ← writeText dest offset name nameLen
    let offset := moved offset nameLen.toInt.toNat
    let dest ← dest.store offset (intBytes descrLen)
    let offset := moved offset 4
    let dest ← writeText dest offset description descrLen
    let offset := moved offset descrLen.toInt.toNat
    let dest ← dest.store offset (littleEndian 4 p.price.toNat)
    let offset := moved offset 4
    let dest ← dest.store offset (intBytes p.stock)
    return (totalLen, dest)
  else none

theorem filling_text {size : Nat} {dest : Draft} {offset : Int} {before : Bytes} (text : Bytes)
    (filling : Filling size dest offset before) (small : size < 2 ^ 31)
    (room : before.length + text.length ≤ size) :
    ∃ next, writeText dest offset text (Int32.ofInt text.length) = some next ∧
      Filling size next (moved offset (Int32.ofInt text.length).toInt.toNat) (before ++ text) := by
  have length : (Int32.ofInt text.length).toInt = text.length :=
    Int32.toInt_ofInt_of_le (by omega) (by omega)
  have sign : ¬Int32.ofInt text.length < 0 := by
    rw [Int32.lt_iff_toInt_lt, length, Int32.toInt_zero]
    omega
  rw [writeText, if_neg sign, length, Int.toNat_natCast, List.take_length]
  exact filling.store small rfl room

/-- The encoder returns the number of bytes of the encoding and has written each of them. -/
theorem writeProduct_eq {p : Product} {bytes : Bytes} (done : productSerialize p = some bytes) :
    writeProduct p = some (bytes.length, bytes.map some) := by
  unfold productSerialize at done
  split at done
  · rename_i terminated
    dsimp only at done
    split at done
    · rename_i fits
      unfold writeProduct
      rw [if_pos terminated]
      cases done
      generalize cstring p.name ++ [0] = name at fits ⊢
      generalize cstring p.description ++ [0] = description at fits ⊢
      simp only [lengthened, List.length_append, intBytes_length, littleEndian_length] at fits
      have small : 20 + name.length + description.length < 2 ^ 31 := by omega
      have nameLen : (Int32.ofInt name.length).toInt = name.length :=
        Int32.toInt_ofInt_of_le (by omega) (by omega)
      have descrLen : (Int32.ofInt description.length).toInt = description.length :=
        Int32.toInt_ofInt_of_le (by omega) (by omega)
      have total : ((4 + 4 + (Int32.ofInt name.length).toInt + 4 +
          (Int32.ofInt description.length).toInt + 4 + 4) % 2 ^ 64).toNat =
            20 + name.length + description.length := by omega
      have granted := allocated_granted (by omega : 20 + name.length + description.length < 2 ^ 63)
      have start := filling_fresh (20 + name.length + description.length)
      obtain ⟨dest₁, stored₁, filling₁⟩ := start.store small (intBytes_length p.id) (by simp; omega)
      obtain ⟨dest₂, stored₂, filling₂⟩ := filling₁.store small
        (intBytes_length (Int32.ofInt name.length)) (by simp; omega)
      obtain ⟨dest₃, stored₃, filling₃⟩ := filling_text name filling₂ small (by simp; omega)
      obtain ⟨dest₄, stored₄, filling₄⟩ := filling₃.store small
        (intBytes_length (Int32.ofInt description.length)) (by simp; omega)
      obtain ⟨dest₅, stored₅, filling₅⟩ := filling_text description filling₄ small (by simp; omega)
      obtain ⟨dest₆, stored₆, filling₆⟩ := filling₅.store small
        (littleEndian_length 4 p.price.toNat) (by simp; omega)
      obtain ⟨dest₇, stored₇, filling₇⟩ := filling₆.store small (intBytes_length p.stock)
        (by simp; omega)
      have whole : [] ++ intBytes p.id ++ intBytes (Int32.ofInt name.length) ++ name ++
          intBytes (Int32.ofInt description.length) ++ description ++
          littleEndian 4 p.price.toNat ++ intBytes p.stock =
          intBytes p.id ++ lengthened name ++ lengthened description ++
            littleEndian 4 p.price.toNat ++ intBytes p.stock := by
        rw [intBytes_ofInt (by omega), intBytes_ofInt (by omega)]
        simp [lengthened]
      rw [whole] at filling₇
      have length : (intBytes p.id ++ lengthened name ++ lengthened description ++
          littleEndian 4 p.price.toNat ++ intBytes p.stock).length =
            20 + name.length + description.length := by
        simp only [lengthened, List.length_append, intBytes_length, littleEndian_length]
        omega
      simp only [total, granted, stored₁, stored₂, stored₃, stored₄, stored₅, stored₆, stored₇,
        Option.bind_eq_bind, Option.bind_some, Option.pure_def, filling₇.full length, length]
    · contradiction
  · contradiction

/-! The round trip. -/

/-- Any two strings for which the size of the encoding is still an `int`. -/
structure Product.Codable (p : Product) : Prop where
  name : Terminated p.name
  description : Terminated p.description
  small : (cstring p.name).length + (cstring p.description).length < 2 ^ 31 - 64

/-- The same product, for whoever reads its texts as strings. -/
structure Product.Same (left right : Product) : Prop where
  id : left.id = right.id
  name : cstring left.name = cstring right.name
  description : cstring left.description = cstring right.description
  price : left.price = right.price
  stock : left.stock = right.stock

theorem walks_readText {data text rest : Bytes} {offset : Nat}
    (ahead : Ahead data offset (text ++ rest)) (small : text.length < 2 ^ 31) :
    Walks (readText data offset (Int32.ofInt text.length)) offset (offset + text.length) text := by
  have length : (Int32.ofInt text.length).toInt = text.length :=
    Int32.toInt_ofInt_of_le (by omega) (by omega)
  have size : ((text.length : Int) % 2 ^ 64).toNat = text.length := by omega
  have room : 0 + text.length ≤ allocated text.length := by
    rw [allocated_granted (by omega)]
    omega
  rw [readText, length, size]
  exact walks_bind (walks_memcpy ahead) (walks_bind (walks_write room _) (walks_pure _ _))

theorem walks_readProduct {id stock : Int32} {name description rest data : Bytes} {price : UInt32}
    (ahead : Ahead data 0 (intBytes id ++ (lengthened name ++ (lengthened description ++
      (littleEndian 4 price.toNat ++ (intBytes stock ++ rest))))))
    (small : 20 + name.length + description.length < 2 ^ 31) :
    Walks (readProduct data) 0 (20 + name.length + description.length)
      ⟨id, name, description, price, stock⟩ := by
  have nameInt : intBytes (Int32.ofInt name.length) = littleEndian 4 name.length :=
    intBytes_ofInt (by omega)
  have descrInt : intBytes (Int32.ofInt description.length) = littleEndian 4 description.length :=
    intBytes_ofInt (by omega)
  have nameSize : (Int32.ofInt name.length).toInt.toNat = name.length := by
    rw [Int32.toInt_ofInt_of_le (by omega) (by omega), Int.toNat_natCast]
  have descrSize : (Int32.ofInt description.length).toInt.toNat = description.length := by
    rw [Int32.toInt_ofInt_of_le (by omega) (by omega), Int.toNat_natCast]
  simp only [lengthened, ← nameInt, ← descrInt, List.append_assoc] at ahead
  have step : ∀ {offset width : Nat}, offset + width < 2 ^ 31 →
      moved offset width = (offset + width : Nat) := moved_eq
  have ahead₁ := ahead.next
  have ahead₂ := ahead₁.next
  have ahead₃ := ahead₂.next
  have ahead₄ := ahead₃.next
  have ahead₅ := ahead₄.next
  have ahead₆ := ahead₅.next
  have walk₀ := walks_memcpy ahead
  simp only [intBytes_length, littleEndian_length, Nat.zero_add]
    at ahead₁ ahead₂ ahead₃ ahead₄ ahead₅ ahead₆ walk₀
  have walk₁ := walks_memcpy ahead₁
  have walk₂ := walks_readText ahead₂ (by omega)
  have walk₃ := walks_memcpy ahead₃
  have walk₄ := walks_readText ahead₄ (by omega)
  have walk₅ := walks_memcpy ahead₅
  have walk₆ := walks_memcpy ahead₆
  simp only [intBytes_length, littleEndian_length] at walk₁ walk₃ walk₅ walk₆
  have start : moved 0 4 = (4 : Nat) := by decide
  have stop : 20 + name.length + description.length =
      4 + 4 + name.length + 4 + description.length + 4 + 4 := by omega
  rw [stop]
  unfold readProduct
  refine walks_bind walk₀ ?_
  rw [start, bytesInt_intBytes]
  refine walks_bind walk₁ ?_
  rw [step (by omega), bytesInt_intBytes]
  refine walks_bind walk₂ ?_
  rw [nameSize, step (by omega)]
  refine walks_bind walk₃ ?_
  rw [step (by omega), bytesInt_intBytes]
  refine walks_bind walk₄ ?_
  rw [descrSize, step (by omega)]
  refine walks_bind walk₅ ?_
  rw [step (by omega), fromLittleEndian_word]
  refine walks_bind walk₆ ?_
  rw [bytesInt_intBytes]
  exact walks_pure _ _

theorem productSerialize_codable {p : Product} (codable : p.Codable) :
    ∃ bytes, productSerialize p = some bytes ∧
      bytes = intBytes p.id ++ lengthened (cstring p.name ++ [0]) ++
        lengthened (cstring p.description ++ [0]) ++ littleEndian 4 p.price.toNat ++
        intBytes p.stock := by
  have small := codable.small
  refine ⟨_, ?_, rfl⟩
  rw [productSerialize, if_pos ⟨codable.name, codable.description⟩]
  dsimp only
  rw [if_pos]
  simp only [lengthened, List.length_append, intBytes_length, littleEndian_length,
    List.length_singleton]
  omega

def decodedProduct (p : Product) : Product :=
  { p with name := cstring p.name ++ [0], description := cstring p.description ++ [0] }

theorem productUnserialize_encoded {p : Product} {bytes : Bytes}
    (done : productSerialize p = some bytes) (r : Bytes) :
    productUnserialize (bytes ++ r) = some (decodedProduct p) ∧
      Walks (readProduct (bytes ++ r)) 0 bytes.length (decodedProduct p) := by
  obtain ⟨small, shape⟩ := productSerialize_shape done
  have length : bytes.length =
      20 + (cstring p.name ++ [0]).length + (cstring p.description ++ [0]).length := by
    rw [shape]
    simp only [lengthened, List.length_append, intBytes_length, littleEndian_length]
    omega
  have ahead : Ahead (bytes ++ r) 0 (intBytes p.id ++ (lengthened (cstring p.name ++ [0]) ++
      (lengthened (cstring p.description ++ [0]) ++ (littleEndian 4 p.price.toNat ++
        (intBytes p.stock ++ r))))) := by
    refine ⟨[], ?_, rfl⟩
    rw [shape]
    simp only [List.nil_append, List.append_assoc]
  have walk := walks_readProduct ahead (by omega)
  rw [← length] at walk
  have found := walk.result
  rw [readProduct_result] at found
  exact ⟨found, walk⟩

/-- Decoding gives the product back and reads exactly the encoding, whatever follows it; the
size that is returned is the number of bytes written. -/
theorem productSerialize_roundTrip (p : Product) (codable : p.Codable) :
    ∃ bytes, productSerialize p = some bytes ∧
      writeProduct p = some (bytes.length, bytes.map some) ∧
      ∀ r, ∃ decoded, productUnserialize (bytes ++ r) = some decoded ∧ decoded.Same p ∧
        Walks (readProduct (bytes ++ r)) 0 bytes.length decoded := by
  obtain ⟨bytes, done, _⟩ := productSerialize_codable codable
  refine ⟨bytes, done, writeProduct_eq done, ?_⟩
  intro r
  obtain ⟨found, walk⟩ := productUnserialize_encoded done r
  refine ⟨_, found, ?_, walk⟩
  constructor
  · rfl
  · exact cstring_append_nul (cstring_no_nul _) []
  · exact cstring_append_nul (cstring_no_nul _) []
  · rfl
  · rfl

theorem productSerialize_roundTrip_vodka :
    let p := productNew 1 (ascii "Vodka") [] 1120403456 60
    p.Codable ∧ ∃ bytes, productSerialize p = some bytes ∧
      writeProduct p = some (bytes.length, bytes.map some) := by
  intro p
  have codable : p.Codable := ⟨by decide, by decide, by decide⟩
  obtain ⟨bytes, done, written, _⟩ := productSerialize_roundTrip p codable
  exact ⟨codable, bytes, done, written⟩

end Iac
