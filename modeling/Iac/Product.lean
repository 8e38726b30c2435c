import Iac.Order

/-! Products and their wire format: `common/product.c`. As with orders, a step whose
behaviour is undefined has no result. -/

namespace Iac

open CText

/-- `name` and `description` are the allocated blocks, not the strings in them. -/
structure Product where
  id : Int32
  name : Bytes
  description : Bytes
  price : UInt32
  stock : Int32
  deriving DecidableEq, Repr

def productNew (id : Int32) (name description : Bytes) (price : UInt32) (stock : Int32) : Product :=
  { id, name := cstring name ++ [0], description := cstring description ++ [0], price, stock }

/-- A block with its length in front, both as the encoding has them. -/
def lengthened (text : Bytes) : Bytes := littleEndian 4 text.length ++ text

def productSerialize (p : Product) : Option Bytes :=
  if Terminated p.name ∧ Terminated p.description then
    let bytes := intBytes p.id ++ lengthened (cstring p.name ++ [0]) ++
      lengthened (cstring p.description ++ [0]) ++ littleEndian 4 p.price.toNat ++ intBytes p.stock
    if bytes.length < 2 ^ 31 then some bytes else none
  else none

/-- `malloc(length)` and `memcpy` into it; a negative length gets no block. -/
def blockAt (data : Bytes) (offset : Nat) (length : Int32) : Option Bytes :=
  if length < 0 then none else field data offset length.toInt.toNat

def productUnserialize (data : Bytes) : Option Product := do
  let id ← field data 0 4
  let nameLen ← field data 4 4
  let name ← blockAt data 8 (bytesInt nameLen)
  let offset := 8 + name.length
  let descrLen ← field data offset 4
  let description ← blockAt data (offset + 4) (bytesInt descrLen)
  let offset := offset + 4 + description.length
  let price ← field data offset 4
  let stock ← field data (offset + 4) 4
  return ⟨bytesInt id, name, description, UInt32.ofNat (fromLittleEndian price), bytesInt stock⟩

theorem productSerialize_shape {p : Product} {bytes : Bytes} (done : productSerialize p = some bytes) :
    bytes.length < 2 ^ 31 ∧ bytes = intBytes p.id ++ lengthened (cstring p.name ++ [0]) ++
      lengthened (cstring p.description ++ [0]) ++ littleEndian 4 p.price.toNat ++
      intBytes p.stock := by
  unfold productSerialize at done
  split at done
  · dsimp only at done
    split at done
    · rename_i small
      simp only [Option.some.injEq] at done
      exact ⟨done ▸ small, done.symm⟩
    · contradiction
  · contradiction

theorem productSerialize_length {p : Product} {bytes : Bytes} (done : productSerialize p = some bytes) :
    bytes.length < 2 ^ 31 := (productSerialize_shape done).1

theorem productSerialize_ne_nil {p : Product} {bytes : Bytes} (done : productSerialize p = some bytes) :
    bytes ≠ [] := by
  intro empty
  have length := congrArg List.length ((productSerialize_shape done).2.symm.trans empty)
  simp only [List.length_append, intBytes_length, List.length_nil] at length
  omega

end Iac
