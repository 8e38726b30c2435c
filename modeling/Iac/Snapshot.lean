import Mathlib.Data.List.Nodup
import Iac.DatabaseMain
import Iac.PlacementProperties

/-! The two statements of `get_products` with what another process does to the database file
between them. -/

namespace Iac

open CText

/-! The array. -/

/-- One call or several calls of `append_products`: the indices of the array that are read, and
the array, unless the call goes beyond it or fails on the row. -/
structure Appending where
  touched : List Nat
  array : Option (List (Option Product))
  deriving DecidableEq, Repr

/-- `while (array[i] != NULL) i++`. -/
def appendProducts (array : List (Option Product)) (row : ProductRow) : Appending :=
  let i := array.findIdx Option.isNone
  { touched := List.range (i + 1)
    array := if i < array.length then row.product.map fun product => array.set i (some product)
      else none }

def appendAll : List (Option Product) → List ProductRow → Appending
  | array, [] => ⟨[], some array⟩
  | array, row :: rest =>
      let first := appendProducts array row
      match first.array with
      | none => first
      | some array =>
          let others := appendAll array rest
          ⟨first.touched ++ others.touched, others.array⟩

/-! The two statements. -/

/-- What `get_products` leaves: how much it allocated, and the count with the array, or -1. There
is no result where the behaviour is undefined. -/
structure Retrieval where
  allocated : Nat
  touched : List Nat
  result : Option (Option (Int32 × List (Option Product)))
  deriving DecidableEq, Repr

/-- `get_products`; `typed` is what SQLite makes of the texts that the command line executes between the two
statements, whatever was typed in. -/
def getProductsAmid (c : Circumstances) (db : Database) (typed : List (Database → Database)) : Retrieval :=
  if c.refuses .count then ⟨0, [], some none⟩
  else
    let numProducts := storeSingleNumber db.products.length
    if numProducts ≤ 0 then ⟨0, [], some none⟩
    else if c.refuses .products then ⟨numProducts.toInt.toNat, [], some none⟩
    else
      let later := typed.foldl (fun db statement => statement db) db
      let appended := appendAll (List.replicate numProducts.toInt.toNat none) later.products
      ⟨numProducts.toInt.toNat, appended.touched,
        appended.array.map fun array => some (numProducts, array)⟩

def moments (db : Database) : List (Database → Database) → List Database
  | [] => [db]
  | statement :: rest => db :: moments (statement db) rest

def serialiseAll (array : List (Option Product)) : Option (List Bytes) :=
  array.mapM fun product => product.bind productSerialize

/-- Nothing is touched beyond the array, and what is sent is as many products as were counted, the
rows of the table at one moment. -/
structure OneSnapshot (c : Circumstances) (db : Database) (typed : List (Database → Database)) :
    Prop where
  inside : ∀ index ∈ (getProductsAmid c db typed).touched, index < (getProductsAmid c db typed).allocated
  sent : (getProductsAmid c db typed).result = some none ∨
    ∃ numProducts products blobs, ∃ moment ∈ moments db typed,
      (getProductsAmid c db typed).result = some (some (numProducts, products.map some)) ∧
      products.length = numProducts.toInt.toNat ∧
      moment.products.mapM ProductRow.product = some products ∧
      serialiseAll (products.map some) = some blobs

/-- A query fails, or there is nothing to count, or the second statement finds as many rows as the
first one counted, all of which can be encoded. -/
def CountHolds (c : Circumstances) (db : Database) (typed : List (Database → Database)) : Prop :=
  c.refuses .count = true ∨ storeSingleNumber db.products.length ≤ 0 ∨ c.refuses .products = true ∨
    let rows := (typed.foldl (fun db statement => statement db) db).products
    (rows.length : Int) = (storeSingleNumber db.products.length).toInt ∧
      ((rows.mapM ProductRow.product).bind fun products => products.mapM productSerialize).isSome

/-! Appending. -/

theorem findIdx_null (products : List Product) (free : List (Option Product)) :
    (products.map some ++ none :: free).findIdx Option.isNone = products.length := by
  induction products with
  | nil => rfl
  | cons product rest ih =>
      rw [List.map_cons, List.cons_append, List.findIdx_cons, ih]
      rfl

theorem appendProducts_room (products : List Product) (free : List (Option Product)) (row : ProductRow) :
    appendProducts (products.map some ++ none :: free) row =
      ⟨List.range (products.length + 1),
        row.product.map fun product => (products ++ [product]).map some ++ free⟩ := by
  have room : products.length < (products.map some ++ none :: free).length := by
    rw [List.length_append, List.length_map, List.length_cons]
    omega
  rw [appendProducts, findIdx_null, if_pos room]
  congr 1
  refine congrArg (fun appended => row.product.map appended) ?_
  funext product
  rw [List.set_append_right _ _ (Nat.le_of_eq (List.length_map _)), List.length_map, Nat.sub_self,
    List.set_cons_zero, List.map_append, List.append_assoc]
  rfl

theorem appendProducts_full (products : List Product) (row : ProductRow) :
    (appendProducts (products.map some) row).array = none := by
  have full : (products.map some).findIdx Option.isNone = (products.map some).length :=
    List.findIdx_eq_length_of_false fun slot member => by
      obtain ⟨product, _, rfl⟩ := List.mem_map.mp member
      rfl
  rw [appendProducts, full]
  exact if_neg (Nat.lt_irrefl _)

theorem appendAll_room {rows : List ProductRow} {room : Nat} (enough : rows.length ≤ room)
    (products : List Product) :
    (∀ index ∈ (appendAll (products.map some ++ List.replicate room none) rows).touched,
        index < products.length + room) ∧
      (appendAll (products.map some ++ List.replicate room none) rows).array =
        (rows.mapM ProductRow.product).map fun more =>
          (products ++ more).map some ++ List.replicate (room - rows.length) none := by
  induction rows generalizing room products with
  | nil => exact ⟨fun index member => absurd member List.not_mem_nil, by simp [appendAll]⟩
  | cons row rest ih =>
      obtain ⟨less, rfl⟩ : ∃ less, room = less + 1 := ⟨room - 1, by rw [List.length_cons] at enough; omega⟩
      rw [List.length_cons] at enough
      rw [List.replicate_succ, appendAll, appendProducts_room]
      cases built : row.product with
      | none =>
          dsimp only [Option.map_none]
          refine ⟨?_, by rw [List.mapM_cons, built]; rfl⟩
          intro index member
          rw [List.mem_range] at member
          omega
      | some product =>
          obtain ⟨inside, array⟩ := @ih less (by omega) (products ++ [product])
          dsimp only [Option.map_some]
          refine ⟨?_, ?_⟩
          · intro index member
            rcases List.mem_append.mp member with here | later
            · rw [List.mem_range] at here
              omega
            · have bound := inside index later
              rw [List.length_append, List.length_singleton] at bound
              omega
          · rw [array, List.mapM_cons, built, List.length_cons, Nat.add_sub_add_right]
            cases rest.mapM ProductRow.product with
            | none => rfl
            | some more => simp

theorem appendAll_overrun {rows : List ProductRow} {room : Nat} (many : room < rows.length)
    (products : List Product) :
    (appendAll (products.map some ++ List.replicate room none) rows).array = none := by
  induction rows generalizing room products with
  | nil => exact absurd many (Nat.not_lt_zero room)
  | cons row rest ih =>
      rw [appendAll]
      cases room with
      | zero =>
          rw [List.replicate_zero, List.append_nil]
          have full := appendProducts_full products row
          dsimp only
          rw [full]
          exact full
      | succ less =>
          rw [List.replicate_succ, appendProducts_room]
          cases row.product with
          | none => rfl
          | some product =>
              rw [List.length_cons] at many
              exact @ih less (by omega) (products ++ [product])

/-! The whole of `get_products`. -/

theorem last_moment (db : Database) (typed : List (Database → Database)) :
    typed.foldl (fun db statement => statement db) db ∈ moments db typed := by
  induction typed generalizing db with
  | nil => exact List.mem_singleton_self db
  | cons statement rest ih => exact List.mem_cons_of_mem db (ih (statement db))

theorem serialiseAll_some (products : List Product) :
    serialiseAll (products.map some) = products.mapM productSerialize := by
  unfold serialiseAll
  induction products with
  | nil => rfl
  | cons product rest ih =>
      rw [List.map_cons, List.mapM_cons, List.mapM_cons, ih]
      rfl

theorem getProductsAmid_answered {c : Circumstances} {db : Database}
    {typed : List (Database → Database)} (counted : c.refuses .count = false)
    (positive : ¬storeSingleNumber db.products.length ≤ 0) (selected : c.refuses .products = false) :
    getProductsAmid c db typed =
      let numProducts := storeSingleNumber db.products.length
      let appended := appendAll (([] : List Product).map some ++ List.replicate numProducts.toInt.toNat none)
        (typed.foldl (fun db statement => statement db) db).products
      ⟨numProducts.toInt.toNat, appended.touched,
        appended.array.map fun array => some (numProducts, array)⟩ := by
  rw [getProductsAmid, counted, if_neg Bool.false_ne_true, if_neg positive, selected,
    if_neg Bool.false_ne_true]
  rfl

theorem oneSnapshot_error {c : Circumstances} {db : Database} {typed : List (Database → Database)}
    (allocated : Nat) (error : getProductsAmid c db typed = ⟨allocated, [], some none⟩) :
    OneSnapshot c db typed := by
  constructor
  · rw [error]
    exact fun index member => absurd member List.not_mem_nil
  · exact .inl (congrArg Retrieval.result error)

theorem no_null_left {products more : List Product} {room : Nat}
    (same : products.map some = more.map some ++ List.replicate room none) :
    room = 0 ∧ products = more := by
  have room_zero : room = 0 := by
    by_contra some_room
    obtain ⟨less, rfl⟩ : ∃ less, room = less + 1 := ⟨room - 1, by omega⟩
    have null : (none : Option Product) ∈ products.map some := by
      rw [same]
      exact List.mem_append_right _ (by rw [List.replicate_succ]; exact List.mem_cons_self)
    obtain ⟨product, _, wrong⟩ := List.mem_map.mp null
    contradiction
  subst room_zero
  rw [List.replicate_zero, List.append_nil] at same
  exact ⟨rfl, List.map_injective_iff.mpr (Option.some_injective Product) same⟩

theorem appendAll_fills_iff {rows : List ProductRow} {room : Nat} {products : List Product} :
    (appendAll (([] : List Product).map some ++ List.replicate room none) rows).array =
      some (products.map some) ↔ rows.length = room ∧ rows.mapM ProductRow.product = some products := by
  constructor
  · intro appended
    by_cases many : room < rows.length
    · rw [appendAll_overrun many] at appended
      contradiction
    · rw [(appendAll_room (Nat.not_lt.mp many) []).2] at appended
      obtain ⟨more, built, full⟩ := Option.map_eq_some_iff.mp appended
      obtain ⟨exact_room, rfl⟩ := no_null_left full.symm
      exact ⟨by omega, built⟩
  · rintro ⟨rfl, built⟩
    rw [(appendAll_room (Nat.le_refl _) []).2, built, Nat.sub_self, List.replicate_zero]
    simp

/-- The two statements see one table just where they see as many rows. -/
theorem one_snapshot_iff {c : Circumstances} {db : Database} {typed : List (Database → Database)} :
    OneSnapshot c db typed ↔ CountHolds c db typed := by
  by_cases counted : c.refuses .count = true
  · exact ⟨fun _ => .inl counted, fun _ => oneSnapshot_error 0 (if_pos counted)⟩
  by_cases positive : storeSingleNumber db.products.length ≤ 0
  · refine ⟨fun _ => .inr (.inl positive), fun _ => oneSnapshot_error 0 ?_⟩
    rw [getProductsAmid, if_neg counted, if_pos positive]
  by_cases selected : c.refuses .products = true
  · refine ⟨fun _ => .inr (.inr (.inl selected)), fun _ =>
      oneSnapshot_error (storeSingleNumber db.products.length).toInt.toNat ?_⟩
    rw [getProductsAmid, if_neg counted, if_neg positive, if_pos selected]
  have answered := @getProductsAmid_answered c db typed (Bool.eq_false_iff.mpr counted) positive
    (Bool.eq_false_iff.mpr selected)
  have more_than_zero : 0 < (storeSingleNumber db.products.length).toInt := by
    rw [Int32.le_iff_toInt_le, Int32.toInt_zero] at positive
    omega
  generalize later : (typed.foldl (fun db statement => statement db) db).products = rows at answered
  generalize number : storeSingleNumber db.products.length = numProducts at answered more_than_zero
  constructor
  · rintro ⟨_, sent⟩
    refine .inr (.inr (.inr ?_))
    rw [later, number]
    rcases sent with error | ⟨_, products, blobs, moment, _, retrieved, length, _, encoded⟩
    · rw [answered] at error
      obtain ⟨array, _, wrong⟩ := Option.map_eq_some_iff.mp error
      contradiction
    · rw [answered] at retrieved
      obtain ⟨array, appended, same⟩ := Option.map_eq_some_iff.mp retrieved
      cases same
      obtain ⟨as_many, built⟩ := appendAll_fills_iff.mp appended
      refine ⟨by omega, ?_⟩
      rw [serialiseAll_some] at encoded
      rw [built, Option.bind_some, encoded]
      rfl
  · rintro (wrong | wrong | wrong | ⟨same, encoded⟩)
    · exact (counted wrong).elim
    · exact (positive wrong).elim
    · exact (selected wrong).elim
    · rw [later, number] at same
      rw [later] at encoded
      obtain ⟨blobs, encoded⟩ := Option.isSome_iff_exists.mp encoded
      obtain ⟨products, built, encoded⟩ := Option.bind_eq_some_iff.mp encoded
      have lengths := mapM_length built
      have inside := (@appendAll_room rows numProducts.toInt.toNat (by omega) []).1
      constructor
      · rw [answered]
        intro index touched
        have bound := inside index touched
        rw [List.length_nil, Nat.zero_add] at bound
        exact bound
      · refine .inr ⟨numProducts, products, blobs, _, last_moment db typed, ?_, by omega, ?_, ?_⟩
        · rw [answered]
          dsimp only
          rw [appendAll_fills_iff.mpr ⟨by omega, built⟩]
          rfl
        · rw [later]
          exact built
        · rw [serialiseAll_some]
          exact encoded

theorem getProductsAmid_alone (c : Circumstances) (db : Database) :
    (getProductsAmid c db []).result = (db.getProducts c).map fun retrieved =>
      retrieved.map fun products => (storeSingleNumber db.products.length, products.map some) := by
  unfold Database.getProducts
  by_cases counted : c.refuses .count = true
  · rw [if_pos counted, getProductsAmid, if_pos counted]
    rfl
  by_cases positive : storeSingleNumber db.products.length ≤ 0
  · rw [if_neg counted, getProductsAmid, if_neg counted, if_pos positive, if_pos positive]
    rfl
  by_cases selected : c.refuses .products = true
  · rw [if_neg counted, getProductsAmid, if_neg counted, if_neg positive, if_neg positive, if_pos selected,
      if_pos selected]
    rfl
  have below := storeSingleNumber_le (Int.natCast_nonneg db.products.length)
  rw [getProductsAmid_answered (Bool.eq_false_iff.mpr counted) positive (Bool.eq_false_iff.mpr selected),
    if_neg counted]
  dsimp only [List.foldl_nil]
  rw [if_neg positive, if_neg selected]
  rw [Int32.le_iff_toInt_le, Int32.toInt_zero] at positive
  split
  · rename_i short
    rw [appendAll_overrun (by omega)]
    rfl
  · rename_i enough
    have no_room : (storeSingleNumber db.products.length).toInt.toNat - db.products.length = 0 := by omega
    rw [(appendAll_room (by omega) []).2, no_room]
    simp only [List.nil_append, List.replicate_zero, List.append_nil, Option.map_map]
    rfl

def rum : ProductRow := ⟨6, ascii "Rum", 5, 0x41F40000, some (ascii "Dark"), by decide⟩

def insertRum (db : Database) : Database :=
  if absent : rum.id ∉ db.products.map ProductRow.id then
    { db with
      products := db.products ++ [rum]
      keys := by
        rw [List.map_append, List.map_singleton]
        exact List.nodup_append.mpr ⟨db.keys, List.nodup_singleton _, by
          intro id member other only
          rw [List.mem_singleton.mp only]
          exact fun equal => absent (equal ▸ member)⟩ }
  else db

theorem sixth_product_overruns : ¬OneSnapshot calm init [insertRum] := by
  intro one
  have touched : 5 ∈ (getProductsAmid calm init [insertRum]).touched := by decide +kernel
  have allocated : (getProductsAmid calm init [insertRum]).allocated = 5 := by decide +kernel
  have bound := one.inside 5 touched
  omega

end Iac
