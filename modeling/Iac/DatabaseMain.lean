import Mathlib.Data.List.Forall2
import Iac.DatabaseServer
import Iac.Library.Exchange
import Iac.Product

/-! The main loop of `database/databaseServer.c`: a request is read from one pipe, and its
reply is written to the other one. -/

namespace Iac

open CText Interaction SharedPipe

abbrev ServerProgram := Program Serving Serving.Answer

def undefinedBehaviour {α : Type} : ServerProgram α := .perform .undefined fun (never : Empty) => nomatch never

/-- `ensureRead` counts in an `int`. -/
def serverEnsureRead (bytes : Nat) : ServerProgram Bytes :=
  if bytes < 2 ^ 31 then serverReads bytes else undefinedBehaviour

/-! Products. -/

def atoi (column : Int) : Int32 := storeSingleNumber column

/-- The product of a row; the description may be `NULL`, and then `strlen` fails on it. -/
def ProductRow.product (row : ProductRow) : Option Product :=
  row.description.map fun description =>
    productNew (atoi row.id) row.name description row.price (atoi row.quantity)

/-- Where `get_products` does not return -1 it has an array for as many products as it
counted; more rows than that do not fit. -/
def Database.getProducts (c : Circumstances) (db : Database) : Option (Option (List Product)) :=
  if c.refuses .count then some none
  else
    let numProducts := storeSingleNumber db.products.length
    if numProducts ≤ 0 then some none
    else if c.refuses .products then some none
    else if numProducts.toInt < db.products.length then none
    else (db.products.mapM ProductRow.product).map some

def frame (text : Bytes) : Bytes := sizeBytes text.length ++ text

def listing (blobs : List Bytes) : Bytes :=
  intBytes (Int32.ofInt blobs.length) ++ blobs.flatMap frame

/-- A product that cannot be encoded makes the whole answer undefined. -/
def Database.sendProducts (c : Circumstances) (db : Database) : ServerProgram Unit :=
  match db.getProducts c with
  | none => undefinedBehaviour
  | some none => serverWrites (intBytes messageError)
  | some (some products) =>
      match products.mapM productSerialize with
      | some blobs => serverWrites (listing blobs)
      | none => undefinedBehaviour

/-! Orders. -/

def Reply.bytes (reply : Reply) : Bytes :=
  intBytes reply.code ++ (reply.order.map frame).getD []

def Database.placeOrder (c : Circumstances) (db : Database) : ServerProgram (Option Database) := do
  let size ← serverReads 8
  let serialized ← serverEnsureRead (fromLittleEndian size)
  match Iac.placeOrder c serialized db with
  | none => undefinedBehaviour
  | some (reply, db) =>
      serverWrites reply.bytes
      return some db

/-- One round of the main loop; without a database the server is done. -/
def serve (c : Circumstances) (db : Database) : ServerProgram (Option Database) := do
  let code ← serverReads 4
  let msgCode := bytesInt code
  if msgCode = cmdGetProducts then
    db.sendProducts c
    return some db
  else if msgCode = cmdPlaceOrder then db.placeOrder c
  else if msgCode = messageClose then return none
  else
    -- unknown message code
    Program.call Serving.unknown
    return some db

/-! What the server does with a request that is read from its beginning. -/

theorem mapM_eq_some_iff {α β : Type} {f : α → Option β} {items : List α} {results : List β} :
    items.mapM f = some results ↔
      List.Forall₂ (fun item result => f item = some result) items results := by
  induction items generalizing results with
  | nil => simp [eq_comm]
  | cons item rest ih =>
      simp only [List.mapM_cons, Option.bind_eq_bind, Option.bind_eq_some_iff, Option.pure_def,
        Option.some.injEq, ih, List.forall₂_cons_left_iff]
      constructor
      · rintro ⟨first, head, others, tail, rfl⟩
        exact ⟨first, others, head, tail, rfl⟩
      · rintro ⟨first, others, head, tail, rfl⟩
        exact ⟨first, head, others, tail, rfl⟩

theorem forall₂_right {α β : Type} {R : α → β → Prop} {P : β → Prop} {items : List α}
    {results : List β} (related : List.Forall₂ R items results)
    (each : ∀ item result, R item result → P result) : ∀ result ∈ results, P result := by
  induction related with
  | nil => simp
  | cons head _ ih => exact List.forall_mem_cons.mpr ⟨each _ _ head, ih⟩

theorem mapM_length {α β : Type} {f : α → Option β} {items : List α} {results : List β}
    (done : items.mapM f = some results) : results.length = items.length :=
  (mapM_eq_some_iff.mp done).length_eq.symm

theorem Database.getProducts_length {c : Circumstances} {db : Database} {products : List Product}
    (listed : db.getProducts c = some (some products)) :
    products ≠ [] ∧ products.length < 2 ^ 31 := by
  unfold Database.getProducts at listed
  split at listed
  · simp at listed
  · dsimp only at listed
    split at listed
    · simp at listed
    · rename_i positive
      split at listed
      · simp at listed
      · split at listed
        · simp at listed
        · rename_i enough
          simp only [Option.map_eq_some_iff, Option.some.injEq] at listed
          obtain ⟨products, mapped, rfl⟩ := listed
          have lengths := mapM_length mapped
          have upper := (storeSingleNumber db.products.length).toInt_lt
          constructor
          · rintro rfl
            have empty : db.products.length = 0 := lengths.symm
            rw [empty] at positive
            exact positive (by decide)
          · omega

/-- No statement of `get_products` fails, and it finds as many products as an `int` counts. -/
structure ErrorFree (c : Circumstances) (db : Database) : Prop where
  count : c.refuses .count = false
  products : c.refuses .products = false
  some_products : db.products ≠ []
  few : db.products.length < 2 ^ 31

theorem ErrorFree.getProducts {c : Circumstances} {db : Database} (errorFree : ErrorFree c db) :
    db.getProducts c = (db.products.mapM ProductRow.product).map some := by
  have positive : 0 < db.products.length := List.length_pos_iff.mpr errorFree.some_products
  have few := errorFree.few
  have number := storeSingleNumber_eq (Int.natCast_nonneg db.products.length) (by omega)
  have some_number : ¬storeSingleNumber db.products.length ≤ 0 := by
    rw [Int32.le_iff_toInt_le, number, Int32.toInt_zero]
    omega
  unfold Database.getProducts
  rw [if_neg (by rw [errorFree.count]; decide)]
  dsimp only
  rw [if_neg some_number, if_neg (by rw [errorFree.products]; decide), number,
    if_neg (lt_irrefl _)]

theorem ErrorFree.listed {c : Circumstances} {db : Database} (errorFree : ErrorFree c db) :
    db.getProducts c ≠ some none := by
  rw [errorFree.getProducts]
  cases db.products.mapM ProductRow.product with
  | none => simp
  | some products => simp

theorem reads_undefined {Store α : Type} (request : Bytes)
    (after : α → ServerProgram (Option Store)) (accepts : Bytes → Prop) :
    Reads request (undefinedBehaviour >>= after) accepts := by
  cases request <;> trivial

theorem reads_answer {Store : Type} {text : Bytes} (some_text : text ≠ []) {accepts : Bytes → Prop}
    (accepted : accepts text) (store : Store) :
    Reads [] (serverWrites text >>= fun _ => .ret (some store)) accepts := by
  have whole : accepts (text ++ []) := by
    rw [List.append_nil]
    exact accepted
  exact reads_serverWrites some_text ⟨rfl, whole⟩

section

variable {c : Circumstances} {db : Database} {accepts : Bytes → Prop}

theorem intBytes_ne_nil (value : Int32) : intBytes value ≠ [] := by
  intro empty
  have length := intBytes_length value
  rw [empty] at length
  contradiction

theorem reads_products (error : db.getProducts c = some none → accepts (intBytes messageError))
    (listed : ∀ blobs, blobs ≠ [] → blobs.length < 2 ^ 31 →
      (∀ blob ∈ blobs, blob.length < 2 ^ 31) → accepts (listing blobs)) :
    Reads [] (db.sendProducts c >>= fun _ => .ret (some db)) accepts := by
  unfold Database.sendProducts
  split
  · exact reads_undefined _ _ _
  · rename_i failed
    exact reads_answer (intBytes_ne_nil _) (error failed) db
  · rename_i products found
    split
    · rename_i blobs encoded
      obtain ⟨some_products, small⟩ := Database.getProducts_length found
      have lengths := mapM_length encoded
      refine reads_answer ?_ (listed blobs ?_ (by omega) ?_) db
      · exact List.append_ne_nil_of_left_ne_nil (intBytes_ne_nil _) _
      · rintro rfl
        exact some_products (List.eq_nil_of_length_eq_zero lengths.symm)
      · exact forall₂_right (mapM_eq_some_iff.mp encoded) fun _ _ => productSerialize_length
    · exact reads_undefined _ _ _

theorem reads_placeOrder {size payload : Bytes} (eight : size.length = 8)
    (whole : payload.length = fromLittleEndian size)
    (answered : ∀ reply after, placeOrder c payload db = some (reply, after) → accepts reply.bytes) :
    Reads (size ++ payload) (db.placeOrder c) accepts := by
  unfold Database.placeOrder
  rw [← eight]
  refine reads_serverReads ?_
  rw [← whole, serverEnsureRead]
  split
  · have reads : Reads (payload ++ []) (serverReads payload.length >>= fun serialized =>
        match Iac.placeOrder c serialized db with
        | none => undefinedBehaviour
        | some (reply, db) => serverWrites reply.bytes >>= fun _ => .ret (some db)) accepts := by
      refine reads_serverReads ?_
      split
      · trivial
      · rename_i reply after placed
        refine reads_answer ?_ (answered reply after placed) after
        exact List.append_ne_nil_of_left_ne_nil (intBytes_ne_nil _) _
    rw [List.append_nil] at reads
    exact reads
  · exact reads_undefined _ _ _

/-- A length that does not fit an `int` is never read to its end. -/
theorem reads_oversized {size : Bytes} (eight : size.length = 8)
    (large : 2 ^ 31 ≤ fromLittleEndian size) : Reads size (db.placeOrder c) accepts := by
  have reads : Reads (size ++ []) (db.placeOrder c) accepts := by
    unfold Database.placeOrder
    rw [← eight]
    refine reads_serverReads ?_
    rw [serverEnsureRead, if_neg (by omega)]
    exact reads_undefined _ _ _
  rw [List.append_nil] at reads
  exact reads

theorem reads_serve (msgCode : Int32) {rest : Bytes}
    (reads : Reads rest (if msgCode = cmdGetProducts then db.sendProducts c >>= fun _ => .ret (some db)
      else if msgCode = cmdPlaceOrder then db.placeOrder c
      else if msgCode = messageClose then .ret none
      else Program.call Serving.unknown >>= fun _ => .ret (some db)) accepts) :
    Reads (intBytes msgCode ++ rest) (serve c db) accepts := by
  unfold serve
  rw [← intBytes_length msgCode]
  refine reads_serverReads ?_
  rw [bytesInt_intBytes]
  exact reads

end

theorem acceptOrder_reply {c : Circumstances} {o : Order} {db after : Database} {reply : Reply}
    (accepted : acceptOrder c o db = some (reply, after)) :
    reply.code ≠ messageUnsatisfiableOrder ∧ reply.order = none := by
  unfold acceptOrder at accepted
  split at accepted
  · contradiction
  · split at accepted
    · cases accepted
      exact ⟨by decide, rfl⟩
    · split at accepted
      · contradiction
      · split at accepted
        · cases accepted
          exact ⟨by decide, rfl⟩
        · cases accepted
          exact ⟨by decide, rfl⟩

/-- Only the code for an unsatisfiable order is followed by an order. -/
theorem placeOrder_reply {c : Circumstances} {serialized : Bytes} {db after : Database}
    {reply : Reply} (placed : placeOrder c serialized db = some (reply, after)) :
    (reply.code ≠ messageUnsatisfiableOrder ∧ reply.order = none) ∨
      ∃ bytes, reply.code = messageUnsatisfiableOrder ∧ reply.order = some bytes ∧
        bytes.length < 2 ^ 31 := by
  unfold placeOrder at placed
  split at placed
  · contradiction
  · dsimp only at placed
    split at placed
    · exact .inl (acceptOrder_reply placed)
    · simp only [Option.map_eq_some_iff, Prod.mk.injEq] at placed
      obtain ⟨bytes, encoded, rfl, rfl⟩ := placed
      exact .inr ⟨bytes, rfl, rfl, orderSerialize_length encoded⟩

end Iac
