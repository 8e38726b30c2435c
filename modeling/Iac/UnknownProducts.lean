import Iac.PlacementProperties

/-! Orders for products that the database does not have: nothing sets the local `result` of
`get_stock` then, and it has what the stack held. -/

namespace Iac

open CText

def Circumstances.withLeftover (c : Circumstances) (leftover : Nat → Int32) : Circumstances :=
  { c with leftover }

/-- The query for the entry gives a row or fails, or no stock could be too small. -/
def Decided (c : Circumstances) (db : Database) (item : OrderEntry × Nat) : Prop :=
  c.refuses (.stock item.2) = true ∨ item.1.productId.toInt ∈ db.ids ∨ item.1.quantity = Int32.minValue

/-- The verdict on the order does not depend on what the stack held, and who orders some units of
an unknown product is never told that the order was placed. -/
structure JudgedByDatabase (c : Circumstances) (db : Database) (serialized : Bytes) (order : Order) :
    Prop where
  verdict : ∀ leftover other, verifyOrderStock (c.withLeftover leftover) order db =
    verifyOrderStock (c.withLeftover other) order db
  answer : ∀ leftover other, placeOrder (c.withLeftover leftover) serialized db =
    placeOrder (c.withLeftover other) serialized db
  unknown : ∀ entry ∈ order.items, 0 < entry.quantity → entry.productId.toInt ∉ db.ids →
    ∀ leftover reply after, placeOrder (c.withLeftover leftover) serialized db = some (reply, after) →
      reply.code ≠ messageOk

section

variable {c : Circumstances} {db : Database} {leftover other : Nat → Int32}

/-! What follows the verdict. -/

theorem storeEntries_leftover (orderId : Int) (i : Nat) (items : List OrderEntry) (query : Bytes)
    (db : Database) :
    storeEntries (c.withLeftover leftover) orderId i items query db =
      storeEntries c orderId i items query db := by
  induction items generalizing i query db with
  | nil => rfl
  | cons entry rest ih =>
      simp only [storeEntries, ih]
      rfl

theorem updateEntries_leftover (i : Nat) (items : List OrderEntry) (query : Bytes) (db : Database) :
    updateEntries (c.withLeftover leftover) i items query db = updateEntries c i items query db := by
  induction items generalizing i query db with
  | nil => rfl
  | cons entry rest ih =>
      simp only [updateEntries, ih]
      rfl

theorem acceptOrder_leftover (o : Order) (db : Database) :
    acceptOrder (c.withLeftover leftover) o db = acceptOrder c o db := by
  have stored : storeVerifiedOrder (c.withLeftover leftover) o db = storeVerifiedOrder c o db := by
    simp only [storeVerifiedOrder, storeEntries_leftover]
    rfl
  have updated : ∀ db, updateStock (c.withLeftover leftover) o db = updateStock c o db := fun db =>
    updateEntries_leftover 0 o.items c.stack db
  simp only [acceptOrder, stored, updated]

/-! The verdict. -/

theorem getStock_leftover {i : Nat} {productId : Int32}
    (answered : c.refuses (.stock i) = true ∨ productId.toInt ∈ db.ids) :
    getStock (c.withLeftover leftover) i productId db = getStock (c.withLeftover other) i productId db := by
  rw [getStock_eq, getStock_eq]
  rcases answered with refused | known
  · have same : ∀ leftover, (c.withLeftover leftover).refuses (.stock i) = true := fun _ => refused
    rw [if_pos (same leftover), if_pos (same other)]
  · rw [if_pos known, if_pos known]
    rfl

theorem getStock_unknown {i : Nat} {productId : Int32} (accepted : c.refuses (.stock i) = false)
    (unknown : productId.toInt ∉ db.ids) :
    getStock (c.withLeftover leftover) i productId db = leftover i := by
  have same : (c.withLeftover leftover).refuses (.stock i) = false := accepted
  rw [getStock_eq, same, if_neg (by decide), if_neg unknown]
  rfl

theorem not_less_minValue (stock : Int32) : ¬stock < Int32.minValue := by
  rw [Int32.lt_iff_toInt_lt, Int32.toInt_minValue, not_lt]
  exact stock.le_toInt

theorem verifyEntries_decided {i : Nat} {items : List OrderEntry}
    (decided : ∀ item ∈ items.zipIdx i, Decided c db item) :
    verifyEntries (c.withLeftover leftover) db i items =
      verifyEntries (c.withLeftover other) db i items := by
  induction items generalizing i with
  | nil => rfl
  | cons entry rest ih =>
      rw [List.zipIdx_cons, List.forall_mem_cons] at decided
      obtain ⟨here, later⟩ := decided
      have behind := ih later
      rcases or_assoc.mpr here with answered | least
      · have same := @getStock_leftover c db leftover other i entry.productId answered
        simp only [verifyEntries, same, behind]
      · have least : entry.quantity = Int32.minValue := least
        simp only [verifyEntries, least, if_neg (not_less_minValue _), behind]

theorem decided_of_verifyEntries {i : Nat} {items : List OrderEntry}
    (same : ∀ leftover other, (verifyEntries (c.withLeftover leftover) db i items).2 =
      (verifyEntries (c.withLeftover other) db i items).2) :
    ∀ item ∈ items.zipIdx i, Decided c db item := by
  induction items generalizing i with
  | nil => exact fun item member => absurd member List.not_mem_nil
  | cons entry rest ih =>
      have cuts : ∀ leftover, (verifyEntries (c.withLeftover leftover) db i (entry :: rest)).2 =
          entry.limit (getStock (c.withLeftover leftover) i entry.productId db) ::
            (verifyEntries (c.withLeftover leftover) db (i + 1) rest).2 := by
        intro leftover
        rw [(verifyEntries_spec _ db i _).2, (verifyEntries_spec _ db (i + 1) rest).2]
        rfl
      simp only [cuts, List.cons.injEq] at same
      rw [List.zipIdx_cons, List.forall_mem_cons]
      refine ⟨?_, ih fun leftover other => (same leftover other).2⟩
      by_contra undecided
      obtain ⟨accepted, rest_undecided⟩ := not_or.mp undecided
      obtain ⟨unknown, more⟩ := not_or.mp rest_undecided
      have read : ∀ leftover, getStock (c.withLeftover leftover) i entry.productId db = leftover i :=
        fun leftover => getStock_unknown (Bool.eq_false_iff.mpr accepted) unknown
      have cut := (same (fun _ => entry.quantity) fun _ => Int32.minValue).1
      rw [read, read] at cut
      have quantities := congrArg (fun entry => OrderEntry.quantity entry |>.toInt) cut
      have least := entry.quantity.le_toInt
      simp only [OrderEntry.limit_quantity, Int32.toInt_minValue, min_self, min_eq_right least] at quantities
      exact more (Int32.toInt_inj.mp (quantities.trans Int32.toInt_minValue.symm))

end

/-- What is decided without the stack is decided by the database. -/
theorem judged_by_database {c : Circumstances} {db : Database} {serialized : Bytes} {order : Order}
    (decoded : orderUnserialize serialized = some order) :
    JudgedByDatabase c db serialized order ↔ ∀ item ∈ order.items.zipIdx, Decided c db item := by
  constructor
  · intro judged
    refine decided_of_verifyEntries ?_
    intro leftover other
    exact congrArg (fun verdict => verdict.2.items) (judged.verdict leftover other)
  · intro decided
    have verdict : ∀ leftover other, verifyOrderStock (c.withLeftover leftover) order db =
        verifyOrderStock (c.withLeftover other) order db := by
      intro leftover other
      have same := @verifyEntries_decided c db leftover other 0 order.items decided
      simp only [verifyOrderStock, same]
    refine ⟨verdict, ?_, ?_⟩
    · intro leftover other
      simp only [placeOrder, decoded, acceptOrder_leftover, verdict leftover other]
    · intro entry member some_units unknown leftover reply after placed
      rcases placeOrder_cases decoded placed with ⟨covered, _⟩ | ⟨_, unsatisfiable, _⟩
      · obtain ⟨i, found⟩ := List.getElem?_of_mem member
        have item : (entry, i) ∈ order.items.zipIdx := List.mem_zipIdx_iff_getElem?.mpr found
        have enough : entry.quantity.toInt ≤
            (getStock (c.withLeftover leftover) i entry.productId db).toInt := covered.each (entry, i) item
        have positive : 0 < entry.quantity.toInt := Int32.lt_iff_toInt_lt.mp some_units
        rcases decided (entry, i) item with refused | known | least
        · have same : (c.withLeftover leftover).refuses (.stock i) = true := refused
          have minus : (-1 : Int32).toInt = -1 := by decide
          rw [getStock_eq, if_pos same, minus] at enough
          omega
        · exact (unknown known).elim
        · rw [least, Int32.toInt_minValue] at positive
          omega
      · rw [unsatisfiable]
        decide

theorem judged_by_database_vodka :
    JudgedByDatabase calm init (requestBytes (ascii "Madero 399") [vodka 70])
        (vodkaOrder (ascii "Madero 399") 70) ↔
      ∀ item ∈ (vodkaOrder (ascii "Madero 399") 70).items.zipIdx, Decided calm init item :=
  judged_by_database (by decide +kernel)

def absinthe : Bytes := requestBytes (ascii "Madero 399") [⟨9, 5, 0x41F40000⟩]

/-- If the stack holds a five, the order is placed. -/
theorem unknown_product_placed :
    ∃ order, orderUnserialize absinthe = some order ∧ ¬JudgedByDatabase calm init absinthe order := by
  have computed : (orderUnserialize absinthe).any (fun order =>
      order.items = [⟨9, 5, 0x41F40000⟩] ∧ (9 : Int) ∉ init.ids ∧
        (placeOrder (calm.withLeftover fun _ => 5) absinthe init).any (fun result =>
          result.1.code = messageOk)) = true := by
    decide +kernel
  obtain ⟨order, decoded, facts⟩ := (Option.any_eq_true _ _).mp computed
  obtain ⟨items, unknown, accepted⟩ := of_decide_eq_true facts
  obtain ⟨⟨reply, after⟩, placed, ok⟩ := (Option.any_eq_true _ _).mp accepted
  refine ⟨order, decoded, ?_⟩
  intro judged
  refine judged.unknown ⟨9, 5, 0x41F40000⟩ ?_ (by decide) unknown _ reply after placed (of_decide_eq_true ok)
  rw [items]
  exact List.mem_singleton_self _

end Iac
