import Mathlib.Data.List.Infix
import Mathlib.Data.List.Nodup
import Iac.Purchases

/-! Orders that are put together by any sequence of calls of `orderAdd`. -/

namespace Iac

open CText

structure Addition where
  productId : Int32
  quantity : Int32
  price : UInt32
  deriving DecidableEq, Repr

def Addition.perform (addition : Addition) (o : Order) : Option (Int32 × Order) :=
  orderAdd o addition.productId addition.quantity addition.price

def Addition.record (addition : Addition) (made : List (Addition × Int32) × Order) :
    Option (List (Addition × Int32) × Order) :=
  (addition.perform made.2).map fun added => (made.1 ++ [(addition, added.1)], added.2)

def orderAddAll (additions : List Addition) : Option (List (Addition × Int32) × Order) :=
  additions.foldlM (fun made addition => addition.record made) ([], orderNew)

def Order.ids (o : Order) : List Int32 := o.items.map OrderEntry.productId

def succeeded (history : List (Addition × Int32)) : List Addition :=
  (history.filter fun call => call.2 = 0).map Prod.fst

def sumFor (productId : Int32) (additions : List Addition) : Int :=
  ((additions.filter fun addition => addition.productId = productId).map
    fun addition => addition.quantity.toInt).sum

/-- The products that have a place in the order: the first sixteen. -/
def placed (additions : List Addition) : List Int32 :=
  (additions.map Addition.productId).eraseDups.take orderMaxSize

/-- The running sums of the products that have a place are `int`s. -/
def SumsFit (additions : List Addition) : Prop :=
  ∀ before, before <+: additions → ∀ productId ∈ placed before,
    -2 ^ 31 ≤ sumFor productId before ∧ sumFor productId before < 2 ^ 31

instance (additions : List Addition) : Decidable (SumsFit additions) :=
  decidable_of_iff (∀ before ∈ additions.inits, ∀ productId ∈ placed before,
    -2 ^ 31 ≤ sumFor productId before ∧ sumFor productId before < 2 ^ 31)
    (by simp only [List.mem_inits, SumsFit])

/-- What the order holds are the calls that succeeded, added up. -/
structure AddsUp (history : List (Addition × Int32)) (o : Order) : Prop where
  ids : o.ids = ((succeeded history).map Addition.productId).eraseDups
  bounded : o.items.length ≤ orderMaxSize
  quantity : ∀ entry ∈ o.items, entry.quantity.toInt = sumFor entry.productId (succeeded history)
  price : ∀ entry ∈ o.items,
    ((succeeded history).find? fun addition => addition.productId = entry.productId).map
      Addition.price = some entry.price

theorem orderAddAll_concat (additions : List Addition) (addition : Addition) :
    orderAddAll (additions ++ [addition]) = (orderAddAll additions).bind addition.record := by
  unfold orderAddAll
  rw [List.foldlM_append]
  exact bind_congr fun made => bind_pure _

/-! The three outcomes of a call. -/

section

variable {o : Order} {addition : Addition}

theorem perform_merge {before rest : List OrderEntry} {entry : OrderEntry} {sum : Int32}
    (split : o.items = before ++ entry :: rest) (same : entry.productId = addition.productId)
    (first : ∀ other ∈ before, other.productId ≠ addition.productId)
    (added : addInt entry.quantity addition.quantity = some sum) :
    ∃ after, addition.perform o = some (0, after) ∧
      after.items = before ++ { entry with quantity := sum } :: rest ∧
      after.numEntries = o.numEntries := by
  have position : (o.items.findIdx fun other => addition.productId = other.productId) =
      before.length := by
    have missed : before.findIdx (fun other => decide (addition.productId = other.productId)) =
        before.length :=
      List.findIdx_eq_length_of_false fun other member => decide_eq_false fun equal =>
        first other member equal.symm
    rw [split, List.findIdx_append, missed, if_neg (Nat.lt_irrefl _), List.findIdx_cons,
      decide_eq_true same.symm]
    exact Nat.zero_add _
  have present : before.length < o.items.length := by
    rw [split, List.length_append, List.length_cons]
    omega
  have found : o.items[before.length] = entry := by
    simp only [split, List.getElem_append_right, Nat.le_refl, Nat.sub_self,
      List.getElem_cons_zero]
  unfold Addition.perform orderAdd
  simp only [position, dif_pos present, found, added, Option.map_some]
  refine ⟨_, rfl, ?_, rfl⟩
  have replaced : ∀ items, items = before ++ entry :: rest →
      items.set before.length { entry with quantity := sum } =
        before ++ { entry with quantity := sum } :: rest := by
    rintro items rfl
    rw [List.set_append_right _ _ (Nat.le_refl _), Nat.sub_self, List.set_cons_zero]
  exact replaced _ split

/-- The entry that the search of `orderAdd` stops at. -/
theorem items_split (present : addition.productId ∈ o.ids) : ∃ before entry rest,
    o.items = before ++ entry :: rest ∧ entry.productId = addition.productId ∧
      ∀ other ∈ before, other.productId ≠ addition.productId := by
  have found : (o.items.find? fun entry => entry.productId = addition.productId).isSome := by
    obtain ⟨entry, member, same⟩ := List.mem_map.mp present
    exact List.find?_isSome.mpr ⟨entry, member, decide_eq_true same⟩
  obtain ⟨entry, found⟩ := Option.isSome_iff_exists.mp found
  obtain ⟨same, before, rest, split, missed⟩ := List.find?_eq_some_iff_append.mp found
  refine ⟨before, entry, rest, split, of_decide_eq_true same, ?_⟩
  intro other member equal
  have miss := missed other member
  rw [decide_eq_true equal] at miss
  contradiction

theorem search_absent (absent : addition.productId ∉ o.ids) :
    ¬(o.items.findIdx fun entry => addition.productId = entry.productId) < o.items.length := by
  rw [List.findIdx_lt_length]
  rintro ⟨entry, member, same⟩
  exact absent (List.mem_map.mpr ⟨entry, member, (of_decide_eq_true same).symm⟩)

theorem perform_append (absent : addition.productId ∉ o.ids) (room : o.items.length < orderMaxSize)
    (nonneg : 0 ≤ o.numEntries.toInt) :
    ∃ after, addition.perform o = some (0, after) ∧
      after.items = o.items ++ [⟨addition.productId, addition.quantity, addition.price⟩] ∧
      0 ≤ after.numEntries.toInt := by
  have counted := o.counted
  have limit : orderMaxSize = 16 := rfl
  have next : (o.numEntries + 1).toInt = o.numEntries.toInt + 1 := by
    have one : (1 : Int32).toInt = 1 := by decide
    rw [Int32.toInt_add, one, Int.bmod_eq_of_le (by omega) (by omega)]
  unfold Addition.perform orderAdd
  dsimp only
  rw [dif_neg (search_absent absent), dif_pos room]
  refine ⟨_, rfl, ?_, ?_⟩
  · apply List.take_of_length_le
    rw [List.length_append, List.length_singleton, next]
    omega
  · dsimp only
    omega

theorem perform_refuse (absent : addition.productId ∉ o.ids) (full : o.items.length = orderMaxSize) :
    addition.perform o = some (-1, o) := by
  unfold Addition.perform orderAdd
  dsimp only
  rw [dif_neg (search_absent absent), dif_neg (Nat.not_lt.mpr (Nat.le_of_eq full.symm))]

end

/-! Sums and products over one more call. -/

section

variable (additions : List Addition) (addition : Addition)

theorem eraseDups_concat (ids : List Int32) (id : Int32) :
    (ids ++ [id]).eraseDups = if id ∈ ids then ids.eraseDups else ids.eraseDups ++ [id] := by
  rw [List.eraseDups_append]
  split
  · rename_i known
    simp [List.removeAll, known]
  · rename_i unknown
    simp only [List.removeAll, List.elem_eq_mem, unknown, decide_false, Bool.not_false,
      List.filter_cons_of_pos, List.filter_nil]
    rfl

theorem nodup_eraseDups (ids : List Int32) : ids.eraseDups.Nodup := by
  induction ids using List.reverseRecOn with
  | nil => exact List.nodup_nil
  | append_singleton ids id ih =>
      rw [eraseDups_concat]
      split
      · exact ih
      · rename_i unknown
        refine List.Nodup.append ih (List.nodup_singleton id) ?_
        rw [List.disjoint_singleton, List.mem_eraseDups]
        exact unknown

theorem sumFor_concat (productId : Int32) : sumFor productId (additions ++ [addition]) =
    sumFor productId additions + if addition.productId = productId then addition.quantity.toInt else 0 := by
  unfold sumFor
  rw [List.filter_append, List.map_append, List.sum_append]
  split
  · rename_i same
    simp [same]
  · rename_i other
    simp [other]

theorem sumFor_absent {productId : Int32} (absent : productId ∉ additions.map Addition.productId) :
    sumFor productId additions = 0 := by
  have none_left : additions.filter (fun addition => addition.productId = productId) = [] := by
    refine List.filter_eq_nil_iff.mpr ?_
    intro other member same
    exact absent (List.mem_map.mpr ⟨other, member, of_decide_eq_true same⟩)
  rw [sumFor, none_left]
  rfl

theorem mem_ids_of_placed {productId : Int32} (known : productId ∈ placed additions) :
    productId ∈ additions.map Addition.productId :=
  List.mem_eraseDups.mp (List.mem_of_mem_take known)

variable {additions addition}

theorem placed_known (known : addition.productId ∈ additions.map Addition.productId) :
    placed (additions ++ [addition]) = placed additions := by
  rw [placed, List.map_append, List.map_singleton, eraseDups_concat, if_pos known, placed]

theorem placed_new (room : (placed additions).length < orderMaxSize)
    (absent : addition.productId ∉ placed additions) :
    addition.productId ∉ additions.map Addition.productId ∧
      placed (additions ++ [addition]) = placed additions ++ [addition.productId] := by
  have short : (additions.map Addition.productId).eraseDups.length < orderMaxSize := by
    rw [placed, List.length_take] at room
    omega
  have all : placed additions = (additions.map Addition.productId).eraseDups :=
    List.take_of_length_le (Nat.le_of_lt short)
  have unknown : addition.productId ∉ additions.map Addition.productId := fun known =>
    absent (all ▸ List.mem_eraseDups.mpr known)
  refine ⟨unknown, ?_⟩
  rw [placed, List.map_append, List.map_singleton, eraseDups_concat, if_neg unknown, all]
  apply List.take_of_length_le
  rw [List.length_append, List.length_singleton]
  omega

theorem placed_full (full : (placed additions).length = orderMaxSize) :
    placed (additions ++ [addition]) = placed additions := by
  by_cases known : addition.productId ∈ additions.map Addition.productId
  · exact placed_known known
  · rw [placed, List.map_append, List.map_singleton, eraseDups_concat, if_neg known, placed]
    apply List.take_append_of_le_length
    rw [placed, List.length_take] at full
    omega

end

/-! What a whole sequence of calls maintains. -/

structure Maintained (additions : List Addition) (history : List (Addition × Int32)) (o : Order) :
    Prop where
  calls : history.map Prod.fst = additions
  nonneg : 0 ≤ o.numEntries.toInt
  first : o.ids = placed additions
  unique : o.ids = ((succeeded history).map Addition.productId).eraseDups
  kept : succeeded history = additions.filter fun addition => addition.productId ∈ o.ids
  quantity : ∀ entry ∈ o.items, entry.quantity.toInt = sumFor entry.productId additions
  price : ∀ entry ∈ o.items,
    (additions.find? fun addition => addition.productId = entry.productId).map Addition.price =
      some entry.price

structure Answered (o : Order) (addition : Addition) (result : Int32) (after : Order) : Prop where
  refused : result = -1 ↔ addition.productId ∉ o.ids ∧ o.items.length = orderMaxSize
  unchanged : result = -1 → after = o
  otherwise : result ≠ -1 → result = 0

theorem Maintained.addsUp {additions : List Addition} {history : List (Addition × Int32)} {o : Order}
    (maintained : Maintained additions history o) : AddsUp history o where
  ids := maintained.unique
  bounded := o.fits
  quantity entry member := by
    have present : entry.productId ∈ o.ids := List.mem_map.mpr ⟨entry, member, rfl⟩
    rw [maintained.quantity entry member, maintained.kept, sumFor, sumFor, List.filter_filter]
    congr 2
    refine List.filter_congr ?_
    intro addition _
    by_cases same : addition.productId = entry.productId
    · simp [same, present]
    · simp [same]
  price entry member := by
    have present : entry.productId ∈ o.ids := List.mem_map.mpr ⟨entry, member, rfl⟩
    rw [← maintained.price entry member, maintained.kept, List.find?_filter]
    congr 2
    funext addition
    by_cases same : addition.productId = entry.productId
    · simp [same, present]
    · simp [same]

theorem maintained_new : Maintained [] [] orderNew where
  calls := rfl
  nonneg := by decide
  first := rfl
  unique := rfl
  kept := rfl
  quantity _ member := absurd member List.not_mem_nil
  price _ member := absurd member List.not_mem_nil

section

variable {additions : List Addition} {history : List (Addition × Int32)} {o after : Order}
  {addition : Addition}

theorem succeeded_concat (result : Int32) : succeeded (history ++ [(addition, result)]) =
    succeeded history ++ if result = 0 then [addition] else [] := by
  unfold succeeded
  rw [List.filter_append, List.map_append]
  split
  · rename_i done
    simp [done]
  · rename_i refused
    simp [refused]

theorem price_concat {productId : Int32} {price : UInt32} (addition : Addition)
    (known : (additions.find? fun addition => addition.productId = productId).map Addition.price =
      some price) :
    ((additions ++ [addition]).find? fun addition => addition.productId = productId).map
      Addition.price = some price := by
  obtain ⟨first, found, rfl⟩ := Option.map_eq_some_iff.mp known
  rw [List.find?_append, found]
  rfl

theorem Maintained.merge (maintained : Maintained additions history o)
    {before rest : List OrderEntry} {entry : OrderEntry} {sum : Int32}
    (split : o.items = before ++ entry :: rest) (same : entry.productId = addition.productId)
    (added : addInt entry.quantity addition.quantity = some sum)
    (items : after.items = before ++ { entry with quantity := sum } :: rest)
    (numEntries : after.numEntries = o.numEntries) :
    Maintained (additions ++ [addition]) (history ++ [(addition, 0)]) after := by
  have ids : after.ids = o.ids := by
    simp only [Order.ids, items, split, List.map_append, List.map_cons]
  have member : entry ∈ o.items := by
    rw [split]
    exact List.mem_append_right _ List.mem_cons_self
  have present : addition.productId ∈ o.ids := List.mem_map.mpr ⟨entry, member, same⟩
  have known : addition.productId ∈ additions.map Addition.productId :=
    mem_ids_of_placed _ (maintained.first ▸ present)
  have others : ∀ other ∈ after.items, other = { entry with quantity := sum } ∨
      other ∈ o.items ∧ addition.productId ≠ other.productId := by
    have distinct : o.ids.Nodup := by
      rw [maintained.unique]
      exact nodup_eraseDups _
    rw [Order.ids, split, List.map_append, List.map_cons, List.nodup_middle, List.nodup_cons,
      ← List.map_append, List.mem_map] at distinct
    intro other here
    rw [items] at here
    rcases List.mem_append.mp here with left | here
    · refine .inr ⟨split ▸ List.mem_append_left _ left, fun equal => distinct.1 ⟨other, ?_⟩⟩
      exact ⟨List.mem_append_left _ left, equal.symm.trans same.symm⟩
    · rcases List.mem_cons.mp here with rfl | right
      · exact .inl rfl
      · refine .inr ⟨split ▸ List.mem_append_right _ (List.mem_cons_of_mem _ right),
          fun equal => distinct.1 ⟨other, ?_⟩⟩
        exact ⟨List.mem_append_right _ right, equal.symm.trans same.symm⟩
  constructor
  · rw [List.map_append, maintained.calls]
    rfl
  · rw [numEntries]
    exact maintained.nonneg
  · rw [ids, placed_known known]
    exact maintained.first
  · rw [ids, succeeded_concat, if_pos rfl, List.map_append, List.map_singleton, eraseDups_concat,
      if_pos (by rw [← List.mem_eraseDups, ← maintained.unique]; exact present)]
    exact maintained.unique
  · rw [ids, succeeded_concat, if_pos rfl, List.filter_append, maintained.kept]
    simp [present]
  · intro other here
    rw [sumFor_concat]
    rcases others other here with rfl | ⟨old, different⟩
    · rw [if_pos same.symm, addInt_eq added, maintained.quantity entry member]
    · rw [if_neg different, Int.add_zero, maintained.quantity other old]
  · intro other here
    apply price_concat
    rcases others other here with rfl | ⟨old, _⟩
    · exact maintained.price entry member
    · exact maintained.price other old

theorem Maintained.append (maintained : Maintained additions history o)
    (absent : addition.productId ∉ o.ids) (room : o.items.length < orderMaxSize)
    (items : after.items = o.items ++ [⟨addition.productId, addition.quantity, addition.price⟩])
    (nonneg : 0 ≤ after.numEntries.toInt) :
    Maintained (additions ++ [addition]) (history ++ [(addition, 0)]) after := by
  have ids : after.ids = o.ids ++ [addition.productId] := by
    simp only [Order.ids, items, List.map_append, List.map_singleton]
  have sized : (placed additions).length < orderMaxSize := by
    rw [← maintained.first, Order.ids, List.length_map]
    exact room
  obtain ⟨unknown, next⟩ := placed_new sized (maintained.first ▸ absent)
  constructor
  · rw [List.map_append, maintained.calls]
    rfl
  · exact nonneg
  · rw [ids, next, maintained.first]
  · rw [ids, succeeded_concat, if_pos rfl, List.map_append, List.map_singleton, eraseDups_concat,
      if_neg (by rw [← List.mem_eraseDups, ← maintained.unique]; exact absent), maintained.unique]
  · rw [ids, succeeded_concat, if_pos rfl, List.filter_append, maintained.kept]
    congr 1
    · refine List.filter_congr ?_
      intro other member
      have different : other.productId ≠ addition.productId := fun equal =>
        unknown (List.mem_map.mpr ⟨other, member, equal⟩)
      simp [different]
    · simp
  · intro entry member
    rw [items] at member
    rw [sumFor_concat]
    rcases List.mem_append.mp member with old | new
    · have different : addition.productId ≠ entry.productId := fun equal =>
        absent (List.mem_map.mpr ⟨entry, old, equal.symm⟩)
      rw [if_neg different, Int.add_zero, maintained.quantity entry old]
    · rw [List.mem_singleton.mp new]
      dsimp only
      rw [if_pos rfl, sumFor_absent _ unknown, Int.zero_add]
  · intro entry member
    rw [items] at member
    rcases List.mem_append.mp member with old | new
    · exact price_concat addition (maintained.price entry old)
    · rw [List.mem_singleton.mp new]
      have none_before : additions.find? (fun other => other.productId = addition.productId) = none := by
        refine List.find?_eq_none.mpr ?_
        intro other here equal
        exact unknown (List.mem_map.mpr ⟨other, here, of_decide_eq_true equal⟩)
      dsimp only
      rw [List.find?_append, none_before]
      simp

theorem Maintained.refuse (maintained : Maintained additions history o)
    (absent : addition.productId ∉ o.ids) (full : o.items.length = orderMaxSize) :
    Maintained (additions ++ [addition]) (history ++ [(addition, -1)]) o := by
  have sized : (placed additions).length = orderMaxSize := by
    rw [← maintained.first, Order.ids, List.length_map]
    exact full
  have different : ∀ entry ∈ o.items, addition.productId ≠ entry.productId := fun entry member equal =>
    absent (List.mem_map.mpr ⟨entry, member, equal.symm⟩)
  constructor
  · rw [List.map_append, maintained.calls]
    rfl
  · exact maintained.nonneg
  · rw [placed_full sized]
    exact maintained.first
  · rw [succeeded_concat, if_neg (by decide), List.append_nil]
    exact maintained.unique
  · rw [succeeded_concat, if_neg (by decide), List.append_nil, List.filter_append, maintained.kept]
    simp [absent]
  · intro entry member
    rw [sumFor_concat, if_neg (different entry member), Int.add_zero, maintained.quantity entry member]
  · exact fun entry member => price_concat addition (maintained.price entry member)

/-- One call, with a sum that is an `int` if the product has a place. -/
theorem maintained_step (maintained : Maintained additions history o)
    (fits : addition.productId ∈ o.ids → -2 ^ 31 ≤ sumFor addition.productId (additions ++ [addition]) ∧
      sumFor addition.productId (additions ++ [addition]) < 2 ^ 31) :
    ∃ result after, addition.perform o = some (result, after) ∧ Answered o addition result after ∧
      Maintained (additions ++ [addition]) (history ++ [(addition, result)]) after := by
  by_cases present : addition.productId ∈ o.ids
  · obtain ⟨before, entry, rest, split, same, first⟩ := items_split present
    have member : entry ∈ o.items := by
      rw [split]
      exact List.mem_append_right _ List.mem_cons_self
    have total := maintained.quantity entry member
    obtain ⟨lower, upper⟩ := fits present
    rw [sumFor_concat, if_pos rfl, ← same, ← total] at lower upper
    have added : addInt entry.quantity addition.quantity =
        some (Int32.ofInt (entry.quantity.toInt + addition.quantity.toInt)) := if_pos ⟨lower, upper⟩
    obtain ⟨after, performed, items, numEntries⟩ := perform_merge split same first added
    refine ⟨0, after, performed, ⟨?_, ?_, ?_⟩, maintained.merge split same added items numEntries⟩
    · exact ⟨fun wrong => absurd wrong (by decide), fun other => (other.1 present).elim⟩
    · exact fun wrong => absurd wrong (by decide)
    · exact fun _ => rfl
  · by_cases room : o.items.length < orderMaxSize
    · obtain ⟨after, performed, items, nonneg⟩ := perform_append present room maintained.nonneg
      refine ⟨0, after, performed, ⟨?_, ?_, ?_⟩, maintained.append present room items nonneg⟩
      · exact ⟨fun wrong => absurd wrong (by decide), fun other => absurd other.2 (Nat.ne_of_lt room)⟩
      · exact fun wrong => absurd wrong (by decide)
      · exact fun _ => rfl
    · have full : o.items.length = orderMaxSize := Nat.le_antisymm o.fits (Nat.not_lt.mp room)
      refine ⟨-1, o, perform_refuse present full, ⟨?_, ?_, ?_⟩, maintained.refuse present full⟩
      · exact ⟨fun _ => ⟨present, full⟩, fun _ => rfl⟩
      · exact fun _ => rfl
      · exact fun wrong => (wrong rfl).elim

end

theorem SumsFit.earlier {additions : List Addition} {addition : Addition}
    (fits : SumsFit (additions ++ [addition])) : SumsFit additions := by
  intro before first
  exact fits before (first.trans (List.prefix_append _ _))

theorem Maintained.next_fits {additions : List Addition} {history : List (Addition × Int32)} {o : Order}
    {addition : Addition} (maintained : Maintained additions history o)
    (fits : SumsFit (additions ++ [addition])) (present : addition.productId ∈ o.ids) :
    -2 ^ 31 ≤ sumFor addition.productId (additions ++ [addition]) ∧
      sumFor addition.productId (additions ++ [addition]) < 2 ^ 31 := by
  refine fits _ (List.prefix_refl _) _ ?_
  rw [maintained.first] at present
  rw [placed_known (mem_ids_of_placed _ present)]
  exact present

theorem orderAddAll_maintained {additions : List Addition} (fits : SumsFit additions) :
    ∃ history o, orderAddAll additions = some (history, o) ∧ Maintained additions history o := by
  induction additions using List.reverseRecOn with
  | nil => exact ⟨[], orderNew, rfl, maintained_new⟩
  | append_singleton additions addition ih =>
      obtain ⟨history, o, made, maintained⟩ := ih fits.earlier
      obtain ⟨result, after, performed, _, kept⟩ := maintained_step maintained (maintained.next_fits fits)
      refine ⟨history ++ [(addition, result)], after, ?_, kept⟩
      rw [orderAddAll_concat, made, Option.bind_some, Addition.record, performed]
      rfl

/-- Whatever was called before, the next call answers as it should, and the order then holds what
the calls that succeeded add up to. -/
theorem orderAdd_maintains (additions : List Addition) (addition : Addition)
    (fits : SumsFit (additions ++ [addition])) :
    ∃ history o result after, orderAddAll additions = some (history, o) ∧
      orderAddAll (additions ++ [addition]) = some (history ++ [(addition, result)], after) ∧
      history.map Prod.fst = additions ∧ Answered o addition result after ∧
      AddsUp (history ++ [(addition, result)]) after := by
  obtain ⟨history, o, made, maintained⟩ := orderAddAll_maintained fits.earlier
  obtain ⟨result, after, performed, answered, kept⟩ :=
    maintained_step maintained (maintained.next_fits fits)
  refine ⟨history, o, result, after, made, ?_, maintained.calls, answered, kept.addsUp⟩
  rw [orderAddAll_concat, made, Option.bind_some, Addition.record, performed]
  rfl

theorem orderAdd_maintains_gin :
    ∃ history o result after, orderAddAll [⟨1, 3, 0⟩, ⟨2, 5, 0⟩] = some (history, o) ∧
      orderAddAll ([⟨1, 3, 0⟩, ⟨2, 5, 0⟩] ++ [⟨2, 6, 1⟩]) =
        some (history ++ [(⟨2, 6, 1⟩, result)], after) ∧
      history.map Prod.fst = [⟨1, 3, 0⟩, ⟨2, 5, 0⟩] ∧ Answered o ⟨2, 6, 1⟩ result after ∧
      AddsUp (history ++ [(⟨2, 6, 1⟩, result)]) after :=
  orderAdd_maintains _ _ (by decide)

end Iac
