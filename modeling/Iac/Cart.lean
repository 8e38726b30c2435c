import Iac.OrderHistory

/-! What a client shows of the stock and what it has in its order, as a depot. -/

namespace Iac

open CText Depot

/-- What is on the shelf and in the cart, by the number of the product on the menu. -/
def Menu.depot (menu : Menu) : State Nat where
  stock index := (menu.products[index]?.map fun product : Product => product.stock.toInt).getD 0
  sold index :=
    (menu.products[index]?.map fun product : Product => ordered product.id.toInt menu.order.items).getD 0

/-- Some product of the menu is chosen, and numbers are typed in until one is accepted. -/
def Menu.Adds (menu after : Menu) : Prop :=
  ∃ index typed, Client.addToOrder index menu.products menu.order typed =
    some (after.products, after.order)

/-- The menus before the first submission. -/
def Menu.Shopping (fetched : List Product) (menu : Menu) : Prop :=
  Relation.ReflTransGen Menu.Adds ⟨fetched, orderNew⟩ menu

structure Menu.Balanced (fetched : List Product) (menu : Menu) : Prop where
  size : menu.products.length = fetched.length
  balance : ∀ (index : Nat) (shown product : Product), menu.products[index]? = some shown →
    fetched[index]? = some product → shown.id = product.id ∧
      ordered product.id.toInt menu.order.items + shown.stock.toInt = product.stock.toInt ∧
      0 ≤ ordered product.id.toInt menu.order.items ∧ 0 ≤ shown.stock.toInt
  positive : menu.order.Positive
  distinct : menu.order.ids.Nodup

/-- A call has its result, without a sum or a difference that is no `int`; for a new product
there may be no room. -/
structure Menu.Adding (menu : Menu) (product : Product) (num : Int32) (products : List Product) (order : Order) : Prop where
  sum : -2 ^ 31 ≤ ordered product.id.toInt menu.order.items + num.toInt ∧
    ordered product.id.toInt menu.order.items + num.toInt < 2 ^ 31
  difference : 0 ≤ product.stock.toInt - num.toInt ∧ product.stock.toInt - num.toInt < 2 ^ 31
  refused : product.id ∉ menu.order.ids → menu.order.items.length = orderMaxSize →
    products = menu.products ∧ order = menu.order

/-! What a call does. -/

section

variable {o after : Order} {addition : Addition}

theorem goods_nodup (distinct : o.ids.Nodup) : (o.items.map OrderEntry.goods).Nodup := by
  have goods : o.items.map OrderEntry.goods = o.ids.map Int32.toInt := by
    rw [Order.ids, List.map_map]
    rfl
  rw [goods]
  exact distinct.map fun _ _ same => Int32.toInt_inj.mp same

theorem ordered_entry (distinct : o.ids.Nodup) {entry : OrderEntry} (member : entry ∈ o.items) :
    ordered entry.productId.toInt o.items = entry.quantity.toInt :=
  tally_of_mem OrderEntry.goods _ (goods_nodup distinct) member

structure Order.WellFormed (o : Order) : Prop where
  numbered : 0 ≤ o.numEntries.toInt
  distinct : o.ids.Nodup

theorem orderNew_wellFormed : orderNew.WellFormed := ⟨by decide, List.nodup_nil⟩

structure Order.Extended (o : Order) (addition : Addition) (after : Order) : Prop where
  wellFormed : after.WellFormed
  ordered : ∀ productId : Int32, ordered productId.toInt after.items =
    ordered productId.toInt o.items + if addition.productId = productId then addition.quantity.toInt else 0

theorem extended_merge (formed : o.WellFormed) {before rest : List OrderEntry} {entry : OrderEntry}
    {sum : Int32} (split : o.items = before ++ entry :: rest)
    (same : entry.productId = addition.productId)
    (added : addInt entry.quantity addition.quantity = some sum)
    (items : after.items = before ++ { entry with quantity := sum } :: rest)
    (numEntries : after.numEntries = o.numEntries) : o.Extended addition after := by
  have ids : after.ids = o.ids := by
    simp only [Order.ids, items, split, List.map_append, List.map_cons]
  refine ⟨⟨numEntries ▸ formed.numbered, ids ▸ formed.distinct⟩, ?_⟩
  intro productId
  have total := addInt_eq added
  simp only [ordered, items, split, tally_append, tally, OrderEntry.goods, same, Int32.toInt_inj]
  by_cases here : addition.productId = productId
  · rw [if_pos here, if_pos here, if_pos here]
    omega
  · rw [if_neg here, if_neg here, if_neg here]
    omega

theorem extended_append (formed : o.WellFormed) (absent : addition.productId ∉ o.ids)
    (items : after.items = o.items ++ [⟨addition.productId, addition.quantity, addition.price⟩])
    (numbered : 0 ≤ after.numEntries.toInt) : o.Extended addition after := by
  have ids : after.ids = o.ids ++ [addition.productId] := by
    simp only [Order.ids, items, List.map_append, List.map_singleton]
  refine ⟨⟨numbered, ?_⟩, ?_⟩
  · rw [ids]
    exact List.Nodup.append formed.distinct (List.nodup_singleton _) (List.disjoint_singleton.mpr absent)
  · intro productId
    simp only [ordered, items, tally_append, tally, OrderEntry.goods, Int32.toInt_inj, Int.add_zero]

/-- Only a new product in a full order is refused. -/
theorem perform_refused_or_extended (formed : o.WellFormed) {sum : Int32}
    (added : addInt (Int32.ofInt (ordered addition.productId.toInt o.items)) addition.quantity =
      some sum) :
    addition.perform o = some (-1, o) ∨
    (addition.productId ∈ o.ids ∨ o.items.length ≠ orderMaxSize) ∧
      ∃ after, addition.perform o = some (0, after) ∧ o.Extended addition after := by
  by_cases present : addition.productId ∈ o.ids
  · obtain ⟨before, entry, rest, split, same, first⟩ := items_split present
    have member : entry ∈ o.items := by
      rw [split]
      exact List.mem_append_right _ List.mem_cons_self
    rw [← same, ordered_entry formed.distinct member, Int32.ofInt_toInt] at added
    obtain ⟨after, performed, items, numEntries⟩ := perform_merge split same first added
    exact .inr ⟨.inl present, after, performed, extended_merge formed split same added items numEntries⟩
  · by_cases room : o.items.length < orderMaxSize
    · obtain ⟨after, performed, items, numbered⟩ := perform_append present room formed.numbered
      exact .inr ⟨.inr (Nat.ne_of_lt room), after, performed,
        extended_append formed present items numbered⟩
    · have full : o.items.length = orderMaxSize := Nat.le_antisymm o.fits (Nat.not_lt.mp room)
      exact .inl (perform_refuse present full)

end

theorem chooseAmount_exists {availStock : Int32} {typed : List Int32}
    (accepted : ∃ num ∈ typed, 0 ≤ num ∧ num ≤ availStock) :
    ∃ num, Client.chooseAmount availStock typed = some num := by
  obtain ⟨num, member, lower, upper⟩ := accepted
  refine Option.isSome_iff_exists.mp (List.find?_isSome.mpr ⟨num, member, ?_⟩)
  simp only [Int32.le_iff_toInt_le, Int32.lt_iff_toInt_lt, decide_eq_true_eq] at *
  omega

theorem subInt_left {left right : Int32} (nonneg : 0 ≤ right.toInt) (less : right.toInt ≤ left.toInt) :
    Client.subInt left right = some (Int32.ofInt (left.toInt - right.toInt)) := by
  have upper := left.toInt_lt
  exact if_pos ⟨by omega, by omega⟩

theorem productSetStock_left {product : Product} {stock : Int} (nonneg : 0 ≤ stock)
    (upper : stock < 2 ^ 31) :
    (Client.productSetStock product (Int32.ofInt stock)).2 = { product with stock := Int32.ofInt stock } := by
  have accepted : ¬Int32.ofInt stock < 0 := by
    rw [Int32.lt_iff_toInt_lt, Int32.toInt_ofInt_of_le (by omega) (by omega), Int32.toInt_zero]
    omega
  rw [Client.productSetStock, if_neg accepted]

/-! What a call does to the menu. -/

section

variable {menu : Menu} {index : Nat} {product : Product} {num : Int32} {typed : List Int32}

/-- The menu stays as it is, or so much is taken off the shelf and put into the cart. -/
inductive Menu.Changed (menu : Menu) (index : Nat) (product : Product) (num : Int32) :
    List Product → Order → Prop
  | unchanged : Changed menu index product num menu.products menu.order
  | taken {order : Order} (room : product.id ∈ menu.order.ids ∨ menu.order.items.length ≠ orderMaxSize)
      (extended : menu.order.Extended ⟨product.id, num, product.price⟩ order) :
      Changed menu index product num
        (menu.products.set index { product with stock := Int32.ofInt (product.stock.toInt - num.toInt) })
        order

theorem addToOrder_changed (formed : menu.order.WellFormed) (shown : menu.products[index]? = some product)
    (chosen : Client.chooseAmount product.stock typed = some num)
    (fits : -2 ^ 31 ≤ ordered product.id.toInt menu.order.items ∧
      ordered product.id.toInt menu.order.items + num.toInt < 2 ^ 31) :
    ∃ products order, Client.addToOrder index menu.products menu.order typed = some (products, order) ∧
      menu.Changed index product num products order := by
  obtain ⟨nonneg, less⟩ := chooseAmount_accepted chosen
  unfold Client.addToOrder
  simp only [shown, chosen, Option.bind_eq_bind, Option.bind_some]
  by_cases zero : num = 0
  · rw [if_pos zero]
    exact ⟨_, _, rfl, .unchanged⟩
  · rw [if_neg zero]
    have sum : addInt (Int32.ofInt (ordered product.id.toInt menu.order.items)) num =
        some (Int32.ofInt (ordered product.id.toInt menu.order.items + num.toInt)) := by
      unfold addInt
      rw [Int32.toInt_ofInt_of_le (by omega) (by omega)]
      exact if_pos ⟨by omega, by omega⟩
    rcases @perform_refused_or_extended menu.order ⟨product.id, num, product.price⟩ formed _ sum with
      refused | ⟨room, after, performed, extended⟩
    · have refused : orderAdd menu.order product.id num product.price = some (-1, menu.order) := refused
      rw [refused]
      exact ⟨_, _, rfl, .unchanged⟩
    · have performed : orderAdd menu.order product.id num product.price = some (0, after) := performed
      have upper := product.stock.toInt_lt
      rw [performed, subInt_left nonneg less]
      refine ⟨_, after, rfl, ?_⟩
      rw [productSetStock_left (by omega) (by omega)]
      exact .taken room extended

theorem changed_step {products : List Product} {order : Order}
    (changed : menu.Changed index product num products order)
    (shown : menu.products[index]? = some product) (distinct : (menu.products.map Product.id).Nodup)
    (nonneg : 0 ≤ num.toInt) (less : num.toInt ≤ product.stock.toInt)
    (stocked : ∀ other, 0 ≤ menu.depot.stock other) :
    Step menu.depot (Menu.depot ⟨products, order⟩) := by
  cases changed with
  | unchanged => exact .refuse
  | taken _ extended =>
      have upper := product.stock.toInt_lt
      have inside : index < menu.products.length := (List.getElem?_eq_some_iff.mp shown).1
      have here : menu.depot.stock index = product.stock.toInt := by
        simp only [Menu.depot, shown, Option.map_some, Option.getD_some]
      have sell := @Step.sell _ menu.depot (fun other => if index = other then num.toInt else 0)
      have after : (Menu.depot ⟨menu.products.set index
          { product with stock := Int32.ofInt (product.stock.toInt - num.toInt) }, order⟩) =
          ⟨fun other => menu.depot.stock other - if index = other then num.toInt else 0,
            fun other => menu.depot.sold other + if index = other then num.toInt else 0⟩ := by
        refine congrArg₂ State.mk (funext fun other => ?_) (funext fun other => ?_)
        · by_cases same : index = other
          · subst other
            rw [if_pos rfl, here, List.getElem?_set_self inside, Option.map_some, Option.getD_some]
            exact Int32.toInt_ofInt_of_le (by omega) (by omega)
          · rw [if_neg same, Int.sub_zero, List.getElem?_set_ne same]
            rfl
        · by_cases same : index = other
          · subst other
            rw [if_pos rfl, List.getElem?_set_self inside, Option.map_some, Option.getD_some,
              extended.ordered, if_pos rfl]
            simp only [Menu.depot, shown, Option.map_some, Option.getD_some]
          · rw [if_neg same, Int.add_zero, List.getElem?_set_ne same]
            simp only [Menu.depot]
            cases present : menu.products[other]? with
            | none => rfl
            | some another =>
                have different : product.id ≠ another.id := by
                  intro equal
                  refine same ((List.getElem?_inj (by rw [List.length_map]; exact inside) distinct).mp ?_)
                  rw [List.getElem?_map, List.getElem?_map, shown, present, Option.map_some, equal]
                  rfl
                simp only [Option.map_some, Option.getD_some]
                rw [extended.ordered, if_neg different, Int.add_zero]
      rw [after]
      apply sell
      intro other
      by_cases same : index = other
      · subst other
        rw [if_pos rfl, here]
        omega
      · rw [if_neg same, Int.sub_zero]
        exact stocked other

/-! Runs. -/

/-- What is on the menu and in the cart has come there by sales from the shelf. -/
structure Menu.Sound (fetched : List Product) (menu : Menu) : Prop where
  formed : menu.order.WellFormed
  positive : menu.order.Positive
  ids : menu.products.map Product.id = fetched.map Product.id
  sales : Steps (Menu.depot ⟨fetched, orderNew⟩) menu.depot

theorem fetched_stocked {fetched : List Product} (nonneg : ∀ product ∈ fetched, 0 ≤ product.stock.toInt)
    (index : Nat) : 0 ≤ (Menu.depot ⟨fetched, orderNew⟩).stock index := by
  simp only [Menu.depot]
  cases present : fetched[index]? with
  | none => exact Int.le_refl 0
  | some product => exact nonneg product (List.mem_of_getElem? present)

theorem Menu.Sound.balanced {fetched : List Product} (sound : menu.Sound fetched)
    (nonneg : ∀ product ∈ fetched, 0 ≤ product.stock.toInt) : menu.Balanced fetched where
  size := by
    have lengths := congrArg List.length sound.ids
    rwa [List.length_map, List.length_map] at lengths
  balance index shown product present origin := by
    have ids := congrArg (fun ids : List Int32 => ids[index]?) sound.ids
    simp only [List.getElem?_map, present, origin, Option.map_some, Option.some.injEq] at ids
    have total := sound.sales.conserves index
    have left := sound.sales.no_oversell (fetched_stocked nonneg) index
    simp only [Menu.depot, present, origin, Option.map_some, Option.getD_some, ids] at total left
    have nothing : ordered product.id.toInt orderNew.items = 0 := rfl
    refine ⟨ids, by omega, ?_, left⟩
    apply tally_nonnegative
    intro entry member _
    have some_units := sound.positive entry member
    omega
  positive := sound.positive
  distinct := sound.formed.distinct

end

section

variable {fetched : List Product} {menu : Menu}

theorem Menu.Sound.call {index : Nat} {product : Product} {num : Int32} {typed : List Int32}
    (sound : menu.Sound fetched) (nonneg : ∀ product ∈ fetched, 0 ≤ product.stock.toInt)
    (shown : menu.products[index]? = some product)
    (chosen : Client.chooseAmount product.stock typed = some num) :
    ∃ products order, Client.addToOrder index menu.products menu.order typed = some (products, order) ∧
      menu.Changed index product num products order ∧ menu.Adding product num products order := by
  have balanced := sound.balanced nonneg
  obtain ⟨some_units, less⟩ := chooseAmount_accepted chosen
  have inside : index < fetched.length := balanced.size ▸ (List.getElem?_eq_some_iff.mp shown).1
  obtain ⟨ids, total, amount, left⟩ :=
    balanced.balance index product _ shown (List.getElem?_eq_getElem inside)
  have upper := fetched[index].stock.toInt_lt
  rw [← ids] at total amount
  obtain ⟨products, order, called, changed⟩ :=
    addToOrder_changed sound.formed shown chosen ⟨by omega, by omega⟩
  refine ⟨products, order, called, changed, ⟨by omega, by omega⟩, ⟨by omega, by omega⟩, ?_⟩
  intro absent full
  cases changed with
  | unchanged => exact ⟨rfl, rfl⟩
  | taken room _ => exact (room.elim absent fun other => other full).elim

theorem Menu.Adds.sound {after : Menu} (adds : menu.Adds after) (sound : menu.Sound fetched)
    (nonneg : ∀ product ∈ fetched, 0 ≤ product.stock.toInt)
    (distinct : (fetched.map Product.id).Nodup) : after.Sound fetched := by
  obtain ⟨newProducts, newOrder⟩ := after
  obtain ⟨index, typed, added⟩ := adds
  have positive := addToOrder_positive sound.positive added
  have result := added
  unfold Client.addToOrder at result
  simp only [Option.bind_eq_bind, Option.bind_eq_some_iff] at result
  obtain ⟨product, shown, num, chosen, _⟩ := result
  obtain ⟨some_units, less⟩ := chooseAmount_accepted chosen
  obtain ⟨products, order, called, changed, _⟩ := sound.call nonneg shown chosen
  cases called.symm.trans added
  have stocked := sound.sales.no_oversell (fetched_stocked nonneg)
  have sale := changed_step changed shown (sound.ids ▸ distinct) some_units less stocked
  refine ⟨?_, positive, ?_, sound.sales.tail sale⟩
  · cases changed with
    | unchanged => exact sound.formed
    | taken _ extended => exact extended.wellFormed
  · rw [← sound.ids]
    cases changed with
    | unchanged => rfl
    | taken _ _ =>
        obtain ⟨inside, here⟩ := List.getElem?_eq_some_iff.mp shown
        have bound : index < (menu.products.map Product.id).length := by
          rw [List.length_map]
          exact inside
        have id : (menu.products.map Product.id)[index] = product.id := by
          rw [List.getElem_map, here]
        rw [List.map_set]
        dsimp only
        rw [← id, List.set_getElem_self]

/-- Until something is submitted, order and stock make up what was fetched; and whatever is added
next leaves no `int`. -/
theorem shopping_balances (distinct : (fetched.map Product.id).Nodup)
    (nonneg : ∀ product ∈ fetched, 0 ≤ product.stock.toInt) (shopping : menu.Shopping fetched) :
    menu.Balanced fetched ∧
      ∀ (index : Nat) (product : Product) (typed : List Int32), menu.products[index]? = some product →
        (∃ num ∈ typed, 0 ≤ num ∧ num ≤ product.stock) → ∃ num products order,
          Client.chooseAmount product.stock typed = some num ∧
          Client.addToOrder index menu.products menu.order typed = some (products, order) ∧
          menu.Adding product num products order := by
  have sound : menu.Sound fetched := by
    induction shopping with
    | refl => exact ⟨orderNew_wellFormed, orderNew_positive, rfl, .refl⟩
    | tail _ adds ih => exact adds.sound ih nonneg distinct
  refine ⟨sound.balanced nonneg, ?_⟩
  intro index product typed shown accepted
  obtain ⟨num, chosen⟩ := chooseAmount_exists accepted
  obtain ⟨products, order, called, _, adding⟩ := sound.call nonneg shown chosen
  exact ⟨num, products, order, chosen, called, adding⟩

/-- Sixty bottles are on the shelf; twenty and then forty of them are asked for, after two numbers
that are rejected. -/
theorem shopping_balances_shelf : ∃ menu : Menu, menu.Shopping shelf ∧
    menu.order.items.map OrderEntry.quantity = [60] ∧ menu.Balanced shelf := by
  have played : ((Client.addToOrder 0 shelf orderNew [-1, 61, 20]).bind fun first =>
      (Client.addToOrder 0 first.1 first.2 [40]).map fun second =>
        second.2.items.map OrderEntry.quantity) = some [60] := by decide +kernel
  obtain ⟨first, one, played⟩ := Option.bind_eq_some_iff.mp played
  obtain ⟨second, two, amounts⟩ := Option.map_eq_some_iff.mp played
  have start : Menu.Adds ⟨shelf, orderNew⟩ ⟨first.1, first.2⟩ := ⟨0, _, one⟩
  have next : Menu.Adds ⟨first.1, first.2⟩ ⟨second.1, second.2⟩ := ⟨0, _, two⟩
  have shopping : Menu.Shopping shelf ⟨second.1, second.2⟩ :=
    (Relation.ReflTransGen.single start).tail next
  exact ⟨_, shopping, amounts, (shopping_balances (by decide) (by decide) shopping).1⟩

end

end Iac
