import Mathlib.Logic.Relation
import Iac.Catalogue
import Iac.LargestOrder
import Iac.StockLedger

/-! Any number of clients at their menus, and what ends up in the tables. -/

namespace Iac

open CText Interaction SharedPipe

/-! The menus. -/

/-- The products that a client shows, and its order. -/
structure Menu where
  products : List Product
  order : Order

structure Shop where
  db : Database
  clients : List Menu
  submitted : List Order

/-- What somebody does at a menu; a number stands for the client. -/
inductive Event
  | enter (c : Circumstances)
  | add (i index : Nat) (typed : List Int32)
  | submit (i : Nat) (c : Circumstances) (address : Bytes)
  | leave (i : Nat)

/-- Lines that are accepted as an address: letters, digits and blanks that leave room for the
newline and the NUL. -/
def isAddress (address : Bytes) : Prop :=
  (∀ byte ∈ address, isPlain byte = true) ∧ address.length < 1023

/-- A client stays at its menu only with an order that was cut; it may also lose its connection
while it waits for the answer, and then it is gone. -/
inductive Shop.Step (backend : Backend) (shop : Shop) : Event → Shop → Prop
  | enter {c : Circumstances} (fetch : Fetch backend c shop.db) :
      Step backend shop (.enter c) { shop with clients := shop.clients ++ [⟨fetch.products, orderNew⟩] }
  | add {i index : Nat} {typed : List Int32} {menu : Menu} {products : List Product} {order : Order}
      (present : shop.clients[i]? = some menu)
      (added : Client.addToOrder index menu.products menu.order typed = some (products, order)) :
      Step backend shop (.add i index typed) { shop with clients := shop.clients.set i ⟨products, order⟩ }
  | submit {i : Nat} {c : Circumstances} {address : Bytes} {menu : Menu} {result : Int32 × Order}
      {db : Database} {clients : List Menu} (present : shop.clients[i]? = some menu)
      (some_entries : orderGetNumEntries menu.order ≠ 0) (accepted : isAddress address)
      (submits : Submits backend c shop.db menu.order address result db)
      (others : clients = shop.clients.eraseIdx i ∨
        result.1 = 0 ∧ clients = shop.clients.set i { menu with order := result.2 }) :
      Step backend shop (.submit i c address) ⟨db, clients, menu.order :: shop.submitted⟩
  | leave (i : Nat) :
      Step backend shop (.leave i) { shop with clients := shop.clients.eraseIdx i }

/-- The clients come and go while `allowed` says yes to each thing they do. -/
def Shop.Runs (backend : Backend) (allowed : Shop → Event → Prop) : Shop → Shop → Prop :=
  Relation.ReflTransGen fun shop after => ∃ event, allowed shop event ∧ shop.Step backend event after

def Database.opened (db : Database) : Shop := ⟨db, [], []⟩

/-! Real purchases. -/

/-- The new rows sell something, each new order has one of them, and no order for nothing at
all is submitted. -/
structure RealPurchases (start : Database) (shop : Shop) : Prop where
  entries : ∃ rows, shop.db.orderEntry = start.orderEntry ++ rows ∧ ∀ row ∈ rows, 1 ≤ row.quantity
  orders : ∃ rows, shop.db.orders = start.orders ++ rows ∧
    ∀ order ∈ rows, ∃ row ∈ shop.db.orderEntry, row.orderId = order.id ∧ 1 ≤ row.quantity
  submitted : ∀ order ∈ shop.submitted, ∃ entry ∈ order.items, entry.quantity ≠ 0

/-- An order that is cut is not cut to a product of which nothing is left, and an order that is
stored gets the row of its first entry. -/
structure Careful (c : Circumstances) (db : Database) (order : Order) : Prop where
  left : ¬Covered c db 0 order.items →
    ∀ item ∈ order.items.zipIdx, 1 ≤ (getStock c item.2 item.1.productId db).toInt
  first : Covered c db 0 order.items → OrderStored c order →
    c.refuses (.entry 0) = false ∧ IdExact (newOrderId c db)

def Shop.allows (shop : Shop) : Event → Prop
  | .submit i c _ => ∀ menu, shop.clients[i]? = some menu → Careful c shop.db menu.order
  | _ => True

/-- Every entry is for one unit or more. -/
def Order.Positive (order : Order) : Prop := ∀ entry ∈ order.items, 1 ≤ entry.quantity.toInt

/-! Putting an order together. -/

theorem orderNew_positive : orderNew.Positive := by
  intro entry member
  contradiction

theorem addInt_eq {left right sum : Int32} (added : addInt left right = some sum) :
    sum.toInt = left.toInt + right.toInt := by
  unfold addInt at added
  dsimp only at added
  split at added
  · rename_i inside
    cases added
    exact Int32.toInt_ofInt_of_le inside.1 inside.2
  · contradiction

theorem orderAdd_positive {o after : Order} {productId quantity result : Int32} {price : UInt32}
    (positive : o.Positive) (amount : 1 ≤ quantity.toInt)
    (added : orderAdd o productId quantity price = some (result, after)) : after.Positive := by
  unfold orderAdd at added
  dsimp only at added
  split at added
  · rename_i present
    obtain ⟨sum, whole, same⟩ := Option.map_eq_some_iff.mp added
    cases same
    intro entry member
    rcases List.mem_or_eq_of_mem_set member with old | rfl
    · exact positive entry old
    · have before := positive _ (List.getElem_mem present)
      have total := addInt_eq whole
      dsimp only
      omega
  · split at added
    · cases added
      intro entry member
      have either := List.mem_of_mem_take member
      rcases List.mem_append.mp either with old | new
      · exact positive entry old
      · rw [List.mem_singleton.mp new]
        exact amount
    · cases added
      exact positive

theorem chooseAmount_accepted {availStock num : Int32} {typed : List Int32}
    (chosen : Client.chooseAmount availStock typed = some num) :
    0 ≤ num.toInt ∧ num.toInt ≤ availStock.toInt := by
  have accepted := List.find?_some chosen
  rw [decide_eq_true_eq, not_or, Int32.lt_iff_toInt_lt, Int32.lt_iff_toInt_lt, Int32.toInt_zero] at accepted
  omega

theorem addToOrder_positive {index : Nat} {products after : List Product} {o order : Order}
    {typed : List Int32} (positive : o.Positive)
    (added : Client.addToOrder index products o typed = some (after, order)) : order.Positive := by
  unfold Client.addToOrder at added
  simp only [Option.bind_eq_bind, Option.bind_eq_some_iff] at added
  obtain ⟨product, _, num, chosen, added⟩ := added
  split at added
  · cases added
    exact positive
  · rename_i some_units
    obtain ⟨⟨result, next⟩, extended, same⟩ := Option.bind_eq_some_iff.mp added
    have range := (chooseAmount_accepted chosen).1
    have amount : 1 ≤ num.toInt := by
      have other : num.toInt ≠ 0 := fun zero => some_units (Int32.toInt_inj.mp zero)
      omega
    have kept := orderAdd_positive positive amount extended
    dsimp only at same
    split at same
    · cases same
      exact kept
    · obtain ⟨newStock, _, same⟩ := Option.bind_eq_some_iff.mp same
      cases same
      exact kept

/-! What one order does to the tables. -/

/-- Taking goods leaves the rows of an order that is stored. -/
theorem takeEntries_rows {c : Circumstances} {o : Order} {block : Bytes} {db after : Database}
    {items : List OrderEntry} (takes : takeEntries items (db.withEntries c o block o.items) = some after) :
    ∃ rows, after.orderEntry = db.orderEntry ++ rows ∧
      rows.map EntryRow.contents = o.items.map (OrderEntry.contents (newOrderId c db)) ∧
      ∃ row, after.orders = db.orders ++ [row] ∧ row.id = newOrderId c db := by
  obtain ⟨rows, appended, contents⟩ := db.withEntries_rows c o block o.items
  obtain ⟨_, orders, kept⟩ := takeEntries_frame takes
  exact ⟨rows, kept.trans appended, contents, _,
    orders.trans (Database.withEntries_orders c o block o.items db), rfl⟩

/-- Rows behind the old ones, for some of the entries, and with a new order the first of them. -/
theorem Accepted.rows {c : Circumstances} {o : Order} {block : Bytes} {db after : Database} {reply : Reply}
    (accepted : Accepted c o block db reply after) (some_items : o.items ≠ [])
    (first : OrderStored c o → c.refuses (.entry 0) = false ∧ IdExact (newOrderId c db)) :
    ∃ stored rows, stored <+: o.items ∧ after.orderEntry = db.orderEntry ++ rows ∧
      rows.map EntryRow.contents = stored.map (OrderEntry.contents (newOrderId c db)) ∧
      (after.orders = db.orders ∨
        stored ≠ [] ∧ ∃ row, after.orders = db.orders ++ [row] ∧ row.id = newOrderId c db) := by
  cases accepted with
  | unstored failed => exact ⟨[], [], List.nil_prefix, (List.append_nil _).symm, rfl, .inl rfl⟩
  | cut stored order within failed wrongId some_stored =>
      obtain ⟨rows, appended, contents⟩ := db.withEntries_rows c o block stored
      obtain ⟨answers, precise⟩ := first order
      exact ⟨stored, rows, within, appended, contents, .inr ⟨some_stored answers precise, _,
        Database.withEntries_orders c o block stored db, rfl⟩⟩
  | untaken done after order entries failed within takes =>
      obtain ⟨rows, appended, contents, order⟩ := takeEntries_rows takes
      exact ⟨o.items, rows, List.prefix_rfl, appended, contents, .inr ⟨some_items, order⟩⟩
  | placed after order entries all takes =>
      obtain ⟨rows, appended, contents, order⟩ := takeEntries_rows takes
      exact ⟨o.items, rows, List.prefix_rfl, appended, contents, .inr ⟨some_items, order⟩⟩

theorem contents_positive {stored : List OrderEntry} {rows : List EntryRow} {orderId : Int}
    (contents : rows.map EntryRow.contents = stored.map (OrderEntry.contents orderId))
    (positive : ∀ entry ∈ stored, 1 ≤ entry.quantity.toInt) :
    ∀ row ∈ rows, row.orderId = orderId ∧ 1 ≤ row.quantity := by
  intro row member
  have found := List.mem_map_of_mem (f := EntryRow.contents) member
  rw [contents] at found
  obtain ⟨entry, inside, same⟩ := List.mem_map.mp found
  simp only [OrderEntry.contents, EntryRow.contents, Prod.mk.injEq] at same
  obtain ⟨id, _, quantity⟩ := same
  exact ⟨id.symm, quantity ▸ positive entry inside⟩

/-- The tables behind an order that is placed are those before it and real purchases. -/
theorem Accepted.real {c : Circumstances} {o : Order} {block : Bytes} {db after : Database} {reply : Reply}
    (accepted : Accepted c o block db reply after) (some_items : o.items ≠ []) (positive : o.Positive)
    (first : OrderStored c o → c.refuses (.entry 0) = false ∧ IdExact (newOrderId c db)) :
    RealPurchases db ⟨after, [], []⟩ := by
  obtain ⟨stored, rows, within, appended, contents, orders⟩ := accepted.rows some_items first
  have sold := contents_positive contents fun entry member => positive entry (within.subset member)
  refine ⟨⟨rows, appended, fun row member => (sold row member).2⟩, ?_, by simp⟩
  rcases orders with same | ⟨some_stored, order, added, id⟩
  · exact ⟨[], by rw [same, List.append_nil], by simp⟩
  · refine ⟨[order], added, ?_⟩
    intro other only
    rw [List.mem_singleton.mp only, id]
    have some_rows : rows ≠ [] := by
      rintro rfl
      exact some_stored (List.map_eq_nil_iff.mp contents.symm)
    obtain ⟨row, rest, rfl⟩ := List.exists_cons_of_ne_nil some_rows
    exact ⟨row, by rw [appended]; simp, sold row List.mem_cons_self⟩

theorem limited_positive {c : Circumstances} {db : Database} {items : List OrderEntry} {i : Nat}
    (positive : ∀ entry ∈ items, 1 ≤ entry.quantity.toInt)
    (left : ∀ item ∈ items.zipIdx i, 1 ≤ (getStock c item.2 item.1.productId db).toInt) :
    ∀ entry ∈ limited c db i items, 1 ≤ entry.quantity.toInt := by
  induction items generalizing i with
  | nil => simp [limited]
  | cons entry rest ih =>
      rw [List.zipIdx_cons, List.forall_mem_cons] at left
      rw [List.forall_mem_cons] at positive
      rw [limited, List.forall_mem_cons, OrderEntry.limit_quantity]
      exact ⟨le_min positive.1 left.1, ih positive.2 left.2⟩

theorem RealPurchases.refl (db : Database) : RealPurchases db ⟨db, [], []⟩ :=
  ⟨⟨[], (List.append_nil _).symm, by simp⟩, ⟨[], (List.append_nil _).symm, by simp⟩, by simp⟩

theorem submitted_items {o : Order} {address bytes : Bytes} (some_entries : orderGetNumEntries o ≠ 0)
    (encoded : orderSerialize (orderSetAddress o address) = some bytes) : o.items ≠ [] := by
  have nonnegative : ¬o.numEntries < 0 := by
    intro negative
    unfold orderSerialize at encoded
    split at encoded
    · rw [if_pos (.inl negative)] at encoded
      contradiction
    · contradiction
  intro empty
  have counted := o.counted
  rw [empty, List.length_nil] at counted
  rw [Int32.lt_iff_toInt_lt, Int32.toInt_zero] at nonnegative
  apply some_entries
  apply Int32.toInt_inj.mp
  rw [orderGetNumEntries, Int32.toInt_zero]
  omega

theorem isAddress.clean {address block : Bytes} (accepted : isAddress address)
    (same : cstring block = cstring (cstring address ++ [0])) : Sql.doubleQuote ∉ cstring block := by
  rw [same, cstring_append_nul (cstring_no_nul _) []]
  apply plain_unquoted
  intro byte member
  exact accepted.1 byte ((List.takeWhile_prefix _).subset member)

theorem submits_real {backend : Backend} {c : Circumstances} {db after : Database} {order : Order}
    {address : Bytes} {result : Int32 × Order} (accepted : isAddress address) (positive : order.Positive)
    (some_entries : orderGetNumEntries order ≠ 0) (careful : Careful c db order)
    (submits : Submits backend c db order address result after) :
    order.items ≠ [] ∧ RealPurchases db ⟨after, [], []⟩ ∧ (result.1 = 0 → result.2.Positive) := by
  obtain ⟨bytes, reply, encoded, placed, outcome⟩ := submits_iff.mp submits
  have some_items := submitted_items some_entries encoded
  refine ⟨some_items, ?_⟩
  obtain ⟨sent, decoded, same, _⟩ := orderUnserialize_encoded encoded []
  rw [List.append_nil] at decoded
  have items : sent.items = order.items := same.items
  rcases placeOrder_cases decoded placed with ⟨covered, stores⟩ | ⟨uncovered, cut, rfl⟩
  · have string : sent.address.map cstring = some (cstring (cstring address ++ [0])) := same.address
    obtain ⟨block, present, text⟩ := Option.map_eq_some_iff.mp string
    have total : orderGetTotal sent = orderGetTotal order := by rw [orderGetTotal, items, orderGetTotal]
    have cases := acceptOrder_cases present (accepted.clean text) stores
    rw [items] at covered
    constructor
    · refine cases.real (by rw [items]; exact some_items) (by unfold Order.Positive; rw [items]; exact positive) ?_
      intro stored
      unfold OrderStored at stored
      rw [total] at stored
      exact careful.first covered stored
    · intro cut
      cases outcome with
      | error => exact absurd (show (-1 : Int32) = 0 from cut) (by decide)
      | placed => exact absurd (show (1 : Int32) = 0 from cut) (by decide)
      | unsatisfiable code => exact absurd code (acceptOrder_reply stores).1
  · refine ⟨RealPurchases.refl _, ?_⟩
    obtain ⟨_, received, _, only, _, kept⟩ :=
      unsatisfiable_received backend ⟨bytes, reply, after, encoded, placed, cut⟩
    rw [only _ _ submits]
    rw [items] at uncovered
    intro _ entry member
    rw [kept] at member
    exact limited_positive positive (careful.left uncovered) entry member

/-! Runs. -/

/-- What has been bought stays so while more is bought. -/
theorem RealPurchases.next {start : Database} {shop : Shop} {after : Database} {clients : List Menu}
    (real : RealPurchases start shop) (more : RealPurchases shop.db ⟨after, [], []⟩) {order : Order}
    (some_units : ∃ entry ∈ order.items, entry.quantity ≠ 0) :
    RealPurchases start ⟨after, clients, order :: shop.submitted⟩ := by
  obtain ⟨rows, entries, sold⟩ := real.entries
  obtain ⟨newRows, newEntries, newSold⟩ := more.entries
  obtain ⟨orders, stored, have_rows⟩ := real.orders
  obtain ⟨newOrders, newStored, newHave⟩ := more.orders
  dsimp only at newEntries newStored newHave
  constructor
  · refine ⟨rows ++ newRows, by rw [newEntries, entries, List.append_assoc], ?_⟩
    intro row member
    exact (List.mem_append.mp member).elim (sold row) (newSold row)
  · refine ⟨orders ++ newOrders, by rw [newStored, stored, List.append_assoc], ?_⟩
    intro other member
    rcases List.mem_append.mp member with old | new
    · obtain ⟨row, inside, same⟩ := have_rows other old
      exact ⟨row, by rw [newEntries]; exact List.mem_append_left _ inside, same⟩
    · exact newHave other new
  · exact List.forall_mem_cons.mpr ⟨some_units, real.submitted⟩

/-- Besides the purchases, every order that is being put together is for something. -/
structure Shop.Sound (start : Database) (shop : Shop) : Prop where
  real : RealPurchases start shop
  positive : ∀ menu ∈ shop.clients, menu.order.Positive

theorem opened_sound (db : Database) : Shop.Sound db db.opened :=
  ⟨RealPurchases.refl db, by simp [Database.opened]⟩

theorem Shop.Step.sound {backend : Backend} {start : Database} {shop after : Shop} {event : Event}
    (step : shop.Step backend event after) (sound : shop.Sound start) (allowed : shop.allows event) :
    after.Sound start := by
  obtain ⟨real, positive⟩ := sound
  cases step with
  | enter fetch =>
      refine ⟨⟨real.entries, real.orders, real.submitted⟩, ?_⟩
      intro menu member
      rcases List.mem_append.mp member with old | new
      · exact positive menu old
      · rw [List.mem_singleton.mp new]
        exact orderNew_positive
  | @add i _ _ menu _ _ present added =>
      refine ⟨⟨real.entries, real.orders, real.submitted⟩, ?_⟩
      intro other member
      rcases List.mem_or_eq_of_mem_set member with old | rfl
      · exact positive other old
      · exact addToOrder_positive (positive menu (List.mem_of_getElem? present)) added
  | @submit i _ _ menu _ _ _ present some_entries accepted submits others =>
      have own := positive menu (List.mem_of_getElem? present)
      obtain ⟨some_items, more, kept⟩ :=
        submits_real accepted own some_entries (allowed menu present) submits
      obtain ⟨entry, rest, items⟩ := List.exists_cons_of_ne_nil some_items
      have first : entry ∈ menu.order.items := by
        rw [items]
        exact List.mem_cons_self
      have units : entry.quantity ≠ 0 := by
        intro zero
        have one := own entry first
        rw [zero, Int32.toInt_zero] at one
        omega
      refine ⟨real.next more ⟨entry, first, units⟩, ?_⟩
      intro other member
      rcases others with rfl | ⟨cut, rfl⟩
      · exact positive other (List.mem_of_mem_eraseIdx member)
      · rcases List.mem_or_eq_of_mem_set member with old | rfl
        · exact positive other old
        · exact kept cut
  | leave i =>
      refine ⟨⟨real.entries, real.orders, real.submitted⟩, ?_⟩
      intro other member
      exact positive other (List.mem_of_mem_eraseIdx member)

/-- In a run that cuts no order to a product of which nothing is left, and stores no order
without its first entry, only real purchases are recorded. -/
theorem only_real_purchases {backend : Backend} {start : Database} {shop : Shop}
    (run : Shop.Runs backend Shop.allows start.opened shop) : RealPurchases start shop := by
  have sound : shop.Sound start := by
    induction run with
    | refl => exact opened_sound start
    | tail _ last ih =>
        obtain ⟨event, allowed, step⟩ := last
        exact step.sound ih allowed
  exact sound.real

/-! Runs that are played. -/

def submission (c : Circumstances) (db : Database) (order : Order) (address : Bytes) :
    Option ((Int32 × Order) × Database) := do
  let bytes ← orderSerialize (orderSetAddress order address)
  let (reply, after) ← placeOrder c bytes db
  if reply.code = messageError then return ((-1, orderSetAddress order address), after)
  else if reply.code = messageUnsatisfiableOrder then
    let text ← reply.order
    let received ← orderUnserialize text
    return ((0, received), after)
  else return ((1, orderSetAddress order address), after)

theorem submits_of_submission {backend : Backend} {c : Circumstances} {db after : Database}
    {order : Order} {address : Bytes} {result : Int32 × Order}
    (played : submission c db order address = some (result, after)) :
    Submits backend c db order address result after := by
  unfold submission at played
  simp only [Option.bind_eq_bind, Option.bind_eq_some_iff] at played
  obtain ⟨bytes, encoded, ⟨reply, next⟩, placed, answered⟩ := played
  dsimp only at answered
  split at answered
  · rename_i failed
    cases answered
    exact submits_iff.mpr ⟨bytes, reply, encoded, placed, .error failed⟩
  · split at answered
    · rename_i cut
      obtain ⟨text, sent, answered⟩ := Option.bind_eq_some_iff.mp answered
      obtain ⟨received, decodes, same⟩ := Option.bind_eq_some_iff.mp answered
      cases same
      exact submits_iff.mpr ⟨bytes, reply, encoded, placed, .unsatisfiable cut sent decodes⟩
    · rename_i other another
      cases answered
      exact submits_iff.mpr ⟨bytes, reply, encoded, placed, .placed other another⟩

def shelf : List Product := (init.products.mapM ProductRow.product).getD []

theorem fetch_shelf (backend : Backend) : ∃ fetch : Fetch backend calm init, fetch.products = shelf := by
  obtain ⟨fetch⟩ := fetch_exists backend init_errorFree init_listable
  obtain ⟨_, _, _, products, found⟩ := fetch_products init_errorFree fetch
  refine ⟨fetch, ?_⟩
  rw [shelf, found, Option.getD_some, products]

def madero : Bytes := ascii "Madero 399"

theorem madero_isAddress : isAddress madero := ⟨by decide, by decide⟩

def sixty : Order := { vodkaOrder [] 60 with address := none }

theorem sixty_added : ∃ products, Client.addToOrder 0 shelf orderNew [60] = some (products, sixty) := by
  have added : (Client.addToOrder 0 shelf orderNew [60]).map Prod.snd = some sixty := by decide +kernel
  obtain ⟨⟨products, order⟩, found, rfl⟩ := Option.map_eq_some_iff.mp added
  exact ⟨products, found⟩

/-- All sixty bottles are sold, an order for them is cut to none, and that one is placed, too. -/
def selling : Option (((Int32 × Order) × Database) × ((Int32 × Order) × Database) × Int32 × Database) := do
  let first ← submission calm init sixty madero
  let second ← submission calm first.2 sixty madero
  let third ← submission calm second.2 second.1.2 madero
  return (first, second, third.1.1, third.2)

theorem selling_played : ∃ first second third, submission calm init sixty madero = some first ∧
    submission calm first.2 sixty madero = some second ∧
    submission calm second.2 second.1.2 madero = some third ∧ first.1.1 = 1 ∧ second.1.1 = 0 ∧
    orderGetNumEntries second.1.2 = 1 ∧ first.2.orderEntry.map EntryRow.quantity = [60] ∧
    third.2.orderEntry.map EntryRow.quantity = [60, 0] := by
  have played : selling.map (fun sale => (sale.1.1.1, sale.2.1.1.1, orderGetNumEntries sale.2.1.1.2,
      sale.1.2.orderEntry.map EntryRow.quantity, sale.2.2.2.orderEntry.map EntryRow.quantity)) =
      some (1, 0, 1, [60], [60, 0]) := by decide +kernel
  obtain ⟨sale, sold, outcome⟩ := Option.map_eq_some_iff.mp played
  unfold selling at sold
  simp only [Option.bind_eq_bind, Option.bind_eq_some_iff] at sold
  obtain ⟨first, one, second, two, third, three, same⟩ := sold
  cases same
  simp only [Prod.mk.injEq] at outcome
  obtain ⟨placed, cut, entries, row, rows⟩ := outcome
  exact ⟨first, second, third, one, two, three, placed, cut, entries, row, rows⟩

theorem runs_client {backend : Backend} {allowed : Shop → Event → Prop} {start : Shop}
    {clients : List Menu} {submitted : List Order}
    (run : Shop.Runs backend allowed start ⟨init, clients, submitted⟩)
    (enters : ∀ shop, allowed shop (.enter calm)) (adds : ∀ shop i, allowed shop (.add i 0 [60])) :
    ∃ products, Shop.Runs backend allowed start
      ⟨init, clients ++ [⟨products, sixty⟩], submitted⟩ := by
  obtain ⟨fetch, shown⟩ := fetch_shelf backend
  obtain ⟨products, added⟩ := sixty_added
  rw [← shown] at added
  have entered := run.tail ⟨.enter calm, enters _, .enter fetch⟩
  have last : (clients ++ [Menu.mk fetch.products orderNew])[clients.length]? =
      some ⟨fetch.products, orderNew⟩ := by simp
  have filled := entered.tail ⟨.add clients.length 0 [60], adds _ _, .add last added⟩
  dsimp only at filled
  rw [List.set_append_right _ _ (Nat.le_refl _), Nat.sub_self] at filled
  exact ⟨products, filled⟩

theorem runs_sixty {backend : Backend} {allowed : Shop → Event → Prop} {start : Shop} {db : Database}
    {products : List Product} {order : Order} {clients rest : List Menu} {submitted : List Order}
    {sale : (Int32 × Order) × Database}
    (run : Shop.Runs backend allowed start ⟨db, ⟨products, order⟩ :: clients, submitted⟩)
    (some_entries : orderGetNumEntries order = 1) (played : submission calm db order madero = some sale)
    (ok : allowed ⟨db, ⟨products, order⟩ :: clients, submitted⟩ (.submit 0 calm madero))
    (others : rest = clients ∨ sale.1.1 = 0 ∧ rest = ⟨products, sale.1.2⟩ :: clients) :
    Shop.Runs backend allowed start ⟨sale.2, rest, order :: submitted⟩ := by
  obtain ⟨result, after⟩ := sale
  have other : orderGetNumEntries order ≠ 0 := by
    rw [some_entries]
    decide
  have step := @Shop.Step.submit backend ⟨db, ⟨products, order⟩ :: clients, submitted⟩ 0 calm madero
    ⟨products, order⟩ result after rest rfl other
  exact run.tail ⟨_, ok, step madero_isAddress (submits_of_submission played) others⟩

theorem only_real_purchases_init : ∃ shop, Shop.Runs .sockets Shop.allows init.opened shop ∧
    shop.db.orderEntry.map EntryRow.quantity = [60] ∧ RealPurchases init shop := by
  obtain ⟨products, run⟩ := @runs_client .sockets Shop.allows _ [] [] .refl (fun _ => trivial)
    (fun _ _ => trivial)
  obtain ⟨first, _, _, played, _, _, _, _, _, rows, _⟩ := selling_played
  have covered : Covered calm init 0 sixty.items :=
    (verifyEntries_spec calm init 0 sixty.items).1.mp (by decide +kernel)
  have careful : Careful calm init sixty :=
    ⟨fun uncovered => absurd covered uncovered, fun _ _ => ⟨rfl, by decide⟩⟩
  have ok : Shop.allows ⟨init, [⟨products, sixty⟩], []⟩ (.submit 0 calm madero) := by
    intro menu present
    have same : menu = ⟨products, sixty⟩ := (Option.some.inj present).symm
    rw [same]
    exact careful
  have bought := runs_sixty run rfl played ok (.inl rfl)
  exact ⟨_, bought, rows, only_real_purchases bought⟩

/-- Two clients want all sixty bottles. The one that comes second is left with an order for
none, and gets that. -/
theorem purchase_of_nothing : ∃ shop, Shop.Runs .sockets (fun _ _ => True) init.opened shop ∧
    shop.db.orderEntry.map EntryRow.quantity = [60, 0] ∧ ¬RealPurchases init shop := by
  obtain ⟨products, one⟩ := @runs_client .sockets (fun _ _ => True) _ [] [] .refl (fun _ => trivial)
    (fun _ _ => trivial)
  obtain ⟨others, two⟩ := runs_client one (fun _ => trivial) (fun _ _ => trivial)
  obtain ⟨first, second, third, placed, cut, again, _, zero, entries, _, rows⟩ := selling_played
  have sold := runs_sixty two rfl placed trivial (.inl rfl)
  have shortened := runs_sixty sold rfl cut trivial (.inr ⟨zero, rfl⟩)
  have bought := runs_sixty shortened entries again trivial (.inl rfl)
  refine ⟨_, bought, rows, ?_⟩
  rintro ⟨⟨sales, appended, positive⟩, _, _⟩
  have same : sales = third.2.orderEntry := appended.symm
  obtain ⟨row, member, nothing⟩ : ∃ row ∈ third.2.orderEntry, row.quantity = 0 := by
    apply List.mem_map.mp
    rw [rows]
    exact List.mem_cons_of_mem _ List.mem_cons_self
  have positive := positive row (same ▸ member)
  omega

end Iac
