import Iac.Cart
import Iac.ClientMenu

/-! What a session at the keyboard comes to, up to the first order that goes out. -/

namespace Iac.Keyboard

open CText Client Interaction Lines Relation SharedPipe

/-! Where it stops. -/

/-- Reading a number goes on for ever, or the number that is read is no `int`. -/
inductive NoNumber (input : Bytes) : Prop
  | unread (nothing : ¬Returns (.asking input))
  | outside {line rest : Bytes} {number : Int} (first : First newline Numbered input line rest)
      (typed : (scanf line).1 = some number) (large : asInt number = none)

/-- Reading an address goes on for ever. -/
def NoAddress (input : Bytes) : Prop :=
  ∀ (array : Block 1024) (c : Option UInt8), ¬Enters (fun _ _ => True) (.entering array 0 c input)

/-- None of the numbers that are read is accepted, and behind them there is none. -/
inductive Pending (accepted : Int32 → Bool) : Bytes → Prop
  | unread {input : Bytes} (nothing : NoNumber input) : Pending accepted input
  | refused {input rest : Bytes} {number : Int32} (scanned : scanInt input = some (number, rest))
      (refused : accepted number = false) (pending : Pending accepted rest) : Pending accepted input

/-- The menu in front of its next question, with what is left of the input. -/
structure Session where
  menu : Menu
  input : Bytes

/-- One round of the loop, back to the menu without an order going out. -/
inductive Round (numProducts : Int32) : Session → Session → Prop
  | shown {menu : Menu} {input rest : Bytes} {option : Int32} (scanned : scanInt input = some (option, rest))
      (other : option ≠ 0 ∧ option ≠ 2 ∧ option ≠ 4) : Round numProducts ⟨menu, input⟩ ⟨menu, rest⟩
  | empty {menu : Menu} {input rest : Bytes} (scanned : scanInt input = some (4, rest))
      (nothing : orderGetNumEntries menu.order = 0) : Round numProducts ⟨menu, input⟩ ⟨menu, rest⟩
  | cancelled {menu : Menu} {input left rest : Bytes} (scanned : scanInt input = some (2, left))
      (chosen : chooseProduct numProducts left = some (0, rest)) :
      Round numProducts ⟨menu, input⟩ ⟨menu, rest⟩
  | added {menu changed : Menu} {input left behind rest : Bytes} {option : Int32}
      (scanned : scanInt input = some (2, left))
      (chosen : chooseProduct numProducts left = some (option, behind)) (some_product : option ≠ 0)
      (added : addToOrder (option.toInt.toNat - 1) menu.products menu.order behind =
        some (changed.products, changed.order, rest)) : Round numProducts ⟨menu, input⟩ ⟨changed, rest⟩

/-- The question for which there is no answer in the input. -/
inductive Waiting (numProducts : Int32) (menu : Menu) (input : Bytes) : Prop
  | option (nothing : NoNumber input)
  | product {left : Bytes} (scanned : scanInt input = some (2, left))
      (pending : Pending (fun option => !(option < 0 || numProducts < option)) left)
  | amount {left behind : Bytes} {option : Int32} {product : Product}
      (scanned : scanInt input = some (2, left))
      (chosen : chooseProduct numProducts left = some (option, behind)) (some_product : option ≠ 0)
      (shown : menu.products[option.toInt.toNat - 1]? = some product)
      (pending : Pending (fun num => !(num < 0 || product.stock < num)) behind)
  | address {left : Bytes} (scanned : scanInt input = some (4, left))
      (some_entries : orderGetNumEntries menu.order ≠ 0) (nothing : NoAddress left)

/-- An order of what was fetched, for an address that is accepted, and the same order for whoever
decodes what is sent. -/
structure Orders (fetched : List Product) (order : Order) (address : Bytes) : Prop where
  some_entries : order.items ≠ []
  distinct : (order.items.map OrderEntry.goods).Nodup
  amounts : ∀ entry ∈ order.items, ∃ product ∈ fetched, product.id = entry.productId ∧
    1 ≤ entry.quantity.toInt ∧ entry.quantity.toInt ≤ product.stock.toInt
  accepted : isAddress address
  decoded : ∃ bytes sent block, orderSerialize (orderSetAddress order address) = some bytes ∧
    orderUnserialize bytes = some sent ∧ sent.items = order.items ∧ sent.address = some block ∧
    cstring block = address

/-- Behind some rounds there is nothing to read, or the menu is left, or an order goes out. -/
inductive Proceeds (backend : Backend) (numProducts : Int32) (good : Order → Bytes → Prop) (start : Session) :
    ForkedProgram Unit → Prop
  | waits {menu : Menu} {input : Bytes} (rounds : ReflTransGen (Round numProducts) start ⟨menu, input⟩)
      (waiting : Waiting numProducts menu input) : Proceeds backend numProducts good start undefinedStep
  | leaves {menu : Menu} {input rest : Bytes} (rounds : ReflTransGen (Round numProducts) start ⟨menu, input⟩)
      (scanned : scanInt input = some (0, rest)) : Proceeds backend numProducts good start (.ret ())
  | submits {menu : Menu} {input left rest address : Bytes}
      (rounds : ReflTransGen (Round numProducts) start ⟨menu, input⟩)
      (scanned : scanInt input = some (4, left)) (read : Client.readAddress left = some (address, rest))
      (fine : good menu.order address) (next : Int32 × Order → ForkedProgram Unit) :
      Proceeds backend numProducts good start (Client.submitOrder backend menu.order address >>= next)

section

variable {backend : Backend} {numProducts : Int32} {good : Order → Bytes → Prop} {program : ForkedProgram Unit}

theorem Proceeds.behind {start later : Session} (round : Round numProducts start later)
    (proceeds : Proceeds backend numProducts good later program) :
    Proceeds backend numProducts good start program := by
  cases proceeds with
  | waits rounds waiting => exact .waits (.head round rounds) waiting
  | leaves rounds scanned => exact .leaves (.head round rounds) scanned
  | submits rounds scanned read fine next => exact .submits (.head round rounds) scanned read fine next

theorem Proceeds.mono {better : Order → Bytes → Prop} (improves : ∀ order address, good order address → better order address)
    {start : Session} (proceeds : Proceeds backend numProducts good start program) :
    Proceeds backend numProducts better start program := by
  cases proceeds with
  | waits rounds waiting => exact .waits rounds waiting
  | leaves rounds scanned => exact .leaves rounds scanned
  | submits rounds scanned read fine next => exact .submits rounds scanned read (improves _ _ fine) next

end

/-! What the loops make of the lines. -/

theorem scanIntRounds_blank {line : Bytes} (blank : line.dropWhile isspace = []) (rounds : Nat) (rest : Bytes) :
    scanIntRounds (rounds + 1) (line ++ newline :: rest) = scanIntRounds (rounds + 1) rest := by
  rw [scanIntRounds, scanf_blank blank, scanIntRounds]

theorem scanIntRounds_typed {line : Bytes} (clean : newline ∉ line) (typed : line.dropWhile isspace ≠ [])
    (rounds : Nat) (rest : Bytes) :
    scanIntRounds (rounds + 1) (line ++ newline :: rest) =
      (((scanf line).1.map fun number => (number, rest)).or (scanIntRounds rounds rest)) := by
  have plain : newline ∉ (scanf line).2 := fun member => clean ((scanf_suffix line).subset member)
  simp only [scanIntRounds, scanf_line typed, consumeRest_line plain, Option.bind_some]
  cases (scanf line).1 with
  | none => rfl
  | some number => rfl

theorem scanIntRounds_reads {rounds : Nat} {input : Bytes} (enough : input.length < rounds) :
    (¬∃ line ∈ completeLines newline input, Numbered line) ∧ scanIntRounds rounds input = none ∨
    ∃ line rest number, First newline Numbered input line rest ∧ (scanf line).1 = some number ∧
      scanIntRounds rounds input = some (number, rest) := by
  induction input using @lines_induction _ newline generalizing rounds with
  | tail line clean =>
      cases rounds with
      | zero => exact absurd enough (Nat.not_lt_zero _)
      | succ rounds =>
          have plain : newline ∉ (scanf line).2 := fun member => clean ((scanf_suffix line).subset member)
          rw [completeLines_tail clean]
          refine .inl ⟨by simp, ?_⟩
          simp only [scanIntRounds, consumeRest_tail plain, Option.bind_none]
  | line line rest clean ih =>
      rw [List.length_append, List.length_cons] at enough
      cases rounds with
      | zero => exact absurd enough (Nat.not_lt_zero _)
      | succ rounds =>
          by_cases numbered : Numbered line
          · obtain ⟨number, typed⟩ := Option.isSome_iff_exists.mp numbered
            refine .inr ⟨line, rest, number, first_line clean numbered rest, typed, ?_⟩
            rw [scanIntRounds_typed clean (numbered_typed numbered), typed]
            rfl
          · have goes_on : ∃ fewer, rest.length < fewer ∧
                scanIntRounds (rounds + 1) (line ++ newline :: rest) = scanIntRounds fewer rest := by
              by_cases blank : line.dropWhile isspace = []
              · exact ⟨rounds + 1, by omega, scanIntRounds_blank blank rounds rest⟩
              · have nothing : (scanf line).1 = none := Option.not_isSome_iff_eq_none.mp numbered
                refine ⟨rounds, by omega, ?_⟩
                rw [scanIntRounds_typed clean blank, nothing]
                rfl
            obtain ⟨fewer, left, same⟩ := goes_on
            rw [same, completeLines_line clean]
            rcases ih left with ⟨nowhere, none⟩ | ⟨found, behind, number, first, typed, scanned⟩
            · refine .inl ⟨?_, none⟩
              rintro ⟨other, member, here⟩
              rcases List.mem_cons.mp member with rfl | later
              · exact numbered here
              · exact nowhere ⟨other, later, here⟩
            · exact .inr ⟨found, behind, number, first.behind clean numbered, typed, scanned⟩

theorem readAddressRounds_reads {rounds : Nat} {input : Bytes} (enough : input.length < rounds) :
    (¬∃ line ∈ completeLines newline input, Accepted line) ∧ Client.readAddressRounds rounds input = none ∨
    ∃ line rest, First newline Accepted input line rest ∧
      Client.readAddressRounds rounds input = some (line, rest) := by
  induction input using @lines_induction _ newline generalizing rounds with
  | tail line clean =>
      cases rounds with
      | zero => exact absurd enough (Nat.not_lt_zero _)
      | succ rounds =>
          obtain ⟨text, unread, entered, plain⟩ := @enterAddress_tail line 1023 clean
          rw [completeLines_tail clean]
          refine .inl ⟨by simp, ?_⟩
          simp only [Client.readAddressRounds, entered, Bool.false_eq_true, ↓reduceIte,
            consumeRest_tail plain, Option.bind_none]
  | line line rest clean ih =>
      rw [List.length_append, List.length_cons] at enough
      cases rounds with
      | zero => exact absurd enough (Nat.not_lt_zero _)
      | succ rounds =>
          by_cases accepted : Accepted line
          · have entered := @enterAddress_line 1023 line (Nat.succ_le_succ accepted.1) accepted.2 rest
            refine .inr ⟨line, rest, first_line clean accepted rest, ?_⟩
            simp only [Client.readAddressRounds, entered, ↓reduceIte]
          · have other : ¬(AddressText line ∧ line.length + 1 ≤ 1023) := by
              rintro ⟨letters, short⟩
              exact accepted ⟨Nat.le_of_succ_le_succ short, letters⟩
            obtain ⟨text, unread, entered, plain⟩ := enterAddress_rejected clean other rest
            have goes_on : Client.readAddressRounds (rounds + 1) (line ++ newline :: rest) =
                Client.readAddressRounds rounds rest := by
              simp only [Client.readAddressRounds, entered, Bool.false_eq_true, ↓reduceIte,
                consumeRest_line plain, Option.bind_some]
            have left : rest.length < rounds := by omega
            rw [goes_on, completeLines_line clean]
            rcases ih left with ⟨nowhere, none⟩ | ⟨found, behind, first, read⟩
            · refine .inl ⟨?_, none⟩
              rintro ⟨one, member, here⟩
              rcases List.mem_cons.mp member with rfl | later
              · exact accepted here
              · exact nowhere ⟨one, later, here⟩
            · exact .inr ⟨found, behind, first.behind clean accepted, read⟩

theorem scanInt_reads (input : Bytes) : NoNumber input ∧ scanInt input = none ∨
    ∃ number rest, scanInt input = some (number, rest) := by
  rcases @scanIntRounds_reads _ input (Nat.lt_succ_self _) with
    ⟨nowhere, none⟩ | ⟨line, rest, number, first, typed, scanned⟩
  · refine .inl ⟨.unread (mt (returns_iff input).mp nowhere), ?_⟩
    rw [scanInt, none]
    rfl
  · cases fits : asInt number with
    | none =>
        refine .inl ⟨.outside first typed fits, ?_⟩
        simp only [scanInt, scanned, Option.bind_some, fits, Option.map_none]
    | some result =>
        refine .inr ⟨result, rest, ?_⟩
        simp only [scanInt, scanned, Option.bind_some, fits, Option.map_some]

theorem askRounds_reads {accepted : Int32 → Bool} {rounds : Nat} {input : Bytes} (enough : input.length < rounds) :
    Pending accepted input ∧ askRounds accepted rounds input = none ∨
    ∃ number rest, accepted number = true ∧ askRounds accepted rounds input = some (number, rest) := by
  induction rounds generalizing input with
  | zero => exact absurd enough (Nat.not_lt_zero _)
  | succ rounds ih =>
      rw [askRounds]
      rcases scanInt_reads input with ⟨nothing, none⟩ | ⟨number, rest, scanned⟩
      · rw [none]
        exact .inl ⟨.unread nothing, rfl⟩
      · have shorter := scanInt_shorter scanned
        rw [scanned, Option.bind_some]
        dsimp only
        by_cases good : accepted number = true
        · rw [if_pos good]
          exact .inr ⟨number, rest, good, rfl⟩
        · have left : rest.length < rounds := by omega
          rw [if_neg good]
          rcases ih left with ⟨pending, none⟩ | found
          · exact .inl ⟨.refused scanned (Bool.eq_false_iff.mpr good) pending, none⟩
          · exact .inr found

theorem ask_reads (accepted : Int32 → Bool) (input : Bytes) :
    Pending accepted input ∧ ask accepted input = none ∨
    ∃ number rest, accepted number = true ∧ ask accepted input = some (number, rest) :=
  askRounds_reads (Nat.lt_succ_self _)

theorem readAddress_reads (input : Bytes) : NoAddress input ∧ Client.readAddress input = none ∨
    ∃ line rest, First newline Accepted input line rest ∧ Client.readAddress input = some (line, rest) := by
  rcases @readAddressRounds_reads _ input (Nat.lt_succ_self _) with ⟨nowhere, none⟩ | found
  · exact .inl ⟨fun array c => mt (enters_iff array c input).mp nowhere, none⟩
  · exact .inr found

/-! What is in the order. -/

theorem accepted_isAddress {line : Bytes} (accepted : Accepted line) : isAddress line := by
  refine ⟨?_, Nat.lt_succ_of_le accepted.1⟩
  intro byte member
  exact accepted.2 byte member

/-- Nothing but what was fetched. -/
structure Filled (fetched : List Product) (menu : Menu) : Prop where
  sound : menu.Sound fetched
  others : ∀ id : Int32, id ∉ fetched.map Product.id → ordered id.toInt menu.order.items = 0

section

variable {fetched products : List Product} {order : Order}

theorem filled_new (fetched : List Product) : Filled fetched ⟨fetched, orderNew⟩ :=
  ⟨⟨orderNew_wellFormed, orderNew_positive, rfl, .refl⟩, fun _ _ => rfl⟩

theorem addToOrder_fills (filled : Filled fetched ⟨products, order⟩)
    (distinct : (fetched.map Product.id).Nodup) (nonneg : ∀ product ∈ fetched, 0 ≤ product.stock.toInt)
    {index : Nat} {product : Product} (shown : products[index]? = some product) {num : Int32}
    (chosen : Client.chooseAmount product.stock [num] = some num) :
    ∃ changed filling, Client.addToOrder index products order [num] = some (changed, filling) ∧
      Filled fetched ⟨changed, filling⟩ := by
  obtain ⟨changed, filling, added, changes, _⟩ := filled.sound.call nonneg shown chosen
  have adds : Menu.Adds ⟨products, order⟩ ⟨changed, filling⟩ := ⟨index, [num], added⟩
  refine ⟨changed, filling, added, adds.sound filled.sound nonneg distinct, ?_⟩
  intro id absent
  cases changes with
  | unchanged => exact filled.others id absent
  | taken _ extended =>
      have present : product.id ∈ fetched.map Product.id := by
        rw [← filled.sound.ids]
        exact List.mem_map_of_mem (List.mem_of_getElem? shown)
      have other : product.id ≠ id := fun same => absent (same ▸ present)
      rw [extended.ordered, filled.others id absent, if_neg other]
      rfl

theorem filled_amounts (filled : Filled fetched ⟨products, order⟩)
    (nonneg : ∀ product ∈ fetched, 0 ≤ product.stock.toInt) {entry : OrderEntry} (member : entry ∈ order.items) :
    ∃ product ∈ fetched, product.id = entry.productId ∧
      1 ≤ entry.quantity.toInt ∧ entry.quantity.toInt ≤ product.stock.toInt := by
  have amount := ordered_entry filled.sound.formed.distinct member
  have some_units := filled.sound.positive entry member
  have present : entry.productId ∈ fetched.map Product.id := by
    by_contra absent
    have nothing := filled.others _ absent
    omega
  obtain ⟨index, inside, here⟩ := List.getElem_of_mem present
  rw [List.length_map] at inside
  rw [List.getElem_map] at here
  have balanced := filled.sound.balanced nonneg
  have shown : index < products.length := by
    rw [balanced.size]
    exact inside
  obtain ⟨_, total, _, left⟩ := balanced.balance index products[index] fetched[index]
    (List.getElem?_eq_getElem shown) (List.getElem?_eq_getElem inside)
  rw [here, amount] at total
  refine ⟨fetched[index], List.getElem_mem inside, here, some_units, ?_⟩
  omega

theorem filled_orders (filled : Filled fetched ⟨products, order⟩)
    (nonneg : ∀ product ∈ fetched, 0 ≤ product.stock.toInt) (some_entries : orderGetNumEntries order ≠ 0)
    {address : Bytes} (accepted : Accepted address) : Orders fetched order address := by
  have clean := addressText_clean accepted.2
  have codable : (orderSetAddress order address).Codable := by
    refine ⟨filled.sound.formed.numbered, ?_⟩
    rintro block ⟨⟩
    have short := accepted.1
    rw [cstring_eq_self clean, cstring_append_nul clean]
    exact ⟨by simp [Terminated], by omega⟩
  obtain ⟨bytes, encoded⟩ := orderSerialize_codable codable
  obtain ⟨sent, decoded, same, _⟩ := orderUnserialize_encoded encoded []
  rw [List.append_nil] at decoded
  have string : sent.address.map cstring = some (cstring (cstring address ++ [0])) := same.address
  obtain ⟨block, present, text⟩ := Option.map_eq_some_iff.mp string
  rw [cstring_eq_self clean, cstring_append_nul clean] at text
  exact ⟨submitted_items some_entries encoded, goods_nodup filled.sound.formed.distinct,
    fun entry member => filled_amounts filled nonneg member, accepted_isAddress accepted,
    bytes, sent, block, encoded, decoded, same.items, present, text⟩

theorem chosen_shown {numProducts option : Int32} (counted : products.length = numProducts.toInt.toNat)
    (accepted : (!(option < 0 || numProducts < option)) = true) (some_product : ¬option = 0) :
    ∃ product, products[option.toInt.toNat - 1]? = some product := by
  simp only [Bool.not_eq_true', Bool.or_eq_false_iff, decide_eq_false_iff_not, Int32.lt_iff_toInt_lt,
    Int32.toInt_zero] at accepted
  have positive : option.toInt ≠ 0 := fun zero => some_product (Int32.toInt_inj.mp zero)
  have inside : option.toInt.toNat - 1 < products.length := by omega
  exact ⟨_, List.getElem?_eq_getElem inside⟩

theorem addToOrder_reads (filled : Filled fetched ⟨products, order⟩)
    (distinct : (fetched.map Product.id).Nodup) (nonneg : ∀ product ∈ fetched, 0 ≤ product.stock.toInt)
    {index : Nat} {product : Product} (shown : products[index]? = some product) (input : Bytes) :
    Pending (fun num => !(num < 0 || product.stock < num)) input ∧ addToOrder index products order input = none ∨
    ∃ changed filling rest, Filled fetched ⟨changed, filling⟩ ∧
      addToOrder index products order input = some (changed, filling, rest) := by
  rw [addToOrder, shown, Option.bind_some]
  rcases ask_reads (fun num => !(num < 0 || product.stock < num)) input with
    ⟨pending, none⟩ | ⟨num, rest, accepted, asked⟩
  · rw [none]
    exact .inl ⟨pending, rfl⟩
  · have chosen : Client.chooseAmount product.stock [num] = some num := by
      simpa [Client.chooseAmount] using accepted
    obtain ⟨changed, filling, added, fills⟩ := addToOrder_fills filled distinct nonneg shown chosen
    simp only [asked, Option.bind_some, added, Option.map_some]
    exact .inr ⟨changed, filling, rest, fills, rfl⟩

/-- By the rounds of the loop: before an order goes out, a round leaves a menu that is filled and
less to read. -/
theorem menuRounds_proceeds (backend : Backend) {numProducts : Int32}
    (counted : fetched.length = numProducts.toInt.toNat) (distinct : (fetched.map Product.id).Nodup)
    (nonneg : ∀ product ∈ fetched, 0 ≤ product.stock.toInt) {rounds : Nat} {input : Bytes}
    (enough : input.length < rounds) (filled : Filled fetched ⟨products, order⟩) :
    Proceeds backend numProducts (Orders fetched) ⟨⟨products, order⟩, input⟩
      (menuRounds backend numProducts rounds products order input) := by
  induction rounds generalizing products order input with
  | zero => exact absurd enough (Nat.not_lt_zero _)
  | succ rounds ih =>
      rw [menuRounds]
      rcases scanInt_reads input with ⟨nothing, none⟩ | ⟨option, left, scanned⟩
      · rw [none]
        exact .waits .refl (.option nothing)
      · have shorter := scanInt_shorter scanned
        rw [scanned]
        dsimp only
        by_cases adds : option = 2
        · subst adds
          rw [if_pos rfl]
          rcases ask_reads (fun option => !(option < 0 || numProducts < option)) left with
            ⟨pending, none⟩ | ⟨chosen, later, accepted, asked⟩
          · rw [chooseProduct, none]
            exact .waits .refl (.product scanned pending)
          · have less := askRounds_shorter asked
            have picked : chooseProduct numProducts left = some (chosen, later) := asked
            rw [picked]
            dsimp only
            by_cases cancel : chosen = 0
            · subst cancel
              rw [if_pos rfl]
              exact (ih (by omega) filled).behind (.cancelled scanned picked)
            · have size := (filled.sound.balanced nonneg).size.trans counted
              obtain ⟨product, shown⟩ := chosen_shown size accepted cancel
              rw [if_neg cancel]
              rcases addToOrder_reads filled distinct nonneg shown later with
                ⟨pending, none⟩ | ⟨changed, filling, rest, fills, added⟩
              · rw [none]
                exact .waits .refl (.amount scanned picked cancel shown pending)
              · have fewer := addToOrder_shorter added
                rw [added]
                exact (ih (by omega) fills).behind (@Round.added _ _ ⟨changed, filling⟩ _ _ _ _ _ scanned picked
                  cancel added)
        · rw [if_neg adds]
          by_cases submits : option = 4
          · subst submits
            rw [if_pos rfl]
            by_cases empty : orderGetNumEntries order = 0
            · rw [if_pos empty]
              exact (ih (by omega) filled).behind (.empty scanned empty)
            · rw [if_neg empty]
              rcases readAddress_reads left with ⟨nothing, none⟩ | ⟨line, rest, first, read⟩
              · rw [none]
                exact .waits .refl (.address scanned empty nothing)
              · have orders := filled_orders filled nonneg empty first.accepted
                rw [read]
                exact @Proceeds.submits backend numProducts _ _ ⟨products, order⟩ _ _ _ _ .refl scanned read orders _
          · rw [if_neg submits]
            by_cases leaves : option = 0
            · subst leaves
              rw [if_pos rfl]
              exact .leaves .refl scanned
            · rw [if_neg leaves]
              exact (ih (by omega) filled).behind (.shown scanned ⟨leaves, adds, submits⟩)

/-- Whatever is typed: no product outside the array is chosen and no `int` overflows, so nothing but a question
without an answer stops the menu before it is left or an order goes out, which is for products that are
shown, of which that much is there. -/
theorem menu_proceeds (backend : Backend) {numProducts : Int32}
    (counted : fetched.length = numProducts.toInt.toNat) (distinct : (fetched.map Product.id).Nodup)
    (nonneg : ∀ product ∈ fetched, 0 ≤ product.stock.toInt) (input : Bytes) :
    Proceeds backend numProducts (Orders fetched) ⟨⟨fetched, orderNew⟩, input⟩
      (menu backend numProducts fetched orderNew input) :=
  menuRounds_proceeds backend counted distinct nonneg (Nat.lt_succ_self _) (filled_new fetched)

end

/-- Two bottles of the first product for Madero 399, after a product that does not exist. -/
theorem menu_proceeds_shelf : Proceeds .sockets (Int32.ofNat shelf.length) (Orders shelf)
    ⟨⟨shelf, orderNew⟩, ascii "2\n99\n1\n2\n4\nMadero 399\n"⟩
    (menu .sockets (Int32.ofNat shelf.length) shelf orderNew (ascii "2\n99\n1\n2\n4\nMadero 399\n")) :=
  menu_proceeds .sockets (by decide +kernel) (by decide +kernel) (by decide +kernel) _

end Iac.Keyboard
