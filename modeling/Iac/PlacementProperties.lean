import Iac.Placement

/-! What a single request to place an order does and does not guarantee. -/

namespace Iac

open CText Sql Binary32 Depot

/-! A server on its first request, without any failure from outside. -/

def Rowids.next : Rowids where
  rowid ids := min (ids.foldl max 0 + 1) (2 ^ 63 - 1)
  positive ids := by
    have least : ∀ (ids : List Int) (start : Int), start ≤ ids.foldl max start := by
      intro ids
      induction ids with
      | nil =>
          intro start
          exact Int.le_refl start
      | cons id rest ih =>
          intro start
          exact le_trans (le_max_left start id) (ih (max start id))
    have bound := least ids 0
    omega
  bounded ids := by omega

def Sqlite.next : Sqlite := Rowids.next.sqlite

def calm : Circumstances where
  sqlite := .next
  refuses _ := false
  timestamp := 1478000000
  leftover _ := 0
  stack := List.replicate 1024 0
  stackSize := List.length_replicate

def requestBytes (address : Bytes) (items : List OrderEntry) : Bytes :=
  sizeBytes (address.length + 1) ++ address ++ [0] ++ intBytes (Int32.ofNat items.length) ++
    items.flatMap entryBytes

def vodka (quantity : Int32) : OrderEntry := ⟨1, quantity, 0x41F40000⟩

def vodkaOrder (address : Bytes) (quantity : Int32) : Order where
  address := some (address ++ [0])
  numEntries := 1
  items := [vodka quantity]
  counted := (by decide : 1 = (1 : Int32).toInt.toNat)
  fits := (by decide : 1 ≤ orderMaxSize)

theorem vodka_decoded : orderUnserialize (requestBytes (ascii "Madero 399") [vodka 40]) =
    some (vodkaOrder (ascii "Madero 399") 40) := by decide +kernel

def Database.SameTables (left right : Database) : Prop :=
  left.products = right.products ∧ left.orders = right.orders ∧ left.orderEntry = right.orderEntry

instance (left right : Database) : Decidable (left.SameTables right) :=
  inferInstanceAs (Decidable (_ ∧ _ ∧ _))

theorem Database.SameTables.refl (db : Database) : db.SameTables db := ⟨rfl, rfl, rfl⟩

/-- Between what an order asks for and what is taken only negative quantities differ. -/
theorem taken_eq_ordered_iff (productId : Int) (items : List OrderEntry) :
    ordered productId items = taken productId items ↔
      ∀ entry ∈ items, entry.goods = productId → 0 ≤ entry.quantity.toInt := by
  have more : ∀ entry ∈ items, entry.goods = productId → entry.quantity.toInt ≤ entry.takes := by
    intro entry _ _
    exact le_max_right _ _
  rw [ordered, taken, tally_eq_iff _ _ _ more]
  constructor
  · intro same entry member named
    rw [same entry member named]
    exact le_max_left _ _
  · intro nonnegative entry member named
    exact (max_eq_right (nonnegative entry member named)).symm

/-- The stock that is read for an entry of a product in the table. -/
def stockSeen (c : Circumstances) (db : Database) (entry : OrderEntry) (i : Nat) : Int :=
  if c.refuses (.stock i) then -1 else (storeSingleNumber (db.stock entry.goods)).toInt

/-- The entry asks for more than is read: for something where the query is refused, for more than the stock,
or for more than its low 32 bits where it is wider than an `int`. -/
def Short (c : Circumstances) (db : Database) (item : OrderEntry × Nat) : Prop :=
  if c.refuses (.stock item.2) then 0 ≤ item.1.quantity.toInt
  else if db.stock item.1.goods < 2 ^ 31 then db.stock item.1.goods < item.1.quantity.toInt
  else (storeSingleNumber (db.stock item.1.goods)).toInt < item.1.quantity.toInt

theorem short_iff {c : Circumstances} {db : Database} {item : OrderEntry × Nat} :
    Short c db item ↔ stockSeen c db item.1 item.2 < item.1.quantity.toInt := by
  have stock := db.stock_nonnegative item.1.goods
  unfold Short stockSeen
  split
  · omega
  · split
    · rename_i small
      rw [storeSingleNumber_eq stock small]
    · rfl

instance (c : Circumstances) (db : Database) (item : OrderEntry × Nat) : Decidable (Short c db item) :=
  decidable_of_iff _ short_iff.symm

/-- The entries of an order for one product, each with its place. -/
def entriesFor (productId : Int) (items : List OrderEntry) : List (OrderEntry × Nat) :=
  items.zipIdx.filter fun item => item.1.goods = productId

/-- A product named more than once, by entries that together come to more than its stock: the quantities
of those that are not short, and for each short one what is read, which is `-1` after a refused query. -/
structure Overdrawn (c : Circumstances) (db : Database) (items : List OrderEntry) (productId : Int) : Prop where
  repeated : 2 ≤ (entriesFor productId items).length
  beyond : db.stock productId <
    (((entriesFor productId items).filter fun item => ¬Short c db item).map
        fun item => item.1.quantity.toInt).sum +
      (entriesFor productId items).countP (fun item => Short c db item ∧ c.refuses (.stock item.2) = false) *
        (storeSingleNumber (db.stock productId)).toInt -
      (entriesFor productId items).countP (fun item => Short c db item ∧ c.refuses (.stock item.2) = true)

/-- What the comment on `verifyOrderStock` promises. -/
structure SoundVerification (c : Circumstances) (o : Order) (db : Database) : Prop where
  accepts : (verifyOrderStock c o db).1 = true →
    o.address ≠ none ∧ ∀ productId ∈ db.ids, ordered productId o.items ≤ db.stock productId
  reduces : (verifyOrderStock c o db).1 = false →
    ∀ productId ∈ db.ids,
      ordered productId (verifyOrderStock c o db).2.items ≤ db.stock productId

theorem getStock_seen {c : Circumstances} {db : Database} {entry : OrderEntry}
    (known : entry.goods ∈ db.ids) (i : Nat) :
    (getStock c i entry.productId db).toInt = stockSeen c db entry i := by
  rw [getStock_eq, stockSeen]
  split
  · rfl
  · rw [OrderEntry.goods] at known
    rw [if_pos known, OrderEntry.goods]

theorem covered_iff {c : Circumstances} {db : Database} {i : Nat} {items : List OrderEntry}
    (known : ∀ entry ∈ items, entry.goods ∈ db.ids) :
    Covered c db i items ↔
      ∀ item ∈ items.zipIdx i, item.1.quantity.toInt ≤ stockSeen c db item.1 item.2 := by
  induction items generalizing i with
  | nil => simp [Covered]
  | cons entry rest ih =>
      simp only [List.forall_mem_cons] at known
      rw [List.zipIdx_cons, List.forall_mem_cons, Covered, getStock_seen known.1, ih known.2]

theorem ordered_limited {c : Circumstances} {db : Database} {i : Nat} {items : List OrderEntry}
    (known : ∀ entry ∈ items, entry.goods ∈ db.ids) (productId : Int) :
    ordered productId (limited c db i items) =
      tally (fun item : OrderEntry × Nat => item.1.goods)
        (fun item => min item.1.quantity.toInt (stockSeen c db item.1 item.2)) productId
        (items.zipIdx i) := by
  induction items generalizing i with
  | nil => rfl
  | cons entry rest ih =>
      simp only [List.forall_mem_cons] at known
      have tail := @ih (i + 1) known.2
      simp only [ordered] at tail
      simp only [ordered, limited, tally, List.zipIdx_cons, OrderEntry.limit_goods,
        OrderEntry.limit_quantity, getStock_seen known.1, tail]

/-! The sum that is left for a product, in terms of the order and the tables. -/

/-- The sum of an order's entries for a product, each limited to what is read. -/
def satisfiable (c : Circumstances) (db : Database) (productId : Int) (asks : List (OrderEntry × Nat)) : Int :=
  tally (fun item : OrderEntry × Nat => item.1.goods)
    (fun item => min item.1.quantity.toInt (stockSeen c db item.1 item.2)) productId asks

theorem stockSeen_le (c : Circumstances) (db : Database) (entry : OrderEntry) (i : Nat) :
    stockSeen c db entry i ≤ db.stock entry.goods := by
  have stock := db.stock_nonnegative entry.goods
  unfold stockSeen
  split
  · omega
  · exact storeSingleNumber_le stock

theorem satisfiable_eq (c : Circumstances) (db : Database) (productId : Int) (asks : List (OrderEntry × Nat)) :
    satisfiable c db productId asks =
      (((asks.filter fun item => item.1.goods = productId).filter fun item => ¬Short c db item).map
          fun item => item.1.quantity.toInt).sum +
        (asks.filter fun item => item.1.goods = productId).countP
            (fun item => Short c db item ∧ c.refuses (.stock item.2) = false) *
          (storeSingleNumber (db.stock productId)).toInt -
        (asks.filter fun item => item.1.goods = productId).countP
          (fun item => Short c db item ∧ c.refuses (.stock item.2) = true) := by
  induction asks with
  | nil => simp [satisfiable, tally]
  | cons item rest ih =>
      unfold satisfiable at ih ⊢
      rw [tally, ih]
      by_cases named : item.1.goods = productId
      · subst named
        by_cases short : Short c db item
        · have seen := short_iff.mp short
          rw [min_eq_right (le_of_lt seen), stockSeen]
          cases refused : c.refuses (.stock item.2) with
          | true =>
              simp [short, refused]
              omega
          | false =>
              simp [short, refused, Int.add_mul]
              omega
        · have within := not_lt.mp (mt short_iff.mpr short)
          rw [min_eq_left within]
          simp [short]
          omega
      · simp [named]

theorem satisfiable_single {c : Circumstances} {db : Database} {productId : Int}
    {asks : List (OrderEntry × Nat)} (single : (asks.filter fun item => item.1.goods = productId).length ≤ 1) :
    satisfiable c db productId asks ≤ db.stock productId := by
  induction asks with
  | nil => exact db.stock_nonnegative productId
  | cons item rest ih =>
      unfold satisfiable at ih ⊢
      rw [tally]
      by_cases named : item.1.goods = productId
      · have others : rest.filter (fun item => item.1.goods = productId) = [] := by
          simpa [named] using single
        rw [tally_absent, if_pos named, Int.add_zero, ← named]
        · exact le_trans (min_le_right _ _) (stockSeen_le c db item.1 item.2)
        · intro other member same
          exact List.filter_eq_nil_iff.mp others other member (decide_eq_true same)
      · rw [if_neg named, Int.zero_add]
        exact ih (by simpa [named] using single)

theorem not_overdrawn_iff {c : Circumstances} {db : Database} {items : List OrderEntry} {productId : Int} :
    ¬Overdrawn c db items productId ↔ satisfiable c db productId items.zipIdx ≤ db.stock productId := by
  constructor
  · intro kept
    by_contra beyond
    refine kept ⟨?_, ?_⟩
    · by_contra few
      exact beyond (satisfiable_single (Nat.le_of_lt_succ (not_le.mp few)))
    · rw [satisfiable_eq] at beyond
      exact not_le.mp beyond
  · intro kept overdrawn
    rw [satisfiable_eq] at kept
    exact absurd overdrawn.beyond (not_lt.mpr kept)

theorem satisfiable_plain {c : Circumstances} {db : Database} {items : List OrderEntry}
    (answers : ∀ i, c.refuses (.stock i) = false) (small : ∀ entry ∈ items, db.stock entry.goods < 2 ^ 31)
    (productId : Int) (i : Nat) :
    satisfiable c db productId (items.zipIdx i) =
      tally OrderEntry.goods (fun entry => min entry.quantity.toInt (db.stock productId)) productId items := by
  induction items generalizing i with
  | nil => rfl
  | cons entry rest ih =>
      simp only [List.forall_mem_cons] at small
      have tail := ih small.2 (i + 1)
      unfold satisfiable at tail ⊢
      rw [List.zipIdx_cons, tally, tally, tail]
      split
      · rename_i named
        rw [stockSeen, answers i, if_neg (by decide), storeSingleNumber_eq (db.stock_nonnegative _) small.1,
          ← named]
      · rfl

theorem sound_iff_satisfiable {c : Circumstances} {o : Order} {db : Database}
    (known : ∀ entry ∈ o.items, entry.goods ∈ db.ids) :
    SoundVerification c o db ↔
      (o.address ≠ none ∨ ∃ item ∈ o.items.zipIdx, Short c db item) ∧
      ∀ productId ∈ db.ids, satisfiable c db productId o.items.zipIdx ≤ db.stock productId := by
  obtain ⟨verified, entries, -⟩ := verifyOrderStock_spec c o db
  have sums := fun productId => @ordered_limited c db 0 _ known productId
  by_cases covered : Covered c db 0 o.items
  · have unchanged := limited_of_covered covered
    rw [unchanged] at sums
    have accepted := verified.mpr covered
    constructor
    · intro sound
      obtain ⟨present, enough⟩ := sound.accepts accepted
      refine ⟨.inl present, ?_⟩
      intro productId member
      rw [satisfiable, ← sums]
      exact enough productId member
    · rintro ⟨present, enough⟩
      constructor
      · intro _
        constructor
        · rcases present with address | ⟨item, member, short⟩
          · exact address
          · have bound := (covered_iff known).mp covered item member
            exact absurd (short_iff.mp short) (not_lt.mpr bound)
        · intro productId member
          rw [sums]
          exact enough productId member
      · intro rejected
        rw [accepted] at rejected
        contradiction
  · have rejected : (verifyOrderStock c o db).1 = false := by
      rw [← Bool.not_eq_true, verified]
      exact covered
    constructor
    · intro sound
      constructor
      · right
        by_contra none_short
        apply covered
        rw [covered_iff known]
        intro item member
        by_contra beyond
        exact none_short ⟨item, member, short_iff.mpr (not_le.mp beyond)⟩
      · intro productId member
        rw [satisfiable, ← sums, ← entries]
        exact sound.reduces rejected productId member
    · rintro ⟨-, enough⟩
      constructor
      · intro accepted
        rw [rejected] at accepted
        contradiction
      · intro _ productId member
        rw [entries, sums]
        exact enough productId member

/-- Where the stock queries are answered and the stocks fit an `int`, an entry is short exactly if it asks for
more than there is. -/
theorem short_plain {c : Circumstances} {db : Database} {items : List OrderEntry}
    (answers : ∀ i, c.refuses (.stock i) = false) (small : ∀ entry ∈ items, db.stock entry.goods < 2 ^ 31) :
    (∃ item ∈ items.zipIdx, Short c db item) ↔
      ∃ entry ∈ items, db.stock entry.goods < entry.quantity.toInt := by
  constructor
  · rintro ⟨⟨entry, i⟩, member, short⟩
    have listed := List.fst_mem_of_mem_zipIdx member
    rw [Short, answers, if_neg (by decide), if_pos (small entry listed)] at short
    exact ⟨entry, listed, short⟩
  · rintro ⟨entry, member, short⟩
    obtain ⟨i, _, located⟩ := List.mem_iff_getElem.mp member
    refine ⟨(entry, i), List.mem_zipIdx_iff_getElem?.mpr (by simp [← located]), ?_⟩
    rw [Short, answers, if_neg (by decide), if_pos (small entry member)]
    exact short

/-- For which orders verification keeps its promise; and what that means where the stock queries are answered,
the stocks fit an `int` and the quantities are not negative. -/
theorem verifyOrderStock_sound_iff {c : Circumstances} {o : Order} {db : Database}
    (known : ∀ entry ∈ o.items, entry.goods ∈ db.ids) :
    (SoundVerification c o db ↔
        (o.address ≠ none ∨ ∃ item ∈ o.items.zipIdx, Short c db item) ∧
        ∀ productId ∈ db.ids, ¬Overdrawn c db o.items productId) ∧
      ((∀ i, c.refuses (.stock i) = false) →
        (∀ entry ∈ o.items, db.stock entry.goods < 2 ^ 31 ∧ 0 ≤ entry.quantity.toInt) →
        (SoundVerification c o db ↔
          (o.address ≠ none ∨ ∃ entry ∈ o.items, db.stock entry.goods < entry.quantity.toInt) ∧
          ∀ productId ∈ db.ids, db.stock productId = 0 ∨
            asking OrderEntry.goods (fun entry => entry.quantity.toInt) productId o.items ≤ 1 ∨
            ordered productId o.items ≤ db.stock productId)) := by
  rw [sound_iff_satisfiable known]
  constructor
  · simp only [not_overdrawn_iff]
  · intro answers plain
    have small := fun entry member => (plain entry member).1
    rw [short_plain answers small]
    refine and_congr_right fun _ => forall₂_congr fun productId _ => ?_
    rw [satisfiable_plain answers small]
    have stock := db.stock_nonnegative productId
    have nonnegative : ∀ entry ∈ o.items, entry.goods = productId → 0 ≤ entry.quantity.toInt :=
      fun entry member _ => (plain entry member).2
    rcases Int.le_iff_lt_or_eq.mp stock with stocked | nothing
    · rw [tally_capped_iff _ _ _ stocked nonnegative]
      simp [stocked.ne', ordered]
    · rw [← nothing, tally_zero]
      · simp
      · intro entry member named
        exact min_eq_right (nonnegative entry member named)

theorem verifyOrderStock_sound_vodka :
    SoundVerification calm (vodkaOrder (ascii "Madero 399") 70) init := by
  have known : ∀ entry ∈ (vodkaOrder (ascii "Madero 399") 70).items, entry.goods ∈ init.ids := by
    decide +kernel
  refine (verifyOrderStock_sound_iff known).1.mpr ⟨.inl (by decide), ?_⟩
  rintro productId _ ⟨repeated, _⟩
  have once : (entriesFor productId (vodkaOrder (ascii "Madero 399") 70).items).length ≤ 1 :=
    List.length_filter_le _ _
  omega

/-- Each of two entries for one product is within the stock, so the order is verified. -/
theorem verifyOrderStock_repeated :
    ∃ order, orderUnserialize (requestBytes (ascii "Madero 399") [vodka 40, vodka 40]) = some order ∧
      (∀ entry ∈ order.items, entry.goods ∈ init.ids) ∧ ¬SoundVerification calm order init := by
  have computed : (orderUnserialize (requestBytes (ascii "Madero 399") [vodka 40, vodka 40])).any
      (fun order => (∀ entry ∈ order.items, entry.goods ∈ init.ids) ∧
        (verifyOrderStock calm order init).1 = true ∧
        ¬ordered 1 order.items ≤ init.stock 1) = true := by
    decide +kernel
  obtain ⟨order, decoded, facts⟩ := (Option.any_eq_true _ _).mp computed
  simp only [decide_eq_true_eq] at facts
  obtain ⟨known, verified, short⟩ := facts
  refine ⟨order, decoded, known, ?_⟩
  intro sound
  exact short ((sound.accepts verified).2 1 (by decide))

/-! The address as a literal. -/

/-- The text is one `INSERT INTO orders` with three values, the second being the address. -/
def StoresAddress (text address : Bytes) : Prop :=
  ∃ columns first last,
    parse text = [some (.insert ordersTable columns [first, .text address, last])]

theorem orderStatement_address_iff {c : Circumstances} {o : Order} {block query : Bytes}
    (address : o.address = some block) (handed : orderStatement c o = some query) :
    StoresAddress (cstring query) (cstring block) ↔
      doubleQuote ∉ cstring block ∧ TotalExact (orderGetTotal o) ∧ TimeExact c.timestamp := by
  have text := orderQuery_text (cstring_no_nul block) (orderStatement_eq_some address handed).2
  rw [text]
  constructor
  · rintro ⟨columns, first, last, parsed⟩
    exact orderText_literal parsed
  · rintro ⟨clean, total, time⟩
    refine ⟨ordersColumns, totalValue (orderGetTotal o), .integer c.timestamp, ?_⟩
    rw [orderText_parse clean, if_pos ⟨total, time⟩]

theorem orderStatement_address_vodka :
    ∃ query, orderStatement calm (vodkaOrder (ascii "Madero 399") 40) = some query ∧
      StoresAddress (cstring query) (cstring (ascii "Madero 399" ++ [0])) := by
  have computed : (orderStatement calm (vodkaOrder (ascii "Madero 399") 40)).isSome := by
    decide +kernel
  obtain ⟨query, handed⟩ := Option.isSome_iff_exists.mp computed
  refine ⟨query, handed, (orderStatement_address_iff rfl handed).mpr ⟨?_, ?_, ?_⟩⟩
  · decide
  · decide +kernel
  · decide +kernel

def injection : Bytes := ascii "x\",0);DELETE FROM products;--"

/-- An address with a quotation mark ends the literal and goes on with a statement of its own. -/
theorem orderStatement_injection :
    ∃ order query, orderUnserialize (requestBytes injection [vodka 1]) = some order ∧
      (verifyOrderStock calm order init).1 = true ∧ order.address = some (injection ++ [0]) ∧
      orderStatement calm order = some query ∧ (parse (cstring query)).length = 2 ∧
      ¬StoresAddress (cstring query) injection := by
  have computed : (orderUnserialize (requestBytes injection [vodka 1])).any
      (fun order => (verifyOrderStock calm order init).1 = true ∧
        order.address = some (injection ++ [0]) ∧
        (orderStatement calm order).any (fun query => (parse (cstring query)).length = 2) = true) =
      true := by
    decide +kernel
  obtain ⟨order, decoded, facts⟩ := (Option.any_eq_true _ _).mp computed
  simp only [decide_eq_true_eq] at facts
  obtain ⟨verified, address, text⟩ := facts
  obtain ⟨query, handed, two⟩ := (Option.any_eq_true _ _).mp text
  simp only [decide_eq_true_eq] at two
  refine ⟨order, query, decoded, verified, address, handed, two, ?_⟩
  rintro ⟨columns, first, last, parsed⟩
  rw [parsed] at two
  simp at two

end Iac
