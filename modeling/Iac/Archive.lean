import Iac.ConcurrentOrders
import Iac.Library.Filing
import Mathlib.Data.List.ReduceOption

/-! The tables `orders` and `orderEntry` as an archive: what can be read from them by joining them on the
id of the order, whose foreign key nobody enforces. -/

namespace Iac

open CText Sql Interaction SharedPipe Filing

/-- An order as it can be read: total, address and time, and a line for each entry. -/
abbrev OrderRecord := Record Int (Sql.Value × Sql.Value × Sql.Value) (Int × Int)

def OrderRow.header (row : OrderRow) : Sql.Value × Sql.Value × Sql.Value := (row.total, row.address, row.time)

def Database.heads (db : Database) : List (Int × Sql.Value × Sql.Value × Sql.Value) :=
  db.orders.map fun row => (row.id, row.header)

def Database.table (db : Database) : List (Int × Int × Int) := db.orderEntry.map EntryRow.contents

def Database.archive (db : Database) : List OrderRecord := read db.heads db.table

def Database.Files (db : Database) (records : List OrderRecord) : Prop := Filed records db.heads db.table

def record (c : Circumstances) (o : Order) (block : Bytes) (id : Int) (items : List OrderEntry) : OrderRecord :=
  ⟨id, (totalValue (orderGetTotal o), .text (cstring block), .integer c.timestamp), items.map OrderEntry.line⟩

/-- What an exchange leaves in the archive. -/
inductive Leaves (c : Circumstances) (request reply : Bytes) : Option OrderRecord → Prop
  | nothing (unplaced : request = productsRequest ∨ reply ≠ intBytes messageOk) : Leaves c request reply none
  | part {payload block : Bytes} {order : Order} (id : Int) (stored : List OrderEntry)
      (asked : request = orderRequest payload) (decoded : orderUnserialize payload = some order)
      (address : order.address = some block) (within : stored <+: order.items)
      (error : reply = intBytes messageError) : Leaves c request reply (some (record c order block id stored))
  | whole {payload block : Bytes} {order : Order} (id : Int) (asked : request = orderRequest payload)
      (decoded : orderUnserialize payload = some order) (address : order.address = some block)
      (ok : reply = intBytes messageOk) : Leaves c request reply (some (record c order block id order.items))

/-! One order. -/

section

variable {c : Circumstances} {order : Order} {payload block : Bytes} {db after : Database} {reply : Reply}
  {records : List OrderRecord}

theorem Database.Files.congr (files : db.Files records) (orders : after.orders = db.orders)
    (entries : after.orderEntry = db.orderEntry) : after.Files records := by
  rw [Database.Files, Database.heads, Database.table, orders, entries]
  exact files

/-- An order and some of its entries, with an id that no other order has. -/
theorem Database.Files.withEntries (files : db.Files records)
    (fresh : newOrderId c db ∉ db.orders.map OrderRow.id) (items : List OrderEntry) :
    (db.withEntries c order block items).Files (records ++ [record c order block (newOrderId c db) items]) := by
  obtain ⟨rows, appended, contents⟩ := Database.withEntries_rows c order block items db
  have known : db.heads.map Prod.fst = db.orders.map OrderRow.id := by
    rw [Database.heads, List.map_map]
    rfl
  have filed := @Filed.file _ _ _ records db.heads db.table files
    (record c order block (newOrderId c db) items) (known ▸ fresh)
  rw [Database.Files, Database.heads, Database.table, Database.withEntries_orders, appended, List.map_append,
    List.map_append, contents]
  have lines : items.map (OrderEntry.contents (newOrderId c db)) =
      (items.map OrderEntry.line).map (newOrderId c db, ·) := by
    rw [List.map_map]
    rfl
  rw [lines]
  exact filed

theorem takeEntries_files {items : List OrderEntry} (files : db.Files records)
    (takes : takeEntries items db = some after) : after.Files records :=
  files.congr (takeEntries_frame takes).2.1 (takeEntries_frame takes).2.2

/-- However an order is answered, at most one record is left, and it is the order's own. -/
theorem placed_leaves (files : db.Files records) (fresh : newOrderId c db ∉ db.orders.map OrderRow.id)
    (clean : ∀ order block, orderUnserialize payload = some order → order.address = some block →
      doubleQuote ∉ cstring block)
    (placed : placeOrder c payload db = some (reply, after)) :
    ∃ left, Leaves c (orderRequest payload) reply.bytes left ∧ after.Files (records ++ left.toList) := by
  have nothing : reply.code ≠ messageOk → after.Files records →
      ∃ left, Leaves c (orderRequest payload) reply.bytes left ∧ after.Files (records ++ left.toList) := by
    intro refused kept
    refine ⟨none, .nothing (.inr fun same => refused ((reply_bytes_ok placed).mp same)), ?_⟩
    rw [Option.toList_none, List.append_nil]
    exact kept
  cases decoded : orderUnserialize payload with
  | none => simp [placeOrder, decoded] at placed
  | some order =>
      rcases placeOrder_cases decoded placed with ⟨-, accepted⟩ | ⟨-, code, rfl⟩
      · cases address : order.address with
        | none => simp [acceptOrder, storeVerifiedOrder, orderStatement, address] at accepted
        | some block =>
            have part : ∀ stored, stored <+: order.items → reply.bytes = intBytes messageError →
                after.Files (records ++ [record c order block (newOrderId c db) stored]) →
                ∃ left, Leaves c (orderRequest payload) reply.bytes left ∧ after.Files (records ++ left.toList) :=
              fun stored within error kept => ⟨_, .part _ stored rfl decoded address within error, kept⟩
            cases acceptOrder_cases address (clean order block decoded address) accepted with
            | unstored => exact nothing (by decide) files
            | cut stored _ within => exact part stored within rfl (files.withEntries fresh stored)
            | untaken done _ _ _ _ _ takes =>
                exact part order.items List.prefix_rfl rfl
                  (takeEntries_files (files.withEntries fresh order.items) takes)
            | placed _ _ _ _ takes =>
                exact ⟨_, .whole _ rfl decoded address rfl,
                  takeEntries_files (files.withEntries fresh order.items) takes⟩
      · refine nothing ?_ files
        rw [code]
        decide

end

/-! All orders of a run. -/

section

variable {backend : Backend} {db after : Database} {log : List (Transaction (system backend))}
  {records : List OrderRecord}

/-- SQLite gives an order no id that another one has: it is the table's primary key. -/
def Keyed (s : State (system backend)) : Label (system backend) → Prop
  | .start c => ∀ db, s.server = .waiting db → newOrderId c db ∉ db.orders.map OrderRow.id
  | _ => True

def archiveRules (backend : Backend) : Rules (system backend) :=
  lenientRules backend fun c db => newOrderId c db ∉ db.orders.map OrderRow.id

theorem archiveRules_orderly (backend : Backend) : Orderly (archiveRules backend) := lenientRules_orderly backend _

theorem archive_admitted {labels : List (Label (system backend))} (vanishing : ∀ label ∈ labels, Vanishing label)
    {s : State (system backend)} (keyed : Along Keyed s labels) : Along (Admitted (archiveRules backend)) s labels := by
  induction labels generalizing s with
  | nil => trivial
  | cons label rest ih =>
      simp only [List.forall_mem_cons] at vanishing
      refine ⟨vanishing.1.admitted ?_, fun after step => ih vanishing.2 (keyed.2 after step)⟩
      rintro c rfl
      exact keyed.1

/-- The archive behind a log: what was there before, and what each exchange has left. -/
structure Archived (records : List OrderRecord) (log : List (Transaction (system backend))) (after : Database)
    (left : List (Option OrderRecord)) : Prop where
  each : List.Forall₂ (fun exchange kept => Leaves exchange.choice exchange.request exchange.reply kept) log left
  files : after.Files (records ++ left.reduceOption)
  reads : after.archive = records ++ left.reduceOption

theorem Archived.snoc {left : List (Option OrderRecord)} {middle : Database} {kept : Option OrderRecord}
    {last : Transaction (system backend)} (archived : Archived records log middle left)
    (leaves : Leaves last.choice last.request last.reply kept)
    (files : after.Files (records ++ left.reduceOption ++ kept.toList)) :
    Archived records (log ++ [last]) after (left ++ [kept]) := by
  have whole : records ++ (left ++ [kept]).reduceOption = records ++ left.reduceOption ++ kept.toList := by
    rw [List.reduceOption_append, List.append_assoc]
    cases kept <;> rfl
  refine ⟨List.rel_append archived.each (.cons leaves .nil), whole ▸ files, ?_⟩
  rw [whole]
  exact files.read

theorem serial_archived (files : db.Files records) (serial : Serial (archiveRules backend) db log after)
    (clean : ∀ exchange ∈ log, ∀ payload order block, exchange.request = orderRequest payload →
      orderUnserialize payload = some order → order.address = some block → doubleQuote ∉ cstring block) :
    ∃ left, Archived records log after left := by
  induction serial with
  | nil => exact ⟨[], .nil, (List.append_nil records).symm ▸ files, (List.append_nil records).symm ▸ files.read⟩
  | @snoc log middle after last before begins answer ih =>
      simp only [List.forall_mem_append, List.forall_mem_singleton] at clean
      obtain ⟨left, archived⟩ := ih clean.1
      have unchanged : last.request = productsRequest → after = middle →
          ∃ left, Archived records (log ++ [last]) after left := by
        rintro products rfl
        exact ⟨_, archived.snoc (.nothing (.inl products)) ((List.append_nil _).symm ▸ archived.files)⟩
      have answered := transact_serve.mp answer
      generalize asked : last.request = request at answered
      generalize got : last.reply = bytes at answered
      cases answered with
      | failed => exact unchanged asked rfl
      | listed => exact unchanged asked rfl
      | placed payload reply after small placed =>
          obtain ⟨kept, leaves, filed⟩ := placed_leaves archived.files begins
            (fun order block => clean.2 payload order block asked) placed
          rw [← asked, ← got] at leaves
          exact ⟨_, archived.snoc leaves filed⟩

/-- Whatever is ordered and whichever statements fail, the archive has one record for each order that was
acknowledged, with all its lines, and none for one that could not be satisfied. An order that ended in an
error may have left a part of its own lines, but no line is anybody else's. -/
theorem run_archived {labels : List (Label (system backend))} {s : State (system backend)}
    (files : db.Files records) (vanishing : ∀ label ∈ labels, Vanishing label)
    (keyed : Along Keyed (initial db) labels)
    (run : (initial db : State (system backend)).run labels = some s)
    (clean : ∀ t payload order block, Ordered (s.threads t) payload → orderUnserialize payload = some order →
      order.address = some block → doubleQuote ∉ cstring block)
    (waiting : s.server = .waiting after) :
    ∃ log left, ServedInTurn db log s ∧ Archived records log after left := by
  have body := (forkedServer_keeps (archiveRules_orderly backend)).conforms
  obtain ⟨log, serialised⟩ := admitted_serialised body (archive_admitted vanishing keyed) run
  have served := servedInTurn_of_serialised serialised
  obtain ⟨store, serial, same⟩ := serialised.store
  obtain rfl := same after waiting
  obtain ⟨left, archived⟩ := serial_archived files serial fun exchange member payload order block asked =>
    clean exchange.tag.thread payload order block (served.ordered member asked)
  exact ⟨log, left, served, archived⟩

end

/-! Forty bottles, of which there are sixty, for a client that vanishes while it is being told. -/

def fortyRequest : Bytes := requestBytes (ascii "Madero 399") [vodka 40]

def placing : List (Label (system .sockets)) :=
  List.replicate 7 (.thread 0 (sends (intBytes cmdPlaceOrder)) true) ++
    List.replicate 4 (.thread 0 (sends fortyRequest) true) ++
    List.replicate 47 (.thread 0 (sends []) true) ++ [.start calm] ++ List.replicate 51 .server ++ vanishing

theorem placing_cases {label : Label (system .sockets)} (member : label ∈ placing) :
    (∃ data, label = .thread 0 (sends data) true) ∨ label = .start calm ∨ label = .server ∨ label = .vanish 0 := by
  simp only [placing, vanishing, List.append_assoc, List.mem_append, List.mem_replicate, List.mem_cons,
    List.not_mem_nil, or_false] at member
  rcases member with ⟨-, rfl⟩ | ⟨-, rfl⟩ | ⟨-, rfl⟩ | rfl | ⟨-, rfl⟩ | ⟨-, rfl⟩ | rfl | rfl
  · exact .inl ⟨_, rfl⟩
  · exact .inl ⟨_, rfl⟩
  · exact .inl ⟨_, rfl⟩
  · exact .inr (.inl rfl)
  · exact .inr (.inr (.inl rfl))
  · exact .inl ⟨_, rfl⟩
  · exact .inr (.inr (.inr rfl))
  · exact .inl ⟨_, rfl⟩

theorem placing_vanishing {label : Label (system .sockets)} (member : label ∈ placing) : Vanishing label := by
  rcases placing_cases member with ⟨data, rfl⟩ | rfl | rfl | rfl
  · exact ⟨rfl, sends_arrives .sockets data⟩
  · trivial
  · trivial
  · trivial

theorem placing_thread {label : Label (system .sockets)} (member : label ∈ placing) {t : Nat} (other : t ≠ 0)
    (choose : (op : Local) → op.Answer) (ok : Bool) : label ≠ .thread t choose ok := by
  rintro rfl
  rcases placing_cases member with ⟨data, same⟩ | same | same | same
  · exact other (Label.thread.inj same).1
  · contradiction
  · contradiction
  · contradiction

def keyed {backend : Backend} (s : State (system backend)) : Label (system backend) → Bool
  | .start c =>
      match s.server with
      | .waiting db => decide (newOrderId c db ∉ db.orders.map OrderRow.id)
      | _ => true
  | _ => true

theorem keyed_of_test {backend : Backend} {s : State (system backend)} {label : Label (system backend)}
    (tested : keyed s label = true) : Keyed s label := by
  cases label with
  | start c =>
      intro db waiting
      simpa [keyed, waiting] using tested
  | thread t choose ok => trivial
  | server => trivial
  | vanish t => trivial

theorem run_archived_vodka :
    ∃ s after log left, (initial init : State (system .sockets)).run placing = some s ∧
      s.server = .waiting after ∧ ServedInTurn init log s ∧ Archived [] log after left := by
  have computed : ((initial init : State (system .sockets)).run placing).any
      (fun s => waits s.server && (exchanges (s.threads 0).history).finished.isEmpty &&
        ((exchanges (s.threads 0).history).current.map Prod.fst) = some (orderRequest fortyRequest)) = true := by
    decide +kernel
  have checked : (initial init : State (system .sockets)).check keyed placing = true := by
    decide +kernel
  obtain ⟨s, run, facts⟩ := (Option.any_eq_true _ _).mp computed
  simp only [Bool.and_eq_true, decide_eq_true_eq, List.isEmpty_iff] at facts
  obtain ⟨⟨waiting, finished⟩, current⟩ := facts
  obtain ⟨after, server⟩ := waits_iff.mp waiting
  have fresh_ids := along_of_check (fun s label _ tested => @keyed_of_test _ s label tested) checked
  have clean : ∀ t payload order block, Ordered (s.threads t) payload → orderUnserialize payload = some order →
      order.address = some block → doubleQuote ∉ cstring block := by
    rintro t payload order block ⟨reply, ordered⟩ decoded address
    have first : t = 0 := by
      by_contra other
      have start : ((initial init : State (system .sockets)).threads t).history = [] := rfl
      have fresh : (s.threads t).history = [] := by
        rw [run_history (fun label member => placing_thread member other) run, start]
      exact nothing_ordered fresh payload ⟨reply, ordered⟩
    subst first
    have asked : payload = fortyRequest := by
      rcases ordered with earlier | now
      · rw [finished] at earlier
        exact absurd earlier List.not_mem_nil
      · rw [now, Option.map_some, Option.some.injEq] at current
        exact orderRequest_injective current
    have whole : orderUnserialize fortyRequest = _ := vodka_decoded
    rw [asked, whole, Option.some.injEq] at decoded
    rw [← decoded] at address
    obtain rfl : ascii "Madero 399" ++ [0] = block := Option.some.inj address
    decide
  obtain ⟨log, left, served, archived⟩ :=
    @run_archived _ init after [] placing s filed_nil (fun _ => placing_vanishing) fresh_ids run clean server
  exact ⟨s, after, log, left, run, server, served, archived⟩

end Iac
