import Iac.Library.Transactions
import Iac.SharedConnection
import Iac.StockLedger

/-! The requests of all forked servers, however their steps are mixed: the database server
serves them one after another, and its tables tell what it has acknowledged. -/

namespace Iac

open CText Sql Depot Interaction SharedPipe

/-! One request alone. -/

def productsRequest : Bytes := intBytes cmdGetProducts

def orderRequest (payload : Bytes) : Bytes := intBytes cmdPlaceOrder ++ frame payload

/-- A whole request, its reply, and the tables behind it. -/
inductive Exchanged (c : Circumstances) (db : Database) : Bytes → Bytes → Database → Prop
  | failed (error : db.getProducts c = some none) :
      Exchanged c db productsRequest (intBytes messageError) db
  | listed (products : List Product) (blobs : List Bytes)
      (listed : db.getProducts c = some (some products))
      (encoded : products.mapM productSerialize = some blobs) :
      Exchanged c db productsRequest (listing blobs) db
  | placed (payload : Bytes) (reply : Reply) (after : Database) (small : payload.length < 2 ^ 31)
      (placed : placeOrder c payload db = some (reply, after)) :
      Exchanged c db (orderRequest payload) reply.bytes after

theorem orderRequest_ne (payload : Bytes) : orderRequest payload ≠ productsRequest := by
  intro same
  have lengths := congrArg List.length same
  simp only [productsRequest, orderRequest, frame, List.length_append, intBytes_length,
    sizeBytes_length] at lengths
  omega

theorem orderRequest_injective {payload other : Bytes} (same : orderRequest payload = orderRequest other) :
    payload = other := by
  have frames := List.append_cancel_left same
  have lengths := congrArg List.length frames
  simp only [frame, List.length_append, sizeBytes_length, Nat.add_left_cancel_iff] at lengths
  rw [frame, frame, lengths] at frames
  exact List.append_cancel_left frames

theorem transact_undefined {α Store : Type} (after : α → ServerProgram (Option Store))
    (request : Bytes) : transact (undefinedBehaviour >>= after) request = none := rfl

section

variable {c : Circumstances} {db after : Database} {request reply : Bytes}

theorem transact_written {text : Bytes} {value : Option Database} :
    transact (serverWrites text >>= fun _ => .ret value) request = some (reply, some after) ↔
      request = [] ∧ reply = text ∧ value = some after := by
  rw [transact_serverWrites, transact]
  by_cases empty : request = []
  · simp [empty, eq_comm]
  · simp [empty]

theorem transact_sendProducts :
    transact (db.sendProducts c >>= fun _ => .ret (some db)) request = some (reply, some after) ↔
      request = [] ∧ Exchanged c db productsRequest reply after := by
  unfold Database.sendProducts
  constructor
  · intro done
    split at done
    · rw [transact_undefined] at done
      contradiction
    · rename_i error
      obtain ⟨rfl, rfl, same⟩ := transact_written.mp done
      exact ⟨rfl, Option.some.inj same ▸ .failed error⟩
    · rename_i products listed
      split at done
      · rename_i blobs encoded
        obtain ⟨rfl, rfl, same⟩ := transact_written.mp done
        exact ⟨rfl, Option.some.inj same ▸ .listed products blobs listed encoded⟩
      · rw [transact_undefined] at done
        contradiction
  · rintro ⟨rfl, answered⟩
    generalize same : productsRequest = asked at answered
    cases answered with
    | failed error =>
        rw [error]
        exact transact_written.mpr ⟨rfl, rfl, rfl⟩
    | listed products blobs listed encoded =>
        simp only [listed, encoded]
        exact transact_written.mpr ⟨rfl, rfl, rfl⟩
    | placed payload reply after small placed => exact absurd same.symm (orderRequest_ne payload)

theorem transact_placeOrder :
    transact (db.placeOrder c) request = some (reply, some after) ↔
      ∃ payload, request = frame payload ∧ Exchanged c db (orderRequest payload) reply after := by
  unfold Database.placeOrder
  rw [transact_serverReads]
  constructor
  · intro done
    split at done
    · rename_i enough
      have eight : (request.take 8).length = 8 := List.length_take_of_le enough
      unfold serverEnsureRead at done
      split at done
      · rename_i small
        rw [transact_serverReads] at done
        split at done
        · rename_i whole
          split at done
          · rw [← Program.bind_ret undefinedBehaviour, transact_undefined] at done
            contradiction
          · rename_i answer last placed
            obtain ⟨empty, rfl, same⟩ := transact_written.mp done
            have size := List.length_take_of_le whole
            refine ⟨(request.drop 8).take (fromLittleEndian (request.take 8)), ?_, ?_⟩
            · rw [frame, size, sizeBytes_fromLittleEndian eight]
              have rest := List.take_append_drop (fromLittleEndian (request.take 8)) (request.drop 8)
              rw [empty, List.append_nil] at rest
              rw [rest, List.take_append_drop]
            · exact .placed _ answer after (by omega) (Option.some.inj same ▸ placed)
        · contradiction
      · rw [transact_undefined] at done
        contradiction
    · contradiction
  · rintro ⟨payload, rfl, answered⟩
    generalize same : orderRequest payload = asked at answered
    cases answered with
    | placed other answer after small placed =>
        obtain rfl := orderRequest_injective same
        have long : 8 ≤ (frame payload).length := by simp [frame]
        have size : (frame payload).take 8 = sizeBytes payload.length := by
          rw [frame, List.take_left' (sizeBytes_length _)]
        have rest : (frame payload).drop 8 = payload := by
          rw [frame, List.drop_left' (sizeBytes_length _)]
        rw [if_pos long, size, rest, fromLittleEndian_sizeBytes (by omega), serverEnsureRead,
          if_pos small, transact_serverReads, if_pos (le_refl _), List.take_length, List.drop_length,
          placed]
        exact transact_written.mpr ⟨rfl, rfl, rfl⟩
    | failed error => exact absurd same (orderRequest_ne payload)
    | listed products blobs listed encoded => exact absurd same (orderRequest_ne payload)

theorem transact_dispatch (msgCode : Int32) (rest : Bytes) :
    transact (serve c db) (intBytes msgCode ++ rest) =
      transact (if msgCode = cmdGetProducts then db.sendProducts c >>= fun _ => .ret (some db)
        else if msgCode = cmdPlaceOrder then db.placeOrder c
        else if msgCode = messageClose then .ret none
        else Program.call Serving.unknown >>= fun _ => .ret (some db)) rest := by
  unfold serve
  rw [transact_serverReads, if_pos (by simp), List.take_left' (intBytes_length msgCode),
    List.drop_left' (intBytes_length msgCode), bytesInt_intBytes]
  rfl

theorem begins_with_code (done : transact (serve c db) request = some (reply, some after)) :
    ∃ msgCode rest, request = intBytes msgCode ++ rest := by
  unfold serve at done
  rw [transact_serverReads] at done
  split at done
  · rename_i enough
    refine ⟨bytesInt (request.take 4), request.drop 4, ?_⟩
    rw [intBytes_bytesInt (List.length_take_of_le enough), List.take_append_drop]
  · contradiction

/-- Given a whole request the server's program does exactly this. -/
theorem transact_serve :
    transact (serve c db) request = some (reply, some after) ↔ Exchanged c db request reply after := by
  constructor
  · intro done
    obtain ⟨msgCode, rest, rfl⟩ := begins_with_code done
    rw [transact_dispatch] at done
    split at done
    · rename_i code
      obtain ⟨rfl, answered⟩ := transact_sendProducts.mp done
      rw [code, List.append_nil]
      exact answered
    · split at done
      · rename_i code
        obtain ⟨payload, rfl, answered⟩ := transact_placeOrder.mp done
        rw [code]
        exact answered
      · split at done
        · rw [transact] at done
          split at done
          · simp at done
          · contradiction
        · contradiction
  · intro answered
    have products : Exchanged c db productsRequest reply after →
        transact (serve c db) productsRequest = some (reply, some after) := by
      intro answered
      have whole := @transact_dispatch c db cmdGetProducts []
      rw [List.append_nil] at whole
      rw [productsRequest, whole, if_pos rfl]
      exact transact_sendProducts.mpr ⟨rfl, answered⟩
    cases answered with
    | failed error => exact products (.failed error)
    | listed products_ blobs listed encoded => exact products (.listed products_ blobs listed encoded)
    | placed payload answer after small placed =>
        have other : cmdPlaceOrder ≠ cmdGetProducts := by decide
        rw [orderRequest, transact_dispatch, if_neg other, if_pos rfl]
        exact transact_placeOrder.mpr ⟨payload, rfl, .placed payload answer after small placed⟩

end

/-! All requests of a run. -/

section

variable {backend : Backend}

/-- The exchanges one after another, each on the tables that the one before has left. -/
inductive InTurn (db : Database) : List (Transaction (system backend)) → Database → Prop
  | nil : InTurn db [] db
  | snoc {log : List (Transaction (system backend))} {last : Transaction (system backend)}
      {middle after : Database} (before : InTurn db log middle)
      (answered : Exchanged last.choice middle last.request last.reply after) :
      InTurn db (log ++ [last]) after

/-- The tables are those of the exchanges in the order of the calls, and every forked server
has seen its own ones; the reply to the last may still be on its way. -/
structure ServedInTurn (db : Database) (log : List (Transaction (system backend)))
    (s : State (system backend)) : Prop where
  calls : log.map (fun exchange => exchange.tag.call) = List.range' 1 log.length
  tables : ∃ after, InTurn db log after ∧ ∀ other, s.server = .waiting other → other = after
  seen : ∀ t, (exchanges (s.threads t).history).finished = share t log ∨
    ∃ asked got rest, s.owner = some t ∧
      (exchanges (s.threads t).history).current = some (asked, got) ∧
      share t log = (exchanges (s.threads t).history).finished ++ [(asked, got ++ rest)]

variable {rules : Rules (system backend)} {db after : Database}
  {log : List (Transaction (system backend))} {labels : List (Label (system backend))}
  {s : State (system backend)}

theorem serial_inTurn (serial : Serial rules db log after) : InTurn db log after := by
  induction serial with
  | nil => exact .nil
  | snoc before begins answer ih => exact ih.snoc (transact_serve.mp answer)

theorem Serial.choices (used : Circumstances → Prop) (serial : Serial rules db log after)
    (begins : ∀ c db, rules.begins c db → used c) : ∀ exchange ∈ log, used exchange.choice := by
  induction serial with
  | nil => simp
  | snoc before first answer ih =>
      intro exchange member
      rcases List.mem_append.mp member with earlier | last
      · exact ih exchange earlier
      · rw [List.mem_singleton.mp last]
        exact begins _ _ first

theorem servedInTurn_of_serialised (serialised : Serialised rules db log s) :
    ServedInTurn db log s := by
  obtain ⟨after, serial, same⟩ := serialised.store
  exact ⟨serialised.order, ⟨after, serial_inTurn serial, same⟩, serialised.seen⟩

/-- Clients may vanish at any time, also while the mutex is taken for them, and statements may fail. -/
def Vanishing : Label (system backend) → Prop
  | .thread _ choose ok => ok = true ∧ ∀ op, Arrives backend op (choose op)
  | _ => True

/-- The database server begins only in certain circumstances. -/
def lenientRules (backend : Backend) (begins : Circumstances → Database → Prop) : Rules (system backend) where
  answers := Arrives backend
  begins := begins
  strict := false

theorem lenientRules_orderly (backend : Backend) (begins : Circumstances → Database → Prop) :
    Orderly (lenientRules backend begins) where
  length _ arrives := arrives
  data _ _ fifos arrives := arrives fifos
  memory _ _ arrives := arrives
  listed strict := absurd strict Bool.false_ne_true

theorem Vanishing.admitted {begins : Circumstances → Database → Prop} {s : State (system backend)}
    {label : Label (system backend)} (vanishing : Vanishing label)
    (starts : ∀ c, label = .start c → ∀ db, s.server = .waiting db → begins c db) :
    Admitted (lenientRules backend begins) s label := by
  cases label with
  | thread t choose ok => exact vanishing
  | server => trivial
  | start c => exact starts c rfl
  | vanish t => trivial

theorem lenient_admitted (used : Circumstances → Prop) {labels : List (Label (system backend))}
    (vanishing : ∀ label ∈ labels, Vanishing label) (starts : ∀ c, Label.start c ∈ labels → used c)
    (s : State (system backend)) : Along (Admitted (lenientRules backend fun c _ => used c)) s labels := by
  induction labels generalizing s with
  | nil => trivial
  | cons label rest ih =>
      simp only [List.forall_mem_cons] at vanishing
      refine ⟨vanishing.1.admitted fun c same _ _ => starts c (same ▸ List.mem_cons_self), fun after _ => ?_⟩
      exact ih vanishing.2 (fun c member => starts c (List.mem_cons_of_mem _ member)) after

/-- However the steps of any number of forked servers are mixed, it is as if the database
server had got their requests one at a time, in the order in which they took the mutex. -/
theorem run_served_in_turn (vanishing : ∀ label ∈ labels, Vanishing label)
    (run : (initial db : State (system backend)).run labels = some s) :
    ∃ log, ServedInTurn db log s := by
  have body := (forkedServer_keeps (lenientRules_orderly backend fun _ _ => True)).conforms
  have admitted := lenient_admitted (fun _ => True) vanishing (fun _ _ => trivial) (initial db)
  obtain ⟨log, serialised⟩ := admitted_serialised body admitted run
  exact ⟨log, servedInTurn_of_serialised serialised⟩

end

/-! Seventy bottles are ordered, of which there are sixty, and the client vanishes while it is being told. -/

theorem vanishing_cases {label : Label (system .sockets)} (member : label ∈ ordering ++ vanishing) :
    (∃ data, label = .thread 0 (sends data) true) ∨ label = .start calm ∨ label = .server ∨ label = .vanish 0 := by
  simp only [ordering, vanishing, List.append_assoc, List.mem_append, List.mem_replicate, List.mem_cons,
    List.not_mem_nil, or_false] at member
  rcases member with ⟨-, rfl⟩ | ⟨-, rfl⟩ | ⟨-, rfl⟩ | rfl | ⟨-, rfl⟩ | ⟨-, rfl⟩ | rfl | rfl
  · exact .inl ⟨_, rfl⟩
  · exact .inl ⟨_, rfl⟩
  · exact .inl ⟨_, rfl⟩
  · exact .inr (.inl rfl)
  · exact .inr (.inr (.inl rfl))
  · exact .inl ⟨_, rfl⟩
  · exact .inr (.inr (.inr rfl))
  · exact .inl ⟨_, rfl⟩

theorem sends_arrives (backend : Backend) (data : Bytes) (op : Local) : Arrives backend op (sends data op) := by
  have complete := sends_complete data op
  cases op with
  | readData size => exact fun _ => complete
  | readLength => exact complete
  | malloc size => exact complete
  | readNull => trivial
  | write text => trivial
  | uninitialised size => trivial
  | note note => trivial

theorem vanishing_vanishing {label : Label (system .sockets)} (member : label ∈ ordering ++ vanishing) :
    Vanishing label := by
  rcases vanishing_cases member with ⟨data, rfl⟩ | rfl | rfl | rfl
  · exact ⟨rfl, sends_arrives .sockets data⟩
  · trivial
  · trivial
  · trivial

theorem run_served_in_turn_vodka :
    ∃ s log, (initial init : State (system .sockets)).run (ordering ++ vanishing) = some s ∧
      ServedInTurn init log s := by
  have runs : ((initial init : State (system .sockets)).run (ordering ++ vanishing)).isSome := by
    decide +kernel
  obtain ⟨s, run⟩ := Option.isSome_iff_exists.mp runs
  obtain ⟨log, served⟩ := run_served_in_turn (fun _ => vanishing_vanishing) run
  exact ⟨s, log, run, served⟩

/-! What the tables tell of the orders. -/

def EntryRow.line (row : EntryRow) : Int × Int := (row.productId, row.quantity)

def OrderEntry.line (entry : OrderEntry) : Int × Int := (entry.productId.toInt, entry.quantity.toInt)

def Database.lines (db : Database) : List (Int × Int) := db.orderEntry.map EntryRow.line

/-- What a forked server has been told to be ordered, by the request and the reply that it saw. -/
def acknowledged (request reply : Bytes) : List (Int × Int) :=
  if request.take 4 = intBytes cmdPlaceOrder ∧ reply = intBytes messageOk then
    ((orderUnserialize (request.drop 12)).map fun order => order.items.map OrderEntry.line).getD []
  else []

theorem acknowledged_products (reply : Bytes) : acknowledged productsRequest reply = [] := by
  have other : productsRequest.take 4 ≠ intBytes cmdPlaceOrder := by decide
  rw [acknowledged, if_neg fun both => other both.1]

theorem acknowledged_order {payload : Bytes} {order : Order} (decoded : orderUnserialize payload = some order)
    (reply : Bytes) : acknowledged (orderRequest payload) reply =
      if reply = intBytes messageOk then order.items.map OrderEntry.line else [] := by
  have code : (orderRequest payload).take 4 = intBytes cmdPlaceOrder := by
    rw [orderRequest, List.take_left' (intBytes_length _)]
  have rest : (orderRequest payload).drop 12 = payload := by
    have front : (intBytes cmdPlaceOrder ++ sizeBytes payload.length).length = 12 := by simp
    rw [orderRequest, frame, ← List.append_assoc, List.drop_left' front]
  simp [acknowledged, code, rest, decoded]

theorem reply_bytes_ok {c : Circumstances} {payload : Bytes} {db after : Database} {reply : Reply}
    (placed : placeOrder c payload db = some (reply, after)) :
    reply.bytes = intBytes messageOk ↔ reply.code = messageOk := by
  constructor
  · intro same
    have code : reply.bytes.take 4 = intBytes reply.code := by
      rw [Reply.bytes, List.take_left' (intBytes_length _)]
    rw [same] at code
    have number := congrArg bytesInt code
    rw [bytesInt_intBytes] at number
    rw [← number]
    decide
  · intro ok
    rcases placeOrder_reply placed with ⟨-, nothing⟩ | ⟨_, other, -⟩
    · rw [Reply.bytes, ok, nothing]
      rfl
    · rw [ok] at other
      exact absurd other (by decide)

/-- Entries come into the tables exactly with the answer that says so. -/
theorem Regular.lines {request : Request} {order : Order} {block : Bytes} {db after : Database}
    (regular : Regular db.ids request order block) {reply : Reply}
    (placed : request.place db = some (reply, after)) :
    after.lines = db.lines ++
      if reply.code = messageOk then order.items.map OrderEntry.line else [] := by
  have clean := plain_unquoted regular.plain
  have other : (⟨messageError, none⟩ : Reply).code ≠ messageOk := by decide
  rcases placeOrder_cases regular.decoded placed with ⟨covered, accepted⟩ | ⟨-, code, rfl⟩
  · cases acceptOrder_cases regular.address clean accepted with
    | unstored failed => rw [if_neg other, List.append_nil]
    | cut stored stored_order within failed wrongId =>
        rw [regular.storesAll_iff, not_or] at failed
        rw [wrongId failed.2, if_neg other, List.append_nil]
        rfl
    | untaken done _ stored_order entries failed within takes =>
        exact absurd (regular.takesAll covered) failed
    | placed _ stored_order entries all takes =>
        obtain ⟨rows, appended, contents⟩ :=
          Database.withEntries_rows request.circumstances order block order.items db
        have each : rows.map EntryRow.line = order.items.map OrderEntry.line := by
          have through := congrArg (List.map Prod.snd) contents
          rw [List.map_map, List.map_map] at through
          exact through
        rw [if_pos rfl, Database.lines, (takeEntries_frame takes).2.2, appended, List.map_append, each]
        rfl
  · rw [if_neg (by rw [code]; decide), List.append_nil]

section

variable {backend : Backend} {db after : Database} {log : List (Transaction (system backend))}

/-- What serving the exchanges in turn does to stock and entries. -/
structure Ledger (db : Database) (log : List (Transaction (system backend))) (after : Database) :
    Prop where
  ids : after.ids = db.ids
  steps : Depot.Steps db.depot after.depot
  lines : after.lines = db.lines ++ log.flatMap fun exchange =>
    acknowledged exchange.request exchange.reply

theorem InTurn.ledger (turns : InTurn db log after)
    (regular : ∀ exchange ∈ log, ∀ payload, exchange.request = orderRequest payload →
      ∃ order block, Iac.Regular db.ids ⟨exchange.choice, payload⟩ order block) :
    Ledger db log after := by
  induction turns with
  | nil => exact ⟨rfl, .refl, by simp⟩
  | @snoc log last middle after before answered ih =>
      simp only [List.forall_mem_append, List.forall_mem_singleton] at regular
      obtain ⟨earlier, latest⟩ := regular
      have ledger := ih earlier
      have unchanged : last.request = productsRequest → after = middle →
          Ledger db (log ++ [last]) after := by
        rintro products rfl
        refine ⟨ledger.ids, ledger.steps, ?_⟩
        rw [ledger.lines, List.flatMap_append, List.flatMap_singleton, products,
          acknowledged_products, List.append_nil]
      generalize asked : last.request = request at answered
      generalize got : last.reply = bytes at answered
      cases answered with
      | failed error => exact unchanged asked rfl
      | listed products blobs listed encoded => exact unchanged asked rfl
      | placed payload reply after small placed =>
          obtain ⟨order, block, fine⟩ := latest payload asked
          rw [← ledger.ids] at fine
          have served := fine.served placed
          refine ⟨served.ids.trans ledger.ids, ledger.steps.tail served.step, ?_⟩
          rw [fine.lines placed, ledger.lines, List.flatMap_append, List.flatMap_singleton, asked, got,
            acknowledged_order fine.decoded, List.append_assoc]
          simp only [reply_bytes_ok placed]

/-- The forked server has sent the order, or is sending it. -/
def Ordered (thread : SharedPipe.Thread (system backend)) (payload : Bytes) : Prop :=
  ∃ reply, (orderRequest payload, reply) ∈ (exchanges thread.history).finished ∨
    (exchanges thread.history).current = some (orderRequest payload, reply)

theorem nothing_ordered {thread : SharedPipe.Thread (system backend)} (fresh : thread.history = [])
    (payload : Bytes) : ¬Ordered thread payload := by
  rintro ⟨reply, earlier | now⟩
  · rw [fresh] at earlier
    exact List.not_mem_nil earlier
  · rw [fresh] at now
    exact Option.some_ne_none _ now.symm

theorem ServedInTurn.ordered {s : State (system backend)} (served : ServedInTurn db log s)
    {exchange : Transaction (system backend)} (member : exchange ∈ log) {payload : Bytes}
    (asked : exchange.request = orderRequest payload) :
    Ordered (s.threads exchange.tag.thread) payload := by
  have own : (orderRequest payload, exchange.reply) ∈ share exchange.tag.thread log := by
    refine List.mem_map.mpr ⟨exchange, List.mem_filter.mpr ⟨member, by simp⟩, ?_⟩
    rw [asked]
  rcases served.seen exchange.tag.thread with same | ⟨sent, got, rest, -, current, more⟩
  · rw [← same] at own
    exact ⟨_, .inl own⟩
  · rw [more] at own
    rcases List.mem_append.mp own with earlier | last
    · exact ⟨_, .inl earlier⟩
    · obtain ⟨same, -⟩ := Prod.mk.inj (List.mem_singleton.mp last)
      rw [← same] at current
      exact ⟨_, .inr current⟩

/-- Whenever the database server waits for a request, every bottle is in stock or sold, and
what is recorded as sold is what the forked servers have been told to be ordered, each order
once. -/
theorem run_keeps_ledger {labels : List (Label (system backend))} {s : State (system backend)}
    (vanishing : ∀ label ∈ labels, Vanishing label)
    (run : (initial db : State (system backend)).run labels = some s)
    (regular : ∀ c, Label.start c ∈ labels → ∀ t payload, Ordered (s.threads t) payload →
      ∃ order block, Iac.Regular db.ids ⟨c, payload⟩ order block)
    (waiting : s.server = .waiting after) :
    (∀ productId, 0 ≤ after.stock productId ∧
      after.stock productId + after.sold productId = db.stock productId + db.sold productId) ∧
    ∃ log, ServedInTurn db log s ∧ after.lines = db.lines ++ log.flatMap fun exchange =>
      acknowledged exchange.request exchange.reply := by
  let used : Circumstances → Prop := fun c => Label.start c ∈ labels
  have body := (forkedServer_keeps (lenientRules_orderly backend fun c _ => used c)).conforms
  obtain ⟨log, serialised⟩ := admitted_serialised body (lenient_admitted used vanishing (fun _ member => member) _) run
  have served := servedInTurn_of_serialised serialised
  obtain ⟨store, serial, same⟩ := serialised.store
  obtain rfl := same after waiting
  have choices := Serial.choices used serial fun _ _ begins => begins
  have ledger := (serial_inTurn serial).ledger fun exchange member payload asked =>
    regular exchange.choice (choices exchange member) exchange.tag.thread payload
      (served.ordered member asked)
  refine ⟨?_, log, served, ledger.lines⟩
  intro productId
  exact ⟨ledger.steps.no_oversell db.stock_nonnegative productId, ledger.steps.conserves productId⟩

end

/-! The ledger of that run. -/

theorem vanishing_thread {label : Label (system .sockets)} (member : label ∈ ordering ++ vanishing)
    {t : Nat} (other : t ≠ 0) (choose : (op : Local) → op.Answer) (ok : Bool) :
    label ≠ .thread t choose ok := by
  rintro rfl
  rcases vanishing_cases member with ⟨data, same⟩ | same | same | same
  · exact other (Label.thread.inj same).1
  · contradiction
  · contradiction
  · contradiction

theorem vanishing_choice {c : Circumstances} (member : Label.start c ∈ ordering ++ vanishing) : c = calm := by
  rcases vanishing_cases member with ⟨data, same⟩ | same | same | same
  · contradiction
  · exact Label.start.inj same
  · contradiction
  · contradiction

def waits : Server (system .sockets) → Bool
  | .waiting _ => true
  | _ => false

theorem waits_iff {server : Server (system .sockets)} : waits server = true ↔ ∃ after, server = .waiting after := by
  cases server with
  | waiting after => exact ⟨fun _ => ⟨after, rfl⟩, fun _ => rfl⟩
  | running program => exact ⟨fun none => absurd none Bool.false_ne_true, fun ⟨_, same⟩ => nomatch same⟩
  | stopped => exact ⟨fun none => absurd none Bool.false_ne_true, fun ⟨_, same⟩ => nomatch same⟩

theorem run_keeps_ledger_vodka :
    ∃ s after, (initial init : State (system .sockets)).run (ordering ++ vanishing) = some s ∧
      s.server = .waiting after ∧
      (∀ productId, 0 ≤ after.stock productId ∧
        after.stock productId + after.sold productId = init.stock productId + init.sold productId) ∧
      ∃ log, ServedInTurn init log s ∧ after.lines = init.lines ++ log.flatMap fun exchange =>
        acknowledged exchange.request exchange.reply := by
  have computed : ((initial init : State (system .sockets)).run (ordering ++ vanishing)).any
      (fun s => waits s.server && (exchanges (s.threads 0).history).finished.isEmpty &&
        ((exchanges (s.threads 0).history).current.map Prod.fst) = some (orderRequest vodkaRequest)) = true := by
    decide +kernel
  have fits : (orderStatement calm (vodkaOrder (ascii "Madero 399") 70)).isSome := by
    decide +kernel
  have decoded : orderUnserialize vodkaRequest = some (vodkaOrder (ascii "Madero 399") 70) := by
    decide +kernel
  obtain ⟨s, run, facts⟩ := (Option.any_eq_true _ _).mp computed
  simp only [Bool.and_eq_true, decide_eq_true_eq, List.isEmpty_iff] at facts
  obtain ⟨⟨waiting, finished⟩, current⟩ := facts
  obtain ⟨after, server⟩ := waits_iff.mp waiting
  refine ⟨s, after, run, server, run_keeps_ledger (fun _ => vanishing_vanishing) run ?_ server⟩
  rintro c starts t payload ⟨reply, ordered⟩
  obtain rfl := vanishing_choice starts
  by_cases first : t = 0
  · subst t
    rcases ordered with earlier | now
    · rw [finished] at earlier
      exact absurd earlier List.not_mem_nil
    · rw [now, Option.map_some, Option.some.injEq] at current
      obtain rfl := orderRequest_injective current
      exact ⟨_, _, vodka_regular (by decide) decoded fits⟩
  · have start : ((initial init : State (system .sockets)).threads t).history = [] := rfl
    have fresh : (s.threads t).history = [] := by
      rw [run_history (fun label member => vanishing_thread member first) run, start]
    exact (nothing_ordered fresh payload ⟨reply, ordered⟩).elim

end Iac
