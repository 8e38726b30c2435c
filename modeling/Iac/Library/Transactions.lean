import Iac.Library.Exchange

/-! Runs of a shared server as transactions: however the steps are mixed, the requests are
served one after another, in the order in which the mutex was taken for them. -/

namespace SharedPipe

open CText Interaction

variable {setup : Setup}

/-! One request alone. -/

/-- What the server writes for exactly this request, and the store that it leaves. -/
def transact {Store : Type} :
    Program Serving Serving.Answer (Option Store) → Bytes → Option (Bytes × Option Store)
  | .ret value, request => if request = [] then some ([], value) else none
  | .perform .recv next, request =>
      match request with
      | [] => none
      | byte :: rest => transact (next byte) rest
  | .perform (.send byte) next, request =>
      (transact (next ()) request).map fun (reply, value) => (byte :: reply, value)
  | .perform _ _, _ => none

/-- The program that is left once some bytes have been read and some have been written. -/
inductive Behind {Store : Type} (first : Program Serving Serving.Answer (Option Store)) :
    Bytes → Bytes → Program Serving Serving.Answer (Option Store) → Prop
  | start : Behind first [] [] first
  | recv {read written : Bytes} {next : UInt8 → Program Serving Serving.Answer (Option Store)}
      (byte : UInt8) (before : Behind first read written (.perform .recv next)) :
      Behind first (read ++ [byte]) written (next byte)
  | send {read written : Bytes} {byte : UInt8}
      {next : Unit → Program Serving Serving.Answer (Option Store)}
      (before : Behind first read written (.perform (.send byte) next)) :
      Behind first read (written ++ [byte]) (next ())

theorem Behind.transact {Store : Type}
    {first current : Program Serving Serving.Answer (Option Store)} {read written : Bytes}
    (behind : Behind first read written current) (rest : Bytes) :
    transact first (read ++ rest) =
      (transact current rest).map fun (reply, value) => (written ++ reply, value) := by
  induction behind generalizing rest with
  | start => simp
  | recv byte before ih =>
      have whole := ih (byte :: rest)
      rw [List.append_assoc, List.singleton_append, whole]
      rfl
  | send before ih =>
      rw [ih rest]
      simp only [SharedPipe.transact, Option.map_map]
      refine congrArg (Option.map · _) ?_
      funext result
      simp

theorem Behind.whole {Store : Type} {first : Program Serving Serving.Answer (Option Store)}
    {read written : Bytes} {value : Option Store}
    (behind : Behind first read written (.ret value)) :
    SharedPipe.transact first read = some (written, value) := by
  have all := behind.transact []
  rw [List.append_nil] at all
  rw [all]
  simp [SharedPipe.transact]

theorem transact_serverReads {Store : Type} (count : Nat)
    (after : Bytes → Program Serving Serving.Answer (Option Store)) (request : Bytes) :
    transact (serverReads count >>= after) request =
      if count ≤ request.length then transact (after (request.take count)) (request.drop count)
      else none := by
  induction count generalizing after request with
  | zero => simp [serverReads]
  | succ count ih =>
      rw [serverReads_bind]
      cases request with
      | nil => simp [transact]
      | cons byte rest =>
          simp only [transact, List.length_cons, Nat.add_le_add_iff_right, List.take_succ_cons,
            List.drop_succ_cons]
          exact ih (fun more => after (byte :: more)) rest

theorem transact_serverWrites {Store : Type} (text : Bytes)
    (after : Unit → Program Serving Serving.Answer (Option Store)) (request : Bytes) :
    transact (serverWrites text >>= after) request =
      (transact (after ()) request).map fun (reply, value) => (text ++ reply, value) := by
  induction text with
  | nil => simp [serverWrites]
  | cons byte text ih =>
      have step : transact (serverWrites (byte :: text) >>= after) request =
          (transact (serverWrites text >>= after) request).map
            fun (reply, value) => (byte :: reply, value) := rfl
      rw [step, ih, Option.map_map]
      rfl

/-! One request after another. -/

structure Transaction (setup : Setup) where
  tag : Tag
  choice : setup.Choice
  request : Bytes
  reply : Bytes

/-- A server that has the transactions before it one after another. -/
inductive Serial (rules : Rules setup) (start : setup.Store) :
    List (Transaction setup) → setup.Store → Prop
  | nil : Serial rules start [] start
  | snoc {log : List (Transaction setup)} {store after : setup.Store}
      {transaction : Transaction setup} (before : Serial rules start log store)
      (begins : rules.begins transaction.choice store)
      (answer : transact (setup.serve transaction.choice store) transaction.request =
        some (transaction.reply, some after)) :
      Serial rules start (log ++ [transaction]) after

/-- The requests and replies of one thread. -/
def share (t : Nat) (log : List (Transaction setup)) : List (Bytes × Bytes) :=
  (log.filter fun transaction => transaction.tag.thread = t).map fun transaction =>
    (transaction.request, transaction.reply)

theorem share_snoc (t : Nat) (log : List (Transaction setup)) (last : Transaction setup) :
    share t (log ++ [last]) =
      share t log ++ if last.tag.thread = t then [(last.request, last.reply)] else [] := by
  by_cases same : last.tag.thread = t <;> simp [share, same]

theorem calls_snoc {log : List (Transaction setup)} {last : Transaction setup}
    (calls : log.map (fun transaction => transaction.tag.call) = List.range' 1 log.length)
    (next : last.tag.call = log.length + 1) :
    (log ++ [last]).map (fun transaction => transaction.tag.call) =
      List.range' 1 (log ++ [last]).length := by
  rw [List.map_append, calls, List.length_append, List.length_singleton, List.range'_concat,
    List.map_singleton, next, Nat.one_mul, Nat.add_comm]

/-! What a thread sees of its own exchanges. -/

/-- The exchanges behind which the mutex was given back, and the one that is going on. -/
structure Exchanges where
  finished : List (Bytes × Bytes)
  current : Option (Bytes × Bytes)

section

variable {Local : Type} {answer : Local → Type}

def Exchanges.event (seen : Exchanges) : Sigma (Action.Answer answer) → Exchanges
  | ⟨.lock, _⟩ => { seen with current := some ([], []) }
  | ⟨.unlock, _⟩ => ⟨seen.finished ++ seen.current.toList, none⟩
  | ⟨.send byte, true⟩ =>
      { seen with current := seen.current.map fun (asked, got) => (asked ++ [byte], got) }
  | ⟨.recv, some byte⟩ =>
      { seen with current := seen.current.map fun (asked, got) => (asked, got ++ [byte]) }
  | _ => seen

def exchanges (history : List (Sigma (Action.Answer answer))) : Exchanges :=
  history.foldl Exchanges.event ⟨[], none⟩

theorem exchanges_snoc (history : List (Sigma (Action.Answer answer)))
    (event : Sigma (Action.Answer answer)) :
    exchanges (history ++ [event]) = (exchanges history).event event := by
  simp [exchanges]

end

/-! The invariant. -/

/-- Where the thread that has the mutex stands, with what it got of its reply so far. -/
inductive Section (rules : Rules setup) (start : setup.Store) (s : State setup) (tag : Tag)
    (program : Body setup.Local setup.Answer Bool) (log : List (Transaction setup))
    (got : Bytes) : Prop
  | asking (store : setup.Store) (server : s.server = .waiting store)
      (serial : Serial rules start log store) (whole : s.requests.map Prod.fst = s.sent)
      (quiet : s.replies = []) (nothing : got = [])
      (conforms : Conforms rules rules.ends program (.asking s.sent))
  | serving (choice : setup.Choice) (store : setup.Store) (read : Bytes)
      (current : Program Serving Serving.Answer (Option setup.Store))
      (server : s.server = .running current) (serial : Serial rules start log store)
      (begins : rules.begins choice store)
      (behind : Behind (setup.serve choice store) read (got ++ s.replies.map Prod.fst) current)
      (whole : s.sent = read ++ s.requests.map Prod.fst) (asked : s.sent ≠ [])
  | served (choice : setup.Choice) (after : setup.Store) (server : s.server = .waiting after)
      (serial : Serial rules start
        (log ++ [⟨tag, choice, s.sent, got ++ s.replies.map Prod.fst⟩]) after)
      (read : s.requests = []) (asked : s.sent ≠ [])

/-- The finished exchanges of all threads are the log, in the order of the calls. -/
structure Account (rules : Rules setup) (start : setup.Store) (log : List (Transaction setup))
    (s : State setup) : Prop where
  calls : log.map (fun transaction => transaction.tag.call) = List.range' 1 log.length
  idle : s.owner = none → s.calls = log.length ∧
    ∃ store, s.server = .waiting store ∧ Serial rules start log store
  outside : ∀ u, s.owner ≠ some u → exchanges (s.threads u).history = ⟨share u log, none⟩
  inside : ∀ t, s.owner = some t → s.calls = log.length + 1 ∧ (s.threads t).call = s.calls ∧
    ∃ got, exchanges (s.threads t).history = ⟨share t log, some (s.sent, got)⟩ ∧
      Section rules start s ⟨t, s.calls⟩ (s.threads t).program log got

theorem initial_account {rules : Rules setup} {store : setup.Store} :
    Account rules store [] (initial store) where
  calls := rfl
  idle _ := ⟨rfl, store, rfl, .nil⟩
  outside _ _ := rfl
  inside _ owner := by simp [initial] at owner

section

variable {rules : Rules setup} {start : setup.Store} {s after : State setup} {t : Nat}
  {log : List (Transaction setup)}

/-! What the conversation says. -/

theorem Invariant.conversation (invariant : Invariant rules s) (owner : s.owner = some t)
    (alive : (s.threads t).alive = true) : Conversation rules s (s.threads t).program := by
  obtain ⟨_, free, -⟩ | ⟨u, owner', -, conversation, -⟩ | ⟨u, _, -, owner', dead, -⟩ :=
    invariant.synchronous
  · rw [free] at owner
    contradiction
  · obtain rfl : u = t := Option.some.inj (owner'.symm.trans owner)
    exact conversation
  · obtain rfl : u = t := Option.some.inj (owner'.symm.trans owner)
    rw [dead] at alive
    contradiction

theorem Invariant.not_stopped (invariant : Invariant rules s) : s.server ≠ .stopped := by
  intro stopped
  obtain ⟨_, -, server, -⟩ | ⟨_, -, -, conversation, -⟩ | ⟨_, _, -, -, -, server, -⟩ :=
    invariant.synchronous
  · rw [stopped] at server
    contradiction
  · cases conversation with
    | asking _ server _ _ _ =>
        rw [stopped] at server
        contradiction
    | reading _ _ _ _ server _ _ _ _ _ =>
        rw [stopped] at server
        contradiction
    | answering _ _ server _ _ =>
        rw [stopped] at server
        contradiction
    | answered _ server _ _ =>
        rw [stopped] at server
        contradiction
  · rw [stopped] at server
    contradiction

/-- A server that has nothing to read, although something was written, has answered. -/
theorem conversation_answered {program : Body setup.Local setup.Answer Bool}
    (conversation : Conversation rules s program) {store : setup.Store}
    (waiting : s.server = .waiting store) (read : s.requests = []) (asked : s.sent ≠ []) :
    Conforms rules rules.ends program (.holding (s.replies.map Prod.fst)) := by
  cases conversation with
  | asking _ _ whole _ _ =>
      rw [read] at whole
      exact absurd whole.symm asked
  | reading _ _ _ _ running _ _ _ _ _ =>
      rw [running] at waiting
      contradiction
  | answering _ _ running _ _ =>
      rw [running] at waiting
      contradiction
  | answered _ _ _ conforms => exact conforms

/-- The server does not write before it has read the whole request. -/
theorem Invariant.answers_whole (invariant : Invariant rules s) {byte : UInt8}
    {next : Unit → Program Serving Serving.Answer (Option setup.Store)}
    (shape : s.server = .running (.perform (.send byte) next)) : s.requests = [] := by
  obtain ⟨_, -, server, -⟩ | ⟨_, -, -, conversation, -⟩ | ⟨_, _, -, -, -, server, -⟩ :=
    invariant.synchronous
  · rw [shape] at server
    contradiction
  · cases conversation with
    | asking _ server _ _ _ =>
        rw [shape] at server
        contradiction
    | reading choice store read current server begins fed whole _ conforms =>
        obtain rfl : current = .perform (.send byte) next :=
          Server.running.inj (server.symm.trans shape)
        obtain ⟨rest, accepts, reads, -⟩ := conforms_asking conforms
        have remaining := reads choice store begins
        rw [whole, List.append_assoc] at remaining
        have here := reads_fed fed remaining
        cases left : s.requests with
        | nil => rfl
        | cons first others =>
            rw [left] at here
            exact here.elim
    | answering _ _ _ read _ => exact read
    | answered _ server _ _ =>
        rw [shape] at server
        contradiction
  · rw [shape] at server
    contradiction

/-- Behind its last step for a request the server has read all of it. -/
theorem Invariant.server_rests (invariant : Invariant rules s) (step : ServerStep s after)
    {store : setup.Store} (waiting : after.server = .waiting store) : after.requests = [] := by
  cases step with
  | recv byte tag rest next shape there =>
      obtain ⟨_, -, server, -⟩ | ⟨_, -, -, conversation, -⟩ | ⟨_, _, -, -, -, server, -⟩ :=
        invariant.synchronous
      · rw [shape] at server
        contradiction
      · cases conversation with
        | asking _ server _ _ _ =>
            rw [shape] at server
            contradiction
        | reading choice store read current server begins fed whole _ conforms =>
            obtain rfl : current = .perform .recv next := Server.running.inj (server.symm.trans shape)
            obtain ⟨more, accepts, reads, -⟩ := conforms_asking conforms
            have remaining := reads choice store begins
            rw [whole, there, List.append_assoc] at remaining
            have here := reads_fed fed remaining
            have reading : Reads (rest.map Prod.fst ++ more) (next byte) accepts := here
            have later := reads_running reading
            have settled : settle (next byte) = .waiting _ := waiting
            rw [later] at settled
            contradiction
        | answering _ _ _ read _ =>
            rw [read] at there
            contradiction
        | answered _ server _ _ =>
            rw [shape] at server
            contradiction
      · rw [shape] at server
        contradiction
  | send byte next shape => exact invariant.answers_whole shape
  | unknown next shape => exact absurd shape (invariant.known next)

/-! Steps of the threads. -/

theorem Section.setThread {tag : Tag} {program : Body setup.Local setup.Answer Bool} {got : Bytes}
    (stands : Section rules start s tag program log got) (u : Nat) (thread : Thread setup) :
    Section rules start (s.setThread u thread) tag program log got := by
  cases stands with
  | asking store server serial whole quiet nothing conforms =>
      exact .asking store server serial whole quiet nothing conforms
  | serving choice store read current server serial begins behind whole asked =>
      exact .serving choice store read current server serial begins behind whole asked
  | served choice after server serial read asked => exact .served choice after server serial read asked

/-- A thread outside may do what leaves no mark on its exchanges. -/
theorem Account.outside_moves (account : Account rules start log s) (outside : s.owner ≠ some t)
    {thread : Thread setup} (same : exchanges thread.history = exchanges (s.threads t).history) :
    Account rules start log (s.setThread t thread) where
  calls := account.calls
  idle := account.idle
  outside u other := by
    by_cases equal : u = t
    · subst u
      simp only [State.setThread, Function.update_self, same]
      exact account.outside t outside
    · simp only [State.setThread, Function.update_of_ne equal]
      exact account.outside u other
  inside u owner := by
    have different : u ≠ t := by
      rintro rfl
      exact outside owner
    obtain ⟨calls, call, got, seen, stands⟩ := account.inside u owner
    simp only [State.setThread, Function.update_of_ne different]
    exact ⟨calls, call, got, seen, stands.setThread t thread⟩

/-- The owner goes on inside its exchange. -/
theorem Account.inside_moves (account : Account rules start log s) (owner : s.owner = some t)
    {thread : Thread setup} (sent : Bytes) (requests replies : List (UInt8 × Tag)) (got : Bytes)
    (call : thread.call = (s.threads t).call)
    (seen : exchanges thread.history = ⟨share t log, some (sent, got)⟩)
    (stands : Section rules start
      { s with sent := sent, requests := requests, replies := replies } ⟨t, s.calls⟩
      thread.program log got) :
    Account rules start log
      { s.setThread t thread with sent := sent, requests := requests, replies := replies } where
  calls := account.calls
  idle free := by
    have none_owner : s.owner = none := free
    rw [owner] at none_owner
    contradiction
  outside u other := by
    have different : u ≠ t := by
      rintro rfl
      exact other owner
    simp only [State.setThread, Function.update_of_ne different]
    exact account.outside u other
  inside u owner' := by
    obtain rfl : t = u := Option.some.inj (owner.symm.trans owner')
    obtain ⟨calls, sameCall, -⟩ := account.inside t owner
    simp only [State.setThread, Function.update_self]
    exact ⟨calls, call.trans sameCall, got, seen, stands.setThread t thread⟩

theorem Account.lock (account : Account rules start log s) (invariant : Invariant rules s)
    (free : s.owner = none) {next : Unit → Body setup.Local setup.Answer Bool}
    (conforms : Conforms rules rules.ends (next ()) (.asking [])) :
    Account rules start log
      { s.setThread t { (s.threads t).advance .lock () next with call := s.calls + 1 } with
        owner := some t, calls := s.calls + 1, sent := [] } where
  calls := account.calls
  idle taken := by simp at taken
  outside u other := by
    have different : u ≠ t := by
      rintro rfl
      exact other rfl
    simp only [State.setThread, Function.update_of_ne different]
    exact account.outside u (by simp [free])
  inside u owner := by
    obtain rfl : t = u := Option.some.inj owner
    obtain ⟨calls, store, server, serial⟩ := account.idle free
    obtain ⟨read, quiet⟩ := invariant.free_quiet free
    simp only [State.setThread, Thread.advance, Function.update_self]
    refine ⟨by rw [calls], trivial, [], ?_, ?_⟩
    · rw [exchanges_snoc, account.outside t (by simp [free])]
      rfl
    · refine .asking store server serial ?_ quiet rfl conforms
      simp [read]

/-- Giving the mutex back ends the exchange, and with it a transaction. -/
theorem Account.unlock (account : Account rules start log s) (invariant : Invariant rules s)
    (owner : s.owner = some t) (alive : (s.threads t).alive = true)
    {next : Unit → Body setup.Local setup.Answer Bool}
    (shape : (s.threads t).program = .perform .unlock next) :
    ∃ more, Account rules start more { s.setThread t ((s.threads t).advance .unlock () next) with
      owner := if s.owner = some t then none else s.owner } := by
  obtain ⟨calls, call, got, seen, stands⟩ := account.inside t owner
  have conversation := invariant.conversation owner alive
  rw [shape] at conversation stands
  obtain ⟨store, waiting, read, quiet, -⟩ := conversation.over (fun _ conforms => conforms) rfl
  cases stands with
  | asking _ _ _ _ _ _ conforms => exact conforms.elim
  | serving _ _ _ _ server _ _ _ _ _ =>
      rw [server] at waiting
      contradiction
  | served choice after server serial _ asked =>
      rw [quiet, List.append_nil] at serial
      refine ⟨log ++ [⟨⟨t, s.calls⟩, choice, s.sent, got⟩], ?_, ?_, ?_, ?_⟩
      · exact calls_snoc account.calls calls
      · intro _
        refine ⟨?_, after, server, serial⟩
        simp [State.setThread, calls]
      · intro u _
        by_cases equal : u = t
        · subst u
          simp only [State.setThread, Thread.advance, Function.update_self, exchanges_snoc, seen,
            share_snoc, if_true]
          rfl
        · simp only [State.setThread, Function.update_of_ne equal, share_snoc,
            if_neg (Ne.symm equal), List.append_nil]
          refine account.outside u ?_
          rw [owner]
          exact fun same => equal (Option.some.inj same).symm
      · intro u taken
        simp [owner] at taken

theorem outside_account (account : Account rules start log s) (invariant : Invariant rules s)
    {choose : (op : setup.Local) → setup.Answer op} (outside : s.owner ≠ some t)
    (alive : (s.threads t).alive = true) {ok : Bool} (succeeds : ok = true)
    (step : ThreadStep s t choose ok after) : Account rules start log after := by
  have idle := invariant.outside t outside alive
  cases step with
  | finish shape => exact account.outside_moves outside rfl
  | again shape => exact account.outside_moves outside rfl
  | lock next shape free =>
      rw [shape] at idle
      exact account.lock invariant free idle
  | unlock next shape =>
      rw [shape] at idle
      exact idle.elim
  | send byte next shape =>
      rw [shape] at idle
      exact idle.elim
  | sendFails byte next shape => contradiction
  | recv byte tag rest next shape there =>
      rw [shape] at idle
      exact idle.elim
  | recvFails next shape => contradiction
  | killed op next shape gone reaches => exact account.outside_moves outside rfl
  | own op next shape => exact account.outside_moves outside (exchanges_snoc _ _)

theorem Account.send (account : Account rules start log s) (invariant : Invariant rules s)
    (owner : s.owner = some t) (alive : (s.threads t).alive = true) {byte : UInt8}
    {next : Bool → Body setup.Local setup.Answer Bool}
    (shape : (s.threads t).program = .perform (.send byte) next) :
    Account rules start log { s.setThread t ((s.threads t).advance (.send byte) true next) with
      sent := s.sent ++ [byte], requests := s.requests ++ [(byte, ⟨t, (s.threads t).call⟩)] } := by
  obtain ⟨-, -, got, seen, stands⟩ := account.inside t owner
  have conversation := invariant.conversation owner alive
  rw [shape] at conversation stands
  refine account.inside_moves owner _ _ s.replies got rfl ?_ ?_
  · simp only [Thread.advance, exchanges_snoc, seen]
    rfl
  · cases stands with
    | asking store server serial whole quiet nothing conforms =>
        refine .asking store server serial ?_ quiet nothing conforms
        simp [whole]
    | serving choice store read current server serial begins behind whole asked =>
        refine .serving choice store read current server serial begins behind ?_ (by simp)
        simp [whole]
    | served choice after server serial read asked =>
        -- behind the reply a thread that writes would not conform
        exact (conversation_answered conversation server read asked).elim

theorem Account.recv (account : Account rules start log s) (owner : s.owner = some t)
    {byte : UInt8} {tag : Tag} {rest : List (UInt8 × Tag)}
    {next : Option UInt8 → Body setup.Local setup.Answer Bool}
    (there : s.replies = (byte, tag) :: rest) :
    Account rules start log
      { s.setThread t ((s.threads t).advance .recv (some byte) next) with replies := rest } := by
  obtain ⟨-, -, got, seen, stands⟩ := account.inside t owner
  have moved : got ++ s.replies.map Prod.fst = (got ++ [byte]) ++ rest.map Prod.fst := by
    simp [there]
  refine account.inside_moves owner s.sent s.requests _ (got ++ [byte]) rfl ?_ ?_
  · simp only [Thread.advance, exchanges_snoc, seen]
    rfl
  · cases stands with
    | asking _ _ _ _ quiet _ _ =>
        rw [quiet] at there
        contradiction
    | serving choice store read current server serial begins behind whole asked =>
        rw [moved] at behind
        exact .serving choice store read current server serial begins behind whole asked
    | served choice after server serial read asked =>
        rw [moved] at serial
        exact .served choice after server serial read asked

/-- Behind its request the owner may also do what leaves no mark on the exchange. -/
theorem Account.inside_stays (account : Account rules start log s) (owner : s.owner = some t)
    (unasked : ∀ sent, ¬Conforms rules rules.ends (s.threads t).program (.asking sent))
    {thread : Thread setup} (call : thread.call = (s.threads t).call)
    (same : exchanges thread.history = exchanges (s.threads t).history) :
    Account rules start log (s.setThread t thread) := by
  obtain ⟨-, -, got, seen, stands⟩ := account.inside t owner
  refine account.inside_moves owner s.sent s.requests s.replies got call (same.trans seen) ?_
  cases stands with
  | asking _ _ _ _ _ _ conforms => exact absurd conforms (unasked _)
  | serving choice store read current server serial begins behind whole asked =>
      exact .serving choice store read current server serial begins behind whole asked
  | served choice after server serial read asked =>
      exact .served choice after server serial read asked

theorem inside_account (account : Account rules start log s) (invariant : Invariant rules s)
    {choose : (op : setup.Local) → setup.Answer op} (owner : s.owner = some t)
    (alive : (s.threads t).alive = true)
    (spares : (s.threads t).gone = true → ∀ op next,
      (s.threads t).program = .perform (.own op) next → setup.reachesPeer op = false) {ok : Bool}
    (succeeds : ok = true) (step : ThreadStep s t choose ok after) :
    ∃ more, Account rules start more after := by
  cases step with
  | finish shape => exact ⟨log, account.inside_stays owner (by simp [shape, Conforms, Rules.ends]) rfl rfl⟩
  | again shape => exact ⟨log, account.inside_stays owner (by simp [shape, Conforms, Rules.ends]) rfl rfl⟩
  | lock next shape free =>
      rw [owner] at free
      contradiction
  | unlock next shape => exact account.unlock invariant owner alive shape
  | send byte next shape => exact ⟨log, account.send invariant owner alive shape⟩
  | sendFails byte next shape => contradiction
  | recv byte tag rest next shape there => exact ⟨log, account.recv owner there⟩
  | recvFails next shape => contradiction
  | killed op next shape gone reaches =>
      rw [spares gone op next shape] at reaches
      contradiction
  | own op next shape =>
      refine ⟨log, account.inside_stays owner ?_ rfl (exchanges_snoc _ _)⟩
      simp [shape, Conforms]

/-! Steps of the server. -/

/-- What the server does concerns the owner's exchange only. -/
theorem Account.server_moves (account : Account rules start log s)
    (requests replies : List (UInt8 × Tag)) (serving : Tag) {server : Server setup}
    (taken : s.owner ≠ none)
    (stands : ∀ t got, s.owner = some t →
      Section rules start s ⟨t, s.calls⟩ (s.threads t).program log got →
      Section rules start
        { s with requests := requests, replies := replies, server := server, serving := serving }
        ⟨t, s.calls⟩ (s.threads t).program log got) :
    Account rules start log
      { s with requests := requests, replies := replies, server := server, serving := serving } where
  calls := account.calls
  idle free := absurd free taken
  outside := account.outside
  inside t owner := by
    obtain ⟨calls, call, got, seen, before⟩ := account.inside t owner
    exact ⟨calls, call, got, seen, stands t got owner before⟩

/-- Once its program has come to an end the transaction is complete. -/
theorem section_settles {tag : Tag} {program : Body setup.Local setup.Answer Bool} {got read : Bytes}
    {choice : setup.Choice} {store : setup.Store}
    {current : Program Serving Serving.Answer (Option setup.Store)}
    (server : s.server = settle current) (running : s.server ≠ .stopped)
    (serial : Serial rules start log store) (begins : rules.begins choice store)
    (behind : Behind (setup.serve choice store) read (got ++ s.replies.map Prod.fst) current)
    (whole : s.sent = read ++ s.requests.map Prod.fst) (asked : s.sent ≠ [])
    (through : ∀ after, s.server = .waiting after → s.requests = []) :
    Section rules start s tag program log got := by
  cases current with
  | perform op next => exact .serving choice store read _ server serial begins behind whole asked
  | ret value =>
      cases value with
      | none => exact absurd server running
      | some after =>
          have done := through after server
          have answer := behind.whole
          rw [done, List.map_nil, List.append_nil] at whole
          rw [← whole] at answer
          exact .served choice after server (serial.snoc begins answer) done asked

theorem server_account (account : Account rules start log s) (invariant : Invariant rules s)
    (later : Invariant rules after) (step : ServerStep s after) : Account rules start log after := by
  have rests : ∀ {store}, after.server = .waiting store → after.requests = [] :=
    fun waiting => invariant.server_rests step waiting
  have taken : s.owner ≠ none := by
    intro free
    obtain ⟨-, _, waiting, -⟩ := account.idle free
    obtain ⟨_, running⟩ := step.running
    rw [waiting] at running
    contradiction
  cases step with
  | recv byte tag rest next shape there =>
      refine account.server_moves rest s.replies s.serving taken ?_
      intro t got owner stands
      cases stands with
      | asking _ server _ _ _ _ _ =>
          rw [server] at shape
          contradiction
      | served _ _ server _ _ _ =>
          rw [server] at shape
          contradiction
      | serving choice store read current server serial begins behind whole asked =>
          obtain rfl : current = .perform .recv next := Server.running.inj (server.symm.trans shape)
          have sent : s.sent = (read ++ [byte]) ++ rest.map Prod.fst := by
            rw [whole, there]
            simp
          exact section_settles rfl later.not_stopped serial begins (.recv byte behind) sent asked
            fun _ => rests
  | send byte next shape =>
      refine account.server_moves s.requests _ s.serving taken ?_
      intro t got owner stands
      cases stands with
      | asking _ server _ _ _ _ _ =>
          rw [server] at shape
          contradiction
      | served _ _ server _ _ _ =>
          rw [server] at shape
          contradiction
      | serving choice store read current server serial begins behind whole asked =>
          obtain rfl : current = .perform (.send byte) next :=
            Server.running.inj (server.symm.trans shape)
          refine section_settles rfl later.not_stopped serial begins ?_ whole asked fun _ => rests
          have written := behind.send
          rw [List.append_assoc] at written
          simpa using written
  | unknown next shape => exact absurd shape (invariant.known next)

theorem start_account (account : Account rules start log s) {choice : setup.Choice}
    (begins : ∀ store, s.server = .waiting store → rules.begins choice store)
    (step : s.startServer choice = some after) (invariant : Invariant rules s) :
    Account rules start log after := by
  obtain ⟨store, byte, tag, rest, waiting, there, rfl⟩ := startServer_cases step
  have taken : s.owner ≠ none := by
    intro free
    rw [(invariant.free_quiet free).1] at there
    contradiction
  refine account.server_moves s.requests s.replies tag taken ?_
  intro t got owner stands
  cases stands with
  | asking store' server serial whole quiet nothing conforms =>
      obtain rfl : store' = store := Server.waiting.inj (server.symm.trans waiting)
      obtain ⟨more, accepts, reads, -⟩ := conforms_asking conforms
      have running := reads_running (reads choice store' (begins store' server))
      refine .serving choice store' [] _ running serial (begins store' server) ?_ whole.symm ?_
      · rw [nothing, quiet]
        exact .start
      · rw [← whole, there]
        simp
  | serving _ _ _ _ server _ _ _ _ _ =>
      rw [server] at waiting
      contradiction
  | served _ _ _ _ read _ =>
      rw [read] at there
      contradiction

theorem step_account (body : Conforms rules rules.ends setup.body .idle) {label : Label setup}
    (regular : Regular rules s label) (invariant : Invariant rules s)
    (account : Account rules start log s) (step : s.step label = some after) :
    ∃ more, Account rules start more after := by
  have later := step_invariant body s label after regular invariant step
  cases label with
  | thread t choose ok =>
      obtain ⟨succeeds, -, spares⟩ := regular
      obtain ⟨alive, taken⟩ := stepThread_cases step
      by_cases owner : s.owner = some t
      · exact inside_account account invariant owner alive (spares owner) succeeds taken
      · exact ⟨log, outside_account account invariant owner alive succeeds taken⟩
  | server => exact ⟨log, server_account account invariant later (stepServer_cases step)⟩
  | start choice => exact ⟨log, start_account account regular step invariant⟩
  | vanish t =>
      simp only [State.step, Option.some.injEq] at step
      subst after
      by_cases owner : s.owner = some t
      · obtain ⟨-, -, got, seen, stands⟩ := account.inside t owner
        exact ⟨log, account.inside_moves owner s.sent s.requests s.replies got rfl seen stands⟩
      · exact ⟨log, account.outside_moves owner rfl⟩

theorem reachable_account (body : Conforms rules rules.ends setup.body .idle)
    {store : setup.Store} {labels : List (Label setup)} {s : State setup}
    (regular : Along (Regular rules) (initial store) labels)
    (run : (initial store).run labels = some s) :
    Invariant rules s ∧ ∃ log, Account rules store log s := by
  refine @run_invariant _ (Regular rules)
    (fun s => Invariant rules s ∧ ∃ log, Account rules store log s) ?_ _ _ _ regular
    ⟨initial_invariant body, [], initial_account⟩ run
  rintro s label after keeps ⟨invariant, log, account⟩ step
  exact ⟨step_invariant body s label after keeps invariant step,
    step_account body keeps invariant account step⟩

/-! What a run comes to. -/

/-- The run has the effect of its transactions one after another, and every thread has seen
its own ones. A reply may still be on its way to the thread that has the mutex. -/
structure Serialised (rules : Rules setup) (start : setup.Store) (log : List (Transaction setup))
    (s : State setup) : Prop where
  order : log.map (fun transaction => transaction.tag.call) = List.range' 1 log.length
  store : ∃ store, Serial rules start log store ∧ ∀ other, s.server = .waiting other → other = store
  seen : ∀ t, (exchanges (s.threads t).history).finished = share t log ∨
    ∃ asked got rest, s.owner = some t ∧
      (exchanges (s.threads t).history).current = some (asked, got) ∧
      share t log = (exchanges (s.threads t).history).finished ++ [(asked, got ++ rest)]

theorem run_history {labels : List (Label setup)} {u : Nat}
    (elsewhere : ∀ label ∈ labels, ∀ choose ok, label ≠ .thread u choose ok)
    (run : s.run labels = some after) : (after.threads u).history = (s.threads u).history := by
  induction labels generalizing s with
  | nil =>
      simp only [State.run, Option.some.injEq] at run
      rw [run]
  | cons label rest ih =>
      simp only [State.run, Option.bind_eq_some_iff] at run
      obtain ⟨middle, step, run⟩ := run
      rw [List.forall_mem_cons] at elsewhere
      rw [ih elsewhere.2 run]
      cases label with
      | thread t choose ok =>
          have different : u ≠ t := by
            rintro rfl
            exact elsewhere.1 choose ok rfl
          obtain ⟨-, taken⟩ := stepThread_cases step
          cases taken <;> simp [State.setThread, different]
      | server => cases stepServer_cases step <;> rfl
      | start choice =>
          obtain ⟨_, _, _, _, -, -, rfl⟩ := startServer_cases step
          rfl
      | vanish t =>
          simp only [State.step, Option.some.injEq] at step
          subst middle
          refine setThread_field Thread.history s t _ ?_ u
          rfl

theorem Account.serialised (account : Account rules start log s) :
    ∃ more, Serialised rules start more s := by
  cases owner : s.owner with
  | none =>
      obtain ⟨-, store, server, serial⟩ := account.idle owner
      refine ⟨log, account.calls, ⟨store, serial, ?_⟩, ?_⟩
      · intro other waiting
        exact (Server.waiting.inj (server.symm.trans waiting)).symm
      · intro t
        rw [account.outside t (by simp [owner])]
        exact .inl rfl
  | some t =>
      obtain ⟨calls, -, got, seen, stands⟩ := account.inside t owner
      have elsewhere : ∀ u, u ≠ t → exchanges (s.threads u).history = ⟨share u log, none⟩ := by
        intro u different
        refine account.outside u ?_
        rw [owner]
        exact fun same => different (Option.some.inj same).symm
      have unfinished : ∀ u, (exchanges (s.threads u).history).finished = share u log := by
        intro u
        by_cases same : u = t
        · rw [same, seen]
        · rw [elsewhere u same]
      cases stands with
      | asking store server serial _ _ _ _ =>
          refine ⟨log, account.calls, ⟨store, serial, ?_⟩, fun u => .inl (unfinished u)⟩
          intro other waiting
          exact (Server.waiting.inj (server.symm.trans waiting)).symm
      | serving choice store _ _ server serial _ _ _ _ =>
          refine ⟨log, account.calls, ⟨store, serial, ?_⟩, fun u => .inl (unfinished u)⟩
          intro other waiting
          rw [server] at waiting
          contradiction
      | served choice after server serial _ _ =>
          refine ⟨_, ?_, ⟨after, serial, ?_⟩, ?_⟩
          · exact calls_snoc account.calls calls
          · intro other waiting
            exact (Server.waiting.inj (server.symm.trans waiting)).symm
          · intro u
            by_cases same : u = t
            · subst u
              refine .inr ⟨s.sent, got, s.replies.map Prod.fst, owner, ?_, ?_⟩
              · rw [seen]
              · rw [seen, share_snoc, if_pos rfl]
            · refine .inl ?_
              rw [unfinished u, share_snoc, if_neg (Ne.symm same), List.append_nil]

theorem run_serialised (body : Conforms rules rules.ends setup.body .idle)
    {store : setup.Store} {labels : List (Label setup)} {s : State setup}
    (regular : Along (Regular rules) (initial store) labels)
    (run : (initial store).run labels = some s) : ∃ log, Serialised rules store log s := by
  obtain ⟨-, log, account⟩ := reachable_account body regular run
  exact account.serialised

theorem bury_history (s : State setup) (t u : Nat) : ((s.bury t).threads u).history = (s.threads u).history :=
  setThread_field Thread.history s t { s.threads t with alive := false } rfl u

theorem Serialised.bury (serialised : Serialised rules start log s) (t : Nat) :
    Serialised rules start log (s.bury t) where
  order := serialised.order
  store := serialised.store
  seen u := by
    rw [bury_history]
    exact serialised.seen u

/-- So is a run in the course of which an owner may be killed. -/
theorem admitted_serialised (body : Conforms rules rules.ends setup.body .idle)
    {store : setup.Store} {labels : List (Label setup)} {s : State setup}
    (admitted : Along (Admitted rules) (initial store) labels)
    (run : (initial store).run labels = some s) : ∃ log, Serialised rules store log s := by
  obtain ⟨kept, last, regular, reached, same⟩ := run_spared admitted run
  obtain ⟨log, serialised⟩ := run_serialised body regular reached
  rcases same with rfl | ⟨t, -, rfl⟩
  · exact ⟨log, serialised⟩
  · exact ⟨log, serialised.bury t⟩

end

end SharedPipe
