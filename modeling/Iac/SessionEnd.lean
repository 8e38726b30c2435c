import Mathlib.Logic.Relation
import Iac.Interruption

/-! A session over a socket, step by step: the client and its forked server with the two
directions of their connection, until both have shut it down. -/

namespace Iac

open CText Interaction SharedPipe Relation

/-! The two processes. -/

/-- `given` and `got` belong to the loop of `ensureWrite` or `ensureRead` that it is in. -/
structure Party (α : Type) where
  program : ForkedProgram α
  given : Bytes
  got : Bytes
  gone : Bool

/-- One process with what comes in and what goes out; `late` is set by a write that finds the
connection shut down. -/
structure Line (α : Type) where
  party : Party α
  incoming : Bytes
  outgoing : Bytes
  late : Bool

/-- A piece of a transfer, its end, any other call, or what follows the end of the program. -/
inductive Act {α : Type} (again : α → Option (ForkedProgram α)) (peerGone : Bool) :
    Line α → Line α → Prop
  | write {src given piece left incoming outgoing : Bytes} {next : Bool → ForkedProgram α}
      {late : Bool} (some_bytes : piece ≠ []) (split : src = given ++ (piece ++ left))
      (open_still : peerGone = false) :
      Act again peerGone
        ⟨⟨.perform (.own (.write src)) next, given, [], false⟩, incoming, outgoing, late⟩
        ⟨⟨.perform (.own (.write src)) next, given ++ piece, [], false⟩, incoming, outgoing ++ piece, late⟩
  | written {src incoming outgoing : Bytes} {next : Bool → ForkedProgram α} {late : Bool} :
      Act again peerGone ⟨⟨.perform (.own (.write src)) next, src, [], false⟩, incoming, outgoing, late⟩
        ⟨⟨next true, [], [], false⟩, incoming, outgoing, late⟩
  | refused {src given incoming outgoing : Bytes} {next : Bool → ForkedProgram α} {late : Bool}
      (more : given ≠ src) (shut_down : peerGone = true) :
      Act again peerGone ⟨⟨.perform (.own (.write src)) next, given, [], false⟩, incoming, outgoing, late⟩
        ⟨⟨next false, [], [], false⟩, incoming, outgoing, true⟩
  | read {program : ForkedProgram α} {bytes : Nat} {next : Arrived bytes → ForkedProgram α}
      {got piece incoming outgoing : Bytes} {late : Bool} (wants : Wants program bytes next)
      (some_bytes : piece ≠ []) (most : (got ++ piece).length ≤ bytes) :
      Act again peerGone ⟨⟨program, [], got, false⟩, piece ++ incoming, outgoing, late⟩
        ⟨⟨program, [], got ++ piece, false⟩, incoming, outgoing, late⟩
  | arrived {program : ForkedProgram α} {bytes : Nat} {next : Arrived bytes → ForkedProgram α}
      {got incoming outgoing : Bytes} {late : Bool} (wants : Wants program bytes next)
      (whole : got.length = bytes) :
      Act again peerGone ⟨⟨program, [], got, false⟩, incoming, outgoing, late⟩
        ⟨⟨next ⟨got, Nat.le_of_eq whole⟩, [], [], false⟩, incoming, outgoing, late⟩
  | other {op : Action Local} {next : Action.Answer Local.Answer op → ForkedProgram α}
      {answer : Action.Answer Local.Answer op} {traffic : Traffic} {incoming outgoing : Bytes}
      {late : Bool} (succeeds : moves op answer = some traffic) (unread : traffic.fromPeer = [])
      (unwritten : traffic.toPeer = []) :
      Act again peerGone ⟨⟨.perform op next, [], [], false⟩, incoming, outgoing, late⟩
        ⟨⟨next answer, [], [], false⟩, incoming, outgoing, late⟩
  | repeated {value : α} {program : ForkedProgram α} {incoming outgoing : Bytes} {late : Bool}
      (more : again value = some program) :
      Act again peerGone ⟨⟨.ret value, [], [], false⟩, incoming, outgoing, late⟩
        ⟨⟨program, [], [], false⟩, incoming, outgoing, late⟩
  | shutdown {value : α} {incoming outgoing : Bytes} {late : Bool} (last : again value = none) :
      Act again peerGone ⟨⟨.ret value, [], [], false⟩, incoming, outgoing, late⟩
        ⟨⟨.ret value, [], [], true⟩, incoming, outgoing, late⟩

structure Dialogue where
  client : Party Unit
  server : Party Bool
  up : Bytes
  down : Bytes
  late : Bool

def once (_ : Unit) : Option (ForkedProgram Unit) := none

def untilDone (done : Bool) : Option (ForkedProgram Bool) :=
  if done then none else some (forkedServer .sockets)

inductive Dialogue.Step : Dialogue → Dialogue → Prop
  | client {s : Dialogue} {client : Party Unit} {up down : Bytes} {late : Bool}
      (acts : Act once s.server.gone ⟨s.client, s.down, s.up, s.late⟩ ⟨client, down, up, late⟩) :
      Step s { s with client, up, down, late }
  | server {s : Dialogue} {server : Party Bool} {up down : Bytes} {late : Bool}
      (acts : Act untilDone s.client.gone ⟨s.server, s.up, s.down, s.late⟩ ⟨server, up, down, late⟩) :
      Step s { s with server, up, down, late }

def Dialogue.opened (visits : List Client.Visit) : Dialogue where
  client := ⟨Client.main .sockets visits, [], [], false⟩
  server := ⟨forkedServer .sockets, [], [], false⟩
  up := []
  down := []
  late := false

structure Dialogue.Ended (visits : List Client.Visit) (s : Dialogue) : Prop where
  reached : ReflTransGen Step (opened visits) s
  client : s.client.gone = true
  server : s.server.gone = true

/-- No write came too late, and in the end all that was sent has been received. -/
def Dialogue.Cleanly (s : Dialogue) : Prop :=
  s.late = false ∧ (s.client.gone = true → s.server.gone = true → s.up = [] ∧ s.down = [])

/-! What one step does to what was sent. -/

section

variable {α : Type} {again : α → Option (ForkedProgram α)} {peerGone : Bool} {line after : Line α}

theorem Act.late_of (acts : Act again peerGone line after) (punctual : after.late = false) :
    line.late = false := by
  cases acts with
  | refused => contradiction
  | _ => exact punctual

end

/-- With the bytes sent so far the client is where a session may be. -/
def SendsSession (sent : Bytes) (client : Party Unit) : Prop :=
  ∃ soFar, sent = soFar ++ client.given ∧
    ClientEmits (InSession .sockets) (fun _ after => ∃ commands, after = sessionBytes .sockets commands)
      client.program soFar

theorem succeeds_begun {op : Action Local} {answer : Action.Answer Local.Answer op} {traffic : Traffic}
    (succeeds : moves op answer = some traffic) :
    clientOutlet.works ⟨op, answer⟩ ∧ clientOutlet.begun op = traffic.toPeer := by
  refine ⟨?_, ?_⟩
  · rintro data same
    cases same
    contradiction
  cases op with
  | lock =>
      cases succeeds
      rfl
  | unlock =>
      cases succeeds
      rfl
  | send byte =>
      obtain ⟨_, ⟨⟩⟩ := Option.ite_none_right_eq_some.mp succeeds
      rfl
  | recv =>
      obtain ⟨byte, _, rfl⟩ := Option.map_eq_some_iff.mp succeeds
      rfl
  | undefined => exact nomatch (answer : Empty)
  | own op =>
      cases op with
      | readLength =>
          obtain ⟨_, ⟨⟩⟩ := Option.ite_none_right_eq_some.mp succeeds
          rfl
      | readData size =>
          obtain ⟨_, ⟨⟩⟩ := Option.ite_none_right_eq_some.mp succeeds
          rfl
      | readNull => contradiction
      | write data =>
          obtain ⟨_, ⟨⟩⟩ := Option.ite_none_right_eq_some.mp succeeds
          rfl
      | malloc size =>
          obtain ⟨block, _, rfl⟩ := Option.map_eq_some_iff.mp succeeds
          rfl
      | uninitialised size =>
          cases succeeds
          rfl
      | note note =>
          cases succeeds
          rfl

theorem Wants.succeeds {α : Type} {program : ForkedProgram α} {bytes : Nat}
    {next : Arrived bytes → ForkedProgram α} (wants : Wants program bytes next) {got : Bytes}
    (whole : got.length = bytes) : ∃ op step answer, program = .perform op step ∧
      moves op answer = some { fromPeer := got } ∧ step answer = next ⟨got, Nat.le_of_eq whole⟩ := by
  cases wants with
  | length =>
      exact ⟨.own .readLength, _, ⟨got, Nat.le_of_eq whole⟩, rfl, if_pos whole, rfl⟩
  | data =>
      exact ⟨.own (.readData bytes), next, ⟨got, Nat.le_of_eq whole⟩, rfl, if_pos whole, rfl⟩

theorem emits_succeeds {α : Type} {allowed : Bytes → Prop} {ends : α → Bytes → Prop}
    {op : Action Local} {next : Action.Answer Local.Answer op → ForkedProgram α}
    {answer : Action.Answer Local.Answer op} {traffic : Traffic} {soFar : Bytes}
    (succeeds : moves op answer = some traffic) (unwritten : traffic.toPeer = [])
    (emits : ClientEmits allowed ends (.perform op next) soFar) :
    ClientEmits allowed ends (next answer) soFar := by
  obtain ⟨works, begun⟩ := succeeds_begun succeeds
  cases emits with
  | perform here later =>
      have emits := later answer works
      rw [begun, unwritten, List.append_nil] at emits
      exact emits

theorem SendsSession.next {sent : Bytes} {peerGone : Bool} {line after : Line Unit}
    (acts : Act once peerGone line after) (punctual : after.late = false)
    (sends : SendsSession sent line.party) :
    ∃ more, after.outgoing = line.outgoing ++ more ∧ SendsSession (sent ++ more) after.party := by
  obtain ⟨soFar, rfl, emits⟩ := sends
  cases acts with
  | @write src given piece left incoming outgoing next late some_bytes split open_still =>
      exact ⟨piece, rfl, soFar, List.append_assoc _ _ _, emits⟩
  | @written src incoming outgoing next late =>
      cases emits with
      | perform here later =>
          have works : clientOutlet.works ⟨.own (.write src), true⟩ := fun data same => by cases same
          exact ⟨[], (List.append_nil _).symm, _, rfl, later true works⟩
  | refused => contradiction
  | read => exact ⟨[], (List.append_nil _).symm, soFar, List.append_nil _, emits⟩
  | arrived wants whole =>
      refine ⟨[], (List.append_nil _).symm, soFar, List.append_nil _, ?_⟩
      obtain ⟨op, step, answer, rfl, succeeds, same⟩ := wants.succeeds whole
      rw [← same]
      exact emits_succeeds succeeds rfl emits
  | other succeeds unread unwritten =>
      exact ⟨[], (List.append_nil _).symm, soFar, List.append_nil _,
        emits_succeeds succeeds unwritten emits⟩
  | repeated more => contradiction
  | shutdown last => exact ⟨[], (List.append_nil _).symm, soFar, List.append_nil _, emits⟩

/-- What the server has read: rounds that went well, and the beginning of one more. -/
def HearsSession (heard : Bytes) (server : Party Bool) : Prop :=
  ∃ past done, heard = past ++ (done.fromPeer ++ server.got) ∧
    (∀ later, Hears .sockets later → Hears .sockets (past ++ later)) ∧
    ∀ rest value, Runs moves server.program rest value →
      Runs moves (forkedServer .sockets) (done * rest) value

theorem pursues {α : Type} {whole : ForkedProgram α} {op : Action Local}
    {next : Action.Answer Local.Answer op → ForkedProgram α} {done traffic : Traffic}
    {answer : Action.Answer Local.Answer op} (succeeds : moves op answer = some traffic)
    (goes : ∀ rest value, Runs moves (.perform op next) rest value → Runs moves whole (done * rest) value) :
    ∀ rest value, Runs moves (next answer) rest value → Runs moves whole (done * traffic * rest) value := by
  intro rest value runs
  rw [mul_assoc]
  exact goes _ _ (.perform answer succeeds runs)

theorem HearsSession.next {heard : Bytes} {peerGone : Bool} {line after : Line Bool}
    (acts : Act untilDone peerGone line after) (punctual : after.late = false)
    (hears : HearsSession heard line.party) :
    ∃ more, line.incoming = more ++ after.incoming ∧ HearsSession (heard ++ more) after.party := by
  obtain ⟨past, done, rfl, rounds, goes⟩ := hears
  cases acts with
  | write some_bytes split open_still => exact ⟨[], rfl, past, done, List.append_nil _, rounds, goes⟩
  | @written src =>
      refine ⟨[], rfl, past, done * { toPeer := src }, ?_, rounds, pursues rfl goes⟩
      simp only [List.append_nil, mul_fromPeer]
  | refused => contradiction
  | @read program bytes next got piece =>
      exact ⟨piece, rfl, past, done, by simp only [List.append_assoc], rounds, goes⟩
  | @arrived program bytes next got incoming outgoing late wants whole =>
      refine ⟨[], rfl, past, done * { fromPeer := got }, ?_, rounds, ?_⟩
      · rw [List.append_nil, mul_fromPeer, List.append_nil]
      · obtain ⟨op, step, answer, rfl, succeeds, same⟩ := wants.succeeds whole
        dsimp only
        rw [← same]
        exact pursues succeeds goes
  | @other op next answer traffic incoming outgoing late succeeds unread =>
      refine ⟨[], rfl, past, done * traffic, ?_, rounds, pursues succeeds goes⟩
      rw [List.append_nil, mul_fromPeer, unread, List.append_nil, List.append_nil]
  | @repeated value program incoming outgoing late more =>
      have ended := goes 1 value (.ret value)
      cases value with
      | true => contradiction
      | false =>
          obtain rfl := Option.some.inj more
          refine ⟨[], rfl, past ++ done.fromPeer, 1, ?_, ?_, ?_⟩
          · simp only [List.append_nil, one_fromPeer]
          · intro later hears
            rw [List.append_assoc]
            refine rounds _ ?_
            rw [mul_one] at ended
            exact .next ended hears
          · intro rest value runs
            rw [one_mul]
            exact runs
  | shutdown last => exact ⟨[], rfl, past, done, List.append_nil _, rounds, goes⟩

/-! Whole runs. -/

/-- A process that is gone is through with its program. -/
def Party.Rests {α : Type} (again : α → Option (ForkedProgram α)) (party : Party α) : Prop :=
  party.gone = true → ∃ value, again value = none ∧ party = ⟨.ret value, [], [], true⟩

theorem Act.rests {α : Type} {again : α → Option (ForkedProgram α)} {peerGone : Bool}
    {line after : Line α} (acts : Act again peerGone line after) : after.party.Rests again := by
  intro gone
  cases acts with
  | shutdown last => exact ⟨_, last, rfl⟩
  | _ => contradiction

/-- Until a write comes too late, what was sent is what was received and what is in flight. -/
structure Dialogue.Going (s : Dialogue) : Prop where
  clientRests : s.client.Rests once
  serverRests : s.server.Rests untilDone
  bytes : s.late = false → ∃ heard, SendsSession (heard ++ s.up) s.client ∧ HearsSession heard s.server

theorem opened_going (visits : List Client.Visit) : (Dialogue.opened visits).Going where
  clientRests gone := nomatch gone
  serverRests gone := nomatch gone
  bytes _ := by
    refine ⟨[], ⟨[], rfl, emits_main visits⟩, [], 1, rfl, fun _ hears => hears, ?_⟩
    intro rest value runs
    rw [one_mul]
    exact runs

theorem Dialogue.Step.going {s after : Dialogue} (step : Step s after) (going : s.Going) : after.Going := by
  cases step with
  | client acts =>
      refine ⟨acts.rests, going.serverRests, ?_⟩
      intro punctual
      obtain ⟨heard, sends, hears⟩ := going.bytes (acts.late_of punctual)
      obtain ⟨more, written, later⟩ := sends.next acts punctual
      dsimp only at written later
      rw [List.append_assoc, ← written] at later
      exact ⟨heard, later, hears⟩
  | server acts =>
      refine ⟨going.clientRests, acts.rests, ?_⟩
      intro punctual
      obtain ⟨heard, sends, hears⟩ := going.bytes (acts.late_of punctual)
      obtain ⟨more, read, later⟩ := hears.next acts punctual
      dsimp only at read later
      rw [read, ← List.append_assoc] at sends
      exact ⟨heard ++ more, sends, later⟩

theorem reached_going {visits : List Client.Visit} {s : Dialogue}
    (reached : ReflTransGen Dialogue.Step (.opened visits) s) : s.Going := by
  induction reached with
  | refl => exact opened_going visits
  | tail _ step ih => exact step.going ih

/-- If no write comes too late, the server leaves the second of the client's closing messages. -/
theorem second_close_left {visits : List Client.Visit} {s : Dialogue} (ended : s.Ended visits)
    (punctual : s.late = false) : s.up = frame (intBytes messageClose) := by
  have going := reached_going ended.reached
  obtain ⟨_, _, client⟩ := going.clientRests ended.client
  obtain ⟨value, last, server⟩ := going.serverRests ended.server
  obtain ⟨heard, ⟨soFar, sent, emits⟩, past, done, heard_eq, rounds, goes⟩ := going.bytes punctual
  rw [client] at sent emits
  rw [server] at heard_eq goes
  cases emits with
  | ret session =>
      obtain ⟨commands, rfl⟩ := session
      rw [sessionBytes, goodbye, farewell, List.flatMap_singleton, List.append_nil] at sent
      cases value with
      | false => contradiction
      | true =>
          have finished := rounds _ (.last (goes 1 true (.ret true)))
          rw [mul_one] at finished
          rw [List.append_nil] at heard_eq
          rw [heard_eq] at sent
          have heard := hears_commands finished ⟨_, sent⟩
          rw [heard, List.append_assoc] at sent
          exact List.append_cancel_left (List.append_cancel_left sent)

/-! Sessions come to an end. -/

section

variable {α β : Type} {again : β → Option (ForkedProgram β)}

theorem quiet_acts {op : Action Local} {answer : Action.Answer Local.Answer op} {traffic : Traffic}
    (succeeds : moves op answer = some traffic) (unread : traffic.fromPeer = [])
    (unwritten : traffic.toPeer = []) (next : Action.Answer Local.Answer op → ForkedProgram β)
    (incoming outgoing : Bytes) (late : Bool) :
    ReflTransGen (Act again false)
      ⟨⟨.perform op next, [], [], false⟩, traffic.fromPeer ++ incoming, outgoing, late⟩
      ⟨⟨next answer, [], [], false⟩, incoming, outgoing ++ traffic.toPeer, late⟩ := by
  rw [unread, unwritten, List.append_nil]
  exact .single (.other succeeds unread unwritten)

theorem read_acts {program : ForkedProgram β} {bytes : Nat} {next : Arrived bytes → ForkedProgram β}
    (wants : Wants program bytes next) (arrived : Arrived bytes) (whole : arrived.val.length = bytes)
    (incoming outgoing : Bytes) (late : Bool) :
    ReflTransGen (Act again false)
      ⟨⟨program, [], [], false⟩, arrived.val ++ incoming, outgoing, late⟩
      ⟨⟨next arrived, [], [], false⟩, incoming, outgoing ++ [], late⟩ := by
  rw [List.append_nil]
  obtain ⟨got, most⟩ := arrived
  by_cases empty : got = []
  · subst empty
    exact .single (.arrived wants whole)
  · exact (ReflTransGen.single (.read wants empty most)).tail (.arrived wants whole)

theorem call_acts {op : Action Local} {answer : Action.Answer Local.Answer op} {traffic : Traffic}
    (succeeds : moves op answer = some traffic) (next : Action.Answer Local.Answer op → ForkedProgram β)
    (incoming outgoing : Bytes) (late : Bool) :
    ReflTransGen (Act again false)
      ⟨⟨.perform op next, [], [], false⟩, traffic.fromPeer ++ incoming, outgoing, late⟩
      ⟨⟨next answer, [], [], false⟩, incoming, outgoing ++ traffic.toPeer, late⟩ := by
  have quiet := @quiet_acts β again _ _ _ succeeds
  cases op with
  | lock =>
      cases succeeds
      exact quiet rfl rfl next incoming outgoing late
  | unlock =>
      cases succeeds
      exact quiet rfl rfl next incoming outgoing late
  | send byte =>
      obtain ⟨_, ⟨⟩⟩ := Option.ite_none_right_eq_some.mp succeeds
      exact quiet rfl rfl next incoming outgoing late
  | recv =>
      obtain ⟨_, _, rfl⟩ := Option.map_eq_some_iff.mp succeeds
      exact quiet rfl rfl next incoming outgoing late
  | undefined => exact nomatch (answer : Empty)
  | own op =>
      cases op with
      | readLength =>
          obtain ⟨whole, ⟨⟩⟩ := Option.ite_none_right_eq_some.mp succeeds
          exact read_acts (.length next) answer whole incoming outgoing late
      | readData size =>
          obtain ⟨whole, ⟨⟩⟩ := Option.ite_none_right_eq_some.mp succeeds
          exact read_acts (.data size next) answer whole incoming outgoing late
      | readNull => contradiction
      | write data =>
          obtain ⟨sent, ⟨⟩⟩ := Option.ite_none_right_eq_some.mp succeeds
          obtain rfl : answer = true := sent
          by_cases empty : data = []
          · subst empty
            rw [List.append_nil]
            exact .single .written
          · exact (ReflTransGen.single (.write empty (List.append_nil data).symm rfl)).tail .written
      | malloc size =>
          obtain ⟨_, _, rfl⟩ := Option.map_eq_some_iff.mp succeeds
          exact quiet rfl rfl next incoming outgoing late
      | uninitialised size =>
          cases succeeds
          exact quiet rfl rfl next incoming outgoing late
      | note note =>
          cases succeeds
          exact quiet rfl rfl next incoming outgoing late

/-- While the other side is there, a run of a program is a run of the process. -/
theorem runs_acts {program : ForkedProgram α} {traffic : Traffic} {value : α}
    (runs : Runs moves program traffic value) (after : α → ForkedProgram β)
    (incoming outgoing : Bytes) (late : Bool) :
    ReflTransGen (Act again false)
      ⟨⟨program >>= after, [], [], false⟩, traffic.fromPeer ++ incoming, outgoing, late⟩
      ⟨⟨after value, [], [], false⟩, incoming, outgoing ++ traffic.toPeer, late⟩ := by
  induction runs generalizing outgoing with
  | ret value =>
      rw [Program.ret_bind, one_toPeer, one_fromPeer, List.append_nil]
      exact .refl
  | @perform op next first rest value answer known behind ih =>
      rw [Program.perform_bind, mul_fromPeer, mul_toPeer, List.append_assoc first.fromPeer,
        ← List.append_assoc outgoing]
      exact (call_acts known _ _ outgoing late).trans (ih (outgoing ++ first.toPeer))

theorem client_runs {program : ForkedProgram α} {traffic : Traffic} {value : α}
    (runs : Runs moves program traffic value) (after : α → ForkedProgram Unit) {server : Party Bool}
    (there : server.gone = false) (up down : Bytes) (late : Bool) :
    ReflTransGen Dialogue.Step
      ⟨⟨program >>= after, [], [], false⟩, server, up, traffic.fromPeer ++ down, late⟩
      ⟨⟨after value, [], [], false⟩, server, up ++ traffic.toPeer, down, late⟩ := by
  let view (line : Line Unit) : Dialogue := ⟨line.party, server, line.outgoing, line.incoming, line.late⟩
  have step : ∀ line next, Act once false line next → Dialogue.Step (view line) (view next) := by
    intro line next act
    rw [← there] at act
    exact .client act
  exact ReflTransGen.lift view step _ _ (runs_acts runs after down up late)

theorem server_runs {program : ForkedProgram Bool} {traffic : Traffic} {value : Bool}
    (runs : Runs moves program traffic value) {client : Party Unit} (there : client.gone = false)
    (up down : Bytes) (late : Bool) :
    ReflTransGen Dialogue.Step
      ⟨client, ⟨program, [], [], false⟩, traffic.fromPeer ++ up, down, late⟩
      ⟨client, ⟨.ret value, [], [], false⟩, up, down ++ traffic.toPeer, late⟩ := by
  let view (line : Line Bool) : Dialogue := ⟨client, line.party, line.incoming, line.outgoing, line.late⟩
  have step : ∀ line next, Act untilDone false line next → Dialogue.Step (view line) (view next) := by
    intro line next act
    rw [← there] at act
    exact .server act
  have acts := ReflTransGen.lift view step _ _ (runs_acts runs .ret up down late)
  rw [Program.bind_ret] at acts
  exact acts

end

theorem main_eq (visits : List Client.Visit) :
    ∃ (receive : ForkedProgram (Option (Int32 × List Product)))
      (after : Option (Int32 × List Product) → ForkedProgram Unit),
    Client.main .sockets visits =
        (sendInt (intBytes cmdGetProducts) >>= fun _ => receive >>= after) ∧
      after none = Client.disconnect .sockets ∧
      Runs moves receive { fromPeer := frame (intBytes messageError) } none := by
  obtain ⟨receive, asks⟩ : ∃ receive, Client.requestProducts .sockets =
      (sendInt (intBytes cmdGetProducts) >>= fun _ => receive) := ⟨_, rfl⟩
  obtain ⟨after, whole, rest⟩ : ∃ after, Client.main .sockets visits =
      (Client.requestProducts .sockets >>= after) ∧ after none = Client.disconnect .sockets := ⟨_, rfl, rfl⟩
  refine ⟨receive, after, ?_, rest, ?_⟩
  · rw [whole, asks, Program.bind_assoc]
  · have refused : Listed (bytesInt ((intBytes messageError).take 4)) [] none := .error (by decide)
    have fetches := (@runs_clientProducts .sockets _ none).mpr
      ⟨intBytes messageError, [], by decide, by decide, refused, rfl⟩
    rw [asks, runs_bind_of fun _ _ => runs_sendInt (intBytes_length cmdGetProducts)] at fetches
    obtain ⟨traffic, receives, shape⟩ := fetches
    have same : traffic = { fromPeer := frame (intBytes messageError) } := by
      obtain ⟨requests, replies, received, sent⟩ := Traffic.ext_iff.mp shape
      apply Traffic.ext
      · exact requests.symm
      · exact replies.symm
      · exact received.symm.trans (List.append_nil _)
      · exact List.append_cancel_left (sent.symm.trans (List.append_nil _).symm)
    rw [← same]
    exact receives

/-- For instance if the products cannot be fetched: the menu is left out, and no write is late
if the server waits for all that the client sends. -/
theorem session_ends (visits : List Client.Visit) : ∃ s : Dialogue, s.Ended visits ∧ s.late = false := by
  obtain ⟨receive, after, whole, rest, receives⟩ := main_eq visits
  have asks := (@runs_sendInt (intBytes cmdGetProducts) rfl _ true).mpr ⟨rfl, rfl⟩
  have refuses : Runs moves (forkedServer .sockets)
      { fromPeer := frame (intBytes cmdGetProducts), toPeer := frame (intBytes messageError) ++ [],
        toServer := intBytes cmdGetProducts, fromServer := intBytes messageError ++ [] } false :=
    runs_forkedServer_products.mpr ⟨intBytes messageError, [], none, [], rfl, .error (by decide), .nil,
      rfl, rfl, rfl⟩
  have leaves := (@runs_disconnect .sockets _ ()).mpr rfl
  have closes : Runs moves (forkedServer .sockets) ({ fromPeer := frame (intBytes messageClose) } *
      { toPeer := (farewell .sockets).flatMap frame }) true :=
    runs_forkedServer.mpr ⟨intBytes messageClose, _, by decide, by decide,
      runs_execute_close.mpr ⟨rfl, rfl⟩, rfl⟩
  have first : ReflTransGen Dialogue.Step (.opened visits)
      ⟨⟨receive >>= after, [], [], false⟩, ⟨forkedServer .sockets, [], [], false⟩,
        frame (intBytes cmdGetProducts) ++ [], [], false⟩ := by
    rw [Dialogue.opened, whole, List.append_nil]
    exact client_runs asks _ rfl [] [] false
  have second := @server_runs _ _ _ refuses ⟨receive >>= after, [], [], false⟩ rfl [] [] false
  have third := @client_runs _ _ _ _ receives after ⟨forkedServer .sockets, [], [], false⟩ rfl [] [] false
  have fourth := @client_runs _ _ _ _ leaves .ret ⟨forkedServer .sockets, [], [], false⟩ rfl [] [] false
  have fifth := @server_runs _ _ _ closes ⟨.ret (), [], [], false⟩ rfl
    ((farewell .sockets).flatMap frame) [] false
  rw [rest] at third
  rw [Program.bind_ret] at fourth
  refine ⟨_, ⟨(first.trans second).tail (.server (.repeated rfl)) |>.trans third |>.trans fourth |>.trans
    fifth |>.tail (.client (.shutdown rfl)) |>.tail (.server (.shutdown rfl)), rfl, rfl⟩, rfl⟩

/-- Each session comes to an end in some run, and in no run that does so it closes cleanly. -/
theorem sessions_never_clean (visits : List Client.Visit) :
    (∃ s : Dialogue, s.Ended visits) ∧ ∀ s : Dialogue, s.Ended visits → ¬s.Cleanly := by
  constructor
  · obtain ⟨s, ended, _⟩ := session_ends visits
    exact ⟨s, ended⟩
  · rintro s ended ⟨punctual, empty⟩
    have left_over := second_close_left ended punctual
    rw [(empty ended.client ended.server).1] at left_over
    exact frame_ne_nil _ left_over.symm

/-- Without a visit to the menu. -/
theorem closing_message_left : ∃ s : Dialogue, s.Ended [] ∧ ¬s.Cleanly := by
  obtain ⟨s, ended, punctual⟩ := session_ends []
  refine ⟨s, ended, ?_⟩
  rintro ⟨_, empty⟩
  have left_over := second_close_left ended punctual
  rw [(empty ended.client ended.server).1] at left_over
  contradiction

end Iac
