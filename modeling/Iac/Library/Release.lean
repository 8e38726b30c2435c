import Iac.Library.Inevitable
import Iac.Library.Transactions

/-! Whoever takes the mutex gives it back: neither a thread nor the server can get stuck in an
exchange, and an exchange cannot go on for ever. -/

namespace SharedPipe

open CText Interaction Inevitable

variable {setup : Setup}

inductive Reachable (rules : Rules setup) (start : setup.Store) : State setup → Prop
  | initial : Reachable rules start (initial start)
  | step {s after : State setup} (before : Reachable rules start s) (label : Label setup)
      (regular : Regular rules s label) (step : s.step label = some after) :
      Reachable rules start after

/-- A step of the thread or of the server. -/
def Label.serves (t : Nat) : Label setup → Prop
  | .thread u _ _ => u = t
  | .server => True
  | .start _ => True
  | .vanish _ => False

/-- A step of another thread. -/
def Label.elsewhere (t : Nat) : Label setup → Prop
  | .thread u _ _ => u ≠ t
  | .vanish u => u ≠ t
  | _ => False

def Goes (rules : Rules setup) (allowed : Label setup → Prop) (s after : State setup) : Prop :=
  ∃ label, allowed label ∧ Regular rules s label ∧ s.step label = some after

/-- A step of the thread or of the server, behind any number of steps of the others. -/
def Turn (rules : Rules setup) (t : Nat) (s after : State setup) : Prop :=
  ∃ middle, Relation.ReflTransGen (Goes rules (Label.elsewhere t)) s middle ∧
    Goes rules (Label.serves t) middle after

/-- The thread does not have the mutex, or the next step of its exchange is undefined. -/
inductive Released (t : Nat) (s : State setup) : Prop
  | free (owner : s.owner ≠ some t)
  | thread (next : Empty → Body setup.Local setup.Answer Bool)
      (shape : (s.threads t).program = .perform .undefined next)
  | server (next : Empty → Program Serving Serving.Answer (Option setup.Store))
      (shape : s.server = .running (.perform .undefined next))

/-- A thread with the mutex, whose peer is still there. If the server has not yet begun with
its request, it is willing to begin. -/
structure Busy (rules : Rules setup) (start : setup.Store) (t : Nat) (s : State setup) : Prop where
  reachable : Reachable rules start s
  owner : s.owner = some t
  present : (s.threads t).gone = false
  willing : ∀ store, s.server = .waiting store →
    (∃ choice, rules.begins choice store) ∨ (s.requests = [] ∧ s.sent ≠ [])

section

variable {rules : Rules setup} {start : setup.Store} {t : Nat} {s after : State setup}

theorem Reachable.invariant (body : Conforms rules rules.ends setup.body .idle)
    (reachable : Reachable rules start s) : Invariant rules s := by
  induction reachable with
  | initial => exact initial_invariant body
  | step before label regular step ih => exact step_invariant body _ label _ regular ih step

theorem Reachable.account (body : Conforms rules rules.ends setup.body .idle)
    (reachable : Reachable rules start s) : ∃ log, Account rules start log s := by
  induction reachable with
  | initial => exact ⟨[], initial_account⟩
  | step before label regular step ih =>
      obtain ⟨log, account⟩ := ih
      exact step_account body regular (before.invariant body) account step

theorem reachable_of_run {labels : List (Label setup)} (before : Reachable rules start s)
    (regular : Along (Regular rules) s labels) (run : s.run labels = some after) :
    Reachable rules start after := by
  refine @run_invariant _ (Regular rules) (Reachable rules start) ?_ _ _ _ regular before run
  intro s label after keeps reachable step
  exact reachable.step label keeps step

/-! Steps of the others. -/

/-- What the exchange of the owner depends on. -/
structure Same (t : Nat) (s after : State setup) : Prop where
  owner : after.owner = s.owner
  server : after.server = s.server
  requests : after.requests = s.requests
  sent : after.sent = s.sent
  thread : after.threads t = s.threads t

theorem same_setThread {u : Nat} (other : u ≠ t) (thread : Thread setup) :
    Same t s (s.setThread u thread) :=
  ⟨rfl, rfl, rfl, rfl, Function.update_of_ne (Ne.symm other) _ _⟩

theorem elsewhere_same (invariant : Invariant rules s) (owner : s.owner = some t)
    (goes : Goes rules (Label.elsewhere t) s after) : Same t s after := by
  obtain ⟨label, allowed, regular, step⟩ := goes
  cases label with
  | thread u choose ok =>
      have other : u ≠ t := allowed
      have outside : s.owner ≠ some u := by
        rw [owner]
        exact fun same => other (Option.some.inj same).symm
      obtain ⟨alive, taken⟩ := stepThread_cases step
      have idle := invariant.outside u outside alive
      cases taken with
      | finish shape => exact same_setThread other _
      | again shape => exact same_setThread other _
      | lock next shape free =>
          rw [owner] at free
          contradiction
      | unlock next shape =>
          rw [shape] at idle
          exact idle.elim
      | send byte next shape =>
          rw [shape] at idle
          exact idle.elim
      | sendFails byte next shape => exact same_setThread other _
      | recv byte tag rest next shape there =>
          rw [shape] at idle
          exact idle.elim
      | recvFails next shape => exact same_setThread other _
      | killed op next shape gone reaches => exact same_setThread other _
      | own op next shape => exact same_setThread other _
  | server => exact allowed.elim
  | start choice => exact allowed.elim
  | vanish u =>
      simp only [State.step, Option.some.injEq] at step
      subst after
      exact same_setThread allowed _

theorem Busy.elsewhere (body : Conforms rules rules.ends setup.body .idle) (busy : Busy rules start t s)
    (moves : Relation.ReflTransGen (Goes rules (Label.elsewhere t)) s after) :
    Busy rules start t after ∧ Same t s after := by
  induction moves with
  | refl => exact ⟨busy, rfl, rfl, rfl, rfl, rfl⟩
  | @tail middle after _ goes ih =>
      obtain ⟨middleBusy, before⟩ := ih
      have same := elsewhere_same (middleBusy.reachable.invariant body) middleBusy.owner goes
      obtain ⟨label, -, regular, step⟩ := goes
      refine ⟨⟨middleBusy.reachable.step label regular step, ?_, ?_, ?_⟩, ?_⟩
      · rw [same.owner, middleBusy.owner]
      · rw [same.thread, middleBusy.present]
      · rw [same.server, same.requests, same.sent]
        exact middleBusy.willing
      · exact ⟨same.owner.trans before.owner, same.server.trans before.server,
          same.requests.trans before.requests, same.sent.trans before.sent,
          same.thread.trans before.thread⟩

/-! Steps of the thread. -/

/-- What an exchange needs: answers to the thread's own operations, and a server that reads
before it writes. -/
structure Live (rules : Rules setup) : Prop where
  body : Conforms rules rules.ends setup.body .idle
  strict : rules.strict = true
  answers : ∀ op, ∃ answer, rules.answers op answer
  reads : ∀ choice store, ∃ next, setup.serve choice store = .perform .recv next

theorem goes_of_isSome {allowed : Label setup → Prop} (label : Label setup) (fits : allowed label)
    (regular : Regular rules s label) (enabled : (s.step label).isSome) :
    ∃ after, Goes rules allowed s after := by
  obtain ⟨after, step⟩ := Option.isSome_iff_exists.mp enabled
  exact ⟨after, label, fits, regular, step⟩

theorem asking_sends {program : Body setup.Local setup.Answer Bool} {sent : Bytes}
    (conforms : Conforms rules rules.ends program (.asking sent)) :
    (∃ byte next, program = .perform (.send byte) next) ∨
      (∃ next, program = .perform .recv next) ∨ ∃ next, program = .perform .undefined next := by
  cases program with
  | ret value => exact conforms.elim
  | perform op next =>
      cases op with
      | lock => exact conforms.elim
      | unlock => exact conforms.elim
      | send byte => exact .inl ⟨byte, next, rfl⟩
      | recv => exact .inr (.inl ⟨next, rfl⟩)
      | own op => exact conforms.elim
      | undefined => exact .inr (.inr ⟨next, rfl⟩)

variable (live : Live rules)

include live

theorem Busy.alive (busy : Busy rules start t s) : (s.threads t).alive = true :=
  (busy.reachable.invariant live.body).strict_alive live.strict busy.owner

theorem Busy.conversation (busy : Busy rules start t s) :
    Conversation rules s (s.threads t).program := by
  have alive := busy.alive live
  obtain ⟨_, free, -⟩ | ⟨u, owner, -, conversation, -⟩ | ⟨_, _, lenient, -⟩ :=
    (busy.reachable.invariant live.body).synchronous
  · rw [busy.owner] at free
    contradiction
  · obtain rfl : u = t := Option.some.inj (owner.symm.trans busy.owner)
    exact conversation
  · rw [live.strict] at lenient
    contradiction

/-- The thread has gone on behind an operation, or has given the mutex back. -/
theorem Busy.thread_step (busy : Busy rules start t s) {op : Action setup.Local}
    {next : Action.Answer setup.Answer op → Body setup.Local setup.Answer Bool}
    (shape : (s.threads t).program = .perform op next)
    {choose : (op : setup.Local) → setup.Answer op} {ok : Bool}
    (regular : Regular rules s (.thread t choose ok))
    (step : s.step (.thread t choose ok) = some after) :
    Released t after ∨ (Busy rules start t after ∧ ∃ answer, (after.threads t).program = next answer) := by
  have reachable := busy.reachable.step _ regular step
  have conversation := busy.conversation live
  obtain ⟨succeeds, -, -⟩ := regular
  obtain ⟨-, taken⟩ := stepThread_cases step
  have owner := busy.owner
  have present := busy.present
  cases taken with
  | finish ends =>
      rw [shape] at ends
      contradiction
  | again ends =>
      rw [shape] at ends
      contradiction
  | lock _ _ free =>
      rw [owner] at free
      contradiction
  | unlock _ _ =>
      left
      refine .free ?_
      simp [owner]
  | send byte behind same =>
      obtain ⟨rfl, rfl⟩ := Program.perform.inj (shape.symm.trans same)
      right
      refine ⟨⟨reachable, owner, ?_, ?_⟩, true, ?_⟩
      · simpa [State.setThread, Thread.advance] using present
      · intro store waiting
        rcases busy.willing store waiting with begins | ⟨read, asked⟩
        · exact .inl begins
        · rw [shape] at conversation
          exact (conversation_answered conversation waiting read asked).elim
      · simp [State.setThread, Thread.advance]
  | sendFails _ _ _ => contradiction
  | recv byte tag rest behind same there =>
      obtain ⟨rfl, rfl⟩ := Program.perform.inj (shape.symm.trans same)
      exact .inr ⟨⟨reachable, owner, by simpa [State.setThread, Thread.advance] using present,
        busy.willing⟩, some byte, by simp [State.setThread, Thread.advance]⟩
  | recvFails _ _ => contradiction
  | killed _ _ _ gone _ =>
      rw [present] at gone
      contradiction
  | own op behind same =>
      obtain ⟨rfl, rfl⟩ := Program.perform.inj (shape.symm.trans same)
      exact .inr ⟨⟨reachable, owner, by simpa [State.setThread, Thread.advance] using present,
        busy.willing⟩, choose op, by simp [State.setThread, Thread.advance]⟩

/-! Progress. -/

theorem Busy.thread_goes (busy : Busy rules start t s)
    (enabled : ∀ choose, (s.stepThread t choose true).isSome) :
    ∃ after, Goes rules (Label.serves t) s after := by
  obtain ⟨choose, admitted⟩ := Classical.skolem.mp live.answers
  refine goes_of_isSome (.thread t choose true) rfl ⟨rfl, admitted, ?_⟩ (enabled choose)
  intro _ gone
  rw [busy.present] at gone
  contradiction

theorem Busy.operation_goes (busy : Busy rules start t s) {op : Action setup.Local}
    {next : Action.Answer setup.Answer op → Body setup.Local setup.Answer Bool}
    (shape : (s.threads t).program = .perform op next) (free : op ≠ .lock) (defined : op ≠ .undefined)
    (there : op = .recv → s.replies ≠ []) : ∃ after, Goes rules (Label.serves t) s after := by
  have alive := busy.alive live
  have present := busy.present
  refine busy.thread_goes live ?_
  intro choose
  cases op with
  | lock => contradiction
  | unlock => simp [State.stepThread, alive, shape]
  | send byte => simp [State.stepThread, alive, shape]
  | recv =>
      cases replies : s.replies with
      | nil => exact absurd replies (there rfl)
      | cons first rest => simp [State.stepThread, alive, shape, replies]
  | own op => simp [State.stepThread, alive, shape, present]
  | undefined => contradiction

theorem holding_goes (busy : Busy rules start t s)
    (conforms : Conforms rules rules.ends (s.threads t).program (.holding (s.replies.map Prod.fst))) :
    Released t s ∨ ∃ after, Goes rules (Label.serves t) s after := by
  cases shape : (s.threads t).program with
  | ret value =>
      rw [shape] at conforms
      exact absurd conforms.1 (by simp [live.strict])
  | perform op next =>
      rw [shape] at conforms
      cases op with
      | lock => exact absurd conforms.1 (by simp [live.strict])
      | unlock =>
          exact .inr (busy.operation_goes live shape (by simp) (by simp) (by simp))
      | send byte => exact conforms.elim
      | recv =>
          refine .inr (busy.operation_goes live shape (by simp) (by simp) ?_)
          intro _ empty
          rw [empty] at conforms
          exact conforms.elim
      | own op =>
          exact .inr (busy.operation_goes live shape (by simp) (by simp) (by simp))
      | undefined => exact .inl (.thread next shape)

/-- Somebody can always go on. -/
theorem Busy.progress (busy : Busy rules start t s) :
    Released t s ∨ ∃ after, Goes rules (Label.serves t) s after := by
  cases busy.conversation live with
  | asking store server whole quiet conforms =>
      rcases asking_sends conforms with ⟨byte, next, shape⟩ | ⟨next, shape⟩ | ⟨next, shape⟩
      · exact .inr (busy.operation_goes live shape (by simp) (by simp) (by simp))
      · right
        obtain ⟨choice, begins⟩ : ∃ choice, rules.begins choice store := by
          rcases busy.willing store server with begins | ⟨read, asked⟩
          · exact begins
          · rw [read] at whole
            exact absurd whole.symm asked
        have nonempty : s.requests ≠ [] := by
          intro empty
          rw [empty] at whole
          rw [shape, ← whole] at conforms
          obtain ⟨after, first⟩ := live.reads choice store
          have reads := conforms choice store begins
          rw [first] at reads
          exact reads.elim
        obtain ⟨⟨byte, tag⟩, rest, there⟩ := List.exists_cons_of_ne_nil nonempty
        refine goes_of_isSome (.start choice) trivial ?_ ?_
        · intro other waiting
          rw [server] at waiting
          exact Server.waiting.inj waiting ▸ begins
        · simp [State.step, State.startServer, server, there]
      · exact .inl (.thread next shape)
  | reading choice store read current server begins fed whole quiet conforms =>
      cases current with
      | ret value =>
          obtain ⟨rest, accepts, reads, -⟩ := conforms_asking conforms
          have remaining := reads choice store begins
          rw [whole, List.append_assoc] at remaining
          have running := reads_running (reads_fed fed remaining)
          cases value <;> simp [settle] at running
      | perform op next =>
          cases op with
          | send byte =>
              refine .inr (goes_of_isSome .server trivial trivial ?_)
              simp [State.step, State.stepServer, server]
          | unknown =>
              exact absurd server ((busy.reachable.invariant live.body).known next)
          | undefined => exact .inl (.server next server)
          | recv =>
              cases requests : s.requests with
              | cons first others =>
                  refine .inr (goes_of_isSome .server trivial trivial ?_)
                  simp [State.step, State.stepServer, server, requests]
              | nil =>
                  -- the server waits for more, so the thread has more to write
                  rcases asking_sends conforms with ⟨byte, behind, shape⟩ | ⟨behind, shape⟩ |
                    ⟨behind, shape⟩
                  · exact .inr (busy.operation_goes live shape (by simp) (by simp) (by simp))
                  · rw [shape] at conforms
                    have reads := conforms choice store begins
                    rw [requests] at whole
                    rw [whole] at reads
                    exact (reads_fed fed reads).elim
                  · exact .inl (.thread behind shape)
  | answering byte next server read conforms =>
      refine .inr (goes_of_isSome .server trivial trivial ?_)
      simp [State.step, State.stepServer, server]
  | answered store server read conforms => exact holding_goes live busy conforms

/-- A server is at work because something was written. -/
theorem Busy.asked (busy : Busy rules start t s)
    {current : Program Serving Serving.Answer (Option setup.Store)}
    (running : s.server = .running current) : s.sent ≠ [] := by
  obtain ⟨log, account⟩ := busy.reachable.account live.body
  obtain ⟨-, -, _, -, stands⟩ := account.inside t busy.owner
  cases stands with
  | asking _ server _ _ _ _ _ =>
      rw [running] at server
      contradiction
  | serving _ _ _ _ _ _ _ _ _ asked => exact asked
  | served _ _ _ _ _ asked => exact asked

/-! Termination. -/

/-- It is enough to look at the steps of the thread and of the server. -/
theorem inevitably_of_goes (busy : Busy rules start t s)
    (every : ∀ middle after, Busy rules start t middle → Same t s middle →
      Goes rules (Label.serves t) middle after → Inevitably (Turn rules t) (Released t) after) :
    Inevitably (Turn rules t) (Released t) s := by
  rcases busy.progress live with released | ⟨after, goes⟩
  · exact .now released
  · refine .later ⟨after, s, .refl, goes⟩ ?_
    rintro after ⟨middle, others, goes⟩
    obtain ⟨middleBusy, same⟩ := busy.elsewhere live.body others
    exact every middle after middleBusy same goes

section

variable {op : Action setup.Local}
  {next : Action.Answer setup.Answer op → Body setup.Local setup.Answer Bool}
  (later : ∀ answer s, Busy rules start t s → (s.threads t).program = next answer →
    Inevitably (Turn rules t) (Released t) s)

include later

theorem released_by_thread (busy : Busy rules start t s)
    (shape : (s.threads t).program = .perform op next)
    {choose : (op : setup.Local) → setup.Answer op} {ok : Bool}
    (regular : Regular rules s (.thread t choose ok))
    (step : s.step (.thread t choose ok) = some after) :
    Inevitably (Turn rules t) (Released t) after := by
  rcases busy.thread_step live shape regular step with released | ⟨afterBusy, answer, behind⟩
  · exact .now released
  · exact later answer after afterBusy behind

/-- With nothing to read the server leaves it to the thread. -/
theorem released_quiet (busy : Busy rules start t s) (shape : (s.threads t).program = .perform op next)
    {store : setup.Store} (waiting : s.server = .waiting store) (empty : s.requests = []) :
    Inevitably (Turn rules t) (Released t) s := by
  refine inevitably_of_goes live busy ?_
  rintro middle after middleBusy same ⟨label, serves, regular, step⟩
  cases label with
  | thread u choose ok =>
      obtain rfl : u = t := serves
      refine released_by_thread live later middleBusy ?_ regular step
      rw [same.thread, shape]
  | server =>
      obtain ⟨_, running⟩ := (stepServer_cases step).running
      rw [same.server, waiting] at running
      contradiction
  | start choice =>
      obtain ⟨_, _, _, _, -, there, -⟩ := startServer_cases step
      rw [same.requests, empty] at there
      contradiction
  | vanish u => exact serves.elim

/-- While the server is at work it is its turn or the thread's. -/
theorem released_working (busy : Busy rules start t s) (shape : (s.threads t).program = .perform op next)
    {current : Program Serving Serving.Answer (Option setup.Store)} (running : s.server = .running current)
    (every : ∀ middle after, Invariant rules middle → Busy rules start t after →
      (after.threads t).program = .perform op next → middle.server = .running current →
      ServerStep middle after → Inevitably (Turn rules t) (Released t) after) :
    Inevitably (Turn rules t) (Released t) s := by
  refine inevitably_of_goes live busy ?_
  rintro middle after middleBusy same ⟨label, serves, regular, step⟩
  have shape' : (middle.threads t).program = .perform op next := by rw [same.thread, shape]
  have running' := same.server.trans running
  cases label with
  | thread u choose ok =>
      obtain rfl : u = t := serves
      exact released_by_thread live later middleBusy shape' regular step
  | server =>
      have reachable := middleBusy.reachable.step _ regular step
      have moves := stepServer_cases step
      have kept : after.owner = middle.owner ∧ after.threads = middle.threads ∧
          after.sent = middle.sent := by
        cases moves <;> exact ⟨rfl, rfl, rfl⟩
      have invariant := middleBusy.reachable.invariant live.body
      refine every middle after invariant ⟨reachable, ?_, ?_, ?_⟩ ?_ running' moves
      · rw [kept.1, middleBusy.owner]
      · rw [kept.2.1, middleBusy.present]
      · intro store waiting
        refine .inr ⟨invariant.server_rests moves waiting, ?_⟩
        rw [kept.2.2]
        exact middleBusy.asked live running'
      · rw [kept.2.1, shape']
  | start choice =>
      obtain ⟨_, _, _, _, waiting, -, -⟩ := startServer_cases step
      rw [running'] at waiting
      contradiction
  | vanish u => exact serves.elim

theorem released_running (current : Program Serving Serving.Answer (Option setup.Store)) :
    ∀ s, Busy rules start t s → (s.threads t).program = .perform op next →
      s.server = .running current → Inevitably (Turn rules t) (Released t) s := by
  induction current with
  | ret value =>
      intro s busy shape running
      refine released_working live later busy shape running ?_
      intro middle after _ _ _ running' moves
      cases moves with
      | recv _ _ _ _ other _ =>
          rw [running'] at other
          cases other
      | send _ _ other =>
          rw [running'] at other
          cases other
      | unknown _ other =>
          rw [running'] at other
          cases other
  | perform serving behind ih =>
      intro s busy shape running
      refine released_working live later busy shape running ?_
      intro middle after invariant afterBusy shape' running' moves
      have settles : ∀ answer, after.server = settle (behind answer) →
          Inevitably (Turn rules t) (Released t) after := by
        intro answer server
        cases result : behind answer with
        | perform serving' behind' =>
            rw [result] at server
            exact ih answer after afterBusy shape' (result ▸ server)
        | ret value =>
            rw [result] at server
            cases value with
            | none => exact absurd server (afterBusy.reachable.invariant live.body).not_stopped
            | some store =>
                exact released_quiet live later afterBusy shape' server
                  (invariant.server_rests moves server)
      cases moves with
      | recv byte tag rest behind' other there =>
          obtain ⟨rfl, same⟩ := Program.perform.inj (Server.running.inj (running'.symm.trans other))
          exact settles byte (by rw [eq_of_heq same])
      | send byte behind' other =>
          obtain ⟨rfl, same⟩ := Program.perform.inj (Server.running.inj (running'.symm.trans other))
          exact settles () (by rw [eq_of_heq same])
      | unknown behind' other => exact absurd other (invariant.known behind')

theorem released_between (busy : Busy rules start t s)
    (shape : (s.threads t).program = .perform op next) : Inevitably (Turn rules t) (Released t) s := by
  cases server : s.server with
  | running current => exact released_running live later current s busy shape server
  | stopped => exact absurd server (busy.reachable.invariant live.body).not_stopped
  | waiting store =>
      refine inevitably_of_goes live busy ?_
      rintro middle after middleBusy same ⟨label, serves, regular, step⟩
      have shape' : (middle.threads t).program = .perform op next := by rw [same.thread, shape]
      have reachable := middleBusy.reachable.step label regular step
      cases label with
      | thread u choose ok =>
          obtain rfl : u = t := serves
          exact released_by_thread live later middleBusy shape' regular step
      | server =>
          obtain ⟨_, running⟩ := (stepServer_cases step).running
          rw [same.server, server] at running
          contradiction
      | start choice =>
          obtain ⟨store', _, _, _, _, _, rfl⟩ := startServer_cases step
          obtain ⟨first, begins⟩ := live.reads choice store'
          refine released_running live later (setup.serve choice store') _
            ⟨reachable, middleBusy.owner, middleBusy.present, ?_⟩ shape' ?_
          · intro store waiting
            rw [begins] at waiting
            contradiction
          · rw [begins]
            rfl
      | vanish u => exact serves.elim

end

/-- Whatever the order of the steps, a thread that has the mutex comes to give it back. -/
theorem gives_back (program : Body setup.Local setup.Answer Bool) :
    ∀ s, Busy rules start t s → (s.threads t).program = program →
      Inevitably (Turn rules t) (Released t) s := by
  induction program with
  | ret value =>
      intro s busy shape
      have conversation := busy.conversation live
      rw [shape] at conversation
      obtain ⟨_, _, _, lenient, _⟩ := conversation.over (fun _ conforms => conforms) rfl
      rw [live.strict] at lenient
      contradiction
  | perform op next ih =>
      intro s busy shape
      refine released_between live ?_ busy shape
      intro answer after afterBusy behind
      exact ih answer after afterBusy behind

end

end SharedPipe
