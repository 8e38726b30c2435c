import Iac.Library.SharedPipe

/-! What a thread has done, as an observer sees it who reads its history from left to right,
and programs whose every step is proper as long as their surroundings behave. -/

namespace SharedPipe

open CText Interaction

variable {setup : Setup}

abbrev Event (setup : Setup) := Sigma (Action.Answer setup.Answer)

structure Observer (setup : Setup) where
  State : Type
  start : State
  after : State → Event setup → State

def Observer.read (o : Observer setup) (history : List (Event setup)) : o.State :=
  history.foldl o.after o.start

theorem Observer.read_concat (o : Observer setup) (history : List (Event setup))
    (event : Event setup) : o.read (history ++ [event]) = o.after (o.read history) event := by
  simp [Observer.read]

/-- Every step that gets an allowed answer is proper, and so are the steps behind it; where the
behaviour is undefined there has to be an excuse. -/
inductive Shows (o : Observer setup) (allowed proper : o.State → Event setup → Prop)
    (excused : o.State → Prop) {α : Type} (ends : α → o.State → Prop) :
    Body setup.Local setup.Answer α → o.State → Prop
  | ret {value : α} {state : o.State} (done : ends value state) :
      Shows o allowed proper excused ends (.ret value) state
  | perform {op : Action setup.Local}
      {next : Action.Answer setup.Answer op → Body setup.Local setup.Answer α} {state : o.State}
      (defined : op = .undefined → excused state)
      (here : ∀ answer, allowed state ⟨op, answer⟩ → proper state ⟨op, answer⟩)
      (later : ∀ answer, allowed state ⟨op, answer⟩ →
        Shows o allowed proper excused ends (next answer) (o.after state ⟨op, answer⟩)) :
      Shows o allowed proper excused ends (.perform op next) state

section

variable {o : Observer setup} {allowed proper : o.State → Event setup → Prop} {α β : Type}
  {excused : o.State → Prop} {ends : α → o.State → Prop}

theorem shows_bind {middle : β → o.State → Prop} {program : Body setup.Local setup.Answer β}
    {after : β → Body setup.Local setup.Answer α} {state : o.State}
    (first : Shows o allowed proper excused middle program state)
    (second : ∀ value state, middle value state →
      Shows o allowed proper excused ends (after value) state) :
    Shows o allowed proper excused ends (program >>= after) state := by
  induction first with
  | ret done => exact second _ _ done
  | perform defined here _ ih => exact .perform defined here ih

theorem shows_call {op : Action setup.Local}
    {after : Action.Answer setup.Answer op → Body setup.Local setup.Answer α} {state : o.State}
    (defined : op = .undefined → excused state)
    (here : ∀ answer, allowed state ⟨op, answer⟩ → proper state ⟨op, answer⟩)
    (later : ∀ answer, allowed state ⟨op, answer⟩ →
      Shows o allowed proper excused ends (after answer) (o.after state ⟨op, answer⟩)) :
    Shows o allowed proper excused ends
      ((.perform op .ret : Body setup.Local setup.Answer _) >>= after) state :=
  .perform defined here later

theorem shows_mono {weaker : α → o.State → Prop} {program : Body setup.Local setup.Answer α}
    {state : o.State} (shows : Shows o allowed proper excused ends program state)
    (weaken : ∀ value state, ends value state → weaker value state) :
    Shows o allowed proper excused weaker program state := by
  induction shows with
  | ret done => exact .ret (weaken _ _ done)
  | perform defined here _ ih => exact .perform defined here ih

theorem shows_undefined {state : o.State} (excuse : excused state)
    {next : Empty → Body setup.Local setup.Answer α} :
    Shows o allowed proper excused ends (.perform .undefined next) state :=
  .perform (fun _ => excuse) (fun never => nomatch never) fun never => nomatch never

end

/-! Runs. -/

/-- What a thread would add to its history. -/
def State.nextEvent (s : State setup) (t : Nat) (choose : (op : setup.Local) → setup.Answer op)
    (ok : Bool) : Option (Event setup) :=
  match (s.threads t).program with
  | .perform .lock _ => some ⟨.lock, ()⟩
  | .perform .unlock _ => some ⟨.unlock, ()⟩
  | .perform (.send byte) _ => some ⟨.send byte, ok⟩
  | .perform .recv _ =>
      if ok then s.replies.head?.map fun item => ⟨.recv, some item.1⟩ else some ⟨.recv, none⟩
  | .perform (.own op) _ => some ⟨.own op, choose op⟩
  | _ => none

def Permits (o : Observer setup) (allowed : o.State → Event setup → Prop) (s : State setup) :
    Label setup → Prop
  | .thread t choose ok => ∀ event, s.nextEvent t choose ok = some event →
      allowed (o.read (s.threads t).history) event
  | _ => True

/-- The same for a rule that can be tested. -/
def State.admits (o : Observer setup) (permits : o.State → Event setup → Bool) (s : State setup) :
    Label setup → Bool
  | .thread t choose ok =>
      (s.nextEvent t choose ok).all fun event => permits (o.read (s.threads t).history) event
  | _ => true

theorem permits_of_admits {o : Observer setup} {permits : o.State → Event setup → Bool}
    {s : State setup} {label : Label setup} (tested : s.admits o permits label = true) :
    Permits o (fun state event => permits state event = true) s label := by
  cases label with
  | thread t choose ok =>
      intro event next
      simp only [State.admits, next, Option.all_some] at tested
      exact tested
  | server => trivial
  | start choice => trivial
  | vanish t => trivial

/-- The threads have been proper so far, and stay so. -/
structure Observed (o : Observer setup) (allowed proper : o.State → Event setup → Prop)
    (excused between : o.State → Prop) (threads : Nat → Thread setup) : Prop where
  shows : ∀ t, (threads t).alive = true → Shows o allowed proper excused (fun _ => between)
    (threads t).program (o.read (threads t).history)
  proper : ∀ t before event later, (threads t).history = before ++ event :: later →
    proper (o.read before) event

section

variable {o : Observer setup} {allowed proper : o.State → Event setup → Prop}
  {excused between : o.State → Prop} {threads : Nat → Thread setup} {t : Nat} {thread : Thread setup}

theorem Observed.same_history (observed : Observed o allowed proper excused between threads)
    (history : thread.history = (threads t).history)
    (shows : thread.alive = true → Shows o allowed proper excused (fun _ => between) thread.program
      (o.read thread.history)) :
    Observed o allowed proper excused between (Function.update threads t thread) := by
  constructor
  · intro u alive
    by_cases equal : u = t
    · subst u
      rw [Function.update_self] at alive ⊢
      exact shows alive
    · rw [Function.update_of_ne equal] at alive ⊢
      exact observed.shows u alive
  · intro u before event later split
    by_cases equal : u = t
    · subst u
      rw [Function.update_self, history] at split
      exact observed.proper t before event later split
    · rw [Function.update_of_ne equal] at split
      exact observed.proper u before event later split

theorem split_concat {α : Type} {history before later : List α} {event last : α}
    (split : history ++ [last] = before ++ event :: later) :
    before = history ∧ event = last ∨ ∃ shorter, history = before ++ event :: shorter := by
  rcases List.eq_nil_or_concat later with rfl | ⟨shorter, final, rfl⟩
  · have same := List.append_inj' split rfl
    have equal : last = event := by simpa using same.2
    exact .inl ⟨same.1.symm, equal.symm⟩
  · right
    rw [List.concat_eq_append, ← List.cons_append, ← List.append_assoc] at split
    exact ⟨shorter, (List.append_inj' split rfl).1⟩

/-- No thread that is still there comes to an undefined step without an excuse. -/
theorem Observed.excuse (observed : Observed o allowed proper excused between threads)
    (alive : (threads t).alive = true) {next : Empty → Body setup.Local setup.Answer Bool}
    (shape : (threads t).program = .perform .undefined next) : excused (o.read (threads t).history) := by
  have shows := observed.shows t alive
  rw [shape] at shows
  cases shows with
  | perform defined _ _ => exact defined rfl

theorem Observed.advance (observed : Observed o allowed proper excused between threads)
    (alive : (threads t).alive = true) {op : Action setup.Local}
    {next : Action.Answer setup.Answer op → Body setup.Local setup.Answer Bool}
    (shape : (threads t).program = .perform op next) {answer : Action.Answer setup.Answer op}
    (admitted : allowed (o.read (threads t).history) ⟨op, answer⟩)
    (program : thread.program = next answer)
    (history : thread.history = (threads t).history ++ [⟨op, answer⟩]) :
    Observed o allowed proper excused between (Function.update threads t thread) := by
  have shows := observed.shows t alive
  rw [shape] at shows
  cases shows with
  | perform _ here next_shows =>
      constructor
      · intro u living
        by_cases equal : u = t
        · subst u
          rw [Function.update_self, program, history, Observer.read_concat]
          exact next_shows answer admitted
        · rw [Function.update_of_ne equal] at living ⊢
          exact observed.shows u living
      · intro u before event later split
        by_cases equal : u = t
        · subst u
          rw [Function.update_self, history] at split
          rcases split_concat split with ⟨rfl, rfl⟩ | ⟨shorter, earlier⟩
          · exact here answer admitted
          · exact observed.proper t before event shorter earlier
        · rw [Function.update_of_ne equal] at split
          exact observed.proper u before event later split

end

section

variable {o : Observer setup} {allowed proper : o.State → Event setup → Prop}
  {excused between : o.State → Prop}

theorem observed_step
    (body : ∀ state, between state → Shows o allowed proper excused (fun _ => between) setup.body state)
    (s : State setup) (label : Label setup) (after : State setup)
    (permits : Permits o allowed s label) (observed : Observed o allowed proper excused between s.threads)
    (step : s.step label = some after) : Observed o allowed proper excused between after.threads := by
  cases label with
  | thread t choose ok =>
      obtain ⟨alive, taken⟩ := stepThread_cases step
      cases taken with
      | finish shape =>
          refine observed.same_history rfl ?_
          intro living
          contradiction
      | again shape =>
          refine observed.same_history rfl ?_
          intro _
          have shows := observed.shows t alive
          rw [shape] at shows
          cases shows with
          | ret done => exact body _ done
      | lock next shape free =>
          exact observed.advance alive shape
            (permits ⟨.lock, ()⟩ (by simp [State.nextEvent, shape])) rfl rfl
      | unlock next shape =>
          exact observed.advance alive shape
            (permits ⟨.unlock, ()⟩ (by simp [State.nextEvent, shape])) rfl rfl
      | send byte next shape =>
          exact observed.advance alive shape
            (permits ⟨.send byte, true⟩ (by simp [State.nextEvent, shape])) rfl rfl
      | sendFails byte next shape =>
          exact observed.advance alive shape
            (permits ⟨.send byte, false⟩ (by simp [State.nextEvent, shape])) rfl rfl
      | recv byte tag rest next shape there =>
          exact observed.advance alive shape
            (permits ⟨.recv, some byte⟩ (by simp [State.nextEvent, shape, there])) rfl rfl
      | recvFails next shape =>
          exact observed.advance alive shape
            (permits ⟨.recv, none⟩ (by simp [State.nextEvent, shape])) rfl rfl
      | killed op next shape gone reaches =>
          refine observed.same_history rfl ?_
          intro living
          contradiction
      | own op next shape =>
          exact observed.advance alive shape
            (permits ⟨.own op, choose op⟩ (by simp [State.nextEvent, shape])) rfl rfl
  | server =>
      cases stepServer_cases step <;> exact observed
  | start choice =>
      obtain ⟨_, _, _, _, -, -, rfl⟩ := startServer_cases step
      exact observed
  | vanish t =>
      simp only [State.step, Option.some.injEq] at step
      subst after
      exact observed.same_history rfl (observed.shows t)

theorem initial_observed
    (body : ∀ state, between state → Shows o allowed proper excused (fun _ => between) setup.body state)
    (begins : between o.start) (store : setup.Store) :
    Observed o allowed proper excused between (initial store).threads := by
  constructor
  · intro t _
    exact body o.start begins
  · intro t before event later split
    have impossible : ([] : List (Event setup)) = before ++ event :: later := split
    simp at impossible

end

/-! Who has the mutex. -/

def mutexAfter (held : Bool) (event : Event setup) : Bool :=
  match event.1 with
  | .lock => true
  | .unlock => false
  | _ => held

def holdsMutex (history : List (Event setup)) : Bool := history.foldl mutexAfter false

theorem holdsMutex_concat (history : List (Event setup)) (event : Event setup) :
    holdsMutex (history ++ [event]) = mutexAfter (holdsMutex history) event := by
  simp [holdsMutex]

/-- The owner is the thread whose history says so. -/
def OwnerHolds (s : State setup) : Prop :=
  ∀ t, s.owner = some t ↔ holdsMutex (s.threads t).history = true

section

variable {s : State setup} {t : Nat}

theorem OwnerHolds.neutral {thread : Thread setup} (holds : OwnerHolds s)
    (same : holdsMutex thread.history = holdsMutex (s.threads t).history) (u : Nat) :
    s.owner = some u ↔ holdsMutex (Function.update s.threads t thread u).history = true := by
  rw [holds u]
  by_cases equal : u = t
  · subst u
    rw [Function.update_self, same]
  · rw [Function.update_of_ne equal]

theorem ownerHolds_step {label : Label setup} {after : State setup} (holds : OwnerHolds s)
    (step : s.step label = some after) : OwnerHolds after := by
  cases label with
  | thread t choose ok =>
      obtain ⟨alive, taken⟩ := stepThread_cases step
      have added := holdsMutex_concat (s.threads t).history
      cases taken with
      | finish shape => exact holds.neutral rfl
      | again shape => exact holds.neutral rfl
      | killed op next shape gone reaches => exact holds.neutral rfl
      | send byte next shape => exact holds.neutral (added ⟨.send byte, true⟩)
      | sendFails byte next shape => exact holds.neutral (added ⟨.send byte, false⟩)
      | recv byte tag rest next shape there => exact holds.neutral (added ⟨.recv, some byte⟩)
      | recvFails next shape => exact holds.neutral (added ⟨.recv, none⟩)
      | own op next shape => exact holds.neutral (added ⟨.own op, choose op⟩)
      | lock next shape free =>
          intro u
          by_cases equal : u = t
          · subst u
            simp [State.setThread, Thread.advance, added, mutexAfter]
          · have other : ¬holdsMutex (s.threads u).history = true := by
              rw [← holds u, free]
              simp
            have different : some t ≠ some u := fun same => equal (Option.some.inj same).symm
            simp [State.setThread, equal, other, different]
      | unlock next shape =>
          intro u
          by_cases equal : u = t
          · subst u
            by_cases owner : s.owner = some t
            · simp [State.setThread, Thread.advance, added, mutexAfter, owner]
            · simp [State.setThread, Thread.advance, added, mutexAfter, owner]
          · by_cases owner : s.owner = some t
            · have other : ¬holdsMutex (s.threads u).history = true := by
                rw [← holds u, owner]
                exact fun same => equal (Option.some.inj same).symm
              simp [State.setThread, equal, owner, other]
            · simp [State.setThread, equal, owner, holds u]
  | server => cases stepServer_cases step <;> exact holds
  | start choice =>
      obtain ⟨_, _, _, _, -, -, rfl⟩ := startServer_cases step
      exact holds
  | vanish t =>
      simp only [State.step, Option.some.injEq] at step
      subst after
      exact holds.neutral rfl

theorem initial_ownerHolds (store : setup.Store) : OwnerHolds (initial store) := by
  intro t
  simp [initial, holdsMutex]

end

end SharedPipe
