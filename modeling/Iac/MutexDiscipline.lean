import Iac.Footprint
import Iac.SharedConnection
import Iac.Library.Observer

/-! Who returns from a handler gives the mutex back, as long as `getProducts` meets none of
the failures behind which it returns early. -/

namespace Iac

open CText Interaction SharedPipe Program

variable {backend : Backend}

/-! What an observer of a forked server keeps track of. -/

structure Standing where
  held : Bool
  inside : Option Handler
  /-- what was read from the reply pipe since the mutex was taken -/
  received : Bytes
  deriving DecidableEq, Repr

def Standing.after (standing : Standing) : ForkedEvent → Standing
  | ⟨.lock, _⟩ => { standing with held := true, received := [] }
  | ⟨.unlock, _⟩ => { standing with held := false }
  | ⟨.recv, some byte⟩ => { standing with received := standing.received ++ [byte] }
  | ⟨.own (.note (.enter handler)), _⟩ => { standing with inside := some handler }
  | ⟨.own (.note (.leave _)), _⟩ => { standing with inside := none }
  | _ => standing

def standing (backend : Backend) : Observer (system backend) where
  State := Standing
  start := ⟨false, none, []⟩
  after := Standing.after

/-- Inside `getProducts` the pipes do not fail, the code of the reply is not an error, and
there is memory for the products. -/
def Standing.permits (standing : Standing) (event : ForkedEvent) : Bool :=
  if standing.inside = some .getProducts then
    match event with
    | ⟨.send _, sent⟩ => sent
    | ⟨.recv, none⟩ => false
    | ⟨.recv, some byte⟩ => standing.received ++ [byte] ≠ intBytes messageError
    | ⟨.own (.malloc _), none⟩ => standing.received.length = 4 && bytesInt standing.received ≤ 0
    | _ => true
  else true

/-- The mutex is taken inside a handler, and is not taken when the handler returns. -/
def Standing.Proper (standing : Standing) : ForkedEvent → Prop
  | ⟨.lock, _⟩ => standing.inside.isSome
  | ⟨.own (.note (.leave _)), _⟩ => standing.held = false
  | _ => True

abbrev ShowsStanding (backend : Backend) {α : Type} (ends : α → Standing → Prop)
    (program : ForkedProgram α) (state : Standing) : Prop :=
  @SharedPipe.Shows (system backend) (standing backend) (fun state event => state.permits event = true)
    Standing.Proper (fun _ => True) α ends program state

/-! Programs without a share in the discipline. -/

theorem neutral_after {standing : Standing} {op : Action Local} (neutral : isNeutral op = true)
    (answer : Action.Answer Local.Answer op) :
    standing.Proper ⟨op, answer⟩ ∧ (standing.after ⟨op, answer⟩).held = standing.held ∧
      (standing.after ⟨op, answer⟩).inside = standing.inside := by
  cases op with
  | lock => contradiction
  | unlock => contradiction
  | send byte => exact ⟨trivial, rfl, rfl⟩
  | recv => cases answer <;> exact ⟨trivial, rfl, rfl⟩
  | undefined => exact nomatch answer
  | own op =>
      cases op with
      | note note => contradiction
      | readLength => exact ⟨trivial, rfl, rfl⟩
      | readData size => exact ⟨trivial, rfl, rfl⟩
      | readNull => exact ⟨trivial, rfl, rfl⟩
      | write data => exact ⟨trivial, rfl, rfl⟩
      | malloc size => exact ⟨trivial, rfl, rfl⟩
      | uninitialised size => exact ⟨trivial, rfl, rfl⟩

theorem shows_neutral {α : Type} {program : ForkedProgram α} (neutral : Only isNeutral program)
    (state : Standing) :
    ShowsStanding backend (fun _ after => after.held = state.held ∧ after.inside = state.inside)
      program state := by
  induction neutral generalizing state with
  | ret value => exact .ret ⟨rfl, rfl⟩
  | perform neutral _ ih =>
      refine .perform (fun _ => trivial) (fun answer _ => (neutral_after neutral answer).1) ?_
      intro answer _
      obtain ⟨-, held, inside⟩ := @neutral_after state _ neutral answer
      refine shows_mono (ih answer _) ?_
      rintro value after ⟨sameHeld, sameInside⟩
      exact ⟨sameHeld.trans held, sameInside.trans inside⟩

/-! The handlers. -/

/-- Between two rounds and between two calls of a handler. -/
def Standing.Between (standing : Standing) : Prop := standing.held = false ∧ standing.inside = none

theorem shows_neutral_bind {α β : Type} {ends : α → Standing → Prop} {program : ForkedProgram β}
    {after : β → ForkedProgram α} {state : Standing} (neutral : Only isNeutral program)
    (later : ∀ value next, next.held = state.held → next.inside = state.inside →
      ShowsStanding backend ends (after value) next) :
    ShowsStanding backend ends (program >>= after) state :=
  shows_bind (shows_neutral neutral state) fun value next same => later value next same.1 same.2

theorem passOrder_shows (received : Received) {state : Standing} (inside : state.inside.isSome) :
    ShowsStanding backend (fun _ after => after.held = false ∧ after.inside = state.inside)
      (passOrder received) state := by
  refine shows_call (fun _ => trivial) (fun _ _ => inside) ?_
  intro _ _
  refine shows_neutral_bind (sends_neutral (ensureWrite_sends _)) ?_
  intro _ state₁ _ inside₁
  refine shows_neutral_bind (sends_neutral (ensureWrite_sends _)) ?_
  intro _ state₂ _ inside₂
  refine shows_neutral_bind (sends_neutral (forward_sends _ _)) ?_
  intro _ state₃ _ inside₃
  refine shows_neutral_bind (writes_neutral (free_writes _)) ?_
  intro _ state₄ _ inside₄
  refine shows_neutral_bind (relays_neutral (answers_relays (relayReply_answers _))) ?_
  intro _ state₅ _ inside₅
  refine .perform (fun _ => trivial) (fun _ _ => trivial) ?_
  intro _ _
  refine .ret ⟨rfl, ?_⟩
  change state₅.inside = _
  rw [inside₅, inside₄, inside₃, inside₂, inside₁]
  rfl

theorem processOrder_shows (state : Standing) :
    ShowsStanding backend (fun _ after => after.Between) (processOrder backend) state := by
  refine shows_call (fun _ => trivial) (fun _ _ => trivial) ?_
  intro _ _
  refine shows_neutral_bind (only_call rfl) ?_
  intro serializedLen state₁ _ inside₁
  refine shows_neutral_bind (relays_neutral (listens_relays (connReceive_listens _ _))) ?_
  intro received state₂ _ inside₂
  have inside : state₂.inside = some .processOrder := inside₂.trans inside₁
  refine shows_bind (passOrder_shows received (by rw [inside]; rfl)) ?_
  rintro _ state₃ ⟨free, _⟩
  refine .perform (fun _ => trivial) (fun _ _ => free) ?_
  intro _ _
  exact .ret ⟨free, rfl⟩

/-! Inside `getProducts`. -/

/-- It has the mutex, and has read so much of the reply. -/
structure Fetching (standing : Standing) (got : Bytes) : Prop where
  held : standing.held = true
  inside : standing.inside = some .getProducts
  received : standing.received = got

theorem Fetching.permits {state : Standing} {got : Bytes} (fetching : Fetching state got)
    (event : ForkedEvent) : state.permits event = match event with
      | ⟨.send _, sent⟩ => sent
      | ⟨.recv, none⟩ => false
      | ⟨.recv, some byte⟩ => got ++ [byte] ≠ intBytes messageError
      | ⟨.own (.malloc _), none⟩ => got.length = 4 && bytesInt got ≤ 0
      | _ => true := by
  unfold Standing.permits
  rw [if_pos fetching.inside, fetching.received]

theorem writeBytes_shows (data : Bytes) {state : Standing} {got : Bytes}
    (fetching : Fetching state got) :
    ShowsStanding backend (fun sent after => sent = true ∧ Fetching after got)
      (writeBytes data) state := by
  induction data with
  | nil => exact .ret ⟨rfl, fetching⟩
  | cons byte data ih =>
      refine .perform (fun _ => trivial) (fun _ _ => trivial) ?_
      intro sent permitted
      rw [fetching.permits] at permitted
      obtain rfl : sent = true := permitted
      exact ih

theorem readBytes_shows (dest : Bytes) {state : Standing} {got : Bytes}
    (fetching : Fetching state got) :
    ShowsStanding backend (fun result after => result.1 = true ∧ result.2.length = dest.length ∧
      Fetching after (got ++ result.2) ∧ (dest ≠ [] → got ++ result.2 ≠ intBytes messageError))
      (readBytes dest) state := by
  induction dest generalizing state got with
  | nil =>
      refine .ret ⟨rfl, rfl, ?_, fun some_bytes => absurd rfl some_bytes⟩
      rw [List.append_nil]
      exact fetching
  | cons old dest ih =>
      refine .perform (fun _ => trivial) (fun _ _ => trivial) ?_
      intro answer permitted
      rw [fetching.permits] at permitted
      cases answer with
      | none => contradiction
      | some byte =>
          have other : got ++ [byte] ≠ intBytes messageError := of_decide_eq_true permitted
          have next : Fetching (state.after ⟨.recv, some byte⟩) (got ++ [byte]) := by
            refine ⟨fetching.held, fetching.inside, ?_⟩
            change state.received ++ [byte] = _
            rw [fetching.received]
          refine shows_bind (ih next) ?_
          rintro ⟨ok, rest⟩ after ⟨done, lengths, later, different⟩
          refine .ret ⟨done, by simpa using lengths, ?_, ?_⟩
          · simpa using later
          · intro _
            cases rest with
            | nil => exact other
            | cons first rest =>
                have some_bytes : dest ≠ [] := by
                  rintro rfl
                  simp at lengths
                simpa using different some_bytes

theorem ensureWrite_shows (data : Bytes) {state : Standing} {got : Bytes}
    (fetching : Fetching state got) :
    ShowsStanding backend (fun sent after => sent = true ∧ Fetching after got)
      (ensureWrite data) state := by
  unfold ensureWrite
  split
  · exact writeBytes_shows data fetching
  · exact shows_undefined trivial

theorem ensureRead_shows (dest : Bytes) {state : Standing} {got : Bytes}
    (fetching : Fetching state got) :
    ShowsStanding backend (fun result after => result.1 = true ∧ result.2.length = dest.length ∧
      Fetching after (got ++ result.2) ∧ (dest ≠ [] → got ++ result.2 ≠ intBytes messageError))
      (ensureRead dest) state := by
  unfold ensureRead
  split
  · exact readBytes_shows dest fetching
  · exact shows_undefined trivial

/-- Behind the code no memory is refused, so that no product is left out. -/
theorem readProducts_shows (array : Bool) (count : Nat) {state : Standing} {got : Bytes}
    (fetching : Fetching state got) (behind : 4 ≤ got.length) :
    ShowsStanding backend (fun result after => result.isSome ∧ ∃ more, Fetching after (got ++ more))
      (readProducts array count) state := by
  induction count generalizing state got with
  | zero =>
      refine .ret ⟨rfl, [], ?_⟩
      rw [List.append_nil]
      exact fetching
  | succ count ih =>
      rw [readProducts]
      refine shows_call (fun _ => trivial) (fun _ _ => trivial) ?_
      intro serializedLen _
      refine shows_bind (ensureRead_shows serializedLen.val fetching) ?_
      rintro ⟨ok, length⟩ next ⟨rfl, size, reading, _⟩
      rw [serializedLen.property] at size
      dsimp only at size reading ⊢
      rw [if_pos rfl]
      refine shows_call (fun _ => trivial) (fun _ _ => trivial) ?_
      intro granted permitted
      cases granted with
      | none =>
          rw [reading.permits] at permitted
          simp only [List.length_append, size, Bool.and_eq_true, decide_eq_true_eq] at permitted
          omega
      | some block =>
          refine shows_bind (ensureRead_shows block.val reading) ?_
          rintro ⟨ok, serialized⟩ later ⟨rfl, _, fetched, _⟩
          dsimp only at fetched ⊢
          rw [if_pos rfl]
          split
          · refine shows_bind (ih fetched (by simp only [List.length_append]; omega)) ?_
            rintro rest last ⟨found, more, still⟩
            refine .ret ⟨by rw [Option.isSome_map]; exact found, length ++ (serialized ++ more), ?_⟩
            simpa only [List.append_assoc] using still
          · exact shows_undefined trivial

theorem requestProducts_shows {state : Standing} (inside : state.inside = some .getProducts) :
    ShowsStanding backend (fun _ after => after.held = false ∧ after.inside = some .getProducts)
      requestProducts state := by
  unfold requestProducts
  refine shows_call (fun _ => trivial) (fun _ _ => by rw [Standing.Proper, inside]; rfl) ?_
  intro _ _
  have fetching : Fetching (state.after ⟨.lock, ()⟩) [] := ⟨rfl, inside, rfl⟩
  refine shows_bind (ensureWrite_shows _ fetching) ?_
  rintro sent state₁ ⟨rfl, asked⟩
  rw [if_pos rfl]
  refine shows_bind (ensureRead_shows _ asked) ?_
  rintro ⟨ok, code⟩ state₂ ⟨rfl, four, reading, differs⟩
  rw [intBytes_length] at four
  have other : bytesInt code ≠ messageError := by
    intro error
    apply differs (intBytes_ne_nil _)
    rw [List.nil_append, ← error, intBytes_bytesInt four]
  simp only [Bool.not_true, Bool.false_or, decide_eq_true_eq, if_neg other]
  refine shows_call (fun _ => trivial) (fun _ _ => trivial) ?_
  intro destArray _
  have still : Fetching (state₂.after ⟨.own (.malloc (arraySize (bytesInt code))), destArray⟩) code :=
    reading
  refine shows_bind (readProducts_shows _ _ still (Nat.le_of_eq four.symm)) ?_
  rintro result state₃ ⟨found, more, last⟩
  cases result with
  | none => contradiction
  | some products =>
      refine shows_call (fun _ => trivial) (fun _ _ => trivial) ?_
      intro _ _
      exact .ret ⟨rfl, last.inside⟩

theorem getProducts_shows (state : Standing) :
    ShowsStanding backend (fun _ after => after.Between) getProducts state := by
  unfold getProducts
  refine shows_call (fun _ => trivial) (fun _ _ => trivial) ?_
  intro _ _
  refine shows_bind (requestProducts_shows rfl) ?_
  rintro result state₁ ⟨free, _⟩
  refine shows_call (fun _ => trivial) (fun _ _ => free) ?_
  intro _ _
  exact .ret ⟨free, rfl⟩

/-! The loop. -/

theorem sendProducts_shows (state : Standing) :
    ShowsStanding backend (fun _ after => after.Between) sendProducts state := by
  unfold sendProducts
  refine shows_bind (getProducts_shows state) ?_
  rintro ⟨numProducts, products⟩ next between
  have done := writes_neutral (sendListing_writes numProducts products)
  refine shows_mono (shows_neutral done next) ?_
  rintro _ after ⟨held, inside⟩
  exact ⟨held.trans between.1, inside.trans between.2⟩

theorem execute_shows (msgCode : Int32) {state : Standing} (between : state.Between) :
    ShowsStanding backend (fun _ after => after.Between) (execute backend msgCode) state := by
  unfold execute
  refine shows_call (fun _ => trivial) (fun _ _ => trivial) ?_
  intro _ _
  have still : (state.after ⟨.own (.note (.command msgCode)), ()⟩).Between := between
  split
  · refine shows_bind (sendProducts_shows _) ?_
    intro _ _ last
    exact .ret last
  · split
    · refine shows_bind (processOrder_shows _) ?_
      intro _ _ last
      exact .ret last
    · split
      · refine shows_neutral_bind (writes_neutral shutDown_writes) ?_
        intro _ next held inside
        exact .ret ⟨held.trans still.1, inside.trans still.2⟩
      · exact .ret still

theorem forkedServer_shows {state : Standing} (between : state.Between) :
    ShowsStanding backend (fun _ after => after.Between) (forkedServer backend) state := by
  unfold forkedServer
  refine shows_neutral_bind (only_call rfl) ?_
  intro length state₁ held₁ inside₁
  refine shows_neutral_bind (relays_neutral (listens_relays (connReceive_listens _ _))) ?_
  intro received state₂ held₂ inside₂
  have still : state₂.Between := ⟨held₂.trans (held₁.trans between.1), inside₂.trans (inside₁.trans between.2)⟩
  split
  · split
    · exact execute_shows _ still
    · exact shows_undefined trivial
  · exact shows_undefined trivial

/-! The mutex and the handlers. -/

theorem after_held (standing : Standing) (event : ForkedEvent) :
    (standing.after event).held = @mutexAfter (system backend) standing.held event := by
  obtain ⟨op, answer⟩ := event
  cases op with
  | lock => rfl
  | unlock => rfl
  | send byte => rfl
  | recv => cases answer <;> rfl
  | undefined => exact nomatch answer
  | own op =>
      cases op with
      | note note => cases note <;> rfl
      | readLength => rfl
      | readData size => rfl
      | readNull => rfl
      | write data => rfl
      | malloc size => rfl
      | uninitialised size => rfl

theorem read_held (history : List ForkedEvent) :
    ((standing backend).read history).held = @holdsMutex (system backend) history := by
  induction history using List.reverseRecOn with
  | nil => rfl
  | append_singleton history event ih =>
      have next := @Observer.read_concat (system backend) (standing backend) history event
      have held := @holdsMutex_concat (system backend) history event
      rw [next, held, ← ih]
      exact after_held _ event

/-- Who has the mutex is in a handler, since it is taken there and not kept on leaving. -/
theorem after_inside {standing : Standing} {event : ForkedEvent} (proper : standing.Proper event)
    (before : standing.held = true → standing.inside.isSome)
    (held : (standing.after event).held = true) : (standing.after event).inside.isSome := by
  obtain ⟨op, answer⟩ := event
  cases op with
  | lock => exact proper
  | unlock => contradiction
  | send byte => exact before held
  | recv => cases answer <;> exact before held
  | undefined => exact nomatch answer
  | own op =>
      cases op with
      | note note =>
          cases note with
          | enter handler => rfl
          | leave handler => exact absurd (Eq.trans proper.symm held) Bool.false_ne_true
          | command msgCode => exact before held
      | readLength => exact before held
      | readData size => exact before held
      | readNull => exact before held
      | write data => exact before held
      | malloc size => exact before held
      | uninitialised size => exact before held

theorem read_inside {history : List ForkedEvent}
    (proper : ∀ before event later, history = before ++ event :: later →
      ((standing backend).read before).Proper event)
    (held : ((standing backend).read history).held = true) :
    ((standing backend).read history).inside.isSome := by
  induction history using List.reverseRecOn with
  | nil => contradiction
  | append_singleton history event ih =>
      have next := @Observer.read_concat (system backend) (standing backend) history event
      rw [next] at held ⊢
      refine after_inside (proper history event [] rfl) ?_ held
      apply ih
      intro before other later split
      exact proper before other (later ++ [event]) (by rw [split]; simp)

/-! Runs. -/

/-- `getProducts` meets no failure, and nobody who has the mutex writes to a client that has
vanished. -/
def Disciplined (s : State (system backend)) (label : Label (system backend)) : Prop :=
  Permits (standing backend) (fun state event => state.permits event = true) s label ∧
    ∀ t choose ok, label = .thread t choose ok → s.owner = some t → (s.threads t).gone = true →
      ∀ data next, (s.threads t).program ≠ .perform (.own (.write data)) next

/-- A forked server that is still there is inside a handler. -/
def Inside (s : State (system backend)) (t : Nat) : Prop :=
  (s.threads t).alive = true ∧ ((standing backend).read (s.threads t).history).inside.isSome

/-- Handlers return without the mutex. When nobody is inside a handler the mutex is free, and
whoever waits for it goes on. -/
structure Released (s : State (system backend)) : Prop where
  returned : ∀ t before handler later,
    (s.threads t).history = before ++ ⟨.own (.note (.leave handler)), ()⟩ :: later →
      holdsMutex before = false
  free : (∀ t, ¬Inside s t) → s.owner = none
  admitted : (∀ t, ¬Inside s t) → ∀ t choose ok next, (s.threads t).alive = true →
    (s.threads t).program = .perform .lock next → (s.step (.thread t choose ok)).isSome

/-- What the steps preserve. -/
structure Kept (s : State (system backend)) : Prop where
  observed : Observed (standing backend) (fun state event => state.permits event = true)
    Standing.Proper (fun _ => True) Standing.Between s.threads
  holds : OwnerHolds s
  alive : ∀ t, s.owner = some t → (s.threads t).alive = true

theorem initial_kept (db : Database) : Kept (initial db : State (system backend)) where
  observed := initial_observed (fun _ => forkedServer_shows) ⟨rfl, rfl⟩ db
  holds := initial_ownerHolds db
  alive _ owner := nomatch owner

section

variable {s after : State (system backend)} {t : Nat}

theorem Kept.other (kept : Kept s) {thread : Thread (system backend)}
    (changed : after.threads = Function.update s.threads t thread)
    (spared : thread.alive = true ∨ s.owner ≠ some t) (u : Nat) (owner : s.owner = some u) :
    (after.threads u).alive = true := by
  rw [changed]
  by_cases equal : u = t
  · subst u
    rw [Function.update_self]
    exact spared.resolve_right fun other => other owner
  · rw [Function.update_of_ne equal]
    exact kept.alive u owner

theorem Kept.finished (kept : Kept s) {done : Bool} (alive : (s.threads t).alive = true)
    (shape : (s.threads t).program = .ret done) : s.owner ≠ some t := by
  have shows := kept.observed.shows t alive
  rw [shape] at shows
  cases shows with
  | ret between =>
      intro owner
      have held := (kept.holds t).mp owner
      rw [← read_held] at held
      exact absurd (between.1.symm.trans held) Bool.false_ne_true

theorem Kept.alive_step (kept : Kept s) {label : Label (system backend)}
    (disciplined : Disciplined s label) (step : s.step label = some after) (u : Nat)
    (owner : after.owner = some u) : (after.threads u).alive = true := by
  cases label with
  | thread t choose ok =>
      obtain ⟨alive, taken⟩ := stepThread_cases step
      cases taken with
      | finish shape => exact kept.other rfl (.inr (kept.finished alive shape)) u owner
      | again shape => exact kept.other rfl (.inl (by exact alive)) u owner
      | lock next shape free =>
          obtain rfl := Option.some.inj owner
          change (Function.update s.threads t _ t).alive = true
          rw [Function.update_self]
          exact alive
      | unlock next shape =>
          refine kept.other rfl (.inl (by exact alive)) u ?_
          have given : (if s.owner = some t then none else s.owner) = some u := owner
          split at given
          · contradiction
          · exact given
      | send byte next shape => exact kept.other rfl (.inl (by exact alive)) u owner
      | sendFails byte next shape => exact kept.other rfl (.inl (by exact alive)) u owner
      | recv byte tag rest next shape there => exact kept.other rfl (.inl (by exact alive)) u owner
      | recvFails next shape => exact kept.other rfl (.inl (by exact alive)) u owner
      | killed op next shape gone reaches =>
          refine kept.other rfl (.inr fun own => ?_) u owner
          cases op with
          | write data => exact disciplined.2 t choose ok rfl own gone data next shape
          | readLength => contradiction
          | readData size => contradiction
          | readNull => contradiction
          | malloc size => contradiction
          | uninitialised size => contradiction
          | note note => contradiction
      | own op next shape => exact kept.other rfl (.inl (by exact alive)) u owner
  | server =>
      cases stepServer_cases step <;> exact kept.alive u owner
  | start choice =>
      obtain ⟨_, _, _, _, -, -, rfl⟩ := startServer_cases step
      exact kept.alive u owner
  | vanish t =>
      simp only [State.step, Option.some.injEq] at step
      subst after
      by_cases equal : u = t
      · subst u
        change (Function.update s.threads t _ t).alive = true
        rw [Function.update_self]
        exact kept.alive t owner
      · exact kept.other rfl (.inr fun other => equal (Option.some.inj (owner.symm.trans other))) u owner

theorem kept_step {label : Label (system backend)} (disciplined : Disciplined s label) (kept : Kept s)
    (step : s.step label = some after) : Kept after where
  observed := observed_step (fun _ => forkedServer_shows) s label after disciplined.1 kept.observed step
  holds := ownerHolds_step kept.holds step
  alive := kept.alive_step disciplined step

theorem Kept.inside (kept : Kept s) (owner : s.owner = some t) : Inside s t := by
  have held := (kept.holds t).mp owner
  rw [← read_held] at held
  exact ⟨kept.alive t owner, read_inside (kept.observed.proper t) held⟩

theorem Kept.released (kept : Kept s) : Released s := by
  have free : (∀ t, ¬Inside s t) → s.owner = none := by
    intro outside
    cases owner : s.owner with
    | none => rfl
    | some t => exact absurd (kept.inside owner) (outside t)
  refine ⟨?_, free, ?_⟩
  · intro t before handler later split
    rw [← read_held]
    exact kept.observed.proper t before _ later split
  · intro outside t choose ok next alive shape
    simp [State.step, State.stepThread, alive, shape, free outside]

end

/-- In every run in which `getProducts` meets no failure, and nobody who has the mutex writes to a
client that has vanished, the handlers give the mutex back. -/
theorem run_released {db : Database} {labels : List (Label (system backend))}
    {s : State (system backend)} (disciplined : Along Disciplined (initial db) labels)
    (run : (initial db : State (system backend)).run labels = some s) : Released s :=
  (run_invariant (fun _ _ _ disciplined kept step => kept_step disciplined kept step) disciplined
    (initial_kept db) run).released

/-- What `Disciplined` says, for one state at a time. -/
def disciplined (s : State (system .sockets)) (label : Label (system .sockets)) : Bool :=
  s.admits (standing .sockets) Standing.permits label &&
    match label with
    | .thread t _ _ => !(s.owner = some t && (s.threads t).gone && writesClient (s.threads t).program)
    | _ => true

theorem disciplined_sound {s : State (system .sockets)} {label : Label (system .sockets)}
    (tested : disciplined s label = true) : Disciplined s label := by
  obtain ⟨permitted, spared⟩ := Bool.and_eq_true_iff.mp tested
  refine ⟨permits_of_admits permitted, ?_⟩
  rintro t choose ok rfl owner gone data next shape
  simp [owner, gone, shape, writesClient] at spared

theorem run_released_vodka :
    ∃ s, (initial init : State (system .sockets)).run (ordering ++ answered) = some s ∧ Released s := by
  have runs : ((initial init : State (system .sockets)).run (ordering ++ answered)).isSome := by
    decide +kernel
  have checked : (initial init : State (system .sockets)).check disciplined (ordering ++ answered) =
      true := by
    decide +kernel
  obtain ⟨s, run⟩ := Option.isSome_iff_exists.mp runs
  exact ⟨s, run, run_released (along_of_check (fun _ _ _ => disciplined_sound) checked) run⟩

/-! A table without products. -/

def soldOut : Database := { init with products := [], keys := List.nodup_nil }

/-- A client asks for the products, and the answer is an error. -/
def asking : List (Label (system .sockets)) :=
  List.replicate 11 (.thread 0 (sends (intBytes cmdGetProducts)) true) ++ [.start calm] ++
    List.replicate 8 .server ++ List.replicate 5 (.thread 0 (sends []) true)

def isLeave : ForkedEvent → Bool
  | ⟨.own (.note (.leave _)), _⟩ => true
  | _ => false

theorem isLeave_iff {event : ForkedEvent} (leaves : isLeave event = true) :
    ∃ handler, event = ⟨.own (.note (.leave handler)), ()⟩ := by
  unfold isLeave at leaves
  split at leaves
  · rename_i handler answer
    exact ⟨handler, rfl⟩
  · contradiction

/-- `getProducts` returns behind the error, and the mutex stays taken. -/
theorem run_kept_mutex :
    ∃ s, (initial soldOut : State (system .sockets)).run asking = some s ∧ s.owner = some 0 ∧
      (s.threads 0).alive = true ∧ ¬Released s := by
  have computed : ((initial soldOut : State (system .sockets)).run asking).any (fun s =>
      s.owner = some 0 ∧ (s.threads 0).alive = true ∧
        (s.threads 0).history.getLast?.any isLeave = true ∧
        @holdsMutex (system .sockets) (s.threads 0).history.dropLast = true) = true := by
    decide +kernel
  obtain ⟨s, run, facts⟩ := (Option.any_eq_true _ _).mp computed
  simp only [decide_eq_true_eq] at facts
  obtain ⟨owner, alive, last, held⟩ := facts
  obtain ⟨event, final, leaves⟩ := (Option.any_eq_true _ _).mp last
  obtain ⟨handler, rfl⟩ := isLeave_iff leaves
  refine ⟨s, run, owner, alive, ?_⟩
  intro released
  have split := (List.dropLast_append_getLast? _ final).symm
  exact absurd (held.symm.trans (released.returned 0 _ handler [] split)) (by decide)

end Iac
