import Iac.MutexDiscipline

/-! The commands that a forked server executes, beside the frames that it reads as commands. -/

namespace Iac

open CText Interaction SharedPipe Program

variable {backend : Backend}

/-! What an observer of a forked server keeps track of. -/

structure Reception where
  inside : Bool
  /-- in the `conn_receive` of the loop -/
  receiving : Bool
  /-- the frames that arrived there as a whole -/
  frames : List Bytes
  commands : List Int32
  deriving DecidableEq, Repr

/-- A payload of no bytes is there as soon as there is a block for it. -/
def Reception.after (reception : Reception) : ForkedEvent → Reception
  | ⟨.own (.note (.enter _)), _⟩ => { reception with inside := true }
  | ⟨.own (.note (.leave _)), _⟩ => { reception with inside := false }
  | ⟨.own (.note (.command msgCode)), _⟩ =>
      { reception with receiving := false, commands := reception.commands ++ [msgCode] }
  | ⟨.own (.uninitialised _), _⟩ =>
      if reception.inside then reception else { reception with receiving := true }
  | ⟨.own (.malloc size), some _⟩ =>
      if reception.receiving && size = 0 then { reception with frames := reception.frames ++ [[]] }
      else reception
  | ⟨.own (.readData size), arrived⟩ =>
      if reception.receiving && arrived.val.length = size then
        { reception with frames := reception.frames ++ [arrived.val] }
      else reception
  | _ => reception

def reception (backend : Backend) : Observer (system backend) where
  State := Reception
  start := ⟨false, false, [], []⟩
  after := Reception.after

/-- In the loop a frame arrives as a whole, has four bytes and gets its memory. -/
def Reception.permits (reception : Reception) (event : ForkedEvent) : Bool :=
  if reception.receiving then
    match event with
    | ⟨.own .readLength, arrived⟩ => arrived.val = sizeBytes 4
    | ⟨.own (.malloc _), none⟩ => false
    | ⟨.own (.readData size), arrived⟩ => arrived.val.length = size
    | _ => true
  else true

/-- With the command, what was executed is what arrived. -/
def Reception.Proper (reception : Reception) : ForkedEvent → Prop
  | ⟨.own (.note (.command msgCode)), _⟩ =>
      reception.frames = (reception.commands ++ [msgCode]).map intBytes
  | _ => True

abbrev ShowsReception (backend : Backend) {α : Type} (ends : α → Reception → Prop)
    (program : ForkedProgram α) (state : Reception) : Prop :=
  @SharedPipe.Shows (system backend) (reception backend) (fun state event => state.permits event = true)
    Reception.Proper (fun state => state.receiving = false) α ends program state

/-- Between two rounds everything that arrived has been executed. -/
structure Reception.Between (reception : Reception) : Prop where
  outside : reception.inside = false
  receiving : reception.receiving = false
  executed : reception.frames = reception.commands.map intBytes

/-! Handlers. -/

/-- In a handler nothing but marks is of interest. -/
theorem inside_after {state : Reception} (inside : state.inside = true)
    (receiving : state.receiving = false) {op : Action Local} (unmarked : isUnmarked op = true)
    (answer : Action.Answer Local.Answer op) :
    state.after ⟨op, answer⟩ = state ∧ state.Proper ⟨op, answer⟩ := by
  cases op with
  | lock => exact ⟨rfl, trivial⟩
  | unlock => exact ⟨rfl, trivial⟩
  | send byte => exact ⟨rfl, trivial⟩
  | recv => exact ⟨rfl, trivial⟩
  | undefined => exact nomatch answer
  | own op =>
      cases op with
      | note note => contradiction
      | readLength => exact ⟨rfl, trivial⟩
      | readData size => exact ⟨if_neg (by simp [receiving]), trivial⟩
      | readNull => exact ⟨rfl, trivial⟩
      | write data => exact ⟨rfl, trivial⟩
      | malloc size =>
          cases answer with
          | none => exact ⟨rfl, trivial⟩
          | some block => exact ⟨if_neg (by simp [receiving]), trivial⟩
      | uninitialised size => exact ⟨if_pos inside, trivial⟩

theorem writing_after (state : Reception) {op : Action Local} (writing : isWriting op = true)
    (answer : Action.Answer Local.Answer op) :
    state.after ⟨op, answer⟩ = state ∧ state.Proper ⟨op, answer⟩ := by
  cases op with
  | lock => contradiction
  | unlock => contradiction
  | send byte => contradiction
  | recv => contradiction
  | undefined => exact nomatch answer
  | own op =>
      cases op with
      | write data => exact ⟨rfl, trivial⟩
      | note note => contradiction
      | readLength => contradiction
      | readData size => contradiction
      | readNull => contradiction
      | malloc size => contradiction
      | uninitialised size => contradiction

theorem shows_unchanged {α : Type} {good : Action Local → Bool} {program : ForkedProgram α}
    (only : Only good program) {state : Reception} (receiving : state.receiving = false)
    (unchanged : ∀ op, good op = true → ∀ answer,
      state.after ⟨op, answer⟩ = state ∧ state.Proper ⟨op, answer⟩) :
    ShowsReception backend (fun _ after => after = state) program state := by
  induction only with
  | ret value => exact .ret rfl
  | perform here _ ih =>
      refine .perform (fun _ => receiving) (fun answer _ => (unchanged _ here answer).2) ?_
      intro answer _
      have next := ih answer
      have same : (reception backend).after state ⟨_, answer⟩ = state := (unchanged _ here answer).1
      rw [same]
      exact next

theorem shows_handler {α : Type} {handler : Handler} {program : ForkedProgram α}
    (unmarked : Only isUnmarked program) {state : Reception} (outside : state.inside = false)
    (receiving : state.receiving = false) :
    ShowsReception backend (fun _ after => after = state) (do
      mark (.enter handler)
      let result ← program
      mark (.leave handler)
      return result) state := by
  refine shows_call (fun _ => receiving) (fun _ _ => trivial) ?_
  intro _ _
  refine shows_bind (shows_unchanged unmarked receiving
    fun op good answer => @inside_after { state with inside := true } rfl receiving op good answer) ?_
  rintro result _ rfl
  refine shows_call (fun _ => receiving) (fun _ _ => trivial) ?_
  intro _ _
  refine .ret ?_
  change { state with inside := false } = state
  rw [← outside]

theorem sendProducts_shows_reception {state : Reception} (outside : state.inside = false)
    (receiving : state.receiving = false) :
    ShowsReception backend (fun _ after => after = state) sendProducts state := by
  unfold sendProducts
  refine shows_bind (shows_handler requestProducts_unmarked outside receiving) ?_
  rintro ⟨numProducts, products⟩ _ rfl
  exact shows_unchanged (sendListing_writes numProducts products) receiving
    fun op good answer => writing_after _ good answer

def handleOrder (backend : Backend) : ForkedProgram Unit := do
  let serializedLen ← own (.uninitialised 8)
  let received ← connReceive backend serializedLen.val .stray
  passOrder received

theorem processOrder_eq (backend : Backend) : processOrder backend = (do
    mark (.enter .processOrder)
    let result ← handleOrder backend
    mark (.leave .processOrder)
    return result) := by
  unfold processOrder handleOrder
  simp only [Program.bind_assoc]
  rfl

theorem handleOrder_unmarked : Only isUnmarked (handleOrder backend) := by
  refine only_bind (only_call rfl) fun _ => ?_
  exact only_bind (neutral_unmarked (relays_neutral (listens_relays (connReceive_listens _ _)))) passOrder_unmarked

theorem processOrder_shows_reception {state : Reception} (outside : state.inside = false)
    (receiving : state.receiving = false) :
    ShowsReception backend (fun _ after => after = state) (processOrder backend) state := by
  rw [processOrder_eq]
  exact shows_handler handleOrder_unmarked outside receiving

/-! The loop. -/

theorem execute_shows_reception (msgCode : Int32) {state : Reception} (outside : state.inside = false)
    (executed : state.frames = (state.commands ++ [msgCode]).map intBytes) :
    ShowsReception backend (fun _ after => after.Between) (execute backend msgCode) state := by
  unfold execute
  refine shows_call (fun other => nomatch other) (fun _ _ => executed) ?_
  intro _ _
  have between : Reception.Between (state.after ⟨.own (.note (.command msgCode)), ()⟩) :=
    ⟨outside, rfl, executed⟩
  split
  · refine shows_bind (sendProducts_shows_reception between.outside between.receiving) ?_
    rintro _ _ rfl
    exact .ret between
  · split
    · refine shows_bind (processOrder_shows_reception between.outside between.receiving) ?_
      rintro _ _ rfl
      exact .ret between
    · split
      · refine shows_bind (shows_unchanged shutDown_writes between.receiving
          fun op good answer => writing_after _ good answer) ?_
        rintro _ _ rfl
        exact .ret between
      · exact .ret between

theorem readBlock_shows {state : Reception} (receiving : state.receiving = true) {block : Bytes}
    (four : block.length = 4) :
    ShowsReception backend (fun result after => result.1 = true ∧ result.2.length = 4 ∧
        after = { state with frames := state.frames ++ [result.2] }) (readBlock block) state := by
  unfold readBlock
  rw [if_neg (by omega)]
  refine shows_call (fun other => nomatch other) (fun _ _ => trivial) ?_
  intro arrived permitted
  have whole : arrived.val.length = block.length := by
    rw [Reception.permits, if_pos receiving] at permitted
    exact of_decide_eq_true permitted
  have kept : (reception backend).after state ⟨.own (.readData block.length), arrived⟩ =
      { state with frames := state.frames ++ [arrived.val] } :=
    if_pos (by simp [receiving, whole])
  rw [kept, if_pos (by omega), overlay_whole whole]
  exact .ret ⟨decide_eq_true whole, whole.trans four, rfl⟩

theorem connReceive_shows {state : Reception} (receiving : state.receiving = true) {length : Bytes}
    (word : length.length = 8) :
    ShowsReception backend (fun received after => ∃ contents : Bytes, contents.length = 4 ∧
        received.data = .block contents ∧
        after = { state with frames := state.frames ++ [contents] })
      (connReceive backend length .stray) state := by
  unfold connReceive
  refine shows_call (fun other => nomatch other) (fun _ _ => trivial) ?_
  intro arrived permitted
  have four : arrived.val = sizeBytes 4 := by
    rw [Reception.permits, if_pos receiving] at permitted
    exact of_decide_eq_true permitted
  have eight : arrived.val.length = 8 := by
    rw [four]
    exact sizeBytes_length 4
  have header : fromLittleEndian (overlay length arrived.val) = 4 := by
    rw [overlay_whole (eight.trans word.symm), four]
    exact fromLittleEndian_sizeBytes (by decide)
  dsimp only
  rw [if_neg (by omega)]
  refine shows_call (fun other => nomatch other) (fun _ _ => trivial) ?_
  intro granted permitted
  cases granted with
  | none =>
      have refused : state.permits ⟨.own (.malloc _), none⟩ = true := permitted
      rw [Reception.permits, if_pos receiving] at refused
      contradiction
  | some block =>
      have size : block.val.length = 4 := block.property.trans header
      have kept : (reception backend).after ((reception backend).after state ⟨.own .readLength, arrived⟩)
          ⟨.own (.malloc _), some block⟩ = state := if_neg (by simp [header])
      rw [kept]
      refine shows_bind (readBlock_shows receiving size) ?_
      rintro ⟨ok, contents⟩ after ⟨rfl, four, rfl⟩
      exact .ret ⟨contents, four, rfl, rfl⟩

theorem forkedServer_shows_reception {state : Reception} (between : state.Between) :
    ShowsReception backend (fun _ after => after.Between) (forkedServer backend) state := by
  unfold forkedServer
  refine shows_call (fun other => nomatch other) (fun _ _ => trivial) ?_
  intro length _
  have started : (reception backend).after state ⟨.own (.uninitialised 8), length⟩ =
      { state with receiving := true } := if_neg (by simp [between.outside])
  rw [started]
  refine shows_bind (@connReceive_shows backend { state with receiving := true } rfl _ length.property) ?_
  rintro received after ⟨contents, four, block, rfl⟩
  rw [block]
  dsimp only
  rw [field_start (Nat.le_of_eq four.symm), List.take_of_length_le (Nat.le_of_eq four)]
  refine execute_shows_reception _ between.outside ?_
  rw [between.executed, List.map_append, List.map_singleton, intBytes_bytesInt four]

/-! Runs. -/

/-- The frames that are read as commands arrive as a whole, have four bytes and get their memory. -/
def Framed (s : State (system backend)) (label : Label (system backend)) : Prop :=
  Permits (reception backend) (fun state event => state.permits event = true) s label

/-- The commands that are executed are the frames that arrived, one by one, each of them the
`int` in its frame; and no command is looked for where there is none. -/
structure OnlyReceived (s : State (system backend)) : Prop where
  executed : ∀ t before msgCode later,
    (s.threads t).history = before ++ ⟨.own (.note (.command msgCode)), ()⟩ :: later →
      ((reception backend).read before).frames =
        (((reception backend).read before).commands ++ [msgCode]).map intBytes
  settled : ∀ t, ((reception backend).read (s.threads t).history).receiving = false →
    ((reception backend).read (s.threads t).history).frames =
      ((reception backend).read (s.threads t).history).commands.map intBytes
  defined : ∀ t next, (s.threads t).alive = true →
    ((reception backend).read (s.threads t).history).receiving = true →
      (s.threads t).program ≠ .perform .undefined next

/-- Frames are only counted while a command is awaited. -/
theorem after_settled {state : Reception} {event : ForkedEvent} (proper : state.Proper event)
    (settled : state.receiving = false → state.frames = state.commands.map intBytes)
    (idle : (state.after event).receiving = false) :
    (state.after event).frames = (state.after event).commands.map intBytes := by
  obtain ⟨op, answer⟩ := event
  cases op with
  | lock => exact settled idle
  | unlock => exact settled idle
  | send byte => exact settled idle
  | recv => exact settled idle
  | undefined => exact nomatch answer
  | own op =>
      cases op with
      | note note =>
          cases note with
          | enter handler => exact settled idle
          | leave handler => exact settled idle
          | command msgCode => exact proper
      | readLength => exact settled idle
      | readNull => exact settled idle
      | write data => exact settled idle
      | readData size =>
          unfold Reception.after at idle ⊢
          dsimp only at idle ⊢
          split at idle
          · rename_i both
            rw [idle] at both
            contradiction
          · rename_i neither
            rw [if_neg neither]
            exact settled idle
      | malloc size =>
          cases answer with
          | none => exact settled idle
          | some block =>
              unfold Reception.after at idle ⊢
              dsimp only at idle ⊢
              split at idle
              · rename_i both
                rw [idle] at both
                contradiction
              · rename_i neither
                rw [if_neg neither]
                exact settled idle
      | uninitialised size =>
          unfold Reception.after at idle ⊢
          dsimp only at idle ⊢
          split at idle
          · rename_i inside
            rw [if_pos inside]
            exact settled idle
          · contradiction

theorem read_settled {history : List ForkedEvent}
    (proper : ∀ before event later, history = before ++ event :: later →
      ((reception backend).read before).Proper event)
    (idle : ((reception backend).read history).receiving = false) :
    ((reception backend).read history).frames =
      ((reception backend).read history).commands.map intBytes := by
  induction history using List.reverseRecOn with
  | nil => rfl
  | append_singleton history event ih =>
      have next := @Observer.read_concat (system backend) (reception backend) history event
      rw [next] at idle ⊢
      refine after_settled (proper history event [] rfl) ?_ idle
      apply ih
      intro before other later split
      exact proper before other (later ++ [event]) (by rw [split]; simp)

abbrev Receiving (s : State (system backend)) : Prop :=
  Observed (reception backend) (fun state event => state.permits event = true) Reception.Proper
    (fun state => state.receiving = false) Reception.Between s.threads

theorem Receiving.only {s : State (system backend)} (observed : Receiving s) : OnlyReceived s where
  executed t before _ later split := observed.proper t before _ later split
  settled t idle := read_settled (observed.proper t) idle
  defined t next alive receiving shape := by
    have idle := observed.excuse alive shape
    exact absurd (receiving.symm.trans idle) (by decide)

/-- In every run in which the frames that are read as commands arrive as a whole, have four bytes
and get their memory, exactly these commands are executed. -/
theorem run_only_received {db : Database} {labels : List (Label (system backend))}
    {s : State (system backend)} (framed : Along Framed (initial db) labels)
    (run : (initial db : State (system backend)).run labels = some s) : OnlyReceived s := by
  have start : Receiving (initial db : State (system backend)) :=
    initial_observed (fun _ => forkedServer_shows_reception) ⟨rfl, rfl, rfl⟩ db
  have kept : Receiving s := run_invariant (fun s label after framed kept step =>
    observed_step (fun _ => forkedServer_shows_reception) s label after framed kept step) framed start run
  exact kept.only

theorem run_only_received_vodka :
    ∃ s, (initial init : State (system .sockets)).run (ordering ++ answered) = some s ∧
      OnlyReceived s := by
  have runs : ((initial init : State (system .sockets)).run (ordering ++ answered)).isSome := by
    decide +kernel
  have checked : (initial init : State (system .sockets)).check
      (fun s label => s.admits (reception .sockets) Reception.permits label) (ordering ++ answered) =
        true := by
    decide +kernel
  obtain ⟨s, run⟩ := Option.isSome_iff_exists.mp runs
  exact ⟨s, run, run_only_received (along_of_check (fun _ _ _ => permits_of_admits) checked) run⟩

/-! A frame of eight bytes. -/

def closing : Bytes := intBytes messageClose ++ intBytes 0

def longFrame : List (Label (system .sockets)) :=
  List.replicate 5 (.thread 0 (sends closing) true)

/-- The first four bytes of the frame are executed. -/
theorem run_long_frame :
    ∃ s, (initial init : State (system .sockets)).run longFrame = some s ∧ ¬OnlyReceived s := by
  have computed : ((initial init : State (system .sockets)).run longFrame).any (fun s =>
      ((reception .sockets).read (s.threads 0).history).receiving = false ∧
        ((reception .sockets).read (s.threads 0).history).frames = [closing] ∧
        ((reception .sockets).read (s.threads 0).history).commands = [messageClose]) = true := by
    decide +kernel
  obtain ⟨s, run, facts⟩ := (Option.any_eq_true _ _).mp computed
  simp only [decide_eq_true_eq] at facts
  obtain ⟨idle, frames, commands⟩ := facts
  refine ⟨s, run, ?_⟩
  intro only
  have same := only.settled 0 idle
  rw [frames, commands] at same
  exact absurd same (by decide)

end Iac
