import Iac.MainServer

/-! What a process that comes from the main server may have done, call by call. -/

namespace Iac.MainServer

open CText Interaction Printing SharedPipe Processes
open Startup (Pipe Starting Started startDBServer startDatabase withoutPipes failedExec startDatabase_eq)

abbrev Noted := Event Op.Answer Int32 File

/-! Kinds of events. -/

/-- The call of `fork` by which a process came to be. -/
def isBirth : Noted → Bool
  | ⟨.fork, (pid : Int32), _⟩ => pid = 0
  | _ => false

def isFork : Op → Bool
  | .fork => true
  | _ => false

def accepts : Noted → Bool
  | ⟨.connAccept, some _, _⟩ => true
  | _ => false

/-- The database server is told to close. -/
def tells : Noted → Bool
  | ⟨.write _ _, (written : Bool), _⟩ => written
  | _ => false

/-- What the main server does until it is to stop. -/
def isQuiet : Op → Bool
  | .lock => false
  | .write _ _ => false
  | .close _ => false
  | .shmUnlink => false
  | .forked _ => false
  | _ => true

/-- What is left to do behind a message that could not be written. -/
def winds : Op → Bool
  | .close _ => true
  | .shmUnlink => true
  | .log _ _ => true
  | .exit _ => true
  | _ => false

def keepsOpen (op : Op) : Bool := (closes op).isEmpty

/-- What the children do, but for closing. -/
def isModest : Op → Bool
  | .close _ => false
  | .write _ _ => false
  | _ => true

/-- What the database server does, but for closing. -/
def attends : Op → Bool
  | .close _ => false
  | .write _ _ => false
  | .connAccept => false
  | _ => true

/-- What it does behind its loop. -/
def leaves : Op → Bool
  | .write _ _ => false
  | .connAccept => false
  | _ => true

def IsChild (history : List Noted) : Prop := ∃ event ∈ history, isBirth event = true

/-- Where nothing has been accepted, it is the database server that has closed something. -/
def ShutDown (history : List Noted) : Prop :=
  (∀ event ∈ history, accepts event = false) ∧ ∃ event ∈ history, closes event.op ≠ []

def Stopping (history : List Noted) : Prop := ∃ event ∈ history, isQuiet event.op = false

/-- The descriptors of the connections that have been accepted. -/
def accepted (history : List Noted) : List (Int32 × File) :=
  history.flatMap fun event => if accepts event then event.opened else []

/-! What a process may be. -/

def pipeEnds (outpipe inpipe : Pipe) (m n : Nat) : List (Int32 × File) :=
  [(outpipe.read, .reads m), (outpipe.write, .writes m), (inpipe.read, .reads n), (inpipe.write, .writes n)]

def made (pipe : Pipe) (number : Nat) : Noted := ⟨.pipe, some pipe, opens number .pipe (some pipe)⟩

def acceptedAs (c : List Int32) (number : Nat) : Noted :=
  ⟨.connAccept, some c, opens number .connAccept (some c)⟩

section

variable (backend : Backend) (start : List (Int32 × File)) (limit : Nat)

/-- It has both ends of both pipes of `startDBServer`. -/
structure Connected (outpipe inpipe : Pipe) (m n : Nat) (history : List Noted) : Prop where
  begins : [made outpipe m, made inpipe n] <+: history
  held : ∀ entry ∈ pipeEnds outpipe inpipe m n, entry ∈ (setting backend start limit).table history

structure Child (outpipe inpipe : Pipe) (m n : Nat) (history : List Noted) : Prop where
  connected : Connected backend start limit outpipe inpipe m n history
  born : IsChild history
  untold : ∀ event ∈ history, tells event = false

/-- The database server, as long as it has closed nothing. -/
structure Attending (outpipe inpipe : Pipe) (m n : Nat) (history : List Noted) : Prop where
  child : Child backend start limit outpipe inpipe m n history
  alone : ∀ event ∈ history, accepts event = false

/-- The database server behind its loop. -/
structure Leaving (history : List Noted) : Prop where
  born : IsChild history
  untold : ∀ event ∈ history, tells event = false
  closed : ShutDown history

/-- The main server, as long as it is not to stop. -/
structure Running (history : List Noted) : Prop where
  quiet : ∀ event ∈ history, isQuiet event.op = true
  unborn : ∀ event ∈ history, isBirth event = false
  room : accepted history = [] ∨ 6 + (accepted history).length ≤ (history.flatMap Event.opened).length
  sockets : backend = .sockets → history.countP accepts = (accepted history).length

/-- The main server without a message to the database server. -/
structure Failing (history : List Noted) : Prop where
  shape : ∃ before rest, history = before ++ ⟨.lock, (), []⟩ :: rest ∧ Running backend before ∧
    ∀ event ∈ rest, isBirth event = false ∧ tells event = false

/-- Behind the message that is written nothing follows. -/
def Told (history : List Noted) : Prop :=
  ∃ before fd, history = before ++ [⟨.lock, (), []⟩, ⟨.write fd (intBytes messageClose), true, []⟩] ∧
    Running backend before

inductive Phase (history : List Noted) : Prop
  | running (runs : Running backend history)
  | failing (fails : Failing backend history)
  | told (tells : Told backend history)
  | child {outpipe inpipe : Pipe} {m n : Nat} (child : Child backend start limit outpipe inpipe m n history)
  | leaving (leaving : Leaving history)

end

section

variable {backend : Backend} {start : List (Int32 × File)} {limit : Nat} {history after : List Noted}
  {outpipe inpipe : Pipe} {m n : Nat}

/-! What a call adds. -/

theorem all_noted {kind : Noted → Prop} {event : Noted} (all : ∀ one ∈ history, kind one) (last : kind event) :
    ∀ one ∈ history ++ [event], kind one :=
  List.forall_mem_append.mpr ⟨all, List.forall_mem_singleton.mpr last⟩

theorem IsChild.next (child : IsChild history) (event : Noted) : IsChild (history ++ [event]) := by
  obtain ⟨birth, member, born⟩ := child
  exact ⟨birth, List.mem_append_left _ member, born⟩

theorem splits_fork {op : Op} {answer second : op.Answer} (other : isFork op = false) :
    splits op answer ≠ some second := by
  cases op with
  | fork => contradiction
  | _ => exact nofun

theorem notes_own {op : Op} {answer : op.Answer} (other : isFork op = false)
    (notes : (setting backend start limit).Notes history op answer after) :
    ∃ number, (setting backend start limit).Fits history number op answer ∧
      after = history ++ [⟨op, answer, opens number op answer⟩] := by
  cases notes with
  | caller fits => exact ⟨_, fits, rfl⟩
  | child _ split => exact absurd split (splits_fork other)

theorem notes_fork {pid : Int32} (notes : (setting backend start limit).Notes history .fork pid after) :
    after = history ++ [⟨.fork, pid, []⟩] := by
  obtain ⟨number, other, _, rfl, _⟩ := notes.shape
  rfl

theorem Connected.next (connected : Connected backend start limit outpipe inpipe m n history) (event : Noted)
    (kept : ∀ entry ∈ pipeEnds outpipe inpipe m n, entry.1 ∉ closes event.op) :
    Connected backend start limit outpipe inpipe m n (history ++ [event]) where
  begins := connected.begins.trans (List.prefix_append _ _)
  held entry member := Setting.table_held (connected.held entry member) (kept entry member)

theorem Child.next (child : Child backend start limit outpipe inpipe m n history) {event : Noted}
    (kept : ∀ entry ∈ pipeEnds outpipe inpipe m n, entry.1 ∉ closes event.op) (untold : tells event = false) :
    Child backend start limit outpipe inpipe m n (history ++ [event]) where
  connected := child.connected.next event kept
  born := child.born.next event
  untold := all_noted child.untold untold

theorem Child.noted (child : Child backend start limit outpipe inpipe m n history) {op : Op}
    {answer : op.Answer} (modest : isModest op = true)
    (notes : (setting backend start limit).Notes history op answer after) :
    Child backend start limit outpipe inpipe m n after := by
  obtain ⟨number, other, _, rfl, _⟩ := notes.shape
  apply child.next
  · intro entry _
    cases op with
    | close fd => contradiction
    | _ => exact List.not_mem_nil
  · cases op with
    | write fd src => contradiction
    | _ => rfl

theorem attends_modest {op : Op} (good : attends op = true) : isModest op = true := by
  cases op with
  | close fd => contradiction
  | write fd src => contradiction
  | _ => rfl

theorem leaves_untold {op : Op} {answer : op.Answer} {opened : List (Int32 × File)} (good : leaves op = true) :
    tells ⟨op, answer, opened⟩ = false ∧ accepts ⟨op, answer, opened⟩ = false := by
  cases op with
  | write fd src => contradiction
  | connAccept => contradiction
  | _ => exact ⟨rfl, rfl⟩

theorem Attending.noted (attending : Attending backend start limit outpipe inpipe m n history) {op : Op}
    {answer : op.Answer} (good : attends op = true)
    (notes : (setting backend start limit).Notes history op answer after) :
    Attending backend start limit outpipe inpipe m n after where
  child := attending.child.noted (attends_modest good) notes
  alone := by
    obtain ⟨number, other, _, rfl, _⟩ := notes.shape
    refine all_noted attending.alone ?_
    cases op with
    | connAccept => contradiction
    | _ => rfl

theorem Leaving.noted (leaving : Leaving history) {op : Op} {answer : op.Answer} (good : leaves op = true)
    (notes : (setting backend start limit).Notes history op answer after) : Leaving after := by
  obtain ⟨number, other, _, rfl, _⟩ := notes.shape
  obtain ⟨untold, alone⟩ := @leaves_untold op answer (opens number op other) good
  obtain ⟨alone_so_far, close, happened, closed⟩ := leaving.closed
  exact ⟨leaving.born.next _, all_noted leaving.untold untold, all_noted alone_so_far alone, close,
    List.mem_append_left _ happened, closed⟩

/-- With the first pipe end that it closes the database server is leaving. -/
theorem Attending.closes (attending : Attending backend start limit outpipe inpipe m n history) {fd : Int32}
    {closed : Bool} (notes : (setting backend start limit).Notes history (.close fd) closed after) :
    Leaving after := by
  obtain ⟨number, _, rfl⟩ := notes_own rfl notes
  exact ⟨attending.child.born.next _, all_noted attending.child.untold rfl, all_noted attending.alone rfl, _,
    List.mem_append_right _ (List.mem_singleton_self _), List.cons_ne_nil _ _⟩

theorem connected_made (outpipe inpipe : Pipe) (m n : Nat) :
    Connected backend start limit outpipe inpipe m n [made outpipe m, made inpipe n] where
  begins := List.prefix_rfl
  held entry member := by
    have shape : [made outpipe m, made inpipe n] = [made outpipe m] ++ [made inpipe n] := rfl
    have ends : pipeEnds outpipe inpipe m n = (made outpipe m).opened ++ (made inpipe n).opened := rfl
    rw [shape]
    rw [ends] at member
    rcases List.mem_append.mp member with first | second
    · have opened : entry ∈ (setting backend start limit).table ([] ++ [made outpipe m]) :=
        Setting.table_opened first
      exact Setting.table_held opened List.not_mem_nil
    · exact Setting.table_opened second

theorem quiet_untold {event : Noted} (quiet : isQuiet event.op = true) : tells event = false := by
  obtain ⟨op, answer, opened⟩ := event
  cases op with
  | write fd src => contradiction
  | _ => rfl

theorem quiet_keeps {op : Op} (quiet : isQuiet op = true) : closes op = [] := by
  cases op with
  | close fd => contradiction
  | _ => rfl

theorem Running.untold (runs : Running backend history) : ∀ event ∈ history, tells event = false :=
  fun event member => quiet_untold (runs.quiet event member)

/-- A new process comes from the main server. -/
theorem Running.forked (runs : Running backend history)
    (connected : Connected backend start limit outpipe inpipe m n history) :
    Child backend start limit outpipe inpipe m n (history ++ [⟨.fork, (0 : Int32), []⟩]) where
  connected := connected.next _ fun _ _ => List.not_mem_nil
  born := ⟨_, List.mem_append_right _ (List.mem_singleton_self _), rfl⟩
  untold := all_noted runs.untold rfl

theorem Running.next (runs : Running backend history) {event : Noted} (quiet : isQuiet event.op = true)
    (unborn : isBirth event = false) (other : accepts event = false) : Running backend (history ++ [event]) := by
  have nothing : accepted (history ++ [event]) = accepted history := by
    rw [accepted, List.flatMap_append, List.flatMap_singleton, other]
    exact List.append_nil _
  refine ⟨all_noted runs.quiet quiet, all_noted runs.unborn unborn, ?_, ?_⟩
  · rw [nothing, List.flatMap_append, List.length_append]
    rcases runs.room with none_yet | enough
    · exact .inl none_yet
    · exact .inr (by omega)
  · intro sockets
    rw [nothing, List.countP_append, List.countP_singleton, other, runs.sockets sockets]
    rfl

theorem running_new : Running backend [] where
  quiet _ member := absurd member List.not_mem_nil
  unborn _ member := absurd member List.not_mem_nil
  room := .inl rfl
  sockets _ := rfl

theorem Failing.next (fails : Failing backend history) {event : Noted} (unborn : isBirth event = false)
    (untold : tells event = false) : Failing backend (history ++ [event]) := by
  obtain ⟨before, rest, rfl, runs, later⟩ := fails.shape
  refine ⟨before, rest ++ [event], by rw [List.append_assoc, List.cons_append], runs, ?_⟩
  rw [List.forall_mem_append, List.forall_mem_singleton]
  exact ⟨later, unborn, untold⟩

/-! The programs. -/

/-- In every state on the way the process is one of these. -/
abbrev Stays {α : Type} (backend : Backend) (start : List (Int32 × File)) (limit : Nat)
    (program : ServerProgram α) (post : α → List Noted → Prop) (history : List Noted) : Prop :=
  program.always (setting backend start limit).Notes (Phase backend start limit) post history

theorem winds_stays {α : Type} {program : ServerProgram α} (only : program.Only winds)
    (fails : Failing backend history) :
    Stays backend start limit program (fun _ => Failing backend) history := by
  refine always_only only (fun _ => .failing) ?_ fails
  intro before op answer after good notes fails
  cases op with
  | close fd =>
      obtain ⟨number, _, rfl⟩ := notes_own rfl notes
      exact fails.next rfl rfl
  | shmUnlink =>
      obtain ⟨number, _, rfl⟩ := notes_own rfl notes
      exact fails.next rfl rfl
  | log level message =>
      obtain ⟨number, _, rfl⟩ := notes_own rfl notes
      exact fails.next rfl rfl
  | exit status => exact answer.elim
  | _ => contradiction

theorem destroy_winds (dbConn : SharedConn) : (shConnDestroy (some dbConn)).Only winds := by
  refine .perform rfl ?_
  intro closed
  cases closed with
  | false => exact .ret false
  | true =>
      refine .perform rfl ?_
      intro closed
      cases closed with
      | false => exact .ret false
      | true => exact .perform rfl fun removed => .ret removed

/-- What is left to do behind a message that could not be written. -/
def farewell (dbConn : SharedConn) : ServerProgram Unit := do
  let _ ← shConnDestroy (some dbConn)
  call (.log .warning (ascii "Couldn't send shutdown command to database server. Main server shutting down anyway."))
  call (.log .info (ascii "Bye-bye from main server."))

theorem shutDown_eq (dbConn : SharedConn) : shutDown dbConn = .perform .lock fun _ =>
    .perform (.write dbConn.outFD (intBytes messageClose)) fun (written : Bool) =>
      if written then undefinedStep else farewell dbConn := by
  refine Program.perform_congr fun _ => Program.perform_congr fun (written : Bool) => ?_
  cases written with
  | true => exact Program.perform_congr fun (never : Empty) => never.elim
  | false =>
      change (shConnDestroy (some dbConn) >>= fun _ => .ret (-1 : Int32)) >>= _ = farewell dbConn
      rw [Program.bind_assoc]
      rfl

theorem farewell_winds (dbConn : SharedConn) : (farewell dbConn).Only winds :=
  Program.only_bind (destroy_winds dbConn) fun _ => .perform rfl fun _ => .perform rfl fun _ => .ret ()

theorem shutDown_stays {post : Point → List Noted → Prop} (runs : Running backend history)
    (dbConn : SharedConn) (status : Int32) :
    Stays backend start limit (shutDown dbConn >>= fun _ => exit status) post history := by
  rw [shutDown_eq]
  refine And.intro (.running runs) ?_
  intro answer after notes
  obtain ⟨number, _, rfl⟩ := notes_own rfl notes
  have locked : Failing backend (history ++ [⟨.lock, (), []⟩]) :=
    ⟨history, [], rfl, runs, fun _ member => absurd member List.not_mem_nil⟩
  refine And.intro (.failing locked) ?_
  intro written after notes
  obtain ⟨number, _, rfl⟩ := notes_own rfl notes
  cases written with
  | true =>
      refine And.intro (.told ⟨history, dbConn.outFD, ?_, runs⟩) fun (never : Empty) => never.elim
      rw [List.append_assoc]
      rfl
  | false =>
      have fails := @Failing.next backend _ locked
        ⟨.write dbConn.outFD (intBytes messageClose), false, []⟩ rfl rfl
      refine always_seq (winds_stays (farewell_winds dbConn) fails) ?_
      intro _ after fails
      exact And.intro (.failing fails) fun (never : Empty) => never.elim

/-! Where the rounds begin. -/

structure Accepting (backend : Backend) (start : List (Int32 × File)) (limit : Nat) (dbConn : SharedConn)
    (history : List Noted) : Prop where
  runs : Running backend history
  connected : ∃ outpipe inpipe m n, Connected backend start limit outpipe inpipe m n history ∧
    dbConn = ⟨outpipe.write, inpipe.read⟩
  room : 6 + (accepted history).length ≤ (history.flatMap Event.opened).length

def Serving (backend : Backend) (start : List (Int32 × File)) (limit : Nat) (c : List Int32)
    (history : List Noted) : Prop :=
  ∃ outpipe inpipe m n, Child backend start limit outpipe inpipe m n history ∧
    ∀ entry ∈ pipeEnds outpipe inpipe m n, entry.1 ∉ c

def At (backend : Backend) (start : List (Int32 × File)) (limit : Nat) : Point → List Noted → Prop
  | .accepting dbConn => Accepting backend start limit dbConn
  | .serving c => Serving backend start limit c
  | .waiting _ _ _ => fun history => ∃ outpipe inpipe m n, Attending backend start limit outpipe inpipe m n history

/-! The database server. -/

theorem leaving_stays {post : α → List Noted → Prop} {program : ServerProgram Unit}
    (only : program.Only leaves) (leaving : Leaving history) (status : Int32) :
    Stays backend start limit (program >>= fun _ => exit status) post history := by
  refine always_seq (always_only only (fun _ => .leaving) (fun _ _ _ _ good notes leaving => leaving.noted good notes)
    leaving) ?_
  intro _ after leaving
  exact And.intro (.leaving leaving) fun (never : Empty) => never.elim

theorem databaseShutDown_stays {post : α → List Noted → Prop}
    (attending : Attending backend start limit outpipe inpipe m n history) (outFD inFD : Int32) :
    Stays backend start limit (DatabaseServer.shutDown outFD inFD >>= fun _ => exit 0) post history := by
  refine And.intro (.child attending.child) ?_
  intro closed after notes
  refine leaving_stays (.perform rfl fun _ => .perform rfl fun (closed : Bool) => ?_) (attending.closes notes) 0
  cases closed with
  | false => exact .perform rfl fun _ => .perform rfl fun _ => .ret ()
  | true => exact .perform rfl fun _ => .ret ()

/-- One call more. -/
theorem Attending.performs {α : Type} {post : α → List Noted → Prop}
    (attending : Attending backend start limit outpipe inpipe m n history) {op : Op}
    {next : op.Answer → ServerProgram α} (good : attends op = true)
    (behind : ∀ answer after, Attending backend start limit outpipe inpipe m n after →
      Stays backend start limit (next answer) post after) :
    Stays backend start limit (.perform op next) post history := by
  refine And.intro (.child attending.child) ?_
  intro answer after notes
  exact behind answer after (attending.noted good notes)

theorem Attending.exits {α : Type} {post : α → List Noted → Prop}
    (attending : Attending backend start limit outpipe inpipe m n history) (status : Int32) :
    Stays backend start limit (exit status) post history :=
  And.intro (.child attending.child) fun (never : Empty) => never.elim

theorem Attending.waits (attending : Attending backend start limit outpipe inpipe m n history) (db : Database)
    (outFD inFD : Int32) :
    Stays backend start limit (.ret (.waiting db outFD inFD)) (At backend start limit) history :=
  And.intro (.child attending.child) ⟨_, _, _, _, attending⟩

theorem round_stays (attending : Attending backend start limit outpipe inpipe m n history) (db : Database)
    (outFD inFD : Int32) :
    Stays backend start limit (DatabaseServer.round db outFD inFD) (At backend start limit) history := by
  refine attending.performs rfl ?_
  intro (selected : Bool) after attending
  cases selected with
  | false => exact attending.performs rfl fun _ _ attending => attending.waits db outFD inFD
  | true =>
      refine attending.performs rfl ?_
      intro (c : Circumstances) after attending
      have only : ((Iac.serve c db).handle DatabaseServer.throughPipes ()).Only attends :=
        only_handle DatabaseServer.throughPipes (fun _ _ => .perform rfl fun _ => .ret _) (Iac.serve c db) ()
      have keeps : ∀ before op answer after, attends op = true →
          (setting backend start limit).Notes before op answer after →
            Attending backend start limit outpipe inpipe m n before →
              Attending backend start limit outpipe inpipe m n after :=
        fun _ _ _ _ good notes attending => attending.noted good notes
      change Stays backend start limit ((Iac.serve c db).handle DatabaseServer.throughPipes () >>= _) _ after
      refine always_seq (always_only only (fun _ attending => .child attending.child) keeps attending) ?_
      rintro ⟨left, ⟨⟩⟩ after attending
      cases left with
      | none => exact databaseShutDown_stays attending outFD inFD
      | some db => exact attending.waits db outFD inFD

theorem databaseMain_stays (attending : Attending backend start limit outpipe inpipe m n history)
    (argv : List Bytes) :
    Stays backend start limit (DatabaseServer.main argv) (At backend start limit) history := by
  unfold DatabaseServer.main
  cases Startup.databaseArguments argv with
  | none => exact attending.performs rfl fun _ _ attending => attending.exits (-1)
  | some descriptors =>
      refine attending.performs rfl ?_
      intro _ after attending
      refine attending.performs rfl ?_
      intro (opened : Except Bytes Unit) after attending
      cases opened with
      | error message =>
          refine attending.performs rfl fun _ _ attending => ?_
          refine attending.performs rfl fun _ _ attending => ?_
          exact attending.performs rfl fun _ _ attending => attending.exits 0
      | ok done =>
          refine attending.performs rfl ?_
          rintro ⟨initialised, db⟩ after attending
          cases initialised with
          | true => exact attending.performs rfl fun _ _ attending => attending.waits db _ _
          | false =>
              refine attending.performs rfl fun _ _ attending => ?_
              exact attending.performs rfl fun _ _ attending => attending.waits db _ _

/-! The main server behind its pipes. -/

/-- With the pipes, so many descriptors opened and no connection accepted yet. -/
structure Ready (backend : Backend) (start : List (Int32 × File)) (limit : Nat) (outpipe inpipe : Pipe)
    (m n count : Nat) (history : List Noted) : Prop where
  connected : Connected backend start limit outpipe inpipe m n history
  runs : Running backend history
  alone : ∀ event ∈ history, accepts event = false
  opened : count ≤ (history.flatMap Event.opened).length

theorem accepted_none (alone : ∀ event ∈ history, accepts event = false) : accepted history = [] := by
  rw [accepted, List.flatMap_eq_nil_iff]
  intro event member
  rw [if_neg (by rw [alone event member]; decide)]

theorem Ready.next {count : Nat} (ready : Ready backend start limit outpipe inpipe m n count history)
    {event : Noted} (quiet : isQuiet event.op = true) (unborn : isBirth event = false)
    (other : accepts event = false) (keeps : keepsOpen event.op = true) :
    Ready backend start limit outpipe inpipe m n (count + event.opened.length) (history ++ [event]) where
  connected := by
    refine ready.connected.next event ?_
    intro entry _
    rw [List.isEmpty_iff.mp keeps]
    exact List.not_mem_nil
  runs := ready.runs.next quiet unborn other
  alone := all_noted ready.alone other
  opened := by
    have before := ready.opened
    rw [List.flatMap_append, List.flatMap_singleton, List.length_append]
    omega

/-! The loop. -/

theorem Accepting.next {dbConn : SharedConn} (accepting : Accepting backend start limit dbConn history)
    {event : Noted} (quiet : isQuiet event.op = true) (unborn : isBirth event = false)
    (other : accepts event = false) (keeps : keepsOpen event.op = true) :
    Accepting backend start limit dbConn (history ++ [event]) where
  runs := accepting.runs.next quiet unborn other
  connected := by
    obtain ⟨outpipe, inpipe, m, n, connected, same⟩ := accepting.connected
    refine ⟨outpipe, inpipe, m, n, connected.next event ?_, same⟩
    intro entry _
    rw [List.isEmpty_iff.mp keeps]
    exact List.not_mem_nil
  room := by
    have nothing : accepted (history ++ [event]) = accepted history := by
      rw [accepted, List.flatMap_append, List.flatMap_singleton, other]
      exact List.append_nil _
    have before := accepting.room
    rw [nothing, List.flatMap_append, List.length_append]
    omega

theorem Ready.accepting {count : Nat} (ready : Ready backend start limit outpipe inpipe m n count history)
    (enough : 6 ≤ count) : Accepting backend start limit ⟨outpipe.write, inpipe.read⟩ history where
  runs := ready.runs
  connected := ⟨outpipe, inpipe, m, n, ready.connected, rfl⟩
  room := by
    rw [accepted_none ready.alone]
    exact enough.trans ready.opened

theorem Accepting.accept {dbConn : SharedConn} (accepting : Accepting backend start limit dbConn history)
    {number : Nat} {c : List Int32} (fits : (setting backend start limit).Fits history number .connAccept (some c)) :
    Accepting backend start limit dbConn (history ++ [acceptedAs c number]) := by
  have more : accepted (history ++ [acceptedAs c number]) =
      accepted history ++ c.map fun fd => (fd, .other number) := by
    rw [accepted, List.flatMap_append, List.flatMap_singleton]
    rfl
  have before := accepting.room
  have room : 6 + (accepted (history ++ [acceptedAs c number])).length ≤
      ((history ++ [acceptedAs c number]).flatMap Event.opened).length := by
    have opened : (acceptedAs c number).opened = c.map fun fd => (fd, .other number) := rfl
    rw [more, List.flatMap_append, List.flatMap_singleton, List.length_append, List.length_append, opened]
    omega
  refine ⟨⟨all_noted accepting.runs.quiet rfl, all_noted accepting.runs.unborn rfl, .inr room, ?_⟩, ?_, room⟩
  · intro sockets
    have given : (c.length = 1 || decide (backend = .fifos)) = true := fits.gives
    rw [sockets] at given
    have one : c.length = 1 := by simpa using given
    have counts : accepts (acceptedAs c number) = true := rfl
    rw [more, List.countP_append, List.countP_singleton, accepting.runs.sockets sockets, List.length_append,
      List.length_map, one, if_pos counts]
  · obtain ⟨outpipe, inpipe, m, n, connected, same⟩ := accepting.connected
    exact ⟨outpipe, inpipe, m, n, connected.next _ fun _ _ => List.not_mem_nil, same⟩

/-- The descriptors of a new connection were free. -/
theorem Connected.apart (connected : Connected backend start limit outpipe inpipe m n history)
    {number : Nat} {c : List Int32} (fits : (setting backend start limit).Fits history number .connAccept (some c)) :
    ∀ entry ∈ pipeEnds outpipe inpipe m n, entry.1 ∉ c := by
  intro entry member taken
  have opened : (entry.1, File.other number) ∈ opens number .connAccept (some c) :=
    List.mem_map_of_mem taken
  exact fits.fresh _ opened (List.mem_map.mpr ⟨entry, connected.held entry member, rfl⟩)

theorem createForkedServer_stays {dbConn : SharedConn} {c : List Int32}
    (accepting : Accepting backend start limit dbConn history)
    (apart : ∃ outpipe inpipe m n, Connected backend start limit outpipe inpipe m n history ∧
      ∀ entry ∈ pipeEnds outpipe inpipe m n, entry.1 ∉ c) :
    Stays backend start limit (createForkedServer dbConn c) (At backend start limit) history := by
  refine And.intro (.running accepting.runs) ?_
  intro (pid : Int32) after notes
  cases notes_fork notes
  change Stays backend start limit
    (if pid < 0 then .perform (.log .warning (ascii "Couldn't create a forked server.")) fun _ =>
        .ret (.accepting dbConn)
      else if 0 < pid then .ret (.accepting dbConn)
      else .perform (.log .info (ascii "Forked server started, listening to client requests.")) fun _ =>
        .ret (.serving c)) (At backend start limit) _
  by_cases child : pid = 0
  · subst child
    obtain ⟨outpipe, inpipe, m, n, connected, free⟩ := apart
    have born := accepting.runs.forked connected
    rw [if_neg (by decide), if_neg (by decide)]
    refine And.intro (.child born) ?_
    intro _ after notes
    have logged := born.noted rfl notes
    exact And.intro (.child logged) ⟨outpipe, inpipe, m, n, logged, free⟩
  · have forked := @Accepting.next backend start limit _ _ accepting ⟨.fork, pid, []⟩ rfl
      (decide_eq_false child) rfl rfl
    by_cases failed : pid < 0
    · rw [if_pos failed]
      refine And.intro (.running forked.runs) ?_
      intro _ after notes
      obtain ⟨number, _, rfl⟩ := notes_own rfl notes
      have logged := @Accepting.next backend start limit _ _ forked
        ⟨.log .warning (ascii "Couldn't create a forked server."), (), []⟩ rfl rfl rfl rfl
      exact And.intro (.running logged.runs) logged
    · rw [if_neg failed]
      split
      · exact And.intro (.running forked.runs) forked
      · rename_i other
        have same : pid.toInt = 0 := by
          rw [Int32.lt_iff_toInt_lt, Int32.toInt_zero] at failed other
          omega
        exact absurd (Int32.toInt_inj.mp same) child

theorem accept_stays {dbConn : SharedConn} (accepting : Accepting backend start limit dbConn history) :
    Stays backend start limit (accept dbConn) (At backend start limit) history := by
  refine And.intro (.running accepting.runs) ?_
  intro c after notes
  obtain ⟨number, fits, rfl⟩ := notes_own rfl notes
  cases c with
  | none =>
      have refused := @Running.next backend _ accepting.runs ⟨.connAccept, none, []⟩ rfl rfl rfl
      refine And.intro (.running refused) ?_
      intro _ after notes
      obtain ⟨number, _, rfl⟩ := notes_own rfl notes
      exact shutDown_stays (refused.next rfl rfl rfl) dbConn 1
  | some c =>
      obtain ⟨outpipe, inpipe, m, n, connected, _⟩ := accepting.connected
      exact createForkedServer_stays (accepting.accept fits) ⟨outpipe, inpipe, m, n,
        connected.next _ fun _ _ => List.not_mem_nil, connected.apart fits⟩

/-! A forked server. -/

theorem forOneClient_modest (op : Action Local) (kept : Unit) : (forOneClient op kept).Only isModest :=
  .perform rfl fun _ => .ret _

theorem closeDescriptors_stays {c : List Int32} (child : Child backend start limit outpipe inpipe m n history)
    (apart : ∀ entry ∈ pipeEnds outpipe inpipe m n, entry.1 ∉ c) (kind : Backend) :
    Stays backend start limit (closeDescriptors kind c)
      (fun _ => Child backend start limit outpipe inpipe m n) history := by
  cases kind with
  | sockets =>
      have nothing : closeDescriptors .sockets c = .ret () := by
        rw [closeDescriptors]
      rw [nothing]
      exact And.intro (.child child) child
  | fifos =>
      induction c generalizing history with
      | nil => exact And.intro (.child child) child
      | cons fd rest ih =>
          refine And.intro (.child child) ?_
          intro closed after notes
          obtain ⟨number, _, rfl⟩ := notes_own rfl notes
          refine ih (child.next ?_ rfl) ?_
          · intro entry member taken
            exact apart entry member (List.mem_cons.mpr (.inl (List.mem_singleton.mp taken)))
          · intro entry member taken
            exact apart entry member (List.mem_cons_of_mem _ taken)

theorem serve_stays {c : List Int32} (serving : Serving backend start limit c history) :
    Stays backend start limit (serve backend c) (At backend start limit) history := by
  obtain ⟨outpipe, inpipe, m, n, child, apart⟩ := serving
  have keeps : ∀ before op answer after, isModest op = true →
      (setting backend start limit).Notes before op answer after →
        Child backend start limit outpipe inpipe m n before →
          Child backend start limit outpipe inpipe m n after :=
    fun _ _ _ _ modest notes child => child.noted modest notes
  have only := only_handle forOneClient forOneClient_modest (forkedServer backend) ()
  refine always_seq (always_only only (fun _ => .child) keeps child) ?_
  rintro ⟨done, ⟨⟩⟩ after child
  cases done with
  | false => exact And.intro (.child child) ⟨outpipe, inpipe, m, n, child, apart⟩
  | true =>
      have free : ∀ entry ∈ pipeEnds outpipe inpipe m n, entry.1 ∉ c.reverse := fun entry member taken =>
        apart entry member (List.mem_reverse.mp taken)
      refine always_seq (closeDescriptors_stays child free backend) ?_
      intro _ after child
      exact And.intro (.child child) fun (never : Empty) => never.elim

theorem resume_stays (point : Point) (history : List Noted) (at_point : At backend start limit point history) :
    Stays backend start limit (resume backend point) (At backend start limit) history := by
  cases point with
  | accepting dbConn => exact accept_stays at_point
  | serving c => exact serve_stays at_point
  | waiting db outFD inFD =>
      obtain ⟨_, _, _, _, attending⟩ := at_point
      exact round_stays attending db outFD inFD

/-! `startDBServer`. -/

/-- What `main` can rely on. -/
def Begun (backend : Backend) (start : List (Int32 × File)) (limit : Nat) (started : Started)
    (history : List Noted) : Prop :=
  Running backend history ∧ (started.result ≠ -1 → ∃ outpipe inpipe m n,
    Ready backend start limit outpipe inpipe m n 5 history ∧
      started.descriptors = some (outpipe.write, inpipe.read))

/-- The process that starts the database server becomes it. -/
def Comes (backend : Backend) (start : List (Int32 × File)) (limit : Nat) :
    Point ⊕ Started → List Noted → Prop
  | .inl point => At backend start limit point
  | .inr started => Begun backend start limit started

theorem startDatabase_stays {fresh : (size : Nat) → Room size} {mainServerPID : Int32}
    (attending : Attending backend start limit outpipe inpipe m n history) :
    Stays backend start limit ((startDatabase mainServerPID outpipe inpipe).divert (carryOut fresh))
      (Comes backend start limit) history := by
  rw [startDatabase_eq]
  refine attending.performs rfl ?_
  intro (replaced : Bool) after attending
  cases replaced with
  | true =>
      change Stays backend start limit
        ((DatabaseServer.main _ >>= fun point => pure (Sum.inl point : Point ⊕ Unit)) >>= Sum.elim _ _) _ after
      rw [Program.bind_assoc]
      refine always_seq (databaseMain_stays attending _) ?_
      intro point after here
      exact And.intro (always_now (resume_stays point after here)) here
  | false =>
      refine attending.performs rfl fun _ _ attending => ?_
      refine attending.performs rfl fun _ _ attending => ?_
      exact And.intro (.child attending.child) fun (never : Empty) => never.elim

theorem failure_stays (runs : Running backend history) (message : Bytes) (descriptors : Option (Int32 × Int32)) :
    Stays backend start limit (.perform (.log .error message) fun _ => .ret (.inr ⟨-1, descriptors⟩))
      (Comes backend start limit) history := by
  refine And.intro (.running runs) ?_
  intro _ after notes
  obtain ⟨number, _, rfl⟩ := notes_own rfl notes
  have logged : Running backend (history ++ [⟨.log .error message, (), []⟩]) := runs.next rfl rfl rfl
  exact And.intro (.running logged) ⟨logged, fun other => absurd rfl other⟩

theorem forkDatabase_stays {fresh : (size : Nat) → Room size} {mainServerPID : Int32}
    (ready : Ready backend start limit outpipe inpipe m n 5 history) :
    Stays backend start limit
      (.perform .fork fun (pid : Int32) =>
        (if pid = 0 then startDatabase mainServerPID outpipe inpipe
        else .ret ⟨1, some (outpipe.write, inpipe.read)⟩).divert (carryOut fresh))
      (Comes backend start limit) history := by
  refine And.intro (.running ready.runs) ?_
  intro (pid : Int32) after notes
  cases notes_fork notes
  beta_reduce
  by_cases child : pid = 0
  · subst child
    rw [if_pos rfl]
    exact startDatabase_stays ⟨ready.runs.forked ready.connected, all_noted ready.alone rfl⟩
  · rw [if_neg child]
    have forked := @Ready.next backend start limit _ _ _ _ _ _ ready ⟨.fork, pid, []⟩ rfl
      (decide_eq_false child) rfl rfl
    exact And.intro (.running forked.runs) ⟨forked.runs, fun _ => ⟨_, _, _, _, forked, rfl⟩⟩

theorem startDBServer_stays (fresh : (size : Nat) → Room size) (mainServerPID : Int32) :
    Stays backend start limit ((startDBServer mainServerPID).divert (carryOut fresh))
      (Comes backend start limit) [] := by
  refine And.intro (.running running_new) ?_
  intro outpipe after notes
  obtain ⟨m, _, rfl⟩ := notes_own rfl notes
  have first := @Running.next backend _ running_new ⟨.pipe, outpipe, opens m .pipe outpipe⟩ rfl rfl rfl
  cases outpipe with
  | none => exact failure_stays first _ _
  | some outpipe =>
      refine And.intro (.running first) ?_
      intro inpipe after notes
      obtain ⟨n, _, rfl⟩ := notes_own rfl notes
      have second := @Running.next backend _ first ⟨.pipe, inpipe, opens n .pipe inpipe⟩ rfl rfl rfl
      cases inpipe with
      | none => exact failure_stays second _ _
      | some inpipe =>
          have piped : Ready backend start limit outpipe inpipe m n 4 ([made outpipe m] ++ [made inpipe n]) :=
            ⟨connected_made outpipe inpipe m n, second,
              List.forall_mem_cons.mpr ⟨rfl, List.forall_mem_singleton.mpr rfl⟩, Nat.le_refl 4⟩
          refine And.intro (.running second) ?_
          intro shared after notes
          obtain ⟨k, _, rfl⟩ := notes_own rfl notes
          have third := @Ready.next backend start limit _ _ _ _ _ _ piped
            ⟨.shmOpen, shared, opens k .shmOpen shared⟩ rfl rfl rfl rfl
          cases shared with
          | none => exact failure_stays third.runs _ _
          | some fd =>
              refine And.intro (.running third.runs) ?_
              intro sized after notes
              obtain ⟨_, _, rfl⟩ := notes_own rfl notes
              have fourth := @Ready.next backend start limit _ _ _ _ _ _ third
                ⟨.ftruncate fd, sized, []⟩ rfl rfl rfl rfl
              cases sized with
              | false => exact failure_stays fourth.runs _ _
              | true =>
                  refine And.intro (.running fourth.runs) ?_
                  intro mapped after notes
                  obtain ⟨_, _, rfl⟩ := notes_own rfl notes
                  have fifth := @Ready.next backend start limit _ _ _ _ _ _ fourth
                    ⟨.mmap fd, mapped, []⟩ rfl rfl rfl rfl
                  cases mapped with
                  | false => exact And.intro (.running fifth.runs) fun (never : Empty) => never.elim
                  | true => exact forkDatabase_stays fifth

/-! `main`. -/

theorem abort_stays {post : Point → List Noted → Prop} (runs : Running backend history) :
    Stays backend start limit main.abort post history := by
  refine And.intro (.running runs) ?_
  intro _ after notes
  obtain ⟨number, _, rfl⟩ := notes_own rfl notes
  have logged := @Running.next backend _ runs ⟨.log .error (ascii "Main server aborting."), (), []⟩ rfl rfl rfl
  exact And.intro (.running logged) fun (never : Empty) => never.elim

theorem main_stays (fresh : (size : Nat) → Room size) (mainServerPID : Int32) (address : Bytes) :
    Stays backend start limit (main fresh mainServerPID address) (At backend start limit) [] := by
  refine always_seq (startDBServer_stays fresh mainServerPID) ?_
  intro outcome after here
  cases outcome with
  | inl point => exact And.intro (always_now (resume_stays point after here)) here
  | inr started =>
      obtain ⟨runs, begun⟩ := here
      dsimp only at begun ⊢
      by_cases failed : started.result = -1
      · cases started.descriptors with
        | none => exact abort_stays runs
        | some descriptors =>
            dsimp only
            rw [if_pos failed]
            exact abort_stays runs
      · obtain ⟨outpipe, inpipe, m, n, ready, descriptors⟩ := begun failed
        rw [descriptors]
        dsimp only
        rw [if_neg failed]
        refine And.intro (.running ready.runs) ?_
        intro _ after notes
        obtain ⟨number, _, rfl⟩ := notes_own rfl notes
        have removed := @Ready.next backend start limit _ _ _ _ _ _ ready ⟨.remove address, (), []⟩ rfl rfl rfl rfl
        refine And.intro (.running removed.runs) ?_
        intro listening after notes
        obtain ⟨number, _, rfl⟩ := notes_own rfl notes
        have listens := @Ready.next backend start limit _ _ _ _ _ _ removed
          ⟨.connListen, listening, opens number .connListen listening⟩ rfl rfl rfl rfl
        cases listening with
        | none =>
            refine And.intro (.running listens.runs) ?_
            intro _ after notes
            obtain ⟨number, _, rfl⟩ := notes_own rfl notes
            exact shutDown_stays (listens.runs.next rfl rfl rfl) _ _
        | some fd =>
            refine And.intro (.running listens.runs) ?_
            intro _ after notes
            obtain ⟨number, _, rfl⟩ := notes_own rfl notes
            have logged := @Ready.next backend start limit _ _ _ _ _ _ listens
              ⟨.log .info (ascii "Main server started. Listening to connnection requests..."), (), []⟩ rfl rfl rfl rfl
            exact And.intro (.running logged.runs) (logged.accepting (Nat.le_refl 6))

/-! All runs. -/

variable {fresh : (size : Nat) → Room size} {mainServerPID : Int32} {address : Bytes}
  {labels : List (Label Op.Answer)} {w : World Op Op.Answer Point Int32 File}

theorem run_phases
    (ran : (World.alone (main fresh mainServerPID address)).run (setting backend start limit) labels = some w) :
    w.All fun _ => Phase backend start limit := by
  intro pid process present
  have path := World.run_paths ran pid process present
  exact always_now (path.always resume_stays (main_stays fresh mainServerPID address))

end

end Iac.MainServer
