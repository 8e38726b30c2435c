import Iac.ProcessPhases

/-! What the main server and its children have open, in every state that they can come to. -/

namespace Iac.MainServer

open CText Interaction Printing SharedPipe Processes

section

variable {backend : Backend} {start : List (Int32 × File)} {limit : Nat} {history : List Noted}
  {fresh : (size : Nat) → Room size} {mainServerPID : Int32} {address : Bytes}
  {labels : List (Label Op.Answer)} {w : World Op Op.Answer Point Int32 File}

theorem Failing.stopping (fails : Failing backend history) : Stopping history := by
  obtain ⟨before, rest, rfl, _, _⟩ := fails.shape
  exact ⟨⟨.lock, (), []⟩, List.mem_append_right _ List.mem_cons_self, rfl⟩

theorem Told.stopping (told : Told backend history) : Stopping history := by
  obtain ⟨before, fd, rfl, _⟩ := told
  exact ⟨⟨.lock, (), []⟩, List.mem_append_right _ List.mem_cons_self, rfl⟩

theorem Failing.unborn (fails : Failing backend history) : ¬IsChild history := by
  obtain ⟨before, rest, rfl, runs, later⟩ := fails.shape
  rintro ⟨event, member, born⟩
  rcases List.mem_append.mp member with earlier | member
  · exact Bool.false_ne_true ((runs.unborn event earlier).symm.trans born)
  · rcases List.mem_cons.mp member with rfl | after
    · exact Bool.false_ne_true born
    · exact Bool.false_ne_true ((later event after).1.symm.trans born)

theorem Told.unborn (told : Told backend history) : ¬IsChild history := by
  obtain ⟨before, fd, rfl, runs⟩ := told
  rintro ⟨event, member, born⟩
  rcases List.mem_append.mp member with earlier | member
  · exact Bool.false_ne_true ((runs.unborn event earlier).symm.trans born)
  · simp only [List.mem_cons, List.not_mem_nil, or_false] at member
    rcases member with rfl | rfl
    · exact Bool.false_ne_true born
    · exact Bool.false_ne_true born

theorem Failing.untold (fails : Failing backend history) : ∀ event ∈ history, tells event = false := by
  obtain ⟨before, rest, rfl, runs, later⟩ := fails.shape
  intro event member
  rcases List.mem_append.mp member with earlier | member
  · exact runs.untold event earlier
  · rcases List.mem_cons.mp member with rfl | after
    · rfl
    · exact (later event after).2

/-- Reading from the pipe would find its end. -/
def AtEnd (w : World Op Op.Answer Point Int32 File) (S : Setting Op Op.Answer Point Int32 File) (pipe : Nat) : Prop :=
  ¬w.Holds S (.writes pipe)

/-- Writing to the pipe would raise `SIGPIPE`. -/
def Broken (w : World Op Op.Answer Point Int32 File) (S : Setting Op Op.Answer Point Int32 File) (pipe : Nat) : Prop :=
  ¬w.Holds S (.reads pipe)

/-- As long as there is a forked server, or the database server has not come to its `shut_down`, nobody learns
from the pipes that somebody else is gone. -/
theorem pipes_never_end
    (ran : (World.alone (main fresh mainServerPID address)).run (setting backend start limit) labels = some w)
    {pid : Nat} {process : Process Op Op.Answer Point Int32 File} (present : w.processes pid = some process)
    (child : IsChild process.history) (stays : ¬ShutDown process.history) :
    ∃ outpipe inpipe m n, [made outpipe m, made inpipe n] <+: process.history ∧
      (∀ entry ∈ pipeEnds outpipe inpipe m n, entry ∈ (setting backend start limit).table process.history) ∧
      ∀ pipe ∈ [m, n], ¬AtEnd w (setting backend start limit) pipe ∧ ¬Broken w (setting backend start limit) pipe := by
  cases run_phases ran pid process present with
  | running runs =>
      obtain ⟨event, member, born⟩ := child
      exact absurd (runs.unborn event member) (by rw [born]; decide)
  | failing fails => exact absurd child fails.unborn
  | told told => exact absurd child told.unborn
  | leaving leaving => exact absurd leaving.closed stays
  | @child outpipe inpipe m n here =>
      have held := here.connected.held
      have someone : ∀ file fd, (fd, file) ∈ pipeEnds outpipe inpipe m n →
          w.Holds (setting backend start limit) file :=
        fun file fd member => ⟨pid, process, fd, present, held _ member⟩
      refine ⟨outpipe, inpipe, m, n, here.connected.begins, held, ?_⟩
      simp only [List.forall_mem_cons, AtEnd, Broken, not_not]
      refine ⟨⟨someone _ outpipe.write ?_, someone _ outpipe.read ?_⟩,
        ⟨someone _ inpipe.write ?_, someone _ inpipe.read ?_⟩, fun _ member => absurd member List.not_mem_nil⟩
      all_goals simp [pipeEnds]

/-- What the main server has accepted stays open for as long as it works, and so there is an end to the
connections that it can accept in all, whoever has gone by then. -/
theorem connections_stay_open
    (ran : (World.alone (main fresh mainServerPID address)).run (setting backend start limit) labels = some w)
    {pid : Nat} {process : Process Op Op.Answer Point Int32 File} (present : w.processes pid = some process)
    (parent : ¬IsChild process.history) (works : ¬Stopping process.history) (room : start.length ≤ limit) :
    (∀ entry ∈ accepted process.history, entry ∈ (setting backend start limit).table process.history) ∧
      (accepted process.history ≠ [] → start.length + 6 + (accepted process.history).length ≤ limit) ∧
      (backend = .sockets → process.history.countP accepts ≤ limit - (start.length + 6)) := by
  cases run_phases ran pid process present with
  | failing fails => exact absurd fails.stopping works
  | told told => exact absurd told.stopping works
  | child child => exact absurd child.born parent
  | leaving leaving => exact absurd leaving.born parent
  | running runs =>
      have kept : (setting backend start limit).table process.history =
          start ++ process.history.flatMap Event.opened :=
        Setting.table_kept fun event member => quiet_keeps (runs.quiet event member)
      have limited : ((setting backend start limit).table process.history).length ≤ limit :=
        (World.run_paths ran pid process present).limited room
      rw [kept, List.length_append] at limited
      have bound : accepted process.history ≠ [] →
          start.length + 6 + (accepted process.history).length ≤ limit := by
        intro some_files
        have enough := runs.room.resolve_left some_files
        omega
      refine ⟨?_, bound, ?_⟩
      · intro entry member
        obtain ⟨event, happened, opened⟩ := List.mem_flatMap.mp member
        rw [kept]
        apply List.mem_append_right
        split at opened
        · exact List.mem_flatMap.mpr ⟨event, happened, opened⟩
        · contradiction
      · intro sockets
        rw [runs.sockets sockets]
        by_cases none_yet : accepted process.history = []
        · rw [none_yet]
          exact Nat.zero_le _
        · have most := bound none_yet
          omega

theorem last_of_only {front before rest : List Noted} {last event : Noted}
    (same : front ++ [last] = before ++ event :: rest) (others : ∀ one ∈ front, tells one = false)
    (here : tells event = true) : rest = [] := by
  rcases List.eq_nil_or_concat' rest with rfl | ⟨first, final, rfl⟩
  · rfl
  · rw [← List.cons_append, ← List.append_assoc] at same
    obtain ⟨shorter, _⟩ := List.append_inj' same rfl
    have untold := others event (shorter ▸ List.mem_append_right _ List.mem_cons_self)
    exact absurd here (by rw [untold]; decide)

/-- Once the message to close is written, nothing of what is to follow is done: no pipe is closed, the shared
memory stays, and nothing is logged. -/
theorem told_is_last
    (ran : (World.alone (main fresh mainServerPID address)).run (setting backend start limit) labels = some w)
    {pid : Nat} {process : Process Op Op.Answer Point Int32 File} (present : w.processes pid = some process)
    {before rest : List Noted} {event : Noted} (shape : process.history = before ++ event :: rest)
    (told : tells event = true) :
    rest = [] ∧ ¬IsChild process.history ∧
      ∀ earlier ∈ process.history, closes earlier.op = [] ∧ earlier.op ≠ .shmUnlink := by
  have here : event ∈ process.history := by
    rw [shape]
    exact List.mem_append_right _ List.mem_cons_self
  cases run_phases ran pid process present with
  | running runs => exact absurd told (by rw [runs.untold event here]; decide)
  | failing fails => exact absurd told (by rw [fails.untold event here]; decide)
  | child child => exact absurd told (by rw [child.untold event here]; decide)
  | leaving leaving => exact absurd told (by rw [leaving.untold event here]; decide)
  | told stops =>
      obtain ⟨quietly, fd, same, runs⟩ := stops
      refine ⟨?_, Told.unborn ⟨quietly, fd, same, runs⟩, ?_⟩
      · have front : ∀ one ∈ quietly ++ [⟨.lock, (), []⟩], tells one = false := all_noted runs.untold rfl
        have last : (quietly ++ [⟨.lock, (), []⟩]) ++ [⟨.write fd (intBytes messageClose), true, []⟩] =
            before ++ event :: rest := by
          rw [← shape, same, List.append_assoc]
          rfl
        exact last_of_only last front told
      · intro earlier member
        rw [same] at member
        rcases List.mem_append.mp member with quiet | last
        · have goes := runs.quiet earlier quiet
          refine ⟨quiet_keeps goes, ?_⟩
          intro unlinks
          rw [unlinks] at goes
          contradiction
        · simp only [List.mem_cons, List.not_mem_nil, or_false] at last
          rcases last with rfl | rfl
          · exact ⟨rfl, nofun⟩
          · exact ⟨rfl, nofun⟩

end

/-! A server with the standard descriptors. -/

def standard : List (Int32 × File) := [(0, .other 0), (1, .other 0), (2, .other 0)]

def hyphens (size : Nat) : Room size := ⟨List.replicate size hyphen, List.length_replicate⟩

/-- Everything succeeds, with the descriptors from `fd` on. -/
def granting (fd : Int32) : (op : Op) → Option op.Answer
  | .pipe => some (some ⟨fd, fd + 1⟩)
  | .shmOpen => some (some fd)
  | .ftruncate _ => some true
  | .mmap _ => some true
  | .fork => some (101 : Int32)
  | .log _ _ => some ()
  | .remove _ => some ()
  | .connListen => some (some fd)
  | .connAccept => some (some [fd])
  | .lock => some ()
  | .write _ _ => some true
  | .execve _ _ => some true
  | .sqliteOpen => some (.ok ())
  | .init => some (true, init)
  | _ => none

def refusing : (op : Op) → Option op.Answer
  | .connListen => some none
  | .log _ _ => some ()
  | _ => none

def family : World Op Op.Answer Point Int32 File := World.alone (main hyphens 100 (ascii "8080"))

/-- Up to the `fork` for the database server. -/
def starting : List (Label Op.Answer) :=
  [.call 0 (granting 3) 1, .call 0 (granting 5) 1, .call 0 (granting 7) 1, .call 0 (granting 8) 1,
    .call 0 (granting 8) 1, .call 0 (granting 8) 1]

def observe {α : Type} (pid : Nat) (labels : List (Label Op.Answer)) (look : List Noted → α) : Option α :=
  ((family.run (setting .sockets standard 16) labels).bind fun w => w.processes pid).map fun process =>
    look process.history

theorem observed {α : Type} {pid : Nat} {labels : List (Label Op.Answer)} {look : List Noted → α} {value : α}
    (same : observe pid labels look = some value) :
    ∃ w process, family.run (setting .sockets standard 16) labels = some w ∧ w.processes pid = some process ∧
      look process.history = value := by
  obtain ⟨process, found, looks⟩ := Option.map_eq_some_iff.mp same
  obtain ⟨w, ran, present⟩ := Option.bind_eq_some_iff.mp found
  exact ⟨w, process, ran, present, looks⟩

theorem not_any {kind : Noted → Bool} {history : List Noted} (nowhere : history.any kind = false) :
    ¬∃ event ∈ history, kind event = true := by
  rintro ⟨event, member, here⟩
  exact List.any_eq_false.mp nowhere event member here

/-- The database server comes to its loop, and the main server is killed. -/
def orphaned : List (Label Op.Answer) :=
  starting ++ [.call 1 (granting 8) 2, .call 1 (granting 8) 2, .call 1 (granting 8) 2, .call 1 (granting 8) 2,
    .call 1 (granting 8) 2, .again 1, .dies 0]

/-- The database server goes on waiting. -/
theorem pipes_never_end_orphan : ∃ w process,
    family.run (setting .sockets standard 16) orphaned = some w ∧ w.processes 1 = some process ∧
      ∃ m n, ∀ pipe ∈ [m, n], ¬AtEnd w (setting .sockets standard 16) pipe ∧
        ¬Broken w (setting .sockets standard 16) pipe := by
  have seen : observe 1 orphaned (fun history => (history.any isBirth,
      history.any fun event => !(closes event.op).isEmpty)) = some (true, false) := by
    decide +kernel
  obtain ⟨w, process, ran, present, looks⟩ := observed seen
  have child : IsChild process.history := List.any_eq_true.mp (congrArg Prod.fst looks)
  have stays : ¬ShutDown process.history := by
    rintro ⟨_, event, member, closed⟩
    refine not_any (congrArg Prod.snd looks) ⟨event, member, ?_⟩
    rw [Bool.not_eq_true', List.isEmpty_eq_false_iff]
    exact closed
  obtain ⟨_, _, m, n, _, _, ends⟩ := pipes_never_end ran present child stays
  exact ⟨w, process, ran, present, m, n, ends⟩

def twoClients : List (Label Op.Answer) :=
  starting ++ [.call 0 (granting 8) 1, .call 0 (granting 8) 1, .call 0 (granting 9) 1, .again 0,
    .call 0 (granting 9) 1, .call 0 (granting 9) 2, .dies 2, .again 0, .call 0 (granting 10) 1,
    .call 0 (granting 10) 3, .dies 3]

/-- Two clients come and go, and their connections stay. -/
theorem connections_stay_open_two : ∃ w process,
    family.run (setting .sockets standard 16) twoClients = some w ∧ w.processes 0 = some process ∧
      (accepted process.history).map Prod.fst = [9, 10] ∧ ∀ entry ∈ accepted process.history,
        entry ∈ (setting .sockets standard 16).table process.history := by
  have seen : observe 0 twoClients (fun history => ((accepted history).map Prod.fst,
      history.any isBirth, history.any fun event => !isQuiet event.op)) = some ([9, 10], false, false) := by
    decide +kernel
  obtain ⟨w, process, ran, present, looks⟩ := observed seen
  have two : (accepted process.history).map Prod.fst = [9, 10] := congrArg Prod.fst looks
  have parent : ¬IsChild process.history := not_any (congrArg (fun seen => seen.2.1) looks)
  have works : ¬Stopping process.history := by
    rintro ⟨event, member, stops⟩
    refine not_any (congrArg (fun seen => seen.2.2) looks) ⟨event, member, ?_⟩
    rw [stops]
    rfl
  exact ⟨w, process, ran, present, two, (connections_stay_open ran present parent works (by decide)).1⟩

/-- It cannot listen, and stops the database server. -/
def notListening : List (Label Op.Answer) :=
  starting ++ [.call 0 (granting 8) 1, .call 0 refusing 1, .call 0 refusing 1, .call 0 (granting 8) 1,
    .call 0 (granting 8) 1]

theorem told_is_last_notListening : ∃ w process before event,
    family.run (setting .sockets standard 16) notListening = some w ∧ w.processes 0 = some process ∧
      process.history = before ++ [event] ∧ tells event = true ∧
      ∀ earlier ∈ process.history, closes earlier.op = [] ∧ earlier.op ≠ .shmUnlink := by
  have seen : observe 0 notListening (fun history => history.getLast?.map tells) = some (some true) := by
    decide +kernel
  obtain ⟨w, process, ran, present, looks⟩ := observed seen
  obtain ⟨event, last, told⟩ := Option.map_eq_some_iff.mp looks
  obtain ⟨before, shape⟩ := List.getLast?_eq_some_iff.mp last
  exact ⟨w, process, before, event, ran, present, shape, told, (told_is_last ran present shape told).2.2⟩

end Iac.MainServer
