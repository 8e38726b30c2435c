import Mathlib.Logic.Function.Basic
import Iac.Logging

/-! All processes that log, and the daemons, which come and go: every process keeps the queue that it
has found once, and a daemon that is interrupted removes its queue. -/

namespace Iac.Logging

open CText

/-- A call of `logMessage`. -/
structure Attempt where
  pid : Nat
  message : CString
  lvl : LogLevel

def Attempt.line (attempt : Attempt) : Bytes := Logging.line attempt.message attempt.lvl

/-- What is printed where a queue is known and nothing can be sent to it. -/
def Attempt.fellBack (attempt : Attempt) : Bytes :=
  fallback (ascii "Sending log message failed.") attempt.lvl.number (attempt.message.text.take 255)

/-- A daemon has received `currentMsg`, where it is not `none`, and has not printed it yet. -/
structure Daemon where
  msqid : Nat
  currentMsg : Option Message
  printed : List Bytes
  runs : Bool

/-- What it has printed, and what it would print next. -/
def Daemon.lines (d : Daemon) : List (Option Bytes) :=
  d.printed.map some ++ d.currentMsg.toList.map prettyPrintMessage

/-- `processes` has the `msqid` of each process, and the kernel gives no number twice. -/
structure Service where
  processes : Nat → Option (Option Nat)
  queue : Option (Nat × List Message)
  numbers : List Nat
  daemons : Nat → Option Daemon
  stdout : Nat → Bytes
  accepted : List Attempt
  dropped : List Message

def silence : Service := ⟨fun _ => none, none, [], fun _ => none, fun _ => [], [], []⟩

def Service.lines (s : Service) (pid : Nat) : List (Option Bytes) := ((s.daemons pid).map Daemon.lines).getD []

def Service.serves (s : Service) (pid : Nat) (d : Daemon) : Service :=
  { s with daemons := Function.update s.daemons pid (some d) }

@[simp] theorem Service.serves_lines_self (s : Service) (pid : Nat) (d : Daemon) :
    (s.serves pid d).lines pid = d.lines := by
  simp [Service.lines, Service.serves]

@[simp] theorem Service.serves_lines_other (s : Service) {pid other : Nat} (d : Daemon) (apart : other ≠ pid) :
    (s.serves pid d).lines other = s.lines other := by
  simp [Service.lines, Service.serves, apart]

def Service.number (s : Service) : Option Nat := s.queue.map Prod.fst

def Service.waiting (s : Service) : List Message := (s.queue.map Prod.snd).getD []

def Service.logged (s : Service) (attempt : Attempt) (msqid : Option Nat) (logged : Logged) : Service :=
  { s with
    processes := Function.update s.processes attempt.pid (some msqid)
    queue := s.queue.map fun (number, waiting) => (number, waiting ++ logged.sent.toList)
    stdout := Function.update s.stdout attempt.pid (s.stdout attempt.pid ++ logged.stdout.getD [])
    accepted := if logged.result = 1 then s.accepted ++ [attempt] else s.accepted }

inductive Happening
  | start (pid : Nat)
  | fork (parent child : Nat)
  | log (attempt : Attempt)
  | daemon (pid : Nat)
  | receive (pid : Nat)
  | print (pid : Nat)
  | interrupt (pid : Nat)
  | leave (pid : Nat)

/-- A process that is started has no `msqid`, one that is forked has its parent's; a daemon leaves when it
is killed, or when its queue is gone. -/
inductive Service.Step (s : Service) : Happening → Service → Prop
  | start {pid : Nat} (unknown : s.processes pid = none) :
      Step s (.start pid) { s with processes := Function.update s.processes pid (some none) }
  | fork {parent child : Nat} {msqid : Option Nat} (runs : s.processes parent = some msqid)
      (unknown : s.processes child = none) :
      Step s (.fork parent child) { s with processes := Function.update s.processes child (some msqid) }
  | log {attempt : Attempt} {known : Option Nat} {prior : Message} {room : Bool}
      (runs : s.processes attempt.pid = some known) (allowed : Terminates prior attempt.message) :
      Step s (.log attempt) (s.logged attempt (known.or s.number)
        (logMessage (known.or s.number).isSome (room && decide (known.or s.number = s.number)) prior
          attempt.message attempt.lvl))
  | attach {pid number : Nat} (unknown : s.daemons pid = none) (found : s.number = some number) :
      Step s (.daemon pid) (s.serves pid ⟨number, none, [], true⟩)
  | create {pid number : Nat} (unknown : s.daemons pid = none) (missing : s.queue = none)
      (unused : number ∉ s.numbers) :
      Step s (.daemon pid)
        { s.serves pid ⟨number, none, [], true⟩ with queue := some (number, []), numbers := number :: s.numbers }
  | receive {pid : Nat} {d : Daemon} {m : Message} {rest : List Message} (serves : s.daemons pid = some d)
      (runs : d.runs) (ready : d.currentMsg = none) (first : s.queue = some (d.msqid, m :: rest)) :
      Step s (.receive pid)
        { s.serves pid { d with currentMsg := some m } with queue := some (d.msqid, rest) }
  | print {pid : Nat} {d : Daemon} {m : Message} {text : Bytes} (serves : s.daemons pid = some d)
      (runs : d.runs) (received : d.currentMsg = some m) (prints : prettyPrintMessage m = some text) :
      Step s (.print pid) (s.serves pid { d with currentMsg := none, printed := d.printed ++ [text] })
  | interrupt {pid : Nat} {d : Daemon} {waiting : List Message} (serves : s.daemons pid = some d)
      (runs : d.runs) (found : s.queue = some (d.msqid, waiting)) :
      Step s (.interrupt pid)
        { s.serves pid { d with runs := false } with queue := none, dropped := s.dropped ++ waiting }
  | leave {pid : Nat} {d : Daemon} (serves : s.daemons pid = some d) (runs : d.runs) :
      Step s (.leave pid) (s.serves pid { d with runs := false })

inductive Service.Runs (s : Service) : List Happening → Service → Prop
  | refl : Runs s [] s
  | tail {happenings : List Happening} {happening : Happening} {middle after : Service}
      (run : Runs s happenings middle) (step : middle.Step happening after) :
      Runs s (happenings ++ [happening]) after

/-! Every message in one place. -/

/-- What was accepted has been received by one daemon or was dropped with its queue, which `settled` tells,
or is waiting; each part is in order, and a daemon has printed all that it received, but perhaps the last. -/
structure Service.Accounted (s : Service) (settled : List (Attempt × Option Nat)) (waiting : List Attempt) :
    Prop where
  accepted : s.accepted = settled.map Prod.fst ++ waiting
  received : ∀ pid, s.lines pid = (settled.filter (·.2 = some pid)).map (some ∘ Attempt.line ∘ Prod.fst)
  dropped : s.dropped.map prettyPrintMessage = (settled.filter (·.2 = none)).map (some ∘ Attempt.line ∘ Prod.fst)
  waiting : s.waiting.map prettyPrintMessage = waiting.map (some ∘ Attempt.line)

section

variable {s after : Service} {happenings : List Happening} {happening : Happening}
  {settled : List (Attempt × Option Nat)} {waiting : List Attempt}

/-- Without any change in what is received, waiting, dropped and accepted. -/
theorem Service.Accounted.same (accounted : s.Accounted settled waiting) (accepted : after.accepted = s.accepted)
    (received : ∀ pid, after.lines pid = s.lines pid) (dropped : after.dropped = s.dropped)
    (queue : after.waiting = s.waiting) : after.Accounted settled waiting := by
  constructor
  · rw [accepted, accounted.accepted]
  · intro pid
    rw [received, accounted.received]
  · rw [dropped, accounted.dropped]
  · rw [queue, accounted.waiting]

/-- One daemon's lines are what they were. -/
theorem Service.serves_lines {pid : Nat} {d : Daemon} (same : d.lines = s.lines pid) (other : Nat) :
    (s.serves pid d).lines other = s.lines other := by
  by_cases own : other = pid
  · subst own
    rw [Service.serves_lines_self, same]
  · exact s.serves_lines_other d own

theorem Service.lines_unknown {pid : Nat} (unknown : s.daemons pid = none) : s.lines pid = [] := by
  rw [Service.lines, unknown]
  rfl

theorem Service.lines_known {pid : Nat} {d : Daemon} (serves : s.daemons pid = some d) : s.lines pid = d.lines := by
  rw [Service.lines, serves]
  rfl

theorem logged_waiting (s : Service) (attempt : Attempt) (msqid : Option Nat) (logged : Logged) :
    (s.logged attempt msqid logged).waiting =
      if s.queue.isSome then s.waiting ++ logged.sent.toList else [] := by
  cases queue : s.queue with
  | none => simp [Service.waiting, Service.logged, queue]
  | some found => simp [Service.waiting, Service.logged, queue]

/-- Only to a queue that is there anything is sent. -/
theorem sent_number {connects room : Bool} {msqid : Option Nat} {prior : Message} {attempt : Attempt}
    (connected : connects = msqid.isSome)
    (sent : (logMessage connects (room && decide (msqid = s.number)) prior attempt.message attempt.lvl).sent ≠ none) :
    s.queue.isSome := by
  subst connected
  cases msqid with
  | none => exact absurd rfl sent
  | some number =>
      cases queue : s.queue with
      | some found => rfl
      | none => simp [logMessage, Service.number, queue] at sent

theorem Service.Accounted.log (accounted : s.Accounted settled waiting) {attempt : Attempt}
    {msqid : Option Nat} {prior : Message} {room : Bool} (allowed : Terminates prior attempt.message) :
    ∃ waiting, (s.logged attempt msqid (logMessage msqid.isSome (room && decide (msqid = s.number)) prior
      attempt.message attempt.lvl)).Accounted settled waiting := by
  rcases logMessage_cases msqid.isSome (room && decide (msqid = s.number)) prior attempt.message attempt.lvl with
    ⟨sent, result⟩ | ⟨sent, result⟩
  · have there : s.queue.isSome := sent_number rfl (by rw [sent]; exact Option.some_ne_none _)
    refine ⟨waiting ++ [attempt], ?_, accounted.received, accounted.dropped, ?_⟩
    · simp only [Service.logged, result, if_true, accounted.accepted, List.append_assoc]
    · rw [logged_waiting, if_pos there, sent, List.map_append, accounted.waiting, List.map_append]
      simp only [Option.toList_some, List.map_cons, List.map_nil, (survives_iff.mpr allowed).printed]
      rfl
  · refine ⟨waiting, accounted.same ?_ (fun _ => rfl) rfl ?_⟩
    · simp [Service.logged, result]
    · rw [logged_waiting, sent]
      cases queue : s.queue with
      | none => simp [Service.waiting, queue]
      | some found => simp

theorem Service.Accounted.receive (accounted : s.Accounted settled waiting) {pid : Nat} {d : Daemon} {m : Message}
    {rest : List Message} (serves : s.daemons pid = some d) (ready : d.currentMsg = none)
    (first : s.queue = some (d.msqid, m :: rest)) :
    ∃ settled waiting, Accounted
      { s.serves pid { d with currentMsg := some m } with queue := some (d.msqid, rest) } settled waiting := by
  have ahead := accounted.waiting
  rw [Service.waiting, first, Option.map_some, Option.getD_some, List.map_cons] at ahead
  cases waiting with
  | nil => contradiction
  | cons attempt waiting =>
      obtain ⟨here, behind⟩ := List.cons.inj ahead
      refine ⟨settled ++ [(attempt, some pid)], waiting, ?_, ?_, ?_, behind⟩
      · simp [accounted.accepted, Service.serves]
      · intro other
        by_cases own : other = pid
        · subst own
          have before := accounted.received other
          rw [s.lines_known serves, Daemon.lines, ready, Option.toList_none, List.map_nil, List.append_nil] at before
          have lines := s.serves_lines_self other { d with currentMsg := some m }
          refine lines.trans ?_
          simp [Daemon.lines, before, here]
        · refine (s.serves_lines_other _ own).trans ?_
          simp [accounted.received, Ne.symm own]
      · simp [accounted.dropped, Service.serves]

theorem Service.Accounted.interrupt (accounted : s.Accounted settled waiting) {pid number : Nat} {d : Daemon}
    {messages : List Message} (same : d.lines = s.lines pid) (found : s.queue = some (number, messages)) :
    ∃ settled waiting, Accounted
      { s.serves pid d with queue := none, dropped := s.dropped ++ messages } settled waiting := by
  have ahead := accounted.waiting
  rw [Service.waiting, found, Option.map_some, Option.getD_some] at ahead
  have all : waiting.filter (fun _ => true) = waiting := List.filter_eq_self.mpr fun _ _ => rfl
  refine ⟨settled ++ waiting.map (·, none), [], ?_, ?_, ?_, rfl⟩
  · simp [accounted.accepted, Function.comp_def, Service.serves]
  · intro other
    refine (s.serves_lines same other).trans ?_
    simp [accounted.received, List.filter_map, Function.comp_def]
  · simp [accounted.dropped, ahead, List.filter_map, Function.comp_def, all]

theorem Service.Accounted.step (accounted : s.Accounted settled waiting) (step : s.Step happening after) :
    ∃ settled waiting, after.Accounted settled waiting := by
  cases step with
  | start => exact ⟨settled, waiting, accounted.same rfl (fun _ => rfl) rfl rfl⟩
  | fork => exact ⟨settled, waiting, accounted.same rfl (fun _ => rfl) rfl rfl⟩
  | log _ allowed => exact ⟨settled, accounted.log allowed⟩
  | attach unknown =>
      exact ⟨settled, waiting, accounted.same rfl (s.serves_lines (s.lines_unknown unknown).symm) rfl rfl⟩
  | create unknown missing =>
      refine ⟨settled, waiting, accounted.same rfl (s.serves_lines (s.lines_unknown unknown).symm) rfl ?_⟩
      simp [Service.waiting, missing]
  | receive serves _ ready first => exact accounted.receive serves ready first
  | @print pid d m text serves _ received prints =>
      refine ⟨settled, waiting, accounted.same rfl (s.serves_lines ?_) rfl rfl⟩
      simp [s.lines_known serves, Daemon.lines, received, prints]
  | interrupt serves _ found => exact accounted.interrupt (s.lines_known serves).symm found
  | leave serves =>
      exact ⟨settled, waiting, accounted.same rfl (s.serves_lines (s.lines_known serves).symm) rfl rfl⟩

/-- However processes and daemons come and go, each message that was accepted is received by one daemon,
dropped with its queue, or waiting; a daemon prints what it has received in order, and once. -/
theorem messages_accounted (run : silence.Runs happenings s) : ∃ settled waiting, s.Accounted settled waiting := by
  induction run with
  | refl => exact ⟨[], [], rfl, fun _ => rfl, rfl, rfl⟩
  | tail _ step ih =>
      obtain ⟨settled, waiting, accounted⟩ := ih
      exact accounted.step step

/-! A process that knows a queue that is gone. -/

/-- Every number that somebody has is one that was given. -/
structure Service.Known (s : Service) : Prop where
  queue : ∀ number, s.number = some number → number ∈ s.numbers
  processes : ∀ pid number, s.processes pid = some (some number) → number ∈ s.numbers

def attemptsOf (pid : Nat) (happenings : List Happening) : List Attempt :=
  happenings.filterMap fun happening =>
    match happening with
    | .log attempt => if attempt.pid = pid then some attempt else none
    | _ => none

theorem attemptsOf_append (pid : Nat) (first second : List Happening) :
    attemptsOf pid (first ++ second) = attemptsOf pid first ++ attemptsOf pid second :=
  List.filterMap_append

theorem logged_number (s : Service) (attempt : Attempt) (msqid : Option Nat) (logged : Logged) :
    (s.logged attempt msqid logged).number = s.number := by
  cases queue : s.queue with
  | none => simp [Service.number, Service.logged, queue]
  | some found => simp [Service.number, Service.logged, queue]

theorem Service.Known.step (known : s.Known) (step : s.Step happening after) : after.Known := by
  obtain ⟨given, held⟩ := known
  cases step with
  | @start new _ =>
      refine ⟨given, fun pid number found => ?_⟩
      by_cases same : pid = new
      · subst same
        simp at found
      · exact held pid number (by simpa [same] using found)
  | @fork parent child msqid runs _ =>
      refine ⟨given, fun pid number found => ?_⟩
      by_cases same : pid = child
      · subst same
        simp only [Function.update_self, Option.some.injEq] at found
        exact held parent number (by rw [runs, found])
      · exact held pid number (by simpa [same] using found)
  | @log attempt msqid _ _ runs _ =>
      refine ⟨fun number found => given number (by rwa [logged_number] at found), fun pid number found => ?_⟩
      by_cases same : pid = attempt.pid
      · subst same
        simp only [Service.logged, Function.update_self, Option.some.injEq] at found
        cases msqid with
        | none => exact given number found
        | some before => exact held attempt.pid number (by rw [runs]; exact congrArg some found)
      · exact held pid number (by simpa [Service.logged, same] using found)
  | attach => exact ⟨given, held⟩
  | leave => exact ⟨given, held⟩
  | create =>
      refine ⟨fun number found => ?_, fun pid number found => List.mem_cons_of_mem _ (held pid number found)⟩
      obtain rfl := Option.some.inj found
      exact List.mem_cons_self
  | receive _ _ _ first =>
      refine ⟨fun number found => given number ?_, held⟩
      rw [Service.number, first]
      exact found
  | print => exact ⟨given, held⟩
  | interrupt =>
      refine ⟨fun number found => ?_, held⟩
      contradiction

theorem known_run (run : silence.Runs happenings s) : s.Known := by
  induction run with
  | refl => exact ⟨fun _ found => absurd found (by simp [silence, Service.number]), fun _ _ found => absurd found (by simp [silence])⟩
  | tail _ step ih => exact ih.step step

theorem shown_allowed {prior : Message} {message : CString} {lvl : LogLevel} (allowed : Terminates prior message) :
    shown (fill prior message lvl).msg = some (message.text.take 255) := by
  obtain ⟨printed, terminated⟩ := @survives_iff prior message lvl |>.mpr allowed
  have known : shown (fill prior message lvl).msg = some (cstring (fill prior message lvl).msg) := if_pos terminated
  rw [prettyPrintMessage_fill known, line, Option.some.injEq, List.append_cancel_right_eq,
    List.append_cancel_left_eq] at printed
  rw [known, printed]

/-- What falls back is printed as it is, and not accepted. -/
theorem stale_logs {attempt : Attempt} {number : Nat} (gone : s.number ≠ some number) {prior : Message}
    (allowed : Terminates prior attempt.message) (room : Bool) :
    logMessage (some number).isSome (room && decide (some number = s.number)) prior attempt.message attempt.lvl =
      ⟨-1, none, some attempt.fellBack⟩ := by
  have apart : decide (some number = s.number) = false := decide_eq_false (Ne.symm gone)
  have text := @shown_allowed prior attempt.message attempt.lvl allowed
  simp only [logMessage, apart, Option.isSome_some, if_true, Bool.and_false, Bool.false_eq_true, if_false, text,
    Option.map_some]
  rfl

/-- What has become of a process with such a number: all that it has logged is on its own standard output. -/
structure FallsBack (pid number : Nat) (s : Service) (happenings : List Happening) (after : Service) : Prop where
  keeps : after.processes pid = some (some number)
  gone : after.number ≠ some number
  stdout : after.stdout pid = s.stdout pid ++ (attemptsOf pid happenings).flatMap Attempt.fellBack
  accepted : after.accepted.filter (·.pid = pid) = s.accepted.filter (·.pid = pid)

/-- A step that neither is its own nor touches its output. -/
theorem fallsBack_other {pid number : Nat} (none_own : attemptsOf pid [happening] = [])
    (keeps : after.processes pid = some (some number)) (gone : after.number ≠ some number)
    (stdout : after.stdout pid = s.stdout pid)
    (accepted : after.accepted.filter (·.pid = pid) = s.accepted.filter (·.pid = pid)) :
    FallsBack pid number s [happening] after :=
  ⟨keeps, gone, by rw [none_own, stdout]; exact (List.append_nil _).symm, accepted⟩

theorem fallsBack_log {pid number : Nat} (keeps : s.processes pid = some (some number))
    (gone : s.number ≠ some number) {attempt : Attempt} {known : Option Nat} {prior : Message} {room : Bool}
    (runs : s.processes attempt.pid = some known) (allowed : Terminates prior attempt.message) :
    FallsBack pid number s [.log attempt] (s.logged attempt (known.or s.number)
      (logMessage (known.or s.number).isSome (room && decide (known.or s.number = s.number)) prior
        attempt.message attempt.lvl)) := by
  by_cases own : attempt.pid = pid
  · subst own
    obtain rfl := Option.some.inj (keeps.symm.trans runs)
    rw [Option.some_or, stale_logs gone allowed]
    refine ⟨?_, ?_, ?_, ?_⟩
    · simp [Service.logged]
    · rwa [logged_number]
    · simp [Service.logged, attemptsOf]
    · simp [Service.logged]
  · refine fallsBack_other ?_ ?_ ?_ ?_ ?_
    · simp [attemptsOf, own]
    · simpa [Service.logged, Ne.symm own] using keeps
    · rwa [logged_number]
    · simp [Service.logged, Ne.symm own]
    · simp only [Service.logged]
      split
      · simp [own]
      · rfl

theorem fallsBack_step {pid number : Nat} (given : number ∈ s.numbers)
    (keeps : s.processes pid = some (some number)) (gone : s.number ≠ some number)
    (step : s.Step happening after) : FallsBack pid number s [happening] after := by
  cases step with
  | @start new unknown =>
      have other : pid ≠ new := by
        rintro rfl
        rw [keeps] at unknown
        contradiction
      exact fallsBack_other rfl (by simpa [other] using keeps) gone rfl rfl
  | @fork _ child _ _ unknown =>
      have other : pid ≠ child := by
        rintro rfl
        rw [keeps] at unknown
        contradiction
      exact fallsBack_other rfl (by simpa [other] using keeps) gone rfl rfl
  | log runs allowed => exact fallsBack_log keeps gone runs allowed
  | attach => exact fallsBack_other rfl keeps gone rfl rfl
  | leave => exact fallsBack_other rfl keeps gone rfl rfl
  | create _ _ unused =>
      refine fallsBack_other rfl keeps ?_ rfl rfl
      intro same
      obtain rfl := Option.some.inj same
      exact unused given
  | receive _ _ _ first =>
      refine fallsBack_other rfl keeps ?_ rfl rfl
      intro same
      apply gone
      rw [Service.number, first]
      exact same
  | print => exact fallsBack_other rfl keeps gone rfl rfl
  | interrupt => exact fallsBack_other rfl keeps (by simp [Service.number]) rfl rfl

theorem step_numbers (step : s.Step happening after) : s.numbers ⊆ after.numbers := by
  cases step with
  | create => exact List.subset_cons_self _ _
  | start => exact List.Subset.refl _
  | fork => exact List.Subset.refl _
  | log => exact List.Subset.refl _
  | attach => exact List.Subset.refl _
  | receive => exact List.Subset.refl _
  | print => exact List.Subset.refl _
  | interrupt => exact List.Subset.refl _
  | leave => exact List.Subset.refl _

theorem fallsBack_run {pid number : Nat} (given : number ∈ s.numbers)
    (keeps : s.processes pid = some (some number)) (gone : s.number ≠ some number)
    (run : s.Runs happenings after) : number ∈ after.numbers ∧ FallsBack pid number s happenings after := by
  induction run with
  | refl => exact ⟨given, keeps, gone, (List.append_nil _).symm, rfl⟩
  | tail _ step ih =>
      obtain ⟨known, before⟩ := ih
      have last := fallsBack_step known before.keeps before.gone step
      refine ⟨step_numbers step known, last.keeps, last.gone, ?_, last.accepted.trans before.accepted⟩
      rw [last.stdout, before.stdout, attemptsOf_append, List.flatMap_append, List.append_assoc]

/-- A process that has found a queue never looks for another one: once that queue is removed, whatever the
daemons do, all that the process logs is on its own standard output, and nothing of it is accepted. -/
theorem stale_falls_back {pid number : Nat} {later : List Happening} (run : silence.Runs happenings s)
    (keeps : s.processes pid = some (some number)) (gone : s.number ≠ some number)
    (goes_on : s.Runs later after) : FallsBack pid number s later after :=
  (fallsBack_run ((known_run run).processes pid number keeps) keeps gone goes_on).2

end

/-! One process, and a daemon that is started again. -/

def bye : Attempt := ⟨7, ⟨ascii "Bye", by decide⟩, .info⟩

theorem bye_allowed : Terminates (unused 0) bye.message := .inl (by decide)

/-- The one daemon of pid 2, which receives a message, and is interrupted before it prints the second. -/
def interrupted : List Happening :=
  [.daemon 2, .start 7, .log bye, .receive 2, .log bye, .interrupt 2]

theorem interrupted_run : ∃ s, silence.Runs interrupted s ∧ s.processes 7 = some (some 1) ∧
    s.number ≠ some 1 ∧ s.daemons 3 = none ∧ s.queue = none ∧ 2 ∉ s.numbers := by
  have served := Service.Runs.tail .refl (@Service.Step.create silence 2 1 rfl rfl List.not_mem_nil)
  have started := served.tail (@Service.Step.start _ 7 rfl)
  have logged := started.tail (@Service.Step.log _ bye none (unused 0) true rfl bye_allowed)
  have received := logged.tail (@Service.Step.receive _ 2 _ _ _ rfl rfl rfl rfl)
  have again := received.tail (@Service.Step.log _ bye (some 1) (unused 0) true rfl bye_allowed)
  have removed := again.tail (@Service.Step.interrupt _ 2 _ _ rfl rfl rfl)
  exact ⟨_, removed, rfl, Option.some_ne_none 1 |>.symm, rfl, rfl, by decide⟩

theorem messages_accounted_interrupted : ∃ s, silence.Runs interrupted s ∧
    ∃ settled waiting, s.Accounted settled waiting := by
  obtain ⟨s, run, _⟩ := interrupted_run
  exact ⟨s, run, messages_accounted run⟩

theorem stale_falls_back_restarted : ∃ s after, silence.Runs interrupted s ∧
    FallsBack 7 1 s [.daemon 3, .log bye] after := by
  obtain ⟨s, run, keeps, gone, unknown, missing, unused_number⟩ := interrupted_run
  have served := Service.Runs.tail .refl (@Service.Step.create s 3 2 unknown missing unused_number)
  have logged := served.tail (@Service.Step.log _ bye (some 1) (unused 0) true keeps bye_allowed)
  exact ⟨s, _, run, stale_falls_back run keeps gone logged⟩

end Iac.Logging
