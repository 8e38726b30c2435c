import Iac.RequestOrder

/-! Who waits for whom when a client and the main server open each other's FIFOs. -/

namespace Iac

namespace Fifo

open CText Interaction Relation

/-- Neither side waits for a reader: opening a FIFO for writing finds one at once. -/
structure Safe {ι : Type} (conn : ι → Connection) (s : Gate ι) : Prop where
  accepts : ∀ path next, s.server.program = .perform (.openOut path) next →
    ∃ i, path = .block (conn i).inFIFOPath.block ∧ s.readers i = true
  opens : ∀ i next, (s.clients i).program = .perform .openOut next →
    .block (conn i).outFIFOPath.block ∈ s.reading

variable {ι : Type}

/-- The clients whose in-FIFOs the main server has still to open. -/
def Gate.waiting (s : Gate ι) : List ι := s.order.drop s.linked

/-- None of them gives up or is killed. -/
def Patient (s after : Gate ι) : Prop :=
  ∀ i ∈ s.waiting, s.readers i = true → after.readers i = true

/-! Different processes have different FIFOs. -/

theorem processFIFOs_distinct : Distinct processFIFOs := by
  intro i j same
  have texts : basePath i ++ ascii "-in" = basePath j ++ ascii "-in" := List.append_cancel_right same
  have numbers := List.append_cancel_left (List.append_cancel_right texts)
  exact Int32.toInt_inj.mp (itoa_injective numbers)

/-! Clients open the FIFO that the main server has opened. -/

variable {conn : ι → Connection} {s after : Gate ι} {stages : ι → Stage} {phase : Phase} {done : Bytes}

theorem Sound.opens (sound : Sound conn s stages) (distinct : Distinct conn) {i : ι}
    {next : Unit → ClientProgram Bool} (shape : (s.clients i).program = .perform .openOut next) :
    .block (conn i).outFIFOPath.block ∈ s.reading := by
  have client : s.clients i = ⟨.perform .openOut next, (s.clients i).moved⟩ := by rw [← shape]
  have keeps := follows_call (by nofun) client (sound.follows i)
  generalize here : stages i = stage at keeps
  cases keeps with
  | openOut _ => exact sound.answered distinct i (.inl here)

theorem Sound.first_waiting (sound : Sound conn s stages) (serves : Serves s phase done) {path : Pointer}
    {next : Unit → AcceptProgram (Option Accepted)}
    (shape : s.server.program = .perform (.openOut path) next) :
    ∃ i ∈ s.waiting, path = .block (conn i).inFIFOPath.block := by
  have tracks := serves.tracks
  have count := serves.linked
  rw [shape] at tracks
  cases tracks with
  | @openOut c _ _ _ =>
      obtain ⟨i, first, rfl⟩ := sound.target serves rfl
      refine ⟨i, ?_, rfl⟩
      rw [Gate.waiting, count]
      rw [← List.head?_drop] at first
      exact List.mem_of_head? first

def Gate.Listening (s : Gate ι) : Prop := ∀ i ∈ s.waiting, s.readers i = true

theorem Kept.safe (kept : Kept conn s) (distinct : Distinct conn) (listening : s.Listening) : Safe conn s := by
  obtain ⟨stages, phase, done, sound, serves⟩ := kept
  constructor
  · intro path next shape
    obtain ⟨i, member, same⟩ := sound.first_waiting serves shape
    exact ⟨i, same, listening i member⟩
  · intro i next shape
    exact sound.opens distinct shape

structure Stuck (conn : ι → Connection) (i : ι) (s : Gate ι) : Prop where
  waits : ∃ next, s.server = ⟨.perform (.openOut (.block (conn i).inFIFOPath.block)) next, []⟩
  alone : s.readers i = false
  left : s.clients i = ⟨.ret false, []⟩

theorem Stuck.not_safe {i : ι} (stuck : Stuck conn i s) (distinct : Distinct conn) : ¬Safe conn s := by
  intro safe
  obtain ⟨next, waits⟩ := stuck.waits
  obtain ⟨j, same, reader⟩ := safe.accepts _ next (by rw [waits])
  obtain rfl := distinct i j (Pointer.block.inj same)
  rw [stuck.alone] at reader
  contradiction

variable [DecidableEq ι]

/-- Whoever comes to wait is listening. -/
theorem Step.waiting (step : Step conn s after) (sound : Sound conn s stages) :
    ∀ i ∈ after.waiting, i ∈ s.waiting ∨ after.readers i = true := by
  intro i member
  cases step with
  | @lock j next shape unlocked =>
      rw [Gate.waiting, List.drop_append] at member
      rcases List.mem_append.mp member with earlier | last
      · exact .inl earlier
      · obtain rfl := List.mem_singleton.mp (List.mem_of_mem_drop last)
        right
        have keeps := follows_call (by nofun) shape (sound.follows i)
        generalize here : stages i = stage at keeps
        cases keeps with
        | lock _ _ => exact sound.reads i (.inl here)
  | acceptOpenOut shape same reader =>
      left
      rw [Gate.waiting, ← List.drop_drop] at member
      exact List.mem_of_mem_drop member
  -- nothing else changes who is waiting
  | free | openIn | write | written | unlock | close | receive | openOut | leave | acceptFree | read
    | arrived | acceptOpenIn | sendOk | accepted => exact .inl member

theorem Step.listening (step : Step conn s after) (patient : Patient s after) (kept : Kept conn s)
    (listening : s.Listening) : after.Listening := by
  obtain ⟨stages, phase, done, sound, serves⟩ := kept
  intro i member
  rcases step.waiting sound i member with earlier | listens
  · exact patient i earlier (listening i earlier)
  · exact listens

def PatientStep (conn : ι → Connection) (s after : Gate ι) : Prop := Step conn s after ∧ Patient s after

theorem onward_patient (run : ReflTransGen (Onward conn) s after) : ReflTransGen (PatientStep conn) s after :=
  ReflTransGen.mono (fun _ _ step => ⟨step.1, fun i _ => step.2 i⟩) _ _ run

theorem patient_run (run : ReflTransGen (PatientStep conn) (.start conn) s) :
    Kept conn s ∧ s.Listening := by
  induction run with
  | refl => exact ⟨run_kept .refl, fun _ member => absurd member List.not_mem_nil⟩
  | tail _ step ih => exact ⟨step.1.kept ih.1, step.1.listening step.2 ih.1 ih.2⟩

/-- As long as nobody whose request is waiting gives up, neither side waits for a reader. -/
theorem handshake_safe {s : Gate Int32} (run : ReflTransGen (PatientStep processFIFOs) (.start processFIFOs) s) :
    Safe processFIFOs s := by
  obtain ⟨kept, listening⟩ := patient_run run
  exact kept.safe processFIFOs_distinct listening

/-- The main server comes to the in-FIFO of a process that is still there. -/
theorem handshake_with_reader : ∃ s, ReflTransGen (PatientStep processFIFOs) (.start processFIFOs) s ∧
    (∃ next, s.server.program = .perform (.openOut (.block (processFIFOs 77).inFIFOPath.block)) next) ∧
    Safe processFIFOs s := by
  obtain ⟨client, request⟩ := @onward_request Int32 processFIFOs (.start processFIFOs) _ 77 rfl rfl
  have read := request.trans (onward_request_read rfl (List.append_nil _).symm)
  have opened := onward_patient (read.tail ⟨.acceptOpenIn rfl, fun _ reads => reads⟩)
  exact ⟨_, opened, ⟨_, rfl⟩, handshake_safe opened⟩

/-! A client that has given up. -/

theorem Stuck.client {i j : ι} {op : Call} {next : op.Answer → ClientProgram Bool} {moved : Bytes}
    {client : Requester} (stuck : Stuck conn i s) (shape : s.clients j = ⟨.perform op next, moved⟩)
    (clients : after.clients = Function.update s.clients j client)
    (readers : i ≠ j → after.readers i = s.readers i) (server : after.server = s.server) :
    Stuck conn i after ∧ after.server = s.server := by
  have different : i ≠ j := by
    rintro rfl
    cases stuck.left.symm.trans shape
  refine ⟨⟨?_, ?_, ?_⟩, server⟩
  · rw [server]
    exact stuck.waits
  · exact (readers different).trans stuck.alone
  · rw [clients, Function.update_of_ne different]
    exact stuck.left

theorem Step.stuck (step : Step conn s after) (distinct : Distinct conn) {i : ι} (stuck : Stuck conn i s) :
    Stuck conn i after ∧ after.server = s.server := by
  obtain ⟨next, waits⟩ := stuck.waits
  cases step with
  | free _ shape _ => exact stuck.client shape rfl (fun _ => rfl) rfl
  | openIn shape =>
      exact stuck.client shape rfl (fun different => Function.update_of_ne different true s.readers) rfl
  | lock shape _ => exact stuck.client shape rfl (fun _ => rfl) rfl
  | write shape _ => exact stuck.client shape rfl (fun _ => rfl) rfl
  | written shape => exact stuck.client shape rfl (fun _ => rfl) rfl
  | unlock shape => exact stuck.client shape rfl (fun _ => rfl) rfl
  | close shape => exact stuck.client shape rfl (fun _ => rfl) rfl
  | receive shape _ => exact stuck.client shape rfl (fun _ => rfl) rfl
  | openOut shape _ => exact stuck.client shape rfl (fun _ => rfl) rfl
  | @leave j _ =>
      refine ⟨⟨⟨next, waits⟩, ?_, ?_⟩, rfl⟩
      · by_cases same : i = j
        · subst same
          exact Function.update_self i false s.readers
        · exact (Function.update_of_ne same false s.readers).trans stuck.alone
      · by_cases same : i = j
        · subst same
          exact Function.update_self i _ s.clients
        · exact (Function.update_of_ne same _ s.clients).trans stuck.left
  | @acceptOpenOut path _ j shape same reader =>
      cases waits.symm.trans shape
      obtain rfl := distinct i j (Pointer.block.inj same)
      rw [stuck.alone] at reader
      contradiction
  | acceptFree answer shape possible =>
      cases waits.symm.trans shape
      exact possible.elim
  | read shape => cases waits.symm.trans shape
  | arrived shape => cases waits.symm.trans shape
  | acceptOpenIn shape => cases waits.symm.trans shape
  | sendOk shape => cases waits.symm.trans shape
  | accepted shape => cases waits.symm.trans shape

theorem stuck_run (distinct : Distinct conn) {i : ι} (stuck : Stuck conn i s)
    (run : ReflTransGen (Step conn) s after) : Stuck conn i after ∧ after.server = s.server := by
  induction run with
  | refl => exact ⟨stuck, rfl⟩
  | tail _ step ih =>
      obtain ⟨still, server⟩ := step.stuck distinct ih.1
      exact ⟨still, server.trans ih.2⟩

theorem Stuck.for_good {i : ι} (stuck : Stuck conn i s) (distinct : Distinct conn) :
    ¬Safe conn s ∧ ∀ after, ReflTransGen (Step conn) s after → after.server = s.server :=
  ⟨stuck.not_safe distinct, fun _ run => (stuck_run distinct stuck run).2⟩

/-- A client asks and goes away before the main server reads of it: then the main server waits for
good. -/
theorem blocked_for_good : ∃ s, ReflTransGen (Step processFIFOs) (.start processFIFOs) s ∧
    ¬Safe processFIFOs s ∧ ∀ after, ReflTransGen (Step processFIFOs) s after → after.server = s.server := by
  obtain ⟨client, request⟩ := @onward_request Int32 processFIFOs (.start processFIFOs) _ 77 rfl rfl
  have gone := (onward_run request).tail (@Step.leave Int32 _ processFIFOs _ 77 nofun)
  have read := gone.trans (onward_run (onward_request_read rfl (List.append_nil _).symm))
  have opened := read.tail (.acceptOpenIn rfl)
  exact ⟨_, opened, Stuck.for_good ⟨⟨_, rfl⟩, rfl, rfl⟩ processFIFOs_distinct⟩

end Fifo

end Iac
