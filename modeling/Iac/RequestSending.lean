import Iac.FifoConnection
import Iac.Session

/-! How the clients put their requests into the main server's FIFO, one behind the other. -/

namespace Iac

namespace Fifo

open CText Interaction Relation

/-! What a client does, up to its request and behind it. -/

inductive Stage
  | fresh
  | opened
  | sending (owed : Bytes)
  | sent
  | answered
  | gone

def Stage.turn : Stage → Funnel.Turn UInt8
  | .fresh => .before
  | .opened => .before
  | .sending owed => .holding owed
  | _ => .after

inductive Keeps (message : Bytes) {α : Type} (ends : α → Stage → Prop) : Stage → ClientProgram α → Prop
  | ret {stage : Stage} {value : α} (done : ends value stage) : Keeps message ends stage (.ret value)
  | makeFIFOs {next : Bool → ClientProgram α} (later : ∀ ok, Keeps message ends .fresh (next ok)) :
      Keeps message ends .fresh (.perform .makeFIFOs next)
  | openIn {next : Unit → ClientProgram α} (later : Keeps message ends .opened (next ())) :
      Keeps message ends .fresh (.perform .openIn next)
  | openMain {next : Bool → ClientProgram α} (later : ∀ ok, Keeps message ends .opened (next ok)) :
      Keeps message ends .opened (.perform .openMain next)
  | lock {next : Bool → ClientProgram α} (obtained : Keeps message ends (.sending message) (next true))
      (failed : Keeps message ends .opened (next false)) :
      Keeps message ends .opened (.perform .lock next)
  | write {src rest : Bytes} {next : Bool → ClientProgram α}
      (later : Keeps message ends (.sending rest) (next true)) :
      Keeps message ends (.sending (src ++ rest)) (.perform (.write src) next)
  | unlock {next : Unit → ClientProgram α} (later : Keeps message ends .sent (next ())) :
      Keeps message ends (.sending []) (.perform .unlock next)
  | close {next : Unit → ClientProgram α} (later : Keeps message ends .sent (next ())) :
      Keeps message ends .sent (.perform .close next)
  | select {next : Selected → ClientProgram α} (later : ∀ result, Keeps message ends .sent (next result)) :
      Keeps message ends .sent (.perform .select next)
  | receive {next : Option Bytes → ClientProgram α} (failed : Keeps message ends .sent (next none))
      (later : ∀ payload, Keeps message ends .answered (next (some payload))) :
      Keeps message ends .sent (.perform .receive next)
  | openOut {next : Unit → ClientProgram α} (later : Keeps message ends .answered (next ())) :
      Keeps message ends .answered (.perform .openOut next)
  | undefined {next : Empty → ClientProgram α} : Keeps message ends .answered (.perform .undefined next)

theorem keeps_bind {message : Bytes} {α β : Type} {middle : α → Stage → Prop} {ends : β → Stage → Prop}
    {stage : Stage} {program : ClientProgram α} {after : α → ClientProgram β}
    (first : Keeps message middle stage program)
    (second : ∀ value stage, middle value stage → Keeps message ends stage (after value)) :
    Keeps message ends stage (program >>= after) := by
  induction first with
  | ret done => exact second _ _ done
  | makeFIFOs _ ih => exact .makeFIFOs ih
  | openIn _ ih => exact .openIn ih
  | openMain _ ih => exact .openMain ih
  | lock _ _ obtained failed => exact .lock obtained failed
  | write _ ih => exact .write ih
  | unlock _ ih => exact .unlock ih
  | close _ ih => exact .close ih
  | select _ ih => exact .select ih
  | receive _ _ failed later => exact .receive failed later
  | openOut _ ih => exact .openOut ih
  | undefined => exact .undefined

theorem Path.take_len (path : Path) : path.len = path.block.length ∧ path.block.take path.len = path.block := by
  have length : path.len = path.block.length := by
    rw [Path.len, Path.block, cstring_append_nul path.clean [], List.length_append]
    rfl
  exact ⟨length, by rw [length, List.take_length]⟩

def request (c : Connection) : Bytes := frame c.outFIFOPath.block ++ frame c.inFIFOPath.block

theorem sendPath_keeps {message rest : Bytes} (path : Path) :
    Keeps message (fun ok stage => ok = true ∧ stage = .sending rest) (.sending (frame path.block ++ rest))
      (sendPath path) := by
  obtain ⟨length, whole⟩ := path.take_len
  rw [sendPath, whole, length, frame, List.append_assoc]
  exact .write (.write (.ret ⟨rfl, rfl⟩))

theorem sendFIFOPaths_keeps (c : Connection) :
    Keeps (request c) (fun sent stage => sent = true ∧ stage = .sent ∨ sent = false ∧ stage = .opened) .opened
      (sendFIFOPaths c) := by
  rw [sendFIFOPaths]
  refine .openMain ?_
  intro opened
  cases opened with
  | false => exact .ret (.inr ⟨rfl, rfl⟩)
  | true =>
      refine .lock ?_ (.ret (.inr ⟨rfl, rfl⟩))
      change Keeps _ _ _ (sendPath c.outFIFOPath >>= _)
      refine keeps_bind (sendPath_keeps _) ?_
      rintro _ _ ⟨rfl, rfl⟩
      have second := @sendPath_keeps (request c) [] c.inFIFOPath
      rw [List.append_nil] at second
      refine keeps_bind second ?_
      rintro _ _ ⟨rfl, rfl⟩
      exact .unlock (.close (.ret (.inl ⟨rfl, rfl⟩)))

/-- The program does not end with the lock. -/
def Released (stage : Stage) : Prop := ∀ owed, stage ≠ .sending owed

theorem connOpen_keeps (c : Connection) :
    Keeps (request c) (fun _ => Released) .fresh (connOpen c) := by
  rw [connOpen]
  refine .makeFIFOs ?_
  intro made
  cases made with
  | false => exact .ret fun _ => nofun
  | true =>
      refine .openIn ?_
      change Keeps _ _ _ (sendFIFOPaths c >>= _)
      refine keeps_bind (sendFIFOPaths_keeps c) ?_
      rintro _ _ (⟨rfl, rfl⟩ | ⟨rfl, rfl⟩)
      · refine .select ?_
        intro result
        cases result with
        | error => exact .ret fun _ => nofun
        | timeout => exact .ret fun _ => nofun
        | ready =>
            refine .receive (.ret fun _ => nofun) ?_
            intro ack
            change Keeps _ _ _ (Program.ret (some ack) >>= _)
            rw [Program.ret_bind]
            dsimp only
            split
            · exact .undefined
            · split
              · exact .openOut (.ret fun _ => nofun)
              · exact .ret fun _ => nofun
      · exact .ret fun _ => nofun

/-- A client, perhaps in the middle of a call of `write`. -/
inductive Follows (message : Bytes) : Stage → Requester → Prop
  | whole {stage : Stage} {program : ClientProgram Bool}
      (keeps : Keeps message (fun _ => Released) stage program) : Follows message stage ⟨program, []⟩
  | writing {moved left rest : Bytes} {next : Bool → ClientProgram Bool}
      (keeps : Keeps message (fun _ => Released) (.sending rest) (next true)) :
      Follows message (.sending (left ++ rest)) ⟨.perform (.write (moved ++ left)) next, moved⟩

section

variable {message moved : Bytes} {stage : Stage} {client : Requester}

theorem follows_call {op : Call} {next : op.Answer → ClientProgram Bool} (unwritten : ∀ src, op ≠ .write src)
    (shape : client = ⟨.perform op next, moved⟩) (follows : Follows message stage client) :
    Keeps message (fun _ => Released) stage (.perform op next) := by
  cases follows with
  | whole keeps =>
      cases shape
      exact keeps
  | writing keeps =>
      cases shape
      exact absurd rfl (unwritten _)

theorem follows_write {src : Bytes} {next : Bool → ClientProgram Bool}
    (shape : client = ⟨.perform (.write src) next, moved⟩) (follows : Follows message stage client) :
    ∃ left rest, src = moved ++ left ∧ stage = .sending (left ++ rest) ∧
      Keeps message (fun _ => Released) (.sending rest) (next true) := by
  cases follows with
  | whole keeps =>
      cases shape
      cases keeps with
      | write later => exact ⟨src, _, rfl, rfl, later⟩
  | writing keeps =>
      cases shape
      exact ⟨_, _, rfl, rfl, keeps⟩

end

/-! The clients together. -/

variable {ι : Type} {conn : ι → Connection} {s after : Gate ι} {stages : ι → Stage}

/-- The gate as a funnel: the main server has read what its calls of `conn_accept` have read. -/
def Gate.funnel (s : Gate ι) (stages : ι → Stage) : Funnel.State ι UInt8 where
  turns i := (stages i).turn
  holder := s.holder
  pipe := s.fifo
  taken := s.calls.flatMap Prod.snd ++ s.current
  order := s.order

def Distinct (conn : ι → Connection) : Prop :=
  ∀ i j, (conn i).inFIFOPath.block = (conn j).inFIFOPath.block → i = j

structure Sound (conn : ι → Connection) (s : Gate ι) (stages : ι → Stage) : Prop where
  follows : ∀ i, Follows (request (conn i)) (stages i) (s.clients i)
  good : Funnel.Good (fun i => request (conn i)) (s.funnel stages)
  reads : ∀ i, stages i = .opened ∨ (∃ owed, stages i = .sending owed) → s.readers i = true
  answered : Distinct conn → ∀ i, stages i = .answered ∨ s.inbox i ≠ [] →
    .block (conn i).outFIFOPath.block ∈ s.reading

theorem start_sound (conn : ι → Connection) : Sound conn (.start conn) fun _ => .fresh where
  follows i := .whole (connOpen_keeps (conn i))
  good := Funnel.start_good _
  reads i stage := by rcases stage with stage | ⟨_, stage⟩ <;> contradiction
  answered _ i reached := by rcases reached with stage | arrived <;> contradiction

theorem turn_eq (s : Gate ι) {stages : ι → Stage} {i : ι} {here : Stage} (at_stage : stages i = here) :
    (s.funnel stages).turns i = here.turn := congrArg Stage.turn at_stage

/-- The client that sends its request is the one with the lock. -/
theorem Sound.holder_iff (sound : Sound conn s stages) (i : ι) :
    s.holder = some i ↔ ∃ owed, stages i = .sending owed := by
  refine (sound.good.holder_iff i).trans ?_
  change (∃ owed, (stages i).turn = .holding owed) ↔ _
  cases stages i with
  | sending owed => simp [Stage.turn]
  | fresh => simp [Stage.turn]
  | opened => simp [Stage.turn]
  | sent => simp [Stage.turn]
  | answered => simp [Stage.turn]
  | gone => simp [Stage.turn]

variable [DecidableEq ι]

theorem funnel_update (s : Gate ι) (stages : ι → Stage) (i : ι) (stage : Stage) :
    s.funnel (Function.update stages i stage) =
      { s.funnel stages with turns := Function.update (s.funnel stages).turns i stage.turn } := by
  have turns : (s.funnel (Function.update stages i stage)).turns =
      Function.update (s.funnel stages).turns i stage.turn := by
    funext other
    by_cases same : other = i
    · subst other
      simp [Gate.funnel]
    · simp [Gate.funnel, same]
  rw [← turns]
  rfl

theorem funnel_same (s : Gate ι) {stages : ι → Stage} {i : ι} {here stage : Stage} (at_stage : stages i = here)
    (same : stage.turn = here.turn) : s.funnel (Function.update stages i stage) = s.funnel stages := by
  rw [funnel_update, same, ← at_stage]
  have turns := Function.update_eq_self i (s.funnel stages).turns
  exact congrArg (fun turns => { s.funnel stages with turns }) turns

theorem Sound.move (sound : Sound conn s stages) {i : ι} {stage : Stage} {client : Requester}
    (follows : Follows (request (conn i)) stage client)
    (clients : after.clients = Function.update s.clients i client)
    (good : Funnel.Good (fun i => request (conn i)) (after.funnel (Function.update stages i stage)))
    (reads : ∀ other, other ≠ i → s.readers other = true → after.readers other = true)
    (here : stage = .opened ∨ (∃ owed, stage = .sending owed) → after.readers i = true)
    (inbox : ∀ other, after.inbox other ≠ [] → s.inbox other ≠ [])
    (reading : after.reading = s.reading) (answered : stage = .answered → stages i = .answered ∨ s.inbox i ≠ []) :
    Sound conn after (Function.update stages i stage) where
  follows other := by
    rw [clients]
    by_cases same : other = i
    · subst other
      rw [Function.update_self, Function.update_self]
      exact follows
    · rw [Function.update_of_ne same, Function.update_of_ne same]
      exact sound.follows other
  good := good
  reads other reached := by
    by_cases same : other = i
    · subst other
      rw [Function.update_self] at reached
      exact here reached
    · rw [Function.update_of_ne same] at reached
      exact reads other same (sound.reads other reached)
  answered distinct other reached := by
    rw [reading]
    refine sound.answered distinct other ?_
    by_cases same : other = i
    · subst other
      rw [Function.update_self] at reached
      rcases reached with stage | arrived
      · exact answered stage
      · exact .inr (inbox _ arrived)
    · rw [Function.update_of_ne same] at reached
      rcases reached with stage | arrived
      · exact .inl stage
      · exact .inr (inbox _ arrived)

theorem Sound.stay (sound : Sound conn s stages) {i : ι} {client : Requester}
    (follows : Follows (request (conn i)) (stages i) client) : Sound conn (s.setClient i client) stages := by
  have same := Function.update_eq_self i stages
  have moved := @Sound.move ι conn s (s.setClient i client) stages _ sound i (stages i) client follows rfl
    (by rw [same]; exact sound.good) (fun _ _ reads => reads) (sound.reads i) (fun _ arrived => arrived) rfl
    (fun stage => .inl stage)
  rw [same] at moved
  exact moved

theorem Sound.free (sound : Sound conn s stages) {i : ι} {op : Call}
    {next : op.Answer → ClientProgram Bool} {answer : op.Answer}
    (shape : s.clients i = ⟨.perform op next, []⟩) (possible : op.Free answer) :
    Sound conn (s.setClient i ⟨next answer, []⟩) stages := by
  refine sound.stay (.whole ?_)
  have keeps := follows_call (by rintro src rfl; exact possible) shape (sound.follows i)
  revert keeps
  generalize stages i = stage
  intro keeps
  cases keeps with
  | makeFIFOs later => exact later answer
  | openMain later => exact later answer
  | lock obtained failed =>
      obtain rfl : answer = false := possible
      exact failed
  | select later => exact later answer
  | receive failed later =>
      obtain rfl : answer = none := possible
      exact failed
  | openIn => exact possible.elim
  | write => exact possible.elim
  | unlock => exact possible.elim
  | close => exact possible.elim
  | openOut => exact possible.elim
  | undefined => exact possible.elim

/-! The steps of a client that change its stage. -/

theorem Sound.openIn (sound : Sound conn s stages) {i : ι} {next : Unit → ClientProgram Bool}
    (shape : s.clients i = ⟨.perform .openIn next, []⟩) :
    Sound conn { s.setClient i ⟨next (), []⟩ with readers := Function.update s.readers i true }
      (Function.update stages i .opened) := by
  have keeps := follows_call (by nofun) shape (sound.follows i)
  generalize here : stages i = stage at keeps
  cases keeps with
  | openIn later =>
      refine sound.move (.whole later) rfl ?_ ?_ ?_ (fun _ arrived => arrived) rfl nofun
      · rw [funnel_same _ here (show Stage.turn .opened = Stage.turn .fresh from rfl)]
        exact sound.good
      · intro other different reads
        exact (Function.update_of_ne different true s.readers).trans reads
      · intro _
        exact Function.update_self i true s.readers

theorem Sound.lock (sound : Sound conn s stages) {i : ι} {next : Bool → ClientProgram Bool}
    (shape : s.clients i = ⟨.perform .lock next, []⟩) (unlocked : s.holder = none) :
    Sound conn { s.setClient i ⟨next true, []⟩ with holder := some i, order := s.order ++ [i] }
      (Function.update stages i (.sending (request (conn i)))) := by
  have keeps := follows_call (by nofun) shape (sound.follows i)
  generalize here : stages i = stage at keeps
  cases keeps with
  | lock obtained failed =>
      refine sound.move (.whole obtained) rfl ?_ (fun _ _ reads => reads) ?_ (fun _ arrived => arrived) rfl nofun
      · rw [funnel_update]
        exact (Funnel.Step.lock (turn_eq s here) unlocked).good sound.good
      · intro _
        exact sound.reads i (.inl here)

theorem Sound.write (sound : Sound conn s stages) {i : ι} {src moved piece left : Bytes}
    {next : Bool → ClientProgram Bool} (shape : s.clients i = ⟨.perform (.write src) next, moved⟩)
    (split : src = moved ++ (piece ++ left)) : ∃ rest, Sound conn
      { s.setClient i ⟨.perform (.write src) next, moved ++ piece⟩ with fifo := s.fifo ++ piece }
      (Function.update stages i (.sending (left ++ rest))) := by
  obtain ⟨all, rest, whole, here, keeps⟩ := follows_write shape (sound.follows i)
  rw [split] at whole
  obtain rfl := List.append_cancel_left whole
  refine ⟨rest, sound.move ?_ rfl ?_ (fun _ _ reads => reads) ?_ (fun _ arrived => arrived) rfl nofun⟩
  · rw [split, ← List.append_assoc]
    exact .writing keeps
  · rw [funnel_update]
    have holds := turn_eq s here
    rw [List.append_assoc] at holds
    exact (Funnel.Step.put holds).good sound.good
  · intro _
    exact sound.reads i (.inr ⟨_, here⟩)

theorem Sound.written (sound : Sound conn s stages) {i : ι} {src : Bytes}
    {next : Bool → ClientProgram Bool} (shape : s.clients i = ⟨.perform (.write src) next, src⟩) :
    Sound conn (s.setClient i ⟨next true, []⟩) stages := by
  obtain ⟨left, rest, whole, here, keeps⟩ := follows_write shape (sound.follows i)
  have none_left : left = [] := by
    have lengths := congrArg List.length whole
    rw [List.length_append] at lengths
    exact List.length_eq_zero_iff.mp (by omega)
  subst none_left
  refine sound.stay (.whole ?_)
  rw [here]
  exact keeps

theorem Sound.unlock (sound : Sound conn s stages) {i : ι} {next : Unit → ClientProgram Bool}
    (shape : s.clients i = ⟨.perform .unlock next, []⟩) :
    Sound conn { s.setClient i ⟨next (), []⟩ with holder := s.release i } (Function.update stages i .sent) := by
  have keeps := follows_call (by nofun) shape (sound.follows i)
  generalize here : stages i = stage at keeps
  cases keeps with
  | unlock later =>
      have held := (sound.holder_iff i).mpr ⟨_, here⟩
      rw [Gate.release, if_pos held]
      refine sound.move (.whole later) rfl ?_ (fun _ _ reads => reads) (by simp) (fun _ arrived => arrived) rfl nofun
      rw [funnel_update]
      exact (Funnel.Step.unlock (turn_eq s here)).good sound.good

theorem Sound.close (sound : Sound conn s stages) {i : ι} {next : Unit → ClientProgram Bool}
    (shape : s.clients i = ⟨.perform .close next, []⟩) :
    Sound conn { s.setClient i ⟨next (), []⟩ with holder := s.release i } stages := by
  have keeps := follows_call (by nofun) shape (sound.follows i)
  generalize here : stages i = stage at keeps
  cases keeps with
  | close later =>
      have unlocked : s.holder ≠ some i := by
        intro held
        obtain ⟨owed, stage⟩ := (sound.holder_iff i).mp held
        rw [here] at stage
        contradiction
      rw [Gate.release, if_neg unlocked]
      refine sound.stay (.whole ?_)
      rw [here]
      exact later

theorem Sound.receive (sound : Sound conn s stages) {i : ι} {payload : Bytes} {rest : List Bytes}
    {next : Option Bytes → ClientProgram Bool} (shape : s.clients i = ⟨.perform .receive next, []⟩)
    (arrived : s.inbox i = payload :: rest) :
    Sound conn { s.setClient i ⟨next (some payload), []⟩ with inbox := Function.update s.inbox i rest }
      (Function.update stages i .answered) := by
  have keeps := follows_call (by nofun) shape (sound.follows i)
  generalize here : stages i = stage at keeps
  have nonempty : s.inbox i ≠ [] := by
    rw [arrived]
    exact List.cons_ne_nil payload rest
  cases keeps with
  | receive failed later =>
      refine sound.move (.whole (later payload)) rfl ?_ (fun _ _ reads => reads) (by simp) ?_ rfl
        (fun _ => .inr nonempty)
      · rw [funnel_same _ here (show Stage.turn .answered = Stage.turn .sent from rfl)]
        exact sound.good
      · intro other arrived
        by_cases same : other = i
        · subst other
          exact nonempty
        · change Function.update s.inbox i rest other ≠ [] at arrived
          rw [Function.update_of_ne same] at arrived
          exact arrived

theorem Sound.openOut (sound : Sound conn s stages) {i : ι} {next : Unit → ClientProgram Bool}
    (shape : s.clients i = ⟨.perform .openOut next, []⟩) :
    Sound conn (s.setClient i ⟨next (), []⟩) stages := by
  have keeps := follows_call (by nofun) shape (sound.follows i)
  generalize here : stages i = stage at keeps
  cases keeps with
  | openOut later =>
      refine sound.stay (.whole ?_)
      rw [here]
      exact later

theorem Sound.leave (sound : Sound conn s stages) {i : ι} (unlocked : s.holder ≠ some i) :
    Sound conn { s.setClient i ⟨.ret false, []⟩ with readers := Function.update s.readers i false }
      (Function.update stages i .gone) := by
  refine sound.move (.whole (.ret fun _ => nofun)) rfl ?_ ?_ (by simp) (fun _ arrived => arrived) rfl nofun
  -- before it obtains the lock it steps out of the funnel, behind its request it has left it already
  · cases here : stages i with
    | sending owed => exact absurd ((sound.holder_iff i).mpr ⟨owed, here⟩) unlocked
    | fresh =>
        rw [funnel_update]
        exact (Funnel.Step.leave (turn_eq s here)).good sound.good
    | opened =>
        rw [funnel_update]
        exact (Funnel.Step.leave (turn_eq s here)).good sound.good
    | sent =>
        rw [funnel_same _ here (show Stage.turn .gone = Stage.turn .sent from rfl)]
        exact sound.good
    | answered =>
        rw [funnel_same _ here (show Stage.turn .gone = Stage.turn .answered from rfl)]
        exact sound.good
    | gone =>
        rw [funnel_same _ here (@rfl _ (Stage.turn .gone))]
        exact sound.good
  · intro other different reads
    exact (Function.update_of_ne different false s.readers).trans reads

/-! A client can send its request. -/

/-- A step in which nobody stops listening. -/
def Onward (conn : ι → Connection) (s after : Gate ι) : Prop :=
  Step conn s after ∧ ∀ i, s.readers i = true → after.readers i = true

theorem onward_run (run : ReflTransGen (Onward conn) s after) : ReflTransGen (Step conn) s after :=
  ReflTransGen.mono (fun _ _ step => step.1) _ _ run

theorem onward_write {i : ι} {src : Bytes} {next : Bool → ClientProgram Bool}
    (shape : s.clients i = ⟨.perform (.write src) next, []⟩) :
    ReflTransGen (Onward conn) s { s.setClient i ⟨next true, []⟩ with fifo := s.fifo ++ src } := by
  have write := @Step.write ι _ conn s i src [] src [] next shape (by simp)
  have written := @Step.written ι _ conn
    { s.setClient i ⟨.perform (.write src) next, src⟩ with fifo := s.fifo ++ src } i src next
    (Function.update_self i _ s.clients)
  have run := (ReflTransGen.single (r := Onward conn) ⟨write, fun _ reads => reads⟩).tail
    ⟨written, fun _ reads => reads⟩
  simp only [Gate.setClient, Function.update_idem] at run
  exact run

/-- Whoever has the lock can write the rest of its request and give the lock back. -/
theorem onward_finish {message owed : Bytes} {i : ι} {program : ClientProgram Bool}
    (keeps : Keeps message (fun _ => Released) (.sending owed) program)
    (shape : s.clients i = ⟨program, []⟩) :
    ∃ client, ReflTransGen (Onward conn) s
      { s.setClient i client with holder := s.release i, fifo := s.fifo ++ owed } := by
  generalize at_stage : Stage.sending owed = stage at keeps
  -- while it sends it can only write or give the lock back
  induction keeps generalizing s owed with
  | ret released => exact absurd at_stage.symm (released owed)
  | @write src rest next later ih =>
      obtain rfl := Stage.sending.inj at_stage
      obtain ⟨client, run⟩ := @ih
        { s.setClient i ⟨next true, []⟩ with fifo := s.fifo ++ src } rest (Function.update_self i _ s.clients) rfl
      have whole := (onward_write shape).trans run
      simp only [Gate.setClient, Gate.release, Function.update_idem, List.append_assoc] at whole
      exact ⟨client, whole⟩
  | @unlock next later _ =>
      obtain rfl := Stage.sending.inj at_stage
      refine ⟨⟨next (), []⟩, .single ⟨?_, fun _ reads => reads⟩⟩
      rw [List.append_nil]
      exact .unlock shape
  | makeFIFOs | openIn | openMain | lock | close | select | receive | openOut | undefined => contradiction

/-- A client that finds the lock free can put its whole request into the main server's FIFO. -/
theorem onward_request {i : ι} (fresh : s.clients i = ⟨connOpen (conn i), []⟩) (unlocked : s.holder = none) :
    ∃ client, ReflTransGen (Onward conn) s { s.setClient i client with
      readers := Function.update s.readers i true
      holder := none
      fifo := s.fifo ++ request (conn i)
      order := s.order ++ [i] } := by
  have sending : Keeps (request (conn i)) (fun _ => Released) .fresh (connOpen (conn i)) := connOpen_keeps _
  rw [connOpen] at fresh sending
  have made := ReflTransGen.single (r := Onward conn)
    ⟨@Step.free ι _ conn s i .makeFIFOs _ true fresh trivial, fun _ reads => reads⟩
  have listens := made.tail ⟨.openIn (Function.update_self i _ s.clients), by
    intro other reads
    by_cases same : other = i
    · subst other
      exact Function.update_self _ _ _
    · exact (Function.update_of_ne same _ _).trans reads⟩
  have opened := listens.tail ⟨@Step.free ι _ conn _ i .openMain _ true (Function.update_self i _ _) trivial,
    fun _ reads => reads⟩
  have locked := opened.tail ⟨.lock (Function.update_self i _ _) unlocked, fun _ reads => reads⟩
  cases sending with
  | makeFIFOs later =>
      cases later true with
      | openIn later =>
          cases later with
          | openMain later =>
              cases later true with
              | lock obtained _ =>
                  have finished := @onward_finish ι conn { s.setClient i ⟨_, []⟩ with
                    readers := Function.update s.readers i true
                    holder := some i
                    order := s.order ++ [i] } _ _ _ i _ obtained (Function.update_self i _ s.clients)
                  obtain ⟨client, finished⟩ := finished
                  simp only [Gate.setClient, Gate.release, Function.update_idem, if_true] at locked finished
                  exact ⟨client, locked.trans finished⟩

end Fifo

end Iac
