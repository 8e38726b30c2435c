import Mathlib.Data.Finset.Basic
import Iac.FifoConnection
import Iac.Library.Effects

/-! `conn_open` of `common/commWithFIFOs.c` with the files and descriptors that it touches, and
what it leaves behind when it fails. -/

namespace Iac.Leftovers

open CText Interaction
open Fifo (Path Connection Selected basePath processFIFOs)

/-- The entries of the file system, and the descriptors that the process has open. -/
structure World where
  entries : Finset Bytes
  descriptors : Finset Nat
  deriving DecidableEq

def World.link (w : World) (path : Bytes) : World := { w with entries := insert path w.entries }

def World.opened (w : World) (fd : Nat) : World := { w with descriptors := insert fd w.descriptors }

def World.openedIf (w : World) : Option Nat → World
  | none => w
  | some fd => w.opened fd

inductive Op
  | malloc (size : Nat)
  | mkfifo (path : Bytes)
  /-- without `O_CREAT`; setting the flags of a descriptor is left out -/
  | openFile (path : Bytes)
  | lock (fd : Nat)
  | unlock (fd : Nat)
  /-- `ensureWrite` -/
  | write (fd : Nat) (src : Bytes)
  | close (fd : Nat)
  | select (fd : Nat)
  /-- `conn_receive` -/
  | receive (fd : Nat)
  | undefined
  deriving DecidableEq, Repr

abbrev Op.Answer : Op → Type
  | .malloc _ => Bool
  | .mkfifo _ => Bool
  | .openFile _ => Option Nat
  | .lock _ => Bool
  | .unlock _ => Unit
  | .write _ _ => Bool
  | .close _ => Unit
  | .select _ => Selected
  | .receive _ => Option Bytes
  | .undefined => Empty

/-- Anything may fail, for whatever reason; only what is there can be opened, and only what is not
there can be made. -/
def Effect (before : World) : (op : Op) → op.Answer → World → Prop
  | .mkfifo path, (made : Bool), after =>
      if made then path ∉ before.entries ∧ after = before.link path else after = before
  | .openFile _, none, after => after = before
  | .openFile path, some (fd : Nat), after =>
      path ∈ before.entries ∧ fd ∉ before.descriptors ∧ after = before.opened fd
  | .close fd, _, after => after = { before with descriptors := before.descriptors.erase fd }
  | .undefined, _, _ => False
  | _, _, after => after = before

abbrev FileProgram := Program Op Op.Answer

def call (op : Op) : FileProgram op.Answer := .perform op .ret

def undefinedStep {α : Type} : FileProgram α := .perform .undefined fun never => nomatch (never : Empty)

def createProcessFIFOs (pid : Int32) : FileProgram Bool := do
  let baseLength := (basePath pid).length
  if ← call (.malloc (baseLength + 4 + 1)) then
    if ← call (.mkfifo (processFIFOs pid).outFIFOPath.text) then
      if ← call (.malloc (baseLength + 3 + 1)) then
        call (.mkfifo (processFIFOs pid).inFIFOPath.text)
      else return false
    else return false
  else return false

def sendPath (fd : Nat) (path : Path) : FileProgram Bool := do
  if ← call (.write fd (sizeBytes path.len)) then call (.write fd (path.block.take path.len))
  else return false

def sendFIFOPaths (c : Connection) (mainServerFIFO : Bytes) : FileProgram Bool := do
  match ← call (.openFile mainServerFIFO) with
  | none => return false
  | some fd =>
      if ← call (.lock fd) then
        if ← sendPath fd c.outFIFOPath then
          if ← sendPath fd c.inFIFOPath then
            call (.unlock fd)
            call (.close fd)
            return true
          else
            call (.close fd)
            return false
        else
          call (.close fd)
          return false
      else return false

/-- A descriptor that is nothing stands for -1. -/
structure Opened where
  paths : Connection
  inFD : Nat
  outFD : Option Nat

def awaitOk (c : Connection) (inFD : Nat) : FileProgram (Option Opened) := do
  match ← call (.select inFD) with
  | .ready =>
      match ← call (.receive inFD) with
      | none => return none
      | some ack =>
          match field ack 0 4 with
          | none => undefinedStep
          | some code =>
              if bytesInt code = messageOk then
                let outFD ← call (.openFile c.outFIFOPath.text)
                return some ⟨c, inFD, outFD⟩
              else return none
  | _ => return none

/-- `FD_SET` of -1 is undefined. -/
def requestServer (c : Connection) (address : Bytes) (inFD : Option Nat) : FileProgram (Option Opened) := do
  if ← sendFIFOPaths c address then
    match inFD with
    | none => undefinedStep
    | some inFD => awaitOk c inFD
  else return none

/-- The connection is stored to without a check. -/
def connOpen (pid : Int32) (address : Bytes) : FileProgram (Option Opened) := do
  if ← call (.malloc 24) then
    if ← createProcessFIFOs pid then
      let inFD ← call (.openFile (processFIFOs pid).inFIFOPath.text)
      requestServer (processFIFOs pid) address inFD
    else return none
  else undefinedStep

/-! The calls of `Fifo.connOpen` in terms of these operations. -/

structure Held where
  inFD : Option Nat
  fd : Nat
  outFD : Option Nat

def carryOut (pid : Int32) (mainServerFIFO : Bytes) :
    (op : Fifo.Call) → Held → FileProgram (op.Answer × Held)
  | .makeFIFOs, held => do
      if ← call (.malloc 24) then
        let ok ← createProcessFIFOs pid
        return (ok, held)
      else undefinedStep
  | .openIn, held => do
      let inFD ← call (.openFile (processFIFOs pid).inFIFOPath.text)
      return ((), { held with inFD })
  | .openMain, held => do
      match ← call (.openFile mainServerFIFO) with
      | none => return (false, held)
      | some fd => return (true, { held with fd })
  | .lock, held => do
      let ok ← call (.lock held.fd)
      return (ok, held)
  | .write src, held => do
      let ok ← call (.write held.fd src)
      return (ok, held)
  | .unlock, held => do
      call (.unlock held.fd)
      return ((), held)
  | .close, held => do
      call (.close held.fd)
      return ((), held)
  | .select, held => do
      match held.inFD with
      | none => undefinedStep
      | some inFD =>
          let selected ← call (.select inFD)
          return (selected, held)
  | .receive, held => do
      match held.inFD with
      | none => undefinedStep
      | some inFD =>
          let received ← call (.receive inFD)
          return (received, held)
  | .openOut, held => do
      let outFD ← call (.openFile (processFIFOs pid).outFIFOPath.text)
      return ((), { held with outFD })
  | .undefined, _ => undefinedStep

section

variable (pid : Int32) (mainServerFIFO : Bytes)

theorem undefined_handled {α β : Type} (next : Empty → FileProgram α) (other : α → FileProgram β) :
    (Program.perform .undefined next >>= other) = undefinedStep :=
  Program.perform_congr fun never => never.elim

theorem sendPath_handled (path : Path) (held : Held) :
    (Fifo.sendPath path).handle (carryOut pid mainServerFIFO) held =
      sendPath held.fd path >>= fun ok => .ret (ok, held) := by
  refine Program.perform_congr ?_
  intro ok
  cases ok with
  | false => rfl
  | true => rfl

theorem sendFIFOPaths_handled {β : Type} (c : Connection) (held : Held)
    {rest : Bool × Held → FileProgram β} {after : Bool → FileProgram β}
    (same : ∀ ok fd, rest (ok, { held with fd }) = after ok) :
    ((Fifo.sendFIFOPaths c).handle (carryOut pid mainServerFIFO) held >>= rest) =
      sendFIFOPaths c mainServerFIFO >>= after := by
  refine Program.perform_congr ?_
  intro fd
  cases fd with
  | none => exact same false held.fd
  | some fd =>
      refine Program.perform_congr ?_
      intro ok
      cases ok with
      | false => exact same false fd
      | true =>
          change (Fifo.sendPath c.outFIFOPath >>= _).handle (carryOut pid mainServerFIFO) { held with fd } >>= _ =
            (sendPath fd c.outFIFOPath >>= _) >>= _
          rw [handle_bind, sendPath_handled, Program.bind_assoc, Program.bind_assoc, Program.bind_assoc]
          congr 1
          funext ok
          cases ok with
          | false => exact Program.perform_congr fun _ => same false fd
          | true =>
              change (Fifo.sendPath c.inFIFOPath >>= _).handle (carryOut pid mainServerFIFO) { held with fd } >>= _ =
                (sendPath fd c.inFIFOPath >>= _) >>= _
              rw [handle_bind, sendPath_handled, Program.bind_assoc, Program.bind_assoc, Program.bind_assoc]
              congr 1
              funext ok
              cases ok with
              | false => exact Program.perform_congr fun _ => same false fd
              | true => exact Program.perform_congr fun _ => Program.perform_congr fun _ => same true fd

def Held.connection (held : Held) (ok : Bool) : Option Opened :=
  if ok then held.inFD.map fun inFD => ⟨processFIFOs pid, inFD, held.outFD⟩ else none

theorem connOpen_handled (before : Held) :
    connOpen pid mainServerFIFO =
      (Fifo.connOpen (processFIFOs pid)).handle (carryOut pid mainServerFIFO) before >>= fun result =>
        .ret (result.2.connection pid result.1) := by
  refine Program.perform_congr ?_
  intro allocated
  cases allocated with
  | false => exact (undefined_handled _ _).symm
  | true =>
      change createProcessFIFOs pid >>= _ = (((createProcessFIFOs pid >>= _) >>= _) >>= _)
      rw [Program.bind_assoc, Program.bind_assoc]
      congr 1
      funext ok
      cases ok with
      | false => rfl
      | true =>
          refine Program.perform_congr ?_
          intro inFD
          change requestServer _ _ inFD = (Fifo.sendFIFOPaths (processFIFOs pid) >>= _).handle
            (carryOut pid mainServerFIFO) { before with inFD } >>= _
          rw [handle_bind, Program.bind_assoc]
          refine (sendFIFOPaths_handled pid mainServerFIFO _ _ ?_).symm
          intro ok fd
          cases ok with
          | false => rfl
          | true =>
              cases inFD with
              | none => exact undefined_handled _ _
              | some inFD =>
                  refine Program.perform_congr ?_
                  intro selected
                  cases selected with
                  | error => rfl
                  | timeout => rfl
                  | ready =>
                      refine Program.perform_congr ?_
                      intro received
                      cases received with
                      | none => rfl
                      | some ack =>
                          dsimp only [Program.pure_eq, Program.bind]
                          cases field ack 0 4 with
                          | none => exact undefined_handled _ _
                          | some code =>
                              dsimp only
                              by_cases ok : bytesInt code = messageOk
                              · simp only [if_pos ok]
                                rfl
                              · simp only [if_neg ok]
                                rfl
end

/-! What any program makes. -/

section

variable {before middle after : World} {path : Bytes}

def made (path : Bytes) : Sigma Op.Answer := ⟨.mkfifo path, true⟩

theorem effect_entries {op : Op} {answer : op.Answer} (acts : Effect before op answer after) :
    path ∈ after.entries ↔ path ∈ before.entries ∨ made path = ⟨op, answer⟩ := by
  cases op with
  | mkfifo other =>
      cases answer with
      | true =>
          obtain ⟨_, rfl⟩ := acts
          simp only [World.link, Finset.mem_insert, made, Sigma.mk.injEq, Op.mkfifo.injEq, heq_eq_eq, and_true]
          exact or_comm
      | false =>
          cases acts
          simp [made]
  | openFile other =>
      cases answer with
      | none =>
          cases acts
          simp [made]
      | some fd =>
          obtain ⟨_, _, rfl⟩ := acts
          simp [made, World.opened]
  | close fd =>
      cases acts
      simp [made]
  | undefined => exact acts.elim
  | malloc size => cases acts; simp [made]
  | lock fd => cases acts; simp [made]
  | unlock fd => cases acts; simp [made]
  | write fd src => cases acts; simp [made]
  | select fd => cases acts; simp [made]
  | receive fd => cases acts; simp [made]

theorem effect_made {op : Op} {answer : op.Answer} (acts : Effect before op answer after)
    (new : made path = ⟨op, answer⟩) : path ∉ before.entries := by
  cases new
  exact acts.1

section

variable {α : Type} {program : FileProgram α} {trace : List (Sigma Op.Answer)} {value : α}

theorem executes_entries (run : Executes Effect before program trace after value) :
    path ∈ after.entries ↔ path ∈ before.entries ∨ made path ∈ trace := by
  induction run with
  | ret value => simp only [List.not_mem_nil, or_false]
  | perform answer acts _ ih => rw [ih, effect_entries acts, List.mem_cons, or_assoc]

theorem executes_made (run : Executes Effect before program trace after value)
    (new : made path ∈ trace) : path ∉ before.entries := by
  induction run with
  | ret value => exact absurd new List.not_mem_nil
  | perform answer acts _ ih =>
      rcases List.mem_cons.mp new with here | later
      · exact effect_made acts here
      · intro already
        exact ih later ((effect_entries acts).mpr (.inl already))

end

/-! One operation. -/

variable {α : Type} {post : α → World → Prop}

theorem wp_mkfifo {next : Bool → FileProgram α} :
    (Program.perform (.mkfifo path) next : FileProgram α).wp Effect post before ↔
      (path ∉ before.entries → (next true).wp Effect post (before.link path)) ∧
        (next false).wp Effect post before := by
  constructor
  · intro holds
    exact ⟨fun new => holds true _ ⟨new, rfl⟩, holds false _ rfl⟩
  · rintro ⟨makes, fails⟩ answer middle acts
    cases answer with
    | true =>
        obtain ⟨new, rfl⟩ := acts
        exact makes new
    | false =>
        cases acts
        exact fails

theorem wp_openFile {next : Option Nat → FileProgram α} :
    (Program.perform (.openFile path) next : FileProgram α).wp Effect post before ↔
      (∀ fd, path ∈ before.entries → fd ∉ before.descriptors →
        (next (some fd)).wp Effect post (before.opened fd)) ∧ (next none).wp Effect post before := by
  constructor
  · intro holds
    exact ⟨fun fd there fresh => holds (some fd) _ ⟨there, fresh, rfl⟩, holds none _ rfl⟩
  · rintro ⟨opens, fails⟩ answer middle acts
    cases answer with
    | some fd =>
        obtain ⟨there, fresh, rfl⟩ := acts
        exact opens fd there fresh
    | none =>
        cases acts
        exact fails

end

/-! What a failed call leaves behind. -/

section

variable {before : World}

/-- Nothing, the first FIFO, or both with the descriptors of the in-FIFO and of the main
server's, as far as they are open. -/
inductive Left (pid : Int32) (before : World) : World → Prop
  | nothing : Left pid before before
  | outFIFO (new : (processFIFOs pid).outFIFOPath.text ∉ before.entries) :
      Left pid before (before.link (processFIFOs pid).outFIFOPath.text)
  | both (new : (processFIFOs pid).outFIFOPath.text ∉ before.entries) (inFD fd : Option Nat)
      (freshIn : ∀ number ∈ inFD, number ∉ before.descriptors)
      (fresh : ∀ number ∈ fd, number ∉ before.descriptors) :
      Left pid before ((((before.link (processFIFOs pid).outFIFOPath.text).link
        (processFIFOs pid).inFIFOPath.text).openedIf inFD).openedIf fd)

theorem createProcessFIFOs_spec (pid : Int32) (before : World) :
    (createProcessFIFOs pid).wp Effect (fun ok after =>
      if ok then (processFIFOs pid).outFIFOPath.text ∉ before.entries ∧
        after = (before.link (processFIFOs pid).outFIFOPath.text).link (processFIFOs pid).inFIFOPath.text
      else after = before ∨ (processFIFOs pid).outFIFOPath.text ∉ before.entries ∧
        after = before.link (processFIFOs pid).outFIFOPath.text) before := by
  rintro granted _ rfl
  cases granted with
  | false => exact .inl rfl
  | true =>
      refine wp_mkfifo.mpr ⟨?_, .inl rfl⟩
      rintro new granted _ rfl
      cases granted with
      | false => exact .inr ⟨new, rfl⟩
      | true =>
          refine wp_mkfifo.mpr ⟨?_, .inr ⟨new, rfl⟩⟩
          intro _
          exact ⟨new, rfl⟩

theorem sendPath_spec (fd : Nat) (path : Path) (before : World) :
    (sendPath fd path).wp Effect (fun _ after => after = before) before := by
  rintro ok _ rfl
  cases ok with
  | false => rfl
  | true =>
      rintro ok _ rfl
      rfl

theorem opened_closed {fd : Nat} (fresh : fd ∉ before.descriptors) :
    { before.opened fd with descriptors := (before.opened fd).descriptors.erase fd } = before := by
  simp only [World.opened, Finset.erase_insert fresh]

theorem sendFIFOPaths_spec (c : Connection) (mainServerFIFO : Bytes) (before : World) :
    (sendFIFOPaths c mainServerFIFO).wp Effect (fun ok after =>
      after = before ∨ ok = false ∧ ∃ fd, fd ∉ before.descriptors ∧ after = before.opened fd) before := by
  refine wp_openFile.mpr ⟨?_, .inl rfl⟩
  intro fd _ fresh
  have closed := opened_closed fresh
  rintro obtained _ rfl
  cases obtained with
  | false => exact .inr ⟨rfl, fd, fresh, rfl⟩
  | true =>
      change (sendPath fd c.outFIFOPath >>= _).wp Effect _ _
      refine wp_seq (sendPath_spec fd c.outFIFOPath _) ?_
      rintro ok _ rfl
      cases ok with
      | false =>
          rintro _ _ rfl
          exact .inl closed
      | true =>
          change (sendPath fd c.inFIFOPath >>= _).wp Effect _ _
          refine wp_seq (sendPath_spec fd c.inFIFOPath _) ?_
          rintro ok _ rfl
          cases ok with
          | false =>
              rintro _ _ rfl
              exact .inl closed
          | true =>
              rintro _ _ rfl _ _ rfl
              exact .inl closed

theorem awaitOk_spec (c : Connection) (inFD : Nat) (before : World) :
    (awaitOk c inFD).wp Effect (fun value after => value = none → after = before) before := by
  rintro selected _ rfl
  cases selected with
  | error => exact fun _ => rfl
  | timeout => exact fun _ => rfl
  | ready =>
      rintro received _ rfl
      cases received with
      | none => exact fun _ => rfl
      | some ack =>
          dsimp only [Program.bind]
          split
          · exact fun never => never.elim
          · split
            · refine wp_openFile.mpr ⟨?_, ?_⟩
              · intro _ _ _ connected
                contradiction
              · intro connected
                contradiction
            · exact fun _ => rfl

theorem requestServer_spec (c : Connection) (address : Bytes) (inFD : Option Nat) (before : World) :
    (requestServer c address inFD).wp Effect (fun value after => value = none →
      ∃ fd : Option Nat, (∀ number ∈ fd, number ∉ before.descriptors) ∧ after = before.openedIf fd) before := by
  refine wp_seq (sendFIFOPaths_spec c address before) ?_
  intro ok after sent
  cases ok with
  | false =>
      rintro -
      rcases sent with rfl | ⟨_, fd, fresh, rfl⟩
      · exact ⟨none, fun _ never => (Option.not_mem_none _ never).elim, rfl⟩
      · refine ⟨some fd, ?_, rfl⟩
        intro number same
        cases same
        exact fresh
  | true =>
      rcases sent with rfl | ⟨never, _⟩
      · cases inFD with
        | none => exact fun never => never.elim
        | some inFD =>
            refine wp_mono (awaitOk_spec c inFD _) ?_
            intro value after same failed
            exact ⟨none, fun _ never => (Option.not_mem_none _ never).elim, same failed⟩
      · contradiction

theorem connOpen_spec (pid : Int32) (address : Bytes) (before : World) :
    (connOpen pid address).wp Effect (fun value after => value = none → Left pid before after) before := by
  rintro allocated _ rfl
  cases allocated with
  | false => exact fun never => never.elim
  | true =>
      change (createProcessFIFOs pid >>= _).wp Effect _ _
      refine wp_seq (createProcessFIFOs_spec pid _) ?_
      rintro ok after created
      cases ok with
      | false =>
          rintro -
          rcases created with rfl | ⟨new, rfl⟩
          · exact .nothing
          · exact .outFIFO new
      | true =>
          obtain ⟨new, rfl⟩ := created
          refine wp_openFile.mpr ⟨?_, ?_⟩
          · intro inFD _ freshIn
            refine wp_mono (requestServer_spec _ address (some inFD) _) ?_
            intro value after left failed
            obtain ⟨fd, fresh, rfl⟩ := left failed
            refine .both new (some inFD) fd ?_ ?_
            · intro number same
              cases same
              exact freshIn
            · intro number same already
              exact fresh number same (Finset.mem_insert_of_mem already)
          · refine wp_mono (requestServer_spec _ address none _) ?_
            intro value after left failed
            obtain ⟨fd, fresh, rfl⟩ := left failed
            exact .both new none fd (fun _ never => (Option.not_mem_none _ never).elim) fresh

theorem connOpen_blocked {pid : Int32} (address : Bytes)
    (there : (processFIFOs pid).outFIFOPath.text ∈ before.entries) :
    (connOpen pid address).wp Effect (fun value after => value = none ∧ after = before) before := by
  rintro allocated _ rfl
  cases allocated with
  | false => exact fun never => never.elim
  | true =>
      rintro granted _ rfl
      cases granted with
      | false => exact ⟨rfl, rfl⟩
      | true =>
          refine wp_mkfifo.mpr ⟨?_, rfl, rfl⟩
          intro new
          exact absurd there new

theorem left_iff {pid : Int32} {after : World} (left : Left pid before after) : after = before ↔
    ((processFIFOs pid).outFIFOPath.text ∈ after.entries →
      (processFIFOs pid).outFIFOPath.text ∈ before.entries) := by
  have entries : ∀ (w : World) (fd : Option Nat), (w.openedIf fd).entries = w.entries := by
    intro w fd
    cases fd with
    | none => rfl
    | some fd => rfl
  constructor
  · rintro rfl
    exact id
  · intro old
    cases left with
    | nothing => rfl
    | outFIFO new => exact absurd (old (Finset.mem_insert_self _ _)) new
    | both new inFD fd _ _ =>
        refine absurd (old ?_) new
        rw [entries, entries]
        exact Finset.mem_insert_of_mem (Finset.mem_insert_self _ _)

end

/-- A failed call leaves everything as it was just where the first FIFO has not been made; and it
does so in each of its runs just where there was such a file before. -/
theorem failed_connOpen_iff (pid : Int32) (address : Bytes) (before : World) :
    (∀ trace after, Executes Effect before (connOpen pid address) trace after none →
      (after = before ↔ made (processFIFOs pid).outFIFOPath.text ∉ trace)) ∧
    ((∀ trace after, Executes Effect before (connOpen pid address) trace after none → after = before) ↔
      (processFIFOs pid).outFIFOPath.text ∈ before.entries) := by
  have spec := wp_iff.mp (connOpen_spec pid address before)
  refine ⟨?_, ?_, ?_⟩
  · intro trace after run
    rw [left_iff (spec _ _ _ run rfl), executes_entries run]
    constructor
    · intro old new
      exact executes_made run new (old (.inr new))
    · rintro unmade (old | new)
      · exact old
      · exact absurd new unmade
  · intro restores
    by_contra new
    have run : Executes Effect before (connOpen pid address) _
        (before.link (processFIFOs pid).outFIFOPath.text) none :=
      .perform true rfl (.perform true rfl (.perform true ⟨new, rfl⟩ (.perform false rfl (.ret none))))
    have same := congrArg World.entries (restores _ _ run)
    exact new (same ▸ Finset.mem_insert_self _ _)
  · intro there trace after run
    exact (wp_iff.mp (connOpen_blocked address there) trace after none run).2

/-- The main server's FIFO, and nobody who reads from it. -/
def unattended : World := ⟨{ascii "/tmp/mainServerFIFO"}, {0, 1, 2}⟩

theorem unattended_leftovers : ∃ trace after,
    Executes Effect unattended (connOpen 4242 (ascii "/tmp/mainServerFIFO")) trace after none ∧
      after ≠ unattended ∧
      ∀ later last value, Executes Effect after (connOpen 4242 (ascii "/tmp/mainServerFIFO")) later last value →
        value = none := by
  let out := (processFIFOs 4242).outFIFOPath.text
  let inFIFO := (processFIFOs 4242).inFIFOPath.text
  let after := ((unattended.link out).link inFIFO).opened 3
  have newOut : out ∉ unattended.entries := by decide
  have newIn : inFIFO ∉ (unattended.link out).entries := by decide
  have there : inFIFO ∈ ((unattended.link out).link inFIFO).entries := Finset.mem_insert_self _ _
  have run : Executes Effect unattended (connOpen 4242 (ascii "/tmp/mainServerFIFO")) _ after none :=
    .perform true rfl (.perform true rfl (.perform true ⟨newOut, rfl⟩ (.perform true rfl
      (.perform true ⟨newIn, rfl⟩ (.perform (some 3) ⟨there, by decide, rfl⟩
        (.perform none rfl (.ret none)))))))
  have kept : out ∈ after.entries := Finset.mem_insert_of_mem (Finset.mem_insert_self _ _)
  refine ⟨_, after, run, ?_, ?_⟩
  · intro same
    exact newOut (same ▸ kept)
  · intro later last value again
    exact (wp_iff.mp (connOpen_blocked _ kept) later last value again).1

end Iac.Leftovers
