import Mathlib.Logic.Function.Basic
import Iac.Library.Program
import Iac.Library.Text

/-! Many threads share one server through a pair of byte pipes and take turns by a mutex.
Threads and server are programs; every byte written, read or waited for is a step of its own,
so that all interleavings are covered. Bytes carry the call they belong to, for the record. -/

namespace SharedPipe

open CText Interaction

/-! The two sides. -/

inductive Action (Local : Type)
  | lock
  | unlock
  | send (byte : UInt8)
  | recv
  | own (op : Local)
  | undefined

/-- Writing may fail, and so may reading. -/
abbrev Action.Answer {Local : Type} (answer : Local → Type) : Action Local → Type
  | .lock => Unit
  | .unlock => Unit
  | .send _ => Bool
  | .recv => Option UInt8
  | .own op => answer op
  | .undefined => Empty

abbrev Body (Local : Type) (answer : Local → Type) (α : Type) :=
  Program (Action Local) (Action.Answer answer) α

inductive Serving
  | recv
  | send (byte : UInt8)
  | unknown
  | undefined

abbrev Serving.Answer : Serving → Type
  | .recv => UInt8
  | .send _ => Unit
  | .unknown => Unit
  | .undefined => Empty

/-- A thread repeats its body until that gives `true`. The server handles one request at a
time, and stops when that leaves it no store. -/
structure Setup where
  Local : Type
  Answer : Local → Type
  Choice : Type
  Store : Type
  body : Body Local Answer Bool
  serve : Choice → Store → Program Serving Serving.Answer (Option Store)
  /-- the operation writes to the thread's own peer, which may have vanished -/
  reachesPeer : Local → Bool

variable (setup : Setup)

structure Tag where
  thread : Nat
  call : Nat
  deriving DecidableEq, Repr

inductive Server
  | waiting (store : setup.Store)
  | running (program : Program Serving Serving.Answer (Option setup.Store))
  | stopped

structure Thread where
  program : Body setup.Local setup.Answer Bool
  alive : Bool
  gone : Bool
  call : Nat
  history : List (Sigma (Action.Answer setup.Answer))

structure State where
  owner : Option Nat
  calls : Nat
  /-- what was written since the mutex was last taken -/
  sent : Bytes
  requests : List (UInt8 × Tag)
  replies : List (UInt8 × Tag)
  serving : Tag
  server : Server setup
  threads : Nat → Thread setup

/-- A step of a thread comes with the answer to an operation of its own, or with whether an
operation on the pipes succeeds. -/
inductive Label
  | thread (t : Nat) (choose : (op : setup.Local) → setup.Answer op) (ok : Bool)
  | server
  | start (choice : setup.Choice)
  | vanish (t : Nat)

variable {setup}

/-! Steps. -/

def initial (store : setup.Store) : State setup where
  owner := none
  calls := 0
  sent := []
  requests := []
  replies := []
  serving := ⟨0, 0⟩
  server := .waiting store
  threads _ := { program := setup.body, alive := true, gone := false, call := 0, history := [] }

def State.setThread (s : State setup) (t : Nat) (thread : Thread setup) : State setup :=
  { s with threads := Function.update s.threads t thread }

/-- The thread goes on behind an operation. -/
def Thread.advance (thread : Thread setup) (op : Action setup.Local)
    (answer : Action.Answer setup.Answer op)
    (next : Action.Answer setup.Answer op → Body setup.Local setup.Answer Bool) : Thread setup :=
  { thread with program := next answer, history := thread.history ++ [⟨op, answer⟩] }

def State.stepThread (s : State setup) (t : Nat)
    (choose : (op : setup.Local) → setup.Answer op) (ok : Bool) : Option (State setup) :=
  let thread := s.threads t
  if thread.alive then
    match thread.program with
    | .ret true => some (s.setThread t { thread with alive := false })
    | .ret false => some (s.setThread t { thread with program := setup.body })
    | .perform .lock next =>
        if s.owner = none then
          some { s.setThread t { thread.advance .lock () next with call := s.calls + 1 } with
            owner := some t, calls := s.calls + 1, sent := [] }
        else none
    | .perform .unlock next =>
        some { s.setThread t (thread.advance .unlock () next) with
          owner := if s.owner = some t then none else s.owner }
    | .perform (.send byte) next =>
        if ok then
          some { s.setThread t (thread.advance (.send byte) true next) with
            sent := s.sent ++ [byte], requests := s.requests ++ [(byte, ⟨t, thread.call⟩)] }
        else some (s.setThread t (thread.advance (.send byte) false next))
    | .perform .recv next =>
        if ok then
          match s.replies with
          | [] => none
          | (byte, _) :: rest =>
              some { s.setThread t (thread.advance .recv (some byte) next) with replies := rest }
        else some (s.setThread t (thread.advance .recv none next))
    | .perform (.own op) next =>
        if thread.gone && setup.reachesPeer op then
          some (s.setThread t { thread with alive := false })
        else some (s.setThread t (thread.advance (.own op) (choose op) next))
    | .perform .undefined _ => none
  else none

/-- Behind its last step for a request the server waits again. -/
def settle : Program Serving Serving.Answer (Option setup.Store) → Server setup
  | .ret (some store) => .waiting store
  | .ret none => .stopped
  | program => .running program

def State.stepServer (s : State setup) : Option (State setup) :=
  match s.server with
  | .running (.perform .recv next) =>
      match s.requests with
      | [] => none
      | (byte, _) :: rest => some { s with requests := rest, server := settle (next byte) }
  | .running (.perform (.send byte) next) =>
      some { s with replies := s.replies ++ [(byte, s.serving)], server := settle (next ()) }
  | .running (.perform .unknown next) => some { s with server := settle (next ()) }
  | _ => none

/-- The server wakes up when there is something to read. -/
def State.startServer (s : State setup) (choice : setup.Choice) : Option (State setup) :=
  match s.server, s.requests with
  | .waiting store, (_, tag) :: _ =>
      some { s with server := settle (setup.serve choice store), serving := tag }
  | _, _ => none

def State.step (s : State setup) : Label setup → Option (State setup)
  | .thread t choose ok => s.stepThread t choose ok
  | .server => s.stepServer
  | .start choice => s.startServer choice
  | .vanish t => some (s.setThread t { s.threads t with gone := true })

def State.run (s : State setup) : List (Label setup) → Option (State setup)
  | [] => some s
  | label :: rest => (s.step label).bind fun s => s.run rest

/-- Everything that a step of a thread can be. -/
inductive ThreadStep (s : State setup) (t : Nat) (choose : (op : setup.Local) → setup.Answer op) :
    Bool → State setup → Prop
  | finish {ok : Bool} (shape : (s.threads t).program = .ret true) :
      ThreadStep s t choose ok (s.setThread t { s.threads t with alive := false })
  | again {ok : Bool} (shape : (s.threads t).program = .ret false) :
      ThreadStep s t choose ok (s.setThread t { s.threads t with program := setup.body })
  | lock {ok : Bool} (next : Unit → Body setup.Local setup.Answer Bool)
      (shape : (s.threads t).program = .perform .lock next) (free : s.owner = none) :
      ThreadStep s t choose ok
        { s.setThread t { (s.threads t).advance .lock () next with call := s.calls + 1 } with
          owner := some t, calls := s.calls + 1, sent := [] }
  | unlock {ok : Bool} (next : Unit → Body setup.Local setup.Answer Bool)
      (shape : (s.threads t).program = .perform .unlock next) :
      ThreadStep s t choose ok { s.setThread t ((s.threads t).advance .unlock () next) with
        owner := if s.owner = some t then none else s.owner }
  | send (byte : UInt8) (next : Bool → Body setup.Local setup.Answer Bool)
      (shape : (s.threads t).program = .perform (.send byte) next) :
      ThreadStep s t choose true { s.setThread t ((s.threads t).advance (.send byte) true next) with
        sent := s.sent ++ [byte], requests := s.requests ++ [(byte, ⟨t, (s.threads t).call⟩)] }
  | sendFails (byte : UInt8) (next : Bool → Body setup.Local setup.Answer Bool)
      (shape : (s.threads t).program = .perform (.send byte) next) :
      ThreadStep s t choose false (s.setThread t ((s.threads t).advance (.send byte) false next))
  | recv (byte : UInt8) (tag : Tag) (rest : List (UInt8 × Tag))
      (next : Option UInt8 → Body setup.Local setup.Answer Bool)
      (shape : (s.threads t).program = .perform .recv next) (there : s.replies = (byte, tag) :: rest) :
      ThreadStep s t choose true
        { s.setThread t ((s.threads t).advance .recv (some byte) next) with replies := rest }
  | recvFails (next : Option UInt8 → Body setup.Local setup.Answer Bool)
      (shape : (s.threads t).program = .perform .recv next) :
      ThreadStep s t choose false (s.setThread t ((s.threads t).advance .recv none next))
  | killed {ok : Bool} (op : setup.Local) (next : setup.Answer op → Body setup.Local setup.Answer Bool)
      (shape : (s.threads t).program = .perform (.own op) next) (gone : (s.threads t).gone = true)
      (reaches : setup.reachesPeer op = true) :
      ThreadStep s t choose ok (s.setThread t { s.threads t with alive := false })
  | own {ok : Bool} (op : setup.Local) (next : setup.Answer op → Body setup.Local setup.Answer Bool)
      (shape : (s.threads t).program = .perform (.own op) next) :
      ThreadStep s t choose ok (s.setThread t ((s.threads t).advance (.own op) (choose op) next))

theorem stepThread_cases {s after : State setup} {t : Nat}
    {choose : (op : setup.Local) → setup.Answer op} {ok : Bool}
    (step : s.stepThread t choose ok = some after) :
    (s.threads t).alive = true ∧ ThreadStep s t choose ok after := by
  unfold State.stepThread at step
  by_cases alive : (s.threads t).alive = true
  · refine ⟨alive, ?_⟩
    dsimp only at step
    rw [if_pos alive] at step
    split at step
    · rename_i shape
      simp only [Option.some.injEq] at step
      exact step ▸ .finish shape
    · rename_i shape
      simp only [Option.some.injEq] at step
      exact step ▸ .again shape
    · rename_i next shape
      split at step
      · rename_i free
        simp only [Option.some.injEq] at step
        exact step ▸ .lock next shape free
      · contradiction
    · rename_i next shape
      simp only [Option.some.injEq] at step
      exact step ▸ .unlock next shape
    · rename_i byte next shape
      cases ok with
      | true =>
          simp only [if_true, Option.some.injEq] at step
          exact step ▸ .send byte next shape
      | false =>
          simp only [Bool.false_eq_true, if_false, Option.some.injEq] at step
          exact step ▸ .sendFails byte next shape
    · rename_i next shape
      cases ok with
      | true =>
          simp only [if_true] at step
          split at step
          · contradiction
          · rename_i byte tag rest there
            simp only [Option.some.injEq] at step
            exact step ▸ .recv byte tag rest next shape there
      | false =>
          simp only [Bool.false_eq_true, if_false, Option.some.injEq] at step
          exact step ▸ .recvFails next shape
    · rename_i op next shape
      split at step
      · rename_i both
        rw [Bool.and_eq_true] at both
        simp only [Option.some.injEq] at step
        exact step ▸ .killed op next shape both.1 both.2
      · simp only [Option.some.injEq] at step
        exact step ▸ .own op next shape
    · contradiction
  · simp [alive] at step

/-- Everything that a step of the server can be. -/
inductive ServerStep (s : State setup) : State setup → Prop
  | recv (byte : UInt8) (tag : Tag) (rest : List (UInt8 × Tag))
      (next : UInt8 → Program Serving Serving.Answer (Option setup.Store))
      (shape : s.server = .running (.perform .recv next)) (there : s.requests = (byte, tag) :: rest) :
      ServerStep s { s with requests := rest, server := settle (next byte) }
  | send (byte : UInt8) (next : Unit → Program Serving Serving.Answer (Option setup.Store))
      (shape : s.server = .running (.perform (.send byte) next)) :
      ServerStep s { s with replies := s.replies ++ [(byte, s.serving)], server := settle (next ()) }
  | unknown (next : Unit → Program Serving Serving.Answer (Option setup.Store))
      (shape : s.server = .running (.perform .unknown next)) :
      ServerStep s { s with server := settle (next ()) }

theorem stepServer_cases {s after : State setup} (step : s.stepServer = some after) :
    ServerStep s after := by
  unfold State.stepServer at step
  split at step
  · rename_i next shape
    split at step
    · contradiction
    · rename_i byte tag rest there
      simp only [Option.some.injEq] at step
      exact step ▸ .recv byte tag rest next shape there
  · rename_i byte next shape
    simp only [Option.some.injEq] at step
    exact step ▸ .send byte next shape
  · rename_i next shape
    simp only [Option.some.injEq] at step
    exact step ▸ .unknown next shape
  · contradiction

theorem startServer_cases {s after : State setup} {choice : setup.Choice}
    (step : s.startServer choice = some after) :
    ∃ store byte tag rest, s.server = .waiting store ∧ s.requests = (byte, tag) :: rest ∧
      after = { s with server := settle (setup.serve choice store), serving := tag } := by
  unfold State.startServer at step
  split at step
  · rename_i store byte tag rest waiting there
    simp only [Option.some.injEq] at step
    exact ⟨store, byte, tag, rest, waiting, there, step.symm⟩
  · contradiction

theorem setThread_field {α : Type} (field : Thread setup → α) (s : State setup) (t : Nat)
    (thread : Thread setup) (same : field thread = field (s.threads t)) (u : Nat) :
    field ((s.setThread t thread).threads u) = field (s.threads u) := by
  by_cases equal : u = t
  · subst u
    simpa [State.setThread] using same
  · simp [State.setThread, equal]

theorem step_gone {s after : State setup} {label : Label setup}
    (stays : ∀ t, label ≠ .vanish t) (step : s.step label = some after) (u : Nat) :
    (after.threads u).gone = (s.threads u).gone := by
  cases label with
  | thread t choose ok =>
      obtain ⟨-, taken⟩ := stepThread_cases step
      cases taken <;> refine setThread_field Thread.gone s t _ ?_ u <;> rfl
  | server =>
      cases stepServer_cases step <;> rfl
  | start choice =>
      obtain ⟨_, _, _, _, -, -, rfl⟩ := startServer_cases step
      rfl
  | vanish t => exact absurd rfl (stays t)

/-! Runs whose steps all keep to a rule. -/

def Along (keeps : State setup → Label setup → Prop) : State setup → List (Label setup) → Prop
  | _, [] => True
  | s, label :: rest => keeps s label ∧ ∀ after, s.step label = some after → Along keeps after rest

theorem run_invariant {keeps : State setup → Label setup → Prop} {holds : State setup → Prop}
    (preserved : ∀ s label after, keeps s label → holds s → s.step label = some after → holds after)
    {labels : List (Label setup)} {s after : State setup} (along : Along keeps s labels)
    (start : holds s) (run : s.run labels = some after) : holds after := by
  induction labels generalizing s with
  | nil =>
      simp only [State.run, Option.some.injEq] at run
      subst after
      exact start
  | cons label rest ih =>
      simp only [State.run, Option.bind_eq_some_iff] at run
      obtain ⟨middle, step, run⟩ := run
      exact ih (along.2 middle step) (preserved s label middle along.1 start step) run

/-- A test of every step of a run, with the state before it. -/
def State.check (test : State setup → Label setup → Bool) (s : State setup) :
    List (Label setup) → Bool
  | [] => true
  | label :: rest =>
      test s label &&
        match s.step label with
        | some after => after.check test rest
        | none => true

theorem along_of_check {keeps : State setup → Label setup → Prop}
    {test : State setup → Label setup → Bool} {labels : List (Label setup)}
    (sound : ∀ s, ∀ label ∈ labels, test s label = true → keeps s label) {s : State setup}
    (checked : s.check test labels = true) : Along keeps s labels := by
  induction labels generalizing s with
  | nil => trivial
  | cons label rest ih =>
      simp only [State.check, Bool.and_eq_true] at checked
      refine ⟨sound s label List.mem_cons_self checked.1, ?_⟩
      intro after step
      have later := checked.2
      rw [step] at later
      exact ih (fun s other member => sound s other (List.mem_cons_of_mem _ member)) later

theorem along_weaken {strong weak : State setup → Label setup → Prop}
    (weaker : ∀ s label, strong s label → weak s label) {labels : List (Label setup)}
    {s : State setup} (along : Along strong s labels) : Along weak s labels := by
  induction labels generalizing s with
  | nil => trivial
  | cons label rest ih => exact ⟨weaker s label along.1, fun after step => ih (along.2 after step)⟩

end SharedPipe
