import Mathlib.Data.List.Induction
import Mathlib.Data.List.Nodup
import Mathlib.Logic.Function.Basic
import Iac.Library.Effects

/-! Processes that fork, and their descriptors. A process is its program and what it has noted of its
calls; a child begins with the notes of its parent, and any process may end anywhere. -/

namespace Processes

open Interaction

/-- What the calls open and close, and where a program goes on that has come to some point. -/
structure Setting (Op : Type) (Answer : Op → Type) (Point Fd File : Type) where
  resume : Point → Program Op Answer Point
  start : List (Fd × File)
  /-- So many descriptors may be open. -/
  limit : Nat
  gives : (op : Op) → Answer op → Bool
  /-- The files are numbered in the order of the calls. -/
  opens : Nat → (op : Op) → Answer op → List (Fd × File)
  closes : Op → List Fd
  /-- The answer that a new process gets from a call that has this one for the caller. -/
  splits : (op : Op) → Answer op → Option (Answer op)

structure Event {Op : Type} (Answer : Op → Type) (Fd File : Type) where
  op : Op
  answer : Answer op
  opened : List (Fd × File)

variable {Op : Type} {Answer : Op → Type} {Point Fd File : Type} [DecidableEq Fd]

namespace Setting

variable (S : Setting Op Answer Point Fd File)

def acts (table : List (Fd × File)) (event : Event Answer Fd File) : List (Fd × File) :=
  (table.filter fun entry => entry.1 ∉ S.closes event.op) ++ event.opened

/-- The open descriptors. -/
def table (history : List (Event Answer Fd File)) : List (Fd × File) := history.foldl S.acts S.start

/-- Only descriptors that are free are given out. -/
structure Fits (history : List (Event Answer Fd File)) (number : Nat) (op : Op) (answer : Answer op) : Prop where
  gives : S.gives op answer = true
  fresh : ∀ entry ∈ S.opens number op answer, entry.1 ∉ (S.table history).map Prod.fst
  distinct : ((S.opens number op answer).map Prod.fst).Nodup
  limit : S.opens number op answer ≠ [] →
    (S.table history).length + (S.opens number op answer).length ≤ S.limit

instance (history : List (Event Answer Fd File)) (number : Nat) (op : Op) (answer : Answer op) :
    Decidable (S.Fits history number op answer) :=
  decidable_of_iff
    (S.gives op answer = true ∧
      (∀ entry ∈ S.opens number op answer, entry.1 ∉ (S.table history).map Prod.fst) ∧
      ((S.opens number op answer).map Prod.fst).Nodup ∧
      ((S.opens number op answer).isEmpty = false →
        (S.table history).length + (S.opens number op answer).length ≤ S.limit))
    ⟨fun ⟨gives, fresh, distinct, limit⟩ =>
        ⟨gives, fresh, distinct, fun some_files => limit (List.isEmpty_eq_false_iff.mpr some_files)⟩,
      fun fits => ⟨fits.gives, fits.fresh, fits.distinct,
        fun some_files => fits.limit (List.isEmpty_eq_false_iff.mp some_files)⟩⟩

end Setting

/-! One step of one process. -/

structure Process (Op : Type) (Answer : Op → Type) (Point Fd File : Type) where
  program : Program Op Answer Point
  history : List (Event Answer Fd File)

/-- The processes by their numbers, and how many calls there have been. -/
structure World (Op : Type) (Answer : Op → Type) (Point Fd File : Type) where
  processes : Nat → Option (Process Op Answer Point Fd File)
  calls : Nat

inductive Label {Op : Type} (Answer : Op → Type)
  /-- A new process gets the number `child`. -/
  | call (pid : Nat) (choose : (op : Op) → Option (Answer op)) (child : Nat)
  | again (pid : Nat)
  | dies (pid : Nat)

namespace World

def alone (first : Program Op Answer Point) : World Op Answer Point Fd File :=
  ⟨fun pid => if pid = 0 then some ⟨first, []⟩ else none, 0⟩

def put (w : World Op Answer Point Fd File) (pid : Nat) (process : Option (Process Op Answer Point Fd File)) :
    World Op Answer Point Fd File :=
  { w with processes := Function.update w.processes pid process }

def answered (w : World Op Answer Point Fd File) (S : Setting Op Answer Point Fd File) (pid : Nat) {op : Op}
    (next : Answer op → Program Op Answer Point) (history : List (Event Answer Fd File)) (answer : Answer op)
    (child : Nat) : Option (World Op Answer Point Fd File) :=
  let opened := S.opens w.calls op answer
  let parent := { w.put pid (some ⟨next answer, history ++ [⟨op, answer, opened⟩]⟩) with calls := w.calls + 1 }
  match S.splits op answer with
  | none => some parent
  | some second =>
      if (w.processes child).isSome then none
      else some (parent.put child (some ⟨next second, history ++ [⟨op, second, opened⟩]⟩))

def step (w : World Op Answer Point Fd File) (S : Setting Op Answer Point Fd File) :
    Label Answer → Option (World Op Answer Point Fd File)
  | .dies pid => some (w.put pid none)
  | .again pid =>
      match w.processes pid with
      | some ⟨.ret point, history⟩ => some (w.put pid (some ⟨S.resume point, history⟩))
      | _ => none
  | .call pid choose child =>
      match w.processes pid with
      | some ⟨.perform op next, history⟩ =>
          match choose op with
          | none => none
          | some answer =>
              if S.Fits history w.calls op answer then w.answered S pid next history answer child else none
      | _ => none

def run (w : World Op Answer Point Fd File) (S : Setting Op Answer Point Fd File) :
    List (Label Answer) → Option (World Op Answer Point Fd File)
  | [] => some w
  | label :: rest => (w.step S label).bind fun middle => middle.run S rest

/-- Somebody has the file open. -/
def Holds (w : World Op Answer Point Fd File) (S : Setting Op Answer Point Fd File) (file : File) : Prop :=
  ∃ pid process fd, w.processes pid = some process ∧ (fd, file) ∈ S.table process.history

end World

/-! Each process for itself: one run of the program, in which a call that splits has either answer. -/

variable (S : Setting Op Answer Point Fd File)

inductive Setting.Notes (history : List (Event Answer Fd File)) (op : Op) :
    Answer op → List (Event Answer Fd File) → Prop
  | caller {number : Nat} {answer : Answer op} (fits : S.Fits history number op answer) :
      Notes history op answer (history ++ [⟨op, answer, S.opens number op answer⟩])
  | child {number : Nat} {answer second : Answer op} (fits : S.Fits history number op answer)
      (splits : S.splits op answer = some second) :
      Notes history op second (history ++ [⟨op, second, S.opens number op answer⟩])

inductive Setting.Path (first : Program Op Answer Point) :
    Program Op Answer Point → List (Event Answer Fd File) → Prop
  | start : Path first first []
  | call {op : Op} {next : Answer op → Program Op Answer Point} {answer : Answer op}
      {history after : List (Event Answer Fd File)} (path : Path first (.perform op next) history)
      (notes : S.Notes history op answer after) : Path first (next answer) after
  | again {point : Point} {history : List (Event Answer Fd File)} (path : Path first (.ret point) history) :
      Path first (S.resume point) history

variable {S} {first : Program Op Answer Point} {w after : World Op Answer Point Fd File}

/-- All that is true of all processes. -/
def World.All (w : World Op Answer Point Fd File)
    (good : Program Op Answer Point → List (Event Answer Fd File) → Prop) : Prop :=
  ∀ pid process, w.processes pid = some process → good process.program process.history

omit [DecidableEq Fd] in
theorem World.All.put {good : Program Op Answer Point → List (Event Answer Fd File) → Prop} (all : w.All good)
    {process : Option (Process Op Answer Point Fd File)}
    (here : ∀ one, process = some one → good one.program one.history) (pid : Nat) :
    (w.put pid process).All good := by
  intro other one present
  simp only [World.put] at present
  by_cases same : other = pid
  · rw [same, Function.update_self] at present
    exact here one present
  · rw [Function.update_of_ne same] at present
    exact all other one present

theorem World.answered_paths {pid child : Nat} {op : Op} {next : Answer op → Program Op Answer Point}
    {history : List (Event Answer Fd File)} {answer : Answer op} (path : S.Path first (.perform op next) history)
    (fits : S.Fits history w.calls op answer)
    (stepped : w.answered S pid next history answer child = some after) (all : w.All (S.Path first)) :
    after.All (S.Path first) := by
  have parent : ∀ one, some (Process.mk (next answer)
      (history ++ [⟨op, answer, S.opens w.calls op answer⟩])) = some one →
        S.Path first one.program one.history := by
    rintro one ⟨⟩
    exact path.call (.caller fits)
  have noted := all.put parent pid
  simp only [World.answered] at stepped
  split at stepped
  · cases stepped
    exact noted
  · rename_i second splits
    split at stepped
    · contradiction
    · cases stepped
      refine World.All.put noted ?_ child
      rintro one ⟨⟩
      exact path.call (.child fits splits)

theorem World.step_paths {label : Label Answer} (stepped : w.step S label = some after)
    (all : w.All (S.Path first)) : after.All (S.Path first) := by
  cases label with
  | dies pid =>
      cases stepped
      exact all.put (by simp) pid
  | again pid =>
      simp only [World.step] at stepped
      split at stepped
      · rename_i point history runs
        cases stepped
        have path := all pid _ runs
        refine all.put ?_ pid
        rintro one ⟨⟩
        exact .again path
      · contradiction
  | call pid choose child =>
      simp only [World.step] at stepped
      split at stepped
      · rename_i op next history runs
        split at stepped
        · contradiction
        · split at stepped
          · rename_i fits
            exact World.answered_paths (all pid _ runs) fits stepped all
          · contradiction
      · contradiction

/-- A process that is there at the end of a run has come through the program on a path of its own. -/
theorem World.run_paths {labels : List (Label Answer)} (ran : (World.alone first).run S labels = some w) :
    w.All (S.Path first) := by
  have started : (World.alone first : World Op Answer Point Fd File).All (S.Path first) := by
    intro pid process present
    simp only [World.alone] at present
    split at present
    · cases present
      exact .start
    · contradiction
  generalize World.alone first = before at ran started
  induction labels generalizing before with
  | nil =>
      cases ran
      exact started
  | cons label rest ih =>
      obtain ⟨middle, stepped, later⟩ := Option.bind_eq_some_iff.mp ran
      exact ih middle later (World.step_paths stepped started)

/-! What holds all along the paths. -/

section

variable {history : List (Event Answer Fd File)} {program : Program Op Answer Point}

theorem Setting.Path.always {inv : List (Event Answer Fd File) → Prop}
    {points : Point → List (Event Answer Fd File) → Prop}
    (again : ∀ point history, points point history → (S.resume point).always S.Notes inv points history)
    (starts : first.always S.Notes inv points []) (path : S.Path first program history) :
    program.always S.Notes inv points history := by
  induction path with
  | start => exact starts
  | call _ notes ih => exact ih.2 _ _ notes
  | again _ ih => exact again _ _ ih.2

theorem Setting.Notes.shape {op : Op} {answer : Answer op} {after : List (Event Answer Fd File)}
    (notes : S.Notes history op answer after) : ∃ number other, S.Fits history number op other ∧
      after = history ++ [⟨op, answer, S.opens number op other⟩] ∧
        (answer = other ∨ S.splits op other = some answer) := by
  cases notes with
  | caller fits => exact ⟨_, _, fits, rfl, .inl rfl⟩
  | child fits splits => exact ⟨_, _, fits, rfl, .inr splits⟩

/-! Tables. -/

theorem Setting.table_snoc (S : Setting Op Answer Point Fd File) (history : List (Event Answer Fd File))
    (event : Event Answer Fd File) : S.table (history ++ [event]) = S.acts (S.table history) event := by
  rw [Setting.table, List.foldl_concat, Setting.table]

theorem Setting.table_opened {event : Event Answer Fd File} {entry : Fd × File} (opened : entry ∈ event.opened) :
    entry ∈ S.table (history ++ [event]) := by
  rw [S.table_snoc]
  exact List.mem_append_right _ opened

theorem Setting.table_held {event : Event Answer Fd File} {entry : Fd × File} (held : entry ∈ S.table history)
    (kept : entry.1 ∉ S.closes event.op) : entry ∈ S.table (history ++ [event]) := by
  rw [S.table_snoc]
  exact List.mem_append_left _ (List.mem_filter.mpr ⟨held, decide_eq_true kept⟩)

/-- Where nothing is closed, everything is still open. -/
theorem Setting.table_kept (kept : ∀ event ∈ history, S.closes event.op = []) :
    S.table history = S.start ++ history.flatMap Event.opened := by
  induction history using List.reverseRecOn with
  | nil => exact (List.append_nil _).symm
  | append_singleton history event ih =>
      rw [List.forall_mem_append, List.forall_mem_singleton] at kept
      obtain ⟨earlier, last⟩ := kept
      have all : (S.table history).filter (fun entry => entry.1 ∉ S.closes event.op) = S.table history := by
        rw [List.filter_eq_self, last]
        intro entry _
        exact decide_eq_true List.not_mem_nil
      rw [S.table_snoc, Setting.acts, all, ih earlier, List.flatMap_append, List.flatMap_singleton,
        List.append_assoc]

theorem Setting.Path.limited (path : S.Path first program history) (start : S.start.length ≤ S.limit) :
    (S.table history).length ≤ S.limit := by
  induction path with
  | start => exact start
  | @call op next answer history after _ notes ih =>
      obtain ⟨number, other, fits, rfl, _⟩ := notes.shape
      have fewer := List.length_filter_le (fun entry : Fd × File => decide (entry.1 ∉ S.closes op)) (S.table history)
      rw [S.table_snoc, Setting.acts, List.length_append]
      dsimp only
      by_cases nothing : S.opens number op other = []
      · rw [nothing, List.length_nil]
        omega
      · have room := fits.limit nothing
        omega
  | again _ ih => exact ih

end

end Processes
