import Iac.PipeProtocol
import Iac.PlacementProperties

/-! Many forked servers over the one pair of pipes: what holds in every state that a run
reaches, whatever the order of the steps. -/

namespace Iac

open CText Interaction SharedPipe

variable {backend : Backend}

/-! Runs without failures. -/

def Complete : (op : Local) → op.Answer → Prop
  | .readLength, arrived => arrived.val.length = 8
  | .readData size, arrived => arrived.val.length = size
  | .write _, sent => sent = true
  | .malloc size, block => size < mallocLimit → block.isSome
  | _, _ => True

def Faultless : Label (system backend) → Prop
  | .thread _ choose ok => ok = true ∧ ∀ op, Complete op (choose op)
  | .vanish _ => False
  | _ => True

/-- The pipes belong to the process that has the mutex. -/
structure Synchronised (s : State (system backend)) : Prop where
  quiet : s.owner = none → s.requests = [] ∧ s.replies = []
  boundary : ∀ db, s.server = .waiting db → s.requests = [] ∨ s.requests.map Prod.fst = s.sent
  known : ∀ next, s.server ≠ .running (.perform .unknown next)
  own : ∀ t next byte tag rest, (s.threads t).alive = true →
    (s.threads t).program = .perform .recv next → s.replies = (byte, tag) :: rest →
      tag = ⟨t, (s.threads t).call⟩

def faultlessRules (backend : Backend) : Rules (system backend) where
  answers := Complete
  begins _ _ := True
  strict := false

theorem faultlessRules_orderly : Orderly (faultlessRules backend) where
  length _ complete := complete
  data _ _ _ complete := complete
  memory _ _ complete := complete
  listed strict := absurd strict Bool.false_ne_true

theorem synchronised_of_invariant {rules : Rules (system backend)} {s : State (system backend)}
    (invariant : Invariant rules s) : Synchronised s where
  quiet := invariant.free_quiet
  boundary _ := invariant.boundary
  known := invariant.known
  own _ _ _ _ _ alive shape there := invariant.reply_own alive shape there

theorem faultless_regular {labels : List (Label (system backend))}
    (faultless : ∀ label ∈ labels, Faultless label) {s : State (system backend)}
    (present : ∀ t, (s.threads t).gone = false) :
    Along (Regular (faultlessRules backend)) s labels := by
  induction labels generalizing s with
  | nil => trivial
  | cons label rest ih =>
      simp only [List.forall_mem_cons] at faultless
      obtain ⟨first, later⟩ := faultless
      constructor
      · cases label with
        | thread t choose ok =>
            refine ⟨first.1, first.2, ?_⟩
            intro _ gone
            rw [present t] at gone
            contradiction
        | server => trivial
        | start choice => exact fun _ _ => trivial
        | vanish t => exact first.elim
      · intro after step
        refine ih later ?_
        intro t
        rw [step_gone _ step, present]
        rintro u rfl
        exact first

/-- However the steps of the processes are mixed, everything that is read from the reply
pipe was written for the call that reads it. -/
theorem run_synchronised {db : Database} {labels : List (Label (system backend))}
    {s : State (system backend)} (faultless : ∀ label ∈ labels, Faultless label)
    (run : (initial db : State (system backend)).run labels = some s) : Synchronised s := by
  have body := (forkedServer_keeps (@faultlessRules_orderly backend)).conforms
  have regular := @faultless_regular _ _ faultless (initial db) fun _ => rfl
  exact synchronised_of_invariant (reachable_invariant body regular run)

/-! A client that orders seventy bottles, of which there are sixty. -/

/-- A client sends `data`, and everything succeeds. -/
def sends (data : Bytes) : (op : Local) → op.Answer
  | .readLength => ⟨sizeBytes data.length, by simp⟩
  | .readData size => ⟨(data ++ List.replicate size 0).take size, by simp⟩
  | .readNull => ()
  | .write _ => true
  | .malloc size => some ⟨List.replicate size 0, List.length_replicate⟩
  | .uninitialised size => ⟨List.replicate size 0, List.length_replicate⟩
  | .note _ => ()

def vodkaRequest : Bytes := requestBytes (ascii "Madero 399") [vodka 70]

/-- The forked server receives the order and passes it on; the reply is written. -/
def ordering : List (Label (system .sockets)) :=
  List.replicate 7 (.thread 0 (sends (intBytes cmdPlaceOrder)) true) ++
    List.replicate 4 (.thread 0 (sends vodkaRequest) true) ++
    List.replicate 47 (.thread 0 (sends []) true) ++ [.start calm] ++ List.replicate 94 .server

def answered : List (Label (system .sockets)) := List.replicate 55 (.thread 0 (sends []) true)

theorem sends_complete (data : Bytes) (op : Local) : Complete op (sends data op) := by
  cases op with
  | readLength => exact sizeBytes_length _
  | readData size => simp [Complete, sends]
  | malloc size => exact fun _ => rfl
  | readNull => trivial
  | write data => rfl
  | uninitialised size => trivial
  | note note => trivial

theorem ordering_faultless {label : Label (system .sockets)} (member : label ∈ ordering ++ answered) :
    Faultless label := by
  simp only [ordering, answered, List.append_assoc, List.mem_append, List.mem_replicate,
    List.mem_singleton] at member
  rcases member with ⟨-, rfl⟩ | ⟨-, rfl⟩ | ⟨-, rfl⟩ | rfl | ⟨-, rfl⟩ | ⟨-, rfl⟩
  · exact ⟨rfl, sends_complete _⟩
  · exact ⟨rfl, sends_complete _⟩
  · exact ⟨rfl, sends_complete _⟩
  · trivial
  · trivial
  · exact ⟨rfl, sends_complete _⟩

theorem run_synchronised_vodka :
    ∃ s, (initial init : State (system .sockets)).run (ordering ++ answered) = some s ∧
      Synchronised s := by
  have runs : ((initial init : State (system .sockets)).run (ordering ++ answered)).isSome := by
    decide +kernel
  obtain ⟨s, run⟩ := Option.isSome_iff_exists.mp runs
  exact ⟨s, run, run_synchronised (fun _ member => ordering_faultless member) run⟩

/-! Clients that vanish. -/

/-- What a client sends arrives; a socket may still break in the middle of a payload. -/
def Arrives (backend : Backend) : (op : Local) → op.Answer → Prop
  | .readLength, arrived => arrived.val.length = 8
  | .readData size, arrived => backend = .fifos → arrived.val.length = size
  | .malloc size, block => size < mallocLimit → block.isSome
  | _, _ => True

/-- Clients may vanish at any time, but while a forked server has the mutex it does not
write to a client that has vanished. -/
def Spares (s : State (system backend)) : Label (system backend) → Prop
  | .thread t choose ok => ok = true ∧ (∀ op, Arrives backend op (choose op)) ∧
      (s.owner = some t → (s.threads t).gone = true → ∀ data next,
        (s.threads t).program ≠ .perform (.own (.write data)) next)
  | .start c => ∀ db, s.server = .waiting db → ErrorFree c db
  | _ => True

/-- No terminated process has the mutex, and no byte of a reply is for one. -/
structure Unharmed (s : State (system backend)) : Prop where
  owner : ∀ t, s.owner = some t → (s.threads t).alive = true
  replies : ∀ item ∈ s.replies, (s.threads item.2.thread).alive = true

def vanishingRules (backend : Backend) : Rules (system backend) where
  answers := Arrives backend
  begins := ErrorFree
  strict := true

theorem vanishingRules_orderly : Orderly (vanishingRules backend) where
  length _ arrives := arrives
  data _ _ fifos arrives := arrives fifos
  memory _ _ arrives := arrives
  listed _ _ _ errorFree := errorFree.listed

theorem Spares.regular {s : State (system backend)} {label : Label (system backend)}
    (spares : Spares s label) : Regular (vanishingRules backend) s label := by
  cases label with
  | thread t choose ok =>
      obtain ⟨succeeds, arrives, untouched⟩ := spares
      refine ⟨succeeds, arrives, ?_⟩
      intro owner gone op next shape
      cases op with
      | write data => exact absurd shape (untouched owner gone data next)
      | readLength => rfl
      | readData size => rfl
      | readNull => rfl
      | malloc size => rfl
      | uninitialised size => rfl
      | note note => rfl
  | server => trivial
  | start c => exact spares
  | vanish t => trivial

theorem run_unharmed {db : Database} {labels : List (Label (system backend))}
    {s : State (system backend)} (spares : Along Spares (initial db) labels)
    (run : (initial db : State (system backend)).run labels = some s) : Unharmed s := by
  have body := (forkedServer_keeps (@vanishingRules_orderly backend)).conforms
  have regular := along_weaken (fun _ _ => Spares.regular) spares
  have invariant := reachable_invariant body regular run
  constructor
  · intro t owner
    exact invariant.strict_alive rfl owner
  · intro item member
    obtain ⟨t, -, alive, tag⟩ := invariant.reply_owner member
    rw [tag]
    exact alive

def writesClient : ForkedProgram Bool → Bool
  | .perform (.own (.write _)) _ => true
  | _ => false

def harmless (s : State (system backend)) : Label (system backend) → Bool
  | .thread t _ _ => !(s.owner = some t && (s.threads t).gone && writesClient (s.threads t).program)
  | .start c =>
      match s.server with
      | .waiting db => !c.refuses .count && !c.refuses .products && !db.products.isEmpty &&
          db.products.length < 2 ^ 31
      | _ => true
  | _ => true

theorem spares_of_harmless {s : State (system backend)} {label : Label (system backend)}
    (quiet : Faultless label ∨ ∃ t, label = .vanish t) (tested : harmless s label = true) :
    Spares s label := by
  cases label with
  | thread t choose ok =>
      rcases quiet with ⟨succeeds, complete⟩ | ⟨_, other⟩
      · refine ⟨succeeds, ?_, ?_⟩
        · intro op
          have done := complete op
          cases op with
          | readData size => exact fun _ => done
          | readLength => exact done
          | malloc size => exact done
          | readNull => trivial
          | write data => trivial
          | uninitialised size => trivial
          | note note => trivial
        · intro owner gone data next shape
          simp [harmless, owner, gone, shape, writesClient] at tested
      · contradiction
  | server => trivial
  | start c =>
      intro db waiting
      simp only [harmless, waiting, Bool.and_eq_true, Bool.not_eq_true', decide_eq_true_eq,
        List.isEmpty_eq_false_iff] at tested
      exact ⟨tested.1.1.1, tested.1.1.2, tested.1.2, tested.2⟩
  | vanish t => trivial

/-- The client vanishes when its order has been answered. -/
theorem run_unharmed_vodka :
    ∃ s, (initial init : State (system .sockets)).run (ordering ++ answered ++ [.vanish 0]) =
      some s ∧ Unharmed s := by
  have runs : ((initial init : State (system .sockets)).run
      (ordering ++ answered ++ [.vanish 0])).isSome := by
    decide +kernel
  have checked : (initial init : State (system .sockets)).check harmless
      (ordering ++ answered ++ [.vanish 0]) = true := by
    decide +kernel
  obtain ⟨s, run⟩ := Option.isSome_iff_exists.mp runs
  refine ⟨s, run, run_unharmed (along_of_check ?_ checked) run⟩
  intro s label member tested
  refine spares_of_harmless ?_ tested
  rcases List.mem_append.mp member with earlier | last
  · exact .inl (ordering_faultless earlier)
  · exact .inr ⟨0, List.mem_singleton.mp last⟩

/-- The forked server has read the code of the reply when its client vanishes. -/
def vanishing : List (Label (system .sockets)) :=
  List.replicate 4 (.thread 0 (sends []) true) ++ [.vanish 0, .thread 0 (sends []) true]

/-- The write of the code ends the forked server, with the mutex taken and the rest of the
reply unread. -/
theorem run_vanished_client :
    ∃ s, (initial init : State (system .sockets)).run (ordering ++ vanishing) = some s ∧
      s.owner = some 0 ∧ (s.threads 0).alive = false ∧ s.replies.length = 43 ∧ ¬Unharmed s := by
  have computed : ((initial init : State (system .sockets)).run (ordering ++ vanishing)).any
      (fun s => s.owner = some 0 ∧ (s.threads 0).alive = false ∧ s.replies.length = 43) = true := by
    decide +kernel
  obtain ⟨s, run, facts⟩ := (Option.any_eq_true _ _).mp computed
  simp only [decide_eq_true_eq] at facts
  obtain ⟨owner, dead, left⟩ := facts
  refine ⟨s, run, owner, dead, left, ?_⟩
  intro unharmed
  exact absurd (dead.symm.trans (unharmed.owner 0 owner)) Bool.false_ne_true

end Iac
