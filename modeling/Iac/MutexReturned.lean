import Iac.ConcurrentOrders
import Iac.Library.Release

/-! A forked server that has taken the mutex comes to give it back, in whatever order the
processes go on. -/

namespace Iac

open CText Interaction SharedPipe Inevitable

variable {backend : Backend}

theorem vanishingRules_live (backend : Backend) : Live (vanishingRules backend) where
  body := (forkedServer_keeps vanishingRules_orderly).conforms
  strict := rfl
  answers op := by
    refine ⟨sends [] op, ?_⟩
    have complete := sends_complete [] op
    cases op with
    | readLength => exact complete
    | readData size => exact fun _ => complete
    | malloc size => exact complete
    | readNull => trivial
    | write data => trivial
    | uninitialised size => trivial
    | note note => trivial
  reads _ _ := ⟨_, rfl⟩

/-- As long as its client is there, and products are there to be listed, a forked server that
has the mutex gives it back, unless a step is undefined: the other processes may do anything
in between, and may lose their clients. -/
theorem mutex_given_back {db : Database} {labels : List (Label (system backend))}
    {s : State (system backend)} (spares : Along Spares (initial db) labels)
    (run : (initial db : State (system backend)).run labels = some s) {t : Nat}
    (owner : s.owner = some t) (present : (s.threads t).gone = false)
    (stocked : ∀ after, s.server = .waiting after →
      after.products ≠ [] ∧ after.products.length < 2 ^ 31) :
    Inevitably (Turn (vanishingRules backend) t) (SharedPipe.Released t) s := by
  have regular := along_weaken (fun _ _ => Spares.regular) spares
  have reachable := reachable_of_run .initial regular run
  refine gives_back (vanishingRules_live backend) _ s ⟨reachable, owner, present, ?_⟩ rfl
  intro after waiting
  obtain ⟨some_products, few⟩ := stocked after waiting
  exact .inl ⟨calm, rfl, rfl, some_products, few⟩

def stocks : Server (system .sockets) → Bool
  | .waiting db => !db.products.isEmpty && db.products.length < 2 ^ 31
  | _ => true

/-- The forked server has passed the order on, and its reply is written. -/
theorem mutex_given_back_vodka :
    ∃ s, (initial init : State (system .sockets)).run ordering = some s ∧ s.owner = some 0 ∧
      Inevitably (Turn (vanishingRules .sockets) 0) (SharedPipe.Released 0) s := by
  have computed : ((initial init : State (system .sockets)).run ordering).any
      (fun s => s.owner = some 0 && !(s.threads 0).gone && stocks s.server) = true := by
    decide +kernel
  have checked : (initial init : State (system .sockets)).check harmless ordering = true := by
    decide +kernel
  obtain ⟨s, run, facts⟩ := (Option.any_eq_true _ _).mp computed
  simp only [Bool.and_eq_true, decide_eq_true_eq, Bool.not_eq_true'] at facts
  obtain ⟨⟨owner, present⟩, stocked⟩ := facts
  have spares := along_of_check (fun s label member tested =>
    spares_of_harmless (.inl (ordering_faultless (List.mem_append_left _ member))) tested) checked
  refine ⟨s, run, owner, mutex_given_back spares run owner present ?_⟩
  intro after waiting
  rw [waiting] at stocked
  simpa [stocks] using stocked

end Iac
