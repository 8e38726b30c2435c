import Iac.RequestReading

/-! The requests are read one by one, in the order of the lock. -/

namespace Iac

namespace Fifo

open CText Interaction Relation

variable {ι : Type} {conn : ι → Connection} {s after : Gate ι}

theorem request_ne_nil (c : Connection) : request c ≠ [] := by
  intro empty
  exact frame_ne_nil _ (List.append_eq_nil_iff.mp empty).1

theorem order_read {order : List ι} {count : Nat}
    (all : (order.take count).flatMap (fun i => request (conn i)) = order.flatMap fun i => request (conn i)) :
    order.take count = order := by
  have whole := congrArg (List.flatMap fun i => request (conn i)) (List.take_append_drop count order)
  rw [List.flatMap_append, ← all] at whole
  have nothing := List.append_right_eq_self.mp whole
  have done : order.drop count = [] := by
    cases rest : order.drop count with
    | nil => rfl
    | cons i others =>
        rw [rest, List.flatMap_cons] at nothing
        exact absurd (List.append_eq_nil_iff.mp nothing).1 (request_ne_nil (conn i))
  have together := List.take_append_drop count order
  rw [done, List.append_nil] at together
  exact together

variable [DecidableEq ι]

def Kept (conn : ι → Connection) (s : Gate ι) : Prop :=
  ∃ stages phase done, Sound conn s stages ∧ Serves s phase done

theorem Step.kept (step : Step conn s after) (kept : Kept conn s) : Kept conn after := by
  obtain ⟨stages, phase, done, sound, serves⟩ := kept
  cases step with
  | free answer shape possible =>
      exact ⟨stages, phase, done, sound.free shape possible, serves.client rfl rfl rfl rfl rfl⟩
  | openIn shape => exact ⟨_, phase, done, sound.openIn shape, serves.client rfl rfl rfl rfl rfl⟩
  | lock shape unlocked =>
      exact ⟨_, phase, done, sound.lock shape unlocked, serves.client rfl rfl rfl rfl rfl⟩
  | write shape split =>
      obtain ⟨rest, sound⟩ := sound.write shape split
      exact ⟨_, phase, done, sound, serves.client rfl rfl rfl rfl rfl⟩
  | written shape => exact ⟨stages, phase, done, sound.written shape, serves.client rfl rfl rfl rfl rfl⟩
  | unlock shape => exact ⟨_, phase, done, sound.unlock shape, serves.client rfl rfl rfl rfl rfl⟩
  | close shape => exact ⟨stages, phase, done, sound.close shape, serves.client rfl rfl rfl rfl rfl⟩
  | receive shape arrived =>
      exact ⟨_, phase, done, sound.receive shape arrived, serves.client rfl rfl rfl rfl rfl⟩
  | openOut shape reader =>
      exact ⟨stages, phase, done, sound.openOut shape, serves.client rfl rfl rfl rfl rfl⟩
  | leave unlocked => exact ⟨_, phase, done, sound.leave unlocked, serves.client rfl rfl rfl rfl rfl⟩
  | acceptFree answer shape possible =>
      exact ⟨stages, phase, done, ⟨sound.follows, sound.good, sound.reads, sound.answered⟩,
        serves.free shape possible⟩
  | @read size next got piece rest shape there most =>
      refine ⟨stages, phase, done, ⟨sound.follows, ?_, sound.reads, sound.answered⟩,
        serves.read shape piece rest⟩
      have taken := (@Funnel.Step.take ι UInt8 _ _ (s.funnel stages) piece rest there).good sound.good
      dsimp only [Gate.funnel] at taken ⊢
      rw [← List.append_assoc]
      exact taken
  | arrived shape whole =>
      obtain ⟨done, serves⟩ := serves.arrived shape whole
      exact ⟨stages, phase, done, ⟨sound.follows, sound.good, sound.reads, sound.answered⟩, serves⟩
  | acceptOpenIn shape =>
      obtain ⟨phase, serves⟩ := serves.openIn shape
      refine ⟨stages, phase, done, ⟨sound.follows, sound.good, sound.reads, ?_⟩, serves⟩
      intro distinct i reached
      exact List.mem_append_left _ (sound.answered distinct i reached)
  | acceptOpenOut shape same reader =>
      obtain ⟨c, -, -, serves⟩ := serves.openOut shape
      exact ⟨stages, _, done, ⟨sound.follows, sound.good, sound.reads, sound.answered⟩, serves⟩
  | sendOk shape =>
      obtain ⟨c, -, -, sent⟩ := serves.sendOk shape _
      exact ⟨stages, _, done, sound.sendOk serves shape, sent⟩
  | @accepted c shape =>
      refine ⟨stages, _, _, ⟨sound.follows, ?_, sound.reads, sound.answered⟩, serves.accepted shape⟩
      have good := sound.good
      have taken : (s.calls ++ [(c, s.current)]).flatMap Prod.snd ++ [] =
          s.calls.flatMap Prod.snd ++ s.current := by
        rw [List.flatMap_append, List.append_nil, List.flatMap_singleton]
      dsimp only [Gate.funnel] at good ⊢
      rw [taken]
      exact good

theorem run_kept (run : ReflTransGen (Step conn) (.start conn) s) : Kept conn s := by
  induction run with
  | refl => exact ⟨_, .hearing, [], start_sound conn, start_serves conn⟩
  | tail _ step ih => exact step.kept ih

/-- The calls of `conn_accept` get the requests, one each and in the order of the lock; what they
have not read yet is on the way, and then they get it all. -/
theorem requests_in_order (run : ReflTransGen (Step conn) (.start conn) s) :
    s.calls = (s.order.take s.calls.length).map (fun i => (accepted (conn i), request (conn i))) ∧
      s.order.Nodup ∧
      (∃ owed, s.calls.flatMap Prod.snd ++ (s.current ++ (s.fifo ++ owed)) =
        s.order.flatMap (fun i => request (conn i)) ∧ (s.holder = none → owed = [])) ∧
      (s.holder = none → s.fifo = [] → s.current = [] →
        s.calls = s.order.map fun i => (accepted (conn i), request (conn i))) := by
  obtain ⟨stages, phase, done, sound, serves⟩ := run_kept run
  have read := (sound.requests_read serves).1
  have conserved := sound.good.conserved
  dsimp only [Gate.funnel] at conserved
  rw [List.append_assoc] at conserved
  refine ⟨read, sound.good.once, ⟨_, conserved, ?_⟩, ?_⟩
  · intro unlocked
    rw [unlocked]
    rfl
  · intro unlocked sent idle
    rw [unlocked, sent, idle, Funnel.owedBy, List.append_nil, List.append_nil, List.append_nil, read,
      List.flatMap_map] at conserved
    rw [read, order_read conserved]

/-- Two processes ask, and the first of them is accepted. -/
theorem first_request_accepted : ∃ s, ReflTransGen (Step processFIFOs) (.start processFIFOs) s ∧
    s.order = [77, 412] ∧ s.calls = [(accepted (processFIFOs 77), request (processFIFOs 77))] := by
  obtain ⟨client, first⟩ := @onward_request Int32 processFIFOs (.start processFIFOs) _ 77 rfl rfl
  have different : (412 : Int32) ≠ 77 := by decide
  have second := @onward_request Int32 processFIFOs { (Gate.start processFIFOs).setClient 77 client with
    readers := Function.update (fun _ => false) 77 true
    fifo := request (processFIFOs 77)
    order := [77] } _ 412 (Function.update_of_ne different client (Gate.start processFIFOs).clients) rfl
  obtain ⟨other, second⟩ := second
  have read := (first.trans second).trans (onward_request_read rfl rfl)
  have run := onward_run (read.trans (onward_accepted rfl rfl))
  have calls := (requests_in_order run).1
  exact ⟨_, run, rfl, calls⟩

end Fifo

end Iac
