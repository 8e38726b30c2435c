import Iac.Submission
import Iac.Transport

/-! The end of a connection: the two versions of `conn_close`, beside `common/comm.h`, which
describes one for both. -/

namespace Iac

open CText Interaction SharedPipe

/-- Shutting down or closing descriptors and removing files moves no bytes. -/
def connClose (backend : Backend) : ForkedProgram Bool :=
  match backend with
  | .sockets => sendInt (intBytes messageClose)
  | .fifos => .ret true

def sendAndClose (backend : Backend) (payloads : List Bytes) : ForkedProgram (List Bool × Bool) := do
  let sent ← sendPayloads payloads
  let closed ← connClose backend
  return (sent, closed)

/-! The messages at the other end. -/

/-- As many calls of `conn_receive` as there are messages take exactly them off the
connection. -/
def DeliversMessages (backend : Backend) (payloads messages : List Bytes) : Prop :=
  ∃ bytes results targets,
    Runs moves (sendAndClose backend payloads) { toPeer := bytes } results ∧
      Runs moves (receivePayloads backend targets) { fromPeer := bytes } (messages.map delivered)

/-- What `comm.h` says, whichever version is linked. -/
def ClosesAsDocumented (payloads : List Bytes) : Prop :=
  ∀ backend messages, DeliversMessages backend payloads messages ↔
    messages = payloads ++ [intBytes messageClose]

theorem runs_sendPayloads {payloads : List Bytes} {moved : Traffic} {results : List Bool} :
    Runs moves (sendPayloads payloads) moved results ↔
      (∀ payload ∈ payloads, payload.length < 2 ^ 31) ∧
        moved = { toPeer := payloads.flatMap sending } ∧ results = payloads.map fun _ => true := by
  induction payloads generalizing moved results with
  | nil =>
      rw [sendPayloads, runs_ret]
      constructor
      · rintro ⟨rfl, rfl⟩
        exact ⟨fun _ member => absurd member List.not_mem_nil, rfl, rfl⟩
      · rintro ⟨_, rfl, rfl⟩
        exact ⟨rfl, rfl⟩
  | cons payload rest ih =>
      rw [sendPayloads, runs_bind]
      constructor
      · rintro ⟨first, ok, behind, here, later, rfl⟩
        obtain ⟨short, rfl, rfl⟩ := runs_connSend_any.mp here
        obtain ⟨_, others, _, left, right, rfl⟩ := runs_bind.mp later
        obtain ⟨rfl, rfl⟩ := runs_ret.mp right
        obtain ⟨small, rfl, rfl⟩ := ih.mp left
        refine ⟨List.forall_mem_cons.mpr ⟨short, small⟩, ?_, rfl⟩
        rw [mul_one]
        rfl
      · rintro ⟨small, rfl, rfl⟩
        obtain ⟨short, others⟩ := List.forall_mem_cons.mp small
        exact ⟨_, true, _, runs_connSend_any.mpr ⟨short, rfl, rfl⟩,
          runs_bind.mpr ⟨_, _, 1, ih.mpr ⟨others, rfl, rfl⟩, .ret _, (mul_one _).symm⟩, rfl⟩

theorem runs_receivePayloads {backend : Backend} {targets : List Target} {moved : Traffic}
    {received : List Received} :
    Runs moves (receivePayloads backend targets) moved received ↔
      ∃ messages : List Bytes, messages.length = targets.length ∧
        (∀ message ∈ messages, message.length < 2 ^ 31) ∧
          moved = { fromPeer := messages.flatMap frame } ∧ received = messages.map delivered := by
  induction targets generalizing moved received with
  | nil =>
      rw [receivePayloads, runs_ret]
      constructor
      · rintro ⟨rfl, rfl⟩
        exact ⟨[], rfl, fun _ member => absurd member List.not_mem_nil, rfl, rfl⟩
      · rintro ⟨messages, none_left, _, rfl, rfl⟩
        rw [List.length_eq_zero_iff.mp none_left]
        exact ⟨rfl, rfl⟩
  | cons target rest ih =>
      rw [receivePayloads, runs_bind]
      constructor
      · rintro ⟨first, one, behind, here, later, rfl⟩
        obtain ⟨message, short, rfl, rfl⟩ := (runs_connReceive target.length.property).mp here
        obtain ⟨_, others, _, left, right, rfl⟩ := runs_bind.mp later
        obtain ⟨rfl, rfl⟩ := runs_ret.mp right
        obtain ⟨messages, same, small, rfl, rfl⟩ := ih.mp left
        refine ⟨message :: messages, congrArg Nat.succ same, List.forall_mem_cons.mpr ⟨short, small⟩, ?_, rfl⟩
        rw [mul_one]
        rfl
      · rintro ⟨messages, same, small, rfl, rfl⟩
        obtain ⟨message, others, rfl⟩ := List.exists_cons_of_length_eq_add_one same
        obtain ⟨short, behind⟩ := List.forall_mem_cons.mp small
        exact ⟨_, _, _, (runs_connReceive target.length.property).mpr ⟨message, short, rfl, rfl⟩,
          runs_bind.mpr ⟨_, _, 1, ih.mpr ⟨others, Nat.succ.inj same, behind, rfl, rfl⟩, .ret _,
            (mul_one _).symm⟩, rfl⟩

def farewell : Backend → List Bytes
  | .sockets => [intBytes messageClose]
  | .fifos => []

theorem runs_connClose {backend : Backend} {moved : Traffic} {closed : Bool} :
    Runs moves (connClose backend) moved closed ↔
      moved = { toPeer := (farewell backend).flatMap frame } ∧ closed = true := by
  cases backend with
  | sockets =>
      rw [connClose, runs_sendInt rfl, farewell, List.flatMap_singleton]
  | fifos => exact runs_ret

theorem runs_sendAndClose {backend : Backend} {payloads : List Bytes} {moved : Traffic}
    {results : List Bool × Bool} :
    Runs moves (sendAndClose backend payloads) moved results ↔
      (∀ payload ∈ payloads, payload.length < 2 ^ 31) ∧
        moved = { toPeer := payloads.flatMap sending ++ (farewell backend).flatMap frame } ∧
          results = (payloads.map fun _ => true, true) := by
  rw [sendAndClose, runs_bind]
  constructor
  · rintro ⟨_, sent, _, here, later, rfl⟩
    obtain ⟨short, rfl, rfl⟩ := runs_sendPayloads.mp here
    obtain ⟨_, closed, _, left, right, rfl⟩ := runs_bind.mp later
    obtain ⟨rfl, rfl⟩ := runs_connClose.mp left
    obtain ⟨rfl, rfl⟩ := runs_ret.mp right
    exact ⟨short, by rw [mul_one]; rfl, rfl⟩
  · rintro ⟨short, rfl, rfl⟩
    exact ⟨_, _, _, runs_sendPayloads.mpr ⟨short, rfl, rfl⟩,
      runs_bind.mpr ⟨_, true, 1, runs_connClose.mpr ⟨rfl, rfl⟩, .ret _, (mul_one _).symm⟩, rfl⟩

theorem flatMap_sending {payloads : List Bytes} (some_bytes : ∀ payload ∈ payloads, payload ≠ []) :
    payloads.flatMap sending = payloads.flatMap frame :=
  List.flatMap_congr fun payload member => if_neg (some_bytes payload member)

theorem farewell_short {backend : Backend} : ∀ message ∈ farewell backend, message.length < 2 ^ 31 := by
  intro message member
  cases backend with
  | sockets =>
      rw [List.mem_singleton.mp member]
      decide
  | fifos => exact absurd member List.not_mem_nil

theorem delivered_injective : Function.Injective delivered :=
  fun _ _ same => Pointer.block.inj (congrArg Received.data same)

theorem sending_length_le (payloads : List Bytes) :
    (payloads.flatMap sending).length ≤ (payloads.flatMap frame).length := by
  induction payloads with
  | nil => exact Nat.le_refl _
  | cons payload rest ih =>
      have here : (sending payload).length ≤ (frame payload).length := by
        unfold sending
        split
        · exact Nat.zero_le _
        · exact Nat.le_refl _
      rw [List.flatMap_cons, List.flatMap_cons, List.length_append, List.length_append]
      exact Nat.add_le_add here ih

/-- Only over sockets there is a message behind the payloads. -/
theorem deliversMessages_iff {backend : Backend} {payloads messages : List Bytes}
    (good : ∀ payload ∈ payloads, Sendable payload) :
    DeliversMessages backend payloads messages ↔ messages = payloads ++ farewell backend := by
  have written : payloads.flatMap sending ++ (farewell backend).flatMap frame =
      (payloads ++ farewell backend).flatMap frame := by
    rw [flatMap_sending fun payload member => (good payload member).1, List.flatMap_append]
  have short : ∀ message ∈ payloads ++ farewell backend, message.length < 2 ^ 31 := by
    intro message member
    rcases List.mem_append.mp member with member | member
    · exact (good message member).2
    · exact farewell_short message member
  constructor
  · rintro ⟨bytes, results, targets, sends, receives⟩
    obtain ⟨_, moved, _⟩ := runs_sendAndClose.mp sends
    obtain ⟨others, _, small, read, same⟩ := runs_receivePayloads.mp receives
    cases moved
    have equal := delivered_injective.list_map same
    subst equal
    have bytes := congrArg Traffic.fromPeer read
    dsimp only at bytes
    rw [written] at bytes
    exact frames_cancel small short bytes.symm
  · rintro rfl
    refine ⟨_, _, List.replicate (payloads ++ farewell backend).length ⟨⟨sizeBytes 0, rfl⟩, .null⟩,
      runs_sendAndClose.mpr ⟨fun payload member => (good payload member).2, rfl, rfl⟩, ?_⟩
    rw [written]
    exact runs_receivePayloads.mpr ⟨_, List.length_replicate.symm, short, rfl, rfl⟩

/-- The FIFO version sends no message, so the last `conn_receive` waits for bytes that nobody
writes. -/
theorem not_closesAsDocumented (payloads : List Bytes) : ¬ClosesAsDocumented payloads := by
  intro documented
  obtain ⟨bytes, results, targets, sends, receives⟩ := (documented .fifos _).mpr rfl
  obtain ⟨_, moved, _⟩ := runs_sendAndClose.mp sends
  obtain ⟨others, _, _, read, same⟩ := runs_receivePayloads.mp receives
  have equal := delivered_injective.list_map same
  subst equal
  have written := (congrArg Traffic.toPeer moved).symm.trans (congrArg Traffic.fromPeer read)
  dsimp only at written
  rw [farewell, List.flatMap_nil, List.append_nil, List.flatMap_append, List.flatMap_singleton] at written
  have more := congrArg List.length written
  have most := sending_length_le payloads
  have some_bytes := List.length_pos_iff.mpr (frame_ne_nil (intBytes messageClose))
  rw [List.length_append] at more
  omega

/-- A request for the products and nothing else. -/
theorem request_without_close : ¬ClosesAsDocumented [intBytes cmdGetProducts] := by
  intro documented
  have good : ∀ payload ∈ [intBytes cmdGetProducts], Sendable payload := by
    intro payload member
    rw [List.mem_singleton.mp member]
    exact ⟨by decide, by decide⟩
  have same := (deliversMessages_iff good).mp ((documented .fifos _).mpr rfl)
  contradiction

end Iac
