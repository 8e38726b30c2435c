import Iac.ForkedServer
import Iac.Library.Inevitable

/-! Messages from one end of a connection to the other: `conn_send` and `conn_receive` over
the loops of `ensureWrite` and `ensureRead` in `common/lib.c`, which go on until everything is
moved, in pieces as the system likes. -/

namespace Iac

open CText Interaction SharedPipe Inevitable

/-! A connection. -/

/-- What a process has left to do, and the bytes that the loop it is in has moved. -/
structure End (α : Type) where
  program : ForkedProgram α
  moved : Bytes

structure Link (α β : Type) where
  sender : End α
  stream : Bytes
  receiver : End β

/-- The program is about to call `ensureRead`. -/
inductive Wants {β : Type} :
    ForkedProgram β → (bytes : Nat) → (Arrived bytes → ForkedProgram β) → Prop
  | length (next : Arrived 8 → ForkedProgram β) : Wants (.perform (.own .readLength) next) 8 next
  | data (bytes : Nat) (next : Arrived bytes → ForkedProgram β) :
      Wants (.perform (.own (.readData bytes)) next) bytes next

/-- One call of `write` or `read` for what is left, the end of such a loop, or `malloc`. -/
inductive Step {α β : Type} (room : Nat) : Link α β → Link α β → Prop
  | write {src moved stream : Bytes} {next : Bool → ForkedProgram α} {receiver : End β}
      (count : Nat) (positive : 0 < count) (most : moved.length + count ≤ src.length)
      (fits : stream.length + count ≤ room) :
      Step room ⟨⟨.perform (.own (.write src)) next, moved⟩, stream, receiver⟩
        ⟨⟨.perform (.own (.write src)) next, moved ++ (src.drop moved.length).take count⟩,
          stream ++ (src.drop moved.length).take count, receiver⟩
  | written {src moved stream : Bytes} {next : Bool → ForkedProgram α} {receiver : End β}
      (whole : moved.length = src.length) :
      Step room ⟨⟨.perform (.own (.write src)) next, moved⟩, stream, receiver⟩
        ⟨⟨next true, []⟩, stream, receiver⟩
  | read {sender : End α} {stream moved : Bytes} {program : ForkedProgram β} {bytes : Nat}
      {next : Arrived bytes → ForkedProgram β} (wants : Wants program bytes next) (count : Nat)
      (positive : 0 < count) (most : moved.length + count ≤ bytes)
      (there : count ≤ stream.length) :
      Step room ⟨sender, stream, ⟨program, moved⟩⟩
        ⟨sender, stream.drop count, ⟨program, moved ++ stream.take count⟩⟩
  | arrived {sender : End α} {stream moved : Bytes} {program : ForkedProgram β} {bytes : Nat}
      {next : Arrived bytes → ForkedProgram β} (wants : Wants program bytes next)
      (whole : moved.length = bytes) :
      Step room ⟨sender, stream, ⟨program, moved⟩⟩
        ⟨sender, stream, ⟨next ⟨moved, Nat.le_of_eq whole⟩, []⟩⟩
  | malloc {sender : End α} {stream : Bytes} {size : Nat}
      {next : Option (Block size) → ForkedProgram β} (block : Block size) :
      Step room ⟨sender, stream, ⟨.perform (.own (.malloc size)) next, []⟩⟩
        ⟨sender, stream, ⟨next (some block), []⟩⟩

/-! What a program moves if all its calls succeed. -/

/-- So many calls write these bytes, and the program ends with the value. -/
inductive Writes {α : Type} : ForkedProgram α → Nat → Bytes → α → Prop
  | done (value : α) : Writes (.ret value) 0 [] value
  | write {src rest : Bytes} {next : Bool → ForkedProgram α} {calls : Nat} {value : α}
      (behind : Writes (next true) calls rest value) :
      Writes (.perform (.own (.write src)) next) (calls + 1) (src ++ rest) value

/-- So many calls read these bytes, and the program ends with the value. -/
inductive Reads {β : Type} : ForkedProgram β → Nat → Bytes → β → Prop
  | done (value : β) : Reads (.ret value) 0 [] value
  | read {program : ForkedProgram β} {bytes : Nat} {next : Arrived bytes → ForkedProgram β}
      {calls : Nat} {dest rest : Bytes} {value : β} (wants : Wants program bytes next)
      (whole : dest.length = bytes)
      (behind : Reads (next ⟨dest, Nat.le_of_eq whole⟩) calls rest value) :
      Reads program (calls + 1) (dest ++ rest) value
  | malloc {size : Nat} {next : Option (Block size) → ForkedProgram β} {calls : Nat}
      {rest : Bytes} {value : β} (behind : ∀ block, Reads (next (some block)) calls rest value) :
      Reads (.perform (.own (.malloc size)) next) (calls + 1) rest value

/-! Between two steps. -/

/-- What the sender still writes, the rest of the transfer that it is in first. -/
inductive Owes {α : Type} : End α → Nat → Bytes → α → Prop
  | done (value : α) : Owes ⟨.ret value, []⟩ 0 [] value
  | writing {moved left rest : Bytes} {next : Bool → ForkedProgram α} {calls : Nat} {value : α}
      (behind : Writes (next true) calls rest value) :
      Owes ⟨.perform (.own (.write (moved ++ left))) next, moved⟩ (calls + 1) (left ++ rest) value

/-- What the receiver still reads. -/
inductive Expects {β : Type} : End β → Nat → Bytes → β → Prop
  | done (value : β) : Expects ⟨.ret value, []⟩ 0 [] value
  | reading {program : ForkedProgram β} {bytes : Nat} {next : Arrived bytes → ForkedProgram β}
      {moved left rest : Bytes} {calls : Nat} {value : β} (wants : Wants program bytes next)
      (whole : (moved ++ left).length = bytes)
      (behind : Reads (next ⟨moved ++ left, Nat.le_of_eq whole⟩) calls rest value) :
      Expects ⟨program, moved⟩ (calls + 1) (left ++ rest) value
  | malloc {size : Nat} {next : Option (Block size) → ForkedProgram β} {calls : Nat}
      {rest : Bytes} {value : β} (behind : ∀ block, Reads (next (some block)) calls rest value) :
      Expects ⟨.perform (.own (.malloc size)) next, []⟩ (calls + 1) rest value

section

variable {α β : Type} {room : Nat}

theorem Writes.owes {program : ForkedProgram α} {calls : Nat} {data : Bytes} {value : α}
    (writes : Writes program calls data value) : Owes ⟨program, []⟩ calls data value := by
  cases writes with
  | done value => exact .done value
  | @write src _ _ _ _ behind => exact @Owes.writing α [] src _ _ _ _ behind

theorem Reads.expects {program : ForkedProgram β} {calls : Nat} {data : Bytes} {value : β}
    (reads : Reads program calls data value) : Expects ⟨program, []⟩ calls data value := by
  cases reads with
  | done value => exact .done value
  | read wants whole behind => exact @Expects.reading β _ _ _ [] _ _ _ _ wants whole behind
  | malloc behind => exact .malloc behind

theorem Expects.reads {program : ForkedProgram β} {bytes calls : Nat}
    {next : Arrived bytes → ForkedProgram β} {moved data : Bytes} {value : β}
    (expects : Expects ⟨program, moved⟩ calls data value) (wants : Wants program bytes next) :
    ∃ left rest fewer, ∃ whole : (moved ++ left).length = bytes, calls = fewer + 1 ∧
      data = left ++ rest ∧ Reads (next ⟨moved ++ left, Nat.le_of_eq whole⟩) fewer rest value := by
  cases expects with
  | done => cases wants
  | malloc => cases wants
  | @reading _ _ _ _ left rest fewer _ same whole behind =>
      cases wants with
      | length =>
          cases same
          exact ⟨left, rest, fewer, whole, rfl, rfl, behind⟩
      | data =>
          cases same
          exact ⟨left, rest, fewer, whole, rfl, rfl, behind⟩

theorem Owes.moves {sender : End α} {calls : Nat} {owed stream : Bytes} {value : α}
    (owes : Owes sender calls owed value) (space : stream.length < room) (receiver : End β) :
    (∃ next, Step room ⟨sender, stream, receiver⟩ next) ∨ (sender = ⟨.ret value, []⟩ ∧ owed = []) := by
  cases owes with
  | done => exact .inr ⟨rfl, rfl⟩
  | @writing moved left =>
      left
      by_cases finished : left = []
      · subst finished
        exact ⟨_, .written (by simp)⟩
      · have more := List.length_pos_iff.mpr finished
        refine ⟨_, .write 1 Nat.one_pos ?_ space⟩
        rw [List.length_append]
        omega

/-- The bytes in the stream and those that the sender owes are what the receiver expects; the
number counts the steps that may be left. -/
def Going (sent : α) (received : β) (count : Nat) (link : Link α β) : Prop :=
  ∃ writes reads owed, Owes link.sender writes owed sent ∧
    Expects link.receiver reads (link.stream ++ owed) received ∧
    count = writes + reads + 2 * owed.length + link.stream.length

def Finished (sent : α) (received : β) (link : Link α β) : Prop :=
  link.sender.program = .ret sent ∧ link.stream = [] ∧ link.receiver.program = .ret received

variable {sent : α} {received : β}

theorem Going.progress (positive : 0 < room) {count : Nat} {link : Link α β}
    (going : Going sent received count link) :
    Finished sent received link ∨ ∃ next, Step room link next := by
  obtain ⟨sender, stream, receiver⟩ := link
  obtain ⟨writes, reads, owed, owes, expects, _⟩ := going
  dsimp only at owes expects
  generalize shape : stream ++ owed = incoming at expects
  cases expects with
  | done =>
      obtain ⟨rfl, rfl⟩ := List.append_eq_nil_iff.mp shape
      rcases @Owes.moves α _ room _ _ _ [] _ owes positive _ with goes | ⟨rfl, _⟩
      · exact .inr goes
      · exact .inl ⟨rfl, rfl, rfl⟩
  | @reading _ _ _ moved left _ _ _ wants whole =>
      right
      by_cases finished : left = []
      · subst finished
        rw [List.append_nil] at whole
        exact ⟨_, .arrived wants whole⟩
      · have more := List.length_pos_iff.mpr finished
        rw [List.length_append] at whole
        by_cases empty : stream = []
        · subst empty
          rcases @Owes.moves α _ room _ _ _ [] _ owes positive _ with goes | ⟨_, rfl⟩
          · exact goes
          · exact absurd (List.append_eq_nil_iff.mp shape.symm).1 finished
        · have some_bytes := List.length_pos_iff.mpr empty
          exact ⟨_, .read wants 1 Nat.one_pos (by omega) some_bytes⟩
  | @malloc size =>
      exact .inr ⟨_, .malloc ⟨List.replicate size 0, List.length_replicate⟩⟩

theorem Going.decrease {count : Nat} {link next : Link α β} (going : Going sent received count link)
    (step : Step room link next) : ∃ less, less < count ∧ Going sent received less next := by
  obtain ⟨writes, reads, owed, owes, expects, rfl⟩ := going
  cases step with
  | @write src moved stream after _ taken positive most =>
      cases owes with
      | @writing _ left rest _ calls _ behind =>
          rw [List.length_append] at most
          rw [List.drop_left]
          have pieces := List.take_append_drop taken left
          have owes : Owes ⟨.perform (.own (.write (moved ++ left))) after, moved ++ left.take taken⟩
              (calls + 1) (left.drop taken ++ rest) sent := by
            have writing := @Owes.writing α (moved ++ left.take taken) (left.drop taken) rest _ _ _ behind
            rw [List.append_assoc, pieces] at writing
            exact writing
          refine ⟨_, ?_, calls + 1, reads, left.drop taken ++ rest, owes, ?_, rfl⟩
          · simp only [List.length_append, List.length_drop, List.length_take]
            omega
          · dsimp only at expects ⊢
            rw [List.append_assoc, ← List.append_assoc (left.take taken), pieces]
            exact expects
  | @written src moved stream _ _ whole =>
      cases owes with
      | @writing _ left rest _ calls _ behind =>
          rw [List.length_append] at whole
          have finished : left = [] := List.length_eq_zero_iff.mp (by omega)
          subst finished
          refine ⟨_, ?_, calls, reads, rest, behind.owes, expects, rfl⟩
          simp
  | @read _ stream moved program bytes _ wants taken positive most there =>
      obtain ⟨left, rest, fewer, whole, rfl, shape, behind⟩ := expects.reads wants
      dsimp only at shape owes
      rw [List.length_append] at whole
      have short : taken ≤ left.length := by omega
      have same : stream.take taken = left.take taken := by
        have firsts := congrArg (List.take taken) shape
        rwa [List.take_append_of_le_length there, List.take_append_of_le_length short] at firsts
      have later : stream.drop taken ++ owed = left.drop taken ++ rest := by
        have lasts := congrArg (List.drop taken) shape
        rwa [List.drop_append_of_le_length there, List.drop_append_of_le_length short] at lasts
      have pieces := List.take_append_drop taken left
      refine ⟨_, ?_, writes, fewer + 1, owed, owes, ?_, rfl⟩
      · dsimp only
        rw [List.length_drop]
        omega
      · dsimp only
        rw [later, same]
        refine .reading wants ?_ ?_
        · simp only [List.length_append, List.length_take, List.length_drop]
          omega
        · simp only [List.append_assoc, pieces]
          exact behind
  | @arrived _ stream moved program bytes _ wants whole =>
      obtain ⟨left, rest, fewer, total, rfl, shape, behind⟩ := expects.reads wants
      dsimp only at shape owes
      have finished : left = [] := by
        rw [List.length_append] at total
        exact List.length_eq_zero_iff.mp (by omega)
      subst finished
      refine ⟨_, ?_, writes, fewer, owed, owes, ?_, rfl⟩
      · dsimp only
        omega
      · dsimp only
        rw [shape, List.nil_append]
        simp only [List.append_nil] at behind
        exact behind.expects
  | @malloc _ stream size _ block =>
      dsimp only at expects owes
      generalize shape : stream ++ owed = incoming at expects
      cases expects with
      | reading wants => cases wants
      | @malloc _ _ fewer _ _ behind =>
          subst shape
          refine ⟨_, ?_, writes, fewer, owed, owes, (behind block).expects, rfl⟩
          dsimp only
          omega

/-- The two programs end, having written and read the same bytes, and nothing is left. -/
theorem inevitably_finished (positive : 0 < room) {sending : ForkedProgram α}
    {receiving : ForkedProgram β} {writes reads : Nat} {data : Bytes}
    (written : Writes sending writes data sent) (read : Reads receiving reads data received) :
    Inevitably (Step room) (Finished sent received) ⟨⟨sending, []⟩, [], ⟨receiving, []⟩⟩ :=
  @inevitably_of_measure _ _ _ (Going sent received) (fun _ _ going => going.progress positive)
    (fun _ _ _ going step => going.decrease step) _ _ ⟨writes, reads, data, written.owes, read.expects, rfl⟩

end

/-! Messages. -/

section

variable {α β : Type} {calls more : Nat} {data rest : Bytes} {value : α} {last : β}

theorem Writes.bind {program : ForkedProgram α} {after : α → ForkedProgram β}
    (first : Writes program calls data value) (second : Writes (after value) more rest last) :
    Writes (program >>= after) (calls + more) (data ++ rest) last := by
  induction first with
  | done value =>
      rw [Nat.zero_add]
      exact second
  | @write src _ next _ _ _ ih =>
      rw [Nat.add_right_comm, List.append_assoc]
      exact .write (ih second)

theorem Wants.bind {program : ForkedProgram α} {bytes : Nat} {next : Arrived bytes → ForkedProgram α}
    (wants : Wants program bytes next) (after : α → ForkedProgram β) :
    Wants (program >>= after) bytes fun arrived => next arrived >>= after := by
  cases wants with
  | length => exact .length _
  | data => exact .data bytes _

theorem Reads.bind {program : ForkedProgram α} {after : α → ForkedProgram β}
    (first : Reads program calls data value) (second : Reads (after value) more rest last) :
    Reads (program >>= after) (calls + more) (data ++ rest) last := by
  induction first with
  | done value =>
      rw [Nat.zero_add]
      exact second
  | read wants whole _ ih =>
      rw [Nat.add_right_comm, List.append_assoc]
      exact .read (wants.bind after) whole (ih second)
  | malloc _ ih =>
      rw [Nat.add_right_comm]
      exact .malloc fun block => ih block second

end

theorem writes_own (src : Bytes) : Writes (own (.write src)) 1 src true := by
  have body := @Writes.write _ src _ .ret _ _ (Writes.done true)
  rw [List.append_nil] at body
  exact body

theorem reads_readLength {dest : Bytes} (whole : dest.length = 8) :
    Reads (own .readLength) 1 dest ⟨dest, Nat.le_of_eq whole⟩ := by
  have body := Reads.read (.length .ret) whole (Reads.done _)
  rw [List.append_nil] at body
  exact body

theorem reads_readData {dest : Bytes} {bytes : Nat} (whole : dest.length = bytes) :
    Reads (own (.readData bytes)) 1 dest ⟨dest, Nat.le_of_eq whole⟩ := by
  have body := Reads.read (.data bytes .ret) whole (Reads.done _)
  rw [List.append_nil] at body
  exact body

theorem reads_malloc {β : Type} {size calls : Nat} {after : Option (Block size) → ForkedProgram β}
    {rest : Bytes} {value : β} (behind : ∀ block, Reads (after (some block)) calls rest value) :
    Reads (own (.malloc size) >>= after) (calls + 1) rest value :=
  .malloc behind

theorem writes_connSend {payload : Bytes} (some_bytes : payload ≠ [])
    (short : payload.length < 2 ^ 31) :
    Writes (connSend (.block payload) payload.length) 2 (frame payload) true := by
  have positive : payload.length ≠ 0 := fun none_left => some_bytes (List.length_eq_zero_iff.mp none_left)
  have body : Writes (clientWrite payload) 1 payload true := by
    rw [clientWrite, if_pos short]
    exact writes_own payload
  rw [connSend, if_neg positive]
  exact .write body

theorem reads_readBlock {block contents : Bytes} (whole : contents.length = block.length)
    (some_bytes : contents ≠ []) (short : contents.length < 2 ^ 31) :
    Reads (readBlock block) 1 contents (true, contents) := by
  have positive : block.length ≠ 0 := by
    rw [← whole]
    exact fun none_left => some_bytes (List.length_eq_zero_iff.mp none_left)
  have body : Reads (readBlock block) (1 + 0) (contents ++ []) (true, contents) := by
    rw [readBlock, if_neg positive]
    apply (reads_readData whole).bind
    dsimp only
    rw [if_pos short, overlay_whole whole, decide_eq_true whole]
    exact .done _
  rw [List.append_nil] at body
  exact body

theorem reads_connReceive (backend : Backend) {length : Bytes} (word : length.length = 8)
    (data : Pointer) {payload : Bytes} (some_bytes : payload ≠ []) (short : payload.length < 2 ^ 31) :
    Reads (connReceive backend length data) 3 (frame payload)
      ⟨true, sizeBytes payload.length, .block payload⟩ := by
  have size : fromLittleEndian (sizeBytes payload.length) = payload.length :=
    fromLittleEndian_sizeBytes (by omega)
  have header : overlay length (sizeBytes payload.length) = sizeBytes payload.length :=
    overlay_whole (by rw [sizeBytes_length, word])
  have body : Reads (connReceive backend length data) (1 + (1 + 0 + 1))
      (sizeBytes payload.length ++ (payload ++ [])) ⟨true, sizeBytes payload.length, .block payload⟩ := by
    apply (reads_readLength (sizeBytes_length payload.length)).bind
    dsimp only
    rw [if_neg (by simp), header, size]
    apply reads_malloc
    intro block
    change Reads (readBlock block.val >>= _) (1 + 0) (payload ++ []) _
    apply (reads_readBlock block.property.symm some_bytes short).bind
    exact .done _
  rw [List.append_nil] at body
  exact body

/-- What the variables hold that `conn_receive` is called with. -/
structure Target where
  length : Block 8
  data : Pointer

def sendPayloads : List Bytes → ForkedProgram (List Bool)
  | [] => .ret []
  | payload :: rest => do
      let ok ← connSend (.block payload) payload.length
      let others ← sendPayloads rest
      return ok :: others

def receivePayloads (backend : Backend) : List Target → ForkedProgram (List Received)
  | [] => .ret []
  | target :: rest => do
      let received ← connReceive backend target.length.val target.data
      let others ← receivePayloads backend rest
      return received :: others

/-- Payloads that `conn_send` really sends, and that its counter can follow. -/
def Sendable (payload : Bytes) : Prop := payload ≠ [] ∧ payload.length < 2 ^ 31

theorem writes_sendPayloads {payloads : List Bytes} (good : ∀ payload ∈ payloads, Sendable payload) :
    ∃ calls, Writes (sendPayloads payloads) calls (payloads.flatMap frame)
      (payloads.map fun _ => true) := by
  induction payloads with
  | nil => exact ⟨0, .done []⟩
  | cons payload rest ih =>
      obtain ⟨calls, others⟩ := ih fun other member => good other (List.mem_cons_of_mem payload member)
      obtain ⟨some_bytes, short⟩ := good payload List.mem_cons_self
      have body : Writes (sendPayloads (payload :: rest)) (2 + (calls + 0))
          (frame payload ++ (rest.flatMap frame ++ [])) (true :: rest.map fun _ => true) := by
        apply (writes_connSend some_bytes short).bind
        apply others.bind
        exact .done _
      rw [List.append_nil] at body
      exact ⟨_, body⟩

def delivered (payload : Bytes) : Received := ⟨true, sizeBytes payload.length, .block payload⟩

theorem reads_receivePayloads (backend : Backend) {payloads : List Bytes} {targets : List Target}
    (good : ∀ payload ∈ payloads, Sendable payload) (same : targets.length = payloads.length) :
    ∃ calls, Reads (receivePayloads backend targets) calls (payloads.flatMap frame)
      (payloads.map delivered) := by
  induction payloads generalizing targets with
  | nil =>
      rw [List.length_eq_zero_iff.mp same]
      exact ⟨0, .done []⟩
  | cons payload rest ih =>
      obtain ⟨target, more, rfl⟩ := List.exists_cons_of_length_eq_add_one same
      obtain ⟨calls, others⟩ := ih (fun other member => good other (List.mem_cons_of_mem payload member))
        (Nat.succ.inj same)
      obtain ⟨some_bytes, short⟩ := good payload List.mem_cons_self
      have body : Reads (receivePayloads backend (target :: more)) (3 + (calls + 0))
          (frame payload ++ (rest.flatMap frame ++ [])) (delivered payload :: rest.map delivered) := by
        apply (reads_connReceive backend target.length.property target.data some_bytes short).bind
        apply others.bind
        exact .done _
      rw [List.append_nil] at body
      exact ⟨_, body⟩

def connected (backend : Backend) (payloads : List Bytes) (targets : List Target) :
    Link (List Bool) (List Received) :=
  ⟨⟨sendPayloads payloads, []⟩, [], ⟨receivePayloads backend targets, []⟩⟩

/-- However the transfers are split, each call of `conn_receive` delivers the payload of the
corresponding call of `conn_send`. -/
theorem payloads_delivered (backend : Backend) {payloads : List Bytes} {targets : List Target}
    (good : ∀ payload ∈ payloads, payload ≠ [] ∧ payload.length < 2 ^ 31)
    (same : targets.length = payloads.length) {room : Nat} (positive : 0 < room) :
    Inevitably (Step room)
      (fun link => link.sender.program = .ret (payloads.map fun _ => true) ∧ link.stream = [] ∧
        link.receiver.program = .ret (payloads.map fun payload =>
          ⟨true, sizeBytes payload.length, .block payload⟩))
      (connected backend payloads targets) := by
  obtain ⟨writes, written⟩ := writes_sendPayloads good
  obtain ⟨reads, read⟩ := reads_receivePayloads backend good same
  exact inevitably_finished positive written read

theorem payloads_delivered_vodka : Inevitably (Step 3)
    (fun link => link.sender.program = .ret [true, true] ∧ link.stream = [] ∧
      link.receiver.program = .ret [⟨true, sizeBytes 5, .block (ascii "vodka")⟩,
        ⟨true, sizeBytes 1, .block [7]⟩])
    (connected .fifos [ascii "vodka", [7]]
      [⟨⟨sizeBytes 9, rfl⟩, .stray⟩, ⟨⟨sizeBytes 5, rfl⟩, .null⟩]) :=
  @payloads_delivered .fifos [ascii "vodka", [7]] [⟨⟨sizeBytes 9, rfl⟩, .stray⟩, ⟨⟨sizeBytes 5, rfl⟩, .null⟩]
    (by decide) rfl 3 (by decide)

end Iac
