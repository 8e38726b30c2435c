import Iac.ForkedServer
import Iac.Library.Runs

/-! What the processes move on their connections while nothing fails: single runs of a forked
server, of a client and of the database server, with whole texts in place of bytes. -/

namespace Iac

open CText Interaction SharedPipe

/-- The pipes to and from the database server, and the process's own connection. -/
@[ext] structure Traffic where
  toServer : Bytes := []
  fromServer : Bytes := []
  fromPeer : Bytes := []
  toPeer : Bytes := []
  deriving DecidableEq, Repr

instance : Monoid Traffic where
  one := {}
  mul first second := {
    toServer := first.toServer ++ second.toServer
    fromServer := first.fromServer ++ second.fromServer
    fromPeer := first.fromPeer ++ second.fromPeer
    toPeer := first.toPeer ++ second.toPeer }
  mul_assoc first second third := by
    apply Traffic.ext
    · exact List.append_assoc _ _ _
    · exact List.append_assoc _ _ _
    · exact List.append_assoc _ _ _
    · exact List.append_assoc _ _ _
  one_mul traffic := by
    apply Traffic.ext
    · exact List.nil_append _
    · exact List.nil_append _
    · exact List.nil_append _
    · exact List.nil_append _
  mul_one traffic := by
    apply Traffic.ext
    · exact List.append_nil _
    · exact List.append_nil _
    · exact List.append_nil _
    · exact List.append_nil _

section

variable (first second : Traffic)

@[simp] theorem mul_toServer : (first * second).toServer = first.toServer ++ second.toServer := rfl

@[simp] theorem mul_fromServer :
    (first * second).fromServer = first.fromServer ++ second.fromServer := rfl

@[simp] theorem mul_fromPeer : (first * second).fromPeer = first.fromPeer ++ second.fromPeer := rfl

@[simp] theorem mul_toPeer : (first * second).toPeer = first.toPeer ++ second.toPeer := rfl

@[simp] theorem one_toServer : (1 : Traffic).toServer = [] := rfl

@[simp] theorem one_fromServer : (1 : Traffic).fromServer = [] := rfl

@[simp] theorem one_fromPeer : (1 : Traffic).fromPeer = [] := rfl

@[simp] theorem one_toPeer : (1 : Traffic).toPeer = [] := rfl

end

/-- The answers of calls that succeed; whatever a new block holds is possible. -/
def Local.moves : (op : Local) → op.Answer → Option Traffic
  | .readLength, arrived => if arrived.val.length = 8 then some { fromPeer := arrived.val } else none
  | .readData size, arrived =>
      if arrived.val.length = size then some { fromPeer := arrived.val } else none
  | .readNull, _ => none
  | .write data, (sent : Bool) => if sent then some { toPeer := data } else none
  | .malloc _, block => block.map fun _ => 1
  | .uninitialised _, _ => some 1
  | .note _, _ => some 1

def moves : (op : Action Local) → Action.Answer Local.Answer op → Option Traffic
  | .lock, _ => some 1
  | .unlock, _ => some 1
  | .send byte, (sent : Bool) => if sent then some { toServer := [byte] } else none
  | .recv, (got : Option UInt8) => got.map fun byte => { fromServer := [byte] }
  | .own op, answer => op.moves answer
  | .undefined, (never : Empty) => nomatch never

def servingMoves : (op : Serving) → op.Answer → Option Traffic
  | .recv, (byte : UInt8) => some { toServer := [byte] }
  | .send byte, _ => some { fromServer := [byte] }
  | .unknown, _ => some 1
  | .undefined, (never : Empty) => nomatch never

/-! Forked servers and clients. -/

theorem not_runs_undefined {α : Type} {moved : Traffic} {value : α} :
    ¬Runs moves (undefinedStep : ForkedProgram α) moved value := by
  intro runs
  obtain ⟨never, _⟩ := runs_perform.mp runs
  exact nomatch (never : Empty)

theorem runs_own {op : Local} {moved : Traffic} {answer : op.Answer} :
    Runs moves (own op) moved answer ↔ op.moves answer = some moved := runs_call

theorem runs_writeBytes {data : Bytes} {moved : Traffic} {ok : Bool} :
    Runs moves (writeBytes data) moved ok ↔ moved = { toServer := data } ∧ ok = true := by
  induction data generalizing moved with
  | nil => exact runs_ret
  | cons byte rest ih =>
      rw [writeBytes, runs_perform]
      constructor
      · rintro ⟨sent, first, later, known, behind, rfl⟩
        cases sent with
        | false => contradiction
        | true =>
            cases known
            obtain ⟨rfl, rfl⟩ := ih.mp behind
            exact ⟨rfl, rfl⟩
      · rintro ⟨rfl, rfl⟩
        exact ⟨true, _, _, rfl, ih.mpr ⟨rfl, rfl⟩, rfl⟩

theorem runs_readBytes {dest : Bytes} {moved : Traffic} {result : Bool × Bytes} :
    Runs moves (readBytes dest) moved result ↔
      ∃ text : Bytes, text.length = dest.length ∧ moved = { fromServer := text } ∧
        result = (true, text) := by
  induction dest generalizing moved result with
  | nil =>
      rw [readBytes, runs_ret]
      constructor
      · rintro ⟨rfl, rfl⟩
        exact ⟨[], rfl, rfl, rfl⟩
      · rintro ⟨text, empty, rfl, rfl⟩
        rw [List.length_eq_zero_iff.mp empty]
        exact ⟨rfl, rfl⟩
  | cons old rest ih =>
      rw [readBytes, runs_perform]
      constructor
      · rintro ⟨got, first, later, known, behind, rfl⟩
        cases got with
        | none => contradiction
        | some byte =>
            cases known
            obtain ⟨_, middle, _, left, right, rfl⟩ := runs_bind.mp behind
            obtain ⟨text, length, rfl, rfl⟩ := ih.mp left
            obtain ⟨rfl, rfl⟩ := runs_ret.mp right
            refine ⟨byte :: text, by simp [length], ?_, rfl⟩
            rw [mul_one]
            rfl
      · rintro ⟨text, length, rfl, rfl⟩
        obtain ⟨byte, others, rfl⟩ := List.exists_cons_of_length_eq_add_one length
        have whole := ih.mpr ⟨others, Nat.succ.inj length, rfl, rfl⟩
        refine ⟨some byte, _, _, rfl, runs_bind.mpr ⟨_, _, _, whole, .ret _, rfl⟩, ?_⟩
        rw [mul_one]
        rfl

theorem runs_ensureWrite {data : Bytes} {moved : Traffic} {ok : Bool} :
    Runs moves (ensureWrite data) moved ok ↔
      data.length < 2 ^ 31 ∧ moved = { toServer := data } ∧ ok = true := by
  unfold ensureWrite
  split
  · rename_i short
    rw [runs_writeBytes]
    exact (and_iff_right short).symm
  · rename_i long
    constructor
    · intro runs
      exact absurd runs not_runs_undefined
    · rintro ⟨short, _⟩
      exact absurd short long

theorem runs_ensureRead {dest : Bytes} {moved : Traffic} {result : Bool × Bytes} :
    Runs moves (ensureRead dest) moved result ↔ dest.length < 2 ^ 31 ∧
      ∃ text : Bytes, text.length = dest.length ∧ moved = { fromServer := text } ∧
        result = (true, text) := by
  unfold ensureRead
  split
  · rename_i short
    rw [runs_readBytes]
    exact (and_iff_right short).symm
  · rename_i long
    constructor
    · intro runs
      exact absurd runs not_runs_undefined
    · rintro ⟨short, _⟩
      exact absurd short long

theorem runs_write {data : Bytes} {moved : Traffic} {ok : Bool} :
    Runs moves (own (.write data)) moved ok ↔ moved = { toPeer := data } ∧ ok = true := by
  rw [runs_own]
  cases ok with
  | false =>
      constructor
      · intro known
        contradiction
      · rintro ⟨_, wrong⟩
        contradiction
  | true =>
      constructor
      · intro known
        cases known
        exact ⟨rfl, rfl⟩
      · rintro ⟨rfl, _⟩
        rfl

theorem runs_clientWrite {data : Bytes} {moved : Traffic} {ok : Bool} :
    Runs moves (clientWrite data) moved ok ↔
      data.length < 2 ^ 31 ∧ moved = { toPeer := data } ∧ ok = true := by
  unfold clientWrite
  split
  · rename_i short
    rw [runs_write]
    exact (and_iff_right short).symm
  · rename_i long
    constructor
    · intro runs
      exact absurd runs not_runs_undefined
    · rintro ⟨short, _⟩
      exact absurd short long

theorem runs_connSend {payload : Bytes} {moved : Traffic} {ok : Bool} (some_bytes : payload ≠ []) :
    Runs moves (connSend (.block payload) payload.length) moved ok ↔
      payload.length < 2 ^ 31 ∧ moved = { toPeer := frame payload } ∧ ok = true := by
  have positive : payload.length ≠ 0 := fun none_left => some_bytes (List.length_eq_zero_iff.mp none_left)
  rw [connSend, if_neg positive, runs_bind_of fun _ _ => runs_write]
  change (∃ rest, Runs moves (clientWrite payload) rest ok ∧ _) ↔ _
  constructor
  · rintro ⟨rest, body, rfl⟩
    obtain ⟨short, rfl, rfl⟩ := runs_clientWrite.mp body
    exact ⟨short, rfl, rfl⟩
  · rintro ⟨short, rfl, rfl⟩
    exact ⟨_, runs_clientWrite.mpr ⟨short, rfl, rfl⟩, rfl⟩

theorem runs_readLength {moved : Traffic} {arrived : Arrived 8} :
    Runs moves (own .readLength) moved arrived ↔
      arrived.val.length = 8 ∧ moved = { fromPeer := arrived.val } := by
  rw [runs_own, Local.moves]
  split
  · rename_i whole
    simp [whole, eq_comm]
  · rename_i part
    simp [part]

theorem runs_readData {size : Nat} {moved : Traffic} {arrived : Arrived size} :
    Runs moves (own (.readData size)) moved arrived ↔
      arrived.val.length = size ∧ moved = { fromPeer := arrived.val } := by
  rw [runs_own, Local.moves]
  split
  · rename_i whole
    simp [whole, eq_comm]
  · rename_i part
    simp [part]

theorem runs_malloc {size : Nat} {moved : Traffic} {block : Option (Block size)} :
    Runs moves (own (.malloc size)) moved block ↔ moved = 1 ∧ block.isSome := by
  rw [runs_own, Local.moves]
  cases block with
  | none => simp
  | some block => simp [eq_comm]

theorem runs_readBlock {block : Bytes} {moved : Traffic} {result : Bool × Bytes} :
    Runs moves (readBlock block) moved result ↔ block.length < 2 ^ 31 ∧
      ∃ text : Bytes, text.length = block.length ∧ moved = { fromPeer := text } ∧
        result = (true, text) := by
  unfold readBlock
  split
  · rename_i empty
    rw [runs_ret]
    constructor
    · rintro ⟨rfl, rfl⟩
      rw [List.length_eq_zero_iff.mp empty]
      exact ⟨by decide, [], rfl, rfl, rfl⟩
    · rintro ⟨_, text, length, rfl, rfl⟩
      rw [empty] at length
      rw [List.length_eq_zero_iff.mp empty, List.length_eq_zero_iff.mp length]
      exact ⟨rfl, rfl⟩
  · rw [runs_bind]
    constructor
    · rintro ⟨first, arrived, second, left, right, rfl⟩
      obtain ⟨whole, rfl⟩ := runs_readData.mp left
      split at right
      · rename_i short
        obtain ⟨rfl, rfl⟩ := runs_ret.mp right
        refine ⟨whole ▸ short, arrived.val, whole, mul_one _, ?_⟩
        rw [overlay_whole whole, decide_eq_true whole]
      · exact absurd right not_runs_undefined
    · rintro ⟨short, text, whole, rfl, rfl⟩
      refine ⟨_, ⟨text, Nat.le_of_eq whole⟩, 1, runs_readData.mpr ⟨whole, rfl⟩, ?_, (mul_one _).symm⟩
      dsimp only
      rw [if_pos (whole ▸ short), overlay_whole whole, decide_eq_true whole]
      exact .ret _

theorem runs_connReceive {backend : Backend} {length : Bytes} {data : Pointer} {moved : Traffic}
    {received : Received} (word : length.length = 8) :
    Runs moves (connReceive backend length data) moved received ↔
      ∃ payload : Bytes, payload.length < 2 ^ 31 ∧ moved = { fromPeer := frame payload } ∧
        received = ⟨true, sizeBytes payload.length, .block payload⟩ := by
  unfold connReceive
  rw [runs_bind]
  constructor
  · rintro ⟨first, arrived, second, left, right, rfl⟩
    obtain ⟨whole, rfl⟩ := runs_readLength.mp left
    have header : overlay length arrived.val = arrived.val := overlay_whole (whole.trans word.symm)
    dsimp only at right
    rw [if_neg (by omega), header, runs_bind] at right
    obtain ⟨_, block, _, granted, right, rfl⟩ := right
    obtain ⟨rfl, isSome⟩ := runs_malloc.mp granted
    cases block with
    | none => contradiction
    | some block =>
        obtain ⟨_, result, _, read, right, rfl⟩ := runs_bind.mp right
        obtain ⟨short, text, same, rfl, rfl⟩ := runs_readBlock.mp read
        obtain ⟨rfl, rfl⟩ := runs_ret.mp right
        have size := same.trans block.property
        have back : sizeBytes text.length = arrived.val := by
          rw [size]
          exact sizeBytes_fromLittleEndian whole
        refine ⟨text, same ▸ short, ?_, by rw [back]⟩
        rw [frame, back, one_mul, mul_one]
        rfl
  · rintro ⟨payload, short, rfl, rfl⟩
    have whole := sizeBytes_length payload.length
    have header : overlay length (sizeBytes payload.length) = sizeBytes payload.length :=
      overlay_whole (whole.trans word.symm)
    have size : fromLittleEndian (sizeBytes payload.length) = payload.length :=
      fromLittleEndian_sizeBytes (by omega)
    refine ⟨_, ⟨sizeBytes payload.length, Nat.le_of_eq whole⟩, { fromPeer := payload },
      runs_readLength.mpr ⟨whole, rfl⟩, ?_, rfl⟩
    dsimp only
    rw [if_neg (by omega), header, size, runs_bind]
    refine ⟨1, some ⟨payload, rfl⟩, _, runs_malloc.mpr ⟨rfl, rfl⟩, ?_, (one_mul _).symm⟩
    refine runs_bind.mpr ⟨_, (true, payload), 1, runs_readBlock.mpr ⟨short, payload, rfl, rfl, rfl⟩, ?_,
      (mul_one _).symm⟩
    exact .ret _

theorem runs_uninitialised {size : Nat} {moved : Traffic} {block : Block size} :
    Runs moves (own (.uninitialised size)) moved block ↔ moved = 1 := by
  rw [runs_own, Local.moves, Option.some.injEq, eq_comm]

theorem runs_mark {note : Note} {moved : Traffic} {value : Unit} :
    Runs moves (mark note) moved value ↔ moved = 1 := by
  rw [mark, runs_own, Local.moves, Option.some.injEq, eq_comm]

theorem runs_shConnOpen {moved : Traffic} {value : Unit} :
    Runs moves shConnOpen moved value ↔ moved = 1 := by
  rw [shConnOpen, runs_call, moves, Option.some.injEq, eq_comm]

theorem runs_shConnClose {moved : Traffic} {value : Unit} :
    Runs moves shConnClose moved value ↔ moved = 1 := by
  rw [shConnClose, runs_call, moves, Option.some.injEq, eq_comm]

theorem runs_idle {α : Type} {program : ForkedProgram Unit} {after : Unit → ForkedProgram α}
    (idle : ∀ traffic value, Runs moves program traffic value ↔ traffic = 1) {moved : Traffic}
    {value : α} : Runs moves (program >>= after) moved value ↔ Runs moves (after ()) moved value := by
  rw [runs_bind_idle fun traffic result => (idle traffic result).mp]
  constructor
  · rintro ⟨_, _, runs⟩
    exact runs
  · intro runs
    exact ⟨(), (idle 1 ()).mpr rfl, runs⟩

theorem runs_sendInt {value : Bytes} (four : value.length = 4) {moved : Traffic} {ok : Bool} :
    Runs moves (sendInt value) moved ok ↔ moved = { toPeer := frame value } ∧ ok = true := by
  have some_bytes : value ≠ [] := by
    rintro rfl
    contradiction
  rw [sendInt, runs_connSend some_bytes]
  exact and_iff_right (by omega)

theorem frame_cancel {left right x y : Bytes} (leftShort : left.length < 2 ^ 31)
    (rightShort : right.length < 2 ^ 31) (same : frame left ++ x = frame right ++ y) :
    left = right ∧ x = y := by
  rw [frame, frame, List.append_assoc, List.append_assoc] at same
  obtain ⟨sizes, rest⟩ := List.append_inj same (by rw [sizeBytes_length, sizeBytes_length])
  have lengths := congrArg fromLittleEndian sizes
  rw [fromLittleEndian_sizeBytes (by omega), fromLittleEndian_sizeBytes (by omega)] at lengths
  exact List.append_inj rest lengths

theorem frame_prefix {left right x y : Bytes} (leftShort : left.length < 2 ^ 31)
    (rightShort : right.length < 2 ^ 31) (front : frame left ++ x <+: frame right ++ y) :
    left = right ∧ x <+: y := by
  obtain ⟨rest, same⟩ := front
  rw [List.append_assoc] at same
  obtain ⟨equal, behind⟩ := frame_cancel leftShort rightShort same
  exact ⟨equal, rest, behind⟩

theorem frame_ne_nil (text : Bytes) : frame text ≠ [] := by
  intro empty
  have length := congrArg List.length empty
  rw [frame, List.length_append, sizeBytes_length] at length
  simp at length

theorem frames_cancel {texts others : List Bytes} (short : ∀ text ∈ texts, text.length < 2 ^ 31)
    (otherShort : ∀ text ∈ others, text.length < 2 ^ 31)
    (same : texts.flatMap frame = others.flatMap frame) : texts = others := by
  induction texts generalizing others with
  | nil =>
      cases others with
      | nil => rfl
      | cons other others =>
          rw [List.flatMap_nil, List.flatMap_cons] at same
          exact absurd (List.append_eq_nil_iff.mp same.symm).1 (frame_ne_nil other)
  | cons text texts ih =>
      cases others with
      | nil =>
          rw [List.flatMap_nil, List.flatMap_cons] at same
          exact absurd (List.append_eq_nil_iff.mp same).1 (frame_ne_nil text)
      | cons other others =>
          obtain ⟨here, behind⟩ := List.forall_mem_cons.mp short
          obtain ⟨otherHere, otherBehind⟩ := List.forall_mem_cons.mp otherShort
          rw [List.flatMap_cons, List.flatMap_cons] at same
          obtain ⟨rfl, rest⟩ := frame_cancel here otherHere same
          rw [ih behind otherBehind rest]

theorem runs_forkedServer {backend : Backend} {moved : Traffic} {done : Bool} :
    Runs moves (forkedServer backend) moved done ↔ ∃ clientData rest,
      4 ≤ clientData.length ∧ clientData.length < 2 ^ 31 ∧
        Runs moves (execute backend (bytesInt (clientData.take 4))) rest done ∧
        moved = { fromPeer := frame clientData } * rest := by
  unfold forkedServer
  rw [runs_bind_idle fun _ _ => runs_uninitialised.mp]
  constructor
  · rintro ⟨length, _, runs⟩
    obtain ⟨_, received, rest, left, executes, rfl⟩ := runs_bind.mp runs
    obtain ⟨clientData, short, rfl, rfl⟩ := (runs_connReceive length.property).mp left
    dsimp only at executes
    by_cases enough : 4 ≤ clientData.length
    · rw [field_start enough] at executes
      exact ⟨clientData, rest, enough, short, executes, rfl⟩
    · rw [field_short (by omega)] at executes
      exact absurd executes not_runs_undefined
  · rintro ⟨clientData, rest, enough, short, executes, rfl⟩
    refine ⟨⟨sizeBytes 0, rfl⟩, runs_uninitialised.mpr rfl, runs_bind.mpr ⟨_, _, rest,
      (runs_connReceive (sizeBytes_length 0)).mpr ⟨clientData, short, rfl, rfl⟩, ?_, rfl⟩⟩
    dsimp only
    rw [field_start enough]
    exact executes

/-! The database server. -/

theorem runs_serverReads {count : Nat} {moved : Traffic} {text : Bytes} :
    Runs servingMoves (serverReads count) moved text ↔
      text.length = count ∧ moved = { toServer := text } := by
  induction count generalizing moved text with
  | zero =>
      rw [serverReads, runs_ret, List.length_eq_zero_iff]
      constructor
      · rintro ⟨rfl, rfl⟩
        exact ⟨rfl, rfl⟩
      · rintro ⟨rfl, rfl⟩
        exact ⟨rfl, rfl⟩
  | succ count ih =>
      rw [serverReads, runs_perform]
      constructor
      · rintro ⟨byte, first, _, known, behind, rfl⟩
        cases known
        obtain ⟨_, rest, _, left, ended, rfl⟩ := runs_bind.mp behind
        obtain ⟨length, rfl⟩ := ih.mp left
        obtain ⟨rfl, rfl⟩ := runs_ret.mp ended
        rw [mul_one]
        exact ⟨by simp [length], rfl⟩
      · rintro ⟨length, rfl⟩
        obtain ⟨byte, rest, rfl⟩ := List.exists_cons_of_length_eq_add_one length
        have whole := ih.mpr ⟨Nat.succ.inj length, rfl⟩
        exact ⟨byte, { toServer := [byte] }, { toServer := rest }, rfl,
          runs_bind.mpr ⟨_, rest, 1, whole, .ret _, (mul_one _).symm⟩, rfl⟩

theorem runs_serverWrites {data : Bytes} {moved : Traffic} {value : Unit} :
    Runs servingMoves (serverWrites data) moved value ↔ moved = { fromServer := data } := by
  induction data generalizing moved with
  | nil => exact runs_ret.trans (and_iff_left rfl)
  | cons byte rest ih =>
      rw [serverWrites, runs_perform]
      constructor
      · rintro ⟨_, first, _, known, behind, rfl⟩
        cases known
        obtain rfl := ih.mp behind
        rfl
      · rintro rfl
        exact ⟨(), { fromServer := [byte] }, { fromServer := rest }, rfl, ih.mpr rfl, rfl⟩

theorem not_runs_undefinedBehaviour {α : Type} {moved : Traffic} {value : α} :
    ¬Runs servingMoves (undefinedBehaviour : ServerProgram α) moved value := by
  intro runs
  obtain ⟨never, _⟩ := runs_perform.mp runs
  exact nomatch (never : Empty)

theorem runs_serve {c : Circumstances} {db : Database} {moved : Traffic} {store : Option Database} :
    Runs servingMoves (serve c db) moved store ↔ ∃ code rest, code.length = 4 ∧
      Runs servingMoves (if bytesInt code = cmdGetProducts then db.sendProducts c >>= fun _ => .ret (some db)
        else if bytesInt code = cmdPlaceOrder then db.placeOrder c
        else if bytesInt code = messageClose then .ret none
        else Program.call Serving.unknown >>= fun _ => .ret (some db)) rest store ∧
      moved = { toServer := code } * rest := by
  unfold serve
  rw [runs_bind]
  constructor
  · rintro ⟨_, code, rest, left, behind, rfl⟩
    obtain ⟨four, rfl⟩ := runs_serverReads.mp left
    exact ⟨code, rest, four, behind, rfl⟩
  · rintro ⟨code, rest, four, behind, rfl⟩
    exact ⟨_, code, rest, runs_serverReads.mpr ⟨four, rfl⟩, behind, rfl⟩

end Iac
