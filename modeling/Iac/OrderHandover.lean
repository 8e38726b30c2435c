import Iac.CommandFrames
import Iac.PipeProtocol
import Iac.Library.Plays

/-! What `processOrder` passes on to the database server of the bytes that it receives, in all
runs to its end, or to where it waits for a reply. -/

namespace Iac

open CText Interaction SharedPipe Program

variable {backend : Backend}

/-! The bytes that go through. -/

/-- Behind an undefined step there is nothing, and a reply may never come. -/
def stops : Action Local → Bool
  | .recv => true
  | .undefined => true
  | _ => false

def takenBytes : ForkedEvent → Bytes
  | ⟨.send byte, true⟩ => [byte]
  | _ => []

def lengthBytes : ForkedEvent → Bytes
  | ⟨.own .readLength, arrived⟩ => arrived.val
  | _ => []

def dataBytes : ForkedEvent → Bytes
  | ⟨.own (.readData _), arrived⟩ => arrived.val
  | _ => []

def written (trace : List ForkedEvent) : Bytes := trace.flatMap takenBytes

def lengthRead (trace : List ForkedEvent) : Bytes := trace.flatMap lengthBytes

def dataRead (trace : List ForkedEvent) : Bytes := trace.flatMap dataBytes

/-- The pipe to the database server does not fail. -/
def Unbroken (trace : List ForkedEvent) : Prop := ∀ event ∈ trace, ∀ byte, event ≠ ⟨.send byte, false⟩

/-- The client's length arrives as a whole and fits into an `int`, and so many bytes arrive
behind it. -/
structure ArrivesWhole (trace : List ForkedEvent) : Prop where
  header : (lengthRead trace).length = 8
  payload : (dataRead trace).length = fromLittleEndian (lengthRead trace)
  small : fromLittleEndian (lengthRead trace) < 2 ^ 31

/-- Either nothing is written, or one order that `conn_receive` returned with 1: the command,
the length and so many bytes, which is just what the database server reads. -/
inductive HandsOver (backend : Backend) (trace : List ForkedEvent) (ending : Ending (Action Local) Unit) :
    Prop
  | nothing (silent : written trace = []) (defined : ending ≠ .stopped .undefined)
  | order {serializedLen : Block 8} {receiving passing : List ForkedEvent} {received : Received}
      (split : trace = ⟨.own (.note (.enter .processOrder)), ()⟩ ::
        ⟨.own (.uninitialised 8), serializedLen⟩ :: (receiving ++ passing))
      (plays : Plays stops (connReceive backend serializedLen.val .stray) receiving (.returned received))
      (ok : received.ok = true)
      (sized : received.data.payload.length = fromLittleEndian received.length)
      (request : written trace =
        intBytes cmdPlaceOrder ++ (received.length ++ received.data.payload))
      (served : Requested (written trace))

theorem written_append (first second : List ForkedEvent) :
    written (first ++ second) = written first ++ written second :=
  List.flatMap_append

theorem unbroken_append {first second : List ForkedEvent} (unbroken : Unbroken (first ++ second)) :
    Unbroken first ∧ Unbroken second :=
  ⟨fun event member => unbroken event (List.mem_append_left second member),
    fun event member => unbroken event (List.mem_append_right first member)⟩

theorem unbroken_cons {event : ForkedEvent} {trace : List ForkedEvent}
    (unbroken : Unbroken (event :: trace)) : Unbroken trace :=
  fun other member => unbroken other (List.mem_cons_of_mem event member)

/-! Receiving. -/

def isReading : Action Local → Bool
  | .own .readLength => true
  | .own (.readData _) => true
  | _ => false

theorem unread_event {op : Action Local} (unread : isReading op = false)
    (answer : Action.Answer Local.Answer op) :
    lengthBytes ⟨op, answer⟩ = [] ∧ dataBytes ⟨op, answer⟩ = [] := by
  cases op with
  | own op =>
      cases op with
      | readLength => contradiction
      | readData size => contradiction
      | readNull => exact ⟨rfl, rfl⟩
      | write data => exact ⟨rfl, rfl⟩
      | malloc size => exact ⟨rfl, rfl⟩
      | uninitialised size => exact ⟨rfl, rfl⟩
      | note note => exact ⟨rfl, rfl⟩
  | lock => exact ⟨rfl, rfl⟩
  | unlock => exact ⟨rfl, rfl⟩
  | send byte => exact ⟨rfl, rfl⟩
  | recv => exact ⟨rfl, rfl⟩
  | undefined => exact ⟨rfl, rfl⟩

theorem plays_unread {α : Type} {program : ForkedProgram α} {trace : List ForkedEvent}
    {ending : Ending (Action Local) α} (only : Only (fun op => !isReading op) program)
    (plays : Plays stops program trace ending) : lengthRead trace = [] ∧ dataRead trace = [] := by
  have unread : ∀ event ∈ trace, isReading event.1 = false := fun event member =>
    Bool.not_eq_true' _ |>.mp (only_plays only plays event member)
  exact ⟨List.flatMap_eq_nil_iff.mpr fun event member => (unread_event (unread event member) event.2).1,
    List.flatMap_eq_nil_iff.mpr fun event member => (unread_event (unread event member) event.2).2⟩

theorem plays_own {α : Type} {op : Local} {after : op.Answer → ForkedProgram α}
    {trace : List ForkedEvent} {ending : Ending (Action Local) α}
    (plays : Plays stops (own op >>= after) trace ending) :
    ∃ answer behind, Plays stops (after answer) behind ending ∧ trace = ⟨.own op, answer⟩ :: behind :=
  plays_perform rfl plays

theorem plays_undefined {α : Type} {trace : List ForkedEvent} {ending : Ending (Action Local) α}
    (plays : Plays stops (undefinedStep : ForkedProgram α) trace ending) :
    trace = [] ∧ ending = .stopped .undefined :=
  plays_stop (fun never => nomatch never) plays

theorem readNothing_plays {size : Nat} {trace : List ForkedEvent}
    {ending : Ending (Action Local) Bool} (plays : Plays stops (readNothing size) trace ending) :
    ending = .returned (decide (size = 0)) ∧ lengthRead trace = [] ∧ dataRead trace = [] := by
  unfold readNothing at plays
  split at plays
  · rename_i empty
    obtain ⟨rfl, rfl⟩ := plays_ret plays
    exact ⟨by rw [decide_eq_true empty], rfl, rfl⟩
  · rename_i some_bytes
    obtain ⟨_, behind, later, rfl⟩ := plays_own plays
    obtain ⟨rfl, rfl⟩ := plays_ret later
    exact ⟨by rw [decide_eq_false some_bytes], rfl, rfl⟩

theorem readBlock_plays {block : Bytes} {trace : List ForkedEvent}
    {ending : Ending (Action Local) (Bool × Bytes)} (plays : Plays stops (readBlock block) trace ending) :
    lengthRead trace = [] ∧
      (ending = .stopped .undefined ∧ 2 ^ 31 ≤ block.length ∨
        ∃ contents, ending = .returned (decide ((dataRead trace).length = block.length), contents) ∧
          ((dataRead trace).length = block.length → block.length < 2 ^ 31 ∧ contents = dataRead trace)) := by
  unfold readBlock at plays
  split at plays
  · rename_i empty
    obtain ⟨rfl, rfl⟩ := plays_ret plays
    refine ⟨rfl, .inr ⟨block, ?_, ?_⟩⟩
    · rw [decide_eq_true (show (dataRead []).length = block.length from empty.symm)]
    · intro _
      exact ⟨by omega, List.length_eq_zero_iff.mp empty⟩
  · obtain ⟨arrived, behind, later, rfl⟩ := plays_own plays
    split at later
    · rename_i small
      obtain ⟨rfl, rfl⟩ := plays_ret later
      have read : dataRead [⟨.own (.readData block.length), arrived⟩] = arrived.val :=
        List.append_nil arrived.val
      refine ⟨rfl, .inr ⟨overlay block arrived.val, ?_, ?_⟩⟩
      · rw [read]
      · intro whole
        rw [read] at whole ⊢
        exact ⟨by omega, overlay_whole whole⟩
    · rename_i large
      obtain ⟨rfl, rfl⟩ := plays_undefined later
      have fits : arrived.val.length ≤ block.length := arrived.property
      exact ⟨rfl, .inl ⟨rfl, by omega⟩⟩

structure Brings (trace : List ForkedEvent) (received : Received) : Prop where
  ok_iff : received.ok = true ↔ ArrivesWhole trace
  length : received.ok = true → received.length = lengthRead trace
  data : received.ok = true → received.data ≠ .stray ∧ received.data.payload = dataRead trace

theorem Brings.of_lost {trace : List ForkedEvent} {received : Received} (failed : received.ok = false)
    (lost : ¬ArrivesWhole trace) : Brings trace received := by
  constructor
  · rw [failed]
    exact ⟨fun other => absurd other Bool.false_ne_true, fun whole => (lost whole).elim⟩
  · intro ok
    rw [failed] at ok
    contradiction
  · intro ok
    rw [failed] at ok
    contradiction

section

variable {length : Arrived 8} {size : Nat} {granted : Option (Block size)} {trace : List ForkedEvent}

abbrev opening (length : Arrived 8) (granted : Option (Block size)) : List ForkedEvent :=
  [⟨.own .readLength, length⟩, ⟨.own (.malloc size), granted⟩]

theorem lengthRead_opening (unread : lengthRead trace = []) :
    lengthRead (opening length granted ++ trace) = length.val := by
  have split : lengthRead (opening length granted ++ trace) = length.val ++ lengthRead trace := rfl
  rw [split, unread, List.append_nil]

theorem arrivesWhole_opening (eight : length.val.length = 8) (unread : lengthRead trace = []) :
    ArrivesWhole (opening length granted ++ trace) ↔
      (dataRead trace).length = fromLittleEndian length.val ∧ fromLittleEndian length.val < 2 ^ 31 := by
  constructor
  · rintro ⟨_, payload, small⟩
    rw [lengthRead_opening unread] at payload small
    exact ⟨payload, small⟩
  · rintro ⟨payload, small⟩
    constructor
    · rw [lengthRead_opening unread]
      exact eight
    · rw [lengthRead_opening unread]
      exact payload
    · rw [lengthRead_opening unread]
      exact small

theorem refused_brings {ok : Bool} (eight : length.val.length = 8)
    (plays : Plays stops (readNothing (fromLittleEndian length.val)) trace (.returned ok)) :
    Brings (opening length (@none (Block (fromLittleEndian length.val))) ++ trace)
      ⟨ok, length.val, .null⟩ := by
  obtain ⟨shown, unread, empty⟩ := readNothing_plays plays
  obtain rfl := Ending.returned.inj shown
  have whole := @arrivesWhole_opening length (fromLittleEndian length.val) none trace eight unread
  refine ⟨?_, fun _ => (lengthRead_opening unread).symm, fun _ => ⟨nofun, empty.symm⟩⟩
  dsimp only
  rw [decide_eq_true_iff]
  refine Iff.trans ?_ whole.symm
  rw [empty, List.length_nil]
  omega

theorem granted_brings {block : Block (fromLittleEndian length.val)} {contents : Bytes}
    (eight : length.val.length = 8) (plays : Plays stops (readBlock block.val) trace (.returned (true, contents))) :
    Brings (opening length (some block) ++ trace) ⟨true, length.val, .block contents⟩ := by
  obtain ⟨unread, ⟨stopped, _⟩ | ⟨_, shown, faithful⟩⟩ := readBlock_plays plays
  · contradiction
  · obtain ⟨every, rfl⟩ := Prod.mk.inj (Ending.returned.inj shown)
    obtain ⟨small, rfl⟩ := faithful (of_decide_eq_true every.symm)
    have whole := @arrivesWhole_opening length (fromLittleEndian length.val) (some block) trace eight unread
    rw [block.property] at every small
    refine ⟨⟨fun _ => whole.mpr ⟨of_decide_eq_true every.symm, small⟩, fun _ => rfl⟩, ?_, ?_⟩
    · exact fun _ => (lengthRead_opening unread).symm
    · exact fun _ => ⟨nofun, rfl⟩

theorem granted_lost {block : Block (fromLittleEndian length.val)} {contents : Bytes}
    (eight : length.val.length = 8) (plays : Plays stops (readBlock block.val) trace (.returned (false, contents))) :
    ¬ArrivesWhole (opening length (some block) ++ trace) := by
  obtain ⟨unread, ⟨stopped, _⟩ | ⟨_, shown, _⟩⟩ := readBlock_plays plays
  · contradiction
  · obtain ⟨missing, rfl⟩ := Prod.mk.inj (Ending.returned.inj shown)
    rw [block.property] at missing
    intro arrives
    exact of_decide_eq_false missing.symm ((arrivesWhole_opening eight unread).mp arrives).1

end

theorem connReceive_plays {serializedLen : Block 8} {trace : List ForkedEvent}
    {ending : Ending (Action Local) Received}
    (plays : Plays stops (connReceive backend serializedLen.val .stray) trace ending) :
    ending = .stopped .undefined ∧ ¬ArrivesWhole trace ∨
      ∃ received, ending = .returned received ∧ Brings trace received := by
  unfold connReceive at plays
  obtain ⟨length, behind, later, rfl⟩ := plays_own plays
  dsimp only at later
  have fits : length.val.length ≤ 8 := length.property
  split at later
  · rename_i short
    obtain ⟨rfl, rfl⟩ := plays_ret later
    refine .inr ⟨_, rfl, .of_lost rfl ?_⟩
    intro whole
    have header : (length.val ++ []).length = 8 := whole.header
    rw [List.append_nil] at header
    omega
  · have eight : length.val.length = 8 := by omega
    rw [overlay_whole (eight.trans serializedLen.property.symm)] at later
    obtain ⟨granted, rest, last, rfl⟩ := plays_own later
    cases granted with
    | none =>
        rcases plays_bind last with ⟨ok, before, behind, first, second, rfl⟩ | ⟨op, first, rfl⟩
        · obtain ⟨rfl, rfl⟩ := plays_ret second
          rw [List.append_nil]
          exact .inr ⟨_, rfl, refused_brings eight first⟩
        · have shown := (readNothing_plays first).1
          contradiction
    | some block =>
        have sized : block.val.length = fromLittleEndian length.val := block.property
        rcases plays_bind last with ⟨⟨ok, contents⟩, before, behind, first, second, rfl⟩ | ⟨op, first, rfl⟩
        · cases ok with
          | true =>
              obtain ⟨rfl, rfl⟩ := plays_ret second
              rw [List.append_nil]
              exact .inr ⟨_, rfl, granted_brings eight first⟩
          | false =>
              have lost := granted_lost eight first
              cases backend with
              | sockets =>
                  obtain ⟨rfl, rfl⟩ := plays_ret second
                  rw [List.append_nil]
                  exact .inr ⟨_, rfl, .of_lost rfl lost⟩
              | fifos =>
                  obtain ⟨rfl, rfl⟩ := plays_ret second
                  rw [List.append_nil]
                  exact .inr ⟨_, rfl, .of_lost rfl lost⟩
        · obtain ⟨unread, ⟨stopped, large⟩ | ⟨_, shown, _⟩⟩ := readBlock_plays first
          · refine .inl ⟨congrArg _ (Ending.stopped.inj stopped), ?_⟩
            intro whole
            have small := ((arrivesWhole_opening eight unread).mp whole).2
            omega
          · contradiction

/-! Passing on. -/

def isSend : Action Local → Bool
  | .send _ => true
  | _ => false

theorem unsent_event {op : Action Local} (unsent : isSend op = false)
    (answer : Action.Answer Local.Answer op) : takenBytes ⟨op, answer⟩ = [] := by
  cases op with
  | send byte => contradiction
  | own op => rfl
  | lock => rfl
  | unlock => rfl
  | recv => rfl
  | undefined => rfl

theorem answering_plain {op : Action Local} (answers : isAnswering op = true) :
    isSend op = false ∧ isReading op = false := by
  cases op with
  | own op =>
      cases op with
      | readLength => contradiction
      | readData size => contradiction
      | readNull => contradiction
      | write data => exact ⟨rfl, rfl⟩
      | malloc size => exact ⟨rfl, rfl⟩
      | uninitialised size => contradiction
      | note note => contradiction
  | lock => contradiction
  | unlock => contradiction
  | send byte => contradiction
  | recv => exact ⟨rfl, rfl⟩
  | undefined => exact ⟨rfl, rfl⟩

section

variable {α : Type} {trace : List ForkedEvent} {ending : Ending (Action Local) α}

theorem plays_unsent {program : ForkedProgram α} (only : Only (fun op => !isSend op) program)
    (plays : Plays stops program trace ending) : written trace = [] := by
  refine List.flatMap_eq_nil_iff.mpr ?_
  intro event member
  exact unsent_event (Bool.not_eq_true' _ |>.mp (only_plays only plays event member)) event.2

theorem writeBytes_plays {data : Bytes} {ending : Ending (Action Local) Bool} (unbroken : Unbroken trace)
    (plays : Plays stops (writeBytes data) trace ending) :
    ending = .returned true ∧ written trace = data := by
  induction data generalizing trace with
  | nil =>
      obtain ⟨rfl, rfl⟩ := plays_ret plays
      exact ⟨rfl, rfl⟩
  | cons byte data ih =>
      obtain ⟨sent, behind, later, rfl⟩ := plays_perform rfl plays
      cases sent with
      | true =>
          obtain ⟨rfl, rest⟩ := ih (unbroken_cons unbroken) later
          exact ⟨rfl, congrArg (byte :: ·) rest⟩
      | false => exact (unbroken _ List.mem_cons_self byte rfl).elim

theorem ensureWrite_plays {data : Bytes} {after : Bool → ForkedProgram α} (small : data.length < 2 ^ 31)
    (unbroken : Unbroken trace) (plays : Plays stops (ensureWrite data >>= after) trace ending) :
    ∃ before behind, trace = before ++ behind ∧ written before = data ∧
      Plays stops (after true) behind ending := by
  rw [ensureWrite_small small] at plays
  rcases plays_bind plays with ⟨value, before, behind, first, second, rfl⟩ | ⟨op, first, rfl⟩
  · obtain ⟨shown, whole⟩ := writeBytes_plays (unbroken_append unbroken).1 first
    obtain rfl := Ending.returned.inj shown
    exact ⟨before, behind, rfl, whole, second⟩
  · exact nomatch (writeBytes_plays unbroken first).1

theorem forward_plays {data : Pointer} {size : Nat} {after : Bool → ForkedProgram α}
    (known : data ≠ .stray) (sized : data.payload.length = size) (small : size < 2 ^ 31)
    (unbroken : Unbroken trace) (plays : Plays stops (data.forward size >>= after) trace ending) :
    ∃ before behind, trace = before ++ behind ∧ written before = data.payload ∧
      Plays stops (after true) behind ending := by
  unfold Pointer.forward at plays
  split at plays
  · rename_i empty
    refine ⟨[], trace, rfl, ?_, plays⟩
    exact (List.length_eq_zero_iff.mp (sized.trans empty)).symm
  · rename_i some_bytes
    cases data with
    | null => exact absurd sized.symm some_bytes
    | stray => contradiction
    | block contents =>
        have fits : contents.length < 2 ^ 31 := by
          have same : contents.length = size := sized
          omega
        exact ensureWrite_plays fits unbroken plays

end

section

variable {received : Received} {trace : List ForkedEvent} {ending : Ending (Action Local) Unit}

theorem passOrder_writes (unbroken : Unbroken trace) (plays : Plays stops (passOrder received) trace ending) :
    written trace ≠ [] := by
  obtain ⟨_, behind, later, rfl⟩ := plays_perform rfl plays
  obtain ⟨before, rest, rfl, command, _⟩ := ensureWrite_plays (by decide) (unbroken_cons unbroken) later
  intro silent
  have split : written before ++ written rest = [] := (written_append before rest).symm.trans silent
  rw [command] at split
  exact intBytes_ne_nil _ (List.append_eq_nil_iff.mp split).1

theorem reply_unsent (data : Pointer) (length : Bytes) : Only (fun op => !isSend op) (do
    data.free
    relayReply length
    shConnClose) := by
  have plain : ∀ op, isAnswering op = true → (!isSend op) = true := fun op answers =>
    Bool.not_eq_true' _ |>.mpr (answering_plain answers).1
  refine only_bind ((writes_answers (free_writes data)).mono plain) fun _ => ?_
  exact only_bind ((relayReply_answers length).mono plain) fun _ => only_call rfl

theorem passOrder_written (eight : received.length.length = 8) (known : received.data ≠ .stray)
    (sized : received.data.payload.length = fromLittleEndian received.length)
    (small : fromLittleEndian received.length < 2 ^ 31) (unbroken : Unbroken trace)
    (plays : Plays stops (passOrder received) trace ending) :
    written trace = intBytes cmdPlaceOrder ++ (received.length ++ received.data.payload) := by
  obtain ⟨_, behind, later, rfl⟩ := plays_perform rfl plays
  have kept := unbroken_cons unbroken
  obtain ⟨first, behind, rfl, command, later⟩ := ensureWrite_plays (by decide) kept later
  have kept := (unbroken_append kept).2
  obtain ⟨second, behind, rfl, length, later⟩ := ensureWrite_plays (by omega) kept later
  have kept := (unbroken_append kept).2
  obtain ⟨third, rest, rfl, payload, later⟩ := forward_plays known sized small kept later
  have silent := plays_unsent (reply_unsent _ _) later
  change written (first ++ (second ++ (third ++ rest))) = _
  rw [written_append, written_append, written_append, command, length, payload, silent, List.append_nil]

end

theorem passOrder_unread (received : Received) : Only (fun op => !isReading op) (passOrder received) := by
  have plain : ∀ op, isAnswering op = true → (!isReading op) = true := fun op answers =>
    Bool.not_eq_true' _ |>.mpr (answering_plain answers).2
  have sends : ∀ op, isSending op = true → (!isReading op) = true := by
    intro op sends
    cases op with
    | send byte => rfl
    | undefined => rfl
    | own op => contradiction
    | lock => contradiction
    | unlock => contradiction
    | recv => contradiction
  refine only_bind (only_call rfl) fun _ => ?_
  refine only_bind ((ensureWrite_sends _).mono sends) fun _ => ?_
  refine only_bind ((ensureWrite_sends _).mono sends) fun _ => ?_
  refine only_bind ((forward_sends _ _).mono sends) fun _ => ?_
  refine only_bind ((writes_answers (free_writes _)).mono plain) fun _ => ?_
  exact only_bind ((relayReply_answers _).mono plain) fun _ => only_call rfl

/-! The whole of `processOrder`. -/

abbrev entering (serializedLen : Block 8) : List ForkedEvent :=
  [⟨.own (.note (.enter .processOrder)), ()⟩, ⟨.own (.uninitialised 8), serializedLen⟩]

theorem receiving_unsent {serializedLen : Bytes} {data : Pointer} {receiving : List ForkedEvent}
    {ending : Ending (Action Local) Received}
    (plays : Plays stops (connReceive backend serializedLen data) receiving ending) :
    written receiving = [] := by
  refine plays_unsent ((connReceive_listens serializedLen data).mono ?_) plays
  intro op relays
  cases op with
  | send byte => contradiction
  | lock => contradiction
  | unlock => contradiction
  | own op => rfl
  | recv => rfl
  | undefined => rfl

theorem processOrder_plays {trace : List ForkedEvent} {ending : Ending (Action Local) Unit}
    (plays : Plays stops (processOrder backend) trace ending) :
    ∃ serializedLen : Block 8,
      (∃ receiving, trace = entering serializedLen ++ (receiving ++ []) ∧ ending = .stopped .undefined ∧
        written receiving = [] ∧ ¬ArrivesWhole receiving) ∨
      ∃ receiving passing received, trace = entering serializedLen ++ (receiving ++ passing) ∧
        written receiving = [] ∧
        Plays stops (connReceive backend serializedLen.val .stray) receiving (.returned received) ∧
        Plays stops (passOrder received >>= fun _ => mark (.leave .processOrder)) passing ending ∧
        Brings receiving received := by
  obtain ⟨_, behind, later, rfl⟩ := plays_own plays
  obtain ⟨serializedLen, rest, last, rfl⟩ := plays_own later
  refine ⟨serializedLen, ?_⟩
  rcases plays_bind last with ⟨received, receiving, passing, first, second, rfl⟩ | ⟨op, first, rfl⟩
  · right
    rcases connReceive_plays first with ⟨stopped, _⟩ | ⟨other, shown, brings⟩
    · contradiction
    · obtain rfl := Ending.returned.inj shown
      exact ⟨receiving, passing, received, rfl, receiving_unsent first, first, second, brings⟩
  · left
    rcases connReceive_plays first with ⟨stopped, lost⟩ | ⟨other, shown, _⟩
    · rw [← List.append_nil rest]
      exact ⟨rest, rfl, congrArg _ (Ending.stopped.inj stopped), receiving_unsent first, lost⟩
    · contradiction

theorem arrivesWhole_entering {serializedLen : Block 8} {receiving passing : List ForkedEvent}
    (unread : lengthRead passing = [] ∧ dataRead passing = []) :
    ArrivesWhole (entering serializedLen ++ (receiving ++ passing)) ↔ ArrivesWhole receiving := by
  have length : lengthRead (entering serializedLen ++ (receiving ++ passing)) = lengthRead receiving := by
    change lengthRead (receiving ++ passing) = _
    rw [lengthRead, List.flatMap_append]
    exact (congrArg _ unread.1).trans (List.append_nil _)
  have data : dataRead (entering serializedLen ++ (receiving ++ passing)) = dataRead receiving := by
    change dataRead (receiving ++ passing) = _
    rw [dataRead, List.flatMap_append]
    exact (congrArg _ unread.2).trans (List.append_nil _)
  constructor
  · rintro ⟨header, payload, small⟩
    rw [length] at header payload small
    rw [data] at payload
    exact ⟨header, payload, small⟩
  · rintro ⟨header, payload, small⟩
    rw [← length] at header payload small
    rw [← data] at payload
    exact ⟨header, payload, small⟩

theorem passing_unread {received : Received} {passing : List ForkedEvent}
    {ending : Ending (Action Local) Unit}
    (plays : Plays stops (passOrder received >>= fun _ => mark (.leave .processOrder)) passing ending) :
    lengthRead passing = [] ∧ dataRead passing = [] :=
  plays_unread (only_bind (passOrder_unread received) fun _ => only_call rfl) plays

theorem passing_written {received : Received} {passing : List ForkedEvent}
    {ending : Ending (Action Local) Unit}
    (plays : Plays stops (passOrder received >>= fun _ => mark (.leave .processOrder)) passing ending) :
    ∃ before result, Plays stops (passOrder received) before result ∧ written passing = written before ∧
      (Unbroken passing → Unbroken before) := by
  rcases plays_bind plays with ⟨value, before, behind, first, second, rfl⟩ | ⟨op, first, _⟩
  · refine ⟨before, _, first, ?_, fun unbroken => (unbroken_append unbroken).1⟩
    have silent := plays_unsent (only_call rfl) second
    rw [written_append, silent, List.append_nil]
  · exact ⟨passing, _, first, rfl, id⟩

section

variable {trace : List ForkedEvent} {ending : Ending (Action Local) Unit}

theorem handsOver_of_whole (plays : Plays stops (processOrder backend) trace ending)
    (unbroken : Unbroken trace) (whole : ArrivesWhole trace) : HandsOver backend trace ending := by
  obtain ⟨serializedLen, ⟨receiving, rfl, _, _, lost⟩ | ⟨receiving, passing, received, rfl, silent,
    first, second, brings⟩⟩ := processOrder_plays plays
  · exact (lost ((arrivesWhole_entering ⟨rfl, rfl⟩).mp whole)).elim
  · have arrives := (arrivesWhole_entering (passing_unread second)).mp whole
    have ok := brings.ok_iff.mpr arrives
    obtain ⟨known, payload⟩ := brings.data ok
    have length := brings.length ok
    have eight : received.length.length = 8 := length ▸ arrives.header
    have sized : received.data.payload.length = fromLittleEndian received.length := by
      rw [payload, length]
      exact arrives.payload
    obtain ⟨before, result, third, same, kept⟩ := passing_written second
    have request : written (entering serializedLen ++ (receiving ++ passing)) =
        intBytes cmdPlaceOrder ++ (received.length ++ received.data.payload) := by
      change written (receiving ++ passing) = _
      rw [written_append, silent, List.nil_append, same]
      refine passOrder_written eight known sized (length ▸ arrives.small) ?_ third
      exact kept (unbroken_append (unbroken_append unbroken).2).2
    refine @HandsOver.order backend _ ending serializedLen receiving passing received rfl first ok sized
      request ?_
    rw [request]
    exact requested_whole eight sized

theorem whole_of_handsOver (plays : Plays stops (processOrder backend) trace ending)
    (unbroken : Unbroken trace) (hands : HandsOver backend trace ending) : ArrivesWhole trace := by
  obtain ⟨serializedLen, ⟨receiving, rfl, stopped, silent, _⟩ | ⟨receiving, passing, received, rfl,
    silent, first, second, brings⟩⟩ := processOrder_plays plays
  · cases hands with
    | nothing _ defined => exact (defined stopped).elim
    | order _ _ _ _ request _ =>
        rw [List.append_nil] at request
        exact (intBytes_ne_nil _ (List.append_eq_nil_iff.mp (request.symm.trans silent)).1).elim
  · rw [arrivesWhole_entering (passing_unread second), ← brings.ok_iff]
    cases hands with
    | nothing none_written _ =>
        obtain ⟨before, result, third, same, kept⟩ := passing_written second
        have unbroken := kept (unbroken_append (unbroken_append unbroken).2).2
        refine (passOrder_writes unbroken third ?_).elim
        have both : written (receiving ++ passing) = [] := none_written
        rw [written_append, silent, List.nil_append] at both
        exact same.symm.trans both
    | order split again ok _ _ _ =>
        obtain ⟨event, same⟩ := List.cons.inj (List.cons.inj split).2
        cases event
        obtain ⟨_, rfl⟩ := plays_unique first again same
        exact ok

/-- Exactly for the orders that arrive as a whole, nothing or a whole order reaches the database
server. -/
theorem order_handed_over (plays : Plays stops (processOrder backend) trace ending)
    (unbroken : Unbroken trace) : HandsOver backend trace ending ↔ ArrivesWhole trace :=
  ⟨whole_of_handsOver plays unbroken, handsOver_of_whole plays unbroken⟩

end

/-- A client sends `data`, and the connection breaks behind the first `kept` bytes. -/
def breaking (data : Bytes) (kept : Nat) : (op : Action Local) → Option (Action.Answer Local.Answer op)
  | .lock => some ()
  | .unlock => some ()
  | .send _ => some true
  | .recv => none
  | .own (.readData size) => some ⟨(data.take kept).take size, List.length_take_le _ _⟩
  | .own op => some (sends data op)
  | .undefined => none

theorem breaking_stops {data : Bytes} {kept : Nat} (op : Action Local)
    (unanswered : breaking data kept op = none) : stops op = true := by
  cases op with
  | lock => contradiction
  | unlock => contradiction
  | send byte => contradiction
  | recv => rfl
  | own op => cases op <;> contradiction
  | undefined => rfl

theorem breaking_unbroken {α : Type} {data : Bytes} {kept : Nat} (program : ForkedProgram α) :
    Unbroken (program.play (breaking data kept)).1 := by
  induction program with
  | ret value => exact fun event member => absurd member List.not_mem_nil
  | perform op next ih =>
      rw [play]
      cases answered : breaking data kept op with
      | none => exact fun event member => absurd member List.not_mem_nil
      | some answer =>
          intro event member byte failed
          rcases List.mem_cons.mp member with rfl | later
          · cases failed
            exact absurd (Option.some.inj answered).symm Bool.false_ne_true
          · exact ih answer event later byte failed

theorem order_handed_over_vodka :
    let played := (processOrder .sockets).play (breaking vodkaRequest 200)
    written played.1 = intBytes cmdPlaceOrder ++ (sizeBytes vodkaRequest.length ++ vodkaRequest) ∧
      (HandsOver .sockets played.1 played.2 ↔ ArrivesWhole played.1) :=
  ⟨by decide +kernel, order_handed_over (play_plays breaking_stops _) (breaking_unbroken _)⟩

/-- With sockets the bytes that did not arrive are passed on as if they had. -/
theorem order_broken_off :
    ∃ trace ending, Plays stops (processOrder .sockets) trace ending ∧ Unbroken trace ∧
      ¬HandsOver .sockets trace ending := by
  let played := (processOrder .sockets).play (breaking vodkaRequest 10)
  have plays : Plays stops (processOrder .sockets) played.1 played.2 := play_plays breaking_stops _
  have unbroken : Unbroken played.1 := breaking_unbroken _
  refine ⟨played.1, played.2, plays, unbroken, ?_⟩
  intro hands
  have whole := (whole_of_handsOver plays unbroken hands).payload
  have cut : (dataRead played.1).length ≠ fromLittleEndian (lengthRead played.1) := by
    decide +kernel
  exact cut whole

end Iac
