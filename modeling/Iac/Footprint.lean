import Iac.ForkedServer

/-! Which operations the parts of a forked server perform. -/

namespace Iac

open CText Interaction SharedPipe Program

variable {backend : Backend}

/-- On the pipe to the database server. -/
def isSending : Action Local → Bool
  | .send _ => true
  | .undefined => true
  | _ => false

/-- To the client. -/
def isWriting : Action Local → Bool
  | .own (.write _) => true
  | .undefined => true
  | _ => false

/-- Bringing an answer of the database server to the client. -/
def isAnswering : Action Local → Bool
  | .recv => true
  | .own (.malloc _) => true
  | op => isWriting op

/-- Reading from the client. -/
def isListening : Action Local → Bool
  | .own (.write _) => false
  | .own (.note _) => false
  | .own _ => true
  | .undefined => true
  | _ => false

/-- All but the mutex, the pipe to the database server, and marks. -/
def isRelaying : Action Local → Bool
  | .recv => true
  | .own (.note _) => false
  | .own _ => true
  | .undefined => true
  | _ => false

/-- All but the mutex and marks. -/
def isNeutral : Action Local → Bool
  | .send _ => true
  | op => isRelaying op

/-- All but marks. -/
def isUnmarked : Action Local → Bool
  | .own (.note _) => false
  | _ => true

section

variable {α : Type} {program : ForkedProgram α}

theorem only_undefined {good : Action Local → Bool} (here : good .undefined = true) :
    Only good (undefinedStep : ForkedProgram α) :=
  .perform here fun never => nomatch never

theorem sends_neutral (sends : Only isSending program) : Only isNeutral program := by
  refine sends.mono ?_
  intro op here
  cases op with
  | send byte => rfl
  | undefined => rfl
  | lock => contradiction
  | unlock => contradiction
  | recv => contradiction
  | own op => contradiction

theorem writes_answers (writes : Only isWriting program) : Only isAnswering program := by
  refine writes.mono ?_
  intro op here
  cases op with
  | own op =>
      cases op with
      | write data => rfl
      | note note => contradiction
      | readLength => contradiction
      | readData size => contradiction
      | readNull => contradiction
      | malloc size => rfl
      | uninitialised size => contradiction
  | undefined => rfl
  | lock => contradiction
  | unlock => contradiction
  | recv => rfl
  | send byte => contradiction

theorem answers_relays (answers : Only isAnswering program) : Only isRelaying program := by
  refine answers.mono ?_
  intro op here
  cases op with
  | own op =>
      cases op with
      | write data => rfl
      | note note => contradiction
      | readLength => rfl
      | readData size => rfl
      | readNull => rfl
      | malloc size => rfl
      | uninitialised size => rfl
  | undefined => rfl
  | lock => contradiction
  | unlock => contradiction
  | recv => rfl
  | send byte => contradiction

theorem listens_relays (listens : Only isListening program) : Only isRelaying program := by
  refine listens.mono ?_
  intro op here
  cases op with
  | own op =>
      cases op with
      | write data => contradiction
      | note note => contradiction
      | readLength => rfl
      | readData size => rfl
      | readNull => rfl
      | malloc size => rfl
      | uninitialised size => rfl
  | undefined => rfl
  | lock => contradiction
  | unlock => contradiction
  | recv => contradiction
  | send byte => contradiction

theorem relays_neutral (relays : Only isRelaying program) : Only isNeutral program := by
  refine relays.mono ?_
  intro op here
  cases op with
  | send byte => rfl
  | undefined => rfl
  | lock => contradiction
  | unlock => contradiction
  | recv => rfl
  | own op => exact here

theorem writes_neutral (writes : Only isWriting program) : Only isNeutral program :=
  relays_neutral (answers_relays (writes_answers writes))

theorem neutral_unmarked (neutral : Only isNeutral program) : Only isUnmarked program := by
  refine neutral.mono ?_
  intro op here
  cases op with
  | send byte => rfl
  | undefined => rfl
  | lock => contradiction
  | unlock => contradiction
  | recv => rfl
  | own op =>
      cases op with
      | note note => contradiction
      | write data => rfl
      | readLength => rfl
      | readData size => rfl
      | readNull => rfl
      | malloc size => rfl
      | uninitialised size => rfl

end

/-! The pipes. -/

theorem writeBytes_sends (data : Bytes) : Only isSending (writeBytes data : ForkedProgram Bool) := by
  induction data with
  | nil => exact .ret true
  | cons byte data ih =>
      refine .perform rfl ?_
      intro sent
      cases sent with
      | true => exact ih
      | false => exact .ret false

theorem ensureWrite_sends (data : Bytes) : Only isSending (ensureWrite data) := by
  unfold ensureWrite
  split
  · exact writeBytes_sends data
  · exact only_undefined rfl

theorem readBytes_answers (dest : Bytes) :
    Only isAnswering (readBytes dest : ForkedProgram (Bool × Bytes)) := by
  induction dest with
  | nil => exact .ret _
  | cons byte dest ih =>
      refine .perform rfl ?_
      intro got
      cases got with
      | none => exact .ret _
      | some byte => exact only_bind ih fun _ => .ret _

theorem ensureRead_answers (dest : Bytes) : Only isAnswering (ensureRead dest) := by
  unfold ensureRead
  split
  · exact readBytes_answers dest
  · exact only_undefined rfl

/-! The client's connection. -/

theorem clientWrite_writes (data : Bytes) : Only isWriting (clientWrite data) := by
  unfold clientWrite
  split
  · exact only_call rfl
  · exact only_undefined rfl

theorem connSend_writes (data : Pointer) (length : Nat) : Only isWriting (connSend data length) := by
  unfold connSend
  split
  · exact .ret true
  · refine only_bind (only_call rfl) ?_
    intro sent
    split
    · cases data with
      | null => exact .ret false
      | block contents => exact clientWrite_writes contents
      | stray => exact only_undefined rfl
    · exact .ret false

theorem readBlock_listens (block : Bytes) : Only isListening (readBlock block) := by
  unfold readBlock
  split
  · exact .ret _
  · refine only_bind (only_call rfl) ?_
    intro arrived
    split
    · exact .ret _
    · exact only_undefined rfl

theorem readNothing_listens (size : Nat) : Only isListening (readNothing size) := by
  unfold readNothing
  split
  · exact .ret true
  · exact only_bind (only_call rfl) fun _ => .ret false

theorem connReceive_listens (length : Bytes) (data : Pointer) :
    Only isListening (connReceive backend length data) := by
  unfold connReceive
  refine only_bind (only_call rfl) ?_
  intro arrived
  dsimp only
  split
  · exact .ret _
  · refine only_bind (only_call rfl) ?_
    intro granted
    cases granted with
    | none => exact only_bind (readNothing_listens _) fun _ => .ret _
    | some block =>
        refine only_bind (readBlock_listens block.val) ?_
        intro result
        split
        · exact .ret _
        · exact .ret _

/-! The handlers. -/

theorem forward_sends (data : Pointer) (size : Nat) : Only isSending (data.forward size) := by
  unfold Pointer.forward
  split
  · exact .ret true
  · cases data with
    | null => exact .ret false
    | block contents => exact ensureWrite_sends contents
    | stray => exact only_undefined rfl

theorem free_writes (data : Pointer) : Only isWriting data.free := by
  cases data with
  | null => exact .ret ()
  | block contents => exact .ret ()
  | stray => exact only_undefined rfl

theorem relayOrder_answers (serializedLen : Bytes) : Only isAnswering (relayOrder serializedLen) := by
  unfold relayOrder
  refine only_bind (ensureRead_answers _) ?_
  intro size
  refine only_bind (only_call rfl) ?_
  intro granted
  cases granted with
  | none => exact only_bind (writes_answers (connSend_writes _ _)) fun _ => .ret ()
  | some block =>
      refine only_bind (ensureRead_answers _) ?_
      intro contents
      exact only_bind (writes_answers (connSend_writes _ _)) fun _ => .ret ()

theorem relayReply_answers (serializedLen : Bytes) : Only isAnswering (relayReply serializedLen) := by
  unfold relayReply
  refine only_bind (ensureRead_answers _) ?_
  intro code
  refine only_bind (writes_answers (connSend_writes _ _)) ?_
  intro _
  split
  · exact relayOrder_answers _
  · exact .ret ()

theorem passOrder_unmarked (received : Received) : Only isUnmarked (passOrder received) := by
  refine only_bind (only_call rfl) fun _ => ?_
  refine only_bind (neutral_unmarked (sends_neutral (ensureWrite_sends _))) fun _ => ?_
  refine only_bind (neutral_unmarked (sends_neutral (ensureWrite_sends _))) fun _ => ?_
  refine only_bind (neutral_unmarked (sends_neutral (forward_sends _ _))) fun _ => ?_
  refine only_bind (neutral_unmarked (writes_neutral (free_writes _))) fun _ => ?_
  refine only_bind (neutral_unmarked (relays_neutral (answers_relays (relayReply_answers _)))) fun _ => ?_
  exact only_call rfl

theorem readProducts_relays (array : Bool) (count : Nat) : Only isRelaying (readProducts array count) := by
  induction count with
  | zero => exact .ret _
  | succ count ih =>
      rw [readProducts]
      refine only_bind (only_call rfl) ?_
      intro serializedLen
      refine only_bind (answers_relays (ensureRead_answers _)) ?_
      rintro ⟨ok, length⟩
      dsimp only
      split
      · refine only_bind (only_call rfl) ?_
        intro granted
        cases granted with
        | none =>
            dsimp only
            split
            · exact only_undefined rfl
            · exact .ret _
        | some block =>
            refine only_bind (answers_relays (ensureRead_answers _)) ?_
            rintro ⟨ok, serialized⟩
            dsimp only
            split
            · split
              · exact only_bind ih fun _ => .ret _
              · exact only_undefined rfl
            · exact .ret _
      · exact .ret _

theorem requestProducts_unmarked : Only isUnmarked requestProducts := by
  unfold requestProducts
  refine only_bind (only_call rfl) ?_
  intro _
  refine only_bind (neutral_unmarked (sends_neutral (ensureWrite_sends _))) ?_
  intro sent
  split
  · refine only_bind (neutral_unmarked (relays_neutral (answers_relays (ensureRead_answers _)))) ?_
    rintro ⟨ok, code⟩
    dsimp only
    split
    · exact .ret _
    · refine only_bind (only_call rfl) ?_
      intro destArray
      refine only_bind (neutral_unmarked (relays_neutral (readProducts_relays _ _))) ?_
      intro result
      cases result with
      | none => exact .ret _
      | some products => exact only_bind (only_call rfl) fun _ => .ret _
  · exact .ret _

theorem sendAll_writes (products : List Product) : Only isWriting (sendAll products) := by
  induction products with
  | nil => exact .ret ()
  | cons product rest ih =>
      rw [sendAll]
      cases productSerialize product with
      | none => exact only_undefined rfl
      | some serialized => exact only_bind (connSend_writes _ _) fun _ => ih

theorem sendListing_writes (numProducts : Int32) (products : List Product) :
    Only isWriting (if numProducts = -1 then do
        let _ ← sendInt (intBytes messageError)
      else do
        let _ ← sendInt (intBytes numProducts)
        sendAll products) := by
  split
  · exact only_bind (connSend_writes _ _) fun _ => .ret _
  · exact only_bind (connSend_writes _ _) fun _ => sendAll_writes _

theorem shutDown_writes : Only isWriting (shutDown backend) := by
  cases backend with
  | sockets => exact only_bind (connSend_writes _ _) fun _ => .ret ()
  | fifos => exact .ret ()

end Iac
