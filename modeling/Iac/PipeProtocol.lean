import Iac.ForkedServer

/-! A forked server keeps to the protocol of the shared pipes: it writes whole requests, and
it reads the replies of the database server to their last byte. -/

namespace Iac

open CText Interaction SharedPipe

/-- What a run must grant the forked servers. With sockets a block that could not be filled
is kept, and its whole length is passed on. -/
structure Orderly {backend : Backend} (rules : Rules (system backend)) : Prop where
  length : ∀ arrived : Arrived 8, rules.answers .readLength arrived → arrived.val.length = 8
  data : ∀ (size : Nat) (arrived : Arrived size), backend = .fifos →
    rules.answers (.readData size) arrived → arrived.val.length = size
  memory : ∀ (size : Nat) (block : Option (Block size)), rules.answers (.malloc size) block →
    size < mallocLimit → block.isSome
  listed : rules.strict = true → ∀ (c : Circumstances) (db : Database), rules.begins c db →
    db.getProducts c ≠ some none

section

variable {backend : Backend} {rules : Rules (system backend)}

/-! Steps between the exchanges. -/

theorem keeps_call {α : Type} {ends : α → Phase → Prop} {phase : Phase}
    (free : phase.isFree = true) {op : Local} {after : op.Answer → ForkedProgram α}
    (later : ∀ answer, rules.answers op answer → Keeps rules ends (after answer) phase) :
    Keeps rules ends (own op >>= after) phase :=
  keeps_own free later

theorem clientWrite_keeps {phase : Phase} (free : phase.isFree = true) (data : Bytes) :
    Keeps rules (fun _ after => after = phase) (clientWrite data) phase := by
  unfold clientWrite
  split
  · exact keeps_own free fun _ _ => keeps_ret rfl
  · exact keeps_undefined free

theorem connSend_keeps {phase : Phase} (free : phase.isFree = true) (data : Pointer)
    (length : Nat) :
    Keeps rules (fun _ after => after = phase) (connSend data length) phase := by
  unfold connSend
  split
  · exact keeps_ret rfl
  · apply keeps_call free
    intro sent _
    split
    · cases data with
      | null => exact keeps_ret rfl
      | block contents => exact clientWrite_keeps free contents
      | stray => exact keeps_undefined free
    · exact keeps_ret rfl

theorem sendInt_keeps {phase : Phase} (free : phase.isFree = true) (value : Bytes) :
    Keeps rules (fun _ after => after = phase) (sendInt value) phase :=
  connSend_keeps free _ _

/-- What `conn_receive` leaves: a block as long as the length says, unless that is absurd. -/
def Delivered (received : Received) : Prop :=
  received.length.length = 8 ∧
    match received.data with
    | .block contents => contents.length = fromLittleEndian received.length
    | .null => mallocLimit ≤ fromLittleEndian received.length
    | .stray => False

theorem overlay_length {old arrived : Bytes} (fits : arrived.length ≤ old.length) :
    (overlay old arrived).length = old.length := by
  simp only [overlay, List.length_append, List.length_drop]
  omega

theorem readBlock_keeps (orderly : Orderly rules) (block : Bytes) :
    Keeps rules (fun result after => after = .idle ∧ result.2.length = block.length ∧
      (backend = .fifos → result.1 = true)) (readBlock block) .idle := by
  unfold readBlock
  split
  · exact keeps_ret ⟨rfl, rfl, fun _ => rfl⟩
  · apply keeps_call rfl
    intro arrived admitted
    split
    · refine keeps_ret ⟨rfl, overlay_length arrived.property, ?_⟩
      intro fifos
      exact decide_eq_true (orderly.data _ arrived fifos admitted)
    · exact keeps_undefined rfl

theorem readNothing_keeps (size : Nat) :
    Keeps rules (fun _ after => after = .idle) (readNothing size) .idle := by
  unfold readNothing
  split
  · exact keeps_ret rfl
  · apply keeps_call rfl
    intro _ _
    exact keeps_ret rfl

theorem connReceive_keeps (orderly : Orderly rules) (length : Block 8) (data : Pointer) :
    Keeps rules (fun received after => after = .idle ∧ Delivered received)
      (connReceive backend length.val data) .idle := by
  unfold connReceive
  apply keeps_call rfl
  intro arrived admitted
  have whole : arrived.val.length = 8 := orderly.length arrived admitted
  have eight : (overlay length.val arrived.val).length = 8 := by
    rw [overlay_length (by rw [length.property]; exact arrived.property), length.property]
  dsimp only
  rw [if_neg (by omega)]
  apply keeps_call rfl
  intro block granted
  cases block with
  | none =>
      refine keeps_bind (readNothing_keeps _) ?_
      rintro ok after rfl
      refine keeps_ret ⟨rfl, eight, ?_⟩
      by_contra small
      exact absurd (orderly.memory _ none granted (not_le.mp small)) Bool.false_ne_true
  | some block =>
      refine keeps_bind (readBlock_keeps orderly block.val) ?_
      rintro ⟨ok, contents⟩ after ⟨rfl, lengths, fifos⟩
      have sized : contents.length = fromLittleEndian (overlay length.val arrived.val) := by
        rw [lengths, block.property]
      dsimp only
      split
      · exact keeps_ret ⟨rfl, eight, sized⟩
      · rename_i lost
        cases backend with
        | sockets => simp at lost
        | fifos =>
            have kept : ok = true := fifos rfl
            simp [kept] at lost

/-! An order and its reply. -/

/-- The server answers the request with a code, and with an order where the code says so. -/
def Requested (request : Bytes) : Prop :=
  ∀ (c : Circumstances) (db : Database) (accepts : Bytes → Prop),
    (∀ serialized reply after, placeOrder c serialized db = some (reply, after) →
      accepts reply.bytes) → Reads request (serve c db) accepts

theorem requested_whole {size payload : Bytes} (eight : size.length = 8)
    (whole : payload.length = fromLittleEndian size) :
    Requested (intBytes cmdPlaceOrder ++ (size ++ payload)) := by
  intro c db accepts answered
  exact reads_serve cmdPlaceOrder (reads_placeOrder eight whole (answered payload))

theorem reads_oversized_order {size : Bytes} (eight : size.length = 8)
    (large : 2 ^ 31 ≤ fromLittleEndian size) (c : Circumstances) (db : Database)
    (accepts : Bytes → Prop) : Reads (intBytes cmdPlaceOrder ++ size) (serve c db) accepts :=
  reads_serve cmdPlaceOrder (reads_oversized eight large)

theorem ensureRead_small {dest : Bytes} (small : dest.length < 2 ^ 31) :
    ensureRead dest = readBytes dest := if_pos small

theorem ensureWrite_small {data : Bytes} (small : data.length < 2 ^ 31) :
    ensureWrite data = writeBytes data := if_pos small

theorem fromLittleEndian_size {bytes : Bytes} (small : bytes.length < 2 ^ 31) :
    fromLittleEndian (sizeBytes bytes.length) = bytes.length :=
  fromLittleEndian_sizeBytes (by omega)

/-- Reading a framed text: its size, and then as much as the size says. -/
theorem readFrame_keeps {α : Type} {ends : α → Phase → Prop} {serializedLen bytes rest : Bytes}
    (eight : serializedLen.length = 8) {after : Bool × Bytes → ForkedProgram α}
    (next : Keeps rules ends (after (true, sizeBytes bytes.length)) (.holding (bytes ++ rest))) :
    Keeps rules ends (ensureRead serializedLen >>= after) (.holding (frame bytes ++ rest)) := by
  rw [ensureRead_small (by omega), frame, List.append_assoc]
  exact keeps_readBytes (by rw [sizeBytes_length, eight]) next

theorem readContents_keeps {α : Type} {ends : α → Phase → Prop} {bytes rest : Bytes}
    (small : bytes.length < 2 ^ 31) {block : Bytes} (lengths : block.length = bytes.length)
    {after : Bool × Bytes → ForkedProgram α}
    (next : Keeps rules ends (after (true, bytes)) (.holding rest)) :
    Keeps rules ends (ensureRead block >>= after) (.holding (bytes ++ rest)) := by
  rw [ensureRead_small (by omega)]
  exact keeps_readBytes lengths.symm next

theorem granted_small (orderly : Orderly rules) {size : Nat} (small : size < 2 ^ 63)
    {granted : Option (Block size)} (admitted : rules.answers (.malloc size) granted) :
    ∃ block, granted = some block :=
  Option.isSome_iff_exists.mp (orderly.memory size granted admitted small)

theorem relayOrder_keeps (orderly : Orderly rules) {serializedLen bytes : Bytes}
    (eight : serializedLen.length = 8) (small : bytes.length < 2 ^ 31) :
    Keeps rules (fun _ after => after = .holding []) (relayOrder serializedLen)
      (.holding (frame bytes ++ [])) := by
  unfold relayOrder
  refine readFrame_keeps eight ?_
  apply keeps_call rfl
  intro granted admitted
  have size := fromLittleEndian_size small
  obtain ⟨block, rfl⟩ := granted_small orderly (by omega) admitted
  refine readContents_keeps small (block.property.trans size) ?_
  refine keeps_bind (connSend_keeps rfl _ _) ?_
  rintro _ _ rfl
  exact keeps_ret rfl

theorem relayReply_keeps (orderly : Orderly rules) {serializedLen request : Bytes}
    (eight : serializedLen.length = 8) (requested : Requested request) :
    Keeps rules (fun _ after => after = .holding []) (relayReply serializedLen)
      (.asking request) := by
  unfold relayReply
  rw [ensureRead_small (by decide)]
  refine keeps_asks (intBytes_ne_nil _) ?_
  intro c db _
  refine requested c db _ ?_
  intro serialized reply after placed
  refine ⟨intBytes reply.code, (reply.order.map frame).getD [], rfl, rfl, ?_⟩
  refine keeps_bind (sendInt_keeps rfl _) ?_
  rintro _ _ rfl
  rw [bytesInt_intBytes]
  rcases placeOrder_reply placed with ⟨other, none_left⟩ | ⟨bytes, code, order, small⟩
  · rw [if_neg other, none_left]
    exact keeps_ret rfl
  · rw [if_pos code, order]
    have relayed := relayOrder_keeps orderly eight small
    rw [List.append_nil] at relayed
    exact relayed

/-- The payload is written, or the request is one that the server does not survive. -/
theorem forward_keeps {received : Received} (delivered : Delivered received) :
    Keeps rules (fun _ after => ∃ request, after = .asking request ∧ Requested request)
      (received.data.forward (fromLittleEndian received.length))
      (.asking (intBytes cmdPlaceOrder ++ received.length)) := by
  obtain ⟨eight, contents⟩ := delivered
  unfold Pointer.forward
  split
  · rename_i empty
    refine keeps_ret ⟨_, rfl, ?_⟩
    have requested := @requested_whole _ [] eight empty.symm
    rwa [List.append_nil] at requested
  · split
    · rename_i null
      rw [null] at contents
      have absurd_size : 2 ^ 63 ≤ fromLittleEndian received.length := contents
      refine keeps_ret ⟨_, rfl, ?_⟩
      intro c db accepts _
      exact reads_oversized_order eight (by omega) c db accepts
    · rename_i block equal
      rw [equal] at contents
      unfold ensureWrite
      split
      · have written : Keeps rules (fun _ after => ∃ request, after = .asking request ∧
            Requested request) (writeBytes block >>= .ret)
            (.asking (intBytes cmdPlaceOrder ++ received.length)) := by
          refine keeps_writeBytes (keeps_ret ⟨_, rfl, ?_⟩)
          rw [List.append_assoc]
          exact requested_whole eight contents
        rwa [Program.bind_ret] at written
      · refine keeps_hopeless ?_
        intro c db _
        exact reads_oversized_order eight (by omega) c db _
    · rename_i stray
      rw [stray] at contents
      exact contents.elim

theorem passOrder_keeps (orderly : Orderly rules) {received : Received}
    (delivered : Delivered received) :
    Keeps rules (fun _ after => after = .idle) (passOrder received) .idle := by
  have eight := delivered.1
  unfold passOrder
  refine keeps_lock ?_
  rw [ensureWrite_small (by decide), ensureWrite_small (by omega)]
  refine keeps_writeBytes ?_
  refine keeps_writeBytes ?_
  refine keeps_bind (forward_keeps delivered) ?_
  rintro _ _ ⟨request, rfl, requested⟩
  have freed : received.data.free = .ret () := by
    obtain ⟨-, contents⟩ := delivered
    cases equal : received.data with
    | null => rfl
    | block block => rfl
    | stray =>
        rw [equal] at contents
        exact contents.elim
  rw [freed, Program.ret_bind]
  refine keeps_bind (relayReply_keeps orderly eight requested) ?_
  rintro _ _ rfl
  exact keeps_unlock (keeps_ret rfl)

theorem processOrder_keeps (orderly : Orderly rules) :
    Keeps rules (fun _ after => after = .idle) (processOrder backend) .idle := by
  unfold processOrder mark
  apply keeps_call rfl
  intro _ _
  apply keeps_call rfl
  intro serializedLen _
  refine keeps_bind (connReceive_keeps orderly serializedLen .stray) ?_
  rintro received _ ⟨rfl, delivered⟩
  refine keeps_bind (passOrder_keeps orderly delivered) ?_
  rintro _ _ rfl
  exact keeps_own rfl fun _ _ => keeps_ret rfl

/-! The products. -/

/-- Outside, or with the mutex kept by an early return. -/
def Outside (rules : Rules (system backend)) (phase : Phase) : Prop :=
  phase = .idle ∨ rules.strict = false ∧ phase = .holding []

theorem Outside.isFree {phase : Phase} (outside : Outside rules phase) : phase.isFree = true := by
  rcases outside with rfl | ⟨-, rfl⟩
  · rfl
  · rfl

theorem readProducts_keeps (orderly : Orderly rules) {blobs : List Bytes}
    (small : ∀ blob ∈ blobs, blob.length < 2 ^ 31) :
    Keeps rules (fun products after => products.isSome ∧ after = .holding [])
      (readProducts true blobs.length) (.holding (blobs.flatMap frame)) := by
  induction blobs with
  | nil => exact keeps_ret ⟨rfl, rfl⟩
  | cons blob rest ih =>
      simp only [List.forall_mem_cons] at small
      obtain ⟨smallBlob, smallRest⟩ := small
      have size := fromLittleEndian_size smallBlob
      rw [List.length_cons, readProducts, List.flatMap_cons]
      apply keeps_call rfl
      intro serializedLen _
      refine readFrame_keeps serializedLen.property ?_
      dsimp only
      rw [if_pos rfl]
      apply keeps_call rfl
      intro granted admitted
      obtain ⟨block, rfl⟩ := granted_small orderly (by omega) admitted
      refine readContents_keeps smallBlob (block.property.trans size) ?_
      dsimp only
      rw [if_pos rfl]
      cases productUnserialize blob with
      | none => exact keeps_undefined rfl
      | some product =>
          refine keeps_bind (ih smallRest) ?_
          rintro products _ ⟨found, rfl⟩
          refine keeps_ret ⟨?_, rfl⟩
          rw [Option.isSome_map]
          exact found

theorem requestProducts_keeps (orderly : Orderly rules) :
    Keeps rules (fun _ after => Outside rules after) requestProducts .idle := by
  unfold requestProducts
  refine keeps_lock ?_
  rw [ensureWrite_small (by decide)]
  refine keeps_writeBytes ?_
  rw [if_pos rfl, ensureRead_small (by decide)]
  refine keeps_asks (intBytes_ne_nil _) ?_
  intro c db begins
  have request : intBytes cmdGetProducts = intBytes cmdGetProducts ++ [] := (List.append_nil _).symm
  rw [List.nil_append, request]
  refine reads_serve cmdGetProducts (reads_products ?_ ?_)
  · intro failed
    refine ⟨intBytes messageError, [], rfl, rfl, ?_⟩
    have lenient : rules.strict = false := by
      rw [← Bool.not_eq_true]
      intro strict
      exact orderly.listed strict c db begins failed
    dsimp only
    rw [if_pos (by decide)]
    exact keeps_ret (.inr ⟨lenient, rfl⟩)
  · intro blobs some_blobs few small
    refine ⟨intBytes (Int32.ofInt blobs.length), blobs.flatMap frame, rfl, rfl, ?_⟩
    have count : (Int32.ofInt blobs.length).toInt = blobs.length :=
      Int32.toInt_ofInt_of_le (by omega) (by omega)
    have positive : 0 < blobs.length := List.length_pos_iff.mpr some_blobs
    have other : Int32.ofInt blobs.length ≠ messageError := by
      intro equal
      rw [equal] at count
      have wrong : (messageError.toInt : Int) = -1 := rfl
      omega
    dsimp only
    rw [bytesInt_intBytes, if_neg (by simpa using other)]
    apply keeps_call rfl
    intro granted admitted
    have size : arraySize (Int32.ofInt blobs.length) = 8 * blobs.length := by
      rw [arraySize, count]
      omega
    obtain ⟨array, rfl⟩ := granted_small orderly (by omega) admitted
    have all := readProducts_keeps orderly small
    rw [count, Int.toNat_natCast]
    refine keeps_bind all ?_
    rintro products _ ⟨found, rfl⟩
    obtain ⟨products, rfl⟩ := Option.isSome_iff_exists.mp found
    exact keeps_unlock (keeps_ret (.inl rfl))

theorem sendAll_keeps {phase : Phase} (free : phase.isFree = true) (products : List Product) :
    Keeps rules (fun _ after => after = phase) (sendAll products) phase := by
  induction products with
  | nil => exact keeps_ret rfl
  | cons product rest ih =>
      rw [sendAll]
      cases productSerialize product with
      | none => exact keeps_undefined free
      | some serialized =>
          refine keeps_bind (connSend_keeps free _ _) ?_
          rintro _ _ rfl
          exact ih

theorem getProducts_keeps (orderly : Orderly rules) :
    Keeps rules (fun _ after => Outside rules after) getProducts .idle := by
  unfold getProducts mark
  apply keeps_call rfl
  intro _ _
  refine keeps_bind (requestProducts_keeps orderly) ?_
  intro result phase outside
  apply keeps_call outside.isFree
  intro _ _
  exact keeps_ret outside

theorem sendProducts_keeps (orderly : Orderly rules) :
    Keeps rules (fun _ after => Outside rules after) sendProducts .idle := by
  unfold sendProducts
  refine keeps_bind (getProducts_keeps orderly) ?_
  rintro ⟨numProducts, products⟩ phase outside
  dsimp only
  split
  · refine keeps_bind (sendInt_keeps outside.isFree _) ?_
    rintro _ _ rfl
    exact keeps_ret outside
  · refine keeps_bind (sendInt_keeps outside.isFree _) ?_
    rintro _ _ rfl
    have sent := @sendAll_keeps _ rules _ outside.isFree products
    refine keeps_mono sent ?_
    rintro _ _ rfl
    exact outside

/-! The loop. -/

theorem shutDown_keeps : Keeps rules (fun _ after => after = .idle) (shutDown backend) .idle := by
  cases backend with
  | sockets =>
      refine keeps_bind (sendInt_keeps rfl _) ?_
      rintro _ _ rfl
      exact keeps_ret rfl
  | fifos => exact keeps_ret rfl

theorem execute_keeps (orderly : Orderly rules) (msgCode : Int32) :
    Keeps rules rules.ends (execute backend msgCode) .idle := by
  unfold execute mark
  apply keeps_call rfl
  intro _ _
  split
  · refine keeps_bind (sendProducts_keeps orderly) ?_
    rintro _ _ (rfl | ⟨lenient, rfl⟩)
    · exact keeps_ret trivial
    · exact keeps_ret ⟨lenient, rfl⟩
  · split
    · refine keeps_bind (processOrder_keeps orderly) ?_
      rintro _ _ rfl
      exact keeps_ret trivial
    · split
      · refine keeps_bind shutDown_keeps ?_
        rintro _ _ rfl
        exact keeps_ret trivial
      · exact keeps_ret trivial

theorem forkedServer_keeps (orderly : Orderly rules) :
    Keeps rules rules.ends (forkedServer backend) .idle := by
  unfold forkedServer
  apply keeps_call rfl
  intro length _
  refine keeps_bind (connReceive_keeps orderly length .stray) ?_
  rintro received _ ⟨rfl, -⟩
  cases received.data with
  | null => exact keeps_undefined rfl
  | stray => exact keeps_undefined rfl
  | block contents =>
      dsimp only
      cases field contents 0 4 with
      | none => exact keeps_undefined rfl
      | some clientData => exact execute_keeps orderly _

end

end Iac
