import Iac.Client
import Iac.OrderCodec

/-! An order on its way from the client through its forked server to the database server, and
the answer on its way back. -/

namespace Iac

open CText Interaction SharedPipe

/-! The client's end. -/

/-- How the client reads an answer that begins with this code. -/
inductive Understood (order : Order) (code : Int32) : Traffic → Int32 × Order → Prop
  | error (failed : code = messageError) : Understood order code 1 (-1, order)
  | unsatisfiable {buff : Bytes} {decoded : Order} (cut : code = messageUnsatisfiableOrder)
      (short : buff.length < 2 ^ 31) (decodes : orderUnserialize buff = some decoded) :
      Understood order code { fromPeer := frame buff } (0, decoded)
  | placed (other : code ≠ messageError) (another : code ≠ messageUnsatisfiableOrder) :
      Understood order code 1 (1, order)

theorem runs_readAnswer {backend : Backend} {order : Order} {buffSize : Bytes} {code : Int32}
    (word : buffSize.length = 8) {moved : Traffic} {result : Int32 × Order} :
    Runs moves (Client.readAnswer backend order buffSize code) moved result ↔
      Understood order code moved result := by
  unfold Client.readAnswer
  by_cases failed : code = messageError
  · rw [if_pos failed]
    constructor
    · intro runs
      obtain ⟨rfl, rfl⟩ := runs_ret.mp runs
      exact .error failed
    · intro understood
      cases understood with
      | error => exact .ret _
      | unsatisfiable cut => exact absurd (failed.symm.trans cut) (by decide)
      | placed other => exact absurd failed other
  · rw [if_neg failed]
    by_cases cut : code = messageUnsatisfiableOrder
    · rw [if_pos cut]
      constructor
      · intro runs
        obtain ⟨_, received, _, left, right, rfl⟩ := runs_bind.mp runs
        obtain ⟨buff, short, rfl, rfl⟩ := (runs_connReceive word).mp left
        dsimp only at right
        rw [if_pos rfl] at right
        split at right
        · rename_i decoded decodes
          obtain ⟨rfl, rfl⟩ := runs_ret.mp right
          rw [mul_one]
          exact .unsatisfiable cut short decodes
        · exact absurd right not_runs_undefined
      · intro understood
        cases understood with
        | error wrong => exact absurd wrong failed
        | placed _ another => exact absurd cut another
        | @unsatisfiable buff _ _ short decodes =>
            refine runs_bind.mpr ⟨_, _, 1, (runs_connReceive word).mpr ⟨buff, short, rfl, rfl⟩, ?_,
              (mul_one _).symm⟩
            dsimp only
            rw [if_pos rfl, decodes]
            exact .ret _
    · rw [if_neg cut]
      constructor
      · intro runs
        obtain ⟨rfl, rfl⟩ := runs_ret.mp runs
        exact .placed failed cut
      · intro understood
        cases understood with
        | error wrong => exact absurd wrong failed
        | unsatisfiable wrong => exact absurd wrong cut
        | placed => exact .ret _

theorem orderSerialize_ne_nil {o : Order} {bytes : Bytes} (done : orderSerialize o = some bytes) :
    bytes ≠ [] := by
  rintro rfl
  unfold orderSerialize at done
  split at done
  · split at done
    · contradiction
    · simp only [Option.some.injEq] at done
      have lengths := congrArg List.length done
      simp only [List.length_append, sizeBytes_length, List.length_nil] at lengths
      omega
  · contradiction

theorem runs_awaitAnswer {backend : Backend} {order : Order} {buffSize : Bytes}
    (word : buffSize.length = 8) {moved : Traffic} {result : Int32 × Order} :
    Runs moves (Client.awaitAnswer backend order buffSize) moved result ↔
      ∃ response rest, 4 ≤ response.length ∧ response.length < 2 ^ 31 ∧
        Understood order (bytesInt (response.take 4)) rest result ∧
        moved = { fromPeer := frame response } * rest := by
  unfold Client.awaitAnswer
  rw [runs_bind_idle fun _ _ => runs_uninitialised.mp]
  constructor
  · rintro ⟨lenAux, _, runs⟩
    obtain ⟨_, received, rest, left, runs, rfl⟩ := runs_bind.mp runs
    obtain ⟨response, small, rfl, rfl⟩ := (runs_connReceive lenAux.property).mp left
    dsimp only at runs
    rw [if_pos rfl] at runs
    by_cases enough : 4 ≤ response.length
    · rw [field_start enough] at runs
      exact ⟨response, rest, enough, small, (runs_readAnswer word).mp runs, rfl⟩
    · rw [field_short (by omega)] at runs
      exact absurd runs not_runs_undefined
  · rintro ⟨response, rest, enough, small, understood, rfl⟩
    refine ⟨⟨sizeBytes 0, rfl⟩, runs_uninitialised.mpr rfl, runs_bind.mpr ⟨_, _, rest,
      (runs_connReceive (sizeBytes_length 0)).mpr ⟨response, small, rfl, rfl⟩, ?_, rfl⟩⟩
    dsimp only
    rw [if_pos rfl, field_start enough]
    exact (runs_readAnswer word).mpr understood

theorem runs_submitOrder {backend : Backend} {order : Order} {address : Bytes} {moved : Traffic}
    {result : Int32 × Order} :
    Runs moves (Client.submitOrder backend order address) moved result ↔
      ∃ bytes response rest, orderSerialize (orderSetAddress order address) = some bytes ∧
        4 ≤ response.length ∧ response.length < 2 ^ 31 ∧
        Understood (orderSetAddress order address) (bytesInt (response.take 4)) rest result ∧
        moved = { toPeer := frame (intBytes cmdPlaceOrder) ++ frame bytes,
                  fromPeer := frame response } * rest := by
  unfold Client.submitOrder
  dsimp only
  rw [runs_bind_of fun _ _ => runs_sendInt (intBytes_length cmdPlaceOrder)]
  rw [if_pos rfl]
  cases encoded : orderSerialize (orderSetAddress order address) with
  | none =>
      constructor
      · rintro ⟨_, runs, _⟩
        exact absurd runs not_runs_undefined
      · rintro ⟨_, _, _, impossible, _⟩
        contradiction
  | some bytes =>
      have short := orderSerialize_length encoded
      dsimp only
      constructor
      · rintro ⟨_, runs, rfl⟩
        obtain ⟨_, sent, _, left, runs, rfl⟩ := runs_bind.mp runs
        obtain ⟨_, rfl, rfl⟩ := (runs_connSend (orderSerialize_ne_nil encoded)).mp left
        rw [if_pos rfl] at runs
        obtain ⟨response, rest, enough, small, understood, rfl⟩ :=
          (runs_awaitAnswer (sizeBytes_length bytes.length)).mp runs
        exact ⟨bytes, response, rest, rfl, enough, small, understood, by apply Traffic.ext <;> simp⟩
      · rintro ⟨_, response, rest, same, enough, small, understood, rfl⟩
        cases same
        have waits := (@runs_awaitAnswer backend _ _ (sizeBytes_length bytes.length) _ _).mpr
          ⟨response, rest, enough, small, understood, rfl⟩
        refine ⟨{ toPeer := frame bytes } * ({ fromPeer := frame response } * rest), ?_, ?_⟩
        · refine runs_bind.mpr ⟨_, true, _,
            (runs_connSend (orderSerialize_ne_nil encoded)).mpr ⟨short, rfl, rfl⟩, ?_, rfl⟩
          rw [if_pos rfl]
          exact waits
        · apply Traffic.ext <;> simp

/-! The forked server. -/

/-- `conn_send` sends nothing at all for an empty text. -/
def sending (payload : Bytes) : Bytes := if payload = [] then [] else frame payload

theorem runs_connSend_any {payload : Bytes} {moved : Traffic} {ok : Bool} :
    Runs moves (connSend (.block payload) payload.length) moved ok ↔
      payload.length < 2 ^ 31 ∧ moved = { toPeer := sending payload } ∧ ok = true := by
  by_cases empty : payload = []
  · subst empty
    rw [connSend, if_pos (by simp), runs_ret, sending, if_pos rfl]
    exact (and_iff_right (by decide)).symm
  · rw [runs_connSend empty, sending, if_neg empty]

theorem runs_forward {payload : Bytes} {moved : Traffic} {ok : Bool} :
    Runs moves ((Pointer.block payload).forward payload.length) moved ok ↔
      payload.length < 2 ^ 31 ∧ moved = { toServer := payload } ∧ ok = true := by
  unfold Pointer.forward
  split
  · rename_i empty
    rw [runs_ret, List.length_eq_zero_iff.mp empty]
    exact (and_iff_right (by decide)).symm
  · exact runs_ensureWrite

theorem runs_relayOrder {serializedLen : Bytes} (word : serializedLen.length = 8) {moved : Traffic}
    {value : Unit} : Runs moves (relayOrder serializedLen) moved value ↔
      ∃ payload : Bytes, payload.length < 2 ^ 31 ∧
        moved = { fromServer := frame payload, toPeer := sending payload } := by
  unfold relayOrder
  constructor
  · intro runs
    obtain ⟨_, _, _, left, runs, rfl⟩ := runs_bind.mp runs
    obtain ⟨_, header, whole, rfl, rfl⟩ := runs_ensureRead.mp left
    rw [word] at whole
    dsimp only at runs
    obtain ⟨_, block, _, granted, runs, rfl⟩ := runs_bind.mp runs
    obtain ⟨rfl, isSome⟩ := runs_malloc.mp granted
    cases block with
    | none => contradiction
    | some block =>
        obtain ⟨_, _, _, left, runs, rfl⟩ := runs_bind.mp runs
        obtain ⟨short, payload, same, rfl, rfl⟩ := runs_ensureRead.mp left
        have size : fromLittleEndian header = payload.length := block.property.symm.trans same.symm
        dsimp only at runs
        rw [size] at runs
        obtain ⟨_, _, _, left, ended, rfl⟩ := runs_bind.mp runs
        obtain ⟨small, rfl, rfl⟩ := runs_connSend_any.mp left
        obtain ⟨rfl, _⟩ := runs_ret.mp ended
        refine ⟨payload, small, ?_⟩
        apply Traffic.ext
        · rfl
        · simp [frame, ← size, sizeBytes_fromLittleEndian whole]
        · rfl
        · simp
  · rintro ⟨payload, short, rfl⟩
    have size : fromLittleEndian (sizeBytes payload.length) = payload.length :=
      fromLittleEndian_sizeBytes (by omega)
    have four : serializedLen.length < 2 ^ 31 := by omega
    have sends : Runs moves (connSend (.block payload) payload.length >>= fun _ => .ret ())
        { toPeer := sending payload } () :=
      runs_bind.mpr ⟨_, true, 1, runs_connSend_any.mpr ⟨short, rfl, rfl⟩, .ret _, (mul_one _).symm⟩
    refine runs_bind.mpr ⟨_, (true, sizeBytes payload.length),
      { fromServer := payload } * { toPeer := sending payload },
      runs_ensureRead.mpr ⟨four, sizeBytes payload.length, by rw [word, sizeBytes_length], rfl, rfl⟩,
      ?_, by apply Traffic.ext <;> simp [frame]⟩
    dsimp only
    rw [size]
    refine runs_bind.mpr ⟨1, some ⟨payload, rfl⟩, _, runs_malloc.mpr ⟨rfl, rfl⟩, ?_, (one_mul _).symm⟩
    exact runs_bind.mpr ⟨_, (true, payload), _,
      runs_ensureRead.mpr ⟨short, payload, rfl, rfl, rfl⟩, sends, rfl⟩

/-- What of a reply is read and passed on behind its code. -/
inductive Relayed (code : Bytes) : Traffic → Prop
  | order {payload : Bytes} (cut : bytesInt code = messageUnsatisfiableOrder)
      (short : payload.length < 2 ^ 31) :
      Relayed code { fromServer := frame payload, toPeer := sending payload }
  | nothing (other : bytesInt code ≠ messageUnsatisfiableOrder) : Relayed code 1

theorem runs_relayReply {serializedLen : Bytes} (word : serializedLen.length = 8) {moved : Traffic}
    {value : Unit} : Runs moves (relayReply serializedLen) moved value ↔
      ∃ code rest, code.length = 4 ∧ Relayed code rest ∧
        moved = { fromServer := code, toPeer := frame code } * rest := by
  unfold relayReply
  constructor
  · intro runs
    obtain ⟨_, _, _, left, runs, rfl⟩ := runs_bind.mp runs
    obtain ⟨_, code, four, rfl, rfl⟩ := runs_ensureRead.mp left
    dsimp only at runs
    obtain ⟨_, _, rest, left, relays, rfl⟩ := runs_bind.mp runs
    obtain ⟨rfl, rfl⟩ := (runs_sendInt four).mp left
    refine ⟨code, rest, four, ?_, by apply Traffic.ext <;> simp⟩
    by_cases cut : bytesInt code = messageUnsatisfiableOrder
    · rw [if_pos cut] at relays
      obtain ⟨payload, short, rfl⟩ := (runs_relayOrder word).mp relays
      exact .order cut short
    · rw [if_neg cut] at relays
      obtain ⟨rfl, _⟩ := runs_ret.mp relays
      exact .nothing cut
  · rintro ⟨code, rest, four, relayed, rfl⟩
    refine runs_bind.mpr ⟨{ fromServer := code }, (true, code), { toPeer := frame code } * rest,
      runs_ensureRead.mpr ⟨by decide, code, four, rfl, rfl⟩, ?_, by apply Traffic.ext <;> simp⟩
    refine runs_bind.mpr ⟨_, true, rest, (runs_sendInt four).mpr ⟨rfl, rfl⟩, ?_, rfl⟩
    cases relayed with
    | @order payload cut short =>
        rw [if_pos cut]
        exact (runs_relayOrder word).mpr ⟨payload, short, rfl⟩
    | nothing other =>
        rw [if_neg other]
        exact .ret _

theorem runs_passOrder {payload : Bytes} (short : payload.length < 2 ^ 31) {moved : Traffic}
    {value : Unit} :
    Runs moves (passOrder ⟨true, sizeBytes payload.length, .block payload⟩) moved value ↔
      ∃ code rest, code.length = 4 ∧ Relayed code rest ∧
        moved = { toServer := intBytes cmdPlaceOrder ++ frame payload, fromServer := code,
                  toPeer := frame code } * rest := by
  have size : fromLittleEndian (sizeBytes payload.length) = payload.length :=
    fromLittleEndian_sizeBytes (by omega)
  have command : ∀ traffic ok, Runs moves (ensureWrite (intBytes cmdPlaceOrder)) traffic ok ↔
      traffic = { toServer := intBytes cmdPlaceOrder } ∧ ok = true := fun traffic ok =>
    runs_ensureWrite.trans (and_iff_right (by decide))
  have header : ∀ traffic ok, Runs moves (ensureWrite (sizeBytes payload.length)) traffic ok ↔
      traffic = { toServer := sizeBytes payload.length } ∧ ok = true := fun traffic ok =>
    runs_ensureWrite.trans (and_iff_right (by rw [sizeBytes_length]; decide))
  have body : ∀ traffic ok, Runs moves ((Pointer.block payload).forward payload.length) traffic ok ↔
      traffic = { toServer := payload } ∧ ok = true := fun traffic ok =>
    runs_forward.trans (and_iff_right short)
  have closes : ∀ traffic, Runs moves (relayReply (sizeBytes payload.length) >>= fun _ => shConnClose)
      traffic value ↔ ∃ code rest, code.length = 4 ∧ Relayed code rest ∧
        traffic = { fromServer := code, toPeer := frame code } * rest := by
    intro traffic
    rw [← @runs_relayReply _ (sizeBytes_length payload.length) traffic (), runs_bind]
    constructor
    · rintro ⟨_, _, _, relays, closed, rfl⟩
      obtain rfl := runs_shConnClose.mp closed
      rw [mul_one]
      exact relays
    · intro relays
      exact ⟨traffic, (), 1, relays, runs_shConnClose.mpr rfl, (mul_one _).symm⟩
  unfold passOrder
  dsimp only
  rw [runs_idle fun _ _ => runs_shConnOpen, size]
  simp only [runs_bind_of command, runs_bind_of header, runs_bind_of body, Pointer.free,
    Program.ret_bind, closes]
  constructor
  · rintro ⟨_, ⟨_, ⟨_, ⟨code, rest, four, relayed, rfl⟩, rfl⟩, rfl⟩, rfl⟩
    exact ⟨code, rest, four, relayed, by apply Traffic.ext <;> simp [frame]⟩
  · rintro ⟨code, rest, four, relayed, rfl⟩
    exact ⟨_, ⟨_, ⟨_, ⟨code, rest, four, relayed, rfl⟩, rfl⟩, rfl⟩, by
      apply Traffic.ext <;> simp [frame]⟩

theorem runs_processOrder {backend : Backend} {moved : Traffic} {value : Unit} :
    Runs moves (processOrder backend) moved value ↔
      ∃ payload code rest, payload.length < 2 ^ 31 ∧ code.length = 4 ∧ Relayed code rest ∧
        moved = { fromPeer := frame payload, toServer := intBytes cmdPlaceOrder ++ frame payload,
                  fromServer := code, toPeer := frame code } * rest := by
  have leaves : ∀ received traffic,
      Runs moves (passOrder received >>= fun _ => mark (.leave .processOrder)) traffic value ↔
        Runs moves (passOrder received) traffic () := by
    intro received traffic
    rw [runs_bind]
    constructor
    · rintro ⟨_, _, _, passes, left, rfl⟩
      obtain rfl := runs_mark.mp left
      rw [mul_one]
      exact passes
    · intro passes
      exact ⟨traffic, (), 1, passes, runs_mark.mpr rfl, (mul_one _).symm⟩
  unfold processOrder
  rw [runs_idle fun _ _ => runs_mark, runs_bind_idle fun _ _ => runs_uninitialised.mp]
  constructor
  · rintro ⟨serializedLen, _, runs⟩
    obtain ⟨_, received, _, left, passes, rfl⟩ := runs_bind.mp runs
    obtain ⟨payload, short, rfl, rfl⟩ := (runs_connReceive serializedLen.property).mp left
    rw [leaves, runs_passOrder short] at passes
    obtain ⟨code, rest, four, relayed, rfl⟩ := passes
    exact ⟨payload, code, rest, short, four, relayed, by apply Traffic.ext <;> simp⟩
  · rintro ⟨payload, code, rest, short, four, relayed, rfl⟩
    refine ⟨⟨sizeBytes 0, rfl⟩, runs_uninitialised.mpr rfl, runs_bind.mpr ⟨_, _, _,
      (runs_connReceive (sizeBytes_length 0)).mpr ⟨payload, short, rfl, rfl⟩,
      (leaves _ _).mpr ((runs_passOrder short).mpr ⟨code, rest, four, relayed, rfl⟩), ?_⟩⟩
    apply Traffic.ext <;> simp

theorem runs_execute_placeOrder {backend : Backend} {moved : Traffic} {done : Bool} :
    Runs moves (execute backend cmdPlaceOrder) moved done ↔
      Runs moves (processOrder backend) moved () ∧ done = false := by
  have other : cmdPlaceOrder ≠ cmdGetProducts := by decide
  unfold execute
  rw [runs_idle fun _ _ => runs_mark, if_neg other, if_pos rfl, runs_bind]
  constructor
  · rintro ⟨_, _, _, processes, ended, rfl⟩
    obtain ⟨rfl, rfl⟩ := runs_ret.mp ended
    rw [mul_one]
    exact ⟨processes, rfl⟩
  · rintro ⟨processes, rfl⟩
    exact ⟨moved, (), 1, processes, .ret _, (mul_one _).symm⟩

/-! The database server. -/

theorem runs_placeOrder {c : Circumstances} {db : Database} {moved : Traffic}
    {store : Option Database} : Runs servingMoves (db.placeOrder c) moved store ↔
      ∃ payload reply after, payload.length < 2 ^ 31 ∧
        placeOrder c payload db = some (reply, after) ∧ store = some after ∧
        moved = { toServer := frame payload, fromServer := reply.bytes } := by
  unfold Database.placeOrder
  constructor
  · intro runs
    obtain ⟨_, header, _, left, rest, rfl⟩ := runs_bind.mp runs
    obtain ⟨eight, rfl⟩ := runs_serverReads.mp left
    obtain ⟨_, payload, _, left, answers, rfl⟩ := runs_bind.mp rest
    unfold serverEnsureRead at left
    split at left
    · rename_i short
      obtain ⟨size, rfl⟩ := runs_serverReads.mp left
      split at answers
      · exact absurd answers not_runs_undefinedBehaviour
      · rename_i reply after placed
        obtain ⟨_, _, _, writes, ended, rfl⟩ := runs_bind.mp answers
        obtain rfl := runs_serverWrites.mp writes
        obtain ⟨rfl, rfl⟩ := runs_ret.mp ended
        refine ⟨payload, reply, after, size ▸ short, placed, rfl, ?_⟩
        apply Traffic.ext
        · simp [frame, size, sizeBytes_fromLittleEndian eight]
        · simp
        · rfl
        · rfl
    · exact absurd left not_runs_undefinedBehaviour
  · rintro ⟨payload, reply, after, short, placed, rfl, rfl⟩
    have size : fromLittleEndian (sizeBytes payload.length) = payload.length :=
      fromLittleEndian_sizeBytes (by omega)
    have reads : Runs servingMoves (serverEnsureRead payload.length) { toServer := payload } payload := by
      rw [serverEnsureRead, if_pos short]
      exact runs_serverReads.mpr ⟨rfl, rfl⟩
    refine runs_bind.mpr ⟨{ toServer := sizeBytes payload.length }, sizeBytes payload.length,
      { toServer := payload, fromServer := reply.bytes },
      runs_serverReads.mpr ⟨sizeBytes_length _, rfl⟩, ?_, by apply Traffic.ext <;> simp [frame]⟩
    rw [size]
    refine runs_bind.mpr ⟨_, payload, { fromServer := reply.bytes }, reads, ?_, by
      apply Traffic.ext <;> simp⟩
    rw [placed]
    exact runs_bind.mpr ⟨_, (), 1, runs_serverWrites.mpr rfl, .ret _, (mul_one _).symm⟩

/-! The three processes together. -/

/-- What the client comes to when this reply arrives. -/
inductive Outcome (order : Order) (reply : Reply) : Int32 × Order → Prop
  | error (failed : reply.code = messageError) : Outcome order reply (-1, order)
  | unsatisfiable {bytes : Bytes} {decoded : Order} (cut : reply.code = messageUnsatisfiableOrder)
      (sent : reply.order = some bytes) (decodes : orderUnserialize bytes = some decoded) :
      Outcome order reply (0, decoded)
  | placed (other : reply.code ≠ messageError) (another : reply.code ≠ messageUnsatisfiableOrder) :
      Outcome order reply (1, order)

/-- The client submits its order with an address, the forked server passes it on and the
database server answers; all that one of them reads was written by another one. -/
def Submits (backend : Backend) (c : Circumstances) (db : Database) (order : Order)
    (address : Bytes) (result : Int32 × Order) (after : Database) : Prop :=
  ∃ up down request reply,
    Runs moves (Client.submitOrder backend order address) { toPeer := up, fromPeer := down } result ∧
    Runs moves (forkedServer backend)
      { fromPeer := up, toPeer := down, toServer := request, fromServer := reply } false ∧
    Runs servingMoves (serve c db) { toServer := request, fromServer := reply } (some after)

theorem Understood.quiet {order : Order} {code : Int32} {moved : Traffic} {result : Int32 × Order}
    (understood : Understood order code moved result) :
    moved.toPeer = [] ∧ moved.toServer = [] ∧ moved.fromServer = [] := by
  cases understood with
  | error => exact ⟨rfl, rfl, rfl⟩
  | unsatisfiable => exact ⟨rfl, rfl, rfl⟩
  | placed => exact ⟨rfl, rfl, rfl⟩

theorem Relayed.quiet {code : Bytes} {moved : Traffic} (relayed : Relayed code moved) :
    moved.fromPeer = [] ∧ moved.toServer = [] := by
  cases relayed with
  | order => exact ⟨rfl, rfl⟩
  | nothing => exact ⟨rfl, rfl⟩

theorem runs_forkedServer_order {backend : Backend} {bytes : Bytes} (small : bytes.length < 2 ^ 31)
    {request reply down : Bytes} :
    Runs moves (forkedServer backend)
      { fromPeer := frame (intBytes cmdPlaceOrder) ++ frame bytes, toPeer := down, toServer := request,
        fromServer := reply } false ↔
      ∃ code rest, code.length = 4 ∧ Relayed code rest ∧
        request = intBytes cmdPlaceOrder ++ frame bytes ∧ reply = code ++ rest.fromServer ∧
        down = frame code ++ rest.toPeer := by
  have command : bytesInt ((intBytes cmdPlaceOrder).take 4) = cmdPlaceOrder := by decide
  rw [runs_forkedServer]
  constructor
  · rintro ⟨clientData, rest, _, short, executes, shape⟩
    obtain ⟨requests, replies, received, sent⟩ := Traffic.ext_iff.mp shape
    dsimp only at requests replies received sent
    obtain ⟨rfl, later⟩ := frame_cancel (by decide) short received
    rw [command] at executes
    obtain ⟨processes, _⟩ := runs_execute_placeOrder.mp executes
    obtain ⟨payload, code, rest, limit, four, relayed, rfl⟩ := runs_processOrder.mp processes
    obtain ⟨quiet, silent⟩ := relayed.quiet
    simp only [mul_fromPeer, mul_toServer, mul_fromServer, mul_toPeer, quiet, silent,
      List.append_nil, List.nil_append] at requests replies later sent
    have same := @frame_cancel bytes payload [] [] small limit (by simpa using later)
    rw [← same.1] at requests
    exact ⟨code, rest, four, relayed, requests, replies, sent⟩
  · rintro ⟨code, rest, four, relayed, rfl, rfl, rfl⟩
    obtain ⟨quiet, silent⟩ := relayed.quiet
    have processes := (@runs_processOrder backend _ ()).mpr
      ⟨bytes, code, rest, small, four, relayed, rfl⟩
    have executes := (@runs_execute_placeOrder backend _ false).mpr ⟨processes, rfl⟩
    rw [← command] at executes
    exact ⟨intBytes cmdPlaceOrder, _, by decide, by decide, executes, by
      apply Traffic.ext <;> simp [quiet, silent, command]⟩

theorem runs_serve_order {c : Circumstances} {db after : Database} {bytes reply : Bytes}
    (small : bytes.length < 2 ^ 31) :
    Runs servingMoves (serve c db)
      { toServer := intBytes cmdPlaceOrder ++ frame bytes, fromServer := reply } (some after) ↔
      ∃ answer, placeOrder c bytes db = some (answer, after) ∧ reply = answer.bytes := by
  have other : cmdPlaceOrder ≠ cmdGetProducts := by decide
  rw [runs_serve]
  constructor
  · rintro ⟨code, rest, four, places, shape⟩
    obtain ⟨requests, replies, _, _⟩ := Traffic.ext_iff.mp shape
    dsimp only at requests replies
    obtain ⟨rfl, later⟩ := List.append_inj requests (by rw [four, intBytes_length])
    rw [bytesInt_intBytes, if_neg other, if_pos rfl] at places
    obtain ⟨payload, answer, _, limit, placed, same, rfl⟩ := runs_placeOrder.mp places
    cases same
    have equal := @frame_cancel bytes payload [] [] small limit (by simpa using later)
    rw [← equal.1] at placed
    exact ⟨answer, placed, replies⟩
  · rintro ⟨answer, placed, rfl⟩
    refine ⟨intBytes cmdPlaceOrder, { toServer := frame bytes, fromServer := answer.bytes },
      intBytes_length _, ?_, by apply Traffic.ext <;> simp⟩
    rw [bytesInt_intBytes, if_neg other, if_pos rfl]
    exact runs_placeOrder.mpr ⟨bytes, answer, after, small, placed, rfl, rfl⟩

theorem outcome_iff {c : Circumstances} {db after : Database} {order : Order} {bytes : Bytes}
    {reply : Reply} (placed : placeOrder c bytes db = some (reply, after)) {result : Int32 × Order} :
    Outcome order reply result ↔ ∃ behind rest, Relayed (intBytes reply.code) behind ∧
      Understood order reply.code rest result ∧ rest.fromPeer = behind.toPeer ∧
      (reply.order.map frame).getD [] = behind.fromServer := by
  constructor
  · intro outcome
    rcases placeOrder_reply placed with ⟨other, none_sent⟩ | ⟨blob, cut, sent, short⟩
    · have relayed : Relayed (intBytes reply.code) 1 := .nothing (by rwa [bytesInt_intBytes])
      rw [none_sent]
      cases outcome with
      | error failed => exact ⟨1, 1, relayed, .error failed, rfl, rfl⟩
      | unsatisfiable wrong => exact absurd wrong other
      | placed another _ => exact ⟨1, 1, relayed, .placed another other, rfl, rfl⟩
    · rw [sent]
      cases outcome with
      | error failed => exact absurd (failed.symm.trans cut) (by decide)
      | placed _ another => exact absurd cut another
      | @unsatisfiable text decoded _ same decodes =>
          rw [sent, Option.some.injEq] at same
          subst same
          have some_bytes : blob ≠ [] := by
            rintro rfl
            contradiction
          refine ⟨_, _, .order (by rwa [bytesInt_intBytes]) short, .unsatisfiable cut short decodes, ?_, rfl⟩
          exact (if_neg some_bytes).symm
  · rintro ⟨behind, rest, relayed, understood, passed, orders⟩
    cases understood with
    | error failed => exact .error failed
    | placed other another => exact .placed other another
    | @unsatisfiable buff decoded cut limit decodes =>
        cases relayed with
        | nothing other =>
            rw [bytesInt_intBytes] at other
            exact absurd cut other
        | @order payload _ short =>
            rcases placeOrder_reply placed with ⟨other, _⟩ | ⟨blob, _, sent, small⟩
            · exact absurd cut other
            · have passed : frame buff = sending payload := passed
              have orders : frame blob = frame payload := by
                rw [sent] at orders
                exact orders
              have equal := (@frame_cancel blob payload [] [] small short (by simpa using orders)).1
              unfold sending at passed
              split at passed
              · exact absurd passed (frame_ne_nil buff)
              · have same := (@frame_cancel buff payload [] [] limit short (by simpa using passed)).1
                refine .unsatisfiable cut ?_ decodes
                rw [sent, equal, same]

/-- The client's result is what the reply of `place_order` to its encoded order says. -/
theorem submits_iff {backend : Backend} {c : Circumstances} {db after : Database} {order : Order}
    {address : Bytes} {result : Int32 × Order} :
    Submits backend c db order address result after ↔ ∃ bytes reply,
      orderSerialize (orderSetAddress order address) = some bytes ∧
      placeOrder c bytes db = some (reply, after) ∧
      Outcome (orderSetAddress order address) reply result := by
  have four : ∀ code, (intBytes code).take 4 = intBytes code := fun code =>
    List.take_of_length_le (Nat.le_of_eq (intBytes_length code))
  constructor
  · rintro ⟨up, down, request, replied, client, forked, server⟩
    obtain ⟨bytes, response, rest, encoded, enough, short, understood, shape⟩ :=
      runs_submitOrder.mp client
    have small := orderSerialize_length encoded
    obtain ⟨_, _, received, sent⟩ := Traffic.ext_iff.mp shape
    simp only [mul_fromPeer, mul_toPeer, understood.quiet.1, List.append_nil] at received sent
    subst sent
    obtain ⟨code, behind, word, relayed, rfl, rfl, downward⟩ := (runs_forkedServer_order small).mp forked
    obtain ⟨reply, placed, replies⟩ := (runs_serve_order small).mp server
    rw [received] at downward
    obtain ⟨rfl, passed⟩ := frame_cancel short (by omega) downward
    rw [Reply.bytes] at replies
    obtain ⟨rfl, orders⟩ := List.append_inj replies (by rw [word, intBytes_length])
    rw [four, bytesInt_intBytes] at understood
    exact ⟨bytes, reply, encoded, placed,
      (outcome_iff placed).mpr ⟨behind, rest, relayed, understood, passed, orders.symm⟩⟩
  · rintro ⟨bytes, reply, encoded, placed, outcome⟩
    have small := orderSerialize_length encoded
    obtain ⟨behind, rest, relayed, understood, passed, orders⟩ := (outcome_iff placed).mp outcome
    refine ⟨frame (intBytes cmdPlaceOrder) ++ frame bytes,
      frame (intBytes reply.code) ++ behind.toPeer, intBytes cmdPlaceOrder ++ frame bytes,
      reply.bytes, ?_, ?_, ?_⟩
    · refine runs_submitOrder.mpr ⟨bytes, intBytes reply.code, rest, encoded,
        Nat.le_of_eq (intBytes_length _).symm, by rw [intBytes_length]; decide, ?_, ?_⟩
      · rw [four, bytesInt_intBytes]
        exact understood
      · obtain ⟨quiet, silent, still⟩ := understood.quiet
        apply Traffic.ext <;> simp [quiet, silent, still, passed]
    · exact (runs_forkedServer_order small).mpr ⟨intBytes reply.code, behind, intBytes_length _, relayed,
        rfl, by rw [Reply.bytes, orders], rfl⟩
    · exact (runs_serve_order small).mpr ⟨reply, placed, rfl⟩

end Iac
