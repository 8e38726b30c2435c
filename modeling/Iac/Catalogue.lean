import Mathlib.Data.List.Forall2
import Iac.Client
import Iac.PlacementProperties
import Iac.ProductCodec

/-! The products on their way from the table to the client, through three arrays. -/

namespace Iac

open CText Interaction SharedPipe Layout

/-! Lists of products on the connections. -/

def Decodes (blobs : List Bytes) (products : List Product) : Prop :=
  List.Forall₂ (fun blob product => productUnserialize blob = some product ∧
    blob.length < 2 ^ 31) blobs products

theorem runs_readProducts {count : Nat} {moved : Traffic} {result : Option (List Product)} :
    Runs moves (readProducts true count) moved result ↔ ∃ blobs products, blobs.length = count ∧
      Decodes blobs products ∧ moved = { fromServer := blobs.flatMap frame } ∧
      result = some products := by
  induction count generalizing moved result with
  | zero =>
      rw [readProducts, runs_ret]
      constructor
      · rintro ⟨rfl, rfl⟩
        exact ⟨[], [], rfl, .nil, rfl, rfl⟩
      · rintro ⟨blobs, products, none_left, decodes, rfl, rfl⟩
        obtain rfl := List.length_eq_zero_iff.mp none_left
        cases decodes
        exact ⟨rfl, rfl⟩
  | succ count ih =>
      rw [readProducts, runs_bind_idle fun _ _ => runs_uninitialised.mp]
      constructor
      · rintro ⟨length, _, runs⟩
        obtain ⟨_, _, _, read, behind, rfl⟩ := runs_bind.mp runs
        obtain ⟨_, size, eight, rfl, rfl⟩ := runs_ensureRead.mp read
        rw [length.property] at eight
        dsimp only at behind
        rw [if_pos rfl, runs_bind] at behind
        obtain ⟨_, block, _, granted, behind, rfl⟩ := behind
        obtain ⟨rfl, isSome⟩ := runs_malloc.mp granted
        cases block with
        | none => contradiction
        | some block =>
            obtain ⟨_, _, _, read, behind, rfl⟩ := runs_bind.mp behind
            obtain ⟨short, blob, whole, rfl, rfl⟩ := runs_ensureRead.mp read
            dsimp only at behind
            rw [if_pos rfl] at behind
            have length := whole.trans block.property
            cases decoded : productUnserialize blob with
            | none =>
                rw [decoded] at behind
                exact absurd behind not_runs_undefined
            | some product =>
                rw [decoded] at behind
                obtain ⟨_, _, _, others, ended, rfl⟩ := runs_bind.mp behind
                obtain ⟨blobs, products, rfl, decodes, rfl, rfl⟩ := ih.mp others
                obtain ⟨rfl, rfl⟩ := runs_ret.mp ended
                refine ⟨blob :: blobs, product :: products, rfl, .cons ⟨decoded, whole ▸ short⟩ decodes,
                  ?_, rfl⟩
                have back : sizeBytes blob.length = size := by
                  rw [length]
                  exact sizeBytes_fromLittleEndian eight
                apply Traffic.ext <;> simp [frame, back]
      · rintro ⟨_, _, length, decodes, rfl, rfl⟩
        cases decodes with
        | nil => contradiction
        | @cons blob product blobs products head tail =>
            obtain ⟨decoded, short⟩ := head
            have size : fromLittleEndian (sizeBytes blob.length) = blob.length :=
              fromLittleEndian_sizeBytes (by omega)
            have eight := sizeBytes_length blob.length
            have others := ih.mpr ⟨blobs, products, Nat.succ.inj length, tail, rfl, rfl⟩
            have small : (sizeBytes blob.length).length < 2 ^ 31 := by
              rw [eight]
              decide
            have first : Runs moves (ensureRead (sizeBytes blob.length))
                { fromServer := sizeBytes blob.length } (true, sizeBytes blob.length) :=
              runs_ensureRead.mpr ⟨small, sizeBytes blob.length, rfl, rfl, rfl⟩
            refine ⟨⟨sizeBytes blob.length, eight⟩, runs_uninitialised.mpr rfl, runs_bind.mpr
              ⟨_, _, { fromServer := blob ++ blobs.flatMap frame }, first, ?_, ?_⟩⟩
            · dsimp only
              rw [if_pos (Eq.refl true)]
              refine runs_bind.mpr ⟨1, some ⟨blob, size.symm⟩, _, runs_malloc.mpr ⟨rfl, rfl⟩, ?_,
                (one_mul _).symm⟩
              refine runs_bind.mpr ⟨{ fromServer := blob }, (true, blob),
                { fromServer := blobs.flatMap frame },
                runs_ensureRead.mpr ⟨short, blob, rfl, rfl, rfl⟩, ?_, rfl⟩
              dsimp only
              rw [if_pos (Eq.refl true), decoded]
              exact runs_bind.mpr ⟨_, some products, 1, others, .ret _, (mul_one _).symm⟩
            · apply Traffic.ext <;> simp [frame]

def Encodes (products : List Product) (blobs : List Bytes) : Prop :=
  List.Forall₂ (fun product blob => productSerialize product = some blob) products blobs

theorem runs_sendAll {products : List Product} {moved : Traffic} {value : Unit} :
    Runs moves (sendAll products) moved value ↔
      ∃ blobs, Encodes products blobs ∧ moved = { toPeer := blobs.flatMap frame } := by
  induction products generalizing moved with
  | nil =>
      rw [sendAll, runs_ret]
      constructor
      · rintro ⟨rfl, _⟩
        exact ⟨[], .nil, rfl⟩
      · rintro ⟨blobs, encodes, rfl⟩
        cases encodes
        exact ⟨rfl, rfl⟩
  | cons product products ih =>
      cases encoded : productSerialize product with
      | none =>
          rw [sendAll, encoded]
          constructor
          · intro runs
            exact absurd runs not_runs_undefined
          · rintro ⟨_, encodes, _⟩
            cases encodes with
            | cons other _ => exact absurd (encoded.symm.trans other) (by simp)
      | some blob =>
          have some_bytes := productSerialize_ne_nil encoded
          have short := productSerialize_length encoded
          rw [sendAll, encoded]
          dsimp only
          rw [runs_bind]
          constructor
          · rintro ⟨_, _, _, first, others, rfl⟩
            obtain ⟨_, rfl, rfl⟩ := (runs_connSend some_bytes).mp first
            obtain ⟨blobs, encodes, rfl⟩ := ih.mp others
            exact ⟨blob :: blobs, .cons encoded encodes, rfl⟩
          · rintro ⟨_, encodes, rfl⟩
            cases encodes with
            | @cons _ other _ blobs same tail =>
                obtain rfl := Option.some.inj (encoded.symm.trans same)
                exact ⟨{ toPeer := frame blob }, true, { toPeer := blobs.flatMap frame },
                  (runs_connSend some_bytes).mpr ⟨short, rfl, rfl⟩, ih.mpr ⟨blobs, tail, rfl⟩, rfl⟩

theorem runs_receiveProducts {backend : Backend} {count : Nat} {moved : Traffic}
    {products : List Product} : Runs moves (Client.receiveProducts backend true count) moved products ↔
      ∃ blobs, blobs.length = count ∧ Decodes blobs products ∧
        moved = { fromPeer := blobs.flatMap frame } := by
  induction count generalizing moved products with
  | zero =>
      rw [Client.receiveProducts, runs_ret]
      constructor
      · rintro ⟨rfl, rfl⟩
        exact ⟨[], rfl, .nil, rfl⟩
      · rintro ⟨blobs, none_left, decodes, rfl⟩
        obtain rfl := List.length_eq_zero_iff.mp none_left
        cases decodes
        exact ⟨rfl, rfl⟩
  | succ count ih =>
      rw [Client.receiveProducts, runs_bind_idle fun _ _ => runs_uninitialised.mp]
      constructor
      · rintro ⟨length, _, runs⟩
        obtain ⟨_, block, _, granted, behind, rfl⟩ := runs_bind.mp runs
        obtain ⟨rfl, _⟩ := runs_malloc.mp granted
        obtain ⟨_, received, _, first, behind, rfl⟩ := runs_bind.mp behind
        obtain ⟨blob, short, rfl, rfl⟩ := (runs_connReceive length.property).mp first
        dsimp only at behind
        cases decoded : productUnserialize blob with
        | none =>
            rw [decoded] at behind
            exact absurd behind not_runs_undefined
        | some product =>
            rw [decoded] at behind
            obtain ⟨_, _, _, others, ended, rfl⟩ := runs_bind.mp behind
            obtain ⟨blobs, rfl, decodes, rfl⟩ := ih.mp others
            obtain ⟨rfl, rfl⟩ := runs_ret.mp ended
            exact ⟨blob :: blobs, rfl, .cons ⟨decoded, short⟩ decodes, by
              apply Traffic.ext <;> simp⟩
      · rintro ⟨_, length, decodes, rfl⟩
        cases decodes with
        | nil => contradiction
        | @cons blob product blobs products head tail =>
            obtain ⟨decoded, short⟩ := head
            have others := ih.mpr ⟨blobs, Nat.succ.inj length, tail, rfl⟩
            have eight := sizeBytes_length blob.length
            have size : fromLittleEndian (sizeBytes blob.length) = blob.length :=
              fromLittleEndian_sizeBytes (by omega)
            refine ⟨⟨sizeBytes blob.length, eight⟩, runs_uninitialised.mpr rfl, runs_bind.mpr
              ⟨1, some ⟨blob, size.symm⟩, _, runs_malloc.mpr ⟨rfl, rfl⟩, ?_, (one_mul _).symm⟩⟩
            refine runs_bind.mpr ⟨{ fromPeer := frame blob }, _, { fromPeer := blobs.flatMap frame },
              (runs_connReceive eight).mpr ⟨blob, short, rfl, rfl⟩, ?_, rfl⟩
            dsimp only
            rw [decoded]
            exact runs_bind.mpr ⟨_, products, 1, others, .ret _, (mul_one _).symm⟩

/-! The three processes. -/

/-- What follows the code of an answer, and the products that are read from it. -/
inductive Listed (code : Int32) : Bytes → Option (Int32 × List Product) → Prop
  | error (failed : code = messageError) : Listed code [] none
  | products {blobs : List Bytes} {products : List Product} (other : code ≠ messageError)
      (count : blobs.length = code.toInt.toNat) (decodes : Decodes blobs products) :
      Listed code (blobs.flatMap frame) (some (code, products))

theorem runs_requestProducts {moved : Traffic} {result : Int32 × List Product} :
    Runs moves requestProducts moved result ↔ ∃ code rest listed, code.length = 4 ∧
      Listed (bytesInt code) rest listed ∧ result = listed.getD (-1, []) ∧
      moved = { toServer := intBytes cmdGetProducts, fromServer := code ++ rest } := by
  have short : (intBytes cmdGetProducts).length < 2 ^ 31 := by decide
  unfold requestProducts
  rw [runs_idle fun _ _ => runs_shConnOpen]
  constructor
  · intro runs
    obtain ⟨_, _, _, written, runs, rfl⟩ := runs_bind.mp runs
    obtain ⟨_, rfl, rfl⟩ := runs_ensureWrite.mp written
    dsimp only at runs
    rw [if_pos rfl] at runs
    obtain ⟨_, _, _, read, runs, rfl⟩ := runs_bind.mp runs
    obtain ⟨_, code, four, rfl, rfl⟩ := runs_ensureRead.mp read
    rw [intBytes_length] at four
    simp only [Bool.not_true, Bool.false_or, decide_eq_true_eq] at runs
    split at runs
    · rename_i failed
      obtain ⟨rfl, rfl⟩ := runs_ret.mp runs
      exact ⟨code, [], none, four, .error failed, rfl, by apply Traffic.ext <;> simp⟩
    · rename_i other
      obtain ⟨_, array, _, granted, lists, rfl⟩ := runs_bind.mp runs
      obtain ⟨rfl, isSome⟩ := runs_malloc.mp granted
      rw [isSome] at lists
      obtain ⟨_, _, _, reads, closes, rfl⟩ := runs_bind.mp lists
      obtain ⟨blobs, products, count, decodes, rfl, rfl⟩ := runs_readProducts.mp reads
      dsimp only at closes
      rw [runs_idle fun _ _ => runs_shConnClose] at closes
      obtain ⟨rfl, rfl⟩ := runs_ret.mp closes
      exact ⟨code, _, _, four, .products other count decodes, rfl, by apply Traffic.ext <;> simp⟩
  · rintro ⟨code, rest, listed, four, answered, rfl, rfl⟩
    have read : Runs moves (ensureRead (intBytes cmdGetProducts)) { fromServer := code } (true, code) :=
      runs_ensureRead.mpr ⟨short, code, four, rfl, rfl⟩
    refine runs_bind.mpr ⟨_, true, { fromServer := code ++ rest },
      runs_ensureWrite.mpr ⟨short, rfl, rfl⟩, ?_, by apply Traffic.ext <;> simp⟩
    rw [if_pos rfl]
    refine runs_bind.mpr ⟨_, _, { fromServer := rest }, read, ?_, rfl⟩
    simp only [Bool.not_true, Bool.false_or, decide_eq_true_eq]
    cases answered with
    | error failed =>
        rw [if_pos failed]
        exact .ret _
    | products other count decodes =>
        rw [if_neg other]
        refine runs_bind.mpr ⟨1, some ⟨List.replicate (arraySize (bytesInt code)) 0,
          List.length_replicate⟩, _, runs_malloc.mpr ⟨rfl, rfl⟩, ?_, (one_mul _).symm⟩
        refine runs_bind.mpr ⟨_, _, 1, runs_readProducts.mpr ⟨_, _, count, decodes, rfl, rfl⟩, ?_,
          (mul_one _).symm⟩
        dsimp only
        rw [runs_idle fun _ _ => runs_shConnClose]
        exact .ret _

theorem runs_getProducts {moved : Traffic} {result : Int32 × List Product} :
    Runs moves getProducts moved result ↔ Runs moves requestProducts moved result := by
  unfold getProducts
  rw [runs_idle fun _ _ => runs_mark, runs_bind]
  constructor
  · rintro ⟨_, _, _, requests, marked, rfl⟩
    rw [runs_idle fun _ _ => runs_mark] at marked
    obtain ⟨rfl, rfl⟩ := runs_ret.mp marked
    rw [mul_one]
    exact requests
  · intro requests
    refine ⟨_, _, 1, requests, ?_, (mul_one _).symm⟩
    rw [runs_idle fun _ _ => runs_mark]
    exact .ret _

theorem runs_sendProducts {moved : Traffic} {value : Unit} :
    Runs moves sendProducts moved value ↔ ∃ code rest listed blobs, code.length = 4 ∧
      Listed (bytesInt code) rest listed ∧ Encodes ((listed.map Prod.snd).getD []) blobs ∧
      moved = { toServer := intBytes cmdGetProducts, fromServer := code ++ rest,
                toPeer := frame code ++ blobs.flatMap frame } := by
  unfold sendProducts
  rw [runs_bind]
  constructor
  · rintro ⟨_, _, _, gets, runs, rfl⟩
    obtain ⟨code, rest, listed, four, answered, rfl, rfl⟩ :=
      runs_requestProducts.mp (runs_getProducts.mp gets)
    cases answered with
    | error failed =>
        rw [Option.getD_none] at runs
        dsimp only at runs
        rw [if_pos rfl] at runs
        obtain ⟨_, _, _, sent, ended, rfl⟩ := runs_bind.mp runs
        obtain ⟨rfl, rfl⟩ := (runs_sendInt (intBytes_length _)).mp sent
        obtain ⟨rfl, _⟩ := runs_ret.mp ended
        rw [← failed, intBytes_bytesInt four]
        exact ⟨code, [], none, [], four, .error failed, .nil, by apply Traffic.ext <;> simp⟩
    | products other count decodes =>
        have listed : bytesInt code ≠ -1 := other
        rw [Option.getD_some] at runs
        dsimp only at runs
        rw [if_neg listed] at runs
        obtain ⟨_, _, _, sent, others, rfl⟩ := runs_bind.mp runs
        obtain ⟨rfl, rfl⟩ := (runs_sendInt (intBytes_length _)).mp sent
        obtain ⟨blobs, encodes, rfl⟩ := runs_sendAll.mp others
        rw [intBytes_bytesInt four]
        exact ⟨code, _, _, blobs, four, .products other count decodes, encodes, by
          apply Traffic.ext <;> simp⟩
  · rintro ⟨code, rest, listed, blobs, four, answered, encodes, rfl⟩
    refine ⟨{ toServer := intBytes cmdGetProducts, fromServer := code ++ rest }, listed.getD (-1, []),
      { toPeer := frame code ++ blobs.flatMap frame },
      runs_getProducts.mpr (runs_requestProducts.mpr ⟨code, rest, listed, four, answered, rfl, rfl⟩),
      ?_, by apply Traffic.ext <;> simp⟩
    cases answered with
    | error failed =>
        cases encodes
        rw [Option.getD_none]
        dsimp only
        rw [if_pos rfl, ← failed, intBytes_bytesInt four]
        exact runs_bind.mpr ⟨_, true, 1, (runs_sendInt four).mpr ⟨rfl, rfl⟩, .ret _, by
          apply Traffic.ext <;> simp⟩
    | products other count decodes =>
        have listed : bytesInt code ≠ -1 := other
        rw [Option.getD_some]
        dsimp only
        rw [if_neg listed, intBytes_bytesInt four]
        exact runs_bind.mpr ⟨_, true, { toPeer := blobs.flatMap frame },
          (runs_sendInt four).mpr ⟨rfl, rfl⟩, runs_sendAll.mpr ⟨blobs, encodes, rfl⟩, rfl⟩

theorem runs_execute_getProducts {backend : Backend} {moved : Traffic} {done : Bool} :
    Runs moves (execute backend cmdGetProducts) moved done ↔
      Runs moves sendProducts moved () ∧ done = false := by
  unfold execute
  rw [runs_idle fun _ _ => runs_mark, if_pos rfl, runs_bind]
  constructor
  · rintro ⟨_, _, _, sends, ended, rfl⟩
    obtain ⟨rfl, rfl⟩ := runs_ret.mp ended
    rw [mul_one]
    exact ⟨sends, rfl⟩
  · rintro ⟨sends, rfl⟩
    exact ⟨moved, (), 1, sends, .ret _, (mul_one _).symm⟩

theorem runs_forkedServer_products {backend : Backend} {answer request reply : Bytes} :
    Runs moves (forkedServer backend)
      { fromPeer := frame (intBytes cmdGetProducts), toPeer := answer, toServer := request,
        fromServer := reply } false ↔ ∃ code rest listed blobs, code.length = 4 ∧
      Listed (bytesInt code) rest listed ∧ Encodes ((listed.map Prod.snd).getD []) blobs ∧
      answer = frame code ++ blobs.flatMap frame ∧ request = intBytes cmdGetProducts ∧
      reply = code ++ rest := by
  have command : bytesInt ((intBytes cmdGetProducts).take 4) = cmdGetProducts := by decide
  rw [runs_forkedServer]
  constructor
  · rintro ⟨clientData, behind, enough, short, executes, shape⟩
    obtain ⟨requests, replies, received, sent⟩ := Traffic.ext_iff.mp shape
    dsimp only at requests replies received sent
    obtain ⟨rfl, quiet⟩ := @frame_cancel (intBytes cmdGetProducts) clientData [] behind.fromPeer
      (by decide) short (by simpa using received)
    rw [command] at executes
    obtain ⟨code, rest, listed, blobs, four, answered, encodes, rfl⟩ :=
      runs_sendProducts.mp (runs_execute_getProducts.mp executes).1
    exact ⟨code, rest, listed, blobs, four, answered, encodes, sent, requests, replies⟩
  · rintro ⟨code, rest, listed, blobs, four, answered, encodes, rfl, rfl, rfl⟩
    have sends := (@runs_sendProducts _ ()).mpr ⟨code, rest, listed, blobs, four, answered, encodes, rfl⟩
    have executes := (@runs_execute_getProducts backend _ false).mpr ⟨sends, rfl⟩
    rw [← command] at executes
    exact ⟨intBytes cmdGetProducts, _, by decide, by decide, executes, by
      apply Traffic.ext <;> simp [command]⟩

theorem runs_clientProducts {backend : Backend} {moved : Traffic}
    {result : Option (Int32 × List Product)} :
    Runs moves (Client.requestProducts backend) moved result ↔ ∃ response rest,
      4 ≤ response.length ∧ response.length < 2 ^ 31 ∧
      Listed (bytesInt (response.take 4)) rest result ∧
      moved = { toPeer := frame (intBytes cmdGetProducts), fromPeer := frame response ++ rest } := by
  unfold Client.requestProducts
  rw [runs_bind_of fun _ _ => runs_sendInt (intBytes_length cmdGetProducts)]
  constructor
  · rintro ⟨rest, runs, rfl⟩
    rw [runs_bind_idle fun _ _ => runs_uninitialised.mp] at runs
    obtain ⟨length, _, runs⟩ := runs
    obtain ⟨_, _, behind, first, answers, rfl⟩ := runs_bind.mp runs
    obtain ⟨response, short, rfl, rfl⟩ := (runs_connReceive length.property).mp first
    dsimp only at answers
    by_cases enough : 4 ≤ response.length
    · rw [field_start enough] at answers
      dsimp only at answers
      split at answers
      · rename_i failed
        obtain ⟨rfl, rfl⟩ := runs_ret.mp answers
        exact ⟨response, [], enough, short, .error failed, by apply Traffic.ext <;> simp⟩
      · rename_i other
        obtain ⟨_, array, _, granted, lists, rfl⟩ := runs_bind.mp answers
        obtain ⟨rfl, isSome⟩ := runs_malloc.mp granted
        rw [isSome] at lists
        obtain ⟨_, _, _, receives, ended, rfl⟩ := runs_bind.mp lists
        obtain ⟨blobs, count, decodes, rfl⟩ := runs_receiveProducts.mp receives
        obtain ⟨rfl, rfl⟩ := runs_ret.mp ended
        exact ⟨response, _, enough, short, .products other count decodes, by
          apply Traffic.ext <;> simp⟩
    · rw [field_short (by omega)] at answers
      exact absurd answers not_runs_undefined
  · rintro ⟨response, rest, enough, short, answered, rfl⟩
    refine ⟨{ fromPeer := frame response ++ rest }, ?_, by apply Traffic.ext <;> simp⟩
    rw [runs_bind_idle fun _ _ => runs_uninitialised.mp]
    refine ⟨⟨sizeBytes 0, rfl⟩, runs_uninitialised.mpr rfl, runs_bind.mpr ⟨_, _, { fromPeer := rest },
      (runs_connReceive (sizeBytes_length 0)).mpr ⟨response, short, rfl, rfl⟩, ?_, rfl⟩⟩
    dsimp only
    rw [field_start enough]
    dsimp only
    cases answered with
    | error failed =>
        rw [if_pos failed]
        exact .ret _
    | products other count decodes =>
        rw [if_neg other]
        refine runs_bind.mpr ⟨1, some ⟨List.replicate _ 0, List.length_replicate⟩, _,
          runs_malloc.mpr ⟨rfl, rfl⟩, ?_, (one_mul _).symm⟩
        exact runs_bind.mpr ⟨_, _, 1, runs_receiveProducts.mpr ⟨_, count, decodes, rfl⟩, .ret _,
          (mul_one _).symm⟩

/-- What the database server answers. -/
inductive Lists (c : Circumstances) (db : Database) : Bytes → Prop
  | error (failed : db.getProducts c = some none) : Lists c db (intBytes messageError)
  | products {products : List Product} {blobs : List Bytes}
      (found : db.getProducts c = some (some products)) (encodes : Encodes products blobs) :
      Lists c db (listing blobs)

theorem runs_serveProducts {c : Circumstances} {db : Database} {moved : Traffic} {value : Unit} :
    Runs servingMoves (db.sendProducts c) moved value ↔
      ∃ reply, Lists c db reply ∧ moved = { fromServer := reply } := by
  unfold Database.sendProducts
  constructor
  · intro runs
    split at runs
    · exact absurd runs not_runs_undefinedBehaviour
    · rename_i failed
      exact ⟨_, .error failed, runs_serverWrites.mp runs⟩
    · rename_i products found
      split at runs
      · rename_i blobs encoded
        exact ⟨_, .products found (mapM_eq_some_iff.mp encoded), runs_serverWrites.mp runs⟩
      · exact absurd runs not_runs_undefinedBehaviour
  · rintro ⟨reply, lists, rfl⟩
    cases lists with
    | error failed =>
        rw [failed]
        exact runs_serverWrites.mpr rfl
    | products found encodes =>
        rw [found]
        dsimp only
        rw [mapM_eq_some_iff.mpr encodes]
        exact runs_serverWrites.mpr rfl

theorem runs_serve_products {c : Circumstances} {db after : Database} {reply : Bytes} :
    Runs servingMoves (serve c db) { toServer := intBytes cmdGetProducts, fromServer := reply }
      (some after) ↔ Lists c db reply ∧ after = db := by
  rw [runs_serve]
  constructor
  · rintro ⟨code, rest, four, sends, shape⟩
    obtain ⟨requests, replies, _, _⟩ := Traffic.ext_iff.mp shape
    dsimp only at requests replies
    obtain ⟨rfl, later⟩ := @List.append_inj _ (intBytes cmdGetProducts) code [] rest.toServer
      (by simpa using requests) (by rw [four, intBytes_length])
    rw [bytesInt_intBytes, if_pos rfl] at sends
    obtain ⟨_, _, _, lists, ended, rfl⟩ := runs_bind.mp sends
    obtain ⟨text, answers, rfl⟩ := runs_serveProducts.mp lists
    obtain ⟨rfl, same⟩ := runs_ret.mp ended
    have equal : reply = text := by simpa using replies
    exact ⟨equal ▸ answers, Option.some.inj same⟩
  · rintro ⟨lists, rfl⟩
    refine ⟨intBytes cmdGetProducts, { fromServer := reply }, intBytes_length _, ?_, by
      apply Traffic.ext <;> simp⟩
    rw [bytesInt_intBytes, if_pos rfl]
    exact runs_bind.mpr ⟨_, (), 1, runs_serveProducts.mpr ⟨reply, lists, rfl⟩, .ret _,
      (mul_one _).symm⟩

/-! Lists that are the same at both ends of a connection. -/

theorem Decodes.unique {blobs : List Bytes} {products others : List Product}
    (decodes : Decodes blobs products) (again : Decodes blobs others) : products = others := by
  induction decodes generalizing others with
  | nil =>
      cases again
      rfl
  | cons head _ ih =>
      cases again with
      | cons same tail =>
          have first := head.1.symm.trans same.1
          rw [Option.some.inj first, ih tail]

theorem Decodes.short {blobs : List Bytes} {products : List Product} (decodes : Decodes blobs products) :
    ∀ blob ∈ blobs, blob.length < 2 ^ 31 := by
  induction decodes with
  | nil => simp
  | cons head _ ih => exact List.forall_mem_cons.mpr ⟨head.2, ih⟩

theorem Encodes.unique {products : List Product} {blobs others : List Bytes}
    (encodes : Encodes products blobs) (again : Encodes products others) : blobs = others :=
  Option.some.inj ((mapM_eq_some_iff.mpr encodes).symm.trans (mapM_eq_some_iff.mpr again))

theorem Listed.products_eq {code : Int32} {blobs : List Bytes} {products : List Product}
    {result : Option (Int32 × List Product)} (listed : Listed code (blobs.flatMap frame) result)
    (other : code ≠ messageError) (decodes : Decodes blobs products) :
    result = some (code, products) := by
  generalize text : blobs.flatMap frame = rest at listed
  cases listed with
  | error failed => exact absurd failed other
  | products _ _ again =>
      have same := frames_cancel decodes.short again.short text
      subst same
      rw [decodes.unique again]

/-! A whole fetch. -/

/-- What the three processes move for one client that asks for the products: the reply of the
database server, the products in its array and in the forked server's, and the client's own. -/
structure Fetch (backend : Backend) (c : Circumstances) (db : Database) where
  listed : List Product
  request : Bytes
  reply : Bytes
  code : Int32
  relayed : List Product
  command : Bytes
  answer : Bytes
  numProducts : Int32
  products : List Product
  lists : db.getProducts c = some (some listed)
  serves : Runs servingMoves (serve c db) { toServer := request, fromServer := reply } (some db)
  gets : Runs moves getProducts { toServer := request, fromServer := reply } (code, relayed)
  relays : Runs moves (forkedServer backend)
    { fromPeer := command, toPeer := answer, toServer := request, fromServer := reply } false
  fetches : Runs moves (Client.requestProducts backend) { toPeer := command, fromPeer := answer }
    (some (numProducts, products))

structure Shows (row : ProductRow) (product : Product) : Prop where
  id : product.id.toInt = row.id
  name : cstring product.name = row.name
  description : row.description = some (cstring product.description)
  price : product.price = row.price
  stock : product.stock.toInt = row.quantity

/-- Every element lies in an array of `size` bytes; pointers take 8. -/
def Fits (size : Nat) (products : List Product) : Prop :=
  ∀ i < products.length, 8 * i + 8 ≤ size

theorem fits_iff {size : Nat} {products : List Product} :
    Fits size products ↔ 8 * products.length ≤ size := by
  constructor
  · intro fits
    by_cases empty : products.length = 0
    · omega
    · have last := fits (products.length - 1) (by omega)
      omega
  · intro enough i inside
    omega

/-- The rows arrive, and up to the client every array is large enough. -/
structure Fetch.Arrives {backend : Backend} {c : Circumstances} {db : Database}
    (fetch : Fetch backend c db) : Prop where
  count : fetch.numProducts.toInt = db.products.length
  shows : List.Forall₂ Shows db.products fetch.products
  listed : Fits (8 * (storeSingleNumber db.products.length).toInt.toNat) fetch.listed
  relayed : Fits (arraySize fetch.code) fetch.relayed

structure Fetch.Intact {backend : Backend} {c : Circumstances} {db : Database}
    (fetch : Fetch backend c db) : Prop extends fetch.Arrives where
  received : Fits (Client.arraySize fetch.numProducts) fetch.products

/-- Rows that can be sent: their numbers are `int`s, and their encodings have an `int` size. -/
structure Listable (row : ProductRow) : Prop where
  id : -2 ^ 31 ≤ row.id ∧ row.id < 2 ^ 31
  quantity : row.quantity < 2 ^ 31
  name : (0 : UInt8) ∉ row.name
  described : row.description.isSome
  description : (0 : UInt8) ∉ row.description.getD []
  small : row.name.length + (row.description.getD []).length < 2 ^ 31 - 64

theorem atoi_eq {column : Int} (lower : -2 ^ 31 ≤ column) (upper : column < 2 ^ 31) :
    (atoi column).toInt = column := by
  have saturated : max (-2 ^ 63) (min (2 ^ 63 - 1) column) = column := by omega
  rw [atoi, storeSingleNumber, saturated]
  exact Int32.toInt_ofInt_of_le lower upper

theorem product_shows {row : ProductRow} {product : Product} (listable : Listable row)
    (made : row.product = some product) : Shows row product := by
  have check := row.check
  have clean := listable.description
  unfold ProductRow.product at made
  obtain ⟨description, present, rfl⟩ := Option.map_eq_some_iff.mp made
  rw [present, Option.getD_some] at clean
  have text : cstring (cstring description ++ [0]) = description := by
    rw [cstring_append_nul (cstring_no_nul _) [], cstring_eq_self clean]
  constructor
  · exact atoi_eq listable.id.1 listable.id.2
  · change cstring (cstring row.name ++ [0]) = row.name
    rw [cstring_append_nul (cstring_no_nul _) [], cstring_eq_self listable.name]
  · change row.description = some (cstring (cstring description ++ [0]))
    rw [present, text]
  · rfl
  · exact atoi_eq (by omega) listable.quantity

theorem product_decoded {row : ProductRow} {product : Product} {blob : Bytes}
    (made : row.product = some product) (encoded : productSerialize product = some blob) :
    productUnserialize blob = some product := by
  have found := (productUnserialize_encoded encoded []).1
  rw [List.append_nil] at found
  rw [found]
  unfold ProductRow.product at made
  obtain ⟨description, _, rfl⟩ := Option.map_eq_some_iff.mp made
  have texts : ∀ text, cstring (cstring text ++ [0]) = cstring text := fun text =>
    cstring_append_nul (cstring_no_nul _) []
  simp only [decodedProduct, productNew, texts]

theorem listable_encoded {row : ProductRow} (listable : Listable row) :
    ∃ product blob, row.product = some product ∧ productSerialize product = some blob := by
  have clean := listable.description
  have small := listable.small
  obtain ⟨description, present⟩ := Option.isSome_iff_exists.mp listable.described
  rw [present, Option.getD_some] at clean small
  have codable : (productNew (atoi row.id) row.name description row.price (atoi row.quantity)).Codable := by
    constructor
    · exact List.mem_append_right _ List.mem_cons_self
    · exact List.mem_append_right _ List.mem_cons_self
    · simp only [productNew, cstring_eq_self listable.name, cstring_eq_self clean,
        cstring_append_nul listable.name [], cstring_append_nul clean []]
      exact small
  obtain ⟨blob, encoded, _⟩ := productSerialize_codable codable
  exact ⟨_, blob, by rw [ProductRow.product, present, Option.map_some], encoded⟩

theorem rows_encoded {rows : List ProductRow} (listable : ∀ row ∈ rows, Listable row) :
    ∃ products blobs, rows.mapM ProductRow.product = some products ∧ Encodes products blobs := by
  induction rows with
  | nil => exact ⟨[], [], rfl, .nil⟩
  | cons row rows ih =>
      obtain ⟨here, behind⟩ := List.forall_mem_cons.mp listable
      obtain ⟨product, blob, made, encoded⟩ := listable_encoded here
      obtain ⟨products, blobs, found, encodes⟩ := ih behind
      refine ⟨product :: products, blob :: blobs, ?_, .cons encoded encodes⟩
      rw [mapM_eq_some_iff] at found ⊢
      exact .cons made found

theorem rows_show {rows : List ProductRow} {products : List Product}
    (listable : ∀ row ∈ rows, Listable row) (found : rows.mapM ProductRow.product = some products) :
    List.Forall₂ Shows rows products := by
  rw [mapM_eq_some_iff] at found
  induction found with
  | nil => exact .nil
  | cons made _ ih =>
      obtain ⟨here, behind⟩ := List.forall_mem_cons.mp listable
      exact .cons (product_shows here made) (ih behind)

theorem rows_decoded {rows : List ProductRow} {products : List Product} {blobs : List Bytes}
    (found : rows.mapM ProductRow.product = some products) (encodes : Encodes products blobs) :
    Decodes blobs products := by
  rw [mapM_eq_some_iff] at found
  induction found generalizing blobs with
  | nil =>
      cases encodes
      exact .nil
  | cons made _ ih =>
      cases encodes with
      | cons encoded tail =>
          exact .cons ⟨product_decoded made encoded, productSerialize_length encoded⟩ (ih tail)

section

variable {backend : Backend} {c : Circumstances} {db : Database}

theorem ErrorFree.rows (errorFree : ErrorFree c db) {listed : List Product}
    (lists : db.getProducts c = some (some listed)) :
    db.products.mapM ProductRow.product = some listed := by
  rw [errorFree.getProducts, Option.map_eq_some_iff] at lists
  obtain ⟨products, found, same⟩ := lists
  cases same
  exact found

theorem ErrorFree.code (errorFree : ErrorFree c db) :
    (Int32.ofInt db.products.length).toInt = db.products.length ∧
      Int32.ofInt db.products.length ≠ messageError := by
  have few := errorFree.few
  have number : (Int32.ofInt db.products.length).toInt = db.products.length :=
    Int32.toInt_ofInt_of_le (by omega) (by omega)
  refine ⟨number, ?_⟩
  intro same
  rw [same] at number
  have negative : messageError.toInt = -1 := by decide
  omega

/-- A list of as many products as are counted in front of it is read as that list. -/
theorem ErrorFree.listing (errorFree : ErrorFree c db) {blobs : List Bytes} {products : List Product}
    (count : blobs.length = db.products.length) (decodes : Decodes blobs products) {word rest : Bytes}
    {result : Option (Int32 × List Product)} (four : word.length = 4)
    (answered : Listed (bytesInt word) rest result) (same : Iac.listing blobs = word ++ rest) :
    word = intBytes (Int32.ofInt db.products.length) ∧
      result = some (Int32.ofInt db.products.length, products) := by
  obtain ⟨_, other⟩ := errorFree.code
  rw [Iac.listing, count] at same
  obtain ⟨rfl, rfl⟩ := List.append_inj same (by rw [four, intBytes_length])
  rw [bytesInt_intBytes] at answered
  exact ⟨rfl, answered.products_eq other decodes⟩

theorem encoded_length {products : List Product} {blobs : List Bytes}
    (found : db.products.mapM ProductRow.product = some products)
    (encodes : Encodes products blobs) : blobs.length = db.products.length := by
  rw [← mapM_length found]
  exact mapM_length (mapM_eq_some_iff.mpr encodes)

theorem fetch_products (errorFree : ErrorFree c db) (fetch : Fetch backend c db) :
    fetch.code = Int32.ofInt db.products.length ∧ fetch.numProducts = Int32.ofInt db.products.length ∧
      fetch.relayed = fetch.listed ∧ fetch.products = fetch.listed ∧
      db.products.mapM ProductRow.product = some fetch.listed := by
  obtain ⟨listed, request, reply, code, relayed, command, answer, numProducts, products, lists, serves,
    gets, relays, fetches⟩ := fetch
  have found := errorFree.rows lists
  obtain ⟨word, rest, result, four, answered, read, shape⟩ :=
    runs_requestProducts.mp (runs_getProducts.mp gets)
  obtain ⟨rfl, replied, _, _⟩ := Traffic.ext_iff.mp shape
  cases (runs_serve_products.mp serves).1 with
  | error failed => exact absurd (lists.symm.trans failed) (by simp)
  | @products others blobs again encodes =>
      have same := lists.symm.trans again
      simp only [Option.some.injEq] at same
      subst same
      have count := encoded_length found encodes
      have decodes := rows_decoded found encodes
      -- the forked server's array
      obtain ⟨rfl, rfl⟩ := errorFree.listing count decodes four answered replied
      simp only [Option.getD_some, Prod.mk.injEq] at read
      obtain ⟨rfl, rfl⟩ := read
      -- the client's
      obtain ⟨response, behind, enough, short, received, shape⟩ := runs_clientProducts.mp fetches
      obtain ⟨_, _, arrived, asked⟩ := Traffic.ext_iff.mp shape
      dsimp only at arrived asked
      subst asked
      obtain ⟨word, rest, result, bytes, four, answered, encoded, sent, _, replied⟩ :=
        runs_forkedServer_products.mp relays
      obtain ⟨rfl, rfl⟩ := errorFree.listing count decodes four answered replied
      have equal := Encodes.unique encodes encoded
      subst equal
      obtain ⟨rfl, rfl⟩ := frame_cancel short (by rw [intBytes_length]; decide) (arrived.symm.trans sent)
      rw [List.take_of_length_le (Nat.le_of_eq (intBytes_length _))] at received
      obtain ⟨_, same⟩ := errorFree.listing count decodes (intBytes_length _) received
        (by rw [listing, count])
      simp only [Option.some.injEq, Prod.mk.injEq] at same
      obtain ⟨rfl, rfl⟩ := same
      exact ⟨rfl, rfl, rfl, rfl, found⟩

theorem fetch_arrives (errorFree : ErrorFree c db) (listable : ∀ row ∈ db.products, Listable row)
    (fetch : Fetch backend c db) : fetch.Arrives := by
  obtain ⟨code, numProducts, relayed, products, found⟩ := fetch_products errorFree fetch
  have number := errorFree.code.1
  have few := errorFree.few
  have length := mapM_length found
  constructor
  · rw [numProducts, number]
  · rw [products]
    exact rows_show listable found
  · rw [fits_iff, length, storeSingleNumber_eq (Int.natCast_nonneg _) (by omega), Int.toNat_natCast]
  · rw [fits_iff, relayed, length, code, arraySize, number]
    omega

theorem fetch_exists (backend : Backend) (errorFree : ErrorFree c db)
    (listable : ∀ row ∈ db.products, Listable row) : Nonempty (Fetch backend c db) := by
  obtain ⟨listed, blobs, found, encodes⟩ := rows_encoded listable
  obtain ⟨number, other⟩ := errorFree.code
  have lists : db.getProducts c = some (some listed) := by
    rw [errorFree.getProducts, found, Option.map_some]
  have decodes := rows_decoded found encodes
  have count := encoded_length found encodes
  have answered : Listed (Int32.ofInt db.products.length) (blobs.flatMap frame)
      (some (Int32.ofInt db.products.length, listed)) :=
    .products other (by rw [number, Int.toNat_natCast, count]) decodes
  have reply : listing blobs = intBytes (Int32.ofInt db.products.length) ++ blobs.flatMap frame := by
    rw [listing, count]
  have four := intBytes_length (Int32.ofInt db.products.length)
  have whole := bytesInt_intBytes (Int32.ofInt db.products.length)
  have start := List.take_of_length_le (Nat.le_of_eq four)
  have serves := (@runs_serve_products c db db _).mpr ⟨.products lists encodes, rfl⟩
  rw [reply] at serves
  rw [← whole] at answered
  have gets := runs_getProducts.mpr (runs_requestProducts.mpr ⟨_, _, _, four, answered, rfl, rfl⟩)
  have relays := (@runs_forkedServer_products backend _ _ _).mpr
    ⟨_, _, _, blobs, four, answered, encodes, rfl, rfl, rfl⟩
  rw [← start] at answered
  have fetches := (@runs_clientProducts backend _ _).mpr
    ⟨_, _, Nat.le_of_eq four.symm, by rw [four]; decide, answered, rfl⟩
  exact ⟨⟨listed, _, _, _, _, _, _, _, _, lists, serves, gets, relays, fetches⟩⟩

/-- The client's array has one byte for every product. -/
theorem fetch_overflows (some_products : db.products ≠ []) (fetch : Fetch backend c db) :
    ¬fetch.Intact := by
  intro intact
  have positive := List.length_pos_iff.mpr some_products
  have count := intact.count
  have upper := fetch.numProducts.toInt_lt
  have length := intact.shows.length_eq
  have fits := fits_iff.mp intact.received
  rw [Client.arraySize, count] at fits
  omega

/-- Whatever the table holds, not all the elements that are written lie in their arrays: of a
table that can be sent every row arrives, but the client's array is too small. -/
theorem catalogue_never_intact (backend : Backend) (some_products : db.products ≠ []) :
    (¬∃ fetch : Fetch backend c db, fetch.Intact) ∧
      (ErrorFree c db → (∀ row ∈ db.products, Listable row) →
        Nonempty (Fetch backend c db) ∧ ∀ fetch : Fetch backend c db, fetch.Arrives ∧
          ¬Fits (Client.arraySize fetch.numProducts) fetch.products) := by
  constructor
  · rintro ⟨fetch, intact⟩
    exact fetch_overflows some_products fetch intact
  · intro errorFree listable
    refine ⟨fetch_exists backend errorFree listable, fun fetch => ?_⟩
    have arrives := fetch_arrives errorFree listable fetch
    exact ⟨arrives, fun received => fetch_overflows some_products fetch ⟨arrives, received⟩⟩

end

theorem init_listable : ∀ row ∈ init.products, Listable row := by
  have ranges : ∀ row ∈ init.products, (-2 ^ 31 ≤ row.id ∧ row.id < 2 ^ 31) ∧ row.quantity < 2 ^ 31 ∧
      row.description.isSome := by decide
  have texts : ∀ row ∈ init.products, (0 : UInt8) ∉ row.name ∧ (0 : UInt8) ∉ row.description.getD [] ∧
      row.name.length + (row.description.getD []).length < 2 ^ 31 - 64 := by decide +kernel
  intro row member
  obtain ⟨id, quantity, described⟩ := ranges row member
  obtain ⟨name, description, small⟩ := texts row member
  exact ⟨id, quantity, name, described, description, small⟩

theorem init_errorFree : ErrorFree calm init := ⟨rfl, rfl, by decide, by decide⟩

theorem catalogue_never_intact_init : ¬∃ fetch : Fetch .fifos calm init, fetch.Intact :=
  (catalogue_never_intact .fifos init_errorFree.some_products).1

/-- The table that a new database starts with. -/
theorem catalogue_init_overflows :
    (∃ fetch : Fetch .sockets calm init, fetch.Arrives) ∧
      ∀ fetch : Fetch .sockets calm init, ¬fetch.Intact := by
  obtain ⟨fetch⟩ := fetch_exists .sockets init_errorFree init_listable
  exact ⟨⟨fetch, fetch_arrives init_errorFree init_listable fetch⟩,
    fetch_overflows init_errorFree.some_products⟩

end Iac
