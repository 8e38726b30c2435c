import Iac.RequestSending

/-! How the main server reads requests, one with each call of `conn_accept`. -/

namespace Iac

namespace Fifo

open CText Interaction Relation

/-! A call of `conn_accept`. -/

inductive Phase
  | hearing
  | linking (c : Accepted)
  | answering (c : Accepted)
  | finished (c : Accepted)

/-- Whose in-FIFO, as the client calls it, is to be opened or has been. -/
def Phase.target : Phase → Option Accepted
  | .hearing => none
  | .linking c => some c
  | .answering c => some c
  | .finished c => some c

def Phase.opened : Phase → Nat
  | .hearing => 0
  | .linking _ => 0
  | .answering _ => 1
  | .finished _ => 1

structure Accepted.Heard (c : Accepted) (done : Bytes) : Prop where
  bytes : done = frame c.inFIFOPath.payload ++ frame c.outFIFOPath.payload
  inShort : c.inFIFOPath.payload.length < 2 ^ 31
  outShort : c.outFIFOPath.payload.length < 2 ^ 31

/-- `done` is what the reads before have read. -/
inductive Tracks : Phase → Bytes → AcceptProgram (Option Accepted) → Prop
  | failed {done : Bytes} : Tracks .hearing done (.ret none)
  | undefined {done : Bytes} {next : Empty → AcceptProgram (Option Accepted)} :
      Tracks .hearing done (.perform .undefined next)
  | select {done : Bytes} {next : Bool → AcceptProgram (Option Accepted)}
      (later : ∀ ready, Tracks .hearing done (next ready)) : Tracks .hearing done (.perform .select next)
  | allocate {done : Bytes} {next : Unit → AcceptProgram (Option Accepted)}
      (later : Tracks .hearing done (next ())) : Tracks .hearing done (.perform .allocate next)
  | malloc {done : Bytes} {size : Nat} {next : Bool → AcceptProgram (Option Accepted)}
      (later : ∀ granted, Tracks .hearing done (next granted)) :
      Tracks .hearing done (.perform (.malloc size) next)
  | read {done : Bytes} {size : Nat} {next : Option (Block size) → AcceptProgram (Option Accepted)}
      (failed : Tracks .hearing done (next none))
      (later : ∀ block : Block size, Tracks .hearing (done ++ block.val) (next (some block))) :
      Tracks .hearing done (.perform (.read size) next)
  | openIn {c : Accepted} {done : Bytes} {next : Unit → AcceptProgram (Option Accepted)}
      (heard : c.Heard done) (later : Tracks (.linking c) done (next ())) :
      Tracks .hearing done (.perform (.openIn c.inFIFOPath) next)
  | openOut {c : Accepted} {done : Bytes} {next : Unit → AcceptProgram (Option Accepted)}
      (later : Tracks (.answering c) done (next ())) :
      Tracks (.linking c) done (.perform (.openOut c.outFIFOPath) next)
  | sendOk {c : Accepted} {done : Bytes} {next : Unit → AcceptProgram (Option Accepted)}
      (later : Tracks (.finished c) done (next ())) :
      Tracks (.answering c) done (.perform (.sendOk c.outFIFOPath) next)
  | ret {c : Accepted} {done : Bytes} : Tracks (.finished c) done (.ret (some c))

theorem frame_of_size {size : Block 8} {path : Bytes} (length : path.length = fromLittleEndian size.val) :
    size.val ++ path = frame path := by
  have again := littleEndian_fromLittleEndian size.val
  rw [size.property] at again
  rw [frame, length, sizeBytes, again]

theorem readPath_tracks {done : Bytes} {next : Option Pointer → AcceptProgram (Option Accepted)}
    (failed : ∀ done, Tracks .hearing done (next none))
    (later : ∀ path : Pointer, path.payload.length < 2 ^ 31 →
      Tracks .hearing (done ++ frame path.payload) (next (some path))) :
    Tracks .hearing done (readPath >>= next) := by
  refine .read (failed done) ?_
  intro size
  change Tracks _ _ (Program.perform (.malloc _) _)
  refine .malloc ?_
  intro granted
  cases granted with
  | false =>
      dsimp only
      -- `malloc(0)` may give `NULL`, and reading nothing into it succeeds
      by_cases empty : fromLittleEndian size.val = 0
      · have nothing := @frame_of_size size [] empty.symm
        have path := later .null (by decide)
        change Tracks .hearing (done ++ frame []) _ at path
        rw [← nothing, List.append_nil] at path
        rw [if_pos empty]
        exact path
      · rw [if_neg empty]
        exact failed _
  | true =>
      dsimp only
      by_cases short : fromLittleEndian size.val < 2 ^ 31
      · rw [if_pos short]
        refine .read (failed _) ?_
        intro block
        have path := later (.block block.val) (by rw [Pointer.payload, block.property]; exact short)
        rw [Pointer.payload, ← frame_of_size block.property, ← List.append_assoc] at path
        exact path
      · rw [if_neg short]
        exact .undefined

theorem connAccept_tracks : Tracks .hearing [] connAccept := by
  refine .select ?_
  intro ready
  cases ready with
  | false => exact .failed
  | true =>
      refine .allocate ?_
      change Tracks _ _ (readPath >>= _)
      refine readPath_tracks (fun _ => .failed) ?_
      intro inFIFOPath inShort
      change Tracks _ _ (readPath >>= _)
      refine readPath_tracks (fun _ => .failed) ?_
      intro outFIFOPath outShort
      exact @Tracks.openIn ⟨inFIFOPath, outFIFOPath⟩ _ _ ⟨rfl, inShort, outShort⟩ (.openOut (.sendOk .ret))

/-! What has been read is requests. -/

/-- What the client calls its out-FIFO is the in-FIFO here. -/
def accepted (c : Connection) : Accepted where
  inFIFOPath := .block c.outFIFOPath.block
  outFIFOPath := .block c.inFIFOPath.block

theorem Path.pointer_eq {path : Path} {pointer : Pointer} (same : pointer.payload = path.block) :
    pointer = .block path.block := by
  have nonempty : path.block ≠ [] := by simp [Path.block]
  cases pointer with
  | block contents => rw [← same, Pointer.payload]
  | null => exact absurd same.symm nonempty
  | stray => exact absurd same.symm nonempty

theorem Path.block_short (path : Path) : path.block.length < 2 ^ 31 := by
  have short := path.short
  rw [Path.block, List.length_append]
  exact short

theorem Accepted.Heard.eq_accepted {c : Accepted} {done x y : Bytes} {connection : Connection}
    (heard : c.Heard done) (front : done ++ x <+: request connection ++ y) :
    c = accepted connection ∧ done = request connection ∧ x <+: y := by
  obtain ⟨bytes, inShort, outShort⟩ := heard
  rw [bytes, request, List.append_assoc, List.append_assoc] at front
  obtain ⟨sameIn, front⟩ := frame_prefix inShort (Path.block_short _) front
  obtain ⟨sameOut, front⟩ := frame_prefix outShort (Path.block_short _) front
  refine ⟨?_, by rw [bytes, sameIn, sameOut, request], front⟩
  rw [accepted, ← Path.pointer_eq sameIn, ← Path.pointer_eq sameOut]

theorem Accepted.Heard.nonempty {c : Accepted} {done x : Bytes} (heard : c.Heard done) :
    ¬done ++ x <+: [] := by
  intro front
  have nothing := List.prefix_nil.mp front
  rw [heard.bytes, List.append_assoc] at nothing
  exact frame_ne_nil _ (List.append_eq_nil_iff.mp nothing).1

variable {ι : Type} {conn : ι → Connection}

theorem heard_in_order {calls : List (Accepted × Bytes)} {order : List ι} {x : Bytes}
    (heard : ∀ entry ∈ calls, entry.1.Heard entry.2)
    (front : calls.flatMap Prod.snd ++ x <+: order.flatMap fun i => request (conn i)) :
    calls = (order.take calls.length).map (fun i => (accepted (conn i), request (conn i))) ∧
      x <+: (order.drop calls.length).flatMap fun i => request (conn i) := by
  induction calls generalizing order with
  | nil => exact ⟨by simp, by simpa using front⟩
  | cons entry calls ih =>
      have first := heard entry List.mem_cons_self
      rw [List.flatMap_cons, List.append_assoc] at front
      cases order with
      | nil => exact absurd front first.nonempty
      | cons i order =>
          rw [List.flatMap_cons] at front
          obtain ⟨sameCall, sameBytes, front⟩ := first.eq_accepted front
          obtain ⟨rest, behind⟩ := ih (fun entry member => heard entry (List.mem_cons_of_mem _ member)) front
          refine ⟨?_, behind⟩
          rw [List.length_cons, List.take_succ_cons, List.map_cons, ← sameCall, ← sameBytes, ← rest]

/-! Clients and main server together. -/

variable {s after : Gate ι} {stages : ι → Stage} {phase : Phase} {done : Bytes}

structure Serves (s : Gate ι) (phase : Phase) (done : Bytes) : Prop where
  current : s.current = done ++ s.server.got
  tracks : Tracks phase done s.server.program
  heard : ∀ c, phase.target = some c → c.Heard done ∧ c.inFIFOPath ∈ s.reading
  calls : ∀ entry ∈ s.calls, entry.1.Heard entry.2
  linked : s.linked = s.calls.length + phase.opened

theorem start_serves (conn : ι → Connection) : Serves (.start conn) .hearing [] where
  current := rfl
  tracks := connAccept_tracks
  heard := nofun
  calls _ member := absurd member List.not_mem_nil
  linked := rfl

theorem Serves.client (serves : Serves s phase done) (server : after.server = s.server)
    (current : after.current = s.current) (reading : after.reading = s.reading) (calls : after.calls = s.calls)
    (linked : after.linked = s.linked) : Serves after phase done := by
  obtain ⟨bytes, tracks, heard, earlier, count⟩ := serves
  constructor
  · rw [current, server]
    exact bytes
  · rw [server]
    exact tracks
  · rw [reading]
    exact heard
  · rw [calls]
    exact earlier
  · rw [linked, calls]
    exact count

theorem Serves.proceed (serves : Serves s phase done) (got : s.server.got = []) {later : Phase}
    {program : AcceptProgram (Option Accepted)} (tracks : Tracks later done program)
    (heard : ∀ c, later.target = some c → c.Heard done ∧ c.inFIFOPath ∈ after.reading)
    (server : after.server = ⟨program, []⟩) (current : after.current = s.current) (calls : after.calls = s.calls)
    (linked : after.linked = s.calls.length + later.opened) : Serves after later done := by
  constructor
  · rw [current, server, serves.current, got]
  · rw [server]
    exact tracks
  · exact heard
  · rw [calls]
    exact serves.calls
  · rw [linked, calls]

theorem Sound.requests_read (sound : Sound conn s stages) (serves : Serves s phase done) :
    s.calls = (s.order.take s.calls.length).map (fun i => (accepted (conn i), request (conn i))) ∧
      s.current <+: (s.order.drop s.calls.length).flatMap fun i => request (conn i) :=
  heard_in_order serves.calls sound.good.taken_prefix

/-- Whoever is served is the next client in the order. -/
theorem Sound.target (sound : Sound conn s stages) (serves : Serves s phase done) {c : Accepted}
    (target : phase.target = some c) :
    ∃ k, s.order[s.calls.length]? = some k ∧ c = accepted (conn k) := by
  have heard := (serves.heard c target).1
  obtain ⟨-, front⟩ := sound.requests_read serves
  rw [serves.current] at front
  rw [← List.head?_drop]
  cases rest : s.order.drop s.calls.length with
  | nil =>
      rw [rest] at front
      exact absurd front heard.nonempty
  | cons k others =>
      rw [rest, List.flatMap_cons] at front
      exact ⟨k, rfl, (heard.eq_accepted front).1⟩

/-! The steps of the main server. -/

theorem Serves.tracks_op (serves : Serves s phase done) {program : AcceptProgram (Option Accepted)}
    {got : Bytes} (shape : s.server = ⟨program, got⟩) : Tracks phase done program := by
  have tracks := serves.tracks
  rw [shape] at tracks
  exact tracks

theorem Serves.free (serves : Serves s phase done) {op : AcceptCall}
    {next : op.Answer → AcceptProgram (Option Accepted)} {answer : op.Answer}
    (shape : s.server = ⟨.perform op next, []⟩) (possible : op.Free answer) :
    Serves { s with server := ⟨next answer, []⟩ } phase done := by
  have got : s.server.got = [] := by rw [shape]
  have tracks := serves.tracks_op shape
  cases tracks with
  | select later => exact serves.proceed got (later answer) nofun rfl rfl rfl serves.linked
  | allocate later => exact serves.proceed got later nofun rfl rfl rfl serves.linked
  | malloc later => exact serves.proceed got (later answer) nofun rfl rfl rfl serves.linked
  | read failed later =>
      obtain rfl : answer = none := possible
      exact serves.proceed got failed nofun rfl rfl rfl serves.linked
  | undefined => exact possible.elim
  | openIn => exact possible.elim
  | openOut => exact possible.elim
  | sendOk => exact possible.elim

theorem Serves.read (serves : Serves s phase done) {size : Nat}
    {next : Option (Block size) → AcceptProgram (Option Accepted)} {got : Bytes}
    (shape : s.server = ⟨.perform (.read size) next, got⟩) (piece rest : Bytes) :
    Serves { s with
      server := ⟨.perform (.read size) next, got ++ piece⟩
      fifo := rest
      current := s.current ++ piece } phase done := by
  obtain ⟨bytes, tracks, heard, earlier, count⟩ := serves
  rw [shape] at bytes tracks
  refine ⟨?_, tracks, heard, earlier, count⟩
  dsimp only
  rw [bytes, List.append_assoc]

theorem Serves.arrived (serves : Serves s phase done) {size : Nat}
    {next : Option (Block size) → AcceptProgram (Option Accepted)} {got : Bytes}
    (shape : s.server = ⟨.perform (.read size) next, got⟩) (whole : got.length = size) :
    ∃ done, Serves { s with server := ⟨next (some ⟨got, whole⟩), []⟩ } phase done := by
  have tracks := serves.tracks_op shape
  cases tracks with
  | read failed later =>
      refine ⟨done ++ got, ?_, later ⟨got, whole⟩, nofun, serves.calls, serves.linked⟩
      dsimp only
      rw [serves.current, shape, List.append_nil]

theorem Serves.openIn (serves : Serves s phase done) {path : Pointer}
    {next : Unit → AcceptProgram (Option Accepted)} (shape : s.server = ⟨.perform (.openIn path) next, []⟩) :
    ∃ phase, Serves { s with server := ⟨next (), []⟩, reading := s.reading ++ [path] } phase done := by
  have got : s.server.got = [] := by rw [shape]
  have tracks := serves.tracks_op shape
  cases tracks with
  | @openIn c _ _ heard later =>
      refine ⟨.linking c, serves.proceed got later ?_ rfl rfl rfl serves.linked⟩
      rintro _ ⟨⟩
      exact ⟨heard, List.mem_append_right _ List.mem_cons_self⟩

theorem Serves.openOut (serves : Serves s phase done) {path : Pointer}
    {next : Unit → AcceptProgram (Option Accepted)} (shape : s.server = ⟨.perform (.openOut path) next, []⟩) :
    ∃ c, phase = .linking c ∧ path = c.outFIFOPath ∧
      Serves { s with server := ⟨next (), []⟩, linked := s.linked + 1 } (.answering c) done := by
  have got : s.server.got = [] := by rw [shape]
  have tracks := serves.tracks_op shape
  cases tracks with
  | @openOut c _ _ later =>
      refine ⟨c, rfl, rfl, serves.proceed got later serves.heard rfl rfl rfl ?_⟩
      exact congrArg (· + 1) serves.linked

theorem Serves.sendOk (serves : Serves s phase done) {path : Pointer}
    {next : Unit → AcceptProgram (Option Accepted)} (shape : s.server = ⟨.perform (.sendOk path) next, []⟩)
    (inbox : ι → List Bytes) :
    ∃ c, phase = .answering c ∧ path = c.outFIFOPath ∧
      Serves { s with server := ⟨next (), []⟩, inbox := inbox } (.finished c) done := by
  have got : s.server.got = [] := by rw [shape]
  have tracks := serves.tracks_op shape
  cases tracks with
  | @sendOk c _ _ later =>
      exact ⟨c, rfl, rfl, serves.proceed got later serves.heard rfl rfl rfl serves.linked⟩

theorem Serves.accepted (serves : Serves s phase done) {c : Accepted}
    (shape : s.server = ⟨.ret (some c), []⟩) :
    Serves { s with
      server := ⟨connAccept, []⟩
      calls := s.calls ++ [(c, s.current)]
      current := [] } .hearing [] := by
  have whole := serves.current
  have tracks := serves.tracks_op shape
  rw [shape, List.append_nil] at whole
  cases tracks with
  | ret =>
      refine ⟨rfl, connAccept_tracks, nofun, ?_, ?_⟩
      · intro entry member
        rcases List.mem_append.mp member with earlier | last
        · exact serves.calls entry earlier
        · obtain rfl := List.mem_singleton.mp last
          rw [whole]
          exact (serves.heard c rfl).1
      · have count := serves.linked
        change s.linked = s.calls.length + 1 at count
        dsimp only
        rw [count, List.length_append]
        rfl

/-- An answer goes to a client whose out-FIFO the main server has opened. -/
theorem Sound.sendOk (sound : Sound conn s stages) (serves : Serves s phase done) {path : Pointer}
    {next : Unit → AcceptProgram (Option Accepted)} (shape : s.server = ⟨.perform (.sendOk path) next, []⟩) :
    Sound conn { s with
      server := ⟨next (), []⟩
      inbox := fun i => if path = .block (conn i).inFIFOPath.block then
        s.inbox i ++ [intBytes messageOk] else s.inbox i } stages := by
  refine ⟨sound.follows, sound.good, sound.reads, ?_⟩
  intro distinct i reached
  obtain ⟨c, rfl, rfl, -⟩ := serves.sendOk shape s.inbox
  obtain ⟨k, -, rfl⟩ := sound.target serves rfl
  have opened := (serves.heard _ rfl).2
  rcases reached with stage | arrived
  · exact sound.answered distinct i (.inl stage)
  · dsimp only at arrived
    split at arrived
    · next same =>
        obtain rfl := distinct k i (Pointer.block.inj same)
        exact opened
    · exact sound.answered distinct i (.inr arrived)

/-! The main server can accept whoever listens. -/

variable [DecidableEq ι]

theorem onward_read {size : Nat} {next : Option (Block size) → AcceptProgram (Option Accepted)} {rest : Bytes}
    (block : Block size) (shape : s.server = ⟨.perform (.read size) next, []⟩)
    (there : s.fifo = block.val ++ rest) :
    ReflTransGen (Onward conn) s { s with
      server := ⟨next (some block), []⟩
      fifo := rest
      current := s.current ++ block.val } := by
  have read := @Step.read ι _ conn s size next [] block.val rest shape there block.property.le
  have run := (ReflTransGen.single (r := Onward conn) ⟨read, fun _ reads => reads⟩).tail
    ⟨.arrived rfl block.property, fun _ reads => reads⟩
  exact run

theorem onward_readPath {path : Path} {next : Option Pointer → AcceptProgram (Option Accepted)} {rest : Bytes}
    (shape : s.server = ⟨readPath >>= next, []⟩) (there : s.fifo = frame path.block ++ rest) :
    ReflTransGen (Onward conn) s { s with
      server := ⟨next (some (.block path.block)), []⟩
      fifo := rest
      current := s.current ++ frame path.block } := by
  have short := path.block_short
  have size : fromLittleEndian (sizeBytes path.block.length) = path.block.length :=
    fromLittleEndian_sizeBytes (by omega)
  rw [← size] at short
  rw [frame, List.append_assoc] at there
  have length := @onward_read ι conn s _ 8 _ _ ⟨sizeBytes path.block.length, sizeBytes_length _⟩ shape there
  have granted := length.tail
    ⟨@Step.acceptFree ι _ conn _ (.malloc _) _ true rfl trivial, fun _ reads => reads⟩
  dsimp only [Program.bind] at granted
  rw [if_pos rfl, if_pos short] at granted
  have text := granted.trans (onward_read ⟨path.block, size.symm⟩ rfl rfl)
  dsimp only at text
  rw [List.append_assoc] at text
  exact text

theorem onward_request_read {c : Connection} {rest : Bytes} (shape : s.server = ⟨connAccept, []⟩)
    (there : s.fifo = request c ++ rest) :
    ReflTransGen (Onward conn) s { s with
      server := ⟨establish (accepted c), []⟩
      fifo := rest
      current := s.current ++ request c } := by
  rw [request, List.append_assoc] at there
  have ready := ReflTransGen.single (r := Onward conn)
    ⟨@Step.acceptFree ι _ conn s .select _ true shape trivial, fun _ reads => reads⟩
  have allocated := ready.tail
    ⟨@Step.acceptFree ι _ conn _ .allocate _ () rfl trivial, fun _ reads => reads⟩
  have first := allocated.trans (onward_readPath rfl there)
  have second := first.trans (onward_readPath rfl rfl)
  dsimp only at second
  rw [List.append_assoc] at second
  exact second

theorem onward_accepted {i : ι} (shape : s.server = ⟨establish (accepted (conn i)), []⟩)
    (listening : s.readers i = true) :
    ReflTransGen (Onward conn) s { s with
      server := ⟨connAccept, []⟩
      reading := s.reading ++ [.block (conn i).outFIFOPath.block]
      linked := s.linked + 1
      inbox := fun j => if (conn i).inFIFOPath.block = (conn j).inFIFOPath.block then
        s.inbox j ++ [intBytes messageOk] else s.inbox j
      calls := s.calls ++ [(accepted (conn i), s.current)]
      current := [] } := by
  have opened := ReflTransGen.single (r := Onward conn) ⟨.acceptOpenIn shape, fun _ reads => reads⟩
  have linked := opened.tail ⟨.acceptOpenOut rfl rfl listening, fun _ reads => reads⟩
  have answered := linked.tail ⟨.sendOk rfl, fun _ reads => reads⟩
  have done := answered.tail ⟨.accepted rfl, fun _ reads => reads⟩
  simpa [accepted] using done

end Fifo

end Iac
