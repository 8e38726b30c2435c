import Iac.Library.SharedPipe

/-! Conversations over a shared pair of pipes: threads that take the mutex for each request
and read exactly its reply never see anything of each other. -/

namespace SharedPipe

open CText Interaction

variable {setup : Setup}

/-! How a thread and the server should behave. -/

/-- The rules of a run: which answers a thread's own operations get, with which choice and
store the server begins, and whether a thread must give the mutex back before it ends its body. -/
structure Rules (setup : Setup) where
  answers : (op : setup.Local) → setup.Answer op → Prop
  begins : setup.Choice → setup.Store → Prop
  strict : Bool

variable (rules : Rules setup)

/-- The server only writes, and every text that it may write is accepted. -/
def Emits {Store : Type} :
    Program Serving Serving.Answer (Option Store) → (Bytes → Prop) → Prop
  | .ret value, accepts => value.isSome ∧ accepts []
  | .perform (.send byte) next, accepts => Emits (next ()) fun text => accepts (byte :: text)
  | _, _ => False

/-- The server reads exactly the given bytes and then answers, with at least one byte. -/
def Reads {Store : Type} :
    Bytes → Program Serving Serving.Answer (Option Store) → (Bytes → Prop) → Prop
  | _, .perform .undefined _, _ => True
  | byte :: rest, .perform .recv next, accepts => Reads rest (next byte) accepts
  | [], .perform (.send byte) next, accepts =>
      Emits (next ()) fun text => accepts (byte :: text)
  | _, _, _ => False

/-- Where a thread stands: outside, writing its request, or reading the reply. -/
inductive Phase
  | idle
  | asking (request : Bytes)
  | holding (reply : Bytes)

/-- From its phase on the thread keeps to the protocol: it takes the mutex, writes a request
that the server reads to its end, reads exactly the reply, and gives the mutex back. A thread
that is not strict may also keep the mutex, once there is nothing more to read. -/
def Conforms {α : Type} (ends : α → Phase → Prop) :
    Body setup.Local setup.Answer α → Phase → Prop
  | .ret value, phase => ends value phase
  | .perform .lock next, .idle => Conforms ends (next ()) (.asking [])
  | .perform .lock _, .holding reply => rules.strict = false ∧ reply = []
  | .perform .unlock next, .holding reply => reply = [] ∧ Conforms ends (next ()) .idle
  | .perform (.send byte) next, .asking request =>
      Conforms ends (next true) (.asking (request ++ [byte]))
  | .perform .recv next, .asking request => ∀ choice store, rules.begins choice store →
      Reads request (setup.serve choice store) fun reply =>
        ∃ byte rest, reply = byte :: rest ∧ Conforms ends (next (some byte)) (.holding rest)
  | .perform .recv next, .holding (byte :: rest) => Conforms ends (next (some byte)) (.holding rest)
  | .perform (.own op) next, .idle =>
      ∀ answer, rules.answers op answer → Conforms ends (next answer) .idle
  | .perform (.own op) next, .holding reply =>
      ∀ answer, rules.answers op answer → Conforms ends (next answer) (.holding reply)
  | .perform .undefined _, .asking request => ∀ choice store, rules.begins choice store →
      Reads request (setup.serve choice store) fun _ => False
  | .perform .undefined _, _ => True
  | _, _ => False

/-- How a body may end. -/
def Rules.ends : Bool → Phase → Prop
  | _, .idle => True
  | _, .asking _ => False
  | _, .holding reply => rules.strict = false ∧ reply = []

variable {rules}

theorem emits_mono {Store : Type} {program : Program Serving Serving.Answer (Option Store)}
    {some_text all_text : Bytes → Prop} (weaker : ∀ text, some_text text → all_text text)
    (emits : Emits program some_text) : Emits program all_text := by
  induction program generalizing some_text all_text with
  | ret value => exact ⟨emits.1, weaker [] emits.2⟩
  | perform op next ih =>
      cases op with
      | send byte =>
          refine ih () ?_ emits
          intro text accepted
          exact weaker _ accepted
      | recv => exact emits.elim
      | unknown => exact emits.elim
      | undefined => exact emits.elim

theorem reads_mono {Store : Type} {program : Program Serving Serving.Answer (Option Store)}
    {request : Bytes} {some_text all_text : Bytes → Prop}
    (weaker : ∀ text, some_text text → all_text text)
    (reads : Reads request program some_text) : Reads request program all_text := by
  induction program generalizing request with
  | ret value => cases request <;> exact reads.elim
  | perform op next ih =>
      cases op with
      | recv =>
          cases request with
          | nil => exact reads.elim
          | cons byte rest => exact ih byte reads
      | send byte =>
          cases request with
          | nil =>
              refine emits_mono ?_ reads
              intro text accepted
              exact weaker _ accepted
          | cons byte rest => exact reads.elim
      | unknown => cases request <;> exact reads.elim
      | undefined => cases request <;> trivial

theorem conforms_bind {α β : Type} {middle : α → Phase → Prop} {ends : β → Phase → Prop}
    {program : Body setup.Local setup.Answer α} {after : α → Body setup.Local setup.Answer β}
    {phase : Phase} (first : Conforms rules middle program phase)
    (second : ∀ value phase, middle value phase → Conforms rules ends (after value) phase) :
    Conforms rules ends (program >>= after) phase := by
  induction program generalizing phase with
  | ret value => exact second value phase first
  | perform op next ih =>
      cases phase with
      | idle =>
          cases op with
          | lock => exact ih () first
          | unlock => exact first.elim
          | send byte => exact first.elim
          | recv => exact first.elim
          | own op =>
              intro answer admitted
              exact ih answer (first answer admitted)
          | undefined => trivial
      | asking request =>
          cases op with
          | lock => exact first.elim
          | unlock => exact first.elim
          | send byte => exact ih true first
          | recv =>
              intro choice store begins
              refine reads_mono ?_ (first choice store begins)
              rintro text ⟨byte, rest, equal, conforms⟩
              exact ⟨byte, rest, equal, ih (some byte) conforms⟩
          | own op => exact first.elim
          | undefined => exact first
      | holding reply =>
          cases op with
          | lock => exact first
          | unlock => exact ⟨first.1, ih () first.2⟩
          | send byte => exact first.elim
          | recv =>
              cases reply with
              | nil => exact first.elim
              | cons byte rest => exact ih (some byte) first
          | own op =>
              intro answer admitted
              exact ih answer (first answer admitted)
          | undefined => trivial

/-- A thread that conforms from outside also conforms while it keeps the mutex. -/
theorem conforms_kept (lenient : rules.strict = false) {program : Body setup.Local setup.Answer Bool}
    (idle : Conforms rules rules.ends program .idle) : Conforms rules rules.ends program (.holding []) := by
  induction program with
  | ret value => exact ⟨lenient, rfl⟩
  | perform op next ih =>
      cases op with
      | lock => exact (⟨lenient, rfl⟩ : _ ∧ _)
      | unlock => exact idle.elim
      | send byte => exact idle.elim
      | recv => exact idle.elim
      | own op =>
          intro answer admitted
          exact ih answer (idle answer admitted)
      | undefined => trivial

theorem emits_exists {Store : Type} {program : Program Serving Serving.Answer (Option Store)}
    {accepts : Bytes → Prop} (emits : Emits program accepts) : ∃ text, accepts text := by
  induction program generalizing accepts with
  | ret value => exact ⟨[], emits.2⟩
  | perform op next ih =>
      cases op with
      | send byte =>
          obtain ⟨text, accepted⟩ := ih () emits
          exact ⟨byte :: text, accepted⟩
      | recv => exact emits.elim
      | unknown => exact emits.elim
      | undefined => exact emits.elim

/-- The program that is left of another one once it has read some bytes. -/
inductive Fed {Store : Type} (first : Program Serving Serving.Answer (Option Store)) :
    Bytes → Program Serving Serving.Answer (Option Store) → Prop
  | start : Fed first [] first
  | byte {read : Bytes} {next : UInt8 → Program Serving Serving.Answer (Option Store)}
      (byte : UInt8) (before : Fed first read (.perform .recv next)) :
      Fed first (read ++ [byte]) (next byte)

theorem reads_fed {Store : Type} {first program : Program Serving Serving.Answer (Option Store)}
    {read rest : Bytes} {accepts : Bytes → Prop} (fed : Fed first read program)
    (reads : Reads (read ++ rest) first accepts) : Reads rest program accepts := by
  induction fed generalizing rest with
  | start => exact reads
  | byte byte before ih =>
      have earlier := @ih (byte :: rest) (by simpa using reads)
      exact earlier

/-- A thread that is still writing will have a whole request, and then wait for the reply. -/
theorem conforms_asking {program : Body setup.Local setup.Answer Bool} {request : Bytes}
    (asking : Conforms rules rules.ends program (.asking request)) :
    ∃ (rest : Bytes) (accepts : Bytes → Prop), (∀ choice store, rules.begins choice store →
      Reads (request ++ rest) (setup.serve choice store) accepts) ∧
      (rest = [] → ∀ text, accepts text → Conforms rules rules.ends program (.holding text)) := by
  induction program generalizing request with
  | ret value => exact asking.elim
  | perform op next ih =>
      cases op with
      | send byte =>
          obtain ⟨rest, accepts, reads, -⟩ := ih true asking
          refine ⟨byte :: rest, accepts, ?_, ?_⟩
          · intro choice store begins
            simpa using reads choice store begins
          · intro empty
            contradiction
      | recv =>
          refine ⟨[], fun reply => ∃ byte rest, reply = byte :: rest ∧
            Conforms rules rules.ends (next (some byte)) (.holding rest), ?_, ?_⟩
          · intro choice store begins
            rw [List.append_nil]
            exact asking choice store begins
          · rintro - text ⟨byte, rest, rfl, conforms⟩
            exact conforms
      | lock => exact asking.elim
      | unlock => exact asking.elim
      | own op => exact asking.elim
      | undefined =>
          refine ⟨[], fun _ => False, ?_, ?_⟩
          · intro choice store begins
            rw [List.append_nil]
            exact asking choice store begins
          · rintro - text impossible
            exact impossible.elim

theorem reads_running {program : Program Serving Serving.Answer (Option setup.Store)}
    {request : Bytes} {accepts : Bytes → Prop} (reads : Reads request program accepts) :
    settle program = .running program := by
  cases program with
  | ret value => cases request <;> exact reads.elim
  | perform op next => rfl

/-! The invariant of runs that keep to the rules. -/

/-- A step that keeps to the rules: nothing fails, and no thread that holds the mutex writes
to a peer that has vanished. -/
def Regular (rules : Rules setup) (s : State setup) : Label setup → Prop
  | .thread t choose ok => ok = true ∧ (∀ op, rules.answers op (choose op)) ∧
      (s.owner = some t → (s.threads t).gone = true →
        ∀ op next, (s.threads t).program = .perform (.own op) next → setup.reachesPeer op = false)
  | .server => True
  | .start choice => ∀ store, s.server = .waiting store → rules.begins choice store
  | .vanish _ => True

/-- Where the conversation of the owner with the server stands. -/
inductive Conversation (rules : Rules setup) (s : State setup)
    (program : Body setup.Local setup.Answer Bool) : Prop
  /-- the server has not begun to read -/
  | asking (store : setup.Store) (server : s.server = .waiting store)
      (whole : s.requests.map Prod.fst = s.sent) (quiet : s.replies = [])
      (conforms : Conforms rules rules.ends program (.asking s.sent))
  /-- the server has read a part of the request -/
  | reading (choice : setup.Choice) (store : setup.Store) (read : Bytes)
      (current : Program Serving Serving.Answer (Option setup.Store))
      (server : s.server = .running current) (begins : rules.begins choice store)
      (fed : Fed (setup.serve choice store) read current)
      (whole : s.sent = read ++ s.requests.map Prod.fst) (quiet : s.replies = [])
      (conforms : Conforms rules rules.ends program (.asking s.sent))
  /-- the server is writing its reply -/
  | answering (byte : UInt8) (next : Unit → Program Serving Serving.Answer (Option setup.Store))
      (server : s.server = .running (.perform (.send byte) next)) (read : s.requests = [])
      (conforms : Emits (next ()) fun text =>
        Conforms rules rules.ends program (.holding (s.replies.map Prod.fst ++ byte :: text)))
  /-- the reply is complete -/
  | answered (store : setup.Store) (server : s.server = .waiting store) (read : s.requests = [])
      (conforms : Conforms rules rules.ends program (.holding (s.replies.map Prod.fst)))

/-- The state of the mutex, of both pipes and of the server, and how they belong together. -/
inductive Synchronous (rules : Rules setup) (s : State setup) : Prop
  | free (store : setup.Store) (owner : s.owner = none) (server : s.server = .waiting store)
      (read : s.requests = []) (quiet : s.replies = [])
  | taken (t : Nat) (owner : s.owner = some t) (alive : (s.threads t).alive = true)
      (conversation : Conversation rules s (s.threads t).program)
      (requestTags : ∀ item ∈ s.requests, item.2 = ⟨t, (s.threads t).call⟩)
      (replyTags : ∀ item ∈ s.replies, item.2 = ⟨t, (s.threads t).call⟩)
      (servingTag : (∃ program, s.server = .running program) → s.serving = ⟨t, (s.threads t).call⟩)
  | abandoned (t : Nat) (store : setup.Store) (lenient : rules.strict = false)
      (owner : s.owner = some t) (dead : (s.threads t).alive = false)
      (server : s.server = .waiting store) (read : s.requests = [])
      (quiet : s.replies = [])

structure Invariant (rules : Rules setup) (s : State setup) : Prop where
  synchronous : Synchronous rules s
  outside : ∀ t, s.owner ≠ some t → (s.threads t).alive = true →
    Conforms rules rules.ends (s.threads t).program .idle

theorem Conversation.setThread {s : State setup} {program : Body setup.Local setup.Answer Bool}
    (conversation : Conversation rules s program) (t : Nat) (thread : Thread setup) :
    Conversation rules (s.setThread t thread) program := by
  cases conversation with
  | asking store server whole quiet conforms =>
      exact .asking store server whole quiet conforms
  | reading choice store read current server begins fed whole quiet conforms =>
      exact .reading choice store read current server begins fed whole quiet conforms
  | answering byte next server read conforms => exact .answering byte next server read conforms
  | answered store server read conforms => exact .answered store server read conforms

theorem Synchronous.setThread {s : State setup} (synchronous : Synchronous rules s) {t : Nat}
    {thread : Thread setup} (same : s.owner = some t → thread.program = (s.threads t).program ∧
      thread.alive = (s.threads t).alive ∧ thread.call = (s.threads t).call) :
    Synchronous rules (s.setThread t thread) := by
  cases synchronous with
  | free store owner server read quiet => exact .free store owner server read quiet
  | taken u owner alive conversation requestTags replyTags servingTag =>
      have kept : ((s.setThread t thread).threads u).program = (s.threads u).program ∧
          ((s.setThread t thread).threads u).alive = (s.threads u).alive ∧
          ((s.setThread t thread).threads u).call = (s.threads u).call := by
        by_cases equal : u = t
        · subst u
          simpa [State.setThread] using same owner
        · simp [State.setThread, equal]
      refine .taken u owner ?_ ?_ ?_ ?_ ?_
      · rw [kept.2.1, alive]
      · rw [kept.1]
        exact conversation.setThread t thread
      · rw [kept.2.2]
        exact requestTags
      · rw [kept.2.2]
        exact replyTags
      · rw [kept.2.2]
        exact servingTag
  | abandoned u store lenient owner dead server read quiet =>
      refine .abandoned u store lenient owner ?_ server read quiet
      by_cases equal : u = t
      · subst u
        simpa [State.setThread, dead] using (same owner).2.1
      · simpa [State.setThread, equal] using dead

theorem initial_invariant {store : setup.Store}
    (body : Conforms rules rules.ends setup.body .idle) : Invariant rules (initial store) := by
  constructor
  · exact .free store rfl rfl rfl rfl
  · intro t _ _
    exact body

/-! Steps. -/

section

variable {s after : State setup} {t : Nat} {choose : (op : setup.Local) → setup.Answer op}

/-- A thread outside moves on without touching pipes or server, or takes the mutex. -/
theorem outside_step (body : Conforms rules rules.ends setup.body .idle) (invariant : Invariant rules s)
    (admitted : ∀ op, rules.answers op (choose op)) (outside : s.owner ≠ some t)
    (alive : (s.threads t).alive = true) {ok : Bool} (succeeds : ok = true)
    (step : ThreadStep s t choose ok after) : Invariant rules after := by
  have idle := invariant.outside t outside alive
  have moves : ∀ thread : Thread setup,
      (thread.alive = true → Conforms rules rules.ends thread.program .idle) →
      Invariant rules (s.setThread t thread) := by
    intro thread conforms
    constructor
    · exact invariant.synchronous.setThread fun owner => absurd owner outside
    · intro u other living
      by_cases equal : u = t
      · subst u
        simp only [State.setThread, Function.update_self] at living ⊢
        exact conforms living
      · simp only [State.setThread, Function.update_of_ne equal] at living ⊢
        exact invariant.outside u other living
  cases step with
  | finish shape =>
      refine moves _ ?_
      intro living
      simp at living
  | again shape =>
      refine moves _ ?_
      intro _
      exact body
  | lock next shape free =>
      rw [shape] at idle
      obtain ⟨store, -, server, read, quiet⟩ | ⟨u, owner, -⟩ | ⟨u, -, -, owner, -⟩ :=
        invariant.synchronous
      · constructor
        · refine .taken t rfl ?_ ?_ ?_ ?_ ?_
          · simpa [State.setThread, Thread.advance] using alive
          · refine .asking store server ?_ quiet ?_
            · simp [State.setThread, read]
            · simp only [State.setThread, Thread.advance, Function.update_self]
              exact idle
          · simp [State.setThread, read]
          · simp [State.setThread, quiet]
          · rintro ⟨program, running⟩
            simp [State.setThread, server] at running
        · intro u other living
          have different : u ≠ t := by
            rintro rfl
            exact other rfl
          simp only [State.setThread, Function.update_of_ne different] at living ⊢
          exact invariant.outside u (by simp [free]) living
      · rw [free] at owner
        contradiction
      · rw [free] at owner
        contradiction
  | unlock next shape =>
      rw [shape] at idle
      exact idle.elim
  | send byte next shape =>
      rw [shape] at idle
      exact idle.elim
  | sendFails byte next shape => contradiction
  | recv byte tag rest next shape there =>
      rw [shape] at idle
      exact idle.elim
  | recvFails next shape => contradiction
  | killed op next shape gone reaches =>
      refine moves _ ?_
      intro living
      simp at living
  | own op next shape =>
      rw [shape] at idle
      refine moves _ ?_
      intro _
      exact idle (choose op) (admitted op)

/-- What the owner does is nothing to the threads outside. -/
theorem Invariant.others (invariant : Invariant rules s) (owner : s.owner = some t) {thread : Thread setup} :
    ∀ u, s.owner ≠ some u → ((s.setThread t thread).threads u).alive = true →
      Conforms rules rules.ends ((s.setThread t thread).threads u).program .idle := by
  intro u other living
  have different : u ≠ t := by
    rintro rfl
    exact other owner
  simp only [State.setThread, Function.update_of_ne different] at living ⊢
  exact invariant.outside u other living

theorem owner_continues {thread : Thread setup} {sent : Bytes}
    {requests replies : List (UInt8 × Tag)} (invariant : Invariant rules s)
    (owner : s.owner = some t) (alive : thread.alive = true) (call : thread.call = (s.threads t).call)
    (conversation : Conversation rules
      { s with sent := sent, requests := requests, replies := replies } thread.program)
    (requestTags : ∀ item ∈ requests, item.2 = ⟨t, (s.threads t).call⟩)
    (replyTags : ∀ item ∈ replies, item.2 = ⟨t, (s.threads t).call⟩)
    (servingTag : (∃ program, s.server = .running program) → s.serving = ⟨t, (s.threads t).call⟩) :
    Invariant rules
      { s.setThread t thread with sent := sent, requests := requests, replies := replies } := by
  constructor
  · refine .taken t owner ?_ ?_ ?_ ?_ ?_
    · simpa [State.setThread] using alive
    · simp only [State.setThread, Function.update_self]
      exact conversation.setThread t thread
    · simp only [State.setThread, Function.update_self, call]
      exact requestTags
    · simp only [State.setThread, Function.update_self, call]
      exact replyTags
    · simp only [State.setThread, Function.update_self, call]
      exact servingTag
  · exact invariant.others owner

def awaitsReply : Body setup.Local setup.Answer Bool → Bool
  | .perform .recv _ => true
  | .perform (.own _) _ => true
  | .perform .undefined _ => true
  | _ => false

/-- While the reply is still coming it can only read, or do operations of its own. -/
theorem answering_awaits {byte : UInt8}
    {next : Unit → Program Serving Serving.Answer (Option setup.Store)}
    {program : Body setup.Local setup.Answer Bool} {replies : Bytes}
    (conforms : Emits (next ()) fun text =>
      Conforms rules rules.ends program (.holding (replies ++ byte :: text))) :
    awaitsReply program = true := by
  obtain ⟨text, holding⟩ := emits_exists conforms
  have more : replies ++ byte :: text ≠ [] := by simp
  cases program with
  | ret value => exact absurd holding.2 more
  | perform op next =>
      cases op with
      | lock => exact absurd holding.2 more
      | unlock => exact absurd holding.1 more
      | send byte => exact holding.elim
      | recv => rfl
      | own op => rfl
      | undefined => rfl

/-- A program that neither asks nor waits for a reply is behind the conversation. -/
theorem Conversation.over {program : Body setup.Local setup.Answer Bool} (conversation : Conversation rules s program)
    (unasked : ∀ sent, ¬Conforms rules rules.ends program (.asking sent)) (through : awaitsReply program = false) :
    ∃ store, s.server = .waiting store ∧ s.requests = [] ∧
      Conforms rules rules.ends program (.holding (s.replies.map Prod.fst)) := by
  cases conversation with
  | asking _ _ _ _ conforms => exact absurd conforms (unasked _)
  | reading _ _ _ _ _ _ _ _ _ conforms => exact absurd conforms (unasked _)
  | answering _ _ _ _ conforms =>
      rw [answering_awaits conforms] at through
      contradiction
  | answered store server read conforms => exact ⟨store, server, read, conforms⟩

/-- The mutex is with a thread that has a conversation, and all bytes are for its call. -/
structure Owned (rules : Rules setup) (s : State setup) (t : Nat)
    (program : Body setup.Local setup.Answer Bool) : Prop where
  invariant : Invariant rules s
  owner : s.owner = some t
  alive : (s.threads t).alive = true
  conversation : Conversation rules s program
  requestTags : ∀ item ∈ s.requests, item.2 = ⟨t, (s.threads t).call⟩
  replyTags : ∀ item ∈ s.replies, item.2 = ⟨t, (s.threads t).call⟩
  servingTag : (∃ program, s.server = .running program) → s.serving = ⟨t, (s.threads t).call⟩

theorem Owned.finish (owned : Owned rules s t (.ret true)) :
    Invariant rules (s.setThread t { s.threads t with alive := false }) := by
  obtain ⟨store, server, read, lenient, quiet⟩ := owned.conversation.over (fun _ conforms => conforms) rfl
  constructor
  · refine .abandoned t store lenient owned.owner ?_ server read (List.map_eq_nil_iff.mp quiet)
    simp [State.setThread]
  · exact owned.invariant.others owned.owner

theorem Owned.again (body : Conforms rules rules.ends setup.body .idle) (owned : Owned rules s t (.ret false)) :
    Invariant rules (s.setThread t { s.threads t with program := setup.body }) := by
  obtain ⟨store, server, read, lenient, quiet⟩ := owned.conversation.over (fun _ conforms => conforms) rfl
  refine owner_continues owned.invariant owned.owner owned.alive rfl ?_ owned.requestTags owned.replyTags
    owned.servingTag
  refine .answered store server read ?_
  rw [quiet]
  exact conforms_kept lenient body

theorem Owned.unlock {next : Unit → Body setup.Local setup.Answer Bool}
    (owned : Owned rules s t (.perform .unlock next)) :
    Invariant rules { s.setThread t ((s.threads t).advance .unlock () next) with
      owner := if s.owner = some t then none else s.owner } := by
  obtain ⟨store, server, read, quiet, idle⟩ := owned.conversation.over (fun _ conforms => conforms) rfl
  constructor
  · refine .free store ?_ server read (List.map_eq_nil_iff.mp quiet)
    simp [owned.owner]
  · intro u other living
    by_cases equal : u = t
    · subst u
      simp only [State.setThread, Function.update_self, Thread.advance]
      exact idle
    · simp only [State.setThread, Function.update_of_ne equal] at living ⊢
      refine owned.invariant.outside u ?_ living
      rw [owned.owner]
      exact fun same => equal (Option.some.inj same).symm

theorem Owned.send {byte : UInt8} {next : Bool → Body setup.Local setup.Answer Bool}
    (owned : Owned rules s t (.perform (.send byte) next)) :
    Invariant rules { s.setThread t ((s.threads t).advance (.send byte) true next) with
      sent := s.sent ++ [byte]
      requests := s.requests ++ [(byte, ⟨t, (s.threads t).call⟩)] } := by
  have tags : ∀ item ∈ s.requests ++ [(byte, ⟨t, (s.threads t).call⟩)],
      item.2 = ⟨t, (s.threads t).call⟩ := by
    intro item member
    rcases List.mem_append.mp member with earlier | last
    · exact owned.requestTags item earlier
    · rw [List.mem_singleton.mp last]
  refine owner_continues owned.invariant owned.owner owned.alive rfl ?_ tags owned.replyTags owned.servingTag
  cases owned.conversation with
  | asking store server whole quiet conforms =>
      refine .asking store server ?_ quiet conforms
      simp [whole]
  | reading choice store read current server begins fed whole quiet conforms =>
      refine .reading choice store read current server begins fed ?_ quiet conforms
      simp [whole]
  | answering _ _ _ _ conforms => exact absurd (answering_awaits conforms) Bool.false_ne_true
  | answered _ _ _ conforms => exact conforms.elim

theorem Owned.recv {byte : UInt8} {tag : Tag} {rest : List (UInt8 × Tag)}
    {next : Option UInt8 → Body setup.Local setup.Answer Bool}
    (owned : Owned rules s t (.perform .recv next)) (there : s.replies = (byte, tag) :: rest) :
    Invariant rules { s.setThread t ((s.threads t).advance .recv (some byte) next) with replies := rest } := by
  have tags : ∀ item ∈ rest, item.2 = ⟨t, (s.threads t).call⟩ := by
    intro item member
    exact owned.replyTags item (by rw [there]; exact List.mem_cons_of_mem _ member)
  refine owner_continues owned.invariant owned.owner owned.alive rfl ?_ owned.requestTags tags owned.servingTag
  cases owned.conversation with
  | asking _ _ _ quiet _ =>
      rw [quiet] at there
      contradiction
  | reading _ _ _ _ _ _ _ _ quiet _ =>
      rw [quiet] at there
      contradiction
  | answering last after server read conforms =>
      rw [there] at conforms
      exact .answering last after server read conforms
  | answered store server read conforms =>
      rw [there] at conforms
      exact .answered store server read conforms

theorem Owned.own {op : setup.Local} {next : setup.Answer op → Body setup.Local setup.Answer Bool}
    (owned : Owned rules s t (.perform (.own op) next)) (admitted : rules.answers op (choose op)) :
    Invariant rules (s.setThread t ((s.threads t).advance (.own op) (choose op) next)) := by
  refine owner_continues owned.invariant owned.owner owned.alive rfl ?_ owned.requestTags owned.replyTags
    owned.servingTag
  cases owned.conversation with
  | asking _ _ _ _ conforms => exact conforms.elim
  | reading _ _ _ _ _ _ _ _ _ conforms => exact conforms.elim
  | answering last after server read conforms =>
      refine .answering last after server read (emits_mono ?_ conforms)
      intro text holding
      exact holding (choose op) admitted
  | answered store server read conforms =>
      exact .answered store server read (conforms (choose op) admitted)

theorem owner_step (body : Conforms rules rules.ends setup.body .idle)
    (invariant : Invariant rules s) (admitted : ∀ op, rules.answers op (choose op))
    (spares : (s.threads t).gone = true → ∀ op next,
      (s.threads t).program = .perform (.own op) next → setup.reachesPeer op = false)
    (owner : s.owner = some t) (alive : (s.threads t).alive = true) {ok : Bool}
    (succeeds : ok = true) (step : ThreadStep s t choose ok after) : Invariant rules after := by
  obtain ⟨_, free, -⟩ | ⟨u, owner', -, conversation, requestTags, replyTags, servingTag⟩ |
    ⟨u, store, lenient, owner', dead, -⟩ := invariant.synchronous
  · rw [free] at owner
    contradiction
  · obtain rfl : u = t := Option.some.inj (owner'.symm.trans owner)
    have owned : Owned rules s u (s.threads u).program :=
      ⟨invariant, owner, alive, conversation, requestTags, replyTags, servingTag⟩
    cases step with
    | finish shape => exact (shape ▸ owned).finish
    | again shape => exact (shape ▸ owned).again body
    | lock next shape free =>
        rw [owner] at free
        contradiction
    | unlock next shape => exact (shape ▸ owned).unlock
    | send byte next shape => exact (shape ▸ owned).send
    | sendFails byte next shape => contradiction
    | recv byte tag rest next shape there => exact (shape ▸ owned).recv there
    | recvFails next shape => contradiction
    | killed op next shape gone reaches =>
        rw [spares gone op next shape] at reaches
        contradiction
    | own op next shape => exact (shape ▸ owned).own (admitted op)
  · obtain rfl : u = t := Option.some.inj (owner'.symm.trans owner)
    rw [dead] at alive
    contradiction

/-- Behind a byte of its reply the server writes the next one or is done. -/
theorem conversation_settles {program : Program Serving Serving.Answer (Option setup.Store)}
    {thread : Body setup.Local setup.Answer Bool} (server : s.server = settle program)
    (read : s.requests = [])
    (emits : Emits program fun text =>
      Conforms rules rules.ends thread (.holding (s.replies.map Prod.fst ++ text))) :
    Conversation rules s thread := by
  cases program with
  | ret value =>
      obtain ⟨continues, holding⟩ := emits
      obtain ⟨store, rfl⟩ := Option.isSome_iff_exists.mp continues
      rw [List.append_nil] at holding
      exact .answered store server read holding
  | perform op next =>
      cases op with
      | send byte => exact .answering byte next server read emits
      | recv => exact emits.elim
      | unknown => exact emits.elim
      | undefined => exact emits.elim

theorem ServerStep.running (step : ServerStep s after) : ∃ current, s.server = .running current := by
  cases step with
  | recv _ _ _ _ shape _ => exact ⟨_, shape⟩
  | send _ _ shape => exact ⟨_, shape⟩
  | unknown _ shape => exact ⟨_, shape⟩

theorem mem_reply {item : UInt8 × Tag} {byte : UInt8} (member : item ∈ s.replies ++ [(byte, s.serving)]) :
    item ∈ s.replies ∨ item.2 = s.serving := by
  rcases List.mem_append.mp member with earlier | last
  · exact .inl earlier
  · rw [List.mem_singleton.mp last]
    exact .inr rfl

theorem conversation_server {program : Body setup.Local setup.Answer Bool}
    (conversation : Conversation rules s program) (step : ServerStep s after) :
    Conversation rules after program ∧ (∃ current, s.server = .running current) ∧
      after.serving = s.serving ∧ after.owner = s.owner ∧ after.threads = s.threads ∧
      (∀ item ∈ after.requests, item ∈ s.requests) ∧
      ∀ item ∈ after.replies, item ∈ s.replies ∨ item.2 = s.serving := by
  cases conversation with
  | asking _ server _ _ _ =>
      obtain ⟨_, running⟩ := step.running
      rw [server] at running
      contradiction
  | answered _ server _ _ =>
      obtain ⟨_, running⟩ := step.running
      rw [server] at running
      contradiction
  | reading choice store read current server begins fed whole quiet conforms =>
      obtain ⟨rest, accepts, reads, finished⟩ := conforms_asking conforms
      have remaining := reads choice store begins
      rw [whole, List.append_assoc] at remaining
      have here := reads_fed fed remaining
      cases step with
      | recv byte tag others next shape there =>
          obtain rfl : current = .perform .recv next :=
            Server.running.inj (server.symm.trans shape)
          rw [there] at here whole
          have later : Reads (others.map Prod.fst ++ rest) (next byte) accepts := here
          refine ⟨?_, ⟨_, server⟩, rfl, rfl, rfl, ?_, fun item member => .inl member⟩
          · refine .reading choice store (read ++ [byte]) (next byte) (reads_running later) begins
              (.byte byte fed) ?_ quiet conforms
            rw [whole]
            simp
          · intro item member
            rw [there]
            exact List.mem_cons_of_mem _ member
      | send byte next shape =>
          obtain rfl : current = .perform (.send byte) next :=
            Server.running.inj (server.symm.trans shape)
          have done : s.requests.map Prod.fst ++ rest = [] := by
            cases remaining_bytes : s.requests.map Prod.fst ++ rest with
            | nil => rfl
            | cons first others =>
                rw [remaining_bytes] at here
                exact here.elim
          obtain ⟨empty, nothing⟩ := List.append_eq_nil_iff.mp done
          have read_all := List.map_eq_nil_iff.mp empty
          rw [done] at here
          refine ⟨?_, ⟨_, server⟩, rfl, rfl, rfl, fun item member => member, fun _ => mem_reply⟩
          refine conversation_settles rfl read_all (emits_mono ?_ here)
          intro text accepted
          rw [quiet]
          exact finished nothing _ accepted
      | unknown next shape =>
          obtain rfl : current = .perform .unknown next :=
            Server.running.inj (server.symm.trans shape)
          cases remaining_bytes : s.requests.map Prod.fst ++ rest with
          | nil =>
              rw [remaining_bytes] at here
              exact here.elim
          | cons first others =>
              rw [remaining_bytes] at here
              exact here.elim
  | answering byte next server read conforms =>
      cases step with
      | recv _ _ _ _ shape _ =>
          rw [server] at shape
          cases shape
      | send last after shape =>
          rw [server] at shape
          cases shape
          refine ⟨?_, ⟨_, server⟩, rfl, rfl, rfl, fun item member => member, fun _ => mem_reply⟩
          refine conversation_settles rfl read (emits_mono ?_ conforms)
          intro text holding
          simpa using holding
      | unknown _ shape =>
          rw [server] at shape
          cases shape

theorem server_step (invariant : Invariant rules s) (step : ServerStep s after) :
    Invariant rules after := by
  have running : ∃ current, s.server = .running current := by
    cases step with
    | recv _ _ _ _ shape _ => exact ⟨_, shape⟩
    | send _ _ shape => exact ⟨_, shape⟩
    | unknown _ shape => exact ⟨_, shape⟩
  obtain ⟨current, shape⟩ := running
  obtain ⟨_, -, server, -⟩ | ⟨u, owner, alive, conversation, requestTags, replyTags, servingTag⟩ |
    ⟨_, _, -, -, -, server, -⟩ := invariant.synchronous
  · rw [server] at shape
    contradiction
  · obtain ⟨next, -, serving, sameOwner, sameThreads, requests, replies⟩ :=
      conversation_server conversation step
    have tag := servingTag ⟨current, shape⟩
    constructor
    · refine .taken u (sameOwner.trans owner) ?_ ?_ ?_ ?_ ?_
      · rw [sameThreads]
        exact alive
      · rw [sameThreads]
        exact next
      · rw [sameThreads]
        intro item member
        exact requestTags item (requests item member)
      · rw [sameThreads]
        intro item member
        rcases replies item member with earlier | last
        · exact replyTags item earlier
        · exact last.trans tag
      · rw [sameThreads, serving]
        intro _
        exact tag
    · rw [sameThreads, sameOwner]
      exact invariant.outside
  · rw [server] at shape
    contradiction

theorem start_step (invariant : Invariant rules s) {choice : setup.Choice}
    (begins : ∀ store, s.server = .waiting store → rules.begins choice store)
    (step : s.startServer choice = some after) : Invariant rules after := by
  obtain ⟨store, byte, tag, rest, waiting, there, rfl⟩ := startServer_cases step
  obtain ⟨_, -, -, read, -⟩ | ⟨u, owner, alive, conversation, requestTags, replyTags, -⟩ |
    ⟨_, _, -, -, -, -, read, -⟩ := invariant.synchronous
  · rw [read] at there
    contradiction
  · constructor
    · refine .taken u owner alive ?_ requestTags replyTags ?_
      · cases conversation with
        | asking store' server whole quiet conforms =>
            obtain rfl : store' = store := Server.waiting.inj (server.symm.trans waiting)
            obtain ⟨more, accepts, reads, -⟩ := conforms_asking conforms
            refine .reading choice store' [] (setup.serve choice store')
              (reads_running (reads choice store' (begins store' server))) (begins store' server) .start
              ?_ quiet conforms
            exact whole.symm
        | reading _ _ _ _ server _ _ _ _ _ =>
            rw [server] at waiting
            contradiction
        | answering _ _ server _ _ =>
            rw [server] at waiting
            contradiction
        | answered _ _ read _ =>
            rw [read] at there
            contradiction
      · intro _
        exact requestTags (byte, tag) (by rw [there]; exact List.mem_cons_self)
    · exact invariant.outside
  · rw [read] at there
    contradiction

end

theorem step_invariant (body : Conforms rules rules.ends setup.body .idle) (s : State setup)
    (label : Label setup) (after : State setup) (regular : Regular rules s label)
    (invariant : Invariant rules s) (step : s.step label = some after) : Invariant rules after := by
  cases label with
  | thread t choose ok =>
      obtain ⟨succeeds, admitted, spares⟩ := regular
      obtain ⟨alive, taken⟩ := stepThread_cases step
      by_cases owner : s.owner = some t
      · exact owner_step body invariant admitted (spares owner) owner alive succeeds taken
      · exact outside_step body invariant admitted owner alive succeeds taken
  | server => exact server_step invariant (stepServer_cases step)
  | start choice => exact start_step invariant regular step
  | vanish t =>
      simp only [State.step, Option.some.injEq] at step
      subst after
      constructor
      · exact invariant.synchronous.setThread fun _ => ⟨rfl, rfl, rfl⟩
      · intro u outside alive
        by_cases equal : u = t
        · subst u
          simp only [State.setThread, Function.update_self] at alive ⊢
          exact invariant.outside t outside alive
        · simp only [State.setThread, Function.update_of_ne equal] at alive ⊢
          exact invariant.outside u outside alive

theorem reachable_invariant (body : Conforms rules rules.ends setup.body .idle)
    {store : setup.Store} {labels : List (Label setup)}
    {s : State setup} (regular : Along (Regular rules) (initial store) labels)
    (run : (initial store).run labels = some s) : Invariant rules s :=
  run_invariant (step_invariant body) regular (initial_invariant body) run

/-! Owners that are killed. Nothing comes of a run with a dead owner but what comes of one whose owner has
stopped for good. -/

/-- A step that keeps to the rules but for the peers, which may vanish at any time. -/
def Admitted (rules : Rules setup) (s : State setup) : Label setup → Prop
  | .thread _ choose ok => ok = true ∧ ∀ op, rules.answers op (choose op)
  | .server => True
  | .start choice => ∀ store, s.server = .waiting store → rules.begins choice store
  | .vanish _ => True

/-- The same state with one of the threads dead. -/
def State.bury (s : State setup) (t : Nat) : State setup :=
  s.setThread t { s.threads t with alive := false }

section

variable {s after : State setup} {t u : Nat} {labels : List (Label setup)}

/-- Another thread cannot tell a dead owner from one that has stopped. -/
theorem stepThread_bury (owner : s.owner = some t) (other : u ≠ t)
    (choose : (op : setup.Local) → setup.Answer op) (ok : Bool) :
    (s.bury t).stepThread u choose ok = (s.stepThread u choose ok).map fun after => after.bury t := by
  have same : Function.update s.threads t { s.threads t with alive := false } u = s.threads u :=
    Function.update_of_ne other _ _
  have moved : ∀ dead thread, Function.update (Function.update s.threads t dead) u thread =
      Function.update (Function.update s.threads u thread) t dead :=
    fun dead thread => Function.update_comm other.symm dead thread s.threads
  have unmoved : ∀ thread, Function.update s.threads u thread t = s.threads t :=
    fun thread => Function.update_of_ne other.symm _ _
  unfold State.stepThread
  simp only [State.bury, State.setThread, same, moved, owner]
  cases alive : (s.threads u).alive with
  | false => simp
  | true =>
      cases shape : (s.threads u).program with
      | ret value => cases value <;> simp [unmoved]
      | perform op next =>
          cases op with
          | lock => simp
          | unlock => simp [unmoved]
          | send byte => cases ok <;> simp [unmoved]
          | recv =>
              cases ok with
              | false => simp [unmoved]
              | true => cases s.replies <;> simp [unmoved]
          | own op => cases killed : (s.threads u).gone && setup.reachesPeer op <;> simp [unmoved, killed]
          | undefined => simp

theorem stepServer_bury : (s.bury t).stepServer = s.stepServer.map fun after => after.bury t := by
  have server : (s.bury t).server = s.server := rfl
  have requests : (s.bury t).requests = s.requests := rfl
  unfold State.stepServer
  rw [server, requests]
  cases s.server with
  | waiting store => rfl
  | stopped => rfl
  | running program =>
      cases program with
      | ret value => rfl
      | perform op next =>
          cases op with
          | recv => cases s.requests <;> rfl
          | send byte => rfl
          | unknown => rfl
          | undefined => rfl

theorem startServer_bury (choice : setup.Choice) :
    (s.bury t).startServer choice = (s.startServer choice).map fun after => after.bury t := by
  have server : (s.bury t).server = s.server := rfl
  have requests : (s.bury t).requests = s.requests := rfl
  unfold State.startServer
  rw [server, requests]
  cases s.server with
  | waiting store => cases s.requests <;> rfl
  | stopped => rfl
  | running program => rfl

theorem vanish_bury : (s.bury t).setThread u { (s.bury t).threads u with gone := true } =
    (s.setThread u { s.threads u with gone := true }).bury t := by
  by_cases equal : u = t
  · subst u
    simp [State.bury, State.setThread]
  · simp only [State.bury, State.setThread, Function.update_of_ne equal, Function.update_of_ne (Ne.symm equal),
      Function.update_comm equal]

theorem step_owner (owner : s.owner = some t) {label : Label setup}
    (other : ∀ choose ok, label ≠ .thread t choose ok) (step : s.step label = some after) :
    after.owner = some t := by
  cases label with
  | thread u choose ok =>
      obtain ⟨-, taken⟩ := stepThread_cases step
      cases taken with
      | lock next shape free =>
          rw [owner] at free
          contradiction
      | unlock next shape =>
          have kept : s.owner ≠ some u := by
            intro same
            obtain rfl := Option.some.inj (same.symm.trans owner)
            exact other choose ok rfl
          exact (if_neg kept).trans owner
      | _ => exact owner
  | server => cases stepServer_cases step <;> exact owner
  | start choice =>
      obtain ⟨_, _, _, _, -, -, rfl⟩ := startServer_cases step
      exact owner
  | vanish u =>
      simp only [State.step, Option.some.injEq] at step
      subst after
      exact owner

/-- Nobody can tell a dead owner from one that has stopped. -/
theorem step_bury (owner : s.owner = some t) {label : Label setup} (step : (s.bury t).step label = some after) :
    ∃ middle, s.step label = some middle ∧ middle.owner = some t ∧ after = middle.bury t ∧
      ∀ choose ok, label ≠ .thread t choose ok := by
  have other : ∀ choose ok, label ≠ .thread t choose ok := by
    rintro choose ok rfl
    obtain ⟨alive, -⟩ := stepThread_cases step
    simp [State.bury, State.setThread] at alive
  have same : (s.bury t).step label = (s.step label).map fun after => after.bury t := by
    cases label with
    | thread u choose ok => exact stepThread_bury owner (fun equal => other choose ok (equal ▸ rfl)) choose ok
    | server => exact stepServer_bury
    | start choice => exact startServer_bury choice
    | vanish u => exact congrArg some vanish_bury
  rw [same] at step
  obtain ⟨middle, taken, rfl⟩ := Option.map_eq_some_iff.mp step
  exact ⟨middle, taken, step_owner owner other taken, rfl, other⟩

variable {rules : Rules setup}

theorem run_bury (owner : s.owner = some t) (admitted : Along (Admitted rules) (s.bury t) labels)
    (run : (s.bury t).run labels = some after) :
    Along (Regular rules) s labels ∧ ∃ last, s.run labels = some last ∧ last.owner = some t ∧
      after = last.bury t := by
  induction labels generalizing s with
  | nil => exact ⟨trivial, s, rfl, owner, (Option.some.inj run).symm⟩
  | cons label rest ih =>
      simp only [State.run, Option.bind_eq_some_iff] at run
      obtain ⟨next, step, run⟩ := run
      obtain ⟨middle, taken, still, rfl, other⟩ := step_bury owner step
      obtain ⟨along, last, reached, kept, same⟩ := ih still (admitted.2 _ step) run
      refine ⟨⟨?_, fun other step => ?_⟩, last, ?_, kept, same⟩
      · cases label with
        | thread u choose ok =>
            obtain ⟨succeeds, answers⟩ := admitted.1
            refine ⟨succeeds, answers, fun mine => ?_⟩
            obtain rfl := Option.some.inj (mine.symm.trans owner)
            exact absurd rfl (other choose ok)
        | server => trivial
        | start choice => exact admitted.1
        | vanish u => trivial
      · obtain rfl := Option.some.inj (taken.symm.trans step)
        exact along
      · rw [State.run, taken]
        exact reached

/-- What is left of a run when the steps are taken out with which an owner is killed. -/
theorem run_spared (admitted : Along (Admitted rules) s labels) (run : s.run labels = some after) :
    ∃ kept last, Along (Regular rules) s kept ∧ s.run kept = some last ∧
      (after = last ∨ ∃ t, last.owner = some t ∧ after = last.bury t) := by
  induction labels generalizing s with
  | nil => exact ⟨[], after, trivial, run, .inl rfl⟩
  | cons label rest ih =>
      simp only [State.run, Option.bind_eq_some_iff] at run
      obtain ⟨middle, step, run⟩ := run
      by_cases regular : Regular rules s label
      · obtain ⟨kept, last, along, reached, same⟩ := ih (admitted.2 middle step) run
        refine ⟨label :: kept, last, ⟨regular, fun other again => ?_⟩, ?_, same⟩
        · obtain rfl := Option.some.inj (step.symm.trans again)
          exact along
        · rw [State.run, step]
          exact reached
      · cases label with
        | thread t choose ok =>
            obtain ⟨succeeds, answers⟩ := admitted.1
            have killed : s.owner = some t ∧ (s.threads t).gone = true ∧ ∃ op next,
                (s.threads t).program = .perform (.own op) next ∧ setup.reachesPeer op = true := by
              by_contra spared
              refine regular ⟨succeeds, answers, fun owner gone op next shape => ?_⟩
              by_contra reaches
              exact spared ⟨owner, gone, op, next, shape, (Bool.not_eq_false _).mp reaches⟩
            obtain ⟨owner, gone, op, next, shape, reaches⟩ := killed
            obtain ⟨alive, -⟩ := stepThread_cases step
            have buried : middle = s.bury t := by
              have taken : s.stepThread t choose ok = some middle := step
              simpa [State.stepThread, alive, shape, gone, reaches, State.bury, eq_comm] using taken
            subst middle
            obtain ⟨along, last, reached, kept, same⟩ := run_bury owner (admitted.2 _ step) run
            exact ⟨rest, last, along, reached, .inr ⟨t, kept, same⟩⟩
        | server => exact absurd trivial regular
        | start choice => exact absurd admitted.1 regular
        | vanish t => exact absurd trivial regular

end

/-! What the invariant says about the states that such runs reach. -/

section

variable {s : State setup} {t : Nat}

theorem Invariant.free_quiet (invariant : Invariant rules s) (free : s.owner = none) :
    s.requests = [] ∧ s.replies = [] := by
  obtain ⟨_, -, -, read, quiet⟩ | ⟨_, owner, -⟩ | ⟨_, _, -, owner, -⟩ := invariant.synchronous
  · exact ⟨read, quiet⟩
  · rw [free] at owner
    contradiction
  · rw [free] at owner
    contradiction

/-- A server that waits has before it nothing, or the request from its first byte on. -/
theorem Invariant.boundary (invariant : Invariant rules s) {store : setup.Store}
    (waiting : s.server = .waiting store) : s.requests = [] ∨ s.requests.map Prod.fst = s.sent := by
  obtain ⟨_, -, -, read, -⟩ | ⟨_, -, -, conversation, -⟩ | ⟨_, _, -, -, -, -, read, -⟩ :=
    invariant.synchronous
  · exact .inl read
  · cases conversation with
    | asking _ _ whole _ _ => exact .inr whole
    | reading _ _ _ _ server _ _ _ _ _ =>
        rw [server] at waiting
        contradiction
    | answering _ _ server _ _ =>
        rw [server] at waiting
        contradiction
    | answered _ _ read _ => exact .inl read
  · exact .inl read

theorem reads_not_unknown {Store : Type} {request : Bytes}
    {next : Unit → Program Serving Serving.Answer (Option Store)} {accepts : Bytes → Prop} :
    ¬Reads request (.perform .unknown next) accepts := by
  cases request with
  | nil => exact id
  | cons byte rest => exact id

theorem Invariant.known (invariant : Invariant rules s)
    (next : Unit → Program Serving Serving.Answer (Option setup.Store)) :
    s.server ≠ .running (.perform .unknown next) := by
  intro lost
  obtain ⟨_, -, server, -⟩ | ⟨_, -, -, conversation, -⟩ | ⟨_, _, -, -, -, server, -⟩ :=
    invariant.synchronous
  · rw [server] at lost
    contradiction
  · cases conversation with
    | asking _ server _ _ _ =>
        rw [server] at lost
        contradiction
    | reading choice store read current server begins fed whole quiet conforms =>
        obtain rfl : current = .perform .unknown next :=
          Server.running.inj (server.symm.trans lost)
        obtain ⟨rest, accepts, reads, -⟩ := conforms_asking conforms
        have remaining := reads choice store begins
        rw [whole, List.append_assoc] at remaining
        exact reads_not_unknown (reads_fed fed remaining)
    | answering _ _ server _ _ =>
        rw [server] at lost
        cases lost
    | answered _ server _ _ =>
        rw [server] at lost
        contradiction
  · rw [server] at lost
    contradiction

/-- Every byte in the reply pipe is for the call in which the mutex is taken. -/
theorem Invariant.reply_owner (invariant : Invariant rules s) {item : UInt8 × Tag}
    (member : item ∈ s.replies) : ∃ t, s.owner = some t ∧ (s.threads t).alive = true ∧
      item.2 = ⟨t, (s.threads t).call⟩ := by
  obtain ⟨_, -, -, -, quiet⟩ | ⟨t, owner, alive, -, -, replyTags, -⟩ |
    ⟨_, _, -, -, -, -, -, quiet⟩ := invariant.synchronous
  · rw [quiet] at member
    contradiction
  · exact ⟨t, owner, alive, replyTags item member⟩
  · rw [quiet] at member
    contradiction

/-- Who reads the reply pipe reads a byte that the server wrote for this very call. -/
theorem Invariant.reply_own (invariant : Invariant rules s) (alive : (s.threads t).alive = true)
    {next : Option UInt8 → Body setup.Local setup.Answer Bool}
    (shape : (s.threads t).program = .perform .recv next) {byte : UInt8} {tag : Tag}
    {rest : List (UInt8 × Tag)} (there : s.replies = (byte, tag) :: rest) :
    tag = ⟨t, (s.threads t).call⟩ := by
  by_cases owner : s.owner = some t
  · obtain ⟨u, owner', -, same⟩ :=
      @Invariant.reply_owner _ _ _ invariant (byte, tag) (by rw [there]; exact List.mem_cons_self)
    obtain rfl : u = t := Option.some.inj (owner'.symm.trans owner)
    exact same
  · have idle := invariant.outside t owner alive
    rw [shape] at idle
    exact idle.elim

theorem Invariant.strict_alive (invariant : Invariant rules s) (strict : rules.strict = true)
    (owner : s.owner = some t) : (s.threads t).alive = true := by
  obtain ⟨_, free, -⟩ | ⟨u, owner', alive, -⟩ | ⟨_, _, lenient, -⟩ := invariant.synchronous
  · rw [free] at owner
    contradiction
  · obtain rfl : u = t := Option.some.inj (owner'.symm.trans owner)
    exact alive
  · rw [strict] at lenient
    contradiction

end

end SharedPipe
