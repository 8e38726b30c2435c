import Iac.Library.Conversation

/-! Whole texts over the pipes, byte by byte, and what a conversation looks like in terms
of them. -/

namespace SharedPipe

open CText Interaction

/-! Programs that write or read a text. -/

section

variable {Local : Type} {answer : Local → Type}

/-- Stops at the first failure. -/
def writeBytes : Bytes → Body Local answer Bool
  | [] => .ret true
  | byte :: rest => .perform (.send byte) fun (ok : Bool) => if ok then writeBytes rest else .ret false

/-- Overwrites its destination up to the first failure. -/
def readBytes : Bytes → Body Local answer (Bool × Bytes)
  | [] => .ret (true, [])
  | old :: rest => .perform .recv fun (got : Option UInt8) =>
      match got with
      | none => .ret (false, old :: rest)
      | some byte => readBytes rest >>= fun result => .ret (result.1, byte :: result.2)

end

def serverReads : Nat → Program Serving Serving.Answer Bytes
  | 0 => .ret []
  | count + 1 => .perform .recv fun (byte : UInt8) =>
      serverReads count >>= fun rest => .ret (byte :: rest)

def serverWrites : Bytes → Program Serving Serving.Answer Unit
  | [] => .ret ()
  | byte :: rest => .perform (.send byte) fun _ => serverWrites rest

theorem serverReads_bind {α : Type} (count : Nat)
    (after : Bytes → Program Serving Serving.Answer α) :
    (serverReads (count + 1) >>= after) = .perform .recv fun (byte : UInt8) =>
      serverReads count >>= fun rest => after (byte :: rest) := by
  refine Program.perform_congr ?_
  intro byte
  exact Program.bind_assoc _ _ _

theorem readBytes_bind {Local : Type} {answer : Local → Type} {α : Type} (old : UInt8)
    (rest : Bytes) (after : Bool × Bytes → Body Local answer α) :
    (readBytes (old :: rest) >>= after) = .perform .recv fun (got : Option UInt8) =>
      match got with
      | none => after (false, old :: rest)
      | some byte => readBytes rest >>= fun result => after (result.1, byte :: result.2) := by
  refine Program.perform_congr ?_
  intro got
  cases got with
  | none => rfl
  | some byte => exact Program.bind_assoc _ _ _

/-! The server's side. -/

section

variable {Store : Type}

theorem reads_serverReads {text rest : Bytes} {accepts : Bytes → Prop}
    {after : Bytes → Program Serving Serving.Answer (Option Store)}
    (reads : Reads rest (after text) accepts) :
    Reads (text ++ rest) (serverReads text.length >>= after) accepts := by
  induction text generalizing after with
  | nil => exact reads
  | cons byte text ih =>
      rw [List.length_cons, serverReads_bind]
      exact @ih (fun more => after (byte :: more)) reads

theorem emits_serverWrites {text : Bytes} {accepts : Bytes → Prop}
    {after : Unit → Program Serving Serving.Answer (Option Store)}
    (emits : Emits (after ()) fun more => accepts (text ++ more)) :
    Emits (serverWrites text >>= after) accepts := by
  induction text generalizing accepts with
  | nil => exact emits
  | cons byte text ih => exact @ih (fun more => accepts (byte :: more)) emits

theorem reads_serverWrites {text : Bytes} {accepts : Bytes → Prop}
    {after : Unit → Program Serving Serving.Answer (Option Store)} (some_text : text ≠ [])
    (emits : Emits (after ()) fun more => accepts (text ++ more)) :
    Reads [] (serverWrites text >>= after) accepts := by
  cases text with
  | nil => contradiction
  | cons byte text => exact @emits_serverWrites _ text (fun more => accepts (byte :: more)) _ emits

end

/-! The threads' side. -/

/-- `Conforms`, to be used by the rules below. -/
structure Keeps {setup : Setup} (rules : Rules setup) {α : Type} (ends : α → Phase → Prop)
    (program : Body setup.Local setup.Answer α) (phase : Phase) : Prop where
  conforms : Conforms rules ends program phase

/-- Outside the mutex and behind a request a thread may do what concerns it alone. -/
def Phase.isFree : Phase → Bool
  | .asking _ => false
  | _ => true

section

variable {setup : Setup} {rules : Rules setup} {α β : Type} {ends : α → Phase → Prop}

theorem keeps_ret {value : α} {phase : Phase} (done : ends value phase) :
    Keeps rules ends (.ret value) phase := ⟨done⟩

theorem keeps_bind {middle : β → Phase → Prop} {program : Body setup.Local setup.Answer β}
    {after : β → Body setup.Local setup.Answer α} {phase : Phase}
    (first : Keeps rules middle program phase)
    (second : ∀ value phase, middle value phase → Keeps rules ends (after value) phase) :
    Keeps rules ends (program >>= after) phase :=
  ⟨conforms_bind first.conforms fun value phase done => (second value phase done).conforms⟩

theorem keeps_mono {middle : α → Phase → Prop} {program : Body setup.Local setup.Answer α}
    {phase : Phase} (first : Keeps rules middle program phase)
    (weaker : ∀ value phase, middle value phase → ends value phase) :
    Keeps rules ends program phase := by
  have whole : Keeps rules ends (program >>= .ret) phase :=
    keeps_bind first fun value phase done => keeps_ret (weaker value phase done)
  rwa [Program.bind_ret] at whole

theorem keeps_own {op : setup.Local} {phase : Phase} (free : phase.isFree = true)
    {next : setup.Answer op → Body setup.Local setup.Answer α}
    (later : ∀ answer, rules.answers op answer → Keeps rules ends (next answer) phase) :
    Keeps rules ends (.perform (.own op) next) phase := by
  constructor
  cases phase with
  | idle => exact fun answer admitted => (later answer admitted).conforms
  | asking request => contradiction
  | holding reply => exact fun answer admitted => (later answer admitted).conforms

theorem keeps_undefined {phase : Phase} (free : phase.isFree = true)
    {next : Empty → Body setup.Local setup.Answer α} :
    Keeps rules ends (.perform .undefined next) phase := by
  constructor
  cases phase with
  | idle => trivial
  | asking request => contradiction
  | holding reply => trivial

/-- With a request that the server cannot serve it does not matter what comes next. -/
theorem keeps_hopeless {request : Bytes}
    (hopeless : ∀ choice store, rules.begins choice store →
      Reads request (setup.serve choice store) fun _ => False)
    {next : Empty → Body setup.Local setup.Answer α} :
    Keeps rules ends (.perform .undefined next) (.asking request) := ⟨hopeless⟩

theorem keeps_lock {next : Unit → Body setup.Local setup.Answer α}
    (later : Keeps rules ends (next ()) (.asking [])) :
    Keeps rules ends (.perform .lock next) .idle := ⟨later.conforms⟩

theorem keeps_unlock {next : Unit → Body setup.Local setup.Answer α}
    (later : Keeps rules ends (next ()) .idle) :
    Keeps rules ends (.perform .unlock next) (.holding []) := ⟨⟨rfl, later.conforms⟩⟩

theorem keeps_writeBytes {data request : Bytes} {after : Bool → Body setup.Local setup.Answer α}
    (next : Keeps rules ends (after true) (.asking (request ++ data))) :
    Keeps rules ends (writeBytes data >>= after) (.asking request) := by
  induction data generalizing request with
  | nil =>
      rw [List.append_nil] at next
      exact next
  | cons byte data ih =>
      rw [List.append_cons] at next
      exact ⟨(ih next).conforms⟩

theorem keeps_readBytes {old text rest : Bytes} (same : text.length = old.length)
    {after : Bool × Bytes → Body setup.Local setup.Answer α}
    (next : Keeps rules ends (after (true, text)) (.holding rest)) :
    Keeps rules ends (readBytes old >>= after) (.holding (text ++ rest)) := by
  induction old generalizing text after with
  | nil =>
      obtain rfl := List.eq_nil_of_length_eq_zero same
      exact next
  | cons first old ih =>
      cases text with
      | nil => simp at same
      | cons byte text =>
          rw [readBytes_bind]
          have shorter : text.length = old.length := by simpa using same
          have later := @ih text shorter (fun result => after (result.1, byte :: result.2)) next
          exact ⟨later.conforms⟩

/-- The first text that is read of a reply: before that the request must be complete. -/
theorem keeps_asks {old request : Bytes} (some_bytes : old ≠ [])
    {after : Bool × Bytes → Body setup.Local setup.Answer α}
    (replies : ∀ choice store, rules.begins choice store →
      Reads request (setup.serve choice store) fun reply => ∃ text rest, reply = text ++ rest ∧
        text.length = old.length ∧ Keeps rules ends (after (true, text)) (.holding rest)) :
    Keeps rules ends (readBytes old >>= after) (.asking request) := by
  cases old with
  | nil => contradiction
  | cons first old =>
      rw [readBytes_bind]
      constructor
      intro choice store begins
      refine reads_mono ?_ (replies choice store begins)
      rintro reply ⟨text, rest, rfl, same, next⟩
      cases text with
      | nil => simp at same
      | cons byte text =>
          have shorter : text.length = old.length := by simpa using same
          exact ⟨byte, text ++ rest, rfl, (keeps_readBytes shorter next).conforms⟩

end

end SharedPipe
