import Mathlib.Logic.Relation
import Iac.Order

/-! `logMessage` of `logging/logging.c`, the daemon of `logging/loggingDaemon.c`, and the queue
between them. -/

namespace Iac.Logging

open CText

structure CString where
  text : Bytes
  clean : (0 : UInt8) ∉ text

inductive LogLevel
  | info
  | warning
  | error
  deriving DecidableEq, Repr

def LogLevel.number : LogLevel → Int
  | .info => 1
  | .warning => 2
  | .error => 3

/-- `message_t` -/
structure Message where
  lvl : Int
  msg : Bytes
  size : msg.length = 256
  deriving DecidableEq

def Message.last (m : Message) : UInt8 := m.msg.get ⟨255, by rw [m.size]; decide⟩

/-- Of an array that is longer, what is behind stays. -/
def strncpy (dest : Bytes) (src : CString) (size : Nat) : Bytes :=
  src.text.take size ++ List.replicate (size - src.text.length) 0 ++ dest.drop size

theorem strncpy_length {dest : Bytes} {size : Nat} (room : size ≤ dest.length) (src : CString) :
    (strncpy dest src size).length = dest.length := by
  simp only [strncpy, List.length_append, List.length_take, List.length_replicate, List.length_drop]
  omega

def fill (prior : Message) (message : CString) (lvl : LogLevel) : Message where
  lvl := lvl.number
  msg := strncpy prior.msg message 255
  size := by rw [strncpy_length (by rw [prior.size]; decide), prior.size]

/-- What `%s` prints of an array; without a terminator it goes on behind its end. -/
def shown (array : Bytes) : Option Bytes := if (0 : UInt8) ∈ array then some (cstring array) else none

def fallback (reason : Bytes) (lvl : Int) (text : Bytes) : Bytes :=
  reason ++ ascii " Falling back to stdout:\n[" ++ itoa lvl ++ ascii "]: " ++ text ++ ascii "\n"

/-- What is returned, put into the queue and printed; what is printed may be undefined. -/
structure Logged where
  result : Int32
  sent : Option Message
  stdout : Option Bytes
  deriving DecidableEq

/-- Whether there is a queue, and whether `msgsnd` puts the message into it; `prior` is what the
stack holds in the place of `msg`. -/
def logMessage (connects sends : Bool) (prior : Message) (message : CString) (lvl : LogLevel) : Logged :=
  if connects then
    let msg := fill prior message lvl
    if sends then ⟨1, some msg, some []⟩
    else ⟨-1, none, (shown msg.msg).map (fallback (ascii "Sending log message failed.") msg.lvl)⟩
  else ⟨-1, none, some (fallback (ascii "Couldn't connect to log message queue.") lvl.number message.text)⟩

/-! The daemon. -/

def levelNames : List Bytes := [ascii "INFO", ascii "WARNING", ascii "ERROR"]

def prettyPrintMessage (m : Message) : Option Bytes := do
  let name ← if 1 ≤ m.lvl then levelNames[(m.lvl - 1).toNat]? else none
  let text ← shown m.msg
  return ascii "[" ++ name ++ ascii "]: " ++ text ++ ascii "\n"

/-! What it should print. -/

def LogLevel.name : LogLevel → Bytes
  | .info => ascii "INFO"
  | .warning => ascii "WARNING"
  | .error => ascii "ERROR"

def line (message : CString) (lvl : LogLevel) : Bytes :=
  ascii "[" ++ lvl.name ++ ascii "]: " ++ message.text.take 255 ++ ascii "\n"

structure Survives (prior : Message) (message : CString) (lvl : LogLevel) : Prop where
  printed : prettyPrintMessage (fill prior message lvl) = some (line message lvl)
  terminated : (0 : UInt8) ∈ (fill prior message lvl).msg

section

variable {prior : Message} {message : CString} {lvl : LogLevel}

theorem drop_last (m : Message) : m.msg.drop 255 = [m.last] := by
  rw [List.drop_eq_getElem_cons (by rw [m.size]; decide), List.drop_eq_nil_of_le (by rw [m.size])]
  rfl

theorem shown_terminated {text rest : Bytes} (clean : (0 : UInt8) ∉ text) :
    shown (text ++ 0 :: rest) = some text := by
  rw [shown, if_pos (List.mem_append_right text List.mem_cons_self), cstring_append_nul clean]

/-- What is in the array: the text and its padding, or all of the text that fits, and in both
cases the byte that was the last one before. -/
theorem fill_short (short : message.text.length < 255) : (fill prior message lvl).msg =
    message.text ++ 0 :: (List.replicate (254 - message.text.length) 0 ++ [prior.last]) := by
  have padding : 255 - message.text.length = 254 - message.text.length + 1 := by omega
  simp only [fill, strncpy, drop_last, List.take_of_length_le (Nat.le_of_lt short), padding,
    List.replicate_succ, List.append_assoc, List.cons_append]

theorem fill_long (long : 255 ≤ message.text.length) :
    (fill prior message lvl).msg = message.text.take 255 ++ [prior.last] := by
  simp only [fill, strncpy, drop_last, Nat.sub_eq_zero_of_le long, List.replicate_zero, List.append_nil]

theorem take_clean : (0 : UInt8) ∉ message.text.take 255 :=
  fun member => message.clean (List.mem_of_mem_take member)

theorem levelNames_number (lvl : LogLevel) : levelNames[(lvl.number - 1).toNat]? = some lvl.name := by
  cases lvl with
  | info => rfl
  | warning => rfl
  | error => rfl

theorem number_positive (lvl : LogLevel) : 1 ≤ lvl.number := by
  cases lvl with
  | info => decide
  | warning => decide
  | error => decide

theorem prettyPrintMessage_fill {text : Bytes} (known : shown (fill prior message lvl).msg = some text) :
    prettyPrintMessage (fill prior message lvl) =
      some (ascii "[" ++ lvl.name ++ ascii "]: " ++ text ++ ascii "\n") := by
  rw [prettyPrintMessage, show (fill prior message lvl).lvl = lvl.number from rfl,
    if_pos (number_positive lvl), levelNames_number, known]
  rfl

theorem survives_of_shown (known : shown (fill prior message lvl).msg = some (message.text.take 255)) :
    Survives prior message lvl := by
  constructor
  · exact prettyPrintMessage_fill known
  · by_contra unterminated
    rw [shown, if_neg unterminated] at known
    contradiction

theorem survives_iff :
    Survives prior message lvl ↔ message.text.length < 255 ∨ prior.last = 0 := by
  constructor
  · rintro ⟨_, terminated⟩
    by_cases short : message.text.length < 255
    · exact .inl short
    · rw [fill_long (Nat.not_lt.mp short)] at terminated
      rcases List.mem_append.mp terminated with inside | last
      · exact absurd inside take_clean
      · exact .inr (List.mem_singleton.mp last).symm
  · intro condition
    refine survives_of_shown ?_
    by_cases short : message.text.length < 255
    · rw [fill_short short, shown_terminated message.clean, List.take_of_length_le (Nat.le_of_lt short)]
    · rcases condition with never | last
      · exact absurd never short
      · rw [fill_long (Nat.not_lt.mp short), last]
        exact shown_terminated take_clean

theorem fill_same_iff {other : Message} :
    (fill prior message lvl).msg = (fill other message lvl).msg ↔ prior.last = other.last := by
  simp only [fill, strncpy, drop_last, List.append_cancel_left_eq, List.cons.injEq, and_true]

end

/-- The text comes through where its terminator fits, or where there is one by chance; the last of
the bytes that are sent is never the message's. -/
theorem logMessage_survives_iff (message : CString) (lvl : LogLevel) :
    (∀ prior, Survives prior message lvl ↔ message.text.length < 255 ∨ prior.last = 0) ∧
    (∀ prior other, (fill prior message lvl).msg = (fill other message lvl).msg ↔ prior.last = other.last) :=
  ⟨fun _ => survives_iff, fun _ _ => fill_same_iff⟩

def unused (byte : UInt8) : Message := ⟨0, List.replicate 256 byte, List.length_replicate⟩

theorem unused_last (byte : UInt8) : (unused byte).last = byte := by
  simp only [Message.last, unused, List.get_eq_getElem, List.getElem_replicate]

def longMessage : CString where
  text := List.replicate 300 97
  clean := fun member => absurd (List.eq_of_mem_replicate member) (by decide)

/-- A text of 300 bytes over a stack without zeros, and of a short one the bytes over two stacks. -/
theorem long_message_unterminated : ¬Survives (unused 120) longMessage .info ∧
    (fill (unused 120) ⟨ascii "Bye", by decide⟩ .info).msg ≠ (fill (unused 0) ⟨ascii "Bye", by decide⟩ .info).msg := by
  constructor
  · rw [survives_iff, unused_last, longMessage, List.length_replicate]
    decide
  · rw [Ne, fill_same_iff, unused_last, unused_last]
    decide

/-! The queue. -/

/-- What is waiting, what the daemon has printed, and which messages `logMessage` has reported as
sent. -/
structure Queue where
  waiting : List Message
  printed : List Bytes
  accepted : List (CString × LogLevel)

def Queue.log (q : Queue) (logged : Logged) (message : CString) (lvl : LogLevel) : Queue :=
  { q with
    waiting := q.waiting ++ logged.sent.toList
    accepted := if logged.result = 1 then q.accepted ++ [(message, lvl)] else q.accepted }

/-- Any process may log at any time; `terminates` tells for which messages. -/
inductive Step (terminates : Message → CString → Prop) (q : Queue) : Queue → Prop
  | log {connects sends : Bool} {prior : Message} {message : CString} {lvl : LogLevel}
      (allowed : terminates prior message) :
      Step terminates q (q.log (logMessage connects sends prior message lvl) message lvl)
  | print {m : Message} {rest : List Message} {text : Bytes} (first : q.waiting = m :: rest)
      (prints : prettyPrintMessage m = some text) :
      Step terminates q { q with waiting := rest, printed := q.printed ++ [text] }

def Terminates (prior : Message) (message : CString) : Prop :=
  message.text.length < 255 ∨ prior.last = 0

/-- What has been printed and what will be are the messages that were sent, in their order. -/
def Queue.InOrder (q : Queue) : Prop :=
  q.printed.map some ++ q.waiting.map prettyPrintMessage =
    q.accepted.map fun (message, lvl) => some (line message lvl)

section

variable {q after : Queue}

theorem logMessage_cases (connects sends : Bool) (prior : Message) (message : CString) (lvl : LogLevel) :
    (logMessage connects sends prior message lvl).sent = some (fill prior message lvl) ∧
        (logMessage connects sends prior message lvl).result = 1 ∨
      (logMessage connects sends prior message lvl).sent = none ∧
        (logMessage connects sends prior message lvl).result = -1 := by
  cases connects with
  | false => exact .inr ⟨rfl, rfl⟩
  | true =>
      cases sends with
      | false => exact .inr ⟨rfl, rfl⟩
      | true => exact .inl ⟨rfl, rfl⟩

theorem InOrder.next (order : q.InOrder) (step : Step Terminates q after) : after.InOrder := by
  cases step with
  | @log connects sends prior message lvl allowed =>
      rcases logMessage_cases connects sends prior message lvl with ⟨sent, result⟩ | ⟨sent, result⟩
      · simp only [Queue.InOrder, Queue.log, sent, result, Option.toList_some, ↓reduceIte, List.map_append,
          ← List.append_assoc, List.map_cons, List.map_nil, (survives_iff.mpr allowed).printed]
        rw [order]
      · simp only [Queue.InOrder, Queue.log, sent, result, Option.toList_none, List.append_nil]
        exact order
  | @print m rest text first prints =>
      rw [Queue.InOrder, first, List.map_cons, prints] at order
      simp only [Queue.InOrder, List.map_append, List.map_cons, List.map_nil, List.append_assoc,
        List.cons_append, List.nil_append]
      exact order

theorem printed_in_order (run : Relation.ReflTransGen (Step Terminates) ⟨[], [], []⟩ q) : q.InOrder := by
  induction run with
  | refl => rfl
  | tail _ step ih => exact InOrder.next ih step

theorem prints_waiting (run : Relation.ReflTransGen (Step Terminates) ⟨[], [], []⟩ q) :
    ∀ m ∈ q.waiting, (prettyPrintMessage m).isSome := by
  intro m member
  have order := printed_in_order run
  have known : prettyPrintMessage m ∈ q.accepted.map fun (message, lvl) => some (line message lvl) := by
    rw [← order]
    exact List.mem_append_right _ (List.mem_map_of_mem member)
  obtain ⟨_, _, same⟩ := List.mem_map.mp known
  rw [← same]
  rfl

end

end Iac.Logging
