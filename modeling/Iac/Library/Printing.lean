import Iac.Library.Buffer
import Iac.Library.Program

/-! Programs that print texts into arrays of sizes that they have computed. -/

namespace Printing

open CText Interaction

abbrev Room (size : Nat) := { bytes : Bytes // bytes.length = size }

inductive Print (Own : Type)
  /-- a new array, with whatever it holds -/
  | array (size : Nat)
  /-- A mark for the record: the text goes to the start of an array of that size. -/
  | printed (size : Nat) (text : Bytes)
  | own (op : Own)
  | undefined
  deriving DecidableEq, Repr

abbrev Print.Answer {Own : Type} (answer : Own → Type) : Print Own → Type
  | .array size => Room size
  | .printed _ _ => Unit
  | .own op => answer op
  | .undefined => Empty

section

variable {Own : Type} {Answer : Own → Type} {α β : Type}

abbrev Printer (Answer : Own → Type) (α : Type) := Program (Print Own) (Print.Answer Answer) α

def undefinedPrint : Printer Answer α := .perform .undefined fun (never : Empty) => nomatch never

def newArray (size : Nat) : Printer Answer (Room size) := .perform (.array size) .ret

def act (op : Own) : Printer Answer (Answer op) := .perform (.own op) .ret

def sprintf (array text : Bytes) : Printer Answer Bytes :=
  .perform (.printed array.length text) fun _ =>
    match sprintfAt array 0 text with
    | some written => .ret written
    | none => (undefinedPrint : Printer Answer Bytes)

/-- A text fills its array, the NUL included. -/
def Print.fills : Print Own → Bool
  | .printed size text => size = text.length + 1
  | .undefined => false
  | _ => true

theorem sprintf_fills {array text : Bytes} (size : array.length = text.length + 1)
    (after : Bytes → Printer Answer β) :
    (sprintf array text >>= after) =
      .perform (.printed (text.length + 1) text) fun _ => after (text ++ [0]) := by
  rw [sprintf, sprintfAt_full size, size]
  rfl

theorem only_printed {size : Nat} {text : Bytes} {next : Unit → Printer Answer α}
    (full : size = text.length + 1) (later : (next ()).Only Print.fills) :
    (Program.perform (.printed size text) next : Printer Answer α).Only Print.fills :=
  .perform (decide_eq_true full) fun _ => later

end

end Printing
