import Iac.EnsureLoops
import Iac.FifoLeftovers
import Iac.Library.Plays
import Iac.Library.Printing

/-! Numbers that are handed on as texts: the descriptors that `startDBServer` of
`server/mainServer.c` passes to `main` of `database/databaseServer.c`, and the paths that
`conn_open` of `common/commWithFIFOs.c` makes of the process id. -/

namespace Iac.Startup

open CText Interaction Printing
open Fifo (basePath processFIFOs)
open Piecewise (asSize)

/-! `startDBServer`. -/

inductive Starting
  | pipe
  | shConnCreate (outFD inFD : Int32)
  | fork
  /-- It returns only if it fails. -/
  | execve (path : Bytes) (args : List Bytes)
  | logErr (message : Bytes)
  /-- with `SIGKILL` -/
  | kill (pid : Int32)
  | exit (status : Int32)
  deriving DecidableEq, Repr

structure Pipe where
  read : Int32
  write : Int32
  deriving DecidableEq, Repr

abbrev Starting.Answer : Starting → Type
  | .pipe => Option Pipe
  | .shConnCreate _ _ => Bool
  | .fork => Int32
  | .execve _ _ => Unit
  | .logErr _ => Unit
  | .kill _ => Unit
  | .exit _ => Empty

abbrev StartProgram := Printer Starting.Answer

def start (op : Starting) : StartProgram op.Answer := act op

/-- The result, and what is stored through `outFD` and `inFD`. -/
structure Started where
  result : Int32
  descriptors : Option (Int32 × Int32)
  deriving DecidableEq, Repr

def withoutPipes : StartProgram Started := do
  start (.logErr (ascii "Main server couln't create pipes for shared connection,"))
  return ⟨-1, none⟩

def failedExec (mainServerPID : Int32) : StartProgram Started := do
  start (.logErr (ascii "execve() failed when starting database server."))
  start (.kill mainServerPID)
  let never : Empty ← start (.exit (-1))
  nomatch never

/-- What the child does. -/
def startDatabase (mainServerPID : Int32) (outpipe inpipe : Pipe) : StartProgram Started := do
  let dbReadFD ← newArray (countDigits outpipe.read + 1)
  let dbWriteFD ← newArray (countDigits inpipe.write + 1)
  let dbReadFD ← sprintf dbReadFD.val (itoa outpipe.read.toInt)
  let dbWriteFD ← sprintf dbWriteFD.val (itoa inpipe.write.toInt)
  let args := [ascii "databaseServer.bin", cstring dbReadFD, cstring dbWriteFD]
  start (.execve (ascii "./databaseServer.bin") args)
  failedExec mainServerPID

def startDBServer (mainServerPID : Int32) : StartProgram Started := do
  match ← start .pipe with
  | none => withoutPipes
  | some outpipe =>
      match ← start .pipe with
      | none => withoutPipes
      | some inpipe =>
          let descriptors := (outpipe.write, inpipe.read)
          if ← start (.shConnCreate outpipe.write inpipe.read) then
            if (← start .fork) = 0 then startDatabase mainServerPID outpipe inpipe
            else return ⟨1, some descriptors⟩
          else
            start (.logErr (ascii "Main server couldn't create shared connection."))
            return ⟨-1, some descriptors⟩

/-- The arguments of the database server: the descriptors that it reads from and writes to. -/
def databaseArguments (argv : List Bytes) : Option (Int32 × Int32) :=
  match argv with
  | [_, readFD, writeFD] => some (Int32.ofInt (strtol readFD), Int32.ofInt (strtol writeFD))
  | _ => none

/-! `conn_open`, up to its FIFOs. -/

inductive Making
  | malloc (size : Nat)
  | mkfifo (path : Bytes)
  | free
  deriving DecidableEq, Repr

abbrev Making.Answer : Making → Type
  | .malloc size => Option (Block size)
  | .mkfifo _ => Bool
  | .free => Unit

abbrev MakeProgram := Printer Making.Answer

def make (op : Making) : MakeProgram op.Answer := act op

/-- One half of `createProcessFIFOs`, once the size is computed as an `int`. -/
def makeFIFO (size : Nat) (basePath suffix : Bytes) : MakeProgram (Option Bytes) := do
  match ← make (.malloc size) with
  | none => return none
  | some path =>
      let path ← sprintf path.val (cstring basePath ++ suffix)
      if ← make (.mkfifo (cstring path)) then return some path
      else
        make .free
        return none

def createFIFO (basePath suffix : Bytes) (suffixLength : Int32) : MakeProgram (Option Bytes) :=
  let baseLength := Int32.ofNat (cstring basePath).length
  match (addInt baseLength suffixLength).bind fun length => addInt length 1 with
  | some size => makeFIFO (asSize size) basePath suffix
  | none => undefinedPrint

def createProcessFIFOs (basePath : Bytes) : MakeProgram (Option (Bytes × Bytes)) :=
  if Terminated basePath then do
    match ← createFIFO basePath (ascii "-out") 4 with
    | none => return none
    | some outFIFOPath =>
        match ← createFIFO basePath (ascii "-in") 3 with
        | none => return none
        | some inFIFOPath => return some (outFIFOPath, inFIFOPath)
  else undefinedPrint

/-- The paths of a process, if its FIFOs could be made. -/
def processPaths (pid : Int32) : MakeProgram (Option (Bytes × Bytes)) := do
  let buff ← newArray (5 + countDigits pid + 1)
  let buff ← sprintf buff.val (ascii "/tmp/" ++ itoa pid.toInt)
  createProcessFIFOs buff

/-! What is printed fits. -/

theorem printed_width {array : Bytes} {number : Int32} (size : array.length = countDigits number + 1) :
    array.length = (itoa number.toInt).length + 1 := by
  rw [size, countDigits_eq]

theorem itoa_cstring (value : Int) : cstring (itoa value ++ [0]) = itoa value :=
  cstring_append_nul (itoa_no_nul value) []

/-- The child, with the texts that it has in its arrays. -/
theorem startDatabase_eq (mainServerPID : Int32) (outpipe inpipe : Pipe) :
    startDatabase mainServerPID outpipe inpipe =
      .perform (.array (countDigits outpipe.read + 1)) fun _ =>
      .perform (.array (countDigits inpipe.write + 1)) fun _ =>
      .perform (.printed ((itoa outpipe.read.toInt).length + 1) (itoa outpipe.read.toInt)) fun _ =>
      .perform (.printed ((itoa inpipe.write.toInt).length + 1) (itoa inpipe.write.toInt)) fun _ =>
      .perform (.own (.execve (ascii "./databaseServer.bin") [ascii "databaseServer.bin",
        itoa outpipe.read.toInt, itoa inpipe.write.toInt])) fun _ => failedExec mainServerPID := by
  simp only [startDatabase, newArray, start, act, Program.perform_bind, Program.ret_bind]
  refine Program.perform_congr ?_
  intro dbReadFD
  refine Program.perform_congr ?_
  intro dbWriteFD
  rw [sprintf_fills (printed_width dbReadFD.property)]
  refine Program.perform_congr ?_
  intro _
  rw [sprintf_fills (printed_width dbWriteFD.property), itoa_cstring, itoa_cstring]

theorem failedExec_fills (mainServerPID : Int32) : (failedExec mainServerPID).Only Print.fills :=
  .perform rfl fun _ => .perform rfl fun _ => .perform rfl fun (never : Empty) => never.elim

theorem startDatabase_fills (mainServerPID : Int32) (outpipe inpipe : Pipe) :
    (startDatabase mainServerPID outpipe inpipe).Only Print.fills := by
  rw [startDatabase_eq]
  refine .perform rfl fun _ => .perform rfl fun _ => ?_
  refine only_printed rfl (only_printed rfl ?_)
  exact .perform rfl fun _ => failedExec_fills mainServerPID

theorem withoutPipes_fills : withoutPipes.Only Print.fills :=
  .perform rfl fun _ => .ret _

theorem startDBServer_fills (mainServerPID : Int32) :
    (startDBServer mainServerPID).Only Print.fills := by
  refine .perform rfl ?_
  intro outpipe
  cases outpipe with
  | none => exact withoutPipes_fills
  | some outpipe =>
      refine .perform rfl ?_
      intro inpipe
      cases inpipe with
      | none => exact withoutPipes_fills
      | some inpipe =>
          refine .perform rfl ?_
          intro created
          cases created with
          | false => exact .perform rfl fun _ => .ret _
          | true =>
              refine .perform rfl ?_
              intro dbPID
              dsimp only [Program.bind]
              by_cases child : dbPID = 0
              · rw [if_pos child]
                exact startDatabase_fills mainServerPID outpipe inpipe
              · rw [if_neg child]
                exact .ret _

/-! The paths. -/

theorem addInt_ofNat {left right : Nat} (small : left + right < 2 ^ 31) :
    addInt (Int32.ofNat left) (Int32.ofNat right) = some (Int32.ofNat (left + right)) := by
  have first : (Int32.ofNat left).toInt = (left : Int) := Int32.toInt_ofNat_of_lt (by omega)
  have second : (Int32.ofNat right).toInt = (right : Int) := Int32.toInt_ofNat_of_lt (by omega)
  have sum : Int32.ofInt (left + right) = Int32.ofNat (left + right) := Int32.ofInt_eq_ofNat
  unfold addInt
  dsimp only
  rw [first, second, if_pos (by omega), sum]

theorem asSize_ofNat {size : Nat} (small : size < 2 ^ 31) : asSize (Int32.ofNat size) = size := by
  rw [asSize, Int32.toInt_ofNat_of_lt small]
  omega

def knownFIFO (path : Bytes) : MakeProgram (Option Bytes) :=
  .perform (.own (.malloc (path.length + 1))) fun block =>
    block.elim (.ret none) fun _ =>
      .perform (.printed (path.length + 1) path) fun _ =>
      .perform (.own (.mkfifo path)) fun made =>
        if made then .ret (some (path ++ [0])) else .perform (.own .free) fun _ => .ret none

theorem base_cstring {base suffix : Bytes} (clean : (0 : UInt8) ∉ base ++ suffix) :
    cstring (base ++ [0]) = base :=
  cstring_append_nul (fun member => clean (List.mem_append_left _ member)) []

theorem makeFIFO_eq {base suffix : Bytes} (clean : (0 : UInt8) ∉ base ++ suffix) :
    makeFIFO ((base ++ suffix).length + 1) (base ++ [0]) suffix = knownFIFO (base ++ suffix) := by
  have whole : cstring (base ++ suffix ++ [0]) = base ++ suffix := cstring_append_nul clean []
  refine Program.perform_congr ?_
  intro path
  cases path with
  | none => rfl
  | some path =>
      dsimp only [Program.bind]
      rw [base_cstring clean, sprintf_fills path.property]
      refine Program.perform_congr ?_
      intro _
      rw [whole]
      refine Program.perform_congr ?_
      intro made
      cases made with
      | true => rfl
      | false => rfl

theorem createFIFO_eq {base suffix : Bytes} (clean : (0 : UInt8) ∉ base ++ suffix)
    (short : base.length + suffix.length + 1 < 2 ^ 31) :
    createFIFO (base ++ [0]) suffix (Int32.ofNat suffix.length) = knownFIFO (base ++ suffix) := by
  have size : (addInt (Int32.ofNat base.length) (Int32.ofNat suffix.length)).bind
      (fun length => addInt length 1) = some (Int32.ofNat (base.length + suffix.length + 1)) := by
    rw [addInt_ofNat (by omega), Option.bind_some]
    exact @addInt_ofNat (base.length + suffix.length) 1 short
  unfold createFIFO
  dsimp only
  rw [base_cstring clean, size]
  dsimp only
  rw [asSize_ofNat short, ← List.length_append]
  exact makeFIFO_eq clean

/-! They are the paths that the connection keeps. -/

theorem processFIFO_eq (pid : Int32) {suffix : Bytes} (clean : (0 : UInt8) ∉ suffix)
    (short : suffix.length ≤ 4) :
    createFIFO (basePath pid ++ [0]) suffix (Int32.ofNat suffix.length) =
      knownFIFO (basePath pid ++ suffix) := by
  have base := Fifo.basePath_length pid
  exact createFIFO_eq (Fifo.basePath_clean pid clean) (by omega)

theorem outFIFO_eq (pid : Int32) :
    createFIFO (basePath pid ++ [0]) (ascii "-out") 4 =
      knownFIFO (processFIFOs pid).outFIFOPath.text :=
  processFIFO_eq pid (by decide) (by decide)

theorem inFIFO_eq (pid : Int32) :
    createFIFO (basePath pid ++ [0]) (ascii "-in") 3 =
      knownFIFO (processFIFOs pid).inFIFOPath.text :=
  processFIFO_eq pid (by decide) (by decide)

theorem basePath_terminated (pid : Int32) : Terminated (basePath pid ++ [0]) :=
  List.mem_append_right _ List.mem_cons_self

theorem processPaths_eq (pid : Int32) :
    processPaths pid = .perform (.array (5 + countDigits pid + 1)) fun _ =>
      .perform (.printed ((basePath pid).length + 1) (basePath pid)) fun _ =>
      createProcessFIFOs (basePath pid ++ [0]) := by
  have width : 5 + countDigits pid + 1 = (basePath pid).length + 1 := by
    have start : (ascii "/tmp/").length = 5 := rfl
    rw [countDigits_eq, basePath, List.length_append, start]
  refine Program.perform_congr ?_
  intro buff
  dsimp only [Program.bind]
  exact sprintf_fills (buff.property.trans width) _

theorem knownFIFO_fills (path : Bytes) : (knownFIFO path).Only Print.fills := by
  refine .perform rfl ?_
  intro block
  cases block with
  | none => exact .ret none
  | some block =>
      refine only_printed rfl (.perform rfl ?_)
      intro made
      cases made with
      | true => exact .ret _
      | false => exact .perform rfl fun _ => .ret none

theorem processPaths_fills (pid : Int32) : (processPaths pid).Only Print.fills := by
  rw [processPaths_eq, createProcessFIFOs, if_pos (basePath_terminated pid), outFIFO_eq, inFIFO_eq]
  refine .perform rfl fun _ => only_printed rfl ?_
  refine Program.only_bind (knownFIFO_fills _) ?_
  intro outFIFOPath
  cases outFIFOPath with
  | none => exact .ret none
  | some outFIFOPath =>
      refine Program.only_bind (knownFIFO_fills _) ?_
      intro inFIFOPath
      cases inFIFOPath with
      | none => exact .ret none
      | some inFIFOPath => exact .ret _

/-! Without what is printed it is `createProcessFIFOs` of the leftovers, whatever the arrays held. -/

def carryOut (fresh : (size : Nat) → Block size) :
    (op : Print Making) → Unit → Leftovers.FileProgram (Print.Answer Making.Answer op × Unit)
  | .array size, _ => return (fresh size, ())
  | .printed _ _, _ => return ((), ())
  | .own (.malloc size), _ => do
      let granted ← Leftovers.call (.malloc size)
      return (if granted then some (fresh size) else none, ())
  | .own (.mkfifo path), _ => do
      let made ← Leftovers.call (.mkfifo path)
      return (made, ())
  | .own .free, _ => return ((), ())
  | .undefined, _ => Leftovers.undefinedStep

theorem knownFIFO_handled (fresh : (size : Nat) → Block size) (path : Bytes) :
    (knownFIFO path).handle (carryOut fresh) () = (do
      if ← Leftovers.call (.malloc (path.length + 1)) then
        let made ← Leftovers.call (.mkfifo path)
        return (if made then some (path ++ [0]) else none, ())
      else return (none, ())) := by
  refine Program.perform_congr ?_
  intro granted
  cases granted with
  | false => rfl
  | true =>
      refine Program.perform_congr ?_
      intro made
      cases made with
      | true => rfl
      | false => rfl

def storedPaths (pid : Int32) (made : Bool) : Option (Bytes × Bytes) :=
  if made then some ((processFIFOs pid).outFIFOPath.block, (processFIFOs pid).inFIFOPath.block)
  else none

theorem processPaths_handled (fresh : (size : Nat) → Block size) (pid : Int32) :
    (processPaths pid).handle (carryOut fresh) () =
      Leftovers.createProcessFIFOs pid >>= fun made => .ret (storedPaths pid made, ()) := by
  have out : (processFIFOs pid).outFIFOPath.text.length = (basePath pid).length + 4 :=
    List.length_append
  have into : (processFIFOs pid).inFIFOPath.text.length = (basePath pid).length + 3 :=
    List.length_append
  rw [processPaths_eq, createProcessFIFOs, if_pos (basePath_terminated pid), outFIFO_eq, inFIFO_eq]
  change (knownFIFO _ >>= _).handle (carryOut fresh) () = _
  rw [handle_bind, knownFIFO_handled, out]
  refine Program.perform_congr ?_
  intro granted
  cases granted with
  | false => rfl
  | true =>
      refine Program.perform_congr ?_
      intro made
      cases made with
      | false => rfl
      | true =>
          change (knownFIFO _ >>= _).handle (carryOut fresh) () = _
          rw [handle_bind, knownFIFO_handled, into]
          refine Program.perform_congr ?_
          intro granted
          cases granted with
          | false => rfl
          | true =>
              refine Program.perform_congr ?_
              intro made
              cases made with
              | false => rfl
              | true => rfl

/-! All hand-computed sizes of this kind. -/

theorem countDigits_printed_width (number productId mainServerPID pid : Int32) :
    (Counts (.start number) (itoa number.toInt).length ∧
        countDigits number = (itoa number.toInt).length) ∧
      stockQuery productId = stockBase ++ itoa productId.toInt ++ [0] ∧
      (startDBServer mainServerPID).Only Print.fills ∧ (processPaths pid).Only Print.fills := by
  have width := countDigits_eq number
  have counted := counts_digits number
  rw [width] at counted
  exact ⟨⟨counted, width⟩, stockQuery_whole productId, startDBServer_fills mainServerPID,
    processPaths_fills pid⟩

/-! The database server gets the other ends of the two pipes. -/

theorem int_read_back (number : Int32) : Int32.ofInt (strtol (itoa number.toInt)) = number := by
  have lower := number.le_toInt
  have upper := number.toInt_lt
  rw [strtol_itoa (by omega) (by omega), Int32.ofInt_toInt]

/-- Where the process becomes another one, or ends. -/
def stops : Print Starting → Bool
  | .own (.execve _ _) => true
  | .own (.exit _) => true
  | _ => false

abbrev StartEvent := Sigma (Print.Answer Starting.Answer)

/-- The calls in front of `fork`. -/
def connected (outpipe inpipe : Pipe) : List StartEvent :=
  [⟨.own .pipe, some outpipe⟩, ⟨.own .pipe, some inpipe⟩,
    ⟨.own (.shConnCreate outpipe.write inpipe.read), true⟩]

def forked (dbPID : Int32) : StartEvent := ⟨.own .fork, dbPID⟩

theorem connected_injective {outpipe inpipe other another : Pipe} {rest behind : List StartEvent}
    (same : connected outpipe inpipe ++ rest = connected other another ++ behind) :
    outpipe = other ∧ inpipe = another := by
  have equal : connected outpipe inpipe = connected other another := (List.append_inj same rfl).1
  simp only [connected, List.cons.injEq, Sigma.mk.injEq, heq_eq_eq, Option.some.injEq] at equal
  exact ⟨equal.1.2, equal.2.1.2⟩

section

variable {mainServerPID : Int32} {outpipe inpipe : Pipe} {trace : List StartEvent}
  {ending : Ending (Print Starting) Started}

theorem withoutPipes_plays (plays : Plays stops withoutPipes trace ending) :
    ending = .returned ⟨-1, none⟩ := by
  obtain ⟨_, _, later, _⟩ := plays_perform rfl plays
  exact (plays_ret later).2

theorem failedExec_plays (plays : Plays stops (failedExec mainServerPID) trace ending) :
    ending = .stopped (.own (.exit (-1))) := by
  obtain ⟨_, _, later, _⟩ := plays_perform rfl plays
  obtain ⟨_, _, last, _⟩ := plays_perform rfl later
  exact (plays_stop (fun (never : Empty) => never.elim) last).2

theorem startDatabase_plays
    (plays : Plays stops (startDatabase mainServerPID outpipe inpipe) trace ending) :
    ending = .stopped (.own (.exit (-1))) ∨
      ∃ args, ending = .stopped (.own (.execve (ascii "./databaseServer.bin") args)) ∧
        databaseArguments args = some (outpipe.read, inpipe.write) := by
  rw [startDatabase_eq] at plays
  obtain ⟨_, _, plays, _⟩ := plays_perform rfl plays
  obtain ⟨_, _, plays, _⟩ := plays_perform rfl plays
  obtain ⟨_, _, plays, _⟩ := plays_perform rfl plays
  obtain ⟨_, _, plays, _⟩ := plays_perform rfl plays
  cases plays with
  | stop here =>
      refine .inr ⟨_, rfl, ?_⟩
      rw [databaseArguments, int_read_back, int_read_back]
  | perform failed behind => exact .inl (failedExec_plays behind)

/-- Behind `fork` there are two processes; before, nothing has been started. -/
theorem startDBServer_plays (plays : Plays stops (startDBServer mainServerPID) trace ending) :
    (∃ descriptors, ending = .returned ⟨-1, descriptors⟩) ∨
      ∃ outpipe inpipe dbPID behind, trace = connected outpipe inpipe ++ forked dbPID :: behind ∧
        (if dbPID = 0 then Plays stops (startDatabase mainServerPID outpipe inpipe) behind ending
        else behind = [] ∧ ending = .returned ⟨1, some (outpipe.write, inpipe.read)⟩) := by
  obtain ⟨outpipe, _, first, rfl⟩ := plays_perform rfl plays
  cases outpipe with
  | none => exact .inl ⟨none, withoutPipes_plays first⟩
  | some outpipe =>
      obtain ⟨inpipe, _, second, rfl⟩ := plays_perform rfl first
      cases inpipe with
      | none => exact .inl ⟨none, withoutPipes_plays second⟩
      | some inpipe =>
          obtain ⟨created, _, third, rfl⟩ := plays_perform rfl second
          cases created with
          | false =>
              obtain ⟨_, _, later, _⟩ := plays_perform rfl third
              exact .inl ⟨_, (plays_ret later).2⟩
          | true =>
              obtain ⟨dbPID, behind, last, rfl⟩ := plays_perform rfl third
              refine .inr ⟨outpipe, inpipe, dbPID, behind, rfl, ?_⟩
              dsimp only [Program.bind] at last
              by_cases child : dbPID = 0
              · rw [if_pos child] at last ⊢
                exact last
              · rw [if_neg child] at last ⊢
                exact plays_ret last

theorem parent_plays {descriptors : Option (Int32 × Int32)}
    (plays : Plays stops (startDBServer mainServerPID) trace (.returned ⟨1, descriptors⟩)) :
    ∃ outpipe inpipe dbPID, trace = connected outpipe inpipe ++ [forked dbPID] ∧
      descriptors = some (outpipe.write, inpipe.read) := by
  rcases startDBServer_plays plays with ⟨_, failed⟩ | ⟨outpipe, inpipe, dbPID, behind, shape, rest⟩
  · have result : (1 : Int32) = -1 := congrArg Started.result (Ending.returned.inj failed)
    exact absurd result (by decide)
  · by_cases child : dbPID = 0
    · rw [if_pos child] at rest
      rcases startDatabase_plays rest with stopped | ⟨_, stopped, _⟩
      · contradiction
      · contradiction
    · rw [if_neg child] at rest
      obtain ⟨rfl, same⟩ := rest
      exact ⟨outpipe, inpipe, dbPID, shape, congrArg Started.descriptors (Ending.returned.inj same)⟩

theorem child_plays {path : Bytes} {args : List Bytes}
    (plays : Plays stops (startDBServer mainServerPID) trace (.stopped (.own (.execve path args)))) :
    ∃ outpipe inpipe behind, trace = connected outpipe inpipe ++ forked 0 :: behind ∧
      databaseArguments args = some (outpipe.read, inpipe.write) := by
  rcases startDBServer_plays plays with ⟨_, failed⟩ | ⟨outpipe, inpipe, dbPID, behind, shape, rest⟩
  · contradiction
  · by_cases child : dbPID = 0
    · rw [if_pos child] at rest
      rw [child] at shape
      rcases startDatabase_plays rest with stopped | ⟨_, stopped, read⟩
      · have other := Print.own.inj (Ending.stopped.inj stopped)
        contradiction
      · cases stopped
        exact ⟨outpipe, inpipe, behind, shape, read⟩
    · rw [if_neg child] at rest
      have returned := rest.2
      contradiction

/-- What the main server writes to, the database server reads from, and the other way round. -/
theorem database_connected {path : Bytes} {args : List Bytes} {ahead behind : List StartEvent}
    {descriptors : Option (Int32 × Int32)} {dbPID : Int32}
    (parent : Plays stops (startDBServer mainServerPID) (ahead ++ [forked dbPID])
      (.returned ⟨1, descriptors⟩))
    (child : Plays stops (startDBServer mainServerPID) (ahead ++ forked 0 :: behind)
      (.stopped (.own (.execve path args)))) :
    ∃ outpipe inpipe : Pipe, ahead = connected outpipe inpipe ∧
      descriptors = some (outpipe.write, inpipe.read) ∧
      databaseArguments args = some (outpipe.read, inpipe.write) := by
  obtain ⟨outpipe, inpipe, _, shape, stored⟩ := parent_plays parent
  obtain ⟨other, another, rest, form, read⟩ := child_plays child
  have opened : ahead = connected outpipe inpipe := (List.append_inj' shape rfl).1
  rw [opened] at form
  obtain ⟨rfl, rfl⟩ := connected_injective form
  exact ⟨outpipe, inpipe, opened, stored, read⟩

end

/-! The pipes of a process that had only its standard descriptors. -/

theorem plays_answer {op : Print Starting} {next : Print.Answer Starting.Answer op → StartProgram Started}
    {trace : List StartEvent} {ending : Ending (Print Starting) Started} (answer : Print.Answer Starting.Answer op)
    (behind : Plays stops (next answer) trace ending) :
    Plays stops (.perform op next) (⟨op, answer⟩ :: trace) ending := .perform answer behind

/-- Every answer to `fork` is one that can be had behind the pipes. -/
theorem plays_forked (mainServerPID : Int32) (outpipe inpipe : Pipe) {dbPID : Int32} {behind : List StartEvent}
    {ending : Ending (Print Starting) Started}
    (goes : if dbPID = 0 then Plays stops (startDatabase mainServerPID outpipe inpipe) behind ending
      else behind = [] ∧ ending = .returned ⟨1, some (outpipe.write, inpipe.read)⟩) :
    Plays stops (startDBServer mainServerPID) (connected outpipe inpipe ++ forked dbPID :: behind) ending := by
  refine @plays_answer (Print.own Starting.pipe) _ _ _ (some outpipe) ?_
  refine @plays_answer (Print.own Starting.pipe) _ _ _ (some inpipe) ?_
  refine @plays_answer (Print.own (Starting.shConnCreate outpipe.write inpipe.read)) _ _ _ true ?_
  refine @plays_answer (Print.own Starting.fork) _ _ _ dbPID ?_
  dsimp only [Program.bind]
  by_cases child : dbPID = 0
  · rw [if_pos child] at goes ⊢
    exact goes
  · rw [if_neg child] at goes ⊢
    obtain ⟨rfl, rfl⟩ := goes
    exact .ret _

def blanks (size : Nat) : Room size := ⟨List.replicate size 32, List.length_replicate⟩

theorem fresh_database : ∃ behind, Plays stops (startDatabase 100 ⟨3, 4⟩ ⟨5, 6⟩) behind
    (.stopped (.own (.execve (ascii "./databaseServer.bin") [ascii "databaseServer.bin", itoa 3, itoa 6]))) := by
  rw [startDatabase_eq]
  exact ⟨_, plays_answer (blanks _) (plays_answer (blanks _) (plays_answer () (plays_answer () (.stop rfl))))⟩

theorem database_connected_fresh : ∃ outpipe inpipe : Pipe, connected ⟨3, 4⟩ ⟨5, 6⟩ = connected outpipe inpipe ∧
    some ((4 : Int32), (5 : Int32)) = some (outpipe.write, inpipe.read) ∧
    databaseArguments [ascii "databaseServer.bin", itoa 3, itoa 6] = some (outpipe.read, inpipe.write) := by
  obtain ⟨behind, execs⟩ := fresh_database
  have parent := @plays_forked 100 ⟨3, 4⟩ ⟨5, 6⟩ 101 [] (.returned ⟨1, some (4, 5)⟩) ⟨rfl, rfl⟩
  exact database_connected parent (@plays_forked 100 ⟨3, 4⟩ ⟨5, 6⟩ 0 behind _ execs)

end Iac.Startup
