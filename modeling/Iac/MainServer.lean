import Iac.DatabaseMain
import Iac.ForkedServer
import Iac.Library.Processes
import Iac.Logging
import Iac.Startup

/-! `main` of `server/mainServer.c` and all processes that come from it, with the descriptors that each
of them has open; `sh_conn_create` and `sh_conn_destroy` are those of `server/dbConn.c`, and the process that
is started with `execve` goes on with `main` of `database/databaseServer.c`. -/

namespace Iac.MainServer

open CText Interaction Printing SharedPipe Processes
open Logging (LogLevel)
open Startup (Pipe Starting Started startDBServer)

inductive Op
  | pipe
  | shmOpen
  | ftruncate (fd : Int32)
  /-- `false` for `MAP_FAILED` -/
  | mmap (fd : Int32)
  | fork
  /-- `false` if the call fails; else it does not return, and the process is another program. -/
  | execve (path : Bytes) (args : List Bytes)
  | log (level : LogLevel) (message : Bytes)
  | kill (pid : Int32)
  | exit (status : Int32)
  | remove (path : Bytes)
  | connListen
  /-- the descriptors of the new connection: its socket, or its FIFOs as far as they could be opened -/
  | connAccept
  | lock
  | write (fd : Int32) (src : Bytes)
  | close (fd : Int32)
  | shmUnlink
  /-- what a forked server does for its client -/
  | forked (op : Action Local)
  /-- an error comes with its message -/
  | sqliteOpen
  /-- `init` of the database server: its result, and what the tables hold then -/
  | init
  | select
  /-- how the statements of one round will fare -/
  | circumstances
  /-- what the database server does for a request -/
  | served (op : Serving)
  | sqliteClose
  | undefined

abbrev Op.Answer : Op → Type
  | .pipe => Option Pipe
  | .shmOpen => Option Int32
  | .ftruncate _ => Bool
  | .mmap _ => Bool
  | .fork => Int32
  | .execve _ _ => Bool
  | .log _ _ => Unit
  | .kill _ => Unit
  | .exit _ => Empty
  | .remove _ => Unit
  | .connListen => Option Int32
  | .connAccept => Option (List Int32)
  | .lock => Unit
  | .write _ _ => Bool
  | .close _ => Bool
  | .shmUnlink => Bool
  | .forked op => Action.Answer Local.Answer op
  | .sqliteOpen => Except Bytes Unit
  | .init => Bool × Database
  | .select => Bool
  | .circumstances => Circumstances
  | .served op => Serving.Answer op
  | .sqliteClose => Bool
  | .undefined => Empty

abbrev ServerProgram := Program Op Op.Answer

def call (op : Op) : ServerProgram op.Answer := .perform op .ret

def undefinedStep {α : Type} : ServerProgram α := .perform .undefined fun never => nomatch (never : Empty)

def exit {α : Type} (status : Int32) : ServerProgram α :=
  .perform (.exit status) fun never => nomatch (never : Empty)

/-! The shared connection. -/

/-- The result of `mmap` is compared to `NULL`. -/
def shConnCreate : ServerProgram Bool := do
  match ← call .shmOpen with
  | none => return false
  | some fd =>
      if ← call (.ftruncate fd) then
        if ← call (.mmap fd) then return true else undefinedStep
      else return false

structure SharedConn where
  outFD : Int32
  inFD : Int32
  deriving DecidableEq

def shConnDestroy : Option SharedConn → ServerProgram Bool
  | none => undefinedStep
  | some c => do
      if ← call (.close c.outFD) then
        if ← call (.close c.inFD) then call .shmUnlink else return false
      else return false

/-! The programs of the processes; behind each of these points there is one more round. -/

inductive Point
  | accepting (dbConn : SharedConn)
  | serving (c : List Int32)
  | waiting (db : Database) (outFD inFD : Int32)

/-! The database server. -/

namespace DatabaseServer

def shutDown (outFD inFD : Int32) : ServerProgram Unit := do
  let _ ← call (.close outFD)
  let _ ← call (.close inFD)
  let closed : Bool ← call .sqliteClose
  if !closed then
    call (.log .warning (ascii "Couldn't close database handle. Shutting down database server anyway."))
  call (.log .info (ascii "Bye-bye from database server."))

def throughPipes (op : Serving) (_ : Unit) : ServerProgram (Serving.Answer op × Unit) :=
  call (.served op) >>= fun answer => .ret (answer, ())

/-- One round of the loop. -/
def round (db : Database) (outFD inFD : Int32) : ServerProgram Point := do
  if ← call .select then
    let c : Circumstances ← call .circumstances
    let (left, _) ← (Iac.serve c db).handle throughPipes ()
    match left with
    | some db => return .waiting db outFD inFD
    | none =>
        shutDown outFD inFD
        exit 0
  else
    call (.log .warning (ascii "Database select failed. Trying again."))
    return .waiting db outFD inFD

def main (argv : List Bytes) : ServerProgram Point := do
  match Startup.databaseArguments argv with
  | none =>
      call (.log .error (ascii "Database started with invalid parameters. Aborting."))
      exit (-1)
  | some (inFD, outFD) =>
      call (.remove (ascii "db"))
      match ← call .sqliteOpen with
      | .error message =>
          call (.log .error (ascii "Database server couldn't open database:"))
          call (.log .error message)
          call (.log .error (ascii "Database server aborting."))
          exit 0
      | .ok () =>
          let (initialised, db) ← call .init
          if !initialised then
            call (.log .warning (ascii "Database initialized with errors."))
          call (.log .info (ascii "This is database server, waiting for requests..."))
          return .waiting db outFD inFD

end DatabaseServer

def carryOut (fresh : (size : Nat) → Room size) :
    (op : Print Starting) → ServerProgram (Point ⊕ Print.Answer Starting.Answer op)
  | .array size => .ret (.inr (fresh size))
  | .printed _ _ => .ret (.inr ())
  | .own .pipe => call .pipe >>= fun made => .ret (.inr made)
  | .own (.shConnCreate _ _) => shConnCreate >>= fun created => .ret (.inr created)
  | .own .fork => call .fork >>= fun pid => .ret (.inr pid)
  | .own (.execve path args) => do
      if ← call (.execve path args) then
        let point ← DatabaseServer.main args
        return .inl point
      else return .inr ()
  | .own (.logErr message) => call (.log .error message) >>= fun _ => .ret (.inr ())
  | .own (.kill pid) => call (.kill pid) >>= fun _ => .ret (.inr ())
  | .own (.exit status) => exit status
  | .undefined => undefinedStep

/-! `main`. -/

def stopDBServer (dbConn : SharedConn) : ServerProgram Int32 := do
  call .lock
  let writeResult : Bool ← call (.write dbConn.outFD (intBytes messageClose))
  let _ ← shConnDestroy (if writeResult then none else some dbConn)
  return if writeResult then 1 else -1

def shutDown (dbConn : SharedConn) : ServerProgram Unit := do
  if (← stopDBServer dbConn) = -1 then
    call (.log .warning (ascii "Couldn't send shutdown command to database server. Main server shutting down anyway."))
  call (.log .info (ascii "Bye-bye from main server."))

def createForkedServer (dbConn : SharedConn) (c : List Int32) : ServerProgram Point := do
  let pid : Int32 ← call .fork
  if pid < 0 then
    call (.log .warning (ascii "Couldn't create a forked server."))
    return .accepting dbConn
  else if 0 < pid then return .accepting dbConn
  else
    call (.log .info (ascii "Forked server started, listening to client requests."))
    return .serving c

/-- One round of the loop. -/
def accept (dbConn : SharedConn) : ServerProgram Point := do
  match ← call .connAccept with
  | none =>
      call (.log .error (ascii "Error accepting connection. Aborting."))
      shutDown dbConn
      exit 1
  | some c => createForkedServer dbConn c

def main (fresh : (size : Nat) → Room size) (mainServerPID : Int32) (address : Bytes) : ServerProgram Point := do
  match ← (startDBServer mainServerPID).divert (carryOut fresh) with
  | .inl point => return point
  | .inr started =>
      match started.descriptors with
      | none => abort
      | some (outFD, inFD) =>
          if started.result = -1 then abort
          else do
            call (.remove address)
            match ← call .connListen with
            | none =>
                call (.log .error (ascii "Main server couldn't start listening to connections. Aborting."))
                shutDown ⟨outFD, inFD⟩
                exit (-1)
            | some _ =>
                call (.log .info (ascii "Main server started. Listening to connnection requests..."))
                return .accepting ⟨outFD, inFD⟩
where
  abort : ServerProgram Point := do
    call (.log .error (ascii "Main server aborting."))
    exit (-1)

/-! A forked server. -/

def forOneClient (op : Action Local) (_ : Unit) :
    ServerProgram (Action.Answer Local.Answer op × Unit) :=
  call (.forked op) >>= fun answer => .ret (answer, ())

/-- Shutting a socket down leaves its descriptor open. -/
def closeDescriptors : Backend → List Int32 → ServerProgram Unit
  | .sockets, _ => .ret ()
  | .fifos, [] => .ret ()
  | .fifos, fd :: rest => do
      let _ ← call (.close fd)
      closeDescriptors .fifos rest

def serve (backend : Backend) (c : List Int32) : ServerProgram Point := do
  let (done, _) ← (forkedServer backend).handle forOneClient ()
  if done then
    -- what is written to has been opened last and is closed first
    closeDescriptors backend c.reverse
    exit 0
  else return .serving c

def resume (backend : Backend) : Point → ServerProgram Point
  | .accepting dbConn => accept dbConn
  | .serving c => serve backend c
  | .waiting db outFD inFD => DatabaseServer.round db outFD inFD

/-! Descriptors. -/

inductive File
  | reads (pipe : Nat)
  | writes (pipe : Nat)
  | other (number : Nat)
  deriving DecidableEq, Repr

/-- An accepted socket has one descriptor; of a connection through FIFOs there may be none. -/
def gives (backend : Backend) : (op : Op) → op.Answer → Bool
  | .fork, (pid : Int32) => pid ≠ 0
  | .connAccept, some (c : List Int32) => c.length = 1 || backend = .fifos
  | _, _ => true

def opens (number : Nat) : (op : Op) → op.Answer → List (Int32 × File)
  | .pipe, some (made : Pipe) => [(made.read, .reads number), (made.write, .writes number)]
  | .shmOpen, some (fd : Int32) => [(fd, .other number)]
  | .connListen, some (fd : Int32) => [(fd, .other number)]
  | .connAccept, some (c : List Int32) => c.map fun fd => (fd, .other number)
  | _, _ => []

/-- The descriptor of the shared memory, which `execve` closes, stays among those of the database server. -/
def closes : Op → List Int32
  | .close fd => [fd]
  | _ => []

def splits : (op : Op) → op.Answer → Option op.Answer
  | .fork, (pid : Int32) => if 0 < pid then some (0 : Int32) else none
  | _, _ => none

abbrev setting (backend : Backend) (start : List (Int32 × File)) (limit : Nat) :
    Setting Op Op.Answer Point Int32 File where
  resume := resume backend
  start := start
  limit := limit
  gives := gives backend
  opens := opens
  closes := closes
  splits := splits

end Iac.MainServer
