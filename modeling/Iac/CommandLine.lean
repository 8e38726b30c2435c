import Iac.ClientInput

/-! `database/dbCommandLine.c`: the queries that it makes of what is typed in, and what it prints. -/

namespace Iac.CommandLine

open CText Inevitable Lines Client
open Keyboard (getchar store)

abbrev Row := List (Bytes × Option Bytes)

/-- What SQLite does; an error comes with its message. -/
structure Sqlite3 (Db : Type) where
  exec : Db → Bytes → Db × List Row × Option Bytes
  closes : Db → Bool

def printRow (row : Row) : Bytes :=
  row.flatMap (fun (name, data) => name ++ ascii " = " ++ data.getD (ascii "NULL") ++ ascii "\n") ++ ascii "\n"

structure Console (Db : Type) where
  db : Db
  printed : Bytes

def Console.print {Db : Type} (text : Bytes) (console : Console Db) : Console Db :=
  { console with printed := console.printed ++ text }

def result : Option Bytes → Bytes
  | none => ascii "Done.\n"
  | some errorMsg => ascii "SQL error: " ++ errorMsg ++ ascii "\n"

def Console.execute {Db : Type} (sqlite : Sqlite3 Db) (query : Bytes) (console : Console Db) : Console Db :=
  let (db, rows, errorMsg) := sqlite.exec console.db query
  { console.print (ascii "Executing \"" ++ query ++ ascii "\":\n" ++ rows.flatMap printRow ++ result errorMsg) with
    db := db }

/-- In front of the condition of the inner loop, or at the end with a result. -/
inductive Session (Db : Type)
  | reading (query : Block 1024) (i : Nat) (input : Bytes) (console : Console Db)
  | ended (result : Int32) (db : Option Db) (printed : Bytes)

def Console.prompt {Db : Type} : Console Db → Console Db := Console.print (ascii "Enter query or q to exit: ")

def Session.begin {Db : Type} (query : Block 1024) (input : Bytes) (console : Console Db) : Session Db :=
  .reading query 0 input console.prompt

def Console.close {Db : Type} (sqlite : Sqlite3 Db) (console : Console Db) : Session Db :=
  let message := ascii "Couldn't close database handle. Shutting down anyway.\n"
  .ended 0 (some console.db) (if sqlite.closes console.db then console.printed else console.printed ++ message)

/-- Behind the inner loop. -/
def Session.finish {Db : Type} (sqlite : Sqlite3 Db) (query : Block 1024) (i : Nat) (input : Bytes)
    (console : Console Db) : Session Db :=
  let query := store query i 0
  if cstring query.val = ascii "q" then console.close sqlite
  else .begin query input (console.execute sqlite (cstring query.val))

/-- `EOF` as a `char`. -/
def endOfFile : UInt8 := 255

def Session.next {Db : Type} (sqlite : Sqlite3 Db) : Session Db → Option (Session Db)
  | .reading query i input console =>
      if i < 1024 - 1 then
        match getchar input with
        | (some c, input) =>
            if c = newline then some (.finish sqlite query i input console)
            else some (.reading (store query i c) (i + 1) input console)
        | (none, input) => some (.reading (store query i endOfFile) (i + 1) input console)
      else some (.finish sqlite query i input console)
  | .ended _ _ _ => none

/-- The database may be missing because it cannot be opened. -/
def main {Db : Type} (query : Block 1024) (input : Bytes) : Option Db → Session Db
  | none => .ended (-1) none (ascii "Couldn't open database handle. Aborting.\n")
  | some db => .begin query input ⟨db, []⟩

/-! What is executed. -/

/-- A line that is too long for the array is several queries. -/
def lineQueries (line : Bytes) : List Bytes := fullPieces 1023 line ++ [lastPiece 1023 line]

/-- Where nothing more comes, the query is filled up. -/
def lastQueries (line : Bytes) : List Bytes :=
  fullPieces 1023 line ++
    [lastPiece 1023 line ++ List.replicate (1023 - (lastPiece 1023 line).length) endOfFile]

def queries (input : Bytes) : List Bytes :=
  (completeLines newline input).flatMap lineQueries ++ lastQueries ((input.splitOn newline).getLastD [])

def isQuit (query : Bytes) : Prop := cstring query = ascii "q"

instance (query : Bytes) : Decidable (isQuit query) := inferInstanceAs (Decidable (_ = _))

/-- The prompt, a query and its answer, one after another. -/
def Console.answers {Db : Type} (sqlite : Sqlite3 Db) (queries : List Bytes) (console : Console Db) : Console Db :=
  queries.foldl (fun console query => console.prompt.execute sqlite (cstring query)) console

section

variable {Db : Type} {sqlite : Sqlite3 Db}

abbrev Goes (sqlite : Sqlite3 Db) : Session Db → Session Db → Prop :=
  fun session after => session.next sqlite = some after

theorem cstring_store {query : Block 1024} {i : Nat} (within : i < 1024) :
    cstring (store query i 0).val = cstring (query.val.take i) := by
  have split : (store query i 0).val = query.val.take i ++ 0 :: query.val.drop (i + 1) := by
    change query.val.set i 0 = _
    rw [List.set_eq_take_append_cons_drop, if_pos (by rw [query.property]; exact within)]
  by_cases nul : (0 : UInt8) ∈ query.val.take i
  · obtain ⟨rest, same⟩ := terminated_split nul
    rw [split, same, List.append_assoc, List.cons_append, cstring_append_nul (cstring_no_nul _),
      cstring_append_nul (cstring_no_nul _)]
  · rw [split, cstring_append_nul nul, cstring_eq_self nul]

/-! Reading one query. -/

theorem reads_typed {query : Block 1024} {i : Nat} {typed : Bytes} (clean : newline ∉ typed)
    (room : i + typed.length ≤ 1023) (rest : Bytes) (console : Console Db) :
    ∃ array : Block 1024, array.val.take (i + typed.length) = query.val.take i ++ typed ∧
      Relation.ReflTransGen (Goes sqlite) (.reading query i (typed ++ rest) console)
        (.reading array (i + typed.length) rest console) := by
  induction typed generalizing query i with
  | nil => exact ⟨query, (List.append_nil _).symm, .refl⟩
  | cons c typed ih =>
      obtain ⟨different, cleaner⟩ := List.ne_and_not_mem_of_not_mem_cons clean
      rw [List.length_cons] at room
      obtain ⟨array, text, run⟩ := @ih (store query i c) (i + 1) cleaner (by omega)
      have moves : Goes sqlite (.reading query i (c :: typed ++ rest) console)
          (.reading (store query i c) (i + 1) (typed ++ rest) console) := by
        simp only [Goes, Session.next, List.cons_append, getchar, if_neg different.symm]
        rw [if_pos (by omega)]
      rw [Nat.add_assoc, Nat.add_comm 1] at text run
      rw [List.length_cons]
      refine ⟨array, ?_, run.head moves⟩
      rw [text, Keyboard.take_store (by omega), List.append_assoc, List.singleton_append]

theorem reads_endOfFile {query : Block 1024} {i count : Nat} (room : i + count ≤ 1023) (console : Console Db) :
    ∃ array : Block 1024, array.val.take (i + count) = query.val.take i ++ List.replicate count endOfFile ∧
      Relation.ReflTransGen (Goes sqlite) (.reading query i [] console) (.reading array (i + count) [] console) := by
  induction count generalizing query i with
  | zero => exact ⟨query, (List.append_nil _).symm, .refl⟩
  | succ count ih =>
      obtain ⟨array, text, run⟩ := @ih (store query i endOfFile) (i + 1) (by omega)
      have moves : Goes sqlite (.reading query i [] console) (.reading (store query i endOfFile) (i + 1) [] console) := by
        simp only [Goes, Session.next, getchar]
        rw [if_pos (by omega)]
      rw [Nat.add_assoc, Nat.add_comm 1] at text run
      refine ⟨array, ?_, run.head moves⟩
      rw [text, Keyboard.take_store (by omega), List.append_assoc, List.singleton_append, List.replicate_succ]

/-- The loop makes this query of the beginning of the input, whatever the array holds. -/
def Takes (sqlite : Sqlite3 Db) (text input rest : Bytes) : Prop :=
  ∀ (query : Block 1024) (console : Console Db), ∃ array : Block 1024, cstring array.val = cstring text ∧
    Relation.TransGen (Goes sqlite) (.begin query input console)
      (if isQuit text then console.prompt.close sqlite
      else .begin array rest (console.prompt.execute sqlite (cstring text)))

theorem takes_of_reads {text input rest : Bytes}
    (reads : ∀ (query : Block 1024) (console : Console Db), ∃ (array : Block 1024) (i : Nat) (before : Bytes),
      i < 1024 ∧ array.val.take i = text ∧
      Relation.ReflTransGen (Goes sqlite) (.begin query input console) (.reading array i before console.prompt) ∧
      Goes sqlite (.reading array i before console.prompt) (.finish sqlite array i rest console.prompt)) :
    Takes sqlite text input rest := by
  intro query console
  obtain ⟨array, i, before, within, same, run, ends⟩ := reads query console
  have string := @cstring_store array i within
  rw [same] at string
  refine ⟨store array i 0, string, ?_⟩
  simp only [Session.finish, string] at ends
  exact Relation.TransGen.tail' run ends

theorem takes_full {text : Bytes} (clean : newline ∉ text) (full : text.length = 1023) (rest : Bytes) :
    Takes sqlite text (text ++ rest) rest := by
  refine takes_of_reads fun query console => ?_
  obtain ⟨array, same, run⟩ := @reads_typed _ sqlite query 0 text clean (by omega) rest console.prompt
  rw [Nat.zero_add, List.take_zero, List.nil_append] at same
  rw [Nat.zero_add] at run
  refine ⟨array, text.length, rest, by omega, same, run, ?_⟩
  rw [Goes, Session.next, if_neg (by omega)]

theorem takes_short {text : Bytes} (clean : newline ∉ text) (short : text.length < 1023) (rest : Bytes) :
    Takes sqlite text (text ++ newline :: rest) rest := by
  refine takes_of_reads fun query console => ?_
  obtain ⟨array, same, run⟩ := @reads_typed _ sqlite query 0 text clean (by omega) (newline :: rest) console.prompt
  rw [Nat.zero_add, List.take_zero, List.nil_append] at same
  rw [Nat.zero_add] at run
  refine ⟨array, text.length, newline :: rest, by omega, same, run, ?_⟩
  simp only [Goes, Session.next, getchar, ↓reduceIte]
  rw [if_pos (by omega)]

theorem takes_last {text : Bytes} (clean : newline ∉ text) (short : text.length < 1023) :
    Takes sqlite (text ++ List.replicate (1023 - text.length) endOfFile) text [] := by
  refine takes_of_reads fun query console => ?_
  obtain ⟨array, same, run⟩ := @reads_typed _ sqlite query 0 text clean (by omega) [] console.prompt
  obtain ⟨filled, whole, more⟩ :=
    @reads_endOfFile _ sqlite array text.length (1023 - text.length) (by omega) console.prompt
  rw [Nat.zero_add, List.take_zero, List.nil_append] at same
  rw [List.append_nil, Nat.zero_add] at run
  rw [same] at whole
  refine ⟨filled, text.length + (1023 - text.length), [], by omega, whole, run.trans more, ?_⟩
  rw [Goes, Session.next, if_neg (by omega)]

/-! All queries of an input. -/

inductive Offers (sqlite : Sqlite3 Db) : List Bytes → Bytes → Bytes → Prop
  | none (input : Bytes) : Offers sqlite [] input input
  | next {text input middle rest : Bytes} {texts : List Bytes} (takes : Takes sqlite text input middle)
      (more : Offers sqlite texts middle rest) : Offers sqlite (text :: texts) input rest

theorem Offers.append {texts others : List Bytes} {input middle rest : Bytes}
    (first : Offers sqlite texts input middle) (second : Offers sqlite others middle rest) :
    Offers sqlite (texts ++ others) input rest := by
  induction first with
  | none => exact second
  | next takes _ ih => exact .next takes (ih second)

/-- The pieces that fill the array come before what is left. -/
theorem offers_pieces {line behind rest : Bytes} {last : Bytes → Bytes} (clean : newline ∉ line)
    (ends : ∀ piece : Bytes, newline ∉ piece → piece.length < 1023 →
      Takes sqlite (last piece) (piece ++ behind) rest) :
    Offers sqlite (fullPieces 1023 line ++ [last (lastPiece 1023 line)]) (line ++ behind) rest := by
  generalize size : line.length = length
  induction length using Nat.strongRecOn generalizing line with
  | ind length ih =>
      by_cases more : 1023 ≤ line.length
      · have shorter : (line.drop 1023).length < length := by
          rw [List.length_drop]
          omega
        have later := ih _ shorter (fun member => clean (List.mem_of_mem_drop member)) rfl
        have first := @takes_full _ sqlite (line.take 1023) (fun member => clean (List.mem_of_mem_take member))
          (by rw [List.length_take]; omega) (line.drop 1023 ++ behind)
        rw [← List.append_assoc, List.take_append_drop] at first
        rw [fullPieces_more (by decide) more, lastPiece_more (by decide) more]
        exact .next first later
      · have short : line.length < 1023 := Nat.lt_of_not_le more
        rw [fullPieces_short short, lastPiece_short short]
        exact .next (ends line clean short) (.none rest)

theorem offers_queries (input : Bytes) : Offers sqlite (queries input) input [] := by
  induction input using @lines_induction _ newline with
  | tail line clean =>
      have last := @offers_pieces _ sqlite line [] [] (fun piece =>
        piece ++ List.replicate (1023 - piece.length) endOfFile) clean fun piece plain short => by
          rw [List.append_nil]
          exact takes_last plain short
      rw [List.append_nil] at last
      rw [queries, completeLines_tail clean, List.splitOn_eq_singleton clean]
      exact last
  | line line rest clean ih =>
      have first := @offers_pieces _ sqlite line (newline :: rest) rest id clean
        fun piece plain short => takes_short plain short rest
      have later : (List.splitOn newline (line ++ newline :: rest)).getLastD [] =
          (rest.splitOn newline).getLastD [] := by
        rw [List.splitOn_append_cons_self_of_not_mem clean]
        obtain ⟨first, others, shape⟩ := List.exists_cons_of_ne_nil (List.splitOn_ne_nil newline rest)
        rw [shape]
        rfl
      rw [queries, completeLines_line clean, List.flatMap_cons, List.append_assoc, later]
      exact first.append ih

/-- Behind the end, array for array. -/
theorem takes_endOfFile : Takes sqlite (List.replicate 1023 endOfFile) [] [] :=
  @takes_last _ sqlite [] List.not_mem_nil (by decide)

theorem offers_endOfFile (count : Nat) :
    Offers sqlite (List.replicate count (List.replicate 1023 endOfFile)) [] [] := by
  induction count with
  | zero => exact .none []
  | succ count ih => exact .next takes_endOfFile ih

theorem Offers.executes {texts : List Bytes} {input rest : Bytes} (offers : Offers sqlite texts input rest)
    (stays : ∀ text ∈ texts, ¬isQuit text) (query : Block 1024) (console : Console Db) :
    ∃ array : Block 1024, Relation.ReflTransGen (Goes sqlite) (.begin query input console)
      (.begin array rest (console.answers sqlite texts)) := by
  induction offers generalizing query console with
  | none => exact ⟨query, .refl⟩
  | next takes _ ih =>
      obtain ⟨here, behind⟩ := List.forall_mem_cons.mp stays
      obtain ⟨array, _, run⟩ := takes query console
      rw [if_neg here] at run
      obtain ⟨last, later⟩ := ih behind array _
      exact ⟨last, run.to_reflTransGen.trans later⟩

theorem Offers.quits {before behind : List Bytes} {text input rest : Bytes}
    (offers : Offers sqlite (before ++ text :: behind) input rest) (stays : ∀ other ∈ before, ¬isQuit other)
    (quit : isQuit text) (query : Block 1024) (console : Console Db) :
    Relation.ReflTransGen (Goes sqlite) (.begin query input console)
      ((console.answers sqlite before).prompt.close sqlite) := by
  induction before generalizing input query console with
  | nil =>
      cases offers with
      | next takes _ =>
          obtain ⟨array, _, run⟩ := takes query console
          rw [if_pos quit] at run
          exact run.to_reflTransGen
  | cons other before ih =>
      obtain ⟨here, later⟩ := List.forall_mem_cons.mp stays
      cases offers with
      | next takes more =>
          obtain ⟨array, _, run⟩ := takes query console
          rw [if_neg here] at run
          exact run.to_reflTransGen.trans (ih more later array _)

theorem not_isQuit_endOfFile : ¬isQuit (List.replicate 1023 endOfFile) := by
  rw [isQuit, cstring_eq_self fun member => absurd (List.eq_of_mem_replicate member) (by decide)]
  intro same
  have lengths := congrArg List.length same
  rw [List.length_replicate] at lengths
  exact absurd lengths (by decide)

end

/-- The queries up to the first `q` are executed and answered, and then it is over; without one, the
program goes on for ever, with queries that nobody typed once the input has ended. -/
theorem main_answers {Db : Type} (sqlite : Sqlite3 Db) (db : Db) (query : Block 1024) (input : Bytes) :
    (∀ before text behind, queries input = before ++ text :: behind → (∀ other ∈ before, ¬isQuit other) →
      isQuit text → Inevitably (Goes sqlite)
        (fun last => last = ((Console.mk db []).answers sqlite before).prompt.close sqlite)
        (main query input (some db))) ∧
    ((∀ text ∈ queries input, ¬isQuit text) →
      (¬Inevitably (Goes sqlite) (fun last => last.next sqlite = none) (main query input (some db))) ∧
      ∀ count, ∃ array : Block 1024, Relation.ReflTransGen (Goes sqlite) (main query input (some db))
        (.begin array [] ((Console.mk db []).answers sqlite
          (queries input ++ List.replicate count (List.replicate 1023 endOfFile))))) := by
  constructor
  · intro before text behind shape stays quit
    have offers := @offers_queries _ sqlite input
    rw [shape] at offers
    refine inevitably_along ?_ (offers.quits stays quit query ⟨db, []⟩) (.now rfl)
    rintro _ rfl
    rfl
  · intro stays
    have goes_on : ∀ count, ∃ array : Block 1024, Relation.ReflTransGen (Goes sqlite) (main query input (some db))
        (.begin array [] ((Console.mk db []).answers sqlite
          (queries input ++ List.replicate count (List.replicate 1023 endOfFile)))) := by
      intro count
      refine (offers_queries input |>.append (offers_endOfFile count)).executes ?_ query ⟨db, []⟩
      intro text member
      rcases List.mem_append.mp member with typed | filled
      · exact stays text typed
      · rw [List.eq_of_mem_replicate filled]
        exact not_isQuit_endOfFile
    refine ⟨?_, goes_on⟩
    obtain ⟨array, run⟩ := goes_on 0
    refine @not_inevitably_home _ _ _ (fun session => ∃ array console, session = .begin array [] console)
      (fun _ last => last) ?_ _ _ run ⟨_, _, rfl⟩
    rintro _ ⟨array, console, rfl⟩
    obtain ⟨filled, _, run⟩ := @takes_endOfFile _ sqlite array console
    rw [if_neg not_isQuit_endOfFile] at run
    exact ⟨_, ⟨_, _, rfl⟩, run⟩

/-- SQLite with a database that is empty; `SELECT 1` gives one row all the same. -/
def emptyDatabase : Sqlite3 Unit where
  exec _ query :=
    if query = ascii "SELECT 1" then ((), [[(ascii "1", some (ascii "1"))]], none)
    else ((), [], some (ascii "near \"" ++ query ++ ascii "\": syntax error"))
  closes _ := true

def blank : Block 1024 := ⟨List.replicate 1024 32, List.length_replicate⟩

/-- One query and a `q`, and the query alone. -/
theorem main_answers_one :
    Inevitably (Goes emptyDatabase)
      (fun last => last = ((Console.mk () []).answers emptyDatabase [ascii "SELECT 1"]).prompt.close emptyDatabase)
      (main blank (ascii "SELECT 1\nq\n") (some ())) ∧
    ¬Inevitably (Goes emptyDatabase) (fun last => last.next emptyDatabase = none) (main blank (ascii "SELECT 1\n") (some ())) := by
  constructor
  · refine (main_answers emptyDatabase () blank (ascii "SELECT 1\nq\n")).1 [ascii "SELECT 1"] (ascii "q")
      [List.replicate 1023 endOfFile] ?_ ?_ ?_
    · decide +kernel
    · decide +kernel
    · decide +kernel
  · refine ((main_answers emptyDatabase () blank (ascii "SELECT 1\n")).2 ?_).1
    decide +kernel

end Iac.CommandLine
