import Mathlib.Data.List.Range
import Iac.Library.Inevitable
import Iac.Library.Text

/-! The loops of `ensureRead` and `ensureWrite` in `common/lib.c`, call by call. They count in an
`int`, which wraps around. -/

namespace Iac.Piecewise

open CText Inevitable

/-- An `int` where a `size_t` is expected. -/
def asSize (value : Int32) : Nat := (value.toInt % 2 ^ 64).toNat

inductive Syscall
  | read
  | write
  deriving DecidableEq, Repr

/-- What a call was for: where in the memory, how many bytes at most, and how many it moved. -/
structure Move where
  call : Syscall
  offset : Int
  size : Nat
  count : Nat
  deriving DecidableEq, Repr

inductive Loop
  | asking (call : Syscall) (counter : Int32) (moves : List Move)
  | returned (result : Int32) (moves : List Move)
  deriving DecidableEq, Repr

def resume (call : Syscall) (bytes : UInt64) (counter : Int32) (moves : List Move) : Loop :=
  if asSize counter < bytes.toNat then .asking call counter moves else .returned 1 moves

def ensure (call : Syscall) (bytes : UInt64) : Loop :=
  if bytes = 0 then .returned 1 [] else resume call bytes 0 []

def ensureRead (bytes : UInt64) : Loop := ensure .read bytes

def ensureWrite (bytes : UInt64) : Loop := ensure .write bytes

def Loop.answer (bytes : UInt64) (result : Int32) : Loop → Loop
  | .asking call counter moves =>
      if result = -1 then .returned 0 moves
      else
        let move := ⟨call, counter.toInt, bytes.toNat - asSize counter, result.toInt.toNat⟩
        resume call bytes (counter + result) (moves ++ [move])
  | .returned result moves => .returned result moves

def moved (moves : List Move) : Nat := (moves.map Move.count).sum

/-- A call, where the answers may depend on what has been moved and on what is asked for. -/
inductive Calls (answers : Nat → Nat → Int32 → Prop) (bytes : UInt64) : Loop → Loop → Prop
  | call {call : Syscall} {counter : Int32} {moves : List Move} {result : Int32}
      (given : answers (moved moves) (bytes.toNat - asSize counter) result) :
      Calls answers bytes (.asking call counter moves)
        ((Loop.asking call counter moves).answer bytes result)

/-- The most that one `read` or `write` moves. -/
def transferLimit : Nat := 2 ^ 31 - 4096

/-- A call that succeeds moves one byte or more. -/
def Succeeds (size : Nat) (result : Int32) : Prop :=
  1 ≤ result.toInt ∧ result.toInt ≤ min (size : Int) transferLimit

/-! What the counter stands for. -/

/-- Where the loop ends, by the conversion of the counter. -/
def enough (bytes : UInt64) : Nat :=
  if bytes.toNat < 2 ^ 31 then bytes.toNat
  else if bytes.toNat ≤ 2 ^ 64 - 2 ^ 31 then 2 ^ 31
  else bytes.toNat - (2 ^ 64 - 2 ^ 32)

section

variable {bytes : UInt64}

theorem enough_le : enough bytes ≤ bytes.toNat := by
  unfold enough
  split
  · exact Nat.le_refl _
  · split
    · omega
    · omega

theorem enough_small (small : bytes.toNat < 2 ^ 31) : enough bytes = bytes.toNat := if_pos small

theorem enough_large (large : 2 ^ 31 ≤ bytes.toNat) : 2 ^ 31 ≤ enough bytes := by
  unfold enough
  split
  · omega
  · split
    · exact Nat.le_refl _
    · omega

theorem enough_lt : enough bytes < 2 ^ 32 := by
  have upper := bytes.toNat_lt
  unfold enough
  split
  · omega
  · split
    · omega
    · omega

theorem toInt_counter {count : Nat} (bound : count < 2 ^ 32) :
    (Int32.ofNat count).toInt = if count < 2 ^ 31 then (count : Int) else count - 2 ^ 32 := by
  have size : Int32.size = 2 ^ 32 := rfl
  rw [Int32.toInt_ofNat', size]
  split
  · exact Int.bmod_eq_of_le (by omega) (by omega)
  · rw [Int.bmod_def]
    omega

/-- From 2^31 on the counter is negative, and larger than most lengths. -/
theorem asSize_counter {count : Nat} (bound : count < 2 ^ 32) :
    asSize (Int32.ofNat count) = if count < 2 ^ 31 then count else 2 ^ 64 - 2 ^ 32 + count := by
  rw [asSize, toInt_counter bound]
  split
  · omega
  · omega

theorem asks_iff {count : Nat} (bound : count < 2 ^ 32) :
    asSize (Int32.ofNat count) < bytes.toNat ↔ count < enough bytes := by
  have upper := bytes.toNat_lt
  rw [asSize_counter bound, enough]
  split
  · split
    · omega
    · split
      · omega
      · omega
  · split
    · omega
    · split
      · omega
      · omega

end

/-! One call. -/

structure Counted (bytes : UInt64) (counter : Int32) (moves : List Move) : Prop where
  counter : counter = Int32.ofNat (moved moves)
  more : moved moves < enough bytes

section

variable {call : Syscall} {bytes : UInt64} {counter result : Int32} {moves : List Move}

theorem moved_concat (move : Move) : moved (moves ++ [move]) = moved moves + move.count := by
  rw [moved, List.map_append, List.sum_append, List.map_singleton, List.sum_singleton, moved]

theorem resume_spec (call : Syscall) (counted : counter = Int32.ofNat (moved moves)) (bound : moved moves < 2 ^ 32) :
    resume call bytes counter moves = .asking call counter moves ∧ Counted bytes counter moves ∨
      resume call bytes counter moves = .returned 1 moves ∧ enough bytes ≤ moved moves := by
  subst counted
  have condition := @asks_iff bytes _ bound
  unfold resume
  by_cases more : moved moves < enough bytes
  · rw [if_pos (condition.mpr more)]
    exact .inl ⟨rfl, rfl, more⟩
  · rw [if_neg (mt condition.mp more)]
    exact .inr ⟨rfl, Nat.not_lt.mp more⟩

theorem ensure_spec (call : Syscall) (bytes : UInt64) :
    ensure call bytes = .asking call 0 [] ∧ Counted bytes 0 [] ∨
      ensure call bytes = .returned 1 [] ∧ enough bytes = 0 := by
  unfold ensure
  by_cases none_asked : bytes = 0
  · rw [if_pos none_asked]
    refine .inr ⟨rfl, ?_⟩
    rw [none_asked]
    rfl
  · rw [if_neg none_asked]
    have start : (0 : Int32) = Int32.ofNat (moved []) := rfl
    rcases @resume_spec bytes 0 [] call start (by decide) with ⟨asks, counted⟩ | ⟨ends, less⟩
    · exact .inl ⟨asks, counted⟩
    · exact .inr ⟨ends, Nat.le_zero.mp less⟩

def Move.next (call : Syscall) (bytes : UInt64) (counter result : Int32) : Move :=
  ⟨call, counter.toInt, bytes.toNat - asSize counter, result.toInt.toNat⟩

theorem answer_failed : (Loop.asking call counter moves).answer bytes (-1) = .returned 0 moves := by
  rw [Loop.answer, if_pos rfl]

theorem answer_spec (call : Syscall) (counted : Counted bytes counter moves)
    (succeeds : Succeeds (bytes.toNat - asSize counter) result) :
    let after := moves ++ [Move.next call bytes counter result]
    (Loop.asking call counter moves).answer bytes result = resume call bytes (counter + result) after ∧
      counter + result = Int32.ofNat (moved after) ∧ moved after < 2 ^ 32 ∧
      (bytes.toNat < 2 ^ 31 → moved after ≤ bytes.toNat) := by
  intro after
  obtain ⟨positive, most⟩ := succeeds
  have limit : transferLimit = 2 ^ 31 - 4096 := rfl
  have upper := bytes.toNat_lt
  obtain ⟨same, more⟩ := counted
  have bound := @enough_lt bytes
  have size := @asSize_counter (moved moves) (Nat.lt_trans more bound)
  rw [← same] at size
  have total : moved after = moved moves + result.toInt.toNat := moved_concat _
  refine ⟨?_, ?_, ?_, ?_⟩
  · have other : result ≠ -1 := by
      rintro rfl
      exact absurd positive (by decide)
    exact if_neg other
  · have count : result = Int32.ofNat result.toInt.toNat := by
      rw [← Int32.toInt_inj, Int32.toInt_ofNat_of_lt (by omega)]
      omega
    rw [total, Int32.ofNat_add, ← same, ← count]
  · rw [total]
    split at size
    · omega
    · omega
  · intro small
    rw [enough_small small] at more
    rw [total]
    split at size
    · omega
    · omega

end

/-! Any results. -/

def anyResult (_ size : Nat) (result : Int32) : Prop := result = -1 ∨ Succeeds size result

def Move.positions (move : Move) : List Int := (List.range move.count).map fun i : Nat => move.offset + i

/-- Each byte has been moved from or to its own place, one after the other, and the counter has
never been too small for them. -/
structure InOrder (moves : List Move) : Prop where
  positions : moves.flatMap Move.positions = (List.range (moved moves)).map Int.ofNat
  unwrapped : ∀ move ∈ moves, 0 ≤ move.offset ∧ move.offset + move.count < 2 ^ 31

def Completes (bytes : UInt64) (start : Loop) : Prop :=
  ∀ moves, Relation.ReflTransGen (Calls anyResult bytes) start (.returned 1 moves) →
    moved moves = bytes.toNat ∧ InOrder moves

inductive Ordered (bytes : UInt64) : Loop → Prop
  | asking {call : Syscall} {counter : Int32} {moves : List Move} (counted : Counted bytes counter moves)
      (order : InOrder moves) : Ordered bytes (.asking call counter moves)
  | failed {moves : List Move} : Ordered bytes (.returned 0 moves)
  | complete {moves : List Move} (whole : moved moves = bytes.toNat) (order : InOrder moves) :
      Ordered bytes (.returned 1 moves)

section

variable {call : Syscall} {bytes : UInt64} {counter result : Int32} {moves : List Move}

theorem inOrder_nil : InOrder [] := ⟨rfl, fun _ member => absurd member List.not_mem_nil⟩

theorem InOrder.next (order : InOrder moves) (counted : Counted bytes counter moves)
    (small : bytes.toNat < 2 ^ 31)
    (inside : moved (moves ++ [Move.next call bytes counter result]) ≤ bytes.toNat) :
    InOrder (moves ++ [Move.next call bytes counter result]) := by
  have more := counted.more
  rw [enough_small small] at more
  have offset : counter.toInt = moved moves := by
    rw [counted.counter, toInt_counter (by omega), if_pos (by omega)]
  rw [moved_concat] at inside
  dsimp only [Move.next] at inside
  constructor
  · rw [moved_concat, List.flatMap_append, order.positions, List.flatMap_singleton, List.range_add,
      List.map_append, List.map_map, Move.positions, Move.next, offset]
    rfl
  · intro move member
    rcases List.mem_append.mp member with old | new
    · exact order.unwrapped move old
    · rw [List.mem_singleton.mp new, Move.next]
      dsimp only
      omega

theorem ensure_ordered (call : Syscall) (bytes : UInt64) : Ordered bytes (ensure call bytes) := by
  rcases ensure_spec call bytes with ⟨asks, counted⟩ | ⟨ends, nothing⟩
  · rw [asks]
    exact .asking counted inOrder_nil
  · rw [ends]
    refine .complete ?_ inOrder_nil
    have least : bytes.toNat < 2 ^ 31 := by
      by_contra large
      have some_bytes := enough_large (Nat.not_lt.mp large)
      omega
    rw [enough_small least] at nothing
    exact nothing.symm

theorem Ordered.next {loop after : Loop} (ordered : Ordered bytes loop) (small : bytes.toNat < 2 ^ 31)
    (step : Calls anyResult bytes loop after) :
    Ordered bytes after := by
  cases step with
  | @call call counter moves result given =>
      cases ordered with
      | asking counted order =>
          rcases given with rfl | succeeds
          · rw [answer_failed]
            exact .failed
          · obtain ⟨answers, counts, bound, inside⟩ := answer_spec call counted succeeds
            have next := order.next counted small (inside small)
            rw [answers]
            rcases resume_spec call counts bound with ⟨asks, more⟩ | ⟨ends, less⟩
            · rw [asks]
              exact .asking more next
            · rw [ends]
              rw [enough_small small] at less
              exact .complete (Nat.le_antisymm (inside small) less) next

theorem completes_of_small (call : Syscall) (small : bytes.toNat < 2 ^ 31) :
    Completes bytes (ensure call bytes) := by
  intro moves run
  have ordered : Ordered bytes (.returned 1 moves) := by
    generalize Loop.returned 1 moves = last at run
    induction run with
    | refl => exact ensure_ordered call bytes
    | tail _ step ih => exact ih.next small step
  cases ordered with
  | complete whole order => exact ⟨whole, order⟩

/-- The last byte is then at a place that no `int` counts up to. -/
theorem large_not_inOrder (large : 2 ^ 31 ≤ bytes.toNat) (whole : moved moves = bytes.toNat) :
    ¬InOrder moves := by
  intro order
  have last : ((bytes.toNat - 1 : Nat) : Int) ∈ (List.range (moved moves)).map Int.ofNat :=
    List.mem_map.mpr ⟨_, List.mem_range.mpr (by omega), rfl⟩
  rw [← order.positions] at last
  obtain ⟨move, member, inside⟩ := List.mem_flatMap.mp last
  obtain ⟨i, within, same⟩ := List.mem_map.mp inside
  have within := List.mem_range.mp within
  have unwrapped := order.unwrapped move member
  omega

end

/-! A peer that sends a stream and then goes. -/

/-- What `read` tells when nothing is left: the end of the file, or an error. -/
inductive Gone
  | closed
  | failed
  deriving DecidableEq, Repr

def Gone.result : Gone → Int32
  | .closed => 0
  | .failed => -1

structure Peer where
  stream : Bytes
  gone : Gone

/-- Anything that is left may come in a piece. -/
def Peer.answers (peer : Peer) (read size : Nat) (result : Int32) : Prop :=
  if read < peer.stream.length then
    Succeeds size result ∧ result.toInt ≤ (peer.stream.length - read : Nat)
  else result = peer.gone.result

abbrev Peer.Reading (peer : Peer) (bytes : UInt64) : Loop → Loop → Prop := Calls peer.answers bytes

/-- The result is there after finitely many calls, and tells whether the stream held enough. -/
def Peer.Serves (peer : Peer) (bytes : UInt64) : Prop :=
  Inevitably (peer.Reading bytes)
    (fun loop => ∃ moves, loop = .returned (if bytes.toNat ≤ peer.stream.length then 1 else 0) moves)
    (ensureRead bytes)

/-- Where a loop can be while it reads, with a number that becomes smaller. -/
inductive Along (peer : Peer) (bytes : UInt64) : Nat → Loop → Prop
  | asking {call : Syscall} {counter : Int32} {moves : List Move} (counted : Counted bytes counter moves)
      (within : moved moves ≤ peer.stream.length) :
      Along peer bytes (peer.stream.length + 1 - moved moves) (.asking call counter moves)
  | complete {moves : List Move} (held : enough bytes ≤ peer.stream.length) :
      Along peer bytes 0 (.returned 1 moves)
  | failed {moves : List Move} (short : peer.stream.length < enough bytes) (gone : peer.gone = .failed) :
      Along peer bytes 0 (.returned 0 moves)

section

variable {peer : Peer} {bytes : UInt64} {count : Nat} {loop after : Loop}

theorem ensureRead_along (peer : Peer) (bytes : UInt64) :
    ∃ count, Along peer bytes count (ensureRead bytes) := by
  rcases ensure_spec .read bytes with ⟨asks, counted⟩ | ⟨ends, nothing⟩
  · rw [ensureRead, asks]
    exact ⟨_, .asking counted (Nat.zero_le _)⟩
  · rw [ensureRead, ends]
    exact ⟨_, .complete (nothing ▸ Nat.zero_le _)⟩

theorem Along.asks {call : Syscall} {counter : Int32} {moves : List Move}
    (along : Along peer bytes count (.asking call counter moves)) :
    Counted bytes counter moves ∧ moved moves ≤ peer.stream.length ∧
      count = peer.stream.length + 1 - moved moves := by
  cases along with
  | asking counted within => exact ⟨counted, within, rfl⟩

/-- Each call but those after the end of the file comes nearer to the end of the loop. -/
theorem Along.next (along : Along peer bytes count loop) (step : peer.Reading bytes loop after) :
    (∃ less, less < count ∧ Along peer bytes less after) ∨
      peer.gone = .closed ∧ peer.stream.length < enough bytes ∧ Along peer bytes count after := by
  cases step with
  | @call call counter moves result given =>
      obtain ⟨counted, within, rfl⟩ := along.asks
      unfold Peer.answers at given
      split at given
      · rename_i left
        obtain ⟨succeeds, some_left⟩ := given
        have positive := succeeds.1
        obtain ⟨answers, counts, bound, _⟩ := answer_spec call counted succeeds
        have total := @moved_concat moves (Move.next call bytes counter result)
        dsimp only [Move.next] at total
        rw [answers]
        have inside : moved (moves ++ [Move.next call bytes counter result]) ≤ peer.stream.length := by
          dsimp only [Move.next]
          omega
        rcases resume_spec call counts bound with ⟨asks, more⟩ | ⟨ends, less⟩
        · rw [asks]
          refine .inl ⟨_, ?_, .asking more inside⟩
          dsimp only [Move.next]
          omega
        · rw [ends]
          exact .inl ⟨0, by omega, .complete (Nat.le_trans less inside)⟩
      · rename_i none_left
        have short := Nat.lt_of_le_of_lt (Nat.not_lt.mp none_left) counted.more
        cases gone : peer.gone with
        | failed =>
            rw [gone] at given
            rw [given, Gone.result, answer_failed]
            exact .inl ⟨0, by omega, .failed short gone⟩
        | closed =>
            rw [gone] at given
            subst given
            have same : moved (moves ++ [Move.next call bytes counter Gone.closed.result]) = moved moves :=
              moved_concat _
            have counts : counter + Gone.closed.result =
                Int32.ofNat (moved (moves ++ [Move.next call bytes counter Gone.closed.result])) := by
              rw [same, ← counted.counter, Gone.result, Int32.add_zero]
            have bound := Nat.lt_trans counted.more (@enough_lt bytes)
            refine .inr ⟨rfl, short, ?_⟩
            rcases @resume_spec bytes _ _ call counts (same ▸ bound) with ⟨asks, more⟩ | ⟨_, less⟩
            · have step : (Loop.asking call counter moves).answer bytes Gone.closed.result = _ := asks
              rw [step, ← same]
              exact .asking more (same ▸ within)
            · have more := counted.more
              omega

theorem Along.goes {call : Syscall} {counter : Int32} {moves : List Move}
    (along : Along peer bytes count (.asking call counter moves)) :
    ∃ after, peer.Reading bytes (.asking call counter moves) after := by
  obtain ⟨counted, _, _⟩ := along.asks
  by_cases left : moved moves < peer.stream.length
  · have bound := Nat.lt_trans counted.more (@enough_lt bytes)
    have size := @asSize_counter (moved moves) bound
    have asks := (@asks_iff bytes _ bound).mpr counted.more
    rw [← counted.counter] at size asks
    have limit : transferLimit = 2 ^ 31 - 4096 := rfl
    have one : (1 : Int32).toInt = 1 := by decide
    refine ⟨_, @Calls.call _ _ _ _ _ 1 ?_⟩
    rw [Peer.answers, if_pos left, Succeeds, one]
    omega
  · refine ⟨_, @Calls.call _ _ _ _ _ peer.gone.result ?_⟩
    rw [Peer.answers, if_neg left]

theorem Along.never {goal : Loop → Prop} (along : Along peer bytes count loop)
    (apart : ∀ count loop, Along peer bytes count loop → ¬goal loop) :
    ¬Inevitably (peer.Reading bytes) goal loop := by
  refine @not_inevitably _ _ _ (fun loop => ∃ count, Along peer bytes count loop) ?_ ?_ _ ⟨count, along⟩
  · rintro loop ⟨count, along⟩
    exact apart count loop along
  · rintro loop next ⟨count, along⟩ step
    refine ⟨next, step, ?_⟩
    rcases along.next step with ⟨less, _, behind⟩ | ⟨_, _, behind⟩
    · exact ⟨less, behind⟩
    · exact ⟨count, behind⟩

theorem ensureRead_returns (along : Along peer bytes count loop)
    (ends : enough bytes ≤ peer.stream.length ∨ peer.gone = .failed) :
    Inevitably (peer.Reading bytes)
      (fun loop => ∃ moves,
        loop = .returned (if enough bytes ≤ peer.stream.length then 1 else 0) moves) loop := by
  refine @inevitably_of_measure _ _ _ (Along peer bytes) ?_ ?_ count loop along
  · intro count loop along
    cases along with
    | asking counted within => exact .inr (Along.goes (.asking counted within))
    | complete held =>
        rw [if_pos held]
        exact .inl ⟨_, rfl⟩
    | failed short _ =>
        rw [if_neg (Nat.not_le.mpr short)]
        exact .inl ⟨_, rfl⟩
  · intro count loop next along step
    rcases along.next step with less | ⟨closed, short, _⟩
    · exact less
    · rcases ends with held | failed
      · omega
      · rw [closed] at failed
        contradiction

/-- The loop ends just as it should where the stream holds enough, or where an error ends it
before the counter does. -/
theorem serves_iff : peer.Serves bytes ↔ bytes.toNat ≤ peer.stream.length ∨
    peer.gone = .failed ∧ peer.stream.length < enough bytes := by
  obtain ⟨count, along⟩ := ensureRead_along peer bytes
  have least := @enough_le bytes
  constructor
  · intro serves
    by_contra otherwise
    obtain ⟨lacks, wrong⟩ := not_or.mp otherwise
    refine along.never ?_ serves
    rintro count loop along ⟨moves, rfl⟩
    rw [if_neg lacks] at along
    cases along with
    | failed short gone => exact wrong ⟨gone, short⟩
  · intro ends
    have returns := ensureRead_returns along (ends.imp (Nat.le_trans least) And.left)
    have same : (enough bytes ≤ peer.stream.length) = (bytes.toNat ≤ peer.stream.length) := by
      apply propext
      omega
    rw [Peer.Serves]
    simpa only [same] using returns

end

/-! Everything that is asked for. -/

theorem ensureRead_reaches (bytes : UInt64) : ∃ moves,
    Relation.ReflTransGen (Calls anyResult bytes) (ensureRead bytes) (.returned 1 moves) := by
  obtain ⟨count, along⟩ := ensureRead_along ⟨List.replicate (enough bytes) 0, .failed⟩ bytes
  have held : enough bytes ≤ (List.replicate (enough bytes) (0 : UInt8)).length := by
    rw [List.length_replicate]
  obtain ⟨last, run, moves, rfl⟩ := (ensureRead_returns along (.inl held)).reaches
  rw [if_pos held] at run
  refine ⟨moves, Relation.ReflTransGen.mono ?_ _ _ run⟩
  rintro loop after ⟨given⟩
  refine .call ?_
  unfold Peer.answers at given
  split at given
  · exact .inr given.1
  · exact .inl given

/-- A loop is right about what it has moved just where the counter can count that far. -/
theorem completes_iff (bytes : UInt64) :
    Completes bytes (ensureRead bytes) ∧ Completes bytes (ensureWrite bytes) ↔ bytes.toNat < 2 ^ 31 := by
  constructor
  · rintro ⟨reads, _⟩
    by_contra large
    obtain ⟨moves, run⟩ := ensureRead_reaches bytes
    obtain ⟨whole, order⟩ := reads moves run
    exact large_not_inOrder (Nat.not_lt.mp large) whole order
  · intro small
    exact ⟨completes_of_small .read small, completes_of_small .write small⟩

/-- Two calls of the largest size, and the counter is negative; the last 8191 bytes of a length of
four bytes are not read. -/
theorem largest_incomplete : ¬Completes 4294967295 (ensureRead 4294967295) := by
  intro completes
  let first : Move := ⟨.read, 0, 4294967295, 2147479552⟩
  let second : Move := ⟨.read, 2147479552, 2147487743, 2147479552⟩
  have one : (Loop.asking .read 0 []).answer 4294967295 2147479552 =
      .asking .read 2147479552 [first] := by decide
  have two : (Loop.asking .read 2147479552 [first]).answer 4294967295 2147479552 =
      .returned 1 [first, second] := by decide
  have start : ensureRead 4294967295 = .asking .read 0 [] := by decide
  have step : Calls anyResult 4294967295 (.asking .read 0 []) (.asking .read 2147479552 [first]) := by
    rw [← one]
    exact .call (.inr (by unfold Succeeds; decide))
  have last : Calls anyResult 4294967295 (.asking .read 2147479552 [first])
      (.returned 1 [first, second]) := by
    rw [← two]
    exact .call (.inr (by unfold Succeeds; decide))
  have run := (Relation.ReflTransGen.single step).tail last
  rw [← start] at run
  exact absurd (completes _ run).1 (by decide)

end Iac.Piecewise
