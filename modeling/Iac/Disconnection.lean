import Iac.DatabaseServer
import Iac.EnsureLoops

/-! Peers that go before they have sent all that is waited for: `conn_receive` of
`common/commWithSockets.c`, and one iteration of `server/forkedServer.c` over it. -/

namespace Iac.Piecewise

open CText Inevitable

/-! A message, of which the length comes first. -/

inductive Receive
  | length (loop : Loop)
  | data (loop : Loop)
  deriving DecidableEq, Repr

/-- The length that the peer announces. -/
def Peer.length (peer : Peer) : UInt64 := UInt64.ofNat (fromLittleEndian (peer.stream.take 8))

/-- What comes behind the length. Reading to `NULL` fails where there is anything to read. -/
def Peer.payload (peer : Peer) (malloc : UInt64 → Bool) : Peer :=
  if malloc peer.length || (peer.stream.drop 8).isEmpty then { peer with stream := peer.stream.drop 8 }
  else ⟨[], .failed⟩

inductive Peer.Receives (peer : Peer) (malloc : UInt64 → Bool) : Receive → Receive → Prop
  | length {loop after : Loop} (call : peer.Reading 8 loop after) :
      Receives peer malloc (.length loop) (.length after)
  | malloc {moves : List Move} :
      Receives peer malloc (.length (.returned 1 moves)) (.data (ensureRead peer.length))
  | data {loop after : Loop} (call : (peer.payload malloc).Reading peer.length loop after) :
      Receives peer malloc (.data loop) (.data after)

inductive Receive.Over : Receive → Prop
  | length {moves : List Move} : Over (.length (.returned 0 moves))
  | data {result : Int32} {moves : List Move} : Over (.data (.returned result moves))

def Peer.Received (peer : Peer) (malloc : UInt64 → Bool) : Prop :=
  Inevitably (peer.Receives malloc) Receive.Over (.length (ensureRead 8))

def Peer.Ends (peer : Peer) (bytes : UInt64) : Prop :=
  peer.gone = .failed ∨ enough bytes ≤ peer.stream.length

inductive AlongReceive (peer : Peer) (malloc : UInt64 → Bool) : Nat → Receive → Prop
  | length {count : Nat} {loop : Loop} (along : Along peer 8 count loop) :
      AlongReceive peer malloc ((peer.payload malloc).stream.length + 2 + count) (.length loop)
  | data {count : Nat} {loop : Loop} (held : enough 8 ≤ peer.stream.length)
      (along : Along (peer.payload malloc) peer.length count loop) :
      AlongReceive peer malloc count (.data loop)

section

variable {peer : Peer} {malloc : UInt64 → Bool} {count : Nat} {receive after : Receive}

theorem Along.count_le {bytes : UInt64} {loop : Loop} (along : Along peer bytes count loop) :
    count ≤ peer.stream.length + 1 := by
  cases along with
  | asking => omega
  | complete => omega
  | failed => omega

theorem AlongReceive.next (along : AlongReceive peer malloc count receive)
    (step : peer.Receives malloc receive after) :
    (∃ less, less < count ∧ AlongReceive peer malloc less after) ∨
      AlongReceive peer malloc count after ∧
        (¬peer.Ends 8 ∨ enough 8 ≤ peer.stream.length ∧ ¬(peer.payload malloc).Ends peer.length) := by
  have hangs : ∀ {peer : Peer} {bytes : UInt64}, peer.gone = .closed → peer.stream.length < enough bytes →
      ¬peer.Ends bytes := by
    rintro peer bytes closed short (failed | held)
    · rw [closed] at failed
      contradiction
    · omega
  cases step with
  | length call =>
      cases along with
      | length along =>
          rcases along.next call with ⟨less, fewer, behind⟩ | ⟨closed, short, behind⟩
          · exact .inl ⟨_, Nat.add_lt_add_left fewer _, .length behind⟩
          · exact .inr ⟨.length behind, .inl (hangs closed short)⟩
  | malloc =>
      cases along with
      | length along =>
          cases along with
          | complete held =>
              obtain ⟨less, behind⟩ := ensureRead_along (peer.payload malloc) peer.length
              have most := behind.count_le
              exact .inl ⟨less, by omega, .data held behind⟩
  | data call =>
      cases along with
      | data held along =>
          rcases along.next call with ⟨less, fewer, behind⟩ | ⟨closed, short, behind⟩
          · exact .inl ⟨less, fewer, .data held behind⟩
          · exact .inr ⟨.data held behind, .inr ⟨held, hangs closed short⟩⟩

theorem AlongReceive.goes (along : AlongReceive peer malloc count receive) :
    receive.Over ∨ ∃ after, peer.Receives malloc receive after := by
  cases along with
  | length along =>
      cases along with
      | asking counted within =>
          obtain ⟨after, call⟩ := Along.goes (.asking counted within)
          exact .inr ⟨_, .length call⟩
      | complete => exact .inr ⟨_, .malloc⟩
      | failed => exact .inl .length
  | data held along =>
      cases along with
      | asking counted within =>
          obtain ⟨after, call⟩ := Along.goes (.asking counted within)
          exact .inr ⟨_, .data call⟩
      | complete => exact .inl .data
      | failed => exact .inl .data

theorem Along.ends {bytes : UInt64} {result : Int32} {moves : List Move}
    (along : Along peer bytes count (.returned result moves)) : peer.Ends bytes := by
  cases along with
  | complete held => exact .inr held
  | failed _ gone => exact .inl gone

theorem AlongReceive.over (along : AlongReceive peer malloc count receive) (ended : receive.Over) :
    peer.Ends 8 ∧ (enough 8 ≤ peer.stream.length → (peer.payload malloc).Ends peer.length) := by
  cases ended with
  | length =>
      cases along with
      | length along =>
          refine ⟨along.ends, ?_⟩
          intro held
          cases along with
          | failed short _ => omega
  | data =>
      cases along with
      | data held along => exact ⟨.inr held, fun _ => along.ends⟩

theorem received_iff : peer.Received malloc ↔
    peer.Ends 8 ∧ (enough 8 ≤ peer.stream.length → (peer.payload malloc).Ends peer.length) := by
  obtain ⟨count, along⟩ := ensureRead_along peer 8
  constructor
  · intro received
    by_contra otherwise
    refine @not_inevitably _ _ _ (fun receive => ∃ count, AlongReceive peer malloc count receive) ?_ ?_ _
      ⟨_, .length along⟩ received
    · rintro receive ⟨count, along⟩ ended
      exact otherwise (along.over ended)
    · rintro receive next ⟨count, along⟩ step
      refine ⟨next, step, ?_⟩
      rcases along.next step with ⟨less, _, behind⟩ | ⟨behind, _⟩
      · exact ⟨less, behind⟩
      · exact ⟨count, behind⟩
  · rintro ⟨length, data⟩
    refine @inevitably_of_measure _ _ _ (AlongReceive peer malloc) ?_ ?_ _ _ (.length along)
    · exact fun _ _ along => along.goes
    · intro count receive next along step
      rcases along.next step with less | ⟨_, hangs | ⟨held, hangs⟩⟩
      · exact less
      · exact (hangs length).elim
      · exact (hangs (data held)).elim

end

/-! An iteration of the loop of `forkedServer`. -/

/-- The command, and behind `CMD_PLACE_ORDER` the order. Nothing else of an iteration is read from the client. -/
inductive Iteration
  | command (receive : Receive)
  | order (count : Nat) (receive : Receive)
  | handled
  deriving DecidableEq, Repr

/-- `CMD_PLACE_ORDER` has come as a whole, in a block. -/
structure Peer.Orders (peer : Peer) (malloc : UInt64 → Bool) : Prop where
  granted : malloc peer.length = true
  whole : 8 + enough peer.length ≤ peer.stream.length
  size : 4 ≤ peer.length.toNat
  code : bytesInt ((peer.stream.drop 8).take 4) = cmdPlaceOrder

/-- What is left behind a length and so many bytes. -/
def Peer.behind (peer : Peer) (count : Nat) : Peer := { peer with stream := peer.stream.drop (8 + count) }

/-- A command that has not come as a whole is looked for where `clientData` happens to point, and nothing more
is expected of the iteration then. The second `malloc` may do otherwise than the first. -/
inductive Peer.Iterates (peer : Peer) (malloc again : UInt64 → Bool) : Iteration → Iteration → Prop
  | command {receive after : Receive} (receives : peer.Receives malloc receive after) :
      Iterates peer malloc again (.command receive) (.command after)
  | orders {moves : List Move} (orders : peer.Orders malloc) :
      Iterates peer malloc again (.command (.data (.returned 1 moves))) (.order (moved moves) (.length (ensureRead 8)))
  | handles {receive : Receive} (ended : receive.Over)
      (other : peer.Orders malloc → ∀ moves, receive ≠ .data (.returned 1 moves)) :
      Iterates peer malloc again (.command receive) .handled
  | order {count : Nat} {receive after : Receive} (receives : (peer.behind count).Receives again receive after) :
      Iterates peer malloc again (.order count receive) (.order count after)
  | placed {count : Nat} {receive : Receive} (ended : receive.Over) :
      Iterates peer malloc again (.order count receive) .handled

def Peer.Iterated (peer : Peer) (malloc again : UInt64 → Bool) : Prop :=
  Inevitably (peer.Iterates malloc again) (fun iteration => iteration = .handled) (.command (.length (ensureRead 8)))

/-- So many bytes may be read behind the length: just the length, if an `int` can count that far. -/
def Peer.Brings (peer : Peer) (malloc : UInt64 → Bool) (count : Nat) : Prop :=
  ∃ moves, moved moves = count ∧
    Relation.ReflTransGen ((peer.payload malloc).Reading peer.length) (ensureRead peer.length) (.returned 1 moves)

section

variable {peer : Peer} {malloc again : UInt64 → Bool} {count : Nat} {receive : Receive}

theorem Receive.Over.final (ended : receive.Over) (after : Receive) : ¬peer.Receives malloc receive after := by
  cases ended with
  | length => exact nofun
  | data => exact nofun

theorem iterates_command_iff (going : ¬receive.Over) (next : Iteration) :
    peer.Iterates malloc again (.command receive) next ↔
      ∃ after, peer.Receives malloc receive after ∧ next = .command after := by
  constructor
  · intro step
    cases step with
    | command receives => exact ⟨_, receives, rfl⟩
    | orders => exact absurd .data going
    | handles ended => exact absurd ended going
  · rintro ⟨after, receives, rfl⟩
    exact .command receives

theorem iterates_order_iff (going : ¬receive.Over) (next : Iteration) :
    peer.Iterates malloc again (.order count receive) next ↔
      ∃ after, (peer.behind count).Receives again receive after ∧ next = .order count after := by
  constructor
  · intro step
    cases step with
    | order receives => exact ⟨_, receives, rfl⟩
    | placed ended => exact absurd ended going
  · rintro ⟨after, receives, rfl⟩
    exact .order receives

/-- Of the order nothing is left to do but to receive it. -/
theorem ordered_iff : Inevitably (peer.Iterates malloc again) (fun iteration => iteration = .handled)
    (.order count (.length (ensureRead 8))) ↔ (peer.behind count).Received again := by
  have through := @inevitably_through _ (peer.Iterates malloc again) (fun iteration => iteration = .handled) _
    ((peer.behind count).Receives again) Receive.Over (.order count) nofun
    (fun _ after ended => ended.final after) (fun _ going next => iterates_order_iff going next)
    (.length (ensureRead 8))
  rw [through]
  refine and_iff_left ?_
  intro last _ ended
  refine .later ⟨_, .placed ended⟩ ?_
  intro next step
  cases step with
  | order receives => exact absurd receives (ended.final _)
  | placed => exact .now rfl

/-- Behind the command it depends on what the command is. -/
theorem commanded_iff (ended : receive.Over) :
    Inevitably (peer.Iterates malloc again) (fun iteration => iteration = .handled) (.command receive) ↔
      (peer.Orders malloc → ∀ moves, receive = .data (.returned 1 moves) →
        (peer.behind (moved moves)).Received again) := by
  by_cases placing : peer.Orders malloc ∧ ∃ moves, receive = .data (.returned 1 moves)
  · obtain ⟨orders, moves, rfl⟩ := placing
    have next : Inevitably (peer.Iterates malloc again) (fun iteration => iteration = .handled)
        (.command (.data (.returned 1 moves))) ↔ _ :=
      inevitably_iff_next nofun (.orders orders) (by
        intro other step
        cases step with
        | command receives => exact absurd receives (ended.final _)
        | orders => rfl
        | handles _ others => exact absurd rfl (others orders moves))
    rw [next, ordered_iff]
    constructor
    · rintro received _ other ⟨⟩
      exact received
    · intro every
      exact every orders moves rfl
  · have others : peer.Orders malloc → ∀ moves, receive ≠ .data (.returned 1 moves) :=
      fun orders moves same => placing ⟨orders, moves, same⟩
    refine iff_of_true (.later ⟨_, .handles ended others⟩ ?_) fun orders moves same => absurd same (others orders moves)
    intro next step
    cases step with
    | command receives => exact absurd receives (ended.final _)
    | orders orders => exact absurd rfl (others orders _)
    | handles => exact .now rfl

/-! How much comes with a command. -/

theorem brings_of_received {moves : List Move}
    (run : Relation.ReflTransGen (peer.Receives malloc) (.length (ensureRead 8)) (.data (.returned 1 moves))) :
    peer.Brings malloc (moved moves) := by
  have reads : ∀ receive, Relation.ReflTransGen (peer.Receives malloc) (.length (ensureRead 8)) receive →
      ∀ loop, receive = .data loop → Relation.ReflTransGen ((peer.payload malloc).Reading peer.length)
        (ensureRead peer.length) loop := by
    intro receive run
    induction run with
    | refl => exact nofun
    | tail _ step ih =>
        rintro loop rfl
        cases step with
        | malloc => exact .refl
        | data call => exact (ih _ rfl).tail call
  exact ⟨moves, rfl, reads _ run _ rfl⟩

theorem Peer.Orders.received (orders : peer.Orders malloc) (brings : peer.Brings malloc count) :
    ∃ moves, moved moves = count ∧
      Relation.ReflTransGen (peer.Receives malloc) (.length (ensureRead 8)) (.data (.returned 1 moves)) := by
  obtain ⟨moves, total, run⟩ := brings
  have eight : enough 8 ≤ peer.stream.length := Nat.le_trans (Nat.le_add_right 8 _) orders.whole
  obtain ⟨_, along⟩ := ensureRead_along peer 8
  obtain ⟨last, length, lengthMoves, rfl⟩ := (ensureRead_returns along (.inl eight)).reaches
  rw [if_pos eight] at length
  refine ⟨moves, total, ?_⟩
  have first := length.lift Receive.length fun _ _ call => @Peer.Receives.length peer malloc _ _ call
  have second := run.lift Receive.data fun _ _ call => @Peer.Receives.data peer malloc _ _ call
  exact (first.tail .malloc).trans second

/-- The iteration ends if the command has been received and, behind `CMD_PLACE_ORDER`, the order. -/
theorem iterated_iff : peer.Iterated malloc again ↔ peer.Received malloc ∧
    (peer.Orders malloc → ∀ count, peer.Brings malloc count → (peer.behind count).Received again) := by
  have through := @inevitably_through _ (peer.Iterates malloc again) (fun iteration => iteration = .handled) _
    (peer.Receives malloc) Receive.Over .command nofun
    (fun _ after ended => ended.final after) (fun _ going next => iterates_command_iff going next)
    (.length (ensureRead 8))
  rw [Peer.Iterated, through]
  refine and_congr_right fun _ => ?_
  constructor
  · intro behind orders count brings
    obtain ⟨moves, rfl, run⟩ := orders.received brings
    exact (commanded_iff .data).mp (behind _ run .data) orders moves rfl
  · intro every last run ended
    refine (commanded_iff ended).mpr ?_
    rintro orders moves rfl
    exact every orders _ (brings_of_received run)

/-! As long as an `int` can count it, just what the length tells comes with it. -/

theorem Peer.Orders.payload (orders : peer.Orders malloc) :
    peer.payload malloc = { peer with stream := peer.stream.drop 8 } := by
  rw [Peer.payload, orders.granted]
  rfl

theorem Peer.Orders.held (orders : peer.Orders malloc) :
    enough peer.length ≤ (peer.payload malloc).stream.length := by
  have whole := orders.whole
  rw [orders.payload, List.length_drop]
  omega

/-- Where the stream holds enough there is no end of the file. -/
theorem reads_ordered {bytes : UInt64} {loop : Loop} (small : bytes.toNat < 2 ^ 31)
    (held : enough bytes ≤ peer.stream.length)
    (run : Relation.ReflTransGen (peer.Reading bytes) (ensureRead bytes) loop) :
    (∃ count, Along peer bytes count loop) ∧ Ordered bytes loop := by
  induction run with
  | refl => exact ⟨ensureRead_along peer bytes, ensure_ordered .read bytes⟩
  | tail _ call ih =>
      obtain ⟨⟨count, along⟩, ordered⟩ := ih
      constructor
      · rcases along.next call with ⟨less, _, behind⟩ | ⟨_, _, behind⟩
        · exact ⟨less, behind⟩
        · exact ⟨count, behind⟩
      · refine ordered.next small ?_
        cases call with
        | call given =>
            obtain ⟨counted, _, _⟩ := along.asks
            rw [Peer.answers, if_pos (Nat.lt_of_lt_of_le counted.more held)] at given
            exact .call (.inr given.1)

theorem Peer.Orders.brings_iff (orders : peer.Orders malloc) (small : peer.length.toNat < 2 ^ 31) :
    peer.Brings malloc count ↔ count = peer.length.toNat := by
  have whole : ∀ {moves}, Relation.ReflTransGen ((peer.payload malloc).Reading peer.length)
      (ensureRead peer.length) (.returned 1 moves) → moved moves = peer.length.toNat := by
    intro moves run
    cases (reads_ordered small orders.held run).2 with
    | complete whole => exact whole
  constructor
  · rintro ⟨moves, rfl, run⟩
    exact whole run
  · rintro rfl
    obtain ⟨_, along⟩ := ensureRead_along (peer.payload malloc) peer.length
    obtain ⟨last, run, moves, rfl⟩ := (ensureRead_returns along (.inl orders.held)).reaches
    rw [if_pos orders.held] at run
    exact ⟨moves, whole run, run⟩

theorem iterated_iff_small (small : peer.length.toNat < 2 ^ 31) :
    peer.Iterated malloc again ↔ peer.Received malloc ∧
      (peer.Orders malloc → (peer.behind peer.length.toNat).Received again) := by
  rw [iterated_iff]
  refine and_congr_right fun _ => forall_congr' fun orders => ?_
  simp only [orders.brings_iff small, forall_eq]

end

/-! When the peer has gone. -/

/-- `ensureRead` stops with the right result, and so `conn_receive` stops, and so the iteration of `forkedServer`
that calls it. -/
theorem stops_iff (peer : Peer) (malloc again : UInt64 → Bool) (bytes : UInt64) :
    (peer.Serves bytes ↔ bytes.toNat ≤ peer.stream.length ∨
      peer.gone = .failed ∧ peer.stream.length < enough bytes) ∧
    (peer.Received malloc ↔ peer.Ends 8 ∧
      (8 ≤ peer.stream.length → (peer.payload malloc).Ends peer.length)) ∧
    (peer.Iterated malloc again ↔ peer.Received malloc ∧
      (peer.Orders malloc → ∀ count, peer.Brings malloc count → (peer.behind count).Received again)) ∧
    (peer.length.toNat < 2 ^ 31 → (peer.Iterated malloc again ↔ peer.Received malloc ∧
      (peer.Orders malloc → (peer.behind peer.length.toNat).Received again))) :=
  ⟨serves_iff, received_iff, iterated_iff, iterated_iff_small⟩

def cutOff : Peer := ⟨[12, 0, 0], .closed⟩

theorem cutOff_unserved : ¬cutOff.Serves 8 ∧ ¬cutOff.Received (fun _ => true) ∧
    ¬cutOff.Iterated (fun _ => true) fun _ => true := by
  have lost : ¬cutOff.Received fun _ => true := by
    rw [received_iff]
    rintro ⟨failed | held, _⟩
    · exact absurd failed (by decide)
    · exact absurd held (by decide)
  refine ⟨?_, lost, ?_⟩
  · rw [serves_iff]
    decide
  · rw [iterated_iff]
    exact fun iterated => lost iterated.1

end Iac.Piecewise
