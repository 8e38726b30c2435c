import Iac.Catalogue
import Iac.Closing
import Iac.Footprint
import Iac.Library.Output

/-! A client from its connection to its end, and what it has sent when SIGINT arrives. -/

namespace Iac

open CText Interaction SharedPipe Program

variable {backend : Backend}

/-! The session. -/

namespace Client

/-- What the user does before submitting: products added by number, each with the amounts typed
in for it, and the lines typed in for the address. -/
structure Visit where
  additions : List (Nat × List Int32)
  typed : Bytes

def addAll (products : List Product) (order : Order) :
    List (Nat × List Int32) → Option (List Product × Order)
  | [] => some (products, order)
  | (index, amounts) :: rest =>
      (addToOrder index products order amounts).bind fun changed => addAll changed.1 changed.2 rest

/-- The menu until the user quits, or an answer ends the loop. -/
def browse (backend : Backend) (products : List Product) (order : Order) : List Visit → ForkedProgram Unit
  | [] => .ret ()
  | visit :: rest =>
      match addAll products order visit.additions with
      | none => undefinedStep
      | some (products, order) =>
          if orderGetNumEntries order = 0 then browse backend products order rest
          else
            match readAddress visit.typed with
            | none => undefinedStep
            | some (address, _) => do
                let (result, order) ← submitOrder backend order address
                if result = 0 then browse backend products order rest
                else return ()

def disconnect (backend : Backend) : ForkedProgram Unit := do
  let _ ← sendInt (intBytes messageClose)
  let _ ← connClose backend

/-- The handler of SIGINT; the process ends with it. -/
def shutDown (backend : Backend) : ForkedProgram Unit := disconnect backend

/-- From the call of `signal` on. -/
def main (backend : Backend) (visits : List Visit) : ForkedProgram Unit := do
  let fetched ← requestProducts backend
  (match fetched with
  | none => .ret ()
  | some (_, products) => browse backend products orderNew visits)
  disconnect backend

end Client

/-! The bytes of a session. -/

inductive Command
  | getProducts
  | placeOrder (serialized : Bytes) (encodes : ∃ order, orderSerialize order = some serialized)

def Command.bytes : Command → Bytes
  | .getProducts => frame (intBytes cmdGetProducts)
  | .placeOrder serialized _ => frame (intBytes cmdPlaceOrder) ++ frame serialized

def goodbye (backend : Backend) : Bytes := frame (intBytes messageClose) ++ (farewell backend).flatMap frame

def sessionBytes (backend : Backend) (commands : List Command) : Bytes :=
  commands.flatMap Command.bytes ++ goodbye backend

def clientOutlet : Outlet (Action Local) (Action.Answer Local.Answer) UInt8 where
  begun
    | .own (.write data) => data
    | _ => []
  works event := ∀ data, event ≠ ⟨.own (.write data), false⟩

/-- With what the handler sends, the bytes are requests and a closing message behind them, and
nothing of that message belongs to a request. -/
def StaysFormed (backend : Backend) (sent : Bytes) : Prop :=
  ∀ closing, Runs moves (Client.shutDown backend) { toPeer := closing } () →
    ∃ (commands : List Command) (rest : Bytes), sent ++ closing =
        commands.flatMap Command.bytes ++ (frame (intBytes messageClose) ++ rest) ∧
      (commands.flatMap Command.bytes).length ≤ sent.length

theorem runs_disconnect {moved : Traffic} {value : Unit} :
    Runs moves (Client.disconnect backend) moved value ↔ moved = { toPeer := goodbye backend } := by
  rw [Client.disconnect, runs_bind_of fun _ _ => runs_sendInt (intBytes_length messageClose)]
  constructor
  · rintro ⟨_, runs, rfl⟩
    obtain ⟨_, _, _, closes, ends, rfl⟩ := runs_bind.mp runs
    obtain ⟨rfl, rfl⟩ := runs_connClose.mp closes
    obtain ⟨rfl, _⟩ := runs_ret.mp ends
    rw [mul_one]
    rfl
  · rintro rfl
    exact ⟨_, runs_bind.mpr ⟨_, true, 1, runs_connClose.mpr ⟨rfl, rfl⟩, .ret _, (mul_one _).symm⟩, rfl⟩

/-! What the parts of the client send. -/

abbrev ClientEmits (allowed : Bytes → Prop) {α : Type} (ends : α → Bytes → Prop)
    (program : ForkedProgram α) (soFar : Bytes) : Prop := Emits clientOutlet allowed ends program soFar

section

variable {allowed : Bytes → Prop} {soFar : Bytes}

theorem listening_begun : ∀ op, isListening op = true → clientOutlet.begun op = [] := by
  intro op listening
  cases op with
  | own op =>
      cases op with
      | write data => contradiction
      | note note => rfl
      | readLength => rfl
      | readData size => rfl
      | readNull => rfl
      | malloc size => rfl
      | uninitialised size => rfl
  | undefined => rfl
  | lock => rfl
  | unlock => rfl
  | recv => rfl
  | send byte => rfl

theorem emits_listening {α : Type} {program : ForkedProgram α} (only : Only isListening program)
    (now : allowed soFar) : ClientEmits allowed (fun _ after => after = soFar) program soFar :=
  emits_silent only listening_begun now

theorem emits_undefined {α : Type} {ends : α → Bytes → Prop} (now : allowed soFar) :
    ClientEmits allowed ends (undefinedStep : ForkedProgram α) soFar := by
  refine .perform ?_ fun never => nomatch never
  intro front begins
  obtain rfl := List.prefix_nil.mp begins
  rw [List.append_nil]
  exact now

theorem emits_write {data : Bytes} (fits : ∀ front, front <+: data → allowed (soFar ++ front)) :
    ClientEmits allowed (fun ok after => ok = true ∧ after = soFar ++ data) (own (.write data)) soFar := by
  refine .perform fits ?_
  intro ok works
  cases ok with
  | false => exact absurd rfl (works data)
  | true => exact .ret ⟨rfl, rfl⟩

theorem emits_connSend {payload : Bytes} (some_bytes : payload ≠ []) (short : payload.length < 2 ^ 31)
    (fits : ∀ front, front <+: frame payload → allowed (soFar ++ front)) :
    ClientEmits allowed (fun ok after => ok = true ∧ after = soFar ++ frame payload)
      (connSend (.block payload) payload.length) soFar := by
  have positive : payload.length ≠ 0 := fun none_left => some_bytes (List.length_eq_zero_iff.mp none_left)
  rw [connSend, if_neg positive]
  refine emits_bind (emits_write fun front begins => fits front (begins.trans (List.prefix_append _ _))) ?_
  rintro _ _ ⟨rfl, rfl⟩
  rw [if_pos rfl, clientWrite, if_pos short, frame, ← List.append_assoc]
  refine emits_write ?_
  intro front begins
  rw [List.append_assoc]
  exact fits _ (List.prefix_append_right_inj _ |>.mpr begins)

theorem emits_sendInt {value : Bytes} (four : value.length = 4)
    (fits : ∀ front, front <+: frame value → allowed (soFar ++ front)) :
    ClientEmits allowed (fun ok after => ok = true ∧ after = soFar ++ frame value) (sendInt value) soFar := by
  refine emits_connSend ?_ (by omega) fits
  rintro rfl
  contradiction

theorem receiveProducts_listens (array : Bool) (count : Nat) :
    Only isListening (Client.receiveProducts backend array count) := by
  induction count with
  | zero => exact .ret []
  | succ count ih =>
      rw [Client.receiveProducts]
      refine only_bind (only_call rfl) fun _ => ?_
      refine only_bind (only_call rfl) fun _ => ?_
      refine only_bind (connReceive_listens _ _) fun received => ?_
      cases received.data with
      | null => exact only_undefined rfl
      | stray => exact only_undefined rfl
      | block contents =>
          dsimp only
          split
          · exact only_bind ih fun _ => .ret _
          · exact only_undefined rfl

theorem emits_requestProducts (fits : ∀ front, front <+: Command.getProducts.bytes → allowed (soFar ++ front)) :
    ClientEmits allowed (fun _ after => after = soFar ++ Command.getProducts.bytes)
      (Client.requestProducts backend) soFar := by
  rw [Client.requestProducts]
  refine emits_bind (emits_sendInt rfl fits) ?_
  rintro _ _ ⟨_, rfl⟩
  refine emits_listening ?_ (fits _ (List.prefix_refl _))
  refine only_bind (only_call rfl) fun _ => ?_
  refine only_bind (connReceive_listens _ _) fun received => ?_
  cases received.data with
  | null => exact only_undefined rfl
  | stray => exact only_undefined rfl
  | block response =>
      dsimp only
      split
      · split
        · exact .ret _
        · refine only_bind (only_call rfl) fun _ => ?_
          exact only_bind (receiveProducts_listens _ _) fun _ => .ret _
      · exact only_undefined rfl

theorem awaitAnswer_listens (order : Order) (buffSize : Bytes) :
    Only isListening (Client.awaitAnswer backend order buffSize) := by
  rw [Client.awaitAnswer]
  refine only_bind (only_call rfl) fun _ => ?_
  refine only_bind (connReceive_listens _ _) fun received => ?_
  split
  · split
    · split
      · rename_i code _
        unfold Client.readAnswer
        split
        · exact .ret _
        · split
          · refine only_bind (connReceive_listens _ _) fun received => ?_
            split
            · split
              · split
                · exact .ret _
                · exact only_undefined rfl
              · exact only_undefined rfl
            · exact .ret _
          · exact .ret _
      · exact only_undefined rfl
    · exact only_undefined rfl
  · exact .ret _

def emptyOrder : Command := .placeOrder ((orderSerialize orderNew).getD []) ⟨orderNew, rfl⟩

theorem emits_submitOrder {order : Order} {address : Bytes}
    (fits : ∀ command front, front <+: Command.bytes command → allowed (soFar ++ front)) :
    ClientEmits allowed (fun _ after => ∃ command, after = soFar ++ Command.bytes command)
      (Client.submitOrder backend order address) soFar := by
  have announced : ∀ front, front <+: frame (intBytes cmdPlaceOrder) → allowed (soFar ++ front) :=
    fun front begins => fits emptyOrder front (begins.trans (List.prefix_append _ _))
  rw [Client.submitOrder]
  refine emits_bind (emits_sendInt rfl announced) ?_
  rintro _ _ ⟨rfl, rfl⟩
  rw [if_pos rfl]
  split
  · rename_i serialized encoded
    have body : soFar ++ frame (intBytes cmdPlaceOrder) ++ frame serialized =
        soFar ++ Command.bytes (.placeOrder serialized ⟨_, encoded⟩) := List.append_assoc _ _ _
    refine emits_bind (emits_connSend (orderSerialize_ne_nil encoded) (orderSerialize_length encoded) ?_) ?_
    · intro front begins
      rw [List.append_assoc]
      exact fits (.placeOrder serialized ⟨_, encoded⟩) _ (List.prefix_append_right_inj _ |>.mpr begins)
    · rintro _ _ ⟨rfl, rfl⟩
      rw [if_pos rfl, body]
      refine emits_mono (emits_listening (awaitAnswer_listens _ _) (fits _ _ (List.prefix_refl _))) ?_
      rintro _ _ rfl
      exact ⟨_, rfl⟩
  · exact emits_undefined (announced _ (List.prefix_refl _))

end

/-! A whole session. -/

def InSession (backend : Backend) (bytes : Bytes) : Prop :=
  ∃ commands, bytes <+: sessionBytes backend commands

theorem inSession_next (commands : List Command) (command : Command) {front : Bytes}
    (begins : front <+: command.bytes) : InSession backend (commands.flatMap Command.bytes ++ front) := by
  refine ⟨commands ++ [command], ?_⟩
  rw [sessionBytes, List.flatMap_append, List.flatMap_singleton, List.append_assoc]
  exact List.prefix_append_right_inj _ |>.mpr (begins.trans (List.prefix_append _ _))

theorem inSession_commands (commands : List Command) :
    InSession backend (commands.flatMap Command.bytes) := ⟨commands, List.prefix_append _ _⟩

def Requests (bytes : Bytes) : Prop := ∃ commands : List Command, bytes = commands.flatMap Command.bytes

theorem emits_browse {products : List Product} {order : Order} {visits : List Client.Visit}
    {soFar : Bytes} (requests : Requests soFar) :
    ClientEmits (InSession backend) (fun _ => Requests) (Client.browse backend products order visits)
      soFar := by
  induction visits generalizing products order soFar with
  | nil => exact .ret requests
  | cons visit rest ih =>
      obtain ⟨commands, rfl⟩ := requests
      have now := @inSession_commands backend commands
      rw [Client.browse]
      split
      · exact emits_undefined now
      · rename_i changed filled _
        split
        · exact ih ⟨commands, rfl⟩
        · split
          · exact emits_undefined now
          · refine emits_bind (emits_submitOrder fun command front => inSession_next commands command) ?_
            rintro ⟨result, replaced⟩ _ ⟨command, rfl⟩
            have more : Requests (commands.flatMap Command.bytes ++ command.bytes) :=
              ⟨commands ++ [command], by rw [List.flatMap_append, List.flatMap_singleton]⟩
            dsimp only
            split
            · exact ih more
            · exact .ret more

theorem emits_disconnect {commands : List Command} :
    ClientEmits (InSession backend) (fun _ after => after = sessionBytes backend commands)
      (Client.disconnect backend) (commands.flatMap Command.bytes) := by
  have fits : ∀ front, front <+: goodbye backend → InSession backend (commands.flatMap Command.bytes ++ front) :=
    fun front begins => ⟨commands, List.prefix_append_right_inj _ |>.mpr begins⟩
  rw [Client.disconnect]
  refine emits_bind (emits_sendInt rfl fun front begins => fits front (begins.trans (List.prefix_append _ _))) ?_
  rintro _ _ ⟨_, rfl⟩
  cases backend with
  | fifos =>
      refine .ret ?_
      rw [sessionBytes, goodbye, farewell, List.flatMap_nil, List.append_nil]
  | sockets =>
      refine emits_bind (emits_sendInt (intBytes_length messageClose) ?_) ?_
      · intro front begins
        rw [List.append_assoc]
        refine fits _ ?_
        rw [goodbye, farewell, List.flatMap_singleton]
        exact List.prefix_append_right_inj _ |>.mpr begins
      · rintro _ _ ⟨_, rfl⟩
        refine .ret ?_
        rw [sessionBytes, goodbye, farewell, List.flatMap_singleton, List.append_assoc]

theorem emits_main (visits : List Client.Visit) :
    ClientEmits (InSession backend) (fun _ after => ∃ commands, after = sessionBytes backend commands)
      (Client.main backend visits) [] := by
  rw [Client.main]
  refine emits_bind (emits_requestProducts fun front => inSession_next [] .getProducts) ?_
  rintro fetched _ rfl
  have requests : Requests ([] ++ Command.getProducts.bytes) :=
    ⟨[.getProducts], (List.flatMap_singleton _ _).symm⟩
  have browses : ClientEmits (InSession backend) (fun _ => Requests) (match fetched with
      | none => .ret ()
      | some (_, products) => Client.browse backend products orderNew visits)
      ([] ++ Command.getProducts.bytes) := by
    cases fetched with
    | none => exact .ret requests
    | some fetched => exact emits_browse requests
  refine emits_bind browses ?_
  rintro _ _ ⟨commands, rfl⟩
  exact emits_mono emits_disconnect fun _ _ same => ⟨commands, same⟩

/-! Requests and closing messages are told apart. -/

def Command.code : Command → Int32
  | .getProducts => cmdGetProducts
  | .placeOrder _ _ => cmdPlaceOrder

def Command.behind : Command → Bytes
  | .getProducts => []
  | .placeOrder serialized _ => frame serialized

theorem Command.bytes_eq (command : Command) : command.bytes = frame (intBytes command.code) ++ command.behind := by
  cases command with
  | getProducts => exact (List.append_nil _).symm
  | placeOrder serialized encodes => rfl

theorem Command.code_ne (command : Command) : intBytes command.code ≠ intBytes messageClose := by
  cases command with
  | getProducts => decide
  | placeOrder serialized encodes =>
      exact (by decide : intBytes cmdPlaceOrder ≠ intBytes messageClose)

theorem first_code {left right : Int32} {x y : Bytes}
    (front : frame (intBytes left) ++ x <+: frame (intBytes right) ++ y) :
    intBytes left = intBytes right ∧ x <+: y :=
  frame_prefix (by rw [intBytes_length]; decide) (by rw [intBytes_length]; decide) front

theorem command_prefix {command other : Command} {x y : Bytes}
    (front : command.bytes ++ x <+: other.bytes ++ y) : command = other ∧ x <+: y := by
  rw [command.bytes_eq, other.bytes_eq, List.append_assoc, List.append_assoc] at front
  obtain ⟨code, behind⟩ := first_code front
  cases command with
  | getProducts =>
      cases other with
      | getProducts => exact ⟨rfl, behind⟩
      | placeOrder serialized encodes =>
          exact absurd code (by decide : intBytes cmdGetProducts ≠ intBytes cmdPlaceOrder)
  | placeOrder serialized encodes =>
      cases other with
      | getProducts => exact absurd code (by decide : intBytes cmdPlaceOrder ≠ intBytes cmdGetProducts)
      | placeOrder other otherEncodes =>
          obtain ⟨_, encoded⟩ := encodes
          obtain ⟨_, otherEncoded⟩ := otherEncodes
          obtain ⟨rfl, rest⟩ := frame_prefix (orderSerialize_length encoded)
            (orderSerialize_length otherEncoded) behind
          exact ⟨rfl, rest⟩

theorem commands_prefix {commands others : List Command}
    (front : commands.flatMap Command.bytes <+: sessionBytes backend others) : commands <+: others := by
  induction commands generalizing others with
  | nil => exact List.nil_prefix
  | cons command rest ih =>
      cases others with
      | nil =>
          rw [List.flatMap_cons, command.bytes_eq, List.append_assoc] at front
          exact absurd (first_code front).1 command.code_ne
      | cons other others =>
          rw [sessionBytes, List.flatMap_cons, List.flatMap_cons, List.append_assoc] at front
          obtain ⟨rfl, behind⟩ := command_prefix front
          exact List.cons_prefix_cons.mpr ⟨rfl, ih behind⟩

/-- A closing message that starts inside another one is not at the end of that one. -/
theorem close_overlap {part more rest : Bytes} (some_bytes : part ≠ [])
    (short : part.length < (frame (intBytes messageClose)).length)
    (same : part ++ (frame (intBytes messageClose) ++ more) = frame (intBytes messageClose) ++ rest) :
    False := by
  have positive := List.length_pos_iff.mpr some_bytes
  have first : (part ++ (frame (intBytes messageClose) ++ more))[part.length]? = some 4 := by
    rw [List.getElem?_append_right (Nat.le_refl _), Nat.sub_self]
    rfl
  have other : ∀ place < (frame (intBytes messageClose)).length, 0 < place →
      (frame (intBytes messageClose))[place]? ≠ some 4 := by decide
  rw [same, List.getElem?_append_left short] at first
  exact other part.length short positive first

/-- The bytes stay well formed if SIGINT comes between two requests, or when the first closing
message of `disconnect` is out already. -/
theorem staysFormed_iff {sent : Bytes} {commands : List Command}
    (front : sent <+: sessionBytes backend commands) :
    StaysFormed backend sent ↔
      (∃ count, sent = (commands.take count).flatMap Command.bytes) ∨
        commands.flatMap Command.bytes ++ frame (intBytes messageClose) <+: sent := by
  constructor
  · intro stays
    obtain ⟨received, rest, same, inside⟩ := stays _ (runs_disconnect.mpr rfl)
    obtain ⟨part, rfl⟩ := List.prefix_of_prefix_length_le ⟨_, same.symm⟩ (List.prefix_append sent _) inside
    have first := commands_prefix ((List.prefix_append _ part).trans front)
    rw [List.append_assoc] at same
    have closing := List.append_cancel_left same
    rw [goodbye] at closing
    by_cases none_left : part = []
    · left
      subst none_left
      rw [List.append_nil]
      exact ⟨received.length, congrArg _ (List.prefix_iff_eq_take.mp first)⟩
    · by_cases short : part.length < (frame (intBytes messageClose)).length
      · exact (close_overlap none_left short closing).elim
      · right
        have whole := List.prefix_of_prefix_length_le ⟨_, closing.symm⟩ (List.prefix_append part _)
          (Nat.le_of_not_lt short)
        obtain ⟨others, rfl⟩ := first
        cases others with
        | nil =>
            rw [List.append_nil]
            exact List.prefix_append_right_inj _ |>.mpr whole
        | cons command others =>
            rw [sessionBytes, List.flatMap_append, List.append_assoc] at front
            have behind := whole.trans (List.prefix_append_right_inj _ |>.mp front)
            rw [List.flatMap_cons, command.bytes_eq, List.append_assoc, List.append_assoc] at behind
            rw [← List.append_nil (frame (intBytes messageClose))] at behind
            exact absurd (first_code behind).1.symm command.code_ne
  · intro between closing closes
    cases runs_disconnect.mp closes
    rcases between with ⟨count, rfl⟩ | ⟨tail, rfl⟩
    · exact ⟨commands.take count, _, rfl, Nat.le_refl _⟩
    · refine ⟨commands, tail ++ goodbye backend, ?_, ?_⟩
      · simp only [List.append_assoc]
      · simp only [List.length_append]
        omega

/-- SIGINT at any point of any session, also in the middle of a call of `write`. -/
theorem interrupted_iff {visits : List Client.Visit} {trace : List ForkedEvent} {op : Action Local}
    {front : Bytes} (plays : Plays (fun _ => true) (Client.main backend visits) trace (.stopped op))
    (works : ∀ event ∈ trace, clientOutlet.works event) (begins : front <+: clientOutlet.begun op) :
    ∃ commands, clientOutlet.output trace ++ front <+: sessionBytes backend commands ∧
      (StaysFormed backend (clientOutlet.output trace ++ front) ↔
        (∃ count, clientOutlet.output trace ++ front = (commands.take count).flatMap Command.bytes) ∨
          commands.flatMap Command.bytes ++ frame (intBytes messageClose) <+:
            clientOutlet.output trace ++ front) := by
  obtain ⟨commands, sent⟩ := emits_interrupted (emits_main visits) plays works begins
  exact ⟨commands, sent, staysFormed_iff sent⟩

def lengthWritten : List ForkedEvent := [⟨.own (.write (sizeBytes 4)), true⟩]

def untilPayload : (op : Action Local) → Option (Action.Answer Local.Answer op)
  | .own (.write data) => if data.length = 8 then some true else none
  | _ => none

theorem lengthWritten_plays : Plays (fun _ => true) (Client.main .sockets []) lengthWritten
    (.stopped (.own (.write (intBytes cmdGetProducts)))) :=
  @play_plays _ _ _ (fun _ => true) untilPayload (fun _ _ => rfl) (Client.main .sockets [])

theorem lengthWritten_works : ∀ event ∈ lengthWritten, clientOutlet.works event := by
  intro event member data failed
  rw [List.mem_singleton.mp member] at failed
  cases failed

theorem interrupted_lengthWritten : ∃ commands, sizeBytes 4 <+: sessionBytes .sockets commands ∧
    (StaysFormed .sockets (sizeBytes 4) ↔
      (∃ count, sizeBytes 4 = (commands.take count).flatMap Command.bytes) ∨
        commands.flatMap Command.bytes ++ frame (intBytes messageClose) <+: sizeBytes 4) :=
  @interrupted_iff .sockets [] lengthWritten (.own (.write (intBytes cmdGetProducts))) []
    lengthWritten_plays lengthWritten_works List.nil_prefix

/-- The forked server takes the length of the closing message for a command to place an order. -/
theorem closing_read_as_order : ∃ trace op,
    Plays (fun _ => true) (Client.main .sockets []) trace (.stopped op) ∧
      (∀ event ∈ trace, clientOutlet.works event) ∧
      ¬StaysFormed .sockets (clientOutlet.output trace) := by
  refine ⟨lengthWritten, _, lengthWritten_plays, lengthWritten_works, ?_⟩
  intro stays
  obtain ⟨commands, rest, same, inside⟩ := stays _ (runs_disconnect.mpr rfl)
  have sent : clientOutlet.output lengthWritten = sizeBytes 4 := rfl
  rw [sent] at same inside
  cases commands with
  | nil => exact close_overlap (by decide) (by decide) same
  | cons command commands =>
      rw [List.flatMap_cons, command.bytes_eq, frame, sizeBytes_length] at inside
      simp only [List.length_append, sizeBytes_length, intBytes_length] at inside
      omega

/-! The other end. -/

/-- What the rounds of the forked server take off the connection until one of them is the last. -/
inductive Hears (backend : Backend) : Bytes → Prop
  | last {moved : Traffic} (runs : Runs moves (forkedServer backend) moved true) :
      Hears backend moved.fromPeer
  | next {moved : Traffic} {rest : Bytes} (runs : Runs moves (forkedServer backend) moved false)
      (later : Hears backend rest) : Hears backend (moved.fromPeer ++ rest)

theorem execute_heard {command : Command} {moved : Traffic} {done : Bool}
    (runs : Runs moves (execute backend command.code) moved done) {tail : Bytes}
    (front : moved.fromPeer <+: command.behind ++ tail) :
    done = false ∧ moved.fromPeer = command.behind := by
  cases command with
  | getProducts =>
      obtain ⟨sends, rfl⟩ := runs_execute_getProducts.mp runs
      obtain ⟨_, _, _, _, _, _, _, rfl⟩ := runs_sendProducts.mp sends
      exact ⟨rfl, rfl⟩
  | placeOrder serialized encodes =>
      obtain ⟨processes, rfl⟩ := runs_execute_placeOrder.mp runs
      obtain ⟨payload, code, rest, short, _, relayed, rfl⟩ := runs_processOrder.mp processes
      obtain ⟨_, encoded⟩ := encodes
      have quiet := relayed.quiet.1
      rw [mul_fromPeer, quiet, List.append_nil] at front ⊢
      rw [← List.append_nil (frame payload)] at front
      obtain ⟨rfl, _⟩ := frame_prefix short (orderSerialize_length encoded) front
      exact ⟨rfl, rfl⟩

theorem runs_execute_close {moved : Traffic} {done : Bool} :
    Runs moves (execute backend messageClose) moved done ↔
      moved = { toPeer := (farewell backend).flatMap frame } ∧ done = true := by
  have noProducts : messageClose ≠ cmdGetProducts := by decide
  have noOrder : messageClose ≠ cmdPlaceOrder := by decide
  have closes : ∀ traffic value, Runs moves (shutDown backend) traffic value ↔
      traffic = { toPeer := (farewell backend).flatMap frame } ∧ value = () := by
    intro traffic value
    cases backend with
    | fifos => exact runs_ret
    | sockets =>
        rw [shutDown, runs_bind_of fun _ _ => runs_sendInt (intBytes_length messageClose)]
        constructor
        · rintro ⟨_, ends, rfl⟩
          obtain ⟨rfl, rfl⟩ := runs_ret.mp ends
          exact ⟨rfl, rfl⟩
        · rintro ⟨rfl, rfl⟩
          exact ⟨1, .ret _, rfl⟩
  unfold execute
  rw [runs_idle fun _ _ => runs_mark, if_neg noProducts, if_neg noOrder, if_pos rfl, runs_bind_of closes]
  constructor
  · rintro ⟨_, ended, rfl⟩
    obtain ⟨rfl, rfl⟩ := runs_ret.mp ended
    rw [mul_one]
    exact ⟨rfl, rfl⟩
  · rintro ⟨rfl, rfl⟩
    exact ⟨1, .ret true, (mul_one _).symm⟩

/-- It executes requests that are well formed, one by one, and the closing message behind them. -/
theorem hears_commands {commands : List Command} {heard tail : Bytes} (hears : Hears backend heard)
    (front : heard <+: commands.flatMap Command.bytes ++ (frame (intBytes messageClose) ++ tail)) :
    heard = commands.flatMap Command.bytes ++ frame (intBytes messageClose) := by
  have command : ∀ code, (intBytes code).take 4 = intBytes code := fun code =>
    List.take_of_length_le (Nat.le_of_eq (intBytes_length code))
  have four : ∀ code : Int32, (intBytes code).length < 2 ^ 31 := fun code => by rw [intBytes_length]; decide
  induction hears generalizing commands with
  | last runs =>
      obtain ⟨clientData, rest, _, short, executes, rfl⟩ := runs_forkedServer.mp runs
      cases commands with
      | nil =>
          obtain ⟨rfl, _⟩ := frame_prefix short (four messageClose) front
          rw [command, bytesInt_intBytes] at executes
          obtain ⟨rfl, _⟩ := runs_execute_close.mp executes
          rw [mul_fromPeer, List.append_nil]
          rfl
      | cons first commands =>
          rw [List.flatMap_cons, first.bytes_eq, List.append_assoc, List.append_assoc] at front
          obtain ⟨rfl, behind⟩ := frame_prefix short (four first.code) front
          rw [command, bytesInt_intBytes] at executes
          have unfinished := (execute_heard executes behind).1
          exact absurd unfinished.symm Bool.false_ne_true
  | @next moved others runs later ih =>
      obtain ⟨clientData, rest, _, short, executes, rfl⟩ := runs_forkedServer.mp runs
      rw [mul_fromPeer, List.append_assoc] at front
      cases commands with
      | nil =>
          obtain ⟨rfl, _⟩ := frame_prefix short (four messageClose) front
          rw [command, bytesInt_intBytes] at executes
          have finished := (runs_execute_close.mp executes).2
          exact absurd finished Bool.false_ne_true
      | cons first commands =>
          rw [List.flatMap_cons, first.bytes_eq, List.append_assoc, List.append_assoc] at front
          obtain ⟨rfl, behind⟩ := frame_prefix short (four first.code) front
          rw [command, bytesInt_intBytes] at executes
          have read := (execute_heard executes ((List.prefix_append _ _).trans behind)).2
          rw [read] at behind
          rw [mul_fromPeer, read, List.flatMap_cons, first.bytes_eq,
            ih (List.prefix_append_right_inj _ |>.mp behind)]
          simp only [List.append_assoc]

end Iac
