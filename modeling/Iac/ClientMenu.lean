import Iac.ClientInput
import Iac.Interruption
import Iac.SharedConnection

/-! The menu of `client/client.c` as it is typed at the keyboard. What is typed decides how often
each loop is passed; nothing comes of it that the user of the visits could not do. -/

namespace Iac.Keyboard

open CText Interaction Lines SharedPipe

/-! Numbers. -/

/-- The two loops of `scanInt`; without a complete line they never end. -/
def scanIntRounds : Nat → Bytes → Option (Int × Bytes)
  | 0, _ => none
  | rounds + 1, input =>
      let (result, input) := scanf input
      (Client.consumeRest input).bind fun input =>
        match result with
        | some result => some (result, input)
        | none => scanIntRounds rounds input

def asInt (number : Int) : Option Int32 :=
  if -2 ^ 31 ≤ number ∧ number < 2 ^ 31 then some (Int32.ofInt number) else none

/-- There is no result where none comes, or where the number is no `int`. -/
def scanInt (input : Bytes) : Option (Int32 × Bytes) :=
  (scanIntRounds (input.length + 1) input).bind fun (number, input) =>
    (asInt number).map fun result => (result, input)

/-- The loops that ask for a number again until it is accepted. -/
def askRounds (accepted : Int32 → Bool) : Nat → Bytes → Option (Int32 × Bytes)
  | 0, _ => none
  | rounds + 1, input =>
      (scanInt input).bind fun (number, input) =>
        if accepted number then some (number, input) else askRounds accepted rounds input

def ask (accepted : Int32 → Bool) (input : Bytes) : Option (Int32 × Bytes) :=
  askRounds accepted (input.length + 1) input

/-- `0` is accepted too, to cancel. -/
def chooseProduct (numProducts : Int32) : Bytes → Option (Int32 × Bytes) :=
  ask fun option => !(option < 0 || numProducts < option)

def addToOrder (index : Nat) (products : List Product) (order : Order) (input : Bytes) :
    Option (List Product × Order × Bytes) :=
  products[index]?.bind fun product =>
    (ask (fun num => !(num < 0 || product.stock < num)) input).bind fun (num, input) =>
      (Client.addToOrder index products order [num]).map fun (products, order) =>
        (products, order, input)

/-! The loop. -/

def menuRounds (backend : Backend) (numProducts : Int32) :
    Nat → List Product → Order → Bytes → ForkedProgram Unit
  | 0, _, _, _ => undefinedStep
  | rounds + 1, products, order, input =>
      match scanInt input with
      | none => undefinedStep
      | some (option, input) =>
          if option = 2 then
            match chooseProduct numProducts input with
            | none => undefinedStep
            | some (option, input) =>
                if option = 0 then menuRounds backend numProducts rounds products order input
                else
                  match addToOrder (option.toInt.toNat - 1) products order input with
                  | none => undefinedStep
                  | some (products, order, input) =>
                      menuRounds backend numProducts rounds products order input
          else if option = 4 then
            if orderGetNumEntries order = 0 then
              menuRounds backend numProducts rounds products order input
            else
              match Client.readAddress input with
              | none => undefinedStep
              | some (address, input) => do
                  let (result, order) ← Client.submitOrder backend order address
                  if result = 0 then menuRounds backend numProducts rounds products order input
                  else return ()
          else if option = 0 then return ()
          else
            -- `1` and `3` only print, and so does any other number
            menuRounds backend numProducts rounds products order input

def menu (backend : Backend) (numProducts : Int32) (products : List Product) (order : Order)
    (input : Bytes) : ForkedProgram Unit :=
  menuRounds backend numProducts (input.length + 1) products order input

/-- From the call of `signal` on. -/
def main (backend : Backend) (input : Bytes) : ForkedProgram Unit := do
  let fetched ← Client.requestProducts backend
  (match fetched with
  | none => .ret ()
  | some (numProducts, products) => menu backend numProducts products orderNew input)
  Client.disconnect backend

/-! What is read is not read again, so that the rounds are enough. -/

theorem consumeRest_shorter {input rest : Bytes} (consumed : Client.consumeRest input = some rest) :
    rest.length < input.length := by
  induction input with
  | nil => contradiction
  | cons c input ih =>
      rw [Client.consumeRest] at consumed
      simp only [List.length_cons]
      split at consumed
      · cases consumed
        omega
      · have shorter := ih consumed
        omega

theorem scanned_shorter {input rest : Bytes} (consumed : Client.consumeRest (scanf input).2 = some rest) :
    rest.length < input.length := by
  have first := consumeRest_shorter consumed
  have second := (scanf_suffix input).length_le
  omega

theorem scanIntRounds_shorter {rounds : Nat} {input rest : Bytes} {number : Int}
    (scanned : scanIntRounds rounds input = some (number, rest)) : rest.length < input.length := by
  induction rounds generalizing input with
  | zero => contradiction
  | succ rounds ih =>
      simp only [scanIntRounds, Option.bind_eq_some_iff] at scanned
      obtain ⟨left, consumed, scanned⟩ := scanned
      have shorter := scanned_shorter consumed
      split at scanned
      · cases scanned
        exact shorter
      · have later := ih scanned
        omega

theorem scanInt_shorter {input rest : Bytes} {number : Int32}
    (scanned : scanInt input = some (number, rest)) : rest.length < input.length := by
  simp only [scanInt, Option.bind_eq_some_iff, Option.map_eq_some_iff] at scanned
  obtain ⟨⟨_, left⟩, scanned, _, _, same⟩ := scanned
  cases same
  exact scanIntRounds_shorter scanned

theorem askRounds_shorter {accepted : Int32 → Bool} {rounds : Nat} {input rest : Bytes} {number : Int32}
    (asked : askRounds accepted rounds input = some (number, rest)) : rest.length < input.length := by
  induction rounds generalizing input with
  | zero => contradiction
  | succ rounds ih =>
      simp only [askRounds, Option.bind_eq_some_iff] at asked
      obtain ⟨⟨_, left⟩, scanned, asked⟩ := asked
      have shorter := scanInt_shorter scanned
      split at asked
      · cases asked
        exact shorter
      · exact (ih asked).trans shorter

theorem addToOrder_shorter {index : Nat} {products changed : List Product} {order filled : Order}
    {input rest : Bytes} (added : addToOrder index products order input = some (changed, filled, rest)) :
    rest.length < input.length := by
  simp only [addToOrder, Option.bind_eq_some_iff, Option.map_eq_some_iff] at added
  obtain ⟨_, _, ⟨_, left⟩, asked, _, _, same⟩ := added
  cases same
  exact askRounds_shorter asked

theorem enterAddress_suffix (room : Nat) (input : Bytes) :
    (Client.enterAddress room input).2.2 <:+ input := by
  induction room generalizing input with
  | zero => exact List.suffix_rfl
  | succ room ih =>
      cases input with
      | nil => exact List.suffix_rfl
      | cons c input =>
          rw [Client.enterAddress]
          split
          · exact List.suffix_cons c input
          · split
            · exact (ih input).trans (List.suffix_cons c input)
            · exact List.suffix_cons c input

theorem readAddress_suffix {rounds : Nat} {input address rest : Bytes}
    (read : Client.readAddressRounds rounds input = some (address, rest)) : rest.length ≤ input.length := by
  induction rounds generalizing input with
  | zero => contradiction
  | succ rounds ih =>
      have entered := (enterAddress_suffix 1023 input).length_le
      simp only [Client.readAddressRounds] at read
      split at read
      · cases read
        exact entered
      · obtain ⟨left, consumed, read⟩ := Option.bind_eq_some_iff.mp read
        exact ((ih read).trans (consumeRest_shorter consumed).le).trans entered

theorem menuRounds_enough (backend : Backend) (numProducts : Int32) {rounds more : Nat} {input : Bytes}
    (enough : input.length < rounds) (also : input.length < more) (products : List Product) (order : Order) :
    menuRounds backend numProducts rounds products order input =
      menuRounds backend numProducts more products order input := by
  induction rounds generalizing more input products order with
  | zero => omega
  | succ rounds ih =>
      cases more with
      | zero => omega
      | succ more =>
          have again : ∀ {rest : Bytes} (products : List Product) (order : Order),
              rest.length < input.length → menuRounds backend numProducts rounds products order rest =
                menuRounds backend numProducts more products order rest := by
            intro rest products order shorter
            exact ih (by omega) (by omega) products order
          rw [menuRounds, menuRounds]
          cases scanned : scanInt input with
          | none => rfl
          | some typed =>
              obtain ⟨option, left⟩ := typed
              have shorter := scanInt_shorter scanned
              dsimp only
              split
              · cases chosen : chooseProduct numProducts left with
                | none => rfl
                | some typed =>
                    obtain ⟨option, behind⟩ := typed
                    have less := (askRounds_shorter chosen).trans shorter
                    dsimp only
                    split
                    · exact again products order less
                    · cases added : addToOrder (option.toInt.toNat - 1) products order behind with
                      | none => rfl
                      | some changed =>
                          obtain ⟨products, order, rest⟩ := changed
                          exact again products order ((addToOrder_shorter added).trans less)
              · split
                · split
                  · exact again products order shorter
                  · cases read : Client.readAddress left with
                    | none => rfl
                    | some typed =>
                        obtain ⟨address, rest⟩ := typed
                        have less := (readAddress_suffix read).trans_lt shorter
                        refine congrArg (Client.submitOrder backend order address >>= ·) ?_
                        funext answer
                        split
                        · exact again products answer.2 less
                        · rfl
                · split
                  · rfl
                  · exact again products order shorter

/-! Every session at the keyboard is one of visits. -/

section

variable {backend : Backend} {numProducts : Int32} {stops : Action Local → Bool}
  {trace : List ForkedEvent}

/-- Somebody who enters nothing waits for ever. -/
theorem browse_waits (products : List Product) (order : Order) :
    Client.browse backend products order [⟨[(0, [])], []⟩] = undefinedStep := by
  have nothing : Client.addToOrder 0 products order [] = none := by
    cases first : products[0]? with
    | none => simp only [Client.addToOrder, first, Option.bind_eq_bind, Option.bind_none]
    | some product =>
        simp only [Client.addToOrder, first, Client.chooseAmount, List.find?_nil, Option.bind_eq_bind,
          Option.bind_some, Option.bind_none]
  simp only [Client.browse, Client.addAll, nothing, Option.bind_none]

theorem browse_adds {index : Nat} {products changed : List Product} {order filled : Order}
    {amounts : List Int32} (added : Client.addToOrder index products order amounts = some (changed, filled))
    (visits : List Client.Visit) :
    ∃ more, Client.browse backend products order more = Client.browse backend changed filled visits := by
  cases visits with
  | nil => exact ⟨[], rfl⟩
  | cons visit rest =>
      refine ⟨⟨(index, amounts) :: visit.additions, visit.typed⟩ :: rest, ?_⟩
      simp only [Client.browse, Client.addAll, added, Option.bind_some]

theorem addToOrder_accepted {index : Nat} {products changed : List Product} {order filled : Order}
    {input rest : Bytes} (added : addToOrder index products order input = some (changed, filled, rest)) :
    ∃ amounts, Client.addToOrder index products order amounts = some (changed, filled) := by
  simp only [addToOrder, Option.bind_eq_some_iff, Option.map_eq_some_iff] at added
  obtain ⟨_, _, ⟨num, _⟩, _, ⟨_, _⟩, adds, same⟩ := added
  cases same
  exact ⟨[num], adds⟩

theorem menuRounds_browses {rounds : Nat} {products : List Product} {order : Order} {input : Bytes}
    {ending : Ending (Action Local) Unit}
    (plays : Plays stops (menuRounds backend numProducts rounds products order input) trace ending) :
    ∃ visits, Plays stops (Client.browse backend products order visits) trace ending := by
  have waits : ∀ {products : List Product} {order : Order} {trace : List ForkedEvent},
      Plays stops (undefinedStep : ForkedProgram Unit) trace ending →
        ∃ visits, Plays stops (Client.browse backend products order visits) trace ending := by
    intro products order trace plays
    exact ⟨_, (browse_waits products order).symm ▸ plays⟩
  induction rounds generalizing products order input trace with
  | zero => exact waits plays
  | succ rounds ih =>
      rw [menuRounds] at plays
      split at plays
      · exact waits plays
      · rename_i option input scanned
        split at plays
        · split at plays
          · exact waits plays
          · split at plays
            · exact ih plays
            · split at plays
              · exact waits plays
              · rename_i changed filled rest added
                obtain ⟨amounts, adds⟩ := addToOrder_accepted added
                obtain ⟨visits, browses⟩ := ih plays
                obtain ⟨more, same⟩ := browse_adds adds visits
                exact ⟨more, same ▸ browses⟩
        · split at plays
          · split at plays
            · exact ih plays
            · rename_i some_entries
              split at plays
              · exact waits plays
              · rename_i address rest read
                have submits : ∀ visits, Client.browse backend products order (⟨[], input⟩ :: visits) =
                    Client.submitOrder backend order address >>= fun answer =>
                      if answer.1 = 0 then Client.browse backend products answer.2 visits
                      else .ret () := by
                  intro visits
                  simp only [Client.browse, Client.addAll, if_neg some_entries, read]
                  rfl
                rcases plays_bind plays with ⟨⟨result, left⟩, before, behind, sent, goes, rfl⟩ | ⟨op, sent, rfl⟩
                · dsimp only at goes
                  by_cases cut : result = 0
                  · rw [if_pos cut] at goes
                    obtain ⟨visits, browses⟩ := ih goes
                    refine ⟨⟨[], input⟩ :: visits, ?_⟩
                    rw [submits]
                    refine plays_bind_returned sent ?_
                    rw [if_pos cut]
                    exact browses
                  · rw [if_neg cut] at goes
                    refine ⟨[⟨[], input⟩], ?_⟩
                    rw [submits]
                    refine plays_bind_returned sent ?_
                    rw [if_neg cut]
                    exact goes
                · refine ⟨[⟨[], input⟩], ?_⟩
                  rw [submits]
                  exact plays_bind_stopped sent
          · split at plays
            · exact ⟨[], plays⟩
            · exact ih plays

/-- Whatever is typed, and however far the client comes, it does what a client of some visits does. -/
theorem main_refines {input : Bytes} {ending : Ending (Action Local) Unit}
    (plays : Plays stops (main backend input) trace ending) :
    ∃ visits, Plays stops (Client.main backend visits) trace ending := by
  rcases plays_bind plays with ⟨fetched, before, behind, requests, goes, rfl⟩ | ⟨op, requests, rfl⟩
  · cases fetched with
    | none => exact ⟨[], plays_bind_returned requests goes⟩
    | some fetched =>
        obtain ⟨numProducts, products⟩ := fetched
        rcases plays_bind goes with ⟨⟨⟩, shown, rest, shops, leaves, rfl⟩ | ⟨op, shops, rfl⟩
        · obtain ⟨visits, browses⟩ := menuRounds_browses shops
          exact ⟨visits, plays_bind_returned requests (plays_bind_returned browses leaves)⟩
        · obtain ⟨visits, browses⟩ := menuRounds_browses shops
          exact ⟨visits, plays_bind_returned requests (plays_bind_stopped browses)⟩
  · exact ⟨[], plays_bind_stopped requests⟩

end

def bottles : Bytes := (productSerialize (productNew 1 (ascii "Vodka") (ascii "40%") 0 60)).getD []

/-- Every message of the server is one product; its first bytes are the number of products too, and
a good answer to an order. -/
def bottling : (op : Action Local) → Option (Action.Answer Local.Answer op)
  | .own op => some (sends bottles op)
  | _ => none

theorem main_refines_bottles :
    let played := (main .sockets (ascii "2\n99\n1\n2\n4\nMadero 399\n")).play bottling
    played.2 = .returned () ∧ ∃ visits, Plays (fun _ => true) (Client.main .sockets visits) played.1 played.2 :=
  ⟨rfl, main_refines (Program.play_plays (fun _ _ => rfl) _)⟩

end Iac.Keyboard
