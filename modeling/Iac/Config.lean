import Iac.Library.Buffer
import Iac.Library.Ere

/-! The parser of `common/config.c`: an automaton whose states have an action each, which
reads a line or takes a value and calls the action of the next state. -/

namespace Iac

open CText Ere RegularExpression

/-! Reading lines. -/

/-- A stream that is read without errors, and whether `feof` holds. -/
structure Stream where
  rest : Bytes
  eof : Bool
  deriving DecidableEq, Repr

/-- The newline, and a byte that a signed `char` cannot tell from `EOF`. -/
def endsLine (byte : UInt8) : Bool := byte = 10 || byte = 255

def isBlank (byte : UInt8) : Bool := byte = 32 || byte = 9

def leadingTrim (str : Bytes) : Bytes := str.dropWhile isBlank

/-- The `int` index of a line overflows when the buffer grows beyond this length. -/
def lineLimit : Nat := 2 ^ 31 - 32

/-- A line, up to its first NUL and without leading blanks. -/
def readLine (fp : Stream) : Option (Bytes × Stream) :=
  let string := fp.rest.takeWhile (!endsLine ·)
  if string.length < lineLimit then
    let line := leadingTrim (cstring string)
    match fp.rest.drop string.length with
    | [] => some (line, { rest := [], eof := true })
    | _ :: rest => some (line, { rest, eof := fp.eof })
  else none

/-! Sections and parameters. -/

def isAlpha (byte : UInt8) : Bool := between 97 122 byte || between 65 90 byte

/-- `^\[[a-zA-Z][a-zA-Z0-9]*\]$` -/
def sectionExpr : Expr :=
  text (ascii "[") * anyOf isAlpha * star (anyOf fun byte => isAlpha byte || isDigit byte) *
    text (ascii "]")

def isSectionTag (line : Bytes) : Bool := regexec sectionExpr line

def equalsSign : UInt8 := 61

def isKeyByte (byte : UInt8) : Bool := isAlpha byte || isDigit byte || byte = 32

def isValueByte (byte : UInt8) : Bool := byte ≠ 10 && byte ≠ 9 && byte ≠ equalsSign

/-- `^[a-zA-Z][a-zA-Z0-9 ]*=[^\n\t=]*$` -/
def paramExpr : Expr :=
  anyOf isAlpha * star (anyOf isKeyByte) * text (ascii "=") * star (anyOf isValueByte)

def isParam (line : Bytes) : Bool := regexec paramExpr line

/-- The block has room for these bytes and for no terminator. -/
def getParam (line : Bytes) : Bytes := line.takeWhile (· ≠ equalsSign)

def getValue (line : Bytes) : Bytes := line.drop ((getParam line).length + 1)

/-! The automaton. -/

inductive StateName
  | q0 | q1 | q2 | q3 | q4 | q5
  deriving DecidableEq, Repr

structure Arc where
  tag : Bytes
  next : StateName
  deriving DecidableEq, Repr

/-- `createAutomaton` -/
def arcs : StateName → List Arc
  | .q0 => [⟨ascii "[addresses]", .q1⟩]
  | .q1 => [⟨ascii "server", .q2⟩, ⟨ascii "listening port", .q3⟩, ⟨ascii "database", .q4⟩,
      ⟨ascii "logging", .q5⟩, ⟨ascii "end", .q0⟩]
  | .q2 => [⟨[], .q1⟩]
  | .q3 => [⟨[], .q1⟩]
  | .q4 => [⟨[], .q1⟩]
  | .q5 => [⟨[], .q1⟩]

/-- The search goes on beyond the array of arcs if none leads to the state. -/
def moveTo (actualState : StateName) (name : StateName) : Option StateName :=
  ((arcs actualState).find? fun arc => arc.next = name).map Arc.next

/-- What a pointer field of the configuration holds: whatever `malloc` left there, or a string. -/
inductive Slot
  | leftover (word : UInt64)
  | string (contents : Bytes)
  deriving DecidableEq, Repr

structure Config where
  server : Slot
  listeningPort : Slot
  database : Slot
  logging : Slot
  deriving DecidableEq, Repr

structure Parser where
  fp : Stream
  actualState : StateName
  config : Config
  /-- calls of `getParam` so far -/
  params : Nat
  deriving DecidableEq, Repr

/-- The bytes behind the block that a call of `getParam` gets: by call, size and offset. -/
abbrev Behind := Nat → Nat → Nat → UInt8

def strcmpEqual (param : Bytes) (behind : Nat → UInt8) (tag : Bytes) : Bool :=
  (param ++ (List.range (tag.length + 1)).map behind).take (tag.length + 1) = tag ++ [0]

/-- An action returns, or calls the action of the parser's state with a line or `NULL`. -/
inductive Call
  | returns (result : Int32) (config : Config)
  | acts (line : Option Bytes) (parser : Parser)
  | undefined
  deriving DecidableEq, Repr

def Parser.moveTo (parser : Parser) (name : StateName) (line : Option Bytes) : Call :=
  match Iac.moveTo parser.actualState name with
  | some next => .acts line { parser with actualState := next }
  | none => .undefined

def q0Action (parser : Parser) : Call :=
  if parser.fp.eof then .returns 0 parser.config
  else
    match readLine parser.fp with
    | none => .undefined
    | some (line, fp) =>
        let parser := { parser with fp }
        if isSectionTag line then
          match (arcs parser.actualState).find? fun arc => line = arc.tag with
          | some arc => parser.moveTo arc.next none
          | none => .returns (-1) parser.config
        else if line = [] then .acts none parser
        else .returns (-1) parser.config

def q1Action (behind : Behind) (parser : Parser) : Call :=
  if parser.fp.eof then .returns (-1) parser.config
  else
    match readLine parser.fp with
    | none => .undefined
    | some (line, fp) =>
        let parser := { parser with fp }
        if line = ascii "end" then parser.moveTo .q0 none
        else if isParam line then
          let param := getParam line
          let follows := behind parser.params param.length
          let parser := { parser with params := parser.params + 1 }
          match (arcs parser.actualState).find? fun arc => strcmpEqual param follows arc.tag with
          | some arc => parser.moveTo arc.next (some (getValue line))
          | none => .acts none parser
        else if line = [] then .acts none parser
        else .returns (-1) parser.config

/-- The actions that copy a value, each into its field. -/
def copyValue (store : Config → Slot → Config) (line : Option Bytes) (parser : Parser) : Call :=
  match line with
  | none => .undefined
  | some line =>
      let parser := { parser with config := store parser.config (.string (leadingTrim line)) }
      parser.moveTo .q1 none

def q2Action : Option Bytes → Parser → Call := copyValue fun config slot => { config with server := slot }

def q3Action : Option Bytes → Parser → Call :=
  copyValue fun config slot => { config with listeningPort := slot }

def q4Action : Option Bytes → Parser → Call :=
  copyValue fun config slot => { config with database := slot }

def q5Action : Option Bytes → Parser → Call :=
  copyValue fun config slot => { config with logging := slot }

def action (behind : Behind) (line : Option Bytes) (parser : Parser) : Call :=
  match parser.actualState with
  | .q0 => q0Action parser
  | .q1 => q1Action behind parser
  | .q2 => q2Action line parser
  | .q3 => q3Action line parser
  | .q4 => q4Action line parser
  | .q5 => q5Action line parser

def runActions (behind : Behind) : Nat → Call → Call
  | 0, call => call
  | fuel + 1, .acts line parser => runActions behind fuel (action behind line parser)
  | _ + 1, call => call

/-- The first call of `parse`, on a stream at its beginning. -/
def parseFrom (file : Bytes) (config : Config) : Call :=
  .acts none { fp := { rest := file, eof := false }, actualState := .q0, config, params := 0 }

/-- `parse` returns a result, with the configuration that it leaves. -/
def Parses (behind : Behind) (file : Bytes) (initial : Config) (result : Int32) (config : Config) :
    Prop :=
  ∃ fuel, runActions behind fuel (parseFrom file initial) = .returns result config

end Iac
