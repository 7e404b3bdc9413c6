import LanguageSessions.Host.Address

/-!
What a program accepts on its command line, as a tree of commands with arguments, and the reading
of a line of words against it. A word is a command, an option, the value of an option or an
operand. The value of an argument is looked at when the next argument begins, so that an unknown
option is reported before a bad value in front of it.
-/
namespace LanguageSessions.CommandLine

inductive ValueKind where
  | text
  | path
  | count
  | port
  | address
  deriving DecidableEq, Repr

inductive Role where
  | switch
  | value (k : ValueKind)
  | values (k : ValueKind)
  | help
  | version
  deriving DecidableEq, Repr

structure Argument where
  name : String
  letter : Option Char := none
  role : Role := .switch
  required : Bool := false
  about : String

def Argument.takesValue (a : Argument) : Bool :=
  match a.role with
  | .value _ | .values _ => true
  | _ => false

structure CommandSpec where
  name : String
  about : String
  introduction : Option String := none
  options : List Argument := []
  operands : List Argument := []
  commands : List CommandSpec := []
  deriving Inhabited

inductive Mistake where
  | unknownArgument
  | unknownCommand
  | missingCommand
  | missingArgument
  | emptyValue
  | badValue
  | repeatedArgument
  | surplusValue
  deriving DecidableEq, Repr

inductive Usage where
  | help (way : List String) (long : Bool)
  | bare (way : List String)
  | version (way : List String)
  | wrong (m : Mistake)
  deriving DecidableEq, Repr

abbrev Given := List (String × List String)

namespace Given

def has (g : Given) (name : String) : Bool := g.any (·.1 == name)

def values (g : Given) (name : String) : List String := (g.lookup name).getD []

def value? (g : Given) (name : String) : Option String := (g.values name).head?

def add (g : Given) (name : String) (vs : List String) : Given :=
  g.filter (·.1 != name) ++ [(name, g.values name ++ vs)]

end Given

def signedCount? (max : Nat) (s : String) : Option Nat :=
  match s.toList with
  | '-' :: cs => (Text.digits? cs).filter (· == 0)
  | cs => Text.unsigned? max cs

def ValueKind.check (k : ValueKind) (s : String) : Except Usage Unit :=
  let valid := match k with
    | .text | .path => true
    | .count => (Text.unsigned? Text.max64 s.toList).isSome
    | .port => (signedCount? 65535 s).isSome
    | .address => (IpAddress.parse? s).isSome
  if k == .path && s == "" then .error (.wrong .emptyValue)
  else if valid then .ok ()
  else .error (.wrong .badValue)

structure Level where
  given : Given := []
  operands : Nat := 0
  pending : Option (Argument × List String) := none
  wanting : Bool := false
  plain : Bool := false

namespace Level

def accept (l : Level) (way : List String) (byName : Bool) (a : Argument) (vs : List String) :
    Except Usage Level :=
  let l := { l with wanting := false }
  let put : Level := { l with given := Given.add l.given a.name vs }
  match a.role, vs with
  | .help, _ => .error (.help way byName)
  | .version, _ => .error (.version way)
  | .switch, _ =>
    if Given.has l.given a.name then .error (.wrong .repeatedArgument) else .ok put
  | .value _, [] | .values _, [] => .error (.wrong .emptyValue)
  | .value k, v :: _ =>
    if Given.has l.given a.name then .error (.wrong .repeatedArgument)
    else (k.check v).map fun _ => put
  | .values k, v :: _ => (k.check v).map fun _ => put

def settle (l : Level) (way : List String) : Except Usage Level :=
  match l.pending with
  | none => .ok l
  | some (a, vs) => { l with pending := none }.accept way true a vs

def option (l : Level) (way : List String) (byName : Bool) (a : Argument)
    (attached : Option String) : Except Usage Level :=
  match a.takesValue, attached with
  | false, some _ => .error (.wrong .surplusValue)
  | false, none => do
    let l ← l.settle way
    l.accept way byName a []
  | true, some v => do
    let l ← l.settle way
    l.accept way byName a [v]
  | true, none => do
    let l ← l.settle way
    return { l with pending := some (a, []), wanting := true }

def letters (l : Level) (way : List String) (options : List Argument) :
    List Char → Except Usage Level
  | [] => .ok l
  | c :: cs =>
    match options.find? fun a => a.letter == some c && !a.takesValue with
    | none => .error (.wrong .unknownArgument)
    | some a => do
      let l ← l.option way false a none
      l.letters way options cs

end Level

namespace CommandSpec

def helpName : String := "help"

def help : CommandSpec :=
  { name := helpName, about := "Print this message or the help of the given subcommand(s)" }

def command? (c : CommandSpec) (name : String) : Option CommandSpec :=
  if c.commands.isEmpty then none else (c.commands ++ [help]).find? (·.name == name)

def follow? (c : CommandSpec) : List String → Option CommandSpec
  | [] => some c
  | name :: way => (c.command? name).bind fun d => d.follow? way

def takeOperand (c : CommandSpec) (way : List String) (l : Level) (word : String) :
    Except Usage Level :=
  match c.operands[l.operands]? with
  | some a => do
    let l ← l.settle way
    return { l with pending := some (a, [word]), wanting := false, operands := l.operands + 1 }
  | none =>
    if c.commands.isEmpty || (l.plain && (c.command? word).isSome) then
      .error (.wrong .unknownArgument)
    else .error (.wrong .unknownCommand)

def takeWord (c : CommandSpec) (shared : List Argument) (way : List String) (l : Level)
    (word : String) : Except Usage Level :=
  let options := c.options ++ shared
  if l.plain then c.takeOperand way l word
  else
    match word.toList with
    | ['-', '-'] => .ok { l with plain := true }
    | '-' :: '-' :: cs =>
      let name := String.ofList (cs.takeWhile (· != '='))
      let attached := match cs.dropWhile (· != '=') with
        | [] => none
        | _ :: value => some (String.ofList value)
      match options.find? (·.name == name) with
      | none => .error (.wrong .unknownArgument)
      | some a => l.option way true a attached
    | '-' :: c :: cs => l.letters way options (c :: cs)
    | _ =>
      match l.wanting, l.pending with
      | true, some (a, vs) => .ok { l with pending := some (a, vs ++ [word]), wanting := false }
      | _, _ => c.takeOperand way l word

def finish (c : CommandSpec) (way : List String) (l : Level) : Except Usage (List String × Given) :=
  do
    let l ← l.settle way
    if !c.commands.isEmpty then
      throw (if l.given.isEmpty then .bare way else .wrong .missingCommand)
    else if (c.options ++ c.operands).any fun a => a.required && !Given.has l.given a.name then
      throw (.wrong .missingArgument)
    else return (way, l.given)

/-- Reads words against a command, which the names of `way` lead to; `shared` options are accepted
by all commands. The result leads to the command that is meant. -/
def readFrom (shared : List Argument) (c : CommandSpec) (way : List String) (l : Level) :
    List String → Except Usage (List String × Given)
  | [] => c.finish way l
  | word :: words =>
    match (if l.plain || l.wanting then none else c.command? word) with
    | some d =>
      if d.name == helpName then
        match c.follow? words with
        | some _ => .error (.help (way ++ words) true)
        | none => .error (.wrong .unknownCommand)
      else do
        let (way', inner) ← d.readFrom shared (way ++ [d.name]) {} words
        let l ← l.settle way
        return (way', inner ++ l.given)
    | none => do
      let l ← c.takeWord shared way l word
      c.readFrom shared way l words

def read (c : CommandSpec) (shared : List Argument) (words : List String) :
    Except Usage (List String × Given) :=
  c.readFrom shared [] {} words

end CommandSpec

end LanguageSessions.CommandLine
