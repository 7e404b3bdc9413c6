import LanguageSessions.Shell.Activity
import LanguageSessions.Shell.Reader
import LanguageSessions.Shell.Words

namespace LanguageSessions.Shell

inductive Sink where
  | output
  | nowhere
  | file (path : String)
  deriving DecidableEq, Repr

structure State where
  name : Bytes := []
  bindings : List (String × Bytes) := []
  arguments : List Bytes := []
  functions : List (String × List Instruction) := []
  status : Nat := 0
  sink : Sink := .output

abbrev Run := StateT State Activity

namespace State

def setVariable (s : State) (name : String) (value : Option Bytes) : State :=
  { s with bindings := s.bindings.filter (·.1 != name) ++ (value.map (name, ·)).toList }

def parameter (s : State) (name : String) : Bytes :=
  match name.toList with
  | ['#'] => Utf8.bytes (toString s.arguments.length)
  | ['?'] => Utf8.bytes (toString s.status)
  | ['@'] | ['*'] => [32].intercalate s.arguments
  | ['0'] => s.name
  | [c] =>
    if c.isDigit then (s.arguments[c.toNat - '1'.toNat]?).getD []
    else (s.bindings.lookup name).getD []
  | _ => (s.bindings.lookup name).getD []

def glyphs (s : State) (name : String) (quoted : Bool) : List Glyph :=
  if name == "@" then
    [Glyph.cut].intercalate (s.arguments.map (Glyph.ofBytes quoted))
  else Glyph.ofBytes quoted (s.parameter name)

def findsUtilities (s : State) : Bool :=
  ((Utf8.text? (s.parameter "PATH")).getD "" |>.splitOn ":").any
    fun dir => dir == "/bin" || dir == "/usr/bin"

end State

def limit : Nat := Nat.pow 2 40

def setStatus (n : Nat) : Run Unit := modify fun s => { s with status := n }

def text (bs : Bytes) : String := String.ofList (Utf8.decodeLossy bs)

def emit (bs : Bytes) : Run Unit := do
  match (← get).sink with
  | .output => StateT.lift (.write bs (.done ()))
  | .nowhere => return
  | .file path => StateT.lift (.store path false bs (.done ()))

def redirect (stream : Nat) (kind : RedirectionKind) (target : Bytes) : Run Unit := do
  let path := text target
  if kind == .stream then
    if stream == 1 && path != "1" then modify fun s => { s with sink := .nowhere }
  else if path == "/dev/null" then
    if stream == 1 then modify fun s => { s with sink := .nowhere }
  else do
    StateT.lift (.store path (kind == .anew) [] (.done ()))
    if stream == 1 then modify fun s => { s with sink := .file path }

def trimBlanks (bs : Bytes) : Bytes :=
  ((bs.dropWhile Glyph.isBlank).reverse.dropWhile Glyph.isBlank).reverse

def assignLine (keepBlanks : Bool) : List String → Bytes → Run Unit
  | [], _ => return
  | [name], bs =>
    modify fun s => s.setVariable name (some (if keepBlanks then bs else trimBlanks bs))
  | name :: names, bs => do
    let bs := bs.dropWhile Glyph.isBlank
    modify fun s => s.setVariable name (some (bs.takeWhile fun b => !Glyph.isBlank b))
    assignLine keepBlanks names (bs.dropWhile fun b => !Glyph.isBlank b)

def millis (bs : Bytes) : Nat :=
  match (text bs).splitOn "." with
  | [whole, fraction] =>
    let digits := (fraction.toList ++ ['0', '0', '0']).take 3
    ((Text.digits? whole.toList).getD 0) * 1000 + (Text.digits? digits).getD 0
  | _ => number bs * 1000

def copy : Nat → Run Unit
  | 0 => return
  | n + 1 => do
    match ← StateT.lift (Activity.takeBytes 1 []) with
    | [] => return
    | bs =>
      emit bs
      copy n

def utility? (name : String) (args : List Bytes) : Option (Run Unit) :=
  match name, args.map text with
  | "cat", [] => some (copy limit)
  | "wc", ["-c"] => some do
    let bs ← StateT.lift (Activity.takeBytes limit [])
    emit (Utf8.bytes (toString bs.length) ++ [10])
  | "head", ["-c", _] =>
    some (StateT.lift (Activity.takeBytes (number (args.getLastD [])) []) >>= emit)
  | "sleep", [_] => some (StateT.lift (.pause (millis (args.headD [])) .done))
  | _, _ => none

def holds : List Bytes → Bool
  | [] => false
  | [a] => !a.isEmpty
  | [a, b] =>
    match text a with
    | "-n" => !b.isEmpty
    | "-z" => b.isEmpty
    | "!" => b.isEmpty
    | _ => false
  | [a, op, b] =>
    match text op with
    | "=" => a == b
    | "!=" => a != b
    | "-eq" => number a == number b
    | "-ne" => number a != number b
    | "-lt" => number a < number b
    | "-le" => number a ≤ number b
    | "-gt" => number b < number a
    | "-ge" => number b ≤ number a
    | _ => false
  | _ => false

def builtin? (name : String) (args : List Bytes) : Option (Run Unit) :=
  match name with
  | ":" | "true" | "trap" => some (setStatus 0)
  | "false" => some (setStatus 1)
  | "echo" =>
    let (ending, words) : Bytes × List Bytes :=
      if args.head?.map text == some "-n" then ([], args.drop 1) else ([10], args)
    some (emit (unescape ([32].intercalate words) ++ ending))
  | "printf" => some (emit (formatAll (args.headD []) args.length (args.drop 1)))
  | "pwd" => some do emit ((← get).parameter "PWD" ++ [10])
  | "exit" => some (StateT.lift .exit)
  | "test" => some (setStatus (if holds args then 0 else 1))
  | "[" => some (setStatus (if holds args.dropLast then 0 else 1))
  | "shift" => some (modify fun s => { s with arguments := s.arguments.drop 1 })
  | "read" => some do
    let names := (args.map text).filter (· != "-r")
    let keepBlanks := (← get).bindings.lookup "IFS" == some []
    let (line, complete) ← StateT.lift (Activity.takeLine limit [])
    assignLine keepBlanks names line
    setStatus (if complete then 0 else 1)
  | _ => none

def invoke (name : String) (args : List Bytes) : Run Unit := do
  setStatus 0
  match builtin? name args with
  | some run => run
  | none =>
    match (if (← get).findsUtilities then utility? name args else none) with
    | some run => run
    | none => setStatus 127

def trimLines (bs : Bytes) : Bytes := (bs.reverse.dropWhile (· == 10)).reverse

mutual

def expand (fuel : Nat) (p : Piece) : Run (List Glyph) := do
  match fuel with
  | 0 => return []
  | fuel + 1 =>
    match p with
    | .text s isQuoted => return Glyph.ofBytes isQuoted (Utf8.bytes s)
    | .value name isQuoted => return (← get).glyphs name isQuoted
    | .length name =>
      return Glyph.ofBytes false (Utf8.bytes (toString ((← get).parameter name).length))
    | .trimmed name atEnd pattern isQuoted => do
      let gs ← expandAll fuel pattern
      let value := (← get).parameter name
      return Glyph.ofBytes isQuoted (Wild.trim (Wild.ofGlyphs gs) atEnd value)
    | .output is isQuoted => do
      let s ← get
      let (out, inner) ← StateT.lift (Activity.capture [] (carryOutAll fuel is |>.run
        { s with sink := .output }))
      setStatus ((inner.map fun x => x.2.status).getD 0)
      return Glyph.ofBytes isQuoted (trimLines out)

def expandAll (fuel : Nat) (w : Word) : Run (List Glyph) := do
  match fuel with
  | 0 => return []
  | fuel + 1 => return (← w.mapM (expand fuel)).flatten

def carryOutAll (fuel : Nat) (is : List Instruction) : Run Unit := do
  match fuel with
  | 0 => return
  | fuel + 1 => is.forM (carryOut fuel)

def carryOut (fuel : Nat) (i : Instruction) : Run Unit := do
  match fuel with
  | 0 => return
  | fuel + 1 =>
    match i with
    | .define name body =>
      modify fun s => { s with functions := (name, body) :: s.functions, status := 0 }
    | .loop condition body => do
      carryOutAll fuel condition
      if (← get).status == 0 then
        carryOutAll fuel body
        carryOut fuel (.loop condition body)
      else setStatus 0
    | .branch condition yes no => do
      carryOutAll fuel condition
      if (← get).status == 0 then carryOutAll fuel yes
      else
        setStatus 0
        carryOutAll fuel no
    | .each name words body => do
      let gs ← words.mapM (expandAll fuel)
      setStatus 0
      for value in gs.flatMap (Glyph.fields none) do
        modify fun s => s.setVariable name (some value)
        carryOutAll fuel body
    | .group body => carryOutAll fuel body
    | .negated i => do
      carryOut fuel i
      setStatus (if (← get).status == 0 then 1 else 0)
    | .both first second => do
      carryOut fuel first
      if (← get).status == 0 then carryOut fuel second
    | .either first second => do
      carryOut fuel first
      if (← get).status != 0 then carryOut fuel second
    | .pipe first second => do
      let s ← get
      let (out, _) ← StateT.lift (Activity.capture [] (carryOut fuel first |>.run
        { s with sink := .output }))
      let inner ← StateT.lift (Activity.supply out (carryOut fuel second |>.run s))
      setStatus ((inner.map fun x => x.2.status).getD 0)
    | .choice word arms => do
      let value := Glyph.plain (← expandAll fuel word)
      chooseArm fuel value arms
    | .simple assignments words redirections => do
      let gs ← words.mapM (expandAll fuel)
      let values ← assignments.mapM fun a => return (a.1, Glyph.plain (← expandAll fuel a.2))
      let before ← get
      for (name, value) in values do
        modify fun s => s.setVariable name (some value)
      match gs.flatMap (Glyph.fields none) with
      | [] => return
      | name :: args => do
        for .mk stream kind target in redirections do
          redirect stream kind (Glyph.plain (← expandAll fuel target))
        call fuel (text name) args
        modify fun s => values.foldl (fun s v => s.setVariable v.1 (before.bindings.lookup v.1))
          { s with sink := before.sink }

def chooseArm (fuel : Nat) (value : Bytes) (arms : List (List Word × List Instruction)) :
    Run Unit := do
  match fuel with
  | 0 => return
  | fuel + 1 =>
    match arms with
    | [] => setStatus 0
    | (patterns, body) :: rest => do
      let ps ← patterns.mapM (expandAll fuel)
      if ps.any fun gs => Wild.matchesAll (Wild.ofGlyphs gs) value then carryOutAll fuel body
      else chooseArm fuel value rest

def call (fuel : Nat) (name : String) (args : List Bytes) : Run Unit := do
  match fuel with
  | 0 => return
  | fuel + 1 =>
    let s ← get
    match s.functions.lookup name, name, args with
    | some body, _, _ => do
      set { s with arguments := args }
      carryOutAll fuel body
      modify fun t => { t with arguments := s.arguments }
    | none, "exec", program :: args => do
      invoke (text program) args
      StateT.lift .exit
    | none, "exec", [] => return
    | none, _, _ => invoke name args

end

def run (script : List Instruction) (name : String) (environment : List (String × String))
    (args : List String) : Activity Unit := do
  let s : State :=
    { name := Utf8.bytes name
      bindings := environment.map fun v => (v.1, Utf8.bytes v.2)
      arguments := args.map Utf8.bytes }
  let _ ← (carryOutAll limit script).run s

end LanguageSessions.Shell
