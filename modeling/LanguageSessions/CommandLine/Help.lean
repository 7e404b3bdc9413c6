import LanguageSessions.CommandLine.Invocation

namespace LanguageSessions.CommandLine

def lineWidth : Nat := 100

def wrap (width : Nat) (line : String) : String :=
  match line.splitOn " " with
  | [] => ""
  | first :: words =>
    (words.foldl (fun (x : String × Nat) word =>
      if x.2 + 1 + word.length ≤ width then (x.1 ++ " " ++ word, x.2 + 1 + word.length)
      else (x.1 ++ "\n" ++ word, word.length)) (first, first.length)).1

def placeholder (name : String) : String :=
  "<" ++ String.ofList (name.toList.map fun c => if c == '-' then '_' else c.toUpper) ++ ">"

namespace Argument

def synopsis (a : Argument) : String :=
  let letter := match a.letter with
    | some c => "-" ++ String.singleton c ++ ", "
    | none => "    "
  letter ++ "--" ++ a.name ++ (if a.takesValue then " " ++ placeholder a.name else "")

end Argument

def table (title : String) (rows : List (String × String)) : String :=
  let width := rows.foldl (fun n r => max n r.1.length) 0
  if rows.isEmpty then ""
  else
    "\n" ++ title ++ ":\n" ++ String.join (rows.map fun r =>
      "  " ++ r.1 ++ "".pushn ' ' (width - r.1.length + 2) ++ r.2 ++ "\n")

namespace CommandSpec

def synopsis (c : CommandSpec) (way : List String) : String :=
  let required := (c.options.filter (·.required)).map fun a =>
    "--" ++ a.name ++ " " ++ placeholder a.name
  let rest := if c.commands.isEmpty then c.operands.map fun a => placeholder a.name
    else ["<COMMAND>"]
  String.intercalate " " (program.name :: way ++ ["[OPTIONS]"] ++ required ++ rest)

def helpText (c : CommandSpec) (way : List String) (long : Bool) : String :=
  let about := (if long then c.introduction else none).getD (wrap lineWidth c.about ++ "\n")
  about ++ "\nUsage: " ++ c.synopsis way ++ "\n"
    ++ table "Commands" (if c.commands.isEmpty then []
      else (c.commands ++ [help]).map fun d => (d.name, d.about))
    ++ table "Arguments" (c.operands.map fun a => (placeholder a.name, a.about))
    ++ table "Options" ((c.options ++ sharedOptions).map fun a => (a.synopsis, a.about))

end CommandSpec

def Mistake.message : Mistake → String
  | unknownArgument => "unexpected argument found"
  | unknownCommand => "unrecognized subcommand"
  | missingCommand => "a subcommand is required but none was provided"
  | missingArgument => "a required argument was not provided"
  | emptyValue => "a value is required but none was supplied"
  | badValue => "invalid value"
  | repeatedArgument => "an argument cannot be used multiple times"
  | surplusValue => "unexpected value for a switch"

namespace Usage

def text (u : Usage) : String :=
  match u with
  | help way long => ((program.follow? way).map (·.helpText way long)).getD ""
  | version way =>
    String.intercalate "-" (program.name :: way) ++ " " ++ CommandLine.version ++ "\n"
  | bare _ | wrong _ => ""

def complaint (u : Usage) : String :=
  match u with
  | bare way => ((program.follow? way).map (·.helpText way false)).getD ""
  | wrong m => "error: " ++ m.message ++ "\n"
  | help _ _ | version _ => ""

def exitCode (u : Usage) : Nat :=
  match u with
  | help _ _ | version _ => 0
  | bare _ | wrong _ => 2

end Usage

end LanguageSessions.CommandLine
