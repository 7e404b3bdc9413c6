import LanguageSessions.Host.SearchPath

/-!
Providers of servers. Each knows the content types it accepts and how its server is reached; it
declines where its command is not found. The command is looked for once, at the first question for
an accepted type, and the finding is kept.
-/
namespace LanguageSessions

inductive LaunchTarget where
  | command (program : String) (args : List String) (env : List (String × String))
  | socket (address : String)
  deriving DecidableEq, Repr

structure ServerDescription where
  name : String
  target : LaunchTarget
  deriving DecidableEq, Repr

structure Provider where
  contentTypes : List String
  description : ServerDescription
  found : Option Bool := none
  deriving DecidableEq, Repr

namespace Provider

def name (p : Provider) : String := p.description.name

def accepts (p : Provider) (contentType : String) : Bool := p.contentTypes.contains contentType

def isThere (p : Provider) (h : Host) : Bool :=
  match p.description.target with
  | .command program _ _ => (h.findCommand? program).isSome
  | .socket _ => true

def probe (p : Provider) (h : Host) : Provider × Bool :=
  match p.found with
  | some b => (p, b)
  | none => ({ p with found := some (p.isThere h) }, p.isThere h)

def describe (p : Provider) (h : Host) (contentType : String) :
    Provider × Option ServerDescription :=
  if p.accepts contentType then
    match p.probe h with
    | (p, true) => (p, some p.description)
    | (p, false) => (p, none)
  else (p, none)

def describeFirst (h : Host) (contentType : String) :
    List Provider → List Provider × Option ServerDescription
  | [] => ([], none)
  | p :: ps =>
    match p.describe h contentType with
    | (p, some d) => (p :: ps, some d)
    | (p, none) =>
      let (ps, d) := describeFirst h contentType ps
      (p :: ps, d)

def asked (h : Host) (contentType : String) : List Provider → List String
  | [] => []
  | p :: ps =>
    match (p.describe h contentType).2 with
    | some _ => [p.name]
    | none => p.name :: asked h contentType ps

end Provider

end LanguageSessions
