import LanguageSessions.Host.Basic
import LanguageSessions.Shell.Interpreter

namespace LanguageSessions

structure RunningProgram where
  directory : FileTree.Place
  activity : Activity Unit
  input : List UInt8 := []
  inputEnded : Bool := false
  wakeAt : Option Nat := some 0
  ended : Bool := false

namespace RunningProgram

def go (p : RunningProgram) (now : Nat) (t : FileTree) (out : List (List UInt8)) :
    Activity Unit → List UInt8 → RunningProgram × FileTree × List UInt8
  | .done _, _ | .exit, _ => ({ p with ended := true, wakeAt := none }, t, out.reverse.flatten)
  | .take next, b :: bs => p.go now t out (next (some b)) bs
  | .take next, [] =>
    if p.inputEnded then p.go now t out (next none) []
    else ({ p with activity := .take next, input := [], wakeAt := none }, t, out.reverse.flatten)
  | .write bytes next, bs => p.go now t (bytes :: out) next bs
  | .store path anew bytes next, bs =>
    let stored := if anew then t.write p.directory path bytes else t.append p.directory path bytes
    p.go now (stored.toOption.getD t) out next bs
  | .pause millis next, bs =>
    ({ p with activity := next (), input := bs, wakeAt := some (now + millis) }, t,
      out.reverse.flatten)

def feed (p : RunningProgram) (bytes : List UInt8) (last : Bool) : RunningProgram :=
  { p with input := p.input ++ bytes, inputEnded := p.inputEnded || last }

def advance (p : RunningProgram) (now : Nat) (t : FileTree) :
    RunningProgram × FileTree × List UInt8 :=
  if p.ended || p.wakeAt.any (now < ·) then (p, t, []) else p.go now t [] p.activity p.input

def finish : Nat → RunningProgram → FileTree → FileTree × List UInt8
  | 0, _, t => (t, [])
  | n + 1, p, t =>
    let (p, t, out) := p.advance (p.wakeAt.getD 0) t
    if p.ended || p.wakeAt.isNone then (t, out)
    else
      let (t, more) := p.finish n t
      (t, out ++ more)

end RunningProgram

namespace Host

def programPaths (searchPath program : String) : List String :=
  if program.toList.contains '/' then [program]
  else (searchPath.splitOn ":").map fun dir => Path.join dir program

def script? (h : Host) (content : List UInt8) : Except IoKind (List Shell.Instruction) :=
  let line := String.ofList (Utf8.decodeLossy (content.takeWhile (· != 10)))
  if line.startsWith "#!" then
    let interpreter := (((line.drop 2).toString.splitOn " ").filter (· != "")).headD ""
    if ["/bin/sh", "/bin/dash", "/usr/bin/sh"].contains interpreter then
      .ok ((Shell.Reader.script? (String.ofList (Utf8.decodeLossy content))).getD [])
    else if h.pathExists interpreter then .error .other
    else .error .notFound
  else .error .other

/-- Tries the places of a program in their order, and gives the place too. A file that may not be
run is reported only if no other one can be. -/
def findProgram (h : Host) (directory : FileTree.Place) (denied : Bool) :
    List String → Except IoKind (String × List Shell.Instruction)
  | [] => .error (if denied then .permissionDenied else .notFound)
  | path :: paths =>
    match h.tree.resolve directory path with
    | .error .notFound | .error .notADirectory => h.findProgram directory denied paths
    | .error kind => .error kind
    | .ok place =>
      match h.tree.node? place with
      | some (.file content true) =>
        match h.script? content with
        | .error .notFound => h.findProgram directory denied paths
        | .error kind => .error kind
        | .ok script => .ok (path, script)
      | _ => h.findProgram directory true paths

/-- Starts a program for a root. It runs in the root if that is a directory, else in the working
directory, with all variables of the host but for those it is given. -/
def startProgram (h : Host) (program : String) (args : List String) (env : List (String × String))
    (root : String) : Except IoKind RunningProgram :=
  let directory := match h.tree.resolve h.here root with
    | .ok place => if h.tree.isDirectoryAt place then place else h.here
    | .error _ => h.here
  let all := env.foldl (fun h v => h.setEnv v.1 (some v.2)) h
  let all := all.setEnv "PWD" (some (FileTree.render directory))
  let searchPath := (all.getEnv? "PATH").getD "/bin:/usr/bin"
  (if program == "" then .error .notFound
    else h.findProgram directory false (programPaths searchPath program)).map fun (path, script) =>
      { directory, activity := Shell.run script path all.environment args }

end Host

end LanguageSessions
