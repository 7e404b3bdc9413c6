import LanguageSessions.CommandLine.Help
import LanguageSessions.CommandLine.Probe

namespace LanguageSessions.CommandLine

open Simulation

structure Outcome where
  host : Host
  printed : String
  exitCode : Nat

def App.world (a : App) (h : Host) (processId : Nat) (i : Option Interruption) : World :=
  let r : Registry :=
    { host := h
      timing := a.settings.timing
      providers := a.settings.providers
      contentTypes := a.settings.types
      locator := {}
      connect := World.connect (.ofHost processId) false
      processId := processId }
  { World.ofRegistry r (.ofHost processId) with interruption := i }

def App.answer (a : App) (h : Host) (processId : Nat) (i : Option Interruption) :
    Request → Host × Option Json
  | .servers missingOnly => (h, some (a.servers h missingOnly))
  | .createSettings ofUser force =>
    let (h, report) := a.createSettings h ofUser force
    (h, some report)
  | .showSettings ofUser => (h, some (a.showSettings h ofUser))
  | .settingsPath ofUser => (h, some (a.settingsPath h ofUser))
  | .probe file holdMillis withLog => inWorld (probe a file holdMillis withLog)
  | .attach root address extensions => inWorld (attach a root address extensions)
where
  inWorld (x : Attempt Json) : Host × Option Json :=
    let (report, w) := x.run (a.world h processId i)
    (w.registry.host, report)

def App.paths (a : App) (h : Host) (r : Request) : List String :=
  let commands := a.settings.servers.flatMap fun e =>
    Host.programPaths ((h.getEnv? "PATH").getD "") e.command
  let markers (dir : String) : List String :=
    ({} : ProjectLocator).markers.map (Path.join dir)
  match r with
  | .servers _ => commands
  | .probe word _ _ =>
    let file := Path.join a.root word
    commands ++ file :: (Path.ancestors file).flatMap markers
  | .attach root _ _ => [root]
  | _ => []

def Request.answer (r : Request) (h : Host) (processId : Nat) (i : Option Interruption) :
    Outcome :=
  match h.directory with
  | none =>
    let reason := "Failed to initialize: " ++ IoKind.notFound.systemText
    ⟨h, (failure reason).pretty ++ "\n", 2⟩
  | some place =>
    let (h, report) := (App.ofRoot h (FileTree.render place)).answer h processId i r
    ⟨h, report.elim "" (·.pretty ++ "\n"), 0⟩

def run (h : Host) (processId : Nat) (i : Option Interruption) (words : List String) : Outcome :=
  match Invocation.read words with
  | .error u => ⟨h, u.text, u.exitCode⟩
  | .ok v => v.request.answer h processId i

end LanguageSessions.CommandLine
