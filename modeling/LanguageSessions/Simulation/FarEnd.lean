import LanguageSessions.Provider
import LanguageSessions.Shell.Program
import LanguageSessions.Simulation.Script

namespace LanguageSessions.Simulation

inductive FarEnd where
  | scripted (s : ScriptedServer)
  | program (p : RunningProgram)

namespace FarEnd

def isBusy (e : FarEnd) (c : Channel) (now : Nat) : Bool :=
  match e with
  | scripted s => s.isBusy c now
  | program p =>
    c.processAlive && !p.ended
      && (p.wakeAt.any (· ≤ now) || !c.outgoing.isEmpty || (c.finished && !p.inputEnded))

def advance (e : FarEnd) (h : Host) (c : Channel) (now : Nat) : Host × Channel × FarEnd :=
  match e with
  | scripted s =>
    let (c, s) := s.advance c now
    (h, c, scripted s)
  | program p =>
    let p := p.feed (c.outgoing.flatMap Frame.encode) c.finished
    let (p, tree, out) := p.advance now h.tree
    let c := { c with outgoing := [] }.deliver out
    ({ h with tree := tree }, if p.ended then c.hangUp.die else c, program p)

def due? (e : FarEnd) (c : Channel) : Option Nat :=
  match e with
  | scripted s => s.due?
  | program p => if c.processAlive && !p.ended then p.wakeAt else none

def received (e : FarEnd) : List Json :=
  match e with
  | scripted s => s.received
  | program _ => []

def forgetReceived (e : FarEnd) : FarEnd :=
  match e with
  | scripted s => scripted { s with received := [] }
  | program p => program p

def die (e : FarEnd) (c : Channel) : Channel × FarEnd :=
  match e with
  | scripted s => let (c, s) := s.die c; (c, scripted s)
  | program p => (c.die, program p)

def revive (e : FarEnd) (c : Channel) : Channel × FarEnd :=
  match e with
  | scripted s => let (c, s) := s.revive c; (c, scripted s)
  | program p => (c, program p)

def process (e : FarEnd) (c : Channel) : Process :=
  match e with
  | scripted s => s.process c
  | program _ => c.process.getD { alive := false }

end FarEnd

abbrev Supply := Host → Nat → ServerDescription → String → Except Fault (Channel × FarEnd)

namespace Supply

def script (scripts : List Script) (n : Nat) : Script :=
  (scripts[n]? <|> scripts.getLast?).getD {}

def ofScripts (scripts : List Script) : Supply := fun _ n _ _ =>
  let s := script scripts n
  .ok (s.channel, .scripted { script := s })

def ofHost (processId : Nat) : Supply := fun h n d root =>
  let failure (what : String) (kind : IoKind) : Fault := .launch (what ++ ": " ++ kind.systemText)
  match d.target with
  | .socket address => .error (failure address .networkUnreachable)
  | .command program args env =>
    match h.startProgram program args env root with
    | .error kind => .error (failure program kind)
    | .ok p => .ok ({ process := some { pid := some (processId + n + 1) } }, .program p)

end Supply

end LanguageSessions.Simulation
