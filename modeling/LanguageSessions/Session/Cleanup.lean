import LanguageSessions.Session.Basic

/-!
The cleanup of a session, which happens once. `Session.dispose` asks the server to shut down,
tells it to exit, and waits for its process before killing it; `Session.shutdownAndKill` does not
wait for the process.
-/
namespace LanguageSessions

inductive Cleanup where
  | asking (gentle : Bool) (x : Exchange)
  | leaving (deadline due : Nat)
  deriving DecidableEq, Repr

namespace Cleanup

def due : Cleanup → Nat
  | asking _ x => x.due
  | leaving _ due => due

def terminated (s : Session) : Session := { s with state := .terminated }

def close (s : Session) : Session := (s.onConnection fun c => (c.close, ())).1

def look (deadline now : Nat) (s : Session) : Session × Advance Cleanup Unit :=
  if !s.connection.channel.processAlive then (terminated s, .done ())
  else if deadline ≤ now then (terminated s.killProcess, .done ())
  else (s, .on (.leaving deadline (now + exitPoll)))

def depart (now : Nat) (s : Session) : Session × Advance Cleanup Unit :=
  look (now + s.timing.exitWait) now (close s)

def afterAsking (gentle : Bool) (now : Nat) (s : Session) : Session × Advance Cleanup Unit :=
  if gentle then depart now (s.notify "exit" none).1
  else (terminated (close s.kill), .done ())

def ask (gentle : Bool) (now : Nat) (s : Session) : Session × Advance Cleanup Unit :=
  match s.onConnection fun c => Exchange.start c "shutdown" none s.timing.shutdownTimeout now with
  | (s, .error _) => afterAsking gentle now s
  | (s, .ok x) => (s, .on (.asking gentle x))

def advance (w : Cleanup) (now : Nat) (s : Session) : Session × Advance Cleanup Unit :=
  match w with
  | asking gentle x =>
    match s.onConnection (x.advance now) with
    | (s, none) => (s, .idle)
    | (s, some _) => afterAsking gentle now s
  | leaving deadline due => if due ≤ now then look deadline now s else (s, .idle)

end Cleanup

namespace Session

def beginCleanup (s : Session) : Session :=
  ({ s with cleanedUp := true, cleanups := s.cleanups + 1 } : Session).enterShuttingDown

def dispose (s : Session) (now : Nat) : Session × Advance Cleanup Unit :=
  if s.cleanedUp then (s, .done ())
  else
    let s := s.beginCleanup
    if s.isAlive then Cleanup.ask true now s else Cleanup.depart now s

def shutdownAndKill (s : Session) (now : Nat) : Session × Advance Cleanup Unit :=
  if s.cleanedUp then (s, .done ())
  else Cleanup.ask false now s.beginCleanup

end Session

end LanguageSessions
