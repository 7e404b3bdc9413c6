import LanguageSessions.Connection.Exchange
import LanguageSessions.Session.Capabilities
import LanguageSessions.Session.Introduction
import LanguageSessions.Session.Timing

namespace LanguageSessions

inductive SessionState where
  | starting
  | ready
  | shuttingDown
  | terminated
  deriving DecidableEq, Repr

namespace SessionState

def all : List SessionState := [starting, ready, shuttingDown, terminated]

def name : SessionState → String
  | starting => "starting"
  | ready => "ready"
  | shuttingDown => "shuttingDown"
  | terminated => "terminated"

end SessionState

abbrev SessionId := Nat

structure Session where
  id : SessionId
  key : SessionKey
  root : String
  server : String
  connection : Connection
  timing : Timing
  state : SessionState := .starting
  announced : Option Capabilities := none
  opened : List String := []
  cleanedUp : Bool := false
  cleanups : Nat := 0

namespace Session

def start (h : Host) (id : SessionId) (key : SessionKey) (root server : String) (channel : Channel)
    (timing : Timing) : Session :=
  { id := id, key := key, root := root, server := server, timing := timing,
    connection := Connection.ofChannel h server root channel timing.logging }

def process (s : Session) : Option Process := s.connection.channel.process

def pid? (s : Session) : Option Nat := s.process.bind Process.pid

def isAlive (s : Session) : Bool :=
  match s.process with
  | some p => p.alive
  | none => !s.connection.closed

def isUsable (s : Session) : Bool :=
  s.state == .ready && s.isAlive && !s.connection.closed

def capabilities (s : Session) : Capabilities := s.announced.getD {}

def onConnection (s : Session) (f : Connection → Connection × α) : Session × α :=
  let (c, a) := f s.connection
  ({ s with connection := c }, a)

def notify (s : Session) (method : String) (params : Option Json) : Session × Except Fault Unit :=
  s.onConnection (·.notify method params)

def request (s : Session) (method : String) (params : Option Json) (now : Nat) :
    Session × Except Fault Exchange :=
  if s.isUsable then
    s.onConnection fun c => Exchange.start c method params s.timing.requestTimeout now
  else (s, .error .notConnected)

def queryAnswer (r : Except Fault Json) : Except Fault (Option Json) :=
  match r with
  | .ok v => .ok (some v)
  | .error f => if f.isTimeout then .ok none else .error f

def isOpen (s : Session) (file : String) : Bool :=
  s.opened.any fun f => Path.steps f == Path.steps file

def openFile (s : Session) (file : String) : Session × Bool :=
  if s.isOpen file then (s, false) else ({ s with opened := s.opened ++ [file] }, true)

def closeFile (s : Session) (file : String) : Session × Bool :=
  ({ s with opened := s.opened.filter fun f => Path.steps f != Path.steps file }, s.isOpen file)

def enterShuttingDown (s : Session) : Session :=
  match s.state with
  | .starting => { s with state := .shuttingDown }
  | .ready => { s with state := .shuttingDown }
  | _ => s

def killProcess (s : Session) : Session :=
  { s with connection := { s.connection with channel := s.connection.channel.kill } }

def killIfAlive (s : Session) : Session :=
  if s.process.any (·.alive) then s.killProcess else s

def kill (s : Session) : Session := { s.killIfAlive with state := .terminated }

def abandon (s : Session) : Session := ({ s with cleanedUp := true } : Session).kill

def shutdown (s : Session) : Session :=
  (s.enterShuttingDown.onConnection (·.sendRequest "shutdown" none)).1

/-- Lets go of a session that nobody holds; a server that was not cleaned up is killed. -/
def release (s : Session) : Session := if s.cleanedUp then s else s.killIfAlive

end Session

end LanguageSessions
