import LanguageSessions.Session.Basic

/-!
The opening exchange. The client introduces itself and waits for the server's answer, looking now
and then whether the server is still there and whether the time is over. Trouble with the answer
leaves a session without capabilities; only a server that is gone leaves none.
-/
namespace LanguageSessions

structure HandshakeOutcome where
  capabilities : Capabilities := {}
  exited : Bool := false
  timedOut : Bool := false

structure Handshake where
  request : Nat
  started : Nat
  due : Nat

namespace Handshake

def interval (t : Timing) : Nat := max t.handshakePoll 1

def start (h : Host) (processId now : Nat) (s : Session) : Session × Except Fault Handshake :=
  let params := introduction h (some processId) s.root
  match s.onConnection (·.sendRequest "initialize" (some params)) with
  | (s, .error f) => (s, .error f)
  | (s, .ok id) => (s, .ok ⟨id, now, now + interval s.timing⟩)

def accept (s : Session) (o : HandshakeOutcome) : Session :=
  { s with
    announced := s.announced <|> some o.capabilities
    state := if s.state = .starting then .ready else s.state }

/-- Takes the server's answer. Only a value that is not null is confirmed to the server; one that
cannot be read announces nothing. -/
def finish (s : Session) (v : Json) : Session × Except Fault HandshakeOutcome :=
  if v.isNull then (accept s {}, .ok {})
  else
    match s.notify "initialized" (some (.object [])) with
    | (s, .error f) => (s, .error f)
    | (s, .ok ()) =>
      let o : HandshakeOutcome := { capabilities := (Capabilities.ofJson? v).getD {} }
      (accept s o, .ok o)

def isOver (hs : Handshake) (now : Nat) (t : Timing) : Bool :=
  t.handshakeTimeout.any fun limit => hs.started + limit ≤ now

def look (hs : Handshake) (now : Nat) (s : Session) :
    Session × Advance Handshake (Except Fault HandshakeOutcome) :=
  if s.connection.channel.processDead || s.connection.closed then
    (s, .done (.ok { exited := true }))
  else if hs.isOver now s.timing then
    let o : HandshakeOutcome := { timedOut := true }
    let (s, ()) := s.onConnection fun c => (c.cancelRequest hs.request, ())
    (accept s o, .done (.ok o))
  else (s, .on { hs with due := now + interval s.timing })

def advance (hs : Handshake) (now : Nat) (s : Session) :
    Session × Advance Handshake (Except Fault HandshakeOutcome) :=
  match s.onConnection (·.take? hs.request) with
  | (s, some (.ok v)) =>
    let (s, r) := finish s v
    (s, .done r)
  | (s, some (.error .connectionClosed)) => (s, .done (.ok { exited := true }))
  | (s, some (.error _)) => (accept s {}, .done (.ok {}))
  | (s, none) => if hs.due ≤ now then hs.look now s else (s, .idle)

end Handshake

end LanguageSessions
