import LanguageSessions.Fault

/-!
The client's end of a byte stream to one server, with the process behind it where there is one.
The far end takes messages from `outgoing` and puts bytes into `incoming`; either direction can
end on its own.
-/
namespace LanguageSessions

structure Process where
  pid : Option Nat := none
  alive : Bool := true
  kills : Nat := 0
  deriving DecidableEq, Repr

structure Channel where
  accepting : Bool := true
  finished : Bool := false
  outgoing : List String := []
  incoming : List UInt8 := []
  ended : Bool := false
  process : Option Process := none
  deriving Inhabited

namespace Channel

def write (c : Channel) (text : String) : Channel × Except Fault Unit :=
  if c.finished then (c, .error .notConnected)
  else if c.accepting then ({ c with outgoing := c.outgoing ++ [text] }, .ok ())
  else (c, .error (.io .brokenPipe "broken pipe"))

def finish (c : Channel) : Channel := { c with finished := true }

def deliver (c : Channel) (bytes : List UInt8) : Channel :=
  if c.ended then c else { c with incoming := c.incoming ++ bytes }

/-- The far end stops taking messages; those it has not taken are lost. -/
def deafen (c : Channel) : Channel := { c with accepting := false, outgoing := [] }

def hangUp (c : Channel) : Channel := { c.deafen with ended := true }

def processAlive (c : Channel) : Bool := c.process.any (·.alive)

def processDead (c : Channel) : Bool := c.process.any fun p => !p.alive

def die (c : Channel) : Channel :=
  { c with process := c.process.map fun p => { p with alive := false } }

def revive (c : Channel) : Channel :=
  { c with process := c.process.map fun p => { p with alive := true } }

/-- Kills the process, which takes the far end of the stream with it. -/
def kill (c : Channel) : Channel :=
  match c.process with
  | none => c
  | some p => { c.hangUp with process := some { p with alive := false, kills := p.kills + 1 } }

end Channel

end LanguageSessions
