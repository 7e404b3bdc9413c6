/-!
How long things may take, in milliseconds.
-/
namespace LanguageSessions

structure Timing where
  keepAlive : Nat := 600000
  handshakePoll : Nat := 100
  handshakeTimeout : Option Nat := none
  requestTimeout : Nat := 500
  shutdownTimeout : Nat := 30000
  exitWait : Nat := 30000
  debounce : Nat := 500
  logging : Bool := false
  deriving DecidableEq, Repr

namespace Timing

def reapInterval (t : Timing) : Nat := max (t.keepAlive / 2) 1000

end Timing

def exitPoll : Nat := 100

end LanguageSessions
