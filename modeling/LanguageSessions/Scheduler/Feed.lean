import LanguageSessions.Scheduler.Basic

namespace LanguageSessions

structure Feed where
  capacity : Nat
  sent : Nat := 0
  closed : Bool := false
  deriving DecidableEq, Repr

namespace Feed

def ofCapacity (n : Nat) : Feed := { capacity := n.nextPowerOfTwo }

def publish (f : Feed) (n : Nat) : Feed := { f with sent := f.sent + n }

def oldest (f : Feed) : Nat := f.sent - f.capacity

end Feed

structure Follower where
  next : Nat
  deriving DecidableEq, Repr

inductive News where
  | announcement
  | missed (n : Nat)
  | closed
  deriving DecidableEq, Repr

namespace Follower

def ofFeed (f : Feed) : Follower := ⟨f.sent⟩

def hear? (w : Follower) (f : Feed) : Option (News × Follower) :=
  if w.next < f.oldest then some (.missed (f.oldest - w.next), ⟨f.oldest⟩)
  else if w.next < f.sent then some (.announcement, ⟨w.next + 1⟩)
  else if f.closed then some (.closed, w)
  else none

end Follower

def Scheduler.heed (s : Scheduler) : News → Scheduler
  | .closed => s
  | _ => s.postEvent .rerunAll

end LanguageSessions
