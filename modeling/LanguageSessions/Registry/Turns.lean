namespace LanguageSessions

structure Turns where
  holder : Option Nat := none
  waiting : List Nat := []
  deriving DecidableEq, Repr

namespace Turns

def isFree (t : Turns) (caller : Nat) : Bool :=
  t.holder.isNone && (t.waiting.head?.all (· == caller))

def enter (t : Turns) (caller : Nat) : Turns × Bool :=
  if t.isFree caller then ({ holder := some caller, waiting := t.waiting.erase caller }, true)
  else if t.waiting.contains caller then (t, false)
  else ({ t with waiting := t.waiting ++ [caller] }, false)

def leave (t : Turns) : Turns := { t with holder := none }

end Turns

end LanguageSessions
