/-!
What a running program does, one step after another: it takes bytes of its input, writes output,
changes files, pauses and ends. An activity is a value, so that it can be carried on when more
input or a later time is there.
-/
namespace LanguageSessions

inductive Activity (α : Type) where
  | done (a : α)
  | exit
  | take (next : Option UInt8 → Activity α)
  | write (bytes : List UInt8) (next : Activity α)
  | store (path : String) (anew : Bool) (bytes : List UInt8) (next : Activity α)
  | pause (millis : Nat) (next : Unit → Activity α)

namespace Activity

def bind : Activity α → (α → Activity β) → Activity β
  | done a, f => f a
  | exit, _ => exit
  | take next, f => take fun b => (next b).bind f
  | write bytes next, f => write bytes (next.bind f)
  | store path anew bytes next, f => store path anew bytes (next.bind f)
  | pause millis next, f => pause millis fun u => (next u).bind f

instance : Monad Activity where
  pure := done
  bind := bind

/-- Carries an activity out inside another one, which gets what it wrote and goes on also after its
end; the last result, if any, comes with it. -/
def capture : List UInt8 → Activity α → Activity (List UInt8 × Option α)
  | out, done a => done (out, some a)
  | out, exit => done (out, none)
  | out, take next => take fun b => capture out (next b)
  | out, write bytes next => capture (out ++ bytes) next
  | out, store path anew bytes next => store path anew bytes (capture out next)
  | out, pause millis next => pause millis fun u => capture out (next u)

def supply : List UInt8 → Activity α → Activity (Option α)
  | _, done a => done (some a)
  | _, exit => done none
  | [], take next => supply [] (next none)
  | b :: bs, take next => supply bs (next (some b))
  | bs, write bytes next => write bytes (supply bs next)
  | bs, store path anew bytes next => store path anew bytes (supply bs next)
  | bs, pause millis next => pause millis fun u => supply bs (next u)

def takeBytes : Nat → List UInt8 → Activity (List UInt8)
  | 0, taken => done taken.reverse
  | n + 1, taken => take fun
    | none => done taken.reverse
    | some b => takeBytes n (b :: taken)

def takeLine : Nat → List UInt8 → Activity (List UInt8 × Bool)
  | 0, taken => done (taken.reverse, false)
  | n + 1, taken => take fun
    | none => done (taken.reverse, false)
    | some b => if b = 10 then done (taken.reverse, true) else takeLine n (b :: taken)

end Activity

end LanguageSessions
