import LanguageSessions.Connection.Basic

/-!
Work that takes time. A piece of work is advanced at a point in time: it may have nothing to do
yet, go on, or be done. The first of them is an exchange, one request with the time at which it is
given up.
-/
namespace LanguageSessions

inductive Advance (σ α : Type) where
  | idle
  | on (work : σ)
  | done (result : α)

structure Exchange where
  id : Nat
  method : String
  millis : Nat
  due : Nat
  deriving DecidableEq, Repr

namespace Exchange

def start (c : Connection) (method : String) (params : Option Json) (millis now : Nat) :
    Connection × Except Fault Exchange :=
  match c.sendRequest method params with
  | (c, .error f) => (c, .error f)
  | (c, .ok id) => (c, .ok ⟨id, method, millis, now + millis⟩)

def advance (x : Exchange) (now : Nat) (c : Connection) :
    Connection × Option (Except Fault Json) :=
  match c.take? x.id with
  | (c, some r) => (c, some r)
  | (c, none) =>
    if x.due ≤ now then (c.cancelRequest x.id, some (.error (.timeout x.method x.millis)))
    else (c, none)

end Exchange

end LanguageSessions
