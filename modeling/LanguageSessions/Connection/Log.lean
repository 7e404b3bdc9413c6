namespace LanguageSessions

inductive LogLevel where
  | error
  | warning
  | info
  | log
  | debug
  deriving DecidableEq, Repr

namespace LogLevel

def number : LogLevel → Nat
  | error => 1
  | warning => 2
  | info => 3
  | log => 4
  | debug => 5

def ofNumber? : Nat → Option LogLevel
  | 1 => some error
  | 2 => some warning
  | 3 => some info
  | 4 => some log
  | 5 => some debug
  | _ => none

end LogLevel

structure LogLine where
  level : LogLevel
  message : String
  deriving DecidableEq, Repr

structure ServerLog where
  enabled : Bool := false
  capacity : Nat := 5000
  newest : List LogLine := []
  size : Nat := 0

namespace ServerLog

def ofCapacity (enabled : Bool) (capacity : Nat) : ServerLog :=
  { enabled := enabled, capacity := max capacity 1 }

def record (l : ServerLog) (line : LogLine) : ServerLog :=
  if !l.enabled || l.newest.head? == some line then l
  else if l.size < l.capacity then { l with newest := line :: l.newest, size := l.size + 1 }
  else { l with newest := line :: l.newest.take (l.capacity - 1), size := l.capacity }

def enable (l : ServerLog) (on : Bool) : ServerLog := { l with enabled := on }

def clear (l : ServerLog) : ServerLog := { l with newest := [], size := 0 }

def lines (l : ServerLog) : List LogLine := l.newest.reverse

end ServerLog

end LanguageSessions
