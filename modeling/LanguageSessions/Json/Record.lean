import LanguageSessions.Json.Basic

namespace LanguageSessions.Json

inductive Error where
  | malformed
  | shape
  deriving DecidableEq, Repr

def fields? (names : List String) : Json → Option (List (Option Json))
  | v@(.object _) => some (names.map v.get?)
  | .array xs =>
    if xs.length ≤ names.length then
      some (xs.map some ++ List.replicate (names.length - xs.length) none)
    else none
  | _ => none

def required (read : Json → Option α) (field : Option Json) : Option α := field.bind read

def orElse (read : Json → Option α) (absent : α) : Option Json → Option α
  | none => some absent
  | some v => read v

def optional (read : Json → Option α) : Option Json → Option (Option α)
  | none => some none
  | some .null => some none
  | some v => (read v).map some

def string? : Json → Option String
  | .string s => some s
  | _ => none

def bool? : Json → Option Bool
  | .bool b => some b
  | _ => none

def integer? (low high : Int) : Json → Option Int
  | .integer n => if low ≤ n ∧ n ≤ high then some n else none
  | _ => none

def nat? (max : Nat) (v : Json) : Option Nat := (integer? 0 max v).map Int.toNat

def list? (read : Json → Option α) : Json → Option (List α)
  | .array xs => xs.mapM read
  | _ => none

end LanguageSessions.Json
