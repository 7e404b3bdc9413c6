import LanguageSessions.Text.Digits

namespace LanguageSessions

inductive IpAddress where
  | octets (bytes : List Nat)
  | groups (words : List Nat)
  deriving DecidableEq, Repr

namespace IpAddress

def octet? (s : String) : Option Nat :=
  let cs := s.toList
  if cs.length > 3 || (cs.length > 1 && cs.head? == some '0') then none
  else (Text.digits? cs).filter (· < 256)

def octets? (s : String) : Option (List Nat) :=
  ((s.splitOn ".").mapM octet?).filter (·.length == 4)

def hexDigit? (c : Char) : Option Nat :=
  if c.isDigit then some (c.toNat - '0'.toNat)
  else if 'a' ≤ c ∧ c ≤ 'f' then some (c.toNat - 'a'.toNat + 10)
  else if 'A' ≤ c ∧ c ≤ 'F' then some (c.toNat - 'A'.toNat + 10)
  else none

def group? (s : String) : Option Nat :=
  if s.isEmpty || s.length > 4 then none
  else s.toList.foldlM (fun n c => (hexDigit? c).map (n * 16 + ·)) 0

def row? (mixed : Bool) : List String → Option (List Nat)
  | [] => some []
  | [last] =>
    match (if mixed then octets? last else none) with
    | some [a, b, c, d] => some [a * 256 + b, c * 256 + d]
    | _ => (group? last).map ([·])
  | s :: rest => do
    let g ← group? s
    let gs ← row? mixed rest
    return g :: gs

def side? (mixed : Bool) (s : String) : Option (List Nat) :=
  if s.isEmpty then some [] else row? mixed (s.splitOn ":")

def groups? (s : String) : Option (List Nat) :=
  match s.splitOn "::" with
  | [all] => (side? true all).filter (·.length == 8)
  | [front, back] => do
    let front ← side? false front
    let back ← side? true back
    if front.length + back.length < 8 then
      return front ++ List.replicate (8 - front.length - back.length) 0 ++ back
    else none
  | _ => none

def parse? (s : String) : Option IpAddress :=
  match octets? s with
  | some bytes => some (.octets bytes)
  | none => (groups? s).map .groups

def octetsText (bytes : List Nat) : String := String.intercalate "." (bytes.map toString)

def rowText (words : List Nat) : String :=
  String.intercalate ":" (words.map fun w => String.ofList (Nat.toDigits 16 w))

def zerosAt (words : List Nat) (start : Nat) : Nat := ((words.drop start).takeWhile (· == 0)).length

def longestZeros (words : List Nat) : Nat × Nat :=
  (List.range words.length).foldl
    (fun best i => if best.2 < zerosAt words i then (i, zerosAt words i) else best) (0, 0)

def groupsText (words : List Nat) : String :=
  match words with
  | [0, 0, 0, 0, 0, 65535, hi, lo] =>
    "::ffff:" ++ octetsText [hi / 256, hi % 256, lo / 256, lo % 256]
  | _ =>
    let (start, length) := longestZeros words
    if length < 2 then rowText words
    else rowText (words.take start) ++ "::" ++ rowText (words.drop (start + length))

def withPort (a : IpAddress) (port : Nat) : String :=
  match a with
  | octets bytes => octetsText bytes ++ ":" ++ toString port
  | groups words => "[" ++ groupsText words ++ "]:" ++ toString port

def loopback : IpAddress := .octets [127, 0, 0, 1]

end IpAddress

end LanguageSessions
