import LanguageSessions.Json.Basic
import LanguageSessions.Decimal.Shortest

/-!
JSON text: compact, or over several lines with two blanks for each level. Floating point numbers
have the fewest digits that read back; they are positional from `1e-5` up to below `1e16`, always
with a decimal point, and scientific elsewhere.
-/
namespace LanguageSessions.Json

def natChars (n : Nat) : List Char := Nat.toDigits 10 n

def intChars (n : Int) : List Char :=
  if n < 0 then '-' :: natChars n.natAbs else natChars n.natAbs

def leastPositional : Int := -5

def leastScientific : Int := 16

def positional (ds : List Char) (e : Int) : List Char :=
  if e < 0 then '0' :: '.' :: (List.replicate (-e - 1).toNat '0' ++ ds)
  else
    let whole := e.toNat + 1
    let fraction := ds.drop whole
    ds.take whole ++ List.replicate (whole - ds.length) '0' ++ '.' ::
      (if fraction.isEmpty then ['0'] else fraction)

def scientific (ds : List Char) (e : Int) : List Char :=
  let mantissa := match ds with
    | [d] => [d]
    | d :: more => d :: '.' :: more
    | [] => []
  mantissa ++ 'e' :: (if 0 ≤ e then '+' else '-') :: natChars e.natAbs

def floatChars (x : Binary64) : List Char :=
  let sign := if x.negative then ['-'] else []
  if x.isZero then sign ++ "0.0".toList
  else
    let d := x.shortest
    let ds := natChars d.value
    let e := d.power + ds.length - 1
    sign ++ (if leastPositional ≤ e && e < leastScientific then positional ds e
      else scientific ds e)

def hexChar (n : Nat) : Char := (Nat.toDigits 16 n).headD '0'

def escape (c : Char) : List Char :=
  if c = '"' then ['\\', '"']
  else if c = '\\' then ['\\', '\\']
  else if c = '\n' then ['\\', 'n']
  else if c = '\r' then ['\\', 'r']
  else if c = '\t' then ['\\', 't']
  else if c = '\x08' then ['\\', 'b']
  else if c = '\x0c' then ['\\', 'f']
  else if c.toNat < 32 then ['\\', 'u', '0', '0', hexChar (c.toNat / 16), hexChar (c.toNat % 16)]
  else [c]

def stringChars (s : String) : List Char :=
  '"' :: s.toList.flatMap escape ++ ['"']

/-- Lays out a value; `open`, `between` and `close` give the text after an opening bracket, after
a comma and before a closing bracket at a depth, and `colon` the text after a key. -/
structure Layout where
  first : Nat → List Char
  between : Nat → List Char
  last : Nat → List Char
  colon : List Char

def Layout.compact : Layout := ⟨fun _ => [], fun _ => [','], fun _ => [], [':']⟩

def indent (depth : Nat) : List Char := '\n' :: List.replicate (2 * depth) ' '

def Layout.indented : Layout :=
  ⟨fun d => indent (d + 1), fun d => ',' :: indent (d + 1), indent, [':', ' ']⟩

mutual

def write (l : Layout) (depth : Nat) : Json → List Char
  | .null => ['n', 'u', 'l', 'l']
  | .bool true => ['t', 'r', 'u', 'e']
  | .bool false => ['f', 'a', 'l', 's', 'e']
  | .integer n => intChars n
  | .float x => floatChars x
  | .string s => stringChars s
  | .array [] => ['[', ']']
  | .array (x :: xs) =>
    '[' :: l.first depth ++ (write l (depth + 1) x ++ writeElements l depth xs)
      ++ (l.last depth ++ [']'])
  | .object [] => ['\x7b', '\x7d']
  | .object ((k, x) :: ms) =>
    '\x7b' :: l.first depth
      ++ (stringChars k ++ (l.colon ++ (write l (depth + 1) x ++ writeMembers l depth ms)))
      ++ (l.last depth ++ ['\x7d'])

def writeElements (l : Layout) (depth : Nat) : List Json → List Char
  | [] => []
  | x :: xs => l.between depth ++ (write l (depth + 1) x ++ writeElements l depth xs)

def writeMembers (l : Layout) (depth : Nat) : List (String × Json) → List Char
  | [] => []
  | (k, x) :: ms =>
    l.between depth
      ++ (stringChars k ++ (l.colon ++ (write l (depth + 1) x ++ writeMembers l depth ms)))

end

def compact (v : Json) : String := String.ofList (write .compact 0 v)

def pretty (v : Json) : String := String.ofList (write .indented 0 v)

end LanguageSessions.Json
