import LanguageSessions.Json.Basic
import LanguageSessions.Text.Utf8
import LanguageSessions.Text.Digits

/-!
Reads JSON text strictly: one value with white space around it, at most `maxDepth` brackets deep.
Integers from `-2 ^ 63` to `2 ^ 64 - 1` stay integers; every other number becomes the binary value
got by scaling its first digits, as many as fit into 64 bits.
-/
namespace LanguageSessions.Json

def maxDepth : Nat := 127

def isSpace (c : Char) : Bool := c = ' ' || c = '\n' || c = '\t' || c = '\r'

def skipSpace (cs : List Char) : List Char := cs.dropWhile isSpace

def hex4? : List Char → Option (Nat × List Char)
  | a :: b :: c :: d :: rest =>
    match hexDigit? a, hexDigit? b, hexDigit? c, hexDigit? d with
    | some a, some b, some c, some d => some (((a * 16 + b) * 16 + c) * 16 + d, rest)
    | _, _, _, _ => none
  | _ => none
where
  hexDigit? (c : Char) : Option Nat :=
    if c.isDigit then some (c.toNat - 48)
    else if 'a' ≤ c ∧ c ≤ 'f' then some (c.toNat - 87)
    else if 'A' ≤ c ∧ c ≤ 'F' then some (c.toNat - 55)
    else none

def unescape? : List Char → Option (Char × List Char)
  | 'u' :: rest =>
    match hex4? rest with
    | none => none
    | some (high, rest) =>
      if 0xDC00 ≤ high ∧ high ≤ 0xDFFF then none
      else if 0xD800 ≤ high ∧ high ≤ 0xDBFF then
        match rest with
        | '\\' :: 'u' :: rest =>
          match hex4? rest with
          | some (low, rest) =>
            if 0xDC00 ≤ low ∧ low ≤ 0xDFFF then
              some (Char.ofNat (0x10000 + (high - 0xD800) * 1024 + (low - 0xDC00)), rest)
            else none
          | none => none
        | _ => none
      else some (Char.ofNat high, rest)
  | c :: rest =>
    match c with
    | '"' => some ('"', rest)
    | '\\' => some ('\\', rest)
    | '/' => some ('/', rest)
    | 'b' => some ('\x08', rest)
    | 'f' => some ('\x0c', rest)
    | 'n' => some ('\n', rest)
    | 'r' => some ('\r', rest)
    | 't' => some ('\t', rest)
    | _ => none
  | [] => none

def stringBody (fuel : Nat) (acc : List Char) (cs : List Char) : Option (String × List Char) :=
  match fuel, cs with
  | 0, _ => none
  | _, [] => none
  | fuel + 1, c :: rest =>
    if c = '"' then some (String.ofList acc.reverse, rest)
    else if c = '\\' then
      match unescape? rest with
      | some (d, rest) => stringBody fuel (d :: acc) rest
      | none => none
    else if c.toNat < 32 then none
    else stringBody fuel (c :: acc) rest

/-- A number under way: its digits as far as they fit into 64 bits, the digits dropped before and
the digits kept after the decimal point as a power of ten. -/
structure Scan where
  negative : Bool
  significand : Nat
  power : Int

def Scan.float? (s : Scan) : Option Json :=
  (Binary64.ofNat? false s.significand).bind fun x =>
    (x.scale? s.power).map fun x => .float { x with negative := s.negative }

def Scan.integer (s : Scan) : Option Json :=
  if !s.negative then some (.integer s.significand)
  else if s.significand = 0 ∨ Nat.pow 2 63 < s.significand then s.float?
  else some (.integer (-(s.significand : Int)))

def takeDigits (significand count : Nat) : List Char → Nat × Nat × List Char
  | [] => (significand, count, [])
  | c :: rest =>
    match Text.digit? c with
    | none => (significand, count, c :: rest)
    | some d =>
      let next := significand * 10 + d
      if next > Text.max64 then (significand, count, c :: rest) else takeDigits next (count + 1) rest

def startsWithDigit : List Char → Bool
  | c :: _ => c.isDigit
  | [] => false

def maxExponent : Nat := Nat.pow 2 31 - 1

/-- The part after an `e`. An exponent beyond `maxExponent` gives zero, or no number where it
would be infinite. -/
def exponent? (s : Scan) (cs : List Char) : Option (Json × List Char) :=
  let (minus, cs) := match cs with
    | '+' :: rest => (false, rest)
    | '-' :: rest => (true, rest)
    | _ => (false, cs)
  let ds := cs.takeWhile Char.isDigit
  let rest := cs.dropWhile Char.isDigit
  match Text.digits? ds with
  | none => none
  | some e =>
    if e > maxExponent then
      if s.significand ≠ 0 ∧ !minus then none else some (.float (.zero s.negative), rest)
    else
      let power := if minus then s.power - e else s.power + e
      ({ s with power := power } : Scan).float?.map (·, rest)

def scaled? (s : Scan) : List Char → Option (Json × List Char)
  | 'e' :: rest => exponent? s rest
  | 'E' :: rest => exponent? s rest
  | cs => s.float?.map (·, cs)

def fraction? (s : Scan) (cs : List Char) : Option (Json × List Char) :=
  if startsWithDigit cs then
    let (significand, count, rest) := takeDigits s.significand 0 cs
    scaled? { s with significand := significand, power := s.power - count }
      (rest.dropWhile Char.isDigit)
  else none

def number? (negative : Bool) (cs : List Char) : Option (Json × List Char) :=
  match cs with
  | '0' :: rest => if startsWithDigit rest then none else finish ⟨negative, 0, 0⟩ true rest
  | _ =>
    if startsWithDigit cs then
      let (significand, _, rest) := takeDigits 0 0 cs
      let dropped := rest.takeWhile Char.isDigit
      finish ⟨negative, significand, dropped.length⟩ dropped.isEmpty (rest.dropWhile Char.isDigit)
    else none
where
  finish (s : Scan) (whole : Bool) : List Char → Option (Json × List Char)
    | '.' :: rest => fraction? s rest
    | cs@('e' :: _) => scaled? s cs
    | cs@('E' :: _) => scaled? s cs
    | cs => if whole then s.integer.map (·, cs) else s.float?.map (·, cs)

mutual

def value? (fuel depth : Nat) (cs : List Char) : Option (Json × List Char) :=
  match fuel with
  | 0 => none
  | fuel + 1 =>
    match skipSpace cs with
    | 'n' :: 'u' :: 'l' :: 'l' :: rest => some (.null, rest)
    | 't' :: 'r' :: 'u' :: 'e' :: rest => some (.bool true, rest)
    | 'f' :: 'a' :: 'l' :: 's' :: 'e' :: rest => some (.bool false, rest)
    | '"' :: rest => (stringBody (rest.length + 1) [] rest).map fun p => (.string p.1, p.2)
    | '[' :: rest =>
      match depth with
      | 0 => none
      | depth + 1 =>
        match skipSpace rest with
        | ']' :: rest => some (.array [], rest)
        | rest => elements? fuel depth [] rest
    | '\x7b' :: rest =>
      match depth with
      | 0 => none
      | depth + 1 =>
        match skipSpace rest with
        | '\x7d' :: rest => some (.object [], rest)
        | rest => members? fuel depth [] rest
    | '-' :: rest => number? true rest
    | cs => number? false cs

def elements? (fuel depth : Nat) (acc : List Json) (cs : List Char) : Option (Json × List Char) :=
  match fuel with
  | 0 => none
  | fuel + 1 =>
    match value? fuel depth cs with
    | none => none
    | some (v, rest) =>
      match skipSpace rest with
      | ',' :: rest => elements? fuel depth (v :: acc) rest
      | ']' :: rest => some (.array (v :: acc).reverse, rest)
      | _ => none

def members? (fuel depth : Nat) (acc : List (String × Json)) (cs : List Char) :
    Option (Json × List Char) :=
  match fuel with
  | 0 => none
  | fuel + 1 =>
    match skipSpace cs with
    | '"' :: rest =>
      match stringBody (rest.length + 1) [] rest with
      | none => none
      | some (key, rest) =>
        match skipSpace rest with
        | ':' :: rest =>
          match value? fuel depth rest with
          | none => none
          | some (v, rest) =>
            match skipSpace rest with
            | ',' :: rest => members? fuel depth (insert key v acc) rest
            | '\x7d' :: rest => some (.object (insert key v acc), rest)
            | _ => none
        | _ => none
    | _ => none

end

def parse? (text : String) : Option Json :=
  let cs := text.toList
  match value? (2 * cs.length + 2) maxDepth cs with
  | some (v, rest) => if (skipSpace rest).isEmpty then some v else none
  | none => none

end LanguageSessions.Json
