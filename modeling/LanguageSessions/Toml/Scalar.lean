import LanguageSessions.Decimal.Binary64
import LanguageSessions.Text.Digits
import LanguageSessions.Toml.Basic

namespace LanguageSessions.Toml

def isWordChar (c : Char) : Bool :=
  c.isAlphanum || c = '_' || c = '+' || c = '-' || c = '.' || c = ':'

def spaced? (isDigit : Char → Bool) (afterDigit : Bool) : List Char → Option (List Char)
  | [] => if afterDigit then some [] else none
  | c :: cs =>
    if c = '_' && afterDigit then spaced? isDigit false cs
    else if isDigit c then (spaced? isDigit true cs).map (c :: ·)
    else none

def wholeDigits? (cs : List Char) : Option (List Char) :=
  (spaced? Char.isDigit false cs).filter fun ds => ds.length == 1 || ds.head? != some '0'

def splitSign : List Char → Bool × List Char
  | '-' :: cs => (true, cs)
  | '+' :: cs => (false, cs)
  | cs => (false, cs)

def digitValue (c : Char) : Nat :=
  if c.isDigit then c.toNat - 48 else if c.isLower then c.toNat - 87 else c.toNat - 55

def valueIn (base : Nat) (ds : List Char) : Nat :=
  ds.foldl (fun n c => n * base + digitValue c) 0

def maxInteger : Nat := Nat.pow 2 63 - 1

def based? (base : Nat) (isDigit : Char → Bool) (cs : List Char) : Option Toml :=
  (spaced? isDigit false cs).bind fun ds =>
    let n := valueIn base ds
    if n ≤ maxInteger then some (.integer n) else none

def decimal? (cs : List Char) : Option Toml :=
  let (negative, cs) := splitSign cs
  (wholeDigits? cs).bind fun ds =>
    let n := valueIn 10 ds
    if negative then if n ≤ maxInteger + 1 then some (.integer (-(n : Int))) else none
    else if n ≤ maxInteger then some (.integer n)
    else none

def isHexDigit (c : Char) : Bool :=
  c.isDigit || ('a' ≤ c && c ≤ 'f') || ('A' ≤ c && c ≤ 'F')

def isOctalDigit (c : Char) : Bool := '0' ≤ c && c ≤ '7'

def isBinaryDigit (c : Char) : Bool := c = '0' || c = '1'

def integer? : List Char → Option Toml
  | '0' :: 'x' :: cs => based? 16 isHexDigit cs
  | '0' :: 'o' :: cs => based? 8 isOctalDigit cs
  | '0' :: 'b' :: cs => based? 2 isBinaryDigit cs
  | cs => decimal? cs

def sureExponent : Int := 400

def overflows (digits : List Char) (exponent : Int) : Bool :=
  let n := valueIn 10 digits
  if n = 0 then false
  else if exponent + digits.length > sureExponent then true
  else if exponent < 0 then (Binary64.ofRatio? false n (Nat.pow 10 (-exponent).toNat)).isNone
  else (Binary64.ofNat? false (n * Nat.pow 10 exponent.toNat)).isNone

def float? (cs : List Char) : Option Toml :=
  let (negative, body) := splitSign cs
  let isExponent (c : Char) : Bool := c = 'e' || c = 'E'
  let mantissa := body.takeWhile fun c => !isExponent c
  let power := (body.dropWhile fun c => !isExponent c).drop 1
  let hasPower := body.any isExponent
  let whole := mantissa.takeWhile (· != '.')
  let fraction := (mantissa.dropWhile (· != '.')).drop 1
  let hasFraction := mantissa.contains '.'
  let (minus, powerBody) := splitSign power
  match wholeDigits? whole,
      if hasFraction then spaced? Char.isDigit false fraction else some [],
      if hasPower then spaced? Char.isDigit false powerBody else some [] with
  | some ws, some fs, some ps =>
    let p := valueIn 10 (ps.take 12) * Nat.pow 10 (min (ps.length - 12) 1)
    let exponent : Int := (if minus then -(p : Int) else p) - fs.length
    if !hasFraction && !hasPower then none
    else if !negative && overflows (ws ++ fs) exponent then none
    else some (.float (String.ofList cs))
  | _, _, _ => none

def special? (cs : List Char) : Option Toml :=
  let body := match cs with
    | '+' :: rest | '-' :: rest => rest
    | _ => cs
  if body = ['i', 'n', 'f'] || body = ['n', 'a', 'n'] then some (.float (String.ofList cs)) else none

def fixed? (count : Nat) (cs : List Char) : Option (Nat × List Char) :=
  let ds := cs.take count
  if ds.length = count && ds.all Char.isDigit then some (valueIn 10 ds, cs.drop count) else none

def isLeapYear (y : Nat) : Bool := y % 4 == 0 && (y % 100 != 0 || y % 400 == 0)

def daysIn (year month : Nat) : Nat :=
  if month == 2 then if isLeapYear year then 29 else 28
  else if month == 4 || month == 6 || month == 9 || month == 11 then 30
  else 31

def afterDate? (cs : List Char) : Option (List Char) :=
  match fixed? 4 cs with
  | some (year, '-' :: cs) =>
    match fixed? 2 cs with
    | some (month, '-' :: cs) =>
      match fixed? 2 cs with
      | some (day, cs) =>
        if 1 ≤ month && month ≤ 12 && 1 ≤ day && day ≤ daysIn year month then some cs else none
      | none => none
    | _ => none
  | _ => none

def afterClock? (cs : List Char) : Option (List Char) :=
  match fixed? 2 cs with
  | some (hour, ':' :: cs) =>
    match fixed? 2 cs with
    | some (minute, cs) => if hour ≤ 23 && minute ≤ 59 then some cs else none
    | none => none
  | _ => none

def afterTime? (cs : List Char) : Option (List Char) :=
  match afterClock? cs with
  | some (':' :: cs) =>
    match fixed? 2 cs with
    | some (second, cs) =>
      if second > 60 then none
      else
        match cs with
        | '.' :: cs =>
          if (cs.head?).any Char.isDigit then some (cs.dropWhile Char.isDigit) else none
        | _ => some cs
    | none => none
  | _ => none

def isTime (withOffset : Bool) (cs : List Char) : Bool :=
  match afterTime? cs with
  | none => false
  | some [] => true
  | some ['Z'] | some ['z'] => withOffset
  | some ('+' :: cs) | some ('-' :: cs) => withOffset && afterClock? cs == some []
  | some _ => false

def isDate (cs : List Char) : Bool := afterDate? cs == some []

def moment? (cs : List Char) : Option Toml :=
  let good := match afterDate? cs with
    | some [] => true
    | some ('T' :: rest) | some ('t' :: rest) => isTime true rest
    | some _ => false
    | none => isTime false cs
  if good then some (.moment (String.ofList cs)) else none

def word? (cs : List Char) : Option Toml :=
  if cs = "true".toList then some (.bool true)
  else if cs = "false".toList then some (.bool false)
  else (special? cs).or ((moment? cs).or ((integer? cs).or (float? cs)))

def takeWord (cs : List Char) : List Char × List Char :=
  let w := cs.takeWhile isWordChar
  let rest := cs.dropWhile isWordChar
  match rest with
  | ' ' :: more =>
    if isDate w && (more.head?).any Char.isDigit then
      (w ++ 'T' :: more.takeWhile isWordChar, more.dropWhile isWordChar)
    else (w, rest)
  | _ => (w, rest)

end LanguageSessions.Toml
