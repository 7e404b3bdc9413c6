/-!
Binary floating point of 64 bits, finite values only, in exact natural arithmetic. `ofRatio?`
rounds a quotient to the nearest value, a tie to the even mantissa, and has no result where the
quotient is too large.
-/
namespace LanguageSessions

structure Binary64 where
  negative : Bool
  mantissa : Nat
  exponent : Int
  deriving DecidableEq, Repr, Inhabited

namespace Binary64

def minExponent : Int := -1074

def maxExponent : Int := 971

def zero (negative : Bool) : Binary64 := ⟨negative, 0, minExponent⟩

def isZero (x : Binary64) : Bool := x.mantissa == 0

def ratio (x : Binary64) : Nat × Nat :=
  if 0 ≤ x.exponent then (x.mantissa * Nat.pow 2 x.exponent.toNat, 1)
  else (x.mantissa, Nat.pow 2 (-x.exponent).toNat)

def roundDiv (num den : Nat) : Nat :=
  let q := num / den
  let twice := 2 * (num % den)
  if twice > den || (twice == den && q % 2 == 1) then q + 1 else q

def roundAt (num den : Nat) (e : Int) : Nat :=
  if 0 ≤ e then roundDiv num (den * Nat.pow 2 e.toNat) else roundDiv (num * Nat.pow 2 (-e).toNat) den

def exponentOf (num den : Nat) : Int :=
  let guess : Int := (Nat.log2 num : Int) - (Nat.log2 den : Int)
  let below := if 0 ≤ guess then num < den * Nat.pow 2 guess.toNat else num * Nat.pow 2 (-guess).toNat < den
  max ((if below then guess - 1 else guess) - 52) minExponent

def ofRatio? (negative : Bool) (num den : Nat) : Option Binary64 :=
  if num == 0 then some (zero negative)
  else
    let e := exponentOf num den
    let m := roundAt num den e
    let (m, e) := if m == Nat.pow 2 53 then (Nat.pow 2 52, e + 1) else (m, e)
    if e > maxExponent then none else some ⟨negative, m, e⟩

def ofNat? (negative : Bool) (n : Nat) : Option Binary64 := ofRatio? negative n 1

def timesTen? (x : Binary64) (k : Nat) : Option Binary64 :=
  match ofNat? false (Nat.pow 10 k) with
  | none => none
  | some p => ofRatio? x.negative (x.ratio.1 * p.ratio.1) (x.ratio.2 * p.ratio.2)

def overTen? (x : Binary64) (k : Nat) : Option Binary64 :=
  match ofNat? false (Nat.pow 10 k) with
  | none => none
  | some p => ofRatio? x.negative (x.ratio.1 * p.ratio.2) (x.ratio.2 * p.ratio.1)

def maxPower : Nat := 308

/-- Scales by ten to the power `k`: upward in one step, downward in steps of at most
`maxPower`, each step rounded. -/
def scale? (x : Binary64) (k : Int) : Option Binary64 :=
  if 0 ≤ k then
    if x.isZero then some x else if k.toNat ≤ maxPower then x.timesTen? k.toNat else none
  else down 3 x (-k).toNat
where
  down : Nat → Binary64 → Nat → Option Binary64
    | 0, x, _ => some (zero x.negative)
    | fuel + 1, x, k =>
      if x.isZero then some x
      else if k ≤ maxPower then x.overTen? k
      else (x.overTen? maxPower).bind fun y => down fuel y (k - maxPower)

end Binary64

end LanguageSessions
