import LanguageSessions.Decimal.Binary64

namespace LanguageSessions.Binary64

structure Digits where
  value : Nat
  power : Int
  deriving DecidableEq, Repr

structure Interval where
  low : Nat
  mid : Nat
  high : Nat
  den : Nat
  closed : Bool

def interval (x : Binary64) : Interval :=
  let (num, den) := x.ratio
  let unit := if 0 ≤ x.exponent then Nat.pow 2 x.exponent.toNat else 1
  let narrow := x.mantissa == Nat.pow 2 52 && x.exponent > minExponent
  let below := if narrow then unit else 2 * unit
  ⟨4 * num - below, 4 * num, 4 * num + 2 * unit, 4 * den, x.mantissa % 2 == 0⟩

def Interval.mem (i : Interval) (n d : Nat) : Bool :=
  let lower := i.low * d
  let upper := i.high * d
  let here := n * i.den
  if i.closed then lower ≤ here && here ≤ upper else lower < here && here < upper

def onGrid? (i : Interval) (k : Int) : Option Digits :=
  let (up, down) := if 0 ≤ k then (Nat.pow 10 k.toNat, 1) else (1, Nat.pow 10 (-k).toNat)
  let q := (i.mid * down) / (i.den * up)
  let inside (n : Nat) : Bool := n > 0 && i.mem (n * up) down
  let twice := 2 * ((i.mid * down) % (i.den * up))
  let nearer := if twice == i.den * up then q + q % 2 else if twice < i.den * up then q else q + 1
  let farther := if nearer == q then q + 1 else q
  if inside nearer then some ⟨nearer, k⟩
  else if inside farther then some ⟨farther, k⟩
  else none

def search (i : Interval) : Nat → Int → Digits
  | 0, k => ⟨0, k⟩
  | fuel + 1, k => (onGrid? i k).getD (search i fuel (k - 1))

def topPower (x : Binary64) : Int :=
  let bits : Int := (Nat.log2 x.mantissa : Int) + x.exponent + 1
  bits * 30103 / 100000 + 1

def shortest (x : Binary64) : Digits := search x.interval 40 x.topPower

end LanguageSessions.Binary64
