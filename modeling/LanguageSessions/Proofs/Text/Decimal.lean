import Mathlib.Data.List.Induction
import Mathlib.Tactic.IntervalCases
import LanguageSessions.Json.Printer
import LanguageSessions.Proofs.Text.Unsigned

namespace LanguageSessions

namespace Text

theorem decimal_concat (cs : List Char) (c : Char) :
    decimal (cs ++ [c]) = decimal cs * 10 + (c.toNat - '0'.toNat) := by
  rw [decimal, List.reverse_concat, List.map_cons, Nat.ofDigits_cons, decimal]
  ring

theorem decimal_eq_ofDigitChars (cs : List Char) : decimal cs = Nat.ofDigitChars 10 cs 0 := by
  induction cs using List.reverseRecOn with
  | nil => rfl
  | append_singleton cs c ih =>
    rw [decimal_concat, ih, Nat.ofDigitChars_append, Nat.ofDigitChars_cons, Nat.ofDigitChars_nil]
    ring

end Text

namespace Json

theorem natChars_ne_nil (n : Nat) : natChars n ≠ [] := Nat.toDigits_ne_nil

theorem isDigit_of_mem_natChars {n : Nat} {c : Char} (h : c ∈ natChars n) : c.isDigit = true :=
  Nat.isDigit_of_mem_toDigits (by decide) (by decide) h

theorem decimal_natChars (n : Nat) : Text.decimal (natChars n) = n := by
  rw [Text.decimal_eq_ofDigitChars]
  exact Nat.ofDigitChars_toDigits (by decide) (by decide)

theorem natChars_of_lt {n : Nat} (h : n < 10) : natChars n = [n.digitChar] :=
  Nat.toDigits_of_lt_base h

theorem natChars_of_le {n : Nat} (h : 10 ≤ n) :
    natChars n = natChars (n / 10) ++ [(n % 10).digitChar] :=
  Nat.toDigits_of_base_le (by decide) h

theorem writes_natChars {max n : Nat} (h : n ≤ max) : Text.Writes max (natChars n) n :=
  ⟨natChars n, .inl rfl, natChars_ne_nil n, fun _ hc => isDigit_of_mem_natChars hc,
    (decimal_natChars n).symm, h⟩

theorem head?_natChars_ne_zero {n : Nat} (h : n ≠ 0) : (natChars n).head? ≠ some '0' := by
  induction n using Nat.strongRecOn with
  | ind n ih =>
    by_cases hn : n < 10
    · rw [natChars_of_lt hn]
      interval_cases n
      · exact absurd rfl h
      all_goals decide
    · have hrest := ih (n / 10) (by omega) (by omega)
      obtain ⟨c, cs, hcs⟩ := List.exists_cons_of_ne_nil (natChars_ne_nil (n / 10))
      rw [natChars_of_le (by omega), hcs]
      rwa [hcs] at hrest

end Json

end LanguageSessions
