import Mathlib.Data.Nat.Digits.Defs
import LanguageSessions.Text.Digits

namespace LanguageSessions.Text

def decimal (cs : List Char) : Nat := Nat.ofDigits 10 (cs.reverse.map fun c => c.toNat - '0'.toNat)

/-- A text writes a number at most `max`: a plus sign or none, then at least one ASCII digit. -/
def Writes (max : Nat) (cs : List Char) (n : Nat) : Prop :=
  ∃ ds, (cs = ds ∨ cs = '+' :: ds) ∧ ds ≠ [] ∧ (∀ c ∈ ds, c.isDigit = true) ∧ n = decimal ds ∧ n ≤ max

theorem decimal_cons (c : Char) (cs : List Char) :
    decimal (c :: cs) = (c.toNat - '0'.toNat) * 10 ^ cs.length + decimal cs := by
  simp only [decimal, List.reverse_cons, List.map_append, List.map_cons, List.map_nil,
    Nat.ofDigits_append, List.length_map, List.length_reverse, Nat.ofDigits_singleton]
  rw [Nat.add_comm, Nat.mul_comm]

theorem digit?_eq (c : Char) (hc : c.isDigit = true) : digit? c = some (c.toNat - '0'.toNat) := by
  simp only [digit?, hc, if_true]

theorem foldlM_digits (cs : List Char) (a n : Nat) :
    cs.foldlM (fun n c => (digit? c).map (n * 10 + ·)) a = some n ↔
      (∀ c ∈ cs, c.isDigit = true) ∧ n = a * 10 ^ cs.length + decimal cs := by
  induction cs generalizing a with
  | nil =>
    simp only [List.foldlM_nil, Option.pure_def, Option.some.injEq, decimal, List.reverse_nil,
      List.map_nil, Nat.ofDigits_nil, List.length_nil, pow_zero, mul_one, Nat.add_zero,
      List.not_mem_nil, false_implies, implies_true, true_and]
    exact eq_comm
  | cons c cs ih =>
    by_cases hc : c.isDigit = true
    · have hv : a * 10 ^ (cs.length + 1) + ((c.toNat - '0'.toNat) * 10 ^ cs.length + decimal cs) =
          (a * 10 + (c.toNat - '0'.toNat)) * 10 ^ cs.length + decimal cs := by
        generalize c.toNat - '0'.toNat = d
        ring
      simp only [List.foldlM_cons, digit?_eq c hc, Option.map_some, Option.bind_eq_bind,
        Option.bind_some, List.mem_cons, forall_eq_or_imp, hc, true_and, List.length_cons]
      rw [ih, decimal_cons, hv]
    · simp [List.foldlM_cons, digit?, hc]

theorem digits?_eq_some_iff (cs : List Char) (n : Nat) :
    digits? cs = some n ↔ cs ≠ [] ∧ (∀ c ∈ cs, c.isDigit = true) ∧ n = decimal cs := by
  unfold digits?
  cases cs with
  | nil => simp
  | cons c cs =>
    rw [if_neg (by simp), foldlM_digits]
    simp

theorem unsigned?_eq_some_iff (max : Nat) (cs : List Char) (n : Nat) :
    unsigned? max cs = some n ↔ Writes max cs n := by
  have hread : ∀ ds, (digits? ds).filter (· ≤ max) = some n ↔
      ds ≠ [] ∧ (∀ c ∈ ds, c.isDigit = true) ∧ n = decimal ds ∧ n ≤ max := by
    intro ds
    rw [Option.filter_eq_some_iff, digits?_eq_some_iff]
    simp [and_assoc]
  unfold unsigned?
  split
  · next rest =>
    rw [hread]
    constructor
    · intro h
      exact ⟨rest, .inr rfl, h⟩
    · rintro ⟨ds, hcs | hcs, h⟩
      · have hplus := h.2.1 '+' (hcs ▸ List.mem_cons_self)
        exact absurd hplus (by decide)
      · cases hcs
        exact h
  · next hplus =>
    rw [hread]
    constructor
    · intro h
      exact ⟨cs, .inl rfl, h⟩
    · rintro ⟨ds, rfl | rfl, h⟩
      · exact h
      · exact absurd rfl (hplus ds)

theorem unsigned?_eq_none_iff (max : Nat) (cs : List Char) :
    unsigned? max cs = none ↔ ∀ n, ¬ Writes max cs n := by
  simp only [Option.eq_none_iff_forall_ne_some, ne_eq, unsigned?_eq_some_iff]

end LanguageSessions.Text
