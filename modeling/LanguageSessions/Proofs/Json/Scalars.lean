import LanguageSessions.Json.Reader
import LanguageSessions.Proofs.Text.Decimal

namespace LanguageSessions.Json

theorem hexDigit?_hexChar {n : Nat} (h : n < 16) : hex4?.hexDigit? (hexChar n) = some n := by
  interval_cases n <;> decide

theorem hex4?_escape {c : Char} (h : c.toNat < 32) (rest : List Char) :
    hex4? ('0' :: '0' :: hexChar (c.toNat / 16) :: hexChar (c.toNat % 16) :: rest) =
      some (c.toNat, rest) := by
  have hzero : hex4?.hexDigit? '0' = some 0 := by decide
  have hhigh := hexDigit?_hexChar (n := c.toNat / 16) (by omega)
  have hlow := hexDigit?_hexChar (n := c.toNat % 16) (by omega)
  have hsum : ((0 * 16 + 0) * 16 + c.toNat / 16) * 16 + c.toNat % 16 = c.toNat := by omega
  simp only [hex4?, hzero, hhigh, hlow, hsum]

theorem unescape?_control {c : Char} (h : c.toNat < 32) (rest : List Char) :
    unescape? ('u' :: '0' :: '0' :: hexChar (c.toNat / 16) :: hexChar (c.toNat % 16) :: rest) =
      some (c, rest) := by
  have hlow : ¬ (0xDC00 ≤ c.toNat ∧ c.toNat ≤ 0xDFFF) := by omega
  have hhigh : ¬ (0xD800 ≤ c.toNat ∧ c.toNat ≤ 0xDBFF) := by omega
  simp only [unescape?, hex4?_escape h, if_neg hlow, if_neg hhigh, Char.ofNat_toNat]

theorem stringBody_escape (c : Char) (fuel : Nat) (acc rest : List Char) :
    stringBody (fuel + 1) acc (escape c ++ rest) = stringBody fuel (c :: acc) rest := by
  unfold escape
  split
  · next h => subst h; rfl
  split
  · next h => subst h; rfl
  split
  · next h => subst h; rfl
  split
  · next h => subst h; rfl
  split
  · next h => subst h; rfl
  split
  · next h => subst h; rfl
  split
  · next h => subst h; rfl
  split
  · next h =>
    simp only [List.cons_append, List.nil_append, stringBody, unescape?_control h]
    rfl
  · next hquote hback _ _ _ _ _ hcontrol =>
    simp only [List.singleton_append, stringBody, if_neg hquote, if_neg hback, if_neg hcontrol]

theorem stringBody_flatMap (cs : List Char) (fuel : Nat) (acc rest : List Char)
    (h : cs.length < fuel) :
    stringBody fuel acc (cs.flatMap escape ++ '"' :: rest) =
      some (String.ofList (acc.reverse ++ cs), rest) := by
  induction cs generalizing fuel acc with
  | nil =>
    obtain ⟨fuel, rfl⟩ : ∃ n, fuel = n + 1 := Nat.exists_eq_add_one_of_ne_zero (by omega)
    simp [stringBody]
  | cons c cs ih =>
    obtain ⟨fuel, rfl⟩ : ∃ n, fuel = n + 1 := Nat.exists_eq_add_one_of_ne_zero (by omega)
    rw [List.flatMap_cons, List.append_assoc, stringBody_escape, ih]
    · simp
    · simpa using h

theorem length_le_flatMap_escape (cs : List Char) : cs.length ≤ (cs.flatMap escape).length := by
  induction cs with
  | nil => exact Nat.le_refl _
  | cons c cs ih =>
    have hone : 1 ≤ (escape c).length := by
      unfold escape
      split_ifs <;> simp
    simp only [List.flatMap_cons, List.length_append, List.length_cons]
    omega

theorem stringBody_stringChars (s : String) (rest : List Char) :
    stringBody ((s.toList.flatMap escape ++ '"' :: rest).length + 1) []
        (s.toList.flatMap escape ++ '"' :: rest) = some (s, rest) := by
  have hlength := length_le_flatMap_escape s.toList
  rw [stringBody_flatMap]
  · simp
  · simp only [List.length_append, List.length_cons]
    omega

def Ends (cs : List Char) : Prop :=
  ∀ c ∈ cs.head?, c.isDigit = false ∧ c ≠ '.' ∧ c ≠ 'e' ∧ c ≠ 'E'

theorem Ends.startsWithDigit {cs : List Char} (h : Ends cs) : startsWithDigit cs = false := by
  cases cs with
  | nil => rfl
  | cons c cs => exact (h c rfl).1

theorem takeDigits_of_ends {cs : List Char} (h : Ends cs) (n count : Nat) :
    takeDigits n count cs = (n, count, cs) := by
  cases cs with
  | nil => rfl
  | cons c cs =>
    have hc : Text.digit? c = none := by simp [Text.digit?, (h c rfl).1]
    simp only [takeDigits, hc]

theorem takeDigits_append (ds : List Char) (n count : Nat) {rest : List Char}
    (hds : ∀ c ∈ ds, c.isDigit = true)
    (hmax : n * 10 ^ ds.length + Text.decimal ds ≤ Text.max64) (hrest : Ends rest) :
    takeDigits n count (ds ++ rest) =
      (n * 10 ^ ds.length + Text.decimal ds, count + ds.length, rest) := by
  induction ds generalizing n count with
  | nil =>
    rw [List.nil_append, takeDigits_of_ends hrest]
    simp [Text.decimal]
  | cons d ds ih =>
    have hdigit := Text.digit?_eq d (hds d List.mem_cons_self)
    have hvalue : n * 10 ^ (d :: ds).length + Text.decimal (d :: ds) =
        (n * 10 + (d.toNat - '0'.toNat)) * 10 ^ ds.length + Text.decimal ds := by
      rw [Text.decimal_cons, List.length_cons]
      generalize d.toNat - '0'.toNat = v
      ring
    rw [hvalue] at hmax ⊢
    have hfits : ¬ n * 10 + (d.toNat - '0'.toNat) > Text.max64 := by
      have hpow : 1 ≤ 10 ^ ds.length := Nat.one_le_pow _ _ (by decide)
      have hle := Nat.le_mul_of_pos_right (n * 10 + (d.toNat - '0'.toNat)) hpow
      omega
    simp only [List.cons_append, takeDigits, hdigit, if_neg hfits]
    rw [ih _ _ (fun c hc => hds c (List.mem_cons_of_mem _ hc)) hmax, List.length_cons,
      Nat.add_right_comm, Nat.add_assoc]

theorem finish_of_ends (s : Scan) {rest : List Char} (h : Ends rest) :
    number?.finish s true rest = s.integer.map (·, rest) := by
  unfold number?.finish
  split
  · exact absurd rfl (h '.' rfl).2.1
  · exact absurd rfl (h 'e' rfl).2.2.1
  · exact absurd rfl (h 'E' rfl).2.2.2
  · rfl

theorem number?_natChars (negative : Bool) {n : Nat} (h : n ≤ Text.max64) {rest : List Char}
    (hrest : Ends rest) :
    number? negative (natChars n ++ rest) =
      (Scan.integer ⟨negative, n, 0⟩).map (·, rest) := by
  by_cases hn : n = 0
  · subst hn
    have hzero : natChars 0 ++ rest = '0' :: rest := rfl
    rw [hzero]
    simp only [number?, hrest.startsWithDigit, finish_of_ends _ hrest]
    rfl
  · obtain ⟨d, ds, hds⟩ := List.exists_cons_of_ne_nil (natChars_ne_nil n)
    have hdigits : ∀ c ∈ natChars n, c.isDigit = true := fun c hc => isDigit_of_mem_natChars hc
    have hfirst : d ≠ '0' := by
      intro hd
      have hhead := head?_natChars_ne_zero hn
      rw [hds, hd] at hhead
      exact hhead rfl
    have hstart : startsWithDigit (natChars n ++ rest) = true := by
      rw [hds]
      exact hdigits d (by rw [hds]; exact List.mem_cons_self)
    have hvalue : 0 * 10 ^ (natChars n).length + Text.decimal (natChars n) = n := by
      rw [decimal_natChars]
      ring
    have htake := takeDigits_append (natChars n) 0 0 hdigits (by rw [hvalue]; exact h) hrest
    have hnone : rest.takeWhile Char.isDigit = [] ∧ rest.dropWhile Char.isDigit = rest := by
      cases rest with
      | nil => exact ⟨rfl, rfl⟩
      | cons c cs => simp [(hrest c rfl).1]
    unfold number?
    split
    · next heq =>
      rw [hds] at heq
      exact absurd (List.cons.inj heq).1 hfirst
    · simp only [hstart, htake, hvalue, hnone, if_true, List.length_nil, List.isEmpty_nil]
      exact finish_of_ends _ hrest

def fits64 (n : Int) : Prop := -(2 ^ 63 : Int) ≤ n ∧ n ≤ 2 ^ 64 - 1

instance (n : Int) : Decidable (fits64 n) := inferInstanceAs (Decidable (_ ∧ _))

end LanguageSessions.Json
