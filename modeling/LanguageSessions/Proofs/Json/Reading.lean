import LanguageSessions.Json.Reader
import LanguageSessions.Proofs.Json.RoundTrip
import LanguageSessions.Proofs.Lists.Sorted

namespace LanguageSessions.Json

def isBounded : Json → Bool
  | .integer n => decide (fits64 n)
  | _ => true

def bounded (v : Json) : Bool := every isBounded v

def isFloatless : Json → Bool
  | .float _ => false
  | _ => true

def floatless (v : Json) : Bool := every isFloatless v

theorem bounded_array (xs : List Json) :
    bounded (.array xs) = true ↔ ∀ x ∈ xs, x.bounded = true := by
  rw [bounded, every_array]
  exact and_iff_right rfl

theorem bounded_object (ms : List (String × Json)) :
    bounded (.object ms) = true ↔ ∀ m ∈ ms, m.2.bounded = true := by
  rw [bounded, every_object]
  exact and_iff_right rfl

theorem floatless_array (xs : List Json) :
    floatless (.array xs) = true ↔ ∀ x ∈ xs, x.floatless = true := by
  rw [floatless, every_array]
  exact and_iff_right rfl

theorem floatless_object (ms : List (String × Json)) :
    floatless (.object ms) = true ↔ ∀ m ∈ ms, m.2.floatless = true := by
  rw [floatless, every_object]
  exact and_iff_right rfl

theorem exact_iff (v : Json) : v.exact = true ↔ v.bounded = true ∧ v.floatless = true := by
  induction v using parts with
  | array xs ih =>
    rw [exact_array, bounded_array, floatless_array, ← forall₂_and]
    exact forall₂_congr ih
  | object ms ih =>
    rw [exact_object, bounded_object, floatless_object, ← forall₂_and]
    exact forall₂_congr ih
  | integer n => simp [exact, bounded, floatless, every, isExact, isBounded, isFloatless]
  | _ => simp [exact, bounded, floatless, every, isExact, isBounded, isFloatless]

structure Made (depth : Nat) (v : Json) : Prop where
  sorted : v.sorted = true
  bounded : v.bounded = true
  shallow : v.nesting ≤ depth

theorem made_array {depth : Nat} {xs : List Json} (h : ∀ x ∈ xs, Made depth x) :
    Made (depth + 1) (.array xs) where
  sorted := (sorted_array xs).mpr fun x hx => (h x hx).sorted
  bounded := (bounded_array xs).mpr fun x hx => (h x hx).bounded
  shallow := (nesting_array_le xs depth).mpr fun x hx => (h x hx).shallow

theorem made_object {depth : Nat} {ms : List (String × Json)}
    (hkeys : ms.Pairwise fun m m' => m.1 < m'.1) (h : ∀ m ∈ ms, Made depth m.2) :
    Made (depth + 1) (.object ms) where
  sorted := (sorted_object ms).mpr ⟨hkeys, fun m hm => (h m hm).sorted⟩
  bounded := (bounded_object ms).mpr fun m hm => (h m hm).bounded
  shallow := (nesting_object_le ms depth).mpr fun m hm => (h m hm).shallow

theorem made_float (depth : Nat) (x : Binary64) : Made depth (.float x) :=
  ⟨rfl, rfl, Nat.zero_le _⟩

theorem made_integer (depth : Nat) {n : Int} (h : fits64 n) : Made depth (.integer n) :=
  ⟨rfl, decide_eq_true h, Nat.zero_le _⟩

theorem made_of_float? {s : Scan} {v : Json} (depth : Nat) (h : s.float? = some v) : Made depth v := by
  rw [Scan.float?, Option.bind_eq_some_iff] at h
  obtain ⟨x, -, h⟩ := h
  obtain ⟨y, -, rfl⟩ := Option.map_eq_some_iff.mp h
  exact made_float depth _

theorem made_of_integer {s : Scan} {v : Json} (depth : Nat) (hs : s.significand ≤ Text.max64)
    (h : s.integer = some v) : Made depth v := by
  have hmax : Text.max64 = 2 ^ 64 - 1 := rfl
  rw [hmax] at hs
  unfold Scan.integer at h
  split at h
  · cases h
    apply made_integer
    unfold fits64
    omega
  · split at h
    · exact made_of_float? depth h
    · next hkept =>
      cases h
      have hpow : Nat.pow 2 63 = 9223372036854775808 := rfl
      rw [hpow] at hkept
      apply made_integer
      unfold fits64
      omega

theorem made_of_exponent? {s : Scan} {cs rest : List Char} {v : Json} (depth : Nat)
    (h : exponent? s cs = some (v, rest)) : Made depth v := by
  unfold exponent? at h
  split at h
  next minus cs' hsigned =>
  clear hsigned
  dsimp only at h
  split at h
  · cases h
  · split at h
    · split at h
      · cases h
      · cases h
        exact made_float depth _
    · obtain ⟨w, hw, heq⟩ := Option.map_eq_some_iff.mp h
      cases heq
      exact made_of_float? depth hw

theorem made_of_scaled? {s : Scan} {cs rest : List Char} {v : Json} (depth : Nat)
    (h : scaled? s cs = some (v, rest)) : Made depth v := by
  unfold scaled? at h
  split at h
  · exact made_of_exponent? depth h
  · exact made_of_exponent? depth h
  · obtain ⟨w, hw, heq⟩ := Option.map_eq_some_iff.mp h
    cases heq
    exact made_of_float? depth hw

theorem made_of_fraction? {s : Scan} {cs rest : List Char} {v : Json} (depth : Nat)
    (h : fraction? s cs = some (v, rest)) : Made depth v := by
  unfold fraction? at h
  split at h
  · exact made_of_scaled? depth h
  · cases h

theorem takeDigits_le (n count : Nat) (cs : List Char) (h : n ≤ Text.max64) :
    (takeDigits n count cs).1 ≤ Text.max64 := by
  fun_induction takeDigits n count cs with
  | case1 | case2 | case3 => exact h
  | case4 n count c rest d _ next hnext ih => exact ih (Nat.not_lt.mp hnext)

theorem made_of_finish {s : Scan} {whole : Bool} {cs rest : List Char} {v : Json} (depth : Nat)
    (hs : s.significand ≤ Text.max64) (h : number?.finish s whole cs = some (v, rest)) :
    Made depth v := by
  unfold number?.finish at h
  split at h
  · exact made_of_fraction? depth h
  · exact made_of_scaled? depth h
  · exact made_of_scaled? depth h
  · split at h
    · obtain ⟨w, hw, heq⟩ := Option.map_eq_some_iff.mp h
      cases heq
      exact made_of_integer depth hs hw
    · obtain ⟨w, hw, heq⟩ := Option.map_eq_some_iff.mp h
      cases heq
      exact made_of_float? depth hw

theorem made_of_number? {negative : Bool} {cs rest : List Char} {v : Json} (depth : Nat)
    (h : number? negative cs = some (v, rest)) : Made depth v := by
  unfold number? at h
  split at h
  · split at h
    · cases h
    · exact made_of_finish depth (Nat.zero_le _) h
  · split at h
    · exact made_of_finish depth (takeDigits_le 0 0 _ (Nat.zero_le _)) h
    · cases h

def MakesValues (fuel : Nat) : Prop :=
  ∀ depth cs v rest, value? fuel depth cs = some (v, rest) → Made depth v

def MakesArrays (fuel : Nat) : Prop :=
  ∀ depth acc cs v rest, (∀ x ∈ acc, Made depth x) → elements? fuel depth acc cs = some (v, rest) →
    Made (depth + 1) v

def MakesObjects (fuel : Nat) : Prop :=
  ∀ depth acc cs v rest, (acc.Pairwise fun m m' => m.1 < m'.1) → (∀ m ∈ acc, Made depth m.2) →
    members? fuel depth acc cs = some (v, rest) → Made (depth + 1) v

theorem makesValues_succ {fuel : Nat} (harrays : MakesArrays fuel) (hobjects : MakesObjects fuel) :
    MakesValues (fuel + 1) := by
  intro depth cs v rest h
  rw [value?] at h
  split at h
  · cases h
    exact ⟨rfl, rfl, Nat.zero_le _⟩
  · cases h
    exact ⟨rfl, rfl, Nat.zero_le _⟩
  · cases h
    exact ⟨rfl, rfl, Nat.zero_le _⟩
  · obtain ⟨p, -, heq⟩ := Option.map_eq_some_iff.mp h
    cases heq
    exact ⟨rfl, rfl, Nat.zero_le _⟩
  -- A bracket is opened only where one more may be, so its parts may open one less.
  · cases depth with
    | zero => cases h
    | succ depth =>
      dsimp only at h
      split at h
      · cases h
        exact made_array (List.forall_mem_nil _)
      · exact harrays depth [] _ v rest (List.forall_mem_nil _) h
  · cases depth with
    | zero => cases h
    | succ depth =>
      dsimp only at h
      split at h
      · cases h
        exact made_object List.Pairwise.nil (List.forall_mem_nil _)
      · exact hobjects depth [] _ v rest List.Pairwise.nil (List.forall_mem_nil _) h
  · exact made_of_number? depth h
  · exact made_of_number? depth h

theorem makesArrays_succ {fuel : Nat} (hvalues : MakesValues fuel) (harrays : MakesArrays fuel) :
    MakesArrays (fuel + 1) := by
  intro depth acc cs v rest hacc h
  rw [elements?] at h
  split at h
  · cases h
  · next x rest' hx =>
    have hmade : ∀ y ∈ x :: acc, Made depth y :=
      List.forall_mem_cons.mpr ⟨hvalues depth cs x rest' hx, hacc⟩
    split at h
    · exact harrays depth _ _ v rest hmade h
    · cases h
      exact made_array fun y hy => hmade y (List.mem_reverse.mp hy)
    · cases h

theorem makesObjects_succ {fuel : Nat} (hvalues : MakesValues fuel) (hobjects : MakesObjects fuel) :
    MakesObjects (fuel + 1) := by
  intro depth acc cs v rest hkeys hacc h
  rw [members?] at h
  split at h
  · split at h
    · cases h
    · next key rest' _ =>
      split at h
      · split at h
        · cases h
        · next x rest'' hx =>
          have hkeys' := enter_pairwise key x hkeys
          rw [← insert_eq_enter] at hkeys'
          have hmade : ∀ m ∈ insert key x acc, Made depth m.2 := by
            intro m hm
            rcases mem_enter (insert_eq_enter key x acc ▸ hm) with rfl | hm
            · exact hvalues depth _ x _ hx
            · exact hacc m hm
          split at h
          · exact hobjects depth _ _ v rest hkeys' hmade h
          · cases h
            exact made_object hkeys' hmade
          · cases h
      · cases h
  · cases h

theorem made_of_reader (fuel : Nat) : MakesValues fuel ∧ MakesArrays fuel ∧ MakesObjects fuel := by
  induction fuel with
  | zero =>
    refine ⟨?_, ?_, ?_⟩
    · intro depth cs v rest h
      cases h
    · intro depth acc cs v rest _ h
      cases h
    · intro depth acc cs v rest _ _ h
      cases h
  | succ fuel ih =>
    obtain ⟨hvalues, harrays, hobjects⟩ := ih
    exact ⟨makesValues_succ harrays hobjects, makesArrays_succ hvalues harrays,
      makesObjects_succ hvalues hobjects⟩

theorem made_of_parse? {text : String} {v : Json} (h : parse? text = some v) : Made maxDepth v := by
  unfold parse? at h
  dsimp only at h
  split at h
  · next w rest hw =>
    split at h
    · cases h
      exact (made_of_reader _).1 _ _ _ _ hw
    · cases h
  · cases h

end LanguageSessions.Json
