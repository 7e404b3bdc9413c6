import Mathlib.Data.String.Basic
import LanguageSessions.Proofs.Text.Utf8

namespace LanguageSessions.Utf8

def Before (s t : String) : Prop := List.Lex (· < ·) (bytes s) (bytes t)

instance (s t : String) : Decidable (Before s t) :=
  inferInstanceAs (Decidable (List.Lex (· < ·) (bytes s) (bytes t)))

theorem ofNat_lt_ofNat {m n : Nat} (h : m < n) (hn : n < 256) : UInt8.ofNat m < UInt8.ofNat n := by
  rw [UInt8.lt_iff_toNat_lt, toNat_ofNat_of_lt (h.trans hn), toNat_ofNat_of_lt hn]
  exact h

theorem lex_cons {m n : Nat} {as bs : List UInt8} (hle : m ≤ n) (hn : n < 256)
    (hrest : m = n → List.Lex (· < ·) as bs) :
    List.Lex (· < ·) (UInt8.ofNat m :: as) (UInt8.ofNat n :: bs) := by
  rcases hle.lt_or_eq with hlt | rfl
  · exact .rel (ofNat_lt_ofNat hlt hn)
  · exact .cons (hrest rfl)

theorem lex_encodeChar {c d : Char} (h : c < d) (as bs : List UInt8) :
    List.Lex (· < ·) (String.utf8EncodeChar c ++ as) (String.utf8EncodeChar d ++ bs) := by
  have hlt : c.val.toNat < d.val.toNat := h
  have hmax : d.val.toNat < 0xD800 ∨ 0xDFFF < d.val.toNat ∧ d.val.toNat < 0x110000 := toNat_valid d
  simp only [String.utf8EncodeChar]
  generalize c.val.toNat = v at hlt
  generalize d.val.toNat = w at hlt hmax
  split
  · split
    · apply lex_cons <;> omega
    · split
      · apply lex_cons <;> omega
      · split <;> apply lex_cons <;> omega
  · have hone : ¬w ≤ 127 := by omega
    rw [if_neg hone]
    split
    · split
      · apply lex_cons (by omega) (by omega)
        intro hhead
        apply lex_cons <;> omega
      · split <;> apply lex_cons <;> omega
    · have htwo : ¬w ≤ 2047 := by omega
      rw [if_neg htwo]
      split
      · split
        · apply lex_cons (by omega) (by omega)
          intro hhead
          apply lex_cons (by omega) (by omega)
          intro hsecond
          apply lex_cons <;> omega
        · apply lex_cons <;> omega
      · have hthree : ¬w ≤ 65535 := by omega
        rw [if_neg hthree]
        apply lex_cons (by omega) (by omega)
        intro hhead
        apply lex_cons (by omega) (by omega)
        intro hsecond
        apply lex_cons (by omega) (by omega)
        intro hthird
        apply lex_cons <;> omega

theorem lex_encode {cs ds : List Char} (h : cs < ds) :
    List.Lex (· < ·) (encode cs) (encode ds) := by
  rw [← List.lex_lt] at h
  induction h with
  | @nil d ds =>
    have hne : String.utf8EncodeChar d ≠ [] := by
      rw [← List.length_pos_iff, String.length_utf8EncodeChar]
      exact d.utf8Size_pos
    obtain ⟨b, bs, hbs⟩ := List.exists_cons_of_ne_nil hne
    rw [encode, encode, List.flatMap_nil, List.flatMap_cons, hbs]
    exact .nil
  | @cons c cs ds _ ih => exact ih.append_left _ (String.utf8EncodeChar c)
  | rel hlt => exact lex_encodeChar hlt _ _

theorem before_iff {s t : String} : Before s t ↔ s < t := by
  have hbefore {s t : String} (h : s < t) : Before s t := lex_encode (String.lt_iff.mp h)
  constructor
  · intro h
    rcases lt_trichotomy s t with hlt | rfl | hgt
    · exact hlt
    · exact absurd (List.lex_lt.mp h) (List.lt_irrefl _)
    · exact absurd (List.lex_lt.mp (hbefore hgt)) (List.lt_asymm (List.lex_lt.mp h))
  · exact hbefore

end LanguageSessions.Utf8
