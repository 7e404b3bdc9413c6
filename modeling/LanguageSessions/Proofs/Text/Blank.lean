import Mathlib.Data.List.TakeWhile
import LanguageSessions.Text.Blank

namespace LanguageSessions.Text

def Trims (text cs : List Char) : Prop :=
  ∃ vs ws, text = vs ++ (cs ++ ws) ∧ (∀ c ∈ vs, isBlank c = true) ∧ (∀ c ∈ ws, isBlank c = true) ∧
    (∀ c ∈ cs.head?, isBlank c = false) ∧ ∀ c ∈ cs.getLast?, isBlank c = false

theorem dropWhile_isBlank {vs cs : List Char} (hvs : ∀ c ∈ vs, isBlank c = true)
    (hcs : ∀ c ∈ cs.head?, isBlank c = false) : (vs ++ cs).dropWhile isBlank = cs := by
  rw [List.dropWhile_append_of_pos hvs]
  cases cs with
  | nil => rfl
  | cons c cs => exact List.dropWhile_cons_of_neg (by simp [hcs c rfl])

theorem trim_eq {text vs cs ws : List Char} (htext : text = vs ++ (cs ++ ws))
    (hvs : ∀ c ∈ vs, isBlank c = true) (hws : ∀ c ∈ ws, isBlank c = true)
    (hfirst : ∀ c ∈ cs.head?, isBlank c = false) (hlast : ∀ c ∈ cs.getLast?, isBlank c = false) :
    trim text = cs := by
  cases cs with
  | nil =>
    have hblank : text.dropWhile isBlank = [] := by
      rw [htext, List.dropWhile_append_of_pos hvs]
      exact List.dropWhile_eq_nil_iff.mpr hws
    rw [trim, hblank]
    rfl
  | cons c cs =>
    have hfront : text.dropWhile isBlank = c :: cs ++ ws := by
      rw [htext]
      exact dropWhile_isBlank hvs hfirst
    rw [trim, hfront, List.reverse_append, dropWhile_isBlank]
    · exact List.reverse_reverse (c :: cs)
    · simpa using hws
    · rwa [List.head?_reverse]

theorem head?_dropWhile_isBlank {cs : List Char} {c : Char}
    (h : c ∈ (cs.dropWhile isBlank).head?) : isBlank c = false := by
  have hhead := List.head?_dropWhile_not isBlank cs
  rw [Option.mem_def.mp h] at hhead
  simpa using hhead

theorem trims_trim (text : List Char) : Trims text (trim text) := by
  have hfirst := List.takeWhile_append_dropWhile (p := isBlank) (l := text)
  have hlast := List.takeWhile_append_dropWhile (p := isBlank) (l := (text.dropWhile isBlank).reverse)
  have hsplit : text.dropWhile isBlank =
      trim text ++ ((text.dropWhile isBlank).reverse.takeWhile isBlank).reverse := by
    rw [trim, ← List.reverse_append, hlast, List.reverse_reverse]
  refine ⟨text.takeWhile isBlank, ((text.dropWhile isBlank).reverse.takeWhile isBlank).reverse, ?_,
    fun c hc => List.mem_takeWhile_imp hc, ?_, ?_, ?_⟩
  · rw [← hsplit, hfirst]
  · intro c hc
    exact List.mem_takeWhile_imp (List.mem_reverse.mp hc)
  · intro c hc
    have hhead : c ∈ (text.dropWhile isBlank).head? := by
      rw [hsplit, List.head?_append, Option.mem_def.mp hc]
      rfl
    exact head?_dropWhile_isBlank hhead
  · intro c hc
    rw [trim, List.getLast?_reverse] at hc
    exact head?_dropWhile_isBlank hc

theorem trim_eq_iff {text cs : List Char} : trim text = cs ↔ Trims text cs := by
  constructor
  · rintro rfl
    exact trims_trim text
  · rintro ⟨vs, ws, htext, hvs, hws, hfirst, hlast⟩
    exact trim_eq htext hvs hws hfirst hlast

theorem isBlank_of_isDigit {c : Char} (h : c.isDigit = true) : isBlank c = false := by
  have hrange : 48 ≤ c.toNat ∧ c.toNat ≤ 57 := by
    simpa [Char.isDigit, UInt32.le_iff_toNat_le] using h
  simp only [isBlank, Bool.or_eq_false_iff, Bool.and_eq_false_iff, decide_eq_false_iff_not,
    beq_eq_false_iff_ne]
  omega

end LanguageSessions.Text
