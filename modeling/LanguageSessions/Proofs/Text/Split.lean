import Mathlib.Data.String.Basic

namespace LanguageSessions

open String

theorem get_singleton (c : Char) : Pos.Raw.get (singleton c) 0 = c := by
  simpa using get_of_valid [] [c]

theorem next_singleton (c : Char) : Pos.Raw.next (singleton c) 0 = ⟨c.utf8Size⟩ := by
  simpa using next_of_valid [] c []

theorem atEnd_singleton (c : Char) : Pos.Raw.atEnd (singleton c) ⟨c.utf8Size⟩ = true := by
  simpa using atEnd_of_valid [c] []

theorem splitOnAux_singleton (c : Char) (l m r : List Char) (parts : List String) :
    splitOnAux (ofList (l ++ m ++ r)) (singleton c) ⟨utf8Len l⟩ ⟨utf8Len l + utf8Len m⟩ 0 parts =
      parts.reverse ++ (List.splitOnPPrepend (· == c) r m.reverse).map ofList := by
  induction r generalizing l m parts with
  | nil =>
    have hend := (atEnd_of_valid (l ++ m) []).mpr rfl
    rw [utf8Len_append] at hend
    unfold splitOnAux
    rw [if_pos hend, extract_of_valid l m [], List.splitOnPPrepend_nil, List.reverse_reverse]
    exact List.reverse_cons
  | cons d r ih =>
    have hend := (atEnd_of_valid (l ++ m) (d :: r)).not.mpr (List.cons_ne_nil d r)
    have hget : _ = d := get_of_valid (l ++ m) (d :: r)
    have hnext := next_of_valid (l ++ m) d r
    rw [utf8Len_append] at hend hget hnext
    unfold splitOnAux
    rw [if_neg hend, hget, hnext, get_singleton, next_singleton, List.splitOnPPrepend_cons_eq_if]
    dsimp only
    by_cases hd : (d == c) = true
    · -- A separator ends the part.
      obtain rfl := eq_of_beq hd
      have hback : Pos.Raw.unoffsetBy ⟨utf8Len l + utf8Len m + d.utf8Size⟩ ⟨d.utf8Size⟩ =
          ⟨utf8Len l + utf8Len m⟩ := by
        simp [Pos.Raw.unoffsetBy]
      have hnew := ih (l ++ m ++ [d]) [] (ofList m :: parts)
      rw [if_pos hd, if_pos hd, if_pos (atEnd_singleton d), hback, extract_of_valid l m (d :: r)]
      simpa [utf8Len_append, Nat.add_assoc, -ofList_append] using hnew
    · have hstay : Pos.Raw.unoffsetBy ⟨utf8Len l + utf8Len m⟩ 0 = ⟨utf8Len l + utf8Len m⟩ := rfl
      have hlonger := ih l (m ++ [d]) parts
      rw [if_neg hd, if_neg hd, hstay, hnext]
      simpa [utf8Len_append, Nat.add_assoc, -ofList_append] using hlonger

theorem splitOn_singleton (s : String) (c : Char) :
    s.splitOn (singleton c) = (s.toList.splitOn c).map ofList := by
  have hsplit := splitOnAux_singleton c [] [] s.toList []
  have hsome : (singleton c == "") = false := by simp
  rw [splitOn, hsome, List.splitOn_eq_splitOnP]
  simpa using hsplit

theorem notMem_of_mem_splitOn {c : Char} {cs part : List Char} (h : part ∈ cs.splitOn c) :
    c ∉ part := by
  induction cs generalizing part with
  | nil =>
    rw [List.splitOn_nil, List.mem_singleton] at h
    subst h
    exact List.not_mem_nil
  | cons d cs ih =>
    rw [List.splitOn_cons_eq_if_modifyHead] at h
    split at h
    · rcases List.mem_cons.mp h with rfl | h
      · exact List.not_mem_nil
      · exact ih h
    · next hd =>
      obtain ⟨first, parts, hparts⟩ := List.exists_cons_of_ne_nil (List.splitOn_ne_nil c cs)
      rw [hparts, List.modifyHead_cons] at h
      rw [hparts] at ih
      rcases List.mem_cons.mp h with rfl | h
      · rintro (_ | ⟨_, hmem⟩)
        · exact hd (beq_self_eq_true c)
        · exact ih List.mem_cons_self hmem
      · exact ih (List.mem_cons_of_mem first h)

end LanguageSessions
