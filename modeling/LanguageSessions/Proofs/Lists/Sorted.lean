import Mathlib.Data.List.Pairwise
import LanguageSessions.Json.Basic
import LanguageSessions.Proofs.Lists.Lookup
import LanguageSessions.Workspace.Project

namespace LanguageSessions

def enter (key : String) (v : α) : List (String × α) → List (String × α)
  | [] => [(key, v)]
  | (k, w) :: rest =>
    if key < k then (key, v) :: (k, w) :: rest
    else if key = k then (key, v) :: rest
    else (k, w) :: enter key v rest

theorem Json.insert_eq_enter (key : String) (v : Json) (ms : List (String × Json)) :
    insert key v ms = enter key v ms := by
  induction ms with
  | nil => rfl
  | cons m ms ih => rw [insert, enter, ih]

theorem ContentTypes.put_eq_enter (key value : String) (types : List (String × String)) :
    put key value types = enter key value types := by
  induction types with
  | nil => rfl
  | cons e types ih => rw [put, enter, ih]

theorem mem_enter {key : String} {v : α} {es : List (String × α)} {e : String × α}
    (h : e ∈ enter key v es) : e = (key, v) ∨ e ∈ es := by
  induction es with
  | nil => exact .inl (List.mem_singleton.mp h)
  | cons f es ih =>
    rw [enter] at h
    split at h
    · exact List.mem_cons.mp h
    · split at h
      · exact (List.mem_cons.mp h).imp_right (List.mem_cons_of_mem _)
      · rcases List.mem_cons.mp h with rfl | h
        · exact .inr List.mem_cons_self
        · exact (ih h).imp_right (List.mem_cons_of_mem _)

theorem enter_pairwise (key : String) (v : α) {es : List (String × α)}
    (h : es.Pairwise fun e f => e.1 < f.1) : (enter key v es).Pairwise fun e f => e.1 < f.1 := by
  induction es with
  | nil => exact List.pairwise_singleton _ _
  | cons e es ih =>
    have he := List.pairwise_cons.mp h
    rw [enter]
    split
    · next hlt =>
      apply List.Pairwise.cons _ h
      intro f hf
      rcases List.mem_cons.mp hf with rfl | hf
      · exact hlt
      · exact String.lt_trans hlt (he.1 f hf)
    · next hge =>
      split
      · next heq =>
        subst heq
        exact List.Pairwise.cons he.1 he.2
      · next hne =>
        apply List.Pairwise.cons _ (ih he.2)
        intro f hf
        rcases mem_enter hf with rfl | hf
        · by_contra hle
          exact hne (String.le_antisymm (String.not_lt.mp hle) (String.not_lt.mp hge))
        · exact he.1 f hf

theorem lookup_enter (key k : String) (v : α) (es : List (String × α)) :
    (enter key v es).lookup k = if k = key then some v else es.lookup k := by
  induction es with
  | nil => rw [enter, lookup_cons_eq]
  | cons e es ih =>
    rw [enter]
    split
    · rw [lookup_cons_eq]
    · split
      · next heq =>
        rw [lookup_cons_eq, lookup_cons_eq, ← heq]
        by_cases h : k = key <;> simp [h]
      · next hne =>
        rw [lookup_cons_eq, lookup_cons_eq, ih]
        by_cases h : k = e.1
        · have hkey : k ≠ key := fun hk => hne (hk.symm.trans h)
          simp only [if_pos h, if_neg hkey]
        · simp only [if_neg h]

theorem lookup_foldl_enter {es : List (String × α)} (h : (es.map Prod.fst).Nodup)
    (sorted : List (String × α)) (k : String) :
    (es.foldl (fun sorted e => enter e.1 e.2 sorted) sorted).lookup k =
      (es.lookup k).or (sorted.lookup k) := by
  induction es generalizing sorted with
  | nil => rfl
  | cons e es ih =>
    rw [List.map_cons, List.nodup_cons] at h
    rw [List.foldl_cons, ih h.2, lookup_enter, lookup_cons_eq]
    by_cases hk : k = e.1
    · rw [if_pos hk, if_pos hk, lookup_eq_none (hk ▸ h.1)]
      rfl
    · rw [if_neg hk, if_neg hk]

theorem Json.get?_ofMembers {members : List (String × Json)} (names : List String)
    (h : names.Nodup) (hnames : members.map Prod.fst = names) (key : String) :
    (ofMembers members).get? key = members.lookup key := by
  subst hnames
  simp only [ofMembers, get?, insert_eq_enter]
  rw [lookup_foldl_enter h, List.lookup_nil, Option.or_none]

theorem foldl_enter_pairwise (es : List (String × α)) {sorted : List (String × α)}
    (h : sorted.Pairwise fun e f => e.1 < f.1) :
    (es.foldl (fun sorted e => enter e.1 e.2 sorted) sorted).Pairwise fun e f => e.1 < f.1 := by
  induction es generalizing sorted with
  | nil => exact h
  | cons e es ih => exact ih (enter_pairwise e.1 e.2 h)

end LanguageSessions
