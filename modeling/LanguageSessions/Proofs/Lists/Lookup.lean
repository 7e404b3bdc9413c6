import Mathlib.Data.List.Induction
import Mathlib.Data.List.Nodup

namespace LanguageSessions

theorem lookup_cons_eq (k : String) (m : String × α) (ms : List (String × α)) :
    (m :: ms).lookup k = if k = m.1 then some m.2 else ms.lookup k := by
  by_cases h : k = m.1
  · rw [if_pos h, List.lookup_cons, h, beq_self_eq_true]
  · rw [if_neg h, List.lookup_cons, beq_eq_false_iff_ne.mpr h]

theorem mem_of_lookup [BEq α] [LawfulBEq α] {entries : List (α × β)} {key : α} {value : β}
    (h : entries.lookup key = some value) : (key, value) ∈ entries := by
  obtain ⟨before, after, hsplit, -⟩ := List.lookup_eq_some_iff.mp h
  simp [hsplit]

theorem lookup_eq_none [BEq α] [LawfulBEq α] {entries : List (α × β)} {key : α}
    (h : key ∉ entries.map Prod.fst) : entries.lookup key = none := by
  rw [List.lookup_eq_none_iff]
  intro e he
  rw [bne_iff_ne]
  rintro rfl
  exact h (List.mem_map_of_mem he)

theorem lookup_ne_none [BEq α] [LawfulBEq α] {entries : List (α × β)} {e : α × β}
    (he : e ∈ entries) : entries.lookup e.1 ≠ none := by
  intro hnone
  have hne := List.lookup_eq_none_iff.mp hnone e he
  rw [bne_self_eq_false] at hne
  cases hne

theorem lookup_ne_none_iff [BEq α] [LawfulBEq α] {entries : List (α × β)} {key : α} :
    entries.lookup key ≠ none ↔ key ∈ entries.map Prod.fst := by
  constructor
  · intro hne
    by_contra hkey
    exact hne (lookup_eq_none hkey)
  · intro hkey
    obtain ⟨e, he, rfl⟩ := List.mem_map.mp hkey
    exact lookup_ne_none he

theorem lookup_eq_some_iff_mem [BEq α] [LawfulBEq α] (entries : List (α × β))
    (h : (entries.map Prod.fst).Nodup) (key : α) (value : β) :
    entries.lookup key = some value ↔ (key, value) ∈ entries := by
  induction entries with
  | nil => simp
  | cons e entries ih =>
    obtain ⟨k, v⟩ := e
    rw [List.map_cons, List.nodup_cons] at h
    rw [List.lookup_cons, List.mem_cons]
    by_cases hk : key = k
    · subst hk
      simp only [beq_self_eq_true, Option.some.injEq, Prod.mk.injEq, true_and]
      constructor
      · intro hv
        exact .inl hv.symm
      · rintro (rfl | he)
        · rfl
        · exact absurd (List.mem_map.mpr ⟨_, he, rfl⟩) h.1
    · have hne : (key == k) = false := by simpa using hk
      rw [hne, ih h.2]
      simp [hk]

theorem lookup_filterMap [BEq α] [LawfulBEq α] (keys : List α) (field : α → Option β) (key : α) :
    (keys.filterMap fun k => (field k).map (k, ·)).lookup key =
      if key ∈ keys then field key else none := by
  induction keys with
  | nil => rfl
  | cons k keys ih =>
    rw [List.filterMap_cons]
    by_cases hk : key = k
    · subst hk
      cases hfield : field key with
      | none => simp [hfield, ih]
      | some v => simp
    · have hmem : key ∈ k :: keys ↔ key ∈ keys := by simp [hk]
      have hne : (key == k) = false := by simpa using hk
      simp only [hmem, ← ih]
      cases field k with
      | none => rfl
      | some v => simp [List.lookup_cons, hne]

theorem lookup_filter_ne (es : List (String × α)) (name key : String) :
    (es.filter (·.1 != name)).lookup key = if key = name then none else es.lookup key := by
  induction es with
  | nil => simp
  | cons e es ih =>
    rw [List.filter_cons]
    by_cases he : e.1 = name
    · have hdrop : (e.1 != name) = false := by simp [he]
      rw [hdrop, if_neg Bool.false_ne_true, ih, lookup_cons_eq]
      by_cases hkey : key = name
      · rw [if_pos hkey, if_pos hkey]
      · rw [if_neg hkey, if_neg hkey, if_neg (he ▸ hkey)]
    · have hkeep : (e.1 != name) = true := by simp [he]
      rw [if_pos hkeep, lookup_cons_eq, lookup_cons_eq, ih]
      by_cases hkey : key = e.1
      · rw [if_pos hkey, if_pos hkey, if_neg (hkey ▸ he)]
      · rw [if_neg hkey, if_neg hkey]

theorem lookup_replace (es : List (String × α)) (uri key : String) (v : α) :
    (es.map fun e => if e.1 == uri then (uri, v) else e).lookup key =
      if key = uri then (es.lookup key).map fun _ => v else es.lookup key := by
  induction es with
  | nil => simp
  | cons e es ih =>
    rw [List.map_cons, lookup_cons_eq, lookup_cons_eq, ih]
    by_cases he : e.1 = uri
    · by_cases hkey : key = uri <;> simp [he, hkey]
    · by_cases hkey : key = uri
      · have hne : key ≠ e.1 := fun h => he (h.symm.trans hkey)
        simp [he, hkey, hkey ▸ hne]
      · simp [he, hkey]

theorem lookup_concat {es : List (String × α)} {uri : String} (hnew : es.lookup uri = none) (v : α)
    (key : String) :
    (es ++ [(uri, v)]).lookup key = if key = uri then some v else es.lookup key := by
  rw [List.lookup_append, lookup_cons_eq, List.lookup_nil]
  by_cases hkey : key = uri
  · simp [hkey, hnew]
  · simp [hkey]

theorem lookup_eraseIdx {es : List (String × α)} (hkeys : (es.map Prod.fst).Nodup) {i : Nat}
    {e : String × α} (he : es[i]? = some e) (key : String) :
    (es.eraseIdx i).lookup key = if key = e.1 then none else es.lookup key := by
  induction es generalizing i with
  | nil => simp at he
  | cons f es ih =>
    rw [List.map_cons, List.nodup_cons] at hkeys
    cases i with
    | zero =>
      obtain rfl : f = e := by simpa using he
      rw [List.eraseIdx_cons_zero, lookup_cons_eq]
      by_cases hkey : key = f.1
      · rw [if_pos hkey, lookup_eq_none (hkey ▸ hkeys.1)]
      · rw [if_neg hkey, if_neg hkey]
    | succ i =>
      rw [List.getElem?_cons_succ] at he
      rw [List.eraseIdx_cons_succ, lookup_cons_eq, lookup_cons_eq, ih hkeys.2 he]
      by_cases hkey : key = f.1
      · have hmem : e.1 ∈ es.map Prod.fst := List.mem_map_of_mem (List.mem_of_getElem? he)
        have hne : key ≠ e.1 := fun h => hkeys.1 (hkey ▸ h ▸ hmem)
        rw [if_pos hkey, if_pos hkey, if_neg hne]
      · rw [if_neg hkey, if_neg hkey]

theorem lookup_foldl_last (put : String → β → List (String × β) → List (String × β))
    (hput : ∀ key v es k, (put key v es).lookup k = if k = key then some v else es.lookup k)
    (key : α → String) (value : α → β) (xs : List α) (k : String) :
    (xs.foldl (fun es x => put (key x) (value x) es) []).lookup k =
      (xs.reverse.find? (key · == k)).map value := by
  induction xs using List.reverseRecOn with
  | nil => rfl
  | append_singleton xs x ih =>
    rw [List.foldl_concat, hput, ih, List.reverse_concat, List.find?_cons]
    by_cases hk : k = key x
    · have hbeq : (key x == k) = true := by simp [hk]
      rw [if_pos hk, hbeq]
      rfl
    · have hbeq : (key x == k) = false := by simpa using Ne.symm hk
      rw [if_neg hk, hbeq]

end LanguageSessions
