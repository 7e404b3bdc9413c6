import LanguageSessions.Proofs.Lists.Lookup
import LanguageSessions.Toml.Draft

namespace LanguageSessions.Toml

/-- Puts something under a key; a key that is there keeps its place. Values are assigned and parts
of documents are put down in this one way. -/
def place (key : String) (v : α) : List (String × α) → List (String × α)
  | [] => [(key, v)]
  | (k, w) :: rest => if k = key then (key, v) :: rest else (k, w) :: place key v rest

theorem assign_eq_place (key : String) (v : Toml) (t : Table) : assign key v t = place key v t := by
  induction t with
  | nil => rfl
  | cons e t ih => rw [assign, place, ih]

theorem Draft.put_eq_place (key : String) (d : Draft) (entries : List (String × Draft)) :
    put key d entries = place key d entries := by
  induction entries with
  | nil => rfl
  | cons e entries ih => rw [put, place, ih]

section

variable (key : String) (v : α) (t : List (String × α))

theorem keys_place : (place key v t).map Prod.fst =
    if key ∈ t.map Prod.fst then t.map Prod.fst else t.map Prod.fst ++ [key] := by
  induction t with
  | nil => rfl
  | cons e t ih =>
    rw [place]
    by_cases h : e.1 = key
    · simp [h]
    · rw [if_neg h, List.map_cons, ih]
      by_cases hmem : key ∈ t.map Prod.fst
      · simp [hmem]
      · simp [hmem, Ne.symm h]

theorem mem_place {e : String × α} (he : e ∈ place key v t) : e = (key, v) ∨ e ∈ t := by
  induction t with
  | nil => exact .inl (List.mem_singleton.mp he)
  | cons f t ih =>
    rw [place] at he
    split at he
    · exact (List.mem_cons.mp he).imp_right (List.mem_cons_of_mem f)
    · rcases List.mem_cons.mp he with rfl | he
      · exact .inr List.mem_cons_self
      · exact (ih he).imp_right (List.mem_cons_of_mem f)

theorem lookup_place (k : String) :
    (place key v t).lookup k = if k = key then some v else t.lookup k := by
  induction t with
  | nil => rw [place, lookup_cons_eq]
  | cons e t ih =>
    rw [place]
    by_cases h : e.1 = key
    · rw [if_pos h, lookup_cons_eq, lookup_cons_eq, h]
      by_cases hk : k = key <;> simp [hk]
    · rw [if_neg h, lookup_cons_eq, lookup_cons_eq, ih]
      by_cases hk : k = e.1
      · rw [if_pos hk, if_pos hk, if_neg (hk ▸ h)]
      · rw [if_neg hk, if_neg hk]

variable {t}

theorem place_of_new {key : String} (h : key ∉ t.map Prod.fst) (v : α) :
    place key v t = t ++ [(key, v)] := by
  induction t with
  | nil => rfl
  | cons e t ih =>
    rw [List.map_cons, List.mem_cons, not_or] at h
    rw [place, if_neg (Ne.symm h.1), ih h.2, List.cons_append]

theorem place_of_lookup {key : String} {v : α} (h : t.lookup key = some v) : place key v t = t := by
  induction t with
  | nil => cases h
  | cons e t ih =>
    rw [lookup_cons_eq] at h
    rw [place]
    by_cases hkey : key = e.1
    · rw [if_pos hkey, Option.some.injEq] at h
      rw [if_pos hkey.symm, hkey, ← h]
    · rw [if_neg hkey] at h
      rw [if_neg (Ne.symm hkey), ih h]

theorem place_nodup (h : (t.map Prod.fst).Nodup) : ((place key v t).map Prod.fst).Nodup := by
  rw [keys_place]
  split
  · exact h
  · next hkey => exact List.nodup_append.mpr ⟨h, List.nodup_singleton key, by
      rintro k hk _ hlast rfl
      exact hkey (List.mem_singleton.mp hlast ▸ hk)⟩

end

variable {base upper : Table}

theorem overlay_of_not_table {v : Toml} (h : ∀ entries, v ≠ .table entries) (below : Option Toml) :
    overlay below v = v := by
  rw [overlay]
  rintro entries above - heq
  exact absurd heq (h above)

theorem overlay_over_bare {below : Option Toml} (h : ∀ entries, below ≠ some (.table entries))
    (v : Toml) : overlay below v = v := by
  rw [overlay]
  rintro entries above heq
  exact absurd heq (h entries)

theorem overlay_none (v : Toml) : overlay none v = v := overlay_over_bare (by rintro entries ⟨⟩) v

def layer (lower upper : Option Toml) : Option Toml :=
  match upper with
  | none => lower
  | some v => some (overlay lower v)

theorem layer_none (lower : Option Toml) : layer lower none = lower := rfl

theorem none_layer (upper : Option Toml) : layer none upper = upper := by
  cases upper with
  | none => rfl
  | some v => rw [layer, overlay_none]

theorem layer_table : layer (some (.table base)) (some (.table upper)) =
    some (.table (merge base upper)) := by
  rw [layer, overlay]

theorem layer_ne_none_iff {lower above : Option Toml} :
    layer lower above ≠ none ↔ above ≠ none ∨ lower ≠ none := by
  cases above with
  | none => simp [layer]
  | some v => simp [layer]

theorem layer_eq_or {lower upper : Option Toml}
    (h : ∀ entries, layer lower upper ≠ some (.table entries)) :
    layer lower upper = upper.or lower := by
  cases upper with
  | none => rfl
  | some v =>
    unfold layer overlay at h ⊢
    dsimp only at h ⊢
    split at h
    · exact absurd rfl (h _)
    · rw [Option.some_or]

theorem lookup_merge (h : (upper.map Prod.fst).Nodup) (k : String) :
    (merge base upper).lookup k = layer (base.lookup k) (upper.lookup k) := by
  induction upper generalizing base with
  | nil =>
    rw [merge]
    rfl
  | cons e upper ih =>
    obtain ⟨key, v⟩ := e
    rw [List.map_cons, List.nodup_cons] at h
    rw [merge, ih h.2, assign_eq_place, lookup_place, lookup_cons_eq]
    by_cases hk : k = key
    · -- the rest of the upper table does not come back to the key
      have hnone : upper.lookup k = none := lookup_eq_none (hk ▸ h.1)
      rw [hnone, if_pos hk, if_pos hk, hk]
      rfl
    · rw [if_neg hk, if_neg hk]

example : merge
    [("session", .table [("keep_alive_mins", .integer 3), ("request_timeout_ms", .integer 900)])]
    [("session", .table [("keep_alive_mins", .integer 7)])] =
    [("session", .table [("keep_alive_mins", .integer 7), ("request_timeout_ms", .integer 900)])] := by
  rfl

end LanguageSessions.Toml
