import LanguageSessions.Proofs.Toml.Distinct

namespace LanguageSessions.Toml

def entries : Option Toml → Table
  | some (.table t) => t
  | _ => []

def under? (v : Option Toml) (key : String) : Option Toml := (entries v).lookup key

def find? (t : Table) (path : List String) : Option Toml := path.foldl under? (some (.table t))

/-- Does a table have anything but a table at a path or on the way to it? -/
def Covers (t : Table) (path : List String) : Prop :=
  ∃ front v, front <+: path ∧ find? t front = some v ∧ ∀ u, v ≠ .table u

/-- What a table is when another one has been laid over it. -/
structure Laid (base upper : Table) : Prop where
  covered : ∀ path, Covers upper path → find? (merge base upper) path = find? upper path
  joined : ∀ path u, find? upper path = some (.table u) →
    ∃ all, find? (merge base upper) path = some (.table all) ∧
      ∀ key, key ∈ all.map Prod.fst ↔ key ∈ u.map Prod.fst ∨
        ∃ b, find? base path = some (.table b) ∧ key ∈ b.map Prod.fst
  bare : ∀ path, ¬ Covers upper path → find? upper path = none →
    find? (merge base upper) path = find? base path
  kept : ∀ path, find? upper path ≠ none → find? (merge base upper) path ≠ none
  given : ∀ path, find? (merge base upper) path ≠ none →
    find? upper path ≠ none ∨ find? base path ≠ none
  empty : merge base [] = base ∧ merge [] upper = upper
  again : merge (merge base upper) upper = merge base upper

variable {t base upper : Table} {lower above : Option Toml} {path : List String} {key : String}

theorem entries_of_not_table {v : Toml} (h : ∀ u, v ≠ .table u) : entries (some v) = [] := by
  cases v with
  | table u => exact absurd rfl (h u)
  | _ => rfl

theorem mem_entries_iff {v : Option Toml} : key ∈ (entries v).map Prod.fst ↔
    ∃ u, v = some (.table u) ∧ key ∈ u.map Prod.fst := by
  constructor
  · intro hkey
    unfold entries at hkey
    split at hkey
    · exact ⟨_, rfl, hkey⟩
    · cases hkey
  · rintro ⟨u, rfl, hkey⟩
    exact hkey

theorem foldl_under?_none (path : List String) : path.foldl under? none = none := by
  induction path with
  | nil => rfl
  | cons key path ih => exact ih

theorem foldl_under?_of_not_table {v : Toml} (h : ∀ u, v ≠ .table u) (key : String)
    (path : List String) : (key :: path).foldl under? (some v) = none := by
  rw [List.foldl_cons, under?, entries_of_not_table h]
  exact foldl_under?_none path

theorem distinct_under? (h : ∀ v, above = some v → v.Distinct) (key : String) :
    ∀ v, under? above key = some v → v.Distinct := by
  intro v hv
  unfold under? entries at hv
  split at hv
  · exact (h _ rfl).lookup hv
  · cases hv

theorem merge_of_disjoint (hkeys : (upper.map Prod.fst).Nodup)
    (h : ∀ e ∈ upper, e.1 ∉ base.map Prod.fst) : merge base upper = base ++ upper := by
  induction upper generalizing base with
  | nil => rw [merge, List.append_nil]
  | cons e upper ih =>
    obtain ⟨key, v⟩ := e
    obtain ⟨hnew, hrest⟩ := List.forall_mem_cons.mp h
    rw [List.map_cons, List.nodup_cons] at hkeys
    have hlater : ∀ f ∈ upper, f.1 ∉ (base ++ [(key, v)]).map Prod.fst := by
      intro f hf
      rw [List.map_append, List.mem_append, not_or]
      refine ⟨hrest f hf, fun hlast => hkeys.1 ?_⟩
      rw [List.map_singleton, List.mem_singleton] at hlast
      exact hlast ▸ List.mem_map_of_mem hf
    rw [merge, lookup_eq_none hnew, assign_eq_place, place_of_new hnew, overlay_none,
      ih hkeys.2 hlater, List.append_assoc, List.singleton_append]

theorem nil_merge (hkeys : (upper.map Prod.fst).Nodup) : merge [] upper = upper :=
  merge_of_disjoint hkeys fun _ _ => List.not_mem_nil

theorem overlay_table (hkeys : (upper.map Prod.fst).Nodup) (below : Option Toml) :
    overlay below (.table upper) = .table (merge (entries below) upper) := by
  by_cases hbelow : ∃ b, below = some (.table b)
  · obtain ⟨b, rfl⟩ := hbelow
    rw [overlay, entries]
  · have hover : overlay below (.table upper) = .table upper :=
      overlay_over_bare (fun b heq => hbelow ⟨b, heq⟩) _
    have hempty : entries below = [] := by
      cases below with
      | none => rfl
      | some v => exact entries_of_not_table fun b heq => hbelow ⟨b, heq ▸ rfl⟩
    rw [hover, hempty, nil_merge hkeys]

theorem under?_layer (h : ∀ v, above = some v → v.Distinct)
    (htable : ∀ v, above = some v → ∃ u, v = .table u) (key : String) :
    under? (layer lower above) key = layer (under? lower key) (under? above key) := by
  cases above with
  | none => rfl
  | some v =>
    obtain ⟨u, rfl⟩ := htable v rfl
    rw [layer, overlay_table (h _ rfl).keys]
    exact lookup_merge (h _ rfl).keys key

theorem foldl_layer (h : ∀ v, above = some v → v.Distinct)
    (htable : ∀ front, front <+: path → ∀ v, front.foldl under? above = some v →
      ∃ u, v = .table u) :
    path.foldl under? (layer lower above) =
      layer (path.foldl under? lower) (path.foldl under? above) := by
  induction path generalizing lower above with
  | nil => rfl
  | cons key path ih =>
    have hfirst : ∀ v, above = some v → ∃ u, v = .table u := htable [] List.nil_prefix
    rw [List.foldl_cons, List.foldl_cons, List.foldl_cons, under?_layer h hfirst]
    refine ih (distinct_under? h key) fun front hfront => ?_
    exact htable (key :: front) (List.prefix_cons_inj key |>.mpr hfront)

theorem foldl_layer_covered (h : ∀ v, above = some v → v.Distinct) {front : List String} {v : Toml}
    (hfront : front <+: path) (hv : front.foldl under? above = some v) (hnot : ∀ u, v ≠ .table u) :
    path.foldl under? (layer lower above) = path.foldl under? above := by
  induction front generalizing lower above path with
  | nil =>
    obtain rfl : above = some v := hv
    rw [layer, overlay_of_not_table hnot]
  | cons key front ih =>
    obtain ⟨rest, rfl⟩ := hfront
    have htable : ∀ w, above = some w → ∃ u, w = .table u := by
      rintro w rfl
      by_contra hno
      rw [foldl_under?_of_not_table fun u heq => hno ⟨u, heq⟩] at hv
      cases hv
    rw [List.cons_append, List.foldl_cons, List.foldl_cons, under?_layer h htable]
    exact ih (distinct_under? h key) (List.prefix_append _ _) hv

theorem not_covers_of_table {u : Table} (h : find? t path = some (.table u)) : ¬ Covers t path := by
  rintro ⟨front, v, ⟨rest, rfl⟩, hv, hnot⟩
  rw [find?, List.foldl_append, ← find?, hv] at h
  cases rest with
  | nil => exact hnot u (Option.some.inj h)
  | cons key rest =>
    rw [foldl_under?_of_not_table hnot] at h
    cases h

section

variable (h : Distinct (.table upper))
include h

theorem distinct_find? (path : List String) : ∀ v, find? upper path = some v → v.Distinct := by
  induction path using List.reverseRecOn with
  | nil =>
    rintro v ⟨⟩
    exact h
  | append_singleton path key ih =>
    rw [find?, List.foldl_concat]
    exact distinct_under? ih key

theorem find?_merge_covered (hpath : Covers upper path) :
    find? (merge base upper) path = find? upper path := by
  obtain ⟨front, v, hfront, hv, hnot⟩ := hpath
  rw [find?, ← layer_table]
  exact foldl_layer_covered (distinct_find? h []) hfront hv hnot

theorem find?_merge (hpath : ¬ Covers upper path) :
    find? (merge base upper) path = layer (find? base path) (find? upper path) := by
  rw [find?, ← layer_table]
  refine foldl_layer (distinct_find? h []) fun front hfront v hv => ?_
  by_contra hno
  exact hpath ⟨front, v, hfront, hv, fun u heq => hno ⟨u, heq⟩⟩

theorem find?_merge_table {u : Table} (hpath : find? upper path = some (.table u)) :
    find? (merge base upper) path = some (.table (merge (entries (find? base path)) u)) := by
  have hkeys : (u.map Prod.fst).Nodup := (distinct_find? h path _ hpath).keys
  rw [find?_merge h (not_covers_of_table hpath), hpath, layer, overlay_table hkeys]

theorem find?_merge_ne_none (hpath : find? upper path ≠ none) :
    find? (merge base upper) path ≠ none := by
  by_cases hcovers : Covers upper path
  · rwa [find?_merge_covered h hcovers]
  · rw [find?_merge h hcovers, layer_ne_none_iff]
    exact .inl hpath

theorem find?_of_merge_ne_none (hpath : find? (merge base upper) path ≠ none) :
    find? upper path ≠ none ∨ find? base path ≠ none := by
  by_cases hcovers : Covers upper path
  · rw [find?_merge_covered h hcovers] at hpath
    exact .inl hpath
  · rwa [find?_merge h hcovers, layer_ne_none_iff] at hpath

end

theorem merge_eq_self {all : Table}
    (h : ∀ e ∈ upper, ∃ v, all.lookup e.1 = some v ∧ overlay (some v) e.2 = v) :
    merge all upper = all := by
  induction upper with
  | nil => rw [merge]
  | cons e upper ih =>
    obtain ⟨⟨v, hv, hover⟩, hrest⟩ := List.forall_mem_cons.mp h
    rw [merge, hv, hover, assign_eq_place, place_of_lookup hv, ih hrest]

theorem merge_again (hkeys : (upper.map Prod.fst).Nodup)
    (h : ∀ e ∈ upper, ∀ below, overlay (some (overlay below e.2)) e.2 = overlay below e.2) :
    merge (merge base upper) upper = merge base upper := by
  refine merge_eq_self fun e he => ⟨overlay (base.lookup e.1) e.2, ?_, h e he _⟩
  rw [lookup_merge hkeys, (lookup_eq_some_iff_mem upper hkeys e.1 e.2).mpr he, layer]

theorem overlay_again {v : Toml} (h : v.Distinct) (below : Option Toml) :
    overlay (some (overlay below v)) v = overlay below v := by
  induction h generalizing below with
  | @scalar v hscalar =>
    have hnot : ∀ u, v ≠ .table u := by
      rintro u rfl
      cases hscalar
    rw [overlay_of_not_table hnot, overlay_of_not_table hnot]
  | @array xs =>
    have hnot : ∀ u, Toml.array xs ≠ .table u := by rintro u ⟨⟩
    rw [overlay_of_not_table hnot, overlay_of_not_table hnot]
  | table hkeys _ ih =>
    rw [overlay_table hkeys, overlay_table hkeys, entries, merge_again hkeys ih]

theorem mem_keys_merge (hkeys : (upper.map Prod.fst).Nodup) :
    key ∈ (merge base upper).map Prod.fst ↔
      key ∈ upper.map Prod.fst ∨ key ∈ base.map Prod.fst := by
  rw [← lookup_ne_none_iff, ← lookup_ne_none_iff, ← lookup_ne_none_iff, lookup_merge hkeys,
    layer_ne_none_iff]

theorem merge_by_paths (base upper : Table) (h : Distinct (.table upper)) : Laid base upper where
  covered _ hpath := find?_merge_covered h hpath
  joined := by
    intro path u hpath
    refine ⟨_, find?_merge_table h hpath, fun key => ?_⟩
    rw [mem_keys_merge (distinct_find? h path _ hpath).keys, mem_entries_iff]
  bare := by
    intro path hcovers hnone
    rw [find?_merge h hcovers, hnone, layer_none]
  kept _ hpath := find?_merge_ne_none h hpath
  given _ hpath := find?_of_merge_ne_none h hpath
  empty := ⟨by rw [merge], nil_merge h.keys⟩
  again := merge_again h.keys fun e he below => overlay_again (h.values e he) below

theorem merge_by_paths_crossed :
    Distinct (.table [("a", .integer 1), ("b", .table [("x", .integer 2)]),
      ("c", .table [("x", .integer 3)])]) ∧
    Laid [("a", .table [("x", .integer 4)]), ("b", .integer 5),
        ("c", .table [("x", .integer 6), ("y", .integer 7)])]
      [("a", .integer 1), ("b", .table [("x", .integer 2)]), ("c", .table [("x", .integer 3)])] := by
  have hinner : ∀ n, Distinct (.table [("x", .integer n)]) := fun n =>
    .table (List.nodup_singleton _) (List.forall_mem_singleton.mpr (.scalar rfl))
  have h : Distinct (.table [("a", .integer 1), ("b", .table [("x", .integer 2)]),
      ("c", .table [("x", .integer 3)])]) := by
    refine .table (by decide) ?_
    simp only [List.forall_mem_cons]
    exact ⟨.scalar rfl, hinner 2, hinner 3, by rintro e ⟨⟩⟩
  exact ⟨h, merge_by_paths _ _ h⟩

end LanguageSessions.Toml
