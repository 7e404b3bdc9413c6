import LanguageSessions.Proofs.Registry.Sound

namespace LanguageSessions

namespace Registry

variable {r : Registry} {Young Due Busy : SessionId → Prop} {id : SessionId}

def Retired (r : Registry) (id : SessionId) : Prop := id ∈ r.retired

theorem retired_congr {r' : Registry} (h : r'.retired = r.retired) : r'.Retired = r.Retired := by
  funext id
  rw [Retired, h, Retired]

theorem retired_retire (r : Registry) (ids : List SessionId) :
    (r.retire ids).Retired = also r.Retired ids := by
  funext id
  simp [Retired, retire, also]

theorem Sound.upgrade?_eq (h : r.Sound Young Due Busy) (hid : id ∈ r.tables.held) :
    r.upgrade? id = some id := by
  rw [upgrade?, if_neg]
  intro hrel
  exact (h.released id (List.contains_iff_mem.mp hrel)).2.2 hid

theorem Sound.shrink (h : r.Sound Young Due Busy) {t : Tables} (gone : List SessionId)
    (ht : t.Sound r.key?) (hsub : ∀ id ∈ t.held, id ∈ r.tables.held)
    (hkeep : ∀ id ∈ r.tables.held, id ∈ t.held ∨ id ∈ gone)
    (hgone : ∀ id ∈ gone, id ∈ r.tables.held) :
    ({ r with tables := t } : Registry).Sound Young (also Due gone) Busy :=
  { h.also_due fun id hid => h.held_announced id (hgone id hid) with
    tables := ht
    held_announced := fun id hid => h.held_announced id (hsub id hid)
    released := by
      intro id hid
      obtain ⟨hk, hy, hheld⟩ := h.released id hid
      exact ⟨hk, hy, fun hheld' => hheld (hsub id hheld')⟩
    sessions := by
      intro id s hs
      have hfit := h.sessions id s hs
      refine ⟨hfit.starting, ?_, hfit.working, hfit.once⟩
      rcases hfit.settled with hy | (hheld | hd) | hrest
      · exact .inl hy
      · exact .inr (.inl ((hkeep id hheld).imp_right .inr))
      · exact .inr (.inl (.inr (.inl hd)))
      · exact .inr (.inr hrest) }

theorem moves_shrink (r : Registry) {t : Tables} (hsub : ∀ id ∈ t.held, id ∈ r.tables.held) :
    r.Moves { r with tables := t } [] where
  keys := fun _ _ hk => hk
  count := Nat.le_refl _
  held := fun id hid => .inl (hsub id hid)
  entered := by simp
  announced := (List.append_nil _).symm

theorem Sound.touch (h : r.Sound Young Due Busy) (hid : id ∈ r.tables.lastUse.map Prod.fst)
    (now : Nat) : ({ r with tables := r.tables.touch id now } : Registry).Sound Young Due Busy := by
  have hheld := Tables.held_touch hid now
  rw [← also_nil Due]
  apply h.shrink [] (h.tables.touch hid now)
  · rw [hheld]
    exact fun _ hx => hx
  · rw [hheld]
    exact fun _ hx => .inl hx
  · simp

theorem Sound.drop (h : r.Sound Young Due Busy) {key : SessionKey}
    (hmem : (key, id) ∈ r.tables.byKey) :
    ({ r with tables := (r.tables.dropKey key).dropUse id } : Registry).Sound
      Young (also Due [id]) Busy := by
  have hheld := h.tables.mem_held_drop hmem
  apply h.shrink [id] (h.tables.drop hmem)
  · exact fun x hx => ((hheld x).mp hx).1
  · intro x hx
    by_cases hxid : x = id
    · exact .inr (List.mem_singleton.mpr hxid)
    · exact .inl ((hheld x).mpr ⟨hx, hxid⟩)
  · intro x hx
    rw [List.mem_singleton.mp hx, Tables.mem_held]
    exact .inl (h.tables.keyed _ hmem).2

theorem Sound.moves_drop (h : r.Sound Young Due Busy) {key : SessionKey}
    (hmem : (key, id) ∈ r.tables.byKey) :
    r.Moves { r with tables := (r.tables.dropKey key).dropUse id } [] :=
  r.moves_shrink fun x hx => ((h.tables.mem_held_drop hmem x).mp hx).1

theorem Sound.live?_cases (h : r.Sound Young Due Busy) (key : SessionKey) :
    (∃ id, (key, id) ∈ r.tables.byKey ∧ r.isUsable id = true ∧ r.live? key = (r, some id)) ∨
    (key ∉ r.tables.byKey.map Prod.fst ∧ r.live? key = (r, none)) ∨
    (∃ id, (key, id) ∈ r.tables.byKey ∧ r.isUsable id = false ∧ r.live? key =
      (({ r with tables := (r.tables.dropKey key).dropUse id } : Registry).retire [id], none)) := by
  unfold live?
  cases hfind : r.tables.find? key with
  | none =>
    right; left
    refine ⟨?_, rfl⟩
    intro hkey
    obtain ⟨e, he, rfl⟩ := List.mem_map.mp hkey
    rw [(h.tables.find?_eq_some_iff e.1 e.2).mpr he] at hfind
    cases hfind
  | some id =>
    have hmem := (h.tables.find?_eq_some_iff key id).mp hfind
    dsimp only
    rw [h.upgrade?_eq (h.tables.held_of_find? hfind)]
    dsimp only
    cases husable : r.isUsable id with
    | true => exact .inl ⟨id, hmem, husable, rfl⟩
    | false => exact .inr (.inr ⟨id, hmem, husable, rfl⟩)

theorem Sound.live?_none (h : r.Sound Young Due Busy) (key : SessionKey)
    (hnone : (r.live? key).2 = none) : key ∉ (r.live? key).1.tables.byKey.map Prod.fst ∧
      ∀ id, (key, id) ∈ r.tables.byKey → r.isUsable id = false := by
  rcases h.live?_cases key with ⟨id, -, -, heq⟩ | ⟨hfree, heq⟩ | ⟨id, hmem, husable, heq⟩
  · rw [heq] at hnone
    cases hnone
  · rw [heq]
    exact ⟨hfree, fun id hid => absurd (List.mem_map.mpr ⟨_, hid, rfl⟩) hfree⟩
  · rw [heq]
    refine ⟨fun hkey => ((Tables.mem_keys_without key key r.tables.byKey).mp hkey).2 rfl, ?_⟩
    intro other hother
    rw [h.tables.eq_of_key hother hmem]
    exact husable

theorem Sound.live?_keeps (h : r.Sound Young Due Busy) {key : SessionKey}
    (hmem : (key, id) ∈ r.tables.byKey) (husable : r.isUsable id = true) (other : SessionKey) :
    (key, id) ∈ (r.live? other).1.tables.byKey := by
  rcases h.live?_cases other with ⟨x, -, -, heq⟩ | ⟨-, heq⟩ | ⟨x, hx, hstale, heq⟩
  · rw [heq]
    exact hmem
  · rw [heq]
    exact hmem
  · rw [heq]
    refine (Tables.mem_without other r.tables.byKey (key, id)).mpr ⟨hmem, ?_⟩
    rintro rfl
    rw [h.tables.eq_of_key hmem hx, hstale] at husable
    cases husable

theorem live?_eq (r : Registry) (key : SessionKey) : (r.live? key).1 =
    { r with tables := (r.live? key).1.tables, retired := (r.live? key).1.retired } := by
  unfold live?
  split
  · rfl
  · split
    · rfl
    · split <;> rfl

theorem Sound.live? (h : r.Sound Young r.Retired Busy) (key : SessionKey) :
    (r.live? key).1.Sound Young (r.live? key).1.Retired Busy ∧ r.Moves (r.live? key).1 [] := by
  rcases h.live?_cases key with ⟨id, -, -, heq⟩ | ⟨-, heq⟩ | ⟨id, hmem, -, heq⟩
  · rw [heq]
    exact ⟨h, Moves.rfl r⟩
  · rw [heq]
    exact ⟨h, Moves.rfl r⟩
  · rw [heq]
    dsimp only
    rw [retired_retire]
    exact ⟨(h.drop hmem).congr rfl, (h.moves_drop hmem).congr rfl⟩

theorem attachedFor?_cases (r : Registry) (file : String) :
    (∃ id, r.attachedFor? file = (r, some id)) ∨ r.attachedFor? file = (r, none) ∨
    (∃ a ∈ r.tables.attached, ∃ e ∈ a.byExtension, r.attachedFor? file =
      (({ r with tables := r.tables.detach a.root e.2 } : Registry).retire [e.2], none)) := by
  unfold attachedFor?
  cases hroot : r.tables.rootOf? r.host file with
  | none => exact .inr (.inl rfl)
  | some a =>
    dsimp only
    cases hid : (fileExtension? file).bind fun ext => a.byExtension.lookup ext with
    | none => exact .inr (.inl rfl)
    | some id =>
      dsimp only
      obtain ⟨ext, -, hlookup⟩ := Option.bind_eq_some_iff.mp hid
      obtain ⟨before, after, hsplit, -⟩ := List.lookup_eq_some_iff.mp hlookup
      split
      · exact .inl ⟨id, rfl⟩
      · right; right
        exact ⟨a, List.mem_of_find?_eq_some hroot, (ext, id), by simp [hsplit], rfl⟩

theorem Sound.attachedFor? (h : r.Sound Young r.Retired Busy) (file : String) :
    (r.attachedFor? file).1.Sound Young (r.attachedFor? file).1.Retired Busy ∧
      r.Moves (r.attachedFor? file).1 [] := by
  rcases r.attachedFor?_cases file with ⟨id, heq⟩ | heq | ⟨a, ha, e, he, heq⟩
  · rw [heq]
    exact ⟨h, Moves.rfl r⟩
  · rw [heq]
    exact ⟨h, Moves.rfl r⟩
  · have hheld := h.tables.mem_held_detach ha he
    have hsub : ∀ id ∈ (r.tables.detach a.root e.2).held, id ∈ r.tables.held :=
      fun x hx => ((hheld x).mp hx).1
    rw [heq]
    dsimp only
    rw [retired_retire]
    refine ⟨Sound.congr (h.shrink [e.2] (h.tables.detach a.root e.2) hsub ?_ ?_) rfl,
      (r.moves_shrink hsub).congr rfl⟩
    · intro x hx
      by_cases hxid : x = e.2
      · exact .inr (List.mem_singleton.mpr hxid)
      · exact .inl ((hheld x).mpr ⟨hx, hxid⟩)
    · intro x hx
      rw [List.mem_singleton.mp hx, Tables.mem_held]
      exact .inr ⟨a, ha, e, he, rfl⟩

theorem Sound.forget_eq (h : r.Sound Young Due Busy) (hid : id ∈ r.tables.lastUse.map Prod.fst) :
    ∃ key, (key, id) ∈ r.tables.byKey ∧
      r.forget id = { r with tables := (r.tables.dropKey key).dropUse id } := by
  obtain ⟨key, hkey, hmem⟩ := h.tables.used id hid
  refine ⟨key, hmem, ?_⟩
  have hup := h.upgrade?_eq ((Tables.mem_held _ id).mpr (.inl hid))
  obtain ⟨s, hs, rfl⟩ := Option.map_eq_some_iff.mp hkey
  rw [forget, hs]
  dsimp only
  rw [h.tables.forget_eq hkey hid hup]

theorem Sound.forgets {ids : List SessionId} (h : r.Sound Young Due Busy) (hnodup : ids.Nodup)
    (hids : ∀ id ∈ ids, id ∈ r.tables.lastUse.map Prod.fst) :
    (ids.foldl forget r).Sound Young (also Due ids) Busy ∧ r.Moves (ids.foldl forget r) [] ∧
      (ids.foldl forget r).retired = r.retired := by
  induction ids generalizing r Due with
  | nil =>
    rw [also_nil]
    exact ⟨h, Moves.rfl r, rfl⟩
  | cons id ids ih =>
    rw [List.nodup_cons] at hnodup
    obtain ⟨key, hmem, heq⟩ := h.forget_eq (hids id List.mem_cons_self)
    rw [List.foldl_cons, heq]
    have hrest := ih (h.drop hmem) hnodup.2 (by
      intro x hx
      refine (Tables.mem_keys_without id x r.tables.lastUse).mpr ⟨hids x (List.mem_cons_of_mem _ hx), ?_⟩
      rintro rfl
      exact hnodup.1 hx)
    rw [← also_append] at hrest
    exact ⟨hrest.1, (h.moves_drop hmem).trans hrest.2.1, hrest.2.2⟩

theorem Sound.evict (h : r.Sound Young r.Retired Busy) (window now : Nat) :
    (r.evict window now).1.Sound Young (r.evict window now).1.Retired Busy ∧
      r.Moves (r.evict window now).1 [] := by
  have hsub : (r.tables.expired window now).Sublist (r.tables.lastUse.map Prod.fst) :=
    List.filter_sublist.map Prod.fst
  obtain ⟨hsound, hmoves, hretired⟩ :=
    h.forgets (h.tables.uses_nodup.sublist hsub) fun id hid => hsub.subset hid
  have hdue : also r.Retired (r.tables.expired window now) =
      ((((r.tables.expired window now).foldl forget r).retire (r.tables.expired window now)).Retired) := by
    rw [retired_retire]
    funext x
    simp only [also, Retired, hretired]
  rw [hdue] at hsound
  exact ⟨hsound.congr rfl, hmoves.congr rfl⟩

theorem Sound.remove_cases (h : r.Sound Young Due Busy) (key : SessionKey) :
    ((r.remove key).2 = none ∧ (r.remove key).1 = r) ∨
    (∃ id, (key, id) ∈ r.tables.byKey ∧ r.remove key =
      ({ r with tables := (r.tables.dropKey key).dropUse id }, some id)) := by
  unfold remove
  dsimp only
  cases hfind : r.tables.find? key with
  | none =>
    left
    have hkey : ∀ e ∈ r.tables.byKey, e.1 ≠ key := by
      rintro e he rfl
      rw [(h.tables.find?_eq_some_iff e.1 e.2).mpr he] at hfind
      cases hfind
    have hsame : r.tables.dropKey key = r.tables := by
      rw [Tables.dropKey, Tables.without, List.filter_eq_self.mpr]
      intro e he
      simpa using hkey e he
    refine ⟨rfl, ?_⟩
    dsimp only [Option.bind_none]
    rw [hsame]
  | some id =>
    right
    refine ⟨id, (h.tables.find?_eq_some_iff key id).mp hfind, ?_⟩
    dsimp only [Option.bind_some]
    rw [h.upgrade?_eq (h.tables.held_of_find? hfind)]

theorem Sound.mem_registered (h : r.Sound Young Due Busy) (id : SessionId) :
    id ∈ r.registered ↔ id ∈ r.tables.held := by
  rw [registered, List.mem_mergeSort, List.mem_eraseDups, Tables.held, List.mem_append,
    List.mem_append, List.mem_append, List.mem_filterMap]
  constructor
  · rintro ((hu | ⟨x, hx, hup⟩) | ha)
    · exact .inl hu
    · obtain ⟨e, he, rfl⟩ := List.mem_map.mp hx
      have hheld := (h.tables.keyed e he).2
      rw [h.upgrade?_eq ((Tables.mem_held _ _).mpr (.inl hheld)), Option.some.injEq] at hup
      exact .inl (hup ▸ hheld)
    · exact .inr ha
  · rintro (hu | ha)
    · exact .inl (.inl hu)
    · exact .inr ha

theorem Sound.takeAll (h : r.Sound Young Due Busy) :
    r.takeAll.1.Sound Young (also Due r.takeAll.2) Busy ∧ r.Moves r.takeAll.1 [] := by
  have hsub : ∀ id ∈ ({} : Tables).held, id ∈ r.tables.held := by
    rintro id ⟨⟩
  refine ⟨h.shrink _ (Tables.Sound.empty _) hsub ?_ ?_, r.moves_shrink hsub⟩
  · exact fun id hid => .inr ((h.mem_registered id).mpr hid)
  · exact fun id hid => (h.mem_registered id).mp hid

end Registry

end LanguageSessions
