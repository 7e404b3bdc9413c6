import LanguageSessions.Proofs.Registry.Invariant

namespace LanguageSessions

theorem nodup_eraseDups [BEq α] [LawfulBEq α] (l : List α) : l.eraseDups.Nodup := by
  induction hn : l.length using Nat.strongRecOn generalizing l with
  | ind n ih =>
    cases l with
    | nil => simp
    | cons a l =>
      have hlt : (l.filter fun b => !b == a).length < n := by
        rw [← hn]
        exact Nat.lt_succ_of_le (List.length_filter_le _ l)
      rw [List.eraseDups_cons, List.nodup_cons]
      refine ⟨?_, ih _ hlt _ rfl⟩
      rw [List.mem_eraseDups, List.mem_filter]
      simp

/-- The tables and the sessions agree. -/
structure Registry.Consistent (r : Registry) : Prop where
  keys_nodup : (r.tables.byKey.map Prod.fst).Nodup
  uses_nodup : (r.tables.lastUse.map Prod.fst).Nodup
  keyed : ∀ key id, r.tables.find? key = some id → r.upgrade? id = some id ∧
    (∃ s, r.session? id = some s ∧ s.id = id ∧ s.key = key) ∧ id ∈ r.tables.lastUse.map Prod.fst
  used : ∀ id ∈ r.tables.lastUse.map Prod.fst,
    ∃ s, r.session? id = some s ∧ s.id = id ∧ r.tables.find? s.key = some id
  roots : r.tables.attached.Pairwise fun a b => Path.steps a.root ≠ Path.steps b.root
  one : ∀ a ∈ r.tables.attached, ∀ e ∈ a.byExtension, ∀ f ∈ a.byExtension, e.2 = f.2
  apart : r.tables.attached.Pairwise fun a b => ∀ e ∈ a.byExtension, ∀ f ∈ b.byExtension, e.2 ≠ f.2
  alone : ∀ a ∈ r.tables.attached, ∀ e ∈ a.byExtension, e.2 ∉ r.tables.lastUse.map Prod.fst
  live : ∀ key, r.tables.find? key ≠ none → (r.tables.find? key).bind r.upgrade? ≠ none
  listed_nodup : r.aliveSessions.Nodup
  listed : ∀ id, id ∈ r.aliveSessions ↔
    id ∈ r.tables.held ∧ ∃ s, r.session? id = some s ∧ s.isAlive = true

namespace Registry

variable {r : Registry} {Young Due Busy : SessionId → Prop}

theorem Sound.keyed (h : r.Sound Young Due Busy) (key : SessionKey) (id : SessionId)
    (hfind : r.tables.find? key = some id) : r.upgrade? id = some id ∧
      (∃ s, r.session? id = some s ∧ s.id = id ∧ s.key = key) ∧
      id ∈ r.tables.lastUse.map Prod.fst := by
  have hmem := (h.tables.find?_eq_some_iff key id).mp hfind
  obtain ⟨hkey, huse⟩ := h.tables.keyed _ hmem
  obtain ⟨s, hs, hskey⟩ := Option.map_eq_some_iff.mp hkey
  exact ⟨h.upgrade?_eq (h.tables.held_of_find? hfind), ⟨s, hs, session?_id hs, hskey⟩, huse⟩

theorem Sound.used (h : r.Sound Young Due Busy) (id : SessionId)
    (hid : id ∈ r.tables.lastUse.map Prod.fst) :
    ∃ s, r.session? id = some s ∧ s.id = id ∧ r.tables.find? s.key = some id := by
  obtain ⟨key, hkey, hmem⟩ := h.tables.used id hid
  obtain ⟨s, hs, rfl⟩ := Option.map_eq_some_iff.mp hkey
  exact ⟨s, hs, session?_id hs, (h.tables.find?_eq_some_iff s.key id).mpr hmem⟩

theorem Sound.mem_aliveSessions (h : r.Sound Young Due Busy) (id : SessionId) :
    id ∈ r.aliveSessions ↔
      id ∈ r.tables.held ∧ ∃ s, r.session? id = some s ∧ s.isAlive = true := by
  rw [aliveSessions, List.mem_filter, h.mem_registered, Option.any_eq_true]

theorem aliveSessions_nodup (r : Registry) : r.aliveSessions.Nodup := by
  have hnodup : r.registered.Nodup := by
    rw [registered, (List.mergeSort_perm _ _).nodup_iff]
    exact nodup_eraseDups _
  exact hnodup.filter _

theorem Sound.consistent (h : r.Sound Young Due Busy) : r.Consistent where
  keys_nodup := h.tables.keys_nodup
  uses_nodup := h.tables.uses_nodup
  keyed := h.keyed
  used := h.used
  roots := h.tables.apart.imp fun hab => hab.1
  one := h.tables.one
  apart := h.tables.apart.imp fun hab => hab.2
  alone := h.tables.alone
  live := by
    intro key hne
    obtain ⟨id, hid⟩ := Option.ne_none_iff_exists'.mp hne
    rw [hid, Option.bind_some, (h.keyed key id hid).1]
    simp
  listed_nodup := r.aliveSessions_nodup
  listed := h.mem_aliveSessions

end Registry

theorem Service.run_consistent (r : Registry) (as : List Service.Act) :
    ((Service.new r).run as).registry.Consistent :=
  (Service.run_sound (Service.Sound.new r) as).registry.consistent

end LanguageSessions
