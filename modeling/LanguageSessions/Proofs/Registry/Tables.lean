import Mathlib.Data.List.Pairwise
import LanguageSessions.Proofs.Lists.Lookup
import LanguageSessions.Registry.Tables

namespace LanguageSessions

namespace Tables

theorem mem_without [BEq α] [LawfulBEq α] (key : α) (entries : List (α × β)) (e : α × β) :
    e ∈ without key entries ↔ e ∈ entries ∧ e.1 ≠ key := by
  simp [without]

theorem without_nodup [BEq α] (key : α) (entries : List (α × β))
    (h : (entries.map Prod.fst).Nodup) : ((without key entries).map Prod.fst).Nodup :=
  h.sublist (List.filter_sublist.map Prod.fst)

theorem mem_keys_without [BEq α] [LawfulBEq α] (key k : α) (entries : List (α × β)) :
    k ∈ (without key entries).map Prod.fst ↔ k ∈ entries.map Prod.fst ∧ k ≠ key := by
  simp only [List.mem_map, mem_without]
  constructor
  · rintro ⟨e, ⟨he, hne⟩, rfl⟩
    exact ⟨⟨e, he, rfl⟩, hne⟩
  · rintro ⟨⟨e, he, rfl⟩, hne⟩
    exact ⟨e, ⟨he, hne⟩, rfl⟩

theorem mem_assign [BEq α] [LawfulBEq α] (key : α) (value : β) (entries : List (α × β)) (e : α × β) :
    e ∈ assign key value entries ↔ e = (key, value) ∨ e ∈ entries ∧ e.1 ≠ key := by
  unfold assign
  split
  · next h =>
    obtain ⟨old, hold, hkey⟩ := List.any_eq_true.mp h
    rw [List.mem_map]
    constructor
    · rintro ⟨f, hf, rfl⟩
      split
      · exact .inl rfl
      · next hne => exact .inr ⟨hf, by simpa using hne⟩
    · rintro (rfl | ⟨he, hne⟩)
      · exact ⟨old, hold, if_pos hkey⟩
      · exact ⟨e, he, if_neg (by simpa using hne)⟩
  · next h =>
    rw [List.mem_append, List.mem_singleton]
    constructor
    · rintro (he | rfl)
      · right
        refine ⟨he, ?_⟩
        rintro rfl
        exact h (List.any_eq_true.mpr ⟨e, he, beq_self_eq_true _⟩)
      · exact .inl rfl
    · rintro (rfl | ⟨he, -⟩)
      · exact .inr rfl
      · exact .inl he

theorem keys_assign [BEq α] [LawfulBEq α] (key : α) (value : β) (entries : List (α × β)) :
    (assign key value entries).map Prod.fst =
      if key ∈ entries.map Prod.fst then entries.map Prod.fst else entries.map Prod.fst ++ [key] := by
  have hany : entries.any (·.1 == key) = true ↔ key ∈ entries.map Prod.fst := by
    simp [List.any_eq_true]
  unfold assign
  by_cases h : key ∈ entries.map Prod.fst
  · rw [if_pos (hany.mpr h), if_pos h, List.map_map]
    apply List.map_congr_left
    intro e _
    dsimp only [Function.comp]
    split
    · next he => exact (eq_of_beq he).symm
    · rfl
  · rw [if_neg (fun ha => h (hany.mp ha)), if_neg h, List.map_append]
    rfl

theorem assign_nodup [BEq α] [LawfulBEq α] (key : α) (value : β) (entries : List (α × β))
    (h : (entries.map Prod.fst).Nodup) : ((assign key value entries).map Prod.fst).Nodup := by
  rw [keys_assign]
  split
  · exact h
  · next hkey =>
    refine List.nodup_append.mpr ⟨h, by simp, ?_⟩
    rintro k hk l hl rfl
    rw [List.mem_singleton.mp hl] at hk
    exact hkey hk

theorem mem_keys_assign [BEq α] [LawfulBEq α] (key k : α) (value : β) (entries : List (α × β)) :
    k ∈ (assign key value entries).map Prod.fst ↔ k = key ∨ k ∈ entries.map Prod.fst := by
  rw [keys_assign]
  split
  · next h =>
    constructor
    · exact .inr
    · rintro (rfl | hk)
      · exact h
      · exact hk
  · rw [List.mem_append, List.mem_singleton, or_comm]

theorem mem_held (t : Tables) (id : SessionId) : id ∈ t.held ↔
    id ∈ t.lastUse.map Prod.fst ∨ ∃ a ∈ t.attached, ∃ e ∈ a.byExtension, e.2 = id := by
  simp [held, attachedSessions]

end Tables

def Attachment.Apart (a b : Attachment) : Prop :=
  Path.steps a.root ≠ Path.steps b.root ∧ ∀ e ∈ a.byExtension, ∀ f ∈ b.byExtension, e.2 ≠ f.2

instance : Std.Symm Attachment.Apart where
  symm := fun _ _ h => ⟨h.1.symm, fun e he f hf => (h.2 f hf e he).symm⟩

namespace Tables

structure Sound (t : Tables) (key? : SessionId → Option SessionKey) : Prop where
  keys_nodup : (t.byKey.map Prod.fst).Nodup
  uses_nodup : (t.lastUse.map Prod.fst).Nodup
  keyed : ∀ e ∈ t.byKey, key? e.2 = some e.1 ∧ e.2 ∈ t.lastUse.map Prod.fst
  used : ∀ id ∈ t.lastUse.map Prod.fst, ∃ key, key? id = some key ∧ (key, id) ∈ t.byKey
  apart : t.attached.Pairwise Attachment.Apart
  one : ∀ a ∈ t.attached, ∀ e ∈ a.byExtension, ∀ f ∈ a.byExtension, e.2 = f.2
  alone : ∀ a ∈ t.attached, ∀ e ∈ a.byExtension, e.2 ∉ t.lastUse.map Prod.fst

theorem Sound.empty (key? : SessionId → Option SessionKey) : ({} : Tables).Sound key? where
  keys_nodup := by simp
  uses_nodup := by simp
  keyed := by simp
  used := by simp
  apart := by simp
  one := by simp
  alone := by simp

variable {t : Tables} {key? : SessionId → Option SessionKey}

theorem Sound.congr (h : t.Sound key?) {key?' : SessionId → Option SessionKey}
    (hkey : ∀ id key, key? id = some key → key?' id = some key) : t.Sound key?' where
  keys_nodup := h.keys_nodup
  uses_nodup := h.uses_nodup
  keyed := fun e he => ⟨hkey _ _ (h.keyed e he).1, (h.keyed e he).2⟩
  used := by
    intro id hid
    obtain ⟨key, hk, hmem⟩ := h.used id hid
    exact ⟨key, hkey id key hk, hmem⟩
  apart := h.apart
  one := h.one
  alone := h.alone

theorem Sound.find?_eq_some_iff (h : t.Sound key?) (key : SessionKey) (id : SessionId) :
    t.find? key = some id ↔ (key, id) ∈ t.byKey :=
  lookup_eq_some_iff_mem t.byKey h.keys_nodup key id

theorem Sound.eq_of_key (h : t.Sound key?) {key : SessionKey} {id other : SessionId}
    (hid : (key, id) ∈ t.byKey) (hother : (key, other) ∈ t.byKey) : id = other := by
  have hfind := (h.find?_eq_some_iff key id).mpr hid
  rw [(h.find?_eq_some_iff key other).mpr hother, Option.some.injEq] at hfind
  exact hfind.symm

theorem Sound.held_of_find? (h : t.Sound key?) {key : SessionKey} {id : SessionId}
    (hfind : t.find? key = some id) : id ∈ t.held :=
  (mem_held t id).mpr (.inl (h.keyed _ ((h.find?_eq_some_iff key id).mp hfind)).2)

theorem Sound.touch (h : t.Sound key?) {id : SessionId} (hid : id ∈ t.lastUse.map Prod.fst)
    (now : Nat) : (t.touch id now).Sound key? := by
  have hkeys : (t.touch id now).lastUse.map Prod.fst = t.lastUse.map Prod.fst :=
    (keys_assign id now t.lastUse).trans (if_pos hid)
  exact {
    keys_nodup := h.keys_nodup
    uses_nodup := hkeys ▸ h.uses_nodup
    keyed := by
      rw [hkeys]
      exact h.keyed
    used := by
      rw [hkeys]
      exact h.used
    apart := h.apart
    one := h.one
    alone := by
      rw [hkeys]
      exact h.alone }

theorem held_touch {id : SessionId} (hid : id ∈ t.lastUse.map Prod.fst) (now : Nat) :
    (t.touch id now).held = t.held := by
  have hkeys : (t.touch id now).lastUse.map Prod.fst = t.lastUse.map Prod.fst :=
    (keys_assign id now t.lastUse).trans (if_pos hid)
  rw [held, hkeys]
  rfl

theorem Sound.insert (h : t.Sound key?) {key : SessionKey} {id : SessionId}
    (hkey : key? id = some key) (hfree : key ∉ t.byKey.map Prod.fst) (hnew : id ∉ t.held)
    (now : Nat) : (t.insert key id now).Sound key? where
  keys_nodup := assign_nodup key id t.byKey h.keys_nodup
  uses_nodup := assign_nodup id now t.lastUse h.uses_nodup
  keyed := by
    intro e he
    change _ ∧ e.2 ∈ (assign id now t.lastUse).map Prod.fst
    rw [mem_keys_assign]
    rcases (mem_assign key id t.byKey e).mp he with rfl | ⟨he, -⟩
    · exact ⟨hkey, .inl rfl⟩
    · exact ⟨(h.keyed e he).1, .inr (h.keyed e he).2⟩
  used := by
    intro other hother
    change ∃ k, _ ∧ (k, other) ∈ assign key id t.byKey
    rcases (mem_keys_assign id other now t.lastUse).mp hother with rfl | hother
    · exact ⟨key, hkey, (mem_assign _ _ _ _).mpr (.inl rfl)⟩
    · obtain ⟨k, hk, hmem⟩ := h.used other hother
      refine ⟨k, hk, (mem_assign _ _ _ _).mpr (.inr ⟨hmem, ?_⟩)⟩
      rintro rfl
      exact hfree (List.mem_map.mpr ⟨_, hmem, rfl⟩)
  apart := h.apart
  one := h.one
  alone := by
    intro a ha e he hmem
    rcases (mem_keys_assign id e.2 now t.lastUse).mp hmem with heq | hmem
    · exact hnew ((mem_held t id).mpr (.inr ⟨a, ha, e, he, heq⟩))
    · exact h.alone a ha e he hmem

theorem mem_held_insert (t : Tables) (key : SessionKey) (id other : SessionId) (now : Nat) :
    other ∈ (t.insert key id now).held ↔ other = id ∨ other ∈ t.held := by
  rw [mem_held, mem_held, ← or_assoc]
  exact or_congr (mem_keys_assign id other now t.lastUse) Iff.rfl

theorem byKey_insert (t : Tables) (key : SessionKey) (id : SessionId) (now : Nat)
    (hfree : key ∉ t.byKey.map Prod.fst) :
    (t.insert key id now).byKey = t.byKey ++ [(key, id)] := by
  change assign key id t.byKey = _
  have hany : ¬ t.byKey.any (·.1 == key) = true := by
    intro ha
    obtain ⟨e, he, hkey⟩ := List.any_eq_true.mp ha
    exact hfree (List.mem_map.mpr ⟨e, he, eq_of_beq hkey⟩)
  rw [assign, if_neg hany]

theorem Sound.drop (h : t.Sound key?) {key : SessionKey} {id : SessionId}
    (hmem : (key, id) ∈ t.byKey) : ((t.dropKey key).dropUse id).Sound key? where
  keys_nodup := without_nodup key t.byKey h.keys_nodup
  uses_nodup := without_nodup id t.lastUse h.uses_nodup
  keyed := by
    intro e he
    obtain ⟨he, hne⟩ := (mem_without key t.byKey e).mp he
    refine ⟨(h.keyed e he).1, (mem_keys_without id e.2 t.lastUse).mpr ⟨(h.keyed e he).2, ?_⟩⟩
    intro heq
    have hk := (h.keyed e he).1
    rw [heq, (h.keyed _ hmem).1] at hk
    exact hne (Option.some.inj hk).symm
  used := by
    intro other hother
    obtain ⟨hother, hne⟩ := (mem_keys_without id other t.lastUse).mp hother
    obtain ⟨k, hk, hk'⟩ := h.used other hother
    refine ⟨k, hk, (mem_without key t.byKey _).mpr ⟨hk', ?_⟩⟩
    intro heq
    dsimp only at heq
    subst heq
    exact hne (h.eq_of_key hk' hmem)
  apart := h.apart
  one := h.one
  alone := by
    intro a ha e he hmem
    exact h.alone a ha e he ((mem_keys_without id e.2 t.lastUse).mp hmem).1

theorem Sound.mem_held_drop (h : t.Sound key?) {key : SessionKey} {id : SessionId}
    (hmem : (key, id) ∈ t.byKey) (other : SessionId) :
    other ∈ ((t.dropKey key).dropUse id).held ↔ other ∈ t.held ∧ other ≠ id := by
  rw [mem_held, mem_held]
  change other ∈ (without id t.lastUse).map Prod.fst ∨ _ ↔ _
  rw [mem_keys_without]
  constructor
  · rintro (⟨hother, hne⟩ | ⟨a, ha, e, he, rfl⟩)
    · exact ⟨.inl hother, hne⟩
    · refine ⟨.inr ⟨a, ha, e, he, rfl⟩, ?_⟩
      intro heq
      exact h.alone a ha e he (heq ▸ (h.keyed _ hmem).2)
  · rintro ⟨hother | hother, hne⟩
    · exact .inl ⟨hother, hne⟩
    · exact .inr hother

theorem Sound.forget_eq (h : t.Sound key?) {upgrade? : SessionId → Option SessionId}
    {key : SessionKey} {id : SessionId} (hkey : key? id = some key)
    (hid : id ∈ t.lastUse.map Prod.fst) (hup : upgrade? id = some id) :
    t.forget upgrade? key id = (t.dropKey key).dropUse id := by
  obtain ⟨k, hk, hmem⟩ := h.used id hid
  rw [hkey, Option.some.injEq] at hk
  subst hk
  have hfind : (t.dropUse id).find? key = some id := (h.find?_eq_some_iff key id).mpr hmem
  rw [forget, if_pos (by simp [hfind, hup])]
  rfl

theorem Sound.eq_of_root (h : t.Sound key?) {a b : Attachment} (ha : a ∈ t.attached)
    (hb : b ∈ t.attached) (hroot : Path.steps a.root = Path.steps b.root) : a = b := by
  by_contra hne
  exact (h.apart.forall ha hb hne).1 hroot

theorem Sound.eq_of_session (h : t.Sound key?) {a b : Attachment} (ha : a ∈ t.attached)
    (hb : b ∈ t.attached) {e f : String × SessionId} (he : e ∈ a.byExtension)
    (hf : f ∈ b.byExtension) (heq : e.2 = f.2) : a = b := by
  by_contra hne
  exact (h.apart.forall ha hb hne).2 e he f hf heq

def attachment (extensions : List String) (id : SessionId) : List (String × SessionId) :=
  extensions.foldl (fun es ext => assign ext id es) []

theorem mem_attachment (extensions : List String) (id : SessionId) (e : String × SessionId) :
    e ∈ attachment extensions id ↔ e.1 ∈ extensions ∧ e.2 = id := by
  -- what was put down before is the same session, so it does not matter what replaces what
  have hfold : ∀ es : List (String × SessionId), (∀ f ∈ es, f.2 = id) →
      (e ∈ extensions.foldl (fun es ext => assign ext id es) es ↔
        e ∈ es ∨ e.1 ∈ extensions ∧ e.2 = id) := by
    induction extensions with
    | nil => simp
    | cons ext extensions ih =>
      intro es hes
      have hes' : ∀ f ∈ assign ext id es, f.2 = id := by
        intro f hf
        rcases (mem_assign ext id es f).mp hf with rfl | ⟨hf, -⟩
        · rfl
        · exact hes f hf
      rw [List.foldl_cons, ih _ hes', mem_assign, List.mem_cons]
      constructor
      · rintro ((rfl | ⟨he, -⟩) | ⟨he, hid⟩)
        · exact .inr ⟨.inl rfl, rfl⟩
        · exact .inl he
        · exact .inr ⟨.inr he, hid⟩
      · rintro (he | ⟨rfl | he, hid⟩)
        · by_cases hext : e.1 = ext
          · exact .inl (.inl (Prod.ext hext (hes e he)))
          · exact .inl (.inr ⟨he, hext⟩)
        · exact .inl (.inl (Prod.ext rfl hid))
        · exact .inr ⟨he, hid⟩
  simpa [attachment] using hfold [] (by simp)

theorem mem_attachedTo (h : t.Sound key?) (root : String) (id : SessionId) :
    id ∈ t.attachedTo root ↔
      ∃ a ∈ t.attached, Path.steps a.root = Path.steps root ∧ ∃ e ∈ a.byExtension, e.2 = id := by
  unfold attachedTo
  split
  · next hfind =>
    constructor
    · rintro ⟨⟩
    · rintro ⟨a, ha, hroot, -⟩
      exact absurd (beq_iff_eq.mpr hroot) (List.find?_eq_none.mp hfind a ha)
  · next a hfind =>
    have ha := List.mem_of_find?_eq_some hfind
    have hroot : Path.steps a.root = Path.steps root := by simpa using List.find?_some hfind
    rw [List.mem_eraseDups, List.mem_map]
    constructor
    · exact fun hid => ⟨a, ha, hroot, hid⟩
    · rintro ⟨b, hb, hroot', hid⟩
      rw [h.eq_of_root ha hb (hroot.trans hroot'.symm)]
      exact hid

theorem mem_attach {root : String} {extensions : List String} {id : SessionId} {b : Attachment}
    (hb : b ∈ (t.attach root extensions id).attached) :
    b ∈ t.attached ∧ Path.steps b.root ≠ Path.steps root ∨
      Path.steps b.root = Path.steps root ∧ b.byExtension = attachment extensions id := by
  unfold Tables.attach at hb
  dsimp only at hb
  split at hb
  · obtain ⟨a, ha, rfl⟩ := List.mem_map.mp hb
    split
    · next hroot => exact .inr ⟨beq_iff_eq.mp hroot, rfl⟩
    · next hroot => exact .inl ⟨ha, fun heq => hroot (beq_iff_eq.mpr heq)⟩
  · next hany =>
    rcases List.mem_append.mp hb with hb | hb
    · left
      refine ⟨hb, ?_⟩
      intro heq
      exact hany (List.any_eq_true.mpr ⟨b, hb, beq_iff_eq.mpr heq⟩)
    · rw [List.mem_singleton.mp hb]
      exact .inr ⟨rfl, rfl⟩

theorem mem_attach_of_ne {root : String} (extensions : List String) (id : SessionId)
    {a : Attachment} (ha : a ∈ t.attached) (hne : Path.steps a.root ≠ Path.steps root) :
    a ∈ (t.attach root extensions id).attached := by
  unfold Tables.attach
  dsimp only
  split
  · exact List.mem_map.mpr ⟨a, ha, if_neg fun heq => hne (beq_iff_eq.mp heq)⟩
  · exact List.mem_append_left _ ha

theorem exists_mem_attach (t : Tables) (root : String) (extensions : List String) (id : SessionId) :
    ∃ b ∈ (t.attach root extensions id).attached, b.byExtension = attachment extensions id := by
  unfold Tables.attach
  dsimp only
  split
  · next hany =>
    obtain ⟨old, hold, hroot⟩ := List.any_eq_true.mp hany
    exact ⟨_, List.mem_map.mpr ⟨old, hold, if_pos hroot⟩, rfl⟩
  · exact ⟨_, List.mem_append_right _ List.mem_cons_self, rfl⟩

theorem Sound.apart_attach (h : t.Sound key?) (root : String) (extensions : List String)
    {id : SessionId} (hfresh : ∀ a ∈ t.attached, ∀ e ∈ a.byExtension, e.2 ≠ id) :
    (t.attach root extensions id).attached.Pairwise Attachment.Apart := by
  have hone : ∀ e ∈ attachment extensions id, e.2 = id := fun e he =>
    ((mem_attachment extensions id e).mp he).2
  unfold Tables.attach
  dsimp only
  rw [← attachment]
  split
  · rw [List.pairwise_map]
    apply h.apart.imp_of_mem
    rintro a b ha hb ⟨hroot, hdistinct⟩
    -- at most one of the two has the root
    split
    · next hra =>
      rw [if_neg (fun hrb => hroot ((beq_iff_eq.mp hra).trans (beq_iff_eq.mp hrb).symm))]
      refine ⟨hroot, ?_⟩
      intro e he f hf heq
      exact hfresh b hb f hf (heq.symm.trans (hone e he))
    · split
      · refine ⟨hroot, ?_⟩
        intro e he f hf heq
        exact hfresh a ha e he (heq.trans (hone f hf))
      · exact ⟨hroot, hdistinct⟩
  · next hany =>
    refine List.pairwise_append.mpr ⟨h.apart, List.pairwise_singleton _ _, ?_⟩
    rintro a ha b hb
    rw [List.mem_singleton.mp hb]
    refine ⟨?_, ?_⟩
    · intro hroot
      exact hany (List.any_eq_true.mpr ⟨a, ha, beq_iff_eq.mpr hroot⟩)
    · intro e he f hf heq
      exact hfresh a ha e he (heq.trans (hone f hf))

theorem uses_attach (t : Tables) (root : String) (extensions : List String) (id : SessionId) :
    (t.attach root extensions id).lastUse = t.lastUse := by
  unfold Tables.attach
  dsimp only
  split <;> rfl

theorem byKey_attach (t : Tables) (root : String) (extensions : List String) (id : SessionId) :
    (t.attach root extensions id).byKey = t.byKey := by
  unfold Tables.attach
  dsimp only
  split <;> rfl

theorem Sound.attach (h : t.Sound key?) (root : String) (extensions : List String)
    {id : SessionId} (hnew : id ∉ t.held) : (t.attach root extensions id).Sound key? where
  keys_nodup := (t.byKey_attach root extensions id).symm ▸ h.keys_nodup
  uses_nodup := (t.uses_attach root extensions id).symm ▸ h.uses_nodup
  keyed := by
    rw [byKey_attach, uses_attach]
    exact h.keyed
  used := by
    rw [byKey_attach, uses_attach]
    exact h.used
  apart := by
    apply h.apart_attach root extensions
    exact fun a ha e he heq => hnew ((mem_held t id).mpr (.inr ⟨a, ha, e, he, heq⟩))
  one := by
    intro a ha e he f hf
    rcases mem_attach ha with ⟨ha, -⟩ | ⟨-, hentries⟩
    · exact h.one a ha e he f hf
    · rw [hentries] at he hf
      rw [((mem_attachment extensions id e).mp he).2, ((mem_attachment extensions id f).mp hf).2]
  alone := by
    intro a ha e he
    rw [uses_attach]
    rcases mem_attach ha with ⟨ha, -⟩ | ⟨-, hentries⟩
    · exact h.alone a ha e he
    · rw [hentries] at he
      rw [((mem_attachment extensions id e).mp he).2]
      exact fun hid => hnew ((mem_held t id).mpr (.inl hid))

theorem Sound.mem_held_elsewhere (h : t.Sound key?) (root : String) (id : SessionId) :
    id ∈ t.held ∧ id ∉ t.attachedTo root ↔ id ∈ t.lastUse.map Prod.fst ∨
      ∃ a ∈ t.attached, Path.steps a.root ≠ Path.steps root ∧ ∃ e ∈ a.byExtension, e.2 = id := by
  rw [mem_held]
  constructor
  · rintro ⟨hu | ⟨a, ha, e, he, heq⟩, hto⟩
    · exact .inl hu
    · refine .inr ⟨a, ha, ?_, e, he, heq⟩
      intro hroot
      exact hto ((mem_attachedTo h root id).mpr ⟨a, ha, hroot, e, he, heq⟩)
  · rintro (hu | ⟨a, ha, hroot, e, he, rfl⟩)
    · refine ⟨.inl hu, ?_⟩
      intro hto
      obtain ⟨a, ha, -, e, he, rfl⟩ := (mem_attachedTo h root id).mp hto
      exact h.alone a ha e he hu
    · refine ⟨.inr ⟨a, ha, e, he, rfl⟩, ?_⟩
      intro hto
      obtain ⟨b, hb, hroot', f, hf, heq⟩ := (mem_attachedTo h root e.2).mp hto
      rw [h.eq_of_session ha hb he hf heq.symm] at hroot
      exact hroot hroot'

theorem Sound.mem_held_attach (h : t.Sound key?) (root : String) {extensions : List String}
    (hne : extensions ≠ []) (id other : SessionId) :
    other ∈ (t.attach root extensions id).held ↔
      (other ∈ t.held ∧ other ∉ t.attachedTo root) ∨ other = id := by
  rw [mem_held, h.mem_held_elsewhere, uses_attach, or_assoc]
  apply or_congr Iff.rfl
  constructor
  · rintro ⟨a, ha, e, he, rfl⟩
    rcases mem_attach ha with ⟨ha, hroot⟩ | ⟨-, hentries⟩
    · exact .inl ⟨a, ha, hroot, e, he, rfl⟩
    · rw [hentries] at he
      exact .inr ((mem_attachment extensions id e).mp he).2
  · rintro (⟨a, ha, hroot, e, he, rfl⟩ | rfl)
    · exact ⟨a, mem_attach_of_ne extensions id ha hroot, e, he, rfl⟩
    · obtain ⟨ext, hext⟩ := List.exists_mem_of_ne_nil _ hne
      obtain ⟨b, hb, hentries⟩ := t.exists_mem_attach root extensions other
      refine ⟨b, hb, (ext, other), ?_, rfl⟩
      rw [hentries]
      exact (mem_attachment extensions other _).mpr ⟨hext, rfl⟩

theorem mem_detach (t : Tables) (root : String) (id : SessionId) (b : Attachment) :
    b ∈ (t.detach root id).attached ↔ ∃ a ∈ t.attached, b = (if a.root == root then
      { a with byExtension := a.byExtension.filter (·.2 != id) } else a) := by
  simp only [detach, List.mem_map, eq_comm]

theorem detach_sub (root : String) (id : SessionId) (a : Attachment) :
    let b := if a.root == root then { a with byExtension := a.byExtension.filter (·.2 != id) } else a
    b.root = a.root ∧ ∀ e ∈ b.byExtension, e ∈ a.byExtension := by
  dsimp only
  split
  · exact ⟨rfl, fun e he => (List.mem_filter.mp he).1⟩
  · exact ⟨rfl, fun e he => he⟩

theorem Sound.detach (h : t.Sound key?) (root : String) (id : SessionId) :
    (t.detach root id).Sound key? where
  keys_nodup := h.keys_nodup
  uses_nodup := h.uses_nodup
  keyed := h.keyed
  used := h.used
  apart := by
    refine List.pairwise_map.mpr (h.apart.imp ?_)
    rintro a b ⟨hroot, hdistinct⟩
    obtain ⟨hra, ha⟩ := detach_sub root id a
    obtain ⟨hrb, hb⟩ := detach_sub root id b
    refine ⟨?_, fun e he f hf => hdistinct e (ha e he) f (hb f hf)⟩
    rw [hra, hrb]
    exact hroot
  one := by
    intro b hb e he f hf
    obtain ⟨a, ha, rfl⟩ := (mem_detach t root id b).mp hb
    exact h.one a ha e ((detach_sub root id a).2 e he) f ((detach_sub root id a).2 f hf)
  alone := by
    intro b hb e he
    obtain ⟨a, ha, rfl⟩ := (mem_detach t root id b).mp hb
    exact h.alone a ha e ((detach_sub root id a).2 e he)

theorem Sound.mem_held_detach (h : t.Sound key?) {a : Attachment} (ha : a ∈ t.attached)
    {e : String × SessionId} (he : e ∈ a.byExtension) (other : SessionId) :
    other ∈ (t.detach a.root e.2).held ↔ other ∈ t.held ∧ other ≠ e.2 := by
  rw [mem_held, mem_held]
  constructor
  · rintro (hu | ⟨b, hb, f, hf, rfl⟩)
    · refine ⟨.inl hu, ?_⟩
      rintro rfl
      exact h.alone a ha e he hu
    · obtain ⟨c, hc, rfl⟩ := (mem_detach t a.root e.2 b).mp hb
      refine ⟨.inr ⟨c, hc, f, (detach_sub _ _ c).2 f hf, rfl⟩, ?_⟩
      intro heq
      have hca := h.eq_of_session hc ha ((detach_sub _ _ c).2 f hf) he heq
      subst hca
      rw [if_pos (beq_self_eq_true _)] at hf
      exact bne_iff_ne.mp (List.mem_filter.mp hf).2 heq
  · rintro ⟨hu | ⟨b, hb, f, hf, rfl⟩, hne⟩
    · exact .inl hu
    · refine .inr ⟨_, (mem_detach t a.root e.2 _).mpr ⟨b, hb, rfl⟩, f, ?_, rfl⟩
      split
      · exact List.mem_filter.mpr ⟨hf, bne_iff_ne.mpr hne⟩
      · exact hf

end Tables

end LanguageSessions
