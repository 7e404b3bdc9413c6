import LanguageSessions.Proofs.Registry.Sessions
import LanguageSessions.Proofs.Registry.Tables

/-!
The invariant of a registry. It is stated with three kinds of sessions that the registry itself
does not record: those whose handshake is not over, those that somebody has taken out of the tables
and is about to clean up, and those whose cleanup is under way. Every session is one of these or in
the tables, or it has been cleaned up, or it has ended.
-/
namespace LanguageSessions

/-- What is true of a session at all times: `kept` says that the tables hold it or that somebody is
about to clean it up, `busy` that its cleanup is under way. -/
structure Session.Fit (s : Session) (young kept busy : Prop) : Prop where
  starting : young → s.state = .starting ∧ s.cleanedUp = false
  settled : young ∨ kept ∨ s.cleanedUp = true ∨ s.Ended
  working : s.cleanedUp = true → s.Ended ∨ busy
  once : s.cleanups ≤ 1 ∧ (s.cleanedUp = false → s.cleanups = 0)

namespace Session

variable {s t : Session} {young kept busy : Prop}

theorem Fit.quiet (h : s.Fit young kept busy) (hq : s.Quiet t) (hstate : young → t.state = s.state) :
    t.Fit young kept busy where
  starting := fun hy => ⟨(hstate hy).trans (h.starting hy).1, hq.cleanedUp.trans (h.starting hy).2⟩
  settled := by
    rcases h.settled with hy | hk | hc | he
    · exact .inl hy
    · exact .inr (.inl hk)
    · exact .inr (.inr (.inl (hq.cleanedUp.trans hc)))
    · exact .inr (.inr (.inr (hq.ended he)))
  working := by
    intro hc
    rcases h.working (hq.cleanedUp.symm.trans hc) with he | hb
    · exact .inl (hq.ended he)
    · exact .inr hb
  once := by
    rw [hq.cleanups, hq.cleanedUp]
    exact h.once

theorem Fit.grow (h : s.Fit young kept busy) (hq : s.Quiet t) {young' kept' : Prop}
    (hy : ¬ young') (hk : kept') : t.Fit young' kept' busy where
  starting := fun hy' => absurd hy' hy
  settled := .inr (.inl hk)
  working := fun hc => (h.working (hq.cleanedUp.symm.trans hc)).imp_left hq.ended
  once := by
    rw [hq.cleanups, hq.cleanedUp]
    exact h.once

theorem Fit.of_ended (he : s.Ended)
    (hy : ¬ young) (honce : s.cleanups ≤ 1 ∧ (s.cleanedUp = false → s.cleanups = 0)) :
    s.Fit young kept busy :=
  ⟨fun h => absurd h hy, .inr (.inr (.inr he)), fun _ => .inl he, honce⟩

theorem Fit.kill (h : s.Fit young kept busy) {kept' : Prop} (hy : ¬ young) :
    s.kill.Fit young kept' busy := by
  apply Fit.of_ended s.kill_ended hy
  rw [s.quiet_kill.cleanups, s.quiet_kill.cleanedUp]
  exact h.once

theorem Fit.begins (h : s.Fit young kept busy) {p : Session × Advance Cleanup Unit}
    (hs : s.cleanedUp = false) (hp : s.Begins p) {kept' busy' : Prop} (hy : ¬ young)
    (hbusy : ∀ c, p.2 = .on c → busy') : p.1.Fit young kept' busy' where
  starting := fun h => absurd h hy
  settled := .inr (.inr (.inl hp.cleanedUp))
  working := by
    intro _
    rcases hp.under with ⟨c, hc⟩ | ⟨-, he⟩
    · exact .inr (hbusy c hc)
    · exact .inl he
  once := by
    rw [hp.cleanups, hp.cleanedUp, h.once.2 hs]
    simp

end Session

def also (P : SessionId → Prop) (ids : List SessionId) (id : SessionId) : Prop := P id ∨ id ∈ ids

theorem also_nil (P : SessionId → Prop) : also P [] = P := by
  funext id
  simp [also]

theorem also_append (P : SessionId → Prop) (xs ys : List SessionId) :
    also P (xs ++ ys) = also (also P xs) ys := by
  funext id
  simp [also, or_assoc]

theorem also_cons (P : SessionId → Prop) (x : SessionId) (xs : List SessionId) :
    also P (x :: xs) = also (also P [x]) xs :=
  also_append P [x] xs

theorem also_comm (P : SessionId → Prop) (xs ys : List SessionId) :
    also (also P xs) ys = also (also P ys) xs := by
  funext id
  simp only [also]
  exact propext or_right_comm

theorem also_self (P : SessionId → Prop) (id : SessionId) : also P [id] id :=
  .inr (List.mem_singleton.mpr rfl)

theorem also_of_ne {P : SessionId → Prop} {id other : SessionId} (h : other ≠ id) :
    also P [id] other ↔ P other := by
  simp [also, h]

namespace Registry

structure Sound (r : Registry) (Young Due Busy : SessionId → Prop) : Prop where
  numbered : ∀ id, (∃ s, r.session? id = some s) ↔ r.Knows id
  launches : r.launches.length = r.sessions.length
  tables : r.tables.Sound r.key?
  announced_nodup : r.announced.Nodup
  announced_known : ∀ id ∈ r.announced, r.Knows id
  held_announced : ∀ id ∈ r.tables.held, id ∈ r.announced
  released : ∀ id ∈ r.released, r.Knows id ∧ ¬ Young id ∧ id ∉ r.tables.held
  young : ∀ id, Young id → r.Knows id ∧ id ∉ r.announced
  hands : ∀ id, Due id ∨ Busy id → r.Knows id ∧ ¬ Young id
  sessions : ∀ id s, r.session? id = some s →
    s.Fit (Young id) (id ∈ r.tables.held ∨ Due id) (Busy id)

variable {r r' : Registry} {Young Due Busy Young' Due' Busy' : SessionId → Prop} {id : SessionId}

theorem Sound.due (h : r.Sound Young (also Due [id]) Busy) : r.Knows id ∧ ¬ Young id :=
  h.hands id (.inl (also_self Due id))

def core (r : Registry) : List Session × List (ServerDescription × String) × Tables ×
    List SessionId × List SessionId :=
  (r.sessions, r.launches, r.tables, r.announced, r.released)

theorem Sound.congr (h : r.Sound Young Due Busy) (hcore : r'.core = r.core) :
    r'.Sound Young Due Busy := by
  obtain ⟨host, timing, providers, contentTypes, locator, connect, processId, tables, turns,
    sessions, launches, retired, released, announced, questions⟩ := r'
  simp only [core, Prod.mk.injEq] at hcore
  obtain ⟨rfl, rfl, rfl, rfl, rfl⟩ := hcore
  exact ⟨h.numbered, h.launches, h.tables, h.announced_nodup, h.announced_known, h.held_announced,
    h.released, h.young, h.hands, h.sessions⟩

theorem frame_of_core (hcore : r'.core = r.core) (hholder : r'.turns.holder = r.turns.holder) :
    r.Frame r' := by
  simp only [core, Prod.mk.injEq] at hcore
  obtain ⟨hsessions, hlaunches, htables, hannounced, -⟩ := hcore
  have hkeys : ∀ id, r'.key? id = r.key? id := by
    intro id
    rw [key?, session?, hsessions]
    rfl
  exact {
    tables := htables
    announced := hannounced
    holder := hholder
    count := Nat.le_of_eq (congrArg List.length hsessions).symm
    keys := fun id key hk => (hkeys id).trans hk
    launches := hlaunches
    count_eq := congrArg List.length hsessions
    keys_eq := hkeys }

theorem Moves.congr {new : List SessionId} {r'' : Registry} (h : r.Moves r' new)
    (hcore : r''.core = r'.core) : r.Moves r'' new := by
  obtain ⟨host, timing, providers, contentTypes, locator, connect, processId, tables, turns,
    sessions, launches, retired, released, announced, questions⟩ := r''
  simp only [core, Prod.mk.injEq] at hcore
  obtain ⟨rfl, rfl, rfl, rfl, rfl⟩ := hcore
  exact ⟨h.keys, h.count, h.held, h.entered, h.announced⟩

theorem Sound.modify (h : r.Sound Young Due Busy) (id : SessionId) (f : Session → Session)
    (hf : ∀ s, s.id = id → (f s).id = id)
    (hkey : ∀ s, r.session? id = some s → (f s).key = s.key)
    (hfit : ∀ s, r.session? id = some s →
      (f s).Fit (Young' id) (id ∈ r.tables.held ∨ Due' id) (Busy' id))
    (hother : ∀ x, x ≠ id → (Young' x ↔ Young x) ∧ (Due' x ↔ Due x) ∧ (Busy' x ↔ Busy x))
    (hyoung : Young' id → Young id) (hhands : Due' id ∨ Busy' id → r.Knows id ∧ ¬ Young' id) :
    (r.modify id f).Sound Young' Due' Busy' := by
  have hframe := r.frame_modify id f hf hkey
  have hknows : ∀ x, (r.modify id f).Knows x ↔ r.Knows x := by
    intro x
    rw [Knows, hframe.count_eq, Knows]
  have hgrown : ∀ x, Young' x → Young x := by
    intro x hx
    by_cases hxid : x = id
    · subst hxid
      exact hyoung hx
    · exact (hother x hxid).1.mp hx
  exact {
    numbered := by
      intro x
      rw [hknows, ← h.numbered, session?_modify r id x f hf]
      split
      · next hx =>
        subst hx
        cases r.session? x <;> simp
      · exact Iff.rfl
    launches := h.launches.trans hframe.count_eq.symm
    tables := h.tables.congr hframe.keys
    announced_nodup := h.announced_nodup
    announced_known := fun x hx => (hknows x).mpr (h.announced_known x hx)
    held_announced := h.held_announced
    released := by
      intro x hx
      obtain ⟨hk, hy, hheld⟩ := h.released x hx
      exact ⟨(hknows x).mpr hk, fun hy' => hy (hgrown x hy'), hheld⟩
    young := by
      intro x hx
      obtain ⟨hk, hann⟩ := h.young x (hgrown x hx)
      exact ⟨(hknows x).mpr hk, hann⟩
    hands := by
      intro x hx
      -- only `id` itself can have changed hands
      by_cases hxid : x = id
      · subst hxid
        exact ⟨(hknows x).mpr (hhands hx).1, (hhands hx).2⟩
      · obtain ⟨hy, hd, hb⟩ := hother x hxid
        obtain ⟨hk, hny⟩ := h.hands x (hx.imp hd.mp hb.mp)
        exact ⟨(hknows x).mpr hk, fun hy' => hny (hy.mp hy')⟩
    sessions := by
      intro x s hs
      rw [session?_modify r id x f hf] at hs
      by_cases hxid : x = id
      · subst hxid
        rw [if_pos rfl] at hs
        obtain ⟨t, ht, rfl⟩ := Option.map_eq_some_iff.mp hs
        exact hfit t ht
      · rw [if_neg hxid] at hs
        obtain ⟨hy, hd, hb⟩ := hother x hxid
        have hfit := h.sessions x s hs
        rw [← propext hy, ← propext hd, ← propext hb] at hfit
        exact hfit }

theorem Sound.change (h : r.Sound Young Due Busy) {s : Session}
    (hs : r.session? id = some s) (f : Session → Session × α) (hid : (f s).1.id = s.id)
    (hkey : (f s).1.key = s.key)
    (hfit : (f s).1.Fit (Young' id) (id ∈ r.tables.held ∨ Due' id) (Busy' id))
    (hother : ∀ x, x ≠ id → (Young' x ↔ Young x) ∧ (Due' x ↔ Due x) ∧ (Busy' x ↔ Busy x))
    (hyoung : Young' id → Young id) (hhands : Due' id ∨ Busy' id → r.Knows id ∧ ¬ Young' id) :
    (r.change id f).1.Sound Young' Due' Busy' := by
  rw [change_of_some hs]
  apply h.modify
  · exact fun _ _ => hid.trans (session?_id hs)
  · intro t ht
    rw [hs, Option.some.injEq] at ht
    subst ht
    exact hkey
  · exact fun _ _ => hfit
  · exact hother
  · exact hyoung
  · exact hhands

theorem Sound.quiet (h : r.Sound Young Due Busy) (id : SessionId) (f : Session → Session)
    (hq : ∀ s : Session, s.Quiet (f s)) (hstate : Young id → ∀ s, (f s).state = s.state) :
    (r.modify id f).Sound Young Due Busy := by
  apply h.modify
  · exact fun s hs => (hq s).id.trans hs
  · exact fun s _ => (hq s).key
  · exact fun s hs => (h.sessions id s hs).quiet (hq s) fun hy => hstate hy s
  · exact fun x _ => ⟨Iff.rfl, Iff.rfl, Iff.rfl⟩
  · exact fun hy => hy
  · exact h.hands id

theorem Sound.quiet_change (h : r.Sound Young Due Busy) (id : SessionId)
    (f : Session → Session × α) (hq : ∀ s : Session, s.Quiet (f s).1)
    (hstate : Young id → ∀ s, (f s).1.state = s.state) : (r.change id f).1.Sound Young Due Busy := by
  cases hs : r.session? id with
  | none =>
    rw [change_of_none hs]
    exact h
  | some s =>
    apply h.change hs f (hq s).id (hq s).key
    · exact (h.sessions id s hs).quiet (hq s) fun hy => hstate hy s
    · exact fun x _ => ⟨Iff.rfl, Iff.rfl, Iff.rfl⟩
    · exact fun hy => hy
    · exact h.hands id

theorem Sound.also_due (h : r.Sound Young Due Busy) {ids : List SessionId}
    (hids : ∀ id ∈ ids, id ∈ r.announced) : r.Sound Young (also Due ids) Busy :=
  { h with
    hands := by
      rintro id ((hd | hd) | hb)
      · exact h.hands id (.inl hd)
      · exact ⟨h.announced_known id (hids id hd), fun hy => (h.young id hy).2 (hids id hd)⟩
      · exact h.hands id (.inr hb)
    sessions := by
      intro id s hs
      have hfit := h.sessions id s hs
      refine ⟨hfit.starting, ?_, hfit.working, hfit.once⟩
      exact hfit.settled.imp_right (Or.imp_left (Or.imp_right .inl)) }

theorem Sound.kill (h : r.Sound Young (also Due [id]) Busy) :
    (r.modify id Session.kill).Sound Young Due Busy := by
  have hid := h.due
  apply h.modify
  · exact fun s hs => s.quiet_kill.id.trans hs
  · exact fun s _ => s.quiet_kill.key
  · exact fun s hs => (h.sessions id s hs).kill hid.2
  · exact fun x hx => ⟨Iff.rfl, (also_of_ne hx).symm, Iff.rfl⟩
  · exact fun hy => hy
  · exact fun _ => hid

theorem Sound.kills {ids : List SessionId} (h : r.Sound Young (also Due ids) Busy) :
    (ids.foldl (fun r id => r.modify id Session.kill) r).Sound Young Due Busy := by
  induction ids generalizing r with
  | nil => rwa [also_nil] at h
  | cons id ids ih =>
    -- the first of the sessions is killed while the others stay in somebody's hands
    rw [also_cons, also_comm] at h
    exact ih h.kill

theorem frame_kills (r : Registry) (ids : List SessionId) :
    r.Frame (ids.foldl (fun r id => r.modify id Session.kill) r) := by
  induction ids generalizing r with
  | nil => exact Frame.rfl r
  | cons id ids ih =>
    apply Frame.trans _ (ih _)
    exact r.frame_modify id _ (fun s hs => s.quiet_kill.id.trans hs) fun s _ => s.quiet_kill.key

theorem retired_kills (r : Registry) (ids : List SessionId) :
    (ids.foldl (fun r id => r.modify id Session.kill) r).retired = r.retired := by
  induction ids generalizing r with
  | nil => rfl
  | cons id ids ih => exact ih (r.modify id Session.kill)

theorem Sound.grow (h : r.Sound (also Young [id]) Due Busy) (hid : ¬ Young id)
    (f : Session → Session × α) (hq : ∀ s : Session, s.Quiet (f s).1) :
    (r.change id f).1.Sound Young (also Due [id]) Busy := by
  have hk := h.young id (also_self Young id)
  obtain ⟨s, hs⟩ := (h.numbered id).mpr hk.1
  apply h.change hs f (hq s).id (hq s).key
  · exact (h.sessions id s hs).grow (hq s) hid (.inr (also_self Due id))
  · exact fun x hx => ⟨(also_of_ne hx).symm, also_of_ne hx, Iff.rfl⟩
  · exact fun hy => absurd hy hid
  · exact fun _ => ⟨hk.1, hid⟩

theorem Sound.abandon (h : r.Sound Young (also Due [id]) Busy) :
    (r.modify id Session.abandon).Sound Young Due Busy := by
  have hid := h.due
  apply h.modify
  · exact fun s hs => s.abandon_id.trans hs
  · exact fun s _ => s.abandon_key
  · intro s hs
    apply Session.Fit.of_ended s.abandon_ended hid.2
    rw [s.abandon_cleanups, s.abandon_cleanedUp]
    exact ⟨(h.sessions id s hs).once.1, by simp⟩
  · exact fun x hx => ⟨Iff.rfl, (also_of_ne hx).symm, Iff.rfl⟩
  · exact fun hy => hy
  · exact fun _ => hid

theorem frame_abandon (r : Registry) (id : SessionId) : r.Frame (r.modify id Session.abandon) :=
  r.frame_modify id _ (fun s hs => s.abandon_id.trans hs) fun s _ => s.abandon_key

theorem Sound.begins (h : r.Sound Young (also Due [id]) Busy)
    {f : Session → Session × Advance Cleanup Unit} (hf : Session.IsCleanup f) :
    (∃ c, (r.change id f).2 = some (.on c) ∧
      (r.change id f).1.Sound Young Due (also Busy [id])) ∨
    ((r.change id f).2 = some (.done ()) ∧ (r.change id f).1.Sound Young Due Busy) := by
  have hid := h.due
  obtain ⟨s, hs⟩ := (h.numbered id).mpr hid.1
  have hsnd : (r.change id f).2 = some (f s).2 := by rw [change_of_some hs]
  have hfit := h.sessions id s hs
  rw [hsnd]
  rcases hf s with ⟨hclean, heq⟩ | ⟨hclean, hb⟩
  · right
    refine ⟨by rw [heq], ?_⟩
    apply h.change hs f
    · rw [heq]
    · rw [heq]
    · rw [heq]
      exact ⟨hfit.starting, .inr (.inr (.inl hclean)), hfit.working, hfit.once⟩
    · exact fun x hx => ⟨Iff.rfl, (also_of_ne hx).symm, Iff.rfl⟩
    · exact fun hy => hy
    · exact fun _ => hid
  · rcases hb.under with ⟨c, hc⟩ | ⟨hdone, -⟩
    · left
      refine ⟨c, by rw [hc], ?_⟩
      apply h.change hs f hb.id hb.key
      · exact hfit.begins hclean hb hid.2 fun _ _ => also_self Busy id
      · exact fun x hx => ⟨Iff.rfl, (also_of_ne hx).symm, also_of_ne hx⟩
      · exact fun hy => hy
      · exact fun _ => hid
    · right
      refine ⟨by rw [hdone], ?_⟩
      apply h.change hs f hb.id hb.key
      · apply hfit.begins hclean hb hid.2
        intro c hc
        rw [hdone] at hc
        cases hc
      · exact fun x hx => ⟨Iff.rfl, (also_of_ne hx).symm, Iff.rfl⟩
      · exact fun hy => hy
      · exact fun _ => hid

theorem frame_begins (r : Registry) (id : SessionId) {f : Session → Session × Advance Cleanup Unit}
    (hf : Session.IsCleanup f) : r.Frame (r.change id f).1 := by
  apply frame_change
  · intro s
    rcases hf s with ⟨-, heq⟩ | ⟨-, hb⟩
    · rw [heq]
    · exact hb.id
  · intro s
    rcases hf s with ⟨-, heq⟩ | ⟨-, hb⟩
    · rw [heq]
    · exact hb.key

theorem Sound.cleans (h : r.Sound Young Due (also Busy [id])) (c : Cleanup) (now : Nat) :
    (r.change id (c.advance now)).1.Sound Young Due (also Busy [id]) ∧
      ∃ a, (r.change id (c.advance now)).2 = some a ∧
        (a = .done () → (r.change id (c.advance now)).1.Sound Young Due Busy) := by
  have hid := h.hands id (.inr (also_self Busy id))
  obtain ⟨s, hs⟩ := (h.numbered id).mpr hid.1
  refine ⟨h.quiet_change id _ (c.quiet_advance now) fun hy => absurd hy hid.2, (c.advance now s).2, ?_⟩
  refine ⟨by rw [change_of_some hs], ?_⟩
  intro hdone
  have hq := c.quiet_advance now s
  apply h.change hs _ hq.id hq.key
  · apply Session.Fit.of_ended (c.advance_ended now s hdone) hid.2
    rw [hq.cleanups, hq.cleanedUp]
    exact (h.sessions id s hs).once
  · exact fun x hx => ⟨Iff.rfl, Iff.rfl, (also_of_ne hx).symm⟩
  · exact fun hy => hy
  · exact fun _ => hid

theorem frame_cleans (r : Registry) (id : SessionId) (c : Cleanup) (now : Nat) :
    r.Frame (r.change id (c.advance now)).1 :=
  r.frame_change id _ (fun s => (c.quiet_advance now s).id) fun s => (c.quiet_advance now s).key

end Registry

end LanguageSessions
