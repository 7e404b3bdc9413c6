import LanguageSessions.Proofs.Registry.Cleanups
import LanguageSessions.Proofs.Registry.Eviction
import LanguageSessions.Proofs.Registry.Later

namespace LanguageSessions

namespace Registry

variable {r r' r'' : Registry} {Young Due Busy : SessionId → Prop}

structure Spares (r r' : Registry) : Prop where
  host : r'.host = r.host
  roots : r'.roots = r.roots
  sessions : ∀ id ∈ r.tables.attachedSessions, r'.session? id = r.session? id

theorem Spares.of_sessions (hhost : r'.host = r.host) (hroots : r'.roots = r.roots)
    (hsessions : r'.sessions = r.sessions) : r.Spares r' :=
  ⟨hhost, hroots, fun id _ => congrArg (List.find? fun s : Session => s.id == id) hsessions⟩

theorem Spares.trans (h : r.Spares r') (k : r'.Spares r'') : r.Spares r'' where
  host := k.host.trans h.host
  roots := k.roots.trans h.roots
  sessions id hid := by
    have hattached : r'.tables.attachedSessions = r.tables.attachedSessions :=
      congrArg (List.flatMap fun a : Attachment => a.byExtension.map Prod.snd) h.roots
    exact (k.sessions id (hattached ▸ hid)).trans (h.sessions id hid)

theorem Spares.attachedFor? (h : r.Spares r') (file : String) :
    (r'.attachedFor? file).2 = (r.attachedFor? file).2 := by
  have hroot : r'.tables.rootOf? r'.host file = r.tables.rootOf? r.host file := by
    unfold Tables.rootOf?
    rw [h.host, show r'.tables.attached = r.tables.attached from h.roots]
  unfold Registry.attachedFor?
  rw [hroot]
  cases ha : r.tables.rootOf? r.host file with
  | none => rfl
  | some a =>
    dsimp only
    cases hid : (fileExtension? file).bind fun ext => a.byExtension.lookup ext with
    | none => rfl
    | some id =>
      obtain ⟨ext, -, hlookup⟩ := Option.bind_eq_some_iff.mp hid
      have hmem : id ∈ r.tables.attachedSessions := List.mem_flatMap.mpr
        ⟨a, List.mem_of_find?_eq_some ha, List.mem_map_of_mem (mem_of_lookup hlookup)⟩
      dsimp only
      rw [isUsable, isUsable, h.sessions id hmem]
      split <;> rfl

theorem change_spares (r : Registry) (id : SessionId) {f : Session → Session × α}
    (hf : ∀ s : Session, (f s).1.id = s.id) (hid : id ∉ r.tables.attachedSessions) :
    r.Spares (r.change id f).1 := by
  cases hs : r.session? id with
  | none =>
    rw [change_of_none hs]
    exact .of_sessions rfl rfl rfl
  | some s =>
    rw [change_of_some hs]
    refine ⟨rfl, rfl, fun x hx => ?_⟩
    have hne : x ≠ id := by
      rintro rfl
      exact hid hx
    have hsame : (f s).1.id = id := (hf s).trans (session?_id hs)
    rw [session?_modify r id x (fun _ => (f s).1) fun _ _ => hsame, if_neg hne]

theorem attachedSessions_held (t : Tables) {id : SessionId} (hid : id ∈ t.attachedSessions) :
    id ∈ t.held := List.mem_append_right _ hid

theorem evict_spares (r : Registry) (window now : Nat) : r.Spares (r.evict window now).1 := by
  have hkept : ∀ ids : List SessionId, (ids.foldl forget r).host = r.host ∧
      (ids.foldl forget r).sessions = r.sessions := by
    intro ids
    exact List.foldlRecOn (motive := fun (t : Registry) => t.host = r.host ∧
      t.sessions = r.sessions) _ _ ⟨rfl, rfl⟩ fun _ ht _ _ => ht
  obtain ⟨hhost, hsessions⟩ := hkept (r.tables.expired window now)
  exact .of_sessions hhost (r.roots_evict window now) hsessions

theorem Sound.evict_retires (h : r.Sound Young Due Busy) (window now : Nat) {id : SessionId}
    (hid : id ∈ (r.evict window now).1.retired) :
    id ∈ r.retired ∨ id ∈ r.tables.held ∧ id ∉ (r.evict window now).1.tables.held := by
  rw [h.evict_eq] at hid ⊢
  rcases List.mem_append.mp hid with hid | hid
  · exact .inl hid
  · have hused := (expired_sublist r.tables window now).subset hid
    exact .inr ⟨(Tables.mem_held _ id).mpr (.inl hused), h.tables.not_held_strike hid hused⟩

theorem Sound.remove_apart (h : r.Sound Young Due Busy) (key : SessionKey) (id : SessionId)
    (hid : (r.remove key).2 = some id) : id ∉ (r.remove key).1.tables.held := by
  rcases h.remove_cases key with ⟨hnone, -⟩ | ⟨x, hmem, heq⟩
  · rw [hnone] at hid
    cases hid
  · rw [heq] at hid ⊢
    cases hid
    exact fun hheld => ((h.tables.mem_held_drop hmem id).mp hheld).2 rfl

theorem remove_spares (r : Registry) (key : SessionKey) :
    r.Spares (r.remove key).1 ∧ (r.remove key).1.retired = r.retired := by
  unfold remove
  dsimp only
  split <;> exact ⟨.of_sessions rfl rfl rfl, rfl⟩

end Registry

namespace Call

open Registry (Spares)

variable {r : Registry} {Young Busy : SessionId → Prop}

def upkeeps : Call → Bool
  | waiting (.evict _) _ => true
  | waiting (.restart _) _ => true
  | stopping _ _ => true
  | _ => false

theorem restart_spares (h : r.Sound Young r.Retired Busy) (key : SessionKey) (lenient : Bool)
    (now : Nat) : r.Spares (perform r (.restart key) lenient now).1 ∧
      (perform r (.restart key) lenient now).1.retired = r.retired := by
  have hremoved := r.remove_spares key
  rcases restart_cases r key lenient now with ⟨r', heq, hstep⟩ | ⟨r', id, a, heq, hstep, -⟩
  · rw [heq] at hremoved
    rw [hstep]
    exact ⟨hremoved.1.trans (.of_sessions rfl rfl rfl), hremoved.2⟩
  · have hapart : id ∉ r'.tables.held := by
      have hout := h.remove_apart key id (by rw [heq])
      rwa [heq] at hout
    rw [heq] at hremoved
    rw [hstep]
    have hleft : r'.Spares { r' with turns := r'.turns.leave } := .of_sessions rfl rfl rfl
    have hchange := Registry.change_spares { r' with turns := r'.turns.leave } id
      (fun s => (s.later_shutdownAndKill now).id)
      (fun hid => hapart (Registry.attachedSessions_held _ hid))
    exact ⟨(hremoved.1.trans hleft).trans hchange,
      (Registry.retired_change _ id _).trans hremoved.2⟩

theorem stopping_spares (ticket now : Nat) {id : SessionId} (k : Cleanup)
    (hid : id ∉ r.tables.held) : r.Spares ((stopping id k).advance ticket now r).1 ∧
      ((stopping id k).advance ticket now r).1.retired = r.retired := by
  have hchange := r.change_spares id (fun s => (k.later_advance now s).id)
    fun hattached => hid (Registry.attachedSessions_held _ hattached)
  have hretired := r.retired_change id (k.advance now)
  unfold advance
  dsimp only
  generalize r.change id (k.advance now) = p at hchange hretired ⊢
  obtain ⟨r', a⟩ := p
  split <;> next heq => cases heq; exact ⟨hchange, hretired⟩

theorem upkeep_spares (h : r.Sound Young r.Retired Busy) {c : Call} (hc : c.upkeeps = true)
    (ticket now : Nat) (hapart : ∀ id k, c = stopping id k → id ∉ r.tables.held) :
    r.Spares (c.advance ticket now r).1 ∧ ∀ id ∈ (c.advance ticket now r).1.retired,
      id ∈ r.retired ∨ id ∈ r.tables.held ∧ id ∉ (c.advance ticket now r).1.tables.held := by
  cases c with
  | waiting w lenient =>
    cases hfree : r.turns.isFree ticket with
    | false =>
      rw [advance_waits hfree]
      exact ⟨.of_sessions rfl rfl rfl, fun id hid => .inl hid⟩
    | true =>
      rw [advance_turn hfree]
      let r₀ : Registry := { r with turns := (r.turns.enter ticket).1 }
      have hsound : r₀.Sound Young r₀.Retired Busy := h.congr rfl
      have hentered : r.Spares r₀ := .of_sessions rfl rfl rfl
      cases w with
      | evict window =>
        have hspares := hentered.trans (r₀.evict_spares window now)
        exact ⟨⟨hspares.host, hspares.roots, hspares.sessions⟩,
          fun id hid => hsound.evict_retires window now hid⟩
      | restart key =>
        obtain ⟨hspares, hretired⟩ := restart_spares hsound key lenient now
        exact ⟨hentered.trans hspares, fun id hid => .inl (hretired ▸ hid)⟩
      | _ => cases hc
  | stopping id k =>
    obtain ⟨hspares, hretired⟩ := stopping_spares ticket now k (hapart id k rfl)
    exact ⟨hspares, fun x hx => .inl (hretired ▸ hx)⟩
  | _ => cases hc

theorem advance_stopping (h : r.Sound Young r.Retired Busy) {ticket now : Nat} {c : Call}
    {id : SessionId} {k : Cleanup}
    (hafter : c.after (c.advance ticket now r).2 = some (stopping id k)) :
    (∃ k', c = stopping id k') ∨ id ∉ (c.advance ticket now r).1.tables.held := by
  cases c with
  | waiting w lenient =>
    right
    cases hfree : r.turns.isFree ticket with
    | false =>
      rw [advance_waits hfree] at hafter
      cases hafter
    | true =>
      rw [advance_turn hfree] at hafter ⊢
      let r₀ : Registry := { r with turns := (r.turns.enter ticket).1 }
      have hsound : r₀.Sound Young r₀.Retired Busy := h.congr rfl
      change (waiting w lenient).after (perform r₀ w lenient now).2 = _ at hafter
      change id ∉ (perform r₀ w lenient now).1.tables.held
      cases w with
      | restart key =>
        rcases restart_cases r₀ key lenient now with ⟨r', -, hstep⟩ |
          ⟨r', x, a, heq, hstep, rfl | ⟨k', rfl⟩⟩
        · rw [hstep] at hafter
          cases hafter
        · rw [hstep] at hafter
          cases hafter
        · rw [hstep] at hafter ⊢
          cases hafter
          have hapart := hsound.remove_apart key id (by rw [heq])
          rw [heq] at hapart
          rw [Registry.tables_change]
          exact hapart
      | resolve owner file =>
        unfold perform at hafter
        dsimp only at hafter
        split at hafter
        · cases hafter
        · split at hafter <;> cases hafter
      | create t =>
        change (waiting (.create t) lenient).after (create r₀ t lenient now).2 = _ at hafter
        unfold create at hafter
        split at hafter
        · cases hafter
        · split at hafter
          · cases hafter
          · obtain ⟨x, hs, heq⟩ := launch_place? _ _ _ _ _ _ _ _ _ hafter
            cases heq
      | attach key root d extensions =>
        obtain ⟨x, hs, heq⟩ := launch_place? _ _ _ _ _ _ _ _ _ hafter
        cases heq
      | shutdownAll =>
        unfold perform clear at hafter
        dsimp only at hafter
        split at hafter <;> cases hafter
      | _ => cases hafter
  | opening x hs b lenient =>
    unfold advance at hafter
    dsimp only at hafter
    split at hafter <;> cases hafter
  | stopping x k' =>
    left
    unfold advance at hafter
    dsimp only at hafter
    split at hafter <;> cases hafter <;> exact ⟨_, rfl⟩
  | clearing ids rest =>
    unfold advance clear at hafter
    dsimp only at hafter
    split at hafter
    · split at hafter <;> cases hafter
    · cases hafter

end Call

namespace Service

variable {σ : Service}

def Parted (σ : Service) : Prop :=
  ∀ (n : Nat) (id : SessionId) (k : Cleanup), σ.calls[n]? = some (.running (.stopping id k)) → id ∉ σ.registry.tables.held

theorem begin_waits (r : Registry) (d : Demand) {c : Call} (h : d.begin r = .running c) :
    ∃ w lenient, c = .waiting w lenient := by
  cases d with
  | attach root d extensions =>
    unfold Demand.begin Call.attach at h
    dsimp only at h
    split at h
    · next hc =>
      split at hc
      · cases hc
      · cases hc
        cases h
        exact ⟨_, _, rfl⟩
    · cases h
  | _ =>
    cases h
    exact ⟨_, _, rfl⟩

theorem step_parted (h : σ.Sound) (hparted : σ.Parted) (a : Act) : (σ.step a).Parted := by
  intro m id k hm
  have hkept : ∀ k', σ.calls[m]? = some (.running (.stopping id k')) →
      id ∉ (σ.step a).registry.tables.held := by
    intro k' hk'
    have hbusy : σ.Busy id := .inl ⟨m, _, hk', List.mem_cons_self⟩
    obtain ⟨hknows, hyoung⟩ := h.registry.hands id (.inr hbusy)
    exact (h.step_gone a hknows (hparted m id k' hk') hyoung).2.1
  rcases step_cases h a with ⟨d, rfl⟩ | ⟨n, rfl⟩ | hrests
  · change (σ.calls ++ [d.begin σ.registry])[m]? = _ at hm
    rcases Nat.lt_or_ge m σ.calls.length with hlt | hge
    · rw [List.getElem?_append_left hlt] at hm
      exact hkept k hm
    · rw [List.getElem?_append_right hge] at hm
      obtain ⟨w, lenient, heq⟩ :=
        begin_waits _ d (List.mem_singleton.mp (List.mem_of_getElem? hm)).symm
      cases heq
  · by_cases hrunning : ∃ c, σ.calls[n]? = some (.running c)
    · obtain ⟨c, hc⟩ := hrunning
      have hstep := step_advance hc
      rw [hstep] at hm
      rcases set_cases hm with ⟨rfl, hnext⟩ | ⟨-, hother⟩
      · rcases Call.advance_stopping h.registry (after_of_next hnext.symm) with ⟨k', rfl⟩ | hleft
        · exact hkept k' hc
        · rw [hstep]
          exact hleft
      · exact hkept k hother
    · rw [step_over fun c hc => hrunning ⟨c, hc⟩] at hm ⊢
      exact hparted m id k hm
  · rw [hrests.calls] at hm
    exact hkept k hm

theorem run_parted (h : σ.Sound) (hparted : σ.Parted) (as : List Act) : (σ.run as).Parted := by
  induction as generalizing σ with
  | nil => exact hparted
  | cons a as ih => exact ih (step_leads h a).sound (step_parted h hparted a)

theorem upkeep_retires (h : σ.Sound) (hparted : σ.Parted) {n : Nat} {c : Call}
    (hc : σ.calls[n]? = some (.running c)) (hupkeep : c.upkeeps = true) {id : SessionId}
    (hid : id ∈ (σ.step (.advance n)).registry.retired) : id ∈ σ.registry.retired ∨
      ∀ as, id ∉ ((σ.step (.advance n)).run as).registry.tables.attachedSessions := by
  have hspares := Call.upkeep_spares h.registry hupkeep n σ.now fun x k hx =>
    hparted n x k (hx ▸ hc)
  have hsound := (step_leads h (.advance n)).sound
  obtain ⟨hknows, hyoung⟩ := hsound.registry.hands id (.inl hid)
  have hregistry : (σ.step (.advance n)).registry = (c.advance n σ.now σ.registry).1 := by
    rw [step_advance hc]
  rcases hspares.2 id (hregistry ▸ hid) with hold | ⟨-, hout⟩
  · exact .inl hold
  · right
    intro as hattached
    rw [← hregistry] at hout
    exact hsound.run_gone as hknows hout hyoung (Registry.attachedSessions_held _ hattached)

end Service

end LanguageSessions
