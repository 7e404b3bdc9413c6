import LanguageSessions.Proofs.Registry.Invariant
import LanguageSessions.Proofs.Session.Later

namespace LanguageSessions

namespace Registry

/-- A registry later on: its sessions went on, and what was retired is so still. -/
structure Later (r r' : Registry) : Prop where
  sessions : ∀ id s, r.session? id = some s → ∃ t, r'.session? id = some t ∧ s.Later t
  retired : ∀ id ∈ r.retired, id ∈ r'.retired

namespace Later

variable {r r' r'' : Registry}

theorem of_sessions (hsessions : r'.sessions = r.sessions)
    (hretired : ∀ id ∈ r.retired, id ∈ r'.retired) : r.Later r' where
  sessions id s hs := ⟨s, by rwa [session?, hsessions], .refl s⟩
  retired := hretired

theorem refl (r : Registry) : r.Later r := .of_sessions rfl fun _ h => h

theorem trans (h : r.Later r') (k : r'.Later r'') : r.Later r'' where
  sessions id s hs := by
    obtain ⟨t, ht, hst⟩ := h.sessions id s hs
    obtain ⟨u, hu, htu⟩ := k.sessions id t ht
    exact ⟨u, hu, hst.trans htu⟩
  retired id hid := k.retired id (h.retired id hid)

theorem modify (r : Registry) (id : SessionId) (f : Session → Session)
    (hf : ∀ s, r.session? id = some s → s.Later (f s)) (hid : ∀ s, s.id = id → (f s).id = id) :
    r.Later (r.modify id f) where
  sessions x s hs := by
    rw [session?_modify r id x f hid]
    by_cases hx : x = id
    · subst hx
      rw [if_pos rfl, hs]
      exact ⟨f s, rfl, hf s hs⟩
    · rw [if_neg hx]
      exact ⟨s, hs, .refl s⟩
  retired _ h := h

theorem modifies (r : Registry) (id : SessionId) {f : Session → Session}
    (hf : ∀ s : Session, s.Later (f s)) : r.Later (r.modify id f) :=
  modify r id f (fun s _ => hf s) fun s hs => (hf s).id.trans hs

theorem change (r : Registry) (id : SessionId) {f : Session → Session × α}
    (hf : ∀ s : Session, s.Later (f s).1) : r.Later (r.change id f).1 := by
  cases hs : r.session? id with
  | none =>
    rw [change_of_none hs]
    exact refl r
  | some s =>
    rw [change_of_some hs]
    apply modify
    · intro t ht
      rw [hs, Option.some.injEq] at ht
      exact ht ▸ hf s
    · exact fun _ _ => (hf s).id.trans (session?_id hs)

theorem kills (r : Registry) (ids : List SessionId) :
    r.Later (ids.foldl (fun r id => r.modify id Session.kill) r) := by
  induction ids generalizing r with
  | nil => exact refl r
  | cons id ids ih => exact (modifies r id .kill).trans (ih _)

theorem live? (r : Registry) (key : SessionKey) : r.Later (r.live? key).1 := by
  unfold Registry.live?
  split
  · exact refl r
  · split
    · exact .of_sessions rfl fun _ h => h
    · split
      · exact refl r
      · exact .of_sessions rfl fun _ h => List.mem_append_left _ h

theorem attachedFor? (r : Registry) (file : String) : r.Later (r.attachedFor? file).1 := by
  rcases r.attachedFor?_cases file with ⟨id, heq⟩ | heq | ⟨a, -, e, -, heq⟩
  · rw [heq]
    exact refl r
  · rw [heq]
    exact refl r
  · rw [heq]
    exact .of_sessions rfl fun _ h => List.mem_append_left _ h

theorem evict (r : Registry) (window now : Nat) : r.Later (r.evict window now).1 := by
  have hkept : ∀ ids : List SessionId, (ids.foldl forget r).sessions = r.sessions ∧
      (ids.foldl forget r).retired = r.retired := by
    intro ids
    exact List.foldlRecOn (motive := fun (t : Registry) => t.sessions = r.sessions ∧
      t.retired = r.retired) _ _ ⟨rfl, rfl⟩ fun _ ht _ _ => ht
  obtain ⟨hsessions, hretired⟩ := hkept (r.tables.expired window now)
  refine .of_sessions hsessions fun id hid => ?_
  change id ∈ _ ++ _
  rw [hretired]
  exact List.mem_append_left _ hid

theorem remove (r : Registry) (key : SessionKey) : r.Later (r.remove key).1 := by
  unfold Registry.remove
  dsimp only
  split
  · exact .of_sessions rfl fun _ h => h
  · exact .of_sessions rfl fun _ h => h

theorem connectTo (r : Registry) (key : SessionKey) (root : String) (d : ServerDescription) :
    r.Later (r.connectTo key root d).1 := by
  rcases r.connectTo_cases key root d with ⟨f, heq⟩ | ⟨s, -, -, -, -, -, heq⟩
  · rw [heq]
    exact refl r
  · rw [heq]
    refine ⟨fun id t ht => ⟨t, ?_, .refl t⟩, fun _ h => h⟩
    rw [session?_add, ht]
    rfl

theorem launch (r : Registry) (key : SessionKey) (root : String) (d : ServerDescription)
    (now : Nat) : r.Later (r.launch key root d now).1 := by
  have hconnected := connectTo r key root d
  unfold Registry.launch
  generalize r.connectTo key root d = p at hconnected ⊢
  obtain ⟨r', o⟩ := p
  cases o with
  | error f => exact hconnected
  | ok id =>
    have hstarted := change r' id (Handshake.later_start r'.host r'.processId now)
    dsimp only at hconnected ⊢
    generalize r'.change id (Handshake.start r'.host r'.processId now) = q at hstarted ⊢
    obtain ⟨r'', a⟩ := q
    split
    · next heq => cases heq; exact hconnected.trans hstarted
    · next heq => cases heq; exact (hconnected.trans hstarted).trans (modifies _ id .abandon)
    · next heq => cases heq; exact hconnected.trans hstarted

theorem launched (r : Registry) (id : SessionId) (o : Except Fault HandshakeOutcome) :
    r.Later (r.launched id o).1 := by
  rcases r.launched_cases id o with ⟨f, heq, -⟩ | ⟨o', -, -, heq⟩
  · rw [heq]
    exact modifies r id .abandon
  · rw [heq]
    exact refl r

end Later

end Registry

namespace Call

open Registry (Later)

variable {r r' : Registry}

theorem later_settle (b : Berth) (lenient : Bool) (now : Nat) (r : Registry)
    (o : Except SessionFault SessionId) : r.Later (settle b lenient now r o).1 := by
  unfold settle
  cases o with
  | error f => exact .of_sessions rfl fun _ h => h
  | ok id =>
    cases b with
    | keyed key => exact .of_sessions rfl fun _ h => h
    | attached root extensions => exact .of_sessions rfl fun _ h => List.mem_append_left _ h

theorem later_launch (r : Registry) (key : SessionKey) (root : String) (d : ServerDescription)
    (b : Berth) (lenient : Bool) (now : Nat) : r.Later (launch r key root d b lenient now).1 := by
  have hlaunched := Later.launch r key root d now
  unfold launch
  generalize r.launch key root d now = p at hlaunched ⊢
  obtain ⟨r', o⟩ := p
  cases o with
  | error f => exact hlaunched.trans (later_settle b lenient now r' _)
  | ok made => exact hlaunched

theorem later_found (r : Registry) (t : Target) (lenient : Bool) (now : Nat) :
    (r.live? t.key).1.Later (create r t lenient now).1 := by
  unfold create
  generalize r.live? t.key = p
  obtain ⟨r₀, found⟩ := p
  cases found with
  | some id => exact .of_sessions rfl fun _ h => h
  | none =>
    have hasked : r₀.Later (r₀.describe t).1 := .of_sessions rfl fun _ h => h
    dsimp only
    generalize r₀.describe t = q at hasked ⊢
    obtain ⟨r₁, d?⟩ := q
    cases d? with
    | none => exact hasked.trans (later_settle _ _ _ _ _)
    | some d => exact hasked.trans (later_launch _ _ _ _ _ _ _)

theorem later_create (r : Registry) (t : Target) (lenient : Bool) (now : Nat) :
    r.Later (create r t lenient now).1 :=
  (Later.live? r t.key).trans (later_found r t lenient now)

theorem later_disposeAll (now : Nat) (ids : List SessionId) (r : Registry) :
    r.Later (disposeAll r now ids).1 := by
  induction ids generalizing r with
  | nil => exact .refl r
  | cons id ids ih =>
    have hdisposed := Later.change r id fun s => s.later_dispose now
    unfold disposeAll
    generalize r.change id (·.dispose now) = p at hdisposed ⊢
    obtain ⟨r', a⟩ := p
    dsimp only
    split
    · next heq => cases heq; exact hdisposed.trans (ih r')
    · next heq => cases heq; exact hdisposed.trans (ih r')

theorem later_awaitAll (now : Nat) (rest : List (SessionId × Cleanup)) (r : Registry) :
    r.Later (awaitAll r now rest).1 := by
  induction rest generalizing r with
  | nil => exact .refl r
  | cons e more ih =>
    obtain ⟨id, c⟩ := e
    have hcleaned := Later.change r id (c.later_advance now)
    unfold awaitAll
    generalize r.change id (c.advance now) = p at hcleaned ⊢
    obtain ⟨r', a⟩ := p
    have hrest := ih r'
    dsimp only
    generalize awaitAll r' now more = q at hrest ⊢
    obtain ⟨r'', rest', moved⟩ := q
    dsimp only
    split <;> exact hcleaned.trans hrest

theorem later_clear (ids : List SessionId) (rest : List (SessionId × Cleanup)) (r : Registry) :
    r.Later (clear r ids rest).1 := by
  unfold clear
  split
  · exact .kills r ids
  · exact .refl r

theorem later_perform (w : Wish) (lenient : Bool) (now : Nat) (r : Registry) :
    r.Later (perform r w lenient now).1 := by
  have hleave : ∀ r : Registry, r.Later { r with turns := r.turns.leave } :=
    fun _ => .of_sessions rfl fun _ h => h
  cases w with
  | resolve owner file =>
    have hattached := Later.attachedFor? r file
    unfold perform
    dsimp only
    generalize r.attachedFor? file = p at hattached ⊢
    obtain ⟨r', found⟩ := p
    cases found with
    | some id => exact hattached.trans (hleave r')
    | none =>
      dsimp only
      split
      · exact hattached.trans (hleave r')
      · exact hattached.trans (hleave r')
  | create t => exact later_create r t lenient now
  | attach key root d extensions => exact later_launch r key root d _ lenient now
  | list => exact hleave r
  | evict window => exact (Later.evict r window now).trans (hleave _)
  | restart key =>
    have hremoved := Later.remove r key
    rcases restart_cases r key lenient now with ⟨r', heq, hstep⟩ | ⟨r', id, a, heq, hstep, -⟩
    · rw [heq] at hremoved
      rw [hstep]
      exact hremoved.trans (hleave r')
    · rw [heq] at hremoved
      rw [hstep]
      exact (hremoved.trans (hleave r')).trans (.change _ id fun s => s.later_shutdownAndKill now)
  | killAll =>
    have htaken : r.Later { r.takeAll.1 with turns := r.takeAll.1.turns.leave } :=
      .of_sessions rfl fun _ h => h
    exact htaken.trans (.kills _ r.takeAll.2)
  | shutdownAll =>
    have htaken : r.Later { r.takeAll.1 with turns := r.takeAll.1.turns.leave } :=
      .of_sessions rfl fun _ h => h
    have hdisposed := htaken.trans (later_disposeAll now r.takeAll.2 _)
    exact hdisposed.trans (later_clear _ _ _)

theorem later_advance (ticket now : Nat) (c : Call) (r : Registry) :
    r.Later (c.advance ticket now r).1 := by
  cases c with
  | waiting w lenient =>
    unfold advance
    dsimp only
    generalize r.turns.enter ticket = p
    obtain ⟨turns, entered⟩ := p
    have hentered : r.Later { r with turns := turns } := .of_sessions rfl fun _ h => h
    cases entered with
    | true => exact hentered.trans (later_perform w lenient now _)
    | false => exact hentered
  | opening id hs b lenient =>
    have hadvanced := Later.change r id (hs.later_advance now)
    unfold advance
    dsimp only
    generalize r.change id (hs.advance now) = p at hadvanced ⊢
    obtain ⟨r', a⟩ := p
    split
    · next o heq =>
      cases heq
      exact (hadvanced.trans (.launched r' id o)).trans (later_settle _ _ _ _ _)
    · next heq =>
      cases heq
      exact hadvanced
    · next heq =>
      cases heq
      exact hadvanced
  | stopping id c =>
    have hadvanced := Later.change r id (c.later_advance now)
    unfold advance
    dsimp only
    generalize r.change id (c.advance now) = p at hadvanced ⊢
    obtain ⟨r', a⟩ := p
    split <;> next heq => cases heq; exact hadvanced
  | clearing ids rest =>
    have hawaited := later_awaitAll now rest r
    unfold advance
    dsimp only
    generalize awaitAll r now rest = p at hawaited ⊢
    obtain ⟨r', rest', moved⟩ := p
    split
    · exact hawaited.trans (later_clear ids rest' r')
    · exact hawaited

end Call

namespace Session

theorem later_use (s : Session) (u : Session.Use) : s.Later (s.use u) := by
  cases u with
  | shutdown => exact .shutdown s
  | kill => exact .kill s
  | openFile file =>
    change s.Later (s.openFile file).1
    unfold Session.openFile
    split
    · exact .refl s
    · exact .opened s _
  | closeFile file => exact .opened s _

end Session

namespace Service

open Registry (Later)

variable {σ : Service}

theorem later_begin (σ : Service) (id : SessionId) {f : Session → Session × Advance Cleanup Unit}
    (hf : ∀ s : Session, s.Later (f s).1) : σ.registry.Later (σ.begin id f).registry := by
  have hchange := Later.change σ.registry id hf
  unfold begin
  generalize σ.registry.change id f = p at hchange ⊢
  obtain ⟨r, a⟩ := p
  split <;> next heq => cases heq; exact hchange

theorem later_step (σ : Service) {a : Act} (ha : ∀ i, a ≠ .reap i) :
    σ.registry.Later (σ.step a).registry := by
  have hsame : ∀ r : Registry, r.sessions = σ.registry.sessions → r.retired = σ.registry.retired →
      σ.registry.Later r := fun r hs hr => .of_sessions hs fun id hid => hr.symm ▸ hid
  cases a with
  | ask d => exact .refl _
  | advance ticket =>
    unfold step
    dsimp only
    split
    · next c hc => exact c.later_advance ticket σ.now σ.registry
    · exact .refl _
  | pass millis => exact .refl _
  | move h connect => exact hsame _ rfl rfl
  | event id e =>
    unfold step
    dsimp only
    split
    · exact .modifies _ id fun s => .event s e
    · exact .refl _
  | use id u =>
    unfold step
    dsimp only
    split
    · exact .modifies _ id fun s => s.later_use u
    · exact .refl _
  | dispose id =>
    unfold step
    dsimp only
    split
    · exact later_begin σ id fun s => s.later_dispose σ.now
    · exact .refl _
  | shutdownAndKill id =>
    unfold step
    dsimp only
    split
    · exact later_begin σ id fun s => s.later_shutdownAndKill σ.now
    · exact .refl _
  | reap i => exact absurd rfl (ha i)
  | clean i =>
    unfold step
    dsimp only
    split
    · next id c hid =>
      have hadvanced := Later.change σ.registry id (c.later_advance σ.now)
      generalize σ.registry.change id (c.advance σ.now) = p at hadvanced ⊢
      obtain ⟨r, a⟩ := p
      split <;> next heq => cases heq; exact hadvanced
    · exact .refl _
  | release id =>
    unfold step
    dsimp only
    split
    · exact (Later.modifies _ id .release).trans (.of_sessions rfl fun _ h => h)
    · exact .refl _

theorem reap_later (σ : Service) {i : Nat} {id : SessionId} (hid : σ.registry.retired[i]? = some id) :
    ({ σ.registry with retired := σ.registry.retired.eraseIdx i } : Registry).Later
        (σ.step (.reap i)).registry ∧
      ∀ s, σ.registry.session? id = some s →
        (σ.step (.reap i)).registry.session? id = some (s.dispose σ.now).1 := by
  let ρ : Service :=
    { σ with registry := { σ.registry with retired := σ.registry.retired.eraseIdx i } }
  have hstep : σ.step (.reap i) = ρ.begin id (·.dispose σ.now) := by
    unfold step
    dsimp only
    rw [hid]
  rw [hstep]
  refine ⟨later_begin ρ id fun s => s.later_dispose σ.now, ?_⟩
  intro s hs
  have hρ : ρ.registry.session? id = some s := hs
  have hchange := Registry.change_of_some hρ (·.dispose σ.now)
  have hfound : (ρ.registry.change id (·.dispose σ.now)).1.session? id =
      some (s.dispose σ.now).1 := by
    have hsame : (s.dispose σ.now).1.id = id :=
      (s.later_dispose σ.now).id.trans (Registry.session?_id hs)
    rw [hchange, Registry.session?_modify _ _ _ _ fun _ _ => hsame, if_pos rfl, hρ]
    rfl
  unfold begin
  generalize ρ.registry.change id (·.dispose σ.now) = p at hfound ⊢
  obtain ⟨r, a⟩ := p
  split <;> next heq => cases heq; exact hfound

theorem step_later (σ : Service) (a : Act) {id : SessionId} {s : Session}
    (hs : σ.registry.session? id = some s) :
    ∃ t, (σ.step a).registry.session? id = some t ∧ s.Later t := by
  by_cases ha : ∃ i, a = .reap i
  · obtain ⟨i, rfl⟩ := ha
    cases hid : σ.registry.retired[i]? with
    | none =>
      refine ⟨s, ?_, .refl s⟩
      unfold step
      dsimp only
      rw [hid]
      exact hs
    | some x => exact (reap_later σ hid).1.sessions id s hs
  · exact (later_step σ fun i hi => ha ⟨i, hi⟩).sessions id s hs

theorem run_later (σ : Service) (as : List Act) {id : SessionId} {s : Session}
    (hs : σ.registry.session? id = some s) :
    ∃ t, (σ.run as).registry.session? id = some t ∧ s.Later t := by
  induction as generalizing σ s with
  | nil => exact ⟨s, hs, .refl s⟩
  | cons a as ih =>
    obtain ⟨t, ht, hst⟩ := step_later σ a hs
    obtain ⟨u, hu, htu⟩ := ih (σ.step a) ht
    exact ⟨u, hu, hst.trans htu⟩

def Handed (σ : Service) (id : SessionId) : Prop :=
  id ∈ σ.registry.retired ∨ ∃ s, σ.registry.session? id = some s ∧ s.cleanedUp = true

theorem step_handed (h : σ.Sound) (a : Act) {id : SessionId} (hid : σ.Handed id) :
    (σ.step a).Handed id := by
  rcases hid with hid | ⟨s, hs, hclean⟩
  · by_cases ha : ∃ i, a = .reap i
    · obtain ⟨i, rfl⟩ := ha
      cases hx : σ.registry.retired[i]? with
      | none =>
        left
        unfold step
        dsimp only
        rw [hx]
        exact hid
      | some x =>
        obtain ⟨hlater, hdisposed⟩ := reap_later σ hx
        rcases Eq.mp (congrFun (also_eraseIdx hx) id) hid with hid | hid
        · exact .inl (hlater.retired id hid)
        -- it is the one whose cleanup begins now
        · obtain rfl := List.mem_singleton.mp hid
          obtain ⟨s, hs⟩ := (h.registry.numbered id).mpr
            (h.registry.hands id (.inl (List.mem_of_getElem? hx))).1
          refine .inr ⟨_, hdisposed s hs, ?_⟩
          rcases Session.isCleanup_dispose σ.now s with ⟨hclean, heq⟩ | ⟨-, hb⟩
          · dsimp only at heq
            rw [heq]
            exact hclean
          · exact hb.cleanedUp
    · exact .inl ((later_step σ fun i hi => ha ⟨i, hi⟩).retired id hid)
  · obtain ⟨t, ht, hst⟩ := step_later σ a hs
    exact .inr ⟨t, ht, hst.cleanedUp hclean⟩

theorem run_handed (h : σ.Sound) (as : List Act) {id : SessionId} (hid : σ.Handed id) :
    (σ.run as).Handed id := by
  induction as generalizing σ with
  | nil => exact hid
  | cons a as ih => exact ih (step_leads h a).sound (step_handed h a hid)

end Service

end LanguageSessions
