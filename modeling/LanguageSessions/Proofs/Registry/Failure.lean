import LanguageSessions.Proofs.Registry.Cleanups
import LanguageSessions.Proofs.Registry.Later
import LanguageSessions.Proofs.Registry.Reuse

/-!
A call that fails to make a session leaves no trace. From the moment at which it has its turn to its
reply the tables stay as they were, but for an unusable session that it found under its own key, and
nothing is announced; a session it made has ended and never comes into the tables.
-/
namespace LanguageSessions

def Session.Discarded (s : Session) : Prop :=
  s.state = .terminated ∧ s.cleanedUp = true ∧ s.processAlive = false

theorem Session.abandon_discarded (s : Session) : s.abandon.Discarded :=
  ⟨s.abandon_ended.1, s.abandon_cleanedUp, s.abandon_ended.2⟩

def Wish.berth? : Wish → Option Berth
  | .create t => some (.keyed t.key)
  | .attach _ root _ extensions => some (.attached root extensions)
  | _ => none

def Wish.cleared (r : Registry) : Wish → Registry
  | .create t => (r.live? t.key).1
  | _ => r

namespace Registry

variable {r r' r'' : Registry} {Young Due Busy : SessionId → Prop} {id : SessionId}

def Discards (r r' : Registry) : Prop :=
  ∀ id s, r.session? id = none → r'.session? id = some s → s.Discarded

def Gains (r r' : Registry) (id : SessionId) : Prop :=
  r.session? id = none ∧ ∀ x s, r.session? x = none → r'.session? x = some s → x = id

theorem session?_eq_none_of_key? (h : r.key? id = r'.key? id) (hnone : r.session? id = none) :
    r'.session? id = none := by
  rw [key?, key?, hnone] at h
  exact Option.map_eq_none_iff.mp h.symm

theorem Frame.discards (h : r.Frame r') : r.Discards r' := by
  intro id s hnone hs
  rw [session?_eq_none_of_key? (h.keys_eq id).symm hnone] at hs
  cases hs

theorem Gains.frame (h : r.Gains r' id) (k : r'.Frame r'') : r.Gains r'' id := by
  refine ⟨h.1, fun x s hnone hs => ?_⟩
  cases hx : r'.session? x with
  | none =>
    rw [session?_eq_none_of_key? (k.keys_eq x).symm hx] at hs
    cases hs
  | some t => exact h.2 x t hnone hx

theorem Gains.abandon (h : r.Gains r' id) : r.Discards (r'.modify id Session.abandon) := by
  intro x s hnone hs
  rw [session?_modify _ _ _ _ fun s hs => s.abandon_id.trans hs] at hs
  split at hs
  · obtain ⟨t, -, rfl⟩ := Option.map_eq_some_iff.mp hs
    exact t.abandon_discarded
  · next hne => exact absurd (h.2 x s hnone hs) hne

theorem gains_add (r : Registry) (s : Session) (launch : ServerDescription × String)
    (hnew : r.session? s.id = none) : r.Gains (r.add s launch) s.id := by
  refine ⟨hnew, fun x t hnone ht => ?_⟩
  rw [session?_add, hnone] at ht
  by_contra hne
  rw [if_neg (Ne.symm hne)] at ht
  cases ht

theorem Sound.launch_gains (h : r.Sound Young Due Busy) (key : SessionKey) (root : String)
    (d : ServerDescription) (now : Nat) :
    (∃ f, (r.launch key root d now).2 = .error f ∧ r.Discards (r.launch key root d now).1) ∨
    ∃ id hs, (r.launch key root d now).2 = .ok (id, hs) ∧ r.Gains (r.launch key root d now).1 id := by
  unfold launch
  rcases r.connectTo_cases key root d with ⟨f, heq⟩ | ⟨s, hid, -, -, -, -, heq⟩
  · left
    rw [heq]
    exact ⟨f, rfl, (Frame.rfl r).discards⟩
  · have hgains := r.gains_add s (d, root) (hid ▸ h.session?_next)
    have hfound : (r.add s (d, root)).session? s.id = some s :=
      (h.session?_add_iff (d, root) hid s.id s).mpr (.inr ⟨rfl, rfl⟩)
    rw [heq]
    dsimp only
    generalize hf : Handshake.start (r.add s (d, root)).host (r.add s (d, root)).processId now = f
    have hq : ∀ t : Session, t.Quiet (f t).1 := fun t => hf ▸ (Handshake.quiet_start _ _ _ t).1
    have hframe := (r.add s (d, root)).frame_change s.id f (fun t => (hq t).id) fun t => (hq t).key
    have hchange := change_of_some hfound f
    rw [hchange] at hframe ⊢
    have hgains' := hgains.frame hframe
    cases hr : (f s).2 with
    | error g => exact .inl ⟨g, rfl, hgains'.abandon⟩
    | ok hs => exact .inr ⟨s.id, hs, rfl, hgains'⟩

end Registry

namespace Call

open Registry (Sound Frame Stays Discards Gains)

variable {r r' : Registry} {Young Due Busy : SessionId → Prop}

structure Fails (r r₀ r' : Registry) (f : SessionFault) : Prop extends Stays r₀ r' where
  discards : r.Discards r'
  unlaunched : ∀ type, f = .noProvider type → r'.launches = r.launches

theorem launch_outcome (h : r.Sound Young r.Retired Busy) (key : SessionKey) (root : String)
    (d : ServerDescription) (b : Berth) (lenient : Bool) (now : Nat) :
    (∃ r' f, launch r key root d b lenient now = settle b lenient now r' (.error f) ∧
      Fails r r r' f) ∨
    (∃ r' id hs, launch r key root d b lenient now = (r', .on (.opening id hs b lenient)) ∧
      r.Stays r' ∧ r.Gains r' id) := by
  have hstays : r.Stays (r.launch key root d now).1 := by
    rcases h.launch_cases key root d now with ⟨f, heq⟩ | ⟨r', id, f, heq, hl, -⟩ |
      ⟨r', id, hs, heq, hl, -⟩
    · rw [heq]
      exact (Frame.rfl r).toStays
    · rw [heq]
      exact hl.toStays
    · rw [heq]
      exact hl.toStays
  have hgains := h.launch_gains key root d now
  unfold launch
  generalize r.launch key root d now = p at hstays hgains ⊢
  obtain ⟨r', o⟩ := p
  dsimp only at hstays hgains
  rcases hgains with ⟨f, rfl, hdiscards⟩ | ⟨id, hs, rfl, hgains⟩
  · exact .inl ⟨r', _, rfl, hstays, hdiscards, by rintro type ⟨⟩⟩
  · exact .inr ⟨r', id, hs, rfl, hstays, hgains⟩

theorem perform_cases (h : r.Sound Young r.Retired Busy) {w : Wish} {b : Berth}
    (hb : w.berth? = some b) (lenient : Bool) (now : Nat) :
    (∃ r' id, perform r w lenient now = (r', .done (reply lenient (.ok id)))) ∨
    (∃ r' f, perform r w lenient now = settle b lenient now r' (.error f) ∧
      Fails r (w.cleared r) r' f) ∨
    (∃ r' id hs, perform r w lenient now = (r', .on (.opening id hs b lenient)) ∧
      (w.cleared r).Stays r' ∧ r.Gains r' id) := by
  cases w with
  | attach key root d extensions =>
    cases hb
    exact .inr (launch_outcome h key root d _ lenient now)
  | create t =>
    cases hb
    have hlive := r.live?_eq t.key
    obtain ⟨hsound, -⟩ := h.live? t.key
    change (∃ r' id, create r t lenient now = _) ∨ (∃ r' f, create r t lenient now = _ ∧
      Fails r (r.live? t.key).1 r' f) ∨ (∃ r' id hs, create r t lenient now = _ ∧
      (r.live? t.key).1.Stays r' ∧ r.Gains r' id)
    unfold create
    generalize r.live? t.key = p at hlive hsound ⊢
    obtain ⟨r₀, found⟩ := p
    dsimp only at hlive hsound
    cases found with
    | some id => exact .inl ⟨_, id, rfl⟩
    | none =>
      right
      have hasked : r₀.Frame (r₀.describe t).1 := Registry.frame_of_core rfl rfl
      have hsound' : (r₀.describe t).1.Sound Young (r₀.describe t).1.Retired Busy :=
        hsound.congr rfl
      -- neither the unusable session that left nor the question put made a session
      have hknown : ∀ id, (r₀.describe t).1.session? id = r.session? id := by
        intro id
        change r₀.session? id = _
        rw [hlive]
        rfl
      have hlaunches : (r₀.describe t).1.launches = r.launches := by
        change r₀.launches = _
        rw [hlive]
      dsimp only
      generalize r₀.describe t = q at hasked hsound' hknown hlaunches ⊢
      obtain ⟨r₁, d?⟩ := q
      dsimp only at hasked hsound' hknown hlaunches
      cases d? with
      | none =>
        left
        refine ⟨r₁, _, rfl, hasked.toStays, fun id s hnone hs => ?_, fun _ _ => hlaunches⟩
        rw [hknown, hnone] at hs
        cases hs
      | some d =>
        rcases launch_outcome hsound' t.key t.root d (.keyed t.key) lenient now with
          ⟨r', f, heq, hfails⟩ | ⟨r', id, hs, heq, hstays, hgains⟩
        · left
          refine ⟨r', f, heq, hasked.toStays.trans hfails.toStays, fun id s hnone hs => ?_,
            fun type hf => (hfails.unlaunched type hf).trans hlaunches⟩
          exact hfails.discards id s ((hknown id).trans hnone) hs
        · right
          refine ⟨r', id, hs, heq, hasked.toStays.trans hstays, (hknown id).symm.trans hgains.1, ?_⟩
          exact fun x s hnone hs => hgains.2 x s ((hknown x).trans hnone) hs
  | _ => cases hb

theorem opening_outcome (id : SessionId) (hs : Handshake) (b : Berth) (lenient : Bool)
    (ticket now : Nat) (r : Registry) :
    (∃ r' a hs', (opening id hs b lenient).advance ticket now r = (r', a) ∧
      (a = .idle ∧ hs' = hs ∨ a = .on (.opening id hs' b lenient)) ∧ r.Frame r') ∨
    (∃ r' f, (opening id hs b lenient).advance ticket now r =
      settle b lenient now (r'.modify id Session.abandon) (.error f) ∧ r.Frame r' ∧
      ∀ type, f ≠ .noProvider type) ∨
    (∃ r', (opening id hs b lenient).advance ticket now r = settle b lenient now r' (.ok id)) := by
  have hframe := r.frame_opens id hs now
  unfold advance
  dsimp only
  generalize r.change id (hs.advance now) = p at hframe ⊢
  obtain ⟨r', a⟩ := p
  dsimp only at hframe
  cases a with
  | none => exact .inl ⟨r', _, hs, rfl, .inl ⟨rfl, rfl⟩, hframe⟩
  | some a =>
    cases a with
    | idle => exact .inl ⟨r', _, hs, rfl, .inl ⟨rfl, rfl⟩, hframe⟩
    | on hs' => exact .inl ⟨r', _, hs', rfl, .inr rfl, hframe⟩
    | done o =>
      right
      dsimp only
      rcases r'.launched_cases id o with ⟨f, heq, hf⟩ | ⟨o', -, -, heq⟩
      · rw [heq]
        exact .inl ⟨r', f, rfl, hframe, hf⟩
      · rw [heq]
        exact .inr ⟨r', rfl⟩

end Call

namespace Service

open Registry (Frame)

variable {σ τ : Service} {n : Nat} {w : Wish} {lenient : Bool}

structure Turn (σ : Service) (n : Nat) (w : Wish) (lenient : Bool) : Prop where
  call : σ.calls[n]? = some (.running (.waiting w lenient))
  free : σ.registry.turns.isFree n = true

/-- What a call leaves that had its turn at `σ` and has failed at `τ`. -/
structure Traceless (σ τ : Service) (n : Nat) (w : Wish) : Prop where
  tables : τ.registry.tables = σ.registry.tables ∨
    ∃ t id, w = .create t ∧ σ.registry.tables.find? t.key = some id ∧
      σ.registry.isUsable id = false ∧
      τ.registry.tables = (σ.registry.tables.dropKey t.key).dropUse id ∧ τ.Handed id
  attached : τ.registry.tables.attached = σ.registry.tables.attached
  announced : τ.registry.announced = σ.registry.announced
  discarded : ∀ id s, σ.registry.session? id = none → τ.registry.session? id = some s →
    s.Discarded ∧ ∀ as, id ∉ (τ.run as).registry.tables.held ∧
      ∀ key, (τ.run as).registry.tables.find? key ≠ some id
  unlaunched : ∀ type, τ.reply? n = some (.session (.error (.noProvider type))) →
    τ.registry.launches = σ.registry.launches

/-- Since `σ` the call waits for the handshake of a session that it made; `r` is what it had to
keep. -/
structure Tries (σ τ : Service) (n : Nat) (b : Berth) (lenient : Bool) (r : Registry)
    (id : SessionId) : Prop where
  call : ∃ hs, τ.calls[n]? = some (.running (.opening id hs b lenient))
  tables : τ.registry.tables = r.tables
  announced : τ.registry.announced = r.announced
  gains : σ.registry.Gains τ.registry id

def Ends (σ τ : Service) (n : Nat) (r : Registry) : Prop :=
  ∃ reply, τ.reply? n = some reply ∧ (reply.session? = none →
    τ.registry.tables = r.tables ∧ τ.registry.announced = r.announced ∧
    σ.registry.Discards τ.registry ∧
    ∀ type, reply = .session (.error (.noProvider type)) →
      τ.registry.launches = σ.registry.launches)

theorem ends_ok {c : Call} (hc : τ.calls[n]? = some (.running c)) {reply : Reply} {r r' : Registry}
    {id : SessionId} (hstep : c.advance n τ.now τ.registry = (r', .done reply))
    (hid : reply.session? = some id) : σ.Ends (τ.step (.advance n)) n r := by
  refine ⟨reply, ?_, fun hnone => ?_⟩
  · rw [step_advance hc, hstep]
    exact reply?_set hc _ _ _
  · rw [hid] at hnone
    cases hnone

theorem ends_error {c : Call} (hc : τ.calls[n]? = some (.running c)) {b : Berth} {lenient : Bool}
    {r r' : Registry} {f : SessionFault}
    (hstep : c.advance n τ.now τ.registry = Call.settle b lenient τ.now r' (.error f))
    (htables : r'.tables = r.tables) (hannounced : r'.announced = r.announced)
    (hdiscards : σ.registry.Discards r')
    (hlaunches : ∀ type, f = .noProvider type → r'.launches = σ.registry.launches) :
    σ.Ends (τ.step (.advance n)) n r := by
  refine ⟨Call.reply lenient (.error f), ?_, fun _ => ?_⟩
  · rw [step_advance hc, hstep]
    exact reply?_set hc _ _ _
  · rw [step_advance hc, hstep]
    refine ⟨htables, hannounced, hdiscards, fun type htype => hlaunches type ?_⟩
    cases lenient with
    | true => cases htype
    | false =>
      cases htype
      rfl

theorem Tries.advance {b : Berth} {r : Registry} {id : SessionId}
    (ht : σ.Tries τ n b lenient r id) :
    σ.Tries (τ.step (.advance n)) n b lenient r id ∨ σ.Ends (τ.step (.advance n)) n r := by
  obtain ⟨hs, hc⟩ := ht.call
  rcases Call.opening_outcome id hs b lenient n τ.now τ.registry with
    ⟨r', a, hs', heq, ha, hframe⟩ | ⟨r', f, heq, hframe, hf⟩ | ⟨r', heq⟩
  · left
    have hnext : Status.next (.opening id hs b lenient) a =
        .running (.opening id hs' b lenient) := by
      rcases ha with ⟨rfl, rfl⟩ | rfl <;> rfl
    rw [step_advance hc, heq]
    refine ⟨⟨hs', ?_⟩, hframe.tables.trans ht.tables, hframe.announced.trans ht.announced,
      ht.gains.frame hframe⟩
    rw [hnext]
    exact List.getElem?_set_self (List.getElem?_eq_some_iff.mp hc).1
  · right
    exact ends_error hc heq (hframe.tables.trans ht.tables) (hframe.announced.trans ht.announced)
      (ht.gains.frame hframe).abandon fun type htype => absurd htype (hf type)
  · exact .inr (ends_ok hc heq (Call.reply_ok lenient id))

theorem Tries.step {b : Berth} {r : Registry} {id : SessionId} (h : τ.Sound)
    (ht : σ.Tries τ n b lenient r id) (a : Act) :
    σ.Tries (τ.step a) n b lenient r id ∨ σ.Ends (τ.step a) n r := by
  by_cases ha : a = .advance n
  · subst ha
    exact ht.advance
  · obtain ⟨hs, hc⟩ := ht.call
    obtain ⟨hframe, hcall⟩ := step_other h hc (List.cons_ne_nil _ _) ha
    exact .inl ⟨⟨hs, hcall⟩, hframe.tables.trans ht.tables, hframe.announced.trans ht.announced,
      ht.gains.frame hframe⟩

theorem Tries.reply? {b : Berth} {r : Registry} {id : SessionId}
    (ht : σ.Tries τ n b lenient r id) : τ.reply? n = none := by
  obtain ⟨hs, hc⟩ := ht.call
  rw [Service.reply?, hc]

theorem Tries.run {b : Berth} {r : Registry} {id : SessionId} (h : τ.Sound)
    (ht : σ.Tries τ n b lenient r id) (bs : List Act) (a : Act)
    (hnone : (τ.run bs).reply? n = none) (hsome : (τ.run (bs ++ [a])).reply? n ≠ none) :
    σ.Ends (τ.run (bs ++ [a])) n r := by
  induction bs generalizing τ with
  | nil =>
    rcases ht.step h a with ht' | hends
    · exact absurd ht'.reply? hsome
    · exact hends
  | cons b bs ih =>
    rcases ht.step h b with ht' | ⟨reply, hr, -⟩
    · exact ih (step_leads h b).sound ht' hnone hsome
    · have hr' : (τ.run (b :: bs)).reply? n = some reply :=
        reply?_run (step_leads h b).sound hr bs
      rw [hnone] at hr'
      cases hr'

def entered (σ : Service) (n : Nat) : Registry :=
  { σ.registry with turns := (σ.registry.turns.enter n).1 }

theorem Turn.first (h : σ.Sound) (ht : σ.Turn n w lenient) {b : Berth} (hb : w.berth? = some b) :
    σ.Ends (σ.step (.advance n)) n (w.cleared (σ.entered n)) ∨
      ∃ id, σ.Tries (σ.step (.advance n)) n b lenient (w.cleared (σ.entered n)) id := by
  have hsound : (σ.entered n).Sound σ.Young (σ.entered n).Retired σ.Busy := h.registry.congr rfl
  have hadvance := Call.advance_turn ht.free w lenient σ.now
  rcases Call.perform_cases hsound hb lenient σ.now with ⟨r', id, heq⟩ | ⟨r', f, heq, hfails⟩ |
    ⟨r', id, hs, heq, hstays, hgains⟩
  · exact .inl (ends_ok ht.call (hadvance.trans heq) (Call.reply_ok lenient id))
  · exact .inl (ends_error ht.call (hadvance.trans heq) hfails.tables hfails.announced
      hfails.discards hfails.unlaunched)
  · right
    refine ⟨id, ?_⟩
    rw [step_advance ht.call, hadvance.trans heq]
    exact ⟨⟨hs, List.getElem?_set_self (List.getElem?_eq_some_iff.mp ht.call).1⟩, hstays.tables,
      hstays.announced, hgains⟩

theorem Turn.cleared (h : σ.Sound) (ht : σ.Turn n w lenient) :
    (w.cleared (σ.entered n)).announced = σ.registry.announced ∧
    (w.cleared (σ.entered n)).tables.attached = σ.registry.tables.attached ∧
    ((w.cleared (σ.entered n)).tables = σ.registry.tables ∨
      ∃ t id, w = .create t ∧ σ.registry.tables.find? t.key = some id ∧
        σ.registry.isUsable id = false ∧
        (w.cleared (σ.entered n)).tables = (σ.registry.tables.dropKey t.key).dropUse id ∧
        (σ.step (.advance n)).Handed id) := by
  cases w with
  | create t =>
    have hsound : (σ.entered n).Sound σ.Young (σ.entered n).Retired σ.Busy := h.registry.congr rfl
    have hlive := (σ.entered n).live?_eq t.key
    unfold Wish.cleared
    dsimp only
    refine ⟨by rw [hlive]; rfl, ?_⟩
    rcases hsound.live?_cases t.key with ⟨id, -, -, heq⟩ | ⟨-, heq⟩ | ⟨id, hmem, hstale, heq⟩
    · rw [heq]
      exact ⟨rfl, .inl rfl⟩
    · rw [heq]
      exact ⟨rfl, .inl rfl⟩
    · have hlater := Call.later_found (σ.entered n) t lenient σ.now
      rw [heq] at hlater ⊢
      refine ⟨rfl, .inr ⟨t, id, rfl, (h.registry.tables.find?_eq_some_iff t.key id).mpr hmem,
        hstale, rfl, .inl ?_⟩⟩
      rw [step_advance ht.call, Call.advance_turn ht.free]
      exact hlater.retired id (List.mem_append_right _ (List.mem_singleton.mpr rfl))
  | _ => exact ⟨rfl, rfl, .inl rfl⟩

theorem Sound.discarded (h : τ.Sound) {id : SessionId} {s : Session}
    (hs : τ.registry.session? id = some s) (hdiscarded : s.Discarded)
    (hnew : id ∉ τ.registry.announced) (as : List Act) :
    id ∉ (τ.run as).registry.tables.held ∧ ∀ key, (τ.run as).registry.tables.find? key ≠ some id := by
  have hknows := (h.registry.numbered id).mp ⟨s, hs⟩
  have hyoung : ¬ τ.Young id := by
    intro hyoung
    have hstarting := ((h.registry.sessions id s hs).starting hyoung).1
    rw [hdiscarded.1] at hstarting
    cases hstarting
  have hheld := h.run_gone as hknows (fun hid => hnew (h.registry.held_announced id hid)) hyoung
  exact ⟨hheld, fun key hfind => hheld ((run_sound h as).registry.tables.held_of_find? hfind)⟩

theorem Turn.ends (h : σ.Sound) (ht : σ.Turn n w lenient) {b : Berth} (hb : w.berth? = some b)
    (bs : List Act) (a : Act) (hhead : (bs ++ [a]).head? = some (.advance n))
    (hnone : (σ.run bs).reply? n = none) (hsome : (σ.run (bs ++ [a])).reply? n ≠ none) :
    σ.Ends (σ.run (bs ++ [a])) n (w.cleared (σ.entered n)) := by
  have hsound := (step_leads h (.advance n)).sound
  cases bs with
  | nil =>
    cases hhead
    rcases ht.first h hb with hends | ⟨id, htries⟩
    · exact hends
    · exact absurd htries.reply? hsome
  | cons c bs =>
    cases hhead
    rcases ht.first h hb with ⟨reply, hr, -⟩ | ⟨id, htries⟩
    · have hr' : (σ.run (.advance n :: bs)).reply? n = some reply := reply?_run hsound hr bs
      rw [hnone] at hr'
      cases hr'
    · exact htries.run hsound bs a hnone hsome

theorem Turn.traceless (h : σ.Sound) (ht : σ.Turn n w lenient) {b : Berth}
    (hb : w.berth? = some b) (bs : List Act) (a : Act) {reply : Reply}
    (hhead : (bs ++ [a]).head? = some (.advance n)) (hnone : (σ.run bs).reply? n = none)
    (hsome : (σ.run (bs ++ [a])).reply? n = some reply) (hfailed : reply.session? = none) :
    σ.Traceless (σ.run (bs ++ [a])) n w := by
  obtain ⟨reply', hr, hkept⟩ := ht.ends h hb bs a hhead hnone (by simp [hsome])
  rw [hsome, Option.some.injEq] at hr
  subst hr
  obtain ⟨htables, hannounced, hdiscards, hunlaunched⟩ := hkept hfailed
  obtain ⟨hquiet, hattached, hcases⟩ := ht.cleared h
  have hτ := run_sound h (bs ++ [a])
  have hhanded : ∀ id, (σ.step (.advance n)).Handed id → (σ.run (bs ++ [a])).Handed id := by
    obtain ⟨ds, hds⟩ := List.head?_eq_some_iff.mp hhead
    intro id hid
    rw [hds]
    exact run_handed (step_leads h (.advance n)).sound ds hid
  exact {
    tables := by
      rw [htables]
      rcases hcases with hsame | ⟨t, id, hw, hfind, hstale, hdropped, hid⟩
      · exact .inl hsame
      · exact .inr ⟨t, id, hw, hfind, hstale, hdropped, hhanded id hid⟩
    attached := by rw [htables, hattached]
    announced := hannounced.trans hquiet
    discarded := by
      intro id s hnew hs
      refine ⟨hdiscards id s hnew hs, hτ.discarded hs (hdiscards id s hnew hs) ?_⟩
      rw [hannounced, hquiet]
      intro hann
      obtain ⟨t, ht'⟩ := (h.registry.numbered id).mpr (h.registry.announced_known id hann)
      rw [hnew] at ht'
      cases ht'
    unlaunched := by
      intro type htype
      rw [hsome, Option.some.injEq] at htype
      exact hunlaunched type htype }

theorem step_waits (h : σ.Sound) (hc : σ.calls[n]? = some (.running (.waiting w lenient))) (a : Act) :
    a = .advance n ∧ σ.Turn n w lenient ∨
      (σ.step a).calls[n]? = some (.running (.waiting w lenient)) := by
  by_cases ha : a = .advance n
  · subst ha
    cases hfree : σ.registry.turns.isFree n with
    | true => exact .inl ⟨rfl, hc, hfree⟩
    | false =>
      right
      rw [step_advance hc, Call.advance_waits hfree]
      exact List.getElem?_set_self (List.getElem?_eq_some_iff.mp hc).1
  · exact .inr (calls_step h hc ha)

theorem run_turn (h : σ.Sound) (hc : σ.calls[n]? = some (.running (.waiting w lenient)))
    (bs : List Act) (hsome : (σ.run bs).reply? n ≠ none) :
    ∃ cs ds, bs = cs ++ .advance n :: ds ∧ (σ.run cs).Turn n w lenient := by
  induction bs generalizing σ with
  | nil =>
    refine absurd ?_ hsome
    rw [run, List.foldl_nil, reply?, hc]
  | cons a bs ih =>
    rcases step_waits h hc a with ⟨rfl, ht⟩ | hc'
    · exact ⟨[], bs, rfl, ht⟩
    · obtain ⟨cs, ds, rfl, ht⟩ := ih (step_leads h a).sound hc' hsome
      exact ⟨a :: cs, ds, rfl, ht⟩

/-- What a history tells of the calls that fail to make a session. -/
structure Spares (r : Registry) (as : List Act) : Prop where
  traceless : ∀ n w lenient b, w.berth? = some b →
    ((new r).run as).calls[n]? = some (.running (.waiting w lenient)) → ∀ bs a reply,
      ((new r).run (as ++ bs)).reply? n = none →
      ((new r).run (as ++ bs ++ [a])).reply? n = some reply → reply.session? = none →
      ∃ cs ds, bs ++ [a] = cs ++ .advance n :: ds ∧ ((new r).run (as ++ cs)).Turn n w lenient ∧
        ((new r).run (as ++ cs)).Traceless ((new r).run (as ++ bs ++ [a])) n w
  refused : ∀ root d extensions, (∀ e ∈ extensions, normalExtension e = "") →
    let σ := (new r).run as
    let τ := (new r).run (as ++ [.ask (.attach root d extensions)])
    τ.registry = σ.registry ∧ ∀ bs,
      (τ.run bs).reply? σ.calls.length =
        some (.session (.error (.noExtensions (σ.registry.host.canonical root))))

theorem ask_refused (h : σ.Sound) (root : String) (d : ServerDescription) (extensions : List String)
    (hnone : ∀ e ∈ extensions, normalExtension e = "") (bs : List Act) :
    ((σ.step (.ask (.attach root d extensions))).run bs).reply? σ.calls.length =
      some (.session (.error (.noExtensions (σ.registry.host.canonical root)))) := by
  have hempty : (extensions.map normalExtension).filter (· != "") = [] := by
    rw [List.filter_eq_nil_iff]
    intro e he
    obtain ⟨x, hx, rfl⟩ := List.mem_map.mp he
    simp [hnone x hx]
  have hbegin : (Demand.attach root d extensions).begin σ.registry =
      .replied (.session (.error (.noExtensions (σ.registry.host.canonical root)))) := by
    unfold Demand.begin Call.attach
    dsimp only
    rw [hempty]
    rfl
  apply reply?_run (step_leads h _).sound
  rw [reply?_eq_some]
  change (σ.calls ++ [_])[σ.calls.length]? = _
  rw [List.getElem?_concat_length, hbegin]

theorem run_traceless (r : Registry) (as : List Act) : Spares r as where
  traceless := by
    intro n w lenient b hb hc bs a reply hnone hsome hfailed
    have h := run_sound (Sound.new r) as
    rw [run_append] at hnone
    rw [List.append_assoc, run_append] at hsome
    rw [List.append_assoc, run_append]
    obtain ⟨cs, ds, hsplit, ht⟩ := run_turn h hc (bs ++ [a]) (by simp [hsome])
    refine ⟨cs, ds, hsplit, run_append (new r) as cs ▸ ht, ?_⟩
    -- what comes from the turn on ends with the same act
    obtain ⟨es, c, hes⟩ : ∃ es c, .advance n :: ds = es ++ [c] :=
      ⟨_, _, (List.dropLast_concat_getLast (List.cons_ne_nil _ _)).symm⟩
    rw [hes, ← List.append_assoc] at hsplit
    obtain ⟨rfl, hac⟩ := List.append_inj' hsplit rfl
    obtain rfl := List.singleton_inj.mp hac
    rw [run_append] at hnone
    rw [List.append_assoc, run_append] at hsome
    rw [List.append_assoc, run_append, run_append]
    exact ht.traceless (run_sound h cs) hb es a (by rw [← hes]; rfl) hnone hsome hfailed
  refused := by
    intro root d extensions hnone
    have h := run_sound (Sound.new r) as
    dsimp only
    rw [run_append]
    exact ⟨rfl, ask_refused h root d extensions hnone⟩

end Service

end LanguageSessions
