import LanguageSessions.Proofs.Registry.Invariant

namespace LanguageSessions

namespace Service

open Registry (Frame Moves)

variable {σ τ : Service} {n : Nat}

def reply? (σ : Service) (n : Nat) : Option Reply :=
  match σ.calls[n]? with
  | some (.replied reply) => some reply
  | _ => none

structure Asks (σ : Service) (n : Nat) (t : Target) (lenient : Bool) : Prop where
  call : σ.calls[n]? = some (.running (.waiting (.create t) lenient))
  turn : σ.registry.turns.isFree n = true

structure Made (σ τ : Service) (key : SessionKey) (id : SessionId) : Prop where
  fresh : σ.registry.session? id = none
  ready : ∃ s, τ.registry.session? id = some s ∧ s.key = key ∧ s.state = .ready
  only : τ.registry.tables.byKey.filter (·.1 == key) = [(key, id)]
  announced : τ.registry.announced = σ.registry.announced ++ [id]

structure Served (σ : Service) (n : Nat) (t : Target) (lenient : Bool) : Prop where
  hit : ∀ id, σ.registry.tables.find? t.key = some id → σ.registry.isUsable id = true →
    σ.step (.advance n) =
      { σ with
        registry :=
          { σ.registry with
            tables := σ.registry.tables.touch id σ.now
            turns := (σ.registry.turns.enter n).1.leave }
        calls := σ.calls.set n (.replied (Call.reply lenient (.ok id)))
        given := σ.given ++ [(t.key, id)] } ∧
    (Call.reply lenient (.ok id)).session? = some id ∧
    ∀ other, (σ.registry.tables.touch id σ.now).lastUse.lookup other =
      if other = id then some σ.now else σ.registry.tables.lastUse.lookup other
  miss : (∀ id, σ.registry.tables.find? t.key = some id → σ.registry.isUsable id = false) →
    ∀ bs b reply, (bs ++ [b]).head? = some (.advance n) → (σ.run bs).reply? n = none →
      (σ.run (bs ++ [b])).reply? n = some reply →
      (σ.run (bs ++ [b])).registry.launches.length ≤ σ.registry.launches.length + 1 ∧
        ∀ id, reply.session? = some id → σ.Made (σ.run (bs ++ [b])) t.key id

theorem reply?_eq_some {reply : Reply} :
    σ.reply? n = some reply ↔ σ.calls[n]? = some (.replied reply) := by
  unfold reply?
  split
  · next heq => rw [heq]; simp
  · next hne =>
    constructor
    · rintro ⟨⟩
    · exact fun heq => absurd heq (hne reply)

theorem reply?_step (h : σ.Sound) {reply : Reply} (hr : σ.reply? n = some reply) (a : Act) :
    (σ.step a).reply? n = some reply := by
  rw [reply?_eq_some] at hr ⊢
  by_cases ha : a = .advance n
  · have hover : ∀ c, σ.calls[n]? ≠ some (.running c) := by
      intro c hc
      rw [hr] at hc
      cases hc
    rw [ha, step_over hover]
    exact hr
  · exact calls_step h hr ha

theorem step_other (h : σ.Sound) {c : Call} (hc : σ.calls[n]? = some (.running c))
    (hy : c.young ≠ []) {a : Act} (ha : a ≠ .advance n) :
    σ.registry.Frame (σ.step a).registry ∧ (σ.step a).calls[n]? = some (.running c) := by
  refine ⟨?_, calls_step h hc ha⟩
  rcases step_cases h a with ⟨d, rfl⟩ | ⟨m, rfl⟩ | hrests
  · exact Frame.rfl σ.registry
  · have hm : n ≠ m := fun heq => ha (congrArg Act.advance heq.symm)
    unfold step
    dsimp only
    split
    · next c' hc' => exact h.frame_other hc' hc hm hy
    · exact Frame.rfl σ.registry
  · exact hrests.frame

structure Opens (σ τ : Service) (n : Nat) (key : SessionKey) (id : SessionId) (lenient : Bool) :
    Prop where
  call : ∃ hs, τ.calls[n]? = some (.running (.opening id hs (.keyed key) lenient))
  announced : τ.registry.announced = σ.registry.announced
  launches : τ.registry.launches.length = σ.registry.launches.length + 1
  fresh : σ.registry.session? id = none

def Done (σ τ : Service) (n : Nat) (key : SessionKey) : Prop :=
  ∃ reply, τ.reply? n = some reply ∧
    τ.registry.launches.length ≤ σ.registry.launches.length + 1 ∧
    ∀ id, reply.session? = some id → σ.Made τ key id

theorem reply?_set {c : Call} (hc : σ.calls[n]? = some (.running c)) (r : Registry)
    (reply : Reply) (given : List (SessionKey × SessionId)) :
    ({ σ with registry := r, calls := σ.calls.set n (.replied reply), given := given }
      : Service).reply? n = some reply := by
  rw [reply?_eq_some]
  exact List.getElem?_set_self (List.getElem?_eq_some_iff.mp hc).1

theorem done_error {c : Call} (hc : τ.calls[n]? = some (.running c)) {key : SessionKey}
    {b : Berth} {lenient : Bool} {r : Registry} {f : SessionFault}
    (hstep : c.advance n τ.now τ.registry = Call.settle b lenient τ.now r (.error f))
    (hle : r.launches.length ≤ σ.registry.launches.length + 1) :
    σ.Done (τ.step (.advance n)) n key := by
  refine ⟨Call.reply lenient (.error f), ?_, ?_, ?_⟩
  · rw [step_advance hc, hstep]
    exact reply?_set hc _ _ _
  · rw [step_advance hc, hstep]
    exact hle
  · intro id hid
    rw [Call.reply_error] at hid
    cases hid

theorem filter_byKey {byKey : List (SessionKey × SessionId)} {key : SessionKey} {id : SessionId}
    (hfree : key ∉ byKey.map Prod.fst) :
    (byKey ++ [(key, id)]).filter (·.1 == key) = [(key, id)] := by
  rw [List.filter_append, List.filter_eq_nil_iff.mpr]
  · simp
  · intro e he hkey
    exact hfree (List.mem_map.mpr ⟨e, he, eq_of_beq hkey⟩)

theorem Opens.advance {key : SessionKey} {id : SessionId} {lenient : Bool} (h : τ.Sound)
    (ho : σ.Opens τ n key id lenient) :
    σ.Opens (τ.step (.advance n)) n key id lenient ∨ σ.Done (τ.step (.advance n)) n key := by
  obtain ⟨hs, hc⟩ := ho.call
  obtain ⟨hsound, hown⟩ := h.split hc
  have hplaced : (Call.opening id hs (.keyed key) lenient).Placed τ.registry := h.placed n _ hc
  change τ.registry.Sound (also _ [id]) _ (also _ []) at hsound
  rcases Call.opening_cases hsound (hown id List.mem_cons_self) hs (.keyed key) lenient n τ.now with
    ⟨r, a, hs', heq, ha, hframe, -⟩ | ⟨r, f, heq, hframe, -⟩ | ⟨r, s, heq, hframe, -, hsome, hready, -⟩
  · left
    rw [step_advance hc, heq]
    have hnext : Status.next (.opening id hs (.keyed key) lenient) a =
        .running (.opening id hs' (.keyed key) lenient) := by
      rcases ha with ⟨rfl, rfl⟩ | rfl <;> rfl
    refine ⟨⟨hs', ?_⟩, hframe.announced.trans ho.announced,
      (congrArg List.length hframe.launches).trans ho.launches, ho.fresh⟩
    rw [hnext]
    exact List.getElem?_set_self (List.getElem?_eq_some_iff.mp hc).1
  · right
    apply done_error hc heq
    exact Nat.le_of_eq ((congrArg List.length hframe.launches).trans ho.launches)
  · right
    have hfree : key ∉ r.tables.byKey.map Prod.fst := hframe.tables.symm ▸ hplaced.2
    have hkey : s.key = key := by
      have hk := hframe.keys _ _ hplaced.1
      rw [Registry.key?, hsome] at hk
      exact Option.some.inj hk
    rw [step_advance hc, heq]
    refine ⟨Call.reply lenient (.ok id), reply?_set hc _ _ _, ?_, ?_⟩
    · exact Nat.le_of_eq ((congrArg List.length hframe.launches).trans ho.launches)
    · intro id' hid'
      rw [Call.reply_ok, Option.some.injEq] at hid'
      subst hid'
      refine ⟨ho.fresh, ⟨s, hsome, hkey, hready⟩, ?_, ?_⟩
      · change (r.tables.insert key id τ.now).byKey.filter _ = _
        rw [Tables.byKey_insert _ _ _ _ hfree]
        exact filter_byKey hfree
      · change r.announced ++ [id] = _
        rw [hframe.announced, ho.announced]

theorem Opens.step {key : SessionKey} {id : SessionId} {lenient : Bool} (h : τ.Sound)
    (ho : σ.Opens τ n key id lenient) (a : Act) :
    σ.Opens (τ.step a) n key id lenient ∨ σ.Done (τ.step a) n key := by
  by_cases ha : a = .advance n
  · subst ha
    exact ho.advance h
  · obtain ⟨hs, hc⟩ := ho.call
    obtain ⟨hframe, hcall⟩ := step_other h hc (List.cons_ne_nil _ _) ha
    left
    exact ⟨⟨hs, hcall⟩, hframe.announced.trans ho.announced,
      (congrArg List.length hframe.launches).trans ho.launches, ho.fresh⟩

theorem Asks.advance {t : Target} {lenient : Bool} (hc : σ.Asks n t lenient) :
    (Call.waiting (.create t) lenient).advance n σ.now σ.registry =
      Call.create { σ.registry with turns := (σ.registry.turns.enter n).1 } t lenient σ.now :=
  Call.advance_turn hc.turn (.create t) lenient σ.now

theorem Asks.cases {t : Target} {lenient : Bool} (h : σ.Sound) (hc : σ.Asks n t lenient) :
    (∃ id, σ.registry.tables.find? t.key = some id ∧ σ.registry.isUsable id = true ∧
      (Call.waiting (.create t) lenient).advance n σ.now σ.registry =
        ({ σ.registry with
            tables := σ.registry.tables.touch id σ.now
            turns := (σ.registry.turns.enter n).1.leave },
          .done (Call.reply lenient (.ok id)))) ∨
    (∀ id, σ.registry.tables.find? t.key = some id → σ.registry.isUsable id = false) ∧
      (σ.Done (σ.step (.advance n)) n t.key ∨
        ∃ id, σ.Opens (σ.step (.advance n)) n t.key id lenient) := by
  let r : Registry := { σ.registry with turns := (σ.registry.turns.enter n).1 }
  have hsound : r.Sound σ.Young r.Retired σ.Busy := h.registry.congr rfl
  have hfind : ∀ id, σ.registry.tables.find? t.key = some id ↔ (t.key, id) ∈ r.tables.byKey :=
    h.registry.tables.find?_eq_some_iff t.key
  have hlive := r.live?_eq t.key
  have hadvance := hc.advance
  rcases Call.create_cases hsound t lenient σ.now with ⟨id, hmem, husable, heq⟩ |
    ⟨-, hstale, ⟨r', f, heq, -, hle, -⟩ | ⟨r₁, r', id, hs, heq, hframe, hl, -⟩⟩
  · left
    exact ⟨id, (hfind id).mpr hmem, husable, hadvance.trans heq⟩
  · right
    exact ⟨fun id hid => hstale id ((hfind id).mp hid), .inl (done_error hc.call (hadvance.trans heq) hle)⟩
  · right
    refine ⟨fun id hid => hstale id ((hfind id).mp hid), .inr ⟨id, ?_⟩⟩
    have hcount : r₁.sessions.length = σ.registry.sessions.length := by
      rw [hframe.count_eq, hlive]
    have hlaunches : r₁.launches = σ.registry.launches := by
      rw [hframe.launches, hlive]
    have hannounced : r₁.announced = σ.registry.announced := by
      rw [hframe.announced, hlive]
    rw [step_advance hc.call, hadvance, heq]
    refine ⟨⟨hs, List.getElem?_set_self (List.getElem?_eq_some_iff.mp hc.call).1⟩, ?_, ?_, ?_⟩
    · exact hl.announced.trans hannounced
    · rw [hl.launches, hlaunches]
    · rw [hl.fresh, hcount]
      exact h.registry.session?_next

theorem reply?_run (h : σ.Sound) {reply : Reply} (hr : σ.reply? n = some reply) (as : List Act) :
    (σ.run as).reply? n = some reply := by
  induction as generalizing σ with
  | nil => exact hr
  | cons a as ih => exact ih (step_leads h a).sound (reply?_step h hr a)

theorem Opens.reply? {key : SessionKey} {id : SessionId} {lenient : Bool}
    (ho : σ.Opens τ n key id lenient) : τ.reply? n = none := by
  obtain ⟨hs, hc⟩ := ho.call
  rw [Service.reply?, hc]

theorem Opens.run {key : SessionKey} {id : SessionId} {lenient : Bool} (h : τ.Sound)
    (ho : σ.Opens τ n key id lenient) (bs : List Act) (hnone : (τ.run bs).reply? n = none) :
    σ.Opens (τ.run bs) n key id lenient := by
  induction bs generalizing τ with
  | nil => exact ho
  | cons b bs ih =>
    have hsound := (step_leads h b).sound
    rcases ho.step h b with ho' | ⟨reply, hr, -⟩
    · exact ih hsound ho' hnone
    · have hr' := reply?_run hsound hr bs
      rw [Service.run, List.foldl_cons] at hnone
      rw [Service.run, hnone] at hr'
      cases hr'

theorem Asks.hit {t : Target} {lenient : Bool} (h : σ.Sound) (hc : σ.Asks n t lenient)
    {id : SessionId} (hfind : σ.registry.tables.find? t.key = some id)
    (husable : σ.registry.isUsable id = true) :
    σ.step (.advance n) =
      { σ with
        registry :=
          { σ.registry with
            tables := σ.registry.tables.touch id σ.now
            turns := (σ.registry.turns.enter n).1.leave }
        calls := σ.calls.set n (.replied (Call.reply lenient (.ok id)))
        given := σ.given ++ [(t.key, id)] } := by
  rcases hc.cases h with ⟨x, hx, -, heq⟩ | ⟨hstale, -⟩
  · rw [hfind, Option.some.injEq] at hx
    subst hx
    have hgives : (Call.waiting (.create t) lenient).gives
        (.done (Call.reply lenient (.ok id))) = [(t.key, id)] := by
      unfold Call.gives
      dsimp only
      rw [Call.reply_ok]
      rfl
    rw [step_advance hc.call, heq, hgives]
    rfl
  · rw [hstale id hfind] at husable
    cases husable

theorem lookup_assign (id other : SessionId) (now : Nat) (uses : List (SessionId × Nat))
    (h : (uses.map Prod.fst).Nodup) : (Tables.assign id now uses).lookup other =
      if other = id then some now else uses.lookup other := by
  have hnodup := Tables.assign_nodup id now uses h
  split
  · next heq =>
    subst heq
    exact (lookup_eq_some_iff_mem _ hnodup _ _).mpr ((Tables.mem_assign _ _ _ _).mpr (.inl rfl))
  · next hne =>
    apply Option.ext
    intro time
    rw [lookup_eq_some_iff_mem _ hnodup, lookup_eq_some_iff_mem _ h, Tables.mem_assign]
    simp [hne]

theorem Asks.miss {t : Target} {lenient : Bool} (h : σ.Sound) (hc : σ.Asks n t lenient)
    (hstale : ∀ id, σ.registry.tables.find? t.key = some id → σ.registry.isUsable id = false)
    (bs : List Act) (b : Act) (reply : Reply) (hhead : (bs ++ [b]).head? = some (.advance n))
    (hnone : (σ.run bs).reply? n = none) (hsome : (σ.run (bs ++ [b])).reply? n = some reply) :
    σ.Done (σ.run (bs ++ [b])) n t.key := by
  have hfirst : σ.Done (σ.step (.advance n)) n t.key ∨
      ∃ id, σ.Opens (σ.step (.advance n)) n t.key id lenient := by
    rcases hc.cases h with ⟨id, hfind, husable, -⟩ | ⟨-, hcases⟩
    · rw [hstale id hfind] at husable
      cases husable
    · exact hcases
  have hsound := (step_leads h (.advance n)).sound
  cases bs with
  | nil =>
    cases hhead
    rcases hfirst with hdone | ⟨id, ho⟩
    · exact hdone
    -- with the handshake open there would be no reply yet
    · have hreply := ho.reply?
      rw [List.nil_append] at hsome
      change (σ.step (.advance n)).reply? n = some reply at hsome
      rw [hreply] at hsome
      cases hsome
  | cons a bs =>
    cases hhead
    change ((σ.step (.advance n)).run bs).reply? n = none at hnone
    change ((σ.step (.advance n)).run (bs ++ [b])).reply? n = some reply at hsome
    change σ.Done ((σ.step (.advance n)).run (bs ++ [b])) n t.key
    rw [run_append] at hsome ⊢
    -- the handshake lasts through `bs`, and `b` is the step that ends it
    rcases hfirst with ⟨reply', hr, -⟩ | ⟨id, ho⟩
    · rw [reply?_run hsound hr bs] at hnone
      cases hnone
    · rcases (ho.run hsound bs hnone).step (run_sound hsound bs) b with ho' | hdone
      · have hreply := ho'.reply?
        change (((σ.step (.advance n)).run bs).step b).reply? n = some reply at hsome
        rw [hreply] at hsome
        cases hsome
      · exact hdone

theorem Asks.served {t : Target} {lenient : Bool} (h : σ.Sound) (hc : σ.Asks n t lenient) :
    σ.Served n t lenient where
  hit := by
    intro id hfind husable
    refine ⟨hc.hit h hfind husable, Call.reply_ok lenient id, ?_⟩
    exact fun other => lookup_assign id other σ.now _ h.registry.tables.uses_nodup
  miss := by
    intro hstale bs b reply hhead hnone hsome
    obtain ⟨reply', hr, hle, hmade⟩ := hc.miss h hstale bs b reply hhead hnone hsome
    rw [hsome, Option.some.injEq] at hr
    subst hr
    exact ⟨hle, hmade⟩

theorem Asks.keeps {t : Target} {lenient : Bool} (h : σ.Sound) (hc : σ.Asks n t lenient)
    {key : SessionKey} {id : SessionId} (hmem : (key, id) ∈ σ.registry.tables.byKey)
    (husable : σ.registry.isUsable id = true) :
    (key, id) ∈ (σ.step (.advance n)).registry.tables.byKey := by
  let r : Registry := { σ.registry with turns := (σ.registry.turns.enter n).1 }
  have hsound : r.Sound σ.Young r.Retired σ.Busy := h.registry.congr rfl
  have hlive := hsound.live?_keeps hmem husable t.key
  rw [step_advance hc.call, hc.advance]
  rcases Call.create_cases hsound t lenient σ.now with ⟨x, -, -, heq⟩ |
    ⟨-, -, ⟨r', f, heq, hstays, -, -⟩ | ⟨r₁, r', x, hs, heq, hframe, hl, -⟩⟩
  · rw [heq]
    exact hmem
  · rw [heq]
    exact hstays.tables.symm ▸ hlive
  · rw [heq]
    dsimp only
    rw [hl.tables, hframe.tables]
    exact hlive

theorem opening_keeps (h : σ.Sound) {x : SessionId} {hs : Handshake} {key' : SessionKey}
    {lenient : Bool} (hc : σ.calls[n]? = some (.running (.opening x hs (.keyed key') lenient)))
    {key : SessionKey} {id : SessionId} (hmem : (key, id) ∈ σ.registry.tables.byKey) :
    (key, id) ∈ (σ.step (.advance n)).registry.tables.byKey := by
  obtain ⟨hsound, hown⟩ := h.split hc
  have hplaced : (Call.opening x hs (.keyed key') lenient).Placed σ.registry := h.placed n _ hc
  change σ.registry.Sound (also _ [x]) _ (also _ []) at hsound
  rw [step_advance hc]
  rcases Call.opening_cases hsound (hown x List.mem_cons_self) hs (.keyed key') lenient n σ.now
    with ⟨r, a, hs', heq, -, hframe, -⟩ | ⟨r, f, heq, hframe, -⟩ | ⟨r, s, heq, hframe, -⟩
  · rw [heq]
    exact hframe.tables.symm ▸ hmem
  · rw [heq]
    exact hframe.tables.symm ▸ hmem
  · rw [heq]
    change _ ∈ (r.tables.insert key' x σ.now).byKey
    rw [Tables.byKey_insert _ _ _ _ (hframe.tables.symm ▸ hplaced.2), hframe.tables]
    exact List.mem_append_left _ hmem

theorem keeps (h : σ.Sound) {c : Call} (hc : σ.calls[n]? = some (.running c))
    (hkey : c.key? ≠ none) {key : SessionKey} {id : SessionId}
    (hmem : (key, id) ∈ σ.registry.tables.byKey) (husable : σ.registry.isUsable id = true) :
    (key, id) ∈ (σ.step (.advance n)).registry.tables.byKey := by
  cases c with
  | waiting w lenient =>
    cases w with
    | create t =>
      rcases Call.enter_cases σ.registry.turns n with ⟨hfree, -, -⟩ | ⟨hbusy, -, -⟩
      · exact Asks.keeps h ⟨hc, hfree⟩ hmem husable
      -- it is not the call's turn
      · rw [step_advance hc, Call.advance_waits hbusy]
        exact hmem
    | _ => exact absurd rfl hkey
  | opening x hs b lenient =>
    cases b with
    | attached root extensions => exact absurd rfl hkey
    | keyed key' => exact opening_keeps h hc hmem
  | stopping x c => exact absurd rfl hkey
  | clearing ids rest => exact absurd rfl hkey

theorem announced_run (h : σ.Sound) (as : List Act) {id : SessionId}
    (hid : id ∈ (σ.run as).registry.announced) :
    id ∈ σ.registry.announced ∨ ∃ bs, bs <+: as ∧ id ∈ (σ.run bs).registry.tables.held := by
  induction as generalizing σ with
  | nil => exact .inl hid
  | cons a as ih =>
    have hleads := step_leads h a
    obtain ⟨new, hmoves, -⟩ := hleads.moves
    rcases ih hleads.sound hid with hid | ⟨bs, hbs, hheld⟩
    · rw [hmoves.announced] at hid
      rcases List.mem_append.mp hid with hid | hid
      · exact .inl hid
      · exact .inr ⟨[a], List.cons_prefix_cons.mpr ⟨rfl, List.nil_prefix⟩, hmoves.entered id hid⟩
    · exact .inr ⟨a :: bs, List.cons_prefix_cons.mpr ⟨rfl, hbs⟩, hheld⟩

theorem announced_mono (h : σ.Sound) (as : List Act) {id : SessionId}
    (hid : id ∈ σ.registry.announced) : id ∈ (σ.run as).registry.announced := by
  induction as generalizing σ with
  | nil => exact hid
  | cons a as ih =>
    have hleads := step_leads h a
    obtain ⟨new, hmoves, -⟩ := hleads.moves
    apply ih hleads.sound
    rw [hmoves.announced]
    exact List.mem_append_left _ hid

def Entered (r : Registry) (as : List Act) (id : SessionId) : Prop :=
  ∃ bs, bs <+: as ∧ id ∈ ((new r).run bs).registry.tables.held

theorem mem_announced_iff (r : Registry) (as : List Act) (id : SessionId) :
    id ∈ ((new r).run as).registry.announced ↔ Entered r as id := by
  constructor
  · intro hid
    rcases announced_run (Sound.new r) as hid with hid | hentered
    · cases hid
    · exact hentered
  · rintro ⟨bs, ⟨cs, rfl⟩, hheld⟩
    have hsound := run_sound (Sound.new r) bs
    rw [run_append]
    exact announced_mono hsound cs (hsound.registry.held_announced id hheld)

/-- What a history tells of the calls for keys. -/
structure Reuses (r : Registry) (as : List Act) : Prop where
  served : ∀ n t lenient, ((new r).run as).Asks n t lenient → ((new r).run as).Served n t lenient
  kept : ∀ (n : Nat) (c : Call), ((new r).run as).calls[n]? = some (.running c) → c.key? ≠ none →
    ∀ key id, ((new r).run as).registry.tables.find? key = some id →
      ((new r).run as).registry.isUsable id = true →
      ((new r).run (as ++ [.advance n])).registry.tables.find? key = some id
  distinct : ∀ e ∈ ((new r).run as).given, ∀ f ∈ ((new r).run as).given, e.2 = f.2 → e.1 = f.1
  once : ∀ id, Entered r as id → ((new r).run as).registry.announced.count id = 1
  never : ∀ id, ¬ Entered r as id → ((new r).run as).registry.announced.count id = 0

theorem run_reuses (r : Registry) (as : List Act) : Reuses r as := by
  have h := run_sound (Sound.new r) as
  exact {
    served := fun n t lenient hc => hc.served h
    kept := by
      intro n c hc hkey key id hfind husable
      have hmem := (h.registry.tables.find?_eq_some_iff key id).mp hfind
      rw [run_append]
      exact ((step_leads h (.advance n)).sound.registry.tables.find?_eq_some_iff key id).mpr
        (keeps h hc hkey hmem husable)
    distinct := by
      intro e he f hf heq
      have hkey := h.given e he
      rw [heq, h.given f hf, Option.some.injEq] at hkey
      exact hkey.symm
    once := by
      intro id hid
      rw [h.registry.announced_nodup.count]
      exact if_pos ((mem_announced_iff r as id).mpr hid)
    never := by
      intro id hid
      exact List.count_eq_zero.mpr fun hmem => hid ((mem_announced_iff r as id).mp hmem) }

end Service

end LanguageSessions
