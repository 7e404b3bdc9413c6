import LanguageSessions.Proofs.Registry.Creation

namespace LanguageSessions

namespace Call

open Registry (Sound Frame Moves)

def young : Call → List SessionId
  | opening id _ _ _ => [id]
  | _ => []

def cleaning : Call → List SessionId
  | stopping id _ => [id]
  | clearing _ rest => rest.map Prod.fst
  | _ => []

def key? : Call → Option SessionKey
  | waiting (.create t) _ => some t.key
  | opening _ _ (.keyed key) _ => some key
  | _ => none

def after (c : Call) : Advance Call Reply → Option Call
  | .idle => some c
  | .on c => some c
  | .done _ => none

end Call

def Reply.session? : Reply → Option SessionId
  | session r => r.toOption
  | resolved id => id
  | _ => none

namespace Call

open Registry (Sound Frame Moves)

variable {r r' : Registry} {Young Due Busy : SessionId → Prop} {ticket now : Nat}

/-- What a step of a call comes to: `c` is the call before it and `p` the outcome. -/
structure Advances (ticket : Nat) (c : Call) (r : Registry) (Young Busy : SessionId → Prop)
    (p : Registry × Advance Call Reply) : Prop where
  sound : p.1.Sound (also Young ((c.after p.2).elim [] Call.young)) p.1.Retired
    (also Busy ((c.after p.2).elim [] Call.cleaning))
  placed : ∀ c', c.after p.2 = some c' → c'.Placed p.1
  moves : ∃ new, r.Moves p.1 new ∧ ∀ id ∈ new, id ∈ c.young
  young : ∀ c', c.after p.2 = some c' → ∀ id ∈ c'.young,
    (id ∈ c.young ∨ r.sessions.length < id) ∧ p.1.turns.holder = some ticket
  gives : ∀ key reply id, c.key? = some key → p.2 = .done reply → reply.session? = some id →
    p.1.key? id = some key

theorem advances_of_moves {c : Call} {p : Registry × Advance Call Reply}
    (hsound : p.1.Sound Young p.1.Retired (also Busy ((c.after p.2).elim [] Call.cleaning)))
    (hmoves : r.Moves p.1 []) (hplaced : ∀ c', c.after p.2 = some c' → c'.young = [] ∧ c'.Placed p.1)
    (hgives : ∀ key reply id, c.key? = some key → p.2 = .done reply → reply.session? = some id →
      p.1.key? id = some key) :
    c.Advances ticket r Young Busy p where
  sound := by
    have hyoung : (c.after p.2).elim [] Call.young = [] := by
      cases hc : c.after p.2 with
      | none => rfl
      | some c' => exact (hplaced c' hc).1
    rw [hyoung, also_nil]
    exact hsound
  placed := fun c' hc => (hplaced c' hc).2
  moves := ⟨[], hmoves, by simp⟩
  young := by
    intro c' hc id hid
    rw [(hplaced c' hc).1] at hid
    cases hid
  gives := hgives

theorem advances_done {c : Call} {reply : Reply} (hsound : r'.Sound Young r'.Retired Busy)
    (hmoves : r.Moves r' [])
    (hgives : ∀ key id, c.key? = some key → reply.session? = some id → r'.key? id = some key) :
    c.Advances ticket r Young Busy (r', .done reply) := by
  apply advances_of_moves
  · change r'.Sound Young r'.Retired (also Busy [])
    rw [also_nil]
    exact hsound
  · exact hmoves
  · rintro c' ⟨⟩
  · rintro key reply' id hkey ⟨⟩ hid
    exact hgives key id hkey hid

theorem disposeAll_sound (now : Nat) {ids : List SessionId}
    (h : r.Sound Young (also Due ids) Busy) :
    (disposeAll r now ids).1.Sound Young Due (also Busy ((disposeAll r now ids).2.map Prod.fst)) ∧
      r.Frame (disposeAll r now ids).1 ∧ (disposeAll r now ids).1.retired = r.retired := by
  induction ids generalizing r Busy with
  | nil =>
    rw [also_nil] at h
    exact ⟨(also_nil Busy).symm ▸ h, Frame.rfl r, rfl⟩
  | cons id ids ih =>
    rw [also_cons, also_comm] at h
    have hf := Session.isCleanup_dispose now
    have hframe := r.frame_begins id hf
    have hretired := r.retired_change id (·.dispose now)
    have hbegins := h.begins hf
    unfold disposeAll
    generalize r.change id (·.dispose now) = p at hframe hretired hbegins ⊢
    obtain ⟨r', a⟩ := p
    dsimp only at hframe hretired hbegins
    -- its cleanup is under way now, or there is none to wait for
    rcases hbegins with ⟨c, rfl, hsound⟩ | ⟨rfl, hsound⟩
    · obtain ⟨hs, hfr, hre⟩ := ih hsound
      dsimp only
      rw [List.map_cons, also_cons]
      exact ⟨hs, hframe.trans hfr, hre.trans hretired⟩
    · obtain ⟨hs, hfr, hre⟩ := ih hsound
      exact ⟨hs, hframe.trans hfr, hre.trans hretired⟩

theorem awaitAll_sound (now : Nat) {rest : List (SessionId × Cleanup)}
    (h : r.Sound Young Due (also Busy (rest.map Prod.fst))) :
    (awaitAll r now rest).1.Sound Young Due
        (also Busy ((awaitAll r now rest).2.1.map Prod.fst)) ∧
      r.Frame (awaitAll r now rest).1 ∧ (awaitAll r now rest).1.retired = r.retired := by
  induction rest generalizing r Busy with
  | nil => exact ⟨h, Frame.rfl r, rfl⟩
  | cons e more ih =>
    obtain ⟨id, c⟩ := e
    have hframe := r.frame_cleans id c now
    have hretired := r.retired_change id (c.advance now)
    rw [List.map_cons, also_cons, also_comm] at h
    obtain ⟨hsound, a, ha, hdone⟩ := h.cleans c now
    rw [also_comm] at hsound
    unfold awaitAll
    generalize r.change id (c.advance now) = p at hframe hretired hsound ha hdone ⊢
    obtain ⟨r', a'⟩ := p
    dsimp only at hframe hretired hsound ha hdone ⊢
    subst ha
    cases a with
    | done u =>
      obtain ⟨hs, hfr, hre⟩ := ih (hdone rfl)
      exact ⟨hs, hframe.trans hfr, hre.trans hretired⟩
    | idle =>
      obtain ⟨hs, hfr, hre⟩ := ih hsound
      dsimp only
      rw [List.map_cons, also_cons]
      exact ⟨hs, hframe.trans hfr, hre.trans hretired⟩
    | on c' =>
      obtain ⟨hs, hfr, hre⟩ := ih hsound
      dsimp only
      rw [List.map_cons, also_cons]
      exact ⟨hs, hframe.trans hfr, hre.trans hretired⟩

theorem awaitAll_idle (r : Registry) (now : Nat) (rest : List (SessionId × Cleanup))
    (h : (awaitAll r now rest).2.2 = false) : (awaitAll r now rest).2.1 = rest := by
  induction rest generalizing r with
  | nil => rfl
  | cons e more ih =>
    obtain ⟨id, c⟩ := e
    unfold awaitAll at h ⊢
    generalize r.change id (c.advance now) = p at h ⊢
    obtain ⟨r', a⟩ := p
    have hrest := ih r'
    dsimp only at h ⊢
    generalize awaitAll r' now more = q at h hrest ⊢
    obtain ⟨r'', rest', moved⟩ := q
    dsimp only at h hrest ⊢
    cases a with
    | none => cases h
    | some a =>
      cases a with
      | idle =>
        dsimp only at h ⊢
        rw [hrest h]
      | on c' => cases h
      | done u => cases h

theorem clear_sound {ids : List SessionId} {rest : List (SessionId × Cleanup)}
    (h : r.Sound Young Due (also Busy (rest.map Prod.fst))) (hids : ∀ id ∈ ids, id ∈ r.announced) :
    r.Frame (clear r ids rest).1 ∧ (clear r ids rest).1.retired = r.retired ∧
      ((clear r ids rest).2 = .done .done ∧ (clear r ids rest).1.Sound Young Due Busy ∨
        (clear r ids rest) = (r, .on (.clearing ids rest))) := by
  unfold clear
  split
  · next hempty =>
    rw [List.isEmpty_iff.mp hempty, List.map_nil, also_nil] at h
    exact ⟨r.frame_kills ids, r.retired_kills ids, .inl ⟨rfl, (h.also_due hids).kills⟩⟩
  · exact ⟨Frame.rfl r, rfl, .inr rfl⟩

theorem Advances.after {c : Call} {p : Registry × Advance Call Reply} (hm : r.Moves r' [])
    (h : c.Advances ticket r' Young Busy p) : c.Advances ticket r Young Busy p where
  sound := h.sound
  placed := h.placed
  moves := by
    obtain ⟨new, hmoves, hnew⟩ := h.moves
    exact ⟨new, hm.trans hmoves, hnew⟩
  young := by
    intro c' hc id hid
    refine ⟨(h.young c' hc id hid).1.imp_right ?_, (h.young c' hc id hid).2⟩
    exact Nat.lt_of_le_of_lt hm.count
  gives := h.gives

theorem reply_error (lenient : Bool) (f : SessionFault) :
    (reply lenient (.error f)).session? = none := by
  cases lenient <;> rfl

theorem reply_ok (lenient : Bool) (id : SessionId) :
    (reply lenient (.ok id)).session? = some id := by
  cases lenient <;> rfl

theorem settle_error (h : r.Sound Young r.Retired Busy) (c : Call) (b : Berth) (lenient : Bool)
    (f : SessionFault) : c.Advances ticket r Young Busy (settle b lenient now r (.error f)) := by
  refine advances_done (h.congr rfl) ((Moves.rfl r).congr rfl) ?_
  intro key id _ hid
  rw [reply_error] at hid
  cases hid

theorem launched_advances (c : Call) {b : Berth} {key : SessionKey} {id : SessionId}
    {hs : Handshake} {lenient : Bool} (hl : r.Launched r' key id)
    (hsound : r'.Sound (also Young [id]) r'.Retired Busy) (hroom : Room r key b)
    (hturn : r.turns.holder = some ticket) :
    c.Advances ticket r Young Busy (r', .on (.opening id hs b lenient)) where
  sound := by
    change r'.Sound (also Young [id]) r'.Retired (also Busy [])
    rw [also_nil]
    exact hsound
  placed := by
    rintro c' ⟨⟩
    exact placed_of_room hroom hl
  moves := ⟨[], hl.moves, by simp⟩
  young := by
    rintro c' ⟨⟩ x hx
    rw [List.mem_singleton.mp hx, hl.fresh]
    exact ⟨.inr (Nat.lt_succ_self _), hl.holder.trans hturn⟩
  gives := by rintro key' reply id' - ⟨⟩

theorem attach_advances (h : r.Sound Young r.Retired Busy) (hturn : r.turns.holder = some ticket)
    (key : SessionKey) (root : String) (d : ServerDescription) {extensions : List String}
    (hne : extensions ≠ []) (lenient : Bool) :
    (waiting (.attach key root d extensions) lenient).Advances ticket r Young Busy
      (perform r (.attach key root d extensions) lenient now) := by
  unfold perform
  dsimp only
  rcases launch_cases h key root d (.attached root extensions) lenient now with
    ⟨r', f, heq, hstays, -, hsound⟩ | ⟨r', id, hs, heq, hl, hsound⟩
  · rw [heq]
    exact (settle_error hsound _ _ _ _).after hstays.moves
  · rw [heq]
    exact launched_advances _ hl hsound hne hturn

theorem create_advances (h : r.Sound Young r.Retired Busy) (hturn : r.turns.holder = some ticket)
    (t : Target) (lenient : Bool) : (waiting (.create t) lenient).Advances ticket r Young Busy
      (perform r (.create t) lenient now) := by
  have hmoves := (h.live? t.key).2
  have hholder : (r.live? t.key).1.turns = r.turns := by
    rw [r.live?_eq t.key]
  unfold perform
  dsimp only
  rcases create_cases h t lenient now with ⟨id, hmem, -, heq⟩ |
    ⟨hfree, -, ⟨r', f, heq, hstays, -, hsound⟩ | ⟨r₁, r', id, hs, heq, hframe, hl, hsound⟩⟩
  · have hkey := (h.tables.keyed _ hmem).1
    have huse := (h.tables.keyed _ hmem).2
    rw [heq]
    refine advances_done ((h.touch huse now).congr rfl) ?_ ?_
    · refine Moves.congr (r.moves_shrink (t := r.tables.touch id now) ?_) rfl
      rw [Tables.held_touch huse]
      exact fun _ hx => hx
    · rintro key id' ⟨⟩ hid
      rw [reply_ok, Option.some.injEq] at hid
      subst hid
      exact hkey
  · rw [heq]
    exact (settle_error hsound _ _ _ _).after (hmoves.trans hstays.moves)
  · have hroom : Room r₁ t.key (.keyed t.key) := ⟨rfl, hframe.tables.symm ▸ hfree⟩
    have hturn₁ : r₁.turns.holder = some ticket := by
      rw [hframe.holder, hholder, hturn]
    rw [heq]
    exact (launched_advances _ hl hsound hroom hturn₁).after (hmoves.trans hframe.moves)

theorem resolve_advances (h : r.Sound Young r.Retired Busy) (owner : Option String) (file : String)
    (lenient : Bool) : (waiting (.resolve owner file) lenient).Advances ticket r Young Busy
      (perform r (.resolve owner file) lenient now) := by
  obtain ⟨hsound, hmoves⟩ := h.attachedFor? file
  unfold perform
  dsimp only
  generalize r.attachedFor? file = p at hsound hmoves ⊢
  obtain ⟨r', id?⟩ := p
  dsimp only at hsound hmoves
  cases id? with
  | some id =>
    refine advances_done (hsound.congr rfl) (hmoves.congr rfl) ?_
    rintro key id ⟨⟩
  | none =>
    dsimp only
    cases r'.contentTypes.forFile? file with
    | none =>
      refine advances_done (hsound.congr rfl) (hmoves.congr rfl) ?_
      rintro key id ⟨⟩
    | some type =>
      dsimp only
      apply advances_of_moves
      · change Sound _ Young r'.Retired (also Busy [])
        rw [also_nil]
        exact hsound.congr rfl
      · exact hmoves.congr rfl
      · rintro c' ⟨⟩
        exact ⟨rfl, trivial⟩
      · rintro key reply id ⟨⟩

theorem restart_advances (h : r.Sound Young r.Retired Busy) (key : SessionKey) (lenient : Bool) :
    (waiting (.restart key) lenient).Advances ticket r Young Busy
      (perform r (.restart key) lenient now) := by
  unfold perform
  dsimp only
  rcases h.remove_cases key with ⟨hnone, hsame⟩ | ⟨id, hmem, heq⟩
  · generalize r.remove key = p at hnone hsame ⊢
    obtain ⟨r', id?⟩ := p
    dsimp only at hnone hsame
    subst hnone hsame
    refine advances_done (h.congr rfl) ((Moves.rfl r').congr rfl) ?_
    rintro key' id ⟨⟩
  · rw [heq]
    dsimp only
    have hf := Session.isCleanup_shutdownAndKill now
    let r₁ : Registry :=
      { r with tables := (r.tables.dropKey key).dropUse id, turns := r.turns.leave }
    have hsound₁ : r₁.Sound Young (also r.Retired [id]) Busy := (h.drop hmem).congr rfl
    have hmoves₁ : r.Moves r₁ [] := (h.moves_drop hmem).congr rfl
    have hframe := r₁.frame_begins id hf
    have hretired := r₁.retired_change id (·.shutdownAndKill now)
    have hdue : (r₁.change id (·.shutdownAndKill now)).1.Retired = r.Retired :=
      Registry.retired_congr hretired
    have hbegins := hsound₁.begins hf
    have hmoves := hmoves₁.trans hframe.moves
    rw [← hdue] at hbegins
    split
    · next r' c hchange =>
      change r₁.change id (·.shutdownAndKill now) = (r', some (.on c)) at hchange
      rw [hchange] at hbegins hmoves
      rcases hbegins with ⟨c', hc, hsound⟩ | ⟨hc, -⟩
      · apply advances_of_moves
        · exact hsound
        · exact hmoves
        · rintro c' ⟨⟩
          exact ⟨rfl, trivial⟩
        · rintro key' reply id' ⟨⟩
      · cases hc
    · next r' a hnot hchange =>
      change r₁.change id (·.shutdownAndKill now) = (r', a) at hchange
      rw [hchange] at hbegins hmoves
      rcases hbegins with ⟨c, rfl, -⟩ | ⟨-, hsound⟩
      · exact absurd rfl (hnot c)
      · refine advances_done hsound hmoves ?_
        rintro key' id' ⟨⟩

theorem takeAll_announced (h : r.Sound Young Due Busy) : ∀ id ∈ r.takeAll.2, id ∈ r.announced :=
  fun id hid => h.held_announced id ((h.mem_registered id).mp hid)

theorem killAll_advances (h : r.Sound Young r.Retired Busy) (lenient : Bool) :
    (waiting .killAll lenient).Advances ticket r Young Busy (perform r .killAll lenient now) := by
  obtain ⟨hsound, hmoves⟩ := h.takeAll
  let r₁ : Registry := { r.takeAll.1 with turns := r.takeAll.1.turns.leave }
  have hsound₁ : r₁.Sound Young (also r.Retired r.takeAll.2) Busy := hsound.congr rfl
  have hmoves₁ : r.Moves r₁ [] := hmoves.congr rfl
  have hframe := r₁.frame_kills r.takeAll.2
  have hretired := r₁.retired_kills r.takeAll.2
  have hkilled := hsound₁.kills
  change Advances ticket _ r Young Busy
    (r.takeAll.2.foldl (fun r id => r.modify id Session.kill) r₁, .done .done)
  have hdue : (r.takeAll.2.foldl (fun r id => r.modify id Session.kill) r₁).Retired = r.Retired :=
    Registry.retired_congr hretired
  rw [← hdue] at hkilled
  refine advances_done hkilled (hmoves₁.trans hframe.moves) ?_
  rintro key id ⟨⟩

theorem shutdownAll_advances (h : r.Sound Young r.Retired Busy) (lenient : Bool) :
    (waiting .shutdownAll lenient).Advances ticket r Young Busy
      (perform r .shutdownAll lenient now) := by
  obtain ⟨hsound, hmoves⟩ := h.takeAll
  let r₁ : Registry := { r.takeAll.1 with turns := r.takeAll.1.turns.leave }
  have hsound₁ : r₁.Sound Young (also r.Retired r.takeAll.2) Busy := hsound.congr rfl
  have hmoves₁ : r.Moves r₁ [] := hmoves.congr rfl
  obtain ⟨hdisposed, hframe, hretired⟩ := disposeAll_sound now hsound₁
  change Advances ticket _ r Young Busy
    (clear (disposeAll r₁ now r.takeAll.2).1 r.takeAll.2 (disposeAll r₁ now r.takeAll.2).2)
  have hann : ∀ id ∈ r.takeAll.2, id ∈ (disposeAll r₁ now r.takeAll.2).1.announced := by
    rw [hframe.announced]
    exact takeAll_announced h
  -- those that end at once may be cleared in the same step
  obtain ⟨hframe', hretired', hclear⟩ := clear_sound hdisposed hann
  have hmoves₂ := (hmoves₁.trans hframe.moves).trans hframe'.moves
  have hdue : (clear (disposeAll r₁ now r.takeAll.2).1 r.takeAll.2
      (disposeAll r₁ now r.takeAll.2).2).1.Retired = r.Retired :=
    Registry.retired_congr (hretired'.trans hretired)
  rcases hclear with ⟨hdone, hsound₂⟩ | heq
  · rw [← hdue] at hsound₂
    generalize clear (disposeAll r₁ now r.takeAll.2).1 r.takeAll.2
      (disposeAll r₁ now r.takeAll.2).2 = p at hdone hsound₂ hmoves₂ ⊢
    obtain ⟨r', a⟩ := p
    dsimp only at hdone
    subst hdone
    refine advances_done hsound₂ hmoves₂ ?_
    rintro key id ⟨⟩
  · rw [heq] at hdue hmoves₂ ⊢
    rw [← hdue] at hdisposed
    apply advances_of_moves
    · exact hdisposed
    · exact hmoves₂
    · rintro c' ⟨⟩
      exact ⟨rfl, hann⟩
    · rintro key reply id ⟨⟩

theorem perform_advances (h : r.Sound Young r.Retired Busy) (hturn : r.turns.holder = some ticket)
    (w : Wish) (lenient : Bool) (hplaced : (waiting w lenient).Placed r) :
    (waiting w lenient).Advances ticket r Young Busy (perform r w lenient now) := by
  cases w with
  | resolve owner file => exact resolve_advances h owner file lenient
  | create t => exact create_advances h hturn t lenient
  | attach key root d extensions => exact attach_advances h hturn key root d hplaced lenient
  | list =>
    refine advances_done (h.congr rfl) ((Moves.rfl r).congr rfl) ?_
    rintro key id ⟨⟩
  | evict window =>
    obtain ⟨hsound, hmoves⟩ := h.evict window now
    refine advances_done (hsound.congr rfl) (hmoves.congr rfl) ?_
    rintro key id ⟨⟩
  | restart key => exact restart_advances h key lenient
  | killAll => exact killAll_advances h lenient
  | shutdownAll => exact shutdownAll_advances h lenient

theorem waits_advances {id : SessionId} {hs hs' : Handshake} {b : Berth} {lenient : Bool}
    {a : Advance Call Reply} (hsound : r'.Sound (also Young [id]) r'.Retired Busy)
    (hframe : r.Frame r') (hplaced : (opening id hs b lenient).Placed r)
    (hturn : r.turns.holder = some ticket)
    (hafter : (opening id hs b lenient).after a = some (opening id hs' b lenient))
    (hnot : ∀ reply, a ≠ .done reply) :
    (opening id hs b lenient).Advances ticket r Young Busy (r', a) where
  sound := by
    rw [hafter]
    change r'.Sound (also Young [id]) r'.Retired (also Busy [])
    rw [also_nil]
    exact hsound
  placed := by
    intro c' hc
    rw [hafter, Option.some.injEq] at hc
    subst hc
    have hplaced' := hplaced.stays hframe.toStays
    cases b <;> exact hplaced'
  moves := ⟨[], hframe.moves, by simp⟩
  young := by
    intro c' hc x hx
    rw [hafter, Option.some.injEq] at hc
    subst hc
    exact ⟨.inl hx, hframe.holder.trans hturn⟩
  gives := fun _ _ _ _ hdone => absurd hdone (hnot _)

theorem settled_advances {id : SessionId} {hs : Handshake} {b : Berth} {lenient : Bool}
    (hsound : r'.Sound Young (also r'.Retired [id]) Busy) (hframe : r.Frame r')
    (hplaced : (opening id hs b lenient).Placed r) (hnew : id ∉ r.announced)
    (hrel : id ∉ r'.released) : (opening id hs b lenient).Advances ticket r Young Busy
      (settle b lenient now r' (.ok id)) := by
  have hplaced' := hplaced.stays hframe.toStays
  have hnew' : id ∉ r'.announced := hframe.announced.symm ▸ hnew
  obtain ⟨hsettled, hmoves, hdone⟩ := settle_ok now lenient hsound hnew' hrel hplaced'
  have hmoves' := hframe.moves.trans hmoves
  have hkey : ∀ key, (opening id hs b lenient).key? = some key →
      (settle b lenient now r' (.ok id)).1.key? id = some key := by
    intro key hkey
    cases b with
    | keyed key' =>
      cases hkey
      exact hmoves.keys _ _ hplaced'.1
    | attached root extensions => cases hkey
  generalize settle b lenient now r' (.ok id) = p at hsettled hmoves' hdone hkey ⊢
  obtain ⟨r'', a⟩ := p
  dsimp only at hsettled hmoves' hdone hkey
  subst hdone
  exact {
    sound := by
      change r''.Sound (also Young []) r''.Retired (also Busy [])
      rw [also_nil, also_nil]
      exact hsettled
    placed := by rintro c' ⟨⟩
    moves := ⟨[id], hmoves', fun x hx => hx⟩
    young := by rintro c' ⟨⟩
    gives := by
      rintro key reply' id' hk ⟨⟩ hid'
      rw [reply_ok, Option.some.injEq] at hid'
      subst hid'
      exact hkey key hk }

theorem opening_advances {id : SessionId} {hs : Handshake} {b : Berth} {lenient : Bool}
    (h : r.Sound (also Young [id]) r.Retired Busy) (hid : ¬ Young id)
    (hplaced : (opening id hs b lenient).Placed r) (hturn : r.turns.holder = some ticket) :
    (opening id hs b lenient).Advances ticket r Young Busy
      ((opening id hs b lenient).advance ticket now r) := by
  have hnew : id ∉ r.announced := (h.young id (also_self Young id)).2
  rcases opening_cases h hid hs b lenient ticket now with
    ⟨r', a, hs', heq, ⟨rfl, rfl⟩ | rfl, hframe, hsound⟩ | ⟨r', f, heq, hframe, hsound⟩ |
    ⟨r', s, heq, hframe, hrel, -, -, hsound⟩
  · rw [heq]
    exact waits_advances hsound hframe hplaced hturn rfl (by simp)
  · rw [heq]
    exact waits_advances hsound hframe hplaced hturn rfl (by simp)
  · rw [heq]
    exact (settle_error hsound _ _ _ _).after hframe.moves
  · rw [heq]
    exact settled_advances hsound hframe hplaced hnew hrel

theorem stopping_advances {id : SessionId} {c : Cleanup}
    (h : r.Sound Young r.Retired (also Busy [id])) :
    (stopping id c).Advances ticket r Young Busy ((stopping id c).advance ticket now r) := by
  have hframe := r.frame_cleans id c now
  have hretired := r.retired_change id (c.advance now)
  obtain ⟨hsound, a, ha, hdone⟩ := h.cleans c now
  unfold advance
  dsimp only
  generalize r.change id (c.advance now) = p at hframe hretired hsound ha hdone ⊢
  obtain ⟨r', a'⟩ := p
  dsimp only at hframe hretired hsound ha hdone
  subst ha
  have hdue : r'.Retired = r.Retired := Registry.retired_congr hretired
  rw [← hdue] at hsound hdone
  cases a with
  | idle =>
    apply advances_of_moves
    · exact hsound
    · exact hframe.moves
    · rintro c' ⟨⟩
      exact ⟨rfl, trivial⟩
    · rintro key reply id' ⟨⟩
  | on c' =>
    apply advances_of_moves
    · exact hsound
    · exact hframe.moves
    · rintro c'' ⟨⟩
      exact ⟨rfl, trivial⟩
    · rintro key reply id' ⟨⟩
  | done u =>
    refine advances_done (hdone rfl) hframe.moves ?_
    rintro key id' ⟨⟩

theorem clearing_advances {ids : List SessionId} {rest : List (SessionId × Cleanup)}
    (h : r.Sound Young r.Retired (also Busy (rest.map Prod.fst)))
    (hids : ∀ id ∈ ids, id ∈ r.announced) :
    (clearing ids rest).Advances ticket r Young Busy ((clearing ids rest).advance ticket now r) := by
  obtain ⟨hsound, hframe, hretired⟩ := awaitAll_sound now h
  have hidle := awaitAll_idle r now rest
  unfold advance
  dsimp only
  generalize awaitAll r now rest = p at hsound hframe hretired hidle ⊢
  obtain ⟨r', rest', moved⟩ := p
  dsimp only at hsound hframe hretired hidle ⊢
  have hids' : ∀ id ∈ ids, id ∈ r'.announced := hframe.announced.symm ▸ hids
  have hdue : r'.Retired = r.Retired := Registry.retired_congr hretired
  cases moved with
  | false =>
    rw [hidle rfl, ← hdue] at hsound
    apply advances_of_moves
    · exact hsound
    · exact hframe.moves
    · rintro c' ⟨⟩
      exact ⟨rfl, hids'⟩
    · rintro key reply id' ⟨⟩
  | true =>
    obtain ⟨hframe', hretired', hclear⟩ := clear_sound hsound hids'
    have hmoves := hframe.moves.trans hframe'.moves
    have hdue' : (clear r' ids rest').1.Retired = r.Retired :=
      Registry.retired_congr (hretired'.trans hretired)
    rw [if_pos rfl]
    rcases hclear with ⟨hdone, hsound'⟩ | heq
    · rw [← hdue'] at hsound'
      generalize clear r' ids rest' = p at hdone hsound' hmoves ⊢
      obtain ⟨r'', a⟩ := p
      dsimp only at hdone
      subst hdone
      refine advances_done hsound' hmoves ?_
      rintro key id ⟨⟩
    · rw [heq]
      rw [← hdue] at hsound
      apply advances_of_moves
      · exact hsound
      · exact hframe.moves
      · rintro c' ⟨⟩
        exact ⟨rfl, hids'⟩
      · rintro key reply id ⟨⟩

theorem enter_cases (t : Turns) (ticket : Nat) :
    (t.isFree ticket = true ∧ (t.enter ticket).2 = true ∧ (t.enter ticket).1.holder = some ticket) ∨
    (t.isFree ticket = false ∧ (t.enter ticket).2 = false ∧ (t.enter ticket).1.holder = t.holder) := by
  unfold Turns.enter
  cases hfree : t.isFree ticket with
  | true => exact .inl ⟨rfl, rfl, rfl⟩
  | false =>
    right
    rw [if_neg Bool.false_ne_true]
    split
    · exact ⟨rfl, rfl, rfl⟩
    · exact ⟨rfl, rfl, rfl⟩

theorem advance_turn (hfree : r.turns.isFree ticket = true) (w : Wish) (lenient : Bool) (now : Nat) :
    (waiting w lenient).advance ticket now r =
      perform { r with turns := (r.turns.enter ticket).1 } w lenient now := by
  unfold advance
  dsimp only
  rcases enter_cases r.turns ticket with ⟨-, hentered, -⟩ | ⟨hnot, -, -⟩
  · generalize r.turns.enter ticket = p at hentered ⊢
    obtain ⟨turns, entered⟩ := p
    dsimp only at hentered
    subst hentered
    rfl
  · rw [hfree] at hnot
    cases hnot

theorem advance_waits (hbusy : r.turns.isFree ticket = false) (w : Wish) (lenient : Bool)
    (now : Nat) : (waiting w lenient).advance ticket now r =
      ({ r with turns := (r.turns.enter ticket).1 }, .idle) := by
  unfold advance
  dsimp only
  rcases enter_cases r.turns ticket with ⟨hfree, -, -⟩ | ⟨-, hentered, -⟩
  · rw [hbusy] at hfree
    cases hfree
  · generalize r.turns.enter ticket = p at hentered ⊢
    obtain ⟨turns, entered⟩ := p
    dsimp only at hentered
    subst hentered
    rfl

theorem restart_cases (r : Registry) (key : SessionKey) (lenient : Bool) (now : Nat) :
    (∃ r', r.remove key = (r', none) ∧ perform r (.restart key) lenient now =
      ({ r' with turns := r'.turns.leave }, .done (.restarted false))) ∨
    ∃ r' id a, r.remove key = (r', some id) ∧
      perform r (.restart key) lenient now =
        ((Registry.change { r' with turns := r'.turns.leave } id (·.shutdownAndKill now)).1, a) ∧
      (a = .done (.restarted true) ∨ ∃ k, a = .on (.stopping id k)) := by
  unfold perform
  dsimp only
  generalize r.remove key = p
  obtain ⟨r', found⟩ := p
  cases found with
  | none => exact .inl ⟨r', rfl, rfl⟩
  | some id =>
    right
    dsimp only
    split
    · next heq => exact ⟨r', id, _, rfl, by rw [heq], .inr ⟨_, rfl⟩⟩
    · next heq => exact ⟨r', id, _, rfl, by rw [heq], .inl rfl⟩

theorem advance_advances (c : Call) (now : Nat)
    (h : r.Sound (also Young c.young) r.Retired (also Busy c.cleaning))
    (hown : ∀ id ∈ c.young, ¬ Young id) (hplaced : c.Placed r)
    (hturn : c.young ≠ [] → r.turns.holder = some ticket) :
    c.Advances ticket r Young Busy (c.advance ticket now r) := by
  cases c with
  | waiting w lenient =>
    change r.Sound (also Young []) r.Retired (also Busy []) at h
    rw [also_nil, also_nil] at h
    unfold advance
    dsimp only
    have hentered := enter_cases r.turns ticket
    generalize r.turns.enter ticket = p at hentered ⊢
    obtain ⟨turns, entered⟩ := p
    dsimp only at hentered
    rcases hentered with ⟨-, rfl, hholder⟩ | ⟨-, rfl, hholder⟩
    · have hmoves : r.Moves { r with turns := turns } [] := (Moves.rfl r).congr rfl
      have hplaced' : (waiting w lenient).Placed { r with turns := turns } := by
        cases w <;> exact hplaced
      have hsound : Sound { r with turns := turns } Young
          (Registry.Retired { r with turns := turns }) Busy := h.congr rfl
      exact (perform_advances hsound hholder w lenient hplaced').after hmoves
    · apply advances_of_moves
      · change Sound _ Young r.Retired (also Busy [])
        rw [also_nil]
        exact h.congr rfl
      · exact (Moves.rfl r).congr rfl
      · rintro c' ⟨⟩
        have hframe : r.Frame { r with turns := turns } := Registry.frame_of_core rfl hholder
        exact ⟨rfl, hplaced.stays hframe.toStays⟩
      · rintro key reply id - ⟨⟩
  | opening id hs b lenient =>
    change r.Sound (also Young [id]) r.Retired (also Busy []) at h
    rw [also_nil] at h
    have hid : id ∈ (opening id hs b lenient).young := List.mem_singleton.mpr rfl
    exact opening_advances h (hown id hid) hplaced (hturn (List.ne_nil_of_mem hid))
  | stopping id c =>
    change r.Sound (also Young []) r.Retired (also Busy [id]) at h
    rw [also_nil] at h
    exact stopping_advances h
  | clearing ids rest =>
    change r.Sound (also Young []) r.Retired (also Busy (rest.map Prod.fst)) at h
    rw [also_nil] at h
    exact clearing_advances h hplaced

theorem frame_awaitAll (r : Registry) (now : Nat) (rest : List (SessionId × Cleanup)) :
    r.Frame (awaitAll r now rest).1 := by
  induction rest generalizing r with
  | nil => exact Frame.rfl r
  | cons e more ih =>
    obtain ⟨id, c⟩ := e
    have hframe := r.frame_cleans id c now
    unfold awaitAll
    generalize r.change id (c.advance now) = p at hframe ⊢
    obtain ⟨r', a⟩ := p
    have hrest := ih r'
    dsimp only at hframe ⊢
    generalize awaitAll r' now more = q at hrest ⊢
    obtain ⟨r'', rest', moved⟩ := q
    dsimp only at hrest ⊢
    split <;> exact hframe.trans hrest

theorem advance_frame (c : Call) (hc : c.young = []) (hholder : r.turns.holder ≠ none) :
    r.Frame (c.advance ticket now r).1 := by
  cases c with
  | waiting w lenient =>
    have hentered := enter_cases r.turns ticket
    unfold advance
    dsimp only
    generalize r.turns.enter ticket = p at hentered ⊢
    obtain ⟨turns, entered⟩ := p
    dsimp only at hentered
    rcases hentered with ⟨hfree, -, -⟩ | ⟨-, rfl, hsame⟩
    -- the turn cannot be free, as somebody holds it
    · rw [Turns.isFree, Option.isNone_eq_false_iff.mpr (Option.isSome_iff_ne_none.mpr hholder)] at hfree
      cases hfree
    · exact Registry.frame_of_core rfl hsame
  | opening id hs b lenient => cases hc
  | stopping id c =>
    have hframe := r.frame_cleans id c now
    unfold advance
    dsimp only
    generalize r.change id (c.advance now) = p at hframe ⊢
    obtain ⟨r', a⟩ := p
    split <;> next heq => cases heq; exact hframe
  | clearing ids rest =>
    have hframe := frame_awaitAll r now rest
    unfold advance
    dsimp only
    generalize awaitAll r now rest = p at hframe ⊢
    obtain ⟨r', rest', moved⟩ := p
    split
    · unfold clear
      split
      · exact hframe.trans (r'.frame_kills ids)
      · exact hframe
    · exact hframe

end Call

end LanguageSessions
