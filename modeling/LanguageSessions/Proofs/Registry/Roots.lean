import LanguageSessions.Proofs.Registry.Invariant

namespace LanguageSessions

namespace Registry

variable (r : Registry)

def roots : List Attachment := r.tables.attached

theorem tables_change (id : SessionId) (f : Session → Session × α) :
    (r.change id f).1.tables = r.tables := by
  unfold change
  split <;> rfl

theorem roots_live? (key : SessionKey) : (r.live? key).1.roots = r.roots := by
  unfold live?
  split
  · rfl
  · split
    · rfl
    · split <;> rfl

theorem roots_evict (window now : Nat) : (r.evict window now).1.roots = r.roots := by
  unfold evict
  refine List.foldlRecOn (motive := fun (t : Registry) => t.roots = r.roots) _ _ rfl
    fun t ht id _ => ?_
  rw [← ht]
  unfold forget roots Tables.forget
  dsimp only
  split
  · split <;> rfl
  · rfl

theorem roots_remove (key : SessionKey) : (r.remove key).1.roots = r.roots := by
  unfold remove
  dsimp only
  split <;> rfl

theorem tables_launch (key : SessionKey) (root : String) (d : ServerDescription) (now : Nat) :
    (r.launch key root d now).1.tables = r.tables := by
  unfold launch
  rcases r.connectTo_cases key root d with ⟨f, heq⟩ | ⟨s, -, -, -, -, -, heq⟩
  · rw [heq]
  · rw [heq]
    dsimp only
    have hchange := (r.add s (d, root)).tables_change s.id
      (Handshake.start (r.add s (d, root)).host (r.add s (d, root)).processId now)
    generalize (r.add s (d, root)).change s.id _ = p at hchange ⊢
    obtain ⟨r', a⟩ := p
    split <;> next heq => cases heq; exact hchange

end Registry

namespace Call

def place? : Call → Option (String × List String)
  | waiting (.attach _ root _ extensions) _ => some (root, extensions)
  | opening _ _ (.attached root extensions) _ => some (root, extensions)
  | _ => none

def clears : Call → Bool
  | waiting .killAll _ => true
  | waiting .shutdownAll _ => true
  | _ => false

variable {r r' : Registry}

theorem roots_launch (r : Registry) (key : SessionKey) (root : String) (d : ServerDescription)
    (b : Berth) (lenient : Bool) (now : Nat) :
    (launch r key root d b lenient now).1.roots = r.roots ∧
      ∀ reply, (launch r key root d b lenient now).2 = .done reply → reply.session? = none := by
  have htables := r.tables_launch key root d now
  unfold launch
  generalize r.launch key root d now = p at htables ⊢
  obtain ⟨r', o⟩ := p
  dsimp only at htables
  cases o with
  | error f =>
    refine ⟨congrArg Tables.attached htables, ?_⟩
    rintro reply ⟨⟩
    exact reply_error lenient _
  | ok made => exact ⟨congrArg Tables.attached htables, by rintro reply ⟨⟩⟩

theorem roots_create (r : Registry) (t : Target) (lenient : Bool) (now : Nat) :
    (create r t lenient now).1.roots = r.roots := by
  have hlive := r.roots_live? t.key
  unfold create
  generalize r.live? t.key = p at hlive ⊢
  obtain ⟨r₀, found⟩ := p
  cases found with
  | some id => exact hlive
  | none =>
    have hasked : (r₀.describe t).1.roots = r.roots := hlive
    dsimp only
    generalize r₀.describe t = q at hasked ⊢
    obtain ⟨r₁, d?⟩ := q
    cases d? with
    | none => exact hasked
    | some d => exact (roots_launch r₁ t.key t.root d _ lenient now).1.trans hasked

theorem tables_disposeAll (now : Nat) (ids : List SessionId) (r : Registry) :
    (disposeAll r now ids).1.tables = r.tables := by
  induction ids generalizing r with
  | nil => rfl
  | cons id ids ih =>
    have hchange := r.tables_change id (·.dispose now)
    unfold disposeAll
    generalize r.change id (·.dispose now) = p at hchange ⊢
    obtain ⟨r', a⟩ := p
    dsimp only
    split
    · next heq => cases heq; exact (ih r').trans hchange
    · next heq => cases heq; exact (ih r').trans hchange

theorem tables_clear (ids : List SessionId) (rest : List (SessionId × Cleanup)) (r : Registry) :
    (clear r ids rest).1.tables = r.tables := by
  unfold clear
  split
  · exact (r.frame_kills ids).tables
  · rfl

theorem tables_killAll (r : Registry) (lenient : Bool) (now : Nat) :
    (perform r .killAll lenient now).1.tables = {} :=
  (Registry.frame_kills { r.takeAll.1 with turns := r.turns.leave } r.takeAll.2).tables

theorem tables_shutdownAll (r : Registry) (lenient : Bool) (now : Nat) :
    (perform r .shutdownAll lenient now).1.tables = {} := by
  change (clear _ _ _).1.tables = {}
  rw [tables_clear, tables_disposeAll]

theorem tables_stopping (ticket now : Nat) (id : SessionId) (k : Cleanup) (r : Registry) :
    ((stopping id k).advance ticket now r).1.tables = r.tables := by
  have htables := r.tables_change id (k.advance now)
  unfold advance
  dsimp only
  generalize r.change id (k.advance now) = p at htables ⊢
  obtain ⟨r', a⟩ := p
  split <;> next heq => cases heq; exact htables

theorem tables_clearing (ticket now : Nat) (ids : List SessionId)
    (rest : List (SessionId × Cleanup)) (r : Registry) :
    ((clearing ids rest).advance ticket now r).1.tables = r.tables := by
  have htables := (frame_awaitAll r now rest).tables
  unfold advance
  dsimp only
  generalize awaitAll r now rest = p at htables ⊢
  obtain ⟨r', rest', moved⟩ := p
  split
  · exact (tables_clear ids rest' r').trans htables
  · exact htables

/-- What a step of a call makes of the attached roots; `p` is what comes of it. -/
inductive Shifts (ticket : Nat) (c : Call) (r : Registry) (p : Registry × Advance Call Reply) : Prop where
  | keeps (hidle : ¬ (c.clears = true ∧ r.turns.isFree ticket = true))
    (hnone : ∀ reply id, p.2 = .done reply → reply.session? = some id → c.place? = none)
    (hroots : p.1.roots = r.roots)
  | clears (hclears : c.clears = true) (hfree : r.turns.isFree ticket = true) (hroots : p.1.roots = [])
  | attaches (root : String) (extensions : List String) (id : SessionId) (reply : Reply) (s : Session)
    (hplace : c.place? = some (root, extensions)) (hdone : p.2 = .done reply)
    (hid : reply.session? = some id)
    (hroots : p.1.roots = (r.tables.attach root extensions id).attached)
    (hs : p.1.session? id = some s) (hready : s.state = .ready)
  | detaches (owner : Option String) (file : String) (lenient : Bool) (a : Attachment)
    (id : SessionId) (hc : c = .waiting (.resolve owner file) lenient)
    (hfree : r.turns.isFree ticket = true) (hnone : ∀ reply, p.2 = .done reply → reply.session? = none)
    (ha : r.tables.rootOf? r.host file = some a)
    (hid : ((fileExtension? file).bind fun ext => a.byExtension.lookup ext) = some id)
    (hspent : r.isUsable id = false) (hroots : p.1.roots = (r.tables.detach a.root id).attached)
    (hretired : id ∈ p.1.retired)

theorem Shifts.stays {ticket : Nat} {c : Call} {p : Registry × Advance Call Reply}
    (hclears : c.clears = false) (hplace : c.place? = none) (hroots : p.1.roots = r.roots) :
    Shifts ticket c r p :=
  .keeps (by simp [hclears]) (fun _ _ _ _ => hplace) hroots

theorem resolve_shifts {ticket : Nat} (owner : Option String) (file : String) (lenient : Bool)
    (now : Nat) (hfree : r.turns.isFree ticket = true) (turns : Turns) :
    Shifts ticket (.waiting (.resolve owner file) lenient) r
      (perform { r with turns := turns } (.resolve owner file) lenient now) := by
  unfold perform Registry.attachedFor?
  dsimp only
  cases ha : r.tables.rootOf? r.host file with
  | none =>
    dsimp only
    split <;> exact .stays rfl rfl rfl
  | some a =>
    dsimp only
    cases hid : (fileExtension? file).bind fun ext => a.byExtension.lookup ext with
    | none =>
      dsimp only
      split <;> exact .stays rfl rfl rfl
    | some id =>
      dsimp only
      cases husable : r.isUsable id with
      | true =>
        have hsame : Registry.isUsable { r with turns := turns } id = true := husable
        rw [if_pos hsame]
        exact .stays rfl rfl rfl
      | false =>
        have hsame : ¬ Registry.isUsable { r with turns := turns } id = true := by
          rw [show Registry.isUsable { r with turns := turns } id = false from husable]
          simp
        rw [if_neg hsame]
        have hmem : id ∈ r.retired ++ [id] := by simp
        dsimp only
        split
        · exact .detaches owner file lenient a id rfl hfree (by rintro reply ⟨⟩; rfl) ha hid husable
            rfl hmem
        · exact .detaches owner file lenient a id rfl hfree (by rintro reply ⟨⟩) ha hid husable
            rfl hmem

theorem perform_shifts {ticket : Nat} (w : Wish) (lenient : Bool) (now : Nat)
    (hfree : r.turns.isFree ticket = true) (turns : Turns) :
    Shifts ticket (.waiting w lenient) r (perform { r with turns := turns } w lenient now) := by
  let r₀ : Registry := { r with turns := turns }
  change Shifts ticket _ r (perform r₀ w lenient now)
  cases w with
  | resolve owner file => exact resolve_shifts owner file lenient now hfree turns
  | create t => exact .stays rfl rfl (roots_create r₀ t lenient now)
  | attach key root d extensions =>
    obtain ⟨hroots, hnone⟩ := roots_launch r₀ key root d (.attached root extensions) lenient now
    refine .keeps (by simp [clears]) (fun reply id hdone hid => ?_) hroots
    rw [hnone reply hdone] at hid
    cases hid
  | list => exact .stays rfl rfl rfl
  | evict window => exact .stays rfl rfl (r₀.roots_evict window now)
  | restart key =>
    have hremoved := r₀.roots_remove key
    refine .stays rfl rfl ?_
    rcases restart_cases r₀ key lenient now with ⟨r', heq, hstep⟩ | ⟨r', id, a, heq, hstep, -⟩
    · rw [heq] at hremoved
      rw [hstep]
      exact hremoved
    · rw [heq] at hremoved
      rw [hstep]
      exact (congrArg Tables.attached (Registry.tables_change _ id _)).trans hremoved
  | killAll => exact .clears rfl hfree (congrArg Tables.attached (tables_killAll r₀ lenient now))
  | shutdownAll =>
    exact .clears rfl hfree (congrArg Tables.attached (tables_shutdownAll r₀ lenient now))

theorem advance_shifts {Young Busy : SessionId → Prop} (ticket now : Nat) (c : Call)
    (h : r.Sound (also Young c.young) r.Retired Busy) (hown : ∀ id ∈ c.young, ¬ Young id) :
    Shifts ticket c r (c.advance ticket now r) := by
  cases c with
  | waiting w lenient =>
    cases hfree : r.turns.isFree ticket with
    | true =>
      rw [advance_turn hfree]
      exact perform_shifts w lenient now hfree _
    | false =>
      rw [advance_waits hfree]
      exact .keeps (by simp [hfree]) (by rintro reply id ⟨⟩) rfl
  | opening id hs b lenient =>
    rcases opening_cases h (hown id List.mem_cons_self) hs b lenient ticket now with
      ⟨r', a, hs', heq, ha, hframe, -⟩ | ⟨r', f, heq, hframe, -⟩ |
      ⟨r', s, heq, hframe, -, hs, hready, -⟩
    · rw [heq]
      refine .keeps (by simp [clears]) ?_ (congrArg Tables.attached hframe.tables)
      rintro reply x hdone
      rcases ha with ⟨rfl, -⟩ | rfl <;> cases hdone
    · rw [heq]
      refine .keeps (by simp [clears]) ?_ (congrArg Tables.attached hframe.tables)
      rintro reply x ⟨⟩ hx
      rw [reply_error] at hx
      cases hx
    · rw [heq]
      cases b with
      | keyed key =>
        have hroots : r'.roots = r.roots := congrArg Tables.attached hframe.tables
        exact .stays rfl rfl hroots
      | attached root extensions =>
        refine .attaches root extensions id _ s rfl rfl (reply_ok lenient id) ?_ hs hready
        exact congrArg (fun t : Tables => (t.attach root extensions id).attached) hframe.tables
  | stopping id c =>
    exact .stays rfl rfl (congrArg Tables.attached (tables_stopping ticket now id c r))
  | clearing ids rest =>
    exact .stays rfl rfl (congrArg Tables.attached (tables_clearing ticket now ids rest r))

theorem launch_place? (w : Wish) (l : Bool) (key : SessionKey) (root : String)
    (d : ServerDescription) (b : Berth) (lenient : Bool) (now : Nat) (r : Registry) {c : Call}
    (h : (waiting w l).after (launch r key root d b lenient now).2 = some c) :
    ∃ id hs, c = opening id hs b lenient := by
  unfold launch at h
  generalize r.launch key root d now = p at h
  obtain ⟨r', o⟩ := p
  cases o with
  | error f => cases h
  | ok made =>
    cases h
    exact ⟨_, _, rfl⟩

theorem perform_place? (w : Wish) (lenient : Bool) (now : Nat) (r : Registry) {c : Call}
    (h : (waiting w lenient).after (perform r w lenient now).2 = some c) :
    c.place? = (waiting w lenient).place? := by
  cases w with
  | resolve owner file =>
    unfold perform at h
    dsimp only at h
    split at h
    · cases h
    · split at h
      · cases h
      · cases h
        rfl
  | create t =>
    change (waiting (.create t) lenient).after (create r t lenient now).2 = some c at h
    unfold create at h
    split at h
    · cases h
    · split at h
      · cases h
      · obtain ⟨id, hs, rfl⟩ := launch_place? _ _ _ _ _ _ _ _ _ h
        rfl
  | attach key root d extensions =>
    obtain ⟨id, hs, rfl⟩ := launch_place? _ _ _ _ _ _ _ _ _ h
    rfl
  | restart key =>
    rcases restart_cases r key lenient now with ⟨r', -, hstep⟩ |
      ⟨r', id, a, -, hstep, rfl | ⟨k, rfl⟩⟩
    · rw [hstep] at h
      cases h
    · rw [hstep] at h
      cases h
    · rw [hstep] at h
      cases h
      rfl
  | shutdownAll =>
    unfold perform clear at h
    dsimp only at h
    split at h
    · cases h
    · cases h
      rfl
  | _ => cases h

theorem advance_place? (ticket now : Nat) (c : Call) (r : Registry) {c' : Call}
    (h : c.after (c.advance ticket now r).2 = some c') : c'.place? = c.place? := by
  cases c with
  | waiting w lenient =>
    cases hfree : r.turns.isFree ticket with
    | true =>
      rw [advance_turn hfree] at h
      exact perform_place? w lenient now _ h
    | false =>
      rw [advance_waits hfree] at h
      cases h
      rfl
  | opening id hs b lenient =>
    unfold advance at h
    dsimp only at h
    split at h
    · cases h
    · cases h
      cases b <;> rfl
    · cases h
      rfl
  | stopping id c =>
    unfold advance at h
    dsimp only at h
    split at h <;> cases h <;> rfl
  | clearing ids rest =>
    unfold advance clear at h
    dsimp only at h
    split at h
    · split at h
      · cases h
      · cases h
        rfl
    · cases h
      rfl

end Call

end LanguageSessions
