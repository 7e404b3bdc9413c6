import LanguageSessions.Proofs.Registry.Invariant

namespace LanguageSessions

namespace Registry

theorem launches_change (r : Registry) (id : SessionId) (f : Session → Session × α) :
    (r.change id f).1.launches = r.launches := by
  unfold change
  split <;> rfl

theorem launches_launch (r : Registry) (key : SessionKey) (root : String) (d : ServerDescription)
    (now : Nat) : (r.launch key root d now).1.launches.length ≤ r.launches.length + 1 := by
  unfold launch
  rcases r.connectTo_cases key root d with ⟨f, heq⟩ | ⟨s, -, -, -, -, -, heq⟩
  · rw [heq]
    exact Nat.le_succ _
  · rw [heq]
    dsimp only
    have hchange := (r.add s (d, root)).launches_change s.id
      (Handshake.start (r.add s (d, root)).host (r.add s (d, root)).processId now)
    have hadd : (r.add s (d, root)).launches.length = r.launches.length + 1 := by
      simp [Registry.add]
    generalize (r.add s (d, root)).change s.id _ = p at hchange ⊢
    obtain ⟨r', a⟩ := p
    dsimp only at hchange
    rw [← hchange] at hadd
    split
    · next heq => cases heq; exact Nat.le_of_eq hadd
    · next heq => cases heq; exact Nat.le_of_eq hadd
    · next heq => cases heq; exact Nat.le_of_eq hadd

theorem launches_attachedFor? (r : Registry) (file : String) :
    (r.attachedFor? file).1.launches = r.launches := by
  rcases r.attachedFor?_cases file with ⟨id, heq⟩ | heq | ⟨a, -, e, -, heq⟩
  · rw [heq]
  · rw [heq]
  · rw [heq]
    rfl

theorem launches_kills (r : Registry) (ids : List SessionId) :
    (ids.foldl (fun r id => r.modify id Session.kill) r).launches = r.launches :=
  (r.frame_kills ids).launches

theorem launches_evict (r : Registry) (window now : Nat) :
    (r.evict window now).1.launches = r.launches := by
  unfold evict
  exact List.foldlRecOn (motive := fun (t : Registry) => t.launches = r.launches) _ _ rfl
    fun _ ht _ _ => ht

theorem launches_remove (r : Registry) (key : SessionKey) :
    (r.remove key).1.launches = r.launches := by
  unfold remove
  dsimp only
  split <;> rfl

end Registry

def Call.isEager : Call → Bool
  | waiting _ _ => true
  | _ => false

def Status.isEager : Status → Bool
  | running c => c.isEager
  | replied _ => false

namespace Call

def Spends (c : Call) (r : Registry) (p : Registry × Advance Call Reply) : Prop :=
  p.1.launches.length + (Status.next c p.2).isEager.toNat ≤ r.launches.length + c.isEager.toNat

variable {r : Registry}

theorem Spends.of_launches {c : Call} {p : Registry × Advance Call Reply}
    (hlaunches : p.1.launches = r.launches)
    (heager : (Status.next c p.2).isEager = true → c.isEager = true) : c.Spends r p := by
  unfold Spends
  rw [hlaunches]
  cases hnext : (Status.next c p.2).isEager with
  | false => exact Nat.add_le_add_left (Nat.zero_le _) _
  | true => exact Nat.le_of_eq (by rw [heager hnext])

theorem settle_launches (b : Berth) (lenient : Bool) (now : Nat) (r : Registry)
    (o : Except SessionFault SessionId) : (settle b lenient now r o).1.launches = r.launches := by
  unfold settle
  cases o with
  | error f => rfl
  | ok id => cases b <;> rfl

theorem launch_spends (w : Wish) (l : Bool) (key : SessionKey) (root : String)
    (d : ServerDescription) (b : Berth) (lenient : Bool) (now : Nat) :
    (waiting w l).Spends r (launch r key root d b lenient now) := by
  unfold launch Spends
  have hle := r.launches_launch key root d now
  generalize r.launch key root d now = p at hle ⊢
  obtain ⟨r', o⟩ := p
  cases o with
  | error f =>
    dsimp only at hle ⊢
    rw [settle_launches]
    exact hle
  | ok made => exact hle

theorem create_spends (w : Wish) (l : Bool) (t : Target) (lenient : Bool) (now : Nat) :
    (waiting w l).Spends r (create r t lenient now) := by
  have hlive : (r.live? t.key).1.launches = r.launches := by rw [r.live?_eq]
  unfold create
  generalize r.live? t.key = p at hlive ⊢
  obtain ⟨r₀, found⟩ := p
  dsimp only at hlive
  cases found with
  | some id => exact .of_launches hlive fun _ => rfl
  | none =>
    have hasked : (r₀.describe t).1.launches = r.launches := hlive
    dsimp only
    generalize r₀.describe t = q at hasked ⊢
    obtain ⟨r₁, d?⟩ := q
    cases d? with
    | none => exact .of_launches ((settle_launches _ _ _ _ _).trans hasked) fun _ => rfl
    | some d =>
      have hspends := launch_spends (r := r₁) w l t.key t.root d (.keyed t.key) lenient now
      unfold Spends at hspends ⊢
      rwa [hasked] at hspends

theorem disposeAll_launches (now : Nat) (ids : List SessionId) (r : Registry) :
    (disposeAll r now ids).1.launches = r.launches := by
  induction ids generalizing r with
  | nil => rfl
  | cons id ids ih =>
    have hchange := r.launches_change id (·.dispose now)
    unfold disposeAll
    generalize r.change id (·.dispose now) = p at hchange ⊢
    obtain ⟨r', a⟩ := p
    dsimp only at hchange ⊢
    split
    · next heq => cases heq; exact (ih r').trans hchange
    · next heq => cases heq; exact (ih r').trans hchange

theorem clear_spends (c : Call) (ids : List SessionId) (rest : List (SessionId × Cleanup))
    {r' : Registry} (hlaunches : r'.launches = r.launches) : c.Spends r (clear r' ids rest) := by
  unfold clear
  split
  · exact .of_launches ((r'.launches_kills ids).trans hlaunches) (by simp [Status.next, Status.isEager])
  · exact .of_launches hlaunches (by simp [Status.next, Status.isEager, isEager])

theorem perform_spends (w : Wish) (l lenient : Bool) (now : Nat) :
    (waiting w l).Spends r (perform r w lenient now) := by
  cases w with
  | resolve owner file =>
    have hattached := r.launches_attachedFor? file
    unfold perform
    dsimp only
    generalize r.attachedFor? file = p at hattached ⊢
    obtain ⟨r', found⟩ := p
    cases found with
    | some id => exact .of_launches hattached fun _ => rfl
    | none =>
      dsimp only
      split
      · exact .of_launches hattached fun _ => rfl
      · exact .of_launches hattached fun _ => rfl
  | create t => exact create_spends _ l t lenient now
  | attach key root d extensions => exact launch_spends _ l key root d _ lenient now
  | list => exact .of_launches rfl fun _ => rfl
  | evict window =>
    have hevict := r.launches_evict window now
    unfold perform
    dsimp only
    generalize r.evict window now = p at hevict ⊢
    exact .of_launches hevict fun _ => rfl
  | restart key =>
    have hremove := r.launches_remove key
    unfold perform
    dsimp only
    generalize r.remove key = p at hremove ⊢
    obtain ⟨r', found⟩ := p
    cases found with
    | none => exact .of_launches hremove fun _ => rfl
    | some id =>
      have hchange := Registry.launches_change { r' with turns := r'.turns.leave } id
        (·.shutdownAndKill now)
      dsimp only
      generalize Registry.change { r' with turns := r'.turns.leave } id (·.shutdownAndKill now) = q
        at hchange ⊢
      obtain ⟨r'', a⟩ := q
      have hlaunches : r''.launches = r.launches := hchange.trans hremove
      split
      · next heq => cases heq; exact .of_launches hlaunches fun _ => rfl
      · next heq => cases heq; exact .of_launches hlaunches fun _ => rfl
  | killAll => exact .of_launches (Registry.launches_kills _ _) fun _ => rfl
  | shutdownAll =>
    have hdispose := disposeAll_launches now r.takeAll.2
      { r.takeAll.1 with turns := r.takeAll.1.turns.leave }
    unfold perform
    dsimp only at hdispose ⊢
    generalize disposeAll _ now r.takeAll.2 = p at hdispose ⊢
    exact clear_spends _ _ _ hdispose

theorem advance_spends (ticket now : Nat) (c : Call) : c.Spends r (c.advance ticket now r) := by
  cases c with
  | waiting w lenient =>
    unfold advance
    dsimp only
    generalize r.turns.enter ticket = p
    obtain ⟨turns, entered⟩ := p
    cases entered with
    | true => exact perform_spends w lenient lenient now
    | false => exact .of_launches rfl fun _ => rfl
  | opening id hs b lenient =>
    have hchange := r.launches_change id (hs.advance now)
    unfold advance
    dsimp only
    generalize r.change id (hs.advance now) = p at hchange ⊢
    obtain ⟨r', a⟩ := p
    split
    · next o heq =>
      cases heq
      have hlaunched : (r'.launched id o).1.launches = r.launches := by
        rcases r'.launched_cases id o with ⟨f, heq, -⟩ | ⟨o', -, -, heq⟩
        · rw [heq]
          exact hchange
        · rw [heq]
          exact hchange
      refine .of_launches ((settle_launches _ _ _ _ _).trans hlaunched) ?_
      simp [settle, Status.next, Status.isEager]
    · next heq =>
      cases heq
      exact .of_launches hchange fun hx => hx
    · next heq =>
      cases heq
      exact .of_launches hchange fun hx => hx
  | stopping id c =>
    have hchange := r.launches_change id (c.advance now)
    unfold advance
    dsimp only
    generalize r.change id (c.advance now) = p at hchange ⊢
    obtain ⟨r', a⟩ := p
    split
    · next heq => cases heq; exact .of_launches hchange fun hx => hx
    · next heq => cases heq; exact .of_launches hchange fun hx => hx
    · next heq => cases heq; exact .of_launches hchange (by simp [Status.next, Status.isEager])
  | clearing ids rest =>
    have hframe := (frame_awaitAll r now rest).launches
    unfold advance
    dsimp only
    generalize awaitAll r now rest = p at hframe ⊢
    obtain ⟨r', rest', moved⟩ := p
    split
    · exact clear_spends _ ids rest' hframe
    · exact .of_launches hframe id

end Call

namespace Service

variable {σ : Service}

def eager (σ : Service) : Nat := σ.calls.countP Status.isEager

theorem step_launches (h : σ.Sound) {a : Act} (ha : ∀ d, a ≠ .ask d) :
    (σ.step a).registry.launches.length + (σ.step a).eager ≤
      σ.registry.launches.length + σ.eager := by
  rcases step_cases h a with ⟨d, rfl⟩ | ⟨n, rfl⟩ | hrests
  · exact absurd rfl (ha d)
  · cases hc : σ.calls[n]? with
    | none => simp [step, hc]
    | some s =>
      cases s with
      | replied reply => simp [step, hc]
      | running c =>
        have hspends : _ + (Status.isEager _).toNat ≤ _ + c.isEager.toNat :=
          c.advance_spends n σ.now (r := σ.registry)
        obtain ⟨hlt, hget⟩ := List.getElem?_eq_some_iff.mp hc
        have hcounted : c.isEager.toNat ≤ σ.calls.countP Status.isEager := by
          cases heager : c.isEager with
          | false => exact Nat.zero_le _
          | true => exact List.countP_pos_iff.mpr ⟨_, List.mem_of_getElem? hc, heager⟩
        have hone : ∀ b : Bool, (if b = true then 1 else 0) = b.toNat := by decide
        rw [step_advance hc]
        unfold eager
        rw [List.countP_set hlt, hget, hone, hone]
        change _ + (_ - c.isEager.toNat + _) ≤ _
        dsimp only
        omega
  · rw [hrests.frame.launches, eager, hrests.calls]
    exact Nat.le_refl _

theorem ask_launches (d : Demand) : (σ.step (.ask d)).registry.launches = σ.registry.launches ∧
    (σ.step (.ask d)).eager ≤ σ.eager + 1 := by
  refine ⟨rfl, ?_⟩
  unfold eager step
  rw [List.countP_append, List.countP_singleton]
  split <;> omega

end Service

end LanguageSessions
