import LanguageSessions.Proofs.Registry.Reuse

namespace LanguageSessions

def Reply.ease : Reply → Reply
  | session r => resolved r.toOption
  | r => r

theorem Reply.session?_ease (r : Reply) : r.ease.session? = r.session? := by
  cases r <;> rfl

def Call.ease : Call → Call
  | waiting w _ => waiting w true
  | opening id hs b _ => opening id hs b true
  | c => c

def Call.eased : Advance Call Reply → Advance Call Reply
  | .idle => .idle
  | .on c => .on c.ease
  | .done r => .done r.ease

def Status.ease : Status → Status
  | running c => running c.ease
  | replied r => replied r.ease

namespace Call

theorem reply_ease (lenient : Bool) (o : Except SessionFault SessionId) :
    (reply lenient o).ease = reply true o := by
  cases lenient <;> rfl

theorem settle_ease (b : Berth) (lenient : Bool) (now : Nat) (r : Registry)
    (o : Except SessionFault SessionId) : settle b true now r o =
      ((settle b lenient now r o).1, eased (settle b lenient now r o).2) := by
  unfold settle eased
  dsimp only
  rw [reply_ease]

theorem launch_ease (r : Registry) (key : SessionKey) (root : String) (d : ServerDescription)
    (b : Berth) (lenient : Bool) (now : Nat) : launch r key root d b true now =
      ((launch r key root d b lenient now).1, eased (launch r key root d b lenient now).2) := by
  unfold launch
  generalize r.launch key root d now = p
  obtain ⟨r', o⟩ := p
  cases o with
  | error f => exact settle_ease b lenient now r' _
  | ok made => rfl

theorem create_ease (r : Registry) (t : Target) (lenient : Bool) (now : Nat) :
    create r t true now = ((create r t lenient now).1, eased (create r t lenient now).2) := by
  unfold create
  generalize r.live? t.key = p
  obtain ⟨r₀, found⟩ := p
  cases found with
  | some id =>
    dsimp only [eased]
    rw [reply_ease]
  | none =>
    dsimp only
    generalize r₀.describe t = q
    obtain ⟨r₁, d?⟩ := q
    cases d? with
    | none => exact settle_ease _ lenient now r₁ _
    | some d => exact launch_ease r₁ _ _ _ _ lenient now

theorem perform_ease (r : Registry) (w : Wish) (lenient : Bool) (now : Nat) :
    perform r w true now = ((perform r w lenient now).1, eased (perform r w lenient now).2) := by
  cases w with
  | resolve owner file =>
    unfold perform
    dsimp only
    generalize r.attachedFor? file = p
    obtain ⟨r', found⟩ := p
    cases found with
    | some id => rfl
    | none =>
      dsimp only
      split <;> rfl
  | create t => exact create_ease r t lenient now
  | attach key root d extensions => exact launch_ease r key root d _ lenient now
  | restart key =>
    unfold perform
    dsimp only
    generalize r.remove key = p
    obtain ⟨r', found⟩ := p
    cases found with
    | none => rfl
    | some id =>
      dsimp only
      split <;> rfl
  | shutdownAll =>
    unfold perform clear
    dsimp only
    split <;> rfl
  | _ => rfl

theorem advance_ease (ticket now : Nat) (c : Call) (r : Registry) : c.ease.advance ticket now r =
    ((c.advance ticket now r).1, eased (c.advance ticket now r).2) := by
  cases c with
  | waiting w lenient =>
    unfold ease advance
    dsimp only
    generalize r.turns.enter ticket = p
    obtain ⟨turns, entered⟩ := p
    cases entered with
    | true => exact perform_ease _ w lenient now
    | false => rfl
  | opening id hs b lenient =>
    unfold ease advance
    dsimp only
    generalize r.change id (hs.advance now) = p
    obtain ⟨r', a⟩ := p
    cases a with
    | none => rfl
    | some a =>
      cases a with
      | done o => exact settle_ease b lenient now _ _
      | _ => rfl
  | stopping id c =>
    unfold ease advance
    dsimp only
    split <;> rfl
  | clearing ids rest =>
    unfold ease advance clear
    dsimp only
    split
    · split <;> rfl
    · rfl

theorem key?_ease (c : Call) : c.ease.key? = c.key? := by
  cases c with
  | waiting w lenient => cases w <;> rfl
  | opening id hs b lenient => cases b <;> rfl
  | _ => rfl

theorem gives_ease (c : Call) (a : Advance Call Reply) : c.ease.gives (eased a) = c.gives a := by
  cases a with
  | done r =>
    unfold gives eased
    dsimp only
    rw [key?_ease, r.session?_ease]
  | _ => rfl

theorem next_ease (c : Call) (a : Advance Call Reply) :
    Status.next c.ease (eased a) = (Status.next c a).ease := by
  cases a <;> rfl

end Call

theorem Status.holds_ease (s : Status) : s.ease.holds = s.holds := by
  cases s with
  | running c => cases c <;> rfl
  | replied r => rfl

namespace Service

def ease (σ : Service) (n : Nat) : Service := { σ with calls := σ.calls.modify n Status.ease }

variable {σ : Service} {n : Nat}

theorem reply?_ease (σ : Service) (n : Nat) : (σ.ease n).reply? n = (σ.reply? n).map Reply.ease := by
  unfold reply? ease
  dsimp only
  rw [List.getElem?_modify_eq]
  cases σ.calls[n]? with
  | none => rfl
  | some s => cases s <;> rfl

theorem isLoose_ease (σ : Service) (n : Nat) (id : SessionId) :
    (σ.ease n).isLoose id = σ.isLoose id := by
  have hcalls : ∀ calls : List Status, ∀ n, (calls.modify n Status.ease).all
      (fun s => !s.holds.contains id) = calls.all fun s => !s.holds.contains id := by
    intro calls
    induction calls with
    | nil => intro n; cases n <;> rfl
    | cons s calls ih =>
      intro n
      cases n with
      | zero => simp [Status.holds_ease]
      | succ n => simp only [List.modify_succ_cons, List.all_cons, ih]
  unfold isLoose
  rw [show (σ.ease n).calls = σ.calls.modify n Status.ease from rfl, hcalls]
  rfl

theorem begin_ease (σ : Service) (n : Nat) (id : SessionId)
    (f : Session → Session × Advance Cleanup Unit) :
    (σ.ease n).begin id f = (σ.begin id f).ease n := by
  unfold begin
  rw [show (σ.ease n).registry = σ.registry from rfl]
  split <;> rfl

section

variable {α : Type} (f : α → α) {i j : Nat} (l : List α) (a : α)

theorem modify_set_self : (l.modify i f).set i (f a) = (l.set i a).modify i f := by
  apply List.ext_getElem?
  intro k
  simp only [List.getElem?_set, List.getElem?_modify, List.length_modify]
  by_cases hk : i = k <;> simp [hk]

theorem modify_of_set : (l.set i a).modify i f = l.set i (f a) := by
  apply List.ext_getElem?
  intro k
  grind

theorem modify_set_ne (h : i ≠ j) : (l.modify i f).set j a = (l.set j a).modify i f := by
  apply List.ext_getElem?
  intro k
  grind

theorem modify_concat (h : i < l.length) : (l ++ [a]).modify i f = l.modify i f ++ [a] := by
  apply List.ext_getElem?
  intro k
  by_cases hk : i = k <;> grind

end

theorem step_advance_ease (σ : Service) (n m : Nat) :
    (σ.ease n).step (.advance m) = (σ.step (.advance m)).ease n := by
  have hget : (σ.ease n).calls[m]? = (σ.calls[m]?).map fun s => if n = m then s.ease else s :=
    List.getElem?_modify Status.ease n σ.calls m
  cases hs : σ.calls[m]? with
  | none =>
    rw [hs] at hget
    simp only [step, hs, hget, Option.map_none]
  | some s =>
    rw [hs] at hget
    cases s with
    | replied r =>
      obtain ⟨r', heased⟩ : ∃ r', (σ.ease n).calls[m]? = some (.replied r') := by
        rw [hget]
        by_cases hm : n = m <;> simp [hm, Status.ease]
      simp only [step, hs, heased]
    | running c =>
      rw [step_advance hs]
      by_cases hm : n = m
      · subst hm
        have heased : (σ.ease n).calls[n]? = some (.running c.ease) := by
          rw [hget]
          simp [Status.ease]
        have hset := modify_set_self (i := n) Status.ease σ.calls
          (.next c (c.advance n σ.now σ.registry).2)
        have hadvance := c.advance_ease n σ.now σ.registry
        rw [step_advance heased, show (σ.ease n).registry = σ.registry from rfl,
          show (σ.ease n).now = σ.now from rfl, hadvance]
        dsimp only
        rw [Call.gives_ease, Call.next_ease]
        unfold ease
        dsimp only
        rw [hset]
      · have heased : (σ.ease n).calls[m]? = some (.running c) := by
          rw [hget]
          simp [hm]
        rw [step_advance heased]
        unfold ease
        dsimp only
        rw [modify_set_ne _ _ _ hm]

theorem step_ease (hn : n < σ.calls.length) (a : Act) :
    (σ.ease n).step a = (σ.step a).ease n := by
  have hif : ∀ (p : Bool) (τ : Service),
      (if p = true then τ.ease n else σ.ease n) = (if p = true then τ else σ).ease n :=
    fun p τ => (apply_ite (fun ρ : Service => ρ.ease n) _ _ _).symm
  cases a with
  | ask d =>
    unfold step ease
    dsimp only
    rw [modify_concat _ _ _ hn]
  | advance m => exact step_advance_ease σ n m
  | pass millis => rfl
  | move h connect => rfl
  | event id e =>
    let r := σ.registry.modify id fun s => { s with connection := s.connection.step e }
    exact hif (e.isOwn || σ.isShared id) { σ with registry := r }
  | use id u => exact hif (σ.isShared id) { σ with registry := σ.registry.modify id (·.use u) }
  | dispose id => exact (if_congr Iff.rfl (begin_ease σ n id _) rfl).trans (hif _ _)
  | shutdownAndKill id => exact (if_congr Iff.rfl (begin_ease σ n id _) rfl).trans (hif _ _)
  | reap i =>
    cases hid : σ.registry.retired[i]? with
    | none =>
      have heased : (σ.ease n).registry.retired[i]? = none := hid
      simp only [step, hid, heased]
    | some id =>
      have heased : (σ.ease n).registry.retired[i]? = some id := hid
      simp only [step, hid, heased]
      let r : Registry := { σ.registry with retired := σ.registry.retired.eraseIdx i }
      exact begin_ease { σ with registry := r } n id _
  | clean i =>
    cases hid : σ.cleanups[i]? with
    | none =>
      have heased : (σ.ease n).cleanups[i]? = none := hid
      simp only [step, hid, heased]
    | some e =>
      have heased : (σ.ease n).cleanups[i]? = some e := hid
      simp only [step, hid, heased]
      rw [show (σ.ease n).registry = σ.registry from rfl, show (σ.ease n).now = σ.now from rfl]
      split <;> rfl
  | release id =>
    have hloose : (σ.ease n).step (.release id) =
        if σ.isLoose id then ({ σ with registry := σ.registry.release id } : Service).ease n
        else σ.ease n := if_congr (by rw [isLoose_ease]) rfl rfl
    rw [hloose]
    exact hif _ _

theorem calls_begin (σ : Service) (id : SessionId) (f : Session → Session × Advance Cleanup Unit) :
    (σ.begin id f).calls = σ.calls := by
  unfold begin
  split <;> rfl

theorem step_calls (σ : Service) (a : Act) : σ.calls.length ≤ (σ.step a).calls.length := by
  cases a with
  | ask d => exact List.length_append ▸ Nat.le_add_right _ _
  | advance m =>
    unfold step
    dsimp only
    split
    · exact Nat.le_of_eq List.length_set.symm
    · exact Nat.le_refl _
  | clean i =>
    unfold step
    dsimp only
    split
    · split <;> exact Nat.le_refl _
    · exact Nat.le_refl _
  | pass millis => exact Nat.le_refl _
  | move h connect => exact Nat.le_refl _
  | _ =>
    unfold step
    dsimp only
    split <;> simp only [calls_begin, Nat.le_refl]

/-- What follows a lenient call is what follows the strict one, but for the reply to it. -/
theorem run_ease (hn : n < σ.calls.length) (as : List Act) :
    (σ.ease n).run as = (σ.run as).ease n := by
  induction as generalizing σ with
  | nil => rfl
  | cons a as ih =>
    change ((σ.ease n).step a).run as = _
    rw [step_ease hn]
    exact ih (Nat.lt_of_lt_of_le hn (step_calls σ a))

end Service

end LanguageSessions
