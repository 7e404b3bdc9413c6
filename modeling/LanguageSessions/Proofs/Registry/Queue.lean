import LanguageSessions.Proofs.Registry.Upkeep

namespace LanguageSessions

namespace Turns

variable {t : Turns} {n : Nat}

theorem isFree_iff : t.isFree n = true ↔ t.holder = none ∧ ∀ m, t.waiting.head? = some m → m = n := by
  unfold isFree
  rw [Bool.and_eq_true, Option.isNone_iff_eq_none]
  cases t.waiting.head? <;> simp

theorem enter_free (h : t.isFree n = true) :
    (t.enter n).1 = { holder := some n, waiting := t.waiting.erase n } := by
  rw [enter, if_pos h]

theorem enter_busy (h : t.isFree n = false) :
    (n ∈ t.waiting ∧ (t.enter n).1 = t) ∨
      n ∉ t.waiting ∧ (t.enter n).1 = { t with waiting := t.waiting ++ [n] } := by
  rw [enter, if_neg (by rw [h]; exact Bool.false_ne_true)]
  by_cases hn : n ∈ t.waiting
  · exact .inl ⟨hn, by rw [if_pos (List.contains_iff_mem.mpr hn)]⟩
  · exact .inr ⟨hn, by rw [if_neg (mt List.contains_iff_mem.mp hn)]⟩

end Turns

namespace Registry

variable (r : Registry)

theorem turns_change (id : SessionId) (f : Session → Session × α) :
    (r.change id f).1.turns = r.turns := by
  unfold change
  split <;> rfl

theorem turns_kills (ids : List SessionId) :
    (ids.foldl (fun r id => r.modify id Session.kill) r).turns = r.turns :=
  List.foldlRecOn (motive := fun (t : Registry) => t.turns = r.turns) _ _ rfl fun _ ht _ _ => ht

theorem turns_evict (window now : Nat) : (r.evict window now).1.turns = r.turns := by
  unfold evict
  exact List.foldlRecOn (motive := fun (t : Registry) => t.turns = r.turns) _ _ rfl
    fun _ ht _ _ => ht

theorem turns_remove (key : SessionKey) : (r.remove key).1.turns = r.turns := by
  unfold remove
  dsimp only
  split <;> rfl

theorem turns_attachedFor? (file : String) : (r.attachedFor? file).1.turns = r.turns := by
  rcases r.attachedFor?_cases file with ⟨id, heq⟩ | heq | ⟨a, -, e, -, heq⟩ <;> rw [heq]
  rfl

theorem turns_launch (key : SessionKey) (root : String) (d : ServerDescription) (now : Nat) :
    (r.launch key root d now).1.turns = r.turns := by
  unfold launch
  rcases r.connectTo_cases key root d with ⟨f, heq⟩ | ⟨s, -, -, -, -, -, heq⟩
  · rw [heq]
  · rw [heq]
    dsimp only
    have hchange := (r.add s (d, root)).turns_change s.id
      (Handshake.start (r.add s (d, root)).host (r.add s (d, root)).processId now)
    have hadd : (r.add s (d, root)).turns = r.turns := rfl
    rw [hadd] at hchange
    generalize (r.add s (d, root)).change s.id _ = p at hchange ⊢
    obtain ⟨r', a⟩ := p
    split <;> next heq => cases heq; exact hchange

theorem turns_launched (id : SessionId) (o : Except Fault HandshakeOutcome) :
    (r.launched id o).1.turns = r.turns := by
  rcases r.launched_cases id o with ⟨f, heq, -⟩ | ⟨o', -, -, heq⟩ <;> rw [heq]
  rfl

end Registry

namespace Call

variable {r : Registry} {t : Turns}

theorem turns_disposeAll (now : Nat) (ids : List SessionId) (r : Registry) :
    (disposeAll r now ids).1.turns = r.turns := by
  induction ids generalizing r with
  | nil => rfl
  | cons id ids ih =>
    have hchange := r.turns_change id (·.dispose now)
    unfold disposeAll
    generalize r.change id (·.dispose now) = p at hchange ⊢
    obtain ⟨r', a⟩ := p
    dsimp only
    split <;> next heq => cases heq; exact (ih r').trans hchange

theorem turns_awaitAll (now : Nat) (rest : List (SessionId × Cleanup)) (r : Registry) :
    (awaitAll r now rest).1.turns = r.turns := by
  induction rest generalizing r with
  | nil => rfl
  | cons e more ih =>
    obtain ⟨id, c⟩ := e
    have hchange := r.turns_change id (c.advance now)
    unfold awaitAll
    generalize r.change id (c.advance now) = p at hchange ⊢
    obtain ⟨r', a⟩ := p
    have hrest := (ih r').trans hchange
    dsimp only
    generalize awaitAll r' now more = q at hrest ⊢
    obtain ⟨r'', rest', moved⟩ := q
    dsimp only
    split <;> exact hrest

theorem turns_clear (ids : List SessionId) (rest : List (SessionId × Cleanup)) (r : Registry) :
    (clear r ids rest).1.turns = r.turns := by
  unfold clear
  split
  · exact r.turns_kills ids
  · rfl

def Yields (t : Turns) (c : Call) (p : Registry × Advance Call Reply) : Prop :=
  p.1.turns = t.leave ∧ (Status.next c p.2).young = [] ∨
    p.1.turns = t ∧ (Status.next c p.2).young ≠ []

theorem settle_yields (c : Call) (b : Berth) (lenient : Bool) (now : Nat) (r : Registry)
    (o : Except SessionFault SessionId) : c.Yields r.turns (settle b lenient now r o) := by
  unfold settle
  left
  cases o with
  | error f => exact ⟨rfl, rfl⟩
  | ok id => cases b <;> exact ⟨rfl, rfl⟩

theorem launch_yields (c : Call) (key : SessionKey) (root : String) (d : ServerDescription)
    (b : Berth) (lenient : Bool) (now : Nat) (r : Registry) :
    c.Yields r.turns (launch r key root d b lenient now) := by
  have hlaunch := r.turns_launch key root d now
  unfold launch
  generalize r.launch key root d now = p at hlaunch ⊢
  obtain ⟨r', o⟩ := p
  dsimp only at hlaunch
  rw [← hlaunch]
  cases o with
  | error f => exact settle_yields c b lenient now r' _
  | ok made => exact .inr ⟨rfl, List.cons_ne_nil _ _⟩

theorem create_yields (c : Call) (target : Target) (lenient : Bool) (now : Nat) (r : Registry) :
    c.Yields r.turns (create r target lenient now) := by
  have hlive : (r.live? target.key).1.turns = r.turns := by rw [r.live?_eq]
  unfold create
  generalize r.live? target.key = p at hlive ⊢
  obtain ⟨r₀, found⟩ := p
  dsimp only at hlive
  rw [← hlive]
  cases found with
  | some id => exact .inl ⟨rfl, rfl⟩
  | none =>
    have hasked : (r₀.describe target).1.turns = r₀.turns := rfl
    dsimp only
    generalize r₀.describe target = q at hasked ⊢
    obtain ⟨r₁, d?⟩ := q
    dsimp only at hasked
    rw [← hasked]
    cases d? with
    | none => exact settle_yields c _ lenient now r₁ _
    | some d => exact launch_yields c _ _ d _ lenient now r₁

theorem perform_yields (w : Wish) (lenient : Bool) (now : Nat) (r : Registry) :
    (waiting w lenient).Yields r.turns (perform r w lenient now) := by
  cases w with
  | resolve owner file =>
    have hattached := r.turns_attachedFor? file
    unfold perform
    dsimp only
    generalize r.attachedFor? file = p at hattached ⊢
    obtain ⟨r', found⟩ := p
    dsimp only at hattached
    rw [← hattached]
    left
    cases found with
    | some id => exact ⟨rfl, rfl⟩
    | none =>
      dsimp only
      split <;> exact ⟨rfl, rfl⟩
  | create target => exact create_yields _ target lenient now r
  | attach key root d extensions => exact launch_yields _ key root d _ lenient now r
  | list => exact .inl ⟨rfl, rfl⟩
  | evict window => exact .inl ⟨congrArg Turns.leave (r.turns_evict window now), rfl⟩
  | restart key =>
    have hremove := r.turns_remove key
    left
    rcases restart_cases r key lenient now with ⟨r', heq, hstep⟩ | ⟨r', id, a, heq, hstep, ha⟩
    · rw [heq] at hremove
      rw [hstep]
      exact ⟨congrArg Turns.leave hremove, rfl⟩
    · rw [heq] at hremove
      rw [hstep]
      refine ⟨(Registry.turns_change _ id _).trans (congrArg Turns.leave hremove), ?_⟩
      rcases ha with rfl | ⟨k, rfl⟩ <;> rfl
  | killAll => exact .inl ⟨Registry.turns_kills _ _, rfl⟩
  | shutdownAll =>
    left
    refine ⟨(turns_clear _ _ _).trans (turns_disposeAll _ _ _), ?_⟩
    unfold perform clear
    dsimp only
    split <;> rfl

theorem opening_yields (id : SessionId) (hs : Handshake) (b : Berth) (lenient : Bool)
    (ticket now : Nat) (r : Registry) : (opening id hs b lenient).Yields r.turns
      ((opening id hs b lenient).advance ticket now r) := by
  have hchange := r.turns_change id (hs.advance now)
  unfold advance
  dsimp only
  generalize r.change id (hs.advance now) = p at hchange ⊢
  obtain ⟨r', a⟩ := p
  dsimp only at hchange
  rw [← hchange]
  split
  · next r'' o heq =>
    cases heq
    have hlaunched := r'.turns_launched id o
    generalize r'.launched id o = q at hlaunched ⊢
    obtain ⟨r'', o'⟩ := q
    dsimp only at hlaunched
    rw [← hlaunched]
    exact settle_yields _ b lenient now r'' o'
  · next heq =>
    cases heq
    exact .inr ⟨rfl, List.cons_ne_nil _ _⟩
  · next heq =>
    cases heq
    exact .inr ⟨rfl, List.cons_ne_nil _ _⟩

theorem advance_apart (c : Call) (ticket now : Nat) (r : Registry) (hyoung : c.young = [])
    (hwaits : ∀ w lenient, c ≠ waiting w lenient) :
    (c.advance ticket now r).1.turns = r.turns ∧
      (Status.next c (c.advance ticket now r).2).young = [] := by
  cases c with
  | waiting w lenient => exact absurd rfl (hwaits w lenient)
  | opening id hs b lenient => cases hyoung
  | stopping id k =>
    have hchange := r.turns_change id (k.advance now)
    unfold advance
    dsimp only
    generalize r.change id (k.advance now) = p at hchange ⊢
    obtain ⟨r', a⟩ := p
    split <;> next heq => cases heq; exact ⟨hchange, rfl⟩
  | clearing ids rest =>
    have hawait := turns_awaitAll now rest r
    unfold advance
    dsimp only
    generalize awaitAll r now rest = p at hawait ⊢
    obtain ⟨r', rest', moved⟩ := p
    split
    · refine ⟨(turns_clear ids rest' r').trans hawait, ?_⟩
      unfold clear
      split <;> rfl
    · exact ⟨hawait, rfl⟩

inductive Serves (n : Nat) (t : Turns) (c : Call) (p : Registry × Advance Call Reply) : Prop
  | waits (w : Wish) (lenient : Bool) (call : c = waiting w lenient) (busy : t.isFree n = false)
      (turns : p.1.turns = (t.enter n).1) (idle : p.2 = .idle)
  | takes (w : Wish) (lenient : Bool) (call : c = waiting w lenient) (free : t.isFree n = true)
      (yields : c.Yields { holder := some n, waiting := t.waiting.erase n } p)
  | opens (young : c.young ≠ []) (yields : c.Yields t p)
  | apart (young : c.young = []) (call : ∀ w lenient, c ≠ waiting w lenient)
      (turns : p.1.turns = t) (after : (Status.next c p.2).young = [])

theorem advance_serves (c : Call) (n now : Nat) (r : Registry) :
    c.Serves n r.turns (c.advance n now r) := by
  cases c with
  | waiting w lenient =>
    cases hfree : r.turns.isFree n with
    | false =>
      rw [advance_waits hfree]
      exact .waits w lenient rfl hfree rfl rfl
    | true =>
      rw [advance_turn hfree]
      apply Serves.takes w lenient rfl hfree
      rw [← Turns.enter_free hfree]
      exact perform_yields w lenient now _
  | opening id hs b lenient => exact .opens (List.cons_ne_nil _ _) (opening_yields id hs b lenient n now r)
  | stopping id k =>
    have hapart := advance_apart (stopping id k) n now r rfl (by rintro w lenient ⟨⟩)
    exact .apart rfl (by rintro w lenient ⟨⟩) hapart.1 hapart.2
  | clearing ids rest =>
    have hapart := advance_apart (clearing ids rest) n now r rfl (by rintro w lenient ⟨⟩)
    exact .apart rfl (by rintro w lenient ⟨⟩) hapart.1 hapart.2

end Call

namespace Service

variable {σ : Service} {n : Nat}

structure Lined (σ : Service) : Prop where
  holder : ∀ m, σ.registry.turns.holder = some m → ∃ s, σ.calls[m]? = some s ∧ s.young ≠ []
  waiting : ∀ m ∈ σ.registry.turns.waiting, ∃ w lenient,
    σ.calls[m]? = some (.running (.waiting w lenient))
  nodup : σ.registry.turns.waiting.Nodup

theorem turns_begin (σ : Service) (id : SessionId) (f : Session → Session × Advance Cleanup Unit) :
    (σ.begin id f).registry.turns = σ.registry.turns := by
  have hchange := σ.registry.turns_change id f
  unfold begin
  generalize σ.registry.change id f = p at hchange ⊢
  obtain ⟨r, a⟩ := p
  split <;> next heq => cases heq; exact hchange

theorem turns_step (σ : Service) {a : Act} (ha : ∀ n, a ≠ .advance n) :
    (σ.step a).registry.turns = σ.registry.turns := by
  cases a with
  | ask d => rfl
  | advance n => exact absurd rfl (ha n)
  | pass millis => rfl
  | move h connect => rfl
  | event id e =>
    unfold step
    dsimp only
    split <;> rfl
  | use id u =>
    unfold step
    dsimp only
    split <;> rfl
  | dispose id =>
    unfold step
    dsimp only
    split
    · exact turns_begin σ id _
    · rfl
  | shutdownAndKill id =>
    unfold step
    dsimp only
    split
    · exact turns_begin σ id _
    · rfl
  | reap i =>
    unfold step
    dsimp only
    split
    · exact turns_begin _ _ _
    · rfl
  | clean i =>
    unfold step
    dsimp only
    split
    · next id k hid =>
      have hchange := σ.registry.turns_change id (k.advance σ.now)
      generalize σ.registry.change id (k.advance σ.now) = p at hchange ⊢
      obtain ⟨r, a⟩ := p
      split <;> next heq => cases heq; exact hchange
    · rfl
  | release id =>
    unfold step
    dsimp only
    split <;> rfl

theorem step_waiting (σ : Service) (a : Act) :
    (σ.step a).registry.turns.waiting = σ.registry.turns.waiting ∨
    ∃ m, a = .advance m ∧
      (m ∉ σ.registry.turns.waiting ∧
          (σ.step a).registry.turns.waiting = σ.registry.turns.waiting ++ [m] ∨
        σ.registry.turns.isFree m = true ∧
          (σ.step a).registry.turns.waiting = σ.registry.turns.waiting.erase m) := by
  by_cases ha : ∃ m, a = .advance m
  · obtain ⟨m, rfl⟩ := ha
    by_cases hrunning : ∃ c, σ.calls[m]? = some (.running c)
    · obtain ⟨c, hc⟩ := hrunning
      rw [step_advance hc]
      dsimp only
      cases c.advance_serves m σ.now σ.registry with
      | waits w lenient call busy turns idle =>
        rw [turns]
        rcases Turns.enter_busy busy with ⟨-, heq⟩ | ⟨hm, heq⟩
        · exact .inl (congrArg Turns.waiting heq)
        · exact .inr ⟨m, rfl, .inl ⟨hm, congrArg Turns.waiting heq⟩⟩
      | takes w lenient call free yields =>
        refine .inr ⟨m, rfl, .inr ⟨free, ?_⟩⟩
        rcases yields with ⟨turns, -⟩ | ⟨turns, -⟩ <;> exact congrArg Turns.waiting turns
      | opens young yields =>
        left
        rcases yields with ⟨turns, -⟩ | ⟨turns, -⟩
        · rw [turns]
          rfl
        · rw [turns]
      | apart young call turns after => exact .inl (congrArg Turns.waiting turns)
    · rw [step_over fun c hc => hrunning ⟨c, hc⟩]
      exact .inl rfl
  · exact .inl (congrArg Turns.waiting (turns_step σ fun m hm => ha ⟨m, hm⟩))

theorem Lined.nodup_step (hl : σ.Lined) (a : Act) :
    (σ.step a).registry.turns.waiting.Nodup := by
  rcases step_waiting σ a with hsame | ⟨m, -, ⟨hnew, hline⟩ | ⟨-, htake⟩⟩
  · exact hsame ▸ hl.nodup
  · rw [hline]
    exact List.nodup_append_comm.mp (List.nodup_cons.mpr ⟨hnew, hl.nodup⟩)
  · rw [htake]
    exact hl.nodup.erase m

theorem next_serves {c : Call} (hc : σ.calls[n]? = some (.running c)) :
    ∃ p, c.Serves n σ.registry.turns p ∧ (σ.step (.advance n)).registry.turns = p.1.turns ∧
      (σ.step (.advance n)).calls[n]? = some (.next c p.2) := by
  refine ⟨_, c.advance_serves n σ.now σ.registry, ?_, ?_⟩
  · rw [step_advance hc]
  · rw [step_advance hc]
    exact List.getElem?_set_self (List.getElem?_eq_some_iff.mp hc).1

theorem Lined.holder_advance (h : σ.Sound) (hl : σ.Lined) {c : Call}
    (hc : σ.calls[n]? = some (.running c)) :
    ∀ m, (σ.step (.advance n)).registry.turns.holder = some m →
      ∃ s, (σ.step (.advance n)).calls[m]? = some s ∧ s.young ≠ [] := by
  obtain ⟨p, hserves, hturns, hnext⟩ := next_serves hc
  -- one that has the turn already keeps it, as it is not this one
  have hkeeps : c.young = [] → ∀ m, σ.registry.turns.holder = some m →
      ∃ s, (σ.step (.advance n)).calls[m]? = some s ∧ s.young ≠ [] := by
    intro hold m hm
    obtain ⟨s, hs, hyoung⟩ := hl.holder m hm
    refine ⟨s, calls_step h hs ?_, hyoung⟩
    rintro ⟨⟩
    rw [hc, Option.some.injEq] at hs
    exact hyoung (hs ▸ hold)
  rw [hturns]
  cases hserves with
  | waits w lenient call busy turns idle =>
    rw [turns]
    rcases Turns.enter_busy busy with ⟨-, heq⟩ | ⟨-, heq⟩ <;> rw [heq] <;> exact hkeeps (call ▸ rfl)
  | takes w lenient call free yields =>
    rcases yields with ⟨turns, -⟩ | ⟨turns, hyoung⟩ <;> rw [turns]
    · rintro m ⟨⟩
    · rintro m ⟨⟩
      exact ⟨_, hnext, hyoung⟩
  | opens young yields =>
    rcases yields with ⟨turns, -⟩ | ⟨turns, hyoung⟩ <;> rw [turns]
    · rintro m ⟨⟩
    · rw [h.turn n _ hc young]
      rintro m ⟨⟩
      exact ⟨_, hnext, hyoung⟩
  | apart young call turns after =>
    rw [turns]
    exact hkeeps young

theorem Lined.waiting_advance (h : σ.Sound) (hl : σ.Lined) {c : Call}
    (hc : σ.calls[n]? = some (.running c)) :
    ∀ m ∈ (σ.step (.advance n)).registry.turns.waiting, ∃ w lenient,
      (σ.step (.advance n)).calls[m]? = some (.running (.waiting w lenient)) := by
  obtain ⟨p, hserves, hturns, hnext⟩ := next_serves hc
  have hkeeps : ∀ m ∈ σ.registry.turns.waiting, m ≠ n → ∃ w lenient,
      (σ.step (.advance n)).calls[m]? = some (.running (.waiting w lenient)) := by
    intro m hm hne
    obtain ⟨w, lenient, hs⟩ := hl.waiting m hm
    exact ⟨w, lenient, calls_step h hs fun heq => hne (Act.advance.inj heq).symm⟩
  -- a call that is past its turn does not stand in the queue
  have hpast : (∀ w lenient, c ≠ .waiting w lenient) → ∀ m ∈ σ.registry.turns.waiting,
      ∃ w lenient, (σ.step (.advance n)).calls[m]? = some (.running (.waiting w lenient)) := by
    intro hnot m hm
    refine hkeeps m hm ?_
    rintro rfl
    obtain ⟨w, lenient, hs⟩ := hl.waiting m hm
    rw [hc, Option.some.injEq, Status.running.injEq] at hs
    exact hnot w lenient hs
  rw [hturns]
  cases hserves with
  | waits w lenient call busy turns idle =>
    subst call
    rw [idle] at hnext
    have hold : ∀ m ∈ σ.registry.turns.waiting ++ [n], ∃ w' lenient',
        (σ.step (.advance n)).calls[m]? = some (.running (.waiting w' lenient')) := by
      intro m hm
      by_cases hmn : m = n
      · exact ⟨w, lenient, hmn ▸ hnext⟩
      · exact hkeeps m ((List.mem_append.mp hm).resolve_right (by simpa using hmn)) hmn
    rw [turns]
    rcases Turns.enter_busy busy with ⟨-, heq⟩ | ⟨-, heq⟩ <;> rw [heq]
    · exact fun m hm => hold m (List.mem_append_left _ hm)
    · exact hold
  | takes w lenient call free yields =>
    have hqueue : p.1.turns.waiting = σ.registry.turns.waiting.erase n := by
      rcases yields with ⟨turns, -⟩ | ⟨turns, -⟩ <;> rw [turns]
      rfl
    rw [hqueue]
    intro m hm
    obtain ⟨hne, hm⟩ := hl.nodup.mem_erase_iff.mp hm
    exact hkeeps m hm hne
  | opens young yields =>
    have hqueue : p.1.turns.waiting = σ.registry.turns.waiting := by
      rcases yields with ⟨turns, -⟩ | ⟨turns, -⟩ <;> rw [turns]
      rfl
    rw [hqueue]
    exact hpast (by rintro w lenient rfl; exact young rfl)
  | apart young call turns after =>
    rw [turns]
    exact hpast call

theorem Lined.step (h : σ.Sound) (hl : σ.Lined) (a : Act) : (σ.step a).Lined := by
  by_cases ha : ∃ n c, a = .advance n ∧ σ.calls[n]? = some (.running c)
  · obtain ⟨n, c, rfl, hc⟩ := ha
    exact ⟨hl.holder_advance h hc, hl.waiting_advance h hc, hl.nodup_step _⟩
  · have hturns : (σ.step a).registry.turns = σ.registry.turns := by
      by_cases hadvance : ∃ n, a = .advance n
      · obtain ⟨n, rfl⟩ := hadvance
        rw [step_over fun c hc => ha ⟨n, c, rfl, hc⟩]
      · exact turns_step σ fun n hn => hadvance ⟨n, hn⟩
    have hcalls : ∀ (m : Nat) c, σ.calls[m]? = some (.running c) →
        (σ.step a).calls[m]? = some (.running c) :=
      fun m c hm => calls_step h hm fun heq => ha ⟨m, c, heq, hm⟩
    refine ⟨?_, ?_, hturns ▸ hl.nodup⟩
    · rw [hturns]
      intro m hm
      obtain ⟨s, hs, hyoung⟩ := hl.holder m hm
      cases s with
      | running c => exact ⟨_, hcalls m c hs, hyoung⟩
      | replied reply => exact absurd rfl hyoung
    · rw [hturns]
      intro m hm
      obtain ⟨w, lenient, hs⟩ := hl.waiting m hm
      exact ⟨w, lenient, hcalls m _ hs⟩

theorem Lined.new (r : Registry) : (new r).Lined :=
  ⟨by rintro m ⟨⟩, by rintro m ⟨⟩, List.nodup_nil⟩

theorem Lined.run (h : σ.Sound) (hl : σ.Lined) (as : List Act) : (σ.run as).Lined := by
  induction as generalizing σ with
  | nil => exact hl
  | cons a as ih => exact ih (step_leads h a).sound (hl.step h a)

theorem step_queue {ahead behind : List Nat}
    (hq : σ.registry.turns.waiting = ahead ++ n :: behind) (a : Act) :
    (a = .advance n ∧ σ.registry.turns.isFree n = true) ∨
    ∃ ahead' behind', (σ.step a).registry.turns.waiting = ahead' ++ n :: behind' ∧
      ahead' <:+ ahead ∧ behind <+: behind' := by
  rcases step_waiting σ a with hsame | ⟨m, rfl, ⟨-, hline⟩ | ⟨hfree, htake⟩⟩
  · exact .inr ⟨ahead, behind, hsame.trans hq, List.suffix_rfl, List.prefix_rfl⟩
  · right
    refine ⟨ahead, behind ++ [m], ?_, List.suffix_rfl, List.prefix_append _ _⟩
    rw [hline, hq, List.append_assoc, List.cons_append]
  · obtain ⟨-, hhead⟩ := Turns.isFree_iff.mp hfree
    cases ahead with
    | nil =>
      left
      obtain rfl : n = m := hhead n (by rw [hq]; rfl)
      exact ⟨rfl, hfree⟩
    | cons x ahead =>
      right
      obtain rfl : x = m := hhead x (by rw [hq]; rfl)
      refine ⟨ahead, behind, ?_, List.suffix_cons x ahead, List.prefix_rfl⟩
      rw [htake, hq, List.cons_append, List.erase_cons_head]

/-- Nobody passes a call by that waits in the queue. -/
theorem run_queue {ahead behind : List Nat}
    (hq : σ.registry.turns.waiting = ahead ++ n :: behind) (as : List Act) :
    (∃ bs cs, as = bs ++ .advance n :: cs ∧ (σ.run bs).registry.turns.isFree n = true) ∨
    ∃ ahead' behind', (σ.run as).registry.turns.waiting = ahead' ++ n :: behind' ∧
      ahead' <:+ ahead ∧ behind <+: behind' := by
  induction as generalizing σ ahead behind with
  | nil => exact .inr ⟨ahead, behind, hq, List.suffix_rfl, List.prefix_rfl⟩
  | cons a as ih =>
    rcases step_queue hq a with ⟨rfl, hfree⟩ | ⟨ahead', behind', hq', hahead, hbehind⟩
    · exact .inl ⟨[], as, rfl, hfree⟩
    · rcases ih hq' with ⟨bs, cs, rfl, hfree⟩ | ⟨ahead'', behind'', hq'', hahead', hbehind'⟩
      · exact .inl ⟨a :: bs, cs, rfl, hfree⟩
      · exact .inr ⟨ahead'', behind'', hq'', hahead'.trans hahead, hbehind.trans hbehind'⟩

theorem Lined.waits (hl : σ.Lined) {w : Wish} {lenient : Bool}
    (hc : σ.calls[n]? = some (.running (.waiting w lenient)))
    (hbusy : σ.registry.turns.isFree n = false) :
    (∃ ahead behind, (σ.step (.advance n)).registry.turns.waiting = ahead ++ n :: behind) ∧
    ((∃ m id hs b l, σ.registry.turns.holder = some m ∧
        σ.calls[m]? = some (.running (.opening id hs b l))) ∨
      σ.registry.turns.holder = none ∧ ∃ m w' l, m ≠ n ∧
        σ.registry.turns.waiting.head? = some m ∧
        σ.calls[m]? = some (.running (.waiting w' l))) := by
  constructor
  · apply List.append_of_mem
    rw [step_advance hc, Call.advance_waits hbusy]
    rcases Turns.enter_busy hbusy with ⟨hn, heq⟩ | ⟨-, heq⟩ <;> dsimp only <;> rw [heq]
    · exact hn
    · exact List.mem_append_right _ (List.mem_singleton.mpr rfl)
  · cases hholder : σ.registry.turns.holder with
    | some m =>
      obtain ⟨s, hs, hyoung⟩ := hl.holder m hholder
      left
      cases s with
      | replied reply => exact absurd rfl hyoung
      | running c =>
        cases c with
        | opening id hs' b l => exact ⟨m, id, hs', b, l, rfl, hs⟩
        | _ => exact absurd rfl hyoung
    | none =>
      have hhead : ¬ ∀ m, σ.registry.turns.waiting.head? = some m → m = n := by
        intro hhead
        rw [Turns.isFree_iff.mpr ⟨hholder, hhead⟩] at hbusy
        cases hbusy
      push Not at hhead
      obtain ⟨m, hm, hne⟩ := hhead
      obtain ⟨w', l, hs⟩ := hl.waiting m (List.mem_of_head? hm)
      exact .inr ⟨rfl, m, w', l, hne, hm, hs⟩

end Service

end LanguageSessions
