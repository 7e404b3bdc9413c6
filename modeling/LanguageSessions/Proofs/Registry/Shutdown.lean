import LanguageSessions.Proofs.Registry.Diary
import LanguageSessions.Proofs.Registry.Queue
import LanguageSessions.Proofs.Session.Patience
import LanguageSessions.Proofs.Session.Waits

namespace LanguageSessions

namespace Registry

variable {r r' : Registry}

def Patient (r : Registry) (patience : Nat) (id : SessionId) : Prop :=
  ∃ s, r.session? id = some s ∧ s.timing.patience ≤ patience

def Over (r : Registry) (id : SessionId) : Prop := ∃ s, r.session? id = some s ∧ s.Ended

structure Awaits (r : Registry) (patience now k time : Nat) (e : SessionId × Cleanup) : Prop where
  patient : r.Patient patience e.1
  timely : e.2.Timely patience now
  within : e.2.Within k time

theorem Later.ended (h : r.Later r') {id : SessionId} (hid : r.Over id) : r'.Over id := by
  obtain ⟨s, hs, hended⟩ := hid
  obtain ⟨t, ht, hst⟩ := h.sessions id s hs
  exact ⟨t, ht, hst.ended hended⟩

variable {patience now k time : Nat} {e : SessionId × Cleanup}

theorem Later.patient (h : r.Later r') {id : SessionId} (hid : r.Patient patience id) :
    r'.Patient patience id := by
  obtain ⟨s, hs, hpatience⟩ := hid
  obtain ⟨t, ht, hst⟩ := h.sessions id s hs
  exact ⟨t, ht, hst.timing ▸ hpatience⟩

theorem Awaits.later (ha : r.Awaits patience now k time e) (h : r.Later r') {now' : Nat}
    (hnow : now ≤ now') : r'.Awaits patience now' k time e :=
  ⟨h.patient ha.patient, ha.timely.later hnow, ha.within⟩

theorem kills_over (ids : List SessionId) (r : Registry)
    (hids : ∀ id ∈ ids, ∃ s, r.session? id = some s) :
    ∀ id ∈ ids, (ids.foldl (fun r id => r.modify id Session.kill) r).Over id := by
  induction ids generalizing r with
  | nil => rintro id ⟨⟩
  | cons x ids ih =>
    have hkilled := Later.modifies r x (f := Session.kill) fun s => .kill s
    intro id hid
    rcases List.mem_cons.mp hid with rfl | hid
    · obtain ⟨s, hs⟩ := hids id List.mem_cons_self
      have hover : (r.modify id Session.kill).Over id := by
        refine ⟨s.kill, ?_, s.kill_ended⟩
        rw [session?_modify _ _ _ _ fun s hs => (Session.Later.kill s).id.trans hs, if_pos rfl, hs]
        rfl
      exact (Later.kills _ ids).ended hover
    · refine ih (r.modify x Session.kill) (fun y hy => ?_) id hid
      obtain ⟨s, hs⟩ := hids y (List.mem_cons_of_mem x hy)
      obtain ⟨t, ht, -⟩ := hkilled.sessions y s hs
      exact ⟨t, ht⟩

end Registry

namespace Call

open Registry (Later)

variable {r : Registry} {patience now k time : Nat}

theorem disposeAll_awaits (now : Nat) (ids : List SessionId) (r : Registry) :
    ∀ e ∈ (disposeAll r now ids).2, e.1 ∈ ids ∧
      (∀ s, r.session? e.1 = some s → s.cleanedUp = false) ∧
      ∀ patience, r.Patient patience e.1 →
        (disposeAll r now ids).1.Awaits patience now 2 (now + patience) e := by
  induction ids generalizing r with
  | nil => rintro e ⟨⟩
  | cons id ids ih =>
    have hdisposed := Later.change r id fun s => s.later_dispose now
    have hrest := ih (r.change id (·.dispose now)).1
    have hbegun : ∀ c, (r.change id (·.dispose now)).2 = some (.on c) →
        ∃ s, r.session? id = some s ∧ (s.dispose now).2 = .on c := by
      intro c hc
      cases hs : r.session? id with
      | none =>
        rw [Registry.change_of_none hs] at hc
        cases hc
      | some s =>
        rw [Registry.change_of_some hs, Option.some.injEq] at hc
        exact ⟨s, rfl, hc⟩
    unfold disposeAll
    generalize r.change id (·.dispose now) = p at hdisposed hrest hbegun ⊢
    obtain ⟨r', a⟩ := p
    have hlater := later_disposeAll now ids r'
    -- what is waited for of the others is so since before
    have hothers : ∀ e ∈ (disposeAll r' now ids).2, e.1 ∈ id :: ids ∧
        (∀ s, r.session? e.1 = some s → s.cleanedUp = false) ∧
        ∀ patience, r.Patient patience e.1 →
          (disposeAll r' now ids).1.Awaits patience now 2 (now + patience) e := by
      intro e he
      obtain ⟨hmem, hunclean, hawaits⟩ := hrest e he
      refine ⟨List.mem_cons_of_mem id hmem, fun s hs => ?_,
        fun patience hp => hawaits patience (hdisposed.patient hp)⟩
      obtain ⟨t, ht, hst⟩ := hdisposed.sessions e.1 s hs
      have hnot := hunclean t ht
      by_contra hclean
      rw [hst.cleanedUp (Bool.eq_true_of_not_eq_false hclean)] at hnot
      cases hnot
    split
    · next r'' c heq =>
      cases heq
      obtain ⟨s, hs, hon⟩ := hbegun c rfl
      intro e he
      rcases List.mem_cons.mp he with rfl | he
      · refine ⟨List.mem_cons_self, fun t ht => ?_, fun patience hp => ?_⟩
        · rw [hs, Option.some.injEq] at ht
          exact ht ▸ Session.unclean_of_dispose hon
        · obtain ⟨t, ht, hpatience⟩ := hp
          rw [hs, Option.some.injEq] at ht
          have htimely := Session.dispose_timely (ht ▸ hpatience) hon
          exact ⟨(hdisposed.trans hlater).patient ⟨s, hs, ht ▸ hpatience⟩, htimely,
            .of_timely c.rank_le htimely⟩
      · exact hothers e he
    · next heq =>
      cases heq
      exact hothers

theorem awaitAll_awaits (rest : List (SessionId × Cleanup)) (r : Registry)
    (hrest : ∀ e ∈ rest, r.Awaits patience now k time e) :
    ∀ e ∈ (awaitAll r now rest).2.1, (awaitAll r now rest).1.Awaits patience now k time e ∧
      (time ≤ now → e.2.rank < k) := by
  induction rest generalizing r with
  | nil => rintro e ⟨⟩
  | cons e more ih =>
    obtain ⟨id, c⟩ := e
    obtain ⟨⟨s, hs, hpatience⟩, htimely, hwithin⟩ := hrest _ List.mem_cons_self
    have hcleaned := Later.change r id (c.later_advance now)
    have hnears : ∃ a, (r.change id (c.advance now)).2 = some a ∧ c.Nears patience now a :=
      ⟨(c.advance now s).2, by rw [Registry.change_of_some hs],
        Cleanup.advance_nears htimely hpatience⟩
    have hmore := ih (r.change id (c.advance now)).1 fun e he =>
      (hrest e (List.mem_cons_of_mem _ he)).later hcleaned (Nat.le_refl now)
    unfold awaitAll
    generalize r.change id (c.advance now) = p at hcleaned hnears hmore ⊢
    obtain ⟨r', a'⟩ := p
    obtain ⟨a, rfl, hnears⟩ := hnears
    have hlater := hcleaned.trans (later_awaitAll now more r')
    have hpatient : (awaitAll r' now more).1.Patient patience id :=
      hlater.patient ⟨s, hs, hpatience⟩
    dsimp only at hmore ⊢
    generalize awaitAll r' now more = q at hmore hpatient ⊢
    obtain ⟨r'', rest', moved⟩ := q
    dsimp only at hmore hpatient ⊢
    cases a with
    | idle =>
      cases hnears with
      | waits early =>
        intro e he
        rcases List.mem_cons.mp he with rfl | he
        · exact ⟨⟨hpatient, htimely, hwithin⟩, hwithin.past early⟩
        · exact hmore e he
    | on c' =>
      obtain ⟨htimely', hwithin', hpast⟩ := hnears.within hwithin
      intro e he
      rcases List.mem_cons.mp he with rfl | he
      · exact ⟨⟨hpatient, htimely', hwithin'⟩, hpast⟩
      · exact hmore e he
    | done u => exact hmore

end Call

namespace Service

open Registry (Later)

variable {σ τ : Service} {n : Nat} {ids : List SessionId} {patience k time : Nat}

inductive Clears (τ : Service) (n : Nat) (ids : List SessionId) (patience k time : Nat) : Prop
  | waits (rest : List (SessionId × Cleanup))
      (call : τ.calls[n]? = some (.running (.clearing ids rest))) (some : rest ≠ [])
      (known : ∀ id ∈ ids, ∃ s, τ.registry.session? id = .some s)
      (awaits : ∀ e ∈ rest, τ.registry.Awaits patience τ.now k time e)
  | done (reply : τ.reply? n = some .done) (ended : ∀ id ∈ ids, τ.registry.Over id)

theorem clear_clears {c : Call} (hc : σ.calls[n]? = some (.running c)) (r : Registry)
    {rest : List (SessionId × Cleanup)} (known : ∀ id ∈ ids, ∃ s, r.session? id = some s)
    (awaits : ∀ e ∈ rest, r.Awaits patience σ.now k time e) (given : List (SessionKey × SessionId)) :
    Clears
      { σ with
        registry := (Call.clear r ids rest).1
        calls := σ.calls.set n (.next c (Call.clear r ids rest).2)
        given := given } n ids patience k time := by
  unfold Call.clear
  split
  · exact .done (reply?_set hc _ _ _) (Registry.kills_over ids r known)
  · next hrest =>
    refine .waits rest ?_ (by simpa using hrest) known awaits
    exact List.getElem?_set_self (List.getElem?_eq_some_iff.mp hc).1

theorem clears_advance {rest : List (SessionId × Cleanup)}
    (hc : σ.calls[n]? = some (.running (.clearing ids rest))) (hsome : rest ≠ [])
    (hknown : ∀ id ∈ ids, ∃ s, σ.registry.session? id = some s)
    (hawaits : ∀ e ∈ (Call.awaitAll σ.registry σ.now rest).2.1,
      (Call.awaitAll σ.registry σ.now rest).1.Awaits patience σ.now k time e) :
    Clears (σ.step (.advance n)) n ids patience k time := by
  have hlater := Call.later_awaitAll σ.now rest σ.registry
  have hidle := Call.awaitAll_idle σ.registry σ.now rest
  rw [step_advance hc]
  unfold Call.advance
  dsimp only
  generalize Call.awaitAll σ.registry σ.now rest = p at hlater hawaits hidle ⊢
  obtain ⟨r', rest', moved⟩ := p
  dsimp only at hlater hawaits hidle ⊢
  have hknown' : ∀ id ∈ ids, ∃ s, r'.session? id = some s := by
    intro id hid
    obtain ⟨s, hs⟩ := hknown id hid
    obtain ⟨t, ht, -⟩ := hlater.sessions id s hs
    exact ⟨t, ht⟩
  cases moved with
  | true => exact clear_clears hc r' hknown' hawaits _
  | false =>
    rw [hidle rfl] at hawaits
    refine .waits rest ?_ hsome hknown' hawaits
    exact List.getElem?_set_self (List.getElem?_eq_some_iff.mp hc).1

theorem Clears.step (h : τ.Sound) (hc : Clears τ n ids patience k time) (a : Act) :
    Clears (τ.step a) n ids patience k time := by
  cases hc with
  | done reply ended =>
    refine .done (reply?_step h reply a) fun id hid => ?_
    obtain ⟨s, hs, hended⟩ := ended id hid
    obtain ⟨t, ht, hst⟩ := step_later τ a hs
    exact ⟨t, ht, hst.ended hended⟩
  | waits rest call some known awaits =>
    by_cases ha : a = .advance n
    · subst ha
      exact clears_advance call some known fun e he => (Call.awaitAll_awaits rest _ awaits e he).1
    · refine .waits rest (calls_step h call ha) some (fun id hid => ?_) fun e he => ?_
      · obtain ⟨s, hs⟩ := known id hid
        obtain ⟨t, ht, -⟩ := step_later τ a hs
        exact ⟨t, ht⟩
      · obtain ⟨⟨s, hs, hpatience⟩, timely, within⟩ := awaits e he
        obtain ⟨t, ht, hst⟩ := step_later τ a hs
        exact ⟨⟨t, ht, hst.timing ▸ hpatience⟩, timely.later (now_le_step τ a), within⟩

theorem Clears.run (h : τ.Sound) (hc : Clears τ n ids patience k time) (as : List Act) :
    Clears (τ.run as) n ids patience k time := by
  induction as generalizing τ with
  | nil => exact hc
  | cons a as ih => exact ih (step_leads h a).sound (hc.step h a)

theorem Clears.passes (h : τ.Sound) (hc : Clears τ n ids patience (k + 1) time)
    (htime : time ≤ τ.now) :
    Clears (τ.step (.advance n)) n ids patience k (τ.now + patience) := by
  cases hc with
  | done reply ended =>
    have hdone : Clears τ n ids patience k (τ.now + patience) := .done reply ended
    exact hdone.step h _
  | waits rest call some known awaits =>
    refine clears_advance call some known fun e he => ?_
    obtain ⟨hawaits, hrank⟩ := Call.awaitAll_awaits rest _ awaits e he
    exact ⟨hawaits.patient, hawaits.timely,
      .of_timely (Nat.le_of_lt_succ (hrank htime)) hawaits.timely⟩

theorem Clears.nothing (hc : Clears τ n ids patience 0 time) : τ.reply? n = some .done := by
  cases hc with
  | done reply ended => exact reply
  | waits rest call some known awaits =>
    obtain ⟨e, he⟩ := List.exists_mem_of_ne_nil rest some
    have hpos := e.2.rank_pos
    rcases (awaits e he).within with hlt | ⟨heq, -⟩
    · exact absurd hlt (Nat.not_lt_zero _)
    · exact absurd heq (Nat.ne_of_gt hpos)

def passed : List Act → Nat
  | [] => 0
  | .pass millis :: as => millis + passed as
  | _ :: as => passed as

theorem passed_le (σ : Service) (as : List Act) : σ.now + passed as ≤ (σ.run as).now := by
  induction as generalizing σ with
  | nil => exact Nat.le_refl _
  | cons a as ih =>
    have hrest := ih (σ.step a)
    cases a with
    | pass millis => exact (Nat.add_assoc _ _ _).symm.trans_le hrest
    | _ => exact (Nat.add_le_add_right (now_le_step σ _) _).trans hrest

theorem Clears.spells (h : τ.Sound) (hc : Clears τ n ids patience k time)
    (htime : time ≤ τ.now + patience) (spells : List (List Act)) (hk : k ≤ spells.length)
    (hspells : ∀ as ∈ spells, patience ≤ passed as) :
    (τ.run (spells.flatMap (· ++ [.advance n]))).reply? n = some .done := by
  induction spells generalizing τ k time with
  | nil =>
    obtain rfl := Nat.le_zero.mp hk
    exact hc.nothing
  | cons as spells ih =>
    cases k with
    | zero => exact reply?_run h hc.nothing _
    | succ k =>
      have hsound := run_sound h as
      have hlate : time ≤ (τ.run as).now := by
        have hpassed := hspells as List.mem_cons_self
        have hnow := passed_le τ as
        omega
      have hnext := (hc.run h as).passes hsound hlate
      have hnow := now_le_step (τ.run as) (.advance n)
      rw [List.flatMap_cons, run_append, run_append]
      exact ih (step_leads hsound (.advance n)).sound hnext (Nat.add_le_add_right hnow patience)
        (Nat.le_of_succ_le_succ hk) fun bs hbs => hspells bs (List.mem_cons_of_mem as hbs)

theorem turn_clears (h : σ.Sound) {lenient : Bool}
    (hc : σ.calls[n]? = some (.running (.waiting .shutdownAll lenient)))
    (hfree : σ.registry.turns.isFree n = true) :
    (σ.step (.advance n)).registry.tables = {} ∧
    (∀ ids rest, (σ.step (.advance n)).calls[n]? = some (.running (.clearing ids rest)) →
      ids = σ.registry.registered ∧
        ∀ e ∈ rest, e.1 ∈ ids ∧ ∀ s, σ.registry.session? e.1 = some s → s.cleanedUp = false) ∧
    ∀ patience, (∀ id ∈ σ.registry.registered, σ.registry.Patient patience id) →
      Clears (σ.step (.advance n)) n σ.registry.registered patience 2 (σ.now + patience) := by
  let r : Registry :=
    { σ.registry with tables := {}, turns := (σ.registry.turns.enter n).1.leave }
  have hperformed : (Call.waiting .shutdownAll lenient).advance n σ.now σ.registry =
      Call.clear (Call.disposeAll r σ.now σ.registry.registered).1 σ.registry.registered
        (Call.disposeAll r σ.now σ.registry.registered).2 := Call.advance_turn hfree _ _ _
  have hsame : ∀ id, r.session? id = σ.registry.session? id := fun _ => rfl
  have hbegun := Call.disposeAll_awaits σ.now σ.registry.registered r
  have hlater := Call.later_disposeAll σ.now σ.registry.registered r
  have htables := Call.tables_shutdownAll
    { σ.registry with turns := (σ.registry.turns.enter n).1 } lenient σ.now
  rw [← Call.advance_turn hfree, hperformed] at htables
  have hknown : ∀ id ∈ σ.registry.registered, ∃ s,
      (Call.disposeAll r σ.now σ.registry.registered).1.session? id = some s := by
    intro id hid
    have hheld := (h.registry.mem_registered id).mp hid
    obtain ⟨s, hs⟩ := (h.registry.numbered id).mpr
      (h.registry.announced_known id (h.registry.held_announced id hheld))
    obtain ⟨t, ht, -⟩ := hlater.sessions id s hs
    exact ⟨t, ht⟩
  rw [step_advance hc, hperformed]
  refine ⟨htables, ?_, fun patience hpatient => clear_clears hc _ hknown (fun e he => ?_) _⟩
  · intro ids rest hrest
    dsimp only at hrest
    rw [List.getElem?_set_self (List.getElem?_eq_some_iff.mp hc).1, Option.some.injEq] at hrest
    unfold Call.clear at hrest
    split at hrest
    · cases hrest
    · cases hrest
      exact ⟨rfl, fun e he => ⟨(hbegun e he).1, (hbegun e he).2.1⟩⟩
  · obtain ⟨hmem, -, hawaits⟩ := hbegun e he
    exact hawaits patience (hpatient e.1 hmem)

theorem exists_patient (r : Registry) (ids : List SessionId)
    (hids : ∀ id ∈ ids, ∃ s, r.session? id = some s) :
    ∃ patience, ∀ id ∈ ids, r.Patient patience id := by
  induction ids with
  | nil => exact ⟨0, by rintro id ⟨⟩⟩
  | cons x ids ih =>
    obtain ⟨s, hs⟩ := hids x List.mem_cons_self
    obtain ⟨patience, hrest⟩ := ih fun id hid => hids id (List.mem_cons_of_mem x hid)
    refine ⟨max s.timing.patience patience, fun id hid => ?_⟩
    rcases List.mem_cons.mp hid with rfl | hid
    · exact ⟨s, hs, Nat.le_max_left _ _⟩
    · obtain ⟨t, ht, hpatience⟩ := hrest id hid
      exact ⟨t, ht, hpatience.trans (Nat.le_max_right _ _)⟩

/-- How a registry in use shuts all of its sessions down. -/
structure ShutsDown (σ : Service) (n : Nat) : Prop where
  waits : σ.registry.turns.isFree n = false →
    (∃ ahead behind, (σ.step (.advance n)).registry.turns.waiting = ahead ++ n :: behind) ∧
    ((∃ m id hs b l, σ.registry.turns.holder = some m ∧
        σ.calls[m]? = some (.running (.opening id hs b l))) ∨
      σ.registry.turns.holder = none ∧ ∃ m w l, m ≠ n ∧
        σ.registry.turns.waiting.head? = some m ∧ σ.calls[m]? = some (.running (.waiting w l)))
  /-- Nobody who came later gets the turn before it. -/
  order : ∀ ahead behind, σ.registry.turns.waiting = ahead ++ n :: behind → ∀ as,
    (∃ bs cs, as = bs ++ .advance n :: cs ∧ (σ.run bs).registry.turns.isFree n = true) ∨
    ∃ ahead' behind', (σ.run as).registry.turns.waiting = ahead' ++ n :: behind' ∧
      ahead' <:+ ahead ∧ behind <+: behind'
  takes : σ.registry.turns.isFree n = true →
    (σ.step (.advance n)).registry.tables = {} ∧
    ∀ ids rest, (σ.step (.advance n)).calls[n]? = some (.running (.clearing ids rest)) →
      ids = σ.registry.registered ∧
        ∀ e ∈ rest, e.1 ∈ ids ∧ ∀ s, σ.registry.session? e.1 = some s → s.cleanedUp = false
  returns : σ.registry.turns.isFree n = true → ∀ patience,
    (∀ id ∈ σ.registry.registered, ∃ s, σ.registry.session? id = some s ∧
      s.timing.patience ≤ patience) →
    ∀ spells : List (List Act), 2 ≤ spells.length → (∀ as ∈ spells, patience ≤ passed as) →
      ((σ.step (.advance n)).run (spells.flatMap (· ++ [.advance n]))).reply? n = some .done
  ends : σ.registry.turns.isFree n = true → ∀ as reply,
    ((σ.step (.advance n)).run as).reply? n = some reply → reply = .done ∧
      ∀ id ∈ σ.registry.registered, ∃ s,
        ((σ.step (.advance n)).run as).registry.session? id = some s ∧
        s.state = .terminated ∧ s.connection.channel.processAlive = false

theorem shutsDown (h : σ.Sound) (hl : σ.Lined) {lenient : Bool}
    (hc : σ.calls[n]? = some (.running (.waiting .shutdownAll lenient))) : σ.ShutsDown n where
  waits hbusy := hl.waits hc hbusy
  order ahead behind hq as := run_queue hq as
  takes hfree := by
    obtain ⟨htables, hrest, -⟩ := turn_clears h hc hfree
    exact ⟨htables, hrest⟩
  returns hfree patience hpatient spells hlen hspells := by
    obtain ⟨-, -, hclears⟩ := turn_clears h hc hfree
    have hnow := now_le_step σ (.advance n)
    exact (hclears patience hpatient).spells (step_leads h (.advance n)).sound
      (Nat.add_le_add_right hnow patience) spells hlen hspells
  ends hfree as reply hreply := by
    obtain ⟨-, -, hclears⟩ := turn_clears h hc hfree
    obtain ⟨patience, hpatient⟩ := exists_patient σ.registry σ.registry.registered fun id hid => by
      have hheld := (h.registry.mem_registered id).mp hid
      exact (h.registry.numbered id).mpr
        (h.registry.announced_known id (h.registry.held_announced id hheld))
    cases (hclears patience hpatient).run (step_leads h (.advance n)).sound as with
    | done hdone ended =>
      rw [hdone, Option.some.injEq] at hreply
      exact ⟨hreply.symm, ended⟩
    | waits rest call some known awaits =>
      rw [reply?, call] at hreply
      cases hreply

end Service

end LanguageSessions
