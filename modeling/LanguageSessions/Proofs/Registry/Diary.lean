import LanguageSessions.Proofs.Registry.Cleanups
import LanguageSessions.Proofs.Registry.Eviction
import LanguageSessions.Proofs.Registry.Reuse

/-!
A record of who was given out when, and of who was evicted. It runs beside a service in use, which
never reads it. The last uses in the tables always agree with it (`Diary.Kept.run`), so an eviction
takes out just the sessions that were last given out too long ago.
-/
namespace LanguageSessions

namespace Service

variable {σ : Service}

inductive Visits (σ τ : Service) : Prop where
  | keeps (hgiven : τ.given = σ.given)
    (huses : ∀ e ∈ τ.registry.tables.lastUse, e ∈ σ.registry.tables.lastUse)
  | visits (key : SessionKey) (id : SessionId) (hgiven : τ.given = σ.given ++ [(key, id)])
    (huses : τ.registry.tables.lastUse = Tables.assign id σ.now σ.registry.tables.lastUse)

theorem step_visits (h : σ.Sound) (a : Act) : σ.Visits (σ.step a) := by
  rcases step_cases h a with ⟨d, rfl⟩ | ⟨n, rfl⟩ | hrests
  · exact .keeps rfl fun e he => he
  · by_cases hrunning : ∃ c, σ.calls[n]? = some (.running c)
    · obtain ⟨c, hc⟩ := hrunning
      obtain ⟨hsound, hown⟩ := h.split hc
      rw [step_advance hc]
      cases c.advance_visits n σ.now hsound hown with
      | keeps hgives huses =>
        refine .keeps ?_ huses
        rw [hgives, List.append_nil]
      | visits key id hgives huses =>
        refine .visits key id ?_ huses
        rw [hgives]
    · rw [step_over fun c hc => hrunning ⟨c, hc⟩]
      exact .keeps rfl fun e he => he
  · exact .keeps hrests.given fun e he => hrests.frame.tables ▸ he

theorem now_begin (σ : Service) (id : SessionId) (f : Session → Session × Advance Cleanup Unit) :
    (σ.begin id f).now = σ.now := by
  unfold Service.begin
  split <;> rfl

theorem now_le_step (σ : Service) (a : Act) : σ.now ≤ (σ.step a).now := by
  cases a with
  | ask d => exact Nat.le_refl _
  | pass millis => exact Nat.le_add_right _ _
  | move host connect => exact Nat.le_refl _
  | reap i =>
    apply Nat.le_of_eq
    unfold step
    dsimp only
    split
    · rw [now_begin]
    · rfl
  | dispose id | shutdownAndKill id =>
    apply Nat.le_of_eq
    unfold step
    dsimp only
    split
    · exact (now_begin ..).symm
    · rfl
  | _ =>
    apply Nat.le_of_eq
    unfold step
    dsimp only
    repeat' split
    all_goals rfl

theorem Sound.given_gone (h : σ.Sound) (as : List Act) {id : SessionId}
    (hknows : σ.registry.Knows id) (hheld : id ∉ σ.registry.tables.held) (hyoung : ¬ σ.Young id) :
    (σ.run as).given.filter (·.2 == id) = σ.given.filter (·.2 == id) := by
  induction as generalizing σ with
  | nil => rfl
  | cons a as ih =>
    obtain ⟨hknows', hheld', hyoung'⟩ := h.step_gone a hknows hheld hyoung
    have hrest := ih (step_leads h a).sound hknows' hheld' hyoung'
    refine hrest.trans ?_
    cases step_visits h a with
    | keeps hgiven huses => rw [hgiven]
    | visits key other hgiven huses =>
      -- who is given out is in the tables then
      have hother : other ∈ (σ.step a).registry.tables.held := by
        rw [Tables.mem_held, huses]
        exact .inl ((Tables.mem_keys_assign _ _ _ _).mpr (.inl rfl))
      have hne : other ≠ id := fun heq => hheld' (heq ▸ hother)
      have hnone : [(key, other)].filter (·.2 == id) = [] := by simpa using hne
      rw [hgiven, List.filter_append, hnone, List.append_nil]

theorem step_evict (h : σ.Sound) {n window : Nat} {lenient : Bool}
    (hc : σ.calls[n]? = some (.running (.waiting (.evict window) lenient)))
    (hfree : σ.registry.turns.isFree n = true) :
    σ.step (.advance n) =
      { σ with
        registry :=
          { σ.registry with
            tables := σ.registry.tables.strike (σ.registry.tables.expired window σ.now)
            turns := (σ.registry.turns.enter n).1.leave
            retired := σ.registry.retired ++ σ.registry.tables.expired window σ.now }
        calls := σ.calls.set n
          (.replied (.count (σ.registry.tables.expired window σ.now).length)) } := by
  have hsound : ({ σ.registry with turns := (σ.registry.turns.enter n).1 } : Registry).Sound
      σ.Young σ.registry.Retired σ.Busy := h.registry.congr rfl
  have hperform := hsound.evict_eq window σ.now
  rw [step_advance hc, Call.advance_turn hfree]
  unfold Call.perform
  dsimp only
  rw [hperform]
  simp only [Call.gives, Call.key?, List.append_nil, Status.next]

end Service

structure Eviction where
  id : SessionId
  window : Nat
  time : Nat

structure Diary where
  service : Service
  visits : List (SessionId × Nat) := []
  evictions : List Eviction := []

namespace Diary

open Service (Act)

def new (r : Registry) : Diary := { service := .new r }

def swept (D : Diary) : Act → List Eviction
  | .advance n =>
    match D.service.calls[n]? with
    | some (.running (.waiting (.evict window) _)) =>
      ((D.service.step (.advance n)).registry.retired.drop D.service.registry.retired.length).map
        fun id => ⟨id, window, D.service.now⟩
    | _ => []
  | _ => []

def step (D : Diary) (a : Act) : Diary where
  service := D.service.step a
  visits := D.visits ++ ((D.service.step a).given.drop D.service.given.length).map
    fun e => (e.2, D.service.now)
  evictions := D.evictions ++ D.swept a

def run (D : Diary) (as : List Act) : Diary := as.foldl step D

theorem run_service (D : Diary) (as : List Act) : (D.run as).service = D.service.run as := by
  induction as generalizing D with
  | nil => rfl
  | cons a as ih => exact ih (D.step a)

def lastVisit? (D : Diary) (id : SessionId) : Option Nat := D.visits.reverse.lookup id

def stale (D : Diary) (window : Nat) : List SessionId :=
  (D.service.registry.tables.lastUse.map Prod.fst).filter fun id =>
    (D.lastVisit? id).any (· + window < D.service.now)

structure Kept (D : Diary) : Prop where
  sound : D.service.Sound
  listed : D.visits.map Prod.fst = D.service.given.map Prod.snd
  past : ∀ v ∈ D.visits, v.2 ≤ D.service.now
  latest : ∀ v ∈ D.visits, ∃ time, D.lastVisit? v.1 = some time ∧ v.2 ≤ time
  uses : ∀ e ∈ D.service.registry.tables.lastUse, D.lastVisit? e.1 = some e.2
  gone : ∀ e ∈ D.evictions, D.service.registry.Knows e.id ∧
    e.id ∉ D.service.registry.tables.held ∧ ¬ D.service.Young e.id
  aged : ∀ e ∈ D.evictions, ∀ v ∈ D.visits, v.1 = e.id → v.2 + e.window < e.time
  once : (D.evictions.map Eviction.id).Nodup

theorem kept_new (r : Registry) : (new r).Kept where
  sound := Service.Sound.new r
  listed := rfl
  past := by rintro v ⟨⟩
  latest := by rintro v ⟨⟩
  uses := by rintro e ⟨⟩
  gone := by rintro e ⟨⟩
  aged := by rintro e ⟨⟩
  once := List.nodup_nil

variable {D : Diary}

theorem visits_keeps {a : Act} (hgiven : (D.service.step a).given = D.service.given) :
    (D.step a).visits = D.visits := by
  unfold step
  dsimp only
  rw [hgiven, List.drop_length, List.map_nil, List.append_nil]

theorem visits_visits {a : Act} {key : SessionKey} {id : SessionId}
    (hgiven : (D.service.step a).given = D.service.given ++ [(key, id)]) :
    (D.step a).visits = D.visits ++ [(id, D.service.now)] := by
  unfold step
  dsimp only
  rw [hgiven, List.drop_left]
  rfl

theorem lastVisit?_keeps {a : Act} (hvisits : (D.step a).visits = D.visits) (id : SessionId) :
    (D.step a).lastVisit? id = D.lastVisit? id := by
  rw [lastVisit?, hvisits, lastVisit?]

theorem lastVisit?_visits {a : Act} {id : SessionId}
    (hvisits : (D.step a).visits = D.visits ++ [(id, D.service.now)]) (other : SessionId) :
    (D.step a).lastVisit? other =
      if other = id then some D.service.now else D.lastVisit? other := by
  rw [lastVisit?, hvisits, List.reverse_append, List.reverse_singleton, List.singleton_append,
    List.lookup_cons]
  by_cases h : other = id
  · rw [if_pos h, h, beq_self_eq_true]
  · rw [if_neg h, beq_eq_false_iff_ne.mpr h, lastVisit?]

structure Follows (D : Diary) (a : Act) : Prop where
  listed : (D.step a).visits.map Prod.fst = (D.service.step a).given.map Prod.snd
  past : ∀ v ∈ (D.step a).visits, v.2 ≤ (D.service.step a).now
  latest : ∀ v ∈ (D.step a).visits, ∃ time, (D.step a).lastVisit? v.1 = some time ∧ v.2 ≤ time
  uses : ∀ e ∈ (D.service.step a).registry.tables.lastUse, (D.step a).lastVisit? e.1 = some e.2
  held : ∀ v ∈ (D.step a).visits, v ∈ D.visits ∨ v.1 ∈ (D.service.step a).registry.tables.held

theorem Kept.follows (h : D.Kept) (a : Act) : D.Follows a := by
  have hnow := D.service.now_le_step a
  cases Service.step_visits h.sound a with
  | keeps hgiven huses =>
    have hvisits := visits_keeps hgiven
    have hlast := lastVisit?_keeps hvisits
    exact {
      listed := by
        rw [hvisits, hgiven]
        exact h.listed
      past := fun v hv => Nat.le_trans (h.past v (hvisits ▸ hv)) hnow
      latest := by
        intro v hv
        rw [hlast]
        exact h.latest v (hvisits ▸ hv)
      uses := by
        intro e he
        rw [hlast]
        exact h.uses e (huses e he)
      held := fun v hv => .inl (hvisits ▸ hv) }
  | visits key id hgiven huses =>
    have hvisits := visits_visits hgiven
    have hlast := lastVisit?_visits hvisits
    have hcases : ∀ v ∈ (D.step a).visits, v ∈ D.visits ∨ v = (id, D.service.now) := by
      intro v hv
      rw [hvisits] at hv
      exact (List.mem_append.mp hv).imp_right List.mem_singleton.mp
    exact {
      listed := by
        rw [hvisits, hgiven, List.map_append, List.map_append, h.listed]
        rfl
      past := by
        intro v hv
        rcases hcases v hv with hv | rfl
        · exact Nat.le_trans (h.past v hv) hnow
        · exact hnow
      latest := by
        intro v hv
        rw [hlast]
        rcases hcases v hv with hv | rfl
        · split
          · exact ⟨D.service.now, rfl, h.past v hv⟩
          · exact h.latest v hv
        · exact ⟨D.service.now, if_pos rfl, Nat.le_refl _⟩
      uses := by
        intro e he
        rw [huses] at he
        rw [hlast]
        rcases (Tables.mem_assign _ _ _ e).mp he with rfl | ⟨he, hne⟩
        · exact if_pos rfl
        · rw [if_neg hne]
          exact h.uses e he
      held := by
        intro v hv
        rcases hcases v hv with hv | rfl
        · exact .inl hv
        · right
          rw [Tables.mem_held, huses]
          exact .inl ((Tables.mem_keys_assign _ _ _ _).mpr (.inl rfl)) }

theorem Kept.stale_eq (h : D.Kept) (window : Nat) :
    D.stale window = D.service.registry.tables.expired window D.service.now := by
  rw [stale, Tables.expired, List.filter_map]
  congr 1
  apply List.filter_congr
  intro e he
  rw [Function.comp_apply, h.uses e he, Option.any_some]

theorem Kept.stale_nodup (h : D.Kept) (window : Nat) : (D.stale window).Nodup :=
  h.sound.registry.tables.uses_nodup.filter _

theorem Kept.stale_aged (h : D.Kept) {window : Nat} {id : SessionId} (hid : id ∈ D.stale window)
    {v : SessionId × Nat} (hv : v ∈ D.visits) (heq : v.1 = id) :
    v.2 + window < D.service.now := by
  obtain ⟨time, hlast, hle⟩ := h.latest v hv
  have hlate := (List.mem_filter.mp hid).2
  rw [← heq, hlast, Option.any_some, decide_eq_true_eq] at hlate
  omega

theorem Kept.swept_evict (h : D.Kept) {n window : Nat} {lenient : Bool}
    (hc : D.service.calls[n]? = some (.running (.waiting (.evict window) lenient)))
    (hfree : D.service.registry.turns.isFree n = true) :
    D.swept (.advance n) = (D.stale window).map fun id => ⟨id, window, D.service.now⟩ := by
  unfold swept
  dsimp only
  rw [hc]
  dsimp only
  rw [Service.step_evict h.sound hc hfree, List.drop_left, h.stale_eq]

theorem Kept.swept_cases (h : D.Kept) (a : Act) :
    D.swept a = [] ∨ ∃ n window lenient, a = .advance n ∧
      D.service.calls[n]? = some (.running (.waiting (.evict window) lenient)) ∧
      D.service.registry.turns.isFree n = true ∧
      D.swept a = (D.stale window).map fun id => ⟨id, window, D.service.now⟩ := by
  by_cases hturn : ∃ n window lenient, a = .advance n ∧
      D.service.calls[n]? = some (.running (.waiting (.evict window) lenient)) ∧
      D.service.registry.turns.isFree n = true
  · obtain ⟨n, window, lenient, rfl, hc, hfree⟩ := hturn
    exact .inr ⟨n, window, lenient, rfl, hc, hfree, h.swept_evict hc hfree⟩
  · left
    unfold swept
    split
    · next n =>
      split
      -- an eviction that has to wait for its turn retires nobody
      · next window lenient hc =>
        have hbusy : D.service.registry.turns.isFree n = false :=
          Bool.eq_false_iff.mpr fun hfree => hturn ⟨n, window, lenient, rfl, hc, hfree⟩
        rw [Service.step_advance hc, Call.advance_waits hbusy, List.drop_length, List.map_nil]
      · rfl
    · rfl

theorem stale_held {window : Nat} {id : SessionId} (hid : id ∈ D.stale window) :
    id ∈ D.service.registry.tables.held :=
  (Tables.mem_held _ id).mpr (.inl (List.mem_filter.mp hid).1)

theorem Kept.swept_gone (h : D.Kept) {n window : Nat} {lenient : Bool}
    (hc : D.service.calls[n]? = some (.running (.waiting (.evict window) lenient)))
    (hfree : D.service.registry.turns.isFree n = true) {id : SessionId}
    (hid : id ∈ D.stale window) :
    (D.service.step (.advance n)).registry.Knows id ∧
      id ∉ (D.service.step (.advance n)).registry.tables.held ∧
      ¬ (D.service.step (.advance n)).Young id := by
  have hannounced := h.sound.registry.held_announced id (stale_held hid)
  have hlater := Service.announced_mono h.sound [.advance n] hannounced
  have hsound := (Service.step_leads h.sound (.advance n)).sound
  refine ⟨hsound.registry.announced_known id hlater, ?_, hsound.not_young hlater⟩
  have hused := (List.mem_filter.mp hid).1
  rw [Service.step_evict h.sound hc hfree]
  rw [h.stale_eq] at hid
  exact h.sound.registry.tables.not_held_strike hid hused

theorem Kept.step (h : D.Kept) (a : Act) : (D.step a).Kept := by
  have hfollows := h.follows a
  have hstill : ∀ e ∈ D.evictions, (D.service.step a).registry.Knows e.id ∧
      e.id ∉ (D.service.step a).registry.tables.held ∧ ¬ (D.service.step a).Young e.id := by
    intro e he
    obtain ⟨hknows, hheld, hyoung⟩ := h.gone e he
    exact h.sound.step_gone a hknows hheld hyoung
  have hgone : ∀ e ∈ (D.step a).evictions, (D.service.step a).registry.Knows e.id ∧
      e.id ∉ (D.service.step a).registry.tables.held ∧ ¬ (D.service.step a).Young e.id := by
    intro e he
    rcases List.mem_append.mp he with he | he
    · exact hstill e he
    · rcases h.swept_cases a with hnone | ⟨n, window, lenient, rfl, hc, hfree, hswept⟩
      · rw [hnone] at he
        cases he
      · rw [hswept] at he
        obtain ⟨id, hid, rfl⟩ := List.mem_map.mp he
        exact h.swept_gone hc hfree hid
  exact {
    sound := (Service.step_leads h.sound a).sound
    listed := hfollows.listed
    past := hfollows.past
    latest := hfollows.latest
    uses := hfollows.uses
    gone := hgone
    aged := by
      intro e he v hv heq
      -- who was evicted is not visited any more, so the visit is an old one
      have hold : v ∈ D.visits := (hfollows.held v hv).resolve_right (heq ▸ (hgone e he).2.1)
      rcases List.mem_append.mp he with he | he
      · exact h.aged e he v hold heq
      · rcases h.swept_cases a with hnone | ⟨n, window, lenient, -, -, -, hswept⟩
        · rw [hnone] at he
          cases he
        · rw [hswept] at he
          obtain ⟨id, hid, rfl⟩ := List.mem_map.mp he
          exact h.stale_aged hid hold heq
    once := by
      change ((D.evictions ++ D.swept a).map Eviction.id).Nodup
      rcases h.swept_cases a with hnone | ⟨n, window, lenient, -, -, -, hswept⟩
      · rw [hnone, List.append_nil]
        exact h.once
      · rw [hswept, List.map_append, List.map_map]
        have hids : (D.stale window).map (Eviction.id ∘ fun id => ⟨id, window, D.service.now⟩) =
            D.stale window := List.map_id _
        rw [hids]
        refine List.nodup_append.mpr ⟨h.once, h.stale_nodup window, ?_⟩
        rintro x hx y hy rfl
        obtain ⟨e, he, rfl⟩ := List.mem_map.mp hx
        exact (h.gone e he).2.1 (stale_held hy) }

theorem Kept.run (h : D.Kept) (as : List Act) : (D.run as).Kept := by
  induction as generalizing D with
  | nil => exact h
  | cons a as ih => exact ih (h.step a)

/-- What a history tells of evictions. -/
structure Exact (D : Diary) : Prop where
  listed : D.visits.map Prod.fst = D.service.given.map Prod.snd
  uses : ∀ e ∈ D.service.registry.tables.lastUse, D.lastVisit? e.1 = some e.2
  sweeps : ∀ (n window : Nat) (lenient : Bool),
    D.service.calls[n]? = some (.running (.waiting (.evict window) lenient)) →
    D.service.registry.turns.isFree n = true →
    D.service.step (.advance n) =
      { D.service with
        registry :=
          { D.service.registry with
            tables :=
              { byKey := D.service.registry.tables.byKey.filter fun e => !(D.stale window).contains e.2
                lastUse := D.service.registry.tables.lastUse.filter fun e =>
                  !(D.stale window).contains e.1
                attached := D.service.registry.tables.attached }
            turns := (D.service.registry.turns.enter n).1.leave
            retired := D.service.registry.retired ++ D.stale window }
        calls := D.service.calls.set n (.replied (.count (D.stale window).length)) } ∧
    (D.step (.advance n)).evictions =
      D.evictions ++ (D.stale window).map fun id => ⟨id, window, D.service.now⟩
  distinct : ∀ window, (D.stale window).Nodup
  recent : ∀ window, ∀ e ∈ D.service.registry.tables.lastUse, e.1 ∉ D.stale window →
    D.service.now ≤ e.2 + window
  again : ∀ window,
    (D.service.registry.evict window D.service.now).1.evict window D.service.now =
      ((D.service.registry.evict window D.service.now).1, 0)
  unfound : ∀ window key, ∀ id ∈ D.stale window,
    (D.service.registry.evict window D.service.now).1.tables.find? key ≠ some id
  never : ∀ as, ∀ e ∈ D.evictions,
    (D.service.run as).given.filter (·.2 == e.id) = D.service.given.filter (·.2 == e.id)
  once : (D.evictions.map Eviction.id).Nodup
  apart : ∀ e ∈ D.evictions, ∀ v ∈ D.visits, v.1 = e.id → v.2 + e.window < e.time

theorem Kept.exact (h : D.Kept) : D.Exact where
  listed := h.listed
  uses := h.uses
  sweeps := by
    intro n window lenient hc hfree
    constructor
    · rw [h.stale_eq]
      exact Service.step_evict h.sound hc hfree
    · rw [← h.swept_evict hc hfree]
      rfl
  distinct := h.stale_nodup
  recent := by
    intro window e he hkept
    apply Tables.uses_of_strike_expired (t := D.service.registry.tables)
    rw [h.stale_eq] at hkept
    exact Tables.mem_strike_uses.mpr ⟨he, hkept⟩
  again := fun window => h.sound.registry.evict_again window D.service.now
  unfound := by
    intro window key id hid
    rw [h.stale_eq] at hid
    rw [h.sound.registry.evict_eq]
    exact Tables.find?_strike hid key
  never := by
    intro as e he
    obtain ⟨hknows, hheld, hyoung⟩ := h.gone e he
    exact h.sound.given_gone as hknows hheld hyoung
  once := h.once
  apart := h.aged

theorem run_evicts (r : Registry) (as : List Act) : ((new r).run as).Exact :=
  ((kept_new r).run as).exact

end Diary

end LanguageSessions
