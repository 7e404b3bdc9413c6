import Mathlib.Data.List.Basic
import LanguageSessions.Scheduler.Basic
import LanguageSessions.Session.Basic

/-!
Histories of a scheduler: the schedules that were made and taken back and the attempts at their
runs, each with its time. In an orderly history every token has one life: it is scheduled once, an
attempt ends before the next one begins, and only an interruption is followed by another attempt.
-/
namespace LanguageSessions

inductive JobEnd where
  | ok
  | interrupted
  | failed
  | panicked
  deriving DecidableEq

def JobEnd.runEnd : JobEnd → RunEnd
  | ok => .finished
  | interrupted => .interrupted
  | failed => .failed
  | panicked => .failed

inductive Deed where
  | installed (r : TaskRun) (delay : Nat)
  | cancelled (file name : String)
  | cancelledAll (file : String)
  | began (r : TaskRun) (attempt : Nat)
  /-- The source of sessions answers the attempt; what the scheduler makes of that is `ran` or
  `missed`. -/
  | answered (r : TaskRun) (attempt : Nat) (found : Option SessionId)
  | ran (r : TaskRun) (attempt : Nat) (id : SessionId)
  | missed (r : TaskRun) (attempt : Nat)
  | ended (r : TaskRun) (attempt : Nat) (e : JobEnd)

namespace Deed

def Touches (file name : String) : Deed → Prop
  | installed r _ => samePath r.file file = true ∧ r.task.name = name
  | cancelled f n => samePath f file = true ∧ n = name
  | cancelledAll f => samePath f file = true
  | _ => False

def outcome (r : TaskRun) (attempt : Nat) : Option SessionId → Deed
  | some id => ran r attempt id
  | none => missed r attempt

def run? : Deed → Option TaskRun
  | installed r _ => some r
  | began r _ => some r
  | ran r _ _ => some r
  | missed r _ => some r
  | ended r _ _ => some r
  | _ => none

def isLookup : Deed → Bool
  | answered _ _ _ => true
  | ran _ _ _ => true
  | missed _ _ => true
  | _ => false

theorem isLookup_outcome (r : TaskRun) (n : Nat) (found : Option SessionId) :
    (outcome r n found).isLookup = true := by
  cases found <;> rfl

theorem outcome_ne_answered (r q : TaskRun) (n m : Nat) (found given : Option SessionId) :
    outcome r n found ≠ answered q m given := by
  cases found <;> simp [outcome]

theorem outcome_inj {r q : TaskRun} {n m : Nat} {found given : Option SessionId}
    (h : outcome r n found = outcome q m given) : r = q ∧ n = m ∧ found = given := by
  cases found <;> cases given <;> simp_all [outcome]

def Asks (r : TaskRun) : Deed → Prop
  | installed q _ => q = r
  | ended q _ e => q = r ∧ e = .interrupted
  | _ => False

def Closes (r : TaskRun) : Deed → Prop
  | missed q _ => q = r
  | ended q _ e => q = r ∧ e ≠ .interrupted
  | _ => False

theorem Touches.congr {d : Deed} {file file' name : String} (h : d.Touches file name)
    (hsame : samePath file file' = true) : d.Touches file' name := by
  have htrans : ∀ p, samePath p file = true → samePath p file' = true := by
    simp only [samePath, beq_iff_eq] at hsame ⊢
    exact fun p hp => hp.trans hsame
  cases d with
  | installed r delay => exact ⟨htrans _ h.1, h.2⟩
  | cancelled f n => exact ⟨htrans _ h.1, h.2⟩
  | cancelledAll f => exact htrans _ h
  | _ => exact h

theorem Asks.run?_eq {r : TaskRun} {d : Deed} (h : d.Asks r) : d.run? = some r := by
  cases d with
  | installed q delay => exact congrArg some h
  | ended q n e => exact congrArg some h.1
  | _ => cases h

theorem Closes.run?_eq {r : TaskRun} {d : Deed} (h : d.Closes r) : d.run? = some r := by
  cases d with
  | missed q n => exact congrArg some h
  | ended q n e => exact congrArg some h.1
  | _ => cases h

end Deed

abbrev History := List (Nat × Deed)

def Precedes (l : List α) (x y : α) : Prop := [x, y].Sublist l

theorem concat_sublist_concat_iff {xs l : List α} {a b : α} :
    (xs ++ [a]).Sublist (l ++ [b]) ↔ (xs ++ [a]).Sublist l ∨ xs.Sublist l ∧ a = b := by
  rw [← List.reverse_sublist, ← @List.reverse_sublist _ _ l, ← @List.reverse_sublist _ xs]
  simp only [List.reverse_append, List.reverse_singleton, List.singleton_append]
  rw [List.cons_sublist_cons']
  exact or_congr_right and_comm

theorem precedes_concat {l : List α} {x y z : α} :
    Precedes (l ++ [z]) x y ↔ Precedes l x y ∨ x ∈ l ∧ y = z := by
  have h : ([x] ++ [y]).Sublist (l ++ [z]) ↔ ([x] ++ [y]).Sublist l ∨ [x].Sublist l ∧ y = z :=
    concat_sublist_concat_iff
  rwa [List.singleton_sublist] at h

theorem Precedes.concat {l : List α} {x y : α} (h : Precedes l x y) (z : α) :
    Precedes (l ++ [z]) x y := precedes_concat.mpr (.inl h)

theorem Precedes.left {l : List α} {x y : α} (h : Precedes l x y) : x ∈ l :=
  h.subset List.mem_cons_self

theorem Precedes.right {l : List α} {x y : α} (h : Precedes l x y) : y ∈ l :=
  h.subset (List.mem_cons_of_mem _ List.mem_cons_self)

theorem precedes_of_mem (l : List α) {x y : α} {k : List α} (hy : y ∈ k) :
    Precedes (l ++ x :: k) x y :=
  ((List.singleton_sublist.mpr hy).cons_cons x).trans (List.sublist_append_right _ _)

theorem Precedes.rel {l : List α} {R : α → α → Prop} {x y : α} (h : Precedes l x y)
    (hl : l.Pairwise R) : R x y := List.pairwise_pair.mp (hl.sublist h)

theorem precedes_total {l : List α} {x y : α} (hx : x ∈ l) (hy : y ∈ l) (hne : x ≠ y) :
    Precedes l x y ∨ Precedes l y x := by
  induction l with
  | nil => cases hx
  | cons a l ih =>
    rcases List.mem_cons.mp hx with rfl | hx'
    · left
      exact (List.singleton_sublist.mpr ((List.mem_cons.mp hy).resolve_left hne.symm)).cons_cons x
    · rcases List.mem_cons.mp hy with rfl | hy'
      · exact .inr ((List.singleton_sublist.mpr hx').cons_cons y)
      · exact (ih hx' hy').imp (·.cons a) (·.cons a)

inductive Phase where
  | unknown
  | waiting (r : TaskRun)
  | seeking (r : TaskRun) (attempt : Nat)
  | working (r : TaskRun) (attempt : Nat) (id : SessionId)
  | settled (r : TaskRun)

namespace Phase

def run? : Phase → Option TaskRun
  | unknown => none
  | waiting r => some r
  | seeking r _ => some r
  | working r _ _ => some r
  | settled r => some r

def after (p : Phase) : Deed → Phase
  | .installed r _ => waiting r
  | .began r n => seeking r n
  | .ran r n id => working r n id
  | .missed r _ => settled r
  | .ended r _ e => if e = .interrupted then waiting r else settled r
  | _ => p

def Allows (p : Phase) : Deed → Prop
  | .installed _ _ => p = unknown
  | .began r _ => p = waiting r
  | .ran r n _ => p = seeking r n
  | .missed r n => p = seeking r n
  | .ended r n _ => ∃ id, p = working r n id
  | _ => True

end Phase

def Deed.isOf (t : Token) (d : Deed) : Bool := d.run?.any fun r => r.token == t

theorem Deed.isOf_iff (t : Token) (d : Deed) : d.isOf t = true ↔ ∃ r, d.run? = some r ∧ r.token = t := by
  cases h : d.run? <;> simp [Deed.isOf, h]

theorem Deed.isOf_of_run? {d : Deed} {r : TaskRun} (h : d.run? = some r) : d.isOf r.token = true :=
  (Deed.isOf_iff _ d).mpr ⟨r, h, rfl⟩

namespace History

variable {past : History}

def phase (past : History) (t : Token) : Phase :=
  past.foldl (fun p e => if e.2.isOf t then p.after e.2 else p) .unknown

theorem phase_concat (past : History) (s : Nat) (d : Deed) (t : Token) :
    History.phase (past ++ [(s, d)]) t =
      if d.isOf t then (History.phase past t).after d else History.phase past t := by
  simp [phase, List.foldl_append]

def number (past : History) (t : Token) (kind : Deed → Bool) : Nat :=
  past.countP fun e => e.2.isOf t && kind e.2

/-- Every deed is one that the phase of its token allows. -/
inductive Orderly : History → Prop
  | nil : Orderly []
  | concat {past : History} (s : Nat) (d : Deed) (h : Orderly past)
      (allowed : ∀ r, d.run? = some r → (History.phase past r.token).Allows d) :
      Orderly (past ++ [(s, d)])

theorem mem_concat {e : Nat × Deed} {s : Nat} {d : Deed} :
    e ∈ past ++ [(s, d)] ↔ e ∈ past ∨ e = (s, d) := by simp

theorem Orderly.life {t : Token} {P : History → Phase → Prop} (h : Orderly past)
    (start : P [] .unknown)
    (other : ∀ past p s d, d.isOf t = false → P past p → P (past ++ [(s, d)]) p)
    (installed : ∀ past s r delay, r.token = t → P past .unknown →
      P (past ++ [(s, .installed r delay)]) (.waiting r))
    (began : ∀ past s r n, r.token = t → P past (.waiting r) →
      P (past ++ [(s, .began r n)]) (.seeking r n))
    (ran : ∀ past s r n id, r.token = t → P past (.seeking r n) →
      P (past ++ [(s, .ran r n id)]) (.working r n id))
    (missed : ∀ past s r n, r.token = t → P past (.seeking r n) →
      P (past ++ [(s, .missed r n)]) (.settled r))
    (ended : ∀ past s r n id e, r.token = t → P past (.working r n id) →
      P (past ++ [(s, .ended r n e)]) (if e = .interrupted then .waiting r else .settled r)) :
    P past (past.phase t) := by
  induction h with
  | nil => exact start
  | @concat past s d h allowed ih =>
    rw [phase_concat]
    by_cases hof : d.isOf t = true
    · rw [if_pos hof]
      obtain ⟨q, hq, rfl⟩ := (Deed.isOf_iff _ _).mp hof
      have hphase := allowed q hq
      cases d with
      | cancelled f n => cases hq
      | cancelledAll f => cases hq
      | answered r n found => cases hq
      | installed r delay =>
        cases hq
        exact installed past s q delay rfl (hphase ▸ ih)
      | began r n =>
        cases hq
        exact began past s q n rfl (hphase ▸ ih)
      | ran r n id =>
        cases hq
        exact ran past s q n id rfl (hphase ▸ ih)
      | missed r n =>
        cases hq
        exact missed past s q n rfl (hphase ▸ ih)
      | ended r n e =>
        cases hq
        obtain ⟨id, hworking⟩ := hphase
        exact ended past s q n id e rfl (hworking ▸ ih)
    · rw [if_neg hof]
      exact other past _ s d (Bool.eq_false_iff.mpr hof) ih

theorem Deed.run?_ne {t : Token} {d : Deed} (h : d.isOf t = false) {r : TaskRun}
    (hr : d.run? = some r) : r.token ≠ t := by
  rintro rfl
  rw [Deed.isOf_of_run? hr] at h
  cases h

theorem Orderly.run?_phase (h : Orderly past) {s : Nat} {d : Deed} {r : TaskRun}
    (hd : (s, d) ∈ past) (hr : d.run? = some r) : (past.phase r.token).run? = some r := by
  have hstep : ∀ (past : History) (p : Phase) (s' : Nat) (d' : Deed) (q : TaskRun),
      d'.run? = some q → p.run? = some q ∨ p = .unknown →
      ((s, d) ∈ past → p.run? = some r) → (s, d) ∈ past ++ [(s', d')] → some q = some r := by
    intro past p s' d' q hq hp ih hmem
    rcases mem_concat.mp hmem with hmem | hmem
    · have hold := ih hmem
      rcases hp with hp | hp
      · rw [← hp, hold]
      · rw [hp] at hold
        cases hold
    · obtain ⟨-, rfl⟩ := Prod.mk.inj hmem
      rw [← hq, hr]
  revert hd
  apply h.life (P := fun past p => (s, d) ∈ past → p.run? = some r)
  · intro hd
    cases hd
  · intro past p s' d' hof ih hmem
    rcases mem_concat.mp hmem with hmem | hmem
    · exact ih hmem
    · obtain ⟨-, rfl⟩ := Prod.mk.inj hmem
      exact absurd rfl (Deed.run?_ne hof hr)
  · exact fun past s' q delay _ => hstep past _ s' (.installed q delay) q rfl (.inr rfl)
  · exact fun past s' q n _ => hstep past _ s' (.began q n) q rfl (.inl rfl)
  · exact fun past s' q n id _ => hstep past _ s' (.ran q n id) q rfl (.inl rfl)
  · exact fun past s' q n _ => hstep past _ s' (.missed q n) q rfl (.inl rfl)
  · intro past s' q n id e _ ih hmem
    have hq := hstep past _ s' (.ended q n e) q rfl (.inl rfl) ih hmem
    split <;> exact hq

theorem Orderly.run?_eq (h : Orderly past) {s s' : Nat} {d d' : Deed} {r r' : TaskRun}
    (hd : (s, d) ∈ past) (hr : d.run? = some r) (hd' : (s', d') ∈ past) (hr' : d'.run? = some r')
    (htoken : r'.token = r.token) : r' = r := by
  have hone := h.run?_phase hd hr
  have htwo := h.run?_phase hd' hr'
  rw [htoken, hone] at htwo
  exact (Option.some.inj htwo).symm

theorem Orderly.apart (h : Orderly past) : past.Pairwise fun x y => ∀ r q delay delay',
    x.2 = .installed r delay → y.2 = .installed q delay' → r.token ≠ q.token := by
  induction h with
  | nil => exact .nil
  | @concat past s d h allowed ih =>
    apply List.pairwise_append.mpr
    refine ⟨ih, List.pairwise_singleton _ _, ?_⟩
    intro x hx y hy r q delay delay' hr hq htoken
    rw [List.mem_singleton.mp hy] at hq
    obtain rfl : d = _ := hq
    have hknown := h.run?_phase (s := x.1) (d := x.2) hx (hr ▸ rfl : x.2.run? = some r)
    have hunknown : History.phase past q.token = .unknown := allowed q rfl
    rw [htoken, hunknown] at hknown
    cases hknown

theorem Orderly.installed_eq (h : Orderly past) {u v : Nat} {r : TaskRun} {delay delay' : Nat}
    (hu : (u, .installed r delay) ∈ past) (hv : (v, .installed r delay') ∈ past) :
    (u, Deed.installed r delay) = (v, .installed r delay') := by
  by_contra hne
  rcases precedes_total hu hv hne with hbefore | hbefore
  · exact hbefore.rel h.apart r r _ _ rfl rfl rfl
  · exact hbefore.rel h.apart r r _ _ rfl rfl rfl

theorem Orderly.followed (h : Orderly past) {x : Nat × Deed} {r : TaskRun} (hx : x ∈ past)
    (hasks : x.2.Asks r) :
    past.phase r.token = .waiting r ∨ ∃ s n, Precedes past x (s, .began r n) := by
  -- Only `waiting` promises an attempt that is still to come.
  have hkept : ∀ (past : History) (p : Phase) (e : Nat × Deed), p ≠ .waiting r → x ∈ past →
      (x ∈ past → p = .waiting r ∨ ∃ s n, Precedes past x (s, .began r n)) →
      ∃ s n, Precedes (past ++ [e]) x (s, .began r n) := by
    intro past p e hp hold ih
    obtain ⟨s, n, hbefore⟩ := (ih hold).resolve_left hp
    exact ⟨s, n, hbefore.concat e⟩
  revert hx
  apply h.life (P := fun past p => x ∈ past → p = .waiting r ∨ ∃ s n, Precedes past x (s, .began r n))
  · intro hx
    cases hx
  · intro past p s d hof ih hx
    rcases mem_concat.mp hx with hx | rfl
    · rcases ih hx with hp | ⟨s', n, hbefore⟩
      · exact .inl hp
      · exact .inr ⟨s', n, hbefore.concat _⟩
    · exact absurd rfl (Deed.run?_ne hof hasks.run?_eq)
  · intro past s q delay _ ih hx
    rcases mem_concat.mp hx with hx | rfl
    · exact .inr (hkept past .unknown _ (by simp) hx ih)
    · exact .inl (congrArg _ hasks)
  · intro past s q n _ ih hx
    rcases mem_concat.mp hx with hold | rfl
    · rcases ih hold with hp | ⟨s', n', hbefore⟩
      · cases hp
        exact .inr ⟨s, n, precedes_concat.mpr (.inr ⟨hold, rfl⟩)⟩
      · exact .inr ⟨s', n', hbefore.concat _⟩
    · cases hasks
  · intro past s q n id _ ih hx
    rcases mem_concat.mp hx with hx | rfl
    · exact .inr (hkept past (.seeking q n) _ (by simp) hx ih)
    · cases hasks
  · intro past s q n _ ih hx
    rcases mem_concat.mp hx with hx | rfl
    · exact .inr (hkept past (.seeking q n) _ (by simp) hx ih)
    · cases hasks
  · intro past s q n id e _ ih hx
    rcases mem_concat.mp hx with hx | rfl
    · exact .inr (hkept past (.working q n id) _ (by simp) hx ih)
    · obtain ⟨rfl, rfl⟩ := hasks
      exact .inl rfl

theorem Orderly.settled (h : Orderly past) {x : Nat × Deed} {r : TaskRun} (hx : x ∈ past)
    (hcloses : x.2.Closes r) : past.phase r.token = .settled r := by
  have hnever : ∀ (past : History) (p : Phase) (s : Nat) (d : Deed), p ≠ .settled r → ¬ d.Closes r →
      (x ∈ past → p = .settled r) → x ∉ past ++ [(s, d)] := by
    intro past p s d hp hd ih hx
    rcases mem_concat.mp hx with hx | rfl
    · exact hp (ih hx)
    · exact hd hcloses
  revert hx
  apply h.life (P := fun past p => x ∈ past → p = .settled r)
  · intro hx
    cases hx
  · intro past p s d hof ih hx
    rcases mem_concat.mp hx with hx | rfl
    · exact ih hx
    · exact absurd rfl (Deed.run?_ne hof hcloses.run?_eq)
  · intro past s q delay _ ih hx
    exact absurd hx (hnever past .unknown s _ (by simp) (by simp [Deed.Closes]) ih)
  · intro past s q n _ ih hx
    exact absurd hx (hnever past (.waiting q) s _ (by simp) (by simp [Deed.Closes]) ih)
  · intro past s q n id _ ih hx
    exact absurd hx (hnever past (.seeking q n) s _ (by simp) (by simp [Deed.Closes]) ih)
  · intro past s q n _ ih hx
    rcases mem_concat.mp hx with hx | rfl
    · cases ih hx
    · exact congrArg _ hcloses
  · intro past s q n id e _ ih hx
    rcases mem_concat.mp hx with hx | rfl
    · cases ih hx
    · rw [if_neg hcloses.2, hcloses.1]

def Fate (past : History) (p : Phase) (s : Nat) (r : TaskRun) (n : Nat) : Prop :=
  p = .seeking r n ∨ (∃ u, Precedes past (s, .began r n) (u, .missed r n)) ∨
    ∃ u id, Precedes past (s, .began r n) (u, .ran r n id) ∧
      (p = .working r n id ∨
        ∃ v e, [(s, .began r n), (u, .ran r n id), (v, .ended r n e)].Sublist past)

theorem Orderly.fate (h : Orderly past) {s n : Nat} {r : TaskRun} (hx : (s, .began r n) ∈ past) :
    past.Fate (past.phase r.token) s r n := by
  -- A deed takes nothing from the fate of an attempt that it is no deed of.
  have hkept : ∀ (past : History) (p q : Phase) (e : Nat × Deed), (p = .seeking r n → q = p) →
      (∀ id, p = .working r n id → q = p) → past.Fate p s r n →
      History.Fate (past ++ [e]) q s r n := by
    intro past p q e hseeking hworking ih
    have hsub := List.sublist_append_left past [e]
    rcases ih with hp | ⟨u, hmiss⟩ | ⟨u, id, hran, hp | ⟨v, e', hended⟩⟩
    · exact .inl ((hseeking hp).trans hp)
    · exact .inr (.inl ⟨u, hmiss.trans hsub⟩)
    · exact .inr (.inr ⟨u, id, hran.trans hsub, .inl ((hworking id hp).trans hp)⟩)
    · exact .inr (.inr ⟨u, id, hran.trans hsub, .inr ⟨v, e', hended.trans hsub⟩⟩)
  revert hx
  apply h.life (P := fun past p => (s, .began r n) ∈ past → History.Fate past p s r n)
  · intro hx
    cases hx
  · intro past p u d hof ih hx
    rcases mem_concat.mp hx with hx | heq
    · exact hkept past p p _ (fun _ => rfl) (fun _ _ => rfl) (ih hx)
    · obtain ⟨-, rfl⟩ := Prod.mk.inj heq
      exact absurd rfl (Deed.run?_ne hof rfl)
  · intro past u q delay _ ih hx
    rcases mem_concat.mp hx with hx | heq
    · exact hkept past .unknown _ _ (by simp) (by simp) (ih hx)
    · cases heq
  · intro past u q m _ ih hx
    rcases mem_concat.mp hx with hx | heq
    · exact hkept past (.waiting q) _ _ (by simp) (by simp) (ih hx)
    · cases heq
      exact .inl rfl
  · intro past u q m id _ ih hx
    rcases mem_concat.mp hx with hold | heq
    · by_cases hp : q = r ∧ m = n
      · obtain ⟨rfl, rfl⟩ := hp
        exact .inr (.inr ⟨u, id, precedes_concat.mpr (.inr ⟨hold, rfl⟩), .inl rfl⟩)
      · apply hkept past (.seeking q m) _ _ _ (by simp) (ih hold)
        intro heq
        cases heq
        exact absurd ⟨rfl, rfl⟩ hp
    · cases heq
  · intro past u q m _ ih hx
    rcases mem_concat.mp hx with hold | heq
    · by_cases hp : q = r ∧ m = n
      · obtain ⟨rfl, rfl⟩ := hp
        exact .inr (.inl ⟨u, precedes_concat.mpr (.inr ⟨hold, rfl⟩)⟩)
      · apply hkept past (.seeking q m) _ _ _ (by simp) (ih hold)
        intro heq
        cases heq
        exact absurd ⟨rfl, rfl⟩ hp
    · cases heq
  · intro past u q m id e _ ih hx
    rcases mem_concat.mp hx with hold | heq
    · rcases ih hold with hp | ⟨v, hmiss⟩ | ⟨v, id', hran, hp | ⟨w, e', hended⟩⟩
      · cases hp
      · exact .inr (.inl ⟨v, hmiss.concat _⟩)
      · cases hp
        refine .inr (.inr ⟨v, id, hran.concat _, .inr ⟨u, e, ?_⟩⟩)
        exact concat_sublist_concat_iff.mpr (.inr ⟨hran, rfl⟩)
      · exact .inr (.inr ⟨v, id', hran.concat _,
          .inr ⟨w, e', hended.trans (List.sublist_append_left _ _)⟩⟩)
    · cases heq

theorem concat_split {l k past : List α} {x y : α} (h : past ++ [x] = l ++ y :: k) :
    (past = l ∧ x = y ∧ k = []) ∨ ∃ k', past = l ++ y :: k' ∧ k = k' ++ [x] := by
  rcases List.eq_nil_or_concat k with rfl | ⟨k', z, rfl⟩
  · obtain ⟨hpast, hlast⟩ := List.append_inj' h rfl
    exact .inl ⟨hpast, (List.cons.inj hlast).1, rfl⟩
  · rw [List.concat_eq_append, ← List.cons_append, ← List.append_assoc] at h
    obtain ⟨hpast, hlast⟩ := List.append_inj' h rfl
    exact .inr ⟨k', hpast, by rw [List.concat_eq_append, (List.cons.inj hlast).1]⟩

/-- Every answer of the source is heeded at once, and nothing is made of an answer that was not
given. -/
structure Heeded (past : History) : Prop where
  followed : ∀ l u r n found k, past = l ++ (u, .answered r n found) :: k →
    ∃ k', k = (u, .outcome r n found) :: k'
  led : ∀ l u r n found k, past = l ++ (u, .outcome r n found) :: k →
    ∃ l', l = l' ++ [(u, .answered r n found)]

theorem Heeded.nil : Heeded [] := ⟨by simp, by simp⟩

theorem Heeded.other (h : Heeded past) (s : Nat) {d : Deed} (hd : d.isLookup = false) :
    Heeded (past ++ [(s, d)]) where
  followed := by
    intro l u r n found k heq
    rcases concat_split heq with ⟨-, hlast, -⟩ | ⟨k', hpast, rfl⟩
    · obtain rfl := (Prod.mk.inj hlast).2
      cases hd
    · obtain ⟨k'', rfl⟩ := h.followed l u r n found k' hpast
      exact ⟨k'' ++ [(s, d)], rfl⟩
  led := by
    intro l u r n found k heq
    rcases concat_split heq with ⟨-, hlast, -⟩ | ⟨k', hpast, rfl⟩
    · obtain rfl := (Prod.mk.inj hlast).2
      rw [Deed.isLookup_outcome] at hd
      cases hd
    · exact h.led l u r n found k' hpast

theorem Heeded.answer (h : Heeded past) (s : Nat) (r : TaskRun) (n : Nat) (found : Option SessionId) :
    Heeded (past ++ [(s, .answered r n found)] ++ [(s, .outcome r n found)]) where
  followed := by
    intro l u q m given k heq
    rcases concat_split heq with ⟨-, hlast, -⟩ | ⟨k', hbefore, rfl⟩
    · exact absurd (Prod.mk.inj hlast).2 (Deed.outcome_ne_answered _ _ _ _ _ _)
    · rcases concat_split hbefore with ⟨-, hlast, rfl⟩ | ⟨k'', hpast, rfl⟩
      · cases hlast
        exact ⟨[], rfl⟩
      · obtain ⟨k₃, rfl⟩ := h.followed l u q m given k'' hpast
        exact ⟨_, rfl⟩
  led := by
    intro l u q m given k heq
    rcases concat_split heq with ⟨rfl, hlast, -⟩ | ⟨k', hbefore, rfl⟩
    · obtain ⟨rfl, houtcome⟩ := Prod.mk.inj hlast
      obtain ⟨rfl, rfl, rfl⟩ := Deed.outcome_inj houtcome
      exact ⟨past, rfl⟩
    · rcases concat_split hbefore with ⟨-, hlast, -⟩ | ⟨k'', hpast, rfl⟩
      · exact absurd (Prod.mk.inj hlast).2.symm (Deed.outcome_ne_answered _ _ _ _ _ _)
      · exact h.led l u q m given k'' hpast

theorem Heeded.insert (h : Heeded past) (found : Option SessionId) {x : Nat × Deed} {zs : History}
    {u n : Nat} {r : TaskRun} (hsub : (x :: (u, .outcome r n found) :: zs).Sublist past)
    (hx : x ≠ (u, .answered r n found)) :
    (x :: (u, .answered r n found) :: (u, .outcome r n found) :: zs).Sublist past := by
  obtain ⟨l, rest, rfl, hl, hrest⟩ := List.cons_sublist_iff.mp hsub
  obtain ⟨m, k, rfl, hm, hk⟩ := List.cons_sublist_iff.mp hrest
  obtain ⟨m₁, m₂, rfl⟩ := List.append_of_mem hm
  obtain ⟨l', hled⟩ := h.led (l ++ m₁) u r n found (m₂ ++ k) (by simp)
  have hbefore : x ∈ l' := by
    have hthere : x ∈ l' ++ [(u, .answered r n found)] := hled ▸ List.mem_append_left _ hl
    exact (mem_concat.mp hthere).resolve_right hx
  have hpast : l ++ (m₁ ++ (u, .outcome r n found) :: m₂ ++ k) =
      l' ++ ((u, .answered r n found) :: (u, .outcome r n found) :: (m₂ ++ k)) := by
    rw [List.append_assoc m₁, ← List.append_assoc l, hled, List.append_assoc]
    rfl
  rw [hpast]
  apply List.Sublist.append (List.singleton_sublist.mpr hbefore)
  exact ((hk.trans (List.sublist_append_right m₂ k)).cons_cons _).cons_cons _

end History

end LanguageSessions
