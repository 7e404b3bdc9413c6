import Mathlib.Algebra.Order.BigOperators.Group.List
import Mathlib.Algebra.Order.Group.Nat
import LanguageSessions.Proofs.Scheduler.Soundness

namespace LanguageSessions

namespace Course

variable {c : Course}

structure Quiet (c : Course) : Prop where
  armed : c.scheduler.armed = []
  background : c.scheduler.background = []
  idle : c.bench.doing = none

theorem Quiet.not_waiting (h : c.Quiet) (r : TaskRun) : r ∉ c.bench.waiting := by
  simp [Bench.mem_waiting, h.armed, h.background]

theorem Sound.followed (h : c.Sound) (hquiet : c.Quiet) {x : Nat × Deed} {r : TaskRun}
    (hx : x ∈ c.past) (hasks : x.2.Asks r) (hvalid : r.token ∉ c.scheduler.cancelled) :
    ∃ s n, Precedes c.past x (s, .began r n) := by
  rcases h.told.orderly.followed hx hasks with hphase | hbegan
  · exact absurd ((h.placed _).waits r hphase rfl hvalid) (hquiet.not_waiting r)
  · exact hbegan

/-- An attempt was answered after it had begun: with a session its task ran on it and came to an end,
and with none it was given up. -/
def Served (past : History) (s : Nat) (r : TaskRun) (n : Nat) : Prop :=
  (∃ u, [(s, .began r n), (u, .answered r n none), (u, .missed r n)].Sublist past) ∨
    ∃ u id v e, [(s, .began r n), (u, .answered r n (some id)), (u, .ran r n id),
      (v, .ended r n e)].Sublist past

theorem Sound.answered (h : c.Sound) (hheeded : c.past.Heeded) (hquiet : c.Quiet) {s n : Nat}
    {r : TaskRun} (hbegan : (s, .began r n) ∈ c.past) : Served c.past s r n := by
  have hidle : ∀ q : TaskRun, c.bench.doing ≠ some (.run q) := by simp [hquiet.idle]
  rcases h.told.orderly.fate hbegan with hphase | ⟨u, hmissed⟩ | ⟨u, id, hran, hphase | ⟨v, e, hended⟩⟩
  · exact absurd (((h.placed _).seeking r n).mp hphase).1.1 (hidle r)
  · exact .inl ⟨u, hheeded.insert none hmissed (by simp)⟩
  · exact absurd (((h.placed _).working r n id).mp hphase).1.1 (hidle r)
  · exact .inr ⟨u, id, v, e, hheeded.insert (some id) hended (by simp)⟩

def turn (id : SessionId) (e : JobEnd) : List Act := [.answer (some id), .finish e, .take]

theorem take_next (hidle : c.bench.doing = none) :
    c.take.taken = c.taken ++ c.scheduler.background.take 1 ∧
      c.take.scheduler = { c.scheduler with background := c.scheduler.background.drop 1 } ∧
      (c.scheduler.background = [] → c.take.bench.doing = none) := by
  cases hqueue : c.scheduler.background with
  | nil =>
    have hsame : ({ c.scheduler with background := [] } : Scheduler) = c.scheduler := by rw [← hqueue]
    simp [take, hidle, hqueue, hsame]
  | cons j rest =>
    have htake := c.bench.take_scheduler hidle hqueue
    refine ⟨?_, ?_, by simp⟩
    · simp only [take, hidle, hqueue]
      split <;> rfl
    · simp only [take, hidle, hqueue]
      split <;> exact htake

theorem ended_background (s : Scheduler) (r : TaskRun) (e : RunEnd) (now : Nat) :
    (s.ended r e now).background = s.background := by
  unfold Scheduler.ended
  split
  · split <;> rfl
  · rfl

theorem finish_run {r : TaskRun} {id : SessionId} (hdoing : c.bench.doing = some (.run r))
    (hsession : c.session = some id) (e : JobEnd) :
    (c.finish e).bench.doing = none ∧ (c.finish e).taken = c.taken ∧
      (c.finish e).scheduler = c.scheduler.ended r e.runEnd c.now := by
  have hfinish : c.bench.finish e.runEnd c.now =
      { scheduler := c.scheduler.ended r e.runEnd c.now } := by
    simp [Bench.finish, hdoing]
  simp only [finish, hdoing, hsession, hfinish]
  exact ⟨rfl, rfl, rfl⟩

def Ends (s : Scheduler) (e : JobEnd) (now : Nat) (t : Scheduler) : Prop :=
  t = s ∨ ∃ r, t = s.ended r e.runEnd now

theorem finish_next (c : Course) (id : SessionId) (e : JobEnd) :
    ((c.answer (some id)).finish e).bench.doing = none ∧
      ((c.answer (some id)).finish e).taken = c.taken ∧
      Ends c.scheduler e c.now ((c.answer (some id)).finish e).scheduler := by
  cases hdoing : c.bench.doing with
  | none =>
    simp only [answer, finish, hdoing]
    exact ⟨trivial, trivial, .inl rfl⟩
  | some j =>
    cases j with
    | run r =>
      cases hsession : c.session with
      | none =>
        simp only [answer, hdoing, hsession]
        obtain ⟨hidle, htaken, hended⟩ :=
          finish_run (c := ({ c with session := some id } : Course).note _) hdoing rfl e
        exact ⟨hidle, htaken, .inr ⟨r, hended⟩⟩
      | some id' =>
        simp only [answer, hdoing, hsession]
        obtain ⟨hidle, htaken, hended⟩ := finish_run hdoing hsession e
        exact ⟨hidle, htaken, .inr ⟨r, hended⟩⟩
    | _ =>
      simp only [answer, finish, hdoing, Bench.finish]
      exact ⟨trivial, trivial, .inl rfl⟩

theorem turn_next (c : Course) (id : SessionId) (e : JobEnd) : ∃ s, Ends c.scheduler e c.now s ∧
    (c.run (turn id e)).taken = c.taken ++ s.background.take 1 ∧
      (c.run (turn id e)).scheduler = { s with background := s.background.drop 1 } ∧
      (s.background = [] → (c.run (turn id e)).bench.doing = none) := by
  obtain ⟨past, hheard⟩ := c.hear_eq (some id)
  have hturn : c.run (turn id e) =
      ((({ c with past := past } : Course).answer (some id)).finish e).take :=
    congrArg (fun d => ((d.answer (some id)).finish e).take) hheard
  obtain ⟨hidle, htaken, hends⟩ := finish_next { c with past := past } id e
  obtain ⟨hnext, hrest, hlast⟩ := take_next hidle
  rw [htaken] at hnext
  rw [hturn]
  exact ⟨_, hends, hnext, hrest, hlast⟩

theorem onward (c : Course) (id : SessionId) (es : List JobEnd) :
    (c.run (es.flatMap (turn id))).taken = c.taken ++ c.scheduler.background.take es.length := by
  induction es generalizing c with
  | nil => simp [run]
  | cons e es ih =>
    obtain ⟨s, hends, htaken, hscheduler, -⟩ := turn_next c id e
    have hqueue : s.background = c.scheduler.background := by
      rcases hends with rfl | ⟨r, rfl⟩
      · rfl
      · exact ended_background _ _ _ _
    rw [List.flatMap_cons, run_append, ih, htaken, hscheduler, hqueue, List.append_assoc,
      ← List.take_add, List.length_cons, Nat.add_comm 1]

theorem turn_ok (c : Course) (id : SessionId) :
    (c.run (turn id .ok)).scheduler =
        { c.scheduler with background := c.scheduler.background.drop 1 } ∧
      (c.scheduler.background = [] → (c.run (turn id .ok)).bench.doing = none) := by
  obtain ⟨s, hends, -, hscheduler, hlast⟩ := turn_next c id .ok
  obtain rfl : s = c.scheduler := by
    rcases hends with rfl | ⟨r, rfl⟩
    · rfl
    · rfl
  exact ⟨hscheduler, hlast⟩

theorem turns_ok (c : Course) (id : SessionId) (n : Nat) :
    (c.run ((List.replicate n .ok).flatMap (turn id))).scheduler =
      { c.scheduler with background := c.scheduler.background.drop n } := by
  induction n generalizing c with
  | zero => rfl
  | succ n ih =>
    rw [List.replicate_succ, List.flatMap_cons, run_append, ih, (c.turn_ok id).1]
    simp

def rest (id : SessionId) (millis jobs : Nat) : List Act :=
  .pass millis :: .expire :: (List.replicate jobs .ok).flatMap (turn id)

/-- A scheduler that is left alone comes to rest. -/
theorem rests (c : Course) (id : SessionId) : ∃ millis jobs, (c.run (rest id millis jobs)).Quiet := by
  obtain ⟨millis, hdue⟩ : ∃ millis, ∀ a ∈ c.scheduler.armed, a.due ≤ c.now + millis := by
    refine ⟨(c.scheduler.armed.map Armed.due).sum, ?_⟩
    intro a ha
    have hle := List.le_sum_of_mem (List.mem_map_of_mem (f := Armed.due) ha)
    omega
  obtain ⟨d, hd⟩ : ∃ d, d = c.run [.pass millis, .expire] := ⟨_, rfl⟩
  have harmed : d.scheduler.armed = [] := by
    rw [hd]
    change (c.scheduler.expire (c.now + millis)).armed = []
    unfold Scheduler.expire
    rw [List.partition_eq_filter_filter]
    apply List.filter_eq_nil_iff.mpr
    simpa using hdue
  have hrest : ∀ jobs, c.run (rest id millis jobs) =
      d.run ((List.replicate jobs .ok).flatMap (turn id)) := by
    intro jobs
    rw [hd, ← run_append]
    rfl
  refine ⟨millis, d.scheduler.background.length + 1, ?_⟩
  rw [hrest, List.replicate_succ', List.flatMap_append, run_append, List.flatMap_singleton]
  have hturns := d.turns_ok id d.scheduler.background.length
  rw [List.drop_length] at hturns
  generalize d.run _ = f at hturns ⊢
  obtain ⟨hlast, hidle⟩ := f.turn_ok id
  rw [hturns] at hlast hidle
  exact {
    armed := (congrArg Scheduler.armed hlast).trans harmed
    background := congrArg Scheduler.background hlast
    idle := hidle rfl }

end Course

end LanguageSessions
