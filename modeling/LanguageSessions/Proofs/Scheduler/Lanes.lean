import LanguageSessions.Proofs.Scheduler.Bench
import LanguageSessions.Simulation.Command

namespace LanguageSessions.Simulation

def Current.run? : Current → Option TaskRun
  | .seeking r _ _ => some r
  | .working r _ _ _ _ _ => some r
  | .asking r _ _ _ _ => some r
  | .own _ _ _ => none

namespace World

structure Shows (w : World) (b : Bench) : Prop where
  scheduler : w.scheduler = some b.scheduler
  doing : w.background.map Current.run? = b.doing.map Job.run?

def Follows (w : World) (b : Bench) : Prop := ∃ es, w.Shows (b.run es)

variable {w : World} {b : Bench}

def lanes (w : World) : Option Scheduler × Option Current := (w.scheduler, w.background)

theorem Shows.congr (h : w.Shows b) {v : World} (hv : v.lanes = w.lanes) : v.Shows b where
  scheduler := (congrArg Prod.fst hv).trans h.scheduler
  doing := by
    have hbackground : v.background = w.background := congrArg Prod.snd hv
    rw [hbackground, h.doing]

theorem change_lanes {id : SessionId} {f : Session → Session × α} {v : World} {a : Option α}
    (hv : w.change id f = (v, a)) : v.lanes = w.lanes :=
  congrArg (fun x => x.1.lanes) hv.symm

theorem Shows.follows (h : w.Shows b) : w.Follows b := ⟨[], h⟩

theorem Shows.follows_step (now : Nat) (e : Bench.Event) (h : w.Shows (b.step now e)) : w.Follows b :=
  ⟨[(now, e)], h⟩

theorem Shows.actOnScheduler (h : w.Shows b) (a : SchedulerAct) :
    (w.actOnScheduler b.scheduler a).1.Follows b := by
  cases a with
  | schedule file name runs =>
    exact Shows.follows_step w.now (.schedule file ⟨name, w.objects.length⟩) ⟨rfl, h.doing⟩
  | reschedule file name =>
    exact Shows.follows_step w.now (.reschedule file name) ⟨rfl, h.doing⟩
  | cancel file name => exact Shows.follows_step w.now (.cancel file name) ⟨rfl, h.doing⟩
  | cancelAll file => exact Shows.follows_step w.now (.cancelAll file) ⟨rfl, h.doing⟩
  | runAllNow file => exact Shows.follows_step w.now (.runAllNow file) ⟨rfl, h.doing⟩
  | background name millis =>
    exact Shows.follows_step w.now (.post w.ownJobs.length) ⟨rfl, h.doing⟩
  | event name millis =>
    exact Shows.follows_step w.now (.postEvent (.own w.ownJobs.length)) ⟨rfl, h.doing⟩
  | publish label count =>
    apply Shows.follows
    simp only [World.actOnScheduler]
    split
    · split <;> exact ⟨h.scheduler, h.doing⟩
    · exact ⟨h.scheduler, h.doing⟩
  | closeChannel =>
    apply Shows.follows
    simp only [World.actOnScheduler]
    split <;> exact ⟨h.scheduler, h.doing⟩
  | _ => exact Shows.follows ⟨h.scheduler, h.doing⟩

theorem Shows.advanceDelays (h : w.Shows b) : (w.advanceDelays b.scheduler).1.Follows b := by
  unfold World.advanceDelays
  split
  · exact Shows.follows_step w.now .expire ⟨rfl, h.doing⟩
  · exact h.follows

theorem Shows.advanceEvents (h : w.Shows b) : (w.advanceEvents b.scheduler).1.Follows b := by
  unfold World.advanceEvents
  split
  · split <;> exact Shows.follows ⟨h.scheduler, h.doing⟩
  · exact Shows.follows ⟨h.scheduler, h.doing⟩
  · split
    · exact h.follows
    · next j rest hevents =>
      apply Shows.follows_step w.now .takeEvent
      cases j with
      | own n =>
        dsimp only
        split <;> exact ⟨by simp [Bench.step, Scheduler.takeEvent, hevents], h.doing⟩
      | _ => exact ⟨by simp [Bench.step, Scheduler.takeEvent, hevents], h.doing⟩

theorem Shows.idle_iff (h : w.Shows b) : w.background = none ↔ b.doing = none := by
  rw [← Option.map_eq_none_iff (f := Current.run?), h.doing, Option.map_eq_none_iff]

theorem Shows.doing_run (h : w.Shows b) {r : TaskRun}
    (hrun : w.background.map Current.run? = some (some r)) : b.doing = some (.run r) := by
  have hdoing := h.doing
  rw [hrun, eq_comm, Option.map_eq_some_iff] at hdoing
  obtain ⟨j, hj, hjob⟩ := hdoing
  cases j with
  | run q => rw [hj, Option.some.inj hjob]
  | _ => cases hjob

theorem Shows.endRun (h : w.Shows b) {r : TaskRun}
    (hrun : w.background.map Current.run? = some (some r)) (v : World) (id : SessionId)
    (n start : Nat) (ending : ScriptedEnd) (answer : Option (Option Json)) :
    (v.endRun b.scheduler r id n start ending answer).Follows b := by
  have hend : ∃ e, (v.endRun b.scheduler r id n start ending answer).scheduler =
      some (b.scheduler.ended r e v.now) := ⟨_, rfl⟩
  obtain ⟨e, he⟩ := hend
  have hstep : b.step v.now (.finish e) = { scheduler := b.scheduler.ended r e v.now } := by
    simp only [Bench.step, Bench.finish, h.doing_run hrun]
  apply Shows.follows_step v.now (.finish e)
  rw [hstep]
  exact ⟨he, rfl⟩

theorem Shows.idle (h : w.Shows b) {v : World} (hscheduler : v.scheduler = w.scheduler)
    (hidle : v.background = none) : v.Follows b := by
  apply Shows.follows_step v.now .miss
  exact ⟨hscheduler.trans h.scheduler, by rw [hidle]; rfl⟩

theorem Shows.takeUp (h : w.Shows b) (hidle : w.background = none) {j : Job} {rest : List Job}
    (hqueue : b.scheduler.background = j :: rest) {v : World}
    (hscheduler : v.scheduler = some { b.scheduler with background := rest })
    (hdoing : v.background.map Current.run? = b.take.doing.map Job.run? ∨ v.background = none) :
    v.Follows b := by
  have htaken := hscheduler.trans (congrArg some (b.take_scheduler (h.idle_iff.mp hidle) hqueue).symm)
  rcases hdoing with hdoing | hdoing
  · exact Shows.follows_step v.now .take ⟨htaken, hdoing⟩
  · refine ⟨[(v.now, .take), (v.now, .miss)], htaken, ?_⟩
    rw [hdoing]
    rfl

theorem nextPlan_scheduler (w : World) (object : Nat) :
    (w.nextPlan object).1.scheduler = w.scheduler := by
  unfold nextPlan
  split <;> rfl

theorem Shows.goOn (h : w.Shows b) {v : World} (hscheduler : v.scheduler = w.scheduler)
    (hdoing : v.background.map Current.run? = w.background.map Current.run?) : v.Follows b :=
  Shows.follows ⟨hscheduler.trans h.scheduler, hdoing.trans h.doing⟩

theorem Shows.advanceBackground (h : w.Shows b) :
    (w.advanceBackground b.scheduler).1.Follows b := by
  unfold World.advanceBackground
  split
  · next hidle =>
    split
    · exact h.follows
    · next j rest hqueue =>
      have hnone := h.idle_iff.mp hidle
      cases j with
      | run r =>
        dsimp only
        split
        · exact h.takeUp hidle hqueue rfl (.inr hidle)
        · next hvalid =>
          apply h.takeUp hidle hqueue rfl
          simp only [Bench.take, hnone, hqueue, if_neg hvalid]
          exact .inl rfl
      | rerunAll => exact h.takeUp hidle hqueue rfl (.inr hidle)
      | own n =>
        dsimp only
        split
        · exact h.takeUp hidle hqueue rfl (.inr hidle)
        · apply h.takeUp hidle hqueue rfl
          simp only [Bench.take, hnone, hqueue]
          exact .inl rfl
  · next r t c hseeking =>
    have hrun : w.background.map Current.run? = some (some r) := by rw [hseeking]; rfl
    dsimp only
    split
    · exact Shows.follows ⟨h.scheduler, h.doing⟩
    · exact h.goOn rfl hrun.symm
    · exact h.goOn (nextPlan_scheduler _ _) hrun.symm
    · exact h.idle rfl rfl
  · next r id n start due plan hworking =>
    have hrun : w.background.map Current.run? = some (some r) := by rw [hworking]; rfl
    split
    · exact h.follows
    · split
      · exact h.endRun hrun ..
      · split
        all_goals dsimp only
        · next hv => exact h.goOn (congrArg Prod.fst (change_lanes hv) :) hrun.symm
        · exact h.endRun hrun ..
        · exact h.endRun hrun ..
  · next r id n start x hasking =>
    have hrun : w.background.map Current.run? = some (some r) := by rw [hasking]; rfl
    split
    · next hv => exact (h.congr (change_lanes hv)).follows
    · split
      all_goals
        dsimp only
        exact h.endRun hrun ..
    · dsimp only
      exact h.endRun hrun ..
  · next name start due howns =>
    split
    · exact h.follows
    · exact h.idle rfl rfl

theorem Follows.trans {v : World} (h : w.Follows b) (hv : ∀ c, w.Shows c → v.Follows c) :
    v.Follows b := by
  obtain ⟨es, hw⟩ := h
  obtain ⟨fs, hv⟩ := hv _ hw
  refine ⟨es ++ fs, ?_⟩
  rw [Bench.run_append]
  exact hv

theorem Shows.heed (h : w.Shows b) {v : World} (news : News)
    (hscheduler : v.scheduler = some (b.scheduler.heed news)) (hdoing : v.background = w.background) :
    v.Follows b := by
  have hlane : v.background.map Current.run? = b.doing.map Job.run? := (congrArg _ hdoing).trans h.doing
  cases news with
  | closed => exact Shows.follows ⟨hscheduler, hlane⟩
  | _ => exact Shows.follows_step v.now (.postEvent .rerunAll) ⟨hscheduler, hlane⟩

theorem Shows.advanceFollowers (h : w.Shows b) : w.advanceFollowers.1.Follows b := by
  unfold World.advanceFollowers
  apply List.foldlRecOn (motive := fun x : Moved => x.1.Follows b)
  · exact h.follows
  · intro x hx i _
    apply hx.trans
    intro c hc
    dsimp only
    split
    · next f s hf hs =>
      obtain rfl := Option.some.inj (hs.symm.trans hc.scheduler)
      split
      · exact hc.follows
      · split
        · exact hc.follows
        · next news follower _ => exact hc.heed news rfl rfl
    · exact hc.follows

end World

end LanguageSessions.Simulation
