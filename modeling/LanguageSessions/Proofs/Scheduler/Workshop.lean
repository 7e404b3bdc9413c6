import LanguageSessions.Proofs.Registry.Launches
import LanguageSessions.Proofs.Registry.Reuse
import LanguageSessions.Proofs.Scheduler.Renewal

/-!
A scheduler whose sessions come from a registry that it follows. A run that is taken up asks the
registry for the session of its file; every session that the registry announces makes the scheduler
run all its tasks anew.
-/
namespace LanguageSessions

structure Workshop where
  service : Service
  course : Course
  ticket : Nat := 0
  follower : Follower := ⟨0⟩

namespace Workshop

inductive Move where
  | pass (millis : Nat)
  | expire
  | fire (i : Nat)
  | take
  | answer
  | finish (e : JobEnd)
  | takeEvent
  | hear
  | serve (a : Service.Act)

inductive Order where
  | schedule (file : String) (task : Task)
  | reschedule (file name : String)
  | cancel (file name : String)
  | cancelAll (file : String)
  | runAllNow (file : String)
  | post (n : Nat)
  | postEvent (n : Nat)

def Order.act : Order → Course.Act
  | schedule file task => .schedule file task
  | reschedule file name => .reschedule file name
  | cancel file name => .cancel file name
  | cancelAll file => .cancelAll file
  | runAllNow file => .runAllNow file
  | post n => .post n
  | postEvent n => .postEvent (.own n)

inductive Act where
  | move (m : Move)
  | order (o : Order)
  | ask (d : Demand)

def new (r : Registry) (debounce : Nat) : Workshop :=
  { service := Service.new r, course := Course.start debounce }

def feed (w : Workshop) : Feed :=
  { capacity := 64, sent := w.service.registry.announced.length }

def take (w : Workshop) : Workshop :=
  match w.course.bench.doing, w.course.take.bench.doing with
  | none, some (.run r) =>
    { w with
      course := w.course.take
      ticket := w.service.calls.length
      service := w.service.step (.ask (.resolveFile r.file)) }
  | _, _ => { w with course := w.course.take }

def answer (w : Workshop) : Workshop :=
  match w.service.reply? w.ticket with
  | some (.resolved found) => { w with course := w.course.step (.answer found) }
  | _ => w

def finish (w : Workshop) (e : JobEnd) : Workshop :=
  match e with
  | .interrupted => w
  | e => { w with course := w.course.step (.finish e) }

def hear (w : Workshop) : Workshop :=
  match w.follower.hear? w.feed with
  | none => w
  | some (news, follower) =>
    { w with
      follower := follower
      course := w.course.putScheduler (w.course.scheduler.heed news) }

/-- The registry goes on. Nobody calls it but runs that begin, and its clock is that of the course. -/
def serve (w : Workshop) (a : Service.Act) : Workshop :=
  match a with
  | .ask _ => w
  | .pass _ => w
  | a => { w with service := w.service.step a }

def move (w : Workshop) : Move → Workshop
  | .pass millis =>
    { w with service := w.service.step (.pass millis), course := w.course.step (.pass millis) }
  | .expire => { w with course := w.course.step .expire }
  | .fire i => { w with course := w.course.step (.fire i) }
  | .take => w.take
  | .answer => w.answer
  | .finish e => w.finish e
  | .takeEvent => { w with course := w.course.step .takeEvent }
  | .hear => w.hear
  | .serve a => w.serve a

def step (w : Workshop) : Act → Workshop
  | .move m => w.move m
  | .order o => { w with course := w.course.step o.act }
  | .ask d => { w with service := w.service.step (.ask d) }

def run (w : Workshop) (as : List Act) : Workshop := as.foldl step w

def moves (w : Workshop) (ms : List Move) : Workshop := ms.foldl move w

theorem moves_append (w : Workshop) (ms ns : List Move) : w.moves (ms ++ ns) = (w.moves ms).moves ns :=
  List.foldl_append

structure Sound (w : Workshop) : Prop where
  service : w.service.Sound
  course : w.course.Sound

variable {w w' w'' : Workshop}

theorem take_parts (w : Workshop) : w.take.course = w.course.take ∧ w.take.follower = w.follower ∧
    ((∃ r, w.course.bench.doing = none ∧ w.course.take.bench.doing = some (.run r) ∧
        w.take.service = w.service.step (.ask (.resolveFile r.file))) ∨
      w.take.service = w.service) := by
  unfold take
  split
  · next r hidle hdoing => exact ⟨rfl, rfl, .inl ⟨r, hidle, hdoing, rfl⟩⟩
  · exact ⟨rfl, rfl, .inr rfl⟩

theorem hear_cases (w : Workshop) : w.hear = w ∨
    ∃ next, w.follower.next < next ∧ w.follower.next < w.feed.sent ∧
      w.hear = { w with
        follower := ⟨next⟩
        course := w.course.step (.postEvent .rerunAll) } := by
  unfold hear
  split
  · exact .inl rfl
  · next news follower hheard =>
    by_cases hlt : w.follower.next < w.feed.sent
    · obtain ⟨news', follower', heq, hnews, hnext, -⟩ := Follower.hear?_of_lt hlt
      obtain ⟨rfl, rfl⟩ := Prod.mk.inj (Option.some.inj (hheard.symm.trans heq))
      refine .inr ⟨follower.next, hnext, hlt, ?_⟩
      rw [Scheduler.heed_of_ne _ hnews]
      rfl
    · -- a feed that is never closed has nothing for a follower that has caught up
      have hcaught := Follower.hear?_of_le (Nat.le_of_not_lt hlt)
      rw [hheard] at hcaught
      cases hcaught

theorem answer_cases (w : Workshop) : w.answer = w ∨
    ∃ found, w.answer = { w with course := w.course.step (.answer found) } := by
  unfold answer
  split
  · next found _ => exact .inr ⟨found, rfl⟩
  · exact .inl rfl

theorem finish_cases (w : Workshop) (e : JobEnd) : w.finish e = w ∨
    e ≠ .interrupted ∧ w.finish e = { w with course := w.course.step (.finish e) } := by
  cases e with
  | interrupted => exact .inl rfl
  | _ => exact .inr ⟨by simp, rfl⟩

theorem serve_cases (w : Workshop) (a : Service.Act) : w.serve a = w ∨
    (∀ d, a ≠ .ask d) ∧ w.serve a = { w with service := w.service.step a } := by
  cases a with
  | ask d => exact .inl rfl
  | pass millis => exact .inl rfl
  | _ => exact .inr ⟨by simp, rfl⟩

theorem Sound.onCourse (h : w.Sound) (a : Course.Act) : { w with course := w.course.step a }.Sound :=
  ⟨h.service, h.course.step a⟩

theorem Sound.onService (h : w.Sound) (a : Service.Act) :
    { w with service := w.service.step a }.Sound :=
  ⟨(Service.step_leads h.service a).sound, h.course⟩

theorem Sound.move (h : w.Sound) (m : Move) : (w.move m).Sound := by
  cases m with
  | pass millis => exact (h.onService (.pass millis)).onCourse (.pass millis)
  | expire => exact h.onCourse .expire
  | fire i => exact h.onCourse (.fire i)
  | take =>
    change w.take.Sound
    obtain ⟨hcourse, -, hservice⟩ := w.take_parts
    have htaken := h.course.take
    rw [← hcourse] at htaken
    refine ⟨?_, htaken⟩
    rcases hservice with ⟨r, -, -, hservice⟩ | hservice
    · rw [hservice]
      exact (Service.step_leads h.service (.ask (.resolveFile r.file))).sound
    · rw [hservice]
      exact h.service
  | answer =>
    change w.answer.Sound
    rcases w.answer_cases with heq | ⟨found, heq⟩
    · rwa [heq]
    · rw [heq]
      exact h.onCourse (.answer found)
  | finish e =>
    change (w.finish e).Sound
    rcases w.finish_cases e with heq | ⟨-, heq⟩
    · rwa [heq]
    · rw [heq]
      exact h.onCourse (.finish e)
  | takeEvent => exact h.onCourse .takeEvent
  | hear =>
    change w.hear.Sound
    rcases w.hear_cases with heq | ⟨next, -, -, heq⟩
    · rwa [heq]
    · rw [heq]
      exact ⟨h.service, h.course.step (.postEvent .rerunAll)⟩
  | serve a =>
    change (w.serve a).Sound
    rcases w.serve_cases a with heq | ⟨-, heq⟩
    · rwa [heq]
    · rw [heq]
      exact h.onService a

theorem Sound.step (h : w.Sound) (a : Act) : (w.step a).Sound := by
  cases a with
  | move m => exact h.move m
  | order o => exact h.onCourse o.act
  | ask d => exact h.onService (.ask d)

theorem run_sound (r : Registry) (debounce : Nat) (as : List Act) :
    ((new r debounce).run as).Sound := by
  have hrun : ∀ w : Workshop, w.Sound → (w.run as).Sound := by
    induction as with
    | nil => exact fun w h => h
    | cons a as ih => exact fun w h => ih _ (h.step a)
  exact hrun _ ⟨Service.Sound.new r, Course.Sound.start debounce⟩

end Workshop

namespace Course

variable {c : Course}

def reruns (c : Course) : Nat := c.scheduler.events.count .rerunAll

structure Spends (c d : Course) : Prop where
  load : d.scheduler.load = c.scheduler.load
  attempts : c.attempts ≤ d.attempts
  work : d.attempts + d.scheduler.backlog + c.scheduler.load * d.reruns ≤
    c.attempts + c.scheduler.backlog + c.scheduler.load * c.reruns

theorem Spends.of_backlog {d : Course} (hfiles : d.scheduler.files = c.scheduler.files)
    (hevents : d.scheduler.events = c.scheduler.events) (hattempts : c.attempts ≤ d.attempts)
    (hwork : d.attempts + d.scheduler.backlog ≤ c.attempts + c.scheduler.backlog) : c.Spends d where
  load := by rw [Scheduler.load, Scheduler.shape, hfiles]; rfl
  attempts := hattempts
  work := by
    rw [reruns, hevents]
    exact Nat.add_le_add_right hwork _

theorem Spends.of_same {d : Course} (hscheduler : d.scheduler = c.scheduler)
    (hattempts : d.attempts = c.attempts) : c.Spends d := by
  apply Spends.of_backlog
  · rw [hscheduler]
  · rw [hscheduler]
  · exact Nat.le_of_eq hattempts.symm
  · exact Nat.le_of_eq (by rw [hattempts, hscheduler])

theorem spends_expire (c : Course) : c.Spends (c.step .expire) := by
  have hruns : ∀ es : List Armed,
      (es.map fun e => Job.run e.run).filterMap Job.run? = es.map Armed.run := by
    intro es
    rw [List.filterMap_map]
    exact List.filterMap_eq_map_iff_forall_eq_some.mpr fun e _ => rfl
  have hlength : (c.scheduler.armed.filter fun e => !decide (e.due ≤ c.now)).length +
      (c.scheduler.armed.filter fun e => decide (e.due ≤ c.now)).length =
        c.scheduler.armed.length := by
    rw [Nat.add_comm, ← List.length_append]
    exact (List.filter_append_perm _ _).length_eq
  have hbacklog : (c.scheduler.expire c.now).backlog = c.scheduler.backlog := by
    simp only [Scheduler.backlog, Scheduler.expire, List.partition_eq_filter_filter,
      List.filterMap_append, hruns, List.length_append, List.length_map]
    rw [← hlength, Nat.add_right_comm, Nat.add_assoc, Nat.add_comm _ (List.length _)]
    rfl
  exact .of_backlog (by rfl) (by rfl) (Nat.le_refl _) (Nat.le_of_eq (congrArg _ hbacklog))

theorem spends_fire (c : Course) (i : Nat) : c.Spends (c.step (.fire i)) := by
  simp only [step]
  split
  · exact .of_same rfl rfl
  · next e he =>
    split
    · obtain ⟨hlt, -⟩ := List.getElem?_eq_some_iff.mp he
      have hlength := List.length_eraseIdx_add_one hlt
      have hbacklog : (c.scheduler.fire i).backlog = c.scheduler.backlog := by
        simp only [Scheduler.backlog, Scheduler.fire, he, List.filterMap_append,
          List.filterMap_cons, Job.run?, List.filterMap_nil, List.length_append,
          List.length_singleton]
        omega
      apply Spends.of_backlog
      · simp [putScheduler, put, Scheduler.fire, he]
      · simp [putScheduler, put, Scheduler.fire, he]
      · exact Nat.le_refl _
      · exact Nat.le_of_eq (congrArg _ hbacklog)
    · exact .of_same rfl rfl

theorem spends_take (c : Course) : c.Spends c.take ∧
    ∀ r, c.bench.doing = none → c.take.bench.doing = some (.run r) →
      c.take.attempts = c.attempts + 1 := by
  rcases c.take_cases with hsame | ⟨j, rest, hidle, hqueue, htaken⟩
  · rw [hsame]
    refine ⟨.of_same rfl rfl, ?_⟩
    intro r hidle hdoing
    cases hidle.symm.trans hdoing
  · have hbacklog : c.scheduler.backlog =
        ({ c.scheduler with background := rest } : Scheduler).backlog + j.run?.toList.length := by
      cases hrun : j.run? with
      | none => simp [Scheduler.backlog, hqueue, hrun]
      | some r => simp [Scheduler.backlog, hqueue, hrun, Nat.add_assoc]
    have hle := Nat.le.intro hbacklog.symm
    rcases htaken with ⟨r, -, -, htake⟩ | ⟨r, rfl, -, htake⟩ | ⟨hj, htake⟩
    · rw [htake]
      exact ⟨.of_backlog rfl rfl (Nat.le_refl _) (Nat.add_le_add_left hle _), by simp⟩
    · rw [htake]
      refine ⟨.of_backlog rfl rfl (Nat.le_succ _) ?_, fun _ _ _ => rfl⟩
      rw [hbacklog]
      exact Nat.le_of_eq (Nat.add_right_comm _ _ _)
    · rw [htake]
      refine ⟨.of_backlog rfl rfl (Nat.le_refl _) (Nat.add_le_add_left hle _), ?_⟩
      exact fun r _ hdoing => absurd (Option.some.inj hdoing) (hj r)

theorem spends_answer (c : Course) (found : Option SessionId) : c.Spends (c.step (.answer found)) := by
  obtain ⟨past, hheard⟩ := c.hear_eq found
  simp only [step, hheard, answer]
  split
  · exact .of_same rfl rfl
  · exact .of_same rfl rfl
  · exact .of_same rfl rfl

theorem finish_scheduler (b : Bench) {e : JobEnd} (he : e ≠ .interrupted) (now : Nat) :
    (b.finish e.runEnd now).scheduler = b.scheduler := by
  unfold Bench.finish
  split
  · cases e with
    | interrupted => exact absurd rfl he
    | _ => rfl
  · rfl

theorem spends_finish (c : Course) {e : JobEnd} (he : e ≠ .interrupted) :
    c.Spends (c.step (.finish e)) := by
  have hscheduler := finish_scheduler c.bench he c.now
  simp only [step, finish]
  split
  · exact .of_same hscheduler rfl
  · exact .of_same rfl rfl
  · exact .of_same hscheduler rfl
  · exact .of_same rfl rfl

theorem runAllNow_attempts (c : Course) (file : String) : (c.runAllNow file).attempts = c.attempts := by
  unfold runAllNow
  split
  · rfl
  · exact List.foldlRecOn (motive := fun (d : Course) => d.attempts = c.attempts) _ _ rfl
      fun _ hd _ _ => hd

theorem rerunAll_attempts (c : Course) : c.rerunAll.attempts = c.attempts := by
  unfold rerunAll
  exact List.foldlRecOn (motive := fun (d : Course) => d.attempts = c.attempts) _ _ rfl
    fun d hd file _ => (d.runAllNow_attempts file).trans hd

theorem spends_takeEvent (h : c.Sound) : c.Spends (c.step .takeEvent) := by
  simp only [step]
  split
  · exact .of_same rfl rfl
  · next rest hevents =>
    obtain ⟨t, ht⟩ : ∃ t : Scheduler, t = { c.scheduler with events := rest } := ⟨_, rfl⟩
    have htidy : t.Tidy := h.bench.tidy.congr (ht ▸ rfl)
    obtain ⟨hshape, hbacklog⟩ := htidy.rerunAll_backlog c.now
    have hscheduler : (c.putScheduler t).rerunAll.scheduler = t.rerunAll c.now := by
      rw [scheduler, rerunAll_bench]
      rfl
    have hattempts : (c.putScheduler t).rerunAll.attempts = c.attempts := rerunAll_attempts _
    have hold : t.load = c.scheduler.load ∧ t.backlog = c.scheduler.backlog ∧ t.events = rest := by
      rw [ht]
      exact ⟨rfl, rfl, rfl⟩
    have hreruns : c.reruns = rest.count .rerunAll + 1 := by
      rw [reruns, hevents, List.count_cons_self]
    rw [← ht]
    refine ⟨?_, Nat.le_of_eq hattempts.symm, ?_⟩
    · rw [hscheduler, Scheduler.load, hshape]
      exact hold.1
    · rw [hattempts, hreruns, Nat.mul_succ, reruns, hscheduler, Scheduler.rerunAll_events, hold.2.2]
      rw [hold.1, hold.2.1] at hbacklog
      omega
  · next j rest hnot hevents =>
    refine ⟨rfl, Nat.le_refl _, Nat.add_le_add_left (Nat.mul_le_mul_left _ ?_) _⟩
    rw [reruns, reruns, hevents]
    exact List.count_le_count_cons

end Course

namespace Workshop

variable {w w' w'' : Workshop}

def load (w : Workshop) : Nat := w.course.scheduler.load

def backlog (w : Workshop) : Nat := w.course.scheduler.backlog

def attempts (w : Workshop) : Nat := w.course.attempts

def launches (w : Workshop) : Nat := w.service.registry.launches.length

def announcements (w : Workshop) : Nat := w.service.registry.announced.length

def echoes (w : Workshop) : Nat := w.course.reruns + (w.announcements - w.follower.next)

structure Pays (w w' : Workshop) : Prop where
  load : w'.load = w.load
  attempts : w.attempts ≤ w'.attempts
  announcements : w.announcements ≤ w'.announcements
  work : w'.attempts + w'.backlog + w.load * (w'.echoes + w.announcements) ≤
    w.attempts + w.backlog + w.load * (w.echoes + w'.announcements)
  launches : w'.launches + w'.service.eager + w.attempts ≤
    w.launches + w.service.eager + w'.attempts

theorem Pays.refl (w : Workshop) : w.Pays w :=
  ⟨rfl, Nat.le_refl _, Nat.le_refl _, Nat.le_refl _, Nat.le_refl _⟩

theorem Pays.trans (h : w.Pays w') (k : w'.Pays w'') : w.Pays w'' where
  load := k.load.trans h.load
  attempts := Nat.le_trans h.attempts k.attempts
  announcements := Nat.le_trans h.announcements k.announcements
  work := by
    have hfirst := h.work
    have hsecond := k.work
    rw [h.load] at hsecond
    rw [Nat.mul_add] at hfirst hsecond ⊢
    rw [Nat.mul_add] at hfirst hsecond ⊢
    omega
  launches := by
    have hfirst := h.launches
    have hsecond := k.launches
    omega

theorem Pays.of_spends {d : Course} (h : w.course.Spends d) : w.Pays { w with course := d } where
  load := h.load
  attempts := h.attempts
  announcements := Nat.le_refl _
  work := by
    have hwork := h.work
    change d.attempts + d.scheduler.backlog + w.course.scheduler.load *
        (d.reruns + (w.announcements - w.follower.next) + w.announcements) ≤
      w.course.attempts + w.course.scheduler.backlog + w.course.scheduler.load *
        (w.course.reruns + (w.announcements - w.follower.next) + w.announcements)
    simp only [Nat.mul_add]
    omega
  launches := Nat.add_le_add_left h.attempts _

theorem Pays.of_service {σ : Service}
    (hannounced : w.announcements ≤ σ.registry.announced.length)
    (hlaunches : σ.registry.launches.length + σ.eager ≤ w.launches + w.service.eager) :
    w.Pays { w with service := σ } where
  load := rfl
  attempts := Nat.le_refl _
  announcements := hannounced
  work := by
    apply Nat.add_le_add_left
    apply Nat.mul_le_mul_left
    change w.course.reruns + (σ.registry.announced.length - w.follower.next) + _ ≤
      w.course.reruns + (w.announcements - w.follower.next) + σ.registry.announced.length
    omega
  launches := Nat.add_le_add_right hlaunches _

theorem Sound.announcements_step (h : w.Sound) (a : Service.Act) :
    w.announcements ≤ (w.service.step a).registry.announced.length := by
  obtain ⟨new, hmoves, -⟩ := (Service.step_leads h.service a).moves
  rw [hmoves.announced, List.length_append]
  exact Nat.le_add_right _ _

theorem Sound.pays_serve (h : w.Sound) {a : Service.Act} (ha : ∀ d, a ≠ .ask d) :
    w.Pays { w with service := w.service.step a } :=
  .of_service (h.announcements_step a) (Service.step_launches h.service ha)

theorem pays_take (w : Workshop) : w.Pays w.take := by
  obtain ⟨hspends, hbegun⟩ := w.course.spends_take
  unfold take
  split
  · next r hidle hdoing =>
    obtain ⟨hlaunches, heager⟩ := w.service.ask_launches (.resolveFile r.file)
    have hone := hbegun r hidle hdoing
    have hpaid : w.Pays { w with course := w.course.take } := .of_spends hspends
    -- The call that may launch a server is paid for by the attempt.
    refine ⟨hpaid.load, hpaid.attempts, hpaid.announcements, hpaid.work, ?_⟩
    unfold launches attempts
    dsimp only
    rw [hlaunches, hone]
    omega
  · exact .of_spends hspends

theorem pays_hear (w : Workshop) : w.Pays w.hear := by
  rcases w.hear_cases with heq | ⟨next, hnext, hsent, heq⟩
  · rw [heq]
    exact .refl w
  · rw [heq]
    refine ⟨rfl, Nat.le_refl _, Nat.le_refl _, ?_, Nat.le_refl _⟩
    apply Nat.add_le_add_left
    apply Nat.mul_le_mul_left
    apply Nat.add_le_add_right
    have hreruns : (w.course.step (.postEvent .rerunAll)).reruns = w.course.reruns + 1 := by
      change (w.course.scheduler.events ++ [Job.rerunAll]).count Job.rerunAll = _
      rw [List.count_append]
      rfl
    change w.follower.next < w.announcements at hsent
    change (w.course.step (.postEvent .rerunAll)).reruns + (w.announcements - next) ≤
      w.course.reruns + (w.announcements - w.follower.next)
    rw [hreruns]
    omega

theorem Sound.pays (h : w.Sound) (m : Move) : w.Pays (w.move m) := by
  cases m with
  | pass millis =>
    have hserved := h.pays_serve (a := .pass millis) (by simp)
    exact hserved.trans (.of_spends (.of_same rfl rfl))
  | expire => exact .of_spends w.course.spends_expire
  | fire i => exact .of_spends (w.course.spends_fire i)
  | take => exact w.pays_take
  | answer =>
    change w.Pays w.answer
    rcases w.answer_cases with heq | ⟨found, heq⟩
    · rw [heq]
      exact .refl w
    · rw [heq]
      exact .of_spends (w.course.spends_answer found)
  | finish e =>
    change w.Pays (w.finish e)
    rcases w.finish_cases e with heq | ⟨he, heq⟩
    · rw [heq]
      exact .refl w
    · rw [heq]
      exact .of_spends (w.course.spends_finish he)
  | takeEvent => exact .of_spends (Course.spends_takeEvent h.course)
  | hear => exact w.pays_hear
  | serve a =>
    change w.Pays (w.serve a)
    rcases w.serve_cases a with heq | ⟨ha, heq⟩
    · rw [heq]
      exact .refl w
    · rw [heq]
      exact h.pays_serve ha

theorem Sound.pays_moves (h : w.Sound) (ms : List Move) : w.Pays (w.moves ms) := by
  induction ms generalizing w with
  | nil => exact .refl w
  | cons m ms ih => exact (h.pays m).trans (ih (h.move m))

/-- Without a call from outside, no more runs are attempted than wait and than the announcements
make wait that are not dealt with or come meanwhile, each of them all tasks; and no more servers are
launched than calls may launch and runs are attempted. -/
theorem run_bounded (r : Registry) (debounce : Nat) (as : List Act) (ms : List Move) :
    let w := (new r debounce).run as
    let w' := w.moves ms
    w'.attempts ≤ w.attempts + w.backlog +
        w.load * (w.echoes + (w'.announcements - w.announcements)) ∧
      w'.launches ≤ w.launches + w.service.eager + (w'.attempts - w.attempts) := by
  intro w w'
  have hpaid : w.Pays w' := (run_sound r debounce as).pays_moves ms
  obtain ⟨-, hattempts, hannounced, hwork, hlaunches⟩ := hpaid
  refine ⟨?_, by omega⟩
  have hmore : w.load * (w.echoes + w'.announcements) =
      w.load * (w.echoes + (w'.announcements - w.announcements)) +
        w.load * w.announcements := by
    rw [← Nat.mul_add]
    congr 1
    omega
  rw [Nat.mul_add, hmore] at hwork
  omega

end Workshop

end LanguageSessions
