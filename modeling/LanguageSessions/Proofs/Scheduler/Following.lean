import LanguageSessions.Proofs.Scheduler.Workshop

/-!
A scheduler that follows a feed. The follower posts a job to the event lane for whatever it is told;
the lane looks up the files that have tasks and runs those of one file after the other anew.
Announcements, steps of the follower and of the lane, and calls of the scheduler come in any order.
-/
namespace LanguageSessions

structure Following where
  course : Course
  feed : Feed
  follower : Follower
  doing : Option (List String) := none

namespace Following

inductive Act where
  | announce
  | close
  | hear
  | begin
  | next
  | call (a : Course.Act)

abbrev scheduler (f : Following) : Scheduler := f.course.scheduler

def new (feed : Feed) (debounce : Nat) : Following :=
  { course := Course.start debounce, feed := feed, follower := .ofFeed feed }

def hear (f : Following) : Following :=
  match f.follower.hear? f.feed with
  | none => f
  | some (news, follower) =>
    { f with
      follower := follower
      course := f.course.putScheduler (f.scheduler.heed news) }

def begin (f : Following) : Following :=
  match f.doing, f.scheduler.events with
  | none, j :: rest =>
    { f with
      course := f.course.putScheduler { f.scheduler with events := rest }
      doing := some (if j = .rerunAll then f.scheduler.fileNames else []) }
  | _, _ => f

def next (f : Following) : Following :=
  match f.doing with
  | some (file :: files) => { f with course := f.course.runAllNow file, doing := some files }
  | some [] => { f with doing := none }
  | none => f

def step (f : Following) : Act → Following
  | .announce => if f.feed.closed then f else { f with feed := f.feed.publish 1 }
  | .close => { f with feed := { f.feed with closed := true } }
  | .hear => f.hear
  | .begin => f.begin
  | .next => f.next
  -- The event lane goes on by steps of its own.
  | .call .takeEvent => f
  | .call a => { f with course := f.course.step a }

def run (f : Following) (as : List Act) : Following := as.foldl step f

theorem run_append (f : Following) (as bs : List Act) : f.run (as ++ bs) = (f.run as).run bs :=
  List.foldl_append

def Drained (f : Following) : Prop :=
  ∀ news follower, f.follower.hear? f.feed = some (news, follower) → news = .closed

structure Idle (f : Following) : Prop where
  doing : f.doing = none
  events : f.scheduler.events = []

def deeds (f : Following) (a : Act) : History := (f.step a).course.past.drop f.course.past.length

structure Renews (f : Following) (file name : String) (r : TaskRun) : Prop where
  same : samePath r.file file = true
  named : r.task.name = name
  registered : ∃ t, f.scheduler.entryOf? file name = some ⟨r.task, t⟩
  installed : (f.course.now, .installed r 0) ∈ f.deeds .next
  due : ⟨r, f.course.now⟩ ∈ (f.step .next).scheduler.armed
  posted : .run r ∈ ((f.step .next).step (.call .expire)).scheduler.background

structure Sound (f : Following) : Prop where
  course : f.course.Sound
  heard : f.follower.next ≤ f.feed.sent

variable {f : Following}

theorem hear_of_lt (h : f.follower.next < f.feed.sent) : ∃ follower : Follower,
    follower.next ≤ f.feed.sent ∧
      f.hear = { f with follower := follower, course := f.course.step (.postEvent .rerunAll) } := by
  obtain ⟨news, follower, hheard, hnews, -, hle⟩ := Follower.hear?_of_lt h
  refine ⟨follower, hle, ?_⟩
  rw [hear, hheard]
  dsimp only
  rw [Scheduler.heed_of_ne _ hnews]
  rfl

theorem hear_of_le (h : f.feed.sent ≤ f.follower.next) : f.hear = f := by
  rw [hear, Follower.hear?_of_le h]
  cases f.feed.closed with
  | false => rfl
  | true => simp [Scheduler.heed, Course.putScheduler, Course.put]

inductive Shift (f : Following) : Act → Course → Prop
  | same (a : Act) : f.Shift a f.course
  | called {b : Course.Act} (hb : b ≠ .takeEvent) : f.Shift (.call b) (f.course.step b)
  | heard : f.Shift .hear (f.course.step (.postEvent .rerunAll))
  | begun {j : Job} {rest : List Job} (hevents : f.scheduler.events = j :: rest) :
    f.Shift .begin (f.course.putScheduler { f.scheduler with events := rest })
  | ran {file : String} {files : List String} (hdoing : f.doing = some (file :: files)) :
    f.Shift .next (f.course.runAllNow file)

theorem step_call {b : Course.Act} (hb : b ≠ .takeEvent) :
    f.step (.call b) = { f with course := f.course.step b } := by
  cases b <;> first | rfl | exact absurd rfl hb

theorem step_shift (f : Following) (a : Act) : f.Shift a (f.step a).course := by
  cases a with
  | announce =>
    rw [step]
    split <;> exact .same _
  | close => exact .same _
  | hear =>
    rw [step]
    by_cases h : f.follower.next < f.feed.sent
    · obtain ⟨follower, -, heq⟩ := hear_of_lt h
      rw [heq]
      exact .heard
    · rw [hear_of_le (Nat.le_of_not_lt h)]
      exact .same _
  | begin =>
    rw [step, begin]
    split
    · next hevents => exact .begun hevents
    · exact .same _
  | next =>
    rw [step, next]
    split
    · next hdoing => exact .ran hdoing
    · exact .same _
    · exact .same _
  | call b =>
    by_cases hb : b = .takeEvent
    · rw [hb]
      exact .same _
    · rw [step_call hb]
      exact .called hb

theorem Shift.sound {a : Act} {c : Course} (hshift : f.Shift a c) (h : f.course.Sound) : c.Sound := by
  cases hshift with
  | same => exact h
  | called _ => exact h.step _
  | heard => exact h.step _
  | begun _ => exact h.putEvents _
  | ran _ => exact h.runAllNow _

theorem Shift.registers {a : Act} {c : Course} (hshift : f.Shift a c) (h : f.course.Sound)
    {file name : String} (ha : ∀ b, a = .call b → ¬ b.Schedules file name)
    (hc : c.scheduler.Registers file name) : f.scheduler.Registers file name := by
  cases hshift with
  | same => exact hc
  | @called b hb => exact ((h.step_adds hb).registered file name hc).resolve_right (ha b rfl)
  | heard => exact (Scheduler.registers_congr rfl file name).mp hc
  | begun _ => exact (Scheduler.registers_congr rfl file name).mp hc
  | @ran g _ _ =>
    have hadds := h.step_adds (a := .runAllNow g) (by simp)
    exact (hadds.registered file name hc).resolve_right id

theorem Shift.past {a : Act} {c : Course} (hshift : f.Shift a c) (ha : ∀ b, a ≠ .call b) :
    c.past = f.course.past ∨ a = .next ∧ ∃ file files, f.doing = some (file :: files) ∧
      c.past = f.course.past ++ (f.course.renewals file).map fun r => (f.course.now, .installed r 0) := by
  cases hshift with
  | same => exact .inl rfl
  | @called b _ => exact absurd rfl (ha b)
  | heard => exact .inl rfl
  | begun _ => exact .inl rfl
  | @ran file files hdoing => exact .inr ⟨rfl, file, files, hdoing, f.course.runAllNow_made file⟩

theorem Sound.step (h : f.Sound) (a : Act) : (f.step a).Sound where
  course := (f.step_shift a).sound h.course
  heard := by
    have hheard := h.heard
    cases a with
    | announce =>
      rw [Following.step]
      split
      · exact hheard
      · exact Nat.le_succ_of_le hheard
    | close => exact hheard
    | hear =>
      rw [Following.step]
      by_cases hlt : f.follower.next < f.feed.sent
      · obtain ⟨follower, hle, heq⟩ := hear_of_lt hlt
        rwa [heq]
      · rwa [hear_of_le (Nat.le_of_not_lt hlt)]
    | begin =>
      rw [Following.step, Following.begin]
      split <;> exact hheard
    | next =>
      rw [Following.step, Following.next]
      split <;> exact hheard
    | call b => cases b <;> exact hheard

theorem Sound.run (h : f.Sound) (as : List Act) : (f.run as).Sound := by
  induction as generalizing f with
  | nil => exact h
  | cons a as ih => exact ih (h.step a)

theorem Sound.new (feed : Feed) (debounce : Nat) : (new feed debounce).Sound :=
  ⟨Course.Sound.start debounce, Nat.le_refl _⟩

theorem next_of_cons {file : String} {files : List String} (hdoing : f.doing = some (file :: files)) :
    f.step .next = { f with course := f.course.runAllNow file, doing := some files } := by
  rw [step, next, hdoing]

theorem Sound.renewal_due (h : f.Sound) {file : String} {files : List String}
    (hdoing : f.doing = some (file :: files)) {r : TaskRun} (hr : r ∈ f.course.renewals file) :
    ⟨r, f.course.now⟩ ∈ (f.step .next).scheduler.armed ∧
      .run r ∈ ((f.step .next).step (.call .expire)).scheduler.background := by
  have harmed := h.course.renewals_armed hr
  have hnow := (f.course.runAllNow_bench file).2
  rw [next_of_cons hdoing]
  exact ⟨harmed, Course.expire_posts (hnow ▸ harmed)⟩

theorem Sound.renews (h : f.Sound) {g file name : String} {files : List String}
    (hdoing : f.doing = some (g :: files)) (hsame : samePath g file = true)
    (hregistered : f.scheduler.Registers file name) : ∃ r, f.Renews file name r := by
  obtain ⟨e, hentry⟩ := hregistered
  have htidy := h.course.bench.tidy
  obtain ⟨hheld, rfl⟩ := (htidy.entryOf?_eq_some_iff _ _ _).mp hentry
  -- the lane goes by the path that the table has for the file
  have hthere := (htidy.entryOf?_eq_some_iff g e.task.name e).mpr
    ⟨hheld.congr (samePath_symm hsame), rfl⟩
  obtain ⟨r, hr, htask⟩ := (h.course.renews_iff g e.task).mpr ⟨e.token, hthere⟩
  have hinstalled : (f.course.now, Deed.installed r 0) ∈ f.deeds .next := by
    rw [deeds, next_of_cons hdoing, f.course.runAllNow_made g, List.drop_left]
    exact List.mem_map.mpr ⟨r, hr, rfl⟩
  obtain ⟨hdue, hposted⟩ := h.renewal_due hdoing hr
  refine ⟨r, ?_, congrArg Task.name htask, ⟨e.token, ?_⟩, hinstalled, hdue, hposted⟩
  · rw [Course.renewals_file hr]
    exact hsame
  · rw [htask]
    exact hentry

theorem Sound.renewed (h : f.Sound) {a : Act} (ha : ∀ b, a ≠ .call b) {x : Nat × Deed}
    (hx : x ∈ f.deeds a) :
    a = .next ∧ ∃ r, x = (f.course.now, .installed r 0) ∧ f.Renews r.file r.task.name r := by
  rcases (f.step_shift a).past ha with hpast | ⟨rfl, file, files, hdoing, hpast⟩
  · rw [deeds, hpast, List.drop_length] at hx
    cases hx
  · refine ⟨rfl, ?_⟩
    have hmade := hx
    rw [deeds, hpast, List.drop_left] at hmade
    obtain ⟨r, hr, rfl⟩ := List.mem_map.mp hmade
    obtain rfl := Course.renewals_file hr
    obtain ⟨hdue, hposted⟩ := h.renewal_due hdoing hr
    exact ⟨r, rfl, samePath_rfl _, rfl, (h.course.renews_iff _ r.task).mp ⟨r, hr, rfl⟩, hx, hdue, hposted⟩

/-- The tasks of a file have still to be run anew after an announcement: the follower has not heard of
it, a job to do so waits for the event lane, or the lane is doing one and has not come to the file. -/
inductive Owes (f : Following) (n : Nat) (file : String) : Prop
  | unheard (hnext : f.follower.next ≤ n) (hsent : n < f.feed.sent)
  | posted (hposted : .rerunAll ∈ f.scheduler.events)
  | begun {files : List String} {g : String} (hdoing : f.doing = some files) (hg : g ∈ files)
    (hsame : samePath g file = true)

theorem Owes.settled {n : Nat} {file : String} (h : f.Owes n file) (hdrained : f.Drained) : ¬ f.Idle := by
  intro hidle
  cases h with
  | unheard hnext hsent =>
    obtain ⟨news, follower, hheard, hnews, -⟩ :=
      Follower.hear?_of_lt (Nat.lt_of_le_of_lt hnext hsent)
    exact hnews (hdrained _ _ hheard)
  | posted hposted =>
    rw [hidle.events] at hposted
    cases hposted
  | begun hdoing _ _ =>
    rw [hidle.doing] at hdoing
    cases hdoing

theorem Owes.later {n : Nat} {file : String} {g : Following} (h : f.Owes n file)
    (hfollower : g.follower = f.follower) (hsent : f.feed.sent ≤ g.feed.sent)
    (hevents : f.scheduler.events ⊆ g.scheduler.events) (hdoing : g.doing = f.doing) :
    g.Owes n file := by
  cases h with
  | unheard hnext hlt => exact .unheard (hfollower ▸ hnext) (Nat.lt_of_lt_of_le hlt hsent)
  | posted hposted => exact .posted (hevents hposted)
  | begun hfiles hg hsame => exact .begun (hdoing.trans hfiles) hg hsame

theorem Owes.hear {n : Nat} {file : String} (h : f.Owes n file) : f.hear.Owes n file := by
  by_cases hlt : f.follower.next < f.feed.sent
  · obtain ⟨follower, -, heq⟩ := hear_of_lt hlt
    rw [heq]
    exact .posted (List.mem_append_right _ (List.mem_singleton_self _))
  · rwa [hear_of_le (Nat.le_of_not_lt hlt)]

theorem Owes.begin {n : Nat} {file name : String} (h : f.Owes n file)
    (hregistered : f.scheduler.Registers file name) : f.begin.Owes n file := by
  unfold Following.begin
  split
  · next j rest hidle hevents =>
    cases h with
    | unheard hnext hsent => exact .unheard hnext hsent
    | posted hposted =>
      rw [hevents] at hposted
      rcases List.mem_cons.mp hposted with rfl | hrest
      · -- the job that begins looks the files up now, and a file with a task is among them
        obtain ⟨e, hentry⟩ := hregistered
        obtain ⟨tasks, htasks, -⟩ := Option.bind_eq_some_iff.mp hentry
        obtain ⟨hmem, hsame⟩ := Scheduler.tasksOf?_some htasks
        exact .begun rfl (List.mem_map.mpr ⟨tasks, hmem, rfl⟩) hsame
      · exact .posted hrest
    | begun hdoing _ _ =>
      rw [hidle] at hdoing
      cases hdoing
  · exact h

theorem Owes.next {n : Nat} {file name : String} (h : f.Owes n file) (hf : f.Sound)
    (hregistered : f.scheduler.Registers file name) :
    f.next.Owes n file ∨ ∃ r, f.Renews file name r := by
  unfold Following.next
  split
  · next g files hdoing =>
    have hevents : (f.course.runAllNow g).scheduler.events = f.scheduler.events := by
      rw [Course.scheduler, (f.course.runAllNow_bench g).1]
      exact Scheduler.runAllNow_events _ _ _
    cases h with
    | unheard hnext hsent => exact .inl (.unheard hnext hsent)
    | posted hposted => exact .inl (.posted (hevents ▸ hposted))
    | begun hfiles hmem hsame =>
      cases hdoing.symm.trans hfiles
      rcases List.mem_cons.mp hmem with rfl | hmem
      · exact .inr (hf.renews hdoing hsame hregistered)
      · exact .inl (.begun rfl hmem hsame)
  · next hdoing =>
    cases h with
    | unheard hnext hsent => exact .inl (.unheard hnext hsent)
    | posted hposted => exact .inl (.posted hposted)
    | begun hfiles hmem _ =>
      cases hdoing.symm.trans hfiles
      cases hmem
  · exact .inl h

theorem Owes.step {n : Nat} {file name : String} (h : f.Owes n file) (hf : f.Sound)
    (hregistered : f.scheduler.Registers file name) (a : Act) :
    (f.step a).Owes n file ∨ a = .next ∧ ∃ r, f.Renews file name r := by
  cases a with
  | announce =>
    rw [Following.step]
    split
    · exact .inl h
    · exact .inl (h.later rfl (Nat.le_succ _) (List.Subset.refl _) rfl)
  | close => exact .inl (h.later rfl (Nat.le_refl _) (List.Subset.refl _) rfl)
  | hear => exact .inl h.hear
  | begin => exact .inl (h.begin hregistered)
  | next => exact (h.next hf hregistered).imp_right fun hrenewed => ⟨rfl, hrenewed⟩
  | call b =>
    by_cases hb : b = .takeEvent
    · rw [hb]
      exact .inl h
    · rw [step_call hb]
      exact .inl (h.later rfl (Nat.le_refl _) (hf.course.step_adds hb).events.subset rfl)

theorem Owes.run {n : Nat} {file name : String} (h : f.Owes n file) (hf : f.Sound) (as : List Act)
    (hregistered : ∀ p, p <+: as → (f.run p).scheduler.Registers file name) :
    (f.run as).Owes n file ∨ ∃ p q r, as = p ++ .next :: q ∧ (f.run p).Renews file name r := by
  -- what is owed is carried along the run, up to the first step that renews the task
  induction as generalizing f with
  | nil => exact .inl h
  | cons a as ih =>
    have hnow := hregistered [] List.nil_prefix
    rcases h.step hf hnow a with hstep | ⟨rfl, r, hrenews⟩
    · have hrest : ∀ p, p <+: as → ((f.step a).run p).scheduler.Registers file name :=
        fun p hp => hregistered (a :: p) ((List.prefix_cons_inj a).mpr hp)
      rcases ih hstep (hf.step a) hrest with hend | ⟨p, q, r, rfl, hrenews⟩
      · exact .inl hend
      · exact .inr ⟨a :: p, q, r, rfl, hrenews⟩
    · exact .inr ⟨[], as, r, rfl, hrenews⟩

theorem Sound.unregistered (h : f.Sound) {file name : String} (as : List Act)
    (has : ∀ b, .call b ∈ as → ¬ b.Schedules file name) (hf : ¬ f.scheduler.Registers file name) :
    ¬ (f.run as).scheduler.Registers file name := by
  induction as generalizing f with
  | nil => exact hf
  | cons a as ih =>
    apply ih (h.step a) (fun b hb => has b (List.mem_cons_of_mem _ hb))
    have ha : ∀ b, a = .call b → ¬ b.Schedules file name :=
      fun b hb => has b (hb ▸ List.mem_cons_self)
    exact fun hafter => hf ((f.step_shift a).registers h.course ha hafter)

theorem announced_owes (h : f.Sound) (hopen : f.feed.closed = false) (file : String) :
    (f.step .announce).Owes f.feed.sent file := by
  rw [step, hopen]
  exact .unheard h.heard (Nat.lt_succ_self _)

theorem run_next {files : List String} (hdoing : f.doing = some files) :
    f.run (List.replicate (files.length + 1) .next) =
      { f with course := files.foldl Course.runAllNow f.course, doing := none } := by
  induction files generalizing f with
  | nil =>
    change f.next = _
    rw [next, hdoing]
    rfl
  | cons file files ih =>
    change (f.step .next).run (List.replicate (files.length + 1) .next) = _
    rw [next_of_cons hdoing, ih rfl]
    rfl

theorem run_takeEvent (hidle : f.doing = none) : ∃ as : List Act,
    f.run as = { f with course := f.course.step .takeEvent } := by
  cases hevents : f.scheduler.events with
  | nil =>
    refine ⟨[], ?_⟩
    rw [Course.step, hevents]
    rfl
  | cons j rest =>
    have hbegun : f.step .begin =
        { f with
          course := f.course.putScheduler { f.scheduler with events := rest }
          doing := some (if j = .rerunAll then f.scheduler.fileNames else []) } := by
      rw [step, begin, hidle, hevents]
    obtain ⟨as, has⟩ : ∃ as : List Act, (f.step .begin).run as = _ :=
      ⟨_, run_next (congrArg doing hbegun)⟩
    refine ⟨.begin :: as, has.trans ?_⟩
    rw [hbegun, Course.step, hevents, ← hidle]
    cases j <;> rfl

theorem run_announce (hopen : f.feed.closed = false) (n : Nat) :
    f.run (List.replicate n .announce) = { f with feed := f.feed.publish n } := by
  induction n generalizing f with
  | zero => rfl
  | succ n ih =>
    have hstep : f.step .announce = { f with feed := f.feed.publish 1 } := by
      rw [step, hopen]
      rfl
    rw [List.replicate_succ]
    change (f.step .announce).run _ = _
    rw [hstep, ih (f := { f with feed := f.feed.publish 1 }) hopen]
    simp only [Feed.publish, Nat.add_assoc, Nat.add_comm 1 n]

end Following

namespace Workshop

variable {w : Workshop}

def following (w : Workshop) : Following :=
  { course := w.course, feed := w.feed, follower := w.follower }

theorem Sound.following_service (h : w.Sound) (a : Service.Act) :
    ∃ as, { w with service := w.service.step a }.following = w.following.run as := by
  obtain ⟨n, hn⟩ := Nat.exists_eq_add_of_le (h.announcements_step a)
  refine ⟨List.replicate n .announce, ?_⟩
  rw [Following.run_announce rfl]
  simp only [following, feed, hn]
  rfl

theorem following_course {a : Course.Act} (ha : a ≠ .takeEvent) :
    { w with course := w.course.step a }.following = w.following.run [.call a] :=
  (Following.step_call (f := w.following) ha).symm

theorem following_hear (w : Workshop) : w.hear.following = w.following.hear := by
  have hsame : w.following.follower.hear? w.following.feed = w.follower.hear? w.feed := rfl
  unfold Workshop.hear Following.hear
  generalize w.follower.hear? w.feed = news at hsame ⊢
  generalize w.following.follower.hear? w.following.feed = told at hsame ⊢
  subst hsame
  cases told <;> rfl

theorem Sound.following_move (h : w.Sound) (m : Move) :
    ∃ as, (w.move m).following = w.following.run as := by
  cases m with
  | pass millis =>
    obtain ⟨as, has⟩ := h.following_service (.pass millis)
    refine ⟨as ++ [.call (.pass millis)], ?_⟩
    rw [Following.run_append, ← has]
    exact following_course (by simp)
  | expire => exact ⟨_, following_course (by simp)⟩
  | fire i => exact ⟨_, following_course (by simp)⟩
  | take =>
    change ∃ as, w.take.following = _
    unfold Workshop.take
    split
    · next r _ _ =>
      have htaken : { w with course := w.course.step .take, ticket := w.service.calls.length }.Sound :=
        ⟨h.service, h.course.step .take⟩
      obtain ⟨as, has⟩ := htaken.following_service (.ask (.resolveFile r.file))
      refine ⟨.call .take :: as, ?_⟩
      exact has
    · exact ⟨[.call .take], rfl⟩
  | answer =>
    change ∃ as, w.answer.following = _
    rcases w.answer_cases with heq | ⟨found, heq⟩
    · exact ⟨[], congrArg following heq⟩
    · rw [heq]
      exact ⟨_, following_course (by simp)⟩
  | finish e =>
    change ∃ as, (w.finish e).following = _
    rcases w.finish_cases e with heq | ⟨-, heq⟩
    · exact ⟨[], congrArg following heq⟩
    · rw [heq]
      exact ⟨_, following_course (by simp)⟩
  | takeEvent =>
    obtain ⟨as, has⟩ := Following.run_takeEvent (f := w.following) rfl
    exact ⟨as, has.symm⟩
  | hear => exact ⟨[.hear], w.following_hear⟩
  | serve a =>
    change ∃ as, (w.serve a).following = _
    rcases w.serve_cases a with heq | ⟨-, heq⟩
    · exact ⟨[], congrArg following heq⟩
    · rw [heq]
      exact h.following_service a

theorem Sound.following_step (h : w.Sound) (a : Act) :
    ∃ as, (w.step a).following = w.following.run as := by
  cases a with
  | move m => exact h.following_move m
  | order o => exact ⟨_, following_course (by cases o <;> simp [Order.act])⟩
  | ask d => exact h.following_service (.ask d)

theorem run_following (r : Registry) (debounce : Nat) (as : List Act) : ∃ bs,
    ((new r debounce).run as).following = (Following.new { capacity := 64 } debounce).run bs := by
  have hrun : ∀ w : Workshop, w.Sound → ∃ bs, (w.run as).following = w.following.run bs := by
    induction as with
    | nil => exact fun w _ => ⟨[], rfl⟩
    | cons a as ih =>
      intro w h
      obtain ⟨bs, hbs⟩ := h.following_step a
      obtain ⟨cs, hcs⟩ := ih _ (h.step a)
      refine ⟨bs ++ cs, ?_⟩
      rw [Following.run_append, ← hbs]
      exact hcs
  exact hrun _ ⟨Service.Sound.new r, Course.Sound.start debounce⟩

end Workshop

namespace Following

/-- What a scheduler makes of the announcements of a feed. -/
structure Attentive (feed : Feed) (debounce : Nat) (as : List Act) : Prop where
  noticed : ∀ before after file name, as = before ++ .announce :: after →
    ((new feed debounce).run before).feed.closed = false →
    (∀ p, p <+: .announce :: after →
      ((new feed debounce).run (before ++ p)).scheduler.Registers file name) →
    ((new feed debounce).run as).Drained → ((new feed debounce).run as).Idle →
    ∃ p q r, after = p ++ .next :: q ∧
      ((new feed debounce).run (before ++ .announce :: p)).Renews file name r
  renewed : ∀ before a after x, as = before ++ a :: after → (∀ b, a ≠ .call b) →
    x ∈ ((new feed debounce).run before).deeds a →
    a = .next ∧ ∃ r, x = (((new feed debounce).run before).course.now, .installed r 0) ∧
      ((new feed debounce).run before).Renews r.file r.task.name r
  spared : ∀ before between a after file name x, as = before ++ between ++ a :: after →
    (∀ b, a ≠ .call b) → ¬ ((new feed debounce).run before).scheduler.Registers file name →
    (∀ b, .call b ∈ between → ¬ b.Schedules file name) →
    x ∈ ((new feed debounce).run (before ++ between)).deeds a → ¬ x.2.Touches file name

theorem run_attentive (feed : Feed) (debounce : Nat) (as : List Act) : Attentive feed debounce as where
  noticed := by
    rintro before after file name rfl hopen hregistered hdrained hidle
    have hbefore := (Sound.new feed debounce).run before
    have howed := announced_owes hbefore hopen file
    have hlater : ∀ p, p <+: after →
        ((((new feed debounce).run before).step .announce).run p).scheduler.Registers file name := by
      intro p hp
      have hthere := hregistered (.announce :: p) ((List.prefix_cons_inj _).mpr hp)
      rwa [run_append] at hthere
    rw [run_append] at hdrained hidle
    rcases howed.run (hbefore.step .announce) after hlater with hend | ⟨p, q, r, hafter, hrenews⟩
    · exact absurd hidle (hend.settled hdrained)
    · refine ⟨p, q, r, hafter, ?_⟩
      rw [run_append]
      exact hrenews
  renewed := fun before a _ _ _ ha hx => ((Sound.new feed debounce).run before).renewed ha hx
  spared := by
    intro before between a after file name x _ ha hnone hcalls hx htouches
    have hthere := (Sound.new feed debounce).run (before ++ between)
    -- only a registered task is renewed, and this one has not come back into the table
    obtain ⟨-, r, rfl, hrenews⟩ := hthere.renewed ha hx
    obtain ⟨hsame, rfl⟩ := htouches
    have hunregistered := ((Sound.new feed debounce).run before).unregistered between hcalls hnone
    rw [← run_append] at hunregistered
    obtain ⟨t, hentry⟩ := hrenews.registered
    have htidy := hthere.course.bench.tidy
    obtain ⟨hheld, -⟩ := (htidy.entryOf?_eq_some_iff _ _ _).mp hentry
    exact hunregistered ((htidy.registers_iff _ _).mpr ⟨_, hheld.congr hsame, rfl⟩)

end Following

end LanguageSessions
