import LanguageSessions.Proofs.Registry.Replacement
import LanguageSessions.Proofs.Scheduler.Workshop
import LanguageSessions.Proofs.Text.Split

/-!
Servers that die young. A run launches a server in place of the dead one, the new session is
announced, and the announcement makes the run wait again; when the server completes its handshake
and dies, this goes on for as long as it likes (`Workshop.Doomed.goes_on`).
-/
namespace LanguageSessions

namespace Scheduler

theorem rerunAll_only {s : Scheduler} {file : String} {task : Task} {t : Token}
    (h : s.files = [⟨file, [⟨task, t⟩]⟩]) (harmed : s.armed = []) (now : Nat) :
    (s.rerunAll now).files = [⟨file, [⟨task, s.nextToken⟩]⟩] ∧
      (s.rerunAll now).armed = [⟨⟨file, task, s.nextToken⟩, now⟩] ∧
      (s.rerunAll now).background = s.background := by
  have hsame : samePath file file = true := samePath_rfl file
  simp [rerunAll, runAllNow, tasksOf?, h, harmed, hsame, install, register, entryOf?, FileTasks.entry,
    cancelToken, FileTasks.put, arm]

end Scheduler

namespace Course

variable {c : Course}

theorem take_run (hidle : c.bench.doing = none) {r : TaskRun} {rest : List Job}
    (hqueue : c.scheduler.background = .run r :: rest) (hvalid : r.token ∉ c.scheduler.cancelled) :
    c.take.bench = { scheduler := { c.scheduler with background := rest }, doing := some (.run r) } ∧
      c.take.session = none ∧ c.take.attempts = c.attempts + 1 := by
  have htake := c.bench.take_next hidle hqueue (by rintro q ⟨⟩; exact hvalid)
  unfold take
  rw [hidle, hqueue]
  dsimp only
  rw [htake]
  exact ⟨rfl, rfl, rfl⟩

theorem answer_run {r : TaskRun} (hdoing : c.bench.doing = some (.run r)) (hsession : c.session = none)
    (id : SessionId) : (c.answer (some id)).bench = c.bench ∧ (c.answer (some id)).session = some id ∧
      (c.answer (some id)).attempts = c.attempts := by
  unfold answer
  rw [hdoing, hsession]
  exact ⟨rfl, rfl, rfl⟩

theorem finish_failed {r : TaskRun} (hdoing : c.bench.doing = some (.run r)) {id : SessionId}
    (hsession : c.session = some id) : (c.finish .failed).bench = { scheduler := c.scheduler } ∧
      (c.finish .failed).attempts = c.attempts := by
  have hfinish : c.bench.finish JobEnd.failed.runEnd c.now = { scheduler := c.scheduler } := by
    unfold Bench.finish
    rw [hdoing]
    rfl
  unfold finish
  rw [hdoing, hsession]
  exact ⟨hfinish, rfl⟩

theorem rerun_only {file : String} {task : Task} {t : Token}
    (hfiles : c.scheduler.files = [⟨file, [⟨task, t⟩]⟩]) (harmed : c.scheduler.armed = [])
    (hqueue : c.scheduler.background = []) (hevents : c.scheduler.events = []) :
    let d := ((c.step (.postEvent .rerunAll)).step .takeEvent).step .expire
    d.bench.doing = c.bench.doing ∧ d.attempts = c.attempts ∧ d.scheduler.events = [] ∧
      d.scheduler.armed = [] ∧ ∃ t', d.scheduler.files = [⟨file, [⟨task, t'⟩]⟩] ∧
        d.scheduler.background = [.run ⟨file, task, t'⟩] := by
  have hposted : (c.step (.postEvent .rerunAll)).scheduler.events = [.rerunAll] := by
    change c.scheduler.events ++ [.rerunAll] = _
    rw [hevents]
    rfl
  obtain ⟨u, hu⟩ : ∃ u : Course, u = (c.step (.postEvent .rerunAll)).putScheduler
      { (c.step (.postEvent .rerunAll)).scheduler with events := [] } := ⟨_, rfl⟩
  have htaken : (c.step (.postEvent .rerunAll)).step .takeEvent = u.rerunAll := by
    rw [hu]
    generalize c.step (.postEvent .rerunAll) = c' at hposted
    simp only [step, hposted]
  have hfiles' : u.scheduler.files = [⟨file, [⟨task, t⟩]⟩] := by
    rw [hu]
    exact hfiles
  have harmed' : u.scheduler.armed = [] := by
    rw [hu]
    exact harmed
  have hqueue' : u.scheduler.background = [] := by
    rw [hu]
    exact hqueue
  have hevents' : u.scheduler.events = [] := by
    rw [hu]
    rfl
  obtain ⟨hagain, hwaits, hlane⟩ := Scheduler.rerunAll_only hfiles' harmed' u.now
  have hscheduler : u.rerunAll.scheduler = u.scheduler.rerunAll u.now := by
    rw [scheduler, rerunAll_bench]
  -- The run is due at once, so the delays that end now post it.
  have hposted : (u.rerunAll.step .expire).scheduler = { u.scheduler.rerunAll u.now with
      armed := []
      background := [.run ⟨file, task, u.scheduler.nextToken⟩] } := by
    change u.rerunAll.scheduler.expire u.rerunAll.now = _
    rw [hscheduler, rerunAll_now, Scheduler.expire, hwaits, hlane, hqueue']
    simp
  rw [htaken]
  dsimp only
  rw [hposted]
  refine ⟨?_, ?_, (u.scheduler.rerunAll_events u.now).trans hevents', rfl, _, hagain, rfl⟩
  · change u.rerunAll.bench.doing = _
    rw [rerunAll_bench, hu]
    rfl
  · change u.rerunAll.attempts = _
    rw [rerunAll_attempts, hu]
    rfl

theorem attempt_again {file : String} {task : Task} {t : Token}
    (hidle : c.bench.doing = none) (hfiles : c.scheduler.files = [⟨file, [⟨task, t⟩]⟩])
    (harmed : c.scheduler.armed = []) (hqueue : c.scheduler.background = [.run ⟨file, task, t⟩])
    (hvalid : t ∉ c.scheduler.cancelled) (hevents : c.scheduler.events = []) (id : SessionId) :
    c.take.bench.doing = some (.run ⟨file, task, t⟩) ∧
    let d := ((((c.take.step (.answer (some id))).step (.finish .failed)).step
      (.postEvent .rerunAll)).step .takeEvent).step .expire
    d.bench.doing = none ∧ d.attempts = c.attempts + 1 ∧ d.scheduler.events = [] ∧
      d.scheduler.armed = [] ∧ ∃ t', d.scheduler.files = [⟨file, [⟨task, t'⟩]⟩] ∧
        d.scheduler.background = [.run ⟨file, task, t'⟩] := by
  obtain ⟨hbench, hsession, hattempts⟩ := take_run hidle hqueue hvalid
  have hdoing : c.take.bench.doing = some (.run ⟨file, task, t⟩) := by
    rw [hbench]
  refine ⟨hdoing, ?_⟩
  obtain ⟨past, hheard⟩ := c.take.hear_eq (some id)
  have hsteps : (c.take.step (.answer (some id))).step (.finish .failed) =
      (({ c.take with past := past } : Course).answer (some id)).finish .failed :=
    congrArg (fun d => (d.answer (some id)).finish .failed) hheard
  rw [hsteps]
  obtain ⟨hbench₂, hsession₂, hattempts₂⟩ :=
    answer_run (c := { c.take with past := past }) hdoing hsession id
  -- What is known of each course is enough for the next, which need not unfold it.
  generalize ({ c.take with past := past } : Course).answer (some id) = c₂
    at hbench₂ hsession₂ hattempts₂ ⊢
  obtain ⟨hbench₃, hattempts₃⟩ := finish_failed (hbench₂ ▸ hdoing) hsession₂
  generalize c₂.finish .failed = c₃ at hbench₃ hattempts₃ ⊢
  have hscheduler : c₃.scheduler = { c.scheduler with background := [] } := by
    rw [scheduler, hbench₃, scheduler, hbench₂, hbench]
  obtain ⟨hdone, hcount, hrest⟩ := rerun_only (c := c₃) (by rw [hscheduler]; exact hfiles)
    (by rw [hscheduler]; exact harmed) (by rw [hscheduler]) (by rw [hscheduler]; exact hevents)
  refine ⟨hdone.trans ?_, hcount.trans ?_, hrest⟩
  · rw [hbench₃]
  · rw [hattempts₃, hattempts₂, hattempts]

end Course

namespace Workshop

/-- One task waits in the lane and no other; its session is dead, and a new one can be launched. -/
structure Doomed (w : Workshop) (file : String) (task : Task) (type : String)
    (d : ServerDescription) : Prop where
  service : w.service.Barren file type d
  idle : w.course.bench.doing = none
  waits : ∃ t, w.course.scheduler.files = [⟨file, [⟨task, t⟩]⟩] ∧
    w.course.scheduler.background = [.run ⟨file, task, t⟩]
  events : w.course.scheduler.events = []
  armed : w.course.scheduler.armed = []
  heard : w.follower.next = w.announcements

variable {w : Workshop} {file : String} {task : Task} {type : String} {d : ServerDescription}

theorem moves_serve (w : Workshop) (as : List Service.Act)
    (has : ∀ a ∈ as, (∀ d, a ≠ .ask d) ∧ ∀ millis, a ≠ .pass millis) :
    w.moves (as.map .serve) = { w with service := w.service.run as } := by
  induction as generalizing w with
  | nil => rfl
  | cons a as ih =>
    have hserve : w.serve a = { w with service := w.service.step a } := by
      obtain ⟨hask, hpass⟩ := has a List.mem_cons_self
      cases a with
      | ask d => exact absurd rfl (hask d)
      | pass millis => exact absurd rfl (hpass millis)
      | _ => rfl
    change (w.serve a).moves _ = _
    rw [hserve, ih _ fun b hb => has b (List.mem_cons_of_mem _ hb)]
    rfl

theorem hear_one (h : w.announcements = w.follower.next + 1) : w.hear =
    { w with
      follower := ⟨w.follower.next + 1⟩
      course := w.course.step (.postEvent .rerunAll) } := by
  have hheard : w.follower.hear? w.feed = some (.announcement, ⟨w.follower.next + 1⟩) := by
    have hsent : w.feed.sent = w.follower.next + 1 := h
    have hold : w.feed.oldest ≤ w.follower.next := by
      unfold Feed.oldest
      rw [hsent]
      change w.follower.next + 1 - 64 ≤ _
      omega
    unfold Follower.hear?
    rw [if_neg (Nat.not_lt.mpr hold), if_pos (hsent ▸ Nat.lt_succ_self _)]
  unfold hear
  rw [hheard]
  rfl

theorem Doomed.again (h : w.Doomed file task type d) (hsound : w.Sound) :
    ∃ ms, (w.moves ms).Doomed file task type d ∧ (w.moves ms).launches = w.launches + 1 ∧
      (w.moves ms).attempts = w.attempts + 1 := by
  obtain ⟨t, hfiles, hqueue⟩ := h.waits
  have hvalid : t ∉ w.course.scheduler.cancelled :=
    (hsound.course.bench.tidy.valid file ⟨task, t⟩
      ⟨⟨file, [⟨task, t⟩]⟩, by simp [hfiles], samePath_rfl file, by simp⟩).2
  obtain ⟨id, as, has, hbarren, hreply, hlaunches, hannounced⟩ := h.service.replaces hsound.service
  obtain ⟨hdoing, hidle, hattempts, hevents, harmed, hwaits⟩ :=
    Course.attempt_again h.idle hfiles h.armed hqueue hvalid h.events id
  have htake : w.take = { w with
      course := w.course.take
      ticket := w.service.calls.length
      service := w.service.step (.ask (.resolveFile file)) } := by
    unfold take
    rw [h.idle, hdoing]
  obtain ⟨τ, hτ⟩ : ∃ τ, τ = (w.service.step (.ask (.resolveFile file))).run as := ⟨_, rfl⟩
  have hsteps : ((w.take.moves (as.map .serve)).answer.finish .failed) =
      { w with
        course := (w.course.take.step (.answer (some id))).step (.finish .failed)
        ticket := w.service.calls.length
        service := τ } := by
    have hreply' : τ.reply? w.service.calls.length = some (.resolved (some id)) := by
      rw [hτ]
      exact Service.reply?_eq_some.mpr hreply
    rw [htake, moves_serve _ _ has]
    dsimp only
    rw [← hτ]
    unfold answer
    dsimp only
    rw [hreply']
    rfl
  have hnews : τ.registry.announced.length = w.follower.next + 1 := by
    rw [hτ, hannounced, h.heard]
    rfl
  have hmoves : w.moves
      (.take :: as.map .serve ++ [.answer, .finish .failed, .hear, .takeEvent, .expire]) =
      { service := τ
        course := ((((w.course.take.step (.answer (some id))).step (.finish .failed)).step
          (.postEvent .rerunAll)).step .takeEvent).step .expire
        ticket := w.service.calls.length
        follower := ⟨w.follower.next + 1⟩ } := by
    rw [moves_append]
    change (((w.take.moves (as.map .serve)).answer.finish .failed).hear.move .takeEvent).move .expire = _
    rw [hsteps, hear_one (by exact hnews)]
    rfl
  refine ⟨.take :: as.map .serve ++ [.answer, .finish .failed, .hear, .takeEvent, .expire], ?_⟩
  rw [hmoves]
  subst hτ
  exact ⟨⟨hbarren, hidle, hwaits, hevents, harmed, hnews.symm⟩, hlaunches, hattempts⟩

theorem Sound.moves (h : w.Sound) (ms : List Move) : (w.moves ms).Sound := by
  induction ms generalizing w with
  | nil => exact h
  | cons m ms ih => exact ih (h.move m)

theorem Doomed.goes_on (h : w.Doomed file task type d) (hsound : w.Sound) (n : Nat) :
    ∃ ms, (w.moves ms).Doomed file task type d ∧ (w.moves ms).launches = w.launches + n ∧
      (w.moves ms).attempts = w.attempts + n := by
  induction n with
  | zero => exact ⟨[], h, rfl, rfl⟩
  | succ n ih =>
    obtain ⟨ms, hdoomed, hlaunches, hattempts⟩ := ih
    obtain ⟨ns, hagain, hlaunched, hattempted⟩ := hdoomed.again (hsound.moves ms)
    refine ⟨ms ++ ns, ?_⟩
    rw [moves_append]
    exact ⟨hagain, by omega, by omega⟩

def shop : Registry where
  host := {}
  timing := {}
  providers := [⟨["text/x-foo"], ⟨"foo-ls", .socket "127.0.0.1:9999"⟩, none⟩]
  contentTypes := ⟨[("foo", "text/x-foo")]⟩
  locator := {}
  connect _ _ _ _ := .ok { process := some {} }
  processId := 1

theorem shop_knows : shop.contentTypes.forFile? "a.foo" = some "text/x-foo" := by
  have hpieces : Path.pieces "a.foo" = ["a.foo"] :=
    (splitOn_singleton "a.foo" '/').trans (by decide +kernel)
  have hparts : "a.foo".splitOn "." = ["a", "foo"] :=
    (splitOn_singleton "a.foo" '.').trans (by decide +kernel)
  have hname : Path.fileName? "a.foo" = some "a.foo" := by
    simp [Path.fileName?, Path.steps, hpieces, Path.isAbsolute, Path.isVoid, Path.stepOf]
  have hextension : fileExtension? "a.foo" = some (asciiLower "foo") := by
    simp [fileExtension?, Path.extension?, hname, hparts]
  have hlower : asciiLower "foo" = "foo" := by decide +kernel
  rw [ContentTypes.forFile?, hextension, hlower]
  rfl

def opening : List Act :=
  [.order (.schedule "a.foo" ⟨"t", 0⟩), .move (.pass 40), .move .expire]

/-- Without a call from outside there is no bound on the servers launched, nor on the runs. -/
theorem relaunches_endlessly : ¬ ∃ bound, ∀ ms : List Move,
    (((new shop 40).run opening).moves ms).attempts ≤ bound ∨
      (((new shop 40).run opening).moves ms).launches ≤ bound := by
  rintro ⟨bound, hbound⟩
  have hdoomed : ((new shop 40).run opening).Doomed "a.foo" ⟨"t", 0⟩ "text/x-foo"
      ⟨"foo-ls", .socket "127.0.0.1:9999"⟩ := by
    refine ⟨⟨⟨rfl, ?_, ⟨_, rfl, rfl⟩, fun _ _ => rfl⟩, rfl, fun _ => rfl⟩, rfl, ⟨0, rfl, rfl⟩, rfl, rfl, rfl⟩
    exact shop_knows
  obtain ⟨ms, -, hlaunches, hattempts⟩ := hdoomed.goes_on (run_sound _ _ _) (bound + 1)
  rcases hbound ms with hle | hle
  · omega
  · omega

end Workshop

end LanguageSessions
