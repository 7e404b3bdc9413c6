import LanguageSessions.Scheduler.Feed
import LanguageSessions.Proofs.Scheduler.Load
import LanguageSessions.Proofs.Scheduler.Soundness

namespace LanguageSessions

namespace Follower

variable {w : Follower} {f : Feed}

theorem hear?_of_lt (h : w.next < f.sent) : ∃ news next, w.hear? f = some (news, next) ∧
    news ≠ .closed ∧ w.next < next.next ∧ next.next ≤ f.sent := by
  unfold hear?
  split
  · next hlagged => exact ⟨_, _, rfl, by simp, hlagged, Nat.sub_le f.sent f.capacity⟩
  · exact ⟨_, _, rfl, by simp, Nat.lt_succ_self _, h⟩

theorem hear?_of_le (h : f.sent ≤ w.next) :
    w.hear? f = if f.closed then some (.closed, w) else none := by
  have hkept : ¬ w.next < f.oldest :=
    Nat.not_lt_of_le (Nat.le_trans (Nat.sub_le f.sent f.capacity) h)
  rw [hear?, if_neg hkept, if_neg (Nat.not_lt_of_le h)]

end Follower

namespace Scheduler

theorem heed_of_ne (s : Scheduler) {news : News} (h : news ≠ .closed) :
    s.heed news = s.postEvent .rerunAll := by
  cases news with
  | closed => exact absurd rfl h
  | _ => rfl

variable {s t : Scheduler}

def Registers (s : Scheduler) (file name : String) : Prop := ∃ e, s.entryOf? file name = some e

theorem registers_congr (hfiles : t.files = s.files) (file name : String) :
    t.Registers file name ↔ s.Registers file name := by
  simp only [Registers, entryOf?, tasksOf?, hfiles]

theorem Tidy.registers_iff (h : s.Tidy) (file name : String) :
    s.Registers file name ↔ ∃ e, s.Holds file e ∧ e.task.name = name := by
  simp only [Registers, h.entryOf?_eq_some_iff]

theorem Tidy.registers_iff_shape (h : s.Tidy) (file name : String) :
    s.Registers file name ↔ ∃ p ∈ s.shape, samePath p.1 file = true ∧ name ∈ p.2 := by
  rw [h.registers_iff]
  unfold shape
  constructor
  · rintro ⟨e, ⟨f, hf, hsame, he⟩, hname⟩
    exact ⟨_, List.mem_map.mpr ⟨f, hf, rfl⟩, hsame, List.mem_map.mpr ⟨e, he, hname⟩⟩
  · rintro ⟨p, hp, hsame, hname⟩
    obtain ⟨f, hf, rfl⟩ := List.mem_map.mp hp
    obtain ⟨e, he, hname⟩ := List.mem_map.mp hname
    exact ⟨e, ⟨f, hf, hsame, he⟩, hname⟩

theorem Tidy.registers_runAllNow (h : s.Tidy) {file : String} {now : Nat}
    (ht : (s.runAllNow file now).Tidy) (f name : String) :
    (s.runAllNow file now).Registers f name ↔ s.Registers f name := by
  rw [ht.registers_iff_shape, h.registers_iff_shape, (runAllNow_backlog h.distinct file now).1]

theorem Tidy.registers_install (h : s.Tidy) {file : String} {task : Task} {delay now : Nat}
    (ht : (s.install file task delay now).Tidy) {f name : String}
    (hf : (s.install file task delay now).Registers f name) :
    s.Registers f name ∨ samePath file f = true ∧ task.name = name := by
  obtain ⟨e, he, hname⟩ := (ht.registers_iff f name).mp hf
  have hbooks := (s.register file task).arm_books ⟨file, task, s.nextToken⟩ delay now
  rw [install, holds_congr hbooks, holds_register] at he
  rcases he with ⟨hsame, rfl⟩ | ⟨he, -⟩
  · exact .inr ⟨samePath_symm hsame, hname⟩
  · exact .inl ((h.registers_iff f name).mpr ⟨e, he, hname⟩)

theorem Tidy.registers_cancel (h : s.Tidy) {file name f n : String}
    (ht : (s.cancel file name).1.Tidy) (hf : (s.cancel file name).1.Registers f n) :
    s.Registers f n := by
  cases hfound : s.entryOf? file name with
  | none => rwa [cancel_of_none hfound] at hf
  | some o =>
    obtain ⟨e, he, hname⟩ := (ht.registers_iff f n).mp hf
    exact (h.registers_iff f n).mpr ⟨e, ((holds_cancel hfound f e).mp he).1, hname⟩

theorem Tidy.registers_cancelAll (h : s.Tidy) {file f n : String}
    (ht : (s.cancelAll file).1.Tidy) (hf : (s.cancelAll file).1.Registers f n) :
    s.Registers f n := by
  cases hfound : s.tasksOf? file with
  | none => rwa [cancelAll_of_none hfound] at hf
  | some tasks =>
    obtain ⟨e, he, hname⟩ := (ht.registers_iff f n).mp hf
    have hfiles := (cancelTokens tasks.entries
      { s with files := s.files.filter fun f => !samePath f.file file }).1
    rw [← cancelAll_of_some hfound] at hfiles
    unfold Holds at he
    rw [hfiles] at he
    exact (h.registers_iff f n).mpr ⟨e, ((holds_filter s file f e).mp he).1, hname⟩

theorem install_events (s : Scheduler) (file : String) (task : Task) (delay now : Nat) :
    (s.install file task delay now).events = s.events := by
  unfold install arm register
  cases s.entryOf? file task.name <;> rfl

theorem runAllNow_events (s : Scheduler) (file : String) (now : Nat) :
    (s.runAllNow file now).events = s.events := by
  unfold runAllNow
  split
  · rfl
  · exact List.foldlRecOn (motive := fun (u : Scheduler) => u.events = s.events) _ _ rfl
      fun u hu e _ => (u.install_events file e.task 0 now).trans hu

theorem rerunAll_events (s : Scheduler) (now : Nat) : (s.rerunAll now).events = s.events := by
  unfold rerunAll
  exact List.foldlRecOn (motive := fun (t : Scheduler) => t.events = s.events) _ _ rfl
    fun t ht file _ => (t.runAllNow_events file now).trans ht

theorem cancel_events (s : Scheduler) (file name : String) :
    (s.cancel file name).1.events = s.events := by
  unfold cancel
  split <;> rfl

theorem cancelAll_events (s : Scheduler) (file : String) :
    (s.cancelAll file).1.events = s.events := by
  unfold cancelAll
  split
  · rfl
  · exact List.foldlRecOn (motive := fun (t : Scheduler) => t.events = s.events) _ _ rfl
      fun _ ht _ _ => ht

theorem ended_files_events (s : Scheduler) (r : TaskRun) (e : RunEnd) (now : Nat) :
    (s.ended r e now).files = s.files ∧ (s.ended r e now).events = s.events := by
  unfold ended arm
  split
  · split <;> exact ⟨rfl, rfl⟩
  · exact ⟨rfl, rfl⟩

end Scheduler

namespace Course

variable {c d : Course}

def renewals (c : Course) (file : String) : List TaskRun :=
  ((c.scheduler.tasksOf? file).elim [] FileTasks.entries).zipIdx c.scheduler.nextToken |>.map
    fun x => ⟨file, x.1.task, x.2⟩

theorem foldl_install_made (file : String) (es : List TaskEntry) (c : Course) :
    let rs : List TaskRun := (es.zipIdx c.scheduler.nextToken).map fun x => ⟨file, x.1.task, x.2⟩
    (es.foldl (fun c e => c.install file e.task 0) c).past =
      c.past ++ rs.map fun r => (c.now, .installed r 0) := by
  induction es generalizing c with
  | nil => simp
  | cons e es ih =>
    have hnext : (c.install file e.task 0).scheduler.nextToken = c.scheduler.nextToken + 1 :=
      Scheduler.register_nextToken _ _ _
    have hpast := ih (c.install file e.task 0)
    rw [hnext] at hpast
    exact hpast.trans (List.append_assoc c.past [_] _)

theorem runAllNow_made (c : Course) (file : String) :
    (c.runAllNow file).past = c.past ++ (c.renewals file).map fun r => (c.now, .installed r 0) := by
  unfold runAllNow renewals
  cases c.scheduler.tasksOf? file with
  | none => simp
  | some tasks => exact foldl_install_made file tasks.entries c

theorem Sound.install_keeps (h : c.Sound) {a : Armed} (ha : a ∈ c.scheduler.armed)
    (hvalid : a.run.token ∉ c.scheduler.cancelled) (file : String) {task : Task}
    (hname : a.run.task.name ≠ task.name) (delay : Nat) :
    a ∈ (c.install file task delay).scheduler.armed ∧
      a.run.token ∉ (c.install file task delay).scheduler.cancelled := by
  have htidy := h.bench.tidy
  have hpending : a.run ∈ c.bench.pending :=
    List.mem_append_left _ (Bench.mem_waiting.mpr (.inl ⟨a, ha, rfl⟩))
  have hheld := h.bench.registered a.run hpending hvalid
  have hspared : a.run.token ∉ (c.scheduler.register file task).cancelled := by
    rw [(htidy.removes_register file task).cancelled]
    rintro (hcancelled | ⟨e, he, hgone, htoken⟩)
    · exact hvalid hcancelled
    · obtain ⟨-, rfl⟩ := htidy.tokens _ _ _ _ hheld he htoken.symm
      exact hname hgone
  exact ⟨List.mem_append_left _ (c.scheduler.spares_register file task a ha hspared), hspared⟩

theorem Sound.installs_keep (h : c.Sound) {a : Armed} (ha : a ∈ c.scheduler.armed)
    (hvalid : a.run.token ∉ c.scheduler.cancelled) (file : String) {es : List TaskEntry}
    (hes : ∀ e ∈ es, a.run.task.name ≠ e.task.name) :
    a ∈ (es.foldl (fun c e => c.install file e.task 0) c).scheduler.armed := by
  induction es generalizing c with
  | nil => exact ha
  | cons e es ih =>
    obtain ⟨hkept, hspared⟩ := h.install_keeps ha hvalid file (hes e List.mem_cons_self) 0
    exact ih (h.install file e.task 0) hkept hspared fun o ho => hes o (List.mem_cons_of_mem _ ho)

theorem Sound.installs_armed (h : c.Sound) (file : String) {es : List TaskEntry}
    (hes : (es.map (·.task.name)).Nodup) {r : TaskRun}
    (hr : r ∈ (es.zipIdx c.scheduler.nextToken).map fun x => (⟨file, x.1.task, x.2⟩ : TaskRun)) :
    ⟨r, c.now⟩ ∈ (es.foldl (fun c e => c.install file e.task 0) c).scheduler.armed := by
  induction es generalizing c with
  | nil => cases hr
  | cons e es ih =>
    obtain ⟨hnew, hrest⟩ := List.nodup_cons.mp hes
    have hlater := h.install file e.task 0
    rw [List.zipIdx_cons, List.map_cons, List.mem_cons] at hr
    rcases hr with rfl | hr
    · have hheld := (Scheduler.holds_register c.scheduler file e.task file _).mpr
        (.inl ⟨samePath_rfl file, rfl⟩)
      apply hlater.installs_keep
      · exact List.mem_append_right _ (List.mem_singleton_self _)
      · exact ((h.bench.tidy.removes_register file e.task).tidy.valid file _ hheld).2
      · intro o ho (hsame : e.task.name = o.task.name)
        exact hnew (List.mem_map.mpr ⟨o, ho, hsame.symm⟩)
    · apply ih hlater hrest
      have hnext : (c.install file e.task 0).scheduler.nextToken = c.scheduler.nextToken + 1 :=
        Scheduler.register_nextToken _ _ _
      rwa [hnext]

theorem Sound.renewals_armed (h : c.Sound) {file : String} {r : TaskRun} (hr : r ∈ c.renewals file) :
    ⟨r, c.now⟩ ∈ (c.runAllNow file).scheduler.armed := by
  unfold renewals at hr
  unfold Course.runAllNow
  cases htasks : c.scheduler.tasksOf? file with
  | none =>
    rw [htasks] at hr
    cases hr
  | some tasks =>
    rw [htasks] at hr
    exact h.installs_armed file (h.bench.tidy.names tasks (Scheduler.tasksOf?_some htasks).1) hr

theorem expire_posts {r : TaskRun} (h : ⟨r, c.now⟩ ∈ c.scheduler.armed) :
    .run r ∈ (c.step .expire).scheduler.background := by
  change Job.run r ∈ (c.scheduler.expire c.now).background
  unfold Scheduler.expire
  rw [List.partition_eq_filter_filter]
  apply List.mem_append_right
  exact List.mem_map.mpr ⟨_, List.mem_filter.mpr ⟨h, by simp⟩, rfl⟩

theorem renewals_file {file : String} {r : TaskRun} (h : r ∈ c.renewals file) : r.file = file := by
  obtain ⟨x, -, rfl⟩ := List.mem_map.mp h
  rfl

theorem renewals_task (c : Course) (file : String) : (c.renewals file).map TaskRun.task =
    ((c.scheduler.tasksOf? file).elim [] FileTasks.entries).map TaskEntry.task := by
  unfold renewals
  rw [List.map_map]
  change List.map (TaskEntry.task ∘ Prod.fst) _ = _
  rw [← List.map_map, List.zipIdx_map_fst]

theorem Sound.renews_iff (h : c.Sound) (file : String) (task : Task) :
    (∃ r ∈ c.renewals file, r.task = task) ↔
      ∃ t, c.scheduler.entryOf? file task.name = some ⟨task, t⟩ := by
  have htidy := h.bench.tidy
  rw [← List.mem_map, renewals_task]
  constructor
  · intro hmem
    obtain ⟨e, he, rfl⟩ := List.mem_map.mp hmem
    cases htasks : c.scheduler.tasksOf? file with
    | none => simp [htasks] at he
    | some tasks =>
      rw [htasks] at he
      exact ⟨e.token, (htidy.entryOf?_eq_some_iff _ _ _).mpr ⟨(htidy.holds_iff_mem htasks e).mpr he, rfl⟩⟩
  · rintro ⟨t, hentry⟩
    obtain ⟨hheld, -⟩ := (htidy.entryOf?_eq_some_iff _ _ _).mp hentry
    obtain ⟨tasks, htasks, -⟩ := Option.bind_eq_some_iff.mp hentry
    rw [htasks]
    exact List.mem_map.mpr ⟨_, (htidy.holds_iff_mem htasks _).mp hheld, rfl⟩

def Act.Schedules (file name : String) : Act → Prop
  | schedule f task => samePath f file = true ∧ task.name = name
  | _ => False

structure Adds (c d : Course) (a : Act) : Prop where
  events : c.scheduler.events <+: d.scheduler.events
  registered : ∀ file name, d.scheduler.Registers file name →
    c.scheduler.Registers file name ∨ a.Schedules file name

theorem Adds.of_events {a : Act} (hevents : d.scheduler.events = c.scheduler.events)
    (hregistered : ∀ file name, d.scheduler.Registers file name →
      c.scheduler.Registers file name ∨ a.Schedules file name) : c.Adds d a :=
  ⟨hevents ▸ List.prefix_rfl, hregistered⟩

theorem Adds.of_files {a : Act} (hfiles : d.scheduler.files = c.scheduler.files)
    (hevents : c.scheduler.events <+: d.scheduler.events) : c.Adds d a where
  events := hevents
  registered := fun file name h => .inl ((Scheduler.registers_congr hfiles file name).mp h)

theorem Adds.of_scheduler {a : Act} (h : d.scheduler = c.scheduler) : c.Adds d a :=
  .of_files (congrArg Scheduler.files h) (h ▸ List.prefix_rfl)

theorem adds_finish (c : Course) (e : JobEnd) : c.Adds (c.finish e) (.finish e) := by
  have hended : (c.bench.finish e.runEnd c.now).scheduler.files = c.scheduler.files ∧
      (c.bench.finish e.runEnd c.now).scheduler.events = c.scheduler.events := by
    unfold Bench.finish
    split
    · exact Scheduler.ended_files_events _ _ _ _
    · exact ⟨rfl, rfl⟩
  unfold finish
  split
  · exact .of_files hended.1 (hended.2 ▸ List.prefix_rfl)
  · exact .of_scheduler rfl
  · exact .of_files hended.1 (hended.2 ▸ List.prefix_rfl)
  · exact .of_scheduler rfl

theorem Sound.step_adds (h : c.Sound) {a : Act} (ha : a ≠ .takeEvent) : c.Adds (c.step a) a := by
  have hlater := (h.step a).bench.tidy
  have htidy := h.bench.tidy
  cases a with
  | pass millis => exact .of_scheduler rfl
  | schedule file task =>
    refine .of_events (Scheduler.install_events _ _ _ _ _) ?_
    exact fun f n hf => htidy.registers_install hlater hf
  | reschedule file name =>
    simp only [Course.step] at hlater ⊢
    split at hlater
    · exact .of_scheduler rfl
    · next e he =>
      refine .of_events (Scheduler.install_events _ _ _ _ _) ?_
      intro f n hf
      rcases htidy.registers_install hlater hf with hf | ⟨hsame, hn⟩
      · exact .inl hf
      · obtain ⟨hheld, -⟩ := (htidy.entryOf?_eq_some_iff _ _ _).mp he
        exact .inl ((htidy.registers_iff f n).mpr ⟨e, hheld.congr hsame, hn⟩)
  | cancel file name =>
    refine .of_events (Scheduler.cancel_events _ _ _) ?_
    exact fun f n hf => .inl (htidy.registers_cancel hlater hf)
  | cancelAll file =>
    refine .of_events (Scheduler.cancelAll_events _ _) ?_
    exact fun f n hf => .inl (htidy.registers_cancelAll hlater hf)
  | runAllNow file =>
    have hscheduler : (c.runAllNow file).bench.scheduler = c.scheduler.runAllNow file c.now :=
      congrArg Bench.scheduler (runAllNow_bench c file).1
    change (c.runAllNow file).bench.scheduler.Tidy at hlater
    change c.Adds (c.runAllNow file) _
    rw [hscheduler] at hlater
    apply Adds.of_events
    · exact (congrArg _ hscheduler).trans (Scheduler.runAllNow_events _ _ _)
    · rw [scheduler, hscheduler]
      exact fun f n hf => .inl ((htidy.registers_runAllNow hlater f n).mp hf)
  | post n => exact .of_files rfl List.prefix_rfl
  | postEvent j => exact .of_files rfl (List.prefix_append _ _)
  | takeEvent => exact absurd rfl ha
  | expire => exact .of_files rfl List.prefix_rfl
  | fire i =>
    have hfired : (c.scheduler.fire i).files = c.scheduler.files ∧
        (c.scheduler.fire i).events = c.scheduler.events := by
      unfold Scheduler.fire
      split <;> exact ⟨rfl, rfl⟩
    simp only [Course.step]
    split
    · exact .of_scheduler rfl
    · split
      · exact .of_files hfired.1 (hfired.2 ▸ List.prefix_rfl)
      · exact .of_scheduler rfl
  | take =>
    change c.Adds c.take .take
    rcases c.take_cases with hsame | ⟨j, rest, -, -, ⟨r, -, -, htake⟩ | ⟨r, -, -, htake⟩ | ⟨-, htake⟩⟩
    · exact .of_scheduler (congrArg scheduler hsame)
    · exact .of_files (htake ▸ rfl) (htake ▸ List.prefix_rfl)
    · exact .of_files (htake ▸ rfl) (htake ▸ List.prefix_rfl)
    · exact .of_files (htake ▸ rfl) (htake ▸ List.prefix_rfl)
  | answer found =>
    obtain ⟨past, hheard⟩ := c.hear_eq found
    simp only [Course.step, hheard, Course.answer]
    split <;> exact .of_scheduler rfl
  | finish e => exact c.adds_finish e

end Course

end LanguageSessions
