import LanguageSessions.Proofs.Scheduler.Invariant

namespace LanguageSessions

namespace Course

variable {c : Course}

theorem Queued.note (h : c.Queued) (d : Deed) : (c.note d).Queued := ⟨h.posted, h.taken⟩

theorem Sound.install (h : c.Sound) (file : String) (task : Task) (delay : Nat) :
    (c.install file task delay).Sound := by
  have hr := h.bench.tidy.removes_register file task
  have hbackground : (c.scheduler.install file task delay c.now).background =
      c.scheduler.background := by
    rw [Scheduler.install, Scheduler.arm_background, Scheduler.register_background]
  have hbooks := (c.scheduler.register file task).arm_books
    ⟨file, task, c.scheduler.nextToken⟩ delay c.now
  have hcancelled : (c.scheduler.install file task delay c.now).cancelled =
      (c.scheduler.register file task).cancelled := congrArg (·.2.2) hbooks
  -- The token is a new one: none of its runs waits or is being done.
  have hnew : c.past.phase c.scheduler.nextToken = .unknown := (h.told.known _).mpr (Nat.le_refl _)
  have hidle : ∀ q : TaskRun, q.token = c.scheduler.nextToken → c.bench.doing ≠ some (.run q) := by
    intro q hq
    apply (h.placed c.scheduler.nextToken).not_doing _ _ hq
    · rw [hnew]
      simp
    · rw [hnew]
      simp
  exact {
    bench := h.bench.install file task delay c.now
    told := (h.told.install h.bench.tidy file task delay c.now).congr hbooks
    placed := by
      apply fits_concat (d := .installed ⟨file, task, c.scheduler.nextToken⟩ delay) rfl rfl
      · constructor
        · intro q hq htoken
          rcases mem_waiting_arm.mp hq with rfl | hq
          · rfl
          · have hp := (h.placed _).waiting q (mem_waiting_removes hr hq) htoken
            rw [hnew] at hp
            cases hp
        · rintro q hp htoken -
          cases hp
          exact mem_waiting_arm.mpr (.inl rfl)
        · intro q n
          simp only [Phase.after, reduceCtorEq, false_iff]
          exact fun hq => hidle q hq.1.2 hq.1.1
        · intro q n id
          simp only [Phase.after, reduceCtorEq, false_iff]
          exact fun hq => hidle q hq.1.2 hq.1.1
      · intro t ht
        apply (h.placed t).congr
        · intro ht
          exact hcancelled ▸ (hr.cancelled t).mpr (.inl ht)
        · intro q hq hw
          rcases mem_waiting_arm.mp hw with rfl | hw
          · exact absurd hq.symm ht
          · exact mem_waiting_removes hr hw
        · rintro q rfl hvalid hw
          have hvalid : q.token ∉ (c.scheduler.register file task).cancelled := hcancelled ▸ hvalid
          have hkept := mem_waiting_spares (c.scheduler.spares_register file task) hr.background hw hvalid
          exact mem_waiting_arm.mpr (.inr hkept)
        · exact fun _ _ => Iff.rfl
        · exact fun _ _ _ => ⟨rfl, rfl⟩
    timed := by
      apply h.timed.arm (e := c.install file task delay) (s := c.scheduler.register file task)
        (d := .installed ⟨file, task, c.scheduler.nextToken⟩ delay) rfl rfl rfl rfl
      · exact fun a ha => hr.armed.subset ha
      · exact hr.background
      · exact fun _ hq => hq
      · exact ⟨c.now, delay, List.mem_concat_self, Nat.le_refl _⟩
      · simp
    queued := by
      have hput := h.queued.keep (b := { c.bench with scheduler := _ }) hbackground rfl
      exact hput.note _ }

theorem Sound.runAllNow (h : c.Sound) (file : String) : (c.runAllNow file).Sound := by
  unfold Course.runAllNow
  split
  · exact h
  · exact List.foldlRecOn _ _ h fun c hc e _ => hc.install file e.task 0

theorem Sound.rerunAll (h : c.Sound) : c.rerunAll.Sound :=
  List.foldlRecOn _ _ h fun _ hc file _ => hc.runAllNow file

theorem Sound.withdraw (h : c.Sound) {t : Scheduler} {file : String} {gone : TaskEntry → Prop}
    (hr : c.scheduler.Removes t file gone) (hspares : c.scheduler.Spares t)
    (hnext : t.nextToken = c.scheduler.nextToken) {d : Deed} (hrun : d.run? = none)
    (hd : ∀ (r : TaskRun) x, d.Touches r.file r.task.name ↔
      samePath r.file file = true ∧ gone ⟨r.task, x⟩) :
    ((c.putScheduler t).note d).Sound where
  bench := h.bench.removes hr (Nat.le_of_eq hnext.symm)
  told := h.told.removes h.bench.tidy hr hnext hrun hd c.now
  placed := by
    intro x
    have hof : ¬ d.isOf x = true := by simp [Deed.isOf, hrun]
    have hphase : ((c.putScheduler t).note d).past.phase x = c.past.phase x :=
      (History.phase_concat c.past c.now d x).trans (if_neg hof)
    rw [hphase]
    apply (h.placed x).congr
    · exact fun hx => (hr.cancelled x).mpr (.inl hx)
    · exact fun r _ hw => mem_waiting_removes hr hw
    · rintro r rfl hvalid hw
      exact mem_waiting_spares hspares hr.background hw hvalid
    · exact fun _ _ => Iff.rfl
    · exact fun _ _ _ => ⟨rfl, rfl⟩
  timed := by
    refine h.timed.note (e := (c.putScheduler t).note d) rfl rfl (Nat.le_refl _) ?_ ?_ ?_
    · exact fun a ha => (h.timed.due a (hr.armed.subset ha)).append _
    · intro r hready
      change .run r ∈ t.background ∨ _ at hready
      rw [hr.background] at hready
      exact (h.timed.ready r hready).append _
    · rintro r n rfl
      cases hrun
  queued := (h.queued.keep (b := { c.bench with scheduler := t }) hr.background rfl).note d

theorem Sound.putScheduler (h : c.Sound) {s : Scheduler} (js : List Job)
    (hbench : ({ c.bench with scheduler := s } : Bench).Sound)
    (hbooks : s.books = c.scheduler.books) (hqueue : s.background = c.scheduler.background ++ js)
    (harmed : ∀ a ∈ s.armed, a ∈ c.scheduler.armed)
    (hjs : ∀ r, .run r ∈ js → ∃ a ∈ c.scheduler.armed, a.run = r ∧ a.due ≤ c.now)
    (hstays : ∀ a ∈ c.scheduler.armed, a ∈ s.armed ∨ .run a.run ∈ js) :
    (c.putScheduler s).Sound where
  bench := hbench
  told := h.told.congr hbooks
  placed := by
    intro t
    have hcancelled : s.cancelled = c.scheduler.cancelled := congrArg (·.2.2) hbooks
    apply (h.placed t).congr
    · exact fun ht => hcancelled ▸ ht
    · intro r _ hw
      rw [Bench.mem_waiting] at hw ⊢
      rcases hw with ⟨a, ha, har⟩ | hw
      · exact .inl ⟨a, harmed a ha, har⟩
      · change _ ∈ s.background at hw
        rw [hqueue, List.mem_append] at hw
        rcases hw with hw | hw
        · exact .inr hw
        · obtain ⟨a, ha, har, -⟩ := hjs r hw
          exact .inl ⟨a, ha, har⟩
    · intro r _ _ hw
      rw [Bench.mem_waiting] at hw ⊢
      change _ ∨ _ ∈ s.background
      rw [hqueue, List.mem_append]
      rcases hw with ⟨a, ha, rfl⟩ | hw
      · rcases hstays a ha with ha | ha
        · exact .inl ⟨a, ha, rfl⟩
        · exact .inr (.inr ha)
      · exact .inr (.inl hw)
    · exact fun _ _ => Iff.rfl
    · exact fun _ _ _ => ⟨rfl, rfl⟩
  timed := by
    refine h.timed.congr (e := c.putScheduler s) rfl (Nat.le_refl _) rfl harmed ?_
    rintro r (hr | hr)
    · change _ ∈ s.background at hr
      rw [hqueue, List.mem_append] at hr
      rcases hr with hr | hr
      · exact h.timed.ready r (.inl hr)
      · obtain ⟨a, ha, rfl, hdue⟩ := hjs r hr
        exact (h.timed.due a ha).later hdue
    · exact h.timed.ready r (.inr hr)
  queued := h.queued.put js hqueue rfl

theorem Sound.pass (h : c.Sound) (millis : Nat) : ({ c with now := c.now + millis } : Course).Sound where
  bench := h.bench
  told := h.told
  placed := by
    intro t
    apply (h.placed t).congr
    · exact id
    · exact fun _ _ hw => hw
    · exact fun _ _ _ hw => hw
    · exact fun _ _ => Iff.rfl
    · exact fun _ _ _ => ⟨rfl, rfl⟩
  timed := by
    refine h.timed.congr (e := { c with now := c.now + millis }) rfl (Nat.le_add_right _ _) rfl
      (fun _ ha => ha) ?_
    intro r hr
    exact (h.timed.ready r hr).later (Nat.le_add_right _ _)
  queued := ⟨h.queued.posted, h.queued.taken⟩

theorem Sound.post (h : c.Sound) (n : Nat) : (c.putScheduler (c.scheduler.post (.own n))).Sound := by
  apply h.putScheduler [.own n] (h.bench.post n)
  · rfl
  · rfl
  · exact fun _ ha => ha
  · simp
  · exact fun _ ha => .inl ha

theorem Sound.putEvents (h : c.Sound) (events : List Job) :
    (c.putScheduler { c.scheduler with events := events }).Sound := by
  have hbench : ({ c.bench with scheduler := { c.scheduler with events := events } } : Bench).Sound :=
    h.bench.shrink rfl (List.Subperm.refl _)
  apply h.putScheduler [] hbench
  · rfl
  · exact (List.append_nil _).symm
  · exact fun _ ha => ha
  · simp
  · exact fun _ ha => .inl ha

theorem Sound.expire (h : c.Sound) : (c.putScheduler (c.scheduler.expire c.now)).Sound := by
  apply h.putScheduler ((c.scheduler.armed.filter (·.due ≤ c.now)).map fun a => .run a.run)
    (h.bench.expire c.now)
  · rfl
  · simp [Scheduler.expire, List.partition_eq_filter_filter]
  · intro a ha
    simp only [Scheduler.expire, List.partition_eq_filter_filter] at ha
    exact (List.mem_filter.mp ha).1
  · intro r hr
    obtain ⟨a, ha, har⟩ := List.mem_map.mp hr
    obtain ⟨ha, hdue⟩ := List.mem_filter.mp ha
    exact ⟨a, ha, Job.run.inj har, by simpa using hdue⟩
  · intro a ha
    by_cases hdue : a.due ≤ c.now
    · exact .inr (List.mem_map.mpr ⟨a, List.mem_filter.mpr ⟨ha, by simpa using hdue⟩, rfl⟩)
    · left
      simp only [Scheduler.expire, List.partition_eq_filter_filter]
      exact List.mem_filter.mpr ⟨ha, by simpa using hdue⟩

theorem Sound.fire (h : c.Sound) {i : Nat} {a : Armed} (ha : c.scheduler.armed[i]? = some a)
    (hdue : a.due ≤ c.now) : (c.putScheduler (c.scheduler.fire i)).Sound := by
  have hfire : c.scheduler.fire i = { c.scheduler with
      armed := c.scheduler.armed.eraseIdx i, background := c.scheduler.background ++ [.run a.run] } := by
    simp [Scheduler.fire, ha]
  have hbench := h.bench.fire i
  rw [hfire] at hbench ⊢
  obtain ⟨hi, rfl⟩ := List.getElem?_eq_some_iff.mp ha
  apply h.putScheduler [.run c.scheduler.armed[i].run] hbench
  · rfl
  · rfl
  · exact fun _ hb => (List.eraseIdx_sublist _ i).subset hb
  · intro r hr
    exact ⟨_, List.getElem_mem hi, (Job.run.inj (List.mem_singleton.mp hr)).symm, hdue⟩
  · intro b hb
    rcases (List.getElem_cons_eraseIdx_perm hi).mem_iff.mpr hb with _ | ⟨_, hb⟩
    · exact .inr List.mem_cons_self
    · exact .inl hb

theorem isCancelled_iff (s : Scheduler) (t : Token) : s.isCancelled t = true ↔ t ∈ s.cancelled := by
  simp [Scheduler.isCancelled]

theorem Queued.take (h : c.Queued) {j : Job} {rest : List Job}
    (hqueue : c.scheduler.background = j :: rest) : c.posted = (c.taken ++ [j]) ++ rest := by
  rw [h.posted, hqueue, List.append_assoc, List.singleton_append]

theorem Sound.drop (h : c.Sound) {r : TaskRun} {rest : List Job} (hidle : c.bench.doing = none)
    (hqueue : c.scheduler.background = .run r :: rest) (hcancelled : r.token ∈ c.scheduler.cancelled) :
    ({ c with
        bench := { scheduler := { c.scheduler with background := rest } }
        taken := c.taken ++ [.run r]
        session := none
        left := c.left ++ [.run r] } : Course).Sound where
  bench := by
    have hbench := h.bench.take
    rwa [c.bench.take_cancelled hidle hqueue hcancelled] at hbench
  told := h.told.congr rfl
  placed := by
    intro t
    apply (h.placed t).congr
    · exact id
    · intro q _ hw
      rw [Bench.mem_waiting] at hw ⊢
      rw [hqueue]
      exact hw.imp_right (List.mem_cons_of_mem _)
    · rintro q rfl hvalid hw
      rw [Bench.mem_waiting, hqueue] at hw
      rw [Bench.mem_waiting]
      apply hw.imp_right
      intro hq
      rcases List.mem_cons.mp hq with hq | hq
      · cases hq
        exact absurd hcancelled hvalid
      · exact hq
    · simp [hidle]
    · simp [hidle]
  timed := by
    refine h.timed.congr rfl (Nat.le_refl _) rfl (fun _ ha => ha) ?_
    rintro q (hq | hq)
    · apply h.timed.ready q
      rw [hqueue]
      exact .inl (List.mem_cons_of_mem _ hq)
    · cases hq
  queued := {
    posted := h.queued.take hqueue
    taken := by simp [h.queued.taken, hidle] }

theorem Sound.takeOther (h : c.Sound) {j : Job} {rest : List Job} (hidle : c.bench.doing = none)
    (hqueue : c.scheduler.background = j :: rest) (hj : ∀ r, j ≠ .run r) :
    ({ c with
        bench := { scheduler := { c.scheduler with background := rest }, doing := some j }
        taken := c.taken ++ [j]
        session := none } : Course).Sound where
  bench := by
    have hbench := h.bench.take
    rwa [c.bench.take_next hidle hqueue fun r hrun => absurd hrun (hj r)] at hbench
  told := h.told.congr rfl
  placed := by
    have hsame : ∀ q : TaskRun, .run q ∈ c.scheduler.background ↔ .run q ∈ rest := by
      intro q
      simp [hqueue, Ne.symm (hj q)]
    intro t
    apply (h.placed t).congr
    · exact id
    · intro q _ hw
      rw [Bench.mem_waiting] at hw ⊢
      exact hw.imp_right (hsame q).mpr
    · intro q _ _ hw
      rw [Bench.mem_waiting] at hw ⊢
      exact hw.imp_right (hsame q).mp
    · simp [hidle, hj]
    · simp [hidle]
  timed := by
    refine h.timed.congr rfl (Nat.le_refl _) rfl (fun _ ha => ha) ?_
    rintro q (hq | hq)
    · apply h.timed.ready q
      rw [hqueue]
      exact .inl (List.mem_cons_of_mem _ hq)
    · exact absurd (Option.some.inj hq) (hj q)
  queued := {
    posted := h.queued.take hqueue
    taken := by simp [h.queued.taken, hidle] }

theorem Sound.begin (h : c.Sound) {r : TaskRun} {rest : List Job} (hidle : c.bench.doing = none)
    (hqueue : c.scheduler.background = .run r :: rest) (hvalid : r.token ∉ c.scheduler.cancelled) :
    (({ c with
        bench := { scheduler := { c.scheduler with background := rest }, doing := some (.run r) }
        attempts := c.attempts + 1
        taken := c.taken ++ [.run r]
        session := none } : Course).note (.began r (c.attempts + 1))).Sound := by
  have hbench := h.bench.take
  rw [c.bench.take_next hidle hqueue (by rintro q ⟨⟩; exact hvalid)] at hbench
  have hwaits : r ∈ c.bench.waiting := Bench.mem_waiting.mpr (.inr (by rw [hqueue]; simp))
  have hphase : c.past.phase r.token = .waiting r := (h.placed _).waiting r hwaits rfl
  have hrest : ∀ q : TaskRun, q.token ≠ r.token →
      (.run q ∈ c.scheduler.background ↔ .run q ∈ rest) := by
    intro q hq
    rw [hqueue, List.mem_cons, Job.run.injEq, or_iff_right]
    rintro rfl
    exact hq rfl
  exact {
    bench := hbench
    told := h.told.attempt (t := { c.scheduler with background := rest })
      (d := .began r (c.attempts + 1)) rfl rfl (by simp) hphase c.now
    placed := by
      apply fits_concat (c := c) (d := .began r (c.attempts + 1)) rfl rfl
      · constructor
        · intro q hq htoken
          exact absurd htoken (doing_ne hbench rfl hq)
        · rintro q ⟨⟩
        · intro q n
          constructor
          · rintro ⟨⟩
            exact ⟨⟨rfl, rfl⟩, rfl, rfl⟩
          · rintro ⟨⟨⟨⟩, -⟩, -, rfl⟩
            rfl
        · intro q n id
          simp [Phase.after, note]
      · intro t ht
        apply (h.placed t).congr
        · exact id
        · rintro q rfl hw
          rw [Bench.mem_waiting] at hw ⊢
          exact hw.imp_right (hrest q ht).mpr
        · rintro q rfl - hw
          rw [Bench.mem_waiting] at hw ⊢
          exact hw.imp_right (hrest q ht).mp
        · rintro q rfl
          simp only [note, hidle, Option.some.injEq, Job.run.injEq, reduceCtorEq, iff_false]
          rintro rfl
          exact ht rfl
        · simp [hidle]
    timed := by
      have hready : Ripe c.past r c.now := h.timed.ready r (.inl (by rw [hqueue]; simp))
      refine h.timed.note (d := .began r (c.attempts + 1)) rfl rfl (Nat.le_succ _) ?_ ?_ ?_
      · exact fun a ha => (h.timed.due a ha).append _
      · rintro q (hq | hq)
        · refine (h.timed.ready q (.inl ?_)).append _
          rw [hqueue]
          exact List.mem_cons_of_mem _ hq
        · cases hq
          exact hready.append _
      · rintro q n heq
        cases heq
        exact ⟨h.told.standing hready hvalid, Nat.lt_succ_self _, Nat.le_refl _⟩
    queued := {
      posted := h.queued.take hqueue
      taken := by simp [h.queued.taken, hidle, note] } }

theorem Sound.take (h : c.Sound) : c.take.Sound := by
  rcases c.take_cases with hsame | ⟨j, rest, hidle, hqueue, htaken⟩
  · rwa [hsame]
  · rcases htaken with ⟨r, rfl, hcancelled, htake⟩ | ⟨r, rfl, hvalid, htake⟩ | ⟨hj, htake⟩
    · rw [htake]
      exact h.drop hidle hqueue hcancelled
    · rw [htake]
      exact h.begin hidle hqueue hvalid
    · rw [htake]
      exact h.takeOther hidle hqueue hj

theorem Sound.found (h : c.Sound) {r : TaskRun} (hdoing : c.bench.doing = some (.run r))
    (hsession : c.session = none) (id : SessionId) :
    (({ c with session := some id } : Course).note (.ran r c.attempts id)).Sound := by
  have hphase : c.past.phase r.token = .seeking r c.attempts :=
    ((h.placed _).seeking r _).mpr ⟨⟨hdoing, rfl⟩, hsession, rfl⟩
  exact {
    bench := h.bench
    told := h.told.attempt (d := .ran r c.attempts id) rfl rfl (by simp) hphase c.now
    placed := by
      apply fits_concat (c := c) (d := .ran r c.attempts id) rfl rfl
      · constructor
        · intro q hq htoken
          exact absurd htoken (doing_ne h.bench hdoing hq)
        · rintro q ⟨⟩
        · intro q n
          simp [Phase.after, note]
        · intro q n id'
          constructor
          · rintro ⟨⟩
            exact ⟨⟨hdoing, rfl⟩, rfl, rfl⟩
          · rintro ⟨⟨hq, -⟩, heq, rfl⟩
            cases hdoing.symm.trans hq
            cases heq
            rfl
      · intro t ht
        apply (h.placed t).congr
        · exact fun hx => hx
        · exact fun _ _ hw => hw
        · exact fun _ _ _ hw => hw
        · exact fun _ _ => Iff.rfl
        · exact fun q hq hdone => absurd hdone (doing_other hdoing ht q hq)
    timed := by
      refine h.timed.note (d := .ran r c.attempts id) rfl rfl (Nat.le_refl _) ?_ ?_ ?_
      · exact fun a ha => (h.timed.due a ha).append _
      · exact fun q hq => (h.timed.ready q hq).append _
      · rintro q n ⟨⟩
    queued := ⟨h.queued.posted, h.queued.taken⟩ }

theorem Sound.leave (h : c.Sound) {r : TaskRun} (hdoing : c.bench.doing = some (.run r)) {d : Deed}
    (hrun : d.run? = some r) (hd : ∀ q delay, d ≠ .installed q delay) (hbegan : ∀ q n, d ≠ .began q n)
    (hallows : (c.past.phase r.token).Allows d)
    (hafter : (c.past.phase r.token).after d = .settled r ∨
      (c.past.phase r.token).after d = .waiting r ∧ r.token ∈ c.scheduler.cancelled)
    (session : Option SessionId) :
    (({ c with
        bench := { c.bench with doing := none }
        session := session
        left := c.left ++ [.run r] } : Course).note d).Sound where
  bench := h.bench.miss
  told := h.told.attempt rfl hrun hd hallows c.now
  placed := by
    apply fits_concat (c := c) (d := d) hrun rfl
    · constructor
      · intro q hq htoken
        exact absurd htoken (doing_ne h.bench hdoing hq)
      · intro q hq htoken hvalid
        rcases hafter with hafter | ⟨-, hcancelled⟩
        · rw [hafter] at hq
          cases hq
        · exact absurd hcancelled hvalid
      · intro q n
        rcases hafter with hafter | ⟨hafter, -⟩
        · simp [hafter, note]
        · simp [hafter, note]
      · intro q n id
        rcases hafter with hafter | ⟨hafter, -⟩
        · simp [hafter, note]
        · simp [hafter, note]
    · intro t ht
      have hother := doing_other hdoing ht
      apply (h.placed t).congr
      · exact id
      · exact fun _ _ hw => hw
      · exact fun _ _ _ hw => hw
      · intro q hq
        simp [note, hother q hq]
      · exact fun q hq hdone => absurd hdone (hother q hq)
  timed := by
    refine h.timed.note (d := d) rfl rfl (Nat.le_refl _) ?_ ?_ ?_
    · exact fun a ha => (h.timed.due a ha).append _
    · rintro q (hq | hq)
      · exact (h.timed.ready q (.inl hq)).append _
      · cases hq
    · exact fun q n hq => absurd hq (hbegan q n)
  queued := {
    posted := h.queued.posted
    taken := by simp [h.queued.taken, hdoing, note] }

theorem Sound.again (h : c.Sound) {r : TaskRun} {id : SessionId}
    (hdoing : c.bench.doing = some (.run r)) (hsession : c.session = some id)
    (hvalid : r.token ∉ c.scheduler.cancelled) :
    (({ c.put { scheduler := c.scheduler.arm r c.scheduler.debounce c.now } with
        session := none
        left := c.left ++ [.run r] } : Course).note (.ended r c.attempts .interrupted)).Sound := by
  have hphase : c.past.phase r.token = .working r c.attempts id :=
    ((h.placed _).working r _ id).mpr ⟨⟨hdoing, rfl⟩, hsession, rfl⟩
  have hbench := h.bench.finish .interrupted c.now
  have hfinish : c.bench.finish .interrupted c.now =
      { scheduler := c.scheduler.arm r c.scheduler.debounce c.now } := by
    simp [Bench.finish, hdoing, Scheduler.ended, isCancelled_iff, hvalid]
  rw [hfinish] at hbench
  have hbooks := c.scheduler.arm_books r c.scheduler.debounce c.now
  have hcancelled : (c.scheduler.arm r c.scheduler.debounce c.now).cancelled = c.scheduler.cancelled :=
    congrArg (·.2.2) hbooks
  have hready : Ripe c.past r c.now := h.timed.ready r (.inr hdoing)
  exact {
    bench := hbench
    told := h.told.attempt (d := .ended r c.attempts .interrupted) hbooks rfl (by simp)
      ⟨id, hphase⟩ c.now
    placed := by
      apply fits_concat (c := c) (d := .ended r c.attempts .interrupted) rfl rfl
      · constructor
        · intro q hq htoken
          rcases mem_waiting_arm.mp hq with rfl | hq
          · rfl
          · exact absurd htoken (doing_ne h.bench hdoing hq)
        · rintro q hq - -
          cases hq
          exact (mem_waiting_arm (b := c.bench)).mpr (.inl rfl)
        · intro q n
          simp [Phase.after, note, put]
        · intro q n id'
          simp [Phase.after, note, put]
      · intro t ht
        have hother := doing_other hdoing ht
        apply (h.placed t).congr
        · exact fun hx => hcancelled ▸ hx
        · rintro q rfl hw
          rcases mem_waiting_arm.mp hw with rfl | hw
          · exact absurd rfl ht
          · exact hw
        · exact fun _ _ _ hw => mem_waiting_arm.mpr (.inr hw)
        · intro q hq
          simp [note, put, hother q hq]
        · exact fun q hq hdone => absurd hdone (hother q hq)
    timed := by
      refine h.timed.arm (s := c.scheduler) (d := .ended r c.attempts .interrupted) rfl rfl rfl rfl
        ?_ ?_ ?_ ?_ ?_
      · exact fun _ ha => ha
      · rfl
      · rintro q ⟨⟩
      · exact (hready.later (Nat.le_add_right _ _)).append _
      · simp
    queued := {
      posted := (h.queued.keep (b := { c.bench with scheduler := c.scheduler.arm r _ c.now })
        rfl rfl).posted
      taken := by simp [h.queued.taken, hdoing, note, put] } }

theorem put_same (c : Course) (doing : Option Job) :
    c.put { c.bench with doing := doing } = { c with bench := { c.bench with doing := doing } } := by
  simp [put]

theorem Sound.hear (h : c.Sound) (found : Option SessionId) : (c.hear found).Sound := by
  unfold Course.hear
  split
  · next r _ _ =>
    have hput : c.putScheduler c.scheduler = c := c.put_same c.bench.doing
    have hnoted := h.withdraw (d := .answered r c.attempts found) (h.bench.tidy.removes_none r.file)
      (fun _ ha _ => ha) rfl rfl fun _ _ => ⟨False.elim, And.right⟩
    rwa [hput] at hnoted
  · exact h

theorem Sound.answer (h : c.Sound) (found : Option SessionId) : (c.answer found).Sound := by
  unfold Course.answer
  split
  · next r id hdoing hsession => exact h.found hdoing hsession id
  · next r hdoing hsession =>
    have hphase : c.past.phase r.token = .seeking r c.attempts :=
      ((h.placed _).seeking r _).mpr ⟨⟨hdoing, rfl⟩, hsession, rfl⟩
    exact h.leave (d := .missed r c.attempts) hdoing rfl (by simp) (by simp) hphase (.inl rfl) _
  · exact h

theorem Sound.leaveOther (h : c.Sound) {j : Job} (hdoing : c.bench.doing = some j)
    (hj : ∀ r, j ≠ .run r) :
    ({ c with bench := { c.bench with doing := none }, left := c.left ++ [j] } : Course).Sound where
  bench := h.bench.miss
  told := h.told
  placed := by
    intro t
    apply (h.placed t).congr
    · exact id
    · exact fun _ _ hw => hw
    · exact fun _ _ _ hw => hw
    · simp [hdoing, hj]
    · simp [hdoing, hj]
  timed := by
    refine h.timed.congr rfl (Nat.le_refl _) rfl (fun _ ha => ha) ?_
    rintro q (hq | hq)
    · exact h.timed.ready q (.inl hq)
    · cases hq
  queued := {
    posted := h.queued.posted
    taken := by simp [h.queued.taken, hdoing] }

theorem Sound.finish (h : c.Sound) (e : JobEnd) : (c.finish e).Sound := by
  unfold Course.finish
  split
  · next r id hdoing hsession =>
    have hphase : c.past.phase r.token = .working r c.attempts id :=
      ((h.placed _).working r _ id).mpr ⟨⟨hdoing, rfl⟩, hsession, rfl⟩
    by_cases hagain : e = .interrupted ∧ r.token ∉ c.scheduler.cancelled
    · obtain ⟨rfl, hvalid⟩ := hagain
      have hfinish : c.bench.finish JobEnd.interrupted.runEnd c.now =
          { scheduler := c.scheduler.arm r c.scheduler.debounce c.now } := by
        simp [Bench.finish, hdoing, JobEnd.runEnd, Scheduler.ended, isCancelled_iff, hvalid]
      rw [hfinish]
      exact h.again hdoing hsession hvalid
    · have hfinish : c.bench.finish e.runEnd c.now = { c.bench with doing := none } := by
        cases e with
        | interrupted =>
          have hcancelled : r.token ∈ c.scheduler.cancelled := by simpa using hagain
          simp [Bench.finish, hdoing, JobEnd.runEnd, Scheduler.ended, isCancelled_iff, hcancelled]
        | _ => simp [Bench.finish, hdoing, JobEnd.runEnd, Scheduler.ended]
      rw [hfinish, put_same]
      apply h.leave (d := .ended r c.attempts e) hdoing rfl (by simp) (by simp) ⟨id, hphase⟩
      cases e with
      | interrupted => exact .inr ⟨rfl, by simpa using hagain⟩
      | _ => exact .inl rfl
  · exact h
  · next j hdoing hworking hseeking =>
    have hj : ∀ r, j ≠ .run r := by
      rintro r rfl
      cases hsession : c.session with
      | none => exact hseeking r hsession rfl
      | some id => exact hworking r id hsession rfl
    have hfinish : c.bench.finish e.runEnd c.now = { c.bench with doing := none } := by
      cases j with
      | run r => exact absurd rfl (hj r)
      | _ => simp [Bench.finish, hdoing]
    rw [hfinish]
    exact h.leaveOther hdoing hj
  · exact h

theorem Sound.step (h : c.Sound) (a : Act) : (c.step a).Sound := by
  cases a with
  | pass millis => exact h.pass millis
  | schedule file task => exact h.install file task _
  | reschedule file name =>
    simp only [Course.step]
    split
    · exact h
    · exact h.install file _ _
  | cancel file name =>
    apply h.withdraw (h.bench.tidy.removes_cancel file name) (c.scheduler.spares_cancel file name)
      (Bench.cancel_nextToken _ _ _) rfl
    intro r x
    exact and_congr ⟨samePath_symm, samePath_symm⟩ eq_comm
  | cancelAll file =>
    apply h.withdraw (h.bench.tidy.removes_cancelAll file) (c.scheduler.spares_cancelAll file)
      (Bench.cancelAll_nextToken _ _) rfl
    intro r x
    simpa using ⟨samePath_symm, samePath_symm⟩
  | runAllNow file => exact h.runAllNow file
  | post n => exact h.post n
  | postEvent j => exact h.putEvents _
  | takeEvent =>
    simp only [Course.step]
    split
    · exact h
    · exact (h.putEvents _).rerunAll
    · exact h.putEvents _
  | expire => exact h.expire
  | fire i =>
    simp only [Course.step]
    split
    · exact h
    · next a ha =>
      split
      · next hdue => exact h.fire ha hdue
      · exact h
  | take => exact h.take
  | answer found => exact (h.hear found).answer found
  | finish e => exact h.finish e

theorem Sound.run (h : c.Sound) (as : List Act) : (c.run as).Sound := by
  induction as generalizing c with
  | nil => exact h
  | cons a as ih => exact ih (h.step a)

theorem run_sound (debounce : Nat) (as : List Act) : ((start debounce).run as).Sound :=
  (Sound.start debounce).run as

end Course

end LanguageSessions
