import LanguageSessions.Proofs.Scheduler.Course

namespace LanguageSessions

namespace Scheduler

def Spares (s t : Scheduler) : Prop := ∀ a ∈ s.armed, a.run.token ∉ t.cancelled → a ∈ t.armed

theorem spares_cancelToken (s : Scheduler) (x : Token) : s.Spares (s.cancelToken x) := by
  intro a ha hvalid
  simp only [cancelToken, List.mem_cons, not_or] at hvalid
  exact List.mem_filter.mpr ⟨ha, by simpa using hvalid.1⟩

theorem spares_register (s : Scheduler) (file : String) (task : Task) :
    s.Spares (s.register file task) := by
  unfold register
  cases s.entryOf? file task.name with
  | none => exact fun a ha _ => ha
  | some old => exact s.spares_cancelToken old.token

theorem spares_cancel (s : Scheduler) (file name : String) : s.Spares (s.cancel file name).1 := by
  unfold cancel
  split
  · exact fun a ha _ => ha
  · exact fun a ha hvalid => spares_cancelToken _ _ a ha hvalid

theorem spares_cancelTokens (es : List TaskEntry) (s : Scheduler) :
    s.Spares (es.foldl (fun s e => s.cancelToken e.token) s) := by
  induction es generalizing s with
  | nil => exact fun a ha _ => ha
  | cons e es ih =>
    intro a ha hvalid
    have hcancelled := (cancelTokens es (s.cancelToken e.token)).2.2.2.2 a.run.token
    apply ih (s.cancelToken e.token) a _ hvalid
    exact s.spares_cancelToken e.token a ha fun hx => hvalid (hcancelled.mpr (.inl hx))

theorem spares_cancelAll (s : Scheduler) (file : String) : s.Spares (s.cancelAll file).1 := by
  unfold cancelAll
  split
  · exact fun a ha _ => ha
  · exact fun a ha hvalid => spares_cancelTokens _ _ a ha hvalid

end Scheduler

theorem Bench.mem_waiting {b : Bench} {r : TaskRun} :
    r ∈ b.waiting ↔ (∃ a ∈ b.scheduler.armed, a.run = r) ∨ .run r ∈ b.scheduler.background := by
  have hrun : ∀ j : Job, j.run? = some r ↔ j = .run r := by
    intro j
    cases j <;> simp [Job.run?]
  simp [waiting, hrun]

namespace Course

structure Told (past : History) (s : Scheduler) : Prop where
  orderly : past.Orderly
  known : ∀ t, past.phase t = .unknown ↔ s.nextToken ≤ t
  held : ∀ u r delay, (u, .installed r delay) ∈ past → r.token ∉ s.cancelled →
    s.Holds r.file ⟨r.task, r.token⟩
  touched : ∀ u r delay, (u, .installed r delay) ∈ past → (r.token ∈ s.cancelled ↔
    ∃ y, Precedes past (u, .installed r delay) y ∧ y.2.Touches r.file r.task.name)

structure Fits (c : Course) (t : Token) (p : Phase) : Prop where
  waiting : ∀ r ∈ c.bench.waiting, r.token = t → p = .waiting r
  waits : ∀ r, p = .waiting r → r.token = t → t ∉ c.scheduler.cancelled → r ∈ c.bench.waiting
  seeking : ∀ r n, p = .seeking r n ↔
    (c.bench.doing = some (.run r) ∧ r.token = t) ∧ c.session = none ∧ n = c.attempts
  working : ∀ r n id, p = .working r n id ↔
    (c.bench.doing = some (.run r) ∧ r.token = t) ∧ c.session = some id ∧ n = c.attempts

def Ripe (past : History) (r : TaskRun) (time : Nat) : Prop :=
  ∃ u delay, (u, .installed r delay) ∈ past ∧ u + delay ≤ time

def Standing (past : History) (r : TaskRun) (time : Nat) : Prop :=
  ∃ l₁ u delay l₂, past = l₁ ++ (u, .installed r delay) :: l₂ ∧ u + delay ≤ time ∧
    ∀ e ∈ l₂, ¬ e.2.Touches r.file r.task.name

structure Timed (c : Course) : Prop where
  sorted : c.past.Pairwise fun x y => x.1 ≤ y.1
  stamped : ∀ x ∈ c.past, x.1 ≤ c.now
  due : ∀ a ∈ c.scheduler.armed, Ripe c.past a.run a.due
  ready : ∀ r, .run r ∈ c.scheduler.background ∨ c.bench.doing = some (.run r) →
    Ripe c.past r c.now
  begun : ∀ l₁ u r n l₂, c.past = l₁ ++ (u, .began r n) :: l₂ → Standing l₁ r u
  numbered : c.past.Pairwise fun x y => ∀ r n q m, x.2 = .began r n → y.2 = .began q m → n < m
  counted : ∀ u r n, (u, .began r n) ∈ c.past → n ≤ c.attempts

structure Queued (c : Course) : Prop where
  posted : c.posted = c.taken ++ c.scheduler.background
  taken : c.taken = c.left ++ c.bench.doing.toList

structure Sound (c : Course) : Prop where
  bench : c.bench.Sound
  told : Told c.past c.scheduler
  placed : ∀ t, c.Fits t (c.past.phase t)
  timed : c.Timed
  queued : c.Queued

theorem Sound.start (debounce : Nat) : (start debounce).Sound where
  bench := Bench.Sound.start debounce
  told := {
    orderly := .nil
    known := by simp [Course.start, History.phase]
    held := by simp [Course.start]
    touched := by simp [Course.start] }
  placed := by
    intro t
    constructor <;> simp [Course.start, Bench.waiting, History.phase]
  timed := {
    sorted := .nil
    stamped := by simp [Course.start]
    due := by simp [Course.start]
    ready := by simp [Course.start]
    begun := by simp [Course.start]
    numbered := .nil
    counted := by simp [Course.start] }
  queued := ⟨rfl, rfl⟩

theorem Ripe.later {past : History} {r : TaskRun} {u v : Nat} (h : Ripe past r u) (huv : u ≤ v) :
    Ripe past r v := by
  obtain ⟨w, delay, hmem, hdue⟩ := h
  exact ⟨w, delay, hmem, Nat.le_trans hdue huv⟩

theorem Ripe.append {past : History} {r : TaskRun} {u : Nat} (h : Ripe past r u) (es : History) :
    Ripe (past ++ es) r u := by
  obtain ⟨w, delay, hmem, hdue⟩ := h
  exact ⟨w, delay, List.mem_append_left _ hmem, hdue⟩

theorem Told.congr {past : History} {s t : Scheduler} (h : Told past s) (hbooks : t.books = s.books) :
    Told past t := by
  have hholds := Scheduler.holds_congr hbooks
  simp only [Scheduler.books, Prod.mk.injEq] at hbooks
  obtain ⟨-, hnext, hcancelled⟩ := hbooks
  exact {
    orderly := h.orderly
    known := hnext ▸ h.known
    held := by
      rw [hcancelled]
      intro u r delay hmem hvalid
      exact (hholds _ _).mpr (h.held u r delay hmem hvalid)
    touched := hcancelled ▸ h.touched }

theorem Told.touch {past : History} {s t : Scheduler} (h : Told past s) (htidy : s.Tidy)
    {file : String} {gone : TaskEntry → Prop} (hr : s.Removes t file gone) {d : Deed}
    (hd : ∀ (r : TaskRun) x, d.Touches r.file r.task.name ↔
      samePath r.file file = true ∧ gone ⟨r.task, x⟩)
    {u delay : Nat} {r : TaskRun} (hmem : (u, .installed r delay) ∈ past) :
    r.token ∈ t.cancelled ↔ r.token ∈ s.cancelled ∨ d.Touches r.file r.task.name := by
  rw [hr.cancelled]
  by_cases hvalid : r.token ∈ s.cancelled
  · simp [hvalid]
  · have hheld := h.held u r delay hmem hvalid
    apply or_congr_right
    rw [hd r r.token]
    constructor
    · rintro ⟨e, he, hgone, htoken⟩
      obtain ⟨hfile, rfl⟩ := htidy.tokens _ _ _ _ hheld he htoken.symm
      exact ⟨hfile, hgone⟩
    · rintro ⟨hfile, hgone⟩
      exact ⟨_, hheld.congr hfile, hgone, rfl⟩

theorem Told.stays {past : History} {s t : Scheduler} (h : Told past s) {file : String}
    {gone : TaskEntry → Prop} (hr : s.Removes t file gone) {u delay : Nat} {r : TaskRun}
    (hmem : (u, .installed r delay) ∈ past) (hvalid : r.token ∉ t.cancelled) :
    t.Holds r.file ⟨r.task, r.token⟩ := by
  rw [hr.cancelled, not_or] at hvalid
  have hheld := h.held u r delay hmem hvalid.1
  rcases hr.keeps r.file _ hheld with ⟨hfile, hgone⟩ | hkept
  · exact absurd ⟨_, hheld.congr hfile, hgone, rfl⟩ hvalid.2
  · exact hkept

theorem Told.touched_concat {past : History} {s t : Scheduler} (h : Told past s) (htidy : s.Tidy)
    {file : String} {gone : TaskEntry → Prop} (hr : s.Removes t file gone) {d : Deed}
    (hd : ∀ (r : TaskRun) x, d.Touches r.file r.task.name ↔
      samePath r.file file = true ∧ gone ⟨r.task, x⟩)
    {u delay : Nat} {r : TaskRun} (hmem : (u, .installed r delay) ∈ past) (now : Nat) :
    r.token ∈ t.cancelled ↔
      ∃ y, Precedes (past ++ [(now, d)]) (u, .installed r delay) y ∧ y.2.Touches r.file r.task.name := by
  rw [h.touch htidy hr hd hmem, h.touched u r delay hmem]
  constructor
  · rintro (⟨y, hbefore, hy⟩ | hy)
    · exact ⟨y, hbefore.concat _, hy⟩
    · exact ⟨_, precedes_concat.mpr (.inr ⟨hmem, rfl⟩), hy⟩
  · rintro ⟨y, hbefore, hy⟩
    rcases precedes_concat.mp hbefore with hbefore | ⟨-, rfl⟩
    · exact .inl ⟨y, hbefore, hy⟩
    · exact .inr hy

theorem Told.removes {past : History} {s t : Scheduler} (h : Told past s) (htidy : s.Tidy)
    {file : String} {gone : TaskEntry → Prop} (hr : s.Removes t file gone)
    (hnext : t.nextToken = s.nextToken) {d : Deed} (hrun : d.run? = none)
    (hd : ∀ (r : TaskRun) x, d.Touches r.file r.task.name ↔
      samePath r.file file = true ∧ gone ⟨r.task, x⟩)
    (now : Nat) : Told (past ++ [(now, d)]) t where
  orderly := by
    apply h.orderly.concat
    intro r hr
    rw [hrun] at hr
    cases hr
  known := by
    intro x
    have hof : ¬ d.isOf x = true := by simp [Deed.isOf, hrun]
    rw [History.phase_concat, if_neg hof, h.known, hnext]
  held := by
    intro u r delay hmem hvalid
    rcases History.mem_concat.mp hmem with hmem | heq
    · exact h.stays hr hmem hvalid
    · obtain ⟨-, rfl⟩ := Prod.mk.inj heq
      cases hrun
  touched := by
    intro u r delay hmem
    rcases History.mem_concat.mp hmem with hmem | heq
    · exact h.touched_concat htidy hr hd hmem now
    · obtain ⟨-, rfl⟩ := Prod.mk.inj heq
      cases hrun

theorem Told.install {past : History} {s : Scheduler} (h : Told past s) (htidy : s.Tidy)
    (file : String) (task : Task) (delay now : Nat) :
    Told (past ++ [(now, .installed ⟨file, task, s.nextToken⟩ delay)]) (s.register file task) := by
  have hr := htidy.removes_register file task
  have hnew : past.phase s.nextToken = .unknown := (h.known _).mpr (Nat.le_refl _)
  exact {
    orderly := by
      apply h.orderly.concat
      rintro r ⟨⟩
      exact hnew
    known := by
      intro x
      rw [History.phase_concat, Scheduler.register_nextToken]
      have hknown := h.known x
      by_cases hx : s.nextToken = x
      · have hof : (Deed.installed ⟨file, task, s.nextToken⟩ delay).isOf x = true := by
          simp [Deed.isOf, Deed.run?, hx]
        rw [if_pos hof]
        constructor
        · intro hphase
          cases hphase
        · exact fun hle => absurd hx (Nat.ne_of_lt hle)
      · have hof : ¬ (Deed.installed ⟨file, task, s.nextToken⟩ delay).isOf x = true := by
          simp [Deed.isOf, Deed.run?, hx]
        rw [if_neg hof, hknown]
        exact ⟨fun hle => Nat.lt_of_le_of_ne hle hx, Nat.le_of_succ_le⟩
    held := by
      intro u r delay' hmem hvalid
      rcases History.mem_concat.mp hmem with hmem | heq
      · exact h.stays hr hmem hvalid
      · obtain ⟨-, heq⟩ := Prod.mk.inj heq
        cases heq
        exact (Scheduler.holds_register _ _ _ _ _).mpr (.inl ⟨samePath_rfl file, rfl⟩)
    touched := by
      intro u r delay' hmem
      rcases History.mem_concat.mp hmem with hmem | heq
      · apply h.touched_concat htidy hr _ hmem now
        intro q x
        exact and_congr ⟨samePath_symm, samePath_symm⟩ eq_comm
      · cases heq
        have hheld := (Scheduler.holds_register s file task file _).mpr (.inl ⟨samePath_rfl file, rfl⟩)
        -- The token is new: neither is it cancelled, nor does a deed follow that schedules it.
        constructor
        · exact fun hx => absurd hx (hr.tidy.valid file _ hheld).2
        · rintro ⟨y, hbefore, -⟩
          have hold : (now, Deed.installed ⟨file, task, s.nextToken⟩ delay) ∈ past := by
            rcases precedes_concat.mp hbefore with hbefore | ⟨hmem, -⟩
            · exact hbefore.left
            · exact hmem
          have hphase := h.orderly.run?_phase hold rfl
          rw [hnew] at hphase
          cases hphase }

theorem Told.attempt {past : History} {s t : Scheduler} (h : Told past s) (hbooks : t.books = s.books)
    {d : Deed} {r : TaskRun} (hrun : d.run? = some r) (hd : ∀ q delay, d ≠ .installed q delay)
    (hallows : (past.phase r.token).Allows d) (now : Nat) : Told (past ++ [(now, d)]) t := by
  have htouches : ∀ file name, ¬ d.Touches file name := by
    intro file name htouches
    cases d with
    | installed q delay => exact hd q delay rfl
    | cancelled f n => cases hrun
    | cancelledAll f => cases hrun
    | _ => exact htouches
  have hphase : past.phase r.token ≠ .unknown ∧ (past.phase r.token).after d ≠ .unknown := by
    cases d with
    | installed q delay => exact absurd rfl (hd q delay)
    | cancelled f n => cases hrun
    | cancelledAll f => cases hrun
    | answered q n found => cases hrun
    | began q n => exact ⟨by rw [hallows]; simp, by simp [Phase.after]⟩
    | ran q n id => exact ⟨by rw [hallows]; simp, by simp [Phase.after]⟩
    | missed q n => exact ⟨by rw [hallows]; simp, by simp [Phase.after]⟩
    | ended q n e =>
      obtain ⟨id, hworking⟩ := hallows
      refine ⟨by rw [hworking]; simp, ?_⟩
      simp only [Phase.after]
      split <;> simp
  have htold := h.congr hbooks
  exact {
    orderly := by
      apply h.orderly.concat
      intro q hq
      rw [hrun] at hq
      cases hq
      exact hallows
    known := by
      intro x
      rw [History.phase_concat]
      split
      · next hof =>
        obtain ⟨q, hq, rfl⟩ := (Deed.isOf_iff _ _).mp hof
        rw [hrun] at hq
        cases hq
        simp only [hphase.2, false_iff]
        rw [← htold.known]
        exact hphase.1
      · exact htold.known x
    held := by
      intro u q delay hmem
      rcases History.mem_concat.mp hmem with hmem | heq
      · exact htold.held u q delay hmem
      · exact absurd (Prod.mk.inj heq).2.symm (hd q delay)
    touched := by
      intro u q delay hmem
      have hmem : (u, .installed q delay) ∈ past := by
        rcases History.mem_concat.mp hmem with hmem | heq
        · exact hmem
        · exact absurd (Prod.mk.inj heq).2.symm (hd q delay)
      rw [htold.touched u q delay hmem]
      constructor
      · exact fun ⟨y, hbefore, hy⟩ => ⟨y, hbefore.concat _, hy⟩
      · rintro ⟨y, hbefore, hy⟩
        rcases precedes_concat.mp hbefore with hbefore | ⟨-, rfl⟩
        · exact ⟨y, hbefore, hy⟩
        · exact absurd hy (htouches _ _) }

/-- A run whose token is valid was not touched since it was scheduled. -/
theorem Told.standing {past : History} {s : Scheduler} (h : Told past s) {r : TaskRun} {time : Nat}
    (hready : Ripe past r time) (hvalid : r.token ∉ s.cancelled) : Standing past r time := by
  obtain ⟨u, delay, hmem, hdue⟩ := hready
  obtain ⟨l₁, l₂, hpast⟩ := List.append_of_mem hmem
  refine ⟨l₁, u, delay, l₂, hpast, hdue, ?_⟩
  intro x hx hy
  apply hvalid
  refine (h.touched u r delay hmem).mpr ⟨x, ?_, hy⟩
  exact hpast ▸ precedes_of_mem l₁ hx

variable {c : Course}

theorem attempt_congr {e : Course} {t : Token}
    (hdoing : ∀ r : TaskRun, r.token = t → (e.bench.doing = some (.run r) ↔ c.bench.doing = some (.run r)))
    (hattempt : ∀ r : TaskRun, r.token = t → c.bench.doing = some (.run r) →
      e.session = c.session ∧ e.attempts = c.attempts)
    (r : TaskRun) (n : Nat) (session : Option SessionId) :
    ((c.bench.doing = some (.run r) ∧ r.token = t) ∧ c.session = session ∧ n = c.attempts) ↔
      (e.bench.doing = some (.run r) ∧ r.token = t) ∧ e.session = session ∧ n = e.attempts := by
  constructor
  · rintro ⟨⟨hr, htoken⟩, hsession, hn⟩
    obtain ⟨hs, ha⟩ := hattempt r htoken hr
    exact ⟨⟨(hdoing r htoken).mpr hr, htoken⟩, hs.trans hsession, hn.trans ha.symm⟩
  · rintro ⟨⟨hr, htoken⟩, hsession, hn⟩
    have hdone := (hdoing r htoken).mp hr
    obtain ⟨hs, ha⟩ := hattempt r htoken hdone
    exact ⟨⟨hdone, htoken⟩, hs.symm.trans hsession, hn.trans ha⟩

theorem Fits.congr {e : Course} {t : Token} {p : Phase} (h : c.Fits t p)
    (hcancelled : t ∈ c.scheduler.cancelled → t ∈ e.scheduler.cancelled)
    (hold : ∀ r, r.token = t → r ∈ e.bench.waiting → r ∈ c.bench.waiting)
    (hnew : ∀ r, r.token = t → t ∉ e.scheduler.cancelled → r ∈ c.bench.waiting → r ∈ e.bench.waiting)
    (hdoing : ∀ r : TaskRun, r.token = t → (e.bench.doing = some (.run r) ↔ c.bench.doing = some (.run r)))
    (hattempt : ∀ r : TaskRun, r.token = t → c.bench.doing = some (.run r) →
      e.session = c.session ∧ e.attempts = c.attempts) : e.Fits t p where
  waiting := fun r hr htoken => h.waiting r (hold r htoken hr) htoken
  waits := fun r hp htoken hvalid =>
    hnew r htoken hvalid (h.waits r hp htoken fun hx => hvalid (hcancelled hx))
  seeking r n := (h.seeking r n).trans (attempt_congr hdoing hattempt r n none)
  working r n id := (h.working r n id).trans (attempt_congr hdoing hattempt r n (some id))

theorem fits_concat {e : Course} {d : Deed} {r : TaskRun} (hrun : d.run? = some r)
    (hpast : e.past = c.past ++ [(c.now, d)])
    (hself : e.Fits r.token ((c.past.phase r.token).after d))
    (hothers : ∀ t, t ≠ r.token → e.Fits t (c.past.phase t)) (t : Token) :
    e.Fits t (e.past.phase t) := by
  rw [hpast, History.phase_concat]
  split
  · next hof =>
    obtain ⟨q, hq, rfl⟩ := (Deed.isOf_iff _ _).mp hof
    rw [hrun] at hq
    cases hq
    exact hself
  · next hof =>
    apply hothers t
    rintro rfl
    exact hof (Deed.isOf_of_run? hrun)

theorem Timed.congr (h : c.Timed) {e : Course} (hpast : e.past = c.past) (hnow : c.now ≤ e.now)
    (hattempts : e.attempts = c.attempts) (harmed : ∀ a ∈ e.scheduler.armed, a ∈ c.scheduler.armed)
    (hready : ∀ r, .run r ∈ e.scheduler.background ∨ e.bench.doing = some (.run r) →
      Ripe c.past r e.now) : e.Timed where
  sorted := hpast ▸ h.sorted
  stamped := by
    rw [hpast]
    exact fun x hx => Nat.le_trans (h.stamped x hx) hnow
  due := by
    rw [hpast]
    exact fun a ha => h.due a (harmed a ha)
  ready := by
    rw [hpast]
    exact hready
  begun := hpast ▸ h.begun
  numbered := hpast ▸ h.numbered
  counted := by
    rw [hpast, hattempts]
    exact h.counted

theorem Timed.note (h : c.Timed) {e : Course} {d : Deed} (hpast : e.past = c.past ++ [(c.now, d)])
    (hnow : e.now = c.now) (hattempts : c.attempts ≤ e.attempts)
    (hdue : ∀ a ∈ e.scheduler.armed, Ripe e.past a.run a.due)
    (hready : ∀ r, .run r ∈ e.scheduler.background ∨ e.bench.doing = some (.run r) →
      Ripe e.past r e.now)
    (hbegins : ∀ r n, d = .began r n → Standing c.past r c.now ∧ c.attempts < n ∧ n ≤ e.attempts) :
    e.Timed where
  sorted := by
    rw [hpast]
    apply List.pairwise_append.mpr
    refine ⟨h.sorted, List.pairwise_singleton _ _, ?_⟩
    intro x hx y hy
    rw [List.mem_singleton.mp hy]
    exact h.stamped x hx
  stamped := by
    rw [hpast, hnow]
    intro x hx
    rcases History.mem_concat.mp hx with hx | rfl
    · exact h.stamped x hx
    · exact Nat.le_refl _
  due := hdue
  ready := hready
  begun := by
    rw [hpast]
    intro l₁ u r n l₂ heq
    rcases History.concat_split heq with ⟨rfl, hlast, -⟩ | ⟨l₃, hpast, -⟩
    · obtain ⟨rfl, rfl⟩ := Prod.mk.inj hlast
      exact (hbegins r n rfl).1
    · exact h.begun l₁ u r n l₃ hpast
  numbered := by
    rw [hpast]
    apply List.pairwise_append.mpr
    refine ⟨h.numbered, List.pairwise_singleton _ _, ?_⟩
    intro x hx y hy r n q m hr hq
    rw [List.mem_singleton.mp hy] at hq
    obtain ⟨u, d'⟩ := x
    obtain rfl : d' = _ := hr
    exact Nat.lt_of_le_of_lt (h.counted u r n hx) (hbegins q m hq).2.1
  counted := by
    rw [hpast]
    intro u r n hmem
    rcases History.mem_concat.mp hmem with hmem | heq
    · exact Nat.le_trans (h.counted u r n hmem) hattempts
    · obtain ⟨rfl, rfl⟩ := Prod.mk.inj heq
      exact (hbegins r n rfl).2.2

theorem Queued.put (h : c.Queued) {b : Bench} (js : List Job)
    (hqueue : b.scheduler.background = c.scheduler.background ++ js)
    (hdoing : b.doing = c.bench.doing) : (c.put b).Queued where
  posted := by
    change c.posted ++ b.scheduler.background.drop c.scheduler.background.length =
      c.taken ++ b.scheduler.background
    rw [hqueue, List.drop_left, h.posted, List.append_assoc]
  taken := by
    change c.taken = c.left ++ b.doing.toList
    rw [hdoing]
    exact h.taken

theorem Queued.keep (h : c.Queued) {b : Bench}
    (hqueue : b.scheduler.background = c.scheduler.background) (hdoing : b.doing = c.bench.doing) :
    (c.put b).Queued :=
  h.put [] (by rw [hqueue, List.append_nil]) hdoing

theorem Timed.arm (h : c.Timed) {e : Course} {s : Scheduler} {r : TaskRun} {delay : Nat} {d : Deed}
    (hpast : e.past = c.past ++ [(c.now, d)]) (hnow : e.now = c.now)
    (hattempts : e.attempts = c.attempts) (hscheduler : e.scheduler = s.arm r delay c.now)
    (harmed : ∀ a ∈ s.armed, a ∈ c.scheduler.armed)
    (hbackground : s.background = c.scheduler.background)
    (hdoing : ∀ q, e.bench.doing = some (.run q) → c.bench.doing = some (.run q))
    (hripe : Ripe e.past r (c.now + delay)) (hd : ∀ q n, d ≠ .began q n) : e.Timed := by
  apply h.note hpast hnow (Nat.le_of_eq hattempts.symm)
  · intro a ha
    rw [hscheduler, Scheduler.arm_armed] at ha
    rcases List.mem_append.mp ha with ha | ha
    · rw [hpast]
      exact (h.due a (harmed a ha)).append _
    · rw [List.mem_singleton.mp ha]
      exact hripe
  · intro q hq
    rw [hscheduler, Scheduler.arm_background, hbackground] at hq
    rw [hnow, hpast]
    exact (h.ready q (hq.imp_right (hdoing q))).append _
  · exact fun q n heq => absurd heq (hd q n)

theorem mem_waiting_arm {b : Bench} {s : Scheduler} {q r : TaskRun} {delay now : Nat} :
    r ∈ ({ b with scheduler := s.arm q delay now } : Bench).waiting ↔
      r = q ∨ r ∈ ({ b with scheduler := s } : Bench).waiting := by
  rw [Bench.mem_waiting, Bench.mem_waiting, Scheduler.arm_background, Scheduler.arm_armed]
  simp only [List.mem_append, List.mem_singleton, or_and_right, exists_or, exists_eq_left]
  rw [eq_comm (a := q), or_comm (a := r = q), or_assoc, or_comm (a := r = q), or_assoc]

theorem mem_waiting_removes {b : Bench} {t : Scheduler} {file : String} {gone : TaskEntry → Prop}
    (hr : b.scheduler.Removes t file gone) {r : TaskRun}
    (hw : r ∈ ({ b with scheduler := t } : Bench).waiting) : r ∈ b.waiting := by
  rw [Bench.mem_waiting] at hw ⊢
  rw [← hr.background]
  exact hw.imp_left fun ⟨a, ha, har⟩ => ⟨a, hr.armed.subset ha, har⟩

theorem mem_waiting_spares {b : Bench} {t : Scheduler} (hspares : b.scheduler.Spares t)
    (hbackground : t.background = b.scheduler.background) {r : TaskRun} (hw : r ∈ b.waiting)
    (hvalid : r.token ∉ t.cancelled) : r ∈ ({ b with scheduler := t } : Bench).waiting := by
  rw [Bench.mem_waiting] at hw ⊢
  rcases hw with ⟨a, ha, rfl⟩ | hw
  · exact .inl ⟨a, hspares a ha hvalid, rfl⟩
  · exact .inr (hbackground ▸ hw)

theorem doing_ne {b : Bench} (h : b.Sound) {q r : TaskRun}
    (hdoing : b.doing = some (.run r)) (hq : q ∈ b.waiting) : q.token ≠ r.token := by
  have honce := h.once
  rw [Bench.pending, hdoing, List.map_append, List.nodup_append] at honce
  exact honce.2.2 _ (List.mem_map_of_mem hq) _ (by simp [Job.run?])

theorem doing_other {b : Bench} {r : TaskRun} (hdoing : b.doing = some (.run r)) {t : Token}
    (ht : t ≠ r.token) (q : TaskRun) (hq : q.token = t) : b.doing ≠ some (.run q) := by
  intro hother
  cases hdoing.symm.trans hother
  exact ht hq.symm

theorem Fits.not_doing {t : Token} {p : Phase} (h : c.Fits t p) (hseeking : ∀ r n, p ≠ .seeking r n)
    (hworking : ∀ r n id, p ≠ .working r n id) {r : TaskRun} (htoken : r.token = t) :
    c.bench.doing ≠ some (.run r) := by
  intro hdoing
  cases hsession : c.session with
  | none => exact hseeking r c.attempts ((h.seeking r _).mpr ⟨⟨hdoing, htoken⟩, hsession, rfl⟩)
  | some id =>
    exact hworking r c.attempts id ((h.working r _ id).mpr ⟨⟨hdoing, htoken⟩, hsession, rfl⟩)

end Course

end LanguageSessions
