import LanguageSessions.Proofs.Scheduler.Bench
import LanguageSessions.Proofs.Scheduler.History

/-!
The course of a bench: a bench with a clock, the lookup of the run that is being done, and its
history. A delay ends only when it is over, and a run that is taken up first asks for its session,
whose source answers at any later time.
-/
namespace LanguageSessions

structure Course where
  bench : Bench
  now : Nat := 0
  attempts : Nat := 0
  session : Option SessionId := none
  past : History := []
  posted : List Job := []
  taken : List Job := []
  left : List Job := []

namespace Course

inductive Act where
  | pass (millis : Nat)
  | schedule (file : String) (task : Task)
  | reschedule (file name : String)
  | cancel (file name : String)
  | cancelAll (file : String)
  | runAllNow (file : String)
  | post (n : Nat)
  | postEvent (j : Job)
  | takeEvent
  | expire
  | fire (i : Nat)
  | take
  | answer (found : Option SessionId)
  | finish (e : JobEnd)

abbrev scheduler (c : Course) : Scheduler := c.bench.scheduler

def start (debounce : Nat) : Course := { bench := { scheduler := { debounce := debounce } } }

def note (c : Course) (d : Deed) : Course := { c with past := c.past ++ [(c.now, d)] }

def put (c : Course) (b : Bench) : Course :=
  { c with
    bench := b
    posted := c.posted ++ b.scheduler.background.drop c.scheduler.background.length }

def putScheduler (c : Course) (s : Scheduler) : Course := c.put { c.bench with scheduler := s }

def install (c : Course) (file : String) (task : Task) (delay : Nat) : Course :=
  (c.putScheduler (c.scheduler.install file task delay c.now)).note
    (.installed ⟨file, task, c.scheduler.nextToken⟩ delay)

def runAllNow (c : Course) (file : String) : Course :=
  match c.scheduler.tasksOf? file with
  | none => c
  | some tasks => tasks.entries.foldl (fun c e => c.install file e.task 0) c

def rerunAll (c : Course) : Course := (c.scheduler.files.map FileTasks.file).foldl runAllNow c

def take (c : Course) : Course :=
  match c.bench.doing, c.scheduler.background with
  | none, j :: _ =>
    let d : Course := { c with bench := c.bench.take, taken := c.taken ++ [j], session := none }
    match c.bench.take.doing with
    | none => { d with left := c.left ++ [j] }
    | some (.run r) =>
      let d : Course := { d with attempts := c.attempts + 1 }
      d.note (.began r (c.attempts + 1))
    | some _ => d
  | _, _ => c

/-- The answer of the source is put down, whatever comes of it. -/
def hear (c : Course) (found : Option SessionId) : Course :=
  match c.bench.doing, c.session with
  | some (.run r), none => c.note (.answered r c.attempts found)
  | _, _ => c

def answer (c : Course) (found : Option SessionId) : Course :=
  match c.bench.doing, c.session, found with
  | some (.run r), none, some id =>
    let d : Course := { c with session := some id }
    d.note (.ran r c.attempts id)
  | some (.run r), none, none =>
    let d : Course := { c with bench := c.bench.step c.now .miss, left := c.left ++ [.run r] }
    d.note (.missed r c.attempts)
  | _, _, _ => c

def finish (c : Course) (e : JobEnd) : Course :=
  match c.bench.doing, c.session with
  | some (.run r), some _ =>
    let d : Course := c.put (c.bench.finish e.runEnd c.now)
    let d : Course := { d with session := none, left := c.left ++ [.run r] }
    d.note (.ended r c.attempts e)
  | some (.run _), none => c
  | some j, _ => { c with bench := c.bench.finish e.runEnd c.now, left := c.left ++ [j] }
  | none, _ => c

def step (c : Course) : Act → Course
  | .pass millis => { c with now := c.now + millis }
  | .schedule file task => c.install file task c.scheduler.debounce
  | .reschedule file name =>
    match c.scheduler.entryOf? file name with
    | none => c
    | some e => c.install file e.task c.scheduler.debounce
  | .cancel file name => (c.putScheduler (c.scheduler.cancel file name).1).note (.cancelled file name)
  | .cancelAll file => (c.putScheduler (c.scheduler.cancelAll file).1).note (.cancelledAll file)
  | .runAllNow file => c.runAllNow file
  | .post n => c.putScheduler (c.scheduler.post (.own n))
  | .postEvent j => c.putScheduler (c.scheduler.postEvent j)
  | .takeEvent =>
    match c.scheduler.events with
    | [] => c
    | .rerunAll :: rest => (c.putScheduler { c.scheduler with events := rest }).rerunAll
    | _ :: rest => c.putScheduler { c.scheduler with events := rest }
  | .expire => c.putScheduler (c.scheduler.expire c.now)
  | .fire i =>
    match c.scheduler.armed[i]? with
    | none => c
    | some a => if a.due ≤ c.now then c.putScheduler (c.scheduler.fire i) else c
  | .take => c.take
  | .answer found => (c.hear found).answer found
  | .finish e => c.finish e

def run (c : Course) (as : List Act) : Course := as.foldl step c

theorem run_append (c : Course) (as bs : List Act) : c.run (as ++ bs) = (c.run as).run bs :=
  List.foldl_append

theorem run_concat (c : Course) (as : List Act) (a : Act) : c.run (as ++ [a]) = (c.run as).step a :=
  run_append c as [a]

theorem hear_eq (c : Course) (found : Option SessionId) :
    ∃ past, c.hear found = { c with past := past } := by
  unfold hear
  split <;> exact ⟨_, rfl⟩

theorem take_cases (c : Course) : c.take = c ∨ ∃ j rest, c.bench.doing = none ∧
    c.scheduler.background = j :: rest ∧
    ((∃ r, j = .run r ∧ r.token ∈ c.scheduler.cancelled ∧
      c.take =
        { c with
          bench := { scheduler := { c.scheduler with background := rest } }
          taken := c.taken ++ [j]
          session := none
          left := c.left ++ [j] }) ∨
    (∃ r, j = .run r ∧ r.token ∉ c.scheduler.cancelled ∧
      c.take = ({ c with
        bench := { scheduler := { c.scheduler with background := rest }, doing := some j }
        attempts := c.attempts + 1
        taken := c.taken ++ [j]
        session := none } : Course).note (.began r (c.attempts + 1))) ∨
    (∀ r, j ≠ .run r) ∧
      c.take =
        { c with
          bench := { scheduler := { c.scheduler with background := rest }, doing := some j }
          taken := c.taken ++ [j]
          session := none }) := by
  unfold take
  split
  · next j rest hidle hqueue =>
    refine .inr ⟨j, rest, hidle, hqueue, ?_⟩
    by_cases hrun : ∃ r, j = .run r
    · obtain ⟨r, rfl⟩ := hrun
      by_cases hcancelled : r.token ∈ c.scheduler.cancelled
      · rw [c.bench.take_cancelled hidle hqueue hcancelled]
        exact .inl ⟨r, rfl, hcancelled, rfl⟩
      · rw [c.bench.take_next hidle hqueue (by rintro q ⟨⟩; exact hcancelled)]
        exact .inr (.inl ⟨r, rfl, hcancelled, rfl⟩)
    · rw [not_exists] at hrun
      rw [c.bench.take_next hidle hqueue fun r hj => absurd hj (hrun r)]
      refine .inr (.inr ⟨hrun, ?_⟩)
      cases j with
      | run r => exact absurd rfl (hrun r)
      | _ => rfl
  · exact .inl rfl

@[simp] theorem install_now (c : Course) (file : String) (task : Task) (delay : Nat) :
    (c.install file task delay).now = c.now := rfl

theorem install_bench (c : Course) (file : String) (task : Task) (delay : Nat) :
    (c.install file task delay).bench =
      { c.bench with scheduler := c.scheduler.install file task delay c.now } := rfl

theorem foldl_install_bench (file : String) (es : List TaskEntry) (c : Course) :
    (es.foldl (fun c e => c.install file e.task 0) c).bench =
        { c.bench with
          scheduler := es.foldl (fun s e => s.install file e.task 0 c.now) c.scheduler } ∧
      (es.foldl (fun c e => c.install file e.task 0) c).now = c.now := by
  induction es generalizing c with
  | nil => exact ⟨rfl, rfl⟩
  | cons e es ih => exact ih (c.install file e.task 0)

theorem runAllNow_bench (c : Course) (file : String) :
    (c.runAllNow file).bench = { c.bench with scheduler := c.scheduler.runAllNow file c.now } ∧
      (c.runAllNow file).now = c.now := by
  unfold runAllNow Scheduler.runAllNow
  cases c.scheduler.tasksOf? file with
  | none => exact ⟨rfl, rfl⟩
  | some tasks => exact foldl_install_bench file tasks.entries c

theorem foldl_runAllNow_bench (files : List String) (c : Course) :
    (files.foldl runAllNow c).bench =
        { c.bench with
          scheduler := files.foldl (fun s file => s.runAllNow file c.now) c.scheduler } ∧
      (files.foldl runAllNow c).now = c.now := by
  induction files generalizing c with
  | nil => exact ⟨rfl, rfl⟩
  | cons file files ih =>
    obtain ⟨hbench, hnow⟩ := runAllNow_bench c file
    obtain ⟨hrest, hsame⟩ := ih (c.runAllNow file)
    rw [hnow, scheduler, hbench] at hrest
    exact ⟨hrest, hsame.trans hnow⟩

theorem rerunAll_bench (c : Course) :
    c.rerunAll.bench = { c.bench with scheduler := c.scheduler.rerunAll c.now } :=
  (foldl_runAllNow_bench _ c).1

theorem rerunAll_now (c : Course) : c.rerunAll.now = c.now := (foldl_runAllNow_bench _ c).2

theorem step_bench (c : Course) (a : Act) :
    (c.step a).bench = c.bench ∨ ∃ e, (c.step a).bench = c.bench.step c.now e := by
  cases a with
  | pass millis => exact .inl rfl
  | schedule file task => exact .inr ⟨.schedule file task, rfl⟩
  | reschedule file name =>
    simp only [step]
    split
    · exact .inl rfl
    · next e he =>
      refine .inr ⟨.reschedule file name, ?_⟩
      simp [install_bench, Bench.step, Scheduler.reschedule, he]
  | cancel file name => exact .inr ⟨.cancel file name, rfl⟩
  | cancelAll file => exact .inr ⟨.cancelAll file, rfl⟩
  | runAllNow file => exact .inr ⟨.runAllNow file, (runAllNow_bench c file).1⟩
  | post n => exact .inr ⟨.post n, rfl⟩
  | postEvent j => exact .inr ⟨.postEvent j, rfl⟩
  | takeEvent =>
    simp only [step]
    split
    · exact .inl rfl
    · next rest hevents =>
      refine .inr ⟨.takeEvent, ?_⟩
      rw [rerunAll_bench]
      simp [Bench.step, Scheduler.takeEvent, hevents, putScheduler, put]
    · next j rest hnot hevents =>
      refine .inr ⟨.takeEvent, ?_⟩
      cases j with
      | rerunAll => exact absurd rfl hnot
      | _ => simp [Bench.step, Scheduler.takeEvent, hevents, putScheduler, put]
  | expire => exact .inr ⟨.expire, rfl⟩
  | fire i =>
    simp only [step]
    split
    · exact .inl rfl
    · split
      · exact .inr ⟨.fire i, rfl⟩
      · exact .inl rfl
  | take =>
    simp only [step, take]
    split
    · refine .inr ⟨.take, ?_⟩
      split <;> rfl
    · exact .inl rfl
  | answer found =>
    obtain ⟨past, hheard⟩ := c.hear_eq found
    simp only [step, hheard, answer]
    split
    · exact .inl rfl
    · exact .inr ⟨.miss, rfl⟩
    · exact .inl rfl
  | finish e =>
    simp only [step, finish]
    split
    · exact .inr ⟨.finish e.runEnd, rfl⟩
    · exact .inl rfl
    · exact .inr ⟨.finish e.runEnd, rfl⟩
    · exact .inl rfl

theorem run_bench (c : Course) (as : List Act) : ∃ es, (c.run as).bench = c.bench.run es := by
  induction as generalizing c with
  | nil => exact ⟨[], rfl⟩
  | cons a as ih =>
    obtain ⟨es, hes⟩ := ih (c.step a)
    rcases step_bench c a with h | ⟨e, h⟩
    · exact ⟨es, hes.trans (by rw [h])⟩
    · exact ⟨(c.now, e) :: es, hes.trans (by rw [h]; rfl)⟩

end Course

end LanguageSessions
