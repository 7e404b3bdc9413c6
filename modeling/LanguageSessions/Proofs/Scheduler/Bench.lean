import Mathlib.Data.List.Perm.Subperm
import LanguageSessions.Proofs.Scheduler.Table

/-!
A scheduler at work: its calls, the delays that end, and the background lane, which does one job at
a time. A run is pending while it waits for its delay, for its turn in the lane, or is being done.
Pending runs have tokens of their own, and one whose token is not cancelled is that of the last
schedule of its task.
-/
namespace LanguageSessions

def Job.run? : Job → Option TaskRun
  | .run r => some r
  | _ => none

namespace Scheduler

@[simp] theorem arm_background (s : Scheduler) (r : TaskRun) (delay now : Nat) :
    (s.arm r delay now).background = s.background := rfl

@[simp] theorem arm_armed (s : Scheduler) (r : TaskRun) (delay now : Nat) :
    (s.arm r delay now).armed = s.armed ++ [⟨r, now + delay⟩] := rfl

@[simp] theorem arm_books (s : Scheduler) (r : TaskRun) (delay now : Nat) :
    (s.arm r delay now).books = s.books := rfl

end Scheduler

def Scheduler.fire (s : Scheduler) (i : Nat) : Scheduler :=
  match s.armed[i]? with
  | none => s
  | some a => { s with armed := s.armed.eraseIdx i, background := s.background ++ [.run a.run] }

def Scheduler.takeEvent (s : Scheduler) (now : Nat) : Scheduler :=
  match s.events with
  | [] => s
  | .rerunAll :: rest => ({ s with events := rest } : Scheduler).rerunAll now
  | _ :: rest => { s with events := rest }

structure Bench where
  scheduler : Scheduler
  doing : Option Job := none

namespace Bench

inductive Event where
  | schedule (file : String) (task : Task)
  | reschedule (file name : String)
  | cancel (file name : String)
  | cancelAll (file : String)
  | runAllNow (file : String)
  | post (n : Nat)
  | postEvent (j : Job)
  | takeEvent
  | expire
  | fire (i : Nat)
  | take
  | finish (e : RunEnd)
  | miss

def take (b : Bench) : Bench :=
  match b.doing, b.scheduler.background with
  | none, .run r :: rest =>
    if b.scheduler.isCancelled r.token then { scheduler := { b.scheduler with background := rest } }
    else { scheduler := { b.scheduler with background := rest }, doing := some (.run r) }
  | none, j :: rest => { scheduler := { b.scheduler with background := rest }, doing := some j }
  | _, _ => b

theorem take_scheduler (b : Bench) {j : Job} {rest : List Job} (hidle : b.doing = none)
    (hqueue : b.scheduler.background = j :: rest) :
    b.take.scheduler = { b.scheduler with background := rest } := by
  cases j with
  | run r =>
    simp only [take, hidle, hqueue]
    split <;> rfl
  | _ => simp only [take, hidle, hqueue]

theorem take_cancelled (b : Bench) {r : TaskRun} {rest : List Job} (hidle : b.doing = none)
    (hqueue : b.scheduler.background = .run r :: rest) (hcancelled : r.token ∈ b.scheduler.cancelled) :
    b.take = { scheduler := { b.scheduler with background := rest } } := by
  simp [take, hidle, hqueue, Scheduler.isCancelled, hcancelled]

theorem take_next (b : Bench) {j : Job} {rest : List Job} (hidle : b.doing = none)
    (hqueue : b.scheduler.background = j :: rest)
    (hvalid : ∀ r, j = .run r → r.token ∉ b.scheduler.cancelled) :
    b.take = { scheduler := { b.scheduler with background := rest }, doing := some j } := by
  cases j with
  | run r => simp [take, hidle, hqueue, Scheduler.isCancelled, hvalid r rfl]
  | _ => simp only [take, hidle, hqueue]

def finish (b : Bench) (e : RunEnd) (now : Nat) : Bench :=
  match b.doing with
  | some (.run r) => { scheduler := b.scheduler.ended r e now }
  | _ => { scheduler := b.scheduler }

def step (b : Bench) (now : Nat) : Event → Bench
  | .schedule file task => { b with scheduler := b.scheduler.schedule file task now }
  | .reschedule file name => { b with scheduler := (b.scheduler.reschedule file name now).1 }
  | .cancel file name => { b with scheduler := (b.scheduler.cancel file name).1 }
  | .cancelAll file => { b with scheduler := (b.scheduler.cancelAll file).1 }
  | .runAllNow file => { b with scheduler := b.scheduler.runAllNow file now }
  | .post n => { b with scheduler := b.scheduler.post (.own n) }
  | .postEvent j => { b with scheduler := b.scheduler.postEvent j }
  | .takeEvent => { b with scheduler := b.scheduler.takeEvent now }
  | .expire => { b with scheduler := b.scheduler.expire now }
  | .fire i => { b with scheduler := b.scheduler.fire i }
  | .take => b.take
  | .finish e => b.finish e now
  | .miss => { b with doing := none }

def run (b : Bench) (es : List (Nat × Event)) : Bench := es.foldl (fun b e => b.step e.1 e.2) b

theorem run_append (b : Bench) (es fs : List (Nat × Event)) : b.run (es ++ fs) = (b.run es).run fs :=
  List.foldl_append

def waiting (b : Bench) : List TaskRun :=
  b.scheduler.armed.map Armed.run ++ b.scheduler.background.filterMap Job.run?

def pending (b : Bench) : List TaskRun := b.waiting ++ (b.doing.bind Job.run?).toList

structure Sound (b : Bench) : Prop where
  tidy : b.scheduler.Tidy
  once : (b.pending.map TaskRun.token).Nodup
  old : ∀ r ∈ b.pending, r.token < b.scheduler.nextToken
  registered : ∀ r ∈ b.pending, r.token ∉ b.scheduler.cancelled →
    b.scheduler.Holds r.file ⟨r.task, r.token⟩

theorem Sound.start (debounce : Nat) : ({ scheduler := { debounce := debounce } } : Bench).Sound where
  tidy := {
    apart := List.nodup_nil
    occupied := by simp
    names := by simp
    valid := by simp [Scheduler.Holds]
    tokens := by simp [Scheduler.Holds]
    cancelled := by simp }
  once := List.nodup_nil
  old := by simp [pending, waiting]
  registered := by simp [pending, waiting]

variable {b : Bench}

theorem Sound.shrink (h : b.Sound) {c : Bench} (hbooks : c.scheduler.books = b.scheduler.books)
    (hsub : c.pending.Subperm b.pending) : c.Sound := by
  have hnext : c.scheduler.nextToken = b.scheduler.nextToken := congrArg (·.2.1) hbooks
  have hcancelled : c.scheduler.cancelled = b.scheduler.cancelled := congrArg (·.2.2) hbooks
  exact {
    tidy := h.tidy.congr hbooks
    once := by
      obtain ⟨l, hperm, hl⟩ := hsub
      exact (hperm.map _).nodup_iff.mp (h.once.sublist (hl.map _))
    old := by
      rw [hnext]
      exact fun r hr => h.old r (hsub.subset hr)
    registered := by
      intro r hr
      rw [hcancelled, Scheduler.holds_congr hbooks]
      exact h.registered r (hsub.subset hr) }

theorem Sound.removes (h : b.Sound) {t : Scheduler} {file : String} {gone : TaskEntry → Prop}
    (hr : b.scheduler.Removes t file gone) (hnext : b.scheduler.nextToken ≤ t.nextToken) :
    ({ b with scheduler := t } : Bench).Sound := by
  have hsub : ({ b with scheduler := t } : Bench).pending.Sublist b.pending := by
    apply List.Sublist.append _ (List.Sublist.refl _)
    change List.Sublist (_ ++ t.background.filterMap _) _
    rw [hr.background]
    exact (hr.armed.map _).append (List.Sublist.refl _)
  exact {
    tidy := hr.tidy
    once := h.once.sublist (hsub.map _)
    old := fun r hp => Nat.lt_of_lt_of_le (h.old r (hsub.subset hp)) hnext
    registered := by
      intro r hp hvalid
      change r.token ∉ t.cancelled at hvalid
      rw [hr.cancelled, not_or] at hvalid
      have hheld := h.registered r (hsub.subset hp) hvalid.1
      rcases hr.keeps r.file _ hheld with ⟨hsame, hgone⟩ | hkept
      · exact absurd ⟨_, hheld.congr hsame, hgone, rfl⟩ hvalid.2
      · exact hkept }

theorem pending_arm (b : Bench) (r : TaskRun) (delay now : Nat) :
    ({ b with scheduler := b.scheduler.arm r delay now } : Bench).pending.Perm (r :: b.pending) := by
  have hsplit : ({ b with scheduler := b.scheduler.arm r delay now } : Bench).pending =
      b.scheduler.armed.map Armed.run ++
        r :: (b.scheduler.background.filterMap Job.run? ++ (b.doing.bind Job.run?).toList) := by
    simp [pending, waiting]
  rw [hsplit, pending, waiting, List.append_assoc]
  exact List.perm_middle

theorem Sound.arm (h : b.Sound) (r : TaskRun) (delay now : Nat)
    (hnew : r.token ∉ b.pending.map TaskRun.token)
    (hheld : b.scheduler.Holds r.file ⟨r.task, r.token⟩) :
    ({ b with scheduler := b.scheduler.arm r delay now } : Bench).Sound := by
  have hbooks := b.scheduler.arm_books r delay now
  have hnext : (b.scheduler.arm r delay now).nextToken = b.scheduler.nextToken := congrArg (·.2.1) hbooks
  have hcancelled : (b.scheduler.arm r delay now).cancelled = b.scheduler.cancelled :=
    congrArg (·.2.2) hbooks
  have hperm := pending_arm b r delay now
  have hmem : ∀ q ∈ ({ b with scheduler := b.scheduler.arm r delay now } : Bench).pending,
      q = r ∨ q ∈ b.pending := fun q hq => List.mem_cons.mp (hperm.subset hq)
  exact {
    tidy := h.tidy.congr hbooks
    once := (hperm.map _).nodup_iff.mpr (List.nodup_cons.mpr ⟨hnew, h.once⟩)
    old := by
      intro q hq
      rw [hnext]
      rcases hmem q hq with rfl | hq
      · exact (h.tidy.valid q.file _ hheld).1
      · exact h.old q hq
    registered := by
      intro q hq
      rw [hcancelled, Scheduler.holds_congr hbooks]
      rcases hmem q hq with rfl | hq
      · exact fun _ => hheld
      · exact h.registered q hq }

theorem Sound.install (h : b.Sound) (file : String) (task : Task) (delay now : Nat) :
    ({ b with scheduler := b.scheduler.install file task delay now } : Bench).Sound := by
  have hnext := Scheduler.register_nextToken b.scheduler file task
  have hremoves := h.tidy.removes_register file task
  have hregistered := h.removes hremoves (hnext ▸ Nat.le_succ _)
  apply hregistered.arm
  -- The token is the next one, and every pending run has an older one.
  · intro hused
    obtain ⟨r, hr, htoken⟩ := List.mem_map.mp hused
    have hsub := (hremoves.armed.map Armed.run)
    have hold : r ∈ b.pending := by
      simp only [pending, waiting, List.mem_append, hremoves.background] at hr ⊢
      rcases hr with (hr | hr) | hr
      · exact .inl (.inl (hsub.subset hr))
      · exact .inl (.inr hr)
      · exact .inr hr
    exact Nat.ne_of_lt (h.old r hold) htoken
  · exact (Scheduler.holds_register _ _ _ _ _).mpr (.inl ⟨samePath_rfl file, rfl⟩)

theorem Sound.reschedule (h : b.Sound) (file name : String) (now : Nat) :
    ({ b with scheduler := (b.scheduler.reschedule file name now).1 } : Bench).Sound := by
  unfold Scheduler.reschedule
  split
  · exact h
  · exact h.install file _ _ now

theorem cancel_nextToken (s : Scheduler) (file name : String) :
    (s.cancel file name).1.nextToken = s.nextToken := by
  unfold Scheduler.cancel
  split <;> rfl

theorem cancelAll_nextToken (s : Scheduler) (file : String) :
    (s.cancelAll file).1.nextToken = s.nextToken := by
  unfold Scheduler.cancelAll
  split
  · rfl
  · exact (Scheduler.cancelTokens _ _).2.1

theorem Sound.runAllNow (h : b.Sound) (file : String) (now : Nat) :
    ({ b with scheduler := b.scheduler.runAllNow file now } : Bench).Sound := by
  unfold Scheduler.runAllNow
  split
  · exact h
  · apply List.foldlRecOn (motive := fun s => ({ b with scheduler := s } : Bench).Sound)
    · exact h
    · exact fun s hs e _ => hs.install file e.task 0 now

theorem Sound.rerunAll (h : b.Sound) (now : Nat) :
    ({ b with scheduler := b.scheduler.rerunAll now } : Bench).Sound := by
  apply List.foldlRecOn (motive := fun s => ({ b with scheduler := s } : Bench).Sound)
  · exact h
  · exact fun s hs file _ => hs.runAllNow file now

theorem Sound.takeEvent (h : b.Sound) (now : Nat) :
    ({ b with scheduler := b.scheduler.takeEvent now } : Bench).Sound := by
  have hrest : ∀ rest, ({ b with scheduler := { b.scheduler with events := rest } } : Bench).Sound :=
    fun rest => h.shrink rfl (List.Subperm.refl _)
  unfold Scheduler.takeEvent
  split
  · exact h
  · exact (hrest _).rerunAll now
  · exact hrest _

theorem Sound.post (h : b.Sound) (n : Nat) :
    ({ b with scheduler := b.scheduler.post (.own n) } : Bench).Sound := by
  have hsame : ({ b with scheduler := b.scheduler.post (.own n) } : Bench).pending = b.pending := by
    simp [pending, waiting, Scheduler.post, List.filterMap_append, Job.run?]
  exact h.shrink rfl (hsame ▸ List.Subperm.refl _)

theorem Sound.pass (h : b.Sound) (ended rest : List Armed)
    (hperm : (rest ++ ended).Perm b.scheduler.armed) :
    ({ b with
        scheduler := { b.scheduler with
          armed := rest
          background := b.scheduler.background ++ ended.map fun a => .run a.run } } : Bench).Sound := by
  have hruns : (ended.map fun a => Job.run a.run).filterMap Job.run? = ended.map Armed.run := by
    rw [List.filterMap_map]
    exact List.filterMap_eq_map_iff_forall_eq_some.mpr fun a _ => rfl
  apply h.shrink (by rfl)
  simp only [pending, waiting, List.filterMap_append, hruns]
  apply List.Perm.subperm
  apply List.Perm.append_right
  refine (List.perm_append_comm.append_left _).trans ?_
  rw [← List.append_assoc, ← List.map_append]
  exact (hperm.map _).append_right _

theorem Sound.expire (h : b.Sound) (now : Nat) :
    ({ b with scheduler := b.scheduler.expire now } : Bench).Sound := by
  unfold Scheduler.expire
  rw [List.partition_eq_filter_filter]
  apply h.pass
  exact List.perm_append_comm.trans (List.filter_append_perm _ _)

theorem Sound.fire (h : b.Sound) (i : Nat) :
    ({ b with scheduler := b.scheduler.fire i } : Bench).Sound := by
  unfold Scheduler.fire
  split
  · exact h
  · next a ha =>
    obtain ⟨hi, rfl⟩ := List.getElem?_eq_some_iff.mp ha
    apply h.pass [b.scheduler.armed[i]]
    exact List.perm_append_comm.trans (List.getElem_cons_eraseIdx_perm hi)

theorem Sound.miss (h : b.Sound) : ({ b with doing := none } : Bench).Sound := by
  apply h.shrink (by rfl)
  exact ((List.Sublist.refl _).append (List.nil_sublist _)).subperm

theorem Sound.take (h : b.Sound) : b.take.Sound := by
  unfold Bench.take
  split
  · next r rest hdoing hqueue =>
    have hpending : b.pending =
        b.scheduler.armed.map Armed.run ++ r :: rest.filterMap Job.run? := by
      simp [pending, waiting, hqueue, hdoing, Job.run?]
    split
    · apply h.shrink (by rfl)
      rw [hpending]
      simp only [pending, waiting, Option.bind_none, Option.toList_none, List.append_nil]
      exact ((List.Sublist.refl _).append (List.sublist_cons_self _ _)).subperm
    · apply h.shrink (by rfl)
      rw [hpending]
      simp only [pending, waiting, Option.bind_some, Job.run?, Option.toList_some, List.append_assoc]
      exact (List.perm_append_singleton _ _).append_left _ |>.subperm
  · next j rest hj hdoing hqueue =>
    have hrun : j.run? = none := by
      cases j with
      | run r => exact absurd rfl (hj r)
      | _ => rfl
    have hpending : b.pending = b.scheduler.armed.map Armed.run ++ rest.filterMap Job.run? := by
      simp [pending, waiting, hqueue, hdoing, hrun]
    apply h.shrink (by rfl)
    rw [hpending]
    simp only [pending, waiting, Option.bind_some, hrun, Option.toList_none, List.append_nil]
    exact List.Subperm.refl _
  · exact h

theorem Sound.finish (h : b.Sound) (e : RunEnd) (now : Nat) : (b.finish e now).Sound := by
  unfold Bench.finish
  split
  · next r hdoing =>
    have hpending : b.pending = b.waiting ++ [r] := by simp [pending, hdoing, Job.run?]
    have hr : r ∈ b.pending := by simp [hpending]
    unfold Scheduler.ended
    split
    · split
      · exact h.miss
      · next hvalid =>
        -- the run leaves the lane with its token, which nothing else that waits has
        apply h.miss.arm r
        · have honce := h.once
          rw [hpending, List.map_append, List.nodup_append] at honce
          have hmissed : ({ b with doing := none } : Bench).pending = b.waiting := List.append_nil _
          rw [hmissed]
          intro hused
          exact honce.2.2 _ hused _ (List.mem_cons_self ..) rfl
        · apply h.registered r hr
          simpa [Scheduler.isCancelled] using hvalid
    · exact h.miss
  · exact h.miss

theorem Sound.step (h : b.Sound) (now : Nat) (e : Event) : (b.step now e).Sound := by
  cases e with
  | schedule file task => exact h.install file task _ now
  | reschedule file name => exact h.reschedule file name now
  | cancel file name =>
    exact h.removes (h.tidy.removes_cancel file name) (Nat.le_of_eq (cancel_nextToken _ _ _).symm)
  | cancelAll file =>
    exact h.removes (h.tidy.removes_cancelAll file) (Nat.le_of_eq (cancelAll_nextToken _ _).symm)
  | runAllNow file => exact h.runAllNow file now
  | post n => exact h.post n
  | postEvent j => exact h.shrink rfl (List.Subperm.refl _)
  | takeEvent => exact h.takeEvent now
  | expire => exact h.expire now
  | fire i => exact h.fire i
  | take => exact h.take
  | finish e => exact h.finish e now
  | miss => exact h.miss

theorem Sound.run (h : b.Sound) (es : List (Nat × Event)) : (b.run es).Sound := by
  induction es generalizing b with
  | nil => exact h
  | cons e es ih => exact ih (h.step e.1 e.2)

def live (b : Bench) (file name : String) : List TaskRun :=
  b.pending.filter fun r =>
    samePath r.file file && r.task.name == name && !b.scheduler.isCancelled r.token

theorem mem_live {file name : String} {r : TaskRun} :
    r ∈ b.live file name ↔ r ∈ b.pending ∧ samePath r.file file = true ∧ r.task.name = name ∧
      r.token ∉ b.scheduler.cancelled := by
  simp [live, Scheduler.isCancelled, and_assoc]

/-- The runs that are pending are those of the tasks as they are registered. -/
structure Current (b : Bench) : Prop where
  occupied : ∀ f ∈ b.scheduler.files, f.entries ≠ []
  named : ∀ file name e, b.scheduler.entryOf? file name = some e → e.task.name = name
  registered : ∀ r ∈ b.pending, r.token ∉ b.scheduler.cancelled →
    b.scheduler.entryOf? r.file r.task.name = some ⟨r.task, r.token⟩
  once : ∀ t, (b.waiting.filter fun r => r.token == t).length ≤ 1
  single : ∀ file name, (b.live file name).length ≤ 1
  unregistered : ∀ file name, b.scheduler.entryOf? file name = none → b.live file name = []

theorem Sound.entryOf?_live (h : b.Sound) {file name : String} {r : TaskRun}
    (hr : r ∈ b.live file name) : b.scheduler.entryOf? file name = some ⟨r.task, r.token⟩ := by
  obtain ⟨hpending, hfile, hname, hvalid⟩ := mem_live.mp hr
  have hheld := h.registered r hpending hvalid
  exact (h.tidy.entryOf?_eq_some_iff file name _).mpr ⟨hheld.congr hfile, hname⟩

theorem Sound.live_of_unregistered (h : b.Sound) {file name : String}
    (he : b.scheduler.entryOf? file name = none) : b.live file name = [] := by
  rw [List.eq_nil_iff_forall_not_mem]
  intro r hr
  rw [h.entryOf?_live hr] at he
  exact absurd he (Option.some_ne_none _)

theorem length_le_one {rs : List TaskRun} (h : (rs.map TaskRun.token).Nodup) {t : Token}
    (ht : ∀ r ∈ rs, r.token = t) : rs.length ≤ 1 := by
  have hall : rs.map TaskRun.token = List.replicate rs.length t := by
    rw [List.eq_replicate_iff]
    exact ⟨List.length_map .., by simpa using ht⟩
  rw [hall] at h
  exact List.nodup_replicate.mp h

theorem Sound.current (h : b.Sound) : b.Current where
  occupied := h.tidy.occupied
  named := fun file name e he => ((h.tidy.entryOf?_eq_some_iff file name e).mp he).2
  registered := by
    intro r hr hvalid
    exact h.entryOf?_live (mem_live.mpr ⟨hr, samePath_rfl r.file, rfl, hvalid⟩)
  once := by
    intro t
    have hsub : (b.waiting.filter fun r => r.token == t).Sublist b.pending :=
      List.filter_sublist.trans (List.sublist_append_left _ _)
    apply length_le_one (h.once.sublist (hsub.map _)) (t := t)
    simp
  single := by
    intro file name
    cases he : b.scheduler.entryOf? file name with
    | none =>
      rw [h.live_of_unregistered he]
      exact Nat.zero_le _
    | some e =>
      have hsub : (b.live file name).Sublist b.pending := List.filter_sublist
      apply length_le_one (h.once.sublist (hsub.map _)) (t := e.token)
      intro r hr
      have hfound := h.entryOf?_live hr
      rw [he, Option.some.injEq] at hfound
      rw [hfound]
  unregistered := fun _ _ he => h.live_of_unregistered he

theorem run_current (debounce : Nat) (es : List (Nat × Event)) :
    (({ scheduler := { debounce := debounce } } : Bench).run es).Current :=
  ((Sound.start debounce).run es).current

end Bench

end LanguageSessions
