import Mathlib.Algebra.GroupWithZero.Nat
import LanguageSessions.Proofs.Scheduler.Bench

namespace LanguageSessions

namespace Scheduler

def shape (s : Scheduler) : List (String × List String) :=
  s.files.map fun f => (f.file, f.entries.map (·.task.name))

def load (s : Scheduler) : Nat := (s.shape.map (·.2.length)).sum

def backlog (s : Scheduler) : Nat := s.armed.length + (s.background.filterMap Job.run?).length

def tasksIn (shape : List (String × List String)) (file : String) : Nat :=
  ((shape.find? fun p => samePath p.1 file).map (·.2.length)).getD 0

theorem put_names (f : FileTasks) (e : TaskEntry) (h : e.task.name ∈ f.entries.map (·.task.name)) :
    (f.put e).entries.map (·.task.name) = f.entries.map (·.task.name) := by
  have hany : f.entries.any (·.task.name == e.task.name) = true := by simpa using h
  unfold FileTasks.put
  rw [if_pos hany, List.map_map]
  apply List.map_congr_left
  intro o _
  by_cases hn : o.task.name = e.task.name <;> simp [hn]

variable {s : Scheduler}

theorem register_shape {file : String} {task : Task}
    (hnamed : ∀ p ∈ s.shape, samePath p.1 file = true → task.name ∈ p.2)
    (hfile : ∃ p ∈ s.shape, samePath p.1 file = true) :
    (s.register file task).shape = s.shape := by
  obtain ⟨p, hp, hsame⟩ := hfile
  obtain ⟨g, hg, rfl⟩ := List.mem_map.mp hp
  have hany : s.files.any (fun f => samePath f.file file) = true := List.any_eq_true.mpr ⟨g, hg, hsame⟩
  unfold shape
  rw [register_files, if_pos hany, List.map_map]
  apply List.map_congr_left
  intro f hf
  dsimp only [Function.comp]
  split
  · next hpath =>
    have hname := hnamed _ (List.mem_map.mpr ⟨f, hf, rfl⟩) hpath
    rw [FileTasks.put_file, put_names f _ hname]
  · rfl

theorem install_now (s : Scheduler) (file : String) (task : Task) (now : Nat) :
    (s.install file task 0 now).shape = (s.register file task).shape ∧
      (s.install file task 0 now).backlog ≤ s.backlog + 1 := by
  refine ⟨rfl, ?_⟩
  have hle := (s.register_armed file task).length_le
  have hbackground := s.register_background file task
  simp only [install, backlog, arm_armed, arm_background, hbackground, List.length_append,
    List.length_singleton]
  omega

theorem installs_backlog {file : String} (es : List TaskEntry) (now : Nat)
    (hnamed : ∀ e ∈ es, ∀ p ∈ s.shape, samePath p.1 file = true → e.task.name ∈ p.2)
    (hfile : ∃ p ∈ s.shape, samePath p.1 file = true) :
    (es.foldl (fun s e => s.install file e.task 0 now) s).shape = s.shape ∧
      (es.foldl (fun s e => s.install file e.task 0 now) s).backlog ≤ s.backlog + es.length := by
  induction es generalizing s with
  | nil => exact ⟨rfl, Nat.le_refl _⟩
  | cons e es ih =>
    obtain ⟨hinstalled, hle⟩ := s.install_now file e.task now
    have hshape := hinstalled.trans (register_shape (hnamed e List.mem_cons_self) hfile)
    rw [← hshape] at hnamed hfile
    obtain ⟨hrest, hmore⟩ := ih (fun e he => hnamed e (List.mem_cons_of_mem _ he)) hfile
    rw [List.foldl_cons, List.length_cons]
    exact ⟨hrest.trans hshape, by omega⟩

theorem tasksIn_eq {file : String} {tasks : FileTasks} (h : s.tasksOf? file = some tasks) :
    tasksIn s.shape file = tasks.entries.length := by
  unfold tasksIn shape
  rw [List.find?_map]
  change ((Option.map _ (s.tasksOf? file)).map _).getD 0 = _
  rw [h]
  simp

def Distinct (shape : List (String × List String)) : Prop :=
  (shape.map fun p => Path.steps p.1).Nodup

theorem Distinct.eq {shape : List (String × List String)} (h : Distinct shape)
    {p q : String × List String} (hp : p ∈ shape) (hq : q ∈ shape) (hsame : samePath p.1 q.1 = true) :
    p = q := List.inj_on_of_nodup_map h hp hq ((samePath_iff _ _).mp hsame)

theorem Tidy.distinct (h : s.Tidy) : Distinct s.shape := by
  unfold Distinct shape
  rw [List.map_map]
  exact h.apart

theorem runAllNow_backlog (h : Distinct s.shape) (file : String) (now : Nat) :
    (s.runAllNow file now).shape = s.shape ∧
      (s.runAllNow file now).backlog ≤ s.backlog + tasksIn s.shape file := by
  unfold runAllNow
  split
  · exact ⟨rfl, Nat.le_add_right _ _⟩
  · next tasks hfound =>
    obtain ⟨hmem, hsame⟩ := tasksOf?_some hfound
    have hp : (tasks.file, tasks.entries.map (·.task.name)) ∈ s.shape :=
      List.mem_map.mpr ⟨tasks, hmem, rfl⟩
    rw [tasksIn_eq hfound]
    apply installs_backlog
    · intro e he q hq hpath
      rw [h.eq hq hp (samePath_trans hpath (samePath_symm hsame))]
      exact List.mem_map.mpr ⟨e, he, rfl⟩
    · exact ⟨_, hp, hsame⟩

theorem runsAllNow_backlog (h : Distinct s.shape) (files : List String) (now : Nat) :
    (files.foldl (fun s file => s.runAllNow file now) s).shape = s.shape ∧
      (files.foldl (fun s file => s.runAllNow file now) s).backlog ≤
        s.backlog + (files.map (tasksIn s.shape)).sum := by
  induction files generalizing s with
  | nil => exact ⟨rfl, Nat.le_refl _⟩
  | cons file files ih =>
    obtain ⟨hshape, hle⟩ := runAllNow_backlog h file now
    rw [← hshape] at h
    obtain ⟨hrest, hmore⟩ := ih h
    rw [hshape] at hmore
    rw [List.foldl_cons, List.map_cons, List.sum_cons]
    exact ⟨hrest.trans hshape, by omega⟩

theorem Tidy.rerunAll_backlog (h : s.Tidy) (now : Nat) :
    (s.rerunAll now).shape = s.shape ∧ (s.rerunAll now).backlog ≤ s.backlog + s.load := by
  have hload : ((s.files.map FileTasks.file).map (tasksIn s.shape)).sum = s.load := by
    unfold load shape
    rw [List.map_map, List.map_map]
    apply congrArg
    apply List.map_congr_left
    intro f hf
    have hfound := (h.tasksOf?_eq_some_iff f.file f).mpr ⟨hf, samePath_rfl f.file⟩
    exact (tasksIn_eq hfound).trans (List.length_map _).symm
  have hruns := runsAllNow_backlog h.distinct (s.files.map FileTasks.file) now
  rwa [hload] at hruns

end Scheduler

end LanguageSessions
