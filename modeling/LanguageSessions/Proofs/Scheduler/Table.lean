import Mathlib.Data.List.Nodup
import LanguageSessions.Scheduler.Basic

namespace LanguageSessions

theorem samePath_iff (p q : String) : samePath p q = true ↔ Path.steps p = Path.steps q := beq_iff_eq

theorem samePath_rfl (p : String) : samePath p p = true := (samePath_iff p p).mpr rfl

theorem samePath_symm {p q : String} (h : samePath p q = true) : samePath q p = true :=
  (samePath_iff q p).mpr ((samePath_iff p q).mp h).symm

theorem samePath_trans {p q r : String} (h : samePath p q = true) (k : samePath q r = true) :
    samePath p r = true :=
  (samePath_iff p r).mpr (((samePath_iff p q).mp h).trans ((samePath_iff q r).mp k))

namespace FileTasks

theorem put_file (f : FileTasks) (e : TaskEntry) : (f.put e).file = f.file := by
  unfold put
  split <;> rfl

theorem mem_put (f : FileTasks) (e o : TaskEntry) :
    o ∈ (f.put e).entries ↔ o = e ∨ (o ∈ f.entries ∧ o.task.name ≠ e.task.name) := by
  unfold put
  split
  · next h =>
    obtain ⟨p, hp, hname⟩ := List.any_eq_true.mp h
    constructor
    · intro ho
      obtain ⟨q, hq, rfl⟩ := List.mem_map.mp ho
      by_cases hn : q.task.name = e.task.name
      · simp [hn]
      · simp [hn, hq]
    · rintro (rfl | ⟨ho, hn⟩)
      · exact List.mem_map.mpr ⟨p, hp, if_pos hname⟩
      · exact List.mem_map.mpr ⟨o, ho, if_neg (by simpa using hn)⟩
  · next h =>
    have hnew : ∀ q ∈ f.entries, q.task.name ≠ e.task.name := by simpa using h
    rw [List.mem_append, List.mem_singleton, or_comm]
    constructor
    · rintro (rfl | ho)
      · exact .inl rfl
      · exact .inr ⟨ho, hnew o ho⟩
    · rintro (rfl | ⟨ho, -⟩)
      · exact .inl rfl
      · exact .inr ho

theorem put_names_nodup (f : FileTasks) (e : TaskEntry) (h : (f.entries.map (·.task.name)).Nodup) :
    ((f.put e).entries.map (·.task.name)).Nodup := by
  unfold put
  split
  · have hnames : (f.entries.map fun o => if o.task.name == e.task.name then e else o).map (·.task.name) =
        f.entries.map (·.task.name) := by
      rw [List.map_map]
      apply List.map_congr_left
      intro o _
      by_cases hn : o.task.name = e.task.name <;> simp [hn]
    dsimp only
    rw [hnames]
    exact h
  · next hnew =>
    rw [List.map_append, List.nodup_append]
    refine ⟨h, by simp, ?_⟩
    rintro n hn m hm rfl
    obtain ⟨o, ho, rfl⟩ := List.mem_map.mp hn
    simp only [List.map_cons, List.map_nil, List.mem_singleton] at hm
    simp only [List.any_eq_true, beq_iff_eq, not_exists, not_and] at hnew
    exact hnew o ho hm

theorem entry_eq_some_iff (f : FileTasks) (h : (f.entries.map (·.task.name)).Nodup) (name : String)
    (e : TaskEntry) : f.entry name = some e ↔ e ∈ f.entries ∧ e.task.name = name := by
  constructor
  · intro he
    exact ⟨List.mem_of_find?_eq_some he, by simpa using List.find?_some he⟩
  · rintro ⟨he, rfl⟩
    have hfound : (f.entry e.task.name).isSome := by
      rw [entry, List.find?_isSome]
      exact ⟨e, he, beq_self_eq_true _⟩
    obtain ⟨o, ho⟩ := Option.isSome_iff_exists.mp hfound
    rw [ho, Option.some.injEq]
    exact List.inj_on_of_nodup_map h (List.mem_of_find?_eq_some ho) he
      (by simpa using List.find?_some ho)

def without (f : FileTasks) (file name : String) : FileTasks :=
  if samePath f.file file then { f with entries := f.entries.filter (·.task.name != name) } else f

theorem without_file (f : FileTasks) (file name : String) : (f.without file name).file = f.file := by
  unfold without
  split <;> rfl

theorem without_entries (f : FileTasks) (file name : String) :
    (f.without file name).entries.Sublist f.entries := by
  unfold without
  split
  · exact List.filter_sublist
  · exact List.Sublist.refl _

theorem mem_without (f : FileTasks) (file name : String) (e : TaskEntry) :
    e ∈ (f.without file name).entries ↔
      e ∈ f.entries ∧ ¬ (samePath f.file file = true ∧ e.task.name = name) := by
  unfold without
  split
  · next h => simp [h]
  · next h => simp [h]

end FileTasks

namespace Scheduler

def Holds (s : Scheduler) (file : String) (e : TaskEntry) : Prop :=
  ∃ f ∈ s.files, samePath f.file file = true ∧ e ∈ f.entries

structure Tidy (s : Scheduler) : Prop where
  apart : (s.files.map fun f => Path.steps f.file).Nodup
  occupied : ∀ f ∈ s.files, f.entries ≠ []
  names : ∀ f ∈ s.files, (f.entries.map (·.task.name)).Nodup
  valid : ∀ file e, s.Holds file e → e.token < s.nextToken ∧ e.token ∉ s.cancelled
  tokens : ∀ file file' e e', s.Holds file e → s.Holds file' e' → e.token = e'.token →
    samePath file file' = true ∧ e = e'
  cancelled : ∀ t ∈ s.cancelled, t < s.nextToken

theorem Holds.congr {s : Scheduler} {file file' : String} {e : TaskEntry} (h : s.Holds file e)
    (hsame : samePath file file' = true) : s.Holds file' e := by
  obtain ⟨f, hf, hfile, he⟩ := h
  exact ⟨f, hf, samePath_trans hfile hsame, he⟩

variable {s : Scheduler}

theorem Tidy.eq_of_samePath (h : s.Tidy) {f g : FileTasks} (hf : f ∈ s.files) (hg : g ∈ s.files)
    (hsame : samePath f.file g.file = true) : f = g :=
  List.inj_on_of_nodup_map h.apart hf hg ((samePath_iff _ _).mp hsame)

theorem tasksOf?_some {file : String} {f : FileTasks} (hf : s.tasksOf? file = some f) :
    f ∈ s.files ∧ samePath f.file file = true := by
  have hfile := List.find?_some (p := fun g : FileTasks => samePath g.file file) hf
  exact ⟨List.mem_of_find?_eq_some hf, hfile⟩

theorem Tidy.tasksOf?_eq_some_iff (h : s.Tidy) (file : String) (f : FileTasks) :
    s.tasksOf? file = some f ↔ f ∈ s.files ∧ samePath f.file file = true := by
  constructor
  · exact tasksOf?_some
  · rintro ⟨hf, hfile⟩
    have hfound : (s.tasksOf? file).isSome := by
      rw [tasksOf?, List.find?_isSome]
      exact ⟨f, hf, hfile⟩
    obtain ⟨g, hg⟩ := Option.isSome_iff_exists.mp hfound
    obtain ⟨hmem, hsame⟩ := tasksOf?_some hg
    rw [hg, Option.some.injEq]
    exact h.eq_of_samePath hmem hf (samePath_trans hsame (samePath_symm hfile))

theorem Tidy.entryOf?_eq_some_iff (h : s.Tidy) (file name : String) (e : TaskEntry) :
    s.entryOf? file name = some e ↔ s.Holds file e ∧ e.task.name = name := by
  rw [entryOf?, Option.bind_eq_some_iff]
  constructor
  · rintro ⟨f, hf, he⟩
    rw [h.tasksOf?_eq_some_iff] at hf
    rw [f.entry_eq_some_iff (h.names f hf.1)] at he
    exact ⟨⟨f, hf.1, hf.2, he.1⟩, he.2⟩
  · rintro ⟨⟨f, hf, hfile, he⟩, hname⟩
    exact ⟨f, (h.tasksOf?_eq_some_iff file f).mpr ⟨hf, hfile⟩,
      (f.entry_eq_some_iff (h.names f hf) name e).mpr ⟨he, hname⟩⟩

theorem Tidy.unique (h : s.Tidy) {file : String} {e e' : TaskEntry} (he : s.Holds file e)
    (he' : s.Holds file e') (hname : e.task.name = e'.task.name) : e = e' := by
  have hfound := (h.entryOf?_eq_some_iff file e'.task.name e).mpr ⟨he, hname⟩
  rw [(h.entryOf?_eq_some_iff file e'.task.name e').mpr ⟨he', rfl⟩, Option.some.injEq] at hfound
  exact hfound.symm

def books (s : Scheduler) : List FileTasks × Token × List Token := (s.files, s.nextToken, s.cancelled)

theorem holds_congr {t : Scheduler} (hbooks : t.books = s.books) (file : String) (e : TaskEntry) :
    t.Holds file e ↔ s.Holds file e := by
  have hfiles : t.files = s.files := congrArg Prod.fst hbooks
  rw [Holds, Holds, hfiles]

theorem Tidy.congr {t : Scheduler} (h : s.Tidy) (hbooks : t.books = s.books) : t.Tidy := by
  have hholds := holds_congr hbooks
  simp only [books, Prod.mk.injEq] at hbooks
  obtain ⟨hfiles, hnext, hcancelled⟩ := hbooks
  exact {
    apart := hfiles ▸ h.apart
    occupied := hfiles ▸ h.occupied
    names := hfiles ▸ h.names
    valid := by
      intro file e he
      rw [hnext, hcancelled]
      exact h.valid file e ((hholds file e).mp he)
    tokens := fun f f' e e' he he' => h.tokens f f' e e' ((hholds f e).mp he) ((hholds f' e').mp he')
    cancelled := by
      rw [hnext, hcancelled]
      exact h.cancelled }

/-- Some of the tasks of a file leave the table or get another token, and their tokens are cancelled;
the other tasks stay, and no run is added. -/
structure Removes (s t : Scheduler) (file : String) (gone : TaskEntry → Prop) : Prop where
  tidy : t.Tidy
  background : t.background = s.background
  armed : t.armed.Sublist s.armed
  cancelled : ∀ x, x ∈ t.cancelled ↔ x ∈ s.cancelled ∨ ∃ e, s.Holds file e ∧ gone e ∧ e.token = x
  keeps : ∀ f e, s.Holds f e → (samePath f file = true ∧ gone e) ∨ t.Holds f e

theorem register_files (s : Scheduler) (file : String) (task : Task) :
    (s.register file task).files =
      if s.files.any fun f => samePath f.file file then
        s.files.map fun f => if samePath f.file file then f.put ⟨task, s.nextToken⟩ else f
      else s.files ++ [⟨file, [⟨task, s.nextToken⟩]⟩] := by
  unfold register
  cases s.entryOf? file task.name <;> rfl

theorem register_nextToken (s : Scheduler) (file : String) (task : Task) :
    (s.register file task).nextToken = s.nextToken + 1 := by
  unfold register
  cases s.entryOf? file task.name <;> rfl

theorem register_cancelled (s : Scheduler) (file : String) (task : Task) :
    (s.register file task).cancelled =
      ((s.entryOf? file task.name).map TaskEntry.token).toList ++ s.cancelled := by
  unfold register
  cases s.entryOf? file task.name <;> rfl

theorem register_background (s : Scheduler) (file : String) (task : Task) :
    (s.register file task).background = s.background := by
  unfold register
  cases s.entryOf? file task.name <;> rfl

theorem register_armed (s : Scheduler) (file : String) (task : Task) :
    (s.register file task).armed.Sublist s.armed := by
  unfold register
  cases s.entryOf? file task.name with
  | none => exact List.Sublist.refl _
  | some old => exact List.filter_sublist

theorem holds_register (s : Scheduler) (file : String) (task : Task) (f : String) (e : TaskEntry) :
    (s.register file task).Holds f e ↔
      (samePath f file = true ∧ e = ⟨task, s.nextToken⟩) ∨
        (s.Holds f e ∧ ¬ (samePath f file = true ∧ e.task.name = task.name)) := by
  unfold Holds
  rw [register_files]
  split
  · next hany =>
    obtain ⟨g, hg, hgfile⟩ := List.any_eq_true.mp hany
    constructor
    · rintro ⟨p, hp, hpf, he⟩
      obtain ⟨q, hq, rfl⟩ := List.mem_map.mp hp
      by_cases hqfile : samePath q.file file = true
      · rw [if_pos hqfile] at hpf he
        rw [FileTasks.put_file] at hpf
        rcases (q.mem_put _ e).mp he with rfl | ⟨he, hname⟩
        · exact .inl ⟨samePath_trans (samePath_symm hpf) hqfile, rfl⟩
        · exact .inr ⟨⟨q, hq, hpf, he⟩, fun h => hname h.2⟩
      · rw [if_neg hqfile] at hpf he
        exact .inr ⟨⟨q, hq, hpf, he⟩, fun h => hqfile (samePath_trans hpf h.1)⟩
    · rintro (⟨hf, rfl⟩ | ⟨⟨q, hq, hqf, he⟩, hnot⟩)
      · refine ⟨g.put ⟨task, s.nextToken⟩, List.mem_map.mpr ⟨g, hg, if_pos hgfile⟩, ?_, ?_⟩
        · rw [FileTasks.put_file]
          exact samePath_trans hgfile (samePath_symm hf)
        · exact (g.mem_put _ _).mpr (.inl rfl)
      · by_cases hqfile : samePath q.file file = true
        · refine ⟨q.put ⟨task, s.nextToken⟩, List.mem_map.mpr ⟨q, hq, if_pos hqfile⟩, ?_, ?_⟩
          · rw [FileTasks.put_file]
            exact hqf
          · refine (q.mem_put _ e).mpr (.inr ⟨he, ?_⟩)
            intro hname
            exact hnot ⟨samePath_trans (samePath_symm hqf) hqfile, hname⟩
        · exact ⟨q, List.mem_map.mpr ⟨q, hq, if_neg hqfile⟩, hqf, he⟩
  · next hany =>
    have hnew : ∀ q ∈ s.files, ¬ samePath q.file file = true := by simpa using hany
    constructor
    · rintro ⟨p, hp, hpf, he⟩
      rcases List.mem_append.mp hp with hp | hp
      · exact .inr ⟨⟨p, hp, hpf, he⟩, fun h => hnew p hp (samePath_trans hpf h.1)⟩
      · rw [List.mem_singleton.mp hp] at hpf he
        exact .inl ⟨samePath_symm hpf, List.mem_singleton.mp he⟩
    · rintro (⟨hf, rfl⟩ | ⟨⟨q, hq, hqf, he⟩, -⟩)
      · exact ⟨_, List.mem_append_right _ List.mem_cons_self, samePath_symm hf, List.mem_cons_self⟩
      · exact ⟨q, List.mem_append_left _ hq, hqf, he⟩

theorem Tidy.mem_register_cancelled (h : s.Tidy) (file : String) (task : Task) (x : Token) :
    x ∈ (s.register file task).cancelled ↔
      x ∈ s.cancelled ∨ ∃ e, s.Holds file e ∧ e.task.name = task.name ∧ e.token = x := by
  rw [register_cancelled, List.mem_append, or_comm]
  apply or_congr_right
  simp only [Option.mem_toList, Option.map_eq_some_iff, h.entryOf?_eq_some_iff, and_assoc]

theorem mem_register_files {file : String} {task : Task} {f : FileTasks}
    (hf : f ∈ (s.register file task).files) :
    f ∈ s.files ∨ (∃ g ∈ s.files, f = g.put ⟨task, s.nextToken⟩) ∨ f = ⟨file, [⟨task, s.nextToken⟩]⟩ := by
  rw [register_files] at hf
  split at hf
  · obtain ⟨g, hg, rfl⟩ := List.mem_map.mp hf
    split
    · exact .inr (.inl ⟨g, hg, rfl⟩)
    · exact .inl hg
  · rcases List.mem_append.mp hf with hf | hf
    · exact .inl hf
    · exact .inr (.inr (List.mem_singleton.mp hf))

theorem Tidy.register_apart (h : s.Tidy) (file : String) (task : Task) :
    ((s.register file task).files.map fun f => Path.steps f.file).Nodup := by
  rw [register_files]
  split
  · have hfiles : (s.files.map fun f => if samePath f.file file then f.put ⟨task, s.nextToken⟩ else f).map
          (fun f => Path.steps f.file) = s.files.map fun f => Path.steps f.file := by
      rw [List.map_map]
      apply List.map_congr_left
      intro f _
      dsimp only [Function.comp]
      split
      · rw [FileTasks.put_file]
      · rfl
    rw [hfiles]
    exact h.apart
  · next hany =>
    rw [List.map_append, List.nodup_append]
    refine ⟨h.apart, by simp, ?_⟩
    rintro p hp q hq rfl
    obtain ⟨f, hf, rfl⟩ := List.mem_map.mp hp
    simp only [List.map_cons, List.map_nil, List.mem_singleton] at hq
    simp only [List.any_eq_true, not_exists, not_and] at hany
    exact hany f hf ((samePath_iff _ _).mpr hq)

theorem Tidy.register (h : s.Tidy) (file : String) (task : Task) : (s.register file task).Tidy where
  apart := h.register_apart file task
  occupied := by
    intro f hf
    rcases mem_register_files hf with hf | ⟨g, -, rfl⟩ | rfl
    · exact h.occupied f hf
    · exact List.ne_nil_of_mem ((g.mem_put _ _).mpr (.inl rfl))
    · exact List.cons_ne_nil _ _
  names := by
    intro f hf
    rcases mem_register_files hf with hf | ⟨g, hg, rfl⟩ | rfl
    · exact h.names f hf
    · exact g.put_names_nodup _ (h.names g hg)
    · simp
  valid := by
    intro f e he
    rw [register_nextToken, h.mem_register_cancelled]
    rcases (holds_register s file task f e).mp he with ⟨-, rfl⟩ | ⟨he, hnot⟩
    -- The new entry: its token was neither given nor cancelled before.
    · refine ⟨Nat.lt_succ_self _, ?_⟩
      rintro (hx | ⟨o, ho, -, hx⟩)
      · exact Nat.lt_irrefl _ (h.cancelled _ hx)
      · exact Nat.ne_of_lt (h.valid file o ho).1 hx
    · refine ⟨Nat.lt_succ_of_lt (h.valid f e he).1, ?_⟩
      rintro (hx | ⟨o, ho, hname, hx⟩)
      · exact (h.valid f e he).2 hx
      · obtain ⟨hsame, rfl⟩ := h.tokens f file e o he ho hx.symm
        exact hnot ⟨hsame, hname⟩
  tokens := by
    intro f f' e e' he he' ht
    rcases (holds_register s file task f e).mp he with ⟨hf, rfl⟩ | ⟨he, -⟩
    · rcases (holds_register s file task f' e').mp he' with ⟨hf', rfl⟩ | ⟨he', -⟩
      · exact ⟨samePath_trans hf (samePath_symm hf'), rfl⟩
      · exact absurd ht.symm (Nat.ne_of_lt (h.valid f' e' he').1)
    · rcases (holds_register s file task f' e').mp he' with ⟨-, rfl⟩ | ⟨he', -⟩
      · exact absurd ht (Nat.ne_of_lt (h.valid f e he).1)
      · exact h.tokens f f' e e' he he' ht
  cancelled := by
    intro x hx
    rw [register_nextToken]
    rcases (h.mem_register_cancelled file task x).mp hx with hx | ⟨e, he, -, rfl⟩
    · exact Nat.lt_succ_of_lt (h.cancelled x hx)
    · exact Nat.lt_succ_of_lt (h.valid file e he).1

theorem Tidy.removes_none (h : s.Tidy) (file : String) : s.Removes s file fun _ => False where
  tidy := h
  background := rfl
  armed := List.Sublist.refl _
  cancelled := by simp
  keeps := fun _ _ he => .inr he

theorem Tidy.removes_register (h : s.Tidy) (file : String) (task : Task) :
    s.Removes (s.register file task) file fun e => e.task.name = task.name where
  tidy := h.register file task
  background := register_background s file task
  armed := register_armed s file task
  cancelled := h.mem_register_cancelled file task
  keeps := by
    intro f e he
    by_cases hgone : samePath f file = true ∧ e.task.name = task.name
    · exact .inl hgone
    · exact .inr ((holds_register s file task f e).mpr (.inr ⟨he, hgone⟩))

theorem Tidy.shrink {t : Scheduler} (h : s.Tidy) (hnext : t.nextToken = s.nextToken)
    (hapart : (t.files.map fun f => Path.steps f.file).Sublist (s.files.map fun f => Path.steps f.file))
    (hoccupied : ∀ f ∈ t.files, f.entries ≠ [])
    (hentries : ∀ f ∈ t.files, ∃ g ∈ s.files, f.file = g.file ∧ f.entries.Sublist g.entries)
    (hcancelled : ∀ x ∈ t.cancelled,
      x ∈ s.cancelled ∨ ∃ file e, s.Holds file e ∧ ¬ t.Holds file e ∧ e.token = x) : t.Tidy := by
  have hold : ∀ file e, t.Holds file e → s.Holds file e := by
    rintro file e ⟨f, hf, hfile, he⟩
    obtain ⟨g, hg, hsame, hsub⟩ := hentries f hf
    exact ⟨g, hg, hsame ▸ hfile, hsub.subset he⟩
  exact {
    apart := h.apart.sublist hapart
    occupied := hoccupied
    names := by
      intro f hf
      obtain ⟨g, hg, -, hsub⟩ := hentries f hf
      exact (h.names g hg).sublist (hsub.map _)
    valid := by
      intro file e he
      rw [hnext]
      refine ⟨(h.valid file e (hold file e he)).1, ?_⟩
      intro hx
      rcases hcancelled _ hx with hx | ⟨file', e', he', hgone, ht⟩
      · exact (h.valid file e (hold file e he)).2 hx
      · obtain ⟨hsame, rfl⟩ := h.tokens file file' e e' (hold file e he) he' ht.symm
        exact hgone (he.congr hsame)
    tokens := fun f f' e e' he he' => h.tokens f f' e e' (hold f e he) (hold f' e' he')
    cancelled := by
      intro x hx
      rw [hnext]
      rcases hcancelled x hx with hx | ⟨file, e, he, -, rfl⟩
      · exact h.cancelled x hx
      · exact (h.valid file e he).1 }

theorem cancel_of_none {file name : String} (h : s.entryOf? file name = none) :
    (s.cancel file name).1 = s := by
  rw [cancel, h]

theorem cancel_of_some {file name : String} {o : TaskEntry} (h : s.entryOf? file name = some o) :
    (s.cancel file name).1 =
      cancelToken
        { s with files := (s.files.map fun f => f.without file name).filter fun f => !f.entries.isEmpty }
        o.token := by
  rw [cancel, h]
  rfl

theorem holds_cancel {file name : String} {o : TaskEntry} (h : s.entryOf? file name = some o)
    (f : String) (e : TaskEntry) : (s.cancel file name).1.Holds f e ↔
      s.Holds f e ∧ ¬ (samePath f file = true ∧ e.task.name = name) := by
  rw [cancel_of_some h]
  constructor
  · rintro ⟨p, hp, hpf, he⟩
    obtain ⟨q, hq, rfl⟩ := List.mem_map.mp (List.mem_filter.mp hp).1
    rw [FileTasks.without_file] at hpf
    obtain ⟨he, hstays⟩ := (q.mem_without file name e).mp he
    exact ⟨⟨q, hq, hpf, he⟩, fun hgone => hstays ⟨samePath_trans hpf hgone.1, hgone.2⟩⟩
  · rintro ⟨⟨q, hq, hqf, he⟩, hstays⟩
    have hmem : e ∈ (q.without file name).entries := by
      refine (q.mem_without file name e).mpr ⟨he, ?_⟩
      exact fun hgone => hstays ⟨samePath_trans (samePath_symm hqf) hgone.1, hgone.2⟩
    refine ⟨_, List.mem_filter.mpr ⟨List.mem_map.mpr ⟨q, hq, rfl⟩, ?_⟩, ?_, hmem⟩
    · simpa using List.ne_nil_of_mem hmem
    · rw [FileTasks.without_file]
      exact hqf

theorem Tidy.mem_cancel_cancelled (h : s.Tidy) {file name : String} {o : TaskEntry}
    (hfound : s.entryOf? file name = some o) (x : Token) :
    x ∈ (s.cancel file name).1.cancelled ↔
      x ∈ s.cancelled ∨ ∃ e, s.Holds file e ∧ e.task.name = name ∧ e.token = x := by
  obtain ⟨ho, honame⟩ := (h.entryOf?_eq_some_iff file name o).mp hfound
  rw [cancel_of_some hfound]
  change x ∈ o.token :: s.cancelled ↔ _
  rw [List.mem_cons, or_comm]
  apply or_congr_right
  constructor
  · rintro rfl
    exact ⟨o, ho, honame, rfl⟩
  · rintro ⟨e, he, hname, rfl⟩
    rw [h.unique he ho (hname.trans honame.symm)]

theorem Tidy.cancel (h : s.Tidy) {file name : String} {o : TaskEntry}
    (hfound : s.entryOf? file name = some o) : (s.cancel file name).1.Tidy := by
  have hfiles : (s.cancel file name).1.files =
      (s.files.map fun f => f.without file name).filter fun f => !f.entries.isEmpty := by
    rw [cancel_of_some hfound]
    rfl
  apply h.shrink
  · rw [cancel_of_some hfound]
    rfl
  · have hsteps : (s.files.map fun f => f.without file name).map (fun f => Path.steps f.file) =
        s.files.map fun f => Path.steps f.file := by
      rw [List.map_map]
      apply List.map_congr_left
      intro f _
      exact congrArg Path.steps (f.without_file file name)
    rw [hfiles, ← hsteps]
    exact List.filter_sublist.map _
  · rw [hfiles]
    intro f hf
    simpa using (List.mem_filter.mp hf).2
  · rw [hfiles]
    intro f hf
    obtain ⟨q, hq, rfl⟩ := List.mem_map.mp (List.mem_filter.mp hf).1
    exact ⟨q, hq, q.without_file file name, q.without_entries file name⟩
  · intro x hx
    rcases (h.mem_cancel_cancelled hfound x).mp hx with hx | ⟨e, he, hname, rfl⟩
    · exact .inl hx
    · refine .inr ⟨file, e, he, ?_, rfl⟩
      rw [holds_cancel hfound]
      exact fun hh => hh.2 ⟨samePath_rfl file, hname⟩

theorem Tidy.removes_cancel (h : s.Tidy) (file name : String) :
    s.Removes (s.cancel file name).1 file fun e => e.task.name = name := by
  cases hfound : s.entryOf? file name with
  | none =>
    rw [cancel_of_none hfound]
    refine ⟨h, rfl, List.Sublist.refl _, ?_, fun f e he => .inr he⟩
    intro x
    constructor
    · exact .inl
    · rintro (hx | ⟨e, he, hname, -⟩)
      · exact hx
      · rw [(h.entryOf?_eq_some_iff file name e).mpr ⟨he, hname⟩] at hfound
        cases hfound
  | some o =>
    exact {
      tidy := h.cancel hfound
      background := by rw [cancel_of_some hfound]; rfl
      armed := by
        rw [cancel_of_some hfound]
        exact List.filter_sublist
      cancelled := h.mem_cancel_cancelled hfound
      keeps := by
        intro f e he
        by_cases hgone : samePath f file = true ∧ e.task.name = name
        · exact .inl hgone
        · exact .inr ((holds_cancel hfound f e).mpr ⟨he, hgone⟩) }

theorem cancelTokens (es : List TaskEntry) (s : Scheduler) :
    let t := es.foldl (fun s e => s.cancelToken e.token) s
    t.files = s.files ∧ t.nextToken = s.nextToken ∧ t.background = s.background ∧
      t.armed.Sublist s.armed ∧ ∀ x, x ∈ t.cancelled ↔ x ∈ s.cancelled ∨ ∃ e ∈ es, e.token = x := by
  induction es generalizing s with
  | nil => simp
  | cons e es ih =>
    obtain ⟨hfiles, hnext, hbackground, harmed, hcancelled⟩ := ih (s.cancelToken e.token)
    refine ⟨hfiles, hnext, hbackground, harmed.trans List.filter_sublist, ?_⟩
    intro x
    rw [List.foldl_cons, hcancelled]
    simp only [cancelToken, List.mem_cons, exists_eq_or_imp]
    tauto

theorem cancelAll_of_none {file : String} (h : s.tasksOf? file = none) :
    (s.cancelAll file).1 = s := by
  rw [cancelAll, h]

theorem cancelAll_of_some {file : String} {tasks : FileTasks} (h : s.tasksOf? file = some tasks) :
    (s.cancelAll file).1 = tasks.entries.foldl (fun s e => s.cancelToken e.token)
      { s with files := s.files.filter fun f => !samePath f.file file } := by
  rw [cancelAll, h]

theorem Tidy.holds_iff_mem (h : s.Tidy) {file : String} {tasks : FileTasks}
    (hfound : s.tasksOf? file = some tasks) (e : TaskEntry) : s.Holds file e ↔ e ∈ tasks.entries := by
  obtain ⟨hmem, hsame⟩ := tasksOf?_some hfound
  constructor
  · rintro ⟨f, hf, hfile, he⟩
    rwa [h.eq_of_samePath hf hmem (samePath_trans hfile (samePath_symm hsame))] at he
  · exact fun he => ⟨tasks, hmem, hsame, he⟩

theorem holds_filter (s : Scheduler) (file f : String) (e : TaskEntry) :
    ({ s with files := s.files.filter fun f => !samePath f.file file } : Scheduler).Holds f e ↔
      s.Holds f e ∧ ¬ samePath f file = true := by
  simp only [Holds, List.mem_filter, Bool.not_eq_true']
  constructor
  · rintro ⟨q, ⟨hq, hqfile⟩, hqf, he⟩
    refine ⟨⟨q, hq, hqf, he⟩, fun hf => ?_⟩
    rw [samePath_trans hqf hf] at hqfile
    cases hqfile
  · rintro ⟨⟨q, hq, hqf, he⟩, hnot⟩
    refine ⟨q, ⟨hq, ?_⟩, hqf, he⟩
    rw [Bool.eq_false_iff]
    exact fun hqfile => hnot (samePath_trans (samePath_symm hqf) hqfile)

theorem Tidy.removes_drop (h : s.Tidy) {file : String} {tasks : FileTasks}
    (hfound : s.tasksOf? file = some tasks) {t : Scheduler}
    (hfiles : t.files = s.files.filter fun f => !samePath f.file file)
    (hnext : t.nextToken = s.nextToken) (hbackground : t.background = s.background)
    (harmed : t.armed.Sublist s.armed)
    (hcancelled : ∀ x, x ∈ t.cancelled ↔ x ∈ s.cancelled ∨ ∃ e ∈ tasks.entries, e.token = x) :
    s.Removes t file fun _ => True := by
  have hholds : ∀ f e, t.Holds f e ↔ s.Holds f e ∧ ¬ samePath f file = true := by
    intro f e
    rw [← holds_filter, Holds, Holds, hfiles]
  have hall : ∀ x, x ∈ t.cancelled ↔ x ∈ s.cancelled ∨ ∃ e, s.Holds file e ∧ True ∧ e.token = x := by
    intro x
    rw [hcancelled]
    simp only [h.holds_iff_mem hfound, true_and]
  exact {
    tidy := by
      apply h.shrink hnext
      · rw [hfiles]
        exact List.filter_sublist.map _
      · rw [hfiles]
        exact fun f hf => h.occupied f (List.mem_filter.mp hf).1
      · rw [hfiles]
        exact fun f hf => ⟨f, (List.mem_filter.mp hf).1, rfl, List.Sublist.refl _⟩
      · intro x hx
        rcases (hall x).mp hx with hx | ⟨e, he, -, rfl⟩
        · exact .inl hx
        · refine .inr ⟨file, e, he, ?_, rfl⟩
          rw [hholds]
          exact fun hh => hh.2 (samePath_rfl file)
    background := hbackground
    armed := harmed
    cancelled := hall
    keeps := by
      intro f e he
      by_cases hgone : samePath f file = true
      · exact .inl ⟨hgone, trivial⟩
      · exact .inr ((hholds f e).mpr ⟨he, hgone⟩) }

theorem Tidy.removes_cancelAll (h : s.Tidy) (file : String) :
    s.Removes (s.cancelAll file).1 file fun _ => True := by
  cases hfound : s.tasksOf? file with
  | none =>
    have hnone : ∀ e, ¬ s.Holds file e := by
      rintro e ⟨f, hf, hfile, -⟩
      rw [(h.tasksOf?_eq_some_iff file f).mpr ⟨hf, hfile⟩] at hfound
      cases hfound
    rw [cancelAll_of_none hfound]
    exact ⟨h, rfl, List.Sublist.refl _, by simp [hnone], fun f e he => .inr he⟩
  | some tasks =>
    obtain ⟨hfiles, hnext, hbackground, harmed, hcancelled⟩ :=
      cancelTokens tasks.entries { s with files := s.files.filter fun f => !samePath f.file file }
    rw [cancelAll_of_some hfound]
    exact h.removes_drop hfound hfiles hnext hbackground harmed hcancelled

end Scheduler

end LanguageSessions
