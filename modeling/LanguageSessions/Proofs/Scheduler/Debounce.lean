import Mathlib.Data.List.Induction
import LanguageSessions.Proofs.Scheduler.Quiescence

namespace LanguageSessions

namespace History

variable {past : History}

/-- Schedules of one task, each made within a delay of the one before; the last one is not touched
again. -/
structure Burst (past : History) (delay : Nat) (file name : String) (earlier : List (Nat × TaskRun))
    (last : Nat × TaskRun) : Prop where
  made : ((earlier ++ [last]).map fun x => (x.1, Deed.installed x.2 delay)).Sublist past
  task : ∀ x ∈ earlier ++ [last], samePath x.2.file file = true ∧ x.2.task.name = name
  close : (earlier ++ [last]).IsChain fun x y => y.1 < x.1 + delay
  final : ∀ y, Precedes past (last.1, .installed last.2 delay) y → ¬ y.2.Touches file name

variable {delay : Nat} {file name : String} {earlier : List (Nat × TaskRun)} {last : Nat × TaskRun}

theorem Burst.mem (h : Burst past delay file name earlier last) {x : Nat × TaskRun}
    (hx : x ∈ earlier ++ [last]) : (x.1, .installed x.2 delay) ∈ past :=
  h.made.subset (List.mem_map.mpr ⟨x, hx, rfl⟩)

end History

namespace Course

open History

variable {c : Course}

theorem Sound.began (h : c.Sound) {l k : History} {u v n delay : Nat} {r : TaskRun}
    (hpast : c.past = l ++ (u, .began r n) :: k) (hmem : (v, .installed r delay) ∈ c.past) :
    v + delay ≤ u ∧ ∃ l₁ l₂, l = l₁ ++ (v, .installed r delay) :: l₂ ∧
      (v, .installed r delay) ∉ l₁ ∧ ∀ e ∈ l₂, ¬ e.2.Touches r.file r.task.name := by
  obtain ⟨l₁, w, d, l₂, hl, hdue, hnot⟩ := h.timed.begun l u r n k hpast
  have hw : (w, .installed r d) ∈ c.past := by simp [hpast, hl]
  cases h.told.orderly.installed_eq hmem hw
  refine ⟨hdue, l₁, l₂, hl, ?_, hnot⟩
  intro hx
  have hapart := h.told.orderly.apart
  rw [hpast, hl, List.append_assoc] at hapart
  exact (List.pairwise_append.mp hapart).2.2 _ hx _ List.mem_cons_self r r _ _ rfl rfl rfl

end Course

namespace Scheduler

end Scheduler

namespace Course

open History

variable {c : Course}

end Course

end LanguageSessions
