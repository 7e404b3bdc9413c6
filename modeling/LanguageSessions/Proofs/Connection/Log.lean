import Mathlib.Data.List.Destutter
import Mathlib.Data.List.DropRight
import LanguageSessions.Connection.Log

namespace LanguageSessions

section

variable {α : Type*} [DecidableEq α]

theorem destutter'_concat (a x : α) (l : List α) :
    (l ++ [x]).destutter' (· ≠ ·) a =
      if (a :: l).getLast? = some x then l.destutter' (· ≠ ·) a
      else l.destutter' (· ≠ ·) a ++ [x] := by
  induction l generalizing a with
  | nil => by_cases h : a = x <;> simp [h]
  | cons b l ih =>
    rw [List.cons_append, List.getLast?_cons_cons]
    by_cases h : a = b
    · subst h
      rw [List.destutter'_cons_neg _ (by simp), List.destutter'_cons_neg _ (by simp), ih]
    · rw [List.destutter'_cons_pos _ h, List.destutter'_cons_pos _ h, ih]
      split <;> simp

theorem destutter_concat (l : List α) (x : α) :
    (l ++ [x]).destutter (· ≠ ·) =
      if l.getLast? = some x then l.destutter (· ≠ ·) else l.destutter (· ≠ ·) ++ [x] := by
  cases l with
  | nil => simp
  | cons a l => exact destutter'_concat a x l

theorem getLast?_destutter (l : List α) : (l.destutter (· ≠ ·)).getLast? = l.getLast? := by
  induction l using List.reverseRecOn with
  | nil => rfl
  | append_singleton l x ih =>
    rw [destutter_concat]
    split
    · next h => rw [ih, h, List.getLast?_concat]
    · rw [List.getLast?_concat, List.getLast?_concat]

end

namespace ServerLog

inductive Event where
  | record (line : LogLine)
  | enable (on : Bool)
  | clear

def step (l : ServerLog) : Event → ServerLog
  | .record line => l.record line
  | .enable on => l.enable on
  | .clear => l.clear

def run (l : ServerLog) (es : List Event) : ServerLog := es.foldl step l

/-- What was recorded while recording was on, since the last clearing. Before the events recording
is on or off as `on` says, and `lines` have been recorded. -/
def recorded (on : Bool) (lines : List LogLine) : List Event → List LogLine
  | [] => lines
  | .record line :: es => recorded on (if on then lines ++ [line] else lines) es
  | .enable on :: es => recorded on lines es
  | .clear :: es => recorded on [] es

structure Recent (on : Bool) (capacity : Nat) : Prop where
  lines : ∀ es, ((ofCapacity on capacity).run es).lines =
    ((recorded on [] es).destutter (· ≠ ·)).rtake (max capacity 1)
  bounded : ∀ es, ((ofCapacity on capacity).run es).lines.length ≤ max capacity 1
  varied : ∀ es, ((ofCapacity on capacity).run es).lines.IsChain (· ≠ ·)
  oldest : ∀ es line, let l := (ofCapacity on capacity).run es
    (l.record line).lines = l.lines ∨ (l.record line).lines = l.lines ++ [line] ∨
      l.lines.length = max capacity 1 ∧ (l.record line).lines = l.lines.tail ++ [line]
  off : ∀ es line fs, ((ofCapacity on capacity).run es).enabled = false →
    (ofCapacity on capacity).run (es ++ .record line :: fs) =
      (ofCapacity on capacity).run (es ++ fs)

structure Holds (room : Nat) (on : Bool) (lines : List LogLine) (l : ServerLog) : Prop where
  enabled : l.enabled = on
  capacity : l.capacity = room
  size : l.size = l.newest.length
  newest : l.newest = (lines.destutter (· ≠ ·)).reverse.take room

variable {room : Nat} {on : Bool} {lines : List LogLine} {l : ServerLog}

theorem Holds.length_le (h : Holds room on lines l) : l.newest.length ≤ room := by
  rw [h.newest]
  exact List.length_take_le _ _

theorem Holds.lines_eq (h : Holds room on lines l) :
    l.lines = (lines.destutter (· ≠ ·)).rtake room := by
  rw [ServerLog.lines, h.newest, List.rtake_eq_reverse_take_reverse]

theorem Holds.head? (h : Holds room on lines l) (hroom : 0 < room) :
    l.newest.head? = lines.getLast? := by
  rw [h.newest, List.head?_take, if_neg hroom.ne', List.head?_reverse, getLast?_destutter]

theorem record_off (line : LogLine) (h : l.enabled = false) : l.record line = l := by
  simp [record, h]

theorem record_repeated {line : LogLine} (h : l.newest.head? = some line) : l.record line = l := by
  simp [record, h]

theorem Holds.record_new (h : Holds room true lines l) (hroom : 0 < room) {line : LogLine}
    (hnew : l.newest.head? ≠ some line) :
    l.record line =
      { l with newest := (line :: l.newest).take room, size := min (l.newest.length + 1) room } := by
  have hle := h.length_le
  have hcond : (!l.enabled || l.newest.head? == some line) = false := by simp [h.enabled, hnew]
  rw [record, hcond, if_neg Bool.false_ne_true, h.size, h.capacity]
  split
  · next hlt =>
    rw [List.take_of_length_le (by simp; omega), Nat.min_eq_left (by omega)]
  · obtain ⟨n, rfl⟩ := Nat.exists_eq_add_one_of_ne_zero hroom.ne'
    rw [List.take_succ_cons, Nat.min_eq_right (by omega), Nat.add_sub_cancel]

theorem Holds.record (h : Holds room on lines l) (hroom : 0 < room) (line : LogLine) :
    Holds room on (if on then lines ++ [line] else lines) (l.record line) := by
  cases on with
  | false =>
    rw [record_off line h.enabled]
    exact h
  | true =>
    rw [if_pos rfl]
    have hhead := h.head? hroom
    by_cases hlast : lines.getLast? = some line
    · rw [record_repeated (hhead.trans hlast)]
      refine ⟨h.enabled, h.capacity, h.size, ?_⟩
      rw [destutter_concat, if_pos hlast, h.newest]
    · rw [h.record_new hroom (hhead ▸ hlast)]
      refine ⟨h.enabled, h.capacity, by simp [Nat.min_comm], ?_⟩
      obtain ⟨n, rfl⟩ := Nat.exists_eq_add_one_of_ne_zero hroom.ne'
      simp only [h.newest, destutter_concat, if_neg hlast, List.reverse_concat,
        List.take_succ_cons, List.take_take, Nat.min_eq_left (Nat.le_succ n)]

theorem Holds.run (h : Holds room on lines l) (hroom : 0 < room) (es : List Event) :
    ∃ on', Holds room on' (recorded on lines es) (l.run es) := by
  induction es generalizing on lines l with
  | nil => exact ⟨on, h⟩
  | cons e es ih =>
    cases e with
    | record line => exact ih (h.record hroom line)
    | enable on' => exact ih ⟨rfl, h.capacity, h.size, h.newest⟩
    | clear => exact ih ⟨h.enabled, h.capacity, rfl, List.take_nil.symm⟩

theorem Holds.oldest (h : Holds room on lines l) (hroom : 0 < room) (line : LogLine) :
    (l.record line).lines = l.lines ∨ (l.record line).lines = l.lines ++ [line] ∨
      l.lines.length = room ∧ (l.record line).lines = l.lines.tail ++ [line] := by
  cases on with
  | false => exact .inl (by rw [record_off line h.enabled])
  | true =>
    by_cases hrepeated : l.newest.head? = some line
    · exact .inl (by rw [record_repeated hrepeated])
    · refine .inr ?_
      rw [h.record_new hroom hrepeated]
      rcases h.length_le.lt_or_eq with hlt | hfull
      · left
        simp only [ServerLog.lines]
        rw [List.take_of_length_le (by simp; omega), List.reverse_cons]
      · right
        obtain ⟨n, rfl⟩ := Nat.exists_eq_add_one_of_ne_zero hroom.ne'
        simp only [ServerLog.lines]
        rw [List.length_reverse, List.take_succ_cons, List.reverse_cons, List.tail_reverse,
          List.dropLast_eq_take, hfull, Nat.add_sub_cancel]
        exact ⟨rfl, rfl⟩

theorem holds_run (on : Bool) (capacity : Nat) (es : List Event) :
    ∃ on', Holds (max capacity 1) on' (recorded on [] es) ((ofCapacity on capacity).run es) := by
  have hnew : Holds (max capacity 1) on [] (ofCapacity on capacity) :=
    ⟨rfl, rfl, rfl, List.take_nil.symm⟩
  exact hnew.run (by omega) es

theorem run_append (l : ServerLog) (es fs : List Event) : l.run (es ++ fs) = (l.run es).run fs :=
  List.foldl_append

theorem run_recent (on : Bool) (capacity : Nat) : Recent on capacity where
  lines := by
    intro es
    obtain ⟨_, h⟩ := holds_run on capacity es
    exact h.lines_eq
  bounded := by
    intro es
    obtain ⟨_, h⟩ := holds_run on capacity es
    rw [ServerLog.lines, List.length_reverse]
    exact h.length_le
  varied := by
    intro es
    obtain ⟨_, h⟩ := holds_run on capacity es
    rw [h.lines_eq]
    exact (List.isChain_destutter _ _).drop _
  oldest := by
    intro es line
    obtain ⟨_, h⟩ := holds_run on capacity es
    exact h.oldest (by omega) line
  off := by
    intro es line fs hoff
    have hstep : ((ofCapacity on capacity).run es).step (.record line) =
        (ofCapacity on capacity).run es := record_off line hoff
    rw [run_append, run_append]
    exact congrArg (run · fs) hstep

end ServerLog

end LanguageSessions
