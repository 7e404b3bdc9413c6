import LanguageSessions.Proofs.Session.Later

namespace LanguageSessions

def Timing.patience (t : Timing) : Nat := max t.shutdownTimeout (t.exitWait + exitPoll)

namespace Cleanup

variable {w : Cleanup} {s : Session} {patience now : Nat}

def rank : Cleanup → Nat
  | asking _ _ => 2
  | leaving _ _ => 1

def limit : Cleanup → Nat
  | asking _ x => x.due
  | leaving deadline _ => deadline + exitPoll

structure Timely (w : Cleanup) (patience now : Nat) : Prop where
  limit : w.limit ≤ now + patience
  due : w.due ≤ w.limit

def Within (k time : Nat) (w : Cleanup) : Prop := w.rank < k ∨ w.rank = k ∧ w.limit ≤ time

theorem Timely.later (h : w.Timely patience now) {now' : Nat} (hnow : now ≤ now') :
    w.Timely patience now' :=
  ⟨h.limit.trans (Nat.add_le_add_right hnow patience), h.due⟩

theorem rank_pos (w : Cleanup) : 0 < w.rank := by
  cases w <;> exact Nat.succ_pos _

theorem rank_le (w : Cleanup) : w.rank ≤ 2 := by
  cases w with
  | asking gentle x => exact Nat.le_refl 2
  | leaving deadline due => exact Nat.le_succ 1

theorem Within.of_timely {k : Nat} (hk : w.rank ≤ k) (h : w.Timely patience now) :
    w.Within k (now + patience) := by
  rcases Nat.lt_or_eq_of_le hk with hlt | heq
  · exact .inl hlt
  · exact .inr ⟨heq, h.limit⟩

inductive Nears (w : Cleanup) (patience now : Nat) : Advance Cleanup Unit → Prop
  | waits (early : now < w.limit) : Nears w patience now .idle
  | stays (w' : Cleanup) (timely : w'.Timely patience now) (rank : w'.rank = w.rank)
      (limit : w'.limit = w.limit) (early : now < w.limit) : Nears w patience now (.on w')
  | passes (w' : Cleanup) (timely : w'.Timely patience now) (rank : w'.rank < w.rank) :
      Nears w patience now (.on w')
  | ends : Nears w patience now (.done ())

theorem Within.past {k time : Nat} (h : w.Within k time) (hearly : now < w.limit)
    (htime : time ≤ now) : w.rank < k :=
  h.resolve_right fun hlimit => absurd (hearly.trans_le hlimit.2) (Nat.not_lt_of_le htime)

theorem Nears.within {w' : Cleanup} {k time : Nat} (h : w.Nears patience now (.on w'))
    (hw : w.Within k time) :
    w'.Timely patience now ∧ w'.Within k time ∧ (time ≤ now → w'.rank < k) := by
  cases h with
  | stays _ timely rank limit early =>
    refine ⟨timely, ?_, fun htime => rank ▸ hw.past early htime⟩
    rwa [Within, rank, limit]
  | passes _ timely rank =>
    have hrank : w'.rank < k := by
      rcases hw with hlt | ⟨heq, -⟩
      · exact rank.trans hlt
      · exact heq ▸ rank
    exact ⟨timely, .inl hrank, fun _ => hrank⟩

theorem look_waits (deadline now : Nat) (s : Session) : (look deadline now s).2 = .done () ∨
    now < deadline ∧ (look deadline now s).2 = .on (.leaving deadline (now + exitPoll)) := by
  unfold look
  split
  · exact .inl rfl
  · split
    · exact .inl rfl
    · next hearly => exact .inr ⟨Nat.lt_of_not_le hearly, rfl⟩

theorem leaving_timely {deadline : Nat} (hearly : now < deadline)
    (hlimit : deadline + exitPoll ≤ now + patience) :
    (leaving deadline (now + exitPoll)).Timely patience now :=
  ⟨hlimit, Nat.add_le_add_right (Nat.le_of_lt hearly) exitPoll⟩

theorem depart_timely (hs : s.timing.patience ≤ patience)
    (hw : (depart now s).2 = .on w) : w.Timely patience now ∧ w.rank = 1 := by
  have hexit : s.timing.exitWait + exitPoll ≤ patience := (Nat.le_max_right _ _).trans hs
  unfold depart at hw
  rcases look_waits (now + s.timing.exitWait) now (close s) with hdone | ⟨hearly, hon⟩
  · rw [hdone] at hw
    cases hw
  · rw [hon] at hw
    cases hw
    exact ⟨leaving_timely hearly (by omega), rfl⟩

theorem afterAsking_timely {gentle : Bool} (hs : s.timing.patience ≤ patience)
    (hw : (afterAsking gentle now s).2 = .on w) : w.Timely patience now ∧ w.rank = 1 := by
  unfold afterAsking at hw
  split at hw
  · exact depart_timely (s := (s.notify "exit" none).1) hs hw
  · cases hw

theorem ask_timely {gentle : Bool} (hs : s.timing.patience ≤ patience)
    (hw : (ask gentle now s).2 = .on w) : w.Timely patience now := by
  have hanswer : s.timing.shutdownTimeout ≤ patience := (Nat.le_max_left _ _).trans hs
  unfold ask Session.onConnection Exchange.start at hw
  dsimp only at hw
  generalize s.connection.sendRequest "shutdown" none = p at hw
  obtain ⟨c, sent⟩ := p
  cases sent with
  | error f => exact (afterAsking_timely (s := { s with connection := c }) hs hw).1
  | ok id =>
    cases hw
    exact ⟨Nat.add_le_add_left hanswer now, Nat.le_refl _⟩

theorem advance_nears (hw : w.Timely patience now) (hs : s.timing.patience ≤ patience) :
    w.Nears patience now (w.advance now s).2 := by
  cases w with
  | asking gentle x =>
    have hasked : ∀ t : Session, t.timing = s.timing →
        (asking gentle x).Nears patience now (afterAsking gentle now t).2 := by
      intro t ht
      cases hafter : (afterAsking gentle now t).2 with
      | idle => exact absurd hafter (afterAsking_ne_idle _ _ _)
      | on w' =>
        obtain ⟨htimely, hrank⟩ := afterAsking_timely (ht ▸ hs) hafter
        exact .passes w' htimely (hrank ▸ Nat.one_lt_two)
      | done u => exact .ends
    unfold advance Session.onConnection Exchange.advance
    dsimp only
    generalize s.connection.take? x.id = p
    obtain ⟨c, answer⟩ := p
    cases answer with
    | some answer => exact hasked _ rfl
    | none =>
      dsimp only
      by_cases hlate : x.due ≤ now
      · rw [if_pos hlate]
        exact hasked _ rfl
      · rw [if_neg hlate]
        exact .waits (Nat.lt_of_not_le hlate)
  | leaving deadline due =>
    unfold advance
    dsimp only
    split
    · rcases look_waits deadline now s with hdone | ⟨hearly, hon⟩
      · rw [hdone]
        exact .ends
      · rw [hon]
        exact .stays _ (leaving_timely hearly hw.limit) rfl rfl
          (Nat.lt_of_lt_of_le hearly (Nat.le_add_right _ _))
    · next hearly => exact .waits (Nat.lt_of_lt_of_le (Nat.lt_of_not_le hearly) hw.due)

end Cleanup

theorem Session.unclean_of_dispose {s : Session} {now : Nat} {w : Cleanup}
    (h : (s.dispose now).2 = .on w) : s.cleanedUp = false := by
  unfold dispose at h
  split at h
  · cases h
  · next hnot => exact Bool.eq_false_of_not_eq_true hnot

theorem Session.dispose_timely {s : Session} {w : Cleanup} {patience now : Nat}
    (hs : s.timing.patience ≤ patience) (hw : (s.dispose now).2 = .on w) :
    w.Timely patience now := by
  have hbegun : s.beginCleanup.timing = s.timing := s.later_beginCleanup.timing
  unfold dispose at hw
  split at hw
  · cases hw
  · dsimp only at hw
    split at hw
    · exact Cleanup.ask_timely (hbegun ▸ hs) hw
    · exact (Cleanup.depart_timely (hbegun ▸ hs) hw).1

end LanguageSessions
