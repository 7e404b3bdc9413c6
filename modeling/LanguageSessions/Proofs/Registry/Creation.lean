import LanguageSessions.Proofs.Registry.Launch
import LanguageSessions.Registry.Call

namespace LanguageSessions

namespace Call

open Registry (Sound Frame Moves)

variable {r r' : Registry} {Young Due Busy : SessionId → Prop} {ticket now : Nat}

def Placed (r : Registry) : Call → Prop
  | opening id _ (.keyed key) _ => r.key? id = some key ∧ key ∉ r.tables.byKey.map Prod.fst
  | opening _ _ (.attached _ extensions) _ => extensions ≠ []
  | waiting (.attach _ _ _ extensions) _ => extensions ≠ []
  | clearing ids _ => ∀ id ∈ ids, id ∈ r.announced
  | _ => True

theorem Placed.stays {c : Call} (h : c.Placed r) (hs : r.Stays r') : c.Placed r' := by
  cases c with
  | waiting w lenient => cases w <;> exact h
  | opening id hs' b lenient =>
    cases b with
    | keyed key => exact ⟨hs.keys _ _ h.1, hs.tables.symm ▸ h.2⟩
    | attached root extensions => exact h
  | stopping id c => trivial
  | clearing ids rest => exact fun id hid => hs.announced.symm ▸ h id hid

def Room (r : Registry) (key : SessionKey) : Berth → Prop
  | .keyed key' => key' = key ∧ key ∉ r.tables.byKey.map Prod.fst
  | .attached _ extensions => extensions ≠ []

theorem placed_of_room {id : SessionId} {hs : Handshake} {key : SessionKey} {b : Berth}
    {lenient : Bool} (hroom : Room r key b) (hl : r.Launched r' key id) :
    (opening id hs b lenient).Placed r' := by
  cases b with
  | keyed key' =>
    obtain ⟨rfl, hfree⟩ := hroom
    exact ⟨hl.key?, hl.tables.symm ▸ hfree⟩
  | attached root extensions => exact hroom

theorem launch_cases (h : r.Sound Young r.Retired Busy) (key : SessionKey) (root : String)
    (d : ServerDescription) (b : Berth) (lenient : Bool) (now : Nat) :
    (∃ r' f, launch r key root d b lenient now = settle b lenient now r' (.error f) ∧
      r.Stays r' ∧ r'.launches.length ≤ r.launches.length + 1 ∧
      r'.Sound Young r'.Retired Busy) ∨
    (∃ r' id hs, launch r key root d b lenient now = (r', .on (.opening id hs b lenient)) ∧
      r.Launched r' key id ∧ r'.Sound (also Young [id]) r'.Retired Busy) := by
  unfold launch
  rcases h.launch_cases key root d now with ⟨f, heq⟩ | ⟨r', id, f, heq, hl, hsound⟩ |
    ⟨r', id, hs, heq, hl, hsound⟩
  · left
    rw [heq]
    exact ⟨r, _, rfl, (Frame.rfl r).toStays, Nat.le_succ _, h⟩
  · left
    rw [heq]
    rw [← Registry.retired_congr hl.retired] at hsound
    exact ⟨r', _, rfl, hl.toStays, Nat.le_of_eq hl.launches, hsound⟩
  · right
    rw [heq]
    rw [← Registry.retired_congr hl.retired] at hsound
    exact ⟨r', id, hs, rfl, hl, hsound⟩

theorem create_cases (h : r.Sound Young r.Retired Busy) (t : Target) (lenient : Bool) (now : Nat) :
    (∃ id, (t.key, id) ∈ r.tables.byKey ∧ r.isUsable id = true ∧ create r t lenient now =
      ({ r with tables := r.tables.touch id now, turns := r.turns.leave },
        .done (reply lenient (.ok id)))) ∨
    (t.key ∉ (r.live? t.key).1.tables.byKey.map Prod.fst ∧
      (∀ id, (t.key, id) ∈ r.tables.byKey → r.isUsable id = false) ∧
      ((∃ r' f, create r t lenient now = settle (.keyed t.key) lenient now r' (.error f) ∧
        (r.live? t.key).1.Stays r' ∧ r'.launches.length ≤ r.launches.length + 1 ∧
        r'.Sound Young r'.Retired Busy) ∨
      (∃ r₁ r' id hs, create r t lenient now = (r', .on (.opening id hs (.keyed t.key) lenient)) ∧
        (r.live? t.key).1.Frame r₁ ∧ r₁.Launched r' t.key id ∧
        r'.Sound (also Young [id]) r'.Retired Busy))) := by
  have hlaunches : (r.live? t.key).1.launches = r.launches := by
    rw [r.live?_eq t.key]
  obtain ⟨hsound, -⟩ := h.live? t.key
  have hcases := h.live?_cases t.key
  have hnone := h.live?_none t.key
  unfold create
  generalize r.live? t.key = p at hlaunches hsound hcases hnone ⊢
  obtain ⟨r₀, found⟩ := p
  dsimp only at hlaunches hsound hnone
  cases found with
  | some id =>
    left
    rcases hcases with ⟨id', hmem, husable, heq⟩ | ⟨-, heq⟩ | ⟨id', -, -, heq⟩
    · cases heq
      exact ⟨id, hmem, husable, rfl⟩
    · cases heq
    · cases heq
  | none =>
    right
    refine ⟨(hnone rfl).1, (hnone rfl).2, ?_⟩
    have hframe : r₀.Frame (r₀.describe t).1 := Registry.frame_of_core rfl rfl
    have hasked : (r₀.describe t).1.Sound Young (r₀.describe t).1.Retired Busy :=
      hsound.congr rfl
    dsimp only
    generalize r₀.describe t = q at hframe hasked ⊢
    obtain ⟨r₁, d?⟩ := q
    dsimp only at hframe hasked
    cases d? with
    | none =>
      left
      refine ⟨r₁, _, rfl, hframe.toStays, ?_, hasked⟩
      rw [hframe.launches, hlaunches]
      exact Nat.le_succ _
    | some d =>
      rcases launch_cases hasked t.key t.root d (.keyed t.key) lenient now with
        ⟨r', f, heq, hstays, hle, hsound'⟩ | ⟨r', id, hs, heq, hl, hsound'⟩
      · left
        rw [hframe.launches, hlaunches] at hle
        exact ⟨r', f, heq, hframe.toStays.trans hstays, hle, hsound'⟩
      · right
        exact ⟨r₁, r', id, hs, heq, hframe, hl, hsound'⟩

theorem opening_cases {id : SessionId} (h : r.Sound (also Young [id]) r.Retired Busy)
    (hid : ¬ Young id) (hs : Handshake) (b : Berth) (lenient : Bool) (ticket now : Nat) :
    (∃ r' a hs', (opening id hs b lenient).advance ticket now r = (r', a) ∧
      (a = .idle ∧ hs' = hs ∨ a = .on (.opening id hs' b lenient)) ∧ r.Frame r' ∧
      r'.Sound (also Young [id]) r'.Retired Busy) ∨
    (∃ r' f, (opening id hs b lenient).advance ticket now r =
        settle b lenient now r' (.error f) ∧ r.Frame r' ∧ r'.Sound Young r'.Retired Busy) ∨
    (∃ r' s, (opening id hs b lenient).advance ticket now r = settle b lenient now r' (.ok id) ∧
      r.Frame r' ∧ id ∉ r'.released ∧ r'.session? id = some s ∧ s.state = .ready ∧
      r'.Sound Young (also r'.Retired [id]) Busy) := by
  have hyoung := also_self Young id
  have hrel : id ∉ r.released := fun hr => (h.released id hr).2.1 hyoung
  have hframe := r.frame_opens id hs now
  have hretired := r.retired_change id (hs.advance now)
  have hreleased := r.released_change id (hs.advance now)
  obtain ⟨a, ha, hgrown, hon, hready⟩ := h.opens hid hs now
  unfold advance
  dsimp only
  generalize r.change id (hs.advance now) = p at hframe hretired hreleased ha hgrown hon hready ⊢
  obtain ⟨r', a'⟩ := p
  dsimp only at hframe hretired hreleased ha hgrown hon hready
  subst ha
  rw [← Registry.retired_congr hretired] at hgrown hon
  cases a with
  | idle => exact .inl ⟨r', _, hs, rfl, .inl ⟨rfl, rfl⟩, hframe, hon (by simp)⟩
  | on hs' => exact .inl ⟨r', _, hs', rfl, .inr rfl, hframe, hon (by simp)⟩
  | done o =>
    right
    dsimp only
    rcases r'.launched_cases id o with ⟨f, heq, -⟩ | ⟨o', rfl, hexited, heq⟩
    · left
      rw [heq]
      exact ⟨_, f, rfl, hframe.trans (r'.frame_abandon id), hgrown.abandon⟩
    · right
      obtain ⟨s, hsome, hstate⟩ := hready o' rfl hexited
      rw [heq]
      exact ⟨r', s, rfl, hframe, hreleased.symm ▸ hrel, hsome, hstate, hgrown⟩

theorem settle_ok (now : Nat) (lenient : Bool) {id : SessionId} {hs : Handshake} {b : Berth}
    (h : r.Sound Young (also r.Retired [id]) Busy) (hnew : id ∉ r.announced)
    (hrel : id ∉ r.released) (hplaced : (opening id hs b lenient).Placed r) :
    (settle b lenient now r (.ok id)).1.Sound Young (settle b lenient now r (.ok id)).1.Retired Busy ∧
      r.Moves (settle b lenient now r (.ok id)).1 [id] ∧
      (settle b lenient now r (.ok id)).2 = .done (reply lenient (.ok id)) := by
  cases b with
  | keyed key =>
    obtain ⟨hsound, hmoves⟩ := h.enter hnew hrel hplaced.1 hplaced.2 now
    exact ⟨hsound.congr rfl, hmoves.congr rfl, rfl⟩
  | attached root extensions =>
    obtain ⟨hsound, hmoves⟩ := h.attach hnew hrel root hplaced
    exact ⟨hsound.congr rfl, hmoves.congr rfl, rfl⟩

end Call

end LanguageSessions
