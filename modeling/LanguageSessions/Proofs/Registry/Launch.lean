import LanguageSessions.Proofs.Registry.Operations

namespace LanguageSessions

namespace Registry

variable {r : Registry} {Young Due Busy : SessionId → Prop} {id : SessionId}

def add (r : Registry) (s : Session) (launch : ServerDescription × String) : Registry :=
  { r with sessions := r.sessions ++ [s], launches := r.launches ++ [launch] }

theorem session?_add (r : Registry) (s : Session) (launch : ServerDescription × String)
    (id : SessionId) :
    (r.add s launch).session? id = (r.session? id).or (if s.id = id then some s else none) := by
  unfold session? add
  rw [List.find?_append, List.find?_singleton]
  simp

theorem stays_add (r : Registry) (s : Session) (launch : ServerDescription × String) :
    r.Stays (r.add s launch) where
  tables := rfl
  announced := rfl
  holder := rfl
  count := by simp [add]
  keys := by
    intro id key hk
    obtain ⟨t, ht, rfl⟩ := Option.map_eq_some_iff.mp hk
    rw [key?, session?_add, ht]
    rfl

theorem Sound.not_young_next (h : r.Sound Young Due Busy) : ¬ Young (r.sessions.length + 1) := by
  intro hy
  have := (h.young _ hy).1.2
  omega

theorem Sound.session?_next (h : r.Sound Young Due Busy) :
    r.session? (r.sessions.length + 1) = none := by
  cases hs : r.session? (r.sessions.length + 1) with
  | none => rfl
  | some s =>
    have := ((h.numbered _).mp ⟨s, hs⟩).2
    omega

theorem knows_add (launch : ServerDescription × String) {s : Session}
    (hid : s.id = r.sessions.length + 1) (x : SessionId) :
    (r.add s launch).Knows x ↔ r.Knows x ∨ x = s.id := by
  have hlength : (r.add s launch).sessions.length = r.sessions.length + 1 := by
    simp [Registry.add]
  have hsplit : ∀ n m : Nat, 0 < n ∧ n ≤ m + 1 ↔ (0 < n ∧ n ≤ m) ∨ n = m + 1 := by omega
  rw [Knows, Knows, hlength, hid]
  exact hsplit x _

theorem Sound.session?_add_iff (h : r.Sound Young Due Busy) (launch : ServerDescription × String)
    {s : Session} (hid : s.id = r.sessions.length + 1) (x : SessionId) (t : Session) :
    (r.add s launch).session? x = some t ↔ r.session? x = some t ∨ x = s.id ∧ t = s := by
  rw [session?_add]
  constructor
  · intro ht
    rcases Option.or_eq_some_iff.mp ht with ht | ⟨-, ht⟩
    · exact .inl ht
    · split at ht
      · next heq => exact .inr ⟨heq.symm, (Option.some.inj ht).symm⟩
      · cases ht
  · rintro (ht | ⟨rfl, rfl⟩)
    · rw [ht]
      rfl
    · rw [hid, h.session?_next, ← hid]
      simp

theorem Sound.add (h : r.Sound Young Due Busy) {s : Session}
    (launch : ServerDescription × String) (hid : s.id = r.sessions.length + 1)
    (hstate : s.state = .starting) (hclean : s.cleanedUp = false) (hnone : s.cleanups = 0) :
    (r.add s launch).Sound (also Young [s.id]) Due Busy := by
  have hknows := knows_add launch hid
  have hne : ∀ x, r.Knows x → x ≠ s.id := by
    rintro x hx rfl
    have := hx.2
    rw [hid] at this
    omega
  have hgrown : ∀ x, r.Knows x → ¬ Young x → ¬ also Young [s.id] x :=
    fun x hk hy hy' => hy ((also_of_ne (hne x hk)).mp hy')
  exact {
    numbered := by
      intro x
      rw [hknows, ← h.numbered]
      constructor
      · rintro ⟨t, ht⟩
        exact ((h.session?_add_iff launch hid x t).mp ht).imp (fun ht => ⟨t, ht⟩) And.left
      · rintro (⟨t, ht⟩ | hx)
        · exact ⟨t, (h.session?_add_iff launch hid x t).mpr (.inl ht)⟩
        · exact ⟨s, (h.session?_add_iff launch hid x s).mpr (.inr ⟨hx, rfl⟩)⟩
    launches := by
      simp [Registry.add, h.launches]
    tables := h.tables.congr (r.stays_add s launch).keys
    announced_nodup := h.announced_nodup
    announced_known := fun x hx => (hknows x).mpr (.inl (h.announced_known x hx))
    held_announced := h.held_announced
    released := by
      intro x hx
      obtain ⟨hk, hy, hheld⟩ := h.released x hx
      exact ⟨(hknows x).mpr (.inl hk), hgrown x hk hy, hheld⟩
    young := by
      rintro x (hy | hy)
      · exact ⟨(hknows x).mpr (.inl (h.young x hy).1), (h.young x hy).2⟩
      · rw [List.mem_singleton.mp hy]
        refine ⟨(hknows s.id).mpr (.inr rfl), ?_⟩
        intro hann
        exact hne s.id (h.announced_known s.id hann) rfl
    hands := by
      intro x hx
      obtain ⟨hk, hy⟩ := h.hands x hx
      exact ⟨(hknows x).mpr (.inl hk), hgrown x hk hy⟩
    sessions := by
      intro x t ht
      rcases (h.session?_add_iff launch hid x t).mp ht with ht | ⟨rfl, rfl⟩
      · have hx := (h.numbered x).mp ⟨t, ht⟩
        have hsame : also Young [s.id] x = Young x := propext (also_of_ne (hne x hx))
        rw [hsame]
        exact h.sessions x t ht
      · refine ⟨fun _ => ⟨hstate, hclean⟩, .inl (also_self Young t.id), ?_, ?_⟩
        · intro hc
          rw [hclean] at hc
          cases hc
        · rw [hnone]
          simp }

structure Launched (r r' : Registry) (key : SessionKey) (id : SessionId) : Prop extends Stays r r' where
  fresh : id = r.sessions.length + 1
  key? : r'.key? id = some key
  launches : r'.launches.length = r.launches.length + 1
  retired : r'.retired = r.retired
  released : r'.released = r.released

theorem Launched.frame {r r' r'' : Registry} {key : SessionKey} (h : r.Launched r' key id)
    (k : r'.Frame r'') (hretired : r''.retired = r'.retired) (hreleased : r''.released = r'.released) :
    r.Launched r'' key id where
  toStays := h.toStays.trans k.toStays
  fresh := h.fresh
  key? := k.keys _ _ h.key?
  launches := by rw [k.launches, h.launches]
  retired := hretired.trans h.retired
  released := hreleased.trans h.released

theorem connectTo_cases (r : Registry) (key : SessionKey) (root : String) (d : ServerDescription) :
    (∃ f, r.connectTo key root d = (r, .error f)) ∨
    ∃ s, s.id = r.sessions.length + 1 ∧ s.key = key ∧ s.state = .starting ∧ s.cleanedUp = false ∧
      s.cleanups = 0 ∧ r.connectTo key root d = (r.add s (d, root), .ok s.id) := by
  unfold connectTo
  cases r.connect r.host r.sessions.length d root with
  | error f => exact .inl ⟨f, rfl⟩
  | ok channel => exact .inr ⟨_, rfl, rfl, rfl, rfl, rfl, rfl⟩

theorem Sound.launched_add (h : r.Sound Young Due Busy) {s : Session}
    (launch : ServerDescription × String) (hid : s.id = r.sessions.length + 1) :
    r.Launched (r.add s launch) s.key s.id where
  toStays := r.stays_add s launch
  fresh := hid
  key? := by
    rw [key?, (h.session?_add_iff launch hid s.id s).mpr (.inr ⟨rfl, rfl⟩)]
    rfl
  launches := by simp [Registry.add]
  retired := rfl
  released := rfl

theorem Sound.launch_cases (h : r.Sound Young Due Busy) (key : SessionKey) (root : String)
    (d : ServerDescription) (now : Nat) :
    (∃ f, r.launch key root d now = (r, .error f)) ∨
    (∃ r' id f, r.launch key root d now = (r', .error f) ∧ r.Launched r' key id ∧
      r'.Sound Young Due Busy) ∨
    (∃ r' id hs, r.launch key root d now = (r', .ok (id, hs)) ∧ r.Launched r' key id ∧
      r'.Sound (also Young [id]) Due Busy) := by
  unfold launch
  rcases r.connectTo_cases key root d with ⟨f, heq⟩ | ⟨s, hid, hkey, hstate, hclean, hnone, heq⟩
  · left
    exact ⟨f, by rw [heq]⟩
  · have hadd := h.add (d, root) hid hstate hclean hnone
    have hmade := h.launched_add (d, root) hid
    have hs : (r.add s (d, root)).session? s.id = some s :=
      (h.session?_add_iff (d, root) hid s.id s).mpr (.inr ⟨rfl, rfl⟩)
    rw [heq]
    dsimp only
    obtain ⟨f, hf⟩ : ∃ f, f = Handshake.start (r.add s (d, root)).host
      (r.add s (d, root)).processId now := ⟨_, rfl⟩
    have hq : ∀ t : Session, t.Quiet (f t).1 ∧ (f t).1.state = t.state := by
      rw [hf]
      exact Handshake.quiet_start _ _ _
    have hchange := change_of_some hs f
    have hframe : (r.add s (d, root)).Frame ((r.add s (d, root)).change s.id f).1 :=
      frame_change _ _ _ (fun t => (hq t).1.id) fun t => (hq t).1.key
    have hgrow := hadd.grow (hid ▸ h.not_young_next) f fun t => (hq t).1
    have hyoung := hadd.quiet_change s.id f (fun t => (hq t).1) fun _ t => (hq t).2
    rw [hkey] at hmade
    rw [hchange] at hframe hgrow hyoung
    have hlaunched := hmade.frame hframe rfl rfl
    rw [← hf, hchange]
    cases hr : (f s).2 with
    | error g =>
      right; left
      exact ⟨_, s.id, g, rfl, hlaunched.frame (frame_abandon _ _) rfl rfl, hgrow.abandon⟩
    | ok hs' =>
      right; right
      exact ⟨_, s.id, hs', rfl, hlaunched, hyoung⟩

theorem Sound.opens (h : r.Sound (also Young [id]) Due Busy) (hid : ¬ Young id) (hs : Handshake)
    (now : Nat) : ∃ a, (r.change id (hs.advance now)).2 = some a ∧
      (r.change id (hs.advance now)).1.Sound Young (also Due [id]) Busy ∧
      ((∀ o, a ≠ .done o) → (r.change id (hs.advance now)).1.Sound (also Young [id]) Due Busy) ∧
      ∀ o, a = .done (.ok o) → o.exited = false →
        ∃ s, (r.change id (hs.advance now)).1.session? id = some s ∧ s.state = .ready := by
  have hyoung := also_self Young id
  obtain ⟨s, hsome⟩ := (h.numbered id).mpr (h.young id hyoung).1
  have hfit := h.sessions id s hsome
  have hl := hs.advance_leads now
  refine ⟨(hs.advance now s).2, by rw [change_of_some hsome], ?_, ?_, ?_⟩
  · exact h.grow hid _ fun t => (hl t).quiet
  · intro hon
    apply h.change hsome _ (hl s).quiet.id (hl s).quiet.key
    · apply hfit.quiet (hl s).quiet
      intro hy
      rw [(hl s).starting (hfit.starting hy).1 hon, (hfit.starting hy).1]
    · exact fun x _ => ⟨Iff.rfl, Iff.rfl, Iff.rfl⟩
    · exact fun hy => hy
    · exact h.hands id
  · intro o hdone hexited
    refine ⟨(hs.advance now s).1, ?_, (hl s).ready o (hfit.starting hyoung).1 hdone hexited⟩
    rw [change_of_some hsome, session?_modify _ _ _ _ fun _ _ => (hl s).quiet.id.trans (session?_id hsome)]
    simp [hsome]

theorem frame_opens (r : Registry) (id : SessionId) (hs : Handshake) (now : Nat) :
    r.Frame (r.change id (hs.advance now)).1 :=
  r.frame_change id _ (fun s => (hs.advance_leads now s).quiet.id)
    fun s => (hs.advance_leads now s).quiet.key

theorem launched_cases (r : Registry) (id : SessionId) (o : Except Fault HandshakeOutcome) :
    (∃ f, r.launched id o = (r.modify id Session.abandon, .error f) ∧
      ∀ type, f ≠ .noProvider type) ∨
    ∃ o', o = .ok o' ∧ o'.exited = false ∧ r.launched id o = (r, .ok id) := by
  unfold launched
  cases o with
  | error f => exact .inl ⟨_, rfl, by simp⟩
  | ok o =>
    dsimp only
    cases hexited : o.exited with
    | true => exact .inl ⟨_, rfl, by simp⟩
    | false => exact .inr ⟨o, rfl, hexited, rfl⟩

theorem Sound.admit (h : r.Sound Young (also Due [id]) Busy) (hnew : id ∉ r.announced)
    (hrel : id ∉ r.released) {t : Tables} (ht : t.Sound r.key?) (gone : List SessionId)
    (hgone : ∀ x ∈ gone, x ∈ r.tables.held)
    (hheld : ∀ x, x ∈ t.held ↔ (x ∈ r.tables.held ∧ x ∉ gone) ∨ x = id) :
    ({ r with tables := t, announced := r.announced ++ [id] } : Registry).Sound
      Young (also Due gone) Busy where
  numbered := h.numbered
  launches := h.launches
  tables := ht
  announced_nodup := by
    refine List.nodup_append.mpr ⟨h.announced_nodup, by simp, ?_⟩
    rintro x hx y hy rfl
    rw [List.mem_singleton.mp hy] at hx
    exact hnew hx
  announced_known := by
    intro x hx
    rcases List.mem_append.mp hx with hx | hx
    · exact h.announced_known x hx
    · rw [List.mem_singleton.mp hx]
      exact h.due.1
  held_announced := by
    intro x hx
    rcases (hheld x).mp hx with ⟨hx, -⟩ | rfl
    · exact List.mem_append_left _ (h.held_announced x hx)
    · exact List.mem_append_right _ (List.mem_singleton.mpr rfl)
  released := by
    intro x hx
    obtain ⟨hk, hy, hnot⟩ := h.released x hx
    refine ⟨hk, hy, ?_⟩
    intro hx'
    rcases (hheld x).mp hx' with ⟨hx', -⟩ | rfl
    · exact hnot hx'
    · exact hrel hx
  young := by
    intro x hx
    refine ⟨(h.young x hx).1, ?_⟩
    intro hann
    rcases List.mem_append.mp hann with hann | hann
    · exact (h.young x hx).2 hann
    · rw [List.mem_singleton.mp hann] at hx
      exact h.due.2 hx
  hands := by
    rintro x ((hd | hg) | hb)
    · exact h.hands x (.inl (.inl hd))
    · have hann := h.held_announced x (hgone x hg)
      exact ⟨h.announced_known x hann, fun hy => (h.young x hy).2 hann⟩
    · exact h.hands x (.inr hb)
  sessions := by
    intro x s hs
    have hfit := h.sessions x s hs
    refine ⟨hfit.starting, ?_, hfit.working, hfit.once⟩
    rcases hfit.settled with hy | (hx | hd | hx) | hrest
    · exact .inl hy
    · by_cases hg : x ∈ gone
      · exact .inr (.inl (.inr (.inr hg)))
      · exact .inr (.inl (.inl ((hheld x).mpr (.inl ⟨hx, hg⟩))))
    · exact .inr (.inl (.inr (.inl hd)))
    · exact .inr (.inl (.inl ((hheld x).mpr (.inr (List.mem_singleton.mp hx)))))
    · exact .inr (.inr hrest)

theorem moves_admit (r : Registry) {t : Tables} {gone : List SessionId}
    (hheld : ∀ x, x ∈ t.held ↔ (x ∈ r.tables.held ∧ x ∉ gone) ∨ x = id) :
    r.Moves { r with tables := t, announced := r.announced ++ [id] } [id] where
  keys := fun _ _ hk => hk
  count := Nat.le_refl _
  held := by
    intro x hx
    rcases (hheld x).mp hx with ⟨hx, -⟩ | rfl
    · exact .inl hx
    · exact .inr (List.mem_singleton.mpr rfl)
  entered := fun x hx => (hheld x).mpr (.inr (List.mem_singleton.mp hx))
  announced := rfl

theorem Sound.enter (h : r.Sound Young (also Due [id]) Busy) (hnew : id ∉ r.announced)
    (hrel : id ∉ r.released) {key : SessionKey} (hkey : r.key? id = some key)
    (hfree : key ∉ r.tables.byKey.map Prod.fst) (now : Nat) :
    ((r.enter key id now).announce id).Sound Young Due Busy ∧
      r.Moves ((r.enter key id now).announce id) [id] := by
  have hheld : ∀ x, x ∈ (r.tables.insert key id now).held ↔
      (x ∈ r.tables.held ∧ x ∉ ([] : List SessionId)) ∨ x = id := by
    intro x
    rw [Tables.mem_held_insert, or_comm]
    simp
  have ht := h.tables.insert hkey hfree (fun hx => hnew (h.held_announced id hx)) now
  have hsound := h.admit hnew hrel ht [] (by simp) hheld
  rw [also_nil] at hsound
  exact ⟨hsound, r.moves_admit hheld⟩

theorem Sound.attach (h : r.Sound Young (also r.Retired [id]) Busy) (hnew : id ∉ r.announced)
    (hrel : id ∉ r.released) (root : String) {extensions : List String} (hne : extensions ≠ []) :
    ((r.attach root extensions id).announce id).Sound Young (r.attach root extensions id).Retired Busy ∧
      r.Moves ((r.attach root extensions id).announce id) [id] := by
  have hfresh : id ∉ r.tables.held := fun hx => hnew (h.held_announced id hx)
  have hheld : ∀ x, x ∈ (r.tables.attach root extensions id).held ↔
      (x ∈ r.tables.held ∧ x ∉ (r.tables.attachedTo root).mergeSort (· ≤ ·)) ∨ x = id := by
    intro x
    rw [h.tables.mem_held_attach root hne, List.mem_mergeSort]
  have hgone : ∀ x ∈ (r.tables.attachedTo root).mergeSort (· ≤ ·), x ∈ r.tables.held := by
    intro x hx
    rw [List.mem_mergeSort] at hx
    obtain ⟨a, ha, -, e, he, heq⟩ := (Tables.mem_attachedTo h.tables root x).mp hx
    exact (Tables.mem_held _ _).mpr (.inr ⟨a, ha, e, he, heq⟩)
  have ht := h.tables.attach root extensions hfresh
  have hsound := h.admit hnew hrel ht _ hgone hheld
  rw [← retired_retire] at hsound
  exact ⟨hsound.congr rfl, (r.moves_admit hheld).congr rfl⟩

end Registry

end LanguageSessions
