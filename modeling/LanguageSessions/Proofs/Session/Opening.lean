import LanguageSessions.Proofs.Connection.Writing
import LanguageSessions.Proofs.Session.Rejection

/-!
The end of a handshake. A handshake is advanced at one moment after the other, and between two of
them anything may become of the connection and of the state of its session. What a moment decides is
told by `Decides`: the answer comes before the look at the server, and a server that is gone before
the time that is over.
-/
namespace LanguageSessions

namespace Handshake

def opening (h : Host) (processId : Nat) (root : String) (id : Nat) : Message :=
  let params := introduction h (some processId) root
  .request { id := .number id, method := "initialize", params := some params }

def confirmation : Message := .notification { method := "initialized", params := some (.object []) }

def withdrawal (id : Nat) : Message :=
  .notification { method := "$/cancelRequest", params := some (.object [("id", .nat id)]) }

structure Moment where
  now : Nat
  connection : Connection
  state : SessionState

namespace Moment

def on (m : Moment) (s : Session) : Session :=
  { s with connection := m.connection, state := m.state }

def answer? (m : Moment) (hs : Handshake) : Option (Except Fault Json) :=
  (m.connection.take? hs.request).2

theorem on_on (m n : Moment) (s : Session) : n.on (m.on s) = n.on s := rfl

end Moment

section

variable (t : Timing)

def after (hs : Handshake) (m : Moment) : Handshake :=
  if hs.due ≤ m.now then { hs with due := m.now + interval t } else hs

def through (hs : Handshake) (ms : List Moment) : Handshake := ms.foldl (after t) hs

def looks : Handshake → List Moment → Nat
  | _, [] => 0
  | hs, m :: ms => (if hs.due ≤ m.now then 1 else 0) + looks (hs.after t m) ms

end

def watch (hs : Handshake) (s : Session) :
    List Moment → Session × Option (Except Fault HandshakeOutcome)
  | [] => (s, none)
  | m :: ms =>
    match hs.advance m.now (m.on s) with
    | (s, .idle) => hs.watch s ms
    | (s, .on hs) => hs.watch s ms
    | (s, .done r) => (s, some r)

inductive Ending where
  | accepted (v : Json)
  | refused
  | gone
  | late

inductive Decides (hs : Handshake) (t : Timing) (m : Moment) : Ending → Prop where
  | value (v : Json) (hfound : m.answer? hs = some (.ok v)) (hv : v.isNull = false) :
    hs.Decides t m (.accepted v)
  | null (v : Json) (hfound : m.answer? hs = some (.ok v)) (hv : v.isNull = true) :
    hs.Decides t m .refused
  | error (f : Fault) (hfound : m.answer? hs = some (.error f)) (hf : f ≠ .connectionClosed) :
    hs.Decides t m .refused
  | lost (hfound : m.answer? hs = some (.error .connectionClosed)) : hs.Decides t m .gone
  | dead (hnone : m.answer? hs = none) (hdue : hs.due ≤ m.now)
    (hdead : m.connection.channel.processDead = true) : hs.Decides t m .gone
  | closed (hnone : m.answer? hs = none) (hdue : hs.due ≤ m.now)
    (hclosed : m.connection.closed = true) : hs.Decides t m .gone
  | late (limit : Nat) (hnone : m.answer? hs = none) (hdue : hs.due ≤ m.now)
    (halive : m.connection.channel.processDead = false) (hopen : m.connection.closed = false)
    (hlimit : t.handshakeTimeout = some limit) (hover : hs.started + limit ≤ m.now) :
    hs.Decides t m .late

def Undecided (t : Timing) : Handshake → List Moment → Prop
  | _, [] => True
  | hs, m :: ms => (∀ e, ¬ hs.Decides t m e) ∧ Undecided t (hs.after t m) ms

structure Leaves (s t : Session) (written : List Message) (announced : Option Capabilities) :
    Prop where
  channel : t.connection.channel = { s.connection.channel with
    outgoing := s.connection.channel.outgoing ++ written.map Message.text }
  session : t = { s with
    connection := t.connection
    announced := s.announced <|> announced
    state := if announced.isSome ∧ s.state = .starting then .ready else s.state }

def Ending.Concludes (id : Nat) (s t : Session) (r : Except Fault HandshakeOutcome) :
    Ending → Prop
  | .accepted v =>
    let c := (Capabilities.ofJson? v).getD {}
    (s.connection.channel.takes = true →
      r = .ok { capabilities := c } ∧ Leaves s t [confirmation] (some c)) ∧
    (s.connection.channel.takes = false → (∃ f, r = .error f) ∧ Leaves s t [] none)
  | .refused => r = .ok {} ∧ Leaves s t [] (some {})
  | .gone => r = .ok { exited := true } ∧ Leaves s t [] none
  | .late =>
    r = .ok { timedOut := true } ∧ id ∉ t.connection.pending ∧
      Leaves s t (if s.connection.channel.takes then [withdrawal id] else []) (some {})

section

variable {hs : Handshake} {t : Timing} {m : Moment}

theorem Decides.unique {d e : Ending} (hd : hs.Decides t m d) (he : hs.Decides t m e) : d = e := by
  cases hd <;> cases he <;> simp_all

theorem lt_of_undecided {limit : Nat} (hlimit : t.handshakeTimeout = some limit)
    (h : ∀ e, ¬ hs.Decides t m e) (hnone : m.answer? hs = none) (hdue : hs.due ≤ m.now) :
    m.now < hs.started + limit := by
  by_contra hover
  cases hdead : m.connection.channel.processDead with
  | true => exact h _ (.dead hnone hdue hdead)
  | false =>
    cases hclosed : m.connection.closed with
    | true => exact h _ (.closed hnone hdue hclosed)
    | false => exact h _ (.late limit hnone hdue hdead hclosed hlimit (by omega))

theorem answer?_of_undecided (h : ∀ e, ¬ hs.Decides t m e) : m.answer? hs = none := by
  cases hfound : m.answer? hs with
  | none => rfl
  | some a =>
    exfalso
    cases a with
    | error f =>
      by_cases hf : f = .connectionClosed
      · exact h _ (.lost (hf ▸ hfound))
      · exact h _ (.error f hfound hf)
    | ok v =>
      cases hv : v.isNull with
      | false => exact h _ (.value v hfound hv)
      | true => exact h _ (.null v hfound hv)

theorem after_started (hs : Handshake) (m : Moment) : (hs.after t m).started = hs.started := by
  unfold after
  split <;> rfl

theorem looked_on (hs : Handshake) (m : Moment) (s : Session) :
    (m.on s).onConnection (·.take? hs.request) = (hs.looked (m.on s), m.answer? hs) := rfl

theorem looked_eq_self (hnone : m.answer? hs = none) (s : Session) :
    hs.looked (m.on s) = m.on s := by
  have hkept : (m.connection.take? hs.request).1 = m.connection := by
    unfold Moment.answer? Connection.take? at hnone
    unfold Connection.take?
    split at hnone
    · cases hnone
    · split at hnone
      · next hpending => rw [if_pos hpending]
      · cases hnone
  unfold looked Session.onConnection
  dsimp only [Moment.on]
  rw [hkept]

theorem advance_undecided {s : Session} (h : ∀ e, ¬ hs.Decides s.timing m e) :
    hs.advance m.now (m.on s) =
      (m.on s, if hs.due ≤ m.now then .on (hs.after s.timing m) else .idle) := by
  have hnone := answer?_of_undecided h
  rw [advance, looked_on, hnone, looked_eq_self hnone]
  dsimp only
  by_cases hdue : hs.due ≤ m.now
  · have hgone : ((m.on s).connection.channel.processDead || (m.on s).connection.closed) = false := by
      rw [Bool.or_eq_false_iff]
      exact ⟨Bool.eq_false_iff.mpr fun hdead => h _ (.dead hnone hdue hdead),
        Bool.eq_false_iff.mpr fun hclosed => h _ (.closed hnone hdue hclosed)⟩
    have hover : hs.isOver m.now (m.on s).timing = false := by
      unfold isOver
      cases hlimit : (m.on s).timing.handshakeTimeout with
      | none => rfl
      | some limit =>
        have hlt := lt_of_undecided hlimit h hnone hdue
        simpa using hlt
    rw [if_pos hdue, if_pos hdue, look, if_neg (Bool.eq_false_iff.mp hgone),
      if_neg (Bool.eq_false_iff.mp hover), after, if_pos hdue]
    rfl
  · rw [if_neg hdue, if_neg hdue]

theorem leaves_nothing {s t : Session} (hchannel : t.connection.channel = s.connection.channel)
    (hsession : t = { s with connection := t.connection }) : Leaves s t [] none where
  channel := by simp [hchannel]
  session := by simpa using hsession

theorem leaves_accept {s t : Session} {written : List Message} (h : Leaves s t written none)
    (o : HandshakeOutcome) : Leaves s (accept t o) written (some o.capabilities) := by
  have hsession : t = { s with connection := t.connection } := by simpa using h.session
  refine ⟨h.channel, ?_⟩
  rw [hsession]
  simp [accept]

theorem leaves_write (s : Session) (c : Connection) (m : Message)
    (hc : c.channel = s.connection.channel) :
    Leaves s { s with connection := (c.write m).1 }
      (if s.connection.channel.takes then [m] else []) none := by
  rcases Connection.write_cases c m with ⟨htakes, hwrite⟩ | ⟨htakes, f, hwrite⟩
  · rw [hc] at htakes hwrite
    rw [hwrite, if_pos htakes]
    exact ⟨rfl, by simp⟩
  · rw [hc] at htakes
    rw [hwrite, if_neg (Bool.eq_false_iff.mp htakes)]
    exact leaves_nothing hc rfl

theorem finish_concludes (id : Nat) (s : Session) (v : Json) (hv : v.isNull = false) :
    (Ending.accepted v).Concludes id s (finish s v).1 (finish s v).2 := by
  have hnotify : s.notify "initialized" (some (.object [])) =
      ({ s with connection := (s.connection.write confirmation).1 },
        (s.connection.write confirmation).2) := rfl
  have hleaves := leaves_write s s.connection confirmation rfl
  unfold Ending.Concludes finish
  rw [if_neg (Bool.eq_false_iff.mp hv), hnotify]
  dsimp only
  rcases Connection.write_cases s.connection confirmation with ⟨htakes, hwrite⟩ | ⟨htakes, f, hwrite⟩
  · rw [hwrite, if_pos htakes] at hleaves
    rw [hwrite, htakes]
    exact ⟨fun _ => ⟨rfl, leaves_accept hleaves _⟩, by rintro ⟨⟩⟩
  · rw [hwrite, if_neg (Bool.eq_false_iff.mp htakes)] at hleaves
    rw [hwrite, htakes]
    exact ⟨by rintro ⟨⟩, fun _ => ⟨⟨f, rfl⟩, hleaves⟩⟩

theorem leaves_looked (hs : Handshake) (s : Session) : Leaves s (hs.looked s) [] none :=
  leaves_nothing (s.connection.take?_keeps hs.request).2 rfl

theorem finish_null (s : Session) (v : Json) (hv : v.isNull = true) :
    finish s v = (accept s {}, .ok {}) := if_pos hv

theorem Leaves.trans {s t u : Session} {written : List Message} {announced : Option Capabilities}
    (h : Leaves s t [] none) (k : Leaves t u written announced) : Leaves s u written announced where
  channel := by rw [k.channel, h.channel]; simp
  session := by
    have hsession : t = { s with connection := t.connection } := by simpa using h.session
    rw [k.session, hsession]

theorem Ending.concludes_later {id : Nat} {s t u : Session}
    {r : Except Fault HandshakeOutcome} {e : Ending} (h : Leaves s t [] none)
    (k : e.Concludes id t u r) : e.Concludes id s u r := by
  have htakes : t.connection.channel.takes = s.connection.channel.takes := by rw [h.channel]; rfl
  cases e with
  | accepted v =>
    unfold Concludes at k ⊢
    rw [htakes] at k
    exact ⟨fun ht => (k.1 ht).imp_right h.trans, fun ht => (k.2 ht).imp_right h.trans⟩
  | refused => exact ⟨k.1, h.trans k.2⟩
  | gone => exact ⟨k.1, h.trans k.2⟩
  | late =>
    unfold Concludes at k ⊢
    rw [htakes] at k
    exact ⟨k.1, k.2.1, h.trans k.2.2⟩

theorem advance_gone (s : Session) (hnone : m.answer? hs = none) (hdue : hs.due ≤ m.now)
    (hgone : (m.connection.channel.processDead || m.connection.closed) = true) :
    hs.advance m.now (m.on s) = (m.on s, .done (.ok { exited := true })) := by
  have hfound : ((m.on s).connection.channel.processDead || (m.on s).connection.closed) = true := hgone
  rw [advance, looked_on, hnone, looked_eq_self hnone]
  dsimp only
  rw [if_pos hdue, look, if_pos hfound]

theorem advance_decided {s : Session} {e : Ending} (h : hs.Decides s.timing m e) :
    ∃ u r, hs.advance m.now (m.on s) = (u, .done r) ∧ e.Concludes hs.request (m.on s) u r := by
  have hleaves := hs.leaves_looked (m.on s)
  cases h with
  | value v hfound hv =>
    have hdone := finish_concludes hs.request (hs.looked (m.on s)) v hv
    refine ⟨_, _, ?_, Ending.concludes_later hleaves hdone⟩
    rw [advance, looked_on, hfound]
  | null v hfound hv =>
    refine ⟨accept (hs.looked (m.on s)) {}, .ok {}, ?_, rfl, leaves_accept hleaves {}⟩
    rw [advance, looked_on, hfound]
    dsimp only
    rw [finish_null _ v hv]
  | error f hfound hf =>
    refine ⟨accept (hs.looked (m.on s)) {}, .ok {}, ?_, rfl, leaves_accept hleaves {}⟩
    rw [advance_of_error hs m.now (m.on s) f hfound, if_neg hf]
  | lost hfound =>
    refine ⟨hs.looked (m.on s), .ok { exited := true }, ?_, rfl, hleaves⟩
    rw [advance_of_error hs m.now (m.on s) _ hfound, if_pos rfl]
  | dead hnone hdue hdead =>
    exact ⟨_, _, advance_gone s hnone hdue (by simp [hdead]), rfl, leaves_nothing rfl rfl⟩
  | closed hnone hdue hclosed =>
    exact ⟨_, _, advance_gone s hnone hdue (by simp [hclosed]), rfl, leaves_nothing rfl rfl⟩
  | late limit hnone hdue halive hopen hlimit hover =>
    have hgone : ((m.on s).connection.channel.processDead || (m.on s).connection.closed) = false := by
      rw [Bool.or_eq_false_iff]
      exact ⟨halive, hopen⟩
    have htime : hs.isOver m.now (m.on s).timing = true := by
      have hlimit : (m.on s).timing.handshakeTimeout = some limit := hlimit
      simpa [isOver, hlimit] using hover
    let kept := { m.connection with pending := m.connection.pending.filter (· != hs.request) }
    have hwritten := leaves_write (m.on s) kept (withdrawal hs.request) rfl
    refine ⟨accept { m.on s with connection := (kept.write (withdrawal hs.request)).1 } { timedOut := true },
      .ok { timedOut := true }, ?_, rfl, ?_, leaves_accept hwritten _⟩
    · rw [advance, looked_on, hnone, looked_eq_self hnone]
      dsimp only
      rw [if_pos hdue, look, if_neg (Bool.eq_false_iff.mp hgone), if_pos htime]
      rfl
    · have hpending : (kept.write (withdrawal hs.request)).1.pending = kept.pending := rfl
      have hgivenUp : hs.request ∉ kept.pending := by simp [kept]
      rw [← hpending] at hgivenUp
      exact hgivenUp

theorem through_request (hs : Handshake) (ms : List Moment) :
    (hs.through t ms).request = hs.request := by
  induction ms generalizing hs with
  | nil => rfl
  | cons m ms ih =>
    rw [through, List.foldl_cons]
    refine (ih (hs.after t m)).trans ?_
    unfold after
    split <;> rfl

theorem undecided_or (t : Timing) (hs : Handshake) (ms : List Moment) :
    Undecided t hs ms ∨ ∃ before m rest e, ms = before ++ m :: rest ∧ Undecided t hs before ∧
      (hs.through t before).Decides t m e := by
  induction ms generalizing hs with
  | nil => exact .inl trivial
  | cons m ms ih =>
    by_cases h : ∃ e, hs.Decides t m e
    · obtain ⟨e, he⟩ := h
      exact .inr ⟨[], m, ms, e, rfl, trivial, he⟩
    · rw [not_exists] at h
      rcases ih (hs.after t m) with hnone | ⟨before, n, rest, e, hms, hbefore, he⟩
      · exact .inl ⟨h, hnone⟩
      · exact .inr ⟨m :: before, n, rest, e, congrArg (m :: ·) hms, ⟨h, hbefore⟩, he⟩

end

def found (s : Session) (ms : List Moment) : Session := ms.foldl (fun s m => m.on s) s

theorem on_found (m : Moment) (s : Session) (ms : List Moment) : m.on (found s ms) = m.on s := by
  induction ms generalizing s with
  | nil => rfl
  | cons n ms ih => exact (ih (n.on s)).trans (Moment.on_on n m s)

theorem timing_found (s : Session) (ms : List Moment) : (found s ms).timing = s.timing := by
  induction ms generalizing s with
  | nil => rfl
  | cons m ms ih => exact ih (m.on s)

theorem watch_append (hs : Handshake) (s : Session) (before rest : List Moment)
    (h : Undecided s.timing hs before) :
    hs.watch s (before ++ rest) = (hs.through s.timing before).watch (found s before) rest := by
  induction before generalizing hs s with
  | nil => rfl
  | cons m before ih =>
    have hrest : (hs.after s.timing m).watch (m.on s) (before ++ rest) =
        (hs.through s.timing (m :: before)).watch (found s (m :: before)) rest := ih _ _ h.2
    rw [List.cons_append, watch, advance_undecided h.1, ← hrest]
    by_cases hdue : hs.due ≤ m.now
    · rw [if_pos hdue]
    · rw [if_neg hdue, after, if_neg hdue]

theorem watch_undecided {hs : Handshake} {s : Session} {ms : List Moment}
    (h : Undecided s.timing hs ms) : hs.watch s ms = (found s ms, none) := by
  have hrun := watch_append hs s ms [] h
  rw [List.append_nil] at hrun
  exact hrun

theorem watch_decided {hs : Handshake} {s : Session} {before : List Moment} {m : Moment}
    {e : Ending} (h : Undecided s.timing hs before)
    (he : (hs.through s.timing before).Decides s.timing m e) (rest : List Moment) :
    ∃ t r, hs.watch s (before ++ m :: rest) = (t, some r) ∧ e.Concludes hs.request (m.on s) t r := by
  rw [← timing_found s before] at he
  obtain ⟨t, r, hdone, hend⟩ := advance_decided he
  rw [timing_found, on_found] at hdone
  rw [timing_found, on_found, through_request] at hend
  refine ⟨t, r, ?_, hend⟩
  rw [watch_append hs s before _ h, watch, on_found, hdone]

section

variable {hs : Handshake} {t : Timing} {ms : List Moment} {limit : Nat}

theorem after_due {m : Moment} (hlimit : t.handshakeTimeout = some limit)
    (h : ∀ e, ¬ hs.Decides t m e) (hdue : hs.due ≤ hs.started + limit + interval t) :
    (hs.after t m).due ≤ (hs.after t m).started + limit + interval t ∧
      m.now < hs.started + limit + interval t := by
  rw [after_started]
  unfold after
  split
  · next hreached =>
    have hlt := lt_of_undecided hlimit h (answer?_of_undecided h) hreached
    dsimp only
    omega
  · omega

theorem through_due (hlimit : t.handshakeTimeout = some limit) (h : Undecided t hs ms)
    (hdue : hs.due ≤ hs.started + limit + interval t) :
    (hs.through t ms).due ≤ hs.started + limit + interval t ∧
      ∀ m ∈ ms, m.now < hs.started + limit + interval t := by
  induction ms generalizing hs with
  | nil => exact ⟨hdue, by simp⟩
  | cons m ms ih =>
    obtain ⟨hnext, hnow⟩ := after_due hlimit h.1 hdue
    have hrest := ih h.2 hnext
    rw [after_started] at hrest
    exact ⟨hrest.1, List.forall_mem_cons.mpr ⟨hnow, hrest.2⟩⟩

theorem looks_lt (k : Nat) (hlimit : t.handshakeTimeout = some limit) (h : Undecided t hs ms)
    (hdue : hs.started + (k + 1) * interval t ≤ hs.due) :
    looks t hs ms = 0 ∨ (k + looks t hs ms) * interval t < limit := by
  induction ms generalizing hs k with
  | nil => exact .inl rfl
  | cons m ms ih =>
    rw [looks]
    by_cases hreached : hs.due ≤ m.now
    · have hlt := lt_of_undecided hlimit h.1 (answer?_of_undecided h.1) hreached
      have hnext : (hs.after t m).started + (k + 1 + 1) * interval t ≤ (hs.after t m).due := by
        rw [after_started, after, if_pos hreached, Nat.add_mul (k + 1)]
        dsimp only
        omega
      right
      rw [if_pos hreached, ← Nat.add_assoc]
      rcases ih (k + 1) h.2 hnext with hnone | hrest
      · rw [hnone, Nat.add_zero]
        omega
      · exact hrest
    · have hsame : hs.after t m = hs := by rw [after, if_neg hreached]
      have hrest := h.2
      rw [hsame] at hrest
      rw [if_neg hreached, Nat.zero_add, hsame]
      exact ih k hrest hdue

end

/-- The course of a handshake that is advanced at one moment after the other. -/
structure Course (hs : Handshake) (s : Session) (ms : List Moment) : Prop where
  pending : Undecided s.timing hs ms → hs.watch s ms = (found s ms, none)
  single : ∀ w m d e, Decides w s.timing m d → Decides w s.timing m e → d = e
  ends : ∀ before m rest e, ms = before ++ m :: rest → Undecided s.timing hs before →
    (hs.through s.timing before).Decides s.timing m e →
      ∃ t r, hs.watch s ms = (t, some r) ∧ e.Concludes hs.request (m.on s) t r
  apart : ∀ o, (hs.watch s ms).2 = some (.ok o) → ¬ (o.exited = true ∧ o.timedOut = true)
  due : ∀ limit, s.timing.handshakeTimeout = some limit → Undecided s.timing hs ms →
    (hs.through s.timing ms).due ≤ hs.started + limit + interval s.timing
  expired : ∀ limit, s.timing.handshakeTimeout = some limit → ∀ m ∈ ms,
    hs.started + limit + interval s.timing ≤ m.now → (hs.watch s ms).2.isSome
  polls : ∀ limit, s.timing.handshakeTimeout = some limit → 0 < looks s.timing hs ms →
    limit ≤ looks s.timing hs ms * interval s.timing → (hs.watch s ms).2.isSome

theorem Ending.flags {id : Nat} {s t : Session} {o : HandshakeOutcome} {e : Ending}
    (h : e.Concludes id s t (.ok o)) : ¬ (o.exited = true ∧ o.timedOut = true) := by
  have hsame {p : HandshakeOutcome} (heq : (.ok o : Except Fault HandshakeOutcome) = .ok p)
      (hp : ¬ (p.exited = true ∧ p.timedOut = true)) : ¬ (o.exited = true ∧ o.timedOut = true) := by
    cases heq
    exact hp
  cases e with
  | accepted v =>
    cases htakes : s.connection.channel.takes with
    | true => exact hsame (h.1 htakes).1 (by simp)
    | false =>
      obtain ⟨⟨f, hf⟩, -⟩ := h.2 htakes
      cases hf
  | refused => exact hsame h.1 (by simp)
  | gone => exact hsame h.1 (by simp)
  | late => exact hsame h.1 (by simp)

theorem watch_isSome {hs : Handshake} {s : Session} {ms : List Moment}
    (h : ¬ Undecided s.timing hs ms) : (hs.watch s ms).2.isSome := by
  rcases undecided_or s.timing hs ms with hnone | ⟨before, m, rest, e, rfl, hbefore, he⟩
  · exact absurd hnone h
  · obtain ⟨t, r, hwatch, -⟩ := watch_decided hbefore he rest
    rw [hwatch]
    rfl

theorem watch_course (hs : Handshake) (s : Session) (ms : List Moment)
    (hdue : hs.due = hs.started + interval s.timing) : Course hs s ms where
  pending := watch_undecided
  single _ _ _ _ := Decides.unique
  ends := by
    rintro before m rest e rfl hbefore he
    exact watch_decided hbefore he rest
  apart := by
    intro o ho
    rcases undecided_or s.timing hs ms with hnone | ⟨before, m, rest, e, rfl, hbefore, he⟩
    · rw [watch_undecided hnone] at ho
      cases ho
    · obtain ⟨t, r, hwatch, hend⟩ := watch_decided hbefore he rest
      rw [hwatch] at ho
      cases ho
      exact Ending.flags hend
  due limit hlimit h := (through_due hlimit h (by omega)).1
  expired := by
    intro limit hlimit m hm hlate
    refine watch_isSome fun h => ?_
    have hlt := (through_due hlimit h (by omega)).2 m hm
    omega
  polls := by
    intro limit hlimit hlooks hlong
    refine watch_isSome fun h => ?_
    rcases looks_lt 0 hlimit h (by omega) with hnone | hlt
    · omega
    · rw [Nat.zero_add] at hlt
      omega

theorem start_course (h : Host) (processId now : Nat) (s t : Session) (hs : Handshake)
    (ms : List Moment) (hstart : start h processId now s = (t, .ok hs)) :
    hs.started = now ∧ t.connection.pending = s.connection.pending ++ [hs.request] ∧
      Leaves s t [opening h processId s.root hs.request] none ∧ Course hs t ms := by
  unfold start Session.onConnection at hstart
  dsimp only at hstart
  generalize hsend : s.connection.sendRequest "initialize"
    (some (introduction h (some processId) s.root)) = sent at hstart
  obtain ⟨c, r⟩ := sent
  cases r with
  | error f => cases hstart
  | ok id =>
    cases hstart
    obtain ⟨hpending, hchannel⟩ := Connection.sendRequest_ok hsend
    exact ⟨rfl, hpending, ⟨hchannel, by simp⟩, watch_course _ _ ms rfl⟩

theorem start_course_silent :
    let s := Session.start {} 1 ⟨"file:///w", "text/x-foo"⟩ "/w" "server" { process := some {} }
      { handshakeTimeout := some 250 }
    let t := (start {} 7 0 s).1
    let hs : Handshake := ⟨1, 0, 100⟩
    let ms := [100, 200, 300].map fun now => (⟨now, t.connection, .starting⟩ : Moment)
    start {} 7 0 s = (t, .ok hs) ∧
      (hs.started = 0 ∧ t.connection.pending = s.connection.pending ++ [hs.request] ∧
        Leaves s t [opening {} 7 s.root hs.request] none ∧ Course hs t ms) ∧
      (hs.watch t ms).2 = some (.ok { timedOut := true }) := by
  intro s t hs ms
  have hstart : start {} 7 0 s = (t, .ok hs) := rfl
  exact ⟨hstart, start_course {} 7 0 s t hs ms hstart, rfl⟩

end Handshake

end LanguageSessions
