import LanguageSessions.Proofs.Connection.Answers
import LanguageSessions.Session.Handshake

namespace LanguageSessions

open Connection (Event)

namespace Exchange

theorem start_eq_closed_iff (c : Connection) (method : String) (params : Option Json)
    (millis now : Nat) :
    (Exchange.start c method params millis now).2 = .error .connectionClosed ↔ c.closed = true := by
  rw [← c.sendRequest_eq_closed_iff method params]
  unfold Exchange.start
  split <;> next heq => simp [heq]

theorem advance_eq_closed_iff (x : Exchange) (now : Nat) (c : Connection) :
    (x.advance now c).2 = some (.error .connectionClosed) ↔
      (c.take? x.id).2 = some (.error .connectionClosed) := by
  unfold advance
  split
  · next heq => simp [heq]
  · next heq =>
    rw [heq]
    split <;> simp

end Exchange

namespace Handshake

def looked (hs : Handshake) (s : Session) : Session := (s.onConnection (·.take? hs.request)).1

theorem advance_of_error (hs : Handshake) (now : Nat) (s : Session) (f : Fault)
    (h : (s.connection.take? hs.request).2 = some (.error f)) :
    hs.advance now s =
      if f = .connectionClosed then (hs.looked s, .done (.ok { exited := true }))
      else (accept (hs.looked s) {}, .done (.ok {})) := by
  have hlook : s.onConnection (·.take? hs.request) = (hs.looked s, some (.error f)) := by
    rw [← h]
    rfl
  rw [advance, hlook]
  cases f <;> rfl

theorem finish_not_exited (s : Session) (v : Json) (o : HandshakeOutcome) (h : (finish s v).2 = .ok o) :
    o.exited = false := by
  unfold finish at h
  split at h
  · cases h
    rfl
  · split at h
    · cases h
    · cases h
      rfl

theorem look_exited (hs : Handshake) (now : Nat) (s : Session) (o : HandshakeOutcome)
    (h : (hs.look now s).2 = .done (.ok o)) (hexited : o.exited = true) :
    s.connection.closed = true ∨ s.connection.channel.processDead = true := by
  unfold look at h
  split at h
  · next hgone =>
    rw [Bool.or_eq_true] at hgone
    exact hgone.symm
  · split at h
    · cases h
      cases hexited
    · cases h

theorem advance_exited (hs : Handshake) (now : Nat) (s : Session) (o : HandshakeOutcome)
    (h : (hs.advance now s).2 = .done (.ok o)) (hexited : o.exited = true) :
    (s.connection.take? hs.request).2 = some (.error .connectionClosed) ∨
      s.connection.closed = true ∨ s.connection.channel.processDead = true := by
  have hlook : s.onConnection (·.take? hs.request) =
      (hs.looked s, (s.connection.take? hs.request).2) := rfl
  have hkeeps := s.connection.take?_keeps hs.request
  rw [advance, hlook] at h
  cases hfound : (s.connection.take? hs.request).2 with
  | none =>
    rw [hfound] at h
    dsimp only at h
    right
    rw [← hkeeps.1, ← hkeeps.2]
    split at h
    · exact look_exited hs now _ o h hexited
    · cases h
  | some answer =>
    rw [hfound] at h
    cases answer with
    | ok v =>
      have hnot := finish_not_exited (hs.looked s) v o (Advance.done.inj h)
      rw [hnot] at hexited
      cases hexited
    | error f =>
      by_cases hf : f = .connectionClosed
      · exact .inl (by rw [hf])
      · have hrun := hs.advance_of_error now s f hfound
        rw [advance, hlook, hfound, if_neg hf] at hrun
        rw [hrun] at h
        cases h
        cases hexited

end Handshake

namespace Ledger

/-- What those who wait for answers are told after a run of events on a new connection. -/
structure Told (start : Connection) (es : List Event) (l : Ledger) : Prop where
  refused : ∀ method params, (l.connection.sendRequest method params).2 = .error .connectionClosed ↔
    l.connection.closed = true
  started : ∀ method params millis now,
    (Exchange.start l.connection method params millis now).2 = .error .connectionClosed ↔
      l.connection.closed = true
  failed : ∀ n ∈ l.failed.map Prod.fst, l.connection.closed = true
  lost : ∀ n ∈ l.written, n ∉ start.taken es →
    ((l.connection.take? n).2 = some (.error .connectionClosed) ↔
      n ∈ l.failed.map Prod.fst ∨ n ∈ l.cancelled ∨
        ∃ r e, (n, r) ∈ l.answered ∧ r.error = some e ∧ e.code = connectionClosedCode)
  exchanged : ∀ (x : Exchange) now, (x.advance now l.connection).2 = some (.error .connectionClosed) ↔
    (l.connection.take? x.id).2 = some (.error .connectionClosed)
  rejected : ∀ r n e fs, l.connection.closed = false → n ∈ l.connection.pending → r.Names n →
    r.error = some e → n ∉ (l.step (.hear (.response r))).connection.taken fs →
    (((l.step (.hear (.response r))).run fs).connection.take? n).2 =
      some (.error
        (if e.code = connectionClosedCode then .connectionClosed else .server e.code e.message))
  degraded : ∀ (s : Session) (hs : Handshake) now r e, s.connection = l.connection →
    (hs.request, r) ∈ l.answered → hs.request ∉ start.taken es → r.error = some e →
    hs.advance now s =
      if e.code = connectionClosedCode then (hs.looked s, .done (.ok { exited := true }))
      else (Handshake.accept (hs.looked s) {}, .done (.ok {}))
  exited : ∀ (s : Session) (hs : Handshake) now o, s.connection = l.connection →
    hs.request ∈ l.written → hs.request ∉ l.cancelled → hs.request ∉ start.taken es →
    (hs.advance now s).2 = .done (.ok o) → o.exited = true →
    s.connection.closed = true ∨ s.connection.channel.processDead = true ∨
      ∃ r e, (hs.request, r) ∈ l.answered ∧ r.error = some e ∧ e.code = connectionClosedCode

theorem Sound.closed_of_failed {l : Ledger} (h : l.Sound) (n : Nat) (hn : n ∈ l.failed.map Prod.fst) :
    l.connection.closed = true := by
  by_contra hopen
  rw [h.open_of_failed (Bool.eq_false_iff.mpr hopen)] at hn
  cases hn

theorem Sound.rejected {l : Ledger} (h : l.Sound) (r : Response) (n : Nat) (e : ResponseError)
    (fs : List Event) (hopen : l.connection.closed = false) (hn : n ∈ l.connection.pending)
    (hr : r.Names n) (he : r.error = some e)
    (huntaken : n ∉ (l.step (.hear (.response r))).connection.taken fs) :
    (((l.step (.hear (.response r))).run fs).connection.take? n).2 =
      some (.error
        (if e.code = connectionClosedCode then .connectionClosed else .server e.code e.message)) := by
  have hsettled : (n, r) ∈ (l.step (.hear (.response r))).connection.settled := by
    rw [step_connection, Connection.step, if_neg (Bool.eq_false_iff.mp hopen), Connection.receive,
      Connection.settle_of_names _ r n hr hn]
    exact List.mem_append_right _ List.mem_cons_self
  have hlater : (n, r) ∈ ((l.step (.hear (.response r))).run fs).connection.settled := by
    rw [run_connection]
    rcases Connection.settled_run _ fs (n, r) hsettled with hs | hs
    · exact hs
    · exact absurd hs huntaken
  rw [((h.step _).run fs).take?_of_settled hlater, Connection.outcome_of_error r e he]

theorem run_told (h : Host) (name root : String) (channel : Channel) (logging : Bool)
    (es : List Event) :
    Told (.ofChannel h name root channel logging) es
      (({ connection := .ofChannel h name root channel logging } : Ledger).run es) := by
  have hs : (({ connection := .ofChannel h name root channel logging } : Ledger).run es).Sound :=
    (Sound.start rfl rfl rfl).run es
  have hkept := resolved_run { connection := .ofChannel h name root channel logging } es
  generalize Connection.ofChannel h name root channel logging = start at hs hkept
  generalize ({ connection := start } : Ledger).run es = l at hs hkept
  have huntaken : ∀ n, n ∉ start.taken es → ∀ r, (n, r) ∈ l.resolved → (n, r) ∈ l.connection.settled := by
    intro n hn r hr
    rcases hkept (n, r) hr with hnone | hsettled | htaken
    · cases hnone
    · exact hsettled
    · exact absurd htaken hn
  exact {
    refused := l.connection.sendRequest_eq_closed_iff
    started := Exchange.start_eq_closed_iff l.connection
    failed := hs.closed_of_failed
    lost := fun n hn hfree => hs.take?_eq_closed_iff hn (huntaken n hfree)
    exchanged := fun x now => x.advance_eq_closed_iff now l.connection
    rejected := hs.rejected
    degraded := by
      intro s w now r e hsame hr hfree he
      have hsettled := huntaken w.request hfree r (List.mem_append_left _ hr)
      have hfound : (s.connection.take? w.request).2 = some (.error
          (if e.code = connectionClosedCode then .connectionClosed else .server e.code e.message)) := by
        rw [hsame, hs.take?_of_settled hsettled, Connection.outcome_of_error r e he]
      rw [w.advance_of_error now s _ hfound]
      by_cases hc : e.code = connectionClosedCode
      · rw [if_pos hc, if_pos hc, if_pos rfl]
      · rw [if_neg hc, if_neg hc, if_neg (by rintro ⟨⟩)]
    exited := by
      intro s w now o hsame hwritten hcancelled hfree hdone hexited
      rcases w.advance_exited now s o hdone hexited with hlost | hclosed | hdead
      · rw [hsame] at hlost
        rcases (hs.take?_eq_closed_iff hwritten (huntaken _ hfree)).mp hlost with hf | hc | hcode
        · exact .inl (hsame ▸ hs.closed_of_failed _ hf)
        · exact absurd hc hcancelled
        · exact .inr (.inr hcode)
      · exact .inl hclosed
      · exact .inr (.inl hdead) }

end Ledger

namespace Handshake

/-- A server that answers the opening request with that one code passes for gone, to who waits for
the request and to the handshake, though its connection is open and its process lives. -/
theorem open_connection_exits :
    let c := (Connection.ofChannel {} "server" "/w" { process := some {} } false).run
      [.send "initialize" none,
        .hear (.response (.failure (some (.number 1)) connectionClosedCode "closed"))]
    let s : Session :=
      { id := 1, key := ⟨"file:///w", "text/x-foo"⟩, root := "/w", server := "server",
        connection := c, timing := {} }
    c.closed = false ∧ c.channel.processAlive = true ∧
      (c.take? 1).2 = some (.error .connectionClosed) ∧
        ((⟨1, 0, 100⟩ : Handshake).advance 0 s).2 = .done (.ok { exited := true }) :=
  ⟨rfl, rfl, rfl, rfl⟩

end Handshake

end LanguageSessions
