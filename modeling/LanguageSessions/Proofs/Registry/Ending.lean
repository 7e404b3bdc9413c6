import LanguageSessions.Proofs.Registry.Shutdown

namespace LanguageSessions

def Session.isSilent (s : Session) (request : Nat) : Bool :=
  s.connection.pending.contains request && (s.connection.settled.lookup request).isNone &&
    !s.connection.closed && !s.connection.channel.processDead && s.timing.handshakeTimeout.isNone

theorem Handshake.advance_silent {s : Session} {hs : Handshake} (h : s.isSilent hs.request = true)
    (now : Nat) : ∃ a, hs.advance now s = (s, a) ∧
      (a = .idle ∨ ∃ hs' : Handshake, a = .on hs' ∧ hs'.request = hs.request) := by
  simp only [Session.isSilent, Bool.and_eq_true, Bool.not_eq_true', Option.isNone_iff_eq_none] at h
  obtain ⟨⟨⟨⟨hpending, hunanswered⟩, hopen⟩, halive⟩, hunlimited⟩ := h
  have htaken : s.onConnection (·.take? hs.request) = (s, none) := by
    unfold Session.onConnection Connection.take?
    dsimp only
    rw [hunanswered]
    dsimp only
    rw [if_pos hpending]
  unfold advance
  rw [htaken]
  dsimp only
  split
  · have hover : hs.isOver now s.timing = false := by rw [isOver, hunlimited, Option.any_none]
    unfold look
    rw [halive, hopen, hover]
    exact ⟨_, rfl, .inr ⟨_, rfl, rfl⟩⟩
  · exact ⟨_, rfl, .inl rfl⟩

namespace Status

def isStalled (r : Registry) : Status → Bool
  | running (.opening id hs _ _) => (r.session? id).any (·.isSilent hs.request)
  | _ => false

def isPassive : Status → Bool
  | running (.waiting _ _) | replied _ => true
  | _ => false

theorem isStalled_iff {r : Registry} {t : Status} : t.isStalled r = true ↔
    ∃ id hs b lenient s, t = .running (.opening id hs b lenient) ∧ r.session? id = some s ∧
      s.isSilent hs.request = true := by
  constructor
  · intro h
    cases t with
    | replied reply => cases h
    | running c =>
      cases c with
      | opening id hs b lenient =>
        obtain ⟨s, hs', hsilent⟩ := (Option.any_eq_true _ _).mp h
        exact ⟨id, hs, b, lenient, s, rfl, hs', hsilent⟩
      | _ => cases h
  · rintro ⟨id, hs, b, lenient, s, rfl, hs', hsilent⟩
    exact (Option.any_eq_true _ _).mpr ⟨s, hs', hsilent⟩

end Status

namespace Service

variable {σ τ : Service} {m : Nat}

def Act.isQuiet : Act → Bool
  | .ask _ | .advance _ | .pass _ => true
  | _ => false

/-- The call `m` launches a silent server, and all others wait for their turn. -/
structure Stalls (σ : Service) (m : Nat) : Prop where
  launch : ∃ t, σ.calls[m]? = some t ∧ t.isStalled σ.registry = true
  others : ∀ (k : Nat) t, k ≠ m → σ.calls[k]? = some t → t.isPassive = true
  holder : σ.registry.turns.holder = some m

structure Rested (σ τ : Service) : Prop where
  sessions : ∀ id, τ.registry.session? id = σ.registry.session? id
  waits : ∀ (n : Nat) w lenient, σ.calls[n]? = some (.running (.waiting w lenient)) →
    τ.calls[n]? = some (.running (.waiting w lenient))

namespace Stalls

theorem ask (h : σ.Stalls m) (d : Demand) :
    (σ.step (.ask d)).Stalls m ∧ σ.Rested (σ.step (.ask d)) := by
  obtain ⟨t, ht, hstalled⟩ := h.launch
  have hold : ∀ (k : Nat) u, σ.calls[k]? = some u → (σ.step (.ask d)).calls[k]? = some u :=
    fun k u hu => (List.getElem?_append_left (List.getElem?_eq_some_iff.mp hu).1).trans hu
  refine ⟨⟨⟨t, hold m t ht, hstalled⟩, ?_, h.holder⟩, fun _ => rfl, fun n w l hn => hold n _ hn⟩
  intro k u hne hk
  change (σ.calls ++ [d.begin σ.registry])[k]? = _ at hk
  rcases Nat.lt_or_ge k σ.calls.length with hlt | hge
  · rw [List.getElem?_append_left hlt] at hk
    exact h.others k u hne hk
  · rw [List.getElem?_append_right hge] at hk
    have hbegun := List.mem_singleton.mp (List.mem_of_getElem? hk)
    cases u with
    | replied reply => rfl
    | running c =>
      obtain ⟨w, lenient, rfl⟩ := begin_waits _ d hbegun.symm
      rfl

theorem advance_launch (h : σ.Stalls m) :
    (σ.step (.advance m)).Stalls m ∧ σ.Rested (σ.step (.advance m)) := by
  obtain ⟨t, hm, hstalled⟩ := h.launch
  obtain ⟨id, hs, b, lenient, s, rfl, hsession, hsilent⟩ := Status.isStalled_iff.mp hstalled
  obtain ⟨a, hadvance, ha⟩ := Handshake.advance_silent hsilent σ.now
  have hchange : σ.registry.change id (hs.advance σ.now) =
      (σ.registry.modify id fun _ => s, some a) := by
    rw [Registry.change_of_some hsession, hadvance]
  have hsame : ∀ x, (σ.registry.modify id fun _ => s).session? x = σ.registry.session? x := by
    intro x
    rw [Registry.session?_modify _ _ _ _ fun _ _ => Registry.session?_id hsession]
    split
    · next hx =>
      rw [hx, hsession]
      rfl
    · rfl
  obtain ⟨a', hs', hcall, hnext, hrequest⟩ : ∃ a' hs',
      (Call.opening id hs b lenient).advance m σ.now σ.registry =
        (σ.registry.modify id fun _ => s, a') ∧
      Status.next (.opening id hs b lenient) a' = .running (.opening id hs' b lenient) ∧
      hs'.request = hs.request := by
    unfold Call.advance
    dsimp only
    rw [hchange]
    rcases ha with rfl | ⟨hs', rfl, hrequest⟩
    · exact ⟨_, hs, rfl, rfl, rfl⟩
    · exact ⟨_, hs', rfl, rfl, hrequest⟩
  rw [step_advance hm, hcall, hnext]
  refine ⟨⟨⟨_, List.getElem?_set_self (List.getElem?_eq_some_iff.mp hm).1, ?_⟩, ?_, h.holder⟩,
    hsame, ?_⟩
  · exact Status.isStalled_iff.mpr
      ⟨id, hs', b, lenient, s, rfl, (hsame id).trans hsession, hrequest ▸ hsilent⟩
  · intro k u hne hk
    exact h.others k u hne ((List.getElem?_set_ne hne.symm).symm.trans hk)
  · intro n w l hn
    have hne : m ≠ n := by
      rintro rfl
      rw [hm] at hn
      cases hn
    exact (List.getElem?_set_ne hne).trans hn

theorem advance_other (h : σ.Stalls m) {k : Nat} {w : Wish} {lenient : Bool}
    (hk : σ.calls[k]? = some (.running (.waiting w lenient))) :
    (σ.step (.advance k)).Stalls m ∧ σ.Rested (σ.step (.advance k)) := by
  have hbusy : σ.registry.turns.isFree k = false := by
    rw [Turns.isFree, h.holder]
    rfl
  have hcalls : (σ.step (.advance k)).calls = σ.calls := by
    obtain ⟨hlt, heq⟩ := List.getElem?_eq_some_iff.mp hk
    rw [step_advance hk, Call.advance_waits hbusy]
    change σ.calls.set k (.running (.waiting w lenient)) = σ.calls
    rw [← heq, List.set_getElem_self]
  have hsessions : ∀ x, (σ.step (.advance k)).registry.session? x = σ.registry.session? x := by
    intro x
    rw [step_advance hk, Call.advance_waits hbusy]
    rfl
  have hholder : (σ.step (.advance k)).registry.turns.holder = some m := by
    rw [step_advance hk, Call.advance_waits hbusy]
    rcases Turns.enter_busy hbusy with ⟨-, heq⟩ | ⟨-, heq⟩ <;> dsimp only <;> rw [heq] <;>
      exact h.holder
  refine ⟨⟨?_, hcalls ▸ h.others, hholder⟩, hsessions, fun n w' l hn => hcalls ▸ hn⟩
  obtain ⟨t, hm, hstalled⟩ := h.launch
  obtain ⟨id, hs, b, l, s, rfl, hsession, hsilent⟩ := Status.isStalled_iff.mp hstalled
  exact ⟨_, hcalls ▸ hm,
    Status.isStalled_iff.mpr ⟨id, hs, b, l, s, rfl, (hsessions id).trans hsession, hsilent⟩⟩

theorem step (h : σ.Stalls m) {a : Act} (ha : a.isQuiet = true) :
    (σ.step a).Stalls m ∧ σ.Rested (σ.step a) := by
  have hsame : σ.Rested σ := ⟨fun _ => rfl, fun _ _ _ hn => hn⟩
  cases a with
  | ask d => exact h.ask d
  | pass millis => exact ⟨⟨h.launch, h.others, h.holder⟩, hsame.sessions, hsame.waits⟩
  | advance k =>
    by_cases hrunning : ∃ c, σ.calls[k]? = some (.running c)
    · obtain ⟨c, hc⟩ := hrunning
      by_cases hkm : k = m
      · exact hkm ▸ h.advance_launch
      · have hpassive := h.others k _ hkm hc
        cases c with
        | waiting w lenient => exact h.advance_other hc
        | _ => cases hpassive
    · rw [step_over fun c hc => hrunning ⟨c, hc⟩]
      exact ⟨h, hsame⟩
  | _ => cases ha

theorem run (h : σ.Stalls m) (as : List Act) (has : ∀ a ∈ as, a.isQuiet = true) :
    σ.Rested (σ.run as) := by
  induction as generalizing σ with
  | nil => exact ⟨fun _ => rfl, fun _ _ _ hn => hn⟩
  | cons a as ih =>
    obtain ⟨hstalls, hrested⟩ := h.step (has a List.mem_cons_self)
    have hrest := ih hstalls fun b hb => has b (List.mem_cons_of_mem a hb)
    exact ⟨fun x => (hrest.sessions x).trans (hrested.sessions x),
      fun n w l hn => hrest.waits n w l (hrested.waits n w l hn)⟩

end Stalls

/-- How sessions come to their end, whatever has happened to a registry before. -/
structure Endings (r : Registry) (as : List Act) : Prop where
  disposes : ∀ s : Session, s.cleanedUp = false → ∀ now, Disposal.Finishes s now
  shuts : ∀ n lenient, ((new r).run as).calls[n]? = some (.running (.waiting .shutdownAll lenient)) →
    ((new r).run as).ShutsDown n

theorem run_ends (r : Registry) (as : List Act) : Endings r as where
  disposes s hclean now := Disposal.finishes hclean now
  shuts n lenient hc := by
    have hlined := (Lined.new r).run (Sound.new r) as
    exact shutsDown (run_sound (Sound.new r) as) hlined hc

def yard : Registry where
  host := {}
  timing := {}
  providers := []
  contentTypes := {}
  locator := {}
  connect _ _ _ _ := .ok { process := some {} }
  processId := 1

/-- The first server greets, the second one says nothing, and then all sessions are to be shut
down. -/
def deadlock : List Act :=
  [.ask (.attach "/a" ⟨"foo-ls", .socket "127.0.0.1:9998"⟩ ["foo"]), .advance 0,
    .event 1 (.hear (.response { id := some (.number 1), result := some .null })), .advance 0,
    .ask (.attach "/b" ⟨"bar-ls", .socket "127.0.0.1:9999"⟩ ["bar"]), .advance 1,
    .ask .shutdownAll]

theorem yard_stalls : ((new yard).run deadlock).Stalls 1 := by
  have hlaunch : (((new yard).run deadlock).calls[1]?).any
      (Status.isStalled ((new yard).run deadlock).registry) = true := by decide +kernel
  have hothers : ((new yard).run deadlock).calls.map Status.isPassive = [true, false, true] := by
    decide +kernel
  refine ⟨?_, fun k t hk ht => ?_, by decide +kernel⟩
  · obtain ⟨t, ht, hstalled⟩ := (Option.any_eq_true _ _).mp hlaunch
    exact ⟨t, ht, hstalled⟩
  · have hpassive : ([true, false, true])[k]? = some t.isPassive := by
      rw [← hothers, List.getElem?_map, ht]
      rfl
    rcases k with _ | _ | _ | k
    · simpa using hpassive.symm
    · exact absurd rfl hk
    · simpa using hpassive.symm
    · cases hpassive

/-- While a silent server is launched without a limit, a call that shuts all sessions down does not
return, however often it is advanced and however long it takes, and a session that is ready stays
so. -/
theorem launch_keeps_sessions :
    ((new yard).run deadlock).calls[2]? = some (.running (.waiting .shutdownAll false)) ∧
    ((new yard).run deadlock).registry.registered = [1] ∧
    ∀ as, (∀ a ∈ as, a.isQuiet = true) →
      (((new yard).run deadlock).run as).reply? 2 = none ∧
      ∃ s, (((new yard).run deadlock).run as).registry.session? 1 = some s ∧ s.state = .ready ∧
        s.connection.channel.processAlive = true := by
  have hcalls : ((new yard).run deadlock).calls =
      ((new yard).run (deadlock.take 6)).calls ++ [.running (.waiting .shutdownAll false)] := rfl
  have hlength : ((new yard).run (deadlock.take 6)).calls.length = 2 := by decide +kernel
  have hwaits : ((new yard).run deadlock).calls[2]? =
      some (.running (.waiting .shutdownAll false)) := by
    rw [hcalls, ← hlength]
    exact List.getElem?_concat_length
  have hready : (((new yard).run deadlock).registry.session? 1).any (fun s =>
      s.state == .ready && s.connection.channel.processAlive) = true := by decide +kernel
  refine ⟨hwaits, by decide +kernel, fun as has => ?_⟩
  have hrested := yard_stalls.run as has
  obtain ⟨s, hs, hs'⟩ := (Option.any_eq_true _ _).mp hready
  obtain ⟨hstate, halive⟩ := Bool.and_eq_true_iff.mp hs'
  refine ⟨?_, s, (hrested.sessions 1).trans hs, eq_of_beq hstate, halive⟩
  rw [reply?, hrested.waits 2 _ _ hwaits]

end Service

end LanguageSessions
