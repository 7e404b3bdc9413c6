import LanguageSessions.Proofs.Session.Strides

/-!
A `dispose` in time. Between its strides the server answers, falls silent or dies, other users of
the connection come and go, and other calls on the same session take strides of their own. What the
call writes and does is recorded on the way; at its end the record is that of a session that is over
(`Kept.finished`).
-/
namespace LanguageSessions

structure Attempt where
  time : Nat
  message : Message
  taken : Bool

structure Disposal where
  session : Session
  stage : Stage := .ready .dispose
  now : Nat
  deadline : Nat := 0
  due : Nat := 0
  sent : List Message := []
  attempts : List Attempt := []
  gaveUp : Option Nat := none
  looks : List (Nat × Bool) := []
  kills : Nat := 0

namespace Disposal

inductive Act where
  | go
  | pass (millis : Nat)
  | event (e : Connection.Event)
  | other (greeting : Json) (g : Stage) (late : Bool)

def limit (D : Disposal) : Nat :=
  match D.stage with
  | .closed _ => D.now + D.session.timing.exitWait
  | _ => D.deadline

def rests (D : Disposal) : Bool :=
  match D.stage with
  | .exiting => decide (D.now < D.due)
  | _ => false

def isUnanswered (D : Disposal) : Bool :=
  match D.stage with
  | .waiting _ id => (D.session.connection.take? id).2.isNone && decide (D.deadline ≤ D.now)
  | _ => false

def stride (D : Disposal) : Stride := D.stage.step .null (decide (D.limit ≤ D.now)) D.session

def after (D : Disposal) (e : Stride) : Disposal where
  session := e.session
  stage := e.stage
  now := D.now
  deadline := match D.stage with
    | .writing _ _ => D.now + D.session.timing.shutdownTimeout
    | _ => D.limit
  due := D.now + exitPoll
  sent := D.sent ++ e.wrote
  attempts := D.attempts ++ D.stage.message?.toList.map fun m =>
    ⟨D.now, m, D.session.connection.channel.takes⟩
  gaveUp := if D.isUnanswered then some D.now else D.gaveUp
  looks := D.looks ++
    if D.stage.looks then D.session.process.toList.map fun p => (D.now, p.alive) else []
  kills := D.kills + (e.session.killCount - D.session.killCount)

def go (D : Disposal) : Disposal := if D.rests then D else D.after D.stride

def step (D : Disposal) : Act → Disposal
  | .go => D.go
  | .pass millis => { D with now := D.now + millis }
  | .event e => { D with session := { D.session with connection := D.session.connection.step e } }
  | .other greeting g late => { D with session := (g.step greeting late D.session).session }

def run (D : Disposal) (as : List Act) : Disposal := as.foldl step D

theorem run_append (D : Disposal) (as bs : List Act) : D.run (as ++ bs) = (D.run as).run bs :=
  List.foldl_append

def start (s : Session) (now : Nat) : Disposal := ({ session := s, now := now } : Disposal).go

def request (s : Session) : Message :=
  .request { id := .number s.connection.nextId, method := "shutdown", params := none }

def cancellation (s : Session) : Message :=
  .notification { method := "$/cancelRequest"
                  params := some (.object [("id", .nat s.connection.nextId)]) }

def farewell : Message := .notification { method := "exit", params := none }

/-- What a `dispose` of a session set out to write so far, where it comes to `last`. -/
structure Talk (s : Session) (last : List Message) (attempts : List Attempt)
    (gaveUp : Option Nat) : Prop where
  messages : attempts.map Attempt.message =
    if s.isAlive then
      (if s.connection.closed then [] else [request s]) ++
        (if gaveUp.isSome then [cancellation s] else []) ++ last
    else []
  gaveUp : ∀ t, gaveUp = some t → ∃ t₀ rest, attempts = ⟨t₀, request s, true⟩ :: rest ∧
    t₀ + s.timing.shutdownTimeout ≤ t

structure Watching (s : Session) (deadline : Nat) (looks : List (Nat × Bool)) : Prop where
  counted : ∀ l, looks.head? = some l → deadline = l.1 + s.timing.exitWait
  early : ∀ l ∈ looks, l.2 = true ∧ l.1 < deadline

structure Watched (s : Session) (deadline : Nat) (looks : List (Nat × Bool)) (kills : Nat) :
    Prop where
  seen : s.process.isNone = false → looks ≠ []
  counted : ∀ l, looks.head? = some l → deadline = l.1 + s.timing.exitWait
  early : ∀ l ∈ looks.dropLast, l.2 = true ∧ l.1 < deadline
  kills : (kills = 1 ∧ ∃ l, looks.getLast? = some l ∧ l.2 = true ∧ deadline ≤ l.1) ∨
    kills = 0 ∧ ∀ l, looks.getLast? = some l → l.2 = false

/-- How far a `dispose` of a session has got, and with what. -/
inductive Phase (s : Session) (D : Disposal) : Prop
  | asking (stage : D.stage = .writing (.cleanup true) s.connection.nextId)
      (alive : s.isAlive = true) (opened : s.connection.closed = false)
      (attempts : D.attempts = []) (gaveUp : D.gaveUp = none)
      (unseen : D.looks = [] ∧ D.kills = 0)
  | awaiting (t₀ : Nat) (stage : D.stage = .waiting (.cleanup true) s.connection.nextId)
      (alive : s.isAlive = true) (opened : s.connection.closed = false)
      (attempts : D.attempts = [⟨t₀, request s, true⟩]) (gaveUp : D.gaveUp = none)
      (deadline : D.deadline = t₀ + s.timing.shutdownTimeout)
      (unseen : D.looks = [] ∧ D.kills = 0)
  | cancelling (t₀ t : Nat) (stage : D.stage = .cancelling (.cleanup true) s.connection.nextId)
      (alive : s.isAlive = true) (opened : s.connection.closed = false)
      (attempts : D.attempts = [⟨t₀, request s, true⟩]) (gaveUp : D.gaveUp = some t)
      (late : t₀ + s.timing.shutdownTimeout ≤ t) (unseen : D.looks = [] ∧ D.kills = 0)
  | departing (stage : D.stage = .departing) (alive : s.isAlive = true)
      (talk : Talk s [] D.attempts D.gaveUp) (unseen : D.looks = [] ∧ D.kills = 0)
  | closing (stage : D.stage = .closing true) (talk : Talk s [farewell] D.attempts D.gaveUp)
      (unseen : D.looks = [] ∧ D.kills = 0)
  | closed (stage : D.stage = .closed true) (talk : Talk s [farewell] D.attempts D.gaveUp)
      (finished : D.session.connection.channel.finished = true)
      (unseen : D.looks = [] ∧ D.kills = 0)
  | exiting (stage : D.stage = .exiting) (talk : Talk s [farewell] D.attempts D.gaveUp)
      (finished : D.session.connection.channel.finished = true)
      (seen : D.looks ≠ []) (process : s.process.isNone = false)
      (watching : Watching s D.deadline D.looks) (kills : D.kills = 0)
  | ended (stage : D.stage = .ended) (talk : Talk s [farewell] D.attempts D.gaveUp)
      (finished : D.session.connection.channel.finished = true) (ended : D.session.Ended)
      (watched : Watched s D.deadline D.looks D.kills)

structure Kept (s : Session) (D : Disposal) : Prop where
  timing : D.session.timing = s.timing
  process : D.session.process.isNone = s.process.isNone
  sent : D.sent = (D.attempts.filter Attempt.taken).map Attempt.message
  phase : Phase s D

variable {s t : Session} {D : Disposal}

theorem Phase.meanwhile (h : Phase s D) {wrote : List Message} (ht : D.session.Onward t wrote)
    (now : Nat) : Phase s { D with session := t, now := now } := by
  have hfinished := fun hd => (ht.connection.finished hd).1
  cases h with
  | asking stage alive opened attempts gaveUp unseen =>
    exact .asking stage alive opened attempts gaveUp unseen
  | awaiting t₀ stage alive opened attempts gaveUp deadline unseen =>
    exact .awaiting t₀ stage alive opened attempts gaveUp deadline unseen
  | cancelling t₀ t₁ stage alive opened attempts gaveUp late unseen =>
    exact .cancelling t₀ t₁ stage alive opened attempts gaveUp late unseen
  | departing stage alive talk unseen => exact .departing stage alive talk unseen
  | closing stage talk unseen => exact .closing stage talk unseen
  | closed stage talk finished unseen => exact .closed stage talk (hfinished finished) unseen
  | exiting stage talk finished seen process watching kills =>
    exact .exiting stage talk (hfinished finished) seen process watching kills
  | ended stage talk finished ended watched =>
    exact .ended stage talk (hfinished finished) (ht.ended ended) watched

theorem Kept.meanwhile (h : Kept s D) {wrote : List Message} (ht : D.session.Onward t wrote)
    (htiming : t.timing = D.session.timing) (now : Nat) :
    Kept s { D with session := t, now := now } :=
  ⟨htiming.trans h.timing, ht.connection.process.trans h.process, h.sent, h.phase.meanwhile ht now⟩

theorem killCount_congr (h : t.process = s.process) : t.killCount = s.killCount := by
  rw [Session.killCount, h, Session.killCount]

theorem killCount_killProcess (h : s.processAlive = true) :
    s.killProcess.killCount = s.killCount + 1 := by
  unfold Session.processAlive Channel.processAlive at h
  unfold Session.killProcess Session.killCount Session.process Channel.kill
  cases hp : s.connection.channel.process with
  | none => simp [hp] at h
  | some p => simp

namespace Talk

variable {attempts : List Attempt} {gaveUp : Option Nat}

theorem gone (h : s.isAlive = false) (last : List Message) : Talk s last [] none where
  messages := by
    rw [h, if_neg Bool.false_ne_true]
    rfl
  gaveUp := by rintro t ⟨⟩

theorem unasked (halive : s.isAlive = true) (hclosed : s.connection.closed = true) :
    Talk s [] [] none where
  messages := by simp [halive, hclosed]
  gaveUp := by rintro t ⟨⟩

theorem asked (halive : s.isAlive = true) (hopen : s.connection.closed = false) (t₀ : Nat)
    (taken : Bool) : Talk s [] [⟨t₀, request s, taken⟩] none where
  messages := by simp [halive, hopen]
  gaveUp := by rintro t ⟨⟩

theorem cancelled (halive : s.isAlive = true) (hopen : s.connection.closed = false) {t₀ t₁ : Nat}
    (hlate : t₀ + s.timing.shutdownTimeout ≤ t₁) (t₂ : Nat) (taken : Bool) :
    Talk s [] [⟨t₀, request s, true⟩, ⟨t₂, cancellation s, taken⟩] (some t₁) where
  messages := by simp [halive, hopen]
  gaveUp := by
    rintro t ⟨⟩
    exact ⟨t₀, _, rfl, hlate⟩

theorem farewell (h : Talk s [] attempts gaveUp) (halive : s.isAlive = true) (t₀ : Nat)
    (taken : Bool) :
    Talk s [Disposal.farewell] (attempts ++ [⟨t₀, Disposal.farewell, taken⟩]) gaveUp where
  messages := by
    have hbefore := h.messages
    rw [if_pos halive, List.append_nil] at hbefore
    rw [if_pos halive, List.map_append, hbefore, List.map_singleton]
  gaveUp t ht := by
    obtain ⟨t₁, rest, hfirst, hlate⟩ := h.gaveUp t ht
    exact ⟨t₁, rest ++ [⟨t₀, Disposal.farewell, taken⟩], by rw [hfirst, List.cons_append], hlate⟩

end Talk

theorem after_unseen (hlooks : D.stage.looks = false) (h : D.looks = [] ∧ D.kills = 0) {e : Stride}
    (he : e.session.process = D.session.process) :
    (D.after e).looks = [] ∧ (D.after e).kills = 0 := by
  simp [after, hlooks, h.1, h.2, killCount_congr he]

theorem after_attempts (h : D.stage.message? = none) (e : Stride) :
    (D.after e).attempts = D.attempts := by
  simp [after, h]

theorem after_attempts_concat {m : Message} (h : D.stage.message? = some m) (e : Stride) :
    (D.after e).attempts = D.attempts ++ [⟨D.now, m, D.session.connection.channel.takes⟩] := by
  simp [after, h]

theorem after_gaveUp (h : D.isUnanswered = false) (e : Stride) : (D.after e).gaveUp = D.gaveUp := by
  simp [after, h]

theorem after_deadline (h : ∀ p id, D.stage ≠ .writing p id) (e : Stride) :
    (D.after e).deadline = D.limit := by
  cases hstage : D.stage with
  | writing p id => exact absurd hstage (h p id)
  | _ => simp [after, hstage]

namespace Watching

variable {limit now : Nat} {looks : List (Nat × Bool)}

theorem counted_concat (h : Watching s limit looks)
    (hfirst : looks = [] → limit = now + s.timing.exitWait) (b : Bool) :
    ∀ l, (looks ++ [(now, b)]).head? = some l → limit = l.1 + s.timing.exitWait := by
  intro l hl
  cases looks with
  | nil =>
    obtain rfl : (now, b) = l := by simpa using hl
    exact hfirst rfl
  | cons l₀ rest => exact h.counted l hl

theorem alive (h : Watching s limit looks) (hfirst : looks = [] → limit = now + s.timing.exitWait)
    (hearly : now < limit) : Watching s limit (looks ++ [(now, true)]) where
  counted := h.counted_concat hfirst true
  early l hl := by
    rcases List.mem_append.mp hl with hl | hl
    · exact h.early l hl
    · rw [List.mem_singleton.mp hl]
      exact ⟨rfl, hearly⟩

theorem dead (h : Watching s limit looks) (hfirst : looks = [] → limit = now + s.timing.exitWait) :
    Watched s limit (looks ++ [(now, false)]) 0 where
  seen _ := List.concat_ne_nil _ _
  counted := h.counted_concat hfirst false
  early := by
    rw [List.dropLast_concat]
    exact h.early
  kills := .inr ⟨rfl, by simp⟩

theorem killed (h : Watching s limit looks)
    (hfirst : looks = [] → limit = now + s.timing.exitWait) (hlate : limit ≤ now) :
    Watched s limit (looks ++ [(now, true)]) 1 where
  seen _ := List.concat_ne_nil _ _
  counted := h.counted_concat hfirst true
  early := by
    rw [List.dropLast_concat]
    exact h.early
  kills := .inl ⟨rfl, (now, true), List.getLast?_concat, rfl, hlate⟩

end Watching

theorem Watched.absent {limit : Nat} (h : s.process.isNone = true) : Watched s limit [] 0 where
  seen hs := by
    rw [h] at hs
    cases hs
  counted := by rintro l ⟨⟩
  early := by rintro l ⟨⟩
  kills := .inr ⟨rfl, by rintro l ⟨⟩⟩

theorem phase_linger (hstage : D.stage = .closed true ∨ D.stage = .exiting)
    (htalk : Talk s [farewell] D.attempts D.gaveUp)
    (hfinished : D.session.connection.channel.finished = true)
    (hprocess : D.session.process.isNone = s.process.isNone)
    (hwatching : Watching s D.limit D.looks)
    (hfirst : D.looks = [] → D.limit = D.now + s.timing.exitWait)
    (hnone : s.process.isNone = true → D.looks = []) (hkills : D.kills = 0) :
    Phase s (D.after (Stage.linger (decide (D.limit ≤ D.now)) D.session)) := by
  have htalk' : ∀ e, Talk s [farewell] (D.after e).attempts (D.after e).gaveUp := by
    intro e
    rcases hstage with hstage | hstage <;>
      simpa [after, hstage, Stage.message?, isUnanswered] using htalk
  have hdeadline := D.after_deadline (by rcases hstage with hstage | hstage <;> simp [hstage])
  have hlooks : ∀ e, (D.after e).looks =
      D.looks ++ D.session.process.toList.map fun p => (D.now, p.alive) := by
    intro e
    rcases hstage with hstage | hstage <;> simp [after, hstage, Stage.looks]
  have hcount : ∀ e : Stride, (D.after e).kills = e.session.killCount - D.session.killCount := by
    intro e
    simp [after, hkills]
  rcases Stage.linger_cases (decide (D.limit ≤ D.now)) D.session with
    ⟨hdead, heq⟩ | ⟨halive, hlate, heq⟩ | ⟨halive, hearly, heq⟩
  · rw [heq]
    have hkept : (Cleanup.terminated D.session).killCount - D.session.killCount = 0 :=
      Nat.sub_self _
    refine .ended rfl (htalk' _) hfinished ⟨rfl, hdead⟩ ?_
    rw [hdeadline, hlooks, hcount, hkept]
    cases hp : D.session.process with
    | none =>
      have habsent : s.process.isNone = true := by
        rw [← hprocess, hp]
        rfl
      rw [hnone habsent]
      exact .absent habsent
    | some p =>
      have hp' : p.alive = false := by
        change D.session.process.any Process.alive = false at hdead
        rwa [hp] at hdead
      rw [Option.toList_some, List.map_singleton, hp']
      exact hwatching.dead hfirst
  all_goals
    -- there is a process, as it is alive
    obtain ⟨p, hp, hp'⟩ : ∃ p, D.session.process = some p ∧ p.alive = true :=
      (Option.any_eq_true _ _).mp halive
  · rw [heq]
    have hended : (Cleanup.terminated D.session.killProcess).Ended :=
      ⟨rfl, D.session.connection.channel.kill_processAlive⟩
    have hkilled := ((Session.Onward.killProcess D.session).connection.finished hfinished).1
    have hone : (Cleanup.terminated D.session.killProcess).killCount - D.session.killCount = 1 := by
      have hkill := killCount_killProcess halive
      change D.session.killProcess.killCount - _ = _
      omega
    refine .ended rfl (htalk' _) hkilled hended ?_
    rw [hdeadline, hlooks, hcount, hone, hp, Option.toList_some, List.map_singleton, hp']
    exact hwatching.killed hfirst (of_decide_eq_true hlate)
  · rw [heq]
    have hearly' : D.now < D.limit := by simpa using hearly
    refine .exiting rfl (htalk' _) hfinished ?_ ?_ ?_ ?_
    · rw [hlooks, hp]
      exact List.concat_ne_nil _ _
    · rw [← hprocess, hp]
      rfl
    · rw [hdeadline, hlooks, hp, Option.toList_some, List.map_singleton, hp']
      exact hwatching.alive hfirst hearly'
    · rw [hcount]
      exact Nat.sub_self _

theorem phase_writing (stage : D.stage = .writing (.cleanup true) s.connection.nextId)
    (alive : s.isAlive = true) (opened : s.connection.closed = false) (attempts : D.attempts = [])
    (gaveUp : D.gaveUp = none) (unseen : D.looks = [] ∧ D.kills = 0)
    (htiming : D.session.timing = s.timing) : Phase s (D.after D.stride) := by
  have hunanswered : D.isUnanswered = false := by rw [isUnanswered, stage]
  have hunseen := fun e => D.after_unseen (e := e) (by rw [stage]; rfl) unseen
  have hmessage : D.stage.message? = some (request s) := by rw [stage]; rfl
  rcases Stage.step_writing s.connection.nextId (decide (D.limit ≤ D.now)) D.session with
    ⟨htakes, hstride⟩ | ⟨htakes, hstride⟩
  · rw [stride, stage, hstride]
    apply Phase.awaiting D.now rfl alive opened
    · rw [after_attempts_concat hmessage, attempts, htakes, List.nil_append]
    · rw [after_gaveUp hunanswered, gaveUp]
    · simp [Disposal.after, stage, htiming]
    · exact hunseen _ (D.session.connection.write_process _)
  · rw [stride, stage, hstride]
    apply Phase.departing rfl alive
    · rw [after_attempts_concat hmessage, after_gaveUp hunanswered, attempts, gaveUp]
      exact .asked alive opened _ _
    · exact hunseen _ rfl

theorem phase_waiting {t₀ : Nat} (stage : D.stage = .waiting (.cleanup true) s.connection.nextId)
    (alive : s.isAlive = true) (opened : s.connection.closed = false)
    (attempts : D.attempts = [⟨t₀, request s, true⟩]) (gaveUp : D.gaveUp = none)
    (deadline : D.deadline = t₀ + s.timing.shutdownTimeout) (unseen : D.looks = [] ∧ D.kills = 0) :
    Phase s (D.after D.stride) := by
  have hunseen := fun e => D.after_unseen (e := e) (by rw [stage]; rfl) unseen
  have hmessage : D.stage.message? = none := by rw [stage]; rfl
  have hlimit : D.limit = D.deadline := by rw [limit, stage]
  rcases Stage.step_waiting s.connection.nextId (decide (D.limit ≤ D.now)) D.session with
    ⟨hanswered, hstride⟩ | ⟨hnone, hstride⟩
  · have hunanswered : D.isUnanswered = false := by simp [isUnanswered, stage, hanswered]
    rw [stride, stage, hstride]
    apply Phase.departing rfl alive
    · rw [after_attempts hmessage, after_gaveUp hunanswered, attempts, gaveUp]
      exact .asked alive opened _ _
    · exact hunseen _ (D.session.connection.take?_process _)
  · rw [stride, stage, hstride]
    by_cases hlate : D.deadline ≤ D.now
    · have hunanswered : D.isUnanswered = true := by simp [isUnanswered, stage, hnone, hlate]
      rw [if_pos (by simpa [hlimit] using hlate)]
      apply Phase.cancelling t₀ D.now rfl alive opened
      · rw [after_attempts hmessage, attempts]
      · simp [Disposal.after, hunanswered]
      · exact deadline ▸ hlate
      · exact hunseen _ rfl
    · have hunanswered : D.isUnanswered = false := by simp [isUnanswered, stage, hlate]
      rw [if_neg (by simpa [hlimit] using hlate)]
      apply Phase.awaiting t₀ rfl alive opened
      · rw [after_attempts hmessage, attempts]
      · rw [after_gaveUp hunanswered, gaveUp]
      · rw [after_deadline (by simp [stage]), hlimit, deadline]
      · exact hunseen _ rfl

theorem Phase.after (h : Phase s D) (htiming : D.session.timing = s.timing)
    (hprocess : D.session.process.isNone = s.process.isNone) : Phase s (D.after D.stride) := by
  cases h with
  | asking stage alive opened attempts gaveUp unseen =>
    exact phase_writing stage alive opened attempts gaveUp unseen htiming
  | awaiting t₀ stage alive opened attempts gaveUp deadline unseen =>
    exact phase_waiting stage alive opened attempts gaveUp deadline unseen
  | cancelling t₀ t₁ stage alive opened attempts gaveUp late unseen =>
    have hunanswered : D.isUnanswered = false := by rw [isUnanswered, stage]
    have hmessage : D.stage.message? = some (cancellation s) := by rw [stage]; rfl
    rw [stride, stage, Stage.step_cancelling]
    apply Phase.departing rfl alive
    · rw [after_attempts_concat hmessage, after_gaveUp hunanswered, attempts, gaveUp]
      exact .cancelled alive opened late _ _
    · exact after_unseen (by rw [stage]; rfl) unseen (D.session.connection.write_process _)
  | departing stage alive talk unseen =>
    have hunanswered : D.isUnanswered = false := by rw [isUnanswered, stage]
    have hmessage : D.stage.message? = some farewell := by rw [stage]; rfl
    rw [stride, stage, Stage.step_departing]
    apply Phase.closing rfl
    · rw [after_attempts_concat hmessage, after_gaveUp hunanswered]
      exact talk.farewell alive _ _
    · exact after_unseen (by rw [stage]; rfl) unseen (D.session.connection.write_process _)
  | closing stage talk unseen =>
    have hunanswered : D.isUnanswered = false := by rw [isUnanswered, stage]
    have hmessage : D.stage.message? = none := by rw [stage]; rfl
    rw [stride, stage]
    apply Phase.closed rfl
    · rw [after_attempts hmessage, after_gaveUp hunanswered]
      exact talk
    · rfl
    · exact after_unseen (by rw [stage]; rfl) unseen rfl
  | closed stage talk finished unseen =>
    have hlimit : D.limit = D.now + s.timing.exitWait := by rw [limit, stage, htiming]
    rw [stride, stage]
    apply phase_linger (.inl stage) talk finished hprocess
    · rw [unseen.1]
      exact ⟨by simp, by simp⟩
    · exact fun _ => hlimit
    · exact fun _ => unseen.1
    · exact unseen.2
  | exiting stage talk finished seen process watching kills =>
    have hlimit : D.limit = D.deadline := by rw [limit, stage]
    rw [stride, stage]
    apply phase_linger (.inr stage) talk finished hprocess (hlimit ▸ watching)
    · exact fun h => absurd h seen
    · intro h
      rw [h] at process
      cases process
    · exact kills
  | ended stage talk finished ended watched =>
    have hunanswered : D.isUnanswered = false := by rw [isUnanswered, stage]
    have hmessage : D.stage.message? = none := by rw [stage]; rfl
    rw [stride, stage]
    refine .ended rfl ?_ finished ended ?_
    · rw [after_attempts hmessage, after_gaveUp hunanswered]
      exact talk
    · simpa [Disposal.after, Stage.step, stage, Stage.looks, limit] using watched

theorem Phase.wrote (h : Phase s D) : D.stride.wrote =
    if D.session.connection.channel.takes then D.stage.message?.toList else [] := by
  have hsilent : ∀ e : Stride, e.wrote = [] → e.wrote =
      if D.session.connection.channel.takes then (none : Option Message).toList else [] := by
    intro e he
    rw [he]
    split <;> rfl
  cases h with
  | asking stage =>
    rcases Stage.step_writing s.connection.nextId (decide (D.limit ≤ D.now)) D.session with
      ⟨htakes, hstride⟩ | ⟨htakes, hstride⟩ <;> rw [stride, stage, hstride, htakes] <;> rfl
  | awaiting t₀ stage =>
    rw [stride, stage]
    apply hsilent
    rcases Stage.step_waiting s.connection.nextId (decide (D.limit ≤ D.now)) D.session with
      ⟨-, hstride⟩ | ⟨-, hstride⟩
    · rw [hstride]
    · rw [hstride]
      split <;> rfl
  | cancelling t₀ t₁ stage =>
    rw [stride, stage, Stage.step_cancelling]
    rfl
  | departing stage =>
    rw [stride, stage, Stage.step_departing]
    rfl
  | closing stage =>
    rw [stride, stage]
    exact hsilent _ rfl
  | closed stage | exiting stage =>
    rw [stride, stage]
    apply hsilent
    rcases Stage.linger_cases (decide (D.limit ≤ D.now)) D.session with
      ⟨-, hstride⟩ | ⟨-, -, hstride⟩ | ⟨-, -, hstride⟩ <;> exact congrArg Stride.wrote hstride
  | ended stage =>
    rw [stride, stage]
    exact hsilent _ rfl

/-- What a stride of a call takes down as written is what it puts on the channel. The stride that
kills the process, which takes the channel with it, writes nothing. -/
structure Writes (D E : Disposal) (wrote : List Message) : Prop where
  sent : E.sent = D.sent ++ wrote
  outgoing : E.kills = D.kills → E.session.connection.channel.outgoing =
    D.session.connection.channel.outgoing ++ wrote.map Message.text
  killed : E.kills ≠ D.kills → wrote = []

namespace Writes

theorem refl (D : Disposal) : Writes D D [] :=
  ⟨(List.append_nil _).symm, fun _ => (List.append_nil _).symm, fun _ => rfl⟩

theorem of_silent {e : Stride} (hwrote : e.wrote = [])
    (houtgoing : e.session.connection.channel.outgoing = D.session.connection.channel.outgoing) :
    Writes D (D.after e) e.wrote where
  sent := rfl
  outgoing _ := by
    rw [hwrote, List.map_nil, List.append_nil]
    exact houtgoing
  killed _ := hwrote

theorem of_write {e : Stride} (m : Message)
    (hwrote : e.wrote = if D.session.connection.channel.takes then [m] else [])
    (hconnection : e.session.connection = (D.session.connection.write m).1) :
    Writes D (D.after e) e.wrote where
  sent := rfl
  outgoing _ := by
    change e.session.connection.channel.outgoing = _
    rw [hconnection, Connection.write_eq, hwrote]
    split <;> rfl
  killed hkills := by
    have hprocess : e.session.process = D.session.process := by
      rw [Session.process, hconnection, Connection.write_process, Session.process]
    exact absurd (by simp [after, killCount_congr hprocess]) hkills

theorem of_killed {e : Stride} (hwrote : e.wrote = [])
    (hkilled : D.session.killCount < e.session.killCount) : Writes D (D.after e) e.wrote where
  sent := rfl
  outgoing hkills := by
    have hmore : (D.after e).kills = D.kills + (e.session.killCount - D.session.killCount) := rfl
    omega
  killed _ := hwrote

theorem linger (D : Disposal) (late : Bool) :
    Writes D (D.after (Stage.linger late D.session)) (Stage.linger late D.session).wrote := by
  rcases Stage.linger_cases late D.session with
    ⟨-, hstride⟩ | ⟨halive, -, hstride⟩ | ⟨-, -, hstride⟩ <;> rw [hstride]
  · exact of_silent rfl rfl
  · have hkilled := killCount_killProcess halive
    exact of_killed rfl (Nat.lt_of_lt_of_eq (Nat.lt_succ_self _) hkilled.symm)
  · exact of_silent rfl rfl

end Writes

theorem Phase.writes (h : Phase s D) : Writes D (D.after D.stride) D.stride.wrote := by
  cases h with
  | asking stage =>
    rw [stride, stage]
    rcases Stage.step_writing s.connection.nextId (decide (D.limit ≤ D.now)) D.session with
      ⟨htakes, hstride⟩ | ⟨-, hstride⟩
    · rw [hstride]
      exact .of_write _ (by rw [htakes, if_pos rfl]) rfl
    · rw [hstride]
      exact .of_silent rfl rfl
  | awaiting t₀ stage =>
    rw [stride, stage]
    rcases Stage.step_waiting s.connection.nextId (decide (D.limit ≤ D.now)) D.session with
      ⟨-, hstride⟩ | ⟨-, hstride⟩
    · rw [hstride]
      exact .of_silent rfl (congrArg Channel.outgoing (D.session.connection.take?_keeps _).2)
    · rw [hstride]
      split <;> exact .of_silent rfl rfl
  | cancelling t₀ t₁ stage =>
    rw [stride, stage, Stage.step_cancelling]
    exact .of_write _ rfl rfl
  | departing stage =>
    rw [stride, stage, Stage.step_departing]
    exact .of_write _ rfl rfl
  | closing stage =>
    rw [stride, stage]
    exact .of_silent rfl rfl
  | closed stage | exiting stage =>
    rw [stride, stage]
    exact .linger D _
  | ended stage =>
    rw [stride, stage]
    exact .of_silent rfl rfl

theorem Kept.writes (h : Kept s D) : ∃ wrote, Writes D D.go wrote := by
  unfold Disposal.go
  split
  · exact ⟨[], .refl D⟩
  · exact ⟨_, h.phase.writes⟩

theorem Kept.go (h : Kept s D) : Kept s D.go := by
  unfold Disposal.go
  split
  · exact h
  · have honward := D.stage.step_onward .null (decide (D.limit ≤ D.now)) D.session
    refine ⟨(D.stage.timing_step _ _ _).trans h.timing,
      honward.connection.process.trans h.process, ?_, h.phase.after h.timing h.process⟩
    simp only [Disposal.after, h.phase.wrote, h.sent, List.filter_append, List.map_append]
    cases D.stage.message? <;> cases D.session.connection.channel.takes <;> simp

theorem Kept.step (h : Kept s D) (a : Act) : Kept s (D.step a) := by
  cases a with
  | go => exact h.go
  | pass millis => exact h.meanwhile (.refl _) rfl _
  | event e =>
    obtain ⟨wrote, hwrote⟩ := Connection.Onward.step D.session.connection e
    exact h.meanwhile (.on hwrote) rfl _
  | other greeting g late =>
    exact h.meanwhile (g.step_onward greeting late D.session) (g.timing_step _ _ _) _

theorem Kept.run (h : Kept s D) (as : List Act) : Kept s (D.run as) := by
  induction as generalizing D with
  | nil => exact h
  | cons a as ih => exact ih (h.step a)

theorem beginCleanup_connection (s : Session) : s.beginCleanup.connection = s.connection :=
  Reaches.enterShuttingDown_connection _

theorem beginCleanup_isAlive (s : Session) : s.beginCleanup.isAlive = s.isAlive := by
  rw [Session.isAlive, Session.process, beginCleanup_connection, Session.isAlive, Session.process]

theorem begin_cases (h : s.cleanedUp = false) :
    (s.isAlive = false ∧ Stage.begin s .dispose =
      { session := s.beginCleanup, stage := .closing true }) ∨
    (s.isAlive = true ∧ s.connection.closed = true ∧ Stage.begin s .dispose =
      { session := s.beginCleanup, stage := .departing, tried := true }) ∨
    (s.isAlive = true ∧ s.connection.closed = false ∧ Stage.begin s .dispose =
      { session := { s.beginCleanup with connection := s.connection.enter }
        stage := .writing (.cleanup true) s.connection.nextId }) := by
  unfold Stage.begin Purpose.enter
  simp only [h, beginCleanup_isAlive, beginCleanup_connection, Bool.false_eq_true, if_false]
  cases s.isAlive with
  | false => exact .inl ⟨rfl, rfl⟩
  | true =>
    cases s.connection.closed with
    | true => exact .inr (.inl ⟨rfl, rfl, rfl⟩)
    | false => exact .inr (.inr ⟨rfl, rfl, rfl⟩)

theorem Kept.start (h : s.cleanedUp = false) (now : Nat) : Kept s (start s now) := by
  have hbegun : (Stage.begin s .dispose).session.timing = s.timing ∧
      (Stage.begin s .dispose).session.process.isNone = s.process.isNone :=
    ⟨Stage.timing_begin .dispose s, (Stage.onward_begin s .dispose).connection.process⟩
  have hunseen : ∀ e : Stride, e.session.connection.channel.process = s.connection.channel.process →
      (({ session := s, now := now } : Disposal).after e).looks = [] ∧
        (({ session := s, now := now } : Disposal).after e).kills = 0 :=
    fun e he => after_unseen rfl ⟨rfl, rfl⟩ he
  change Kept s (({ session := s, now := now } : Disposal).after (Stage.begin s .dispose))
  rcases begin_cases h with ⟨hgone, heq⟩ | ⟨halive, hclosed, heq⟩ | ⟨halive, hopen, heq⟩ <;>
    rw [heq] at hbegun ⊢ <;> refine ⟨hbegun.1, hbegun.2, rfl, ?_⟩
  · apply Phase.closing rfl
    · exact .gone hgone _
    · exact hunseen _ (congrArg (·.channel.process) (beginCleanup_connection s))
  · apply Phase.departing rfl halive
    · exact .unasked halive hclosed
    · exact hunseen _ (congrArg (·.channel.process) (beginCleanup_connection s))
  · exact .asking rfl halive hopen rfl rfl (hunseen _ rfl)

theorem writes_start (h : s.cleanedUp = false) (now : Nat) :
    Writes { session := s, now := now } (start s now) [] := by
  have houtgoing : (Stage.begin s .dispose).session.connection.channel.outgoing =
      s.connection.channel.outgoing ∧ (Stage.begin s .dispose).wrote = [] := by
    have hbegun := congrArg (·.channel.outgoing) (beginCleanup_connection s)
    rcases begin_cases h with ⟨-, heq⟩ | ⟨-, -, heq⟩ | ⟨-, -, heq⟩ <;> rw [heq]
    · exact ⟨hbegun, rfl⟩
    · exact ⟨hbegun, rfl⟩
    · exact ⟨rfl, rfl⟩
  have hwrites : Writes { session := s, now := now }
      (({ session := s, now := now } : Disposal).after (Stage.begin s .dispose)) _ :=
    .of_silent houtgoing.2 houtgoing.1
  rwa [houtgoing.2] at hwrites

/-- What a `dispose` of a session leaves that has returned. -/
structure Finished (s : Session) (D : Disposal) : Prop where
  state : D.session.state = .terminated
  closed : D.session.connection.channel.finished = true
  dead : D.session.connection.channel.processAlive = false
  sent : D.sent = (D.attempts.filter Attempt.taken).map Attempt.message
  gone : s.isAlive = false → D.attempts = []
  messages : s.isAlive = true → D.attempts.map Attempt.message =
    (if s.connection.closed then [] else [request s]) ++
      (if D.gaveUp.isSome then [cancellation s] else []) ++ [farewell]
  gaveUp : ∀ t, D.gaveUp = some t → ∃ t₀ rest, D.attempts = ⟨t₀, request s, true⟩ :: rest ∧
    t₀ + s.timing.shutdownTimeout ≤ t
  seen : s.process.isNone = false → D.looks ≠ []
  counted : ∀ l, D.looks.head? = some l → D.deadline = l.1 + s.timing.exitWait
  early : ∀ l ∈ D.looks.dropLast, l.2 = true ∧ l.1 < D.deadline
  once : D.kills ≤ 1
  killed : D.kills = 1 ↔ (∃ l ∈ D.looks, D.deadline ≤ l.1) ∧ ∀ l ∈ D.looks, l.2 = true

theorem Watched.killed {deadline : Nat} {looks : List (Nat × Bool)} {kills : Nat}
    (h : Watched s deadline looks kills) : kills ≤ 1 ∧
      (kills = 1 ↔ (∃ l ∈ looks, deadline ≤ l.1) ∧ ∀ l ∈ looks, l.2 = true) := by
  rcases h.kills with ⟨rfl, l, hlast, halive, hlate⟩ | ⟨rfl, hlast⟩
  · have hlooks := (List.dropLast_append_getLast? l hlast).symm
    refine ⟨Nat.le_refl 1, fun _ => ⟨⟨l, List.mem_of_getLast? hlast, hlate⟩, ?_⟩, fun _ => rfl⟩
    intro l' hl'
    rw [hlooks] at hl'
    rcases List.mem_append.mp hl' with hl' | hl'
    · exact (h.early l' hl').1
    · rw [List.mem_singleton.mp hl']
      exact halive
  · refine ⟨Nat.zero_le 1, by rintro ⟨⟩, ?_⟩
    rintro ⟨⟨l, hl, -⟩, halive⟩
    have hne := List.ne_nil_of_mem hl
    have hdead := hlast _ (List.getLast?_eq_some_getLast hne)
    rw [halive _ (List.getLast_mem hne)] at hdead
    cases hdead

theorem Kept.finished (h : Kept s D) (hended : D.stage = .ended) : Finished s D := by
  cases h.phase with
  | ended stage talk finished ended watched =>
    obtain ⟨honce, hkilled⟩ := watched.killed
    exact {
      state := ended.1
      closed := finished
      dead := ended.2
      sent := h.sent
      gone := by
        intro hgone
        have hnone := talk.messages
        rw [hgone, if_neg Bool.false_ne_true] at hnone
        exact List.map_eq_nil_iff.mp hnone
      messages := by
        intro halive
        rw [talk.messages, if_pos halive]
      gaveUp := talk.gaveUp
      seen := watched.seen
      counted := watched.counted
      early := watched.early
      once := honce
      killed := hkilled }
  | asking stage | awaiting _ stage | cancelling _ _ stage | departing stage | closing stage
  | closed stage | exiting stage =>
    rw [hended] at stage
    cases stage

end Disposal

end LanguageSessions
