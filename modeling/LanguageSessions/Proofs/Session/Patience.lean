import LanguageSessions.Proofs.Session.Disposal
import LanguageSessions.Proofs.Session.Waits

namespace LanguageSessions

namespace Disposal

variable {s t : Session} {D : Disposal}

def expiry (D : Disposal) : Nat :=
  match D.stage with
  | .waiting _ _ => D.deadline
  | .exiting => D.deadline + exitPoll
  | _ => 0

structure Prompt (s : Session) (D : Disposal) : Prop where
  expiry : D.expiry ≤ D.now + s.timing.patience
  due : D.stage = .exiting → D.due ≤ D.deadline + exitPoll

structure Nears (s : Session) (D E : Disposal) : Prop where
  prompt : Prompt s E
  rank : E.stage.rank < D.stage.rank ∨
    E.stage.rank = D.stage.rank ∧ E.expiry = D.expiry ∧ (D.stage.rank = 0 ∨ D.now < D.expiry)

theorem Nears.of_passed {e : Stride} {g : Stage} (hD : D.stage = g) (hwaits : e.stage.waits = false)
    (hrank : e.stage.rank < g.rank) : Nears s D (D.after e) := by
  subst hD
  have hexpiry : (D.after e).expiry = 0 := by
    unfold expiry
    change (match e.stage with
      | .waiting _ _ => _
      | .exiting => _
      | _ => 0) = 0
    cases hstage : e.stage with
    | waiting p id => rw [hstage] at hwaits; cases hwaits
    | exiting => rw [hstage] at hwaits; cases hwaits
    | _ => rfl
  refine ⟨⟨?_, fun h => ?_⟩, .inl hrank⟩
  · rw [hexpiry]
    exact Nat.zero_le _
  · rw [show e.stage = .exiting from h] at hwaits
    cases hwaits

theorem linger_prompt (hstage : D.stage = .closed true ∨ D.stage = .exiting)
    (hlimit : D.limit + exitPoll ≤ D.now + s.timing.patience) :
    (Stage.linger (decide (D.limit ≤ D.now)) D.session).stage = .ended ∨
    ((Stage.linger (decide (D.limit ≤ D.now)) D.session).stage = .exiting ∧
      D.now < D.limit ∧
      (D.after (Stage.linger (decide (D.limit ≤ D.now)) D.session)).expiry = D.limit + exitPoll ∧
      Prompt s (D.after (Stage.linger (decide (D.limit ≤ D.now)) D.session))) := by
  have hdeadline := D.after_deadline (by rcases hstage with hstage | hstage <;> simp [hstage])
  rcases Stage.linger_cases (decide (D.limit ≤ D.now)) D.session with
    ⟨-, heq⟩ | ⟨-, -, heq⟩ | ⟨-, hearly, heq⟩
  · rw [heq]
    exact .inl rfl
  · rw [heq]
    exact .inl rfl
  · have hearly' : D.now < D.limit := by simpa using hearly
    have hexpiry : (D.after { session := D.session, stage := .exiting }).expiry =
        D.limit + exitPoll := by
      rw [← hdeadline { session := D.session, stage := .exiting }]
      rfl
    rw [heq]
    refine .inr ⟨rfl, hearly', hexpiry, hexpiry ▸ hlimit, fun _ => ?_⟩
    rw [hdeadline]
    exact Nat.add_le_add_right (Nat.le_of_lt hearly') exitPoll

theorem nears_writing (hpatience : s.timing.shutdownTimeout ≤ s.timing.patience)
    (stage : D.stage = .writing (.cleanup true) s.connection.nextId)
    (htiming : D.session.timing = s.timing) : Nears s D (D.after D.stride) := by
  rw [stride, stage]
  rcases Stage.step_writing s.connection.nextId (decide (D.limit ≤ D.now)) D.session with
    ⟨-, hstride⟩ | ⟨-, hstride⟩
  · rw [hstride]
    refine ⟨⟨?_, by rintro ⟨⟩⟩, .inl (stage ▸ Nat.lt_succ_self 6)⟩
    simpa only [expiry, Disposal.after, stage, htiming] using Nat.add_le_add_left hpatience D.now
  · rw [hstride]
    exact .of_passed stage rfl (by simp [Stage.rank])

theorem nears_waiting (hp : Prompt s D)
    (stage : D.stage = .waiting (.cleanup true) s.connection.nextId) :
    Nears s D (D.after D.stride) := by
  have hexpiry : D.expiry = D.limit := by rw [expiry, limit, stage]
  rw [stride, stage]
  rcases Stage.step_waiting s.connection.nextId (decide (D.limit ≤ D.now)) D.session with
    ⟨-, hstride⟩ | ⟨-, hstride⟩
  · rw [hstride]
    exact .of_passed stage rfl (by simp [Stage.rank])
  · rw [hstride]
    split
    · exact .of_passed stage rfl (by simp [Stage.rank])
    · next hearly =>
      have hsame : (D.after { session := D.session
                              stage := .waiting (.cleanup true) s.connection.nextId }).expiry =
          D.expiry := by
        rw [hexpiry, ← after_deadline (by simp [stage])]
        rfl
      refine ⟨⟨?_, by rintro ⟨⟩⟩, .inr ⟨stage ▸ rfl, hsame, .inr ?_⟩⟩
      · rw [hsame]
        exact hp.expiry
      · rw [hexpiry]
        simpa using hearly

theorem nears_closed (hpatience : s.timing.exitWait + exitPoll ≤ s.timing.patience)
    (stage : D.stage = .closed true) (htiming : D.session.timing = s.timing) :
    Nears s D (D.after D.stride) := by
  have hlimit : D.limit + exitPoll ≤ D.now + s.timing.patience := by
    simp only [limit, stage, htiming]
    omega
  rw [stride, stage]
  change Nears s D (D.after (Stage.linger _ _))
  rcases linger_prompt (.inl stage) hlimit with hended | ⟨hexiting, -, -, hprompt⟩
  · exact .of_passed stage (congrArg Stage.waits hended) (by simp [hended, Stage.rank])
  · refine ⟨hprompt, .inl ?_⟩
    change (Stage.linger _ _).stage.rank < _
    rw [hexiting, stage]
    exact Nat.one_lt_two

theorem nears_exiting (hp : Prompt s D) (stage : D.stage = .exiting) :
    Nears s D (D.after D.stride) := by
  have hexpiry : D.expiry = D.limit + exitPoll := by rw [expiry, limit, stage]
  rw [stride, stage]
  change Nears s D (D.after (Stage.linger _ _))
  rcases linger_prompt (.inr stage) (hexpiry ▸ hp.expiry) with
    hended | ⟨hexiting, hearly, hsame, hprompt⟩
  · exact .of_passed stage (congrArg Stage.waits hended) (by simp [hended, Stage.rank])
  · refine ⟨hprompt, .inr ⟨?_, hsame.trans hexpiry.symm, .inr ?_⟩⟩
    · rw [stage]
      exact congrArg Stage.rank hexiting
    · rw [hexpiry]
      exact Nat.lt_of_lt_of_le hearly (Nat.le_add_right _ _)

theorem nears_ended (stage : D.stage = .ended) : Nears s D (D.after D.stride) := by
  have hexpiry : D.expiry = 0 := by rw [expiry, stage]
  have hrank : D.stage.rank = 0 := by rw [stage]; rfl
  rw [stride, stage]
  refine ⟨⟨Nat.zero_le _, by rintro ⟨⟩⟩, .inr ⟨?_, ?_, .inl hrank⟩⟩
  · rw [hrank]
    rfl
  · rw [hexpiry]
    rfl

theorem Kept.nears (h : Kept s D) (hp : Prompt s D) : Nears s D D.go := by
  unfold Disposal.go
  split
  · next hrests =>
    unfold rests at hrests
    split at hrests
    · next stage =>
      refine ⟨hp, .inr ⟨rfl, rfl, .inr ?_⟩⟩
      rw [expiry, stage]
      exact Nat.lt_of_lt_of_le (of_decide_eq_true hrests) (hp.due stage)
    · cases hrests
  · cases h.phase with
    | asking stage => exact nears_writing (Nat.le_max_left _ _) stage h.timing
    | awaiting t₀ stage => exact nears_waiting hp stage
    | cancelling t₀ t₁ stage =>
      rw [stride, stage, Stage.step_cancelling]
      exact .of_passed stage rfl (by simp [Stage.rank])
    | departing stage =>
      rw [stride, stage, Stage.step_departing]
      exact .of_passed stage rfl (by simp [Stage.rank])
    | closing stage =>
      rw [stride, stage]
      exact .of_passed stage rfl (Nat.lt_succ_self 2)
    | closed stage => exact nears_closed (Nat.le_max_right _ _) stage h.timing
    | exiting stage => exact nears_exiting hp stage
    | ended stage => exact nears_ended stage

theorem go_now (D : Disposal) : D.go.now = D.now := by
  unfold go
  split <;> rfl

def passed : List Act → Nat
  | [] => 0
  | .pass millis :: as => millis + passed as
  | _ :: as => passed as

structure Approaches (s : Session) (D E : Disposal) : Prop where
  kept : Kept s E
  prompt : Prompt s E
  rank : E.stage.rank < D.stage.rank ∨ E.stage.rank = D.stage.rank ∧ E.expiry = D.expiry

theorem Approaches.trans {E F : Disposal} (h : Approaches s D E) (k : Approaches s E F) :
    Approaches s D F := by
  refine ⟨k.kept, k.prompt, ?_⟩
  rcases h.rank with hrank | ⟨hrank, hexpiry⟩ <;> rcases k.rank with krank | ⟨krank, kexpiry⟩
  · exact .inl (krank.trans hrank)
  · exact .inl (krank ▸ hrank)
  · exact .inl (hrank ▸ krank)
  · exact .inr ⟨krank.trans hrank, kexpiry.trans hexpiry⟩

theorem Kept.go_approaches (h : Kept s D) (hp : Prompt s D) : Approaches s D D.go := by
  have hnears := h.nears hp
  exact ⟨h.go, hnears.prompt, hnears.rank.imp_right fun hr => ⟨hr.1, hr.2.1⟩⟩

theorem Kept.step_approaches (h : Kept s D) (hp : Prompt s D) (a : Act) :
    Approaches s D (D.step a) := by
  cases a with
  | go => exact h.go_approaches hp
  | pass millis =>
    have hlater : D.now + s.timing.patience ≤ D.now + millis + s.timing.patience := by omega
    exact ⟨h.step (.pass millis), ⟨hp.expiry.trans hlater, hp.due⟩, .inr ⟨rfl, rfl⟩⟩
  | event e => exact ⟨h.step (.event e), ⟨hp.expiry, hp.due⟩, .inr ⟨rfl, rfl⟩⟩
  | other greeting g late =>
    exact ⟨h.step (.other greeting g late), ⟨hp.expiry, hp.due⟩, .inr ⟨rfl, rfl⟩⟩

theorem Kept.run_approaches (h : Kept s D) (hp : Prompt s D) (as : List Act) :
    Approaches s D (D.run as) := by
  induction as generalizing D with
  | nil => exact ⟨h, hp, .inr ⟨rfl, rfl⟩⟩
  | cons a as ih =>
    have hstep := h.step_approaches hp a
    exact hstep.trans (ih hstep.kept hstep.prompt)

theorem run_now (D : Disposal) (as : List Act) : (D.run as).now = D.now + passed as := by
  induction as generalizing D with
  | nil => rfl
  | cons a as ih =>
    have hrest : (D.run (a :: as)).now = (D.step a).now + passed as := ih (D.step a)
    cases a with
    | go => exact hrest.trans (congrArg (· + passed as) D.go_now)
    | pass millis =>
      rw [hrest, passed, ← Nat.add_assoc]
      rfl
    | _ => exact hrest

theorem Kept.spell (h : Kept s D) (hp : Prompt s D) {as : List Act}
    (has : s.timing.patience ≤ passed as) : Approaches s D (D.run (as ++ [.go])) ∧
      ((D.run (as ++ [.go])).stage.rank < D.stage.rank ∨ D.stage.rank = 0) := by
  have hbefore := h.run_approaches hp as
  have hnears := hbefore.kept.nears hbefore.prompt
  have hafter := hbefore.trans (hbefore.kept.go_approaches hbefore.prompt)
  rw [run_append]
  refine ⟨hafter, ?_⟩
  rcases hbefore.rank with hrank | ⟨hrank, hexpiry⟩
  · refine .inl (Nat.lt_of_le_of_lt ?_ hrank)
    exact hnears.rank.elim Nat.le_of_lt fun hr => Nat.le_of_eq hr.1
  · rcases hnears.rank with hgo | ⟨hgo, -, hwaits⟩
    · exact .inl (hrank ▸ hgo)
    · rw [hrank] at hwaits
      refine hwaits.elim .inr fun hearly => ?_
      -- the time at which it would end was fixed at the outset
      have hexpired := hp.expiry
      rw [hexpiry, run_now] at hearly
      omega

theorem Kept.spells (h : Kept s D) (hp : Prompt s D) (spells : List (List Act))
    (hspells : ∀ as ∈ spells, s.timing.patience ≤ passed as) :
    (D.run (spells.flatMap (· ++ [.go]))).stage.rank ≤ D.stage.rank - spells.length := by
  induction spells generalizing D with
  | nil => exact Nat.le_refl _
  | cons as spells ih =>
    obtain ⟨hafter, hrank⟩ := h.spell hp (hspells as List.mem_cons_self)
    have hrest := ih hafter.kept hafter.prompt fun bs hbs => hspells bs (List.mem_cons_of_mem as hbs)
    rw [List.flatMap_cons, run_append, List.length_cons]
    have hle : (D.run (as ++ [.go])).stage.rank ≤ D.stage.rank :=
      hafter.rank.elim Nat.le_of_lt fun hr => Nat.le_of_eq hr.1
    omega

theorem rank_eq_zero {g : Stage} (h : g.rank = 0) : g = .ended := by
  cases g <;> simp [Stage.rank] at h ⊢

theorem Prompt.start (h : s.cleanedUp = false) (now : Nat) :
    Prompt s (start s now) ∧ (start s now).stage.rank ≤ 7 := by
  have hwaits : (Stage.begin s .dispose).stage.waits = false ∧
      (Stage.begin s .dispose).stage.rank ≤ 7 := by
    rcases begin_cases h with ⟨-, heq⟩ | ⟨-, -, heq⟩ | ⟨-, -, heq⟩ <;>
      rw [heq] <;> exact ⟨rfl, by simp [Stage.rank]⟩
  have hnears : Nears s ({ session := s, now := now } : Disposal) (Disposal.start s now) :=
    .of_passed (e := Stage.begin s .dispose) rfl hwaits.1 (Nat.lt_succ_of_le hwaits.2)
  exact ⟨hnears.prompt, hwaits.2⟩

def Shows (D : Disposal) : Advance Cleanup Unit → Prop
  | .idle => False
  | .on (.asking gentle x) => gentle = true ∧ D.stage = .waiting (.cleanup true) x.id ∧
      D.deadline = x.due
  | .on (.leaving deadline due) => D.stage = .exiting ∧ D.deadline = deadline ∧ D.due = due
  | .done () => D.stage = .ended

def Runs (D : Disposal) (p : Session × Advance Cleanup Unit) : Prop :=
  ∃ n, (D.run (List.replicate n .go)).session = p.1 ∧ (D.run (List.replicate n .go)).Shows p.2

def resume (w : Cleanup) : Advance Cleanup Unit → Advance Cleanup Unit
  | .idle => .on w
  | a => a

theorem Runs.of_shows {a : Advance Cleanup Unit} (h : D.Shows a) : D.Runs (D.session, a) :=
  ⟨0, rfl, h⟩

theorem Runs.of_after {p : Session × Advance Cleanup Unit} {e : Stride} (hrests : D.rests = false)
    (he : D.stride = e) (h : (D.after e).Runs p) : D.Runs p := by
  obtain ⟨n, hn⟩ := h
  have hgo : D.go = D.after e := by rw [go, hrests, if_neg Bool.false_ne_true, he]
  refine ⟨n + 1, ?_⟩
  change ((D.go.run _).session = _ ∧ (D.go.run _).Shows _)
  rw [hgo]
  exact hn

theorem runs_look (hstage : D.stage = .closed true ∨ D.stage = .exiting) (hrests : D.rests = false) :
    D.Runs (Cleanup.look D.limit D.now D.session) := by
  have hstride : D.stride = Stage.linger (decide (D.limit ≤ D.now)) D.session := by
    rcases hstage with hstage | hstage <;> rw [stride, hstage] <;> rfl
  have hdeadline := D.after_deadline (by rcases hstage with hstage | hstage <;> simp [hstage])
  apply Runs.of_after hrests hstride
  unfold Cleanup.look
  rcases Stage.linger_cases (decide (D.limit ≤ D.now)) D.session with
    ⟨hdead, heq⟩ | ⟨halive, hlate, heq⟩ | ⟨halive, hearly, heq⟩
  · rw [heq, if_pos (by simpa [Session.processAlive] using hdead)]
    exact .of_shows (a := .done ()) rfl
  · rw [heq, if_neg (by simpa [Session.processAlive] using halive), if_pos (of_decide_eq_true hlate)]
    exact .of_shows (a := .done ()) rfl
  · rw [heq, if_neg (by simpa [Session.processAlive] using halive), if_neg (of_decide_eq_false hearly)]
    exact .of_shows (a := .on (.leaving D.limit (D.now + exitPoll))) ⟨rfl, hdeadline _, rfl⟩

theorem runs_close (hstage : D.stage = .closing true) :
    D.Runs (Cleanup.depart D.now D.session) := by
  have hstride : D.stride = { session := Cleanup.close D.session, stage := .closed true } := by
    rw [stride, hstage]
    rfl
  exact .of_after (by rw [rests, hstage]) hstride (runs_look (.inl rfl) rfl)

theorem runs_depart (hstage : D.stage = .departing) :
    D.Runs (Cleanup.afterAsking true D.now D.session) := by
  have hstride := Stage.step_departing (decide (D.limit ≤ D.now)) D.session
  rw [← hstage] at hstride
  exact .of_after (by rw [rests, hstage]) hstride (runs_close rfl)

theorem Runs.resume {p : Session × Advance Cleanup Unit} (h : D.Runs p) (hp : p.2 ≠ .idle)
    (w : Cleanup) : D.Runs (p.1, Disposal.resume w p.2) := by
  obtain ⟨t, a⟩ := p
  cases a with
  | idle => exact absurd rfl hp
  | _ => exact h

theorem runs_advance {w : Cleanup} (h : D.Shows (.on w)) :
    D.Runs ((w.advance D.now D.session).1, resume w (w.advance D.now D.session).2) := by
  cases w with
  | asking gentle x =>
    obtain ⟨rfl, hstage, hdeadline⟩ := h
    have hrests : D.rests = false := by rw [rests, hstage]
    have hlimit : D.limit = x.due := by rw [limit, hstage, hdeadline]
    unfold Cleanup.advance Session.onConnection Exchange.advance
    dsimp only
    rcases Stage.step_waiting x.id (decide (D.limit ≤ D.now)) D.session with
      ⟨hanswered, hstride⟩ | ⟨hnone, hstride⟩
    · rw [← hstage] at hstride
      have hdepart := Runs.of_after hrests hstride (runs_depart rfl)
      generalize D.session.connection.take? x.id = r at hanswered hdepart ⊢
      obtain ⟨c, r⟩ := r
      cases r with
      | none => cases hanswered
      | some answer => exact hdepart.resume (Cleanup.afterAsking_ne_idle _ _ _) _
    · rw [hnone]
      dsimp only
      by_cases hlate : x.due ≤ D.now
      · rw [if_pos hlate]
        rw [if_pos (decide_eq_true (hlimit.symm ▸ hlate)), ← hstage] at hstride
        have hcancel := Runs.of_after hrests hstride
          (.of_after rfl (Stage.step_cancelling x.id _ _) (runs_depart rfl))
        exact hcancel.resume (Cleanup.afterAsking_ne_idle _ _ _) _
      · rw [if_neg hlate]
        exact .of_shows ⟨rfl, hstage, hdeadline⟩
  | leaving deadline due =>
    obtain ⟨hstage, rfl, rfl⟩ := h
    unfold Cleanup.advance
    dsimp only
    split
    · next hdue =>
      have hrests : D.rests = false := by simpa [rests, hstage] using hdue
      have hlimit : D.limit = D.deadline := by rw [limit, hstage]
      rw [← hlimit]
      exact (runs_look (.inr hstage) hrests).resume (Cleanup.look_ne_idle _ _ _) _
    · exact .of_shows ⟨hstage, rfl, rfl⟩

theorem runs_ask {b : Session} (hstage : D.stage = .writing (.cleanup true) b.connection.nextId)
    (hsession : D.session = { b with connection := b.connection.enter })
    (hopen : b.connection.closed = false)
    (hnumbered : ∀ id ∈ b.connection.pending, id < b.connection.nextId) :
    D.Runs (Cleanup.ask true D.now b) := by
  have hrests : D.rests = false := by rw [rests, hstage]
  have htiming : D.session.timing = b.timing := by rw [hsession]
  have htakes : D.session.connection.channel.takes = b.connection.channel.takes := by
    rw [hsession]
    rfl
  unfold Cleanup.ask Session.onConnection Exchange.start
  dsimp only
  rcases b.connection.channel.write_cases
      (Connection.requestText b.connection.nextId "shutdown" none) with
    ⟨htaken, hwrite⟩ | ⟨htaken, f, hwrite⟩
  · rw [Connection.sendRequest_of_open _ _ _ hopen hwrite]
    rcases Stage.step_writing b.connection.nextId (decide (D.limit ≤ D.now)) D.session with
      ⟨-, hstride⟩ | ⟨hrefused, -⟩
    · rw [← hstage] at hstride
      let m : Message := .request
        { id := .number b.connection.nextId, method := "shutdown", params := none }
      have hsent : ({ D.session with connection := (D.session.connection.write m).1 } : Session) =
          { b with connection := { b.connection.enter with channel := { b.connection.channel with
            outgoing := b.connection.channel.outgoing ++ [m.text] } } } := by
        have hwritten : b.connection.enter.channel.write m.text = _ := hwrite
        rw [hsession]
        unfold Connection.write
        rw [hwritten]
        rfl
      refine .of_after hrests hstride ⟨0, hsent, rfl, rfl, ?_⟩
      simp only [run, List.replicate_zero, List.foldl_nil, after, hstage, htiming]
    · rw [htakes, htaken] at hrefused
      cases hrefused
  · rw [Connection.sendRequest_of_open _ _ _ hopen hwrite]
    rcases Stage.step_writing b.connection.nextId (decide (D.limit ≤ D.now)) D.session with
      ⟨hheld, -⟩ | ⟨-, hstride⟩
    · rw [htakes, htaken] at hheld
      cases hheld
    · rw [← hstage] at hstride
      have hleft : b.connection.enter.forget b.connection.nextId =
          { b.connection with nextId := b.connection.nextId + 1 } :=
        b.connection.forget_new hnumbered b.connection.channel
      have hdepart := Runs.of_after hrests hstride (runs_depart rfl)
      rw [hsession] at hdepart
      change D.Runs (Cleanup.afterAsking true D.now { b with connection := _ }) at hdepart
      rw [hleft] at hdepart
      exact hdepart

theorem runs_dispose (hclean : s.cleanedUp = false)
    (hnumbered : ∀ id ∈ s.connection.pending, id < s.connection.nextId) (now : Nat) :
    (start s now).Runs (s.dispose now) := by
  have hbegun := begin_cases hclean
  change (({ session := s, now := now } : Disposal).after (Stage.begin s .dispose)).Runs _
  unfold Session.dispose
  rw [hclean, if_neg Bool.false_ne_true]
  rw [← beginCleanup_connection s] at hbegun hnumbered
  rw [← beginCleanup_isAlive s] at hbegun
  dsimp only
  generalize s.beginCleanup = b at hbegun hnumbered ⊢
  rcases hbegun with ⟨hgone, heq⟩ | ⟨hhere, hclosed, heq⟩ | ⟨hhere, hopen, heq⟩
  · rw [heq, hgone, if_neg Bool.false_ne_true]
    exact runs_close rfl
  · rw [heq, hhere, if_pos rfl]
    unfold Cleanup.ask Session.onConnection Exchange.start
    dsimp only
    rw [Connection.sendRequest_of_closed _ _ _ hclosed]
    exact runs_depart rfl
  · rw [heq, hhere, if_pos rfl]
    exact runs_ask rfl rfl hopen hnumbered

/-- What a `dispose` of a session comes to, whatever happens between its strides. -/
structure Finishes (s : Session) (now : Nat) : Prop where
  returns : ∀ spells : List (List Act), 7 ≤ spells.length →
    (∀ as ∈ spells, s.timing.patience ≤ passed as) →
    ((start s now).run (spells.flatMap (· ++ [.go]))).stage = .ended
  finished : ∀ as, ((start s now).run as).stage = .ended → Finished s ((start s now).run as)
  /-- As it begins nothing is written yet, and from then on each of its strides puts on the channel
  what it takes down as written. -/
  silent : Writes { session := s, now := now } (start s now) []
  writes : ∀ as, ∃ wrote, Writes ((start s now).run as) ((start s now).run (as ++ [.go])) wrote
  begins : (∀ id ∈ s.connection.pending, id < s.connection.nextId) →
    (start s now).Runs (s.dispose now)
  advances : ∀ as w, ((start s now).run as).Shows (.on w) →
    ((start s now).run as).Runs
      ((w.advance ((start s now).run as).now ((start s now).run as).session).1,
        resume w (w.advance ((start s now).run as).now ((start s now).run as).session).2)

theorem finishes (hclean : s.cleanedUp = false) (now : Nat) : Finishes s now where
  returns spells hlen hspells := by
    obtain ⟨hprompt, hrank⟩ := Prompt.start hclean now
    have hleft := (Kept.start hclean now).spells hprompt spells hspells
    exact rank_eq_zero (by omega)
  finished as hended := ((Kept.start hclean now).run as).finished hended
  silent := writes_start hclean now
  writes as := by
    rw [run_append]
    exact ((Kept.start hclean now).run as).writes
  begins hnumbered := runs_dispose hclean hnumbered now
  advances as w hw := runs_advance hw

end Disposal

end LanguageSessions
