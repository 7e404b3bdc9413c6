import LanguageSessions.Proofs.Scheduler.Lanes

namespace LanguageSessions.Simulation.World

variable {w v : World} {b : Bench}

theorem Follows.congr (h : w.Follows b) (hv : v.lanes = w.lanes) : v.Follows b :=
  h.imp fun _ hw => hw.congr hv

theorem staff_lanes (w : World) : w.staff.lanes = w.lanes := by
  unfold staff
  dsimp only
  split <;> rfl

theorem proceed_lanes (w : World) (t : Nat) (a : Option (Advance σ α)) (again : σ → Work)
    (result : World → α → Result) : (w.proceed t a again result).1.lanes = w.lanes := by
  unfold proceed
  split <;> rfl

theorem labelled_lanes (w : World) (label : Option String) (r : Reply) :
    (w.labelled label r).lanes = w.lanes := by
  unfold labelled
  dsimp only
  split <;> rfl

theorem reap_lanes (w : World) (t reaper interval window tick : Nat) (sweep : Option Call) :
    (w.reap t reaper interval window tick sweep).1.lanes = w.lanes := by
  unfold reap
  dsimp only
  split
  · split
    · rfl
    · rfl
    · split <;> rfl
  · split
    · rfl
    · split <;> rfl

theorem advanceWork_lanes (w : World) (t : Nat) (work : Work) :
    (w.advanceWork t work).1.lanes = w.lanes := by
  cases work with
  | pause due =>
    simp only [advanceWork]
    split <;> rfl
  | await id slot request due =>
    simp only [advanceWork]
    split
    · next hv => exact (change_lanes hv :)
    · next hv => split <;> exact (change_lanes hv :)
    · next hv => exact (change_lanes hv :)
  | exchange id x p =>
    simp only [advanceWork]
    split <;> rfl
  | handshake id hs => exact proceed_lanes ..
  | cleanup id c => exact proceed_lanes ..
  | watch server deadline poll due =>
    simp only [advanceWork]
    split <;> rfl
  | call c label =>
    simp only [advanceWork]
    split
    · rfl
    · rfl
    · exact labelled_lanes ..
  | join name =>
    simp only [advanceWork]
    split
    · rfl
    · split <;> rfl
  | reap reaper interval window tick sweep => exact reap_lanes ..

theorem disposeRetired_lanes (w : World) : w.disposeRetired.1.lanes = w.lanes := by
  unfold disposeRetired
  split
  · rfl
  · apply List.foldlRecOn (motive := fun v : World => v.lanes = w.lanes)
    · rfl
    · intro v hv id _
      split
      · next hx => exact (change_lanes hx).trans hv
      · next hx => exact (change_lanes hx).trans hv

theorem advanceServers_lanes (w : World) : w.advanceServers.1.lanes = w.lanes := by
  apply List.foldlRecOn (motive := fun x : Moved => x.1.lanes = w.lanes)
  · rfl
  · intro x hx i _
    dsimp only
    split
    · split <;> exact hx
    · exact hx

theorem advanceReaders_lanes (w : World) : w.advanceReaders.1.lanes = w.lanes := by
  apply List.foldlRecOn (motive := fun x : Moved => x.1.lanes = w.lanes)
  · rfl
  · intro x hx s _
    dsimp only
    split
    · exact hx
    · split <;> exact hx

theorem releaseSessions_lanes (w : World) : w.releaseSessions.1.lanes = w.lanes := by
  unfold releaseSessions
  dsimp only
  split <;> split <;> rfl

theorem onScheduler_follows {f : World → Scheduler → Moved}
    (hf : ∀ (v : World) (c : Bench), v.Shows c → (f v c.scheduler).1.Follows c) (h : w.Shows b) :
    (onScheduler f w).1.Follows b := by
  rw [onScheduler, h.scheduler]
  exact hf w b h

theorem chain_follows {steps : List (World → Moved)}
    (hsteps : ∀ step ∈ steps, ∀ (v : World) (c : Bench), v.Shows c → (step v).1.Follows c)
    (h : w.Shows b) : (chain steps w).1.Follows b := by
  apply List.foldlRecOn (motive := fun x : Moved => x.1.Follows b)
  · exact h.follows
  · intro x hx step hstep
    exact hx.trans (hsteps step hstep x.1)

theorem Shows.round (h : w.Shows b) : w.round.1.Follows b := by
  apply chain_follows _ h
  intro step hstep v c hv
  rcases List.mem_append.mp hstep with hwork | hlane
  · obtain ⟨e, -, rfl⟩ := List.mem_map.mp hwork
    dsimp only
    split
    · exact hv.follows
    · exact (hv.congr ((staff_lanes _).trans (advanceWork_lanes ..))).follows
  · simp only [List.mem_cons, List.not_mem_nil, or_false] at hlane
    rcases hlane with rfl | rfl | rfl | rfl | rfl | rfl | rfl | rfl | rfl
    · exact onScheduler_follows (fun _ _ => Shows.advanceDelays) hv
    · exact onScheduler_follows (fun _ _ => Shows.advanceEvents) hv
    · exact onScheduler_follows (fun _ _ => Shows.advanceBackground) hv
    · exact (hv.congr (staff_lanes v)).follows
    · exact hv.advanceFollowers
    · exact (hv.congr (disposeRetired_lanes v)).follows
    · exact (hv.congr (advanceServers_lanes v)).follows
    · exact (hv.congr (advanceReaders_lanes v)).follows
    · exact (hv.congr (releaseSessions_lanes v)).follows

theorem Shows.settle (h : w.Shows b) (fuel : Nat) : (w.settle fuel).Follows b := by
  induction fuel generalizing w b with
  | zero => exact h.follows
  | succ fuel ih =>
    have hround := h.round
    rw [World.settle]
    split
    · next hw =>
      rw [hw] at hround
      exact hround.trans fun c hc => ih hc
    · next hw =>
      rw [hw] at hround
      exact hround

theorem expectInterruption_lanes (w : World) : w.expectInterruption.lanes = w.lanes := by
  unfold expectInterruption
  split
  · split <;> rfl
  · rfl

theorem Shows.awaitResult (h : w.Shows b) (t deadline fuel : Nat) :
    (World.awaitResult t deadline fuel w).1.Follows b := by
  induction fuel generalizing w b with
  | zero => exact h.follows
  | succ fuel ih =>
    have hsettled := (h.settle maxRounds).congr (expectInterruption_lanes _)
    rw [World.awaitResult]
    split
    · exact hsettled.congr rfl
    · split
      · exact hsettled
      · split
        · exact hsettled
        · exact hsettled.trans fun c hc => ih (hc.congr rfl)

theorem beginOn_lanes (w : World) (id : SessionId) (f : Session → Session × Advance σ α)
    (again : σ → Work) (result : World → Option α → Result) :
    (w.beginOn id f again result).1.lanes = w.lanes := by
  unfold beginOn
  split
  · next hv => exact (change_lanes hv :)
  · next hv => exact (change_lanes hv :)
  · next hv => exact (change_lanes hv :)

theorem beginExchange_lanes (w : World) (id : SessionId)
    (f : Session → Session × Except Fault Exchange) (p : Purpose) :
    (w.beginExchange id f p).1.lanes = w.lanes := by
  unfold beginExchange
  split
  · next hv => exact (change_lanes hv :)
  · next hv => exact (change_lanes hv :)
  · next hv => exact (change_lanes hv :)

theorem simple_lanes (w : World) (id : SessionId) (f : Session → Session × Result) :
    (w.simple id f).1.lanes = w.lanes := by
  unfold simple
  split
  · next hv => exact (change_lanes hv :)
  · next hv => exact (change_lanes hv :)

theorem actOnSession_lanes (w : World) (label : String) (id : SessionId) (a : SessionAct) :
    (w.actOnSession label id a).1.lanes = w.lanes := by
  cases a with
  | sendRequest slot method params =>
    simp only [actOnSession]
    split
    · next hv => exact (change_lanes hv :)
    · next hv => exact (change_lanes hv :)
    · next hv => exact (change_lanes hv :)
  | await slot millis =>
    simp only [actOnSession]
    split <;> rfl
  | initiate =>
    simp only [actOnSession]
    split
    · next hv => exact (change_lanes hv :)
    · next hv => exact (change_lanes hv :)
    · next hv => exact (change_lanes hv :)
  | call | request | query => exact beginExchange_lanes ..
  | shutdownAndKill | dispose => exact beginOn_lanes ..
  | dropConnection | drop => rfl
  | _ => exact simple_lanes ..

theorem actOnServer_lanes (w : World) (n : Nat) (a : ServerAct) :
    (w.actOnServer n a).1.lanes = w.lanes := by
  unfold actOnServer
  split
  · cases a <;> rfl
  · rfl

theorem start_lanes (w : World) (c : Command) (hc : ∀ a, c ≠ .onScheduler a) :
    (w.start c).1.lanes = w.lanes := by
  cases c with
  | onScheduler a => exact absurd rfl (hc a)
  | server n a => exact actOnServer_lanes w n a
  | onSession label a =>
    simp only [World.start]
    split
    · rfl
    · exact actOnSession_lanes ..
  | attach root d extensions label =>
    simp only [World.start]
    split <;> rfl
  | startReaper interval window =>
    simp only [World.start, startReaper]
    split <;> rfl
  | stopReaper =>
    simp only [World.start]
    split <;> rfl
  | _ => rfl

theorem Shows.start (h : w.Shows b) (c : Command) (hc : c ≠ .onScheduler .start) :
    (w.start c).1.Follows b := by
  by_cases hscheduler : ∃ a, c = .onScheduler a
  · obtain ⟨a, rfl⟩ := hscheduler
    have hact := h.actOnScheduler a
    cases a with
    | start => exact absurd rfl hc
    | followerFinished => exact h.follows
    | _ =>
      simp only [World.start, h.scheduler]
      exact hact
  · have hlanes := start_lanes w c fun a ha => hscheduler ⟨a, ha⟩
    exact (h.congr hlanes).follows

theorem Shows.command (h : w.Shows b) (c : Command) (hc : c ≠ .onScheduler .start) :
    (w.command c).1.Follows b := by
  have hstart := (h.start c hc).congr (staff_lanes _)
  unfold World.command
  dsimp only
  split
  · exact hstart.trans fun d hd => hd.settle maxRounds
  · exact hstart.trans fun d hd => hd.awaitResult ..

theorem Shows.commandInBackground (h : w.Shows b) (name : String) (c : Command)
    (hc : c ≠ .onScheduler .start) : (w.commandInBackground name c).1.Follows b := by
  have hstart := (h.start c hc).congr (staff_lanes _)
  unfold World.commandInBackground
  refine Follows.trans ?_ fun d hd => hd.settle maxRounds
  split <;> exact hstart.congr rfl

def commands (w : World) (cs : List (Option String × Command)) : World :=
  cs.foldl (fun w c =>
    match c.1 with
    | none => (w.command c.2).1
    | some name => (w.commandInBackground name c.2).1) w

theorem Shows.commands (h : w.Shows b) (cs : List (Option String × Command))
    (hcs : ∀ c ∈ cs, c.2 ≠ .onScheduler .start) : (w.commands cs).Follows b := by
  induction cs generalizing w b with
  | nil => exact h.follows
  | cons c cs ih =>
    have hcommand : (w.commands [c]).Follows b := by
      obtain ⟨name, c⟩ := c
      cases name with
      | none => exact h.command c (hcs _ List.mem_cons_self)
      | some name => exact h.commandInBackground name c (hcs _ List.mem_cons_self)
    exact hcommand.trans fun d hd => ih hd fun e he => hcs e (List.mem_cons_of_mem _ he)

/-- Whatever is done with a world and its scheduler, the pending runs are those of the tasks as they
are registered. -/
theorem commands_current {debounce : Nat} (hscheduler : w.scheduler = some { debounce := debounce })
    (hidle : w.background = none) (cs : List (Option String × Command))
    (hcs : ∀ c ∈ cs, c.2 ≠ .onScheduler .start) : ∃ d, (w.commands cs).Shows d ∧ d.Current := by
  have hshows : w.Shows { scheduler := { debounce := debounce } } := ⟨hscheduler, by rw [hidle]; rfl⟩
  obtain ⟨es, hes⟩ := hshows.commands cs hcs
  exact ⟨_, hes, ((Bench.Sound.start debounce).run es).current⟩

end LanguageSessions.Simulation.World
