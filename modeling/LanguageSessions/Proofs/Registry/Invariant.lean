import Mathlib.Data.List.InsertIdx
import LanguageSessions.Proofs.Registry.Service

namespace LanguageSessions

def Among (calls : List Status) (f : Status → List SessionId) (id : SessionId) : Prop :=
  ∃ (n : Nat) (s : Status), calls[n]? = some s ∧ id ∈ f s

def AmongOthers (calls : List Status) (n : Nat) (f : Status → List SessionId) (id : SessionId) :
    Prop :=
  ∃ (m : Nat) (s : Status), m ≠ n ∧ calls[m]? = some s ∧ id ∈ f s

theorem among_split {calls : List Status} {n : Nat} {s : Status} (h : calls[n]? = some s)
    (f : Status → List SessionId) : Among calls f = also (AmongOthers calls n f) (f s) := by
  funext id
  apply propext
  constructor
  · rintro ⟨m, t, ht, hid⟩
    by_cases hm : m = n
    · subst hm
      rw [h, Option.some.injEq] at ht
      subst ht
      exact .inr hid
    · exact .inl ⟨m, t, hm, ht, hid⟩
  · rintro (⟨m, t, -, ht, hid⟩ | hid)
    · exact ⟨m, t, ht, hid⟩
    · exact ⟨n, s, h, hid⟩

theorem amongOthers_set (calls : List Status) (n : Nat) (s : Status) (f : Status → List SessionId) :
    AmongOthers (calls.set n s) n f = AmongOthers calls n f := by
  funext id
  apply propext
  constructor
  · rintro ⟨m, t, hm, ht, hid⟩
    rw [List.getElem?_set_ne hm.symm] at ht
    exact ⟨m, t, hm, ht, hid⟩
  · rintro ⟨m, t, hm, ht, hid⟩
    rw [← List.getElem?_set_ne hm.symm] at ht
    exact ⟨m, t, hm, ht, hid⟩

theorem among_set {calls : List Status} {n : Nat} {s t : Status} (h : calls[n]? = some s)
    (f : Status → List SessionId) :
    Among (calls.set n t) f = also (AmongOthers calls n f) (f t) := by
  have hlt : n < calls.length := (List.getElem?_eq_some_iff.mp h).1
  have ht : (calls.set n t)[n]? = some t := by simp [hlt]
  rw [among_split ht f, amongOthers_set]

theorem among_append {calls : List Status} {s : Status} {f : Status → List SessionId}
    (hs : f s = []) : Among (calls ++ [s]) f = Among calls f := by
  funext id
  apply propext
  constructor
  · rintro ⟨n, t, ht, hid⟩
    rcases Nat.lt_or_ge n calls.length with hlt | hge
    · rw [List.getElem?_append_left hlt] at ht
      exact ⟨n, t, ht, hid⟩
    · rw [List.getElem?_append_right hge] at ht
      rw [List.mem_singleton.mp (List.mem_of_getElem? ht), hs] at hid
      cases hid
  · rintro ⟨n, t, ht, hid⟩
    refine ⟨n, t, ?_, hid⟩
    rw [List.getElem?_append_left (List.getElem?_eq_some_iff.mp ht).1]
    exact ht

namespace Service

open Registry (Frame Moves)

def Young (σ : Service) : SessionId → Prop := Among σ.calls Status.young

def Busy (σ : Service) : SessionId → Prop :=
  also (Among σ.calls Status.cleaning) (σ.cleanups.map Prod.fst)

structure Sound (σ : Service) : Prop where
  registry : σ.registry.Sound σ.Young σ.registry.Retired σ.Busy
  placed : ∀ (n : Nat) (s : Status), σ.calls[n]? = some s → s.Placed σ.registry
  turn : ∀ (n : Nat) (s : Status), σ.calls[n]? = some s → s.young ≠ [] → σ.registry.turns.holder = some n
  given : ∀ e ∈ σ.given, σ.registry.key? e.2 = some e.1

structure Leads (σ τ : Service) : Prop where
  sound : τ.Sound
  moves : ∃ new, σ.registry.Moves τ.registry new ∧ ∀ id ∈ new, σ.Young id
  young : ∀ id, τ.Young id → σ.Young id ∨ σ.registry.sessions.length < id

theorem Sound.new (r : Registry) : (new r).Sound where
  registry := {
    numbered := by
      intro id
      simp only [Service.new, Registry.session?, Registry.Knows, List.find?_nil, List.length_nil]
      constructor
      · rintro ⟨s, ⟨⟩⟩
      · rintro ⟨h0, h1⟩
        omega
    launches := rfl
    tables := Tables.Sound.empty _
    announced_nodup := List.nodup_nil
    announced_known := by rintro id ⟨⟩
    held_announced := by rintro id ⟨⟩
    released := by rintro id ⟨⟩
    young := by rintro id ⟨n, s, ⟨⟩, -⟩
    hands := by rintro id (⟨⟨⟩⟩ | ⟨n, s, ⟨⟩, -⟩ | ⟨⟨⟩⟩)
    sessions := by rintro id s ⟨⟩ }
  placed := by rintro n s ⟨⟩
  turn := by rintro n s ⟨⟩
  given := by rintro e ⟨⟩

variable {σ τ : Service}

structure Rests (σ τ : Service) : Prop where
  frame : σ.registry.Frame τ.registry
  calls : τ.calls = σ.calls
  given : τ.given = σ.given
  sound : τ.registry.Sound τ.Young τ.registry.Retired τ.Busy

theorem Rests.rfl (h : σ.Sound) : σ.Rests σ :=
  ⟨Frame.rfl σ.registry, by rfl, by rfl, h.registry⟩

theorem Rests.leads (h : σ.Sound) (hr : σ.Rests τ) : σ.Leads τ where
  sound := {
    registry := hr.sound
    placed := by
      intro n s hs
      rw [hr.calls] at hs
      cases s with
      | running c => exact (h.placed n _ hs : c.Placed _).stays hr.frame.toStays
      | replied reply => trivial
    turn := by
      intro n s hs hy
      rw [hr.calls] at hs
      exact hr.frame.holder.trans (h.turn n s hs hy)
    given := by
      rw [hr.given]
      exact fun e he => hr.frame.keys _ _ (h.given e he) }
  moves := ⟨[], hr.frame.moves, by simp⟩
  young := by
    intro id hid
    rw [Young, hr.calls] at hid
    exact .inl hid

theorem begin_quiet (d : Demand) (r : Registry) :
    (d.begin r).young = [] ∧ (d.begin r).cleaning = [] ∧ (d.begin r).Placed r := by
  cases d with
  | attach root d extensions =>
    unfold Demand.begin Call.attach
    dsimp only
    split
    · next c hc =>
      split at hc
      · cases hc
      · next hne =>
        cases hc
        refine ⟨rfl, rfl, ?_⟩
        change _ ≠ []
        rwa [List.isEmpty_iff] at hne
    · exact ⟨rfl, rfl, trivial⟩
  | _ => exact ⟨rfl, rfl, trivial⟩

theorem ask_leads (h : σ.Sound) (d : Demand) : σ.Leads (σ.step (.ask d)) := by
  obtain ⟨hy, hc, hp⟩ := begin_quiet d σ.registry
  have hnew : ∀ (n : Nat) (s : Status), (σ.calls ++ [d.begin σ.registry])[n]? = some s →
      σ.calls[n]? = some s ∨ s = d.begin σ.registry := by
    intro n s hs
    rcases Nat.lt_or_ge n σ.calls.length with hlt | hge
    · rw [List.getElem?_append_left hlt] at hs
      exact .inl hs
    · rw [List.getElem?_append_right hge] at hs
      exact .inr (List.mem_singleton.mp (List.mem_of_getElem? hs))
  have hyoung : (σ.step (.ask d)).Young = σ.Young := among_append hy
  exact {
    sound := {
      registry := by
        have hbusy : (σ.step (.ask d)).Busy = σ.Busy := by
          rw [Busy, Busy]
          exact congrArg (also · _) (among_append hc)
        rw [hyoung, hbusy]
        exact h.registry
      placed := by
        intro n s hs
        rcases hnew n s hs with hs | rfl
        · exact h.placed n s hs
        · exact hp
      turn := by
        intro n s hs hne
        rcases hnew n s hs with hs | rfl
        · exact h.turn n s hs hne
        · exact absurd hy hne
      given := h.given }
    moves := ⟨[], Moves.rfl σ.registry, by simp⟩
    young := fun id hid => .inl (hyoung ▸ hid) }

theorem next_young (c : Call) (a : Advance Call Reply) :
    (Status.next c a).young = (c.after a).elim [] Call.young := by
  cases a <;> rfl

theorem next_cleaning (c : Call) (a : Advance Call Reply) :
    (Status.next c a).cleaning = (c.after a).elim [] Call.cleaning := by
  cases a <;> rfl

theorem after_of_next {c c' : Call} {a : Advance Call Reply} (h : Status.next c a = .running c') :
    c.after a = some c' := by
  cases a <;> cases h <;> rfl

theorem mem_gives {c : Call} {a : Advance Call Reply} {e : SessionKey × SessionId} :
    e ∈ c.gives a ↔ ∃ reply, a = .done reply ∧ c.key? = some e.1 ∧ reply.session? = some e.2 := by
  cases a with
  | idle => simp [Call.gives]
  | on c' => simp [Call.gives]
  | done reply =>
    unfold Call.gives
    dsimp only
    cases hk : c.key? with
    | none => simp
    | some key =>
      cases hr : reply.session? with
      | none => simp [hr]
      | some id => simp [hr, Prod.ext_iff, eq_comm]

theorem placed_moves {s : Status} {r r' : Registry} {new : List SessionId} (hy : s.young = [])
    (hp : s.Placed r) (hm : r.Moves r' new) : s.Placed r' := by
  cases s with
  | replied reply => trivial
  | running c =>
    cases c with
    | waiting w lenient => cases w <;> exact hp
    | opening id hs b lenient => cases hy
    | stopping id c => trivial
    | clearing ids rest =>
      intro id hid
      rw [hm.announced]
      exact List.mem_append_left _ (hp id hid)

theorem step_advance {ticket : Nat} {c : Call} (hc : σ.calls[ticket]? = some (.running c)) :
    σ.step (.advance ticket) =
      { σ with
        registry := (c.advance ticket σ.now σ.registry).1
        calls := σ.calls.set ticket (.next c (c.advance ticket σ.now σ.registry).2)
        given := σ.given ++ c.gives (c.advance ticket σ.now σ.registry).2 } := by
  unfold step
  dsimp only
  rw [hc]

theorem step_over {ticket : Nat} (hover : ∀ c, σ.calls[ticket]? ≠ some (.running c)) :
    σ.step (.advance ticket) = σ := by
  unfold step
  dsimp only
  split
  · next c hc => exact absurd hc (hover c)
  · rfl

/-- The invariant as a call sees it: its own young session is no other call's. -/
theorem Sound.split (h : σ.Sound) {ticket : Nat} {c : Call}
    (hc : σ.calls[ticket]? = some (.running c)) :
    σ.registry.Sound (also (AmongOthers σ.calls ticket Status.young) c.young) σ.registry.Retired
      (also (also (AmongOthers σ.calls ticket Status.cleaning) (σ.cleanups.map Prod.fst))
        c.cleaning) ∧
    ∀ id ∈ c.young, ¬ AmongOthers σ.calls ticket Status.young id := by
  constructor
  · have hreg := h.registry
    rw [Young, among_split hc, Busy, among_split hc, also_comm] at hreg
    exact hreg
  · rintro id hid ⟨m, s, hm, hs, hid'⟩
    -- two calls would have the turn at once
    have h1 := h.turn ticket _ hc (List.ne_nil_of_mem hid)
    rw [h.turn m s hs (List.ne_nil_of_mem hid'), Option.some.injEq] at h1
    exact hm h1

theorem Sound.frame_other (h : σ.Sound) {ticket m : Nat} {c : Call} {s : Status}
    (hc : σ.calls[ticket]? = some (.running c)) (hs : σ.calls[m]? = some s) (hm : m ≠ ticket)
    (hy : s.young ≠ []) : σ.registry.Frame (c.advance ticket σ.now σ.registry).1 := by
  have hholder := h.turn m s hs hy
  apply Call.advance_frame
  -- call `m` has the turn, so this one has no young session
  · by_contra hy'
    have h1 := h.turn ticket _ hc hy'
    rw [hholder, Option.some.injEq] at h1
    exact hm h1
  · rw [hholder]
    simp

theorem set_cases {calls : List Status} {ticket m : Nat} {s t : Status}
    (hs : (calls.set ticket t)[m]? = some s) :
    m = ticket ∧ s = t ∨ m ≠ ticket ∧ calls[m]? = some s := by
  by_cases hm : m = ticket
  · subst hm
    left
    have hlt := (List.getElem?_eq_some_iff.mp hs).1
    rw [List.length_set] at hlt
    rw [List.getElem?_set_self hlt, Option.some.injEq] at hs
    exact ⟨rfl, hs.symm⟩
  · rw [List.getElem?_set_ne (Ne.symm hm)] at hs
    exact .inr ⟨hm, hs⟩

theorem placed_next {c : Call} {r : Registry} {Young Busy : SessionId → Prop} {ticket : Nat}
    {p : Registry × Advance Call Reply} (hadv : c.Advances ticket r Young Busy p) :
    (Status.next c p.2).Placed p.1 ∧
      ((Status.next c p.2).young ≠ [] → p.1.turns.holder = some ticket) := by
  rw [next_young]
  cases hafter : c.after p.2 with
  | none =>
    refine ⟨?_, fun hne => absurd rfl hne⟩
    cases ha : p.2 with
    | idle => rw [ha] at hafter; cases hafter
    | on c' => rw [ha] at hafter; cases hafter
    | done reply => trivial
  | some c' =>
    have hnext : Status.next c p.2 = .running c' := by
      cases ha : p.2 with
      | idle => rw [ha] at hafter; cases hafter; rfl
      | on c'' => rw [ha] at hafter; cases hafter; rfl
      | done reply => rw [ha] at hafter; cases hafter
    rw [hnext]
    refine ⟨hadv.placed c' hafter, ?_⟩
    intro hne
    obtain ⟨id, hid⟩ := List.exists_mem_of_ne_nil _ hne
    exact (hadv.young c' hafter id hid).2

theorem Sound.placed_other (h : σ.Sound) {ticket m : Nat} {c : Call} {s : Status}
    (hc : σ.calls[ticket]? = some (.running c)) (hs : σ.calls[m]? = some s) (hm : m ≠ ticket)
    {new : List SessionId}
    (hmoves : σ.registry.Moves (c.advance ticket σ.now σ.registry).1 new) :
    s.Placed (c.advance ticket σ.now σ.registry).1 ∧
      (s.young ≠ [] → (c.advance ticket σ.now σ.registry).1.turns.holder = some m) := by
  by_cases hy : s.young = []
  · exact ⟨placed_moves hy (h.placed m s hs) hmoves, fun hne => absurd hy hne⟩
  · have hframe := h.frame_other hc hs hm hy
    refine ⟨?_, fun _ => hframe.holder.trans (h.turn m s hs hy)⟩
    cases s with
    | running c' => exact (h.placed m _ hs : c'.Placed _).stays hframe.toStays
    | replied reply => trivial

theorem running_leads (h : σ.Sound) {ticket : Nat} {c : Call}
    (hc : σ.calls[ticket]? = some (.running c)) : σ.Leads (σ.step (.advance ticket)) := by
  obtain ⟨hreg, hown⟩ := h.split hc
  have hadv := c.advance_advances σ.now hreg hown (h.placed ticket _ hc) (h.turn ticket _ hc)
  obtain ⟨new, hmoves, hnew⟩ := hadv.moves
  have hplaced : ∀ (m : Nat) (s : Status),
      (σ.calls.set ticket (.next c (c.advance ticket σ.now σ.registry).2))[m]? = some s →
      s.Placed (c.advance ticket σ.now σ.registry).1 ∧
        (s.young ≠ [] → (c.advance ticket σ.now σ.registry).1.turns.holder = some m) := by
    intro m s hs
    rcases set_cases hs with ⟨rfl, rfl⟩ | ⟨hm, hs⟩
    · exact placed_next hadv
    · exact h.placed_other hc hs hm hmoves
  rw [step_advance hc]
  generalize c.advance ticket σ.now σ.registry = p at hadv hmoves hplaced ⊢
  obtain ⟨r, a⟩ := p
  dsimp only at hadv hmoves hplaced ⊢
  exact {
    sound := {
      registry := by
        have hsound := hadv.sound
        rw [← next_young, ← next_cleaning, ← among_set hc, also_comm, ← among_set hc] at hsound
        exact hsound
      placed := fun m s hs => (hplaced m s hs).1
      turn := fun m s hs => (hplaced m s hs).2
      given := by
        intro e he
        rcases List.mem_append.mp he with he | he
        · exact hmoves.keys _ _ (h.given e he)
        · obtain ⟨reply, rfl, hkey, hid⟩ := mem_gives.mp he
          exact hadv.gives e.1 reply e.2 hkey rfl hid }
    moves := ⟨new, hmoves, fun id hid => ⟨ticket, _, hc, hnew id hid⟩⟩
    young := by
      intro id hid
      change Among (σ.calls.set ticket (.next c a)) Status.young id at hid
      rw [among_set hc] at hid
      rw [Young, among_split hc]
      rcases hid with hid | hid
      · exact .inl (.inl hid)
      · rw [next_young] at hid
        cases hafter : c.after a with
        | none =>
          rw [hafter] at hid
          cases hid
        | some c' =>
          rw [hafter] at hid
          exact (hadv.young c' hafter id hid).1.imp_left .inr }

theorem advance_leads (h : σ.Sound) (ticket : Nat) : σ.Leads (σ.step (.advance ticket)) := by
  by_cases hrunning : ∃ c, σ.calls[ticket]? = some (.running c)
  · obtain ⟨c, hc⟩ := hrunning
    exact running_leads h hc
  · rw [step_over fun c hc => hrunning ⟨c, hc⟩]
    exact (Rests.rfl h).leads h

theorem begin_rests (id : SessionId) {r : Registry}
    (hframe : σ.registry.Frame r) (hsound : r.Sound σ.Young (also r.Retired [id]) σ.Busy)
    {f : Session → Session × Advance Cleanup Unit} (hf : Session.IsCleanup f) :
    σ.Rests (({ σ with registry := r } : Service).begin id f) := by
  have hframe' := hframe.trans (r.frame_begins id hf)
  have hretired := r.retired_change id f
  have hbegins := hsound.begins hf
  unfold Service.begin
  dsimp only
  generalize r.change id f = p at hframe' hretired hbegins ⊢
  obtain ⟨r', a⟩ := p
  dsimp only at hframe' hretired hbegins
  have hdue : r'.Retired = r.Retired := Registry.retired_congr hretired
  rw [← hdue] at hbegins
  rcases hbegins with ⟨c, rfl, hsound'⟩ | ⟨rfl, hsound'⟩
  · refine ⟨hframe', rfl, rfl, ?_⟩
    rw [Busy, List.map_append, also_append]
    exact hsound'
  · exact ⟨hframe', rfl, rfl, hsound'⟩

theorem announced_of_shared {id : SessionId} (h : σ.isShared id = true) :
    id ∈ σ.registry.announced :=
  List.contains_iff_mem.mp (Bool.and_eq_true_iff.mp h).1

theorem Sound.not_young {id : SessionId} (h : σ.Sound) (hid : id ∈ σ.registry.announced) :
    ¬ σ.Young id :=
  fun hy => (h.registry.young id hy).2 hid

theorem Session.quiet_use (s : Session) (u : Session.Use) : s.Quiet (s.use u) := by
  cases u with
  | shutdown => exact s.quiet_shutdown
  | kill => exact s.quiet_kill
  | openFile file => exact s.quiet_openFile file
  | closeFile file => exact s.quiet_closeFile file

theorem quiet_rests (h : σ.Sound) (id : SessionId) {f : Session → Session}
    (hq : ∀ s : Session, s.Quiet (f s)) (hstate : σ.Young id → ∀ s, (f s).state = s.state) :
    σ.Rests { σ with registry := σ.registry.modify id f } := by
  refine ⟨?_, rfl, rfl, h.registry.quiet id f hq hstate⟩
  exact σ.registry.frame_modify id f (fun s hs => (hq s).id.trans hs) fun s _ => (hq s).key

theorem event_rests (h : σ.Sound) (id : SessionId) (e : Connection.Event) :
    σ.Rests (σ.step (.event id e)) := by
  unfold step
  dsimp only
  split
  · exact quiet_rests h id (fun s => s.quiet_connection _ (s.connection.step_processAlive e))
      fun _ _ => rfl
  · exact Rests.rfl h

theorem use_rests (h : σ.Sound) (id : SessionId) (u : Session.Use) :
    σ.Rests (σ.step (.use id u)) := by
  unfold step
  dsimp only
  split
  · next hs =>
    exact quiet_rests h id (fun s => Session.quiet_use s u)
      fun hy => absurd hy (h.not_young (announced_of_shared hs))
  · exact Rests.rfl h

theorem shared_rests (h : σ.Sound) {id : SessionId} (hs : σ.isShared id = true)
    {f : Session → Session × Advance Cleanup Unit} (hf : Session.IsCleanup f) :
    σ.Rests (σ.begin id f) := by
  apply begin_rests id (Frame.rfl σ.registry) _ hf
  apply h.registry.also_due
  intro x hx
  rw [List.mem_singleton.mp hx]
  exact announced_of_shared hs

theorem also_eraseIdx {l : List SessionId} {i : Nat} {id : SessionId} (h : l[i]? = some id) :
    (fun x => x ∈ l) = also (fun x => x ∈ l.eraseIdx i) [id] := by
  obtain ⟨hi, rfl⟩ := List.getElem?_eq_some_iff.mp h
  funext x
  apply propext
  rw [also, List.mem_singleton, List.eraseIdx_eq_take_drop_succ]
  conv => lhs; rw [← List.take_append_drop i l, List.drop_eq_getElem_cons hi]
  rw [List.mem_append, List.mem_append, List.mem_cons, or_assoc]
  exact or_congr Iff.rfl or_comm

theorem reap_rests (h : σ.Sound) (i : Nat) : σ.Rests (σ.step (.reap i)) := by
  unfold step
  dsimp only
  split
  · next id hid =>
    let r : Registry := { σ.registry with retired := σ.registry.retired.eraseIdx i }
    have hframe : σ.registry.Frame r := Registry.frame_of_core rfl rfl
    have hretired : σ.registry.Retired = also r.Retired [id] := also_eraseIdx hid
    have hsound : r.Sound σ.Young σ.registry.Retired σ.Busy := h.registry.congr rfl
    rw [hretired] at hsound
    exact begin_rests id hframe hsound (Session.isCleanup_dispose σ.now)
  · exact Rests.rfl h

theorem clean_rests (h : σ.Sound) (i : Nat) : σ.Rests (σ.step (.clean i)) := by
  unfold step
  dsimp only
  split
  case h_2 => exact Rests.rfl h
  case h_1 id c hid =>
  have hkeys : (σ.cleanups.map Prod.fst)[i]? = some id := by simp [hid]
  have hsame : (σ.cleanups.map Prod.fst).set i id = σ.cleanups.map Prod.fst := by
    obtain ⟨hi, heq⟩ := List.getElem?_eq_some_iff.mp hkeys
    rw [← heq, List.set_getElem_self]
  have hbusy : σ.Busy = also (also (Among σ.calls Status.cleaning)
      ((σ.cleanups.eraseIdx i).map Prod.fst)) [id] := by
    have herase : (σ.cleanups.eraseIdx i).map Prod.fst = (σ.cleanups.map Prod.fst).eraseIdx i := by
      rw [List.eraseIdx_map]
    rw [herase]
    funext x
    have hx := congrFun (also_eraseIdx hkeys) x
    simp only [Busy, also, List.mem_singleton] at hx ⊢
    rw [hx, or_assoc]
  have hframe := σ.registry.frame_cleans id c σ.now
  have hretired := σ.registry.retired_change id (c.advance σ.now)
  have hreg := h.registry
  rw [hbusy] at hreg
  obtain ⟨hsound, a, ha, hdone⟩ := hreg.cleans c σ.now
  rw [← hbusy] at hsound
  generalize σ.registry.change id (c.advance σ.now) = p at hframe hretired hsound ha hdone ⊢
  obtain ⟨r, a'⟩ := p
  dsimp only at hframe hretired hsound ha hdone
  subst ha
  have hdue : r.Retired = σ.registry.Retired := Registry.retired_congr hretired
  rw [← hdue] at hsound hdone
  cases a with
  | idle => exact ⟨hframe, rfl, rfl, hsound⟩
  | on c' =>
    refine ⟨hframe, rfl, rfl, ?_⟩
    rw [Busy, List.map_set, hsame]
    exact hsound
  | done u => exact ⟨hframe, rfl, rfl, hdone rfl⟩

theorem release_rests (h : σ.Sound) (id : SessionId) : σ.Rests (σ.step (.release id)) := by
  unfold step
  dsimp only
  split
  case isFalse => exact Rests.rfl h
  case isTrue hloose =>
  simp only [isLoose, Bool.and_eq_true, Bool.not_eq_true', List.contains_eq_mem,
    decide_eq_false_iff_not, List.all_eq_true, Option.isSome_iff_exists] at hloose
  obtain ⟨⟨⟨⟨⟨hsome, hheld⟩, -⟩, -⟩, hcalls⟩, -⟩ := hloose
  -- a call holds its young session, so a loose one is not young
  have hyoung : ¬ σ.Young id := by
    rintro ⟨n, s, hs, hid⟩
    apply hcalls s (List.mem_of_getElem? hs)
    cases s with
    | replied reply => cases hid
    | running c => cases c <;> first | exact hid | cases hid
  have hquiet := h.registry.quiet id Session.release Session.quiet_release
    fun hy => absurd hy hyoung
  have hframe := σ.registry.frame_modify id Session.release
    (fun s hs => s.quiet_release.id.trans hs) fun s _ => s.quiet_release.key
  have hknows : (σ.registry.modify id Session.release).Knows id := by
    rw [Registry.Knows, hframe.count_eq]
    exact (h.registry.numbered id).mp hsome
  refine ⟨?_, rfl, rfl, ?_⟩
  · exact ⟨⟨rfl, rfl, rfl, hframe.count, hframe.keys⟩, rfl, hframe.count_eq, hframe.keys_eq⟩
  · refine ⟨hquiet.numbered, hquiet.launches, hquiet.tables, hquiet.announced_nodup,
      hquiet.announced_known, hquiet.held_announced, ?_, hquiet.young, hquiet.hands, hquiet.sessions⟩
    intro x hx
    rcases List.mem_append.mp hx with hx | hx
    · exact hquiet.released x hx
    · rw [List.mem_singleton.mp hx]
      exact ⟨hknows, hyoung, hheld⟩

theorem step_cases (h : σ.Sound) (a : Act) :
    (∃ d, a = .ask d) ∨ (∃ n, a = .advance n) ∨ σ.Rests (σ.step a) := by
  cases a with
  | ask d => exact .inl ⟨d, rfl⟩
  | advance ticket => exact .inr (.inl ⟨ticket, rfl⟩)
  | pass millis => exact .inr (.inr ⟨Frame.rfl σ.registry, rfl, rfl, h.registry⟩)
  | move host connect =>
    exact .inr (.inr ⟨Registry.frame_of_core rfl rfl, rfl, rfl, h.registry.congr rfl⟩)
  | event id e => exact .inr (.inr (event_rests h id e))
  | use id u => exact .inr (.inr (use_rests h id u))
  | dispose id =>
    right; right
    unfold step
    dsimp only
    split
    · next hs => exact shared_rests h hs (Session.isCleanup_dispose σ.now)
    · exact Rests.rfl h
  | shutdownAndKill id =>
    right; right
    unfold step
    dsimp only
    split
    · next hs => exact shared_rests h hs (Session.isCleanup_shutdownAndKill σ.now)
    · exact Rests.rfl h
  | reap i => exact .inr (.inr (reap_rests h i))
  | clean i => exact .inr (.inr (clean_rests h i))
  | release id => exact .inr (.inr (release_rests h id))

theorem step_leads (h : σ.Sound) (a : Act) : σ.Leads (σ.step a) := by
  rcases step_cases h a with ⟨d, rfl⟩ | ⟨ticket, rfl⟩ | hr
  · exact ask_leads h d
  · exact advance_leads h ticket
  · exact hr.leads h

theorem calls_step (h : σ.Sound) {n : Nat} {s : Status} (hs : σ.calls[n]? = some s) {a : Act}
    (ha : a ≠ .advance n) : (σ.step a).calls[n]? = some s := by
  rcases step_cases h a with ⟨d, rfl⟩ | ⟨m, rfl⟩ | hrests
  · exact (List.getElem?_append_left (List.getElem?_eq_some_iff.mp hs).1).trans hs
  · have hm : m ≠ n := fun heq => ha (congrArg Act.advance heq)
    unfold step
    dsimp only
    split
    · exact (List.getElem?_set_ne hm).trans hs
    · exact hs
  · exact hrests.calls.symm ▸ hs

theorem run_sound (h : σ.Sound) (as : List Act) : (σ.run as).Sound := by
  induction as generalizing σ with
  | nil => exact h
  | cons a as ih => exact ih (step_leads h a).sound

end Service

end LanguageSessions
