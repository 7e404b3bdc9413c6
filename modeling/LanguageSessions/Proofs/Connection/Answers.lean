import Mathlib.Data.List.Nodup
import LanguageSessions.Proofs.Connection.Ledger

namespace LanguageSessions

open Connection (Event)

namespace Connection

def taken (c : Connection) : List Event → List Nat
  | [] => []
  | e :: es =>
    (match e with
      | .take n => if (c.take? n).2.isSome then [n] else []
      | _ => []) ++ (c.step e).taken es

theorem outcome_of_error (r : Response) (e : ResponseError) (h : r.error = some e) :
    outcome r =
      .error (if e.code = connectionClosedCode then .connectionClosed else .server e.code e.message) := by
  simp [outcome, Response.outcome, h, ResponseError.fault]

theorem outcome_eq_closed_iff (r : Response) :
    outcome r = .error .connectionClosed ↔ ∃ e, r.error = some e ∧ e.code = connectionClosedCode := by
  constructor
  · intro h
    cases he : r.error with
    | none => simp [outcome, Response.outcome, he] at h
    | some e =>
      rw [outcome_of_error r e he] at h
      by_cases hc : e.code = connectionClosedCode
      · exact ⟨e, rfl, hc⟩
      · rw [if_neg hc] at h
        cases h
  · rintro ⟨e, he, hc⟩
    rw [outcome_of_error r e he, if_pos hc]

theorem sendRequest_eq_closed_iff (c : Connection) (method : String) (params : Option Json) :
    (c.sendRequest method params).2 = .error .connectionClosed ↔ c.closed = true := by
  constructor
  · intro h
    by_contra hopen
    rw [sendRequest_of_open c method params (Bool.eq_false_iff.mpr hopen) rfl] at h
    -- a channel that does not take the request says so otherwise
    unfold Channel.write at h
    split at h
    · cases h
    · split at h <;> cases h
  · intro h
    rw [sendRequest_of_closed c method params h]

theorem take?_of_lookup (c : Connection) (n : Nat) (r : Response) (h : c.settled.lookup n = some r) :
    (c.take? n).2 = some (outcome r) := by
  rw [take?, h]

theorem take?_of_pending (c : Connection) (n : Nat) (hn : n ∈ c.pending)
    (h : c.settled.lookup n = none) : (c.take? n).2 = none := by
  rw [take?, h]
  simp [hn]

theorem take?_of_lost (c : Connection) (n : Nat) (hn : n ∉ c.pending)
    (h : c.settled.lookup n = none) : (c.take? n).2 = some (.error .connectionClosed) := by
  rw [take?, h]
  simp [hn]

theorem settled_step (c : Connection) (e : Event) (a : Nat × Response) (ha : a ∈ c.settled) :
    a ∈ (c.step e).settled ∨ a.1 ∈ c.taken [e] := by
  have hbooks : ∀ d : Connection, d.books = c.books → a ∈ d.settled := by
    intro d hd
    have hs : d.settled = c.settled := congrArg (·.2.2.1) hd
    exact hs ▸ ha
  cases e with
  | send method params =>
    left
    unfold step
    dsimp only
    cases hc : c.closed with
    | true =>
      rw [sendRequest_of_closed c method params hc]
      exact ha
    | false =>
      rw [sendRequest_of_open c method params hc rfl]
      exact ha
  | take n =>
    by_cases hn : n = a.1
    · subst hn
      right
      have hl : (c.settled.lookup a.1).isSome := by
        rw [List.lookup_isSome_iff]
        exact ⟨a, ha, beq_self_eq_true _⟩
      obtain ⟨r, hr⟩ := Option.isSome_iff_exists.mp hl
      simp [taken, take?_of_lookup c a.1 r hr]
    · left
      unfold step take?
      dsimp only
      split
      · exact List.mem_filter.mpr ⟨ha, bne_iff_ne.mpr (Ne.symm hn)⟩
      · split <;> exact ha
  | hear m =>
    left
    unfold step
    dsimp only
    split
    · exact ha
    · cases m with
      | request r => exact ha
      | notification n => exact hbooks _ (hear_books c n)
      | response r =>
        rw [receive]
        rcases settle_cases c r with hr | ⟨n, -, -, hr⟩
        · rw [hr]
          exact ha
        · rw [hr]
          exact List.mem_append_left _ ha
  | exit =>
    left
    unfold step
    dsimp only
    split
    · exact ha
    · rw [fail_settled]
      exact List.mem_append_left _ ha
  | reply i => exact .inl (hbooks _ (reply_books c i))
  | _ => exact .inl ha

theorem settled_run (c : Connection) (es : List Event) (a : Nat × Response) (ha : a ∈ c.settled) :
    a ∈ (c.run es).settled ∨ a.1 ∈ c.taken es := by
  induction es generalizing c with
  | nil => exact .inl ha
  | cons e es ih =>
    rcases settled_step c e a ha with h | h
    · rcases ih (c.step e) h with h | h
      · exact .inl h
      · exact .inr (List.mem_append_right _ h)
    · right
      simp only [taken, List.append_nil] at h
      exact List.mem_append_left _ h

end Connection

namespace Ledger

theorem resolved_step (l : Ledger) (e : Event) (a : Nat × Response)
    (ha : a ∈ (l.step e).resolved) : a ∈ l.resolved ∨ a ∈ (l.step e).connection.settled := by
  have hold : (l.step e).answered = l.answered → (l.step e).failed = l.failed → a ∈ l.resolved := by
    intro hanswered hfailed
    rw [resolved, hanswered, hfailed] at ha
    exact ha
  cases e with
  | send method params => left; apply hold <;> (unfold step; dsimp only; split <;> rfl)
  | cancel id => left; apply hold <;> (unfold step; dsimp only; split <;> rfl)
  | hear m =>
    cases m with
    | response r =>
      cases hc : l.connection.closed with
      | true =>
        left
        apply hold <;> simp [step, hc]
      | false =>
        simp only [resolved, step, hc, Bool.false_eq_true, if_false, List.mem_append] at ha ⊢
        rcases ha with (ha | ha) | ha
        · exact .inl (.inl ha)
        · obtain ⟨n, hn, rfl⟩ := List.mem_map.mp ha
          obtain ⟨hpending, hr⟩ := List.mem_filter.mp hn
          right
          rw [Connection.step, if_neg (Bool.eq_false_iff.mp hc), Connection.receive,
            Connection.settle_of_names _ r n (of_decide_eq_true hr) hpending]
          exact List.mem_concat_self
        · exact .inl (.inr ha)
    | _ => exact .inl (hold rfl rfl)
  | exit =>
    simp only [resolved, step, List.mem_append] at ha ⊢
    rcases ha with ha | ha | ha
    · exact .inl (.inl ha)
    · exact .inl (.inr ha)
    · exact .inr (List.mem_of_mem_drop ha)
  | _ => exact .inl (hold rfl rfl)

theorem resolved_run (l : Ledger) (es : List Event) (a : Nat × Response)
    (ha : a ∈ (l.run es).resolved) :
    a ∈ l.resolved ∨ a ∈ (l.run es).connection.settled ∨ a.1 ∈ l.connection.taken es := by
  induction es generalizing l with
  | nil => exact .inl ha
  | cons e es ih =>
    have htaken : ∀ n ∈ (l.step e).connection.taken es, n ∈ l.connection.taken (e :: es) := by
      intro n hn
      rw [step_connection] at hn
      exact List.mem_append_right _ hn
    rcases ih (l.step e) ha with h | h | h
    · rcases resolved_step l e a h with h | h
      · exact .inl h
      · right
        rcases Connection.settled_run _ es a h with h | h
        · left
          rw [run_connection]
          rw [step_connection] at h
          exact h
        · exact .inr (htaken a.1 h)
    · exact .inr (.inl h)
    · exact .inr (.inr (htaken a.1 h))

variable {l : Ledger}

theorem Sound.eq_of_resolved (h : l.Sound) {n : Nat} {r s : Response} (hr : (n, r) ∈ l.resolved)
    (hs : (n, s) ∈ l.resolved) : r = s :=
  (Prod.mk.inj (List.inj_on_of_nodup_map h.resolved_nodup hr hs rfl)).2

theorem Sound.lookup_mem (h : l.Sound) {n : Nat} {r : Response}
    (hr : l.connection.settled.lookup n = some r) : (n, r) ∈ l.resolved := by
  obtain ⟨before, after, hsplit, -⟩ := List.lookup_eq_some_iff.mp hr
  exact h.settled.subset (by simp [hsplit])

theorem Sound.take?_of_settled (h : l.Sound) {n : Nat} {r : Response}
    (hr : (n, r) ∈ l.connection.settled) : (l.connection.take? n).2 = some (Connection.outcome r) := by
  have hfound : (l.connection.settled.lookup n).isSome := by
    rw [List.lookup_isSome_iff]
    exact ⟨(n, r), hr, beq_self_eq_true n⟩
  obtain ⟨s, hs⟩ := Option.isSome_iff_exists.mp hfound
  rw [Connection.take?_of_lookup _ n s hs, h.eq_of_resolved (h.lookup_mem hs) (h.settled.subset hr)]

theorem Sound.take?_eq_closed_iff (h : l.Sound) {n : Nat} (hn : n ∈ l.written)
    (huntaken : ∀ r, (n, r) ∈ l.resolved → (n, r) ∈ l.connection.settled) :
    (l.connection.take? n).2 = some (.error .connectionClosed) ↔
      n ∈ l.failed.map Prod.fst ∨ n ∈ l.cancelled ∨
        ∃ r e, (n, r) ∈ l.answered ∧ r.error = some e ∧ e.code = connectionClosedCode := by
  by_cases hresolved : n ∈ l.resolved.map Prod.fst
  · obtain ⟨⟨m, r⟩, hr, rfl⟩ := List.mem_map.mp hresolved
    have hnot := (h.resolved_written m hresolved).2
    rw [h.take?_of_settled (huntaken r hr), Option.some.injEq]
    rcases List.mem_append.mp hr with ha | hf
    · rw [Connection.outcome_eq_closed_iff]
      constructor
      · rintro ⟨e, he, hc⟩
        exact .inr (.inr ⟨r, e, ha, he, hc⟩)
      · rintro (hf | hc | ⟨s, e, hs, he, hc⟩)
        · obtain ⟨⟨k, s⟩, hs, rfl⟩ := List.mem_map.mp hf
          rw [← Connection.outcome_eq_closed_iff, h.eq_of_resolved hr (List.mem_append_right _ hs)]
          exact h.failed _ hs
        · exact absurd hc hnot
        · rw [h.eq_of_resolved hr (List.mem_append_left _ hs)]
          exact ⟨e, he, hc⟩
    · simp only [h.failed _ hf, true_iff]
      exact .inl (List.mem_map.mpr ⟨_, hf, rfl⟩)
  · have hlookup : l.connection.settled.lookup n = none := by
      rw [Option.eq_none_iff_forall_ne_some]
      intro r hr
      exact hresolved (List.mem_map.mpr ⟨_, h.lookup_mem hr, rfl⟩)
    have hanswered : ∀ r, (n, r) ∉ l.answered := fun r hr =>
      hresolved (List.mem_map.mpr ⟨_, List.mem_append_left _ hr, rfl⟩)
    have hfailed : n ∉ l.failed.map Prod.fst := by
      rw [resolved, List.map_append, List.mem_append, not_or] at hresolved
      exact hresolved.2
    by_cases hcancelled : n ∈ l.cancelled
    · have hlost : n ∉ l.connection.pending := fun hp => ((h.pending_iff n).mp hp).2.2 hcancelled
      simp [Connection.take?_of_lost _ n hlost hlookup, hcancelled]
    · have hpending := (h.pending_iff n).mpr ⟨hn, hresolved, hcancelled⟩
      simp [Connection.take?_of_pending _ n hpending hlookup, hfailed, hcancelled, hanswered]

end Ledger

end LanguageSessions
