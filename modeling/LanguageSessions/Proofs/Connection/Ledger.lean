import LanguageSessions.Proofs.Connection.Requests

/-!
A `Ledger` runs a connection and notes the fate of every request. `Ledger.Matched` says what holds
between the notes and the connection along every run.
-/
namespace LanguageSessions

open Connection (Event)

structure Ledger where
  connection : Connection
  sends : List (Option Nat) := []
  answered : List (Nat × Response) := []
  cancelled : List Nat := []
  failed : List (Nat × Response) := []

namespace Ledger

def written (l : Ledger) : List Nat := l.sends.filterMap id

def resolved (l : Ledger) : List (Nat × Response) := l.answered ++ l.failed

def named (l : Ledger) (r : Response) : List Nat := l.connection.pending.filter (r.Names ·)

/-- An answer is noted as it is heard, whatever the connection makes of it. -/
def step (l : Ledger) (e : Event) : Ledger :=
  let c := l.connection.step e
  match e with
  | .send method params =>
    if l.connection.closed then { l with connection := c }
    else
      { l with
        connection := c
        sends := l.sends ++ [(l.connection.sendRequest method params).2.toOption] }
  | .cancel id =>
    if id ∈ l.connection.pending then { l with connection := c, cancelled := l.cancelled ++ [id] }
    else { l with connection := c }
  | .hear (.response r) =>
    if l.connection.closed then { l with connection := c }
    else { l with connection := c, answered := l.answered ++ (l.named r).map (·, r) }
  | .exit =>
    { l with
      connection := c
      failed := l.failed ++ c.settled.drop l.connection.settled.length }
  | _ => { l with connection := c }

def run (l : Ledger) (es : List Event) : Ledger := es.foldl step l

theorem step_connection (l : Ledger) (e : Event) :
    (l.step e).connection = l.connection.step e := by
  cases e with
  | send method params => unfold step; dsimp only; split <;> rfl
  | cancel id => unfold step; dsimp only; split <;> rfl
  | hear m =>
    cases m with
    | response r => unfold step; dsimp only; split <;> rfl
    | _ => rfl
  | _ => rfl

theorem run_connection (l : Ledger) (es : List Event) :
    (l.run es).connection = l.connection.run es := by
  induction es generalizing l with
  | nil => rfl
  | cons e es ih => exact (ih (l.step e)).trans (by rw [step_connection]; rfl)

structure Sound (l : Ledger) : Prop where
  numbers : ∀ i n, l.sends[i]? = some (some n) → n = i + 1
  next : l.connection.nextId = l.sends.length + 1
  pending_nodup : l.connection.pending.Nodup
  pending_iff : ∀ n, n ∈ l.connection.pending ↔
    n ∈ l.written ∧ n ∉ l.resolved.map Prod.fst ∧ n ∉ l.cancelled
  resolved_nodup : (l.resolved.map Prod.fst).Nodup
  resolved_written : ∀ n ∈ l.resolved.map Prod.fst, n ∈ l.written ∧ n ∉ l.cancelled
  cancelled_written : ∀ n ∈ l.cancelled, n ∈ l.written
  settled : l.connection.settled.Sublist l.resolved
  answered : ∀ e ∈ l.answered, e.2.Names e.1
  failed : ∀ e ∈ l.failed, Connection.outcome e.2 = .error .connectionClosed
  open_of_failed : l.connection.closed = false → l.failed = []
  pending_of_closed : l.connection.closed = true → l.connection.pending = []

theorem written_bound {l : Ledger} (h : l.Sound) {n : Nat} (hn : n ∈ l.written) :
    0 < n ∧ n < l.connection.nextId := by
  obtain ⟨o, ho, rfl⟩ := List.mem_filterMap.mp hn
  obtain ⟨i, hi, hget⟩ := List.getElem_of_mem ho
  have hnum := h.numbers i n (by rw [List.getElem?_eq_getElem hi, hget])
  have hnext := h.next
  omega

theorem Sound.congr {l : Ledger} (h : l.Sound) {c : Connection}
    (hc : c.books = l.connection.books) : ({ l with connection := c } : Ledger).Sound := by
  simp only [Connection.books, Prod.mk.injEq] at hc
  obtain ⟨hnext, hpending, hsettled, hclosed⟩ := hc
  exact {
    numbers := h.numbers
    next := hnext.trans h.next
    pending_nodup := by simpa only [hpending] using h.pending_nodup
    pending_iff := by
      intro n
      change n ∈ c.pending ↔ _
      rw [hpending]
      exact h.pending_iff n
    resolved_nodup := h.resolved_nodup
    resolved_written := h.resolved_written
    cancelled_written := h.cancelled_written
    settled := by
      change c.settled.Sublist _
      rw [hsettled]
      exact h.settled
    answered := h.answered
    failed := h.failed
    open_of_failed := by simpa only [hclosed] using h.open_of_failed
    pending_of_closed := by simpa only [hclosed, hpending] using h.pending_of_closed }

theorem Sound.start {c : Connection} (hnext : c.nextId = 1) (hpending : c.pending = [])
    (hsettled : c.settled = []) : ({ connection := c } : Ledger).Sound where
  numbers := by simp
  next := hnext
  pending_nodup := by simp [hpending]
  pending_iff := by simp [hpending, written]
  resolved_nodup := by simp [resolved]
  resolved_written := by simp [resolved]
  cancelled_written := by simp
  settled := by simp [hsettled]
  answered := by simp
  failed := by simp
  open_of_failed := by simp
  pending_of_closed := by simp [hpending]

theorem Sound.numbers_concat {l : Ledger} (h : l.Sound) (o : Option Nat)
    (ho : ∀ n ∈ o, n = l.connection.nextId) (i n : Nat)
    (hi : (l.sends ++ [o])[i]? = some (some n)) : n = i + 1 := by
  rcases Nat.lt_trichotomy i l.sends.length with hlt | heq | hgt
  · rw [List.getElem?_append_left hlt] at hi
    exact h.numbers i n hi
  · subst heq
    rw [List.getElem?_concat_length, Option.some.injEq] at hi
    have := ho n hi
    have := h.next
    omega
  · rw [List.getElem?_eq_none (by simp; omega)] at hi
    cases hi

theorem Sound.unwritten {l : Ledger} (h : l.Sound) (hopen : l.connection.closed = false)
    (channel : Channel) :
    ({ l with
        connection := { l.connection with nextId := l.connection.nextId + 1, channel := channel }
        sends := l.sends ++ [none] } : Ledger).Sound := by
  have hwritten : (l.sends ++ [none]).filterMap id = l.written := by simp [written]
  exact {
    numbers := h.numbers_concat none (by simp)
    next := by simp [h.next]
    pending_nodup := h.pending_nodup
    pending_iff := by
      intro n
      change n ∈ l.connection.pending ↔ n ∈ (l.sends ++ [none]).filterMap id ∧ _
      rw [hwritten]
      exact h.pending_iff n
    resolved_nodup := h.resolved_nodup
    resolved_written := by
      change ∀ n ∈ _, n ∈ (l.sends ++ [none]).filterMap id ∧ _
      rw [hwritten]
      exact h.resolved_written
    cancelled_written := by
      change ∀ n ∈ _, n ∈ (l.sends ++ [none]).filterMap id
      rw [hwritten]
      exact h.cancelled_written
    settled := h.settled
    answered := h.answered
    failed := h.failed
    open_of_failed := fun _ => h.open_of_failed hopen
    pending_of_closed := by simp [hopen] }

theorem Sound.wrote {l : Ledger} (h : l.Sound) (hopen : l.connection.closed = false)
    (channel : Channel) :
    ({ l with
        connection :=
          { l.connection with
            nextId := l.connection.nextId + 1
            channel := channel
            pending := l.connection.pending ++ [l.connection.nextId] }
        sends := l.sends ++ [some l.connection.nextId] } : Ledger).Sound := by
  have hwritten : (l.sends ++ [some l.connection.nextId]).filterMap id =
      l.written ++ [l.connection.nextId] := by simp [written]
  have hnew : l.connection.nextId ∉ l.written := by
    intro hn
    have := (written_bound h hn).2
    omega
  exact {
    numbers := h.numbers_concat (some l.connection.nextId) (by simp)
    next := by simp [h.next]
    pending_nodup := by
      refine List.nodup_append.mpr ⟨h.pending_nodup, by simp, ?_⟩
      rintro n hn m hm rfl
      rw [List.mem_singleton.mp hm] at hn
      exact hnew ((h.pending_iff _).mp hn).1
    pending_iff := by
      intro n
      change n ∈ l.connection.pending ++ [l.connection.nextId] ↔
        n ∈ (l.sends ++ [some l.connection.nextId]).filterMap id ∧
          n ∉ l.resolved.map Prod.fst ∧ n ∉ l.cancelled
      rw [hwritten, List.mem_append, List.mem_append, List.mem_singleton, h.pending_iff n]
      constructor
      · rintro (⟨hn, hrest⟩ | rfl)
        · exact ⟨.inl hn, hrest⟩
        · exact ⟨.inr rfl, fun hn => hnew (h.resolved_written _ hn).1,
            fun hn => hnew (h.cancelled_written _ hn)⟩
      · rintro ⟨hn | rfl, hrest⟩
        · exact .inl ⟨hn, hrest⟩
        · exact .inr rfl
    resolved_nodup := h.resolved_nodup
    resolved_written := by
      intro n hn
      change n ∈ (l.sends ++ [some l.connection.nextId]).filterMap id ∧ n ∉ l.cancelled
      rw [hwritten]
      exact ⟨List.mem_append_left _ (h.resolved_written n hn).1, (h.resolved_written n hn).2⟩
    cancelled_written := by
      intro n hn
      change n ∈ (l.sends ++ [some l.connection.nextId]).filterMap id
      rw [hwritten]
      exact List.mem_append_left _ (h.cancelled_written n hn)
    settled := h.settled
    answered := h.answered
    failed := h.failed
    open_of_failed := fun _ => h.open_of_failed hopen
    pending_of_closed := by simp [hopen] }

theorem Sound.send {l : Ledger} (h : l.Sound) (method : String) (params : Option Json) :
    (l.step (.send method params)).Sound := by
  cases hc : l.connection.closed with
  | true =>
    have hsame : l.step (.send method params) = l := by
      simp [step, Connection.step, hc, Connection.sendRequest_of_closed]
    rw [hsame]
    exact h
  | false =>
    have hsend := Connection.sendRequest_of_open l.connection method params hc rfl
    generalize l.connection.channel.write
      (Connection.requestText l.connection.nextId method params) = w at hsend
    obtain ⟨channel, result⟩ := w
    simp only [step, Connection.step]
    rw [if_neg (Bool.eq_false_iff.mp hc), hsend]
    cases result with
    | error f => exact h.unwritten hc channel
    | ok u => exact h.wrote hc channel

theorem Sound.cancel {l : Ledger} (h : l.Sound) (id : Nat) : (l.step (.cancel id)).Sound := by
  by_cases hid : id ∈ l.connection.pending
  · have hbooks : (l.connection.cancelRequest id).books = (l.connection.nextId,
        l.connection.pending.filter (· != id), l.connection.settled, l.connection.closed) := rfl
    have hopen : l.connection.closed ≠ true := by
      intro hc
      rw [h.pending_of_closed hc] at hid
      cases hid
    have hw := (h.pending_iff id).mp hid
    simp only [step, Connection.step, hid, if_true]
    generalize l.connection.cancelRequest id = c at hbooks
    simp only [Connection.books, Prod.mk.injEq] at hbooks
    obtain ⟨hnext, hpending, hsettled, hclosed⟩ := hbooks
    exact {
      numbers := h.numbers
      next := hnext.trans h.next
      pending_nodup := by
        change c.pending.Nodup
        rw [hpending]
        exact h.pending_nodup.filter _
      pending_iff := by
        intro n
        change n ∈ c.pending ↔ n ∈ l.written ∧ n ∉ l.resolved.map Prod.fst ∧ n ∉ l.cancelled ++ [id]
        rw [hpending, List.mem_filter, h.pending_iff n]
        simp only [bne_iff_ne, List.mem_append, List.mem_singleton, not_or]
        tauto
      resolved_nodup := h.resolved_nodup
      resolved_written := by
        intro n hn
        change n ∈ l.written ∧ n ∉ l.cancelled ++ [id]
        refine ⟨(h.resolved_written n hn).1, ?_⟩
        rw [List.mem_append, List.mem_singleton]
        rintro (hc | rfl)
        · exact (h.resolved_written n hn).2 hc
        · exact hw.2.1 hn
      cancelled_written := by
        intro n hn
        rcases List.mem_append.mp hn with hn | hn
        · exact h.cancelled_written n hn
        · rw [List.mem_singleton.mp hn]
          exact hw.1
      settled := by
        change c.settled.Sublist _
        rw [hsettled]
        exact h.settled
      answered := h.answered
      failed := h.failed
      open_of_failed := by
        change c.closed = false → _
        rw [hclosed]
        exact h.open_of_failed
      pending_of_closed := by
        intro hc
        exact absurd (hclosed ▸ hc) hopen }
  · simp only [step, Connection.step, hid, if_false]
    exact h.congr (l.connection.cancelRequest_books hid)

theorem Sound.take {l : Ledger} (h : l.Sound) (id : Nat) : (l.step (.take id)).Sound := by
  have hsame : (l.connection.take? id).1 = l.connection ∨
      (l.connection.take? id).1 =
        { l.connection with settled := l.connection.settled.filter (·.1 != id) } := by
    unfold Connection.take?
    split
    · exact .inr rfl
    · split <;> exact .inl rfl
  simp only [step, Connection.step]
  rcases hsame with hsame | hsame
  · rw [hsame]
    exact h
  · rw [hsame]
    exact { h with settled := List.filter_sublist.trans h.settled }

theorem Sound.resolve {l m : Ledger} (h : l.Sound) (out : List (Nat × Response))
    (hsends : m.sends = l.sends) (hcancelled : m.cancelled = l.cancelled)
    (hresolved : m.resolved = l.resolved ++ out)
    (hnext : m.connection.nextId = l.connection.nextId)
    (hpending : m.connection.pending =
      l.connection.pending.filter fun n => !(out.map Prod.fst).contains n)
    (hsettled : m.connection.settled = l.connection.settled ++ out)
    (hout : ∀ n ∈ out.map Prod.fst, n ∈ l.connection.pending) (hnodup : (out.map Prod.fst).Nodup)
    (hanswered : ∀ e ∈ m.answered, e.2.Names e.1)
    (hfailed : ∀ e ∈ m.failed, Connection.outcome e.2 = .error .connectionClosed)
    (hopen : m.connection.closed = false → m.failed = [])
    (hclosed : m.connection.closed = true → m.connection.pending = []) : m.Sound := by
  have hwritten : m.written = l.written := by rw [written, written, hsends]
  have hkeys : m.resolved.map Prod.fst = l.resolved.map Prod.fst ++ out.map Prod.fst := by
    rw [hresolved, List.map_append]
  exact {
    numbers := hsends ▸ h.numbers
    next := by rw [hnext, hsends, h.next]
    pending_nodup := by
      rw [hpending]
      exact h.pending_nodup.filter _
    pending_iff := by
      intro n
      rw [hpending, hwritten, hkeys, hcancelled, List.mem_filter, h.pending_iff n, List.mem_append,
        List.contains_eq_mem, Bool.not_eq_true', decide_eq_false_iff_not]
      tauto
    resolved_nodup := by
      rw [hkeys]
      refine List.nodup_append.mpr ⟨h.resolved_nodup, hnodup, ?_⟩
      rintro n hn m hm rfl
      exact ((h.pending_iff n).mp (hout n hm)).2.1 hn
    resolved_written := by
      intro n hn
      rw [hwritten, hcancelled]
      rw [hkeys] at hn
      rcases List.mem_append.mp hn with hn | hn
      · exact h.resolved_written n hn
      · have hw := (h.pending_iff n).mp (hout n hn)
        exact ⟨hw.1, hw.2.2⟩
    cancelled_written := by
      rw [hwritten, hcancelled]
      exact h.cancelled_written
    settled := by
      rw [hsettled, hresolved]
      exact h.settled.append (List.Sublist.refl _)
    answered := hanswered
    failed := hfailed
    open_of_failed := hopen
    pending_of_closed := hclosed }

theorem Sound.named_eq {l : Ledger} (h : l.Sound) {r : Response} {n : Nat} (hr : r.Names n)
    (hn : n ∈ l.connection.pending) : l.named r = [n] := by
  have hsame : ∀ m ∈ l.connection.pending, decide (r.Names m) = (m == n) := by
    intro m _
    rw [Bool.eq_iff_iff, decide_eq_true_eq, beq_iff_eq]
    exact ⟨fun hm => hm.eq hr, fun hm => hm ▸ hr⟩
  rw [named, List.filter_congr hsame, List.filter_beq, h.pending_nodup.count, if_pos hn]
  rfl

theorem named_eq_nil {l : Ledger} {r : Response} (hr : ∀ n ∈ l.connection.pending, ¬ r.Names n) :
    l.named r = [] := List.filter_eq_nil_iff.mpr (by simpa using hr)

theorem Sound.answer {l : Ledger} (h : l.Sound) {r : Response} {n : Nat}
    (hopen : l.connection.closed = false) (hr : r.Names n) (hn : n ∈ l.connection.pending) :
    l.step (.hear (.response r)) =
      { l with
        connection :=
          { l.connection with
            pending := l.connection.pending.filter (· != n)
            settled := l.connection.settled ++ [(n, r)] }
        answered := l.answered ++ [(n, r)] } := by
  simp only [step, Connection.step, hopen, Bool.false_eq_true, if_false, Connection.receive,
    Connection.settle_of_names _ r n hr hn, h.named_eq hr hn, List.map_cons, List.map_nil]

theorem step_ignored {l : Ledger} {r : Response} (hr : ∀ n ∈ l.connection.pending, ¬ r.Names n) :
    l.step (.hear (.response r)) = l := by
  unfold step Connection.step
  dsimp only
  split
  · rfl
  · rw [Connection.receive, Connection.settle_eq_self l.connection r hr, named_eq_nil hr,
      List.map_nil, List.append_nil]

theorem Sound.hear {l : Ledger} (h : l.Sound) (m : Message) : (l.step (.hear m)).Sound := by
  have hbooks : (∀ r, m ≠ .response r) → (l.connection.step (.hear m)).books = l.connection.books := by
    intro hm
    rw [Connection.step]
    split
    · rfl
    · cases m with
      | request r => rfl
      | notification n => exact Connection.hear_books l.connection n
      | response r => exact absurd rfl (hm r)
  cases m with
  | request r => exact h.congr (hbooks (by simp))
  | notification n => exact h.congr (hbooks (by simp))
  | response r =>
    by_cases hsettles : l.connection.closed = false ∧ ∃ n ∈ l.connection.pending, r.Names n
    · obtain ⟨hopen, n, hn, hr⟩ := hsettles
      -- nothing has failed on an open connection, so the answer comes last among the resolved
      have hfailed := h.open_of_failed hopen
      rw [h.answer hopen hr hn]
      apply h.resolve [(n, r)]
      · rfl
      · rfl
      · simp [resolved, hfailed]
      · rfl
      · apply List.filter_congr
        intro m _
        simp [bne, beq_eq_decide]
      · rfl
      · simpa using hn
      · simp
      · intro e he
        rcases List.mem_append.mp he with he | he
        · exact h.answered e he
        · rw [List.mem_singleton.mp he]
          exact hr
      · exact h.failed
      · exact fun _ => hfailed
      · simp [hopen]
    · have hnone : ∀ n ∈ l.connection.pending, ¬ r.Names n := by
        intro n hn hr
        cases hc : l.connection.closed with
        | true =>
          rw [h.pending_of_closed hc] at hn
          cases hn
        | false => exact hsettles ⟨hc, n, hn, hr⟩
      rw [step_ignored hnone]
      exact h

theorem Sound.exit {l : Ledger} (h : l.Sound) : (l.step .exit).Sound := by
  cases hc : l.connection.closed with
  | true =>
    have hsame : l.step .exit = l := by simp [step, Connection.step, hc]
    rw [hsame]
    exact h
  | false =>
    have hkeys : (l.connection.pending.map l.connection.lost).map Prod.fst = l.connection.pending := by
      rw [List.map_map]
      exact List.map_id _
    simp only [step, Connection.step, hc, Bool.false_eq_true, if_false]
    rw [Connection.fail_settled, List.drop_left]
    apply h.resolve (l.connection.pending.map l.connection.lost)
    · rfl
    · rfl
    · exact (List.append_assoc _ _ _).symm
    · rfl
    · rw [hkeys]
      symm
      apply List.filter_eq_nil_iff.mpr
      simp
    · rfl
    · rw [hkeys]
      exact fun n hn => hn
    · rw [hkeys]
      exact h.pending_nodup
    · exact h.answered
    · intro e he
      rcases List.mem_append.mp he with he | he
      · exact h.failed e he
      · obtain ⟨n, hn, rfl⟩ := List.mem_map.mp he
        exact Connection.outcome_lost l.connection n
    · intro ho
      cases ho
    · exact fun _ => rfl

theorem Sound.step {l : Ledger} (h : l.Sound) (e : Event) : (l.step e).Sound := by
  cases e with
  | send method params => exact h.send method params
  | cancel id => exact h.cancel id
  | take id => exact h.take id
  | hear m => exact h.hear m
  | exit => exact h.exit
  | reply i => exact h.congr (Connection.reply_books l.connection i)
  | _ => exact h.congr rfl

theorem Sound.run {l : Ledger} (h : l.Sound) (es : List Event) : (l.run es).Sound := by
  induction es generalizing l with
  | nil => exact h
  | cons e es ih => exact ih (h.step e)

theorem Sound.fresh {l : Ledger} (h : l.Sound) (method : String) (params : Option Json) (n : Nat)
    (hn : (l.connection.sendRequest method params).2 = .ok n) :
    n = l.sends.length + 1 ∧ n ∉ l.written ∧
      (l.connection.sendRequest method params).1.channel.outgoing =
        l.connection.channel.outgoing ++ [Connection.requestText n method params] := by
  have hout := Connection.sendRequest_outgoing l.connection method params
  rw [hn] at hout
  cases hc : l.connection.closed with
  | true =>
    rw [Connection.sendRequest_of_closed _ _ _ hc] at hn
    cases hn
  | false =>
    rw [Connection.sendRequest_of_open _ _ _ hc rfl] at hn
    have hnext : n = l.connection.nextId := by
      dsimp only at hn
      generalize (l.connection.channel.write _).2 = w at hn
      cases w with
      | error f => cases hn
      | ok u => exact (Except.ok.inj hn).symm
    refine ⟨hnext.trans h.next, ?_, hout⟩
    intro hw
    have := (written_bound h hw).2
    omega

theorem Sound.exited {l : Ledger} (h : l.Sound) : (l.step .exit).connection.closed = true ∧
    (l.step .exit).connection.pending = [] ∧ ∀ n ∈ l.connection.pending,
      ∃ r, (n, r) ∈ (l.step .exit).failed ∧ Connection.outcome r = .error .connectionClosed := by
  have hclosed : (l.step .exit).connection.closed = true := by
    rw [step_connection, Connection.step]
    split
    · assumption
    · rfl
  refine ⟨hclosed, (h.step .exit).pending_of_closed hclosed, ?_⟩
  cases hc : l.connection.closed with
  | true =>
    intro n hn
    rw [h.pending_of_closed hc] at hn
    cases hn
  | false =>
    simp only [Ledger.step, Connection.step, hc, Bool.false_eq_true, if_false]
    intro n hn
    refine ⟨(l.connection.lost n).2, ?_, Connection.outcome_lost l.connection n⟩
    rw [Connection.fail_settled, List.drop_left]
    exact List.mem_append_right _ (List.mem_map.mpr ⟨n, hn, rfl⟩)

end Ledger

end LanguageSessions
