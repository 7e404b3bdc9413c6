import LanguageSessions.Proofs.Connection.Events
import LanguageSessions.Proofs.Text.Unsigned

namespace LanguageSessions

/-- An answer names a request by its number, or by a text that writes the number. -/
def Response.Names (r : Response) (n : Nat) : Prop :=
  r.id = some (.number n) ∨ ∃ s, r.id = some (.text s) ∧ Text.Writes Text.max64 s.toList n

theorem Response.names_iff (r : Response) (n : Nat) :
    r.Names n ↔ r.id.bind RequestId.number? = some n := by
  unfold Response.Names
  cases r.id with
  | none => simp
  | some id =>
    cases id with
    | number m => simp [RequestId.number?]
    | text s => simp [RequestId.number?, Text.unsigned?_eq_some_iff]

instance (r : Response) (n : Nat) : Decidable (r.Names n) := decidable_of_iff _ (r.names_iff n).symm

theorem Response.Names.eq {r : Response} {n m : Nat} (hn : r.Names n) (hm : r.Names m) : n = m :=
  Option.some.inj (((r.names_iff n).mp hn).symm.trans ((r.names_iff m).mp hm))

namespace Connection

def books (c : Connection) : Nat × List Nat × List (Nat × Response) × Bool :=
  (c.nextId, c.pending, c.settled, c.closed)

theorem logged_books (c : Connection) (params : Json) : (c.logged params).books = c.books := by
  unfold logged
  split <;> rfl

theorem hear_books (c : Connection) (n : Notification) : (c.hear n).books = c.books := by
  unfold hear
  dsimp only
  split
  · split <;> rfl
  · exact logged_books c _
  · exact logged_books c _
  · rfl

theorem reply_books (c : Connection) (i : Nat) : (c.reply i).books = c.books := by
  unfold reply
  split <;> rfl

theorem cancelRequest_books (c : Connection) {id : Nat} (h : id ∉ c.pending) :
    (c.cancelRequest id).books = c.books := by
  change (c.nextId, c.pending.filter (· != id), _, _) = c.books
  rw [List.filter_eq_self.mpr]
  · rfl
  · intro n hn
    rw [bne_iff_ne]
    rintro rfl
    exact h hn

def requestText (n : Nat) (method : String) (params : Option Json) : String :=
  Message.text (.request { id := .number n, method := method, params := params })

theorem sendRequest_of_open (c : Connection) (method : String) (params : Option Json)
    (h : c.closed = false) {w : Channel × Except Fault Unit}
    (hw : c.channel.write (requestText c.nextId method params) = w) :
    c.sendRequest method params =
      ({ c with
          nextId := c.nextId + 1
          channel := w.1
          pending := if w.2.isOk then c.pending ++ [c.nextId] else c.pending },
        w.2.map fun _ => c.nextId) := by
  have hwrite : ({ c with nextId := c.nextId + 1 } : Connection).write
      (.request { id := .number c.nextId, method := method, params := params }) =
      ({ c with nextId := c.nextId + 1, channel := w.1 }, w.2) := by
    rw [← hw]
    rfl
  rw [sendRequest, if_neg (by simp [h])]
  dsimp only
  rw [hwrite]
  cases w.2 <;> rfl

theorem sendRequest_of_closed (c : Connection) (method : String) (params : Option Json)
    (h : c.closed = true) : c.sendRequest method params = (c, .error .connectionClosed) := by
  simp [sendRequest, h]

theorem settle_of_names (c : Connection) (r : Response) (n : Nat) (hr : r.Names n)
    (hn : n ∈ c.pending) :
    c.settle r = { c with pending := c.pending.filter (· != n), settled := c.settled ++ [(n, r)] } := by
  have hname : c.named? r = some n := by
    rw [named?, (r.names_iff n).mp hr]
    simpa [Option.filter] using hn
  rw [settle, hname]

theorem settle_eq_self (c : Connection) (r : Response) (h : ∀ n ∈ c.pending, ¬ r.Names n) :
    c.settle r = c := by
  have hname : c.named? r = none := by
    rw [named?, Option.filter_eq_none_iff]
    intro n hn
    simpa using fun hp => h n hp ((r.names_iff n).mpr hn)
  rw [settle, hname]

theorem settle_cases (c : Connection) (r : Response) :
    c.settle r = c ∨ ∃ n ∈ c.pending, r.Names n ∧
      c.settle r = { c with pending := c.pending.filter (· != n), settled := c.settled ++ [(n, r)] } := by
  by_cases h : ∃ n ∈ c.pending, r.Names n
  · obtain ⟨n, hn, hr⟩ := h
    exact .inr ⟨n, hn, hr, settle_of_names c r n hr hn⟩
  · left
    apply settle_eq_self
    intro n hn hr
    exact h ⟨n, hn, hr⟩

def lost (c : Connection) (n : Nat) : Nat × Response :=
  (n, .failure (some (.number n)) connectionClosedCode (c.name ++ " closed the connection"))

theorem fail_settled (c : Connection) : c.fail.settled = c.settled ++ c.pending.map c.lost := rfl

theorem outcome_lost (c : Connection) (n : Nat) : outcome (c.lost n).2 = .error .connectionClosed := rfl

theorem sendRequest_outgoing (c : Connection) (method : String) (params : Option Json) :
    (c.sendRequest method params).1.channel.outgoing = c.channel.outgoing ++
      match (c.sendRequest method params).2 with
      | .ok n => [requestText n method params]
      | .error _ => [] := by
  cases h : c.closed with
  | true => simp [sendRequest_of_closed c method params h]
  | false =>
    rw [sendRequest_of_open c method params h rfl]
    unfold Channel.write
    by_cases hf : c.channel.finished = true
    · simp [hf, Except.map]
    · by_cases ha : c.channel.accepting = true
      · simp [hf, ha, Except.map]
      · simp [hf, ha, Except.map]

end Connection

end LanguageSessions
