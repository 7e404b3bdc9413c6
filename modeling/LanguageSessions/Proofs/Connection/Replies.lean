import Mathlib.Data.List.Perm.Basic
import LanguageSessions.Proofs.Connection.Writing
import LanguageSessions.Proofs.Wire.RoundTrip
import LanguageSessions.Proofs.Wire.Shapes

namespace LanguageSessions

open Json

def Message.response? : Message → Option Response
  | .response r => some r
  | _ => none

def itemCount (params : Option Json) : Nat :=
  match params.bind (·.get? "items") with
  | some (.array items) => items.length
  | _ => 0

theorem itemCount_present (params : Option Json) : itemCount (present params) = itemCount params := by
  cases params with
  | none => rfl
  | some v => cases v <;> rfl

namespace Connection

def asks (c : Connection) : Event → List Request
  | .hear (.request r) => if c.closed then [] else [r]
  | _ => []

def asked (c : Connection) : List Event → List Request
  | [] => []
  | e :: es => c.asks e ++ (c.step e).asked es

def fixedResults (folder : WorkspaceFolder) : List (String × Json) :=
  [("workspace/workspaceFolders", .array [folder.toJson]),
    ("client/registerCapability", .null),
    ("client/unregisterCapability", .null),
    ("window/workDoneProgress/create", .null),
    ("window/showDocument", .object [("success", .bool false)]),
    ("workspace/applyEdit", .object [("applied", .bool false),
      ("failureReason", .string "Edits are not applied by this client")])]

def result? (folder : WorkspaceFolder) (r : Request) : Option Json :=
  if r.method = "workspace/configuration" then some (.array (List.replicate (itemCount r.params) .null))
  else (fixedResults folder).lookup r.method

def refusal (r : Request) : ResponseError :=
  { code := -32601, message := "Method not found: " ++ r.method }

theorem refusal_held (r : Request) : (refusal r).Held := by
  change (-2147483648 : Int) ≤ -32601 ∧ (-32601 : Int) ≤ 2147483647
  decide

theorem items_eq (r : Request) :
    ((((r.params.bind (·.get? "items")).map Json.elements).getD []).map fun _ => Json.null) =
      List.replicate (itemCount r.params) .null := by
  unfold itemCount
  split
  · next items h =>
    rw [h]
    exact List.map_const'
  · next hnone =>
    cases hitems : r.params.bind (·.get? "items") with
    | none => rfl
    | some v =>
      cases v with
      | array items => exact absurd hitems (hnone items)
      | _ => rfl

theorem answer_eq (c : Connection) (r : Request) :
    c.answer r = match result? c.folder r with
      | some v => .success r.id v
      | none => { id := some r.id, error := some (refusal r) } := by
  unfold answer result?
  split
  · next h =>
    rw [if_pos h]
    exact congrArg (fun xs => Response.success r.id (.array xs)) (items_eq r)
  · next h => simp [h, fixedResults]
  · next h => simp [h, fixedResults, List.lookup_cons]
  · next h => simp [h, fixedResults, List.lookup_cons]
  · next h => simp [h, fixedResults, List.lookup_cons]
  · next h => simp [h, fixedResults, List.lookup_cons]
  · next h => simp [h, fixedResults, List.lookup_cons]
  · next h1 h2 h3 h4 h5 h6 h7 =>
    have hnone : (fixedResults c.folder).lookup r.method = none :=
      lookup_eq_none (by simp [fixedResults]; exact ⟨h2, h3, h4, h5, h6, h7⟩)
    rw [if_neg h1, hnone]
    rfl

theorem folder_toJson (f : WorkspaceFolder) :
    f.toJson = .object [("name", .string f.name), ("uri", .string f.uri)] := by
  have hlt : "name" < "uri" := by decide
  simp [WorkspaceFolder.toJson, ofMembers, Json.insert, hlt]

theorem folder_made (f : WorkspaceFolder) : Made 1 f.toJson := by
  rw [folder_toJson]
  apply made_object
  · simp only [List.pairwise_cons, List.mem_singleton, forall_eq, List.not_mem_nil, false_imp_iff,
      implies_true, List.Pairwise.nil, and_true]
    decide
  · intro m hm
    simp only [List.mem_cons, List.not_mem_nil, or_false] at hm
    rcases hm with rfl | rfl <;> exact ⟨rfl, rfl, Nat.zero_le _⟩

theorem result?_made {folder : WorkspaceFolder} {r : Request} {v : Json}
    (h : result? folder r = some v) : Made 2 v ∧ v.floatless = true := by
  unfold result? at h
  split at h
  · cases h
    have hnull : ∀ x ∈ List.replicate (itemCount r.params) Json.null, x = .null :=
      fun x hx => List.eq_of_mem_replicate hx
    refine ⟨made_array fun x hx => ?_, (floatless_array _).mpr fun x hx => ?_⟩
    · rw [hnull x hx]
      exact ⟨rfl, rfl, Nat.zero_le _⟩
    · rw [hnull x hx]
      rfl
  · have hmem := mem_of_lookup h
    simp only [fixedResults, List.mem_cons, Prod.mk.injEq, List.not_mem_nil, or_false] at hmem
    rcases hmem with ⟨-, rfl⟩ | ⟨-, rfl⟩ | ⟨-, rfl⟩ | ⟨-, rfl⟩ | ⟨-, rfl⟩ | ⟨-, rfl⟩
    · refine ⟨made_array fun x hx => ?_, by rw [folder_toJson]; rfl⟩
      rw [List.mem_singleton.mp hx]
      exact folder_made folder
    · exact ⟨⟨rfl, rfl, Nat.zero_le _⟩, rfl⟩
    · exact ⟨⟨rfl, rfl, Nat.zero_le _⟩, rfl⟩
    · exact ⟨⟨rfl, rfl, Nat.zero_le _⟩, rfl⟩
    · exact ⟨⟨rfl, rfl, by decide⟩, rfl⟩
    · exact ⟨⟨rfl, rfl, by decide⟩, rfl⟩

end Connection

theorem RequestId.Reads.eq_toJson {v : Json} {id : RequestId} (h : RequestId.Reads v id) :
    v = id.toJson := by
  cases h <;> rfl

theorem Message.request_members {v : Json} {r : Request}
    (h : Message.ofJson? v = some (.request r)) : ∃ members, v = .object members ∧ r.Reads members := by
  cases v with
  | object members =>
    refine ⟨members, rfl, ?_⟩
    rw [ofJson?_object] at h
    split at h
    · split at h
      · obtain ⟨q, hq, heq⟩ := Option.map_eq_some_iff.mp h
        cases heq
        exact Request.ofJson?_iff.mp hq
      · obtain ⟨n, -, heq⟩ := Option.map_eq_some_iff.mp h
        cases heq
    · obtain ⟨n, -, heq⟩ := Option.map_eq_some_iff.mp h
      cases heq
  | array xs =>
    obtain ⟨-, n, -, heq⟩ := ofJson?_array_iff.mp h
    cases heq
  | _ => cases h

theorem Response.parse?_text {r : Response} (hid : ∀ id ∈ r.id, id.Held)
    (hresult : ∀ v ∈ r.result, Made 2 v ∧ v.floatless = true)
    (herror : ∀ e ∈ r.error, e.Held ∧ e.data = none) :
    Json.parse? (Message.response r).text = some (ofFields r.fields) := by
  have hnone : ∀ e ∈ r.error, ∀ v, v ∉ e.data := by
    intro e he v hv
    rw [(herror e he).2] at hv
    cases hv
  have hexact : r.toJson.exact = true :=
    toJson_exact hid (fun e he => (herror e he).1)
      (fun v hv => (exact_iff v).mpr ⟨(hresult v hv).1.bounded, (hresult v hv).2⟩)
      (fun e he v hv => absurd hv (hnone e he v))
  have hnesting : r.toJson.nesting ≤ 3 :=
    toJson_nesting (fun v hv => (hresult v hv).1.shallow) fun e he v hv => absurd hv (hnone e he v)
  have hnormal : r.toJson.normal = ofFields r.fields :=
    r.toJson_normal (fun v hv => (hresult v hv).1.sorted) fun e he v hv => absurd hv (hnone e he v)
  rw [Message.text, Message.toJson, parse?_compact _ hexact (hnesting.trans (by decide)), hnormal]

theorem Response.get?_fields (r : Response) :
    (ofFields r.fields).get? "id" = some (Json.ofOption (r.id.map RequestId.toJson)) ∧
      (ofFields r.fields).get? "method" = none ∧ (ofFields r.fields).get? "result" = r.result ∧
      (ofFields r.fields).get? "error" = r.error.map fun e => ofFields e.fields := by
  have hnames : r.fields.map Prod.fst = ["jsonrpc", "id", "result", "error"] := rfl
  have hget := get?_ofFields hnames (by decide)
  simp only [hget]
  exact ⟨rfl, rfl, rfl, rfl⟩

theorem ResponseError.get?_fields (e : ResponseError) :
    (ofFields e.fields).get? "code" = some (.integer e.code) ∧
      (ofFields e.fields).get? "message" = some (.string e.message) := by
  have hnames : e.fields.map Prod.fst = ["code", "message", "data"] := rfl
  have hget := get?_ofFields hnames (by decide)
  simp only [hget]
  exact ⟨rfl, rfl⟩

namespace Connection

structure Answers (folder : WorkspaceFolder) (asked v : Json) : Prop where
  id : ∃ id, asked.get? "id" = some id ∧ v.get? "id" = some id
  response : v.get? "method" = none
  one : (v.get? "result").isSome = !(v.get? "error").isSome
  configuration : asked.get? "method" = some (.string "workspace/configuration") →
    v.get? "result" = some (.array (List.replicate (itemCount (asked.get? "params")) .null))
  fixed : ∀ method result, asked.get? "method" = some (.string method) →
    (method, result) ∈ fixedResults folder → v.get? "result" = some result
  unknown : ∀ method, asked.get? "method" = some (.string method) →
    method ≠ "workspace/configuration" → method ∉ (fixedResults folder).map Prod.fst →
    ∃ e, v.get? "error" = some e ∧ e.get? "code" = some (.integer (-32601)) ∧
      e.get? "message" = some (.string ("Method not found: " ++ method))

theorem answer_parts (c : Connection) (r : Request) :
    (c.answer r).id = some r.id ∧ (c.answer r).result = result? c.folder r ∧
      (c.answer r).error = if (result? c.folder r).isSome then none else some (refusal r) := by
  rw [answer_eq]
  cases result? c.folder r <;> exact ⟨rfl, rfl, rfl⟩

theorem result?_configuration (folder : WorkspaceFolder) {r : Request}
    (h : r.method = "workspace/configuration") :
    result? folder r = some (.array (List.replicate (itemCount r.params) .null)) := by
  rw [result?, if_pos h]

theorem result?_fixed {folder : WorkspaceFolder} {r : Request} {result : Json}
    (h : (r.method, result) ∈ fixedResults folder) : result? folder r = some result := by
  have hkeys : ((fixedResults folder).map Prod.fst).Nodup := by simp [fixedResults]
  have hother : r.method ≠ "workspace/configuration" := by
    intro heq
    rw [heq] at h
    simp [fixedResults] at h
  rw [result?, if_neg hother, (lookup_eq_some_iff_mem _ hkeys _ _).mpr h]

theorem result?_unknown {folder : WorkspaceFolder} {r : Request}
    (h : r.method ≠ "workspace/configuration") (hkeys : r.method ∉ (fixedResults folder).map Prod.fst) :
    result? folder r = none := by
  rw [result?, if_neg h, lookup_eq_none hkeys]

theorem answer_read (c : Connection) {t : String} {r : Request}
    (h : Message.parse t = .ok (.request r)) :
    ∃ asked v, Json.parse? t = some asked ∧
      Json.parse? (Message.response (c.answer r)).text = some v ∧ Answers c.folder asked v := by
  obtain ⟨asked, hparse, hread⟩ := Message.json_of_parse h
  obtain ⟨members, rfl, hmembers⟩ := Message.request_members hread
  obtain ⟨id, hid, hreads⟩ := hmembers.id
  have hheld : r.id.Held := RequestId.held_of_ofJson? (RequestId.ofJson?_iff.mpr hreads)
  obtain ⟨hanswer, hresult, herror⟩ := c.answer_parts r
  obtain ⟨hgetId, hgetMethod, hgetResult, hgetError⟩ := (c.answer r).get?_fields
  rw [hanswer] at hgetId
  rw [hresult] at hgetResult
  rw [herror] at hgetError
  have hmethod : ∀ m, members.lookup "method" = some (.string m) → r.method = m := by
    intro m hm
    rw [hmembers.method] at hm
    cases hm
    rfl
  refine ⟨_, ofFields (c.answer r).fields, hparse, ?_, ⟨id, hid, ?_⟩, hgetMethod, ?_, ?_, ?_, ?_⟩
  · apply Response.parse?_text
    · rw [hanswer]
      rintro _ ⟨⟩
      exact hheld
    · rw [hresult]
      exact fun v hv => result?_made hv
    · rw [herror]
      intro e he
      split at he
      · cases he
      · cases he
        exact ⟨refusal_held r, rfl⟩
  · rw [hgetId, hreads.eq_toJson]
    rfl
  · rw [hgetResult, hgetError]
    cases result? c.folder r <;> rfl
  · intro hm
    have hitems : itemCount r.params = itemCount (members.lookup "params") := by
      rw [hmembers.params, itemCount_present]
    rw [hgetResult, result?_configuration _ (hmethod _ hm), hitems]
    rfl
  · intro m result hm hfixed
    rw [← hmethod m hm] at hfixed
    rw [hgetResult, result?_fixed hfixed]
  · intro m hm hother hkeys
    obtain rfl := hmethod m hm
    rw [result?_unknown hother hkeys] at hgetError
    obtain ⟨hcode, hmessage⟩ := (refusal r).get?_fields
    exact ⟨_, hgetError, hcode, hmessage⟩

def desk (c : Connection) : List Response × WorkspaceFolder := (c.owed, c.folder)

theorem write_desk (c : Connection) (m : Message) : (c.write m).1.desk = c.desk := by
  rw [write_eq]
  rfl

theorem sendRequest_desk (c : Connection) (method : String) (params : Option Json) :
    (c.sendRequest method params).1.desk = c.desk := by
  cases hclosed : c.closed with
  | true => rw [sendRequest_of_closed c method params hclosed]
  | false =>
    rw [sendRequest_of_open c method params hclosed rfl]
    rfl

theorem take?_desk (c : Connection) (id : Nat) : (c.take? id).1.desk = c.desk := by
  unfold take?
  split
  · rfl
  · split <;> rfl

theorem logged_desk (c : Connection) (params : Json) : (c.logged params).desk = c.desk := by
  unfold logged
  split <;> rfl

theorem hear_desk (c : Connection) (n : Notification) : (c.hear n).desk = c.desk := by
  unfold hear
  dsimp only
  split
  · split <;> rfl
  · exact logged_desk c _
  · exact logged_desk c _
  · rfl

theorem settle_desk (c : Connection) (r : Response) : (c.settle r).desk = c.desk := by
  unfold settle
  split <;> rfl

theorem reply_desk (c : Connection) (i : Nat) : (c.reply i).desk = (c.owed.eraseIdx i, c.folder) := by
  unfold reply
  cases hr : c.owed[i]? with
  | none =>
    rw [List.eraseIdx_of_length_le (List.getElem?_eq_none_iff.mp hr)]
    rfl
  | some r => exact write_desk _ _

theorem step_desk (c : Connection) (e : Event) :
    (c.step e).desk = match e with
      | .reply i => (c.owed.eraseIdx i, c.folder)
      | _ => (c.owed ++ (c.asks e).map c.answer, c.folder) := by
  have hsame : ∀ d : Connection, d.desk = c.desk → d.desk = (c.owed ++ [], c.folder) := by
    intro d hd
    rw [hd, List.append_nil]
    rfl
  cases e with
  | send method params => exact hsame _ (c.sendRequest_desk method params)
  | notify method params => exact hsame _ (c.write_desk _)
  | cancel id => exact hsame _ (write_desk { c with pending := c.pending.filter (· != id) } _)
  | take id => exact hsame _ (c.take?_desk id)
  | hear m =>
    unfold step
    dsimp only
    cases hclosed : c.closed with
    | true =>
      have hnone : c.asks (.hear m) = [] := by cases m <;> simp [asks, hclosed]
      rw [hnone]
      exact hsame _ rfl
    | false =>
      cases m with
      | request r =>
        rw [asks, hclosed]
        rfl
      | notification n => exact hsame _ (c.hear_desk n)
      | response r => exact hsame _ (c.settle_desk r)
  | exit =>
    unfold step
    dsimp only
    split <;> exact hsame _ rfl
  | reply i => exact c.reply_desk i
  | close => exact hsame _ rfl
  | enableLog on => exact hsame _ rfl
  | far e => exact hsame _ rfl

theorem step_answer (c : Connection) (e : Event) : (c.step e).answer = c.answer := by
  have hfolder : (c.step e).folder = c.folder := by
    have hdesk := congrArg Prod.snd (c.step_desk e)
    cases e <;> exact hdesk
  funext r
  rw [answer_eq, answer_eq, hfolder]

theorem takes_of_run (c : Connection) (es : List Event) (h : (c.run es).channel.takes = true) :
    c.channel.takes = true := by
  induction es generalizing c with
  | nil => exact h
  | cons e es ih => exact takes_of_step c e (ih _ h)

theorem wrote?_no_answer (c : Connection) {e : Event} (h : ∀ i, e ≠ .reply i) :
    (c.wrote? e).toList.filterMap Message.response? = [] := by
  unfold wrote?
  split
  · cases e with
    | send method params =>
      unfold message?
      dsimp only
      split <;> rfl
    | reply i => exact absurd rfl (h i)
    | _ => rfl
  · rfl

theorem step_perm (c : Connection) (e : Event) (h : c.channel.takes = true) :
    ((c.wrote? e).toList.filterMap Message.response? ++ (c.step e).owed).Perm
      (c.owed ++ (c.asks e).map c.answer) := by
  have howed := congrArg Prod.fst (c.step_desk e)
  cases e with
  | reply i =>
    have hafter : (c.step (.reply i)).owed = c.owed.eraseIdx i := howed
    rw [hafter, wrote?, if_pos h, message?]
    cases hr : c.owed[i]? with
    | none =>
      rw [List.eraseIdx_of_length_le (List.getElem?_eq_none_iff.mp hr)]
      exact .of_eq (List.append_nil _).symm
    | some r =>
      obtain ⟨hi, rfl⟩ := List.getElem?_eq_some_iff.mp hr
      exact (List.getElem_cons_eraseIdx_perm hi).trans (.of_eq (List.append_nil _).symm)
  | _ =>
    rw [wrote?_no_answer c (fun _ => Event.noConfusion)]
    exact .of_eq howed

/-- The answers that were written and those still owed are, each once, the answers to what was
asked. -/
theorem sent_perm (c : Connection) (es : List Event) (h : (c.run es).channel.takes = true) :
    ((c.sent es).filterMap Message.response? ++ (c.run es).owed).Perm
      (c.owed ++ (c.asked es).map c.answer) := by
  induction es generalizing c with
  | nil => exact .of_eq (List.append_nil _).symm
  | cons e es ih =>
    have hstep := c.step_perm e (c.takes_of_run (e :: es) h)
    have hrest := ih (c.step e) h
    rw [step_answer] at hrest
    rw [sent, asked, List.filterMap_append, List.append_assoc, List.map_append, ← List.append_assoc c.owed]
    exact (hrest.append_left _).trans (by
      rw [← List.append_assoc]
      exact hstep.append_right _)

def core (c : Connection) : Connection :=
  { c with owed := [], channel := { c.channel with outgoing := [] } }

def Event.isAnswering : Event → Bool
  | .hear (.request _) | .reply _ => true
  | _ => false

theorem write_core (c : Connection) (m : Message) : (c.write m).1.core = c.core := by
  rw [write_eq]
  rfl

theorem step_core_answering (c : Connection) {e : Event} (h : e.isAnswering = true) :
    (c.step e).core = c.core := by
  cases e with
  | hear m =>
    cases m with
    | request r =>
      unfold step
      dsimp only
      split <;> rfl
    | _ => cases h
  | reply i =>
    unfold step reply
    dsimp only
    split
    · rfl
    · exact write_core _ _
  | _ => cases h

theorem sendRequest_core (c : Connection) (method : String) (params : Option Json) :
    (c.sendRequest method params).1.core = (c.core.sendRequest method params).1.core := by
  cases hclosed : c.closed with
  | true =>
    have hcore : c.core.closed = true := hclosed
    rw [sendRequest_of_closed c method params hclosed, sendRequest_of_closed _ method params hcore]
    rfl
  | false =>
    have hcore : c.core.closed = false := hclosed
    have htakes : c.core.channel.takes = c.channel.takes := rfl
    rcases c.channel.write_cases (requestText c.nextId method params) with
      ⟨hyes, hwrite⟩ | ⟨hno, f, hwrite⟩
    · rcases c.core.channel.write_cases (requestText c.nextId method params) with
        ⟨-, hwrite'⟩ | ⟨hno, -⟩
      · rw [sendRequest_of_open c method params hclosed hwrite,
          sendRequest_of_open c.core method params hcore hwrite']
        rfl
      · rw [htakes, hyes] at hno
        cases hno
    · rcases c.core.channel.write_cases (requestText c.nextId method params) with
        ⟨hyes, -⟩ | ⟨-, g, hwrite'⟩
      · rw [htakes, hno] at hyes
        cases hyes
      · rw [sendRequest_of_open c method params hclosed hwrite,
          sendRequest_of_open c.core method params hcore hwrite']
        rfl

theorem logged_core (c : Connection) (params : Json) : (c.logged params).core = c.core.logged params := by
  unfold logged
  split <;> rfl

theorem hear_core (c : Connection) (n : Notification) : (c.hear n).core = c.core.hear n := by
  unfold hear
  dsimp only
  split
  · split <;> rfl
  · exact c.logged_core _
  · exact c.logged_core _
  · rfl

theorem settle_core (c : Connection) (r : Response) : (c.settle r).core = c.core.settle r := by
  have hnamed : c.core.named? r = c.named? r := rfl
  unfold settle
  rw [hnamed]
  split <;> rfl

theorem take?_core (c : Connection) (id : Nat) : (c.take? id).1.core = (c.core.take? id).1 := by
  have hsettled : c.core.settled = c.settled := rfl
  have hpending : c.core.pending = c.pending := rfl
  unfold take?
  rw [hsettled, hpending]
  split
  · rfl
  · split <;> rfl

theorem step_core (c : Connection) (e : Event) : (c.step e).core = (c.core.step e).core := by
  have hagain : ∀ d : Connection, d.core.core = d.core := fun _ => rfl
  cases e with
  | send method params => exact c.sendRequest_core method params
  | notify method params =>
    have hw := c.write_core (.notification { method := method, params := params })
    exact hw.trans ((hagain c).symm.trans (c.core.write_core _).symm)
  | cancel id =>
    unfold step cancelRequest notify
    dsimp only
    rw [write_core, write_core]
    rfl
  | take id =>
    unfold step
    dsimp only
    rw [take?_core, take?_core, hagain]
  | hear m =>
    have hclosed : c.core.closed = c.closed := rfl
    unfold step
    dsimp only
    rw [hclosed]
    split
    · rfl
    · cases m with
      | request r => rfl
      | notification n =>
        unfold receive
        dsimp only
        rw [hear_core, hear_core, hagain]
      | response r =>
        unfold receive
        dsimp only
        rw [settle_core, settle_core, hagain]
  | exit =>
    have hclosed : c.core.closed = c.closed := rfl
    unfold step
    dsimp only
    rw [hclosed]
    split <;> rfl
  | reply i =>
    rw [step_core_answering c rfl, step_core_answering c.core rfl, hagain]
  | far e =>
    cases e with
    | deliver bytes =>
      unfold step Channel.step Channel.deliver core
      dsimp only
      split <;> rfl
    | collect count => simp [step, Channel.step, core]
    | _ => rfl
  | _ => rfl

theorem run_core {c d : Connection} (h : c.core = d.core) (es : List Event) :
    (c.run es).core = (d.run (es.filter fun e => !e.isAnswering)).core := by
  induction es generalizing c d with
  | nil => exact h
  | cons e es ih =>
    cases hanswering : e.isAnswering with
    | true =>
      rw [List.filter_cons_of_neg (by simp [hanswering])]
      exact ih ((c.step_core_answering hanswering).trans h)
    | false =>
      rw [List.filter_cons_of_pos (by simp [hanswering])]
      apply ih
      rw [step_core, h, ← step_core]

/-- How the requests of a server are answered on a connection, whatever happens on it. -/
structure Answered (c : Connection) (acts : List Outlet.Act) (o : Outlet) (es : List Event) : Prop where
  whole : Outlet.Whole c o es
  read : o.left = [] → (∀ m ∈ o.sent, (Utf8.bytes m.text).length ≤ Frame.maxLength) →
    (Frame.frames true o.bytes).1 = o.sent.map fun m => Utf8.bytes m.text
  written : ∀ e, e.isOurs = true → (o.connection.step e).channel = { o.connection.channel with
    outgoing := o.connection.channel.outgoing ++ ((o.connection.wrote? e).map Message.text).toList }
  heard : es.filterMap Event.heard? = acts.filterMap Outlet.Act.heard?
  once : o.connection.channel.takes = true →
    (o.sent.filterMap Message.response? ++ o.connection.owed).Perm ((c.asked es).map c.answer)
  next : ∀ i r, o.connection.owed[i]? = some r → o.left = [] → o.connection.channel.takes = true →
    (o.step (.event (.reply i))).sent = o.sent ++ [.response r] ∧
      (o.step (.event (.reply i))).connection.owed = o.connection.owed.eraseIdx i
  answers : ∀ t r, Message.parse t = .ok (.request r) → ∃ asked v, Json.parse? t = some asked ∧
    Json.parse? (Message.response (c.answer r)).text = some v ∧ Answers c.folder asked v
  /-- The books of the connection, its findings and its log are as if nothing had been asked. -/
  apart : let d := c.run (es.filter fun e => !e.isAnswering)
    o.connection.books = d.books ∧ o.connection.diagnostics = d.diagnostics ∧
      o.connection.log = d.log

theorem server_requests_answered (h : Host) (name root : String) (channel : Channel) (logging : Bool)
    (acts : List Outlet.Act) :
    let o : Outlet := { connection := .ofChannel h name root channel logging }
    Answered o.connection acts (o.run acts) (o.happened acts) := by
  intro o
  have hwhole : Outlet.Whole o.connection (o.run acts) (o.happened acts) :=
    (Outlet.whole_start o.connection).run acts
  have hcore := run_core (c := o.connection) rfl (o.happened acts)
  rw [← hwhole.events] at hcore
  refine ⟨hwhole, fun hleft hshort => hwhole.read hleft hshort, fun _ he => step_channel _ he,
    o.heard_happened acts, ?_, ?_, ?_, ?_⟩
  · intro htakes
    rw [hwhole.events] at htakes
    have hperm := o.connection.sent_perm (o.happened acts) htakes
    rw [← hwhole.events, ← hwhole.sent] at hperm
    exact hperm
  · intro i r hr hleft htakes
    have hfree : (o.run acts).waits (.reply i) = false := by simp [Outlet.waits, hleft]
    have howed := congrArg Prod.fst ((o.run acts).connection.step_desk (.reply i))
    rw [Outlet.step, hfree, if_neg Bool.false_ne_true]
    refine ⟨?_, howed⟩
    simp [wrote?, htakes, message?, hr]
  · intro t r ht
    exact o.connection.answer_read ht
  · exact ⟨(congrArg books hcore :), (congrArg diagnostics hcore :), (congrArg log hcore :)⟩

end Connection

end LanguageSessions
