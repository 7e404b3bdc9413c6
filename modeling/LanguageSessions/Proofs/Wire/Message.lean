import LanguageSessions.Proofs.Json.Reading
import LanguageSessions.Proofs.Lists.Lookup
import LanguageSessions.Proofs.Wire.Frame

namespace LanguageSessions

namespace Json

theorem ofFields_concat (fs : List (String × Option Json)) (f : String × Option Json) (k : String) :
    (ofFields (fs ++ [f])).get? k = if k = f.1 then f.2.or ((ofFields fs).get? k)
      else (ofFields fs).get? k := by
  obtain ⟨key, v⟩ := f
  rw [ofFields, List.filterMap_append]
  cases v with
  | none => simp [ofFields]
  | some v =>
    have hlast : [(key, some v)].filterMap (fun f => f.2.map (f.1, ·)) = [(key, v)] := rfl
    rw [hlast, ofMembers, List.foldl_concat, get?, insert_eq_enter, lookup_enter]
    rfl

theorem get?_ofFields {fs : List (String × Option Json)} {names : List String}
    (hnames : fs.map Prod.fst = names) (h : names.Nodup) (k : String) :
    (ofFields fs).get? k = (fs.lookup k).join := by
  subst hnames
  induction fs using List.reverseRecOn with
  | nil => rfl
  | append_singleton fs f ih =>
    rw [List.map_append, List.nodup_append] at h
    rw [ofFields_concat, ih h.1, List.lookup_append, lookup_cons_eq, List.lookup_nil]
    by_cases hk : k = f.1
    · have hnone : fs.lookup k = none := lookup_eq_none fun hmem =>
        h.2.2 k hmem f.1 (by simp) hk
      simp [hk ▸ hnone, hk]
    · simp [hk]

theorem fields?_ofFields {fs : List (String × Option Json)} {names : List String}
    (hnames : fs.map Prod.fst = names) (h : names.Nodup) :
    fields? names (ofFields fs) = some (fs.map Prod.snd) := by
  have hget : names.map (fun k => (ofFields fs).get? k) = fs.map Prod.snd := by
    subst hnames
    rw [List.map_map]
    apply List.map_congr_left
    intro f hf
    rw [Function.comp, get?_ofFields rfl h, (lookup_eq_some_iff_mem fs h f.1 f.2).mpr hf]
    rfl
  rw [← hget]
  rfl

def present : Option Json → Option Json
  | some .null => none
  | v => v

theorem optional_some (v : Option Json) : optional some v = some (present v) := by
  cases v with
  | none => rfl
  | some v => cases v <;> rfl

theorem optional_of_notNull {v : Json} (read : Json → Option α) (h : v.isNull = false) :
    optional read (some v) = (read v).map some := by
  cases v with
  | null => cases h
  | _ => rfl

theorem present_present (v : Option Json) : present (present v) = present v := by
  cases v with
  | none => rfl
  | some v => cases v <;> rfl

theorem mem_member {key : String} {v : Option Json} {m : String × Json} (h : m ∈ member key v) :
    m.2 ∈ v := by
  obtain ⟨x, hx, rfl⟩ := Option.map_eq_some_iff.mp (Option.mem_toList.mp h)
  exact hx

end Json

open Json

namespace RequestId

def Held (id : RequestId) : Prop := ∀ n, id = .number n → n ≤ Text.max64

theorem ofJson?_toJson {id : RequestId} (h : id.Held) : ofJson? id.toJson = some id := by
  cases id with
  | text s => rfl
  | number n =>
    have hn : (0 : Int) ≤ n ∧ (n : Int) ≤ Text.max64 :=
      ⟨Int.natCast_nonneg n, Int.ofNat_le.mpr (h n rfl)⟩
    simp only [toJson, ofJson?, Json.nat, Json.nat?, Json.integer?, if_pos hn, Option.map_some,
      Int.toNat_natCast]

theorem toJson_normal (id : RequestId) : id.toJson.normal = id.toJson := by cases id <;> rfl

theorem toJson_exact {id : RequestId} (h : id.Held) : id.toJson.exact = true := by
  cases id with
  | text s => rfl
  | number n =>
    have hn : n ≤ 2 ^ 64 - 1 := h n rfl
    have hfits : fits64 n := by
      unfold fits64
      omega
    exact decide_eq_true hfits

theorem toJson_nesting (id : RequestId) : id.toJson.nesting = 0 := by cases id <;> rfl

theorem toJson_notNull (id : RequestId) : id.toJson.isNull = false := by cases id <;> rfl

end RequestId

namespace Request

def fields (r : Request) : List (String × Option Json) :=
  [("jsonrpc", some (.string r.version)), ("id", some r.id.toJson),
    ("method", some (.string r.method)), ("params", r.params)]

def normal (r : Request) : Request := { r with params := present r.params }

theorem toJson_normal (r : Request) (hparams : ∀ v ∈ r.params, v.sorted = true) :
    r.toJson.normal = ofFields r.fields := by
  obtain ⟨version, id, method, params⟩ := r
  rw [toJson, normal_object]
  cases params with
  | none => simp [member, fields, ofFields, id.toJson_normal, Json.normal]
  | some v =>
    simp [member, fields, ofFields, id.toJson_normal, Json.normal, normal_of_sorted v (hparams v rfl)]

theorem ofJson?_fields (r : Request) (hid : r.id.Held) :
    Request.ofJson? (ofFields r.fields) = some r.normal := by
  have hnames : r.fields.map Prod.fst = ["jsonrpc", "id", "method", "params"] := rfl
  rw [Request.ofJson?, fields?_ofFields hnames (by decide)]
  simp only [fields, List.map_cons, List.map_nil, orElse, string?, required, Option.bind_some,
    RequestId.ofJson?_toJson hid, optional_some]
  rfl

theorem toJson_exact {r : Request} (hid : r.id.Held) (hparams : ∀ v ∈ r.params, v.exact = true) :
    r.toJson.exact = true := by
  rw [toJson, exact_object]
  intro m hm
  rcases List.mem_append.mp hm with hm | hm
  · simp only [List.mem_cons, List.not_mem_nil, or_false] at hm
    rcases hm with rfl | rfl | rfl
    · rfl
    · exact RequestId.toJson_exact hid
    · rfl
  · exact hparams _ (mem_member hm)

end Request

namespace Notification

def fields (n : Notification) : List (String × Option Json) :=
  [("jsonrpc", some (.string n.version)), ("method", some (.string n.method)), ("params", n.params)]

def normal (n : Notification) : Notification := { n with params := present n.params }

theorem toJson_normal (n : Notification) (hparams : ∀ v ∈ n.params, v.sorted = true) :
    n.toJson.normal = ofFields n.fields := by
  obtain ⟨version, method, params⟩ := n
  rw [toJson, normal_object]
  cases params with
  | none => simp [member, fields, ofFields, Json.normal]
  | some v => simp [member, fields, ofFields, Json.normal, normal_of_sorted v (hparams v rfl)]

theorem ofJson?_fields (n : Notification) :
    Notification.ofJson? (ofFields n.fields) = some n.normal := by
  have hnames : n.fields.map Prod.fst = ["jsonrpc", "method", "params"] := rfl
  rw [Notification.ofJson?, fields?_ofFields hnames (by decide)]
  simp only [fields, List.map_cons, List.map_nil, orElse, string?, required, Option.bind_some,
    optional_some]
  rfl

theorem toJson_exact {n : Notification} (hparams : ∀ v ∈ n.params, v.exact = true) :
    n.toJson.exact = true := by
  rw [toJson, exact_object]
  intro m hm
  rcases List.mem_append.mp hm with hm | hm
  · simp only [List.mem_cons, List.not_mem_nil, or_false] at hm
    rcases hm with rfl | rfl <;> rfl
  · exact hparams _ (mem_member hm)

end Notification

namespace ResponseError

def fields (e : ResponseError) : List (String × Option Json) :=
  [("code", some (.integer e.code)), ("message", some (.string e.message)), ("data", e.data)]

def normal (e : ResponseError) : ResponseError := { e with data := present e.data }

def Held (e : ResponseError) : Prop := -2147483648 ≤ e.code ∧ e.code ≤ 2147483647

theorem toJson_exact {e : ResponseError} (h : e.Held) (hdata : ∀ v ∈ e.data, v.exact = true) :
    e.toJson.exact = true := by
  have hcode : fits64 e.code := by
    unfold Held at h
    unfold fits64
    omega
  rw [toJson, exact_object]
  intro m hm
  rcases List.mem_append.mp hm with hm | hm
  · simp only [List.mem_cons, List.not_mem_nil, or_false] at hm
    rcases hm with rfl | rfl
    · exact decide_eq_true hcode
    · rfl
  · exact hdata _ (mem_member hm)

theorem toJson_normal (e : ResponseError) (hdata : ∀ v ∈ e.data, v.sorted = true) :
    e.toJson.normal = ofFields e.fields := by
  obtain ⟨code, message, data⟩ := e
  rw [toJson, normal_object]
  cases data with
  | none => simp [fields, ofFields, Json.normal]
  | some v => simp [fields, ofFields, Json.normal, normal_of_sorted v (hdata v rfl)]

theorem ofJson?_fields (e : ResponseError) (hcode : e.Held) :
    ResponseError.ofJson? (ofFields e.fields) = some e.normal := by
  have hnames : e.fields.map Prod.fst = ["code", "message", "data"] := rfl
  unfold Held at hcode
  rw [ResponseError.ofJson?, fields?_ofFields hnames (by decide)]
  simp only [fields, List.map_cons, List.map_nil, integer?, if_pos hcode, string?, required,
    Option.bind_some, optional_some]
  rfl

end ResponseError

namespace Response

def fields (r : Response) : List (String × Option Json) :=
  [("jsonrpc", some (.string r.version)), ("id", some (Json.ofOption (r.id.map RequestId.toJson))),
    ("result", r.result), ("error", r.error.map fun e => ofFields e.fields)]

def normal (r : Response) : Response :=
  { r with result := present r.result, error := r.error.map ResponseError.normal }

theorem toJson_normal (r : Response) (hresult : ∀ v ∈ r.result, v.sorted = true)
    (hdata : ∀ e ∈ r.error, ∀ v ∈ e.data, v.sorted = true) :
    r.toJson.normal = ofFields r.fields := by
  obtain ⟨version, id, result, error⟩ := r
  have hid : (Json.ofOption (id.map RequestId.toJson)).normal =
      Json.ofOption (id.map RequestId.toJson) := by
    cases id with
    | none => rfl
    | some id => exact id.toJson_normal
  have hresult' : ∀ v ∈ result, v.normal = v := fun v hv => normal_of_sorted v (hresult v hv)
  have herror : ∀ e ∈ error, e.toJson.normal = ofFields e.fields :=
    fun e he => e.toJson_normal (hdata e he)
  rw [toJson, normal_object]
  cases result <;> cases error <;> simp_all [member, fields, ofFields, Json.normal]

theorem ofJson?_fields (r : Response) (hid : ∀ id ∈ r.id, id.Held) (herror : ∀ e ∈ r.error, e.Held) :
    Response.ofJson? (ofFields r.fields) = some r.normal := by
  have hnames : r.fields.map Prod.fst = ["jsonrpc", "id", "result", "error"] := rfl
  have hread : optional RequestId.ofJson? (some (Json.ofOption (r.id.map RequestId.toJson))) =
      some r.id := by
    cases hr : r.id with
    | none => rfl
    | some id =>
      have hheld := RequestId.ofJson?_toJson (hid id hr)
      rw [Option.map_some, Json.ofOption, Option.getD_some, optional_of_notNull _ id.toJson_notNull,
        hheld, Option.map_some]
  have hreject : optional ResponseError.ofJson? (r.error.map fun e => ofFields e.fields) =
      some (r.error.map ResponseError.normal) := by
    cases hr : r.error with
    | none => rfl
    | some e =>
      have hheld := e.ofJson?_fields (herror e hr)
      rw [Option.map_some, optional_of_notNull _ rfl, hheld, Option.map_some, Option.map_some]
  rw [Response.ofJson?, fields?_ofFields hnames (by decide)]
  simp only [fields, List.map_cons, List.map_nil, orElse, string?, hread, optional_some, hreject]
  rfl

theorem toJson_exact {r : Response} (hid : ∀ id ∈ r.id, id.Held) (herror : ∀ e ∈ r.error, e.Held)
    (hresult : ∀ v ∈ r.result, v.exact = true)
    (hdata : ∀ e ∈ r.error, ∀ v ∈ e.data, v.exact = true) : r.toJson.exact = true := by
  have hwritten : (Json.ofOption (r.id.map RequestId.toJson)).exact = true := by
    cases hr : r.id with
    | none => rfl
    | some id => exact RequestId.toJson_exact (hid id hr)
  rw [toJson, exact_object]
  intro m hm
  rcases List.mem_append.mp hm with hm | hm
  · rcases List.mem_append.mp hm with hm | hm
    · simp only [List.mem_cons, List.not_mem_nil, or_false] at hm
      rcases hm with rfl | rfl
      · rfl
      · exact hwritten
    · exact hresult _ (mem_member hm)
  · obtain ⟨e, he, heq⟩ := Option.map_eq_some_iff.mp (mem_member hm)
    rw [← heq]
    exact ResponseError.toJson_exact (herror e he) (hdata e he)

end Response

namespace Message

def normal : Message → Message
  | request r => request r.normal
  | notification n => notification n.normal
  | response r => response r.normal

def payloads : Message → List Json
  | request r => r.params.toList
  | notification n => n.params.toList
  | response r => r.result.toList ++ (r.error.bind ResponseError.data).toList

def id? : Message → Option RequestId
  | request r => some r.id
  | notification _ => none
  | response r => r.id

def error? : Message → Option ResponseError
  | response r => r.error
  | _ => none

/-- What programs can hold of a message: numbers of their sizes, and payloads whose objects are in
order. -/
structure Held (m : Message) : Prop where
  id : ∀ id ∈ m.id?, id.Held
  error : ∀ e ∈ m.error?, e.Held
  sorted : ∀ v ∈ m.payloads, v.sorted = true
  bounded : ∀ v ∈ m.payloads, v.bounded = true

def Floatless (m : Message) : Prop := ∀ v ∈ m.payloads, v.floatless = true

theorem ofJson?_normal {m : Message} (h : m.Held) : ofJson? m.toJson.normal = some m.normal := by
  cases m with
  | request r =>
    have hnames : r.fields.map Prod.fst = ["jsonrpc", "id", "method", "params"] := rfl
    have hid : (ofFields r.fields).get? "id" = some r.id.toJson := get?_ofFields hnames (by decide) _
    have hmethod : (ofFields r.fields).get? "method" = some (.string r.method) :=
      get?_ofFields hnames (by decide) _
    have hsorted : ∀ v ∈ r.params, v.sorted = true := fun v hv => h.sorted v (by simpa [payloads] using hv)
    have hread := r.ofJson?_fields (h.id r.id rfl)
    simp [ofJson?, toJson, r.toJson_normal hsorted, hid, hmethod, hread, r.id.toJson_notNull, normal]
  | notification n =>
    have hnames : n.fields.map Prod.fst = ["jsonrpc", "method", "params"] := rfl
    have hid : (ofFields n.fields).get? "id" = none := get?_ofFields hnames (by decide) _
    have hmethod : (ofFields n.fields).get? "method" = some (.string n.method) :=
      get?_ofFields hnames (by decide) _
    have hsorted : ∀ v ∈ n.params, v.sorted = true := fun v hv => h.sorted v (by simpa [payloads] using hv)
    simp [ofJson?, toJson, n.toJson_normal hsorted, hid, hmethod, n.ofJson?_fields, normal]
  | response r =>
    have hnames : r.fields.map Prod.fst = ["jsonrpc", "id", "result", "error"] := rfl
    have hmethod : (ofFields r.fields).get? "method" = none := get?_ofFields hnames (by decide) _
    have hresult : ∀ v ∈ r.result, v.sorted = true :=
      fun v hv => h.sorted v (List.mem_append_left _ (by simpa using hv))
    have hdata : ∀ e ∈ r.error, ∀ v ∈ e.data, v.sorted = true := by
      intro e he v hv
      exact h.sorted v (List.mem_append_right _ (by simp [Option.mem_def.mp he, Option.mem_def.mp hv]))
    have hread := r.ofJson?_fields (fun id hid => h.id id hid) (fun e he => h.error e he)
    simp [ofJson?, toJson, r.toJson_normal hresult hdata, hmethod, hread, normal]

theorem toJson_exact {m : Message} (h : m.Held) (hfloat : m.Floatless) : m.toJson.exact = true := by
  have hpayload : ∀ v ∈ m.payloads, v.exact = true :=
    fun v hv => (exact_iff v).mpr ⟨h.bounded v hv, hfloat v hv⟩
  cases m with
  | request r =>
    exact Request.toJson_exact (h.id r.id rfl) fun v hv => hpayload v (Option.mem_toList.mpr hv)
  | notification n =>
    exact Notification.toJson_exact fun v hv => hpayload v (Option.mem_toList.mpr hv)
  | response r =>
    apply Response.toJson_exact h.id h.error
    · exact fun v hv => hpayload v (List.mem_append_left _ (Option.mem_toList.mpr hv))
    · intro e he v hv
      apply hpayload v (List.mem_append_right _ _)
      simp [Option.mem_def.mp he, Option.mem_def.mp hv]

theorem parse_text {m : Message} (h : m.Held) (hfloat : m.Floatless)
    (hdepth : m.toJson.nesting ≤ maxDepth) : Message.parse m.text = .ok m.normal := by
  rw [Message.parse, text, parse?_compact m.toJson (toJson_exact h hfloat) hdepth]
  simp only [ofJson?_normal h]

end Message

end LanguageSessions
