import LanguageSessions.Proofs.Wire.Message

namespace LanguageSessions

namespace Json

theorem string?_iff {v : Json} {s : String} : string? v = some s ↔ v = .string s := by
  cases v <;> simp [string?]

theorem integer?_iff {low high : Int} {v : Json} {n : Int} :
    integer? low high v = some n ↔ v = .integer n ∧ low ≤ n ∧ n ≤ high := by
  cases v with
  | integer m =>
    rw [integer?]
    split
    · next hin =>
      constructor
      · rintro ⟨⟩
        exact ⟨rfl, hin⟩
      · rintro ⟨⟨⟩, -⟩
        rfl
    · next hout =>
      refine ⟨by rintro ⟨⟩, ?_⟩
      rintro ⟨⟨⟩, hin⟩
      exact absurd hin hout
  | _ => simp [integer?]

theorem required_iff {α : Type} {read : Json → Option α} {field : Option Json} {a : α} :
    required read field = some a ↔ ∃ v, field = some v ∧ read v = some a :=
  Option.bind_eq_some_iff

theorem required_string_iff {field : Option Json} {s : String} :
    required string? field = some s ↔ field = some (.string s) := by
  simp [required_iff, string?_iff]

/-- A field that is absent or null, or that stands for something. -/
inductive Perhaps {α : Type} (reads : Json → α → Prop) : Option Json → Option α → Prop
  | absent : Perhaps reads none none
  | null : Perhaps reads (some .null) none
  | given {v : Json} {a : α} (h : reads v a) : Perhaps reads (some v) (some a)

theorem optional_iff {α : Type} {read : Json → Option α} {reads : Json → α → Prop}
    (hread : ∀ v a, read v = some a ↔ reads v a) (hnull : read .null = none)
    {field : Option Json} {a : Option α} :
    optional read field = some a ↔ Perhaps reads field a := by
  have hnever : ∀ b, ¬ reads .null b := by
    intro b hb
    rw [← hread, hnull] at hb
    cases hb
  constructor
  · intro h
    unfold optional at h
    split at h
    · cases h
      exact .absent
    · cases h
      exact .null
    · obtain ⟨b, hb, rfl⟩ := Option.map_eq_some_iff.mp h
      exact .given ((hread _ _).mp hb)
  · rintro (_ | _ | @⟨v, b, hb⟩)
    · rfl
    · rfl
    · cases hv : v.isNull with
      | true =>
        cases v with
        | null => exact absurd hb (hnever b)
        | _ => cases hv
      | false => rw [optional_of_notNull _ hv, (hread _ _).mpr hb, Option.map_some]

end Json

open Json

inductive Version : Option Json → String → Prop
  | absent : Version none "2.0"
  | said (s : String) : Version (some (.string s)) s

theorem version_iff {field : Option Json} {s : String} :
    orElse string? protocolVersion field = some s ↔ Version field s := by
  cases field with
  | none =>
    constructor
    · rintro ⟨⟩
      exact .absent
    · rintro ⟨⟩
      rfl
  | some v =>
    rw [orElse, string?_iff]
    constructor
    · rintro rfl
      exact .said s
    · rintro ⟨⟩
      rfl

namespace RequestId

inductive Reads : Json → RequestId → Prop
  | number (n : Nat) (fits : n ≤ 2 ^ 64 - 1) : Reads (.integer n) (.number n)
  | text (s : String) : Reads (.string s) (.text s)

theorem ofJson?_iff {v : Json} {id : RequestId} : ofJson? v = some id ↔ Reads v id := by
  have hmax : ((Text.max64 : Nat) : Int) = 2 ^ 64 - 1 := rfl
  constructor
  · intro h
    unfold ofJson? at h
    split at h
    · cases h
      exact .text _
    · obtain ⟨n, hn, rfl⟩ := Option.map_eq_some_iff.mp h
      obtain ⟨m, hm, rfl⟩ := Option.map_eq_some_iff.mp hn
      obtain ⟨rfl, hlow, hhigh⟩ := integer?_iff.mp hm
      obtain ⟨k, rfl⟩ := Int.eq_ofNat_of_zero_le hlow
      exact .number k (by omega)
  · rintro (⟨n, hn⟩ | ⟨s⟩)
    · have hheld : (number n).Held := by
        rintro _ ⟨⟩
        exact hn
      exact ofJson?_toJson hheld
    · rfl

end RequestId

namespace ResponseError

inductive Reads : Json → ResponseError → Prop
  | object {members : List (String × Json)} {code : Int} {message : String}
      (hcode : members.lookup "code" = some (.integer code))
      (fits : -2 ^ 31 ≤ code ∧ code ≤ 2 ^ 31 - 1)
      (hmessage : members.lookup "message" = some (.string message)) :
      Reads (.object members) ⟨code, message, present (members.lookup "data")⟩
  | pair {code : Int} (message : String) (fits : -2 ^ 31 ≤ code ∧ code ≤ 2 ^ 31 - 1) :
      Reads (.array [.integer code, .string message]) ⟨code, message, none⟩
  | triple {code : Int} (message : String) (data : Json)
      (fits : -2 ^ 31 ≤ code ∧ code ≤ 2 ^ 31 - 1) :
      Reads (.array [.integer code, .string message, data]) ⟨code, message, present (some data)⟩

def ofFields? (code message data : Option Json) : Option ResponseError :=
  match required (integer? (-2147483648) 2147483647) code, required string? message,
      optional some data with
  | some code, some message, some data => some ⟨code, message, data⟩
  | _, _, _ => none

theorem ofFields?_iff {code message data : Option Json} {e : ResponseError} :
    ofFields? code message data = some e ↔
      code = some (.integer e.code) ∧ (-2 ^ 31 ≤ e.code ∧ e.code ≤ 2 ^ 31 - 1) ∧
        message = some (.string e.message) ∧ e.data = present data := by
  have hcode : ∀ c, required (integer? (-2147483648) 2147483647) code = some c ↔
      code = some (.integer c) ∧ (-2 ^ 31 ≤ c ∧ c ≤ 2 ^ 31 - 1) := by
    intro c
    rw [required_iff]
    constructor
    · rintro ⟨v, rfl, hv⟩
      obtain ⟨rfl, hfits⟩ := integer?_iff.mp hv
      exact ⟨rfl, hfits⟩
    · rintro ⟨rfl, hfits⟩
      exact ⟨_, rfl, integer?_iff.mpr ⟨rfl, hfits⟩⟩
  unfold ofFields?
  rw [optional_some]
  constructor
  · intro h
    split at h
    · next c m d hc hm hd =>
      cases h
      cases hd
      exact ⟨((hcode c).mp hc).1, ((hcode c).mp hc).2, required_string_iff.mp hm, rfl⟩
    · cases h
  · rintro ⟨hc, hfits, hm, hd⟩
    rw [(hcode e.code).mpr ⟨hc, hfits⟩, required_string_iff.mpr hm, ← hd]

theorem ofJson?_iff {v : Json} {e : ResponseError} : ofJson? v = some e ↔ Reads v e := by
  cases v with
  | object members =>
    have hread : ofJson? (.object members) =
        ofFields? (members.lookup "code") (members.lookup "message") (members.lookup "data") := rfl
    rw [hread, ofFields?_iff]
    constructor
    · obtain ⟨code, message, data⟩ := e
      rintro ⟨hcode, hfits, hmessage, rfl⟩
      exact .object hcode hfits hmessage
    · rintro ⟨hcode, hfits, hmessage⟩
      exact ⟨hcode, hfits, hmessage, rfl⟩
  | array xs =>
    match xs with
    | [] =>
      refine ⟨by rintro ⟨⟩, by rintro ⟨⟩⟩
    | [x] =>
      have hread : ofJson? (.array [x]) = ofFields? (some x) none none := rfl
      rw [hread, ofFields?_iff]
      refine ⟨by rintro ⟨-, -, ⟨⟩, -⟩, by rintro ⟨⟩⟩
    | [x, y] =>
      have hread : ofJson? (.array [x, y]) = ofFields? (some x) (some y) none := rfl
      rw [hread, ofFields?_iff]
      constructor
      · obtain ⟨code, message, data⟩ := e
        rintro ⟨⟨⟩, hfits, ⟨⟩, rfl⟩
        exact .pair message hfits
      · rintro (_ | ⟨message, hfits⟩)
        exact ⟨rfl, hfits, rfl, rfl⟩
    | [x, y, z] =>
      have hread : ofJson? (.array [x, y, z]) = ofFields? (some x) (some y) (some z) := rfl
      rw [hread, ofFields?_iff]
      constructor
      · obtain ⟨code, message, data⟩ := e
        rintro ⟨⟨⟩, hfits, ⟨⟩, rfl⟩
        exact .triple message z hfits
      · rintro (_ | _ | ⟨message, data, hfits⟩)
        exact ⟨rfl, hfits, rfl, rfl⟩
    | x :: y :: z :: t :: rest =>
      have hread : ofJson? (.array (x :: y :: z :: t :: rest)) = none := by
        simp [ofJson?, fields?]
      rw [hread]
      refine ⟨by rintro ⟨⟩, by rintro ⟨⟩⟩
  | _ => exact ⟨by rintro ⟨⟩, by rintro ⟨⟩⟩

end ResponseError

namespace Request

structure Reads (members : List (String × Json)) (r : Request) : Prop where
  version : Version (members.lookup "jsonrpc") r.version
  id : ∃ v, members.lookup "id" = some v ∧ RequestId.Reads v r.id
  method : members.lookup "method" = some (.string r.method)
  params : r.params = present (members.lookup "params")

theorem ofJson?_iff {members : List (String × Json)} {r : Request} :
    ofJson? (.object members) = some r ↔ Reads members r := by
  unfold ofJson? fields?
  simp only [List.map_cons, List.map_nil, get?, optional_some]
  constructor
  · intro h
    split at h
    · next w i m p hw hi hm hp =>
      cases h
      cases hp
      obtain ⟨v, hv, hid⟩ := required_iff.mp hi
      exact ⟨version_iff.mp hw, ⟨v, hv, RequestId.ofJson?_iff.mp hid⟩, required_string_iff.mp hm, rfl⟩
    · cases h
  · rintro ⟨hw, ⟨v, hv, hid⟩, hm, hp⟩
    rw [version_iff.mpr hw, required_iff.mpr ⟨v, hv, RequestId.ofJson?_iff.mpr hid⟩,
      required_string_iff.mpr hm, ← hp]

end Request

namespace Notification

structure Reads (members : List (String × Json)) (n : Notification) : Prop where
  version : Version (members.lookup "jsonrpc") n.version
  method : members.lookup "method" = some (.string n.method)
  params : n.params = present (members.lookup "params")

theorem ofJson?_iff {members : List (String × Json)} {n : Notification} :
    ofJson? (.object members) = some n ↔ Reads members n := by
  unfold ofJson? fields?
  simp only [List.map_cons, List.map_nil, get?, optional_some]
  constructor
  · intro h
    split at h
    · next w m p hw hm hp =>
      cases h
      cases hp
      exact ⟨version_iff.mp hw, required_string_iff.mp hm, rfl⟩
    · cases h
  · rintro ⟨hw, hm, hp⟩
    rw [version_iff.mpr hw, required_string_iff.mpr hm, ← hp]

end Notification

namespace Response

structure Reads (version id result error : Option Json) (r : Response) : Prop where
  version : Version version r.version
  id : Perhaps RequestId.Reads id r.id
  result : r.result = present result
  error : Perhaps ResponseError.Reads error r.error

def ofFields? (version id result error : Option Json) : Option Response :=
  match orElse string? protocolVersion version, optional RequestId.ofJson? id,
      optional some result, optional ResponseError.ofJson? error with
  | some version, some id, some result, some error => some ⟨version, id, result, error⟩
  | _, _, _, _ => none

theorem ofFields?_iff {version id result error : Option Json} {r : Response} :
    ofFields? version id result error = some r ↔ Reads version id result error r := by
  have hid : ∀ i, optional RequestId.ofJson? id = some i ↔ Perhaps RequestId.Reads id i :=
    fun _ => optional_iff (fun _ _ => RequestId.ofJson?_iff) rfl
  have herror : ∀ e, optional ResponseError.ofJson? error = some e ↔
      Perhaps ResponseError.Reads error e :=
    fun _ => optional_iff (fun _ _ => ResponseError.ofJson?_iff) rfl
  unfold ofFields?
  rw [optional_some]
  constructor
  · intro h
    split at h
    · next w i p e hw hi hp he =>
      cases h
      cases hp
      exact ⟨version_iff.mp hw, (hid i).mp hi, rfl, (herror e).mp he⟩
    · cases h
  · rintro ⟨hw, hi, hp, he⟩
    rw [version_iff.mpr hw, (hid _).mpr hi, (herror _).mpr he, ← hp]

theorem ofJson?_object (members : List (String × Json)) : ofJson? (.object members) =
    ofFields? (members.lookup "jsonrpc") (members.lookup "id") (members.lookup "result")
      (members.lookup "error") := rfl

theorem ofJson?_array {xs : List Json} (h : xs.length ≤ 4) :
    ofJson? (.array xs) = ofFields? xs[0]? xs[1]? xs[2]? xs[3]? := by
  match xs, h with
  | [], _ => rfl
  | [_], _ => rfl
  | [_, _], _ => rfl
  | [_, _, _], _ => rfl
  | [_, _, _, _], _ => rfl

theorem ofJson?_long {xs : List Json} (h : ¬ xs.length ≤ 4) : ofJson? (.array xs) = none := by
  simp [ofJson?, fields?, h]

theorem outcome_eq_error_iff {r : Response} {e : ResponseError} :
    r.outcome = .error e ↔ r.error = some e := by
  unfold outcome
  cases r.error <;> simp

end Response

namespace Message

theorem present_isSome_iff {field : Option Json} :
    (present field).isSome = field.any fun v => !v.isNull := by
  cases field with
  | none => rfl
  | some v => cases v <;> rfl

theorem ofJson?_object (members : List (String × Json)) :
    ofJson? (.object members) =
      if (members.lookup "method").isSome then
        if (present (members.lookup "id")).isSome then
          (Request.ofJson? (.object members)).map .request
        else (Notification.ofJson? (.object members)).map .notification
      else (Response.ofJson? (.object members)).map .response := by
  rw [present_isSome_iff]
  rfl

theorem ofJson?_request_iff {members : List (String × Json)} {m : Message}
    (hmethod : (members.lookup "method").isSome) (hid : (present (members.lookup "id")).isSome) :
    ofJson? (.object members) = some m ↔ ∃ r, r.Reads members ∧ m = .request r := by
  rw [ofJson?_object, if_pos hmethod, if_pos hid, Option.map_eq_some_iff]
  simp only [Request.ofJson?_iff, @eq_comm _ m]

theorem ofJson?_notification_iff {members : List (String × Json)} {m : Message}
    (hmethod : (members.lookup "method").isSome) (hid : present (members.lookup "id") = none) :
    ofJson? (.object members) = some m ↔ ∃ n, n.Reads members ∧ m = .notification n := by
  rw [ofJson?_object, if_pos hmethod, hid, Option.isSome_none, if_neg Bool.false_ne_true,
    Option.map_eq_some_iff]
  simp only [Notification.ofJson?_iff, @eq_comm _ m]

theorem ofJson?_response_iff {members : List (String × Json)} {m : Message}
    (hmethod : members.lookup "method" = none) :
    ofJson? (.object members) = some m ↔
      ∃ r, r.Reads (members.lookup "jsonrpc") (members.lookup "id") (members.lookup "result")
        (members.lookup "error") ∧ m = .response r := by
  rw [ofJson?_object, hmethod, Option.isSome_none, if_neg Bool.false_ne_true,
    Response.ofJson?_object, Option.map_eq_some_iff]
  simp only [Response.ofFields?_iff, @eq_comm _ m]

theorem ofJson?_array_iff {xs : List Json} {m : Message} :
    ofJson? (.array xs) = some m ↔
      xs.length ≤ 4 ∧ ∃ r, r.Reads xs[0]? xs[1]? xs[2]? xs[3]? ∧ m = .response r := by
  have hread : ofJson? (.array xs) = (Response.ofJson? (.array xs)).map .response := rfl
  rw [hread, Option.map_eq_some_iff]
  by_cases hlength : xs.length ≤ 4
  · rw [Response.ofJson?_array hlength]
    simp only [Response.ofFields?_iff, hlength, true_and, @eq_comm _ m]
  · simp [Response.ofJson?_long hlength, hlength]

def knownKeys (members : List (String × Json)) : List String :=
  if (members.lookup "method").isSome then ["jsonrpc", "id", "method", "params"]
  else ["jsonrpc", "id", "method", "result", "error"]

theorem ofJson?_congr {ms ns : List (String × Json)}
    (h : ∀ key ∈ knownKeys ms, ms.lookup key = ns.lookup key) :
    ofJson? (.object ms) = ofJson? (.object ns) := by
  rw [ofJson?_object, ofJson?_object]
  cases hmethod : ms.lookup "method" with
  | none =>
    simp only [knownKeys, hmethod, Option.isSome_none, Bool.false_eq_true, if_false,
      List.forall_mem_cons, List.not_mem_nil, false_imp_iff, implies_true, and_true] at h
    obtain ⟨hversion, hid, hmethod', hresult, herror⟩ := h
    simp only [← hmethod', Response.ofJson?_object, hversion, hid, hresult, herror,
      Option.isSome_none, Bool.false_eq_true, if_false]
  | some method =>
    simp only [knownKeys, hmethod, Option.isSome_some, if_true,
      List.forall_mem_cons, List.not_mem_nil, false_imp_iff, implies_true, and_true] at h
    obtain ⟨hversion, hid, hmethod', hparams⟩ := h
    simp only [Request.ofJson?, Notification.ofJson?, fields?, List.map_cons, List.map_nil, get?,
      hversion, hid, hmethod, ← hmethod', hparams, Option.isSome_some, if_true]

/-- What is read as which message, and what is refused. -/
structure Grammar : Prop where
  request : ∀ members : List (String × Json), (members.lookup "method").isSome →
    (present (members.lookup "id")).isSome →
    ((ofJson? (.object members)).isSome ↔
      (∃ s, members.lookup "method" = some (.string s)) ∧
        (∃ v id, members.lookup "id" = some v ∧ RequestId.Reads v id) ∧
          ∃ s, Version (members.lookup "jsonrpc") s) ∧
    ∀ m, ofJson? (.object members) = some m ↔ ∃ r, r.Reads members ∧ m = .request r
  notification : ∀ members : List (String × Json), (members.lookup "method").isSome →
    present (members.lookup "id") = none →
    ((ofJson? (.object members)).isSome ↔
      (∃ s, members.lookup "method" = some (.string s)) ∧
        ∃ s, Version (members.lookup "jsonrpc") s) ∧
    ∀ m, ofJson? (.object members) = some m ↔ ∃ n, n.Reads members ∧ m = .notification n
  response : ∀ members : List (String × Json), members.lookup "method" = none →
    ((ofJson? (.object members)).isSome ↔
      (∃ s, Version (members.lookup "jsonrpc") s) ∧
        (∃ id, Perhaps RequestId.Reads (members.lookup "id") id) ∧
          ∃ e, Perhaps ResponseError.Reads (members.lookup "error") e) ∧
    ∀ m, ofJson? (.object members) = some m ↔
      ∃ r, r.Reads (members.lookup "jsonrpc") (members.lookup "id") (members.lookup "result")
        (members.lookup "error") ∧ m = .response r
  array : ∀ xs : List Json,
    ((ofJson? (.array xs)).isSome ↔
      xs.length ≤ 4 ∧ (∃ s, Version xs[0]? s) ∧ (∃ id, Perhaps RequestId.Reads xs[1]? id) ∧
        ∃ e, Perhaps ResponseError.Reads xs[3]? e) ∧
    ∀ m, ofJson? (.array xs) = some m ↔
      xs.length ≤ 4 ∧ ∃ r, r.Reads xs[0]? xs[1]? xs[2]? xs[3]? ∧ m = .response r
  other : ∀ v : Json, (∀ members, v ≠ .object members) → (∀ xs, v ≠ .array xs) → ofJson? v = none
  unknown : ∀ ms ns : List (String × Json),
    ((∀ key ∈ knownKeys ms, ms.lookup key = ns.lookup key) →
      ofJson? (.object ms) = ofJson? (.object ns)) ∧
    ((∀ key ∈ ["code", "message", "data"], ms.lookup key = ns.lookup key) →
      ResponseError.ofJson? (.object ms) = ResponseError.ofJson? (.object ns))
  outcome : ∀ (r : Response) (e : ResponseError), r.outcome = .error e ↔ r.error = some e
  text : ∀ s v, Json.parse? s = some v →
    (∀ m, parse s = .ok m ↔ ofJson? v = some m) ∧ (parse s = .error .shape ↔ ofJson? v = none)

theorem message_grammar : Grammar where
  request ms hmethod hid := by
    have hread := fun m => ofJson?_request_iff (m := m) hmethod hid
    refine ⟨?_, hread⟩
    rw [Option.isSome_iff_exists]
    constructor
    · rintro ⟨m, hm⟩
      obtain ⟨r, hr, -⟩ := (hread m).mp hm
      obtain ⟨v, hv, hrid⟩ := hr.id
      exact ⟨⟨_, hr.method⟩, ⟨v, _, hv, hrid⟩, _, hr.version⟩
    · rintro ⟨⟨s, hs⟩, ⟨v, id, hv, hrid⟩, w, hw⟩
      exact ⟨_, (hread _).mpr ⟨⟨w, id, s, _⟩, ⟨hw, ⟨v, hv, hrid⟩, hs, rfl⟩, rfl⟩⟩
  notification ms hmethod hid := by
    have hread := fun m => ofJson?_notification_iff (m := m) hmethod hid
    refine ⟨?_, hread⟩
    rw [Option.isSome_iff_exists]
    constructor
    · rintro ⟨m, hm⟩
      obtain ⟨n, hn, -⟩ := (hread m).mp hm
      exact ⟨⟨_, hn.method⟩, _, hn.version⟩
    · rintro ⟨⟨s, hs⟩, w, hw⟩
      exact ⟨_, (hread _).mpr ⟨⟨w, s, _⟩, ⟨hw, hs, rfl⟩, rfl⟩⟩
  response ms hmethod := by
    have hread := fun m => ofJson?_response_iff (m := m) hmethod
    refine ⟨?_, hread⟩
    rw [Option.isSome_iff_exists]
    constructor
    · rintro ⟨m, hm⟩
      obtain ⟨r, hr, -⟩ := (hread m).mp hm
      exact ⟨⟨_, hr.version⟩, ⟨_, hr.id⟩, _, hr.error⟩
    · rintro ⟨⟨w, hw⟩, ⟨id, hid⟩, e, he⟩
      exact ⟨_, (hread _).mpr ⟨⟨w, id, _, e⟩, ⟨hw, hid, rfl, he⟩, rfl⟩⟩
  array xs := by
    refine ⟨?_, fun m => ofJson?_array_iff⟩
    rw [Option.isSome_iff_exists]
    constructor
    · rintro ⟨m, hm⟩
      obtain ⟨hlength, r, hr, -⟩ := ofJson?_array_iff.mp hm
      exact ⟨hlength, ⟨_, hr.version⟩, ⟨_, hr.id⟩, _, hr.error⟩
    · rintro ⟨hlength, ⟨w, hw⟩, ⟨id, hid⟩, e, he⟩
      exact ⟨_, ofJson?_array_iff.mpr ⟨hlength, ⟨w, id, _, e⟩, ⟨hw, hid, rfl, he⟩, rfl⟩⟩
  other v hobject harray := by
    cases v with
    | object ms => exact absurd rfl (hobject ms)
    | array xs => exact absurd rfl (harray xs)
    | _ => rfl
  unknown ms ns := by
    refine ⟨ofJson?_congr, ?_⟩
    intro h
    simp only [List.forall_mem_cons, List.not_mem_nil, false_imp_iff, implies_true, and_true] at h
    obtain ⟨hcode, hmessage, hdata⟩ := h
    simp only [ResponseError.ofJson?, fields?, List.map_cons, List.map_nil, get?, hcode, hmessage,
      hdata]
  outcome _ _ := Response.outcome_eq_error_iff
  text s v hv := by
    unfold parse
    rw [hv]
    dsimp only
    cases ofJson? v <;> simp

end Message

end LanguageSessions
