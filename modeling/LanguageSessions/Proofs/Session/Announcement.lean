import LanguageSessions.Proofs.Session.Opening
import LanguageSessions.Proofs.Wire.Message

namespace LanguageSessions

namespace Json

inductive StringOrNone : Option Json → Prop
  | absent : StringOrNone none
  | null : StringOrNone (some .null)
  | string (s : String) : StringOrNone (some (.string s))

theorem optional_string_isSome (field : Option Json) :
    (optional string? field).isSome ↔ StringOrNone field := by
  constructor
  · intro h
    cases field with
    | none => exact .absent
    | some v =>
      cases v with
      | null => exact .null
      | string s => exact .string s
      | _ => cases h
  · rintro (_ | _ | s) <;> rfl

theorem required_string_isSome (field : Option Json) :
    (required string? field).isSome ↔ ∃ s, field = some (.string s) := by
  constructor
  · intro h
    cases field with
    | none => cases h
    | some v =>
      cases v with
      | string s => exact ⟨s, rfl⟩
      | _ => cases h
  · rintro ⟨s, rfl⟩
    rfl

end Json

open Json

namespace ServerInfo

/-- The ways in which a server may call itself: by an object with a name or by an array that begins with
one, perhaps with a version, or not at all. -/
inductive Legible : Option Json → Prop
  | absent : Legible none
  | null : Legible (some .null)
  | object {members : List (String × Json)} {name : String}
    (hname : members.lookup "name" = some (.string name))
    (hversion : StringOrNone (members.lookup "version")) : Legible (some (.object members))
  | array {elements : List Json} {name : String} (hlength : elements.length ≤ 2)
    (hname : elements[0]? = some (.string name)) (hversion : StringOrNone elements[1]?) :
    Legible (some (.array elements))

def ofFields? (name version : Option Json) : Option ServerInfo :=
  match required string? name, optional string? version with
  | some name, some version => some ⟨name, version⟩
  | _, _ => none

theorem ofFields?_isSome (name version : Option Json) :
    (ofFields? name version).isSome ↔ (∃ s, name = some (.string s)) ∧ StringOrNone version := by
  rw [← required_string_isSome, ← optional_string_isSome]
  unfold ofFields?
  cases required string? name <;> cases optional string? version <;> simp

theorem ofJson?_isSome (v : Json) (hv : v.isNull = false) :
    (ofJson? v).isSome ↔ Legible (some v) := by
  cases v with
  | object members =>
    have hread : ofJson? (.object members) =
        ofFields? (members.lookup "name") (members.lookup "version") := rfl
    rw [hread, ofFields?_isSome]
    constructor
    · rintro ⟨⟨name, hname⟩, hversion⟩
      exact .object hname hversion
    · rintro (_ | _ | ⟨hname, hversion⟩)
      exact ⟨⟨_, hname⟩, hversion⟩
  | array elements =>
    -- the fields of a record may be given in their order, and there must not be more of them
    by_cases hlength : elements.length ≤ 2
    · have hread : ofJson? (.array elements) = ofFields? elements[0]? elements[1]? := by
        match elements, hlength with
        | [], _ => rfl
        | [x], _ => rfl
        | [x, y], _ => rfl
      rw [hread, ofFields?_isSome]
      constructor
      · rintro ⟨⟨name, hname⟩, hversion⟩
        exact .array hlength hname hversion
      · rintro (_ | _ | _ | ⟨-, hname, hversion⟩)
        exact ⟨⟨_, hname⟩, hversion⟩
    · have hread : ofJson? (.array elements) = none := by
        simp [ofJson?, fields?, hlength]
      rw [hread]
      refine ⟨by rintro ⟨⟩, ?_⟩
      rintro (_ | _ | _ | ⟨hle, -, -⟩)
      exact absurd hle hlength
  | null => cases hv
  | _ =>
    refine ⟨by rintro ⟨⟩, ?_⟩
    rintro ⟨⟩

theorem optional_isSome (field : Option Json) : (optional ofJson? field).isSome ↔ Legible field := by
  cases field with
  | none => exact ⟨fun _ => .absent, fun _ => rfl⟩
  | some v =>
    cases hv : v.isNull with
    | true =>
      cases v with
      | null => exact ⟨fun _ => .null, fun _ => rfl⟩
      | _ => cases hv
    | false => rw [optional_of_notNull _ hv, Option.isSome_map, ofJson?_isSome v hv]

end ServerInfo

namespace ServerCapabilities

theorem ofJson?_object (entries : List (String × Json)) : ∃ c, ofJson? (.object entries) = some c ∧
    ∀ name ∈ names, c.provided? name = present (entries.lookup name) := by
  have hread : ofJson? (.object entries) =
      some ⟨names.filterMap fun n => (present (entries.lookup n)).map (n, ·)⟩ := by
    unfold ofJson?
    change some (ServerCapabilities.mk (List.filterMap _ (names.map fun n => (n, entries.lookup n)))) = _
    rw [List.filterMap_map]
    refine congrArg (fun es => some (ServerCapabilities.mk es)) (List.filterMap_congr fun n _ => ?_)
    dsimp only [Function.comp]
    cases entries.lookup n with
    | none => rfl
    | some v => cases v <;> rfl
  refine ⟨_, hread, ?_⟩
  intro name hname
  exact (lookup_filterMap names (fun n => present (entries.lookup n)) name).trans (if_pos hname)

end ServerCapabilities

namespace Capabilities

inductive Offered : Option Json → Prop
  | yes : Offered (some (.bool true))
  | options (members : List (String × Json)) : Offered (some (.object members))

theorem available_iff (entry : Option Json) : available (present entry) = true ↔ Offered entry := by
  constructor
  · intro h
    cases entry with
    | none => cases h
    | some v =>
      cases v with
      | bool b =>
        cases b with
        | true => exact .yes
        | false => cases h
      | object members => exact .options members
      | _ => cases h
  · rintro (_ | members) <;> rfl

structure Alike (c d : Capabilities) : Prop where
  supports : ∀ f, c.supports f = d.supports f
  summary : c.summary = d.summary
  flags : c.flags = d.flags
  isEmpty : c.isEmpty = d.isEmpty
  completion : c.completion? = d.completion?
  signatureHelp : c.signatureHelp? = d.signatureHelp?
  semanticTokens : c.semanticTokens? = d.semanticTokens?
  hoverOptions : c.hoverOptions? = d.hoverOptions?
  textDocumentSync : c.textDocumentSync? = d.textDocumentSync?

theorem alike_of_announced {c d : Capabilities} (h : c.announced = d.announced) : c.Alike d := by
  have hprovided : c.provided? = d.provided? := by
    funext name
    rw [provided?, provided?, h]
  have hsupports : ∀ f, c.supports f = d.supports f := by
    intro f
    rw [Capabilities.supports, hprovided, Capabilities.supports]
  have hsummary : c.summary = d.summary := List.map_congr_left fun f _ => by rw [hsupports]
  have hoptions : ∀ {α : Type} name (read : Json → Option α),
      c.options? name read = d.options? name read := by
    intro α name read
    rw [options?, options?, hprovided]
  exact {
    supports := hsupports
    summary := hsummary
    flags := by rw [Capabilities.flags, hsummary, Capabilities.flags]
    isEmpty := congrArg Option.isNone h
    completion := hoptions _ _
    signatureHelp := hoptions _ _
    semanticTokens := hoptions _ _
    hoverOptions := hoptions _ _
    textDocumentSync := congrFun hprovided _ }

def ofAnswer (v : Json) : Capabilities := (ofJson? v).getD {}

variable {members : List (String × Json)}

theorem ofJson?_object (members : List (String × Json)) : ofJson? (.object members) =
    (optional ServerCapabilities.ofJson? (members.lookup "capabilities")).bind fun announced =>
      (optional ServerInfo.ofJson? (members.lookup "serverInfo")).map fun info =>
        ⟨announced, info⟩ := by
  have hfields : fields? ["capabilities", "serverInfo"] (.object members) =
    some [members.lookup "capabilities", members.lookup "serverInfo"] := rfl
  rw [ofJson?, hfields]
  dsimp only
  cases optional ServerCapabilities.ofJson? (members.lookup "capabilities") <;>
    cases optional ServerInfo.ofJson? (members.lookup "serverInfo") <;> rfl

theorem announced_ofAnswer (hinfo : ServerInfo.Legible (members.lookup "serverInfo")) :
    (ofAnswer (.object members)).announced =
      (optional ServerCapabilities.ofJson? (members.lookup "capabilities")).join := by
  obtain ⟨info, hread⟩ := Option.isSome_iff_exists.mp ((ServerInfo.optional_isSome _).mpr hinfo)
  rw [ofAnswer, ofJson?_object, hread]
  cases optional ServerCapabilities.ofJson? (members.lookup "capabilities") <;> rfl

theorem ofAnswer_illegible (hinfo : ¬ ServerInfo.Legible (members.lookup "serverInfo")) :
    ofAnswer (.object members) = {} := by
  rw [← ServerInfo.optional_isSome, Option.not_isSome_iff_eq_none] at hinfo
  rw [ofAnswer, ofJson?_object, hinfo]
  cases optional ServerCapabilities.ofJson? (members.lookup "capabilities") <;> rfl

theorem supports_ofAnswer {entries : List (String × Json)}
    (hentries : members.lookup "capabilities" = some (.object entries))
    (hinfo : ServerInfo.Legible (members.lookup "serverInfo")) (f : Feature) :
    (ofAnswer (.object members)).supports f = true ↔ Offered (entries.lookup f.provider) := by
  obtain ⟨c, hread, hprovided⟩ := ServerCapabilities.ofJson?_object entries
  have hannounced : (ofAnswer (.object members)).announced = some c := by
    rw [announced_ofAnswer hinfo, hentries, optional_of_notNull _ rfl, hread]
    rfl
  have hname : f.provider ∈ ServerCapabilities.names := by cases f <;> decide
  rw [Capabilities.supports, Capabilities.provided?, hannounced, ← available_iff]
  exact (congrArg (available · = true) (hprovided _ hname)).to_iff

end Capabilities

namespace Handshake

structure Announces (v : Json) : Prop where
  settled : ∀ hs s before m rest, Undecided s.timing hs before →
    m.answer? (hs.through s.timing before) = some (.ok v) → v.isNull = false →
    m.connection.channel.takes = true →
    ∃ t, hs.watch s (before ++ m :: rest) =
        (t, some (.ok { capabilities := Capabilities.ofAnswer v })) ∧
      (s.announced = none → t.capabilities = Capabilities.ofAnswer v)
  supports : ∀ members entries f, v = .object members →
    members.lookup "capabilities" = some (.object entries) →
    ServerInfo.Legible (members.lookup "serverInfo") →
    ((Capabilities.ofAnswer v).supports f = true ↔ Capabilities.Offered (entries.lookup f.provider))
  alike : ∀ members others, v = .object members →
    members.lookup "capabilities" = others.lookup "capabilities" →
    ServerInfo.Legible (members.lookup "serverInfo") →
    ServerInfo.Legible (others.lookup "serverInfo") →
    (Capabilities.ofAnswer v).Alike (Capabilities.ofAnswer (.object others))
  illegible : ∀ members, v = .object members →
    ¬ ServerInfo.Legible (members.lookup "serverInfo") →
    Capabilities.ofAnswer v = {} ∧ ∀ f, (Capabilities.ofAnswer v).supports f = false

theorem answer_announces (v : Json) : Announces v where
  settled := by
    intro hs s before m rest hbefore hfound hv htakes
    obtain ⟨t, r, hwatch, hend⟩ := watch_decided hbefore (.value v hfound hv) rest
    obtain ⟨rfl, hleaves⟩ := hend.1 htakes
    refine ⟨t, hwatch, ?_⟩
    intro hnone
    rw [Session.capabilities, hleaves.session]
    change (s.announced <|> _).getD {} = _
    rw [hnone]
    rfl
  supports := by
    rintro members entries f rfl hentries hinfo
    exact Capabilities.supports_ofAnswer hentries hinfo f
  alike := by
    rintro members others rfl hsame hinfo hother
    apply Capabilities.alike_of_announced
    rw [Capabilities.announced_ofAnswer hinfo, Capabilities.announced_ofAnswer hother, hsame]
  illegible := by
    rintro members rfl hinfo
    rw [Capabilities.ofAnswer_illegible hinfo]
    exact ⟨rfl, fun _ => rfl⟩

/-- A server that offers hovering, but calls itself by an object without a name, is taken to offer
nothing. -/
theorem nameless_server_offers_nothing :
    let entries := [("hoverProvider", .bool true)]
    let v := .object [("capabilities", .object entries), ("serverInfo", .object [])]
    let c := (Connection.ofChannel {} "server" "/w" { process := some {} } false).run
      [.send "initialize" none, .hear (.response (.success (.number 1) v))]
    let s : Session :=
      { id := 1, key := ⟨"file:///w", "text/x-foo"⟩, root := "/w", server := "server",
        connection := c, timing := {} }
    let hs : Handshake := ⟨1, 0, 100⟩
    let m : Moment := ⟨0, c, .starting⟩
    m.answer? hs = some (.ok v) ∧
      Capabilities.Offered (entries.lookup Feature.hover.provider) ∧
      ∃ t o, hs.watch s [m] = (t, some (.ok o)) ∧ t.capabilities.supports .hover = false ∧
        o.capabilities.supports .hover = false :=
  ⟨rfl, .yes, _, _, rfl, rfl, rfl⟩

end Handshake

end LanguageSessions
