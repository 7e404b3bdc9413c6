import LanguageSessions.Proofs.Wire.Message

namespace LanguageSessions

namespace Json

def HasPart (v x : Json) : Prop := x ∈ v.elements ∨ ∃ k, (k, x) ∈ v.members

theorem hasPart_of_fields? {names : List String} {v x : Json} {fs : List (Option Json)}
    (h : fields? names v = some fs) (hx : some x ∈ fs) : v.HasPart x := by
  unfold fields? at h
  split at h
  · next ms =>
    cases h
    obtain ⟨k, -, hk⟩ := List.mem_map.mp hx
    obtain ⟨before, after, hms, -⟩ := List.lookup_eq_some_iff.mp hk
    right
    exact ⟨k, by rw [members, hms]; exact List.mem_append_right _ List.mem_cons_self⟩
  · next xs =>
    split at h
    · cases h
      left
      rcases List.mem_append.mp hx with hx | hx
      · obtain ⟨y, hy, heq⟩ := List.mem_map.mp hx
        rwa [Option.some.inj heq] at hy
      · cases (List.mem_replicate.mp hx).2
    · cases h
  · cases h

theorem made_of_part {d : Nat} {v x : Json} (h : Made (d + 1) v)
    (hx : v.HasPart x) : Made d x := by
  cases v with
  | array xs =>
    have hmem : x ∈ xs := by simpa [HasPart, elements, members] using hx
    exact ⟨(sorted_array xs).mp h.sorted x hmem, (bounded_array xs).mp h.bounded x hmem,
      (nesting_array_le xs d).mp h.shallow x hmem⟩
  | object ms =>
    obtain ⟨k, hmem⟩ : ∃ k, (k, x) ∈ ms := by simpa [HasPart, elements, members] using hx
    exact ⟨((sorted_object ms).mp h.sorted).2 _ hmem, (bounded_object ms).mp h.bounded _ hmem,
      (nesting_object_le ms d).mp h.shallow _ hmem⟩
  | _ => simp [HasPart, elements, members] at hx

theorem floatless_of_part {v x : Json} (h : v.floatless = true)
    (hx : v.HasPart x) : x.floatless = true := by
  cases v with
  | array xs => exact (floatless_array xs).mp h x (by simpa [HasPart, elements, members] using hx)
  | object ms =>
    obtain ⟨k, hmem⟩ : ∃ k, (k, x) ∈ ms := by simpa [HasPart, elements, members] using hx
    exact (floatless_object ms).mp h _ hmem
  | _ => simp [HasPart, elements, members] at hx

theorem payload_of_fields? {names : List String} {v : Json} {fs : List (Option Json)}
    (h : fields? names v = some fs) {field payload : Option Json} (hfield : field ∈ fs)
    (hread : optional some field = some payload) :
    present payload = payload ∧ ∀ x ∈ payload, v.HasPart x := by
  rw [optional_some, Option.some.injEq] at hread
  subst hread
  refine ⟨present_present field, ?_⟩
  intro x hx
  have hfound : field = some x := by
    cases field with
    | none => cases hx
    | some y => cases y <;> first | exact hx | cases hx
  rw [hfound] at hfield
  exact hasPart_of_fields? h hfield

theorem read_of_optional {read : Json → Option α} {field : Option Json} {w : α}
    (h : optional read field = some (some w)) : ∃ v, field = some v ∧ read v = some w := by
  unfold optional at h
  split at h
  · cases h
  · cases h
  · next v _ =>
    obtain ⟨x, hx, heq⟩ := Option.map_eq_some_iff.mp h
    rw [Option.some.injEq] at heq
    exact ⟨v, rfl, heq ▸ hx⟩

end Json

open Json

theorem RequestId.held_of_ofJson? {v : Json} {id : RequestId} (h : ofJson? v = some id) : id.Held := by
  rintro n rfl
  unfold ofJson? at h
  split at h
  · cases h
  · obtain ⟨k, hk, heq⟩ := Option.map_eq_some_iff.mp h
    cases heq
    obtain ⟨i, hi, rfl⟩ := Option.map_eq_some_iff.mp hk
    unfold integer? at hi
    split at hi
    · split at hi
      · cases hi
        omega
      · cases hi
    · cases hi

namespace Request

theorem of_ofJson? {v : Json} {r : Request} (h : Request.ofJson? v = some r) :
    r.id.Held ∧ r.normal = r ∧ ∀ x ∈ r.params, v.HasPart x := by
  unfold Request.ofJson? at h
  split at h
  · next version id method params hfields =>
    split at h
    · next hid _ hparams =>
      cases h
      obtain ⟨hnormal, hparts⟩ := payload_of_fields? hfields (by simp) hparams
      obtain ⟨w, -, hw⟩ := Option.bind_eq_some_iff.mp hid
      exact ⟨RequestId.held_of_ofJson? hw, by rw [normal, hnormal], hparts⟩
    · cases h
  · cases h

theorem toJson_nesting {r : Request} {d : Nat} (h : ∀ v ∈ r.params, v.nesting ≤ d) :
    r.toJson.nesting ≤ d + 1 := by
  rw [toJson, nesting_object_le]
  intro m hm
  rcases List.mem_append.mp hm with hm | hm
  · simp only [List.mem_cons, List.not_mem_nil, or_false] at hm
    rcases hm with rfl | rfl | rfl
    · exact Nat.zero_le _
    · exact r.id.toJson_nesting.le.trans (Nat.zero_le _)
    · exact Nat.zero_le _
  · exact h _ (mem_member hm)

end Request

namespace Notification

theorem of_ofJson? {v : Json} {n : Notification} (h : Notification.ofJson? v = some n) :
    n.normal = n ∧ ∀ x ∈ n.params, v.HasPart x := by
  unfold Notification.ofJson? at h
  split at h
  · next version method params hfields =>
    split at h
    · next hparams =>
      cases h
      obtain ⟨hnormal, hparts⟩ := payload_of_fields? hfields (by simp) hparams
      exact ⟨by rw [normal, hnormal], hparts⟩
    · cases h
  · cases h

theorem toJson_nesting {n : Notification} {d : Nat} (h : ∀ v ∈ n.params, v.nesting ≤ d) :
    n.toJson.nesting ≤ d + 1 := by
  rw [toJson, nesting_object_le]
  intro m hm
  rcases List.mem_append.mp hm with hm | hm
  · simp only [List.mem_cons, List.not_mem_nil, or_false] at hm
    rcases hm with rfl | rfl <;> exact Nat.zero_le _
  · exact h _ (mem_member hm)

end Notification

namespace ResponseError

theorem of_ofJson? {v : Json} {e : ResponseError} (h : ResponseError.ofJson? v = some e) :
    e.Held ∧ e.normal = e ∧ ∀ x ∈ e.data, v.HasPart x := by
  unfold ResponseError.ofJson? at h
  split at h
  · next code message data hfields =>
    split at h
    · next hcode _ hdata =>
      cases h
      obtain ⟨hnormal, hparts⟩ := payload_of_fields? hfields (by simp) hdata
      obtain ⟨w, -, hw⟩ := Option.bind_eq_some_iff.mp hcode
      refine ⟨?_, by rw [normal, hnormal], hparts⟩
      unfold integer? at hw
      split at hw
      · split at hw
        · next hrange =>
          cases hw
          exact hrange
        · cases hw
      · cases hw
    · cases h
  · cases h

theorem toJson_nesting {e : ResponseError} {d : Nat} (h : ∀ v ∈ e.data, v.nesting ≤ d) :
    e.toJson.nesting ≤ d + 1 := by
  rw [toJson, nesting_object_le]
  intro m hm
  rcases List.mem_append.mp hm with hm | hm
  · simp only [List.mem_cons, List.not_mem_nil, or_false] at hm
    rcases hm with rfl | rfl <;> exact Nat.zero_le _
  · exact h _ (mem_member hm)

end ResponseError

namespace Response

theorem of_ofJson? {v : Json} {r : Response} (h : Response.ofJson? v = some r) :
    (∀ id ∈ r.id, id.Held) ∧ present r.result = r.result ∧ (∀ x ∈ r.result, v.HasPart x) ∧
      ∀ e ∈ r.error, ∃ w, v.HasPart w ∧ ResponseError.ofJson? w = some e := by
  unfold Response.ofJson? at h
  split at h
  · next version id result error hfields =>
    split at h
    · next hid hresult herror =>
      cases h
      obtain ⟨hnormal, hparts⟩ := payload_of_fields? hfields (by simp) hresult
      refine ⟨?_, hnormal, hparts, ?_⟩
      · rintro i rfl
        obtain ⟨w, -, hw⟩ := read_of_optional hid
        exact RequestId.held_of_ofJson? hw
      · rintro e rfl
        obtain ⟨w, rfl, hw⟩ := read_of_optional herror
        exact ⟨w, hasPart_of_fields? hfields (by simp), hw⟩
    · cases h
  · cases h

theorem toJson_nesting {r : Response} {d : Nat} (hresult : ∀ v ∈ r.result, v.nesting ≤ d + 1)
    (herror : ∀ e ∈ r.error, ∀ v ∈ e.data, v.nesting ≤ d) : r.toJson.nesting ≤ d + 2 := by
  rw [toJson, nesting_object_le]
  intro m hm
  rcases List.mem_append.mp hm with hm | hm
  · rcases List.mem_append.mp hm with hm | hm
    · simp only [List.mem_cons, List.not_mem_nil, or_false] at hm
      rcases hm with rfl | rfl
      · exact Nat.zero_le _
      · cases r.id with
        | none => exact Nat.zero_le _
        | some id => exact id.toJson_nesting.le.trans (Nat.zero_le _)
    · exact hresult _ (mem_member hm)
  · obtain ⟨e, he, heq⟩ := Option.map_eq_some_iff.mp (mem_member hm)
    rw [← heq]
    exact ResponseError.toJson_nesting (herror e he)

end Response

namespace Message

theorem ofJson?_cases {v : Json} {m : Message} (h : Message.ofJson? v = some m) :
    (∃ r, Request.ofJson? v = some r ∧ m = request r) ∨
      (∃ n, Notification.ofJson? v = some n ∧ m = notification n) ∨
      ∃ r, Response.ofJson? v = some r ∧ m = response r := by
  unfold Message.ofJson? at h
  dsimp only at h
  split at h
  · split at h
    · obtain ⟨r, hr, rfl⟩ := Option.map_eq_some_iff.mp h
      exact .inl ⟨r, hr, rfl⟩
    · obtain ⟨n, hn, rfl⟩ := Option.map_eq_some_iff.mp h
      exact .inr (.inl ⟨n, hn, rfl⟩)
  · obtain ⟨r, hr, rfl⟩ := Option.map_eq_some_iff.mp h
    exact .inr (.inr ⟨r, hr, rfl⟩)

theorem part_of_payload {v : Json} {m : Message} (h : Message.ofJson? v = some m) {x : Json}
    (hx : x ∈ m.payloads) : v.HasPart x ∨ ∃ w, v.HasPart w ∧ w.HasPart x := by
  rcases ofJson?_cases h with ⟨r, hr, rfl⟩ | ⟨n, hn, rfl⟩ | ⟨r, hr, rfl⟩
  · exact .inl ((Request.of_ofJson? hr).2.2 x (Option.mem_toList.mp hx))
  · exact .inl ((Notification.of_ofJson? hn).2 x (Option.mem_toList.mp hx))
  · obtain ⟨-, -, hresult, herror⟩ := Response.of_ofJson? hr
    rcases List.mem_append.mp hx with hx | hx
    · exact .inl (hresult x (Option.mem_toList.mp hx))
    · obtain ⟨e, he, hdata⟩ := Option.bind_eq_some_iff.mp (Option.mem_toList.mp hx)
      obtain ⟨w, hw, hread⟩ := herror e he
      exact .inr ⟨w, hw, (ResponseError.of_ofJson? hread).2.2 x hdata⟩

theorem floatless_of_ofJson? {v : Json} {m : Message} (h : Message.ofJson? v = some m)
    (hfloat : v.floatless = true) : m.Floatless := by
  intro x hx
  rcases part_of_payload h hx with hpart | ⟨w, hw, hpart⟩
  · exact floatless_of_part hfloat hpart
  · exact floatless_of_part (floatless_of_part hfloat hw) hpart

theorem held_of_ofJson? {v : Json} (hv : Made maxDepth v) {m : Message}
    (h : Message.ofJson? v = some m) : m.Held := by
  have hpayload : ∀ x ∈ m.payloads, x.sorted = true ∧ x.bounded = true := by
    intro x hx
    rcases part_of_payload h hx with hpart | ⟨w, hw, hpart⟩
    · have hmade := made_of_part hv hpart
      exact ⟨hmade.sorted, hmade.bounded⟩
    · have hmade := made_of_part (made_of_part hv hw) hpart
      exact ⟨hmade.sorted, hmade.bounded⟩
  have hid : (∀ id ∈ m.id?, id.Held) ∧ ∀ e ∈ m.error?, e.Held := by
    rcases ofJson?_cases h with ⟨r, hr, rfl⟩ | ⟨n, hn, rfl⟩ | ⟨r, hr, rfl⟩
    · refine ⟨?_, by rintro e ⟨⟩⟩
      rintro id ⟨⟩
      exact (Request.of_ofJson? hr).1
    · exact ⟨by rintro id ⟨⟩, by rintro e ⟨⟩⟩
    · obtain ⟨hid, -, -, herror⟩ := Response.of_ofJson? hr
      refine ⟨hid, ?_⟩
      intro e he
      obtain ⟨w, -, hread⟩ := herror e he
      exact (ResponseError.of_ofJson? hread).1
  exact {
    id := hid.1
    error := hid.2
    sorted := fun x hx => (hpayload x hx).1
    bounded := fun x hx => (hpayload x hx).2 }

theorem normal_of_ofJson? {v : Json} {m : Message} (h : Message.ofJson? v = some m) :
    m.normal = m := by
  rcases ofJson?_cases h with ⟨r, hr, rfl⟩ | ⟨n, hn, rfl⟩ | ⟨r, hr, rfl⟩
  · exact congrArg request (Request.of_ofJson? hr).2.1
  · exact congrArg notification (Notification.of_ofJson? hn).1
  · obtain ⟨-, hresult, -, herror⟩ := Response.of_ofJson? hr
    have hmap : r.error.map ResponseError.normal = r.error := by
      cases he : r.error with
      | none => rfl
      | some e =>
        obtain ⟨w, -, hread⟩ := herror e he
        rw [Option.map_some, (ResponseError.of_ofJson? hread).2.1]
    rw [normal, Response.normal, hresult, hmap]

theorem shallow_of_ofJson? {v : Json} (hv : Made maxDepth v) {m : Message}
    (h : Message.ofJson? v = some m) : m.toJson.nesting ≤ maxDepth := by
  have hpart : ∀ x, v.HasPart x → Made 126 x := fun x hx => made_of_part hv hx
  rcases ofJson?_cases h with ⟨r, hr, rfl⟩ | ⟨n, hn, rfl⟩ | ⟨r, hr, rfl⟩
  · have hparams := (Request.of_ofJson? hr).2.2
    exact Request.toJson_nesting fun x hx => (hpart x (hparams x hx)).shallow
  · have hparams := (Notification.of_ofJson? hn).2
    exact Notification.toJson_nesting fun x hx => (hpart x (hparams x hx)).shallow
  · obtain ⟨-, -, hresult, herror⟩ := Response.of_ofJson? hr
    apply Response.toJson_nesting fun x hx => (hpart x (hresult x hx)).shallow
    intro e he x hx
    obtain ⟨w, hw, hread⟩ := herror e he
    have hdata := (ResponseError.of_ofJson? hread).2.2 x hx
    exact (made_of_part (hpart w hw) hdata).shallow

theorem json_of_parse {t : String} {m : Message} (h : Message.parse t = .ok m) :
    ∃ v, Json.parse? t = some v ∧ Message.ofJson? v = some m := by
  unfold Message.parse at h
  split at h
  · cases h
  · next v hv =>
    split at h
    · cases h
    · next m' hm =>
      cases h
      exact ⟨v, hv, hm⟩

theorem parse_text_of_parse {t : String} {m : Message} (h : Message.parse t = .ok m)
    (hfloat : m.Floatless) : Message.parse m.text = .ok m := by
  obtain ⟨v, hv, hm⟩ := json_of_parse h
  have hmade := made_of_parse? hv
  rw [parse_text (held_of_ofJson? hmade hm) hfloat (shallow_of_ofJson? hmade hm),
    normal_of_ofJson? hm]

/-- What is written of a message is read as the message, its null payloads absent; and a message
that was read, from a text of any shape, is written as a text that reads as the same message. A text
without floats has a message without floats. -/
theorem wire_round_trip :
    (∀ m : Message, m.Held → m.Floatless → m.toJson.nesting ≤ maxDepth →
      (Utf8.bytes m.text).length ≤ Frame.maxLength → ∀ (ended : Bool) (rest : List UInt8),
        ∃ body, Frame.take ended (Frame.encode m.text ++ rest) = .frame body rest ∧
          Frame.decodeBody body = .ok m.normal) ∧
    (∀ (t : String) (m : Message), Message.parse t = .ok m → m.Floatless →
      Message.parse m.text = .ok m) ∧
    ∀ (t : String) (v : Json) (m : Message), Json.parse? t = some v → v.floatless = true →
      Message.parse t = .ok m → m.Floatless := by
  refine ⟨?_, ?_, ?_⟩
  · intro m hheld hfloat hdepth hlength ended rest
    refine ⟨Utf8.bytes m.text, Frame.take_encodeBytes ended hlength rest, ?_⟩
    rw [Frame.decodeBody, Utf8.text?_bytes]
    simp only [parse_text hheld hfloat hdepth]
  · intro t m h hfloat
    exact parse_text_of_parse h hfloat
  · intro t v m hv hfloat h
    obtain ⟨w, hw, hm⟩ := json_of_parse h
    rw [hv, Option.some.injEq] at hw
    exact floatless_of_ofJson? hm (hw ▸ hfloat)

theorem wire_round_trip_odd :
    (∃ body, Frame.take true (Frame.encode (request ⟨"2.0", .text "7", "a/b", some .null⟩).text) =
        .frame body [] ∧
      Frame.decodeBody body = .ok (request ⟨"2.0", .text "7", "a/b", none⟩)) ∧
    Message.parse (response ⟨"2.0", some (.number 7), some (.bool true), none⟩).text =
      .ok (response ⟨"2.0", some (.number 7), some (.bool true), none⟩) := by
  constructor
  · have hheld : (request ⟨"2.0", .text "7", "a/b", some .null⟩).Held := {
      id := by rintro id ⟨⟩ n ⟨⟩
      error := by rintro e ⟨⟩
      sorted := by decide +kernel
      bounded := by decide +kernel }
    have h := wire_round_trip.1 _ hheld (by unfold Floatless; decide +kernel) (by decide +kernel)
      (by decide +kernel) true []
    rwa [List.append_nil] at h
  · have htext : compact (.array [.string "2.0", .integer 7, .bool true]) = "[\"2.0\",7,true]" := by
      decide +kernel
    have hread := parse?_compact (.array [.string "2.0", .integer 7, .bool true])
      (by decide +kernel) (by decide +kernel)
    have hparse : Message.parse "[\"2.0\",7,true]" =
        .ok (response ⟨"2.0", some (.number 7), some (.bool true), none⟩) := by
      rw [Message.parse, ← htext, hread]
      rfl
    have hfloat := wire_round_trip.2.2 _ _ _ (htext ▸ hread) (by decide +kernel) hparse
    exact wire_round_trip.2.1 _ _ hparse hfloat

end Message

end LanguageSessions
