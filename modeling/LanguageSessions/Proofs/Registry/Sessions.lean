import LanguageSessions.Proofs.Session.Life
import LanguageSessions.Registry.Basic

namespace LanguageSessions

namespace Registry

def key? (r : Registry) (id : SessionId) : Option SessionKey := (r.session? id).map Session.key

def Knows (r : Registry) (id : Nat) : Prop := 0 < id ∧ id ≤ r.sessions.length

theorem session?_id {r : Registry} {id : SessionId} {s : Session} (h : r.session? id = some s) :
    s.id = id := by
  have := List.find?_some h
  simpa using this

theorem session?_modify (r : Registry) (id x : SessionId) (f : Session → Session)
    (hf : ∀ s, s.id = id → (f s).id = id) :
    (r.modify id f).session? x = if x = id then (r.session? id).map f else r.session? x := by
  have hpred : ((fun s : Session => s.id == x) ∘ fun s => if s.id == id then f s else s) =
      fun s => s.id == x := by
    funext s
    by_cases hs : s.id = id
    · simp [hs, hf s hs]
    · simp [hs]
  unfold session? modify
  rw [List.find?_map, hpred]
  by_cases hx : x = id
  · subst hx
    rw [if_pos rfl]
    cases hfind : r.sessions.find? (·.id == x) with
    | none => rfl
    | some s =>
      have hs : s.id = x := session?_id hfind
      simp [hs]
  · rw [if_neg hx]
    cases hfind : r.sessions.find? (·.id == x) with
    | none => rfl
    | some s =>
      have hs : s.id = x := session?_id hfind
      simp [hs, hx]

theorem change_of_some {r : Registry} {id : SessionId} {s : Session} (h : r.session? id = some s)
    (f : Session → Session × α) :
    r.change id f = (r.modify id fun _ => (f s).1, some (f s).2) := by
  rw [change, h]

theorem change_of_none {r : Registry} {id : SessionId} (h : r.session? id = none)
    (f : Session → Session × α) : r.change id f = (r, none) := by
  rw [change, h]

structure Stays (r r' : Registry) : Prop where
  tables : r'.tables = r.tables
  announced : r'.announced = r.announced
  holder : r'.turns.holder = r.turns.holder
  count : r.sessions.length ≤ r'.sessions.length
  keys : ∀ id key, r.key? id = some key → r'.key? id = some key

theorem Stays.trans {r r' r'' : Registry} (h : r.Stays r') (k : r'.Stays r'') : r.Stays r'' where
  tables := k.tables.trans h.tables
  announced := k.announced.trans h.announced
  holder := k.holder.trans h.holder
  count := Nat.le_trans h.count k.count
  keys := fun id key hk => k.keys id key (h.keys id key hk)

structure Frame (r r' : Registry) : Prop extends Stays r r' where
  launches : r'.launches = r.launches
  count_eq : r'.sessions.length = r.sessions.length
  keys_eq : ∀ id, r'.key? id = r.key? id

theorem Frame.rfl (r : Registry) : r.Frame r where
  tables := by rfl
  announced := by rfl
  holder := by rfl
  count := Nat.le_refl _
  keys := fun _ _ h => h
  launches := by rfl
  count_eq := by rfl
  keys_eq := fun _ => by rfl

theorem Frame.trans {r r' r'' : Registry} (h : r.Frame r') (k : r'.Frame r'') : r.Frame r'' where
  toStays := h.toStays.trans k.toStays
  launches := k.launches.trans h.launches
  count_eq := k.count_eq.trans h.count_eq
  keys_eq := fun id => (k.keys_eq id).trans (h.keys_eq id)

theorem frame_modify (r : Registry) (id : SessionId) (f : Session → Session)
    (hf : ∀ s, s.id = id → (f s).id = id) (hkey : ∀ s, r.session? id = some s → (f s).key = s.key) :
    r.Frame (r.modify id f) := by
  have hkeys : ∀ x, (r.modify id f).key? x = r.key? x := by
    intro x
    rw [key?, session?_modify r id x f hf, key?]
    split
    · next hx =>
      subst hx
      cases hs : r.session? x with
      | none => rfl
      | some s => exact congrArg some (hkey s hs)
    · rfl
  exact {
    tables := rfl
    announced := rfl
    holder := rfl
    count := Nat.le_of_eq (List.length_map _).symm
    keys := fun x key hk => (hkeys x).trans hk
    launches := rfl
    count_eq := List.length_map _
    keys_eq := hkeys }

theorem frame_change (r : Registry) (id : SessionId) (f : Session → Session × α)
    (hid : ∀ s, (f s).1.id = s.id) (hkey : ∀ s, (f s).1.key = s.key) :
    r.Frame (r.change id f).1 := by
  cases hs : r.session? id with
  | none =>
    rw [change_of_none hs]
    exact Frame.rfl r
  | some s =>
    rw [change_of_some hs]
    apply frame_modify
    · exact fun _ _ => (hid s).trans (session?_id hs)
    · intro t ht
      rw [hs, Option.some.injEq] at ht
      subst ht
      exact hkey s

theorem retired_change (r : Registry) (id : SessionId) (f : Session → Session × α) :
    (r.change id f).1.retired = r.retired := by
  unfold change
  split <;> rfl

theorem released_change (r : Registry) (id : SessionId) (f : Session → Session × α) :
    (r.change id f).1.released = r.released := by
  unfold change
  split <;> rfl

structure Moves (r r' : Registry) (new : List SessionId) : Prop where
  keys : ∀ id key, r.key? id = some key → r'.key? id = some key
  count : r.sessions.length ≤ r'.sessions.length
  held : ∀ id ∈ r'.tables.held, id ∈ r.tables.held ∨ id ∈ new
  entered : ∀ id ∈ new, id ∈ r'.tables.held
  announced : r'.announced = r.announced ++ new

theorem Stays.moves {r r' : Registry} (h : r.Stays r') : r.Moves r' [] where
  keys := h.keys
  count := h.count
  held := fun id hid => .inl (h.tables ▸ hid)
  entered := by simp
  announced := by simp [h.announced]

theorem Frame.moves {r r' : Registry} (h : r.Frame r') : r.Moves r' [] := h.toStays.moves

theorem Moves.rfl (r : Registry) : r.Moves r [] := (Frame.rfl r).moves

theorem Moves.trans {r r' r'' : Registry} {new : List SessionId} (h : r.Moves r' [])
    (k : r'.Moves r'' new) : r.Moves r'' new where
  keys := fun id key hk => k.keys id key (h.keys id key hk)
  count := Nat.le_trans h.count k.count
  held := by
    intro id hid
    rcases k.held id hid with hid | hid
    · exact .inl ((h.held id hid).resolve_right List.not_mem_nil)
    · exact .inr hid
  entered := k.entered
  announced := by rw [k.announced, h.announced, List.append_nil]

end Registry

end LanguageSessions
