import Mathlib.Data.List.Basic
import LanguageSessions.Json.Basic

namespace LanguageSessions.Json

mutual

def every (p : Json → Bool) : Json → Bool
  | .array xs => p (.array xs) && everyElement p xs
  | .object ms => p (.object ms) && everyMember p ms
  | v => p v

def everyElement (p : Json → Bool) : List Json → Bool
  | [] => true
  | x :: xs => every p x && everyElement p xs

def everyMember (p : Json → Bool) : List (String × Json) → Bool
  | [] => true
  | m :: ms => every p m.2 && everyMember p ms

end

mutual

def nesting : Json → Nat
  | .array xs => nestingElements xs + 1
  | .object ms => nestingMembers ms + 1
  | _ => 0

def nestingElements : List Json → Nat
  | [] => 0
  | x :: xs => max (nesting x) (nestingElements xs)

def nestingMembers : List (String × Json) → Nat
  | [] => 0
  | m :: ms => max (nesting m.2) (nestingMembers ms)

end

mutual

def normal : Json → Json
  | .array xs => .array (normalElements xs)
  | .object ms => ofMembers (normalMembers ms)
  | v => v

def normalElements : List Json → List Json
  | [] => []
  | x :: xs => normal x :: normalElements xs

def normalMembers : List (String × Json) → List (String × Json)
  | [] => []
  | m :: ms => (m.1, normal m.2) :: normalMembers ms

end

@[elab_as_elim]
theorem parts {P : Json → Prop} (null : P .null) (bool : ∀ b, P (.bool b))
    (integer : ∀ n, P (.integer n)) (float : ∀ x, P (.float x)) (string : ∀ s, P (.string s))
    (array : ∀ xs, (∀ x ∈ xs, P x) → P (.array xs))
    (object : ∀ ms, (∀ m ∈ ms, P m.2) → P (.object ms)) (v : Json) : P v :=
  match v with
  | .null => null
  | .bool b => bool b
  | .integer n => integer n
  | .float x => float x
  | .string s => string s
  | .array xs => array xs fun x hx =>
    have := List.sizeOf_lt_of_mem hx
    parts null bool integer float string array object x
  | .object ms => object ms fun (k, v) hm =>
    have := List.sizeOf_lt_of_mem hm
    parts null bool integer float string array object v
termination_by sizeOf v
decreasing_by
  · simp only [Json.array.sizeOf_spec]
    omega
  · simp only [Prod.mk.sizeOf_spec] at this
    simp only [Json.object.sizeOf_spec]
    omega

theorem every_array (p : Json → Bool) (xs : List Json) :
    every p (.array xs) = true ↔ p (.array xs) = true ∧ ∀ x ∈ xs, every p x = true := by
  have hall : everyElement p xs = true ↔ ∀ x ∈ xs, every p x = true := by
    induction xs with
    | nil => simp [everyElement]
    | cons x xs ih => simp [everyElement, ih]
  rw [every, Bool.and_eq_true, hall]

theorem every_object (p : Json → Bool) (ms : List (String × Json)) :
    every p (.object ms) = true ↔ p (.object ms) = true ∧ ∀ m ∈ ms, every p m.2 = true := by
  have hall : everyMember p ms = true ↔ ∀ m ∈ ms, every p m.2 = true := by
    induction ms with
    | nil => simp [everyMember]
    | cons m ms ih => simp only [everyMember, Bool.and_eq_true, ih, List.forall_mem_cons]
  rw [every, Bool.and_eq_true, hall]

theorem nesting_array_le (xs : List Json) (d : Nat) :
    nesting (.array xs) ≤ d + 1 ↔ ∀ x ∈ xs, nesting x ≤ d := by
  rw [nesting, Nat.add_le_add_iff_right]
  induction xs with
  | nil => simp [nestingElements]
  | cons x xs ih => simp only [nestingElements, Nat.max_le, ih, List.forall_mem_cons]

theorem nesting_object_le (ms : List (String × Json)) (d : Nat) :
    nesting (.object ms) ≤ d + 1 ↔ ∀ m ∈ ms, nesting m.2 ≤ d := by
  rw [nesting, Nat.add_le_add_iff_right]
  induction ms with
  | nil => simp [nestingMembers]
  | cons m ms ih => simp only [nestingMembers, Nat.max_le, ih, List.forall_mem_cons]

theorem sorted_array (xs : List Json) :
    sorted (.array xs) = true ↔ ∀ x ∈ xs, sorted x = true := by
  rw [sorted]
  induction xs with
  | nil => simp [sortedAll]
  | cons x xs ih => simp [sortedAll, ih]

theorem sorted_object (ms : List (String × Json)) :
    sorted (.object ms) = true ↔
      ms.Pairwise (fun m m' => m.1 < m'.1) ∧ ∀ m ∈ ms, sorted m.2 = true := by
  rw [sorted]
  induction ms with
  | nil => simp [sortedMembers]
  | cons m ms ih =>
    cases ms with
    | nil => simp [sortedMembers]
    | cons m' ms =>
      rw [sortedMembers, Bool.and_eq_true, Bool.and_eq_true, decide_eq_true_iff, ih,
        List.pairwise_cons (a := m), List.forall_mem_cons (a := m)]
      constructor
      · rintro ⟨⟨hlt, hm⟩, hpair, hms⟩
        refine ⟨⟨?_, hpair⟩, hm, hms⟩
        intro o ho
        rcases List.mem_cons.mp ho with rfl | ho
        · exact hlt
        · exact String.lt_trans hlt ((List.pairwise_cons.mp hpair).1 o ho)
      · rintro ⟨⟨hlt, hpair⟩, hm, hms⟩
        exact ⟨⟨hlt m' List.mem_cons_self, hm⟩, hpair, hms⟩

theorem insert_of_lt (key : String) (v : Json) (ms : List (String × Json)) (h : ∀ m ∈ ms, m.1 < key) :
    insert key v ms = ms ++ [(key, v)] := by
  induction ms with
  | nil => rfl
  | cons m ms ih =>
    have hm := h m List.mem_cons_self
    have hnot : ¬ key < m.1 := String.lt_asymm hm
    have hne : key ≠ m.1 := (String.ne_of_lt hm).symm
    rw [insert, if_neg hnot, if_neg hne, ih fun m' hm' => h m' (List.mem_cons_of_mem _ hm')]
    rfl

theorem foldl_insert_of_sorted (ms acc : List (String × Json))
    (h : (acc ++ ms).Pairwise fun m m' => m.1 < m'.1) :
    ms.foldl (fun sorted m => insert m.1 m.2 sorted) acc = acc ++ ms := by
  induction ms generalizing acc with
  | nil => rw [List.append_nil]; rfl
  | cons m ms ih =>
    have hlast : ∀ m' ∈ acc, m'.1 < m.1 := fun m' hm' =>
      (List.pairwise_append.mp h).2.2 m' hm' m List.mem_cons_self
    rw [List.foldl_cons, insert_of_lt _ _ _ hlast, ih]
    · rw [List.append_assoc]
      rfl
    · rw [List.append_assoc]
      exact h

theorem normal_array (xs : List Json) : normal (.array xs) = .array (xs.map normal) := by
  have hall : normalElements xs = xs.map normal := by
    induction xs with
    | nil => rfl
    | cons x xs ih => rw [normalElements, ih, List.map_cons]
  rw [normal, hall]

theorem normal_object (ms : List (String × Json)) :
    normal (.object ms) = ofMembers (ms.map fun m => (m.1, normal m.2)) := by
  have hall : normalMembers ms = ms.map fun m => (m.1, normal m.2) := by
    induction ms with
    | nil => rfl
    | cons m ms ih => rw [normalMembers, ih, List.map_cons]
  rw [normal, hall]

theorem normal_of_sorted (v : Json) (h : v.sorted = true) : v.normal = v := by
  induction v using parts with
  | null => rfl
  | bool b => rfl
  | integer n => rfl
  | float x => rfl
  | string s => rfl
  | array xs ih =>
    have hxs := (sorted_array xs).mp h
    rw [normal_array, List.map_congr_left fun x hx => ih x hx (hxs x hx), List.map_id']
  | object ms ih =>
    obtain ⟨hkeys, hms⟩ := (sorted_object ms).mp h
    have hsame : ms.map (fun m => (m.1, normal m.2)) = ms := by
      rw [List.map_congr_left fun m hm => congrArg (Prod.mk m.1) (ih m hm (hms m hm))]
      exact List.map_id' ms
    rw [normal_object, hsame, ofMembers, foldl_insert_of_sorted ms [] hkeys]
    rfl

end LanguageSessions.Json
