import LanguageSessions.Json.Printer
import LanguageSessions.Proofs.Json.Scalars
import LanguageSessions.Proofs.Json.Values

namespace LanguageSessions.Json

def isExact : Json → Bool
  | .float _ => false
  | .integer n => decide (fits64 n)
  | _ => true

def exact (v : Json) : Bool := every isExact v

theorem exact_array (xs : List Json) : exact (.array xs) = true ↔ ∀ x ∈ xs, x.exact = true := by
  rw [exact, every_array]
  exact and_iff_right rfl

theorem exact_object (ms : List (String × Json)) :
    exact (.object ms) = true ↔ ∀ m ∈ ms, m.2.exact = true := by
  rw [exact, every_object]
  exact and_iff_right rfl

theorem skipSpace_cons {c : Char} (cs : List Char) (h : isSpace c = false) :
    skipSpace (c :: cs) = c :: cs := List.dropWhile_cons_of_neg (by simp [h])

def ReadsBack (v : Json) : Prop :=
  ∀ fuel depth d rest, v.nesting ≤ depth → (write .compact d v).length ≤ fuel → Ends rest →
    value? fuel depth (write .compact d v ++ rest) = some (v.normal, rest)

theorem ends_cons {c : Char} (cs : List Char) (hdigit : c.isDigit = false) (hpoint : c ≠ '.')
    (he : c ≠ 'e') (hE : c ≠ 'E') : Ends (c :: cs) := by
  intro c' hc
  cases hc
  exact ⟨hdigit, hpoint, he, hE⟩

theorem isSpace_of_isDigit {c : Char} (h : c.isDigit = true) : isSpace c = false := by
  have hne : ∀ c', c'.isDigit = false → c ≠ c' := by
    rintro c' hc' rfl
    rw [h] at hc'
    cases hc'
  simp [isSpace, hne ' ' rfl, hne '\n' rfl, hne '\t' rfl, hne '\r' rfl]

theorem value?_digit (fuel depth : Nat) {c : Char} (cs : List Char) (h : c.isDigit = true) :
    value? (fuel + 1) depth (c :: cs) = number? false (c :: cs) := by
  have hne : ∀ {c' cs'}, c'.isDigit = false → c :: cs ≠ c' :: cs' := by
    rintro c' cs' hc' heq
    rw [(List.cons.inj heq).1, hc'] at h
    cases h
  rw [value?, skipSpace_cons cs (isSpace_of_isDigit h)]
  split
  all_goals first | rfl | next heq => exact absurd heq (hne rfl)

theorem value?_array (fuel depth : Nat) (cs : List Char) :
    value? (fuel + 1) (depth + 1) ('[' :: cs) =
      match skipSpace cs with
      | ']' :: rest => some (.array [], rest)
      | rest => elements? fuel depth [] rest := rfl

theorem value?_object (fuel depth : Nat) (cs : List Char) :
    value? (fuel + 1) (depth + 1) ('\x7b' :: cs) =
      match skipSpace cs with
      | '\x7d' :: rest => some (.object [], rest)
      | rest => members? fuel depth [] rest := rfl

theorem exists_fuel {n fuel : Nat} (h : n + 1 ≤ fuel) : ∃ m, fuel = m + 1 ∧ n ≤ m := by
  obtain ⟨m, rfl⟩ := Nat.exists_eq_add_of_le h
  exact ⟨n + m, by omega, by omega⟩

theorem readsBack_integer (n : Int) (h : fits64 n) : ReadsBack (.integer n) := by
  intro fuel depth d rest _ hfuel hrest
  have hmax : Text.max64 = 2 ^ 64 - 1 := rfl
  rw [write, intChars] at hfuel ⊢
  unfold fits64 at h
  split at hfuel
  · next hneg =>
    obtain ⟨fuel, rfl, -⟩ := exists_fuel hfuel
    have hread := number?_natChars true (n := n.natAbs) (by rw [hmax]; omega) hrest
    have hinteger : (Scan.integer ⟨true, n.natAbs, 0⟩) = some (.integer n) := by
      have hpow : Nat.pow 2 63 = 9223372036854775808 := rfl
      have hkept : ¬ (n.natAbs = 0 ∨ Nat.pow 2 63 < n.natAbs) := by
        rw [hpow]
        omega
      have habs : -(n.natAbs : Int) = n := by omega
      simp only [Scan.integer, Bool.not_true, Bool.false_eq_true, if_false, if_neg hkept, habs]
    rw [if_pos hneg, List.cons_append, value?, skipSpace_cons _ (by decide)]
    simp only [hread, hinteger, Option.map_some, normal]
  · next hneg =>
    obtain ⟨c, cs, hcs⟩ := List.exists_cons_of_ne_nil (natChars_ne_nil n.natAbs)
    have hc : c.isDigit = true := isDigit_of_mem_natChars (by rw [hcs]; exact List.mem_cons_self)
    have hread := number?_natChars false (n := n.natAbs) (by rw [hmax]; omega) hrest
    have hinteger : (Scan.integer ⟨false, n.natAbs, 0⟩) = some (.integer n) := by
      have habs : (n.natAbs : Int) = n := by omega
      simp only [Scan.integer, Bool.not_false, if_true, habs]
    rw [hcs] at hfuel hread
    obtain ⟨fuel, rfl, -⟩ := exists_fuel hfuel
    rw [if_neg hneg, hcs, List.cons_append, value?_digit _ _ _ hc]
    rw [List.cons_append] at hread
    rw [hread, hinteger]
    rfl

theorem readsBack_string (s : String) : ReadsBack (.string s) := by
  intro fuel depth d rest _ hfuel _
  rw [write, stringChars] at hfuel ⊢
  obtain ⟨fuel, rfl, -⟩ := exists_fuel hfuel
  rw [List.cons_append, List.cons_append, List.append_assoc, value?, skipSpace_cons _ (by decide)]
  simp only [List.singleton_append, stringBody_stringChars, Option.map_some, normal]

theorem readsBack_null : ReadsBack .null := by
  intro fuel depth d rest _ hfuel _
  obtain ⟨fuel, rfl, -⟩ := exists_fuel hfuel
  rfl

theorem readsBack_bool (b : Bool) : ReadsBack (.bool b) := by
  intro fuel depth d rest _ hfuel _
  cases b with
  | true =>
    obtain ⟨fuel, rfl, -⟩ := exists_fuel hfuel
    rfl
  | false =>
    obtain ⟨fuel, rfl, -⟩ := exists_fuel hfuel
    rfl

theorem write_head (l : Layout) (d : Nat) (v : Json) (h : v.exact = true) :
    ∃ c cs, write l d v = c :: cs ∧ isSpace c = false ∧ c ≠ ']' := by
  cases v with
  | null => exact ⟨'n', _, by rw [write], by decide, by decide⟩
  | bool b =>
    cases b with
    | true => exact ⟨'t', _, by rw [write], by decide, by decide⟩
    | false => exact ⟨'f', _, by rw [write], by decide, by decide⟩
  | integer n =>
    rw [write, intChars]
    split
    · exact ⟨'-', _, rfl, by decide, by decide⟩
    · obtain ⟨c, cs, hcs⟩ := List.exists_cons_of_ne_nil (natChars_ne_nil n.natAbs)
      have hc : c.isDigit = true := isDigit_of_mem_natChars (by rw [hcs]; exact List.mem_cons_self)
      refine ⟨c, cs, hcs, isSpace_of_isDigit hc, ?_⟩
      rintro rfl
      cases hc
  | float x => cases h
  | string s => exact ⟨'"', _, by rw [write, stringChars, List.cons_append], by decide, by decide⟩
  | array xs =>
    cases xs with
    | nil => exact ⟨'[', _, by rw [write], by decide, by decide⟩
    | cons x xs => exact ⟨'[', _, by rw [write]; rfl, by decide, by decide⟩
  | object ms =>
    cases ms with
    | nil => exact ⟨'\x7b', _, by rw [write], by decide, by decide⟩
    | cons m ms => exact ⟨'\x7b', _, by rw [write]; rfl, by decide, by decide⟩

theorem elements?_write {x : Json} {xs : List Json} (hx : ReadsBack x) (hxs : ∀ y ∈ xs, ReadsBack y)
    (fuel depth d : Nat) (acc : List Json) (rest : List Char)
    (hdepth : ∀ y ∈ x :: xs, y.nesting ≤ depth)
    (hfuel : (write .compact (d + 1) x ++ writeElements .compact d xs).length < fuel) :
    elements? fuel depth acc
        (write .compact (d + 1) x ++ (writeElements .compact d xs ++ ']' :: rest)) =
      some (.array (acc.reverse ++ (x :: xs).map normal), rest) := by
  -- Each element uses up one unit of fuel, and its text has a character at least.
  induction xs generalizing x acc fuel with
  | nil =>
    obtain ⟨fuel, rfl, hleft⟩ := exists_fuel hfuel
    rw [writeElements, List.append_nil] at hleft
    have hread := hx fuel depth (d + 1) (']' :: rest) (hdepth x List.mem_cons_self) hleft
      (ends_cons rest (by decide) (by decide) (by decide) (by decide))
    rw [writeElements, List.nil_append, elements?, hread]
    simp only [skipSpace_cons rest (by decide : isSpace ']' = false), List.reverse_cons,
      List.map_cons, List.map_nil]
  | cons y ys ih =>
    obtain ⟨fuel, rfl, hleft⟩ := exists_fuel hfuel
    have htext : writeElements .compact d (y :: ys) =
        ',' :: (write .compact (d + 1) y ++ writeElements .compact d ys) := by
      rw [writeElements]
      rfl
    rw [htext, List.length_append, List.length_cons] at hleft
    have hread := hx fuel depth (d + 1)
      (',' :: (write .compact (d + 1) y ++ (writeElements .compact d ys ++ ']' :: rest)))
      (hdepth x List.mem_cons_self) (by omega)
      (ends_cons _ (by decide) (by decide) (by decide) (by decide))
    have hrest := ih (hxs y List.mem_cons_self) (fun z hz => hxs z (List.mem_cons_of_mem _ hz)) fuel
      (x.normal :: acc) (fun z hz => hdepth z (List.mem_cons_of_mem _ hz)) (by omega)
    rw [htext, List.cons_append, List.append_assoc, elements?, hread]
    simp only [skipSpace_cons _ (by decide : isSpace ',' = false)]
    rw [hrest, List.reverse_cons, List.append_assoc]
    rfl

theorem readsBack_array {xs : List Json} (hexact : ∀ x ∈ xs, x.exact = true)
    (hxs : ∀ x ∈ xs, ReadsBack x) : ReadsBack (.array xs) := by
  intro fuel depth d rest hdepth hfuel _
  obtain ⟨depth, rfl⟩ : ∃ n, depth = n + 1 :=
    Nat.exists_eq_add_one_of_ne_zero (by rw [nesting] at hdepth; omega)
  rw [nesting_array_le] at hdepth
  cases xs with
  | nil =>
    rw [write] at hfuel ⊢
    obtain ⟨fuel, rfl, -⟩ := exists_fuel hfuel
    rfl
  | cons x xs =>
    have htext : write .compact d (.array (x :: xs)) =
        '[' :: (write .compact (d + 1) x ++ writeElements .compact d xs ++ [']']) := by
      rw [write]
      rfl
    rw [htext] at hfuel ⊢
    obtain ⟨fuel, rfl, hleft⟩ := exists_fuel hfuel
    rw [List.length_append] at hleft
    obtain ⟨c, cs, hcs, hspace, hclose⟩ := write_head .compact (d + 1) x (hexact x List.mem_cons_self)
    have hread := elements?_write (hxs x List.mem_cons_self)
      (fun y hy => hxs y (List.mem_cons_of_mem _ hy)) fuel depth d [] rest hdepth hleft
    rw [hcs] at hread
    rw [hcs, List.cons_append, value?_array, List.append_assoc, List.append_assoc, List.cons_append,
      skipSpace_cons _ hspace]
    split
    · next heq => exact absurd (List.cons.inj heq).1 hclose
    · rw [normal_array]
      exact hread

def memberChars (d : Nat) (m : String × Json) : List Char :=
  stringChars m.1 ++ ':' :: write .compact (d + 1) m.2

theorem memberChars_append (d : Nat) (m : String × Json) (rest : List Char) :
    memberChars d m ++ rest =
      '"' :: (m.1.toList.flatMap escape ++ '"' :: ':' :: (write .compact (d + 1) m.2 ++ rest)) := by
  simp [memberChars, stringChars]

theorem members?_comma {m : String × Json} (hm : ReadsBack m.2) (fuel depth d : Nat)
    (acc : List (String × Json)) (rest : List Char) (hdepth : m.2.nesting ≤ depth)
    (hfuel : (write .compact (d + 1) m.2).length ≤ fuel) :
    members? (fuel + 1) depth acc (memberChars d m ++ ',' :: rest) =
      members? fuel depth (insert m.1 m.2.normal acc) rest := by
  have hread := hm fuel depth (d + 1) (',' :: rest) hdepth hfuel
    (ends_cons rest (by decide) (by decide) (by decide) (by decide))
  rw [memberChars_append, members?, skipSpace_cons _ (by decide)]
  simp only [stringBody_stringChars, skipSpace_cons _ (by decide : isSpace ':' = false), hread,
    skipSpace_cons rest (by decide : isSpace ',' = false)]

theorem members?_close {m : String × Json} (hm : ReadsBack m.2) (fuel depth d : Nat)
    (acc : List (String × Json)) (rest : List Char) (hdepth : m.2.nesting ≤ depth)
    (hfuel : (write .compact (d + 1) m.2).length ≤ fuel) :
    members? (fuel + 1) depth acc (memberChars d m ++ '\x7d' :: rest) =
      some (.object (insert m.1 m.2.normal acc), rest) := by
  have hread := hm fuel depth (d + 1) ('\x7d' :: rest) hdepth hfuel
    (ends_cons rest (by decide) (by decide) (by decide) (by decide))
  rw [memberChars_append, members?, skipSpace_cons _ (by decide)]
  simp only [stringBody_stringChars, skipSpace_cons _ (by decide : isSpace ':' = false), hread,
    skipSpace_cons rest (by decide : isSpace '\x7d' = false)]

theorem members?_write {m : String × Json} {ms : List (String × Json)} (hm : ReadsBack m.2)
    (hms : ∀ o ∈ ms, ReadsBack o.2) (fuel depth d : Nat) (acc : List (String × Json))
    (rest : List Char) (hdepth : ∀ o ∈ m :: ms, o.2.nesting ≤ depth)
    (hfuel : (memberChars d m ++ writeMembers .compact d ms).length < fuel) :
    members? fuel depth acc (memberChars d m ++ (writeMembers .compact d ms ++ '\x7d' :: rest)) =
      some (.object (((m :: ms).map fun o => (o.1, o.2.normal)).foldl
        (fun sorted o => insert o.1 o.2 sorted) acc), rest) := by
  induction ms generalizing m acc fuel with
  | nil =>
    obtain ⟨fuel, rfl, hleft⟩ := exists_fuel hfuel
    have hvalue : (write .compact (d + 1) m.2).length ≤ fuel := by
      simp only [writeMembers, memberChars, List.length_append, List.length_cons] at hleft
      omega
    rw [writeMembers, List.nil_append,
      members?_close hm fuel depth d acc rest (hdepth m List.mem_cons_self) hvalue]
    rfl
  | cons o ms ih =>
    obtain ⟨fuel, rfl, hleft⟩ := exists_fuel hfuel
    have htext : writeMembers .compact d (o :: ms) =
        ',' :: (memberChars d o ++ writeMembers .compact d ms) := by
      obtain ⟨k, v⟩ := o
      rw [writeMembers]
      simp [memberChars, Layout.compact]
    rw [htext, List.length_append, List.length_cons] at hleft
    have hvalue : (write .compact (d + 1) m.2).length ≤ fuel := by
      simp only [memberChars, List.length_append, List.length_cons] at hleft
      omega
    have hrest := ih (hms o List.mem_cons_self) (fun z hz => hms z (List.mem_cons_of_mem _ hz)) fuel
      (insert m.1 m.2.normal acc) (fun z hz => hdepth z (List.mem_cons_of_mem _ hz)) (by omega)
    rw [htext, List.cons_append, List.append_assoc,
      members?_comma hm fuel depth d acc _ (hdepth m List.mem_cons_self) hvalue, hrest]
    rfl

theorem readsBack_object {ms : List (String × Json)} (hms : ∀ m ∈ ms, ReadsBack m.2) :
    ReadsBack (.object ms) := by
  intro fuel depth d rest hdepth hfuel _
  obtain ⟨depth, rfl⟩ : ∃ n, depth = n + 1 :=
    Nat.exists_eq_add_one_of_ne_zero (by rw [nesting] at hdepth; omega)
  rw [nesting_object_le] at hdepth
  cases ms with
  | nil =>
    rw [write] at hfuel ⊢
    obtain ⟨fuel, rfl, -⟩ := exists_fuel hfuel
    rfl
  | cons m ms =>
    have htext : write .compact d (.object (m :: ms)) =
        '\x7b' :: (memberChars d m ++ writeMembers .compact d ms ++ ['\x7d']) := by
      obtain ⟨k, v⟩ := m
      rw [write]
      simp [memberChars, Layout.compact]
    rw [htext] at hfuel ⊢
    obtain ⟨fuel, rfl, hleft⟩ := exists_fuel hfuel
    rw [List.length_append] at hleft
    have hread := members?_write (hms m List.mem_cons_self)
      (fun o ho => hms o (List.mem_cons_of_mem _ ho)) fuel depth d [] rest hdepth hleft
    obtain ⟨cs, hcs⟩ : ∃ cs, memberChars d m = '"' :: cs := ⟨_, rfl⟩
    rw [hcs] at hread
    rw [hcs, List.cons_append, value?_object, List.append_assoc, List.append_assoc, List.cons_append,
      skipSpace_cons _ (by decide), normal_object]
    exact hread

theorem readsBack (v : Json) (h : v.exact = true) : ReadsBack v := by
  induction v using parts with
  | null => exact readsBack_null
  | bool b => exact readsBack_bool b
  | integer n => exact readsBack_integer n (of_decide_eq_true h)
  | float x => cases h
  | string s => exact readsBack_string s
  | array xs ih =>
    have hxs := (exact_array xs).mp h
    exact readsBack_array hxs fun x hx => ih x hx (hxs x hx)
  | object ms ih =>
    have hms := (exact_object ms).mp h
    exact readsBack_object fun m hm => ih m hm (hms m hm)

theorem parse?_compact (v : Json) (h : v.exact = true) (hdepth : v.nesting ≤ maxDepth) :
    parse? v.compact = some v.normal := by
  have hread := readsBack v h (2 * (write .compact 0 v).length + 2) maxDepth 0 [] hdepth (by omega)
    (by simp [Ends])
  rw [List.append_nil] at hread
  rw [parse?, compact, String.toList_ofList, hread]
  rfl

end LanguageSessions.Json
