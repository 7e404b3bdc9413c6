import LanguageSessions.Proofs.Toml.Tables
import LanguageSessions.Toml.Reader

namespace LanguageSessions.Toml

def isScalar : Toml → Bool
  | .array _ => false
  | .table _ => false
  | _ => true

inductive Distinct : Toml → Prop where
  | scalar {v : Toml} (h : v.isScalar = true) : Distinct v
  | array {xs : List Toml} (hvalues : ∀ x ∈ xs, Distinct x) : Distinct (.array xs)
  | table {t : Table} (hkeys : (t.map Prod.fst).Nodup) (hvalues : ∀ e ∈ t, Distinct e.2) :
      Distinct (.table t)

variable {t : Table}

theorem Distinct.keys (h : Distinct (.table t)) : (t.map Prod.fst).Nodup := by
  cases h with
  | scalar h => cases h
  | table hkeys hvalues => exact hkeys

theorem Distinct.values (h : Distinct (.table t)) : ∀ e ∈ t, Distinct e.2 := by
  cases h with
  | scalar h => cases h
  | table hkeys hvalues => exact hvalues

theorem Distinct.lookup (h : Distinct (.table t)) {key : String} {v : Toml}
    (hv : t.lookup key = some v) : v.Distinct := h.values _ (mem_of_lookup hv)

theorem Distinct.merge_of {base upper : Table} (hbase : Distinct (.table base))
    (hupper : ∀ e ∈ upper, ∀ below, (∀ w, below = some w → Distinct w) → Distinct (overlay below e.2)) :
    Distinct (.table (merge base upper)) := by
  induction upper generalizing base with
  | nil =>
    rw [merge]
    exact hbase
  | cons e upper ih =>
    rw [merge, assign_eq_place]
    obtain ⟨hfirst, hrest⟩ := List.forall_mem_cons.mp hupper
    refine ih (.table (place_nodup _ _ hbase.keys) fun f hf => ?_) hrest
    rcases mem_place _ _ _ hf with rfl | hf
    · exact hfirst _ fun w hw => hbase.lookup hw
    · exact hbase.values f hf

theorem Distinct.overlay {v : Toml} (hv : Distinct v) {below : Option Toml}
    (hbelow : ∀ w, below = some w → Distinct w) : Distinct (Toml.overlay below v) := by
  induction hv generalizing below with
  | scalar h =>
    unfold Toml.overlay
    split
    · cases h
    · exact .scalar h
  | array hvalues =>
    unfold Toml.overlay
    split
    · next heq => cases heq
    · exact .array hvalues
  | table hkeys hvalues ih =>
    unfold Toml.overlay
    split
    · next heq =>
      cases heq
      exact (hbelow _ rfl).merge_of fun e he below hw => ih e he hw
    · exact .table hkeys hvalues

theorem Distinct.merge {base upper : Table} (hbase : Distinct (.table base))
    (hupper : Distinct (.table upper)) : Distinct (.table (merge base upper)) :=
  hbase.merge_of fun e he _ hw => (hupper.values e he).overlay hw

namespace Draft

inductive Distinct : Draft → Prop where
  | value {v : Toml} (h : v.Distinct) : Distinct (.value v)
  | table {implied dotted : Bool} {entries : List (String × Draft)}
      (hkeys : (entries.map Prod.fst).Nodup) (hparts : ∀ e ∈ entries, Distinct e.2) :
      Distinct (.table implied dotted entries)
  | tables {ts : List Draft} (hparts : ∀ t ∈ ts, Distinct t) : Distinct (.tables ts)

variable {d d' : Draft} {implied dotted : Bool} {entries : List (String × Draft)}

theorem distinct_nil (implied dotted : Bool) : Distinct (.table implied dotted []) :=
  .table List.nodup_nil (by rintro e ⟨⟩)

theorem Distinct.put (h : Distinct (.table implied dotted entries)) {key : String}
    (hd : d.Distinct) (implied' dotted' : Bool) :
    Distinct (.table implied' dotted' (Draft.put key d entries)) := by
  cases h with
  | table hkeys hparts =>
    rw [put_eq_place]
    refine .table (place_nodup _ _ hkeys) fun e he => ?_
    rcases mem_place _ _ _ he with rfl | he
    · exact hd
    · exact hparts e he

theorem Distinct.lookup (h : Distinct (.table implied dotted entries)) {key : String}
    (hd : entries.lookup key = some d) : d.Distinct := by
  cases h with
  | table hkeys hparts => exact hparts _ (mem_of_lookup hd)

theorem Distinct.flags (h : Distinct (.table implied dotted entries)) (implied' dotted' : Bool) :
    Distinct (.table implied' dotted' entries) := by
  cases h with
  | table hkeys hparts => exact .table hkeys hparts

theorem Distinct.last {ts : List Draft} (h : Distinct (.tables ts)) {t : Draft}
    (ht : ts.getLast? = some t) : t.Distinct := by
  cases h with
  | tables hparts => exact hparts t (List.mem_of_getLast? ht)

theorem Distinct.concat {ts : List Draft} (h : ∀ t ∈ ts, t.Distinct) {t : Draft}
    (ht : t.Distinct) : Distinct (.tables (ts ++ [t])) := by
  refine .tables fun u hu => ?_
  rcases List.mem_append.mp hu with hu | hu
  · exact h u hu
  · exact List.mem_singleton.mp hu ▸ ht

theorem Distinct.parts {ts : List Draft} (h : Distinct (.tables ts)) : ∀ t ∈ ts, t.Distinct := by
  cases h with
  | tables hparts => exact hparts

theorem Distinct.alter (overDots : Bool) {f : Draft → Option Draft}
    (hf : ∀ d d', d.Distinct → f d = some d' → d'.Distinct) (path : List String)
    (hd : d.Distinct) (h : Draft.alter overDots f path d = some d') : d'.Distinct := by
  induction path generalizing d d' with
  | nil =>
    rw [Draft.alter] at h
    exact hf d d' hd h
  | cons key path ih =>
    cases d with
    | value v => simp [Draft.alter] at h
    | tables ts => simp [Draft.alter] at h
    | table implied dotted entries =>
      rw [Draft.alter] at h
      dsimp only at h
      split at h
      · obtain ⟨t, ht, rfl⟩ := Option.map_eq_some_iff.mp h
        exact hd.put (ih (distinct_nil _ _) ht) _ _
      · cases h
      · next ts hts =>
        split at h
        · cases h
        · next t hlast =>
          obtain ⟨t', ht', rfl⟩ := Option.map_eq_some_iff.mp h
          have hparts := hd.lookup hts
          refine hd.put (.concat (fun u hu => hparts.parts u (List.dropLast_subset ts hu)) ?_) _ _
          exact ih (hparts.last hlast) ht'
      · next hes =>
        obtain ⟨t, ht, rfl⟩ := Option.map_eq_some_iff.mp h
        exact hd.put (ih (hd.lookup hes) ht) _ _
      · next hes =>
        split at h
        · cases h
        · obtain ⟨t, ht, rfl⟩ := Option.map_eq_some_iff.mp h
          exact hd.put (ih (hd.lookup hes) ht) _ _

theorem Distinct.define {path : List String} {key : String} {v : Toml} (hv : v.Distinct)
    (hd : d.Distinct) (h : Draft.define path key v d = some d') : d'.Distinct := by
  refine hd.alter true (fun d₀ d₁ hd₀ h₀ => ?_) path h
  split at h₀
  · next implied dotted entries =>
    split at h₀
    · cases h₀
    · next hnew =>
      cases h₀
      simp only [Bool.or_eq_true, not_or, Bool.not_eq_true, Option.isSome_eq_false_iff,
        Option.isNone_iff_eq_none, List.lookup_eq_none_iff] at hnew
      cases hd₀ with
      | table hkeys hparts =>
        constructor
        · rw [List.map_append, List.nodup_append]
          refine ⟨hkeys, List.nodup_singleton key, ?_⟩
          intro k hk x hx heq
          obtain ⟨e, he, rfl⟩ := List.mem_map.mp hk
          have hne := hnew.2 e he
          rw [heq, List.mem_singleton.mp hx] at hne
          simp at hne
        · intro e he
          rcases List.mem_append.mp he with he | he
          · exact hparts e he
          · rw [List.mem_singleton.mp he]
            exact .value hv
  · cases h₀

theorem Distinct.defineAll {es : List (List String × String × Toml)}
    (hes : ∀ e ∈ es, e.2.2.Distinct) (hd : d.Distinct) (h : Draft.defineAll es d = some d') :
    d'.Distinct := by
  induction es generalizing d with
  | nil =>
    cases h
    exact hd
  | cons e es ih =>
    obtain ⟨d₁, hfirst, hrest⟩ := Option.bind_eq_some_iff.mp h
    exact ih (fun x hx => hes x (List.mem_cons_of_mem _ hx))
      (hd.define (hes e List.mem_cons_self) hfirst) hrest

theorem Distinct.defineTable {path : List String} {key : String} {body : Draft → Option Draft}
    (hbody : ∀ d d', d.Distinct → body d = some d' → d'.Distinct) (hd : d.Distinct)
    (h : Draft.defineTable path key body d = some d') : d'.Distinct := by
  refine hd.alter false (fun d₀ d₁ hd₀ h₀ => ?_) path h
  split at h₀
  · dsimp only at h₀
    split at h₀
    · obtain ⟨t, ht, rfl⟩ := Option.map_eq_some_iff.mp h₀
      exact hd₀.put (hbody _ _ (distinct_nil _ _) ht) _ _
    · next hes =>
      obtain ⟨t, ht, rfl⟩ := Option.map_eq_some_iff.mp h₀
      exact hd₀.put (hbody _ _ ((hd₀.lookup hes).flags _ _) ht) _ _
    · cases h₀
  · cases h₀

theorem Distinct.appendTable {path : List String} {key : String} {body : Draft → Option Draft}
    (hbody : ∀ d d', d.Distinct → body d = some d' → d'.Distinct) (hd : d.Distinct)
    (h : Draft.appendTable path key body d = some d') : d'.Distinct := by
  refine hd.alter false (fun d₀ d₁ hd₀ h₀ => ?_) path h
  split at h₀
  · dsimp only at h₀
    split at h₀
    · obtain ⟨t, ht, rfl⟩ := Option.map_eq_some_iff.mp h₀
      exact hd₀.put (.concat (by rintro u ⟨⟩) (hbody _ _ (distinct_nil _ _) ht)) _ _
    · next hts =>
      obtain ⟨t, ht, rfl⟩ := Option.map_eq_some_iff.mp h₀
      exact hd₀.put (.concat (hd₀.lookup hts).parts (hbody _ _ (distinct_nil _ _) ht)) _ _
    · cases h₀
  · cases h₀

theorem entriesToToml_eq (entries : List (String × Draft)) :
    entriesToToml entries = entries.map fun e => (e.1, toToml e.2) := by
  induction entries with
  | nil => rfl
  | cons e entries ih => rw [entriesToToml, ih, List.map_cons]

theorem allToToml_eq (ts : List Draft) : allToToml ts = ts.map toToml := by
  induction ts with
  | nil => rfl
  | cons t ts ih => rw [allToToml, ih, List.map_cons]

theorem Distinct.toToml (h : d.Distinct) : d.toToml.Distinct := by
  induction h with
  | value h =>
    rw [Draft.toToml]
    exact h
  | table hkeys _ ih =>
    rw [Draft.toToml, entriesToToml_eq]
    refine .table (by rwa [List.map_map]) fun e he => ?_
    obtain ⟨f, hf, rfl⟩ := List.mem_map.mp he
    exact ih f hf
  | tables _ ih =>
    rw [Draft.toToml, allToToml_eq]
    refine .array fun x hx => ?_
    obtain ⟨t, ht, rfl⟩ := List.mem_map.mp hx
    exact ih t ht

end Draft

section

variable {cs : List Char} {v : Toml}

theorem isScalar_based? {base : Nat} {isDigit : Char → Bool} (h : based? base isDigit cs = some v) :
    v.isScalar = true := by
  obtain ⟨ds, -, h⟩ := Option.bind_eq_some_iff.mp h
  obtain ⟨-, ⟨⟩⟩ := Option.ite_none_right_eq_some.mp h
  rfl

theorem isScalar_integer? (h : integer? cs = some v) : v.isScalar = true := by
  unfold integer? at h
  split at h
  · exact isScalar_based? h
  · exact isScalar_based? h
  · exact isScalar_based? h
  · unfold decimal? at h
    dsimp only at h
    obtain ⟨ds, -, h⟩ := Option.bind_eq_some_iff.mp h
    split at h
    · obtain ⟨-, ⟨⟩⟩ := Option.ite_none_right_eq_some.mp h
      rfl
    · obtain ⟨-, ⟨⟩⟩ := Option.ite_none_right_eq_some.mp h
      rfl

theorem isScalar_float? (h : float? cs = some v) : v.isScalar = true := by
  unfold float? at h
  dsimp only at h
  split at h
  · split at h
    · cases h
    · obtain ⟨-, ⟨⟩⟩ := Option.ite_none_left_eq_some.mp h
      rfl
  · cases h

theorem isScalar_word? (h : word? cs = some v) : v.isScalar = true := by
  unfold word? at h
  split at h
  · cases h
    rfl
  · split at h
    · cases h
      rfl
    · simp only [Option.or_eq_some_iff] at h
      rcases h with h | ⟨-, h | ⟨-, h | ⟨-, h⟩⟩⟩
      · obtain ⟨-, ⟨⟩⟩ := Option.ite_none_right_eq_some.mp h
        rfl
      · obtain ⟨-, ⟨⟩⟩ := Option.ite_none_right_eq_some.mp h
        rfl
      · exact isScalar_integer? h
      · exact isScalar_float? h

end

structure ReadsDistinct (fuel : Nat) : Prop where
  value : ∀ depth cs v rest, value? fuel depth cs = some (v, rest) → v.Distinct
  elements : ∀ depth cs xs rest, elements? fuel depth cs = some (xs, rest) → ∀ x ∈ xs, x.Distinct
  pairs : ∀ depth cs es rest, pairs? fuel depth cs = some (es, rest) → ∀ e ∈ es, e.2.2.Distinct
  morePairs : ∀ depth cs es rest, morePairs? fuel depth cs = some (es, rest) →
    ∀ e ∈ es, e.2.2.Distinct

variable {fuel : Nat}

theorem ReadsDistinct.value_succ (ih : ReadsDistinct fuel) (depth : Nat) (cs : List Char) (v : Toml)
    (rest : List Char) (h : value? (fuel + 1) depth cs = some (v, rest)) : v.Distinct := by
  unfold value? at h
  dsimp only at h
  split at h
  · cases h
  · split at h
    · obtain ⟨s, -, heq⟩ := Option.map_eq_some_iff.mp h
      cases heq
      exact .scalar rfl
    · split at h
      · split at h
        · obtain ⟨⟨xs, rest'⟩, hxs, heq⟩ := Option.map_eq_some_iff.mp h
          cases heq
          exact .array (ih.elements _ _ _ _ hxs)
        · cases h
      · split at h
        · split at h
          · split at h
            · cases h
            · next es rest' hes =>
              obtain ⟨d, hd, heq⟩ := Option.map_eq_some_iff.mp h
              cases heq
              exact ((Draft.distinct_nil _ _).defineAll (ih.pairs _ _ _ _ hes) hd).toToml
          · cases h
        · obtain ⟨w, hw, heq⟩ := Option.map_eq_some_iff.mp h
          cases heq
          exact .scalar (isScalar_word? hw)

theorem ReadsDistinct.elements_succ (ih : ReadsDistinct fuel) (depth : Nat) (cs : List Char)
    (xs : List Toml) (rest : List Char) (h : elements? (fuel + 1) depth cs = some (xs, rest)) :
    ∀ x ∈ xs, x.Distinct := by
  rw [elements?] at h
  dsimp only at h
  split at h
  · cases h
    rintro x ⟨⟩
  · split at h
    · cases h
    · next x cs' hx =>
      have hfirst := ih.value _ _ _ _ hx
      split at h
      · obtain ⟨⟨ys, rest'⟩, hys, heq⟩ := Option.map_eq_some_iff.mp h
        cases heq
        exact List.forall_mem_cons.mpr ⟨hfirst, ih.elements _ _ _ _ hys⟩
      · cases h
        exact List.forall_mem_singleton.mpr hfirst
      · cases h

theorem ReadsDistinct.morePairs_succ (ih : ReadsDistinct fuel) (depth : Nat) (cs : List Char)
    (es : List (List String × String × Toml)) (rest : List Char)
    (h : morePairs? (fuel + 1) depth cs = some (es, rest)) : ∀ e ∈ es, e.2.2.Distinct := by
  rw [morePairs?] at h
  split at h
  · split at h
    · cases h
    · next v cs' hv =>
      have hfirst := ih.value _ _ _ _ hv
      split at h
      · obtain ⟨⟨fs, rest'⟩, hfs, heq⟩ := Option.map_eq_some_iff.mp h
        cases heq
        exact List.forall_mem_cons.mpr ⟨hfirst, ih.morePairs _ _ _ _ hfs⟩
      · cases h
        exact List.forall_mem_singleton.mpr hfirst
      · cases h
  · cases h

theorem readsDistinct (fuel : Nat) : ReadsDistinct fuel := by
  induction fuel with
  | zero =>
    constructor <;> intro depth cs x rest h <;>
      simp [value?, elements?, pairs?, morePairs?] at h
  | succ fuel ih =>
    refine ⟨ih.value_succ, ih.elements_succ, ?_, ih.morePairs_succ⟩
    intro depth cs es rest h
    rw [pairs?] at h
    split at h
    · cases h
      rintro e ⟨⟩
    · exact ih.morePairs _ _ _ _ h

def Statement.Distinct : Statement → Prop
  | .entry _ _ v => v.Distinct
  | _ => True

theorem distinct_of_statement? {cs rest : List Char} {s : Statement}
    (h : statement? cs = some (s, rest)) : s.Distinct := by
  unfold statement? at h
  split at h
  · split at h
    · obtain ⟨x, -, heq⟩ := Option.map_eq_some_iff.mp h
      cases heq
      trivial
    · cases h
  · split at h
    · obtain ⟨x, -, heq⟩ := Option.map_eq_some_iff.mp h
      cases heq
      trivial
    · cases h
  · split at h
    · split at h
      · cases h
      · next hv =>
        obtain ⟨x, -, heq⟩ := Option.map_eq_some_iff.mp h
        cases heq
        exact (readsDistinct _).value _ _ _ _ hv
    · cases h

theorem distinct_of_statements? {cs : List Char} {ss : List Statement}
    (h : statements? fuel cs = some ss) : ∀ s ∈ ss, s.Distinct := by
  induction fuel generalizing cs ss with
  | zero => cases h
  | succ fuel ih =>
    rw [statements?] at h
    split at h
    · cases h
      rintro s ⟨⟩
    · split at h
      · cases h
      · next s cs' hs =>
        obtain ⟨ss', hss', rfl⟩ := Option.map_eq_some_iff.mp h
        exact List.forall_mem_cons.mpr ⟨distinct_of_statement? hs, ih hss'⟩

theorem distinct_of_splitEntries {ss : List Statement} (h : ∀ s ∈ ss, s.Distinct) :
    (∀ e ∈ (splitEntries ss).1, e.2.2.Distinct) ∧ ∀ s ∈ (splitEntries ss).2, s.Distinct := by
  fun_induction splitEntries ss with
  | case1 path key v rest es rest' heq ih =>
    rw [heq] at ih
    obtain ⟨hv, hrest⟩ := List.forall_mem_cons.mp h
    obtain ⟨hes, hrest'⟩ := ih hrest
    exact ⟨List.forall_mem_cons.mpr ⟨hv, hes⟩, hrest'⟩
  | case2 => exact ⟨by rintro e ⟨⟩, h⟩

theorem Draft.Distinct.build? {ss : List Statement} {d d' : Draft} (hd : d.Distinct)
    (hss : ∀ s ∈ ss, s.Distinct) (h : Toml.build? d ss = some d') : d'.Distinct := by
  have hbody : ∀ rest : List Statement, (∀ s ∈ rest, s.Distinct) → ∀ d d' : Draft, d.Distinct →
      Draft.defineAll (splitEntries rest).1 d = some d' → d'.Distinct :=
    fun rest hrest d d' hd hdefined => hd.defineAll (distinct_of_splitEntries hrest).1 hdefined
  fun_induction Toml.build? d ss with
  | case1 =>
    cases h
    exact hd
  | case2 => cases h
  | case3 => cases h
  | case4 d path key rest _ parts d₁ hheader ih =>
    have hrest := (List.forall_mem_cons.mp hss).2
    exact ih (hd.defineTable (hbody rest hrest) hheader) (distinct_of_splitEntries hrest).2 h
  | case5 => cases h
  | case6 d path key rest _ parts d₁ hheader ih =>
    have hrest := (List.forall_mem_cons.mp hss).2
    exact ih (hd.appendTable (hbody rest hrest) hheader) (distinct_of_splitEntries hrest).2 h

theorem distinct_of_parse? {text : String} {t : Table} (h : parse? text = some t) :
    Distinct (.table t) := by
  unfold parse? at h
  dsimp only at h
  split at h
  · cases h
  · next ss hss =>
    obtain ⟨hes, hrest⟩ := distinct_of_splitEntries (distinct_of_statements? hss)
    split at h
    · cases h
    · next d hd =>
      obtain ⟨d', hd', rfl⟩ := Option.map_eq_some_iff.mp h
      have hmade := ((Draft.distinct_nil _ _).defineAll hes hd).build? hrest hd'
      cases d' with
      | table implied dotted entries =>
        have htable := hmade.toToml
        rwa [Draft.toToml] at htable
      | _ => exact .table List.nodup_nil (by rintro e ⟨⟩)

end LanguageSessions.Toml
