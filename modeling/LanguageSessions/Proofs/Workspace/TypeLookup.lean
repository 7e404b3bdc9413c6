import LanguageSessions.Proofs.Text.ByteOrder
import LanguageSessions.Proofs.Workspace.ContentTypes
import LanguageSessions.Proofs.Workspace.Extensions

namespace LanguageSessions.ContentTypes

def insertAll (c : ContentTypes) (types : List (String × String)) : ContentTypes :=
  types.foldl (fun c e => c.insert e.1 e.2) c

/-- What types tell that were read from a map and then inserted. -/
structure Agrees (read inserted : List (String × String)) (c : ContentTypes) : Prop where
  keys : ∀ e ∈ c.byExtension, e.1.toList.head? ≠ some '.' ∧ ∀ x ∈ e.1.toList, x.isUpper = false
  latest : ∀ file ext before e after, fileExtension? file = some ext →
    inserted = before ++ e :: after → normalExtension e.1 = ext →
    (∀ f ∈ after, normalExtension f.1 ≠ ext) → c.forFile? file = some e.2
  greatest : ∀ file ext e, fileExtension? file = some ext →
    (∀ f ∈ inserted, normalExtension f.1 ≠ ext) → e ∈ read → normalExtension e.1 = ext →
    (∀ f ∈ read, normalExtension f.1 = ext → f.1 = e.1 ∨ Utf8.Before f.1 e.1) →
    c.forFile? file = some e.2
  unknown : ∀ file,
    (∀ ext, fileExtension? file = some ext → ∀ e ∈ read ++ inserted, normalExtension e.1 ≠ ext) →
    c.forFile? file = none
  caseless : ∀ file other, asciiLower file = asciiLower other → c.forFile? file = c.forFile? other
  inverse : ∀ dir stem ext type, Path.IsName stem → '.' ∉ ext.toList → '/' ∉ ext.toList →
    (asciiLower ext ∈ c.extensionsFor type ↔
      c.forFile? (Path.join dir (stem ++ "." ++ ext)) = some type)
  sorted : ∀ type, (c.extensionsFor type).Pairwise Utf8.Before
  distinct : ∀ type, (c.extensionsFor type).Nodup

theorem normalExtension_keys (ext : String) :
    (normalExtension ext).toList.head? ≠ some '.' ∧
      ∀ x ∈ (normalExtension ext).toList, x.isUpper = false := by
  have hchars : (normalExtension ext).toList =
      (ext.toList.dropWhile (· = '.')).map Char.toLower := by
    rw [normalExtension, toList_asciiLower, String.toList_ofList]
  rw [hchars]
  constructor
  · have hdropped := List.head?_dropWhile_not (· = '.') ext.toList
    rw [List.head?_map]
    cases hhead : (ext.toList.dropWhile (· = '.')).head? with
    | none => simp
    | some x =>
      rw [hhead] at hdropped
      have hx : x ≠ '.' := by simpa using hdropped
      simpa using (toLower_eq_iff (by decide)).not.mpr hx
  · intro x hx
    obtain ⟨y, -, rfl⟩ := List.mem_map.mp hx
    exact Char.isUpper_toLower_eq_false y

section

variable (types : List (String × String))

theorem byExtension_ofList :
    (ofList types).byExtension =
      (types.map fun e => (normalExtension e.1, e.2)).foldl
        (fun es e => enter e.1 e.2 es) [] := by
  rw [ofList, byExtension_foldl, List.foldl_map]

theorem byExtension_sorted : (ofList types).byExtension.Pairwise fun e f => e.1 < f.1 := by
  rw [byExtension_ofList]
  exact foldl_enter_pairwise _ List.Pairwise.nil

theorem byExtension_nodup : ((ofList types).byExtension.map Prod.fst).Nodup := by
  rw [List.Nodup, List.pairwise_map]
  exact (byExtension_sorted types).imp fun hlt => ne_of_lt hlt

theorem mem_byExtension {e : String × String} (he : e ∈ (ofList types).byExtension) :
    ∃ f ∈ types, normalExtension f.1 = e.1 := by
  have hne := lookup_ne_none he
  rw [lookup_ofList, ne_eq, Option.map_eq_none_iff] at hne
  obtain ⟨f, hf⟩ := Option.ne_none_iff_exists'.mp hne
  have hname : normalExtension f.1 = e.1 := by simpa using List.find?_some hf
  exact ⟨f, List.mem_reverse.mp (List.mem_of_find?_eq_some hf), hname⟩

theorem mem_extensionsFor {ext type : String} :
    ext ∈ (ofList types).extensionsFor type ↔
      (ofList types).byExtension.lookup ext = some type := by
  rw [lookup_eq_some_iff_mem _ (byExtension_nodup types), extensionsFor]
  simp

end

theorem forFile?_of_extension {c : ContentTypes} {file ext : String}
    (h : fileExtension? file = some ext) : c.forFile? file = c.byExtension.lookup ext := by
  rw [forFile?, h, Option.bind_some]

theorem fileExtension?_asciiLower (file : String) :
    fileExtension? (asciiLower file) = fileExtension? file := by
  rw [fileExtension?, fileExtension?, Path.extension?_asciiLower, Option.map_map]
  exact Option.map_congr fun ext _ => asciiLower_asciiLower ext

theorem lookups_agree {read : List (String × String)}
    (hread : read.Pairwise fun e f => Utf8.Before e.1 f.1) (inserted : List (String × String)) :
    Agrees read inserted ((ofList read).insertAll inserted) := by
  have hall : (ofList read).insertAll inserted = ofList (read ++ inserted) :=
    List.foldl_append.symm
  rw [hall]
  constructor
  case keys =>
    intro e he
    obtain ⟨f, -, hf⟩ := mem_byExtension _ he
    exact hf ▸ normalExtension_keys f.1
  case latest =>
    rintro file ext before e after hfile rfl he hafter
    rw [forFile?_of_extension hfile, ← List.append_assoc]
    exact lookup_ofList_of_last he hafter
  case greatest =>
    intro file ext e hfile hinserted hmem he hgreatest
    obtain ⟨before, after, rfl⟩ := List.append_of_mem hmem
    have hlater : ∀ f ∈ after, Utf8.Before e.1 f.1 :=
      (List.pairwise_cons.mp (List.pairwise_append.mp hread).2.1).1
    rw [forFile?_of_extension hfile, List.append_assoc, List.cons_append]
    refine lookup_ofList_of_last he fun f hf hext => ?_
    rcases List.mem_append.mp hf with hf | hf
    · have hlt := Utf8.before_iff.mp (hlater f hf)
      rcases hgreatest f (by simp [hf]) hext with heq | hbefore
      · exact absurd heq (ne_of_gt hlt)
      · exact absurd (Utf8.before_iff.mp hbefore) (lt_asymm hlt)
    · exact hinserted f hf hext
  case unknown =>
    intro file hunknown
    cases hfile : fileExtension? file with
    | none => rw [forFile?, hfile, Option.bind_none]
    | some ext =>
      rw [forFile?_of_extension hfile, lookup_ofList, Option.map_eq_none_iff,
        List.find?_eq_none]
      intro e he hext
      exact hunknown ext hfile e (List.mem_reverse.mp he) (eq_of_beq hext)
  case caseless =>
    intro file other hsame
    rw [forFile?, forFile?, ← fileExtension?_asciiLower file, hsame, fileExtension?_asciiLower]
  case inverse =>
    intro dir stem ext type hstem hdot hslash
    have hfile : fileExtension? (Path.join dir (stem ++ "." ++ ext)) = some (asciiLower ext) := by
      rw [fileExtension?, Path.extension?_join dir hstem hdot hslash, Option.map_some]
    rw [mem_extensionsFor, forFile?_of_extension hfile]
  case sorted =>
    intro type
    rw [extensionsFor, List.pairwise_map]
    exact ((byExtension_sorted _).filter _).imp Utf8.before_iff.mpr
  case distinct =>
    intro type
    exact (byExtension_nodup _).sublist (List.filter_sublist.map _)

def spellings : List (String × String) :=
  [(".RS", "text/a"), ("Rs", "text/b"), ("rs", "text/c")]

theorem lookups_agree_spellings :
    spellings.Pairwise (fun e f => Utf8.Before e.1 f.1) ∧
    Agrees spellings [("..rS", "text/d")]
      ((ofList spellings).insertAll [("..rS", "text/d")]) := by
  have hread : spellings.Pairwise fun e f => Utf8.Before e.1 f.1 := by decide +kernel
  exact ⟨hread, lookups_agree hread _⟩

end LanguageSessions.ContentTypes
