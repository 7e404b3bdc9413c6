import LanguageSessions.Proofs.Lists.Sorted

namespace LanguageSessions.ContentTypes

theorem byExtension_foldl (types : List (String × String)) (c : ContentTypes) :
    (types.foldl (fun c e => c.insert e.1 e.2) c).byExtension =
      types.foldl (fun es e => enter (normalExtension e.1) e.2 es) c.byExtension := by
  induction types generalizing c with
  | nil => rfl
  | cons e types ih => rw [List.foldl_cons, ih, insert, put_eq_enter, List.foldl_cons]

theorem lookup_ofList (types : List (String × String)) (ext : String) :
    (ofList types).byExtension.lookup ext =
      (types.reverse.find? fun e => normalExtension e.1 == ext).map Prod.snd := by
  have hlast := lookup_foldl_last enter (fun key v es k => lookup_enter key k v es)
    (fun e : String × String => normalExtension e.1) Prod.snd types ext
  rw [ofList, byExtension_foldl]
  exact hlast

theorem lookup_ofList_of_last {before after : List (String × String)} {e : String × String}
    {ext : String} (he : normalExtension e.1 = ext)
    (hafter : ∀ f ∈ after, normalExtension f.1 ≠ ext) :
    (ofList (before ++ e :: after)).byExtension.lookup ext = some e.2 := by
  have hnone : (after.reverse.find? fun f => normalExtension f.1 == ext) = none := by
    refine List.find?_eq_none.mpr fun f hf hext => ?_
    exact hafter f (List.mem_reverse.mp hf) (eq_of_beq hext)
  rw [lookup_ofList, List.reverse_append, List.reverse_cons, List.append_assoc, List.find?_append,
    hnone, Option.none_or, List.singleton_append, List.find?_cons_of_pos (by simp [he])]
  rfl

theorem lookup_ofList_of_greatest {types : List (String × String)} {key type ext : String}
    (hsorted : types.Pairwise fun e f => e.1 < f.1) (hlookup : types.lookup key = some type)
    (hkey : normalExtension key = ext)
    (hgreatest : ∀ k, types.lookup k ≠ none → normalExtension k = ext → k ≤ key) :
    (ofList types).byExtension.lookup ext = some type := by
  obtain ⟨before, after, rfl, -⟩ := List.lookup_eq_some_iff.mp hlookup
  have hlater : ∀ e ∈ after, key < e.1 :=
    (List.pairwise_cons.mp (List.pairwise_append.mp hsorted).2.1).1
  refine lookup_ofList_of_last hkey fun e he hext => ?_
  have hfound := lookup_ne_none
    (List.mem_append_right before (List.mem_cons_of_mem (key, type) he))
  exact String.not_lt.mpr (hgreatest e.1 hfound hext) (hlater e he)

end LanguageSessions.ContentTypes
