import Mathlib.Logic.Function.Iterate
import LanguageSessions.Proofs.Text.Unsigned
import LanguageSessions.Proofs.Wire.Frame

/-!
The grammar of frames on streams of any bytes. `Says` gives a line its meaning, `Lines` cuts lines
off a stream, and `Outcome` lists what a read can come to; none of them mentions the reader.
`take_eq_iff` says that a read comes to what is listed and to nothing else.
-/
namespace LanguageSessions

theorem Text.trims_nil_iff {cs : List Char} : Trims cs [] ↔ ∀ c ∈ cs, isBlank c = true := by
  constructor
  · rintro ⟨vs, ws, rfl, hvs, hws, -, -⟩ c hc
    rcases List.mem_append.mp hc with hc | hc
    · exact hvs c hc
    · exact hws c hc
  · intro h
    refine ⟨cs, [], (List.append_nil cs).symm, h, List.forall_mem_nil _, ?_, ?_⟩ <;> rintro c ⟨⟩

namespace Frame

inductive Says : List UInt8 → Line → Prop
  | blank {cs : List Char} (blank : ∀ c ∈ cs, Text.isBlank c = true) :
      Says (Utf8.encode cs) .blank
  | other {cs text : List Char} (trimmed : Text.Trims cs text) (written : text ≠ [])
      (header : ¬ lengthHeader <+: text) : Says (Utf8.encode cs) .other
  | length {cs value number : List Char} {n : Nat} (trimmed : Text.Trims cs (lengthHeader ++ value))
      (valued : Text.Trims value number) (writes : Text.Writes Text.max64 number n)
      (fits : n ≤ maxLength) : Says (Utf8.encode cs) (.length n)
  | tooLong {cs value number : List Char} {n : Nat}
      (trimmed : Text.Trims cs (lengthHeader ++ value)) (valued : Text.Trims value number)
      (writes : Text.Writes Text.max64 number n) (exceeds : maxLength < n) :
      Says (Utf8.encode cs) (.fault (.tooLong n))
  | lengthValue {cs value number : List Char} (trimmed : Text.Trims cs (lengthHeader ++ value))
      (valued : Text.Trims value number) (writes : ∀ n, ¬ Text.Writes Text.max64 number n) :
      Says (Utf8.encode cs) (.fault .lengthValue)
  | headerText {line : List UInt8} (text : ∀ cs, line ≠ Utf8.encode cs) :
      Says line (.fault .headerText)

def measured : Option Nat → Line
  | none => .fault .lengthValue
  | some n => if n > maxLength then .fault (.tooLong n) else .length n

theorem readLine_encode {cs text : List Char} (h : Text.Trims cs text) :
    readLine (Utf8.encode cs) =
      if text.isEmpty then .blank
      else if lengthHeader.isPrefixOf text then
        measured (Text.unsigned? Text.max64 (Text.trim (text.drop lengthHeader.length)))
      else .other := by
  rw [readLine, Utf8.decode?_encode, ← Text.trim_eq_iff.mpr h]
  rfl

theorem readLine_length {cs value number : List Char}
    (h : Text.Trims cs (lengthHeader ++ value)) (hvalue : Text.Trims value number) :
    readLine (Utf8.encode cs) = measured (Text.unsigned? Text.max64 number) := by
  have hempty : (lengthHeader ++ value).isEmpty = false := rfl
  have hprefix : lengthHeader.isPrefixOf (lengthHeader ++ value) = true := by
    rw [List.isPrefixOf_iff_prefix]
    exact List.prefix_append _ _
  rw [readLine_encode h, hempty, if_neg Bool.false_ne_true, if_pos hprefix, List.drop_left,
    Text.trim_eq_iff.mpr hvalue]

theorem says_readLine (line : List UInt8) : Says line (readLine line) := by
  cases hdecode : Utf8.decode? line with
  | none =>
    rw [readLine, hdecode]
    exact .headerText (Utf8.decode?_eq_none_iff.mp hdecode)
  | some cs =>
    rw [Utf8.decode?_eq_some_iff.mp hdecode]
    have htrims := Text.trims_trim cs
    generalize Text.trim cs = text at htrims
    by_cases hprefix : lengthHeader <+: text
    · obtain ⟨value, rfl⟩ := hprefix
      have hvalue := Text.trims_trim value
      rw [readLine_length htrims hvalue]
      cases hread : Text.unsigned? Text.max64 (Text.trim value) with
      | none => exact .lengthValue htrims hvalue ((Text.unsigned?_eq_none_iff _ _).mp hread)
      | some n =>
        have hwrites := (Text.unsigned?_eq_some_iff _ _ n).mp hread
        rw [measured]
        split
        · next hlong => exact .tooLong htrims hvalue hwrites hlong
        · next hfits => exact .length htrims hvalue hwrites (Nat.not_lt.mp hfits)
    · rw [readLine_encode htrims]
      cases text with
      | nil => exact .blank (Text.trims_nil_iff.mp htrims)
      | cons c text =>
        rw [if_neg (by simp), if_neg (mt List.isPrefixOf_iff_prefix.mp hprefix)]
        exact .other htrims (List.cons_ne_nil c text) hprefix

theorem readLine_eq_iff {line : List UInt8} {l : Line} : readLine line = l ↔ Says line l := by
  constructor
  · rintro rfl
    exact says_readLine line
  · rintro (hblank | ⟨htrims, hwritten, hheader⟩ | ⟨htrims, hvalue, hwrites, hfits⟩ |
      ⟨htrims, hvalue, hwrites, hlong⟩ | ⟨htrims, hvalue, hwrites⟩ | htext)
    · rw [readLine_encode (Text.trims_nil_iff.mpr hblank)]
      rfl
    · rw [readLine_encode htrims, if_neg (by simpa using hwritten),
        if_neg (mt List.isPrefixOf_iff_prefix.mp hheader)]
    · rw [readLine_length htrims hvalue, (Text.unsigned?_eq_some_iff _ _ _).mpr hwrites]
      exact if_neg (Nat.not_lt.mpr hfits)
    · rw [readLine_length htrims hvalue, (Text.unsigned?_eq_some_iff _ _ _).mpr hwrites]
      exact if_pos hlong
    · rw [readLine_length htrims hvalue, (Text.unsigned?_eq_none_iff _ _).mpr hwrites]
      rfl
    · rw [readLine, Utf8.decode?_eq_none_iff.mpr htext]

inductive FirstLine : List UInt8 → List UInt8 → List UInt8 → Prop
  | fed {l : List UInt8} (rest : List UInt8) (clear : 10 ∉ l) :
      FirstLine (l ++ 10 :: rest) (l ++ [10]) rest
  | last {l : List UInt8} (clear : 10 ∉ l) (written : l ≠ []) : FirstLine l l []

theorem firstLine_iff {bs line rest : List UInt8} :
    FirstLine bs line rest ↔ bs ≠ [] ∧ splitLine bs = (line, rest) := by
  constructor
  · rintro (⟨_, hclear⟩ | ⟨hclear, hwritten⟩)
    · exact ⟨by simp, splitLine_line _ hclear⟩
    · exact ⟨hwritten, splitLine_partial hclear⟩
  · rintro ⟨hne, hsplit⟩
    by_cases hmem : 10 ∈ bs
    · obtain ⟨l, more, rfl, hclear⟩ := List.eq_append_cons_of_mem hmem
      rw [splitLine_line more hclear] at hsplit
      cases hsplit
      exact .fed _ hclear
    · rw [splitLine_partial hmem] at hsplit
      cases hsplit
      exact .last hmem hne

theorem FirstLine.append {bs line rest : List UInt8} (h : FirstLine bs line rest) :
    bs = line ++ rest := by
  cases h with
  | fed rest _ => exact List.append_cons ..
  | last _ _ => exact (List.append_nil bs).symm

inductive Lines : List UInt8 → List (List UInt8) → List UInt8 → Prop
  | none (bs : List UInt8) : Lines bs [] bs
  | line {bs line more rest : List UInt8} {ls : List (List UInt8)} (first : FirstLine bs line more)
      (lines : Lines more ls rest) : Lines bs (line :: ls) rest

theorem Lines.flatten {bs rest : List UInt8} {ls : List (List UInt8)} (h : Lines bs ls rest) :
    bs = ls.flatten ++ rest := by
  induction h with
  | none bs => rfl
  | line first _ ih => rw [first.append, List.flatten_cons, List.append_assoc, ← ih]

def Line.length? : Line → Option Nat
  | .length n => some n
  | _ => none

/-- Lines after which a header goes on, where `given` is the length known before them: none is at
fault, and no blank one comes after a length. -/
structure GoesOn (given : Option Nat) (said : List Line) : Prop where
  sound : ∀ f, .fault f ∉ said
  unended : ∀ before after, said = before ++ .blank :: after → given = none ∧ ∀ n, .length n ∉ before

def latest (given : Option Nat) (said : List Line) : Option Nat :=
  (said.filterMap Line.length?).getLast?.or given

theorem goesOn_nil (given : Option Nat) : GoesOn given [] where
  sound := fun _ => List.not_mem_nil
  unended := fun before after h => by simp at h

theorem goesOn_cons {given : Option Nat} {l : Line} {said : List Line} :
    GoesOn given (l :: said) ↔
      (∀ f, l ≠ .fault f) ∧ (l = .blank → given = none) ∧ GoesOn (l.length?.or given) said := by
  constructor
  · intro h
    refine ⟨fun f hl => h.sound f (hl ▸ List.mem_cons_self), ?_,
      fun f hf => h.sound f (List.mem_cons_of_mem l hf), ?_⟩
    · rintro rfl
      exact (h.unended [] said rfl).1
    · rintro before after rfl
      obtain ⟨hgiven, hbefore⟩ := h.unended (l :: before) after rfl
      refine ⟨?_, fun n hn => hbefore n (List.mem_cons_of_mem l hn)⟩
      cases l with
      | length n => exact absurd List.mem_cons_self (hbefore n)
      | blank | other | fault => exact hgiven
  · rintro ⟨hsound, hblank, h⟩
    refine ⟨fun f hf => ?_, fun before after hsplit => ?_⟩
    · rcases List.mem_cons.mp hf with hl | hf
      · exact hsound f hl.symm
      · exact h.sound f hf
    · cases before with
      | nil =>
        obtain ⟨rfl, -⟩ := List.cons.inj hsplit
        exact ⟨hblank rfl, fun n => List.not_mem_nil⟩
      | cons k before =>
        obtain ⟨rfl, hsaid⟩ := List.cons.inj hsplit
        obtain ⟨hgiven, hbefore⟩ := h.unended before after hsaid
        obtain ⟨hlength, hgiven⟩ := Option.or_eq_none_iff.mp hgiven
        refine ⟨hgiven, fun n hn => ?_⟩
        rcases List.mem_cons.mp hn with rfl | hn
        · cases hlength
        · exact hbefore n hn

theorem latest_cons (given : Option Nat) (l : Line) (said : List Line) :
    latest given (l :: said) = latest (l.length?.or given) said := by
  rw [latest, latest, List.filterMap_cons]
  cases l.length? with
  | none => rfl
  | some n =>
    dsimp only
    rw [List.getLast?_cons, ← Option.or_assoc]
    cases (said.filterMap Line.length?).getLast? <;> rfl

inductive Header (given : Option Nat) (bs : List UInt8) : Headers → Prop
  | closed {ls : List (List UInt8)} {said : List Line} (lines : Lines bs ls [])
      (meant : List.Forall₂ Says ls said) (goes : GoesOn given said) :
      Header given bs (.fault .closed [])
  | fault {ls : List (List UInt8)} {said : List Line} {last rest : List UInt8} {f : FrameFault}
      (lines : Lines bs (ls ++ [last]) rest) (meant : List.Forall₂ Says ls said)
      (goes : GoesOn given said) (faulty : Says last (.fault f)) : Header given bs (.fault f rest)
  | ended {ls : List (List UInt8)} {said : List Line} {last rest : List UInt8} {n : Nat}
      (lines : Lines bs (ls ++ [last]) rest) (meant : List.Forall₂ Says ls said)
      (goes : GoesOn given said) (blank : Says last .blank) (length : latest given said = some n) :
      Header given bs (.ended (some n) rest)

inductive Outcome (bs : List UInt8) : Take → Prop
  | frame {body rest : List UInt8} (header : Header none bs (.ended (some body.length) (body ++ rest))) :
      Outcome bs (.frame body rest)
  | truncated {n : Nat} {part : List UInt8} (header : Header none bs (.ended (some n) part))
      (short : part.length < n) : Outcome bs (.fault .truncated [])
  | fault {f : FrameFault} {rest : List UInt8} (header : Header none bs (.fault f rest)) :
      Outcome bs (.fault f rest)

theorem takeHeaders_first {given : Option Nat} {bs line rest : List UInt8}
    (h : FirstLine bs line rest) :
    takeHeaders true given bs =
      match readLine line with
      | .fault f => .fault f rest
      | .other => takeHeaders true given rest
      | .length n => takeHeaders true (some n) rest
      | .blank => if given.isNone then takeHeaders true given rest else .ended given rest := by
  obtain ⟨hne, hsplit⟩ := firstLine_iff.mp h
  conv_lhs => rw [takeHeaders.eq_def, dif_neg hne]
  cases hread : readLine line <;> simp [hsplit, hread]

theorem takeHeaders_goes {given : Option Nat} {bs line rest : List UInt8} {l : Line}
    (h : FirstLine bs line rest) (meant : Says line l) (hsound : ∀ f, l ≠ .fault f)
    (hblank : l = .blank → given = none) :
    takeHeaders true given bs = takeHeaders true (l.length?.or given) rest := by
  rw [takeHeaders_first h, readLine_eq_iff.mpr meant]
  cases l with
  | blank =>
    rw [hblank rfl]
    rfl
  | length n => rfl
  | other => rfl
  | fault f => exact absurd rfl (hsound f)

theorem takeHeaders_lines {given : Option Nat} {bs rest : List UInt8} {ls : List (List UInt8)}
    {said : List Line} (h : Lines bs ls rest) (meant : List.Forall₂ Says ls said)
    (goes : GoesOn given said) :
    takeHeaders true given bs = takeHeaders true (latest given said) rest := by
  -- each line may change the length that the next ones begin with
  induction h generalizing given said with
  | none bs =>
    cases meant
    rfl
  | line first _ ih =>
    cases meant with
    | cons hmeant meant =>
      obtain ⟨hsound, hblank, goes⟩ := goesOn_cons.mp goes
      rw [takeHeaders_goes first hmeant hsound hblank, ih meant goes, latest_cons]

theorem Lines.last {bs last rest : List UInt8} {ls : List (List UInt8)}
    (h : Lines bs (ls ++ [last]) rest) : ∃ more, Lines bs ls more ∧ FirstLine more last rest := by
  induction ls generalizing bs with
  | nil =>
    obtain _ | ⟨first, ⟨⟩⟩ := h
    exact ⟨bs, .none bs, first⟩
  | cons l ls ih =>
    obtain _ | ⟨first, lines⟩ := h
    obtain ⟨more, hlines, hlast⟩ := ih lines
    exact ⟨more, .line first hlines, hlast⟩

theorem Header.takeHeaders_eq {given : Option Nat} {bs : List UInt8} {h : Headers}
    (header : Header given bs h) : takeHeaders true given bs = h := by
  cases header with
  | closed lines meant goes =>
    rw [takeHeaders_lines lines meant goes, takeHeaders.eq_def, dif_pos rfl]
    rfl
  | fault lines meant goes faulty =>
    obtain ⟨more, lines, hlast⟩ := lines.last
    rw [takeHeaders_lines lines meant goes, takeHeaders_first hlast, readLine_eq_iff.mpr faulty]
  | ended lines meant goes blank length =>
    obtain ⟨more, lines, hlast⟩ := lines.last
    rw [takeHeaders_lines lines meant goes, length, takeHeaders_first hlast,
      readLine_eq_iff.mpr blank]
    rfl

theorem Header.line {given : Option Nat} {bs line rest : List UInt8} {l : Line} {h : Headers}
    (first : FirstLine bs line rest) (hmeant : Says line l) (hsound : ∀ f, l ≠ .fault f)
    (hblank : l = .blank → given = none) (header : Header (l.length?.or given) rest h) :
    Header given bs h := by
  cases header with
  | closed lines meant goes =>
    exact .closed (.line first lines) (.cons hmeant meant) (goesOn_cons.mpr ⟨hsound, hblank, goes⟩)
  | fault lines meant goes faulty =>
    exact .fault (.line first lines) (.cons hmeant meant) (goesOn_cons.mpr ⟨hsound, hblank, goes⟩)
      faulty
  | ended lines meant goes blank length =>
    exact .ended (.line first lines) (.cons hmeant meant) (goesOn_cons.mpr ⟨hsound, hblank, goes⟩)
      blank (by rw [latest_cons, length])

theorem header_takeHeaders (given : Option Nat) (bs : List UInt8) :
    Header given bs (takeHeaders true given bs) := by
  by_cases hne : bs = []
  · rw [hne, takeHeaders.eq_def, dif_pos rfl]
    exact .closed (.none []) .nil (goesOn_nil given)
  · have hlt := splitLine_length_lt hne
    have first : FirstLine bs (splitLine bs).1 (splitLine bs).2 := firstLine_iff.mpr ⟨hne, rfl⟩
    have meant := says_readLine (splitLine bs).1
    have alone : Lines bs ([] ++ [(splitLine bs).1]) (splitLine bs).2 := .line first (.none _)
    -- a line at fault and a blank line after a length end the header, all others go on
    by_cases hfault : ∃ f, readLine (splitLine bs).1 = .fault f
    · obtain ⟨f, hfault⟩ := hfault
      rw [takeHeaders_first first, hfault]
      rw [hfault] at meant
      exact .fault alone .nil (goesOn_nil given) meant
    · by_cases hend : readLine (splitLine bs).1 = .blank ∧ given ≠ none
      · obtain ⟨hread, hgiven⟩ := hend
        obtain ⟨n, rfl⟩ := Option.ne_none_iff_exists'.mp hgiven
        rw [takeHeaders_first first, hread]
        rw [hread] at meant
        exact .ended alone .nil (goesOn_nil _) meant rfl
      · have hsound : ∀ f, readLine (splitLine bs).1 ≠ .fault f := fun f hf => hfault ⟨f, hf⟩
        have hblank : readLine (splitLine bs).1 = .blank → given = none := fun hread =>
          not_not.mp fun hgiven => hend ⟨hread, hgiven⟩
        rw [takeHeaders_goes first meant hsound hblank]
        exact .line first meant hsound hblank (header_takeHeaders _ _)
termination_by bs.length

theorem takeBody_append (ended : Bool) (body rest : List UInt8) :
    takeBody ended body.length (body ++ rest) = .frame body rest := by
  rw [takeBody, List.take_left, List.drop_left, if_pos rfl]

theorem takeBody_short {n : Nat} {part : List UInt8} (h : part.length < n) :
    takeBody true n part = .fault .truncated [] := by
  rw [takeBody, List.take_of_length_le h.le, if_neg h.ne, if_pos rfl]

theorem outcome_take (bs : List UInt8) : Outcome bs (take true bs) := by
  have header := header_takeHeaders none bs
  rw [take]
  generalize takeHeaders true none bs = h at header
  cases h with
  | fault f rest => exact .fault header
  | wanting => cases header
  | ended length rest =>
    obtain _ | ⟨n⟩ := length
    · cases header
    · rcases Nat.lt_or_ge rest.length n with hshort | hwhole
      · rw [Headers.thenBody, takeBody_short hshort]
        exact .truncated header hshort
      · have hlength : (rest.take n).length = n := List.length_take_of_le hwhole
        have hrest : rest.take n ++ rest.drop n = rest := List.take_append_drop n rest
        have htake := takeBody_append true (rest.take n) (rest.drop n)
        rw [hrest, hlength] at htake
        rw [Headers.thenBody, htake]
        apply Outcome.frame
        rwa [hrest, hlength]

theorem take_eq_iff {bs : List UInt8} {t : Take} : take true bs = t ↔ Outcome bs t := by
  constructor
  · rintro rfl
    exact outcome_take bs
  · rintro (header | ⟨header, hshort⟩ | header)
    · rw [take, header.takeHeaders_eq, Headers.thenBody, takeBody_append]
    · rw [take, header.takeHeaders_eq, Headers.thenBody, takeBody_short hshort]
    · rw [take, header.takeHeaders_eq, Headers.thenBody]

theorem Says.kind {line : List UInt8} {f : FrameFault} (h : Says line (.fault f)) :
    f.kind = .invalidData ∧ f ≠ .lengthMissing := by
  cases h <;> exact ⟨rfl, by simp⟩

theorem ne_wanting (bs : List UInt8) : take true bs ≠ .wanting := by
  intro h
  cases take_eq_iff.mp h

theorem take_fault {bs rest : List UInt8} {f : FrameFault} (h : take true bs = .fault f rest) :
    (∃ ls said last, Lines bs (ls ++ [last]) rest ∧ List.Forall₂ Says ls said ∧ GoesOn none said ∧
      Says last (.fault f)) ∨ ((f = .closed ∨ f = .truncated) ∧ rest = []) := by
  obtain _ | _ | ⟨lines, meant, goes⟩ | ⟨lines, meant, goes, faulty⟩ := take_eq_iff.mp h
  · exact .inr ⟨.inr rfl, rfl⟩
  · exact .inr ⟨.inl rfl, rfl⟩
  · exact .inl ⟨_, _, _, lines, meant, goes, faulty⟩

theorem take_fault_lt {bs rest : List UInt8} {f : FrameFault} (hne : bs ≠ [])
    (h : take true bs = .fault f rest) : rest.length < bs.length := by
  rcases take_fault h with ⟨ls, said, last, lines, -, -, -⟩ | ⟨-, rfl⟩
  · obtain ⟨more, lines, hlast⟩ := lines.last
    have hmore := congrArg List.length lines.flatten
    obtain ⟨hne, hsplit⟩ := firstLine_iff.mp hlast
    have hlt := splitLine_length_lt hne
    rw [hsplit] at hlt
    rw [List.length_append] at hmore
    exact Nat.lt_of_lt_of_le hlt (hmore ▸ Nat.le_add_left _ _)
  · exact List.length_pos_iff.mpr hne

theorem takeHeaders_length {ended : Bool} {given last : Option Nat} {bs rest : List UInt8}
    (h : takeHeaders ended given bs = .ended last rest) : last ≠ none := by
  fun_induction takeHeaders ended given bs with
  | case1 | case2 | case3 | case4 => cases h
  | case5 _ _ _ _ _ _ _ ih => exact ih h
  | case6 _ _ _ _ _ _ _ _ ih => exact ih h
  | case7 _ _ _ _ _ _ _ _ ih => exact ih h
  | case8 _ _ _ _ _ _ _ hgiven =>
    cases h
    rintro rfl
    exact hgiven rfl

theorem takeHeaders_fault {ended : Bool} {given : Option Nat} {bs rest : List UInt8} {f : FrameFault}
    (h : takeHeaders ended given bs = .fault f rest) : f ≠ .lengthMissing := by
  fun_induction takeHeaders ended given bs with
  | case1 =>
    cases h
    simp
  | case2 | case3 | case8 => cases h
  | case4 given bs _ _ _ _ f hread =>
    cases h
    exact (readLine_eq_iff.mp hread).kind.2
  | case5 _ _ _ _ _ _ _ ih => exact ih h
  | case6 _ _ _ _ _ _ _ _ ih => exact ih h
  | case7 _ _ _ _ _ _ _ _ ih => exact ih h

theorem take_ne_lengthMissing (ended : Bool) (bs rest : List UInt8) :
    take ended bs ≠ .fault .lengthMissing rest := by
  intro h
  unfold take Headers.thenBody at h
  split at h
  · next heq => exact takeHeaders_length heq rfl
  · unfold takeBody at h
    dsimp only at h
    split at h
    · cases h
    · split at h <;> cases h
  · next heq =>
    cases h
    exact takeHeaders_fault heq rfl
  · cases h

def Headers.before (more : List UInt8) : Headers → Headers
  | .ended length rest => .ended length (rest ++ more)
  | .fault f rest => .fault f (rest ++ more)
  | .wanting => .wanting

def Take.before (more : List UInt8) : Take → Take
  | .frame body rest => .frame body (rest ++ more)
  | .fault f rest => .fault f (rest ++ more)
  | .wanting => .wanting

theorem takeHeaders_before (ended : Bool) (given : Option Nat) (bs more : List UInt8)
    (h : takeHeaders false given bs ≠ .wanting) :
    takeHeaders ended given (bs ++ more) = (takeHeaders false given bs).before more := by
  by_cases hmem : 10 ∈ bs
  · obtain ⟨l, rest, rfl, hclear⟩ := List.eq_append_cons_of_mem hmem
    rw [takeHeaders_line _ _ _ hclear] at h ⊢
    rw [List.append_assoc, List.cons_append, takeHeaders_line _ _ _ hclear]
    have hshort : rest.length < (l ++ 10 :: rest).length := by simp; omega
    generalize readLine (l ++ [10]) = said at h ⊢
    cases said with
    | fault f => rfl
    | other => exact takeHeaders_before ended given rest more h
    | length n => exact takeHeaders_before ended (some n) rest more h
    | blank =>
      cases given with
      | none => exact takeHeaders_before ended none rest more h
      | some n => rfl
  · exact absurd (takeHeaders_partial given hmem) h
termination_by bs.length

theorem takeBody_before (ended : Bool) (n : Nat) (bs more : List UInt8)
    (h : takeBody false n bs ≠ .wanting) :
    takeBody ended n (bs ++ more) = (takeBody false n bs).before more := by
  by_cases hwhole : (bs.take n).length = n
  · have hn : n ≤ bs.length := by
      rw [List.length_take] at hwhole
      omega
    rw [takeBody, takeBody, List.take_append_of_le_length hn, List.drop_append_of_le_length hn,
      if_pos hwhole, if_pos hwhole]
    rfl
  · rw [takeBody, if_neg hwhole] at h
    exact absurd rfl h

theorem take_before (ended : Bool) (bs more : List UInt8) (h : take false bs ≠ .wanting) :
    take ended (bs ++ more) = (take false bs).before more := by
  have hheaders : takeHeaders false none bs ≠ .wanting := by
    intro hwanting
    rw [take, hwanting] at h
    exact h rfl
  rw [take] at h ⊢
  rw [takeHeaders_before ended none bs more hheaders, take]
  cases hread : takeHeaders false none bs with
  | fault f rest => rfl
  | wanting => exact absurd hread hheaders
  | ended length rest =>
    rw [hread] at h
    cases length with
    | none => rfl
    | some n => exact takeBody_before ended n rest more h

theorem readMessage_nil : readMessage [] = (.error .closed, []) := by
  rw [readMessage, take_nil]
  rfl

theorem readMessage_lt {bs : List UInt8} (h : bs ≠ []) : (readMessage bs).2.length < bs.length := by
  unfold readMessage
  split
  · next heq => exact take_lt heq
  · next heq => exact take_fault_lt h heq
  · next heq => exact absurd heq (ne_wanting bs)

def unread (reads : Nat) (bs : List UInt8) : List UInt8 := (fun bs => (readMessage bs).2)^[reads] bs

theorem unread_eq_nil {reads : Nat} {bs : List UInt8} (h : bs.length ≤ reads) :
    unread reads bs = [] := by
  induction reads generalizing bs with
  | zero => exact List.length_eq_zero_iff.mp (Nat.le_zero.mp h)
  | succ reads ih =>
    rw [unread, Function.iterate_succ_apply]
    apply ih
    by_cases hne : bs = []
    · rw [hne, readMessage_nil]
      exact Nat.zero_le reads
    · have hlt := readMessage_lt hne
      omega

/-- How frames are read off a stream of any bytes. -/
structure Grammar (bs : List UInt8) : Prop where
  reads : ∀ t, take true bs = t ↔ Outcome bs t
  whole : ∀ ls rest, Lines bs ls rest → bs = ls.flatten ++ rest
  invalid : ∀ f rest, take true bs = .fault f rest → f.kind = .invalidData →
    ∃ ls said last, Lines bs (ls ++ [last]) rest ∧ List.Forall₂ Says ls said ∧ GoesOn none said ∧
      Says last (.fault f)
  eof : ∀ f rest, take true bs = .fault f rest → f.kind ≠ .invalidData →
    f.kind = .unexpectedEof ∧ rest = []
  lengthGiven : ∀ ended rest, take ended bs ≠ .fault .lengthMissing rest
  takes : bs ≠ [] → (∀ body rest, take true bs = .frame body rest → rest.length < bs.length) ∧
    ∀ f rest, take true bs = .fault f rest → rest.length < bs.length
  progress : bs ≠ [] → (readMessage bs).2.length < bs.length
  ends : ∀ reads, bs.length ≤ reads →
    unread reads bs = [] ∧ readMessage (unread reads bs) = (.error .closed, [])
  pieces : ∀ ended more, take false bs ≠ .wanting →
    take ended (bs ++ more) = (take false bs).before more

theorem read_by_grammar (bs : List UInt8) : Grammar bs where
  reads _ := take_eq_iff
  whole _ _ h := h.flatten
  invalid f rest h hkind := by
    rcases take_fault h with hline | ⟨rfl | rfl, -⟩
    · exact hline
    · cases hkind
    · cases hkind
  eof f rest h hkind := by
    rcases take_fault h with ⟨ls, said, last, -, -, -, faulty⟩ | ⟨rfl | rfl, hrest⟩
    · exact absurd faulty.kind.1 hkind
    · exact ⟨rfl, hrest⟩
    · exact ⟨rfl, hrest⟩
  lengthGiven ended rest := take_ne_lengthMissing ended bs rest
  takes hne := ⟨fun _ _ => take_lt, fun _ _ => take_fault_lt hne⟩
  progress := readMessage_lt
  ends reads h := by
    rw [unread_eq_nil h]
    exact ⟨rfl, readMessage_nil⟩
  pieces ended more := take_before ended bs more

end Frame

end LanguageSessions
