import Mathlib.Data.List.Destutter
import DitaTopic.Identifier.Assignment

/-!
# Collapsed dashes

A slug is written character by character, and with dashes collapsed each new dash looks back at the
one written before it. What comes out is the slug with repeated dashes in which every run of dashes
is replaced by a single one. Characters that are dropped leave no trace in the slug, so they do not
keep two dashes apart; and since no letter or digit has a dash in its lower case, a dash of the slug
always stands for one of the dash characters.
-/

namespace DitaTopic

namespace Text

/-- A number that is no code point of a character gives the character with number zero. -/
theorem toNat_ofNat (n : Nat) : (Char.ofNat n).toNat = n ∨ Char.ofNat n = '\x00' := by
  by_cases hvalid : n.isValidChar
  · have hchar : Char.ofNat n = Char.ofNatAux n hvalid := dif_pos hvalid
    rw [hchar]
    exact .inl rfl
  · exact .inr (dif_neg hvalid)

theorem ofNat_ne_dash {n : Nat} (h : '-'.toNat < n) : Char.ofNat n ≠ '-' := by
  intro hdash
  rcases toNat_ofNat n with hn | hzero
  · rw [hdash] at hn
    omega
  · cases hzero.symm.trans hdash

/-- All that has another lower case is mapped behind the dash. -/
theorem lowerCaseRuns_behind_dash : ∀ r ∈ lowerCaseRuns, ('-'.toNat : Int) < r.first + r.shift := by
  decide +kernel

theorem isAlphanumeric_dash : isAlphanumeric '-' = false := by decide +kernel

/-- No dash comes from the lower case of a letter or a digit. -/
theorem dash_not_mem_lowerCase {c : Char} (h : isAlphanumeric c = true) : '-' ∉ lowerCase c := by
  rw [lowerCase]
  split
  · decide
  · split
    · next r hr =>
      have hmem : r ∈ lowerCaseRuns := List.mem_of_find?_eq_some hr
      have hcontains := List.find?_some hr
      simp only [CaseRun.contains, Bool.and_eq_true, decide_eq_true_eq] at hcontains
      have hbehind := lowerCaseRuns_behind_dash r hmem
      have hlt : '-'.toNat < (c.toNat + r.shift).toNat := by omega
      intro hdash
      exact ofNat_ne_dash hlt (List.mem_singleton.mp hdash).symm
    · intro hdash
      rw [← List.mem_singleton.mp hdash, isAlphanumeric_dash] at h
      cases h

end Text

namespace Identifier

open DitaTopic.Options

/-- Not both characters are dashes. -/
def Apart (a b : Char) : Prop := ¬ (a = '-' ∧ b = '-')

instance : DecidableRel Apart := fun a b => inferInstanceAs (Decidable ¬ (a = '-' ∧ b = '-'))

/-- The characters with every run of dashes replaced by a single dash. -/
def singleDashes : List Char → List Char
  | [] => []
  | c :: rest =>
    if c = '-' then '-' :: singleDashes (rest.dropWhile (· == '-')) else c :: singleDashes rest
termination_by cs => cs.length
decreasing_by
  · exact Nat.lt_succ_of_le (List.dropWhile_sublist _).length_le
  · exact Nat.lt_succ_self _

theorem singleDashes_nil : singleDashes [] = [] := by rw [singleDashes]

theorem singleDashes_dash (rest : List Char) :
    singleDashes ('-' :: rest) = '-' :: singleDashes (rest.dropWhile (· == '-')) := by
  rw [singleDashes, if_pos rfl]

theorem singleDashes_other {c : Char} (h : c ≠ '-') (rest : List Char) :
    singleDashes (c :: rest) = c :: singleDashes rest := by
  rw [singleDashes, if_neg h]

/-- What is left of dashes that come right after one another is the first of them. -/
theorem singleDashes_cons_eq_destutter' (c : Char) (rest : List Char) :
    singleDashes (c :: rest) = rest.destutter' Apart c := by
  induction rest generalizing c with
  | nil =>
    by_cases hdash : c = '-'
    · subst hdash
      rw [singleDashes_dash, List.dropWhile_nil, singleDashes_nil, List.destutter'_nil]
    · rw [singleDashes_other hdash, singleDashes_nil, List.destutter'_nil]
  | cons d rest ih =>
    by_cases hdash : c = '-'
    · subst hdash
      rw [singleDashes_dash]
      by_cases hnext : d = '-'
      · subst hnext
        have htogether : ¬ Apart '-' '-' := by decide
        rw [List.destutter'_cons_neg _ htogether, ← ih, singleDashes_dash,
          List.dropWhile_cons_of_pos rfl]
      · have hapart : Apart '-' d := fun h => hnext h.2
        rw [List.destutter'_cons_pos _ hapart, ← ih,
          List.dropWhile_cons_of_neg (by simpa using hnext)]
    · have hapart : Apart c d := fun h => hdash h.1
      rw [singleDashes_other hdash, List.destutter'_cons_pos _ hapart, ih]

theorem singleDashes_eq_destutter (cs : List Char) : singleDashes cs = cs.destutter Apart := by
  cases cs with
  | nil => rw [singleDashes_nil, List.destutter_nil]
  | cons c rest => rw [singleDashes_cons_eq_destutter', List.destutter_cons']

theorem isChain_singleDashes (cs : List Char) : (singleDashes cs).IsChain Apart := by
  rw [singleDashes_eq_destutter]
  exact List.isChain_destutter Apart cs

theorem singleDashes_eq_self_iff {cs : List Char} : singleDashes cs = cs ↔ cs.IsChain Apart := by
  rw [singleDashes_eq_destutter]
  exact List.destutter_eq_self_iff Apart cs

/-! ## Looking back -/

/-- Writes a character in front of those written before it, unless it is a dash next to a dash. -/
def writeApart (written : List Char) (c : Char) : List Char :=
  if c = '-' ∧ written.head? = some '-' then written else c :: written

/-- Writing with a look back at the last character replaces runs of dashes. A run that has begun
swallows the dashes that come next. -/
theorem reverse_foldl_writeApart (cs written : List Char) :
    (cs.foldl writeApart written).reverse = written.reverse ++
      singleDashes (if written.head? = some '-' then cs.dropWhile (· == '-') else cs) := by
  -- what is written tells whether the next dash continues a run, so it varies in the induction
  induction cs generalizing written with
  | nil => simp [singleDashes_nil]
  | cons c rest ih =>
    rw [List.foldl_cons, ih]
    by_cases hdash : c = '-'
    · subst hdash
      by_cases hhead : written.head? = some '-'
      · simp [writeApart, hhead]
      · simp [writeApart, hhead, singleDashes_dash]
    · have hwrite : writeApart written c = c :: written := if_neg fun h => hdash h.1
      simp [hwrite, hdash, singleDashes_other hdash]

namespace SlugRule

/-- What a character of the text adds to a slug whose dashes may be repeated. -/
def added (dashChars : List Char) (c : Char) : List Char :=
  if Text.isAlphanumeric c then Text.lowerCase c
  else if dashChars.contains c then ['-'] else []

theorem push_repeating (dashChars written : List Char) (c : Char) :
    push ⟨dashChars, false⟩ written c = (added dashChars c).reverse ++ written := by
  simp only [push, added, Bool.false_and, Bool.not_false, Bool.and_true]
  split
  · rfl
  · split <;> rfl

/-- Characters that are no dashes are written one after the other. -/
theorem foldl_writeApart_of_not_mem {cs : List Char} (h : '-' ∉ cs) (written : List Char) :
    cs.foldl writeApart written = cs.reverse ++ written := by
  induction cs generalizing written with
  | nil => rfl
  | cons c rest ih =>
    have hne : '-' ≠ c := List.ne_of_not_mem_cons h
    have hwrite : writeApart written c = c :: written := if_neg fun hdash => hne hdash.1.symm
    rw [List.foldl_cons, hwrite, ih (List.not_mem_of_not_mem_cons h), List.reverse_cons, List.append_assoc,
      List.singleton_append]

theorem push_collapsing (dashChars written : List Char) (c : Char) :
    push ⟨dashChars, true⟩ written c = (added dashChars c).foldl writeApart written := by
  rw [push, added]
  split
  · next h => rw [foldl_writeApart_of_not_mem (Text.dash_not_mem_lowerCase h)]
  · by_cases hmem : c ∈ dashChars
    · by_cases hhead : written.head? = some '-' <;> simp [hmem, hhead, writeApart]
    · simp [hmem]

/-- With repeated dashes the slug is what each character adds to it. -/
theorem slugChars_repeating (dashChars text : List Char) :
    slugChars ⟨dashChars, false⟩ text = (Text.trim text).flatMap (added dashChars) := by
  have hfold (cs written : List Char) : cs.foldl (push ⟨dashChars, false⟩) written =
      (cs.flatMap (added dashChars)).reverse ++ written := by
    induction cs generalizing written with
    | nil => rfl
    | cons c rest ih =>
      rw [List.foldl_cons, push_repeating, ih, List.flatMap_cons, List.reverse_append,
        List.append_assoc]
  rw [slugChars, hfold, List.append_nil, List.reverse_reverse]

theorem slugChars_collapsing (dashChars text : List Char) :
    slugChars ⟨dashChars, true⟩ text = singleDashes (slugChars ⟨dashChars, false⟩ text) := by
  have hpush : push ⟨dashChars, true⟩ =
      fun written c => (added dashChars c).foldl writeApart written :=
    funext fun written => funext fun c => push_collapsing dashChars written c
  rw [slugChars_repeating, slugChars, hpush, ← List.foldl_flatMap, reverse_foldl_writeApart]
  simp

end SlugRule

theorem toList_slug_ofView (view : OptionView) (text : String) :
    ((HeadingRule.ofView view).slug.slug text).toList =
      SlugRule.slugChars ⟨(Key.headerIdToDashChars.resolve view).toList,
        Key.headerIdNoDupedDashes.resolve view⟩ text.toList := by
  rw [SlugRule.slug, String.toList_ofList, HeadingRule.ofView]

/-- A text has two slugs, one under options that collapse dashes and one under options that do not
but have the same dash characters. The first is the second with every run of dashes replaced by a
single dash. So it has no two dashes in a row, and the two slugs are the same if the second has none
either. -/
theorem collapsed_slug {collapsing repeating : OptionView}
    (hcollapsing : Key.headerIdNoDupedDashes.resolve collapsing = true)
    (hrepeating : Key.headerIdNoDupedDashes.resolve repeating = false)
    (hdash : Key.headerIdToDashChars.resolve collapsing =
      Key.headerIdToDashChars.resolve repeating) (text : String) :
    let slug := (HeadingRule.ofView collapsing).slug.slug text
    let plain := (HeadingRule.ofView repeating).slug.slug text
    slug.toList = singleDashes plain.toList ∧ slug.toList.IsChain Apart ∧
      (slug = plain ↔ plain.toList.IsChain Apart) := by
  intro slug plain
  have hchars : slug.toList = singleDashes plain.toList := by
    rw [toList_slug_ofView, toList_slug_ofView, hcollapsing, hrepeating, hdash,
      SlugRule.slugChars_collapsing]
  refine ⟨hchars, ?_, ?_⟩
  · rw [hchars]
    exact isChain_singleDashes plain.toList
  · rw [← String.toList_inj, hchars, singleDashes_eq_self_iff]

/-- Options with a letter among the dash characters. -/
def dashing (collapse : Bool) : OptionView :=
  .ofSet ((KeyedList.empty.insert "HEADER_ID_GENERATOR_TO_DASH_CHARS" (.str " -!x")).insert
    "HEADER_ID_GENERATOR_NO_DUPED_DASHES" (.bool collapse))

/-- A letter stays a letter, and a comma that is dropped keeps no dashes apart. -/
theorem collapsed_slug_comma :
    let plain := (HeadingRule.ofView (dashing false)).slug.slug "Ax - , !B"
    let slug := (HeadingRule.ofView (dashing true)).slug.slug "Ax - , !B"
    plain = "ax-----b" ∧ slug = "ax-b" ∧ slug.toList = singleDashes plain.toList ∧
      (HeadingRule.ofView (dashing true)).slug.slug "A, b" =
        (HeadingRule.ofView (dashing false)).slug.slug "A, b" := by
  intro plain slug
  have hcollapsing : Key.headerIdNoDupedDashes.resolve (dashing true) = true := rfl
  have hrepeating : Key.headerIdNoDupedDashes.resolve (dashing false) = false := rfl
  have hdash : Key.headerIdToDashChars.resolve (dashing true) =
      Key.headerIdToDashChars.resolve (dashing false) := rfl
  obtain ⟨hchars, -, -⟩ := collapsed_slug hcollapsing hrepeating hdash "Ax - , !B"
  obtain ⟨-, -, hsame⟩ := collapsed_slug hcollapsing hrepeating hdash "A, b"
  have hplain : plain = "ax-----b" := by decide +kernel
  have hslug : slug = "ax-b" := by decide +kernel
  have hapart : ((HeadingRule.ofView (dashing false)).slug.slug "A, b").toList.IsChain Apart := by
    decide +kernel
  exact ⟨hplain, hslug, hchars, hsame.mpr hapart⟩

end Identifier

end DitaTopic
