import Mathlib.Data.List.Basic
import Mathlib.Data.List.Nodup
import DitaTopic.Identifier.Assignment
import DitaTopic.Proofs.Document.Growth

/-!
# Heading identifiers do not collide

The candidates for a slug differ from each other, so among finitely many taken identifiers the
search for a free one ends. In the pass over a document an identifier once taken stays taken, and
those from the source are taken from the start; whatever the pass makes is therefore new where it
is made and avoided wherever something is made after it.
-/

namespace DitaTopic.Identifier

/-- A value is given at most once if no two items are given it. -/
theorem count_filterMap_le_one_iff {α β : Type} [BEq β] [LawfulBEq β] {f : α → Option β}
    {l : List α} (h : l.Nodup) {x : β} :
    (l.filterMap f).count x ≤ 1 ↔ ∀ a ∈ l, ∀ b ∈ l, f a = some x → f b = some x → a = b := by
  have hmem : ∀ a, a ∈ l.filter (fun a => f a == some x) ↔ a ∈ l ∧ f a = some x := by
    intro a
    rw [List.mem_filter, beq_iff_eq]
  have hnodup := h.filter fun a => f a == some x
  rw [List.count_filterMap, List.countP_eq_length_filter]
  generalize l.filter (fun a => f a == some x) = given at hmem hnodup
  match given with
  | [] =>
    refine ⟨fun _ a ha _ _ hfa => ?_, fun _ => Nat.zero_le 1⟩
    exact absurd ((hmem a).mpr ⟨ha, hfa⟩) List.not_mem_nil
  | [c] =>
    refine ⟨fun _ a ha b hb hfa hfb => ?_, fun _ => Nat.le_refl 1⟩
    have hac := List.mem_singleton.mp ((hmem a).mpr ⟨ha, hfa⟩)
    have hbc := List.mem_singleton.mp ((hmem b).mpr ⟨hb, hfb⟩)
    exact hac.trans hbc.symm
  | c :: d :: rest =>
    refine ⟨fun hle => by simp at hle, fun heq => ?_⟩
    obtain ⟨hc, hfc⟩ := (hmem c).mp (List.mem_cons_self ..)
    obtain ⟨hd, hfd⟩ := (hmem d).mp (List.mem_cons_of_mem _ (List.mem_cons_self ..))
    have hcd := heq c hc d hd hfc hfd
    simp [hcd] at hnodup

open DitaTopic.Document (NodeKind)
open DitaTopic.Options (OptionView)

/-! ## The search for a free candidate -/

/-- The search through the candidates for a slug from number `n` on, without a bound, ends with
`found`. -/
inductive Search (taken : List String) (base : String) : Nat → String → Prop where
  | free {n : Nat} (h : candidate base n ∉ taken) : Search taken base n (candidate base n)
  | next {n : Nat} {found : String} (h : candidate base n ∈ taken)
      (rest : Search taken base (n + 1) found) : Search taken base n found

theorem candidate_injective (base : String) : Function.Injective (candidate base) := by
  have longer (n : Nat) : base ≠ candidate base (n + 1) := by
    intro h
    have hlength := congrArg String.length h
    simp only [candidate, String.length_append] at hlength
    have hdash : "-".length = 1 := rfl
    omega
  intro m n h
  match m, n with
  | 0, 0 => rfl
  | 0, n + 1 => exact absurd h (longer n)
  | m + 1, 0 => exact absurd h.symm (longer m)
  | m + 1, n + 1 =>
    have hdigits := (String.append_right_inj (base ++ "-")).mp h
    -- the number can be read back from its digits
    have hread := congrArg (fun digits => Nat.ofDigitChars 10 digits.toList 0) hdigits
    simpa only [Nat.toString_eq_repr, Nat.toList_repr, Nat.ofDigitChars_ten_toDigits] using hread

/-- So many candidates cannot all be taken. -/
theorem exists_free (taken : List String) (base : String) :
    ∃ n ≤ taken.length, candidate base n ∉ taken := by
  by_contra hall
  push Not at hall
  have hdistinct : ((List.range (taken.length + 1)).map (candidate base)).Nodup :=
    List.nodup_range.map (candidate_injective base)
  have hsubset : (List.range (taken.length + 1)).map (candidate base) ⊆ taken := by
    intro x hx
    obtain ⟨n, hn, rfl⟩ := List.mem_map.mp hx
    exact hall n (Nat.le_of_lt_succ (List.mem_range.mp hn))
  have hle := hdistinct.length_le_of_subset hsubset
  rw [List.length_map, List.length_range] at hle
  omega

section

variable {taken : List String} {base : String}

theorem search_firstFreeFrom {fuel n : Nat} (h : ∃ m ≤ fuel, candidate base (n + m) ∉ taken) :
    Search taken base n (firstFreeFrom taken base fuel n) := by
  induction fuel generalizing n with
  | zero =>
    obtain ⟨m, hm, hfree⟩ := h
    obtain rfl : m = 0 := Nat.le_zero.mp hm
    exact .free hfree
  | succ fuel ih =>
    rw [firstFreeFrom]
    split
    · next htaken =>
      obtain ⟨m, hm, hfree⟩ := h
      refine .next htaken (ih ?_)
      -- the free candidate is not the one that was just found taken
      cases m with
      | zero => exact absurd htaken hfree
      | succ m => exact ⟨m, by omega, by rwa [Nat.add_right_comm]⟩
    · next hfree => exact .free hfree

/-- The search through all candidates ends with the first free one. -/
theorem search_firstFree (taken : List String) (base : String) :
    Search taken base 0 (firstFree taken base) := by
  obtain ⟨n, hn, hfree⟩ := exists_free taken base
  exact search_firstFreeFrom ⟨n, hn, by rwa [Nat.zero_add]⟩

example : firstFree ["a", "b", "a-1"] "a" = "a-2" := by decide

theorem Search.notMem {n : Nat} {found : String} (h : Search taken base n found) :
    found ∉ taken := by
  induction h with
  | free h => exact h
  | next _ _ ih => exact ih

end

/-! ## The pass over a document -/

/-- What the source says of the identifier of a node, if the node is a heading. -/
def heading? (doc : Document) (id : Nat) : Option (Option String) :=
  match doc.kind? id with
  | some (.heading _ own) => some own
  | _ => none

/-- The identifier that the source gives to a node. -/
def ownId? (doc : Document) (id : Nat) : Option String := (heading? doc id).join

theorem heading?_eq_some {doc : Document} {id : Nat} {own : Option String} :
    heading? doc id = some own ↔ ∃ level, doc.kind? id = some (.heading level own) := by
  unfold heading?
  split
  · next level own' hkind => simp [hkind]
  · next hother => simpa using fun level => hother level own

theorem ownId?_eq {doc : Document} {id level : Nat} {own : Option String}
    (h : doc.kind? id = some (.heading level own)) : ownId? doc id = own := by
  rw [ownId?, heading?_eq_some.mpr ⟨level, h⟩, Option.join_some]

theorem writtenIds_eq (doc : Document) : writtenIds doc = doc.preorder.filterMap (ownId? doc) := by
  unfold writtenIds
  congr 1
  funext id
  unfold ownId?
  split
  · next hkind => rw [heading?_eq_some.mpr ⟨_, hkind⟩, Option.join_some]
  · next hother =>
    cases h : heading? doc id with
    | none => rfl
    | some own =>
      obtain ⟨level, hkind⟩ := heading?_eq_some.mp h
      exact absurd hkind (hother level own)

namespace HeadingRule

/-- The identifier made for a node while others are taken. -/
def made? (rule : HeadingRule) (doc : Document) (taken : List String) (id : Nat) : Option String :=
  if heading? doc id = some none then rule.identify taken (doc.textContent id) else none

/-- The identifier a node gets while others are taken. -/
def given? (rule : HeadingRule) (doc : Document) (taken : List String) (id : Nat) : Option String :=
  (ownId? doc id).or (rule.made? doc taken id)

/-- The pass after it has visited some nodes. -/
def passOver (rule : HeadingRule) (doc : Document) (nodes : List Nat) : Pass :=
  nodes.foldl (rule.visit doc) ⟨writtenIds doc, KeyedList.empty⟩

theorem identify_eq (rule : HeadingRule) (taken : List String) (text : String) :
    rule.identify taken text = if rule.slug.slug text = "" then none
      else some (if rule.distinct then firstFree taken (rule.slug.slug text)
        else rule.slug.slug text) := by
  simp only [identify, String.isEmpty_iff]

variable {rule : HeadingRule} {doc : Document} {taken : List String} {id : Nat}

theorem given?_of_ownId {own : String} (h : ownId? doc id = some own) :
    rule.given? doc taken id = some own := by
  rw [given?, h, Option.some_or]

theorem given?_of_ownId_none (h : ownId? doc id = none) :
    rule.given? doc taken id = rule.made? doc taken id := by
  rw [given?, h, Option.none_or]

/-- Which nodes are given an identifier does not depend on what is taken. -/
theorem isSome_given? : (rule.given? doc taken id).isSome ↔
    ∃ level own, doc.kind? id = some (.heading level own) ∧
      (own.isSome ∨ rule.slug.slug (doc.textContent id) ≠ "") := by
  rw [exists_comm]
  simp only [exists_and_right, ← heading?_eq_some]
  rw [given?, made?, ownId?]
  cases h : heading? doc id with
  | none => simp
  | some own =>
    cases own with
    | none => by_cases hslug : rule.slug.slug (doc.textContent id) = "" <;> simp [identify_eq, hslug]
    | some own => simp

/-- A visit takes what is made for the node and assigns what is given to it. -/
theorem visit_eq (pass : Pass) (id : Nat) :
    rule.visit doc pass id =
      ⟨(rule.made? doc pass.taken id).toList ++ pass.taken,
        ((rule.given? doc pass.taken id).map (pass.assigned.insert id)).getD pass.assigned⟩ := by
  unfold visit
  split
  · next level own hkind =>
    have h : heading? doc id = some (some own) := heading?_eq_some.mpr ⟨level, hkind⟩
    simp [given?, made?, ownId?, h]
  · next level hkind =>
    have h : heading? doc id = some none := heading?_eq_some.mpr ⟨level, hkind⟩
    simp only [given?, made?, ownId?, h, Option.join_some, Option.none_or, if_true]
    cases rule.identify pass.taken (doc.textContent id) <;> rfl
  · next hown hplain =>
    have h : heading? doc id = none := by
      cases h : heading? doc id with
      | none => rfl
      | some own =>
        obtain ⟨level, hkind⟩ := heading?_eq_some.mp h
        cases own with
        | none => exact absurd hkind (hplain level)
        | some own => exact absurd hkind (hown level own)
    simp [given?, made?, ownId?, h]

theorem find?_visit (pass : Pass) (id k : Nat) :
    (rule.visit doc pass id).assigned.find? k =
      if id = k then (rule.given? doc pass.taken id).or (pass.assigned.find? k)
      else pass.assigned.find? k := by
  rw [visit_eq]
  cases rule.given? doc pass.taken id with
  | none => simp
  | some given => simp [KeyedList.find?_insert]

/-- What is taken stays taken. -/
theorem taken_subset_foldl (nodes : List Nat) (pass : Pass) :
    pass.taken ⊆ (nodes.foldl (rule.visit doc) pass).taken := by
  induction nodes generalizing pass with
  | nil => exact List.Subset.refl _
  | cons id rest ih =>
    refine List.Subset.trans ?_ (ih _)
    rw [visit_eq]
    exact List.subset_append_right ..

theorem find?_foldl_of_notMem {nodes : List Nat} {k : Nat} (h : k ∉ nodes) (pass : Pass) :
    (nodes.foldl (rule.visit doc) pass).assigned.find? k = pass.assigned.find? k := by
  induction nodes generalizing pass with
  | nil => rfl
  | cons id rest ih =>
    obtain ⟨hne, hrest⟩ : k ≠ id ∧ k ∉ rest := by simpa using h
    rw [List.foldl_cons, ih hrest, find?_visit, if_neg (Ne.symm hne)]

theorem passOver_append (before after : List Nat) :
    rule.passOver doc (before ++ after) =
      after.foldl (rule.visit doc) (rule.passOver doc before) := by
  rw [passOver, List.foldl_append, passOver]

theorem writtenIds_subset_taken (nodes : List Nat) :
    writtenIds doc ⊆ (rule.passOver doc nodes).taken :=
  taken_subset_foldl nodes ⟨writtenIds doc, KeyedList.empty⟩

theorem passOver_preorder (rule : HeadingRule) (doc : Document) :
    (rule.passOver doc doc.preorder).assigned = assignHeadings rule doc := rfl

/-- A node is assigned what it is given when the pass comes to it. -/
theorem find?_assignHeadings {before after : List Nat} (h : doc.preorder = before ++ id :: after) :
    (assignHeadings rule doc).find? id = rule.given? doc (rule.passOver doc before).taken id := by
  have hdistinct := doc.nodup_preorder
  rw [h] at hdistinct
  obtain ⟨hbefore, hafter⟩ : id ∉ before ∧ id ∉ after := by
    simpa using (List.nodup_cons.mp (List.nodup_middle.mp hdistinct)).1
  rw [← passOver_preorder, h, passOver_append, List.foldl_cons, find?_foldl_of_notMem hafter,
    find?_visit, if_pos rfl, passOver, find?_foldl_of_notMem hbefore, KeyedList.find?_empty,
    Option.or_none]

theorem exists_split (inside : id < doc.size) :
    ∃ before after, doc.preorder = before ++ id :: after :=
  List.append_of_mem (Document.mem_preorder.mpr inside)

/-- What is not a node is assigned nothing. -/
theorem find?_assignHeadings_of_le (outside : doc.size ≤ id) :
    (assignHeadings rule doc).find? id = none := by
  have hnot : id ∉ doc.preorder := fun h => by
    have := Document.mem_preorder.mp h
    omega
  exact find?_foldl_of_notMem hnot ⟨writtenIds doc, KeyedList.empty⟩

theorem lt_size_of_find? {x : String} (h : (assignHeadings rule doc).find? id = some x) :
    id < doc.size := by
  by_contra hle
  rw [find?_assignHeadings_of_le (Nat.le_of_not_lt hle)] at h
  cases h

theorem find?_of_ownId {own : String} (h : ownId? doc id = some own) (inside : id < doc.size) :
    (assignHeadings rule doc).find? id = some own := by
  obtain ⟨before, after, hsplit⟩ := exists_split inside
  rw [find?_assignHeadings hsplit, given?_of_ownId h]

theorem mem_writtenIds {x : String} :
    x ∈ writtenIds doc ↔ ∃ id < doc.size, ownId? doc id = some x := by
  rw [writtenIds_eq, List.mem_filterMap]
  simp only [Document.mem_preorder]

/-- What is made is not taken when it is made. -/
theorem made?_notMem (hdistinct : rule.distinct = true) {made : String}
    (h : rule.made? doc taken id = some made) : made ∉ taken := by
  rw [made?, identify_eq, if_pos hdistinct] at h
  split at h
  · split at h
    · cases h
    · obtain rfl := Option.some.inj h
      exact (search_firstFree taken _).notMem
  · cases h

/-- What a node without an identifier of its own has been assigned is taken for the nodes after
it. -/
theorem mem_taken_of_mem {before after : List Nat} {made : String}
    (h : doc.preorder = before ++ after) (hid : id ∈ before) (hown : ownId? doc id = none)
    (hmade : (assignHeadings rule doc).find? id = some made) :
    made ∈ (rule.passOver doc before).taken := by
  obtain ⟨first, behind, rfl⟩ := List.append_of_mem hid
  rw [List.append_assoc, List.cons_append] at h
  rw [find?_assignHeadings h, given?_of_ownId_none hown] at hmade
  rw [passOver_append, List.foldl_cons]
  apply taken_subset_foldl
  rw [visit_eq, hmade]
  exact List.mem_cons_self ..

/-- No other node is assigned what is made for a node. -/
theorem eq_of_find? (hdistinct : rule.distinct = true) {other : Nat} {made : String}
    (hown : ownId? doc id = none) (hid : (assignHeadings rule doc).find? id = some made)
    (hother : (assignHeadings rule doc).find? other = some made) : other = id := by
  by_contra hne
  obtain ⟨before, after, hsplit⟩ := exists_split (lt_size_of_find? hid)
  have hmade := hid
  rw [find?_assignHeadings hsplit, given?_of_ownId_none hown] at hmade
  have hnew := made?_notMem hdistinct hmade
  cases hownOther : ownId? doc other with
  | some own =>
    -- an identifier from the source is taken from the start
    have hinside := lt_size_of_find? hother
    rw [find?_of_ownId hownOther hinside] at hother
    obtain rfl := Option.some.inj hother
    exact hnew (writtenIds_subset_taken before (mem_writtenIds.mpr ⟨other, hinside, hownOther⟩))
  | none =>
    have hmem : other ∈ before ++ id :: after :=
      hsplit ▸ Document.mem_preorder.mpr (lt_size_of_find? hother)
    rcases List.mem_append.mp hmem with hbefore | hafter
    · exact hnew (mem_taken_of_mem hsplit hbefore hownOther hother)
    · -- the other node comes later and steps around this one
      have hafter : other ∈ after := by simpa [hne] using hafter
      obtain ⟨between, behind, rfl⟩ := List.append_of_mem hafter
      have hlater : doc.preorder = (before ++ id :: between) ++ other :: behind := by
        rw [hsplit, List.append_assoc, List.cons_append]
      rw [find?_assignHeadings hlater, given?_of_ownId_none hownOther] at hother
      refine made?_notMem hdistinct hother (mem_taken_of_mem hlater ?_ hown hid)
      exact List.mem_append_right _ (List.mem_cons_self ..)

/-- Where the source gives no identifier twice, no two nodes are assigned the same. -/
theorem find?_injective (hdistinct : rule.distinct = true) (hown : (writtenIds doc).Nodup)
    {other : Nat} {x : String} (hid : (assignHeadings rule doc).find? id = some x)
    (hother : (assignHeadings rule doc).find? other = some x) : other = id := by
  have inside := lt_size_of_find? hid
  have hinside := lt_size_of_find? hother
  cases hownId : ownId? doc id with
  | none => exact eq_of_find? hdistinct hownId hid hother
  | some own =>
    cases hownOther : ownId? doc other with
    | none => exact (eq_of_find? hdistinct hownOther hother hid).symm
    | some own' =>
      rw [find?_of_ownId hownId inside] at hid
      rw [find?_of_ownId hownOther hinside] at hother
      rw [writtenIds_eq] at hown
      have hcount := List.nodup_iff_count_le_one.mp hown x
      exact (count_filterMap_le_one_iff doc.nodup_preorder).mp hcount other
        (Document.mem_preorder.mpr hinside) id (Document.mem_preorder.mpr inside)
        (hownOther.trans hother) (hownId.trans hid)

end HeadingRule

/-! ## What the generator assigns -/

/-- What an assignment to the nodes of a document has to be under a rule. -/
structure HeadingIds (rule : HeadingRule) (doc : Document) (ids : Assignment) : Prop where
  /-- Headings with an identifier of their own or with a slug are assigned one, and nothing else. -/
  assigned : ∀ id, (ids.find? id).isSome ↔ ∃ level own, doc.kind? id = some (.heading level own) ∧
    (own.isSome ∨ rule.slug.slug (doc.textContent id) ≠ "")
  kept : ∀ id level own, doc.kind? id = some (.heading level (some own)) →
    ids.find? id = some own
  distinct : rule.distinct = true → ∀ id level made other,
    doc.kind? id = some (.heading level none) → ids.find? id = some made → other ≠ id →
      ids.find? other ≠ some made
  /-- Wherever the pass has to find an identifier for a heading, the search for it ends. -/
  found : rule.distinct = true → ∀ before id after level,
    doc.preorder = before ++ id :: after → doc.kind? id = some (.heading level none) →
      rule.slug.slug (doc.textContent id) ≠ "" →
      ∃ made, Search (rule.passOver doc before).taken (rule.slug.slug (doc.textContent id)) 0 made ∧
        ids.find? id = some made

namespace HeadingRule

theorem headingIds (rule : HeadingRule) (doc : Document) :
    HeadingIds rule doc (assignHeadings rule doc) where
  assigned id := by
    by_cases inside : id < doc.size
    · obtain ⟨before, after, hsplit⟩ := exists_split inside
      rw [find?_assignHeadings hsplit, isSome_given?]
    · rw [find?_assignHeadings_of_le (Nat.le_of_not_lt inside)]
      constructor
      · exact fun h => by cases h
      · rintro ⟨level, own, hkind, _⟩
        exact absurd (Document.lt_size_of_kind? hkind) inside
  kept id level own h := by
    exact find?_of_ownId (ownId?_eq h) (Document.lt_size_of_kind? h)
  distinct hdistinct id level made other h hid hne hother := by
    exact hne (eq_of_find? hdistinct (ownId?_eq h) hid hother)
  found hdistinct before id after level hsplit h hslug := by
    refine ⟨_, search_firstFree _ _, ?_⟩
    rw [find?_assignHeadings hsplit, given?_of_ownId_none (ownId?_eq h), made?,
      if_pos (heading?_eq_some.mpr ⟨level, h⟩), identify_eq, if_neg hslug, if_pos hdistinct]

end HeadingRule

/-- Running a generator does not change its rule. -/
theorem HeadingGenerator.rule_foldl_run (g : HeadingGenerator) (docs : List Document) :
    (docs.foldl HeadingGenerator.run g).rule = g.rule := by
  induction docs generalizing g with
  | nil => rfl
  | cons doc rest ih => exact ih (g.run doc)

theorem HeadingGenerator.ids_run (view : OptionView) (docs : List Document) (doc : Document) :
    ((docs.foldl HeadingGenerator.run (.ofView view)).run doc).ids =
      assignHeadings (HeadingRule.ofView view) doc := by
  rw [HeadingGenerator.run, HeadingGenerator.rule_foldl_run]
  rfl

/-- Whatever documents a generator was run on before, the identifiers of a document's headings do
not collide. -/
theorem generator_ids_distinct (view : OptionView) (earlier : List Document) (doc : Document) :
    HeadingIds (HeadingRule.ofView view) doc
      ((earlier.foldl HeadingGenerator.run (.ofView view)).run doc).ids := by
  have hrule := HeadingGenerator.rule_foldl_run (.ofView view) earlier
  rw [HeadingGenerator.run, hrule]
  exact HeadingRule.headingIds _ doc

end DitaTopic.Identifier
