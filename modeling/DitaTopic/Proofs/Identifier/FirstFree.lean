import Mathlib.Data.List.Induction
import DitaTopic.Document.Event
import DitaTopic.Proofs.Identifier.Distinct

/-!
# The first free candidate

A heading without an identifier of its own is assigned the first candidate for its slug that is
free. What is free is said without the pass over the document: the source gives it to no heading,
and it has been assigned to none before. The pass keeps to this because what is taken when it comes
to a node is what the source gives together with what the nodes before have been assigned.
-/

namespace DitaTopic.Identifier

open DitaTopic.Options

/-- A search ends with the first candidate from its number on that is not taken. -/
theorem Search.first {taken : List String} {base found : String} {n : Nat}
    (h : Search taken base n found) :
    ∃ m, n ≤ m ∧ found = candidate base m ∧ candidate base m ∉ taken ∧
      ∀ k, n ≤ k → k < m → candidate base k ∈ taken := by
  induction h with
  | @free n hfree => exact ⟨n, Nat.le_refl n, rfl, hfree, fun k hle hlt => by omega⟩
  | @next n found htaken _ ih =>
    obtain ⟨m, hm, hfound, hfree, hbelow⟩ := ih
    refine ⟨m, by omega, hfound, hfree, fun k hle hlt => ?_⟩
    rcases Nat.eq_or_lt_of_le hle with rfl | hn
    · exact htaken
    · exact hbelow k hn hlt

/-- An identifier that the source of a document gives to no heading and that none of the nodes
before has been assigned. -/
structure Free (doc : Document) (ids : Assignment) (before : List Nat) (x : String) : Prop where
  unwritten : ∀ other level, doc.kind? other ≠ some (.heading level (some x))
  unassigned : ∀ other ∈ before, ids.find? other ≠ some x

theorem ownId?_eq_some {doc : Document} {id : Nat} {x : String} :
    ownId? doc id = some x ↔ ∃ level, doc.kind? id = some (.heading level (some x)) := by
  rw [ownId?, Option.join_eq_some_iff, heading?_eq_some]

namespace HeadingRule

variable {rule : HeadingRule} {doc : Document} {before after : List Nat} {x : String}

theorem mem_writtenIds_iff :
    x ∈ writtenIds doc ↔ ∃ other level, doc.kind? other = some (.heading level (some x)) := by
  rw [mem_writtenIds]
  constructor
  · rintro ⟨other, -, hown⟩
    exact ⟨other, ownId?_eq_some.mp hown⟩
  · rintro ⟨other, level, hkind⟩
    exact ⟨other, Document.lt_size_of_kind? hkind, ownId?_eq_some.mpr ⟨level, hkind⟩⟩

/-- What is made for a node is made where the source gives it nothing. -/
theorem ownId?_of_made? {taken : List String} {id : Nat} (h : rule.made? doc taken id = some x) :
    ownId? doc id = none := by
  rw [made?] at h
  split at h
  · next hheading => rw [ownId?, hheading, Option.join_some]
  · cases h

theorem taken_concat (id : Nat) :
    (rule.passOver doc (before ++ [id])).taken =
      (rule.made? doc (rule.passOver doc before).taken id).toList ++
        (rule.passOver doc before).taken := by
  rw [passOver_append, List.foldl_cons, List.foldl_nil, visit_eq]

/-- When the pass comes behind some nodes, what the source gives is taken and what these nodes have
been assigned, and nothing else. -/
theorem mem_taken_iff (h : doc.preorder = before ++ after) :
    x ∈ (rule.passOver doc before).taken ↔
      x ∈ writtenIds doc ∨ ∃ other ∈ before, (assignHeadings rule doc).find? other = some x := by
  constructor
  · intro hx
    induction before using List.reverseRecOn generalizing after with
    | nil => exact .inl hx
    | append_singleton before id ih =>
      rw [List.append_assoc, List.singleton_append] at h
      rw [taken_concat, List.mem_append, Option.mem_toList] at hx
      rcases hx with hmade | htaken
      · have hid : (assignHeadings rule doc).find? id = some x := by
          rw [find?_assignHeadings h, given?_of_ownId_none (ownId?_of_made? hmade), hmade]
        exact .inr ⟨id, List.mem_append_right _ (List.mem_singleton_self id), hid⟩
      · refine (ih h htaken).imp_right ?_
        rintro ⟨other, hother, hassigned⟩
        exact ⟨other, List.mem_append_left _ hother, hassigned⟩
  · rintro (hwritten | ⟨other, hother, hassigned⟩)
    · exact writtenIds_subset_taken before hwritten
    · cases hown : ownId? doc other with
      | none => exact mem_taken_of_mem h hother hown hassigned
      | some own =>
        have inside := lt_size_of_find? hassigned
        rw [find?_of_ownId hown inside] at hassigned
        obtain rfl := Option.some.inj hassigned
        exact writtenIds_subset_taken before (mem_writtenIds.mpr ⟨other, inside, hown⟩)

/-- What is not taken when the pass comes to a node is what is free there. -/
theorem notMem_taken_iff (h : doc.preorder = before ++ after) :
    x ∉ (rule.passOver doc before).taken ↔ Free doc (assignHeadings rule doc) before x := by
  rw [mem_taken_iff h, mem_writtenIds_iff]
  constructor
  · intro hnot
    exact ⟨fun other level hkind => hnot (.inl ⟨other, level, hkind⟩),
      fun other hother hassigned => hnot (.inr ⟨other, hother, hassigned⟩)⟩
  · rintro ⟨hunwritten, hunassigned⟩ (⟨other, level, hkind⟩ | ⟨other, hother, hassigned⟩)
    · exact hunwritten other level hkind
    · exact hunassigned other hother hassigned

/-- What the pass assigns to a heading that has a slug and no identifier of its own. -/
theorem find?_of_slug {id level : Nat} (h : doc.preorder = before ++ id :: after)
    (hkind : doc.kind? id = some (.heading level none))
    (hslug : rule.slug.slug (doc.textContent id) ≠ "") :
    (assignHeadings rule doc).find? id =
      some (if rule.distinct
        then firstFree (rule.passOver doc before).taken (rule.slug.slug (doc.textContent id))
        else rule.slug.slug (doc.textContent id)) := by
  rw [find?_assignHeadings h, given?_of_ownId_none (ownId?_eq hkind), made?,
    if_pos (heading?_eq_some.mpr ⟨level, hkind⟩), identify_eq, if_neg hslug]

end HeadingRule

/-- Whatever documents a generator was run on before, a heading that has a slug and no identifier of
its own is assigned the first of the slug, the slug with `-1`, with `-2` and so on that is free; where
identifiers need not be distinct it is assigned the slug. -/
theorem first_free_assigned (view : OptionView) (earlier : List Document) (doc : Document)
    {before after : List Nat} {id level : Nat} (hsplit : doc.preorder = before ++ id :: after)
    (hkind : doc.kind? id = some (.heading level none))
    (hslug : (HeadingRule.ofView view).slug.slug (doc.textContent id) ≠ "") :
    let ids := ((earlier.foldl HeadingGenerator.run (.ofView view)).run doc).ids
    let base := (HeadingRule.ofView view).slug.slug (doc.textContent id)
    (Key.headerIdResolveDupes.resolve view = true →
      ∃ n, ids.find? id = some (candidate base n) ∧ Free doc ids before (candidate base n) ∧
        ∀ m < n, ¬ Free doc ids before (candidate base m)) ∧
    (Key.headerIdResolveDupes.resolve view = false → ids.find? id = some base) := by
  have hrule : (HeadingRule.ofView view).distinct = Key.headerIdResolveDupes.resolve view := rfl
  have hassigned := HeadingRule.find?_of_slug hsplit hkind hslug
  rw [hrule] at hassigned
  have hfree {x : String} := @HeadingRule.notMem_taken_iff (.ofView view) doc before _ x hsplit
  intro ids base
  have hids : ids = assignHeadings (HeadingRule.ofView view) doc := by
    show assignHeadings (earlier.foldl HeadingGenerator.run (.ofView view)).rule doc = _
    rw [HeadingGenerator.rule_foldl_run]
    rfl
  rw [hids]
  constructor
  · intro hdistinct
    rw [if_pos hdistinct] at hassigned
    obtain ⟨n, -, hfound, hnot, hbelow⟩ := (search_firstFree
      ((HeadingRule.ofView view).passOver doc before).taken base).first
    refine ⟨n, hassigned.trans (congrArg some hfound), hfree.mp hnot, fun m hm hm' => ?_⟩
    exact hfree.mpr hm' (hbelow m (Nat.zero_le m) hm)
  · intro hrepeat
    rwa [hrepeat, if_neg Bool.false_ne_true] at hassigned

/-- Three headings with the text `A`; the last one has the first numbered candidate of its own. -/
def sameTexts : Document :=
  Document.ofEvents
    [.start (.heading 1 none), .text "A", .close false,
      .start (.heading 1 none), .text "A", .close false,
      .start (.heading 1 (some "a-1")), .text "A", .close false]

/-- The slug goes to the first heading, and the second steps around both that and the identifier
that the source gives to the third. -/
theorem first_free_assigned_sameTexts :
    let ids := ((HeadingGenerator.ofView (.ofSet KeyedList.empty)).run sameTexts).ids
    sameTexts.preorder = [0, 1, 2] ++ 3 :: [4, 5, 6] ∧
      sameTexts.kind? 3 = some (.heading 1 none) ∧
      (HeadingRule.ofView (.ofSet KeyedList.empty)).slug.slug (sameTexts.textContent 3) ≠ "" ∧
      ids.find? 3 = some (candidate "a" 2) ∧ Free sameTexts ids [0, 1, 2] (candidate "a" 2) ∧
        ∀ m < 2, ¬ Free sameTexts ids [0, 1, 2] (candidate "a" m) := by
  have hsplit : sameTexts.preorder = [0, 1, 2] ++ 3 :: [4, 5, 6] := by decide +kernel
  have hkind : sameTexts.kind? 3 = some (.heading 1 none) := by decide +kernel
  have hbase : (HeadingRule.ofView (.ofSet KeyedList.empty)).slug.slug
      (sameTexts.textContent 3) = "a" := by decide +kernel
  have hslug : (HeadingRule.ofView (.ofSet KeyedList.empty)).slug.slug
      (sameTexts.textContent 3) ≠ "" := by
    rw [hbase]
    decide
  have hassigned : ((HeadingGenerator.ofView (.ofSet KeyedList.empty)).run sameTexts).ids.find? 3 =
      some (candidate "a" 2) := by decide +kernel
  obtain ⟨n, hn, hfree, hbelow⟩ :=
    (first_free_assigned (.ofSet KeyedList.empty) [] sameTexts hsplit hkind hslug).1 (by decide)
  rw [hbase] at hn hfree hbelow
  obtain rfl : n = 2 := candidate_injective "a" (Option.some.inj (hn.symm.trans hassigned))
  exact ⟨hsplit, hkind, hslug, hassigned, hfree, hbelow⟩

end DitaTopic.Identifier
