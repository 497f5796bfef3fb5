import DitaTopic.Proofs.Document.Additions
import DitaTopic.Proofs.Identifier.FirstFree

/-!
# Identifiers and additions

When nodes are added to a document behind its headings, the headings keep the identifiers they were
assigned. Identifiers that the source gives to new headings are taken from the start, so the search
for an old heading may find more taken than before; as none of them is one that was assigned, it
ends where it ended.
-/

namespace DitaTopic.Identifier

open DitaTopic.Options

variable {taken others : List String} {base : String}

/-- More that is taken does not change where a search ends, as long as that stays free. -/
theorem Search.more {n : Nat} {found : String} (h : Search taken base n found)
    (htaken : taken ⊆ others) (hfree : found ∉ others) : Search others base n found := by
  induction h with
  | free _ => exact .free hfree
  | next hn _ ih => exact .next (htaken hn) (ih hfree)

theorem Search.unique {n : Nat} {first second : String} (h : Search taken base n first)
    (h' : Search taken base n second) : first = second := by
  induction h with
  | free hfree =>
    cases h' with
    | free => rfl
    | next hn => exact absurd hn hfree
  | next hn _ ih =>
    cases h' with
    | free hfree => exact absurd hn hfree
    | next _ rest => exact ih rest

theorem firstFree_eq_of_subset (htaken : taken ⊆ others) (hfree : firstFree taken base ∉ others) :
    firstFree others base = firstFree taken base :=
  (search_firstFree others base).unique ((search_firstFree taken base).more htaken hfree)

/-- A document that came from another one by appending nodes behind its headings. -/
structure AppendedBehind (doc later : Document) (ids : Assignment) : Prop where
  appended : ∃ nodes, doc.appendAll nodes = .ok later
  /-- No new node is below a heading that was there before. -/
  outside : ∀ id level own, doc.kind? id = some (.heading level own) →
    ∀ n ∈ later.subtree id, n < doc.size
  /-- In the order of the document new headings come after those that were there before. -/
  behind : ∀ id level own, doc.kind? id = some (.heading level own) →
    ∀ new level' own', doc.size ≤ new → later.kind? new = some (.heading level' own') →
      later.preorder.idxOf id < later.preorder.idxOf new
  /-- The source gives new headings no identifier that was assigned before. -/
  unassigned : ∀ new level x, doc.size ≤ new → later.kind? new = some (.heading level (some x)) →
    ∀ id, ids.find? id ≠ some x

theorem AppendedBehind.extends {doc later : Document} {ids : Assignment}
    (h : AppendedBehind doc later ids) : doc.Extends later := by
  obtain ⟨nodes, hnodes⟩ := h.appended
  exact .of_appendAll hnodes

namespace HeadingRule

variable {rule : HeadingRule} {doc later : Document}

/-- Only headings are assigned an identifier. -/
theorem exists_heading {id : Nat} {x : String} (h : (assignHeadings rule doc).find? id = some x) :
    ∃ level own, doc.kind? id = some (.heading level own) := by
  obtain ⟨level, own, hkind, -⟩ := ((headingIds rule doc).assigned id).mp (by rw [h]; rfl)
  exact ⟨level, own, hkind⟩

theorem find?_of_no_heading {id : Nat}
    (h : ∀ level own, doc.kind? id ≠ some (.heading level own)) :
    (assignHeadings rule doc).find? id = none := by
  cases hfind : (assignHeadings rule doc).find? id with
  | none => rfl
  | some x =>
    obtain ⟨level, own, hkind⟩ := exists_heading hfind
    exact absurd hkind (h level own)

/-- A heading without an identifier of its own is assigned what is made of its text. -/
theorem find?_eq_identify {before after : List Nat} {id level : Nat}
    (h : doc.preorder = before ++ id :: after) (hkind : doc.kind? id = some (.heading level none)) :
    (assignHeadings rule doc).find? id =
      rule.identify (rule.passOver doc before).taken (doc.textContent id) := by
  rw [find?_assignHeadings h, given?_of_ownId_none (ownId?_eq hkind), made?,
    if_pos (heading?_eq_some.mpr ⟨level, hkind⟩)]

section Visit

variable {before after : List Nat} {id level : Nat} {own : Option String}

/-- A heading that was there before is met behind the same nodes and new ones that are assigned
nothing. -/
theorem find?_of_new (h : AppendedBehind doc later (assignHeadings rule doc))
    (hsplit : later.preorder = before ++ id :: after)
    (hkind : doc.kind? id = some (.heading level own)) {other : Nat} (hother : other ∈ before)
    (hnew : doc.size ≤ other) : (assignHeadings rule later).find? other = none := by
  apply find?_of_no_heading
  intro level' own' hkind'
  have hlt := h.behind id level own hkind other level' own' hnew hkind'
  have hnodup := later.nodup_preorder
  rw [hsplit] at hlt hnodup
  have hid : id ∉ before := fun hmem =>
    List.disjoint_of_nodup_append hnodup hmem (List.mem_cons_self ..)
  have hbefore := List.idxOf_lt_length_of_mem hother
  rw [List.idxOf_append_of_notMem hid, List.idxOf_append_of_mem hother] at hlt
  omega

variable (h : AppendedBehind doc later (assignHeadings rule doc))
  (hsplit : later.preorder = before ++ id :: after)
  (hkind : doc.kind? id = some (.heading level own))
  (hbefore : ∀ other ∈ before, other < doc.size →
    (assignHeadings rule later).find? other = (assignHeadings rule doc).find? other)

include h hsplit in
theorem preorder_split (hid : id < doc.size) : doc.preorder =
    before.filter (· < doc.size) ++ id :: after.filter (· < doc.size) := by
  rw [← h.extends.filter_preorder, hsplit, List.filter_append, List.filter_cons,
    if_pos (decide_eq_true hid)]

include h hsplit hkind hbefore

/-- What was taken for a heading is taken for it still. -/
theorem taken_subset : (rule.passOver doc (before.filter (· < doc.size))).taken ⊆
    (rule.passOver later before).taken := by
  have hid := Document.lt_size_of_kind? hkind
  intro x hx
  rcases (mem_taken_iff (preorder_split h hsplit hid)).mp hx with hwritten | ⟨other, hother, hx⟩
  · obtain ⟨other, level', hkind'⟩ := mem_writtenIds_iff.mp hwritten
    have hother := Document.lt_size_of_kind? hkind'
    apply (mem_taken_iff hsplit).mpr
    exact .inl (mem_writtenIds_iff.mpr ⟨other, level', (h.extends.kind other hother).trans hkind'⟩)
  · obtain ⟨hmem, hlt⟩ := List.mem_filter.mp hother
    apply (mem_taken_iff hsplit).mpr
    exact .inr ⟨other, hmem, (hbefore other hmem (of_decide_eq_true hlt)).trans hx⟩

/-- What was assigned and not taken for a heading is not taken for it now. -/
theorem notMem_taken {x : String}
    (hassigned : ∃ other, (assignHeadings rule doc).find? other = some x)
    (hfree : x ∉ (rule.passOver doc (before.filter (· < doc.size))).taken) :
    x ∉ (rule.passOver later before).taken := by
  have hid := Document.lt_size_of_kind? hkind
  obtain ⟨holder, hholder⟩ := hassigned
  intro hx
  apply hfree
  apply (mem_taken_iff (preorder_split h hsplit hid)).mpr
  rcases (mem_taken_iff hsplit).mp hx with hwritten | ⟨other, hother, hx⟩
  · obtain ⟨other, level', hkind'⟩ := mem_writtenIds_iff.mp hwritten
    by_cases hold : other < doc.size
    · exact .inl (mem_writtenIds_iff.mpr
        ⟨other, level', (h.extends.kind other hold).symm.trans hkind'⟩)
    · exact absurd hholder
        (h.unassigned other level' x (Nat.le_of_not_lt hold) hkind' holder)
  · by_cases hold : other < doc.size
    · exact .inr ⟨other, List.mem_filter.mpr ⟨hother, decide_eq_true hold⟩,
        (hbefore other hother hold).symm.trans hx⟩
    · rw [find?_of_new h hsplit hkind hother (Nat.le_of_not_lt hold)] at hx
      cases hx

/-- A heading that was there before keeps its identifier if those before it keep theirs. -/
theorem find?_heading :
    (assignHeadings rule later).find? id = (assignHeadings rule doc).find? id := by
  have hid := Document.lt_size_of_kind? hkind
  have hkind' : later.kind? id = some (.heading level own) := (h.extends.kind id hid).trans hkind
  cases own with
  | some own =>
    rw [find?_of_ownId (ownId?_eq hkind) hid,
      find?_of_ownId (ownId?_eq hkind') (Document.lt_size_of_kind? hkind')]
  | none =>
    have hdoc := preorder_split h hsplit hid
    have htext := h.extends.textContent_eq (h.outside id level none hkind)
    have hfind : (assignHeadings rule doc).find? id = _ := find?_eq_identify hdoc hkind
    rw [find?_eq_identify hsplit hkind', htext, hfind]
    rw [identify_eq] at hfind ⊢
    rw [identify_eq]
    by_cases hslug : rule.slug.slug (doc.textContent id) = ""
    · rw [if_pos hslug, if_pos hslug]
    · cases hdistinct : rule.distinct with
      | false => rfl
      | true =>
        rw [if_neg hslug, if_pos hdistinct] at hfind
        have hfree := (search_firstFree (rule.passOver doc (before.filter (· < doc.size))).taken
          (rule.slug.slug (doc.textContent id))).notMem
        have hfree' := notMem_taken h hsplit hkind hbefore ⟨id, hfind⟩ hfree
        rw [if_neg hslug, if_neg hslug, if_pos rfl, if_pos rfl,
          firstFree_eq_of_subset (taken_subset h hsplit hkind hbefore) hfree']

end Visit

/-- Up to any place of the pass the nodes that were there before are assigned what they were. -/
theorem find?_eq_of_before (h : AppendedBehind doc later (assignHeadings rule doc))
    {before after : List Nat} (hsplit : later.preorder = before ++ after) :
    ∀ id ∈ before, id < doc.size →
      (assignHeadings rule later).find? id = (assignHeadings rule doc).find? id := by
  induction before using List.reverseRecOn generalizing after with
  | nil => exact fun id hid => absurd hid List.not_mem_nil
  | append_singleton before last ih =>
    rw [List.append_assoc, List.singleton_append] at hsplit
    intro id hmem hid
    rcases List.mem_append.mp hmem with hmem | hmem
    · exact ih hsplit id hmem hid
    · obtain rfl := List.mem_singleton.mp hmem
      by_cases hheading : ∃ level own, doc.kind? id = some (.heading level own)
      · obtain ⟨level, own, hkind⟩ := hheading
        exact find?_heading h hsplit hkind (ih hsplit)
      · have hdoc (level : Nat) (own : Option String) :
            doc.kind? id ≠ some (.heading level own) :=
          fun hkind => hheading ⟨level, own, hkind⟩
        rw [find?_of_no_heading hdoc, find?_of_no_heading]
        rwa [h.extends.kind id hid]

end HeadingRule

/-- Whatever documents a generator was run on before, the headings of a document are assigned the
same identifiers, or none, when nodes have been appended behind them. -/
theorem headings_keep_identifiers (view : OptionView) (earlier earlier' : List Document)
    (doc later : Document)
    (h : AppendedBehind doc later ((earlier.foldl HeadingGenerator.run (.ofView view)).run doc).ids)
    {id level : Nat} {own : Option String} (hkind : doc.kind? id = some (.heading level own)) :
    ((earlier'.foldl HeadingGenerator.run (.ofView view)).run later).ids.find? id =
      ((earlier.foldl HeadingGenerator.run (.ofView view)).run doc).ids.find? id := by
  rw [HeadingGenerator.ids_run] at h ⊢
  rw [HeadingGenerator.ids_run]
  have hid := Document.lt_size_of_kind? hkind
  have hmem := Document.mem_preorder.mpr (Nat.lt_of_lt_of_le hid h.extends.size)
  exact HeadingRule.find?_eq_of_before h (List.append_nil _).symm id hmem hid

/-- Two headings with the text `A`. -/
def chapters : Document :=
  Document.ofEvents
    [.start (.heading 1 none), .text "A", .close false,
      .start (.heading 1 none), .text "A", .close false]

/-- A heading with an identifier of its own and one more with the text `A`. -/
def appendix : List (Nat × Document.NodeKind) :=
  [(0, .heading 1 (some "a-2")), (5, .text "B"), (0, .heading 1 none), (7, .text "A")]

def bound : Document := appendix.foldl (fun doc node => doc.attach node.1 node.2) chapters

theorem appendedBehind_bound : AppendedBehind chapters bound
    ((HeadingGenerator.ofView (.ofSet KeyedList.empty)).run chapters).ids where
  appended := ⟨appendix, by rfl⟩
  outside id level own hkind := by
    have hall : ∀ id < 5, heading? chapters id ≠ none →
        ∀ n ∈ bound.subtree id, n < chapters.size := by decide +kernel
    have hheading := heading?_eq_some.mpr ⟨level, hkind⟩
    exact hall id (Document.lt_size_of_kind? hkind) (by rw [hheading]; exact nofun)
  behind id level own hkind new level' own' hnew hkind' := by
    have hall : ∀ id < 5, ∀ new < 9, 5 ≤ new ∧ heading? bound new ≠ none →
        bound.preorder.idxOf id < bound.preorder.idxOf new := by decide +kernel
    have hheading := heading?_eq_some.mpr ⟨level', hkind'⟩
    exact hall id (Document.lt_size_of_kind? hkind) new (Document.lt_size_of_kind? hkind')
      ⟨hnew, by rw [hheading]; exact nofun⟩
  unassigned new level x hnew hkind id hid := by
    have hall : ∀ new < 9, 5 ≤ new → ∀ id < 5, ownId? bound new ≠ none →
        ((HeadingGenerator.ofView (.ofSet KeyedList.empty)).run chapters).ids.find? id ≠
          ownId? bound new := by decide +kernel
    have hown := ownId?_eq hkind
    have hinside : id < 5 := HeadingRule.lt_size_of_find? hid
    refine hall new (Document.lt_size_of_kind? hkind) hnew id hinside ?_ (hid.trans hown.symm)
    rw [hown]
    exact nofun

/-- The identifier that the first new heading has of its own is taken from the start, and the second
chapter keeps the one before it. -/
theorem headings_keep_identifiers_bound :
    AppendedBehind chapters bound
        ((HeadingGenerator.ofView (.ofSet KeyedList.empty)).run chapters).ids ∧
      chapters.kind? 3 = some (.heading 1 none) ∧
      ((HeadingGenerator.ofView (.ofSet KeyedList.empty)).run bound).ids.find? 3 = some "a-1" := by
  have hkind : chapters.kind? 3 = some (.heading 1 none) := by decide +kernel
  have hids : ((HeadingGenerator.ofView (.ofSet KeyedList.empty)).run chapters).ids.find? 3 =
      some "a-1" := by decide +kernel
  have hkept := headings_keep_identifiers (.ofSet KeyedList.empty) [] [] chapters bound
    appendedBehind_bound hkind
  exact ⟨appendedBehind_bound, hkind, hkept.trans hids⟩

end DitaTopic.Identifier
