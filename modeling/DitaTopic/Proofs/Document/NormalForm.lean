import DitaTopic.Proofs.Document.DepthFirst

/-!
# The normal form of what is read

The document of a stream of events is in normal form, also where ends are missing, stray or of
another node than the innermost one, and whatever stands in blocks of code or HTML. The invariant
is about the last child of a node only, since nothing is added anywhere else.
-/

namespace DitaTopic.Document

namespace NodeType

/-- Whether a node of the type stands for a single event and has nothing below it. -/
def isAtomic : NodeType → Bool
  | text => true
  | code => true
  | inlineHtml => true
  | softBreak => true
  | hardBreak => true
  | thematicBreak => true
  | _ => false

/-- Whether a node of the type holds the text in it itself. -/
def isLiteral : NodeType → Bool
  | codeBlock => true
  | htmlBlock => true
  | _ => false

end NodeType

theorem NodeKind.isAtomic_type (kind : NodeKind) :
    kind.type.isAtomic = (kind.isLeaf && !kind.isLiteral) := by
  cases kind <;> rfl

theorem NodeKind.isLiteral_type (kind : NodeKind) : kind.type.isLiteral = kind.isLiteral := by
  cases kind <;> rfl

/-- The documents that reading events gives. -/
structure NormalForm (doc : Document) : Prop where
  /-- A walk down from the root meets the nodes in the order of their numbers. -/
  inOrder : Gives doc.arena.nextBelow #[rootId] (List.range doc.size)
  onlyRoot : ∀ id, doc.type? id = some .document ↔ id = rootId
  textsApart : ∀ id, (doc.children id).IsChain fun c d =>
    ¬(doc.type? c = some .text ∧ doc.type? d = some .text)
  noTextInBlocks : ∀ id, doc.type? id = some .codeBlock ∨ doc.type? id = some .htmlBlock →
    ∀ c ∈ doc.children id, doc.type? c ≠ some .text
  childless : ∀ id type, doc.type? id = some type → type.isAtomic = true → doc.children id = []

/-- Not both nodes are texts. -/
def Apart (first second : Option NodeType) : Prop := ¬(first = some .text ∧ second = some .text)

/-- Every node is of a type that may stand where it stands. -/
structure Arranged (doc : Document) : Prop where
  onlyRoot : ∀ id, doc.type? id = some .document → id = rootId
  apart : ∀ id, ((doc.children id).map doc.type?).IsChain Apart
  below : ∀ c p, doc.arena.parent? c = some p → (doc.type? p).any NodeType.isAtomic = false ∧
    ((doc.type? p).any NodeType.isLiteral = true → doc.type? c ≠ some .text)

section Changes

variable {doc : Document} {parent : Nat} {kind : NodeKind}

theorem type?_attach (inside : parent < doc.size) (kind : NodeKind) (id : Nat) :
    (doc.attach parent kind).type? id = if id = doc.size then some kind.type else doc.type? id := by
  rw [type?, kind?_attach inside]
  split <;> rfl

theorem type?_extendText (doc : Document) (id c : Nat) (more : String) :
    (doc.extendText id more).type? c = doc.type? c := by
  have htype : NodeKind.type ∘ NodeKind.extend more = NodeKind.type :=
    funext fun kind => kind.type_extend more
  rw [type?, kind?_extendText]
  split
  · exact (Option.map_map ..).trans (by rw [htype, type?])
  · rfl

theorem exists_text (h : doc.type? parent = some .text) :
    ∃ content, doc.kind? parent = some (.text content) := by
  obtain ⟨kind, hkind, htype⟩ := Option.map_eq_some_iff.mp h
  cases kind with
  | text content => exact ⟨content, hkind⟩
  | _ => cases htype

theorem addText_of_endsInText (hliteral : (doc.kind? parent).any NodeKind.isLiteral = false)
    (inside : parent < doc.size) {last : Nat} {content : String}
    (hlast : (doc.children parent).getLast? = some last)
    (hcontent : doc.kind? last = some (.text content)) (text : String) :
    doc.addText parent text = doc.extendText last text := by
  rw [addText_of_not_literal hliteral inside, hlast]
  simp only [hcontent]

namespace Arranged

theorem empty : Document.empty.Arranged where
  onlyRoot id h := by
    cases id with
    | zero => rfl
    | succ id => cases h
  apart id := by
    have hchildren : Document.empty.children id = [] := by
      cases id with
      | zero => rfl
      | succ id => exact children_of_size_le (Nat.le_add_left 1 id)
    rw [hchildren]
    exact .nil
  below c p hp := by cases c <;> cases hp

/-- A node may be added below one that is not atomic; a text only outside of literal blocks and
not behind another text. -/
theorem attach (h : doc.Arranged) (hparent : doc.kind? parent = some kind)
    (hatomic : kind.type.isAtomic = false) {added : NodeKind} (hdocument : added.type ≠ .document)
    (htext : added.type = .text → kind.isLiteral = false ∧ ¬ doc.EndsInText parent) :
    (doc.attach parent added).Arranged where
  onlyRoot id hid := by
    rw [type?_attach (lt_size_of_kind? hparent)] at hid
    split at hid
    · exact absurd (Option.some.inj hid) hdocument
    · exact h.onlyRoot id hid
  apart id := by
    have inside := lt_size_of_kind? hparent
    have hold : (doc.children id).map (doc.attach parent added).type? =
        (doc.children id).map doc.type? := by
      apply List.map_congr_left
      intro c hc
      have hlt : c < doc.size := (Arena.mem_children hc).2
      rw [type?_attach inside, if_neg (Nat.ne_of_lt hlt)]
    rw [children_attach inside, List.map_append, hold]
    split
    · next hid =>
      subst hid
      rw [List.map_singleton, type?_attach inside, if_pos rfl]
      refine (h.apart id).append (.singleton _) ?_
      rintro first hfirst second hsecond ⟨rfl, rfl⟩
      have hadded : added.type = .text := Option.some.inj (Option.some.inj hsecond)
      rw [Option.mem_def, List.getLast?_map, Option.map_eq_some_iff] at hfirst
      obtain ⟨last, hlast, hlastText⟩ := hfirst
      obtain ⟨content, hcontent⟩ := exists_text hlastText
      exact (htext hadded).2 ⟨last, content, hlast, hcontent⟩
    · rw [List.map_nil, List.append_nil]
      exact h.apart id
  below c p hp := by
    have inside := lt_size_of_kind? hparent
    have hparentType : doc.type? parent = some kind.type := by rw [type?, hparent, Option.map_some]
    rw [parent?_attach inside] at hp
    rw [type?_attach inside, type?_attach inside]
    split at hp
    · next hnew =>
      obtain rfl := Option.some.inj hp
      rw [if_neg (Nat.ne_of_lt inside), if_pos hnew, hparentType, Option.any_some, Option.any_some,
        kind.isLiteral_type]
      refine ⟨hatomic, fun hliteral hadded => ?_⟩
      have hnot := (htext (Option.some.inj hadded)).1
      rw [hliteral] at hnot
      cases hnot
    · have hlt : c < doc.size := Arena.lt_size_of_parent? hp
      have hpc := doc.built.linked.parent_lt hp
      rw [if_neg (by omega), if_neg (by omega)]
      exact h.below c p hp

theorem extendText (h : doc.Arranged) (id : Nat) (more : String) :
    (doc.extendText id more).Arranged where
  onlyRoot c hc := h.onlyRoot c ((type?_extendText ..).symm.trans hc)
  apart c := by
    rw [children_extendText, funext fun n => type?_extendText doc id n more]
    exact h.apart c
  below c p hp := by
    rw [type?_extendText, type?_extendText]
    exact h.below c p ((Arena.parent?_extend ..).symm.trans hp)

/-- Text becomes a node only where it may. -/
theorem addText (h : doc.Arranged) (hparent : doc.kind? parent = some kind)
    (hatomic : kind.type.isAtomic = false) (text : String) :
    (doc.addText parent text).Arranged := by
  cases hliteral : kind.isLiteral with
  | true =>
    rw [addText_of_literal hparent hliteral]
    exact h.extendText parent text
  | false =>
    have inside := lt_size_of_kind? hparent
    have hnot : (doc.kind? parent).any NodeKind.isLiteral = false := by rw [hparent]; exact hliteral
    by_cases hlast : doc.EndsInText parent
    · obtain ⟨last, content, hlast, hcontent⟩ := hlast
      rw [addText_of_endsInText hnot inside hlast hcontent]
      exact h.extendText last text
    · rw [addText_of_not_endsInText hnot inside hlast]
      exact h.attach hparent hatomic (by nofun) fun _ => ⟨hliteral, hlast⟩

end Arranged

end Changes

/-- Of the nodes that events add none is a document node, and texts are added as such only. -/
theorem MarkdownEvent.type_of_kind? {event : MarkdownEvent} {kind : NodeKind}
    (h : event.kind? = some kind) : kind.type ≠ .document ∧ kind.type ≠ .text := by
  cases event with
  | start tag => cases tag <;> cases h <;> exact ⟨nofun, nofun⟩
  | text | html | close => cases h
  | _ => cases h; exact ⟨nofun, nofun⟩

namespace Outline

variable {o : Outline} {tags : List Tag}

theorem Follows.arranged_take (h : o.Follows tags) (harranged : o.doc.Arranged)
    (event : MarkdownEvent) : (o.take event).doc.Arranged := by
  obtain ⟨kind, hkind, hleaf, hliteral⟩ := h.innermost
  have hatomic : kind.type.isAtomic = false := by
    rw [kind.isAtomic_type, hleaf, hliteral, Bool.and_not_self]
  cases hadded : event.kind? with
  | some added =>
    obtain ⟨hdocument, htext⟩ := MarkdownEvent.type_of_kind? hadded
    rw [o.doc_take_of_kind? hadded]
    exact harranged.attach hkind hatomic hdocument fun hadded => absurd hadded htext
  | none =>
    rcases o.doc_take_of_none hadded with hdoc | ⟨text, hdoc⟩
    · rwa [hdoc]
    · rw [hdoc]
      exact harranged.addText hkind hatomic text

theorem Follows.arranged_foldl (h : o.Follows tags) (harranged : o.doc.Arranged)
    (events : List MarkdownEvent) : (events.foldl Outline.take o).doc.Arranged := by
  induction events generalizing o tags with
  | nil => exact harranged
  | cons event rest ih => exact ih (h.take event) (h.arranged_take harranged event)

end Outline

theorem arranged_ofEvents (events : List MarkdownEvent) : (ofEvents events).Arranged := by
  rw [ofEvents_eq]
  exact Outline.follows_empty.arranged_foldl .empty _

theorem Arranged.normalForm {doc : Document} (h : doc.Arranged) (hdepth : doc.arena.DepthFirst) :
    doc.NormalForm where
  inOrder := hdepth.gives_range doc.built
  onlyRoot id := by
    refine ⟨h.onlyRoot id, ?_⟩
    rintro rfl
    have hroot : doc.kind? rootId = some .document := doc.built.kind?_root
    rw [type?, hroot]
    rfl
  textsApart id := (List.isChain_map doc.type?).mp (h.apart id)
  noTextInBlocks id hid c hc := by
    apply (h.below c id (doc.built.parent?_of_mem_children hc)).2
    rcases hid with hid | hid <;> rw [hid] <;> rfl
  childless id type hid hatomic := by
    apply List.eq_nil_iff_forall_not_mem.mpr
    intro c hc
    have hbelow := (h.below c id (doc.built.parent?_of_mem_children hc)).1
    rw [hid, Option.any_some, hatomic] at hbelow
    cases hbelow

/-- The document of any stream of events is in normal form. -/
theorem normalForm_ofEvents (events : List MarkdownEvent) : (ofEvents events).NormalForm :=
  (arranged_ofEvents events).normalForm (depthFirst_ofEvents events)

end DitaTopic.Document
