import Mathlib.Data.List.Forall2
import DitaTopic.Document.Event
import DitaTopic.Proofs.Document.Tree

/-!
# Documents of event streams

What a stream of markdown events leaves in its document, whether or not the stream is well nested.
`Outline.Follows` ties the open nodes to the tags that opened them, and every event preserves it.
From it follow the two results: where code and HTML blocks hold nothing but text no leaf has
children, and the custom nodes of a document are those of the events outside of metadata blocks.
Nothing is said about the order of the nodes.
-/

namespace DitaTopic.Document

/-- Whether a tag opens a code block or an HTML block. -/
def Tag.isLiteral : Tag → Bool
  | codeBlock _ => true
  | htmlBlock => true
  | _ => false

namespace MarkdownEvent

/-- Whether an event is a text or an HTML text, or ends a node. -/
def isPlain : MarkdownEvent → Bool
  | text _ => true
  | html _ => true
  | close _ => true
  | _ => false

/-- The kind of the node that an event adds; texts may go to a node that is there already. -/
def kind? : MarkdownEvent → Option NodeKind
  | start tag => tag.kind?
  | code content => some (.code content)
  | inlineHtml content => some (.inlineHtml content)
  | inlineMath content => some (.custom "inline-math" content)
  | displayMath content => some (.custom "display-math" content)
  | footnoteReference label => some (.custom "footnote-reference" label)
  | taskMarker checked => some (.custom "task-list-marker" (if checked then "x" else " "))
  | softBreak => some .softBreak
  | hardBreak => some .hardBreak
  | rule => some .thematicBreak
  | _ => none

theorem kind?_of_isPlain (event : MarkdownEvent) (h : event.isPlain = true) :
    event.kind? = none := by
  cases event with
  | text | html | close => rfl
  | _ => cases h

/-- The tags of the open nodes after an event, innermost first. -/
def nest (tags : List Tag) : MarkdownEvent → List Tag
  | start .metadataBlock => tags
  | start tag => tag :: tags
  | close _ => tags.tail
  | _ => tags

theorem nest_start (tags : List Tag) (tag : Tag) :
    (start tag).nest tags = if tag.kind?.isSome then tag :: tags else tags := by
  cases tag <;> rfl

end MarkdownEvent

/-- The events of a stream without its metadata blocks; the argument says whether it begins in
one. -/
def outsideMetadata : Bool → List MarkdownEvent → List MarkdownEvent
  | _, [] => []
  | true, event :: rest => outsideMetadata (event != .close true) rest
  | false, .start .metadataBlock :: rest => outsideMetadata true rest
  | false, event :: rest => event :: outsideMetadata false rest

/-- Inside code and HTML blocks there are only texts and HTML texts, up to the end of the block. -/
def plainBlocks : List Tag → List MarkdownEvent → Bool
  | _, [] => true
  | tags, event :: rest =>
    (!tags.head?.any Tag.isLiteral || event.isPlain) && plainBlocks (event.nest tags) rest

theorem plain_of_plainBlocks {tags : List Tag} {event : MarkdownEvent} {rest : List MarkdownEvent}
    (h : plainBlocks tags (event :: rest) = true) :
    (tags.head?.any Tag.isLiteral = true → event.isPlain = true) ∧
      plainBlocks (event.nest tags) rest = true := by
  rw [plainBlocks, Bool.and_eq_true, Bool.or_eq_true, Bool.not_eq_true'] at h
  obtain ⟨hevent, hrest⟩ := h
  refine ⟨fun hhead => ?_, hrest⟩
  exact hevent.resolve_left fun hnot => Bool.false_ne_true (hnot.symm.trans hhead)

namespace NodeKind

/-- Whether a kind holds the text in it itself. -/
def isLiteral : NodeKind → Bool
  | codeBlock .. => true
  | htmlBlock _ => true
  | _ => false

theorem extend_empty (kind : NodeKind) : kind.extend "" = kind := by
  cases kind <;> simp [extend]

theorem extend_extend (kind : NodeKind) (more behind : String) :
    (kind.extend more).extend behind = kind.extend (more ++ behind) := by
  cases kind <;> simp [extend, String.append_assoc]

theorem isLeaf_extend (more : String) (kind : NodeKind) :
    (kind.extend more).isLeaf = kind.isLeaf := by
  cases kind <;> rfl

theorem isLiteral_extend (more : String) (kind : NodeKind) :
    (kind.extend more).isLiteral = kind.isLiteral := by
  cases kind <;> rfl

theorem extend_eq_custom {more name literal : String} {kind : NodeKind} :
    kind.extend more = .custom name literal ↔ kind = .custom name literal := by
  cases kind <;> simp [extend]

end NodeKind

/-- A kind is that of a node opened by the tag, with the text that came to it since. -/
def Tag.Opens (tag : Tag) (kind : NodeKind) : Prop :=
  ∃ opened more, tag.kind? = some opened ∧ kind = opened.extend more

namespace Tag.Opens

variable {tag : Tag} {kind : NodeKind}

theorem of_kind? (h : tag.kind? = some kind) : tag.Opens kind :=
  ⟨kind, "", h, kind.extend_empty.symm⟩

theorem extend (h : tag.Opens kind) (more : String) : tag.Opens (kind.extend more) := by
  obtain ⟨opened, before, hopened, rfl⟩ := h
  exact ⟨opened, before ++ more, hopened, opened.extend_extend before more⟩

theorem isLeaf (h : tag.Opens kind) : kind.isLeaf = tag.isLiteral := by
  obtain ⟨opened, more, hopened, rfl⟩ := h
  rw [NodeKind.isLeaf_extend]
  cases tag <;> cases hopened <;> rfl

theorem isLiteral (h : tag.Opens kind) : kind.isLiteral = tag.isLiteral := by
  obtain ⟨opened, more, hopened, rfl⟩ := h
  rw [NodeKind.isLiteral_extend]
  cases tag <;> cases hopened <;> rfl

end Tag.Opens

section Changes

variable {doc : Document} {parent : Nat} {kind : NodeKind}

theorem kind?_extendText (doc : Document) (id c : Nat) (more : String) :
    (doc.extendText id more).kind? c =
      if id = c then (doc.kind? c).map fun kind => kind.extend more else doc.kind? c :=
  Arena.kind?_extend ..

/-- Text extends a node or becomes one; it does not become one in a literal block. -/
theorem addText_cases (doc : Document) (parent : Nat) (text : String) :
    (∃ id, doc.addText parent text = doc.extendText id text) ∨
      (doc.addText parent text = doc.attach parent (.text text) ∧
        (doc.kind? parent).any NodeKind.isLiteral = false) := by
  rw [addText]
  split
  · exact .inl ⟨parent, rfl⟩
  · exact .inl ⟨parent, rfl⟩
  · next hcode hhtml =>
    have hparent : (doc.kind? parent).any NodeKind.isLiteral = false := by
      cases hkind : doc.kind? parent with
      | none => rfl
      | some kind =>
        cases kind with
        | codeBlock info literal => exact absurd hkind (hcode info literal)
        | htmlBlock literal => exact absurd hkind (hhtml literal)
        | _ => rfl
    split
    · exact .inr ⟨rfl, hparent⟩
    · next last _ =>
      split
      · exact .inl ⟨last, rfl⟩
      · exact .inr ⟨rfl, hparent⟩

namespace LeavesAreChildless

theorem empty : Document.empty.LeavesAreChildless := by
  intro id p hp
  cases id <;> cases hp

theorem attach (h : doc.LeavesAreChildless) (hparent : doc.kind? parent = some kind)
    (hleaf : kind.isLeaf = false) (added : NodeKind) :
    (doc.attach parent added).LeavesAreChildless := by
  have inside := lt_size_of_kind? hparent
  intro id p hp
  rw [parent?_attach inside] at hp
  rw [kind?_attach inside]
  split at hp
  · obtain rfl := Option.some.inj hp
    rw [if_neg (Nat.ne_of_lt inside), hparent]
    exact hleaf
  · have hlt := doc.built.linked.parent_lt hp
    have hsize : id < doc.size := Arena.lt_size_of_parent? hp
    rw [if_neg (by omega)]
    exact h id p hp

theorem extendText (h : doc.LeavesAreChildless) (id : Nat) (more : String) :
    (doc.extendText id more).LeavesAreChildless := by
  intro c p hp
  have hold : (doc.kind? p).any NodeKind.isLeaf = false := h c p ((Arena.parent?_extend ..).symm.trans hp)
  rw [kind?_extendText]
  split
  · cases hkind : doc.kind? p with
    | none => rfl
    | some kind =>
      rw [hkind] at hold
      exact (kind.isLeaf_extend more).trans hold
  · exact hold

end LeavesAreChildless

/-- A document has a custom node of the name and literal. -/
def HasCustom (doc : Document) (name literal : String) : Prop :=
  ∃ id, doc.kind? id = some (.custom name literal)

theorem hasCustom_attach (inside : parent < doc.size) {name literal : String} :
    (doc.attach parent kind).HasCustom name literal ↔
      doc.HasCustom name literal ∨ kind = .custom name literal := by
  constructor
  · rintro ⟨id, hid⟩
    rw [kind?_attach inside] at hid
    split at hid
    · exact .inr (Option.some.inj hid)
    · exact .inl ⟨id, hid⟩
  · rintro (⟨id, hid⟩ | rfl)
    · refine ⟨id, ?_⟩
      rw [kind?_attach inside, if_neg (Nat.ne_of_lt (lt_size_of_kind? hid)), hid]
    · refine ⟨doc.size, ?_⟩
      rw [kind?_attach inside, if_pos rfl]

theorem hasCustom_extendText {id : Nat} {more name literal : String} :
    (doc.extendText id more).HasCustom name literal ↔ doc.HasCustom name literal := by
  apply exists_congr
  intro c
  rw [kind?_extendText]
  split
  · rw [Option.map_eq_some_iff]
    simp [NodeKind.extend_eq_custom]
  · rfl

/-- Every node of a document is still there in another one, with text added to it at most. -/
def Keeps (doc later : Document) : Prop :=
  ∀ id kind, doc.kind? id = some kind → ∃ more, later.kind? id = some (kind.extend more)

theorem keeps_refl (doc : Document) : doc.Keeps doc :=
  fun _ kind hkind => ⟨"", by rw [hkind, kind.extend_empty]⟩

theorem keeps_attach (doc : Document) (parent : Nat) (added : NodeKind) :
    doc.Keeps (doc.attach parent added) := by
  by_cases inside : parent < doc.size
  · intro id kind hkind
    refine ⟨"", ?_⟩
    rw [kind?_attach inside, if_neg (Nat.ne_of_lt (lt_size_of_kind? hkind)), hkind,
      kind.extend_empty]
  · rw [Document.attach, dif_neg inside]
    exact doc.keeps_refl

theorem keeps_extendText (doc : Document) (id : Nat) (more : String) :
    doc.Keeps (doc.extendText id more) := by
  intro c kind hkind
  rw [kind?_extendText]
  split
  · exact ⟨more, by rw [hkind, Option.map_some]⟩
  · exact ⟨"", by rw [hkind, kind.extend_empty]⟩

theorem keeps_addText (doc : Document) (parent : Nat) (text : String) :
    doc.Keeps (doc.addText parent text) := by
  rcases doc.addText_cases parent text with ⟨id, h⟩ | ⟨h, -⟩
  · rw [h]
    exact doc.keeps_extendText id text
  · rw [h]
    exact doc.keeps_attach parent _

end Changes

namespace Outline

variable {o : Outline} {tags : List Tag} {event : MarkdownEvent} {kind : NodeKind}

theorem doc_take_of_kind? (o : Outline) (h : event.kind? = some kind) :
    (o.take event).doc = o.doc.attach o.innermost kind := by
  cases event with
  | start tag =>
    have htag : tag.kind? = some kind := h
    rw [take, htag]
    rfl
  | text | html | close => cases h
  | _ =>
    obtain rfl := Option.some.inj h
    rfl

theorem doc_take_of_none (o : Outline) (h : event.kind? = none) :
    (o.take event).doc = o.doc ∨ ∃ text, (o.take event).doc = o.doc.addText o.innermost text := by
  cases event with
  | start tag =>
    have htag : tag.kind? = none := h
    rw [take, htag]
    exact .inl rfl
  | close => exact .inl rfl
  | text content | html content => exact .inr ⟨content, rfl⟩
  | _ => cases h

theorem keeps_take (o : Outline) (event : MarkdownEvent) : o.doc.Keeps (o.take event).doc := by
  cases hkind : event.kind? with
  | some kind =>
    rw [o.doc_take_of_kind? hkind]
    exact o.doc.keeps_attach _ kind
  | none =>
    rcases o.doc_take_of_none hkind with h | ⟨text, h⟩
    · rw [h]
      exact o.doc.keeps_refl
    · rw [h]
      exact o.doc.keeps_addText _ text

/-- The open nodes are those that the tags opened, innermost first. -/
def Follows (o : Outline) (tags : List Tag) : Prop :=
  List.Forall₂ (fun id tag => ∃ kind, o.doc.kind? id = some kind ∧ tag.Opens kind) o.openNodes tags

namespace Follows

/-- What comes next goes to the root or to the node of the innermost tag. -/
theorem innermost (h : o.Follows tags) : ∃ kind, o.doc.kind? o.innermost = some kind ∧
    kind.isLeaf = tags.head?.any Tag.isLiteral ∧ kind.isLiteral = tags.head?.any Tag.isLiteral := by
  obtain ⟨doc, openNodes, inMetadata⟩ := o
  cases h with
  | nil => exact ⟨.document, doc.built.kind?_root, rfl, rfl⟩
  | cons hfirst =>
    obtain ⟨kind, hkind, hopens⟩ := hfirst
    exact ⟨kind, hkind, hopens.isLeaf, hopens.isLiteral⟩

theorem lt_size (h : o.Follows tags) : o.innermost < o.doc.size := by
  obtain ⟨kind, hkind, -⟩ := h.innermost
  exact lt_size_of_kind? hkind

theorem of_keeps (h : o.Follows tags) {later : Outline} (hnodes : later.openNodes = o.openNodes)
    (hkeeps : o.doc.Keeps later.doc) : later.Follows tags := by
  rw [Follows, hnodes]
  refine h.imp ?_
  rintro id tag ⟨kind, hkind, hopens⟩
  obtain ⟨more, hlater⟩ := hkeeps id kind hkind
  exact ⟨_, hlater, hopens.extend more⟩

theorem take (h : o.Follows tags) (event : MarkdownEvent) :
    (o.take event).Follows (event.nest tags) := by
  have hkeeps := o.keeps_take event
  cases event with
  | start tag =>
    cases htag : tag.kind? with
    | none =>
      rw [MarkdownEvent.nest_start, htag]
      refine h.of_keeps ?_ hkeeps
      rw [Outline.take, htag]
    | some kind =>
      have hadded : (MarkdownEvent.start tag).kind? = some kind := htag
      have hnew : (o.take (.start tag)).doc.kind? o.doc.size = some kind := by
        rw [o.doc_take_of_kind? hadded, kind?_attach h.lt_size, if_pos rfl]
      have hnodes : (o.take (.start tag)).openNodes = o.doc.size :: o.openNodes := by
        rw [Outline.take, htag]
        rfl
      have hothers : Follows { o.take (.start tag) with openNodes := o.openNodes } tags :=
        h.of_keeps rfl hkeeps
      rw [MarkdownEvent.nest_start, htag, Follows, hnodes]
      exact .cons ⟨kind, hnew, .of_kind? htag⟩ hothers
  | close ofMetadata =>
    have hothers : List.Forall₂ _ (o.openNodes.drop 1) (tags.drop 1) := List.forall₂_drop 1 h
    rwa [List.drop_one, List.drop_one] at hothers
  | _ => exact h.of_keeps rfl hkeeps

/-- Nothing is put below a leaf, unless the event is one that a literal block does not hold. -/
theorem childless_take (h : o.Follows tags) (hleaves : o.doc.LeavesAreChildless)
    (hplain : tags.head?.any Tag.isLiteral = true → event.isPlain = true) :
    (o.take event).doc.LeavesAreChildless := by
  obtain ⟨kind, hkind, hleaf, hliteral⟩ := h.innermost
  cases hadded : event.kind? with
  | some added =>
    have hhead : tags.head?.any Tag.isLiteral = false := by
      cases hhead : tags.head?.any Tag.isLiteral with
      | false => rfl
      | true => cases (event.kind?_of_isPlain (hplain hhead)).symm.trans hadded
    rw [o.doc_take_of_kind? hadded]
    exact hleaves.attach hkind (hleaf.trans hhead) added
  | none =>
    rcases o.doc_take_of_none hadded with hdoc | ⟨text, hdoc⟩
    · rwa [hdoc]
    · rw [hdoc]
      rcases o.doc.addText_cases o.innermost text with ⟨id, htext⟩ | ⟨htext, hnot⟩
      · rw [htext]
        exact hleaves.extendText id text
      · rw [hkind, Option.any_some, hliteral] at hnot
        rw [htext]
        exact hleaves.attach hkind (hleaf.trans hnot) _

theorem hasCustom_take (h : o.Follows tags) (event : MarkdownEvent) (name literal : String) :
    (o.take event).doc.HasCustom name literal ↔
      o.doc.HasCustom name literal ∨ event.kind? = some (.custom name literal) := by
  cases hadded : event.kind? with
  | some added =>
    rw [o.doc_take_of_kind? hadded, hasCustom_attach h.lt_size, Option.some_inj]
  | none =>
    rw [or_iff_left (by nofun)]
    rcases o.doc_take_of_none hadded with hdoc | ⟨text, hdoc⟩
    · rw [hdoc]
    · rw [hdoc]
      rcases o.doc.addText_cases o.innermost text with ⟨id, htext⟩ | ⟨htext, -⟩
      · rw [htext, hasCustom_extendText]
      · rw [htext, hasCustom_attach h.lt_size, or_iff_left (by nofun)]

theorem childless_foldl (h : o.Follows tags) (hleaves : o.doc.LeavesAreChildless)
    {events : List MarkdownEvent} (hplain : plainBlocks tags events = true) :
    (events.foldl Outline.take o).doc.LeavesAreChildless := by
  induction events generalizing o tags with
  | nil => exact hleaves
  | cons event rest ih =>
    obtain ⟨hevent, hrest⟩ := plain_of_plainBlocks hplain
    exact ih (h.take event) (h.childless_take hleaves hevent) hrest

theorem hasCustom_foldl (h : o.Follows tags) (events : List MarkdownEvent) (name literal : String) :
    (events.foldl Outline.take o).doc.HasCustom name literal ↔
      o.doc.HasCustom name literal ∨
        ∃ event ∈ events, event.kind? = some (.custom name literal) := by
  induction events generalizing o tags with
  | nil => simp
  | cons event rest ih =>
    rw [List.foldl_cons, ih (h.take event), h.hasCustom_take, or_assoc, List.exists_mem_cons_iff]

end Follows

theorem follows_empty : Follows { doc := Document.empty } [] := .nil

theorem inMetadata_take (o : Outline) (h : event ≠ .start .metadataBlock) :
    (o.take event).inMetadata = o.inMetadata := by
  cases event with
  | start tag =>
    cases tag with
    | metadataBlock => exact absurd rfl h
    | _ => rfl
  | _ => rfl

/-- Taking up a stream step by step is taking up what stands outside of metadata blocks. -/
theorem doc_foldl_step (events : List MarkdownEvent) (inMetadata : Bool) (o : Outline)
    (h : o.inMetadata = false) :
    (events.foldl step { o with inMetadata }).doc =
      ((outsideMetadata inMetadata events).foldl take o).doc := by
  induction events generalizing inMetadata o with
  | nil =>
    cases inMetadata <;> rfl
  | cons event rest ih =>
    cases inMetadata with
    | true => exact ih _ o h
    | false =>
      have hself : { o with inMetadata := false } = o := by rw [← h]
      rw [hself, List.foldl_cons, step, h, if_neg (by decide)]
      by_cases hmetadata : event = .start .metadataBlock
      · subst hmetadata
        exact ih true o h
      · have hkept := o.inMetadata_take hmetadata
        have hevents : outsideMetadata false (event :: rest) = event :: outsideMetadata false rest := by
          rw [outsideMetadata]
          intro heq
          exact hmetadata heq
        have hrest := ih false (o.take event) (hkept.trans h)
        have hself' : { o.take event with inMetadata := false } = o.take event := by
          rw [← hkept.trans h]
        rw [hevents, List.foldl_cons, ← hrest, hself']

end Outline

theorem ofEvents_eq (events : List MarkdownEvent) :
    ofEvents events = ((outsideMetadata false events).foldl Outline.take { doc := empty }).doc :=
  Outline.doc_foldl_step events false { doc := empty } rfl

/-- Where code and HTML blocks hold nothing but text, no leaf of the document has children. -/
theorem childless_ofEvents {events : List MarkdownEvent}
    (h : plainBlocks [] (outsideMetadata false events) = true) :
    (ofEvents events).LeavesAreChildless := by
  rw [ofEvents_eq]
  exact Outline.follows_empty.childless_foldl .empty h

/-- The custom nodes of a document are those of the events outside of metadata blocks. -/
theorem hasCustom_ofEvents {events : List MarkdownEvent} {name literal : String} :
    (ofEvents events).HasCustom name literal ↔
      ∃ event ∈ outsideMetadata false events, event.kind? = some (.custom name literal) := by
  have hempty : ¬ Document.empty.HasCustom name literal := by
    rintro ⟨id, hid⟩
    cases id <;> cases hid
  rw [ofEvents_eq, Outline.follows_empty.hasCustom_foldl, or_iff_right hempty]

end DitaTopic.Document
