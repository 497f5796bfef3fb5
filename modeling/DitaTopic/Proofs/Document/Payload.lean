import DitaTopic.Proofs.Document.NormalForm

/-!
# What reading keeps

Of a stream of events only metadata blocks are lost. A block that is cut out of the stream leaves
the document as it was, and the texts of the nodes in the order of the document are the texts of
the events in the order of the stream. For the second result code and HTML blocks hold nothing but
text, so that what is open stands last in the document and text is never added anywhere else.
-/

namespace DitaTopic.Document

/-- What follows the end of the metadata block that a stream begins in; nothing if it has no
end. -/
def behindMetadata (events : List MarkdownEvent) : List MarkdownEvent :=
  (events.dropWhile fun event => event != .close true).tail

namespace NodeKind

/-- The text that nodes of a kind got from events. -/
def payload : NodeKind → String
  | text content => content
  | code content => content
  | inlineHtml content => content
  | codeBlock _ literal => literal
  | htmlBlock literal => literal
  | _ => ""

/-- Whether nodes of a kind take up text. -/
def isOpenText : NodeKind → Bool
  | text _ => true
  | kind => kind.isLiteral

theorem payload_extend {kind : NodeKind} (h : kind.isOpenText = true) (more : String) :
    (kind.extend more).payload = kind.payload ++ more := by
  cases kind with
  | text | codeBlock | htmlBlock => rfl
  | _ => cases h

theorem isLeaf_of_isOpenText {kind : NodeKind} (h : kind.isOpenText = true) :
    kind.isLeaf = true := by
  cases kind with
  | text | codeBlock | htmlBlock => rfl
  | _ => cases h

end NodeKind

namespace MarkdownEvent

/-- The text that an event brings. -/
def payload : MarkdownEvent → String
  | text content => content
  | html content => content
  | code content => content
  | inlineHtml content => content
  | _ => ""

theorem payload_of_kind? {event : MarkdownEvent} {kind : NodeKind} (h : event.kind? = some kind) :
    kind.payload = event.payload := by
  cases event with
  | start tag => cases tag <;> cases h <;> rfl
  | text | html | close => cases h
  | _ => cases h; rfl

end MarkdownEvent

/-- The text of a node, children apart. -/
def payloadAt (doc : Document) (id : Nat) : String := ((doc.kind? id).map NodeKind.payload).getD ""

/-- The texts of the nodes in the order of their creation. -/
def payload (doc : Document) : String := String.join ((List.range doc.size).map doc.payloadAt)

theorem join_range_succ (text : Nat → String) (n : Nat) :
    String.join ((List.range (n + 1)).map text) =
      String.join ((List.range n).map text) ++ text n := by
  rw [List.range_succ, List.map_append, String.join_append, List.map_singleton, String.join_cons,
    String.join_nil, String.append_empty]

section Changes

variable {doc : Document} {parent id last : Nat} {kind : NodeKind}

theorem payloadAt_of_kind? (h : doc.kind? id = some kind) : doc.payloadAt id = kind.payload := by
  rw [payloadAt, h, Option.map_some, Option.getD_some]

theorem payload_attach (inside : parent < doc.size) (kind : NodeKind) :
    (doc.attach parent kind).payload = doc.payload ++ kind.payload := by
  have hold : (List.range doc.size).map (doc.attach parent kind).payloadAt =
      (List.range doc.size).map doc.payloadAt := by
    apply List.map_congr_left
    intro c hc
    rw [payloadAt, kind?_attach inside, if_neg (Nat.ne_of_lt (List.mem_range.mp hc)), payloadAt]
  have hnew : (doc.attach parent kind).kind? doc.size = some kind := by
    rw [kind?_attach inside, if_pos rfl]
  rw [payload, size_attach inside, join_range_succ, hold, payloadAt_of_kind? hnew, payload]

/-- Text that comes to the node created last comes last. -/
theorem payload_extendText (hkind : doc.kind? doc.newest = some kind)
    (hopen : kind.isOpenText = true) (more : String) :
    (doc.extendText doc.newest more).payload = doc.payload ++ more := by
  have hsize : (doc.extendText doc.newest more).size = doc.size := Arena.size_extend ..
  have hold : (List.range doc.newest).map (doc.extendText doc.newest more).payloadAt =
      (List.range doc.newest).map doc.payloadAt := by
    apply List.map_congr_left
    intro c hc
    rw [payloadAt, kind?_extendText, if_neg (Nat.ne_of_gt (List.mem_range.mp hc)), payloadAt]
  have hlast : (doc.extendText doc.newest more).kind? doc.newest = some (kind.extend more) := by
    rw [kind?_extendText, if_pos rfl, hkind, Option.map_some]
  rw [payload, hsize, ← newest_succ, join_range_succ, hold, payloadAt_of_kind? hlast,
    kind.payload_extend hopen, payload, ← newest_succ, join_range_succ, payloadAt_of_kind? hkind,
    String.append_assoc]

/-- A leaf that stands above the node created last or is that node is that node. -/
theorem LeavesAreChildless.eq_newest (h : doc.LeavesAreChildless) (hkind : doc.kind? id = some kind)
    (hleaf : kind.isLeaf = true) (hid : id ∈ doc.arena.path doc.newest) : id = doc.newest := by
  rcases List.mem_cons.mp hid with hid | habove
  · exact hid
  · obtain ⟨c, -, hparent⟩ := doc.built.linked.exists_child habove
    have hnot := h c id hparent
    rw [hkind, Option.any_some, hleaf] at hnot
    cases hnot

/-- The last child of a node above the one created last is above that one, too, or is that one. -/
theorem last_mem_path (hdepth : doc.arena.DepthFirst)
    (hparent : parent ∈ doc.arena.path doc.newest)
    (hlast : (doc.children parent).getLast? = some last) : last ∈ doc.arena.path doc.newest := by
  rw [children, doc.built.children_eq] at hlast
  obtain ⟨inside, hlastParent⟩ := Arena.mem_kids.mp (List.mem_of_getLast? hlast)
  have hle : last ≤ doc.newest := by
    have hsize : last < doc.size := inside
    rwa [← newest_succ, Nat.lt_succ_iff] at hsize
  have habove : parent ∈ doc.arena.ancestors doc.newest := by
    refine (List.mem_cons.mp hparent).resolve_left ?_
    have hlt := doc.built.linked.parent_lt hlastParent
    omega
  obtain ⟨c, hc, hcParent⟩ := doc.built.linked.exists_child habove
  have hkid : c ∈ doc.arena.kids parent :=
    Arena.mem_kids.mpr ⟨Arena.lt_size_of_parent? hcParent, hcParent⟩
  rcases Nat.lt_or_eq_of_le (le_of_getLast? (doc.arena.kids_ascending parent) hlast hkid) with
    hbefore | rfl
  · have hbehind := hdepth.lt_of_siblings doc.built hcParent hlastParent hbefore hc doc.newest_lt
    omega
  · exact hc

end Changes

namespace Outline

variable {o : Outline} {tags : List Tag}

/-- Text comes to the end of all texts, whichever node takes it. -/
theorem AtEdge.payload_addText (h : o.AtEdge) (hleaves : o.doc.LeavesAreChildless) (text : String) :
    (o.doc.addText o.innermost text).payload = o.doc.payload ++ text := by
  obtain ⟨kind, hkind⟩ : ∃ kind, o.doc.kind? o.innermost = some kind :=
    ⟨_, Arena.kind?_eq_some h.lt_size⟩
  cases hliteral : kind.isLiteral with
  | true =>
    have hopen : kind.isOpenText = true := by cases kind <;> first | rfl | cases hliteral
    have hnewest := hleaves.eq_newest hkind (kind.isLeaf_of_isOpenText hopen) h.newest
    rw [addText_of_literal hkind hliteral, hnewest]
    rw [hnewest] at hkind
    exact payload_extendText hkind hopen text
  | false =>
    have hnot : (o.doc.kind? o.innermost).any NodeKind.isLiteral = false := by
      rw [hkind]
      exact hliteral
    by_cases hends : o.doc.EndsInText o.innermost
    · obtain ⟨last, content, hlast, hcontent⟩ := hends
      have hpath := last_mem_path h.depthFirst h.newest hlast
      have hnewest := hleaves.eq_newest hcontent rfl hpath
      rw [addText_of_endsInText hnot h.lt_size hlast hcontent, hnewest]
      rw [hnewest] at hcontent
      exact payload_extendText hcontent rfl text
    · rw [addText_of_not_endsInText hnot h.lt_size hends]
      exact payload_attach h.lt_size _

theorem AtEdge.payload_take (h : o.AtEdge) (hleaves : o.doc.LeavesAreChildless)
    (event : MarkdownEvent) : (o.take event).doc.payload = o.doc.payload ++ event.payload := by
  cases hadded : event.kind? with
  | some added =>
    rw [o.doc_take_of_kind? hadded, payload_attach h.lt_size,
      MarkdownEvent.payload_of_kind? hadded]
  | none =>
    cases event with
    | text content | html content => exact h.payload_addText hleaves content
    | start tag =>
      have htag : tag.kind? = none := hadded
      rw [Outline.take, htag]
      exact String.append_empty.symm
    | close => exact String.append_empty.symm
    | _ => cases hadded

theorem AtEdge.payload_foldl (h : o.AtEdge) (hfollows : o.Follows tags)
    (hleaves : o.doc.LeavesAreChildless) {events : List MarkdownEvent}
    (hplain : plainBlocks tags events = true) :
    (events.foldl Outline.take o).doc.payload =
      o.doc.payload ++ String.join (events.map MarkdownEvent.payload) := by
  induction events generalizing o tags with
  | nil => exact String.append_empty.symm
  | cons event rest ih =>
    obtain ⟨hevent, hrest⟩ := plain_of_plainBlocks hplain
    have hleaves' := hfollows.childless_take hleaves hevent
    rw [List.foldl_cons, ih (h.take event) (hfollows.take event) hleaves' hrest,
      h.payload_take hleaves, List.map_cons, String.join_cons, String.append_assoc]

/-- Steps from within a metadata block are steps from behind its end. -/
theorem doc_foldl_inMetadata (h : o.inMetadata = false) (events : List MarkdownEvent) :
    (events.foldl step { o with inMetadata := true }).doc =
      ((behindMetadata events).foldl step o).doc := by
  induction events with
  | nil => rfl
  | cons event rest ih =>
    by_cases hclose : event = .close true
    · subst hclose
      have hself : { o with inMetadata := false } = o := by rw [← h]
      show (rest.foldl step { o with inMetadata := false }).doc = (rest.foldl step o).doc
      rw [hself]
    · have hskip : (event != .close true) = true := bne_iff_ne.mpr hclose
      have hbehind : behindMetadata (event :: rest) = behindMetadata rest := by
        rw [behindMetadata, List.dropWhile_cons, if_pos hskip, behindMetadata]
      have hstep : step { o with inMetadata := true } event = { o with inMetadata := true } := by
        rw [step, if_pos rfl, hskip]
      rw [List.foldl_cons, hstep, hbehind, ih]

end Outline

/-- A metadata block may be cut out of a stream. -/
theorem ofEvents_behindMetadata {before : List MarkdownEvent}
    (h : (before.foldl Outline.step { doc := empty }).inMetadata = false)
    (rest : List MarkdownEvent) :
    ofEvents (before ++ behindMetadata rest) = ofEvents (before ++ .start .metadataBlock :: rest) := by
  rw [ofEvents, List.foldl_append, ofEvents, List.foldl_append, List.foldl_cons, Outline.step, h,
    if_neg Bool.false_ne_true]
  exact (Outline.doc_foldl_inMetadata h rest).symm

theorem payload_ofEvents {events : List MarkdownEvent}
    (h : plainBlocks [] (outsideMetadata false events) = true) :
    (ofEvents events).payload =
      String.join ((outsideMetadata false events).map MarkdownEvent.payload) := by
  have hempty : Document.empty.payload = "" := rfl
  rw [ofEvents_eq, Outline.AtEdge.empty.payload_foldl Outline.follows_empty .empty h, hempty,
    String.empty_append]

/-- Reading loses nothing but metadata: a metadata block may be cut out of the stream, from its
start to its end or to the end of the stream, and where code and HTML blocks hold nothing but text
a walk over the document meets the texts of all other events in their order. -/
theorem ofEvents_loses_metadata_only (events : List MarkdownEvent) :
    (∀ before rest, events = before ++ .start .metadataBlock :: rest →
      (before.foldl Outline.step { doc := empty }).inMetadata = false →
      ofEvents (before ++ behindMetadata rest) = ofEvents events) ∧
    (plainBlocks [] (outsideMetadata false events) = true →
      ∃ ids, Gives (ofEvents events).arena.nextBelow #[rootId] ids ∧
        String.join (ids.map (ofEvents events).payloadAt) =
          String.join ((outsideMetadata false events).map MarkdownEvent.payload)) := by
  constructor
  · rintro before rest rfl houtside
    exact ofEvents_behindMetadata houtside rest
  · intro hplain
    have hgives := (depthFirst_ofEvents events).gives_range (ofEvents events).built
    exact ⟨_, hgives, payload_ofEvents hplain⟩

/-- A text, a metadata block with a stray end and a text in it, and an HTML block that is not
ended. -/
def notes : List MarkdownEvent :=
  [.text "Notes", .start .metadataBlock, .close false, .text "draft", .close true, .html " on ",
    .code "x", .start .htmlBlock, .html "<hr", .text ">"]

theorem ofEvents_loses_metadata_only_notes :
    ofEvents [.text "Notes", .html " on ", .code "x", .start .htmlBlock, .html "<hr", .text ">"] =
      ofEvents notes ∧
    plainBlocks [] (outsideMetadata false notes) = true ∧
    ∃ ids, Gives (ofEvents notes).arena.nextBelow #[rootId] ids ∧
      String.join (ids.map (ofEvents notes).payloadAt) = "Notes on x<hr>" := by
  have hplain : plainBlocks [] (outsideMetadata false notes) = true := by decide
  obtain ⟨hcut, htexts⟩ := ofEvents_loses_metadata_only notes
  obtain ⟨ids, hgives, hjoin⟩ := htexts hplain
  have hall : String.join ((outsideMetadata false notes).map MarkdownEvent.payload) =
      "Notes on x<hr>" := by decide
  exact ⟨hcut [.text "Notes"] _ rfl rfl, hplain, ids, hgives, hjoin.trans hall⟩

end DitaTopic.Document
