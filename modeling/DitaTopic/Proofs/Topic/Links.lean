import DitaTopic.Proofs.Topic.Effects

/-!
# Links and images in a session

With the topic vocabulary alone, rendering a node runs the handlers of the links and images of its
subtree, each once, in the order of the document and with the suppression at its node, and writes
the links that are not suppressed. The suppression is changed by images, set back by document
nodes and restored by every visit; the induction is on the depth to which handlers may nest.
-/

namespace DitaTopic.Topic

open DitaTopic.Document (NodeKind NodeType)
open DitaTopic.Markup
open DitaTopic.Options (OptionView)
open DitaTopic.Render

variable {session : Session (Array MarkupEvent)} {settings : Settings} {depth node : Nat}

/-- The suppression at a node of a session's document. -/
def suppressionIn (session : Session (Array MarkupEvent)) (id : Nat) : Nat :=
  session.scene.document.suppressionAt session.scene.settings.documentSuppression id

def placesIn (session : Session (Array MarkupEvent)) (id : Nat) : List (Nat × Nat) :=
  placesFrom session.scene.settings.documentSuppression session.scene.document id

def linksIn (session : Session (Array MarkupEvent)) (settings : Settings) (id : Nat) :
    List MarkupEvent :=
  linksFrom settings session.scene.settings.documentSuppression session.scene.document id

/-- Rendering a visited node runs and writes the links of its subtree. -/
def RendersNode (session : Session (Array MarkupEvent)) (settings : Settings) (depth id : Nat) :
    Prop :=
  Renders session settings depth (suppressionIn session id) (Rendering.node id)
    (placesIn session id) (linksIn session settings id)

/-- So does rendering any visited node after `node`. -/
def RendersBelow (session : Session (Array MarkupEvent)) (settings : Settings)
    (depth node : Nat) : Prop :=
  ∀ id, node < id → id < session.scene.document.size →
    session.scene.document.arena.underLeaf id = false → RendersNode session settings depth id

variable {kind : NodeKind}

/-- The suppression under which the children of a node are rendered. -/
def suppressionBelow (session : Session (Array MarkupEvent)) (id : Nat) (kind : NodeKind) : Nat :=
  linklessBelow (startSuppression session kind.type (suppressionIn session id)) kind

theorem suppressionIn_child {id c : Nat} (hkind : session.scene.document.kind? id = some kind)
    (hc : c ∈ session.scene.document.children id) :
    suppressionIn session c = suppressionBelow session id kind :=
  suppressionAt_child hkind hc

theorem renders_child {id : Nat} (h : RendersBelow session settings depth node)
    (hle : node ≤ id) (hkind : session.scene.document.kind? id = some kind)
    (hleaf : kind.isLeaf = false) (hid : session.scene.document.arena.underLeaf id = false)
    {c : Nat} (hc : c ∈ session.scene.document.children id) :
    Renders session settings depth (suppressionBelow session id kind) (Rendering.node c)
      (placesIn session c) (linksIn session settings c) := by
  obtain ⟨hlt, inside⟩ := Document.Arena.mem_children hc
  have hbelow := h c (by omega) inside
  have hkind' : session.scene.document.arena.kind? id = some kind := hkind
  rw [← suppressionIn_child hkind hc]
  refine hbelow (session.scene.document.built.underLeaf_child hc ?_ hid)
  rwa [hkind', Option.getD_some]

theorem renders_childrenOf {id : Nat} (h : RendersBelow session settings depth node)
    (hle : node ≤ id) (hkind : session.scene.document.kind? id = some kind)
    (hleaf : kind.isLeaf = false) (hid : session.scene.document.arena.underLeaf id = false) :
    Renders session settings depth (suppressionBelow session id kind) (Rendering.childrenOf id)
      ((session.scene.document.children id).flatMap (placesIn session))
      ((session.scene.document.children id).flatMap (linksIn session settings)) :=
  Renders.childrenOf (Document.lt_size_of_kind? hkind) fun _ hc =>
    renders_child h hle hkind hleaf hid hc

theorem renders_columns (hsink : session.sink = Sink.recorder) {k : Nat} (index : Nat)
    (alignments : List Document.ColumnAlignment) :
    Renders session settings depth k (columns index alignments) [] [] := by
  induction alignments generalizing index with
  | nil => exact Renders.pure ()
  | cons alignment rest ih =>
    exact ((Renders.pure ()).element hsink (by decide) _).bind fun _ => ih (index + 1)

theorem renders_tableChildren (hsink : session.sink = Sink.recorder) {k : Nat} {ids : List Nat}
    (h : ∀ c ∈ ids, Renders session settings depth k (Rendering.node c) (placesIn session c)
      (linksIn session settings c)) (inBody : Bool) :
    Renders session settings depth k (tableChildren session.scene.document inBody ids)
      (ids.flatMap (placesIn session)) (ids.flatMap (linksIn session settings)) := by
  induction ids generalizing inBody with
  | nil => exact Renders.pure inBody
  | cons c rest ih =>
    have hrest := fun inBody => ih (fun d hd => h d (List.mem_cons_of_mem _ hd)) inBody
    rw [tableChildren, List.flatMap_cons, List.flatMap_cons]
    generalize (session.scene.document.type? c == some .tableRow) = isRow
    have hrow := (h c List.mem_cons_self).bind
      (f := fun _ => tableChildren session.scene.document (inBody || isRow) rest)
      fun _ => hrest (inBody || isRow)
    cases isRow && !inBody with
    | false => exact hrow
    | true => exact (Renders.start hsink (by decide) _).bind fun _ => hrow

theorem renders_html (hsink : session.sink = Sink.recorder) {k : Nat} {p : Rendering Unit}
    (h : Renders session settings depth k p [] []) (html : String) (treatment : HtmlTreatment) :
    Renders session settings depth k
      (match treatment with
        | .dropped => pure ()
        | .asText => p
        | .asInstruction => Rendering.instruction "html" (some html)) [] [] := by
  cases treatment with
  | dropped => exact Renders.pure ()
  | asText => exact h
  | asInstruction => exact Renders.instruction hsink "html" (some html)

/-- A heading or paragraph whose children alone are rendered has no more than these. -/
theorem renders_content {c : Nat} (h : RendersBelow session settings depth node)
    (hc : c ∈ session.scene.document.children node)
    (hkind : session.scene.document.kind? node = some .document)
    (hid : session.scene.document.arena.underLeaf node = false)
    (htype : typeAt session.scene.document c = .heading ∨
      typeAt session.scene.document c = .paragraph) :
    Renders session settings depth (suppressionBelow session node .document)
      (Rendering.childrenOf c) (placesIn session c) (linksIn session settings c) := by
  obtain ⟨hlt, inside⟩ := Document.Arena.mem_children hc
  obtain ⟨kind, hkind'⟩ := exists_kind? inside
  rw [typeAt_eq hkind'] at htype
  have hunder : session.scene.document.arena.underLeaf c = false :=
    session.scene.document.built.underLeaf_child hc
      (by rw [show session.scene.document.arena.kind? node = some .document from hkind]; rfl) hid
  obtain ⟨hleaf, hlink, himage, hown⟩ : kind.isLeaf = false ∧ kind.type ≠ .link ∧
      kind.type ≠ .image ∧ suppressionBelow session c kind = suppressionIn session c := by
    cases kind with
    | heading level written => exact ⟨rfl, nofun, nofun, rfl⟩
    | paragraph => exact ⟨rfl, nofun, nofun, rfl⟩
    | _ => rcases htype with htype | htype <;> cases htype
  have hbelow : suppressionBelow session node .document = suppressionBelow session c kind := by
    rw [hown, suppressionIn_child hkind hc]
  have hplaces : placesIn session c =
      (session.scene.document.children c).flatMap (placesIn session) := by
    have hconcerns : session.scene.document.concernsLinks c = false := by
      simp [Document.concernsLinks, type?_of_kind? hkind', hlink, himage]
    rw [placesIn, placesFrom_eq hkind' hunder, hconcerns, hleaf]
    rfl
  have hlinks : linksIn session settings c =
      (session.scene.document.children c).flatMap (linksIn session settings) := by
    have hwrites : writesLink session.scene.settings.documentSuppression session.scene.document c =
        false := by
      simp [writesLink, type?_of_kind? hkind', hlink]
    rw [linksIn, linksFrom_eq hkind' hunder, hwrites, hleaf]
    rfl
  rw [hplaces, hlinks, hbelow]
  exact renders_childrenOf h (Nat.le_of_lt hlt) hkind' hleaf hunder

theorem renders_document (hsink : session.sink = Sink.recorder)
    (h : RendersBelow session settings depth node)
    (hkind : session.scene.document.kind? node = some .document)
    (hid : session.scene.document.arena.underLeaf node = false) :
    Renders session settings depth (suppressionBelow session node .document)
      (document settings session.scene node)
      ((session.scene.document.children node).flatMap (placesIn session))
      ((session.scene.document.children node).flatMap (linksIn session settings)) := by
  have htitle := Renders.elim (openingAt settings session.scene.document node).title fun c ho =>
    renders_content h (Opening.title_mem ho) hkind hid (.inl (Opening.title_type ho))
  have hshortdesc := Renders.elim (openingAt settings session.scene.document node).shortdesc
    fun c ho => (renders_content h (Opening.shortdesc_mem ho) hkind hid
      (.inr (Opening.shortdesc_type ho).2)).element hsink (show "shortdesc" ≠ "xref" by decide) .none
  have hbody : Renders session settings depth (suppressionBelow session node .document)
      (Rendering.nodes (openingAt settings session.scene.document node).body)
      ((openingAt settings session.scene.document node).body.flatMap (placesIn session))
      ((openingAt settings session.scene.document node).body.flatMap (linksIn session settings)) :=
    Renders.nodes _ fun c hc => renders_child h (Nat.le_refl node) hkind rfl hid (Opening.body_mem hc)
  have hitems := Opening.items_eq (typeAt session.scene.document) settings.shortdescParagraph
    (session.scene.document.children node)
  have hend : ∀ n, Renders session settings depth (suppressionBelow session node .document)
      (Rendering.finishMany n >>= fun _ => Rendering.finish) [] [] :=
    fun n => (Renders.finishMany hsink n).bind fun _ => Renders.finish hsink
  rw [document_eq, ← hitems]
  simp only [List.flatMap_append]
  have htopic : Renders session settings depth (suppressionBelow session node .document)
      (Rendering.start "topic" (topicAttributes
        ((openingAt settings session.scene.document node).title.bind session.scene.idOf))) [] [] :=
    Renders.start hsink (by decide) _
  have hall := htopic.bind fun _ =>
    (Renders.start hsink (show "title" ≠ "xref" by decide) .none).bind fun _ =>
      htitle.bind fun _ => (Renders.finish hsink).bind fun _ => hshortdesc.bind fun _ =>
        (Renders.start hsink (show "body" ≠ "xref" by decide) .none).bind fun _ =>
          Renders.look fun atBody _ => hbody.bind fun _ => Renders.look fun atEnd _ =>
            hend (atEnd.depth + 1 - atBody.depth)
  simp only [List.nil_append, List.append_nil] at hall
  exact hall

theorem renders_heading (hsink : session.sink = Sink.recorder) {k level : Nat}
    {written : Option String} {places : List (Nat × Nat)} {links : List MarkupEvent}
    (h : Renders session settings depth k (Rendering.childrenOf node) places links)
    (hkind : session.scene.document.kind? node = some (.heading level written)) :
    Renders session settings depth k (heading settings session.scene node) places links := by
  have hnested : Renders session settings depth k (nestedHeading settings session.scene node level)
      places links := h.element hsink (by decide) _
  rw [heading, hkind]
  refine Renders.look fun view _ => ?_
  cases isTopLevel session.scene.document node with
  | false => exact hnested
  | true =>
    cases bodyPlace view.openElements with
    | none => exact hnested
    | some place =>
      exact (Renders.finishMany hsink _).bind fun _ =>
        (Renders.start hsink (by decide) _).bind fun _ => h.element hsink (by decide) .none

theorem renders_link (hsink : session.sink = Sink.recorder) {k : Nat} {url title : String}
    {places : List (Nat × Nat)} {links : List MarkupEvent}
    (h : Renders session settings depth k (Rendering.childrenOf node) places links)
    (hkind : session.scene.document.kind? node = some (.link url title)) :
    Renders session settings depth k (link settings session.scene node) places
      ((if k = 0 then [linkStart settings session.scene.document node] else []) ++ links) := by
  rw [link, hkind]
  refine Renders.look fun view hview => ?_
  have hlinks : view.linksSuppressed = decide (0 < k) := congrArg (fun n => decide (0 < n)) hview
  by_cases hk : k = 0
  · subst hk
    have hstart : linkStart settings session.scene.document node =
        .startElement "xref" (linkAttributes settings url) := by
      rw [linkStart, Document.linkUrl, hkind]
    rw [if_pos rfl, hlinks, hstart]
    have hwrite : Renders session settings depth 0
        (Rendering.start "xref" (linkAttributes settings url)) []
        [.startElement "xref" (linkAttributes settings url)] := Renders.write hsink rfl
    have hall := hwrite.bind (f := fun _ => Rendering.childrenOf node >>= fun _ => Rendering.finish)
      fun _ => h.bind fun _ => Renders.finish hsink
    rw [List.nil_append, List.append_nil, List.append_nil] at hall
    exact hall
  · have hpos : 0 < k := Nat.pos_of_ne_zero hk
    rw [if_neg hk, hlinks]
    simp only [hpos, decide_true, if_true]
    exact h

theorem renders_image (hsink : session.sink = Sink.recorder) {k : Nat} {url title : String}
    {places : List (Nat × Nat)} {links : List MarkupEvent}
    (h : Renders session settings depth (k + 1) (Rendering.childrenOf node) places links)
    (hkind : session.scene.document.kind? node = some (.image url title)) :
    Renders session settings depth k (image settings session.scene node) places links := by
  rw [image, hkind]
  exact (h.withoutLinks.element hsink (by decide) .none).element hsink (by decide) _

/-- The vocabulary's handler of a node does what the node itself and its children ask for. -/
theorem renders_handler (hsink : session.sink = Sink.recorder) {handler : Handler}
    (h : RendersBelow session settings depth node)
    (hkind : session.scene.document.kind? node = some kind)
    (hid : session.scene.document.arena.underLeaf node = false)
    (hhandler : handlerFor settings kind.type = some handler) :
    Renders session settings depth
      (startSuppression session kind.type (suppressionIn session node))
      (handler.render session.scene node)
      (if kind.isLeaf then [] else
        (session.scene.document.children node).flatMap (placesIn session))
      ((if kind.type = .link ∧ suppressionIn session node = 0
          then [linkStart settings session.scene.document node] else []) ++
        if kind.isLeaf then [] else
          (session.scene.document.children node).flatMap (linksIn session settings)) := by
  have hchildren : kind.isLeaf = false → Renders session settings depth
      (suppressionBelow session node kind) (Rendering.childrenOf node) _ _ :=
    fun hleaf => renders_childrenOf h (Nat.le_refl node) hkind hleaf hid
  cases kind with
  | document =>
    cases hhandler
    exact renders_document hsink h hkind hid
  | heading level written =>
    cases hhandler
    exact renders_heading hsink (hchildren rfl) hkind
  | paragraph | blockQuote | item | tableRow | tableCell | emphasis | strong | strikethrough =>
    cases hhandler
    exact (hchildren rfl).element hsink (by decide) _
  | codeBlock info literal =>
    cases hhandler
    show Renders _ _ _ _ (codeBlock settings session.scene node) _ _
    rw [codeBlock, hkind]
    exact (Renders.characters hsink _).element hsink (by decide) _
  | htmlBlock literal =>
    cases hhandler
    show Renders _ _ _ _ (htmlBlock settings session.scene node) _ _
    rw [htmlBlock, hkind]
    exact renders_html hsink ((Renders.characters hsink _).element hsink (by decide) .none) _
      (settings.blockTreatment literal)
  | list first =>
    cases hhandler
    show Renders _ _ _ _ (list session.scene node) _ _
    rw [list, hkind]
    cases first with
    | none => exact (hchildren rfl).element hsink (by decide) .none
    | some _ => exact (hchildren rfl).element hsink (show "ol" ≠ "xref" by decide) .none
  | table alignments =>
    cases hhandler
    show Renders _ _ _ _ (table session.scene node) _ _
    rw [table, hkind]
    have hrows := renders_tableChildren hsink
      (fun c hc => renders_child h (Nat.le_refl node) hkind rfl hid hc) false
    have hend : ∀ inBody : Bool, Renders session settings depth
        (suppressionBelow session node (.table alignments))
        (if inBody then Rendering.finish else pure ()) [] [] := by
      intro inBody
      cases inBody with
      | false => exact Renders.pure ()
      | true => exact Renders.finish hsink
    have hinside := (renders_columns hsink 1 alignments).bind fun _ => hrows.bind hend
    rw [List.append_nil, List.append_nil] at hinside
    exact (hinside.element hsink (by decide) _).element hsink (by decide) .none
  | tableHead =>
    cases hhandler
    exact ((hchildren rfl).element hsink (by decide) .none).element hsink (by decide) .none
  | link url title =>
    cases hhandler
    have hown : (NodeKind.link url title).type = .link := rfl
    simp only [hown, true_and]
    exact renders_link hsink (hchildren rfl) hkind
  | image url title =>
    cases hhandler
    exact renders_image hsink (hchildren rfl) hkind
  | text content =>
    cases hhandler
    show Renders _ _ _ _ (text session.scene node) _ _
    rw [text, hkind]
    exact Renders.characters hsink content
  | code content =>
    cases hhandler
    show Renders _ _ _ _ (code session.scene node) _ _
    rw [code, hkind]
    exact (Renders.characters hsink content).element hsink (by decide) .none
  | inlineHtml html =>
    cases hhandler
    show Renders _ _ _ _ (inlineHtml settings session.scene node) _ _
    rw [inlineHtml, hkind]
    exact renders_html hsink (Renders.characters hsink html) html (settings.inlineTreatment html)
  | softBreak =>
    cases hhandler
    exact Renders.characters hsink _
  | hardBreak =>
    cases hhandler
    exact Renders.instruction hsink "linebreak" none
  | thematicBreak =>
    cases hhandler
    exact Renders.pure ()
  | custom name literal => cases hhandler

theorem linksIn_eq {id : Nat} (hkind : session.scene.document.kind? id = some kind)
    (hid : session.scene.document.arena.underLeaf id = false) :
    linksIn session settings id =
      (if kind.type = .link ∧ suppressionIn session id = 0
          then [linkStart settings session.scene.document id] else []) ++
        if kind.isLeaf then [] else
          (session.scene.document.children id).flatMap (linksIn session settings) := by
  have hwrites : writesLink session.scene.settings.documentSuppression session.scene.document id =
      decide (kind.type = .link ∧ suppressionIn session id = 0) := by
    rw [writesLink, type?_of_kind? hkind, Bool.decide_and]
    rfl
  rw [linksIn, linksFrom_eq hkind hid, hwrites]
  simp only [decide_eq_true_eq]
  rfl

/-- The handler found for a node is the vocabulary's for its kind. -/
theorem handlerFor_of_found {view : OptionView} (hregistry : session.registry = registry view)
    {frame : Frame} (hframe : session.frame? frame.node = some frame)
    (hkind : session.scene.document.kind? frame.node = some kind) :
    kind.type = frame.type ∧
      handlerFor (Settings.ofView view) kind.type = some frame.chain.outer.handler := by
  obtain ⟨-, htype, hchain⟩ := Session.frame?_eq_some hframe
  rw [type?_of_kind? hkind] at htype
  obtain htype := Option.some.inj htype
  rw [hregistry, chain?_registry, ← htype] at hchain
  obtain ⟨handler, hhandler, hlink⟩ := Option.map_eq_some_iff.mp hchain
  exact ⟨htype, hlink ▸ hhandler⟩

/-- With the topic vocabulary alone, rendering a visited node runs the links and images of its
subtree and writes the links that are not suppressed. -/
theorem renders_node (hsink : session.sink = Sink.recorder) {view : OptionView}
    (hregistry : session.registry = registry view) {id : Nat}
    (inside : id < session.scene.document.size)
    (hid : session.scene.document.arena.underLeaf id = false)
    (hdeep : session.scene.document.size ≤ depth + id) :
    RendersNode session (Settings.ofView view) depth id := by
  induction depth generalizing id with
  | zero => omega
  | succ depth ih =>
    -- children come later than their parent, so one level of nesting less is enough for them
    have hbelow : RendersBelow session (Settings.ofView view) depth id :=
      fun c hlt hc hunder => ih hc hunder (by omega)
    intro s a t hs hperform
    rw [Session.perform_node] at hperform
    obtain ⟨below, frame, after, hdepth, hframe, hresult, rfl, hstarts⟩ :=
      Session.exists_start hperform
    obtain rfl : depth = below := by omega
    obtain ⟨rfl, -, -⟩ := Session.frame?_eq_some hframe
    obtain ⟨kind, hkind⟩ := exists_kind? inside
    obtain ⟨htype, hhandler⟩ := handlerFor_of_found hregistry hframe hkind
    have hstart : (session.enter frame s).suppression =
        startSuppression session kind.type (suppressionIn session frame.node) := by
      rw [Session.enter, startSuppression, hs, ← htype]
    obtain ⟨-, heffect⟩ := renders_handler hsink hbelow hkind hid hhandler hstart hresult
    obtain ⟨written, hlog, hlinks⟩ := heffect.written
    rw [← linksIn_eq hkind hid] at hlinks
    have hown : Rendered session (Settings.ofView view) (log after) ⟨depth, frame, s⟩ :=
      ⟨hframe, Document.mem_visited.mpr ⟨inside, hid⟩, hs, by show _ ≤ depth + 1 + frame.node; omega,
        after, written, [], hresult, hlog, (List.append_nil _).symm, hlinks⟩
    refine ⟨hs, ⟨written, hlog, hlinks⟩, ?_, ?_⟩
    · rw [Session.startsIn_node, hstarts, placesIn, placesFrom_eq hkind hid, placesOf_cons, hs,
        heffect.places]
      rfl
    · intro start hmem
      rw [Session.startsIn_node, hstarts] at hmem
      rcases List.mem_cons.mp hmem with rfl | hmem
      · exact hown
      · exact heffect.rendered start hmem

end DitaTopic.Topic
