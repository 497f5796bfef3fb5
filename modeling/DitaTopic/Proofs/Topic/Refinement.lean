import DitaTopic.Proofs.Render.Chains
import DitaTopic.Proofs.Topic.Performance
import DitaTopic.Render.Renderer

/-!
# Sessions of the topic vocabulary

With the topic vocabulary as the only provider, a session makes the strokes of the document's
tree. `carries_node` is this statement for one node, by induction on the depth to which handlers
may still nest; it needs no more depth than there are nodes after the one rendered.
-/

namespace DitaTopic.Topic

open DitaTopic.Document (NodeKind NodeType Tree)
open DitaTopic.Markup
open DitaTopic.Options (OptionView)
open DitaTopic.Render

/-- The handler of a type, if the vocabulary has one. -/
def handlerFor (settings : Settings) (type : NodeType) : Option Handler :=
  (handlers settings).find? fun h => h.type = type

theorem handlerFor_of_mem (settings : Settings) {handler : Handler}
    (h : handler ∈ handlers settings) : handlerFor settings handler.type = some handler := by
  have hall : ∀ handler ∈ handlers settings, handlerFor settings handler.type = some handler := by
    simp [handlers, handlerFor]
  exact hall handler h

/-- The registry of a session with the topic vocabulary alone. -/
def registry (view : OptionView) : Registry :=
  (Registry.linksOf view [provider]).foldl Registry.register Registry.empty

theorem linksAt_registry (view : OptionView) (type : NodeType) :
    (registry view).linksAt type =
      ((handlerFor (Settings.ofView view) type).map fun h => ⟨⟨"core"⟩, h⟩).toList := by
  rw [registry, Registry.linksAt_foldl]
  cases type <;> rfl

/-- Every type of the vocabulary has a chain of one handler, other types have none. -/
theorem chain?_registry (view : OptionView) (type : NodeType) :
    (registry view).chain? type =
      (handlerFor (Settings.ofView view) type).map fun h => ⟨⟨⟨"core"⟩, h⟩, []⟩ := by
  rw [Registry.chain?_eq, linksAt_registry]
  cases handlerFor (Settings.ofView view) type <;> rfl

theorem build_provider (view : OptionView) :
    Registry.build [provider] view = .ok (registry view) := by
  rw [Registry.build, Registry.ordered_singleton]
  rfl

theorem one_le_longestChain (view : OptionView) : 1 ≤ (registry view).longestChain :=
  Registry.length_le_longestChain (chain?_registry view .document)

variable {σ : Type} {session : Session σ} {visit : Frame → Run σ Outcome}

/-- The strokes of a node of a session's document. -/
def strokesAt (session : Session σ) (settings : Settings) (k id : Nat) : List Stroke :=
  strokes (Rules.ofScene settings session.scene) (isTopLevel session.scene.document id) k
    (session.scene.document.arena.tree id)

/-- Rendering any node after `node` makes its strokes. -/
def RendersAfter (session : Session σ) (visit : Frame → Run σ Outcome) (settings : Settings)
    (node : Nat) : Prop :=
  ∀ id, node < id → id < session.scene.document.size →
    ∀ k, Carries session visit k (Rendering.node id) (strokesAt session settings k id)

theorem type?_eq {doc : Document} {id : Nat} (inside : id < doc.size) :
    doc.type? id = some (doc.arena.tree id).kind.type := by
  rw [Document.type?, Document.kind?, Document.Arena.kind?_eq_some inside, Document.Arena.tree_eq]
  rfl

/-- The type of a node of a document. -/
def typeAt (doc : Document) (id : Nat) : NodeType := (doc.arena.tree id).kind.type

theorem tree_of_kind? {doc : Document} {id : Nat} {kind : NodeKind}
    (hkind : doc.kind? id = some kind) :
    doc.arena.tree id = .node id kind ((doc.children id).map doc.arena.tree) := by
  rw [Document.kind?] at hkind
  rw [Document.Arena.tree_eq, hkind]
  rfl

theorem exists_kind? {doc : Document} {id : Nat} (inside : id < doc.size) :
    ∃ kind, doc.kind? id = some kind :=
  ⟨_, Document.Arena.kind?_eq_some inside⟩

theorem type?_of_kind? {doc : Document} {id : Nat} {kind : NodeKind}
    (hkind : doc.kind? id = some kind) : doc.type? id = some kind.type := by
  rw [Document.type?, hkind]
  rfl

theorem typeAt_eq {doc : Document} {id : Nat} {kind : NodeKind}
    (hkind : doc.kind? id = some kind) : typeAt doc id = kind.type := by
  rw [typeAt, tree_of_kind? hkind]
  rfl

theorem isTopLevel_child {doc : Document} {id c : Nat} (inside : id < doc.size)
    (hc : c ∈ doc.children id) : isTopLevel doc c = (typeAt doc id == .document) := by
  have hparent : (doc.node? c).bind (·.parent) = some id :=
    doc.built.parent?_of_mem_children hc
  rw [isTopLevel, hparent]
  show (doc.type? id == some .document) = _
  rw [type?_eq inside]
  rfl

/-- The part of a node of a session's document. -/
def partAt (session : Session σ) (settings : Settings) (top : Bool) (k id : Nat) : Part :=
  part (Rules.ofScene settings session.scene) top k (session.scene.document.arena.tree id)

theorem parts_children (settings : Settings) (top : Bool) (k node : Nat) :
    parts (Rules.ofScene settings session.scene) top k
        ((session.scene.document.children node).map session.scene.document.arena.tree) =
      (session.scene.document.children node).map (partAt session settings top k) := by
  rw [parts_eq, List.map_map]
  rfl

theorem wholes_map (settings : Settings) (top : Bool) (k : Nat) (ids : List Nat) :
    wholes (ids.map (partAt session settings top k)) =
      ids.flatMap fun id => (partAt session settings top k id).whole := by
  rw [wholes, List.flatMap_map]

theorem carries_child {settings : Settings} {node id c k : Nat}
    (h : RendersAfter session visit settings node) (hle : node ≤ id)
    (inside : id < session.scene.document.size) (hc : c ∈ session.scene.document.children id) :
    Carries session visit k (Rendering.node c)
      (partAt session settings (typeAt session.scene.document id == .document) k c).whole := by
  have hlt := Document.Arena.mem_children hc
  have hstrokes := h c (by omega) hlt.2 k
  rwa [strokesAt, isTopLevel_child inside hc] at hstrokes

theorem carries_childrenOf {settings : Settings} {node id k : Nat}
    (h : RendersAfter session visit settings node) (hle : node ≤ id)
    (inside : id < session.scene.document.size)
    (htype : typeAt session.scene.document id ≠ .document) :
    Carries session visit k (Rendering.childrenOf id)
      (insideStrokes (Rules.ofScene settings session.scene) k
        (session.scene.document.arena.tree id)) := by
  rw [Document.Arena.tree_eq, insideStrokes]
  show Carries session visit k _ (wholes (parts (Rules.ofScene settings session.scene) false k
    ((session.scene.document.children id).map session.scene.document.arena.tree)))
  rw [parts_children, wholes_map]
  refine Carries.childrenOf inside fun c hc => ?_
  have hchild := carries_child (k := k) h hle inside hc
  rwa [beq_false_of_ne htype] at hchild

theorem openElements_startBody {sink : Sink σ} {d d' : Desk σ}
    (h : play sink [.startBody] d = (.ok (), d')) :
    d'.writer.openElements = "body" :: d.writer.openElements := by
  rw [play_singleton, Stroke.make, Stroke.commands, Writer.performAll, Writer.perform,
    Writer.start, Writer.emit] at h
  cases hoffer : sink.offer (.startElement "body" .none) d.writer.sink with
  | mk verdict state =>
    rw [hoffer] at h
    cases verdict with
    | error e => cases h
    | ok _ => cases h; rfl

/-- The body of a document: what it holds is ended with it. -/
theorem carries_body {k : Nat} {p : Rendering Unit} {ss : List Stroke}
    (h : Carries session visit k p ss) :
    Carries session visit k
      (Rendering.start "body" >>= fun _ => Rendering.look >>= fun atBody => p >>= fun _ =>
        Rendering.look >>= fun atEnd =>
          Rendering.finishMany (atEnd.depth + 1 - atBody.depth) >>= fun _ => Rendering.finish)
      (.startBody :: (ss ++ [.finishBody])) := by
  intro s marks hs
  have hstart : CarriesAt session visit s marks (Rendering.start "body") [.startBody]
      ((s.writer.openElements.length + 1) :: marks) :=
    CarriesAt.of_calls .startBody (calls_write _) rfl
  refine hstart.seq fun w hw => CarriesAt.look ?_
  refine (h { s with writer := w } _ hs).seq fun w' _ => CarriesAt.look ?_
  have hdepth : (State.view { s with writer := w }).depth = s.writer.openElements.length + 1 := by
    show w.openElements.reverse.length = _
    rw [openElements_startBody hw, List.length_reverse, List.length_cons]
  have hcalls : Calls session visit
      (Rendering.finishMany (w'.openElements.reverse.length + 1 -
        (s.writer.openElements.length + 1)) >>= fun _ => Rendering.finish)
      (Stroke.commands w'.openElements ((s.writer.openElements.length + 1) :: marks) .finishBody) := by
    rw [List.length_reverse]
    exact (calls_finishMany _).seq (calls_write .finish)
  rw [hdepth]
  exact CarriesAt.of_calls .finishBody hcalls rfl

theorem splitFirst_eq {doc : Document} (type : NodeType) {ids : List Nat}
    (inside : ∀ id ∈ ids, id < doc.size) :
    splitFirst doc type ids = takeFirst (typeAt doc) type ids := by
  cases ids with
  | nil => rfl
  | cons id rest =>
    rw [splitFirst, takeFirst, type?_eq (inside id (List.mem_cons_self ..)), typeAt]
    by_cases h : (doc.arena.tree id).kind.type = type
    · rw [if_pos (congrArg some h), if_pos h]
    · rw [if_neg fun e => h (Option.some.inj e), if_neg h]

/-- How a session uses the children of a document node. -/
def openingAt (settings : Settings) (doc : Document) (node : Nat) : Opening Nat :=
  .ofList (typeAt doc) settings.shortdescParagraph (doc.children node)

theorem document_eq (settings : Settings) (scene : Scene) (node : Nat) :
    document settings scene node =
      let o := openingAt settings scene.document node
      Rendering.start "topic" (topicAttributes (o.title.bind scene.idOf)) >>= fun _ =>
        Rendering.start "title" >>= fun _ =>
          o.title.elim (pure ()) Rendering.childrenOf >>= fun _ =>
            Rendering.finish >>= fun _ =>
              o.shortdesc.elim (pure ())
                  (fun id => Rendering.element "shortdesc" .none (Rendering.childrenOf id)) >>=
                fun _ => Rendering.start "body" >>= fun _ => Rendering.look >>= fun atBody =>
                  Rendering.nodes o.body >>= fun _ => Rendering.look >>= fun atEnd =>
                    Rendering.finishMany (atEnd.depth + 1 - atBody.depth) >>= fun _ =>
                      Rendering.finish := by
  have inside : ∀ c ∈ scene.document.children node, c < scene.document.size :=
    fun c hc => (Document.Arena.mem_children hc).2
  have inside' : ∀ c ∈ (takeFirst (typeAt scene.document) .heading
      (scene.document.children node)).2, c < scene.document.size := by
    intro c hc
    apply inside
    rw [← takeFirst_eq (typeAt scene.document) .heading (scene.document.children node)]
    exact List.mem_append_right _ hc
  rw [document, splitFirst_eq .heading inside, openingAt, Opening.ofList]
  generalize takeFirst (typeAt scene.document) .heading (scene.document.children node) = q at inside'
  obtain ⟨title, rest⟩ := q
  simp only [splitFirst_eq .paragraph inside']
  cases settings.shortdescParagraph with
  | false => cases title <;> rfl
  | true =>
    generalize takeFirst (typeAt scene.document) .paragraph rest = q'
    obtain ⟨shortdesc, body⟩ := q'
    cases title <;> cases shortdesc <;> rfl

theorem carries_document {settings : Settings} {node : Nat}
    (h : RendersAfter session visit settings node)
    (inside : node < session.scene.document.size)
    (hkind : session.scene.document.kind? node = some .document) :
    Carries session visit session.scene.settings.documentSuppression
      (document settings session.scene node)
      (documentStrokes (Rules.ofScene settings session.scene)
        ((openingAt settings session.scene.document node).map
          (partAt session settings true session.scene.settings.documentSuppression))) := by
  generalize session.scene.settings.documentSuppression = k
  have hlt : ∀ c ∈ session.scene.document.children node,
      node < c ∧ c < session.scene.document.size := fun c hc => Document.Arena.mem_children hc
  have htype : typeAt session.scene.document node = .document := typeAt_eq hkind
  have hwhole : ∀ c ∈ session.scene.document.children node,
      Carries session visit k (Rendering.node c) (partAt session settings true k c).whole := by
    intro c hc
    have hchild := carries_child (k := k) h (Nat.le_refl node) inside hc
    rwa [htype] at hchild
  have hinside : ∀ c ∈ session.scene.document.children node,
      typeAt session.scene.document c ≠ .document →
      Carries session visit k (Rendering.childrenOf c) (partAt session settings true k c).inside :=
    fun c hc => carries_childrenOf h (Nat.le_of_lt (hlt c hc).1) (hlt c hc).2
  have hbody := carries_body (Carries.nodes (openingAt settings session.scene.document node).body
    fun c hc => hwhole c (Opening.body_mem hc))
  have htitle : Carries session visit k
      ((openingAt settings session.scene.document node).title.elim (pure ()) Rendering.childrenOf)
      (((openingAt settings session.scene.document node).title.map
        (partAt session settings true k)).elim [] Part.inside) := by
    cases ho : (openingAt settings session.scene.document node).title with
    | none => exact Carries.pure_nil
    | some c =>
      refine hinside c (Opening.title_mem ho) ?_
      rw [Opening.title_type ho]
      decide
  have hshortdesc : Carries session visit k
      ((openingAt settings session.scene.document node).shortdesc.elim (pure ())
        fun id => Rendering.element "shortdesc" .none (Rendering.childrenOf id))
      (((openingAt settings session.scene.document node).shortdesc.map
        (partAt session settings true k)).elim [] fun part =>
          around "shortdesc" .none part.inside) := by
    cases ho : (openingAt settings session.scene.document node).shortdesc with
    | none => exact Carries.pure_nil
    | some c =>
      refine (hinside c (Opening.shortdesc_mem ho) ?_).element "shortdesc" .none
      rw [(Opening.shortdesc_type ho).2]
      decide
  have hid : ((openingAt settings session.scene.document node).title.map
      (partAt session settings true k)).bind (fun part => session.scene.idOf part.tree.id) =
      (openingAt settings session.scene.document node).title.bind session.scene.idOf := by
    cases (openingAt settings session.scene.document node).title with
    | none => rfl
    | some c => exact congrArg session.scene.idOf (Document.Arena.id_tree _ c)
  rw [document_eq, documentStrokes, Opening.map, wholes_map, Rules.ofScene, hid, around,
    List.cons_append, List.append_assoc]
  exact (Carries.start "topic" _).seq ((Carries.start "title" .none).seq
    (htitle.seq (Carries.finish.seq (hshortdesc.seq hbody))))

theorem carries_heading {settings : Settings} {node k level : Nat} {written : Option String}
    (hinside : Carries session visit k (Rendering.childrenOf node)
      (insideStrokes (Rules.ofScene settings session.scene) k
        (session.scene.document.arena.tree node)))
    (hkind : session.scene.document.kind? node = some (.heading level written)) :
    Carries session visit k (heading settings session.scene node)
      ((if isTopLevel session.scene.document node then
          .startSection (sectionAttributes (Rules.ofScene settings session.scene) node)
            (nestedAttributes (Rules.ofScene settings session.scene) node level)
        else .start "p" (nestedAttributes (Rules.ofScene settings session.scene) node level)) ::
        (insideStrokes (Rules.ofScene settings session.scene) k
          (session.scene.document.arena.tree node) ++ [.finish])) := by
  intro s marks hs
  rw [heading, hkind]
  apply CarriesAt.look
  have hrest := hinside.seq (f := fun _ => Rendering.finish) Carries.finish
  cases isTopLevel session.scene.document node with
  | false => exact (hinside.element "p" _) s marks hs
  | true =>
    cases hplace : bodyPlace s.view.openElements with
    | none =>
      -- a heading that is rendered by itself has no body around it
      have hcalls : Calls session visit
          (Rendering.start "p" (nestedAttributes (Rules.ofScene settings session.scene) node level))
          (Stroke.commands s.writer.openElements marks
            (.startSection (sectionAttributes (Rules.ofScene settings session.scene) node)
              (nestedAttributes (Rules.ofScene settings session.scene) node level))) := by
        rw [Stroke.commands, show bodyPlace s.writer.openElements.reverse = none from hplace]
        exact calls_write _
      exact (CarriesAt.of_calls _ hcalls rfl).seq fun w _ => hrest { s with writer := w } marks hs
    | some place =>
      have hcalls : Calls session visit
          (Rendering.finishMany (s.view.depth - (place + 1)) >>= fun _ =>
            Rendering.start "section" (sectionAttributes (Rules.ofScene settings session.scene) node)
              >>= fun _ => Rendering.start "title")
          (Stroke.commands s.writer.openElements marks
            (.startSection (sectionAttributes (Rules.ofScene settings session.scene) node)
              (nestedAttributes (Rules.ofScene settings session.scene) node level))) := by
        rw [Stroke.commands, show bodyPlace s.writer.openElements.reverse = some place from hplace,
          View.depth, State.view, List.length_reverse]
        exact (calls_finishMany _).seq ((calls_write _).seq (calls_write _))
      have hall := (CarriesAt.of_calls _ hcalls rfl).seq
        (f := fun _ => Rendering.childrenOf node >>= fun _ => Rendering.finish)
        fun w _ => hrest { s with writer := w } marks hs
      refine hall.congr ?_
      rw [perform_assoc]
      exact perform_congr _ (fun _ s => (perform_assoc _ _ _ s).symm) s

theorem carries_columns {k : Nat} (index : Nat) (alignments : List Document.ColumnAlignment) :
    Carries session visit k (columns index alignments) (columnStrokes index alignments) := by
  induction alignments generalizing index with
  | nil => exact Carries.pure_nil
  | cons alignment rest ih => exact (Carries.pure_nil.element "colspec" _).seq (ih (index + 1))

theorem carries_rows {settings : Settings} {k : Nat} {ids : List Nat}
    (inside : ∀ c ∈ ids, c < session.scene.document.size)
    (hwhole : ∀ c ∈ ids, Carries session visit k (Rendering.node c)
      (partAt session settings false k c).whole) (inBody : Bool) :
    Carries session visit k
      (tableChildren session.scene.document inBody ids >>= fun inBody =>
        if inBody then Rendering.finish else pure ())
      (rowStrokes inBody (ids.map (partAt session settings false k))) := by
  induction ids generalizing inBody with
  | nil =>
    cases inBody with
    | false => exact Carries.pure_nil
    | true => exact Carries.finish
  | cons c rest ih =>
    have hc := hwhole c (List.mem_cons_self ..)
    have hrest := fun inBody => ih (fun d hd => inside d (List.mem_cons_of_mem _ hd))
      (fun d hd => hwhole d (List.mem_cons_of_mem _ hd)) inBody
    have hrow : (session.scene.document.type? c == some .tableRow) =
        ((partAt session settings false k c).type == .tableRow) := by
      rw [type?_eq (inside c (List.mem_cons_self ..))]
      rfl
    rw [tableChildren, List.map_cons, rowStrokes, hrow, List.append_assoc]
    generalize ((partAt session settings false k c).type == .tableRow) = isRow
    have hrow := hc.seq (f := fun _ => tableChildren session.scene.document (inBody || isRow) rest
      >>= fun inBody => if inBody then Rendering.finish else pure ()) (hrest (inBody || isRow))
    intro s marks hs
    cases isRow && !inBody with
    | false => exact (hrow s marks hs).congr (perform_assoc _ _ _ s)
    | true =>
      have hbody := (Carries.start "tbody" .none).seq (f := fun _ => Rendering.node c >>= fun _ =>
        tableChildren session.scene.document (inBody || isRow) rest >>= fun inBody =>
          if inBody then Rendering.finish else pure ()) hrow
      exact (hbody s marks hs).congr <| (perform_assoc (Rendering.start "tbody")
        (fun _ => Rendering.node c >>= fun _ =>
          tableChildren session.scene.document (inBody || isRow) rest) _ s).trans
        (perform_congr _ (fun _ s => perform_assoc _ _ _ s) s)

/-- The suppression under which the handler of a node starts. -/
def startSuppression (session : Session σ) (type : NodeType) (k : Nat) : Nat :=
  if type = .document then session.scene.settings.documentSuppression else k

theorem carries_html {k : Nat} {p : Rendering Unit} {ss : List Stroke}
    (h : Carries session visit k p ss) (html : String) (treatment : HtmlTreatment) :
    Carries session visit k
      (match treatment with
        | .dropped => pure ()
        | .asText => p
        | .asInstruction => Rendering.instruction "html" (some html))
      (htmlStrokes html ss treatment) := by
  cases treatment with
  | dropped => exact Carries.pure_nil
  | asText => exact h
  | asInstruction => exact Carries.instruction "html" (some html)

theorem carries_link {settings : Settings} {node k : Nat} {url title : String}
    {ss : List Stroke} (h : Carries session visit k (Rendering.childrenOf node) ss)
    (hkind : session.scene.document.kind? node = some (.link url title)) :
    Carries session visit k (link settings session.scene node)
      (if 0 < k then ss else around "xref" (linkAttributes settings url) ss) := by
  intro s marks hs
  rw [link, hkind]
  apply CarriesAt.look
  have hlinks : s.view.linksSuppressed = decide (0 < k) := congrArg (fun n => decide (0 < n)) hs
  by_cases hk : 0 < k
  · rw [if_pos hk]
    simp only [hlinks, hk, decide_true, if_true]
    exact h s marks hs
  · rw [if_neg hk]
    simp only [hlinks, hk, decide_false]
    exact h.element "xref" _ s marks hs

/-- The vocabulary's handler of a node makes the node's strokes. -/
theorem carries_handler {settings : Settings} {node k : Nat} {kind : NodeKind} {handler : Handler}
    (h : RendersAfter session visit settings node)
    (inside : node < session.scene.document.size)
    (hkind : session.scene.document.kind? node = some kind)
    (hhandler : handlerFor settings kind.type = some handler) :
    Carries session visit (startSuppression session kind.type k)
      (handler.render session.scene node) (strokesAt session settings k node) := by
  have htree := tree_of_kind? hkind
  have htypeAt := typeAt_eq hkind
  have hinside : kind.type ≠ .document → ∀ k, Carries session visit k (Rendering.childrenOf node)
      (wholes (parts (Rules.ofScene settings session.scene) false k
        ((session.scene.document.children node).map session.scene.document.arena.tree))) := by
    intro hne k
    have hcarries := carries_childrenOf (k := k) h (Nat.le_refl node) inside (htypeAt ▸ hne)
    rwa [htree] at hcarries
  rw [strokesAt, htree]
  cases kind with
  | document =>
    cases hhandler
    rw [strokes, parts_children, Opening.ofList_map]
    exact carries_document h inside hkind
  | heading level written =>
    cases hhandler
    have hcontent := hinside nofun k
    have hheading : Carries session visit k (heading settings session.scene node) _ :=
      carries_heading (by rwa [htree]) hkind
    rwa [htree] at hheading
  | paragraph =>
    cases hhandler
    exact (hinside nofun k).element "p" .none
  | blockQuote =>
    cases hhandler
    exact (hinside nofun k).element "lq" .none
  | codeBlock info literal =>
    cases hhandler
    show Carries _ _ _ (codeBlock settings session.scene node) _
    rw [codeBlock, hkind]
    exact (Carries.characters _).element "codeblock" _
  | htmlBlock literal =>
    cases hhandler
    show Carries _ _ _ (htmlBlock settings session.scene node) (htmlStrokes _ _ _)
    rw [htmlBlock, hkind]
    exact carries_html ((Carries.characters _).element "p" .none) _ (settings.blockTreatment literal)
  | list first =>
    cases hhandler
    show Carries _ _ _ (list session.scene node) _
    rw [list, hkind]
    cases first with
    | none => exact (hinside nofun k).element "ul" .none
    | some _ => exact (hinside nofun k).element "ol" .none
  | item =>
    cases hhandler
    exact (hinside nofun k).element "li" .none
  | table alignments =>
    cases hhandler
    show Carries _ _ _ (table session.scene node) _
    rw [table, hkind, strokes, parts_children]
    have hwhole : ∀ c ∈ session.scene.document.children node,
        Carries session visit k (Rendering.node c) (partAt session settings false k c).whole := by
      intro c hc
      have hchild := carries_child (k := k) h (Nat.le_refl node) inside hc
      rwa [htypeAt] at hchild
    have hrows := carries_rows (fun c hc => (Document.Arena.mem_children hc).2) hwhole false
    exact (((carries_columns 1 alignments).seq hrows).element "tgroup" _).element "table" .none
  | tableHead =>
    cases hhandler
    exact ((hinside nofun k).element "row" .none).element "thead" .none
  | tableRow =>
    cases hhandler
    exact (hinside nofun k).element "row" .none
  | tableCell =>
    cases hhandler
    exact (hinside nofun k).element "entry" .none
  | emphasis =>
    cases hhandler
    exact (hinside nofun k).element "i" .none
  | strong =>
    cases hhandler
    exact (hinside nofun k).element "b" .none
  | strikethrough =>
    cases hhandler
    exact (hinside nofun k).element "ph" _
  | link url title =>
    cases hhandler
    rw [strokes]
    exact carries_link (hinside nofun k) hkind
  | image url title =>
    cases hhandler
    show Carries _ _ _ (image settings session.scene node) _
    rw [image, hkind]
    exact ((hinside nofun (k + 1)).withoutLinks.element "alt" .none).element "image" _
  | text content =>
    cases hhandler
    show Carries _ _ _ (text session.scene node) _
    rw [text, hkind]
    exact Carries.characters content
  | code content =>
    cases hhandler
    show Carries _ _ _ (code session.scene node) _
    rw [code, hkind]
    exact (Carries.characters content).element "codeph" .none
  | inlineHtml html =>
    cases hhandler
    show Carries _ _ _ (inlineHtml settings session.scene node) _
    rw [inlineHtml, hkind]
    exact carries_html (Carries.characters html) html (settings.inlineTreatment html)
  | softBreak =>
    cases hhandler
    exact Carries.characters _
  | hardBreak =>
    cases hhandler
    exact Carries.instruction "linebreak" none
  | thematicBreak =>
    cases hhandler
    exact Carries.pure_nil
  | custom name literal => cases hhandler

/-- A program that makes strokes makes them as a handler too; what it suppressed is as before. -/
theorem carries_visit {depth k : Nat} (frame : Frame) (marks : Marks) {ss : List Stroke}
    {s : State σ}
    (h : Carries session (session.visit depth) (startSuppression session frame.type k)
      (frame.chain.outer.handler.render session.scene frame.node) ss)
    (hs : s.suppression = k) :
    session.visit (depth + 1) frame s =
      .ok ((play session.sink ss ⟨s.writer, marks⟩).1,
        { s with writer := (play session.sink ss ⟨s.writer, marks⟩).2.writer }) ∧
    ((play session.sink ss ⟨s.writer, marks⟩).1 = .ok () →
      (play session.sink ss ⟨s.writer, marks⟩).2.marks = marks) := by
  have hstart : (session.enter frame s).suppression = startSuppression session frame.type k := by
    rw [Session.enter, startSuppression, hs]
  obtain ⟨k', hperform, hok⟩ := h (session.enter frame s) marks hstart
  refine ⟨?_, fun hplay => (hok hplay).2⟩
  rw [Session.visit_succ, hperform]
  rfl

/-- With the topic vocabulary alone, rendering a node makes its strokes. -/
theorem carries_node (session : Session σ) {view : OptionView}
    (hregistry : session.registry = registry view)
    {depth id : Nat} (inside : id < session.scene.document.size)
    (hdepth : session.scene.document.size ≤ depth + id) (k : Nat) :
    Carries session (session.visit depth) k (Rendering.node id)
      (strokesAt session (Settings.ofView view) k id) := by
  induction depth generalizing id k with
  | zero => omega
  | succ depth ih =>
    -- children come later than their parent, so one level of nesting less is enough for them
    have hafter : RendersAfter session (session.visit depth) (Settings.ofView view) id :=
      fun c hlt hc k => ih hc (by omega) k
    obtain ⟨kind, hkind⟩ := exists_kind? inside
    have htype := type?_of_kind? hkind
    intro s marks hs
    rw [CarriesAt, Session.perform_node, Session.renderNode, htype]
    simp only [hregistry, chain?_registry]
    cases hhandler : handlerFor (Settings.ofView view) kind.type with
    | none =>
      -- only custom types have no handler in the vocabulary
      cases kind with
      | custom name literal =>
        have hstrokes : strokesAt session (Settings.ofView view) k id =
            [.refuse (.custom name)] := by
          rw [strokesAt, tree_of_kind? hkind]
          rfl
        rw [hstrokes, play_singleton]
        exact ⟨s.suppression, rfl, fun hok => by cases hok⟩
      | _ => cases hhandler
    | some handler =>
      obtain ⟨hvisit, hmarks⟩ := carries_visit ⟨id, kind.type, ⟨⟨"core"⟩, handler⟩, []⟩ marks
        (carries_handler hafter inside hkind hhandler) hs
      exact ⟨s.suppression, hvisit, fun hplay => ⟨rfl, hmarks hplay⟩⟩

end DitaTopic.Topic
