import DitaTopic.Proofs.Document.Growth
import DitaTopic.Proofs.Topic.Runs
import DitaTopic.Proofs.Topic.Settling

/-!
# Where link markup stands

A session with the topic vocabulary alone writes the start of a link for those visited links that
no option and no image keeps from it, and for no other. The handler of another link does nothing
but render the children. The alternative text of an image holds links of nested document nodes
only. Nothing is said of sessions that fail.
-/

namespace DitaTopic

open DitaTopic.Document (NodeKind NodeType)
open DitaTopic.Markup
open DitaTopic.Options
open DitaTopic.Render

namespace Topic

/-- Whether a node is a link that is shown as one: links are rendered at all, and none of the nodes
above it, up to the nearest document node, is an image. -/
def showsLink (view : OptionView) (doc : Document) (id : Nat) : Bool :=
  doc.type? id == some .link && !Key.doNotRenderLinks.resolve view &&
    (doc.aboveInDocument id).all fun p => doc.type? p != some .image

variable {session : Session (Array MarkupEvent)} {events : List MarkupEvent}
  {start : Start (Array MarkupEvent)} {view : OptionView} {kind : NodeKind}

theorem suppressionAt_eq_zero {base : Nat} {doc : Document} {id : Nat} :
    doc.suppressionAt base id = 0 ↔
      base = 0 ∧ ∀ p ∈ doc.aboveInDocument id, doc.type? p ≠ some .image := by
  rw [Document.suppressionAt, Nat.add_eq_zero_iff, List.countP_eq_zero]
  simp only [beq_iff_eq]

/-- The links that are shown are those at which nothing is suppressed. -/
theorem writesLink_eq_showsLink (view : OptionView) (doc : Document) (id : Nat) :
    writesLink (Render.Settings.ofView view).documentSuppression doc id =
      showsLink view doc id := by
  have hbase : (Render.Settings.ofView view).documentSuppression = 0 ↔
      Key.doNotRenderLinks.resolve view = false := by
    show (if Key.doNotRenderLinks.resolve view then 1 else 0) = 0 ↔ _
    cases Key.doNotRenderLinks.resolve view <;> simp
  rw [writesLink, showsLink, Bool.and_assoc]
  congr 1
  rw [Bool.eq_iff_iff, beq_iff_eq, suppressionAt_eq_zero, hbase, Bool.and_eq_true,
    Bool.not_eq_true', List.all_eq_true]
  simp only [bne_iff_ne]

/-! ### Links that are not shown -/

/-- A handler does nothing but look around and render the children of its node, all of them in
order, and ends without an error. -/
structure RendersChildrenOnly (session : Session (Array MarkupEvent))
    (start : Start (Array MarkupEvent)) : Prop where
  asks : (session.requests start).map Prod.fst = [.look, .renderChildren start.frame.node]
  all : ∀ s, (.renderChildren start.frame.node, s) ∈ session.requests start →
    (session.framesOf (session.visit start.depth) (.renderChildren start.frame.node) s).map
      (fun q => q.1.node) = session.scene.document.children start.frame.node
  ends : ∃ s, session.result start = .ok (.ok (), s)

variable {settings : Settings} {node : Nat} {url title : String}

/-- Where links are suppressed, the handler of a link is the one that renders the children. -/
theorem asked_link (settings : Settings) (visit : Frame → Run (Array MarkupEvent) Outcome)
    (hkind : session.scene.document.kind? node = some (.link url title))
    {s : State (Array MarkupEvent)} (hs : 0 < s.suppression) :
    (link settings session.scene node).run.asked (session.answer visit) s =
        [(.look, s), (.renderChildren node, s)] ∧
      session.perform visit (link settings session.scene node) s =
        session.perform visit (Rendering.childrenOf node) s := by
  have hsuppressed : s.view.linksSuppressed = true := decide_eq_true hs
  have hasked := Session.asked_request session visit (.renderChildren node) s
  rw [link, hkind]
  constructor
  · show (Request.look, s) :: (ite (s.view.linksSuppressed = true) (Rendering.childrenOf node)
      _).run.asked (session.answer visit) s = _
    rw [if_pos hsuppressed]
    exact congrArg _ hasked
  · simp only
    rw [Session.perform_bind_of_ok session visit (Session.perform_look session visit s),
      if_pos hsuppressed]

theorem exists_link {doc : Document} (h : doc.type? node = some .link) :
    ∃ url title, doc.kind? node = some (.link url title) := by
  obtain ⟨kind, hkind, htype⟩ := Option.map_eq_some_iff.mp h
  cases kind with
  | link url title => exact ⟨url, title, hkind⟩
  | _ => cases htype

theorem hidden_link (hregistry : session.registry = registry view)
    (h : Rendered session (Settings.ofView view) events start)
    (htype : session.scene.document.type? start.frame.node = some .link)
    (hhidden : suppressionIn session start.frame.node ≠ 0) :
    RendersChildrenOnly session start := by
  obtain ⟨after, -, -, hresult, -⟩ := h.run
  obtain ⟨inside, -⟩ := Document.mem_visited.mp h.visited
  obtain ⟨url, title, hkind⟩ := exists_link htype
  obtain ⟨hframe, hhandler⟩ := handlerFor_of_found hregistry h.found hkind
  have hrender : start.frame.chain.outer.handler.render = link (Settings.ofView view) := by
    rw [← Option.some.inj hhandler]
  have hsuppressed : 0 < (session.enter start.frame start.before).suppression := by
    show 0 < if start.frame.type = .document then _ else start.before.suppression
    rw [← hframe, if_neg nofun, h.suppression]
    exact Nat.pos_of_ne_zero hhidden
  obtain ⟨hasked, hperform⟩ :=
    asked_link (Settings.ofView view) (session.visit start.depth) hkind hsuppressed
  rw [← hrender] at hasked hperform
  have hrequests : session.requests start = _ := hasked
  refine ⟨by rw [hrequests]; rfl, fun s hs => ?_, after, hresult⟩
  rw [hrequests] at hs
  obtain rfl : s = session.enter start.frame start.before := by
    rcases List.mem_pair.mp hs with heq | heq <;> cases heq
    rfl
  have hchildren : session.result start = _ := hperform
  rw [hresult, Session.perform_childrenOf session _ inside] at hchildren
  show (if _ then _ else []).map _ = _
  rw [if_pos inside]
  exact Session.nodes_framesOfEach hchildren.symm

/-! ### The alternative texts of images -/

/-- An image that is written to its end has its alternative text between its own start and what
ends it; the text is balanced. -/
theorem score_image {inside : List Stroke} (h : Settles inside) (attributes : Attributes)
    (openElements : List String) (marks : Marks)
    (hok : (score (around "image" attributes (around "alt" .none inside)) openElements
      marks).outcome = .ok ()) :
    ∃ alt behind, (score (around "image" attributes (around "alt" .none inside)) openElements
        marks).events =
          .startElement "image" attributes :: .startElement "alt" .none ::
            (alt ++ .endElement "alt" :: behind) ∧
      openAfter [] alt = some [] := by
  let rest : List Stroke := inside ++ [.finish] ++ [.finish]
  let within : List String := "alt" :: "image" :: openElements
  have hscore : score (around "image" attributes (around "alt" .none inside)) openElements marks =
      ((score rest within marks).behind [.startElement "alt" .none]).behind
        [.startElement "image" attributes] := rfl
  rw [hscore] at hok ⊢
  obtain ⟨hleft, -⟩ := ((h.around "alt" .none).around "image" attributes) openElements
    (List.suffix_refl _) ⟨hok, rfl, rfl⟩
  have hnests : openAfter ([] ++ within) (score rest within marks).events =
      some (score rest within marks).openElements :=
    (delivers_play Sink.recorder rest ⟨#[], within⟩ marks).nests
  obtain ⟨alt, behind, hevents, halt⟩ := exists_end hnests (Nat.le_succ_of_le hleft.length_le)
  exact ⟨alt, behind, by rw [Score.behind_behind, Score.behind, hevents]; rfl, halt⟩

theorem exists_image {doc : Document} (h : doc.type? node = some .image) :
    ∃ url title, doc.kind? node = some (.image url title) := by
  obtain ⟨kind, hkind, htype⟩ := Option.map_eq_some_iff.mp h
  cases kind with
  | image url title => exact ⟨url, title, hkind⟩
  | _ => cases htype

theorem strokesAt_image {k : Nat}
    (hkind : session.scene.document.kind? node = some (.image url title)) :
    strokesAt session settings k node = around "image" (imageAttributes settings url)
      (around "alt" .none (insideStrokes (Rules.ofScene settings session.scene) (k + 1)
        (session.scene.document.arena.tree node))) := by
  rw [strokesAt, tree_of_kind? hkind]
  rfl

/-- The alternative text of an image that was written: it ends with its end, and every link in it
stands below a document node below the image. -/
structure AltHolds (view : OptionView) (doc : Document) (events : List MarkupEvent)
    (start : Start (Array MarkupEvent)) (attributes : Attributes) (alt : List MarkupEvent)
    (links : List Nat) : Prop where
  recorded : ∃ behind, events = log start.before ++ .startElement "image" attributes ::
    .startElement "alt" .none :: (alt ++ .endElement "alt" :: behind)
  balanced : openAfter [] alt = some []
  shown : alt.filter MarkupEvent.isLink = links.map (linkStart (Settings.ofView view) doc)
  nested : ∀ n ∈ links, showsLink view doc n = true ∧ ∃ p, doc.type? p = some .document ∧
    p ∈ doc.arena.ancestors n ∧ start.frame.node ∈ doc.arena.ancestors p

/-- A link shown below an image has a document node in between. -/
theorem exists_document_above_link {doc : Document} {n image : Nat}
    (hshown : showsLink view doc n = true) (himage : doc.type? image = some .image)
    (hn : n ∈ doc.arena.visitedFrom image) :
    ∃ p, doc.type? p = some .document ∧ p ∈ doc.arena.ancestors n ∧
      image ∈ doc.arena.ancestors p := by
  rw [showsLink, Bool.and_eq_true, Bool.and_eq_true, beq_iff_eq, List.all_eq_true] at hshown
  obtain ⟨⟨hlink, -⟩, habove⟩ := hshown
  have hne : n ≠ image := by
    rintro rfl
    rw [hlink] at himage
    cases himage
  have hancestor : image ∈ doc.arena.ancestors n :=
    (doc.built.mem_subtree_iff.mp (List.mem_of_mem_filter hn)).2.resolve_left hne
  refine Document.exists_document_between hancestor (fun hmem => ?_) (by simp [himage])
  exact bne_iff_ne.mp (habove image hmem) himage

theorem alt_of_rendered (hsink : session.sink = Sink.recorder)
    (hregistry : session.registry = registry view)
    (hsettings : session.scene.settings = .ofView view)
    (h : Rendered session (Settings.ofView view) events start)
    (htype : session.scene.document.type? start.frame.node = some .image) :
    ∃ attributes alt links,
      AltHolds view session.scene.document events start attributes alt links := by
  obtain ⟨hok, ⟨after, behind, -, hlog, hevents⟩, hlinks⟩ := written_of_rendered hsink hregistry h
  rw [hlog, List.append_assoc] at hevents
  obtain ⟨url, title, hkind⟩ := exists_image htype
  rw [scoreAt, strokesAt_image hkind] at hok hevents hlinks
  obtain ⟨alt, rest, hscore, hbalanced⟩ := score_image (settles_strokes _ _).2 _ _ _ hok
  rw [hscore] at hevents hlinks
  rw [filter_isLink_start (by decide), filter_isLink_start (by decide), List.filter_append] at hlinks
  obtain ⟨links, others, hvisited, hshown, -⟩ := List.map_eq_append_iff.mp hlinks.symm
  refine ⟨imageAttributes (Settings.ofView view) url, alt, links,
    ⟨rest ++ behind, ?_⟩, hbalanced, hshown.symm, fun n hn => ?_⟩
  · rw [hevents, List.cons_append, List.cons_append, List.append_assoc]
    rfl
  · have hmem := List.mem_append_left others hn
    rw [← hvisited, hsettings] at hmem
    obtain ⟨hn, hwrites⟩ := List.mem_filter.mp hmem
    rw [writesLink_eq_showsLink] at hwrites
    exact ⟨hwrites, exists_document_above_link hwrites htype hn⟩

/-- What a session of the vocabulary alone records and does about links. `starts` are the handlers
that run in it, in the order in which they start. -/
structure LinksPlaced (session : Session (Array MarkupEvent)) (view : OptionView)
    (events : List MarkupEvent) (starts : List (Start (Array MarkupEvent))) : Prop where
  /-- The starts of links that are recorded are those of the links that are shown. -/
  shown : events.filter MarkupEvent.isLink =
    (session.scene.document.visited.filter (showsLink view session.scene.document)).map
      (linkStart (Settings.ofView view) session.scene.document)
  /-- The links and images that are rendered are those that are visited, once each, in order. -/
  rendered : (starts.filter fun start => session.scene.document.concernsLinks start.frame.node).map
    (fun start => start.frame.node) =
      session.scene.document.visited.filter session.scene.document.concernsLinks
  hidden : ∀ start ∈ starts, session.scene.document.type? start.frame.node = some .link →
    showsLink view session.scene.document start.frame.node = false →
      RendersChildrenOnly session start
  alternatives : ∀ start ∈ starts,
    session.scene.document.type? start.frame.node = some .image →
      ∃ attributes alt links,
        AltHolds view session.scene.document events start attributes alt links

theorem linksPlaced_of_run (hsink : session.sink = Sink.recorder)
    (hregistry : session.registry = registry view)
    (hsettings : session.scene.settings = .ofView view) {depth : Nat}
    (hdepth : session.scene.document.size ≤ depth) {t : Transcript (Array MarkupEvent)}
    (hrun : session.run depth Document.rootId #[] = .ok t) (hok : t.outcome = .ok ()) :
    LinksPlaced session view t.sink.toList
      (session.startsOf depth (.render Document.rootId) (openingState session)) := by
  obtain ⟨s, hlog, heffect⟩ := effect_of_run hsink hregistry hdepth hrun hok
  have hplaces := heffect.places
  have hrendered {start : Start (Array MarkupEvent)}
      (hstart : start ∈ session.startsOf depth (.render Document.rootId) (openingState session)) :=
    rendered_of_run hsink hregistry hdepth hrun hok hstart
  rw [Session.startsIn_node] at hplaces
  refine ⟨?_, ?_, ?_, ?_⟩
  · obtain ⟨written, hwritten, hlinks⟩ := heffect.written
    have hends : (s.writer.openElements.map MarkupEvent.endElement ++
        ending t.outcome).filter MarkupEvent.isLink = [] := by
      rw [List.filter_append, filter_isLink_ends, hok]
      rfl
    have hopening : (log (openingState session)).filter MarkupEvent.isLink = [] := rfl
    rw [hlog, hwritten, List.filter_append, List.filter_append, hopening, hends, hlinks,
      List.append_nil, List.nil_append, linksIn, linksFrom, hsettings,
      funext (writesLink_eq_showsLink view session.scene.document)]
    rfl
  · have hnodes := congrArg (List.map Prod.fst) hplaces
    rw [placesOf, placesIn, placesFrom, List.map_map, List.map_map] at hnodes
    exact hnodes.trans (List.map_id _)
  · intro start hstart htype hhidden
    refine hidden_link hregistry (hrendered hstart) htype fun hzero => ?_
    rw [suppressionIn, hsettings] at hzero
    rw [← writesLink_eq_showsLink, writesLink, htype, beq_self_eq_true, Bool.true_and,
      beq_eq_false_iff_ne] at hhidden
    exact hhidden hzero
  · exact fun start hstart => alt_of_rendered hsink hregistry hsettings (hrendered hstart)

/-- A session with the topic vocabulary alone that succeeds places links where they may stand. -/
theorem links_placed (renderer : Renderer) (doc : Document) :
    ∃ t, renderer.topicOnly.render Sink.recorder doc #[] = .ok t ∧
      let session := sessionOf renderer doc Sink.recorder
      let depth := renderer.depth doc session.registry
      session.run depth Document.rootId #[] = .ok t ∧
      (t.outcome = .ok () →
        LinksPlaced session (renderer.view doc) t.sink.toList
          (session.startsOf depth (.render Document.rootId) (openingState session))) := by
  have hbuild : Registry.build renderer.topicOnly.providers (renderer.topicOnly.view doc) =
      .ok (registry (renderer.view doc)) := build_provider _
  have inside : Document.rootId < doc.size := doc.built.size_pos
  obtain ⟨t, hrender⟩ : ∃ t, renderer.topicOnly.renderNode Sink.recorder doc Document.rootId #[] =
      .ok t := ⟨_, renderNode_recorder renderer inside⟩
  have hrun : (sessionOf renderer doc Sink.recorder).run
      (renderer.depth doc (registry (renderer.view doc))) Document.rootId #[] = .ok t := by
    rw [Renderer.renderNode, if_pos inside, hbuild] at hrender
    exact hrender
  have hsink : (sessionOf renderer doc Sink.recorder).sink = Sink.recorder := rfl
  have hregistry : (sessionOf renderer doc Sink.recorder).registry =
      registry (renderer.view doc) := rfl
  have hsettings : (sessionOf renderer doc Sink.recorder).scene.settings =
      .ofView (renderer.view doc) := rfl
  exact ⟨t, hrender, hrun,
    linksPlaced_of_run hsink hregistry hsettings (size_le_depth renderer doc) hrun⟩

/-- A paragraph with an image, in whose alternative text are a link and a document node that has
another link. -/
def pictured : Document :=
  ((((Document.empty.attach 0 .paragraph).attach 1 (.image "i" "")).attach 2 (.link "a" "")).attach 2
    .document).attach 4 (.link "b" "")

/-- Only the link of the inner document node is shown. -/
example : pictured.visited.filter (showsLink (.ofSet KeyedList.empty) pictured) = [5] := by cbv

end Topic

end DitaTopic
