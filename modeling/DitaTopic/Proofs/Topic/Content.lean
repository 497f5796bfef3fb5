import DitaTopic.Proofs.Topic.Reading
import DitaTopic.Proofs.Topic.Session

/-!
# Content

Every text and every instruction that a session with the topic vocabulary alone writes comes from
one node, and the nodes give theirs in the order in which they stand in the document. What a node
gives depends on its kind and on the options; where the node stands has no part in it. Nodes below
a leaf are not rendered and give nothing.
-/

namespace DitaTopic

open DitaTopic.Document (NodeKind NodeType Tree)
open DitaTopic.Markup
open DitaTopic.Options
open DitaTopic.Render

/-- Whether an event is a text or an instruction. -/
def Markup.MarkupEvent.isLeaf : MarkupEvent → Bool
  | .characters _ => true
  | .instruction .. => true
  | _ => false

namespace Topic

/-- Raw HTML as it is written. -/
def rawHtml (suppress escape : Bool) (html : String) : List MarkupEvent :=
  if suppress then [] else if escape then [.characters html] else [.instruction "html" html]

/-- The texts and instructions that a node gives itself. -/
def contribution (view : OptionView) : NodeKind → List MarkupEvent
  | .text content => [.characters content]
  | .code content => [.characters content]
  | .softBreak => [.characters (Key.softBreak.resolve view)]
  | .hardBreak => [.instruction "linebreak" ""]
  | .codeBlock _ literal =>
    [.characters (String.ofList (Text.trimTrailingBlankLines
      (Key.maxTrailingBlankLines.resolve view).toNat literal.toList))]
  | .htmlBlock literal =>
    let html := String.ofList (Text.trimEnd literal.toList)
    if isHtmlComment literal then
      rawHtml (Key.suppressHtmlCommentBlocks.resolve view)
        (Key.escapeHtmlCommentBlocks.resolve view) html
    else rawHtml (Key.suppressHtmlBlocks.resolve view) (Key.escapeHtmlBlocks.resolve view) html
  | .inlineHtml html =>
    if isHtmlComment html then
      rawHtml (Key.suppressInlineHtmlComments.resolve view)
        (Key.escapeInlineHtmlComments.resolve view) html
    else rawHtml (Key.suppressInlineHtml.resolve view) (Key.escapeInlineHtml.resolve view) html
  | _ => []

/-- A text or an instruction, or a type that nobody handles. -/
abbrev Finding := Except NodeType MarkupEvent

def Stroke.findings : Stroke → List Finding
  | characters text => [.ok (.characters text)]
  | instruction target data => [.ok (.instruction target (data.getD ""))]
  | refuse type => [.error type]
  | _ => []

def findings (ss : List Stroke) : List Finding := ss.flatMap Stroke.findings

@[simp] theorem findings_nil : findings [] = [] := rfl

@[simp] theorem findings_cons (stroke : Stroke) (rest : List Stroke) :
    findings (stroke :: rest) = stroke.findings ++ findings rest := rfl

@[simp] theorem findings_append (first second : List Stroke) :
    findings (first ++ second) = findings first ++ findings second :=
  List.flatMap_append

@[simp] theorem findings_around (name : String) (attributes : Attributes) (inside : List Stroke) :
    findings (around name attributes inside) = findings inside := by
  rw [around, findings_cons, findings_append]
  exact List.append_nil _

/-- What is found before the first type that nobody handles. -/
def found : List Finding → List MarkupEvent
  | .ok event :: rest => event :: found rest
  | _ => []

/-- How a walk over findings ends. -/
def outcomeOf : List Finding → Outcome
  | [] => .ok ()
  | .ok _ :: rest => outcomeOf rest
  | .error type :: _ => .error (.noHandler type)

theorem found_map_ok (events : List MarkupEvent) (rest : List Finding) :
    found (events.map .ok ++ rest) = events ++ found rest := by
  induction events with
  | nil => rfl
  | cons event events ih => rw [List.map_cons, List.cons_append, found, ih, List.cons_append]

theorem outcomeOf_map_ok (events : List MarkupEvent) (rest : List Finding) :
    outcomeOf (events.map .ok ++ rest) = outcomeOf rest := by
  induction events with
  | nil => rfl
  | cons event events ih => exact ih

/-- Findings up to the first type that nobody handles. -/
def reach : List Finding → List Finding
  | [] => []
  | .ok event :: rest => .ok event :: reach rest
  | .error type :: _ => [.error type]

theorem found_reach (l : List Finding) : found (reach l) = found l := by
  induction l with
  | nil => rfl
  | cons finding rest ih =>
    cases finding with
    | ok event => exact congrArg (event :: ·) ih
    | error type => rfl

theorem outcomeOf_reach (l : List Finding) : outcomeOf (reach l) = outcomeOf l := by
  induction l with
  | nil => rfl
  | cons finding rest ih =>
    cases finding with
    | ok event => exact ih
    | error type => rfl

theorem reach_append_congr {a a' b b' : List Finding} (ha : reach a = reach a')
    (hb : reach b = reach b') : reach (a ++ b) = reach (a' ++ b') := by
  have hinner : ∀ l : List Finding, reach (l ++ b) = reach (reach l ++ b') := by
    intro l
    induction l with
    | nil => exact hb
    | cons finding rest ih =>
      cases finding with
      | ok event => exact congrArg (.ok event :: ·) ih
      | error type => rfl
  have houter : ∀ l : List Finding, reach (reach l ++ b') = reach (l ++ b') := by
    intro l
    induction l with
    | nil => rfl
    | cons finding rest ih =>
      cases finding with
      | ok event => exact congrArg (.ok event :: ·) ih
      | error type => rfl
  rw [hinner, ha, houter]

theorem reach_flatMap_congr {α : Type} {l : List α} {f g : α → List Finding}
    (h : ∀ x ∈ l, reach (f x) = reach (g x)) : reach (l.flatMap f) = reach (l.flatMap g) := by
  induction l with
  | nil => rfl
  | cons x rest ih =>
    exact reach_append_congr (h x (List.mem_cons_self ..))
      (ih fun y hy => h y (List.mem_cons_of_mem _ hy))

theorem leaves_ends (names : List String) :
    (names.map MarkupEvent.endElement).filter MarkupEvent.isLeaf = [] := by
  rw [List.filter_map]
  exact List.map_eq_nil_iff.mpr (List.filter_eq_nil_iff.mpr fun _ _ => nofun)

/-- The texts and instructions of a stroke, as it is scored, are its findings. -/
theorem score_findings (stroke : Stroke) (openElements : List String) (marks : Marks)
    (rest : List Finding) :
    found (stroke.findings ++ rest) =
      (stroke.score openElements marks).events.filter MarkupEvent.isLeaf ++
        (match stroke.verdict with
          | .ok _ => found rest
          | .error _ => []) ∧
    outcomeOf (stroke.findings ++ rest) =
      (match stroke.verdict with
        | .ok _ => outcomeOf rest
        | .error e => .error e) := by
  cases stroke with
  | startSection ofSection ofParagraph =>
    refine ⟨?_, rfl⟩
    rw [Stroke.score, Stroke.commands]
    cases bodyPlace openElements.reverse with
    | none => rfl
    | some place =>
      simp only [Command.eventsOf_finishes, List.filter_append, leaves_ends]
      rfl
  | finishBody =>
    refine ⟨?_, rfl⟩
    rw [Stroke.score, Stroke.commands, Command.eventsOf_finishes, List.filter_append, leaves_ends]
    cases openElements.drop (openElements.length + 1 - marks.headD 0) <;> rfl
  | finish => cases openElements <;> exact ⟨rfl, rfl⟩
  | _ => exact ⟨rfl, rfl⟩

theorem leaves_score (ss : List Stroke) (openElements : List String) (marks : Marks) :
    (score ss openElements marks).events.filter MarkupEvent.isLeaf = found (findings ss) ∧
      (score ss openElements marks).outcome = outcomeOf (findings ss) := by
  induction ss generalizing openElements marks with
  | nil => exact ⟨rfl, rfl⟩
  | cons stroke rest ih =>
    obtain ⟨hfound, houtcome⟩ := score_findings stroke openElements marks (findings rest)
    have hverdict : (stroke.score openElements marks).outcome = stroke.verdict := rfl
    rw [findings_cons, hfound, houtcome, score, Score.followedBy, hverdict]
    cases hv : stroke.verdict with
    | error e => exact ⟨(List.append_nil _).symm, hverdict.trans hv⟩
    | ok _ =>
      obtain ⟨hrest, hrest'⟩ :=
        ih (stroke.score openElements marks).openElements (stroke.score openElements marks).marks
      refine ⟨?_, hrest'⟩
      simp only [Score.behind, List.filter_append, hrest]

/-- The findings in a node of a kind. -/
def findingsAt (view : OptionView) : NodeKind → List Finding
  | .custom name _ => [.error (.custom name)]
  | kind => (contribution view kind).map .ok

theorem passesOver_findings : PassesOver Stroke.findings := ⟨fun _ _ _ => rfl, rfl, rfl, rfl⟩

theorem findings_htmlStrokes {html : String} {asText : List Stroke}
    (h : findings asText = [.ok (.characters html)]) (policy : HtmlPolicy) :
    findings (htmlStrokes html asText policy.treatment) =
      (rawHtml policy.suppress policy.escape html).map .ok := by
  obtain ⟨suppress, escape⟩ := policy
  cases suppress with
  | true => rfl
  | false =>
    cases escape with
    | true => exact h
    | false => rfl

variable {r : Rules} {view : OptionView}

/-- A document node holds what its children hold, whether it uses them as title, as short
description or in its body. -/
theorem findings_documentStrokes {wanted : Bool} {items : List Part}
    (h : ∀ part ∈ items, part.type = .heading ∨ part.type = .paragraph →
      findings part.inside = findings part.whole) :
    findings (documentStrokes r (.ofList Part.type wanted items)) =
      items.flatMap fun part => findings part.whole := by
  have htitle : findings ((Opening.ofList Part.type wanted items).title.elim [] Part.inside) =
      (Opening.ofList Part.type wanted items).title.toList.flatMap fun part =>
        findings part.whole := by
    cases ho : (Opening.ofList Part.type wanted items).title with
    | none => rfl
    | some part =>
      have hpart := h part (Opening.title_mem ho) (.inl (Opening.title_type ho))
      simpa using hpart
  have hshortdesc : findings ((Opening.ofList Part.type wanted items).shortdesc.elim []
        Part.inside) =
      (Opening.ofList Part.type wanted items).shortdesc.toList.flatMap fun part =>
        findings part.whole := by
    cases ho : (Opening.ofList Part.type wanted items).shortdesc with
    | none => rfl
    | some part =>
      have hpart := h part (Opening.shortdesc_mem ho) (.inr (Opening.shortdesc_type ho).2)
      simpa using hpart
  have hitems := Opening.items_eq Part.type wanted items
  generalize Opening.ofList Part.type wanted items = o at htitle hshortdesc hitems
  rw [← hitems, List.flatMap_append, List.flatMap_append, ← htitle, ← hshortdesc]
  exact passesOver_findings.documentStrokes r o

theorem findings_inside {top : Bool} {k : Nat} {t : Tree}
    (h : t.kind.type = .heading ∨ t.kind.type = .paragraph) :
    findings (insideStrokes r k t) = findings (strokes r top k t) := by
  obtain ⟨id, kind, children⟩ := t
  cases kind with
  | heading level written =>
    rw [strokes, findings_cons, findings_append, insideStrokes]
    cases top <;> exact (List.append_nil _).symm
  | paragraph => rw [strokes, findings_around, insideStrokes]
  | _ => rcases h with h | h <;> cases h

theorem findings_parts (top : Bool) (k : Nat) (children : List Tree) :
    (parts r top k children).flatMap (fun part => findings part.whole) =
      children.flatMap fun t => findings (strokes r top k t) := by
  rw [parts_eq, List.flatMap_map]
  rfl

theorem findingsAt_eq {kind : NodeKind} (hcustom : ∀ name literal, kind ≠ .custom name literal) :
    findingsAt view kind = (contribution view kind).map .ok := by
  cases kind with
  | custom name literal => exact absurd rfl (hcustom name literal)
  | _ => rfl

theorem findingsAt_of_not_leaf {kind : NodeKind} (hleaf : kind.isLeaf = false)
    (hcustom : ∀ name literal, kind ≠ .custom name literal) : findingsAt view kind = [] := by
  cases kind with
  | custom name literal => exact absurd rfl (hcustom name literal)
  | codeBlock | htmlBlock | text | code | inlineHtml | softBreak | hardBreak | thematicBreak =>
    cases hleaf
  | _ => rfl

/-- A node that is no leaf and that somebody handles holds what its children hold. -/
theorem findings_node (top : Bool) (k id : Nat) {kind : NodeKind} (children : List Tree)
    (hleaf : kind.isLeaf = false) (hcustom : ∀ name literal, kind ≠ .custom name literal) :
    ∃ top' k', findings (strokes r top k (.node id kind children)) =
      children.flatMap fun t => findings (strokes r top' k' t) := by
  by_cases hdocument : kind = .document
  · subst hdocument
    refine ⟨true, r.documentSuppression, ?_⟩
    rw [strokes, findings_documentStrokes, findings_parts]
    intro part hmem htype
    rw [parts_eq] at hmem
    obtain ⟨t, -, rfl⟩ := List.mem_map.mp hmem
    exact findings_inside htype
  · have hnode := passesOver_findings.node (r := r) top k id children hleaf hdocument hcustom
    have hlead : (lead r top id kind).flatMap Stroke.findings = [] := by
      cases kind with
      | heading level written => cases top <;> rfl
      | _ => rfl
    rw [hlead] at hnode
    exact ⟨false, linklessBelow k kind, hnode⟩

/-- A leaf holds its own contribution, whatever lies below it. -/
theorem findings_leaf (hr : r.settings = Settings.ofView view) (top : Bool) (k id : Nat)
    {kind : NodeKind} (children : List Tree) (hleaf : kind.isLeaf = true) :
    findings (strokes r top k (.node id kind children)) = findingsAt view kind := by
  cases kind with
  | codeBlock info literal =>
    rw [strokes, findings_around, hr]
    rfl
  | htmlBlock literal =>
    rw [strokes, hr, Settings.blockTreatment, findings_htmlStrokes (findings_around ..)]
    simp only [findingsAt, contribution]
    split <;> rfl
  | inlineHtml html =>
    rw [strokes, hr, Settings.inlineTreatment, findings_htmlStrokes rfl]
    simp only [findingsAt, contribution]
    split <;> rfl
  | code content =>
    rw [strokes, findings_around]
    rfl
  | softBreak =>
    rw [strokes, hr]
    rfl
  | text | hardBreak | thematicBreak =>
    rw [strokes]
    rfl
  | _ => cases hleaf

/-- The strokes of a tree hold the findings of the nodes that a walk meets which does not go below
leaves, whatever is around the tree. -/
theorem reach_strokes (hr : r.settings = Settings.ofView view) (top : Bool) (k : Nat) (t : Tree) :
    reach (findings (strokes r top k t)) = reach (t.visited.flatMap (findingsAt view)) := by
  induction t generalizing top k with
  | node id kind children ih =>
    rw [Tree.visited, List.flatMap_cons]
    cases hleaf : kind.isLeaf with
    | true => rw [findings_leaf hr top k id children hleaf, if_pos rfl]; simp
    | false =>
      rw [if_neg (by decide), Tree.visitedOf_eq, List.flatMap_assoc]
      by_cases hcustom : ∀ name literal, kind ≠ .custom name literal
      · obtain ⟨top', k', hnode⟩ := findings_node (r := r) top k id children hleaf hcustom
        rw [hnode, findingsAt_of_not_leaf hleaf hcustom]
        exact reach_flatMap_congr fun t ht => ih t ht top' k'
      · simp only [not_forall, not_not] at hcustom
        obtain ⟨name, literal, rfl⟩ := hcustom
        rw [strokes]
        rfl

/-- The kinds of the nodes that are rendered with a document, in the order of the document. -/
def renderedKinds (doc : Document) : List NodeKind :=
  (doc.preorder.filter fun id => !doc.arena.underLeaf id).filterMap doc.kind?

theorem visited_root (doc : Document) :
    (doc.arena.tree Document.rootId).visited = renderedKinds doc :=
  Document.Arena.visited_tree doc.built Document.rootId doc.built.size_pos
    (Document.Arena.underLeaf_root doc.arena)

/-- The events around a session and the ends after it are neither texts nor instructions. -/
theorem leaves_closed (s : Score) :
    s.inDocument.closed.filter MarkupEvent.isLeaf = s.events.filter MarkupEvent.isLeaf := by
  rw [Score.closed, List.filter_append, leaves_ends, List.append_nil, Score.inDocument]
  cases s.outcome with
  | ok _ =>
    simp only [List.filter_append, leaves_ends]
    exact List.append_nil _
  | error e => rfl

theorem flatMap_findingsAt {kinds : List NodeKind}
    (h : ∀ kind ∈ kinds, ∀ name literal, kind ≠ .custom name literal) :
    kinds.flatMap (findingsAt view) = (kinds.flatMap (contribution view)).map .ok := by
  rw [List.map_flatMap]
  exact List.flatMap_congr fun kind hkind => findingsAt_eq (h kind hkind)

/-- Kinds are walked to the end exactly where none of them is custom. -/
theorem outcomeOf_eq_ok_iff {kinds : List NodeKind} :
    outcomeOf (kinds.flatMap (findingsAt view)) = .ok () ↔
      ∀ kind ∈ kinds, ∀ name literal, kind ≠ .custom name literal := by
  constructor
  · intro h
    induction kinds with
    | nil => nofun
    | cons kind rest ih =>
      have hcustom : ∀ name literal, kind ≠ .custom name literal := by
        rintro name literal rfl
        cases h
      rw [List.flatMap_cons, findingsAt_eq hcustom, outcomeOf_map_ok] at h
      exact List.forall_mem_cons.mpr ⟨hcustom, ih h⟩
  · intro h
    rw [flatMap_findingsAt h, ← List.append_nil (List.map _ _), outcomeOf_map_ok]
    rfl

/-- Where everything is handled, the findings are the contributions. -/
theorem found_of_ok {kinds : List NodeKind}
    (h : outcomeOf (kinds.flatMap (findingsAt view)) = .ok ()) :
    found (kinds.flatMap (findingsAt view)) = kinds.flatMap (contribution view) := by
  rw [flatMap_findingsAt (outcomeOf_eq_ok_iff.mp h), ← List.append_nil (List.map _ _), found_map_ok]
  exact List.append_nil _

/-- A walk ends at the first custom kind, with the contributions before it. -/
theorem findings_first_custom {before : List NodeKind}
    (h : ∀ kind ∈ before, ∀ name literal, kind ≠ .custom name literal) (name literal : String)
    (behind : List NodeKind) :
    outcomeOf ((before ++ .custom name literal :: behind).flatMap (findingsAt view)) =
        .error (.noHandler (.custom name)) ∧
      found ((before ++ .custom name literal :: behind).flatMap (findingsAt view)) =
        before.flatMap (contribution view) := by
  rw [List.flatMap_append, flatMap_findingsAt h, outcomeOf_map_ok, found_map_ok]
  exact ⟨rfl, List.append_nil _⟩

/-- The score of a session on a whole document holds the findings in its nodes. -/
theorem findings_scoreOf (renderer : Renderer) (doc : Document) :
    (scoreOf renderer doc Document.rootId).outcome =
        outcomeOf ((renderedKinds doc).flatMap (findingsAt (renderer.view doc))) ∧
      (scoreOf renderer doc Document.rootId).closed.filter MarkupEvent.isLeaf =
        found ((renderedKinds doc).flatMap (findingsAt (renderer.view doc))) := by
  have hsettings : (rulesOf renderer doc).settings = Settings.ofView (renderer.view doc) := rfl
  have hreach := reach_strokes hsettings (isTopLevel doc Document.rootId)
    (rulesOf renderer doc).documentSuppression (doc.arena.tree Document.rootId)
  rw [visited_root] at hreach
  obtain ⟨hleaves, houtcome⟩ := leaves_score (strokesOf renderer doc Document.rootId) [] []
  constructor
  · rw [scoreOf, Score.outcome_inDocument, houtcome, ← outcomeOf_reach, strokesOf, hreach,
      outcomeOf_reach]
  · rw [scoreOf, leaves_closed, hleaves, ← found_reach, strokesOf, hreach, found_reach]

/-- A session with the topic vocabulary alone that succeeds writes the texts and instructions of the
nodes that are not below a leaf, each once, in the order of the document. -/
theorem text_and_instructions (renderer : Renderer) (doc : Document) :
    ∃ t, renderer.topicOnly.render Sink.recorder doc #[] = .ok t ∧
      (t.outcome = .ok () →
        t.sink.toList.filter MarkupEvent.isLeaf =
          ((doc.preorder.filter fun id => !doc.arena.underLeaf id).filterMap doc.kind?).flatMap
            (contribution (renderer.view doc))) := by
  obtain ⟨houtcome, hleaves⟩ := findings_scoreOf renderer doc
  refine ⟨_, renderNode_recorder renderer doc.built.size_pos, fun hok => ?_⟩
  exact hleaves.trans (found_of_ok (houtcome.symm.trans hok))

end Topic

end DitaTopic
