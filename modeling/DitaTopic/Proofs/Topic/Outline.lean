import DitaTopic.Proofs.Topic.Session

/-!
# The outline of a topic

A document as a tree of markup: one topic with a title, perhaps a short description, and a body in
which each top-level heading but the title starts a section that holds what follows it. This is a
translation from trees to trees. Handlers know nothing of it; they start and end elements as they
go. The two agree where no other node than the root is a document node.
-/

namespace DitaTopic.Topic

open DitaTopic.Document (ColumnAlignment NodeKind NodeType Tree)
open DitaTopic.Markup
open DitaTopic.Render

/-- A tree with the markup of its children and with that of itself. -/
structure Block where
  tree : Tree
  inside : List Piece
  whole : List Piece

def Block.type (block : Block) : NodeType := block.tree.kind.type

def content (blocks : List Block) : List Piece := blocks.flatMap Block.whole

/-- The column specifications of a table, counted from `index`. -/
def columnPieces : Nat → List ColumnAlignment → List Piece
  | _, [] => []
  | index, alignment :: rest =>
    .element "colspec"
      ((Attributes.none.push "colname" ("col" ++ toString index)).pushSome "align"
        (alignmentName alignment)) [] :: columnPieces (index + 1) rest

/-- The children of a table. From the first row on they make up the table body. -/
def tablePieces (blocks : List Block) : List Piece :=
  let body := blocks.dropWhile fun block => block.type != .tableRow
  content (blocks.takeWhile fun block => block.type != .tableRow) ++
    if body.isEmpty then [] else [.element "tbody" .none (content body)]

/-- Raw HTML, given the markup that has it as text. -/
def htmlPieces (html : String) (asText : Piece) : HtmlTreatment → List Piece
  | .dropped => []
  | .asText => [asText]
  | .asInstruction => [.instruction "html" html]

mutual
/-- The markup of a tree in which no node is a document node, with `k` regions without links
around it. Headings are paragraphs here. -/
def translate (r : Rules) (k : Nat) : Tree → List Piece
  | .node id kind children =>
    match kind with
    | .document => []
    | .heading level _ =>
      [.element "p" (nestedAttributes r id level) (content (blocks r k children))]
    | .paragraph => [.element "p" .none (content (blocks r k children))]
    | .blockQuote => [.element "lq" .none (content (blocks r k children))]
    | .list first =>
      [.element (if first.isSome then "ol" else "ul") .none (content (blocks r k children))]
    | .item => [.element "li" .none (content (blocks r k children))]
    | .codeBlock info literal =>
      [.element "codeblock" (Attributes.none.pushSome "outputclass" (r.settings.codeClass info))
        [.characters (r.settings.codeText literal)]]
    | .htmlBlock literal =>
      let html := String.ofList (Text.trimEnd literal.toList)
      htmlPieces html (.element "p" .none [.characters html]) (r.settings.blockTreatment literal)
    | .table alignments =>
      [.element "table" .none
        [.element "tgroup" (Attributes.none.push "cols" (toString alignments.length))
          (columnPieces 1 alignments ++ tablePieces (blocks r k children))]]
    | .tableHead =>
      [.element "thead" .none [.element "row" .none (content (blocks r k children))]]
    | .tableRow => [.element "row" .none (content (blocks r k children))]
    | .tableCell => [.element "entry" .none (content (blocks r k children))]
    | .emphasis => [.element "i" .none (content (blocks r k children))]
    | .strong => [.element "b" .none (content (blocks r k children))]
    | .strikethrough =>
      [.element "ph" ⟨[("outputclass", "line-through")]⟩ (content (blocks r k children))]
    | .link url _ =>
      if 0 < k then content (blocks r k children)
      else [.element "xref" (linkAttributes r.settings url) (content (blocks r k children))]
    | .image url _ =>
      [.element "image" (imageAttributes r.settings url)
        [.element "alt" .none (content (blocks r (k + 1) children))]]
    | .text text => [.characters text]
    | .code text => [.element "codeph" .none [.characters text]]
    | .inlineHtml html => htmlPieces html (.characters html) (r.settings.inlineTreatment html)
    | .softBreak => [.characters r.settings.softBreak]
    | .hardBreak => [.instruction "linebreak" ""]
    | .thematicBreak => []
    | .custom _ _ => []

/-- The markup of the children of a tree's root. -/
def translateInside (r : Rules) (k : Nat) : Tree → List Piece
  | .node _ _ children => content (blocks r k children)

def blocks (r : Rules) (k : Nat) : List Tree → List Block
  | [] => []
  | t :: rest => ⟨t, translateInside r k t, translate r k t⟩ :: blocks r k rest
end

/-- What stands before the first heading, and the sections that the headings start. -/
def divide (r : Rules) : List Block → List Piece × List Piece
  | [] => ([], [])
  | block :: rest =>
    if block.type = .heading then
      ([], .element "section" (sectionAttributes r block.tree.id)
        (.element "title" .none block.inside :: (divide r rest).1) :: (divide r rest).2)
    else (block.whole ++ (divide r rest).1, (divide r rest).2)

/-- The topic of a document whose root's children are used in a certain way. -/
def topicOf (r : Rules) (o : Opening Block) : Piece :=
  .element "topic" (topicAttributes (o.title.bind fun block => r.idOf block.tree.id))
    (.element "title" .none (o.title.elim [] Block.inside) ::
      (o.shortdesc.elim [] (fun block => [.element "shortdesc" .none block.inside]) ++
        [.element "body" .none ((divide r o.body).1 ++ (divide r o.body).2)]))

def outline (r : Rules) (root : Tree) : Piece :=
  topicOf r (.ofList Block.type r.settings.shortdescParagraph
    (blocks r r.documentSuppression root.children))

def block (r : Rules) (k : Nat) (t : Tree) : Block := ⟨t, translateInside r k t, translate r k t⟩

theorem blocks_eq (r : Rules) (k : Nat) (ts : List Tree) : blocks r k ts = ts.map (block r k) := by
  induction ts with
  | nil => rfl
  | cons t rest ih => rw [blocks, ih, List.map_cons, block]

theorem blocks_opening (r : Rules) (k : Nat) (ts : List Tree) :
    Opening.ofList Block.type r.settings.shortdescParagraph (blocks r k ts) =
      (Opening.ofList (fun t => t.kind.type) r.settings.shortdescParagraph ts).map (block r k) := by
  rw [blocks_eq, Opening.ofList_map]
  rfl

/-- Strokes whose score, if it has no error, is the markup of pieces and leaves everything open that
was so before. -/
def Writes (ss : List Stroke) (pieces : List Piece) : Prop :=
  ∀ openElements marks, (score ss openElements marks).outcome = .ok () →
    score ss openElements marks = ⟨flatten pieces, .ok (), openElements, marks⟩

theorem Score.ok_of_followedBy {first : Score} {next : List String → Marks → Score}
    (h : (first.followedBy next).outcome = .ok ()) :
    first.outcome = .ok () ∧ (next first.openElements first.marks).outcome = .ok () := by
  obtain ⟨events, outcome, openElements, marks⟩ := first
  cases outcome with
  | ok _ => exact ⟨rfl, h⟩
  | error e => cases h

theorem Writes.score_append {first second : List Stroke} {pieces : List Piece}
    (h : Writes first pieces) {openElements : List String} {marks : Marks}
    (hok : (score (first ++ second) openElements marks).outcome = .ok ()) :
    (score second openElements marks).outcome = .ok () ∧
      score (first ++ second) openElements marks =
        (score second openElements marks).behind (flatten pieces) := by
  rw [Topic.score_append] at hok ⊢
  obtain ⟨hfirst, hsecond⟩ := Score.ok_of_followedBy hok
  rw [h openElements marks hfirst] at hsecond ⊢
  exact ⟨hsecond, rfl⟩

theorem Writes.nil : Writes [] [] := fun _ _ _ => rfl

theorem Writes.append {first second : List Stroke} {pieces more : List Piece}
    (hfirst : Writes first pieces) (hsecond : Writes second more) :
    Writes (first ++ second) (pieces ++ more) := by
  intro openElements marks hok
  obtain ⟨hok', hscore⟩ := hfirst.score_append hok
  rw [hscore, hsecond openElements marks hok', flatten_append]
  rfl

theorem score_start (name : String) (attributes : Attributes) (rest : List Stroke)
    (openElements : List String) (marks : Marks) :
    score (.start name attributes :: rest) openElements marks =
      (score rest (name :: openElements) marks).behind [.startElement name attributes] := rfl

theorem Writes.around {inside : List Stroke} {pieces : List Piece} (h : Writes inside pieces)
    (name : String) (attributes : Attributes) :
    Writes (around name attributes inside) [.element name attributes pieces] := by
  intro openElements marks hok
  rw [Topic.around, score_start] at hok ⊢
  rw [(h.score_append hok).2, Score.behind_behind, flatten_cons, flatten_nil, List.append_nil,
    events_element]
  rfl

theorem Writes.characters (text : String) : Writes [.characters text] [.characters text] :=
  fun _ _ _ => rfl

theorem Writes.instruction (target : String) (data : Option String) :
    Writes [.instruction target data] [.instruction target (data.getD "")] :=
  fun _ _ _ => rfl

theorem Writes.flatMap {α : Type} {items : List α} {strokesOf : α → List Stroke}
    {piecesOf : α → List Piece} (h : ∀ x ∈ items, Writes (strokesOf x) (piecesOf x)) :
    Writes (items.flatMap strokesOf) (items.flatMap piecesOf) := by
  induction items with
  | nil => exact nil
  | cons x rest ih =>
    exact (h x (List.mem_cons_self ..)).append (ih fun y hy => h y (List.mem_cons_of_mem _ hy))

theorem writes_wholes {r : Rules} {k : Nat} {children : List Tree}
    (h : ∀ t ∈ children, Writes (strokes r false k t) (translate r k t)) :
    Writes (wholes (parts r false k children)) (content (blocks r k children)) := by
  rw [wholes_parts, content, blocks_eq, List.flatMap_map]
  exact Writes.flatMap h

theorem writes_columnStrokes (index : Nat) (alignments : List ColumnAlignment) :
    Writes (columnStrokes index alignments) (columnPieces index alignments) := by
  induction alignments generalizing index with
  | nil => exact Writes.nil
  | cons alignment rest ih => exact (Writes.nil.around "colspec" _).append (ih (index + 1))

theorem rowStrokes_true (items : List Part) : rowStrokes true items = wholes items ++ [.finish] := by
  induction items with
  | nil => rfl
  | cons part rest ih =>
    rw [rowStrokes, Bool.true_or, ih, wholes_cons, List.append_assoc, List.append_assoc]
    cases part.type == NodeType.tableRow <;> rfl

theorem tablePieces_row {block : Block} (rest : List Block) (h : block.type = .tableRow) :
    tablePieces (block :: rest) = [.element "tbody" .none (content (block :: rest))] := by
  rw [tablePieces, List.takeWhile_cons_of_neg (by simp [h]),
    List.dropWhile_cons_of_neg (by simp [h])]
  rfl

theorem tablePieces_other {block : Block} (rest : List Block) (h : block.type ≠ .tableRow) :
    tablePieces (block :: rest) = block.whole ++ tablePieces rest := by
  rw [tablePieces, List.takeWhile_cons_of_pos (by simp [h]),
    List.dropWhile_cons_of_pos (by simp [h]), content, List.flatMap_cons, List.append_assoc]
  rfl

theorem writes_rowStrokes {r : Rules} {k : Nat} {children : List Tree}
    (h : ∀ t ∈ children, Writes (strokes r false k t) (translate r k t)) :
    Writes (rowStrokes false (parts r false k children)) (tablePieces (blocks r k children)) := by
  induction children with
  | nil => exact Writes.nil
  | cons t rest ih =>
    have hrest := ih fun t ht => h t (List.mem_cons_of_mem _ ht)
    have ht := h t (List.mem_cons_self ..)
    have hpart : (Part.type ⟨t, insideStrokes r k t, strokes r false k t⟩ == .tableRow) =
        (Block.type ⟨t, translateInside r k t, translate r k t⟩ == .tableRow) := rfl
    rw [parts, rowStrokes, blocks, hpart]
    by_cases hrow : Block.type ⟨t, translateInside r k t, translate r k t⟩ = .tableRow
    · have hrows := ht.append (writes_wholes fun t ht => h t (List.mem_cons_of_mem _ ht))
      have hbody := hrows.around "tbody" .none
      rw [Topic.around, List.append_assoc] at hbody
      rw [beq_iff_eq.mpr hrow, tablePieces_row _ hrow, Bool.false_or, rowStrokes_true, content,
        List.flatMap_cons]
      exact hbody
    · rw [beq_false_of_ne hrow, tablePieces_other _ hrow]
      exact ht.append hrest

theorem writes_htmlStrokes {html : String} {asText : List Stroke} {piece : Piece}
    (h : Writes asText [piece]) (treatment : HtmlTreatment) :
    Writes (htmlStrokes html asText treatment) (htmlPieces html piece treatment) := by
  cases treatment with
  | dropped => exact Writes.nil
  | asText => exact h
  | asInstruction => exact Writes.instruction "html" (some html)

theorem not_mem_kinds_child {id : Nat} {kind kind' : NodeKind} {children : List Tree} {t : Tree}
    (h : kind' ∉ (Document.Tree.node id kind children).kinds) (ht : t ∈ children) : kind' ∉ t.kinds := by
  intro hmem
  rw [Tree.kinds, Tree.kindsOf_eq] at h
  exact h (List.mem_cons_of_mem _ (List.mem_flatMap.mpr ⟨t, ht, hmem⟩))

/-- A tree without document nodes writes its markup, a heading in it a paragraph. -/
theorem writes_strokes {r : Rules} (k : Nat) {t : Tree} (h : NodeKind.document ∉ t.kinds) :
    Writes (strokes r false k t) (translate r k t) := by
  induction t generalizing k with
  | node id kind children ih =>
    have hchildren : ∀ k, ∀ t ∈ children, Writes (strokes r false k t) (translate r k t) :=
      fun k t ht => ih t ht k (not_mem_kinds_child h ht)
    have hinside := fun k => writes_wholes (hchildren k)
    cases kind with
    | document => exact absurd (List.mem_cons_self ..) h
    | heading level written => exact (hinside k).around "p" _
    | paragraph => exact (hinside k).around "p" _
    | blockQuote => exact (hinside k).around "lq" _
    | list first => exact (hinside k).around _ _
    | item => exact (hinside k).around "li" _
    | codeBlock info literal => exact (Writes.characters _).around "codeblock" _
    | htmlBlock literal =>
      rw [strokes, translate]
      exact writes_htmlStrokes ((Writes.characters _).around "p" .none) _
    | table alignments =>
      have hrows := writes_rowStrokes (hchildren k)
      exact (((writes_columnStrokes 1 alignments).append hrows).around "tgroup" _).around "table" _
    | tableHead => exact ((hinside k).around "row" _).around "thead" _
    | tableRow => exact (hinside k).around "row" _
    | tableCell => exact (hinside k).around "entry" _
    | emphasis => exact (hinside k).around "i" _
    | strong => exact (hinside k).around "b" _
    | strikethrough => exact (hinside k).around "ph" _
    | link url title =>
      rw [strokes, translate]
      split
      · exact hinside k
      · exact (hinside k).around "xref" _
    | image url title => exact ((hinside (k + 1)).around "alt" _).around "image" _
    | text content => exact Writes.characters content
    | code content => exact (Writes.characters content).around "codeph" _
    | inlineHtml html =>
      rw [strokes, translate]
      exact writes_htmlStrokes (Writes.characters html) _
    | softBreak => exact Writes.characters _
    | hardBreak => exact Writes.instruction "linebreak" none
    | thematicBreak => exact Writes.nil
    | custom name literal => exact fun _ _ hok => by cases hok

theorem writes_inside {r : Rules} {k : Nat} {t : Tree} (h : NodeKind.document ∉ t.kinds) :
    Writes (insideStrokes r k t) (translateInside r k t) := by
  obtain ⟨id, kind, children⟩ := t
  exact writes_wholes fun t ht => writes_strokes k (not_mem_kinds_child h ht)

/-- Only headings are treated differently at the top level. -/
theorem strokes_top {r : Rules} {k : Nat} {t : Tree} (h : t.kind.type ≠ .heading) :
    strokes r true k t = strokes r false k t := by
  obtain ⟨id, kind, children⟩ := t
  cases kind with
  | heading level written => exact absurd rfl h
  | _ => rw [strokes, strokes]

theorem strokes_heading {r : Rules} {k : Nat} {t : Tree} (h : t.kind.type = .heading) :
    ∃ ofParagraph, strokes r true k t =
      .startSection (sectionAttributes r t.id) ofParagraph :: (insideStrokes r k t ++ [.finish]) := by
  obtain ⟨id, kind, children⟩ := t
  cases kind with
  | heading level written => exact ⟨nestedAttributes r id level, rfl⟩
  | _ => cases h

theorem score_finish (name : String) (outer : List String) (rest : List Stroke) (marks : Marks) :
    score (.finish :: rest) (name :: outer) marks =
      (score rest outer marks).behind [.endElement name] := rfl

/-- With the body open, a section heading ends what is open in the body and starts a section. -/
theorem score_startSection (inner : List String) (ofSection ofParagraph : Attributes)
    (rest : List Stroke) (marks : Marks) :
    score (.startSection ofSection ofParagraph :: rest) (inner ++ ["body", "topic"]) marks =
      (score rest ["title", "section", "body", "topic"] marks).behind (inner.map .endElement ++
        [.startElement "section" ofSection, .startElement "title" .none]) := by
  have hplace : bodyPlace (inner ++ ["body", "topic"]).reverse = some 1 := by
    rw [bodyPlace, List.reverse_append]
    rfl
  have hlength : (inner ++ ["body", "topic"]).length - (1 + 1) = inner.length := by
    rw [List.length_append]
    rfl
  have hscore : Stroke.score (.startSection ofSection ofParagraph) (inner ++ ["body", "topic"]) marks =
      ⟨inner.map .endElement ++ [.startElement "section" ofSection, .startElement "title" .none],
        .ok (), ["title", "section", "body", "topic"], marks⟩ := by
    rw [Stroke.score, Stroke.commands, hplace]
    simp only [hlength]
    rw [Command.eventsOf_finishes, Command.openAfterAll_finishes, List.take_left, List.drop_left]
    rfl
  rw [score, hscore, Score.followedBy]

/-- Where the body and the topic started last are open, they are ended with what is open in them. -/
theorem score_finishBody (inner outer : List String) (marks : Marks) :
    score [.finishBody] (inner ++ "body" :: "topic" :: outer) ((outer.length + 2) :: marks) =
      ⟨inner.map .endElement ++ [.endElement "body", .endElement "topic"], .ok (), outer, marks⟩ := by
  have hcount : (inner ++ "body" :: "topic" :: outer).length + 1 -
      ((outer.length + 2) :: marks).headD 0 = (inner ++ ["body"]).length := by
    simp only [List.length_append, List.length_cons, List.length_nil, List.headD_cons]
    omega
  have hsplit : inner ++ "body" :: "topic" :: outer = (inner ++ ["body"]) ++ "topic" :: outer := by
    rw [List.append_assoc]
    rfl
  have hscore : Stroke.score .finishBody (inner ++ "body" :: "topic" :: outer)
      ((outer.length + 2) :: marks) =
        ⟨inner.map .endElement ++ [.endElement "body", .endElement "topic"], .ok (), outer,
          marks⟩ := by
    rw [Stroke.score, Stroke.commands, hcount, Command.eventsOf_finishes,
      Command.openAfterAll_finishes, hsplit, List.take_left, List.drop_left, List.map_append,
      List.append_assoc]
    rfl
  rw [score, hscore, Score.followedBy, score, Score.behind, List.append_nil]

/-- The strokes of a body write its division into sections. `inner` is what is open in the body at
their start: nothing, or the section of the last heading. -/
theorem score_body {r : Rules} {k : Nat} {marks : Marks} {ts : List Tree}
    (h : ∀ t ∈ ts, NodeKind.document ∉ t.kinds) (inner : List String)
    (hok : (score (wholes (parts r true k ts) ++ [.finishBody]) (inner ++ ["body", "topic"])
      (2 :: marks)).outcome = .ok ()) :
    score (wholes (parts r true k ts) ++ [.finishBody]) (inner ++ ["body", "topic"]) (2 :: marks) =
      ⟨flatten (divide r (blocks r k ts)).1 ++ (inner.map .endElement ++
        (flatten (divide r (blocks r k ts)).2 ++ [.endElement "body", .endElement "topic"])),
        .ok (), [], marks⟩ := by
  induction ts generalizing inner with
  | nil => exact score_finishBody inner [] marks
  | cons t rest ih =>
    have hrest := fun inner => ih (fun t ht => h t (List.mem_cons_of_mem _ ht)) inner
    have ht := h t (List.mem_cons_self ..)
    rw [parts, wholes_cons, List.append_assoc] at hok ⊢
    rw [blocks, divide]
    by_cases hheading : t.kind.type = .heading
    · -- what is open in the body is ended here; from now on that is the section of this heading
      obtain ⟨ofParagraph, hstrokes⟩ := strokes_heading (r := r) (k := k) hheading
      rw [hstrokes, List.cons_append, List.append_assoc, List.singleton_append,
        score_startSection] at hok ⊢
      obtain ⟨hok', hscore⟩ := (writes_inside ht).score_append hok
      rw [score_finish] at hok' hscore
      have hscore' := hrest ["section"] hok'
      rw [List.singleton_append] at hscore'
      rw [if_pos (by exact hheading), hscore, hscore', Score.behind_behind, Score.behind_behind]
      simp [Score.behind]
    · rw [strokes_top hheading] at hok ⊢
      obtain ⟨hok', hscore⟩ := (writes_strokes k ht).score_append hok
      rw [if_neg (by exact hheading), hscore, hrest inner hok', flatten_append, List.append_assoc]
      rfl

theorem score_startBody (rest : List Stroke) (openElements : List String) (marks : Marks) :
    score (.startBody :: rest) openElements marks =
      (score rest ("body" :: openElements) ((openElements.length + 1) :: marks)).behind
        [.startElement "body" .none] := rfl

/-- The strokes of a document node write its topic. -/
theorem score_documentStrokes {r : Rules} {k : Nat} {o : Opening Tree}
    (htitle : ∀ t, o.title = some t → NodeKind.document ∉ t.kinds)
    (hshortdesc : ∀ t, o.shortdesc = some t → NodeKind.document ∉ t.kinds)
    (hbody : ∀ t ∈ o.body, NodeKind.document ∉ t.kinds)
    (hok : (score (documentStrokes r (o.map (part r true k))) [] []).outcome = .ok ()) :
    score (documentStrokes r (o.map (part r true k))) [] [] =
      ⟨(topicOf r (o.map (block r k))).events, .ok (), [], []⟩ := by
  have hopening : Writes
      (around "title" .none ((o.map (part r true k)).title.elim [] Part.inside) ++
        (o.map (part r true k)).shortdesc.elim [] fun part =>
          around "shortdesc" .none part.inside)
      (.element "title" .none ((o.map (block r k)).title.elim [] Block.inside) ::
        (o.map (block r k)).shortdesc.elim [] fun block =>
          [.element "shortdesc" .none block.inside]) := by
    refine Writes.append (Writes.around ?_ "title" .none) ?_
    · rw [Opening.map, Opening.map]
      cases ho : o.title with
      | none => exact Writes.nil
      | some t => exact writes_inside (htitle t ho)
    · rw [Opening.map, Opening.map]
      cases ho : o.shortdesc with
      | none => exact Writes.nil
      | some t => exact (writes_inside (hshortdesc t ho)).around "shortdesc" .none
  have hid : ((o.map (part r true k)).title.bind fun part => r.idOf part.tree.id) =
      (o.map (block r k)).title.bind fun block => r.idOf block.tree.id := by
    rw [Opening.map, Opening.map]
    cases o.title <;> rfl
  have hwholes : wholes (o.map (part r true k)).body = wholes (parts r true k o.body) := by
    rw [parts_eq]
    rfl
  have hblocks : (o.map (block r k)).body = blocks r k o.body := (blocks_eq r k o.body).symm
  rw [documentStrokes, hid, hwholes, ← List.append_assoc, score_start] at hok ⊢
  obtain ⟨hok', hscore⟩ := hopening.score_append hok
  rw [score_startBody] at hok' hscore
  have hdivided : score (wholes (parts r true k o.body) ++ [.finishBody]) ["body", "topic"]
      [["topic"].length + 1] = _ := score_body hbody [] hok'
  rw [hscore, hdivided, topicOf, hblocks]
  simp [Score.behind]

theorem score_root {r : Rules} {top : Bool} {k id : Nat} {children : List Tree}
    (h : ∀ t ∈ children, NodeKind.document ∉ t.kinds)
    (hok : (score (strokes r top k (.node id .document children)) [] []).outcome = .ok ()) :
    score (strokes r top k (.node id .document children)) [] [] =
      ⟨(outline r (.node id .document children)).events, .ok (), [], []⟩ := by
  have houtline : outline r (.node id .document children) =
      topicOf r (.ofList Block.type r.settings.shortdescParagraph
        (blocks r r.documentSuppression children)) := rfl
  rw [strokes, parts_opening] at hok ⊢
  rw [houtline, blocks_opening]
  exact score_documentStrokes (fun t ht => h t (Opening.title_mem ht))
    (fun t ht => h t (Opening.shortdesc_mem ht)) (fun t ht => h t (Opening.body_mem ht)) hok

variable {doc : Document}

/-- Only the root of the document is a document node. -/
def OnlyRootIsDocument (doc : Document) : Prop :=
  ∀ id, doc.kind? id = some .document → id = Document.rootId

theorem onlyRootIsDocument_empty : OnlyRootIsDocument .empty := by
  intro id hkind
  cases id with
  | zero => rfl
  | succ id => cases hkind

theorem OnlyRootIsDocument.attach (h : OnlyRootIsDocument doc) (parent : Nat) {kind : NodeKind}
    (hkind : kind ≠ .document) : OnlyRootIsDocument (doc.attach parent kind) := by
  by_cases inside : parent < doc.size
  · intro id hid
    rw [Document.kind?_attach inside] at hid
    split at hid
    · exact absurd (Option.some.inj hid) hkind
    · exact h id hid
  · rwa [Document.attach, dif_neg inside]

theorem not_mem_kinds_tree (h : OnlyRootIsDocument doc) {id : Nat} (inside : id < doc.size)
    (hid : id ≠ Document.rootId) : NodeKind.document ∉ (doc.arena.tree id).kinds := by
  intro hmem
  rw [Document.Arena.kinds_tree id inside] at hmem
  obtain ⟨n, hn, hkind⟩ := List.mem_filterMap.mp hmem
  obtain rfl := h n hkind
  have hle := Document.Arena.le_of_mem_subtree hn
  exact hid (Nat.le_zero.mp hle)

theorem tree_root (doc : Document) :
    doc.tree = .node Document.rootId .document
      ((doc.children Document.rootId).map doc.arena.tree) := by
  have hkind : doc.arena.kind? Document.rootId = some .document := doc.built.kind?_root
  rw [Document.tree, Document.Arena.tree_eq, hkind]
  rfl

theorem score_strokesOf (renderer : Renderer) (honly : OnlyRootIsDocument doc)
    (hok : (score (strokesOf renderer doc Document.rootId) [] []).outcome = .ok ()) :
    score (strokesOf renderer doc Document.rootId) [] [] =
      ⟨(outline (rulesOf renderer doc) doc.tree).events, .ok (), [], []⟩ := by
  have hroot : doc.arena.tree Document.rootId = _ := tree_root doc
  rw [strokesOf, hroot] at hok ⊢
  rw [tree_root]
  refine score_root (fun t ht => ?_) hok
  obtain ⟨c, hc, rfl⟩ := List.mem_map.mp ht
  obtain ⟨hlt, inside⟩ := Document.Arena.mem_children hc
  exact not_mem_kinds_tree honly inside (Nat.ne_of_gt hlt)

/-- A heading at the top level is a child of the root where only that is a document node. -/
theorem isTopLevel_eq_false (h : OnlyRootIsDocument doc) {id : Nat}
    (hid : id ∉ doc.children Document.rootId) : isTopLevel doc id = false := by
  rw [isTopLevel]
  split
  · next p hparent =>
    rw [beq_eq_false_iff_ne]
    intro htype
    obtain ⟨kind, hkind, hdocument⟩ := Option.map_eq_some_iff.mp htype
    cases kind <;> cases hdocument
    obtain rfl := h p hkind
    exact hid (doc.built.mem_children hparent)
  · rfl

/-- The strokes of a node that is neither the root nor a heading that is the root's child write the
node's markup. -/
theorem writes_node {r : Rules} (h : OnlyRootIsDocument doc) {id : Nat} (inside : id < doc.size)
    (hroot : id ≠ Document.rootId)
    (hheading : id ∈ doc.children Document.rootId → doc.type? id ≠ some .heading) (k : Nat) :
    Writes (strokes r (isTopLevel doc id) k (doc.arena.tree id))
      (translate r k (doc.arena.tree id)) := by
  have hwrites := writes_strokes (r := r) k (not_mem_kinds_tree h inside hroot)
  by_cases hchild : id ∈ doc.children Document.rootId
  · have htype : (doc.arena.tree id).kind.type ≠ .heading :=
      fun htype => hheading hchild (by rw [type?_eq inside, htype])
    cases isTopLevel doc id with
    | false => exact hwrites
    | true => rwa [strokes_top htype]
  · rwa [isTopLevel_eq_false h hchild]

theorem play_recorder {ss : List Stroke} {pieces : List Piece} (h : Writes ss pieces)
    (w : Writer (Array MarkupEvent)) (marks : Marks)
    (hok : (play Sink.recorder ss ⟨w, marks⟩).1 = .ok ()) :
    (play Sink.recorder ss ⟨w, marks⟩).2.writer =
      { w with sink := w.sink ++ flatten pieces } := by
  have hplay := (delivers_play Sink.recorder ss w marks).accepted (Sink.recorder_accepts _ _)
  obtain ⟨houtcome, hwriter⟩ := Prod.mk.inj hplay
  rw [houtcome] at hok
  rw [hwriter, h _ _ hok, Sink.after_recorder]

/-- A session with the topic vocabulary alone that succeeds writes the outline of the document, and
every node in it that is no heading at the top level is written as its markup. -/
theorem session_writes_outline (renderer : Renderer) (honly : OnlyRootIsDocument doc) :
    (∃ t, renderer.topicOnly.render Sink.recorder doc #[] = .ok t ∧
      (t.outcome = .ok () →
        contentOf t.sink = (outline (rulesOf renderer doc) doc.tree).events)) ∧
    ∀ id, id < doc.size → id ≠ Document.rootId →
      (id ∈ doc.children Document.rootId → doc.type? id ≠ some .heading) →
      ∀ depth, doc.size ≤ depth + id → ∀ s : State (Array MarkupEvent), ∃ outcome s',
        (sessionOf renderer doc Sink.recorder).render depth id s = .ok (outcome, s') ∧
        (outcome = .ok () → s' = { s with
          writer := { s.writer with
            sink := s.writer.sink ++
              flatten (translate (rulesOf renderer doc) s.suppression (doc.arena.tree id)) } }) := by
  constructor
  · refine ⟨_, renderNode_recorder renderer doc.built.size_pos, fun hok => ?_⟩
    rw [scoreOf, Score.outcome_inDocument] at hok
    rw [scoreOf, score_strokesOf renderer honly hok]
    simp [contentOf, Score.closed, Score.inDocument, filter_events, MarkupEvent.isContent]
  · intro id inside hroot hheading depth hdepth s
    obtain ⟨k, hperform, hok⟩ := carries_node (sessionOf renderer doc Sink.recorder) rfl inside
      hdepth s.suppression s [] rfl
    rw [Session.perform_node] at hperform
    refine ⟨_, _, hperform, fun hplay => ?_⟩
    obtain ⟨rfl, -⟩ := hok hplay
    have hwriter := play_recorder
      (writes_node honly inside hroot hheading s.suppression) s.writer [] hplay
    exact congrArg (fun w => { s with writer := w }) hwriter

/-- A title, and a section with a paragraph. -/
def sectioned : Document :=
  (((((Document.empty.attach 0 (.heading 1 none)).attach 1 (.text "Topic")).attach 0
    (.heading 2 none)).attach 3 (.text "Part")).attach 0 .paragraph).attach 5 (.text "body")

/-- The markup of the section. -/
def partSection : Piece :=
  .element "section" ⟨[("id", "part")]⟩
    [.element "title" .none [.characters "Part"], .element "p" .none [.characters "body"]]

/-- The section holds the paragraph behind its heading, which is written alike in a list. -/
theorem session_writes_outline_section :
    let renderer : Renderer := {}
    let session := sessionOf renderer sectioned Sink.recorder
    let inList : State (Array MarkupEvent) := { writer := ⟨#[], ["li", "ul"]⟩ }
    OnlyRootIsDocument sectioned ∧ sectioned.type? 5 ≠ some .heading ∧
      (∃ t, renderer.topicOnly.render Sink.recorder sectioned #[] = .ok t ∧ t.outcome = .ok () ∧
        contentOf t.sink = (Piece.element "topic" (topicAttributes (some "topic"))
          [.element "title" .none [.characters "Topic"],
            .element "body" .none [partSection]]).events) ∧
      ∃ s', session.render 10 5 inList = .ok (.ok (), s') ∧
        s'.writer.sink.toList = [.startElement "p" .none, .characters "body", .endElement "p"] := by
  intro renderer session inList
  have hheading : ∀ level id, NodeKind.heading level id ≠ .document := nofun
  have htext : ∀ text, NodeKind.text text ≠ .document := nofun
  have hparagraph : NodeKind.paragraph ≠ .document := nofun
  have honly : OnlyRootIsDocument sectioned :=
    (((((onlyRootIsDocument_empty.attach 0 (hheading 1 none)).attach 1 (htext "Topic")).attach 0
      (hheading 2 none)).attach 3 (htext "Part")).attach 0 hparagraph).attach 5 (htext "body")
  have hplain : sectioned.type? 5 ≠ some .heading := by decide +kernel
  obtain ⟨⟨t, hrender, hcontent⟩, hnodes⟩ := session_writes_outline renderer honly
  have hrecorded := renderNode_recorder renderer sectioned.built.size_pos
  obtain rfl := Except.ok.inj (hrender.symm.trans hrecorded)
  have hok : (scoreOf renderer sectioned Document.rootId).outcome = .ok () := by decide +kernel
  refine ⟨honly, hplain, ⟨_, hrender, hok, (hcontent hok).trans ?_⟩, ?_⟩
  · decide +kernel
  · have inside : 5 < sectioned.size := by decide +kernel
    have hdepth : sectioned.size ≤ 10 + 5 := by decide +kernel
    obtain ⟨outcome, s', hs, hsink⟩ := hnodes 5 inside (by decide) (fun _ => hplain) 10 hdepth inList
    have houtcome : (session.render 10 5 inList).toOption.map Prod.fst = some (.ok ()) := by
      decide +kernel
    rw [hs] at houtcome
    obtain rfl : outcome = .ok () := Option.some.inj houtcome
    refine ⟨s', hs, ?_⟩
    rw [hsink rfl]
    decide +kernel

end DitaTopic.Topic
