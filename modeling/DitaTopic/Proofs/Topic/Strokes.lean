import DitaTopic.Proofs.Document.Tree
import DitaTopic.Proofs.Markup.Delivery
import DitaTopic.Topic.Handlers

/-!
# Strokes

What the topic vocabulary writes for a tree, as a list of strokes found by recursion on the tree.
Only three strokes look at what is open when they are made: the one that starts a section, and
the two that start and end a body. A stroke stands for writer commands; playing strokes carries
these out up to the first failure. Nothing here runs a handler.
-/

namespace DitaTopic.Topic

open DitaTopic.Document (ColumnAlignment NodeKind NodeType Tree)
open DitaTopic.Markup
open DitaTopic.Render

/-- What the strokes of a tree depend on besides the tree. -/
structure Rules where
  settings : Settings
  /-- The link suppression with which a document node starts. -/
  documentSuppression : Nat
  idOf : Nat → Option String

def Rules.ofScene (settings : Settings) (scene : Scene) : Rules :=
  ⟨settings, scene.settings.documentSuppression, scene.idOf⟩

/-- One thing that a handler does to the writer. -/
inductive Stroke where
  | start (name : String) (attributes : Attributes)
  | finish
  | characters (text : String)
  | instruction (target : String) (data : Option String)
  /-- Starts a section with its title where a body is open, else a paragraph. -/
  | startSection (ofSection ofParagraph : Attributes)
  | startBody
  /-- Ends everything down to the body started last, if that is still open, and one element more. -/
  | finishBody
  /-- Ends with the complaint that nobody handles a type. -/
  | refuse (type : NodeType)
  deriving DecidableEq

/-- The depth of the bodies started and not yet finished, innermost first. -/
abbrev Marks := List Nat

namespace Stroke

/-- The calls that a stroke stands for where the given elements, innermost first, are open. -/
def commands (openElements : List String) (marks : Marks) : Stroke → List Command
  | start name attributes => [.start name attributes]
  | finish => [.finish]
  | characters text => [.characters text]
  | instruction target data => [.instruction target data]
  | startSection ofSection ofParagraph =>
    match bodyPlace openElements.reverse with
    | some place =>
      List.replicate (openElements.length - (place + 1)) .finish ++
        [.start "section" ofSection, .start "title" .none]
    | none => [.start "p" ofParagraph]
  | startBody => [.start "body" .none]
  | finishBody =>
    List.replicate (openElements.length + 1 - marks.headD 0) .finish ++ [.finish]
  | refuse _ => []

def marksAfter (openElements : List String) (marks : Marks) : Stroke → Marks
  | startBody => (openElements.length + 1) :: marks
  | finishBody => marks.tail
  | _ => marks

/-- What a stroke ends with if the writer does not fail. -/
def verdict : Stroke → Outcome
  | refuse type => .error (.noHandler type)
  | _ => .ok ()

end Stroke

/-- A writer with the marks of its bodies. -/
structure Desk (σ : Type) where
  writer : Writer σ
  marks : Marks := []

variable {σ : Type}

def Stroke.make (sink : Sink σ) (stroke : Stroke) (d : Desk σ) : Outcome × Desk σ :=
  let (verdict, writer) :=
    d.writer.performAll sink (stroke.commands d.writer.openElements d.marks)
  (match verdict with
    | .ok _ => stroke.verdict
    | .error e => .error (.writeFailure e),
    ⟨writer, stroke.marksAfter d.writer.openElements d.marks⟩)

/-- Makes strokes in turn, up to the first that fails. -/
def play (sink : Sink σ) : List Stroke → Desk σ → Outcome × Desk σ
  | [], d => (.ok (), d)
  | stroke :: rest, d => andThen (stroke.make sink d) (play sink rest)

theorem play_append (sink : Sink σ) (first second : List Stroke) (d : Desk σ) :
    play sink (first ++ second) d = andThen (play sink first d) (play sink second) := by
  induction first generalizing d with
  | nil => rfl
  | cons stroke rest ih =>
    rw [List.cons_append, play, play]
    cases stroke.make sink d with
    | mk outcome d' =>
      cases outcome with
      | ok _ => exact ih d'
      | error e => rfl

theorem play_singleton (sink : Sink σ) (stroke : Stroke) (d : Desk σ) :
    play sink [stroke] d = stroke.make sink d := by
  rw [play]
  cases stroke.make sink d with
  | mk outcome d' => cases outcome <;> rfl

/-- An element with the given strokes inside. -/
def around (name : String) (attributes : Attributes) (inside : List Stroke) : List Stroke :=
  .start name attributes :: (inside ++ [.finish])

/-- The first item, if it has the given type, and the items after it. -/
def takeFirst {α : Type} (typeOf : α → NodeType) (type : NodeType) : List α → Option α × List α
  | [] => (none, [])
  | item :: rest => if typeOf item = type then (some item, rest) else (none, item :: rest)

/-- How the children of a document node are used. -/
structure Opening (α : Type) where
  title : Option α
  shortdesc : Option α
  body : List α

/-- A leading heading is the title; if wanted, a paragraph after that is the short description; the
rest is the body. -/
def Opening.ofList {α : Type} (typeOf : α → NodeType) (wanted : Bool) (items : List α) : Opening α :=
  let afterTitle := (takeFirst typeOf .heading items).2
  let split := if wanted then takeFirst typeOf .paragraph afterTitle else (none, afterTitle)
  ⟨(takeFirst typeOf .heading items).1, split.1, split.2⟩

def Opening.map {α β : Type} (g : α → β) (o : Opening α) : Opening β :=
  ⟨o.title.map g, o.shortdesc.map g, o.body.map g⟩

/-- A tree with the strokes of its children and with those of itself. -/
structure Part where
  tree : Tree
  inside : List Stroke
  whole : List Stroke

def Part.type (part : Part) : NodeType := part.tree.kind.type

def wholes (parts : List Part) : List Stroke := parts.flatMap Part.whole

theorem wholes_cons (part : Part) (rest : List Part) :
    wholes (part :: rest) = part.whole ++ wholes rest := List.flatMap_cons

def documentStrokes (r : Rules) (o : Opening Part) : List Stroke :=
  .start "topic" (topicAttributes (o.title.bind fun part => r.idOf part.tree.id)) ::
    (around "title" .none (o.title.elim [] Part.inside) ++
      (o.shortdesc.elim [] (fun part => around "shortdesc" .none part.inside) ++
        .startBody :: (wholes o.body ++ [.finishBody])))

def sectionAttributes (r : Rules) (id : Nat) : Attributes :=
  Attributes.none.pushSome "id" (r.idOf id)

/-- The attributes of a heading that is a paragraph. -/
def nestedAttributes (r : Rules) (id level : Nat) : Attributes :=
  (Attributes.none.push "outputclass" ("h" ++ toString level)).pushSome "id"
    (if r.settings.renderHeaderId then r.idOf id else none)

/-- The strokes of the column specifications of a table, counted from `index`. -/
def columnStrokes : Nat → List ColumnAlignment → List Stroke
  | _, [] => []
  | index, alignment :: rest =>
    around "colspec"
      ((Attributes.none.push "colname" ("col" ++ toString index)).pushSome "align"
        (alignmentName alignment)) [] ++ columnStrokes (index + 1) rest

/-- The strokes of the children of a table. -/
def rowStrokes : Bool → List Part → List Stroke
  | inBody, [] => if inBody then [.finish] else []
  | inBody, part :: rest =>
    let isRow := part.type == .tableRow
    (if isRow && !inBody then [.start "tbody" .none] else []) ++ part.whole ++
      rowStrokes (inBody || isRow) rest

/-- The strokes of raw HTML, given those that write it as text. -/
def htmlStrokes (html : String) (asText : List Stroke) : HtmlTreatment → List Stroke
  | .dropped => []
  | .asText => asText
  | .asInstruction => [.instruction "html" (some html)]

mutual
/-- The strokes of a tree. `top` says whether its root lies directly below a document node, `k` how
many regions without links are around it. -/
def strokes (r : Rules) (top : Bool) (k : Nat) : Tree → List Stroke
  | .node id kind children =>
    match kind with
    | .document =>
      documentStrokes r (.ofList Part.type r.settings.shortdescParagraph
        (parts r true r.documentSuppression children))
    | .heading level _ =>
      (if top then .startSection (sectionAttributes r id) (nestedAttributes r id level)
        else .start "p" (nestedAttributes r id level)) ::
        (wholes (parts r false k children) ++ [.finish])
    | .paragraph => around "p" .none (wholes (parts r false k children))
    | .blockQuote => around "lq" .none (wholes (parts r false k children))
    | .list first =>
      around (if first.isSome then "ol" else "ul") .none (wholes (parts r false k children))
    | .item => around "li" .none (wholes (parts r false k children))
    | .codeBlock info literal =>
      around "codeblock" (Attributes.none.pushSome "outputclass" (r.settings.codeClass info))
        [.characters (r.settings.codeText literal)]
    | .htmlBlock literal =>
      let html := String.ofList (Text.trimEnd literal.toList)
      htmlStrokes html (around "p" .none [.characters html]) (r.settings.blockTreatment literal)
    | .table alignments =>
      around "table" .none <| around "tgroup" (Attributes.none.push "cols" (toString alignments.length))
        (columnStrokes 1 alignments ++ rowStrokes false (parts r false k children))
    | .tableHead => around "thead" .none (around "row" .none (wholes (parts r false k children)))
    | .tableRow => around "row" .none (wholes (parts r false k children))
    | .tableCell => around "entry" .none (wholes (parts r false k children))
    | .emphasis => around "i" .none (wholes (parts r false k children))
    | .strong => around "b" .none (wholes (parts r false k children))
    | .strikethrough =>
      around "ph" ⟨[("outputclass", "line-through")]⟩ (wholes (parts r false k children))
    | .link url _ =>
      if 0 < k then wholes (parts r false k children)
      else around "xref" (linkAttributes r.settings url) (wholes (parts r false k children))
    | .image url _ =>
      around "image" (imageAttributes r.settings url) <| around "alt" .none
        (wholes (parts r false (k + 1) children))
    | .text content => [.characters content]
    | .code content => around "codeph" .none [.characters content]
    | .inlineHtml html => htmlStrokes html [.characters html] (r.settings.inlineTreatment html)
    | .softBreak => [.characters r.settings.softBreak]
    | .hardBreak => [.instruction "linebreak" none]
    | .thematicBreak => []
    | .custom name _ => [.refuse (.custom name)]

/-- The strokes of the children of a tree's root, which is no document node. -/
def insideStrokes (r : Rules) (k : Nat) : Tree → List Stroke
  | .node _ _ children => wholes (parts r false k children)

def parts (r : Rules) (top : Bool) (k : Nat) : List Tree → List Part
  | [] => []
  | t :: rest => ⟨t, insideStrokes r k t, strokes r top k t⟩ :: parts r top k rest
end

theorem takeFirst_map {α β : Type} (typeOf : β → NodeType) (g : α → β) (type : NodeType)
    (items : List α) :
    takeFirst typeOf type (items.map g) =
      ((takeFirst (typeOf ∘ g) type items).1.map g, (takeFirst (typeOf ∘ g) type items).2.map g) := by
  cases items with
  | nil => rfl
  | cons item rest =>
    rw [List.map_cons, takeFirst, takeFirst, Function.comp_apply]
    by_cases h : typeOf (g item) = type
    · rw [if_pos h, if_pos h]
      rfl
    · rw [if_neg h, if_neg h]
      rfl

theorem Opening.ofList_map {α β : Type} (typeOf : β → NodeType) (g : α → β) (wanted : Bool)
    (items : List α) :
    Opening.ofList typeOf wanted (items.map g) = (Opening.ofList (typeOf ∘ g) wanted items).map g := by
  rw [ofList, takeFirst_map, takeFirst_map]
  cases wanted <;> rfl

theorem takeFirst_eq {α : Type} (typeOf : α → NodeType) (type : NodeType) (items : List α) :
    (takeFirst typeOf type items).1.toList ++ (takeFirst typeOf type items).2 = items := by
  cases items with
  | nil => rfl
  | cons first rest =>
    rw [takeFirst]
    split <;> rfl

theorem typeOf_takeFirst {α : Type} {typeOf : α → NodeType} {type : NodeType} {items : List α}
    {item : α} (h : (takeFirst typeOf type items).1 = some item) : typeOf item = type := by
  cases items with
  | nil => cases h
  | cons first rest =>
    rw [takeFirst] at h
    split at h
    · next htype => cases h; exact htype
    · cases h

namespace Opening

variable {α : Type} {typeOf : α → NodeType} {wanted : Bool} {items : List α} {item : α}

theorem after_title_eq (typeOf : α → NodeType) (wanted : Bool) (items : List α) :
    (ofList typeOf wanted items).shortdesc.toList ++ (ofList typeOf wanted items).body =
      (takeFirst typeOf .heading items).2 := by
  cases wanted with
  | false => rfl
  | true => exact takeFirst_eq typeOf .paragraph _

/-- Every item is used once, in order. -/
theorem items_eq (typeOf : α → NodeType) (wanted : Bool) (items : List α) :
    (ofList typeOf wanted items).title.toList ++ ((ofList typeOf wanted items).shortdesc.toList ++
      (ofList typeOf wanted items).body) = items := by
  rw [after_title_eq]
  exact takeFirst_eq typeOf .heading items

theorem title_mem (h : (ofList typeOf wanted items).title = some item) : item ∈ items := by
  rw [← items_eq typeOf wanted items, h]
  exact List.mem_cons_self ..

theorem shortdesc_mem (h : (ofList typeOf wanted items).shortdesc = some item) : item ∈ items := by
  rw [← items_eq typeOf wanted items, h]
  exact List.mem_append_right _ (List.mem_cons_self ..)

theorem body_mem (h : item ∈ (ofList typeOf wanted items).body) : item ∈ items := by
  rw [← items_eq typeOf wanted items]
  exact List.mem_append_right _ (List.mem_append_right _ h)

/-- Headings in the body are not the first item. -/
theorem mem_tail_of_body (h : item ∈ (ofList typeOf wanted items).body)
    (hheading : typeOf item = .heading) : item ∈ items.tail := by
  have hrest : item ∈ (takeFirst typeOf .heading items).2 := by
    rw [← after_title_eq typeOf wanted items]
    exact List.mem_append_right _ h
  cases items with
  | nil => cases hrest
  | cons first rest =>
    rw [takeFirst] at hrest
    split at hrest
    · exact hrest
    · next hfirst =>
      refine (List.mem_cons.mp hrest).resolve_left ?_
      rintro rfl
      exact hfirst hheading

theorem title_type (h : (ofList typeOf wanted items).title = some item) : typeOf item = .heading :=
  typeOf_takeFirst h

theorem shortdesc_type (h : (ofList typeOf wanted items).shortdesc = some item) :
    wanted = true ∧ typeOf item = .paragraph := by
  cases wanted with
  | false => cases h
  | true => exact ⟨rfl, typeOf_takeFirst h⟩

end Opening

def part (r : Rules) (top : Bool) (k : Nat) (t : Tree) : Part :=
  ⟨t, insideStrokes r k t, strokes r top k t⟩

theorem parts_eq (r : Rules) (top : Bool) (k : Nat) (ts : List Tree) :
    parts r top k ts = ts.map (part r top k) := by
  induction ts with
  | nil => rfl
  | cons t rest ih => rw [parts, ih, List.map_cons, part]

theorem mem_parts {r : Rules} {top : Bool} {k : Nat} {ts : List Tree} {p : Part}
    (h : p ∈ parts r top k ts) : ∃ t ∈ ts, part r top k t = p := by
  rw [parts_eq] at h
  exact List.mem_map.mp h

theorem parts_opening (r : Rules) (k : Nat) (ts : List Tree) :
    Opening.ofList Part.type r.settings.shortdescParagraph (parts r true k ts) =
      (Opening.ofList (fun t => t.kind.type) r.settings.shortdescParagraph ts).map
        (part r true k) := by
  rw [parts_eq, Opening.ofList_map]
  rfl

theorem wholes_parts (r : Rules) (top : Bool) (k : Nat) (ts : List Tree) :
    wholes (parts r top k ts) = ts.flatMap (strokes r top k) := by
  rw [parts_eq, wholes, List.flatMap_map]
  rfl

end DitaTopic.Topic
