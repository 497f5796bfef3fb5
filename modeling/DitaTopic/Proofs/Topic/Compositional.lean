import DitaTopic.Proofs.Topic.Outline

/-!
# Properties of strokes that are built up

A property of strokes that holds of what writes text or an instruction and is kept by putting strokes
one after the other and an element around them. It holds of the strokes of a tree if it does of
those of the children of its root. Document nodes are left out: they build more than elements.
-/

namespace DitaTopic.Topic

open DitaTopic.Document (ColumnAlignment NodeKind NodeType Tree)
open DitaTopic.Markup
open DitaTopic.Render

/-- A property that is kept by the ways in which nodes of the vocabulary put strokes together. -/
structure Compositional (Q : List Stroke → Prop) : Prop where
  nil : Q []
  append : ∀ {first second : List Stroke}, Q first → Q second → Q (first ++ second)
  around : ∀ {inside : List Stroke}, Q inside → ∀ name attributes, Q (around name attributes inside)
  characters : ∀ text, Q [.characters text]
  instruction : ∀ target data, Q [.instruction target data]
  refuse : ∀ type, Q [.refuse type]

namespace Compositional

variable {Q : List Stroke → Prop}

theorem flatMap (h : Compositional Q) {α : Type} {items : List α} {strokesOf : α → List Stroke}
    (hitems : ∀ x ∈ items, Q (strokesOf x)) : Q (items.flatMap strokesOf) := by
  induction items with
  | nil => exact h.nil
  | cons x rest ih =>
    exact h.append (hitems x List.mem_cons_self) (ih fun y hy => hitems y (List.mem_cons_of_mem _ hy))

theorem columnStrokes (h : Compositional Q) (index : Nat) (alignments : List ColumnAlignment) :
    Q (columnStrokes index alignments) := by
  induction alignments generalizing index with
  | nil => exact h.nil
  | cons alignment rest ih => exact h.append (h.around h.nil "colspec" _) (ih (index + 1))

/-- The rows of a table start and end its body. -/
theorem rowStrokes (h : Compositional Q) {items : List Part} (hitems : ∀ part ∈ items, Q part.whole) :
    Q (rowStrokes false items) := by
  induction items with
  | nil => exact h.nil
  | cons part rest ih =>
    have hpart := hitems part List.mem_cons_self
    have hrest : ∀ part ∈ rest, Q part.whole := fun q hq => hitems q (List.mem_cons_of_mem _ hq)
    rw [Topic.rowStrokes]
    cases part.type == NodeType.tableRow with
    | false => exact h.append hpart (ih hrest)
    | true =>
      have hbody := h.around (h.append hpart (h.flatMap hrest)) "tbody" .none
      rw [Topic.around, List.append_assoc] at hbody
      rw [Bool.false_or, rowStrokes_true]
      exact hbody

theorem htmlStrokes (h : Compositional Q) {html : String} {asText : List Stroke} (htext : Q asText)
    (treatment : HtmlTreatment) : Q (htmlStrokes html asText treatment) := by
  cases treatment with
  | dropped => exact h.nil
  | asText => exact htext
  | asInstruction => exact h.instruction "html" (some html)

/-- The title and the short description of a topic, from what is inside them. -/
theorem opening (h : Compositional Q) {o : Opening Part}
    (htitle : ∀ part, o.title = some part → Q part.inside)
    (hshortdesc : ∀ part, o.shortdesc = some part → Q part.inside) :
    Q (Topic.around "title" .none (o.title.elim [] Part.inside) ++
      o.shortdesc.elim [] (fun part => Topic.around "shortdesc" .none part.inside)) := by
  apply h.append
  · cases ho : o.title with
    | none => exact h.around h.nil _ _
    | some part => exact h.around (htitle part ho) _ _
  · cases ho : o.shortdesc with
    | none => exact h.nil
    | some part => exact h.around (hshortdesc part ho) _ _

variable {r : Rules} {children : List Tree}

theorem wholes (h : Compositional Q) {k : Nat}
    (hchildren : ∀ t ∈ children, Q (strokes r false k t)) : Q (wholes (parts r false k children)) := by
  rw [wholes_parts]
  exact h.flatMap hchildren

/-- The strokes of a node that is no document node, from those of its children. -/
theorem node (h : Compositional Q) (k id : Nat) {kind : NodeKind} (hkind : kind ≠ .document)
    (hchildren : ∀ k, ∀ t ∈ children, Q (strokes r false k t)) :
    Q (strokes r false k (.node id kind children)) := by
  have hinside := fun k => h.wholes (hchildren k)
  cases kind with
  | document => exact absurd rfl hkind
  | heading level written => exact h.around (hinside k) "p" _
  | paragraph => exact h.around (hinside k) "p" _
  | blockQuote => exact h.around (hinside k) "lq" _
  | list first => exact h.around (hinside k) _ _
  | item => exact h.around (hinside k) "li" _
  | codeBlock info literal => exact h.around (h.characters _) "codeblock" _
  | htmlBlock literal =>
    rw [strokes]
    exact h.htmlStrokes (h.around (h.characters _) "p" .none) _
  | table alignments =>
    have hrows : Q (Topic.rowStrokes false (parts r false k children)) := by
      apply h.rowStrokes
      intro part hpart
      obtain ⟨t, ht, rfl⟩ := mem_parts hpart
      exact hchildren k t ht
    exact h.around (h.around (h.append (h.columnStrokes 1 alignments) hrows) "tgroup" _) "table" _
  | tableHead => exact h.around (h.around (hinside k) "row" _) "thead" _
  | tableRow => exact h.around (hinside k) "row" _
  | tableCell => exact h.around (hinside k) "entry" _
  | emphasis => exact h.around (hinside k) "i" _
  | strong => exact h.around (hinside k) "b" _
  | strikethrough => exact h.around (hinside k) "ph" _
  | link url title =>
    rw [strokes]
    split
    · exact hinside k
    · exact h.around (hinside k) "xref" _
  | image url title => exact h.around (h.around (hinside (k + 1)) "alt" _) "image" _
  | text content => exact h.characters content
  | code content => exact h.around (h.characters content) "codeph" _
  | inlineHtml html =>
    rw [strokes]
    exact h.htmlStrokes (h.characters html) _
  | softBreak => exact h.characters _
  | hardBreak => exact h.instruction "linebreak" none
  | thematicBreak => exact h.nil
  | custom name literal => exact h.refuse (.custom name)

end Compositional

end DitaTopic.Topic
