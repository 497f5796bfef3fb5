import DitaTopic.Proofs.Topic.Compositional

/-!
# Strokes that settle

Strokes that succeed leave open nothing but elements that were so before. They may end more than
they start: a heading of a document node inside another one starts its section in the outermost
body and ends whatever is open in it. What carries the proof over the body of a document node is
that at most the innermost open element is a section that stands in what was open before.
-/

namespace DitaTopic.Topic

open DitaTopic.Document (ColumnAlignment NodeKind NodeType Tree)
open DitaTopic.Markup
open DitaTopic.Render

theorem tail_suffix_of_cons {name : String} {inner outer : List String}
    (h : inner <:+ name :: outer) : inner.tail <:+ outer := by
  rcases List.suffix_cons_iff.mp h with rfl | h
  · exact List.suffix_refl _
  · exact (List.tail_suffix inner).trans h

variable {P : List String → Prop} {first second inside : List Stroke} {r : Rules} {k mark : Nat}
  {openElements left outer below : List String} {marks marksLeft : Marks}

/-- Strokes succeed and lead from what is open and marked before them to what is so after them. -/
def Leads (ss : List Stroke) (openElements : List String) (marks : Marks) (left : List String)
    (marksLeft : Marks) : Prop :=
  (score ss openElements marks).outcome = .ok () ∧
    (score ss openElements marks).openElements = left ∧
    (score ss openElements marks).marks = marksLeft

theorem Leads.append (h : Leads (first ++ second) openElements marks left marksLeft) :
    ∃ between marksBetween, Leads first openElements marks between marksBetween ∧
      Leads second between marksBetween left marksLeft := by
  rw [Leads, score_append] at h
  obtain ⟨hfirst, -⟩ := Score.ok_of_followedBy h.1
  rw [Score.followedBy, hfirst] at h
  exact ⟨_, _, ⟨hfirst, rfl, rfl⟩, h⟩

theorem Leads.start {name : String} {attributes : Attributes}
    (h : Leads (.start name attributes :: second) openElements marks left marksLeft) :
    Leads second (name :: openElements) marks left marksLeft := h

theorem Leads.finish (h : Leads [.finish] openElements marks left marksLeft) :
    left = openElements.tail ∧ marksLeft = marks := ⟨h.2.1.symm, h.2.2.symm⟩

theorem Leads.finishBody (h : Leads [.finishBody] openElements (mark :: marks) left marksLeft) :
    left = (openElements.drop (openElements.length + 1 - mark)).tail ∧ marksLeft = marks := by
  refine ⟨?_, h.2.2.symm⟩
  have hleft : Command.openAfterAll openElements
    (List.replicate (openElements.length + 1 - mark) .finish ++ [.finish]) = left := h.2.1
  rw [← hleft, Command.openAfterAll_finishes]
  rfl

/-- Strokes that succeed keep a property of what is open and leave the marks as they are. -/
def Keeps (P : List String → Prop) (ss : List Stroke) : Prop :=
  ∀ ⦃openElements marks left marksLeft⦄, P openElements →
    Leads ss openElements marks left marksLeft → P left ∧ marksLeft = marks

/-- Strokes that succeed leave nothing open that they start, whatever of the rest they end. -/
def Settles (ss : List Stroke) : Prop := ∀ outer, Keeps (· <:+ outer) ss

theorem Keeps.nil : Keeps P [] := by
  rintro openElements marks _ _ h ⟨-, rfl, rfl⟩
  exact ⟨h, rfl⟩

theorem Keeps.append (hfirst : Keeps P first) (hsecond : Keeps P second) :
    Keeps P (first ++ second) := by
  intro openElements marks left marksLeft h hleads
  obtain ⟨between, marksBetween, hleads, hleads'⟩ := hleads.append
  obtain ⟨hbetween, rfl⟩ := hfirst h hleads
  exact hsecond hbetween hleads'

theorem Keeps.flatMap {α : Type} {items : List α} {strokesOf : α → List Stroke}
    (h : ∀ x ∈ items, Keeps P (strokesOf x)) : Keeps P (items.flatMap strokesOf) := by
  induction items with
  | nil => exact nil
  | cons x rest ih =>
    exact (h x List.mem_cons_self).append (ih fun y hy => h y (List.mem_cons_of_mem _ hy))

namespace Settles

theorem nil : Settles [] := fun _ => Keeps.nil

theorem append (hfirst : Settles first) (hsecond : Settles second) : Settles (first ++ second) :=
  fun outer => (hfirst outer).append (hsecond outer)

theorem characters (text : String) : Settles [.characters text] := by
  rintro outer openElements marks _ _ h ⟨-, rfl, rfl⟩
  exact ⟨h, rfl⟩

theorem instruction (target : String) (data : Option String) :
    Settles [.instruction target data] := by
  rintro outer openElements marks _ _ h ⟨-, rfl, rfl⟩
  exact ⟨h, rfl⟩

/-- Behind settling strokes and the end of an element no more is open than around the element. -/
theorem finish (h : Settles inside) {name : String}
    (hleads : Leads (inside ++ [.finish]) (name :: openElements) marks left marksLeft) :
    left <:+ openElements ∧ marksLeft = marks := by
  obtain ⟨between, marksBetween, hinside, hfinish⟩ := hleads.append
  obtain ⟨hbetween, rfl⟩ := h (name :: openElements) (List.suffix_refl _) hinside
  obtain ⟨rfl, rfl⟩ := hfinish.finish
  exact ⟨tail_suffix_of_cons hbetween, rfl⟩

theorem around (h : Settles inside) (name : String) (attributes : Attributes) :
    Settles (around name attributes inside) := by
  intro outer openElements marks left marksLeft hopen hleads
  obtain ⟨hleft, hmarks⟩ := h.finish hleads.start
  exact ⟨hleft.trans hopen, hmarks⟩

end Settles

theorem settles_compositional : Compositional Settles where
  nil := Settles.nil
  append := Settles.append
  around := Settles.around
  characters := Settles.characters
  instruction := Settles.instruction
  refuse type := by
    rintro outer openElements marks _ _ - ⟨hok, -⟩
    cases hok

/-! ### The body of a document node -/

/-- All open elements were so before, but that the innermost may be a section in one of them. -/
def Within (outer openElements : List String) : Prop :=
  ∃ around, around <:+ outer ∧ openElements <:+ "section" :: around

theorem Within.of_suffix (h : Within outer openElements) (hleft : left <:+ openElements) :
    Within outer left := by
  obtain ⟨around, haround, hopen⟩ := h
  exact ⟨around, haround, hleft.trans hopen⟩

theorem Settles.keeps_within (h : Settles inside) (outer : List String) :
    Keeps (Within outer) inside := by
  intro openElements marks left marksLeft hwithin hleads
  obtain ⟨hleft, hmarks⟩ := h openElements (List.suffix_refl _) hleads
  exact ⟨hwithin.of_suffix hleft, hmarks⟩

/-- What is open down to a body was so before, a section is none. -/
theorem Within.of_body (h : Within outer openElements) (hleft : left <:+ openElements)
    (hbody : left.head? = some "body") : left <:+ outer := by
  obtain ⟨around, haround, hopen⟩ := h
  rcases List.suffix_cons_iff.mp (hleft.trans hopen) with rfl | hsuffix
  · exact absurd (Option.some.inj hbody) (by decide)
  · exact hsuffix.trans haround

/-- The start of a section ends what is open in a body, or is that of a paragraph. -/
theorem Leads.startSection {ofSection ofParagraph : Attributes}
    (h : Leads (.startSection ofSection ofParagraph :: second) openElements marks left marksLeft) :
    (∃ body, body <:+ openElements ∧ body.head? = some "body" ∧
      Leads second ("title" :: "section" :: body) marks left marksLeft) ∨
    Leads second ("p" :: openElements) marks left marksLeft := by
  cases hplace : bodyPlace openElements.reverse with
  | none =>
    rw [Leads, score, Stroke.score, Stroke.commands, hplace] at h
    exact .inr h
  | some place =>
    rw [Leads, score, Stroke.score, Stroke.commands, hplace] at h
    simp only [Command.openAfterAll_finishes] at h
    obtain ⟨hlt, hbody, -⟩ := List.findIdx?_eq_some_iff_getElem.mp hplace
    rw [List.length_reverse] at hlt
    rw [List.getElem_reverse, beq_iff_eq] at hbody
    refine .inl ⟨openElements.drop (openElements.length - (place + 1)), List.drop_suffix _ _, ?_, h⟩
    rw [List.head?_drop, ← hbody, List.getElem?_eq_getElem (by omega)]
    congr 2
    omega

theorem keeps_heading (h : Settles inside) (ofSection ofParagraph : Attributes)
    (outer : List String) :
    Keeps (Within outer) (.startSection ofSection ofParagraph :: (inside ++ [.finish])) := by
  intro openElements marks left marksLeft hwithin hleads
  rcases hleads.startSection with ⟨body, hinner, hbody, hleads⟩ | hleads
  · obtain ⟨hleft, hmarks⟩ := h.finish hleads
    exact ⟨⟨body, hwithin.of_body hinner hbody, hleft⟩, hmarks⟩
  · obtain ⟨hleft, hmarks⟩ := h.finish hleads
    exact ⟨hwithin.of_suffix hleft, hmarks⟩

/-- Ending the body of a document node ends its topic, if that is still open. -/
theorem Within.finishBody (h : Within ("body" :: below) openElements)
    (hbelow : below <:+ "topic" :: outer) :
    (openElements.drop (openElements.length - below.length)).tail <:+ outer := by
  obtain ⟨around, haround, hopen⟩ := h
  have hsuffix := (List.drop_suffix (openElements.length - below.length) openElements).trans hopen
  have hbody := (tail_suffix_of_cons hsuffix).trans haround
  have hlength : (openElements.drop (openElements.length - below.length)).length ≤ below.length := by
    rw [List.length_drop]
    omega
  generalize openElements.drop (openElements.length - below.length) = left at hbody hlength
  have htail := List.length_tail (l := left)
  have hle := hbelow.length_le
  rw [List.length_cons] at hle
  -- what is left has no place for the body, and then none for the topic
  have htopic : left.tail <:+ below :=
    List.suffix_of_suffix_length_le hbody (List.suffix_cons _ _) (by omega)
  exact List.suffix_of_suffix_length_le (htopic.trans hbelow) (List.suffix_cons _ _) (by omega)

theorem Leads.body (h : Leads (.startBody :: (inside ++ [.finishBody])) below marks left marksLeft)
    (hinside : Keeps (Within ("body" :: below)) inside) (hbelow : below <:+ "topic" :: outer) :
    left <:+ outer ∧ marksLeft = marks := by
  have hstarted : Leads (inside ++ [.finishBody]) ("body" :: below) ((below.length + 1) :: marks)
      left marksLeft := h
  obtain ⟨between, marksBetween, hleads, hfinish⟩ := hstarted.append
  obtain ⟨hwithin, rfl⟩ :=
    hinside ⟨"body" :: below, List.suffix_refl _, List.suffix_cons _ _⟩ hleads
  obtain ⟨rfl, rfl⟩ := hfinish.finishBody
  rw [Nat.add_sub_add_right]
  exact ⟨hwithin.finishBody hbelow, rfl⟩

theorem settles_documentStrokes {o : Opening Part}
    (htitle : ∀ part, o.title = some part → Settles part.inside)
    (hshortdesc : ∀ part, o.shortdesc = some part → Settles part.inside)
    (hbody : ∀ part ∈ o.body, ∀ outer, Keeps (Within outer) part.whole) :
    Settles (documentStrokes r o) := by
  have hopening := settles_compositional.opening htitle hshortdesc
  intro outer openElements marks left marksLeft hopen hleads
  rw [documentStrokes, ← List.append_assoc] at hleads
  obtain ⟨below, marksBetween, hfirst, hrest⟩ := hleads.start.append
  obtain ⟨hbelow, rfl⟩ := hopening ("topic" :: openElements) (List.suffix_refl _) hfirst
  obtain ⟨hleft, hmarks⟩ := hrest.body
    (Keeps.flatMap fun part hpart => hbody part hpart ("body" :: below)) hbelow
  exact ⟨hleft.trans hopen, hmarks⟩

/-- The strokes of a tree settle, and those of its root's children. -/
theorem settles_strokes (k : Nat) (t : Tree) :
    Settles (strokes r false k t) ∧ Settles (insideStrokes r k t) := by
  induction t generalizing k with
  | node id kind children ih =>
    have hchildren : ∀ k, ∀ t ∈ children, Settles (strokes r false k t) :=
      fun k t ht => (ih t ht k).1
    refine ⟨?_, settles_compositional.wholes (hchildren k)⟩
    by_cases hkind : kind = .document
    · subst hkind
      have hparts : ∀ part ∈ parts r true r.documentSuppression children,
          Settles part.inside ∧ ∀ outer, Keeps (Within outer) part.whole := by
        intro part hpart
        obtain ⟨t, ht, rfl⟩ := mem_parts hpart
        obtain ⟨hwhole, hinside⟩ := ih t ht r.documentSuppression
        refine ⟨hinside, fun outer => ?_⟩
        show Keeps _ (strokes r true r.documentSuppression t)
        by_cases hheading : t.kind.type = .heading
        · obtain ⟨ofParagraph, hstrokes⟩ := strokes_heading (r := r)
            (k := r.documentSuppression) hheading
          rw [hstrokes]
          exact keeps_heading hinside _ ofParagraph outer
        · rw [strokes_top hheading]
          exact hwhole.keeps_within outer
      exact settles_documentStrokes
        (fun part hpart => (hparts part (Opening.title_mem hpart)).1)
        (fun part hpart => (hparts part (Opening.shortdesc_mem hpart)).1)
        (fun part hpart => (hparts part (Opening.body_mem hpart)).2)
    · exact settles_compositional.node k id hkind hchildren

end DitaTopic.Topic
