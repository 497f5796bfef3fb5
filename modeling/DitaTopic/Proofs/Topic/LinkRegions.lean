import DitaTopic.Proofs.Render.Regions
import DitaTopic.Proofs.Render.Written
import DitaTopic.Proofs.Topic.LinkPlaces

/-!
# Link regions and the topic vocabulary

The handlers of the vocabulary keep the regions without links that they are called in and write no
link there, whatever other handlers a session has. With them beneath, a handler that has entered a
region and delegates gets everything below without links, except on a document node: delegating
there starts from what the options ask for, like rendering the node does, and the region that the
handler has entered is forgotten. The laws follow the construction of programs.
-/

namespace DitaTopic.Topic

open DitaTopic.Document (ColumnAlignment NodeType)
open DitaTopic.Markup
open DitaTopic.Render

variable {σ α β : Type} {session : Session σ} {visit : Frame → Run σ Outcome}
  {base k l m : Nat}

/-- A request that writes the start of a link. -/
def StartsLink : Request → Prop
  | .write (.start name _) => name = "xref"
  | _ => False

/-- A program makes all its requests inside at least `base` regions without links, starts no link if
that is one or more, and leads from `k` regions to `l` when it succeeds. -/
def Moves (session : Session σ) (visit : Frame → Run σ Outcome) (base k l : Nat)
    (p : Rendering α) : Prop :=
  ∀ ⦃s⦄, s.suppression = k →
    (∀ q ∈ p.run.asked (session.answer visit) s,
      base ≤ q.2.suppression ∧ (0 < base → ¬ StartsLink q.1)) ∧
    ∀ ⦃a t⦄, session.perform visit p s = .ok (.ok a, t) → t.suppression = l

/-- A program stays within the `k` regions that it starts in. -/
abbrev Stays (session : Session σ) (visit : Frame → Run σ Outcome) (k : Nat) (p : Rendering α) :
    Prop :=
  Moves session visit k k k p

namespace Moves

theorem bind {p : Rendering α} {f : α → Rendering β} (hp : Moves session visit base k l p)
    (hf : ∀ a, Moves session visit base l m (f a)) : Moves session visit base k m (p >>= f) := by
  intro s hs
  obtain ⟨hasked, hback⟩ := hp hs
  rw [Session.asked_bind, Session.perform_bind]
  cases hperform : session.perform visit p s with
  | error i =>
    refine ⟨fun q hq => hasked q ?_, fun a t h => ?_⟩
    · rwa [List.append_nil] at hq
    · cases h
  | ok result =>
    obtain ⟨outcome, t⟩ := result
    cases outcome with
    | error e =>
      refine ⟨fun q hq => hasked q ?_, fun a t h => ?_⟩
      · rwa [List.append_nil] at hq
      · cases h
    | ok a =>
      obtain ⟨hbehind, hend⟩ := hf a (hback hperform)
      refine ⟨fun q hq => ?_, hend⟩
      rcases List.mem_append.mp hq with hq | hq
      · exact hasked q hq
      · exact hbehind q hq

/-- A program that makes one request leads where the answer does. -/
theorem request {r : Request} {p : Rendering α} (hle : base ≤ k)
    (hasked : ∀ s, p.run.asked (session.answer visit) s = [(r, s)])
    (hlink : 0 < base → ¬ StartsLink r)
    (hback : ∀ ⦃s a t⦄, s.suppression = k → session.perform visit p s = .ok (.ok a, t) →
      t.suppression = l) : Moves session visit base k l p := by
  intro s hs
  refine ⟨fun q hq => ?_, fun a t h => hback hs h⟩
  rw [hasked, List.mem_singleton] at hq
  subst hq
  exact ⟨hs ▸ hle, hlink⟩

theorem suppressLinks (h : base ≤ k) :
    Moves session visit base k (k + 1) Rendering.suppressLinks := by
  refine request h (session.asked_lift visit .suppressLinks) (fun _ hlink => hlink) ?_
  intro s a t hs hperform
  cases hperform
  exact congrArg (· + 1) hs

theorem allowLinks (h : base ≤ k + 1) :
    Moves session visit base (k + 1) k Rendering.allowLinks := by
  refine request h (session.asked_lift visit .allowLinks) (fun _ hlink => hlink) ?_
  intro s a t hs hperform
  cases hperform
  exact congrArg (· - 1) hs

theorem within {p : Rendering α} (h : Moves session visit (base + 1) k l p) :
    Moves session visit base k l p := by
  intro s hs
  obtain ⟨hasked, hback⟩ := h hs
  refine ⟨fun q hq => ?_, hback⟩
  obtain ⟨hle, hlink⟩ := hasked q hq
  exact ⟨Nat.le_of_succ_le hle, fun _ => hlink (Nat.succ_pos base)⟩

theorem pure (a : α) : Stays session visit k (Pure.pure a : Rendering α) := by
  intro s hs
  refine ⟨fun q hq => absurd hq List.not_mem_nil, fun b t h => ?_⟩
  cases h
  exact hs

theorem write {command : Command} (h : 0 < k → ¬ StartsLink (.write command)) :
    Stays session visit k (Rendering.write command) := by
  refine request (Nat.le_refl k) (session.asked_request visit (.write command)) h ?_
  intro s a t hs hperform
  rw [Session.perform_write] at hperform
  obtain ⟨-, rfl⟩ := Prod.mk.inj (Except.ok.inj hperform)
  exact hs

theorem start {name : String} (h : name ≠ "xref") (attributes : Attributes) :
    Stays session visit k (Rendering.start name attributes) :=
  write fun _ => h

theorem finish : Stays session visit k Rendering.finish :=
  write fun _ hlink => hlink

theorem characters (text : String) : Stays session visit k (Rendering.characters text) :=
  write fun _ hlink => hlink

theorem instruction (target : String) (data : Option String) :
    Stays session visit k (Rendering.instruction target data) :=
  write fun _ hlink => hlink

theorem node (h : Restores visit) (id : Nat) : Stays session visit k (Rendering.node id) := by
  refine request (Nat.le_refl k) (session.asked_request visit (.render id))
    (fun _ hlink => hlink) ?_
  intro s a t hs hperform
  rw [Session.perform_node] at hperform
  exact (renderNode_restores h hperform).2.trans hs

theorem childrenOf (h : Restores visit) (id : Nat) :
    Stays session visit k (Rendering.childrenOf id) := by
  refine request (Nat.le_refl k) (session.asked_request visit (.renderChildren id))
    (fun _ hlink => hlink) ?_
  intro s a t hs hperform
  have hanswer := (session.perform_request visit (.renderChildren id) s).symm.trans hperform
  exact (answer_restores h (r := .renderChildren id) trivial hanswer).2.trans hs

theorem finishMany (n : Nat) : Stays session visit k (Rendering.finishMany n) := by
  induction n with
  | zero => exact pure ()
  | succ n ih => exact finish.bind fun _ => ih

theorem nodes (h : Restores visit) (ids : List Nat) :
    Stays session visit k (Rendering.nodes ids) := by
  induction ids with
  | nil => exact pure ()
  | cons id rest ih => exact (node h id).bind fun _ => ih

theorem elim {f : Nat → Rendering Unit} (hf : ∀ id, Stays session visit k (f id))
    (o : Option Nat) : Stays session visit k (o.elim (Pure.pure ()) f) := by
  cases o with
  | none => exact pure ()
  | some id => exact hf id

theorem element {content : Rendering Unit} (h : Stays session visit k content) {name : String}
    (hname : name ≠ "xref") (attributes : Attributes) :
    Stays session visit k (Rendering.element name attributes content) :=
  (start hname attributes).bind fun _ => h.bind fun _ => finish

theorem look {f : View → Rendering α}
    (h : ∀ view : View, view.suppression = k → Stays session visit k (f view)) :
    Stays session visit k (Rendering.look >>= f) := by
  intro s hs
  obtain ⟨hasked, hback⟩ := h s.view hs hs
  have hlook := session.perform_look visit s
  have hrequest : Program.asked (session.answer visit) Rendering.look.run s = [(.look, s)] :=
    session.asked_lift visit .look s
  rw [Session.asked_bind, Session.perform_bind_of_ok session visit hlook, hlook, hrequest]
  refine ⟨fun q hq => ?_, hback⟩
  rcases List.mem_cons.mp hq with rfl | hq
  · exact ⟨Nat.le_of_eq hs.symm, fun _ hlink => hlink⟩
  · exact hasked q hq

/-- A region that is entered for a program and left after it. -/
theorem withoutLinks {p : Rendering Unit} (h : Stays session visit (k + 1) p) :
    Stays session visit k
      (Rendering.suppressLinks >>= fun _ => p >>= fun _ => Rendering.allowLinks) :=
  (suppressLinks (Nat.le_refl k)).bind fun _ =>
    h.within.bind fun _ => allowLinks (Nat.le_succ k)

theorem columns (index : Nat) (alignments : List ColumnAlignment) :
    Stays session visit k (columns index alignments) := by
  induction alignments generalizing index with
  | nil => exact pure ()
  | cons alignment rest ih =>
    exact ((pure ()).element (by decide) _).bind fun _ => ih (index + 1)

theorem tableChildren (h : Restores visit) (inBody : Bool) (ids : List Nat) :
    Stays session visit k (tableChildren session.scene.document inBody ids) := by
  induction ids generalizing inBody with
  | nil => exact pure inBody
  | cons id rest ih =>
    rw [Topic.tableChildren]
    generalize (session.scene.document.type? id == some .tableRow) = isRow
    have hrow := (node h id).bind
      (f := fun _ => Topic.tableChildren session.scene.document (inBody || isRow) rest)
      fun _ => ih (inBody || isRow)
    cases isRow && !inBody with
    | false => exact hrow
    | true => exact (start (by decide) _).bind fun _ => hrow

end Moves

variable {settings : Settings} {node : Nat}

theorem stays_document (h : Restores visit) :
    Stays session visit k (document settings session.scene node) := by
  rw [document_eq]
  have hend : ∀ n, Stays session visit k (Rendering.finishMany n >>= fun _ => Rendering.finish) :=
    fun n => (Moves.finishMany n).bind fun _ => .finish
  exact (Moves.start (by decide) _).bind fun _ => (Moves.start (by decide) _).bind fun _ =>
    (Moves.elim (Moves.childrenOf h) _).bind fun _ => Moves.finish.bind fun _ =>
      (Moves.elim (fun id => (Moves.childrenOf h id).element (by decide) .none) _).bind fun _ =>
        (Moves.start (by decide) _).bind fun _ => Moves.look fun atBody _ =>
          (Moves.nodes h _).bind fun _ => Moves.look fun atEnd _ =>
            hend (atEnd.depth + 1 - atBody.depth)

theorem stays_heading (h : Restores visit) :
    Stays session visit k (heading settings session.scene node) := by
  rw [heading]
  split
  · next level written hkind =>
    have hnested : Stays session visit k (nestedHeading settings session.scene node level) :=
      (Moves.childrenOf h node).element (by decide) _
    refine Moves.look fun view _ => ?_
    split
    · exact (Moves.finishMany _).bind fun _ => (Moves.start (by decide) _).bind fun _ =>
        (Moves.childrenOf h node).element (by decide) .none
    · exact hnested
  · exact Moves.pure ()

theorem stays_html {p : Rendering Unit} (h : Stays session visit k p) (html : String)
    (treatment : HtmlTreatment) :
    Stays session visit k
      (match treatment with
        | .dropped => pure ()
        | .asText => p
        | .asInstruction => Rendering.instruction "html" (some html)) := by
  cases treatment with
  | dropped => exact Moves.pure ()
  | asText => exact h
  | asInstruction => exact Moves.instruction "html" (some html)

/-- A link is an element only outside all regions. -/
theorem stays_link (h : Restores visit) :
    Stays session visit k (link settings session.scene node) := by
  rw [link]
  split
  · next url title hkind =>
    refine Moves.look fun view hview => ?_
    split
    · exact Moves.childrenOf h node
    · next hshown =>
      -- the start of the element is no exception, since there is no region around it
      have hopen : ¬ 0 < k := by
        rw [← hview]
        exact fun hk => hshown (decide_eq_true hk)
      exact (Moves.write fun hk => absurd hk hopen).bind fun _ =>
        (Moves.childrenOf h node).bind fun _ => .finish
  · exact Moves.pure ()

theorem stays_image (h : Restores visit) :
    Stays session visit k (image settings session.scene node) := by
  rw [image]
  split
  · exact ((Moves.childrenOf h node).withoutLinks.element (by decide) .none).element (by decide) _
  · exact Moves.pure ()

theorem stays_table (h : Restores visit) :
    Stays session visit k (table session.scene node) := by
  rw [table]
  split
  · next alignments hkind =>
    have hend : ∀ inBody : Bool, Stays session visit k
        (if inBody then Rendering.finish else pure ()) := by
      intro inBody
      cases inBody with
      | false => exact Moves.pure ()
      | true => exact Moves.finish
    have hinside := (Moves.columns 1 alignments).bind fun _ =>
      (Moves.tableChildren h false (session.scene.document.children node)).bind hend
    exact (hinside.element (by decide) _).element (by decide) .none
  · exact Moves.pure ()

theorem stays_wrap (h : Restores visit) {name : String} (hname : name ≠ "xref")
    (attributes : Attributes) :
    Stays session visit k (wrap name attributes session.scene node) :=
  (Moves.childrenOf h node).element hname attributes

theorem stays_list (h : Restores visit) : Stays session visit k (list session.scene node) := by
  rw [list]
  split
  · exact (Moves.childrenOf h node).element (show "ol" ≠ "xref" by decide) .none
  · exact (Moves.childrenOf h node).element (show "ul" ≠ "xref" by decide) .none

theorem stays_codeBlock : Stays session visit k (codeBlock settings session.scene node) := by
  rw [codeBlock]
  split
  · exact (Moves.characters _).element (by decide) _
  · exact Moves.pure ()

theorem stays_htmlBlock : Stays session visit k (htmlBlock settings session.scene node) := by
  rw [htmlBlock]
  split
  · exact stays_html ((Moves.characters _).element (by decide) .none) _ _
  · exact Moves.pure ()

theorem stays_inlineHtml : Stays session visit k (inlineHtml settings session.scene node) := by
  rw [inlineHtml]
  split
  · exact stays_html (Moves.characters _) _ _
  · exact Moves.pure ()

theorem stays_text : Stays session visit k (text session.scene node) := by
  rw [text]
  split
  · exact Moves.characters _
  · exact Moves.pure ()

theorem stays_code : Stays session visit k (code session.scene node) := by
  rw [code]
  split
  · exact (Moves.characters _).element (by decide) .none
  · exact Moves.pure ()

/-- Every handler of the vocabulary stays within the regions that it is called in. -/
theorem stays_handler (h : Restores visit) :
    ∀ handler ∈ handlers settings, Stays session visit k (handler.render session.scene node) := by
  simp only [handlers, List.forall_mem_cons]
  have hthead : Stays session visit k (tableHead session.scene node) :=
    ((Moves.childrenOf h node).element (by decide) .none).element (by decide) .none
  exact ⟨stays_document h, stays_heading h, stays_wrap h (by decide) _, stays_wrap h (by decide) _,
    stays_list h, stays_wrap h (by decide) _, stays_codeBlock, stays_htmlBlock, stays_table h,
    hthead, stays_wrap h (by decide) _, stays_wrap h (by decide) _, stays_wrap h (by decide) _,
    stays_wrap h (by decide) _, stays_wrap h (by decide) _, stays_link h, stays_image h,
    stays_text, stays_code, stays_inlineHtml, Moves.characters _,
    Moves.instruction "linebreak" none, Moves.pure (), List.forall_mem_nil _⟩

theorem startsLink_of_mem_events {command : Command} {openElements : List String}
    {event : MarkupEvent} (hevent : event ∈ command.events openElements)
    (hlink : event.isLink = true) : StartsLink (.write command) := by
  cases command with
  | start name attributes =>
    rw [List.mem_singleton.mp hevent] at hlink
    exact eq_of_beq hlink
  | finish | close =>
    obtain ⟨name, -, rfl⟩ := List.mem_map.mp hevent
    cases hlink
  | finishNamed name | characters text | instruction target data =>
    rw [List.mem_singleton.mp hevent] at hlink
    cases hlink

/-- A handler of the vocabulary keeps its regions, and inside one it writes no link. -/
theorem kept_of_handler {start : Start σ}
    (hhandler : start.frame.chain.outer.handler ∈ handlers settings) :
    start.KeepsRegions session ∧
      (0 < session.regionsAt start → ∀ event, start.Writes session event → event.isLink = false) := by
  have hstays : Stays session (session.visit start.depth) (session.regionsAt start)
      (start.frame.chain.outer.handler.render session.scene start.frame.node) :=
    stays_handler (restores_visit session start.depth) _ hhandler
  obtain ⟨hasked, -⟩ := hstays (s := session.enter start.frame start.before) rfl
  refine ⟨fun r t hq => (hasked (r, t) hq).1, ?_⟩
  rintro hregion event ⟨command, t, hq, hevent⟩
  exact Bool.eq_false_iff.mpr fun hlink =>
    (hasked _ hq).2 hregion (startsLink_of_mem_events hevent hlink)

/-- A handler that delegates hands its node on to the handler beneath, with the suppression it has
itself at that point; on a document node that of the options takes its place. If it delegates from
a region without links, and not to a document node that reopens, everything that runs inside the
call is in a region, and no handler of the vocabulary writes a link there. -/
theorem delegated_in_region (session : Session σ) (depth node : Nat) (s : State σ)
    {start : Start σ} (hstart : start ∈ session.startsOf depth (.render node) s) {t : State σ}
    (hrequest : (.delegate, t) ∈ session.requests start) {inner : Frame}
    (hinner : start.frame.beneath? = some inner) :
    HandedOn session start t inner ∧
      ∀ below, start.depth = below + 1 → 0 < t.suppression → ¬ inner.Reopens session →
        ∀ reached, Inside session ⟨below, inner, t⟩ reached →
          0 < session.regionsAt reached ∧
            ∀ settings, reached.frame.chain.outer.handler ∈ handlers settings →
              reached.KeepsRegions session ∧
                ∀ event, reached.Writes session event → event.isLink = false := by
  refine ⟨handedOn (proper_of_mem_startsOf hstart) hrequest hinner, ?_⟩
  intro below _ hsuppressed hopen reached hreached
  have hregion := hreached.suppressed (enter_suppressed hopen hsuppressed)
  refine ⟨hregion, fun settings hhandler => ?_⟩
  obtain ⟨hkeeps, hunlinked⟩ := kept_of_handler hhandler
  exact ⟨hkeeps, hunlinked hregion⟩

/-- A frame that is run in a region, where the vocabulary alone has handlers and no document node
reopens, gives a recorder no link. -/
theorem unlinked_in_region {session : Session (Array MarkupEvent)}
    (hsink : session.sink = Sink.recorder) {depth : Nat} {frame : Frame}
    {s t : State (Array MarkupEvent)} {outcome : Outcome}
    (hregion : 0 < s.suppression)
    (hall : ∀ reached ∈ session.starts depth frame s,
      reached.frame.chain.outer.handler ∈ handlers settings ∧ ¬ reached.frame.Reopens session)
    (h : session.visit depth frame s = .ok (outcome, t)) :
    Records (fun event => event.isLink = false) s t := by
  cases depth with
  | zero => cases h
  | succ depth =>
    have hopen : ¬ frame.Reopens session := (hall ⟨depth, frame, s⟩ List.mem_cons_self).2
    have hself : ∀ below, depth + 1 = below + 1 →
        Inside session ⟨depth, frame, s⟩ ⟨below, frame, s⟩ := fun _ hbelow =>
      Nat.succ.inj hbelow ▸ .self
    have hinside := inside_of_mem_starts hself fun reached hreached =>
      ⟨(kept_of_handler (hall reached hreached).1).1, (hall reached hreached).2⟩
    refine (records_visit hsink h).mono ?_
    rintro event ⟨reached, hreached, hwrites⟩
    have hreachedIn := (hinside reached hreached).suppressed (enter_suppressed hopen hregion)
    exact (kept_of_handler (hall reached hreached).1).2 hreachedIn event hwrites

/-- The script of a handler that enters a region without links and delegates. -/
def hush : List Action := [.suppressLinks, .delegate]

theorem delegate_of_hush {start : Start σ} {type : NodeType}
    (h : start.frame.chain.outer.handler = Handler.ofScript type hush) :
    (.delegate, { session.enter start.frame start.before with
      suppression := session.regionsAt start + 1 }) ∈ session.requests start := by
  rw [Session.requests, h]
  show _ ∈ (Rendering.suppressLinks >>= fun _ => Rendering.delegate >>= fun _ =>
    (pure () : Rendering Unit)).run.asked _ _
  rw [Session.asked_bind, Session.perform_suppressLinks]
  refine List.mem_append_right _ ?_
  show _ ∈ (Rendering.delegate >>= fun _ => (pure () : Rendering Unit)).run.asked _ _
  rw [Session.asked_bind]
  refine List.mem_append_left _ ?_
  rw [show (Rendering.delegate).run.asked (session.answer _) _ = _ from
    session.asked_request _ .delegate _]
  exact List.mem_singleton_self _

/-- A document with a link in a paragraph. -/
def pointer : Document :=
  ((Document.empty.attach 0 .paragraph).attach 1 (.link "a.md" "")).attach 2 (.text "x")

/-- A renderer with a provider over the vocabulary that has such a handler for one type. -/
def hushed (type : NodeType) : Renderer :=
  .withProviders KeyedList.empty [ScriptedProvider.provider {
    kind := ⟨"quiet"⟩
    delegates := some [⟨"core"⟩]
    handlers := [(type, hush)] }]

def hushedSession (type : NodeType) : Session (Array MarkupEvent) where
  scene := (hushed type).scene pointer
  registry := (Registry.linksOf ((hushed type).view pointer) (hushed type).providers).foldl
    Registry.register Registry.empty
  sink := Sink.recorder

/-- That handler at work on a node, over one of the vocabulary. -/
def hushedFrame (node : Nat) (handler : Handler) : Frame where
  node := node
  type := handler.type
  chain := ⟨⟨⟨"quiet"⟩, Handler.ofScript handler.type hush⟩, [⟨⟨"core"⟩, handler⟩]⟩

def hushedStart (depth node : Nat) (handler : Handler) : Start (Array MarkupEvent) :=
  ⟨depth, hushedFrame node handler, { writer := { sink := #[] } }⟩

theorem mem_startsOf_hushed {type : NodeType} {node depth : Nat} {handler : Handler}
    (hframe : (hushedSession type).frame? node = some (hushedFrame node handler)) :
    hushedStart depth node handler ∈
      (hushedSession type).startsOf (depth + 1) (.render node) { writer := { sink := #[] } } := by
  rw [Session.startsOf, Session.framesOf, hframe]
  exact List.mem_append_left _ (Session.mem_starts_succ.mpr (.inl rfl))

/-- Over the handler of links there is no link. -/
theorem delegated_in_region_hushed :
    ∃ start ∈ (hushedSession .link).startsOf 3 (.render 2) { writer := { sink := #[] } },
      ∃ t inner, (.delegate, t) ∈ (hushedSession .link).requests start ∧
        start.frame.beneath? = some inner ∧ inner.type = .link ∧ 0 < t.suppression ∧
        HandedOn (hushedSession .link) start t inner ∧
        ∀ event, Start.Writes (hushedSession .link) ⟨1, inner, t⟩ event → event.isLink = false := by
  let handler : Handler := ⟨.link, link (Settings.ofView ((hushed .link).view pointer))⟩
  have hstart : hushedStart 2 2 handler ∈
      (hushedSession .link).startsOf 3 (.render 2) _ := mem_startsOf_hushed rfl
  have hrequest : (.delegate, _) ∈ (hushedSession .link).requests (hushedStart 2 2 handler) :=
    delegate_of_hush rfl
  have hhandler : handler ∈ handlers (Settings.ofView ((hushed .link).view pointer)) := by
    simp [handlers, handler]
  have hopen : ∀ chain, ¬ (⟨2, .link, chain⟩ : Frame).Reopens (hushedSession .link) := by
    rintro chain ⟨htype, -⟩
    cases htype
  obtain ⟨hhanded, hinside⟩ := delegated_in_region (hushedSession .link) 3 2 _ hstart hrequest rfl
  obtain ⟨-, hunlinked⟩ := hinside 1 rfl (Nat.succ_pos _) (hopen _) _ .self
  exact ⟨_, hstart, _, _, hrequest, rfl, rfl, Nat.succ_pos _, hhanded, (hunlinked _ hhandler).2⟩

/-- On a document node the region is forgotten, and the link is written. -/
theorem delegated_document_reopens :
    (∃ start ∈ (hushedSession .document).startsOf 4 (.render 0) { writer := { sink := #[] } },
      ∃ t inner, (.delegate, t) ∈ (hushedSession .document).requests start ∧
        start.frame.beneath? = some inner ∧ t.suppression = 1 ∧
        ((hushedSession .document).enter inner t).suppression = 0) ∧
      ((hushed .document).render Sink.recorder pointer #[]).toOption.map
        (fun t => (t.outcome.toOption, t.sink.any MarkupEvent.isLink)) = some (some (), true) := by
  let handler : Handler := ⟨.document, document (Settings.ofView ((hushed .document).view pointer))⟩
  have hstart : hushedStart 3 0 handler ∈
      (hushedSession .document).startsOf 4 (.render 0) _ := mem_startsOf_hushed rfl
  have hrequest : (.delegate, _) ∈ (hushedSession .document).requests (hushedStart 3 0 handler) :=
    delegate_of_hush rfl
  exact ⟨⟨_, hstart, _, _, hrequest, rfl, rfl, rfl⟩, by decide +kernel⟩

/-- Below any other node the region holds. -/
example : ((hushed .paragraph).render Sink.recorder pointer #[]).toOption.map
    (fun t => (t.outcome.toOption, t.sink.any MarkupEvent.isLink)) = some (some (), false) := by
  decide +kernel

end DitaTopic.Topic
