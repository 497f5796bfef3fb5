import DitaTopic.Proofs.Render.Context

/-!
# Regions without links

A handler that is called inside a region starts inside it, whether it is the handler of another
node or the one beneath on the same node. The exception is a document node: whatever calls its
handlers, they start with the suppression that the options ask for. So a region holds for all that
runs below, as long as no handler on the way leaves a region that it has not entered and no
document node begins a new count outside all regions.
-/

namespace DitaTopic.Render

variable {σ : Type} {session : Session σ} {visit : Frame → Run σ Outcome}

/-- How many regions without links a handler starts in. -/
def Session.regionsAt (session : Session σ) (start : Start σ) : Nat :=
  (session.enter start.frame start.before).suppression

/-- A frame on a document node whose handlers start outside all regions. -/
def Frame.Reopens (session : Session σ) (frame : Frame) : Prop :=
  frame.type = .document ∧ session.scene.settings.documentSuppression = 0

/-- A handler leaves no region but those that it has entered itself. -/
def Start.KeepsRegions (session : Session σ) (start : Start σ) : Prop :=
  ∀ r t, (r, t) ∈ session.requests start → session.regionsAt start ≤ t.suppression

/-- A handler that runs below another one or is that one, where all those above it keep their
regions and no document node in between reopens. -/
inductive Inside (session : Session σ) (start : Start σ) : Start σ → Prop
  | self : Inside session start start
  | call {reached : Start σ} {r : Request} {t u : State σ} {frame : Frame} {depth : Nat} :
      Inside session start reached → reached.KeepsRegions session →
      (r, t) ∈ session.requests reached →
      (frame, u) ∈ session.framesOf (session.visit reached.depth) r t →
      ¬ frame.Reopens session → reached.depth = depth + 1 →
      Inside session start ⟨depth, frame, u⟩

/-- What a request runs starts with the suppression at the request. -/
theorem framesOf_suppression (h : Restores visit) {r : Request} {s : State σ}
    {q : Frame × State σ} (hq : q ∈ session.framesOf visit r s) :
    q.2.suppression = s.suppression := by
  cases r with
  | render node =>
    obtain ⟨frame, -, rfl⟩ := List.mem_map.mp hq
    rfl
  | renderChildren node =>
    rw [Session.framesOf] at hq
    split at hq
    · exact (mem_framesOfEach h hq).2.2
    · cases hq
  | delegate =>
    obtain ⟨inner, -, rfl⟩ := List.mem_map.mp hq
    rfl
  | write command | suppressLinks | allowLinks | look | note n => cases hq

theorem enter_suppressed {frame : Frame} {s : State σ} (hopen : ¬ frame.Reopens session)
    (hs : 0 < s.suppression) : 0 < (session.enter frame s).suppression := by
  rw [Session.enter]
  by_cases htype : frame.type = .document
  · rw [if_pos htype]
    exact Nat.pos_of_ne_zero fun hzero => hopen ⟨htype, hzero⟩
  · rw [if_neg htype]
    exact hs

/-- A region around a handler is a region around everything that runs inside it. -/
theorem Inside.suppressed {start reached : Start σ} (h : Inside session start reached)
    (hstart : 0 < session.regionsAt start) : 0 < session.regionsAt reached := by
  induction h with
  | self => exact hstart
  | call _ hkeeps hrequest hframe hopen _ ih =>
    have hrequested := Nat.lt_of_lt_of_le ih (hkeeps _ _ hrequest)
    refine enter_suppressed hopen ?_
    rw [framesOf_suppression (restores_visit session _) hframe]
    exact hrequested

/-- Where all handlers keep their regions and no document node reopens, all that a frame runs is
inside it. -/
theorem inside_of_mem_starts {start : Start σ} {depth : Nat} {frame : Frame} {s : State σ}
    (hinside : ∀ below, depth = below + 1 → Inside session start ⟨below, frame, s⟩)
    (hall : ∀ reached ∈ session.starts depth frame s,
      reached.KeepsRegions session ∧ ¬ reached.frame.Reopens session) :
    ∀ reached ∈ session.starts depth frame s, Inside session start reached := by
  induction depth generalizing frame s with
  | zero => exact fun reached hreached => absurd hreached List.not_mem_nil
  | succ depth ih =>
    intro reached hreached
    obtain rfl | ⟨⟨r, t⟩, hrequest, ⟨inner, u⟩, hrun, hreached⟩ :=
      Session.mem_starts_succ.mp hreached
    · exact hinside depth rfl
    · have hkeeps := (hall _ (Session.mem_starts_succ.mpr (.inl rfl))).1
      have hinner : ∀ other ∈ session.starts depth inner u,
          other.KeepsRegions session ∧ ¬ other.frame.Reopens session := fun other hother =>
        hall other (Session.mem_starts_succ.mpr (.inr ⟨_, hrequest, _, hrun, hother⟩))
      refine ih ?_ hinner reached hreached
      rintro below rfl
      have hopen := (hinner _ (Session.mem_starts_succ.mpr (.inl rfl))).2
      exact (hinside (below + 1) rfl).call hkeeps hrequest hrun hopen rfl

theorem proper_of_mem_startsOf {depth node : Nat} {s : State σ} {start : Start σ}
    (h : start ∈ session.startsOf depth (.render node) s) : start.frame.Proper session := by
  obtain ⟨⟨frame, t⟩, hq, hbelow⟩ := List.mem_flatMap.mp h
  obtain ⟨found, hfound, hpair⟩ := List.mem_map.mp hq
  cases hpair
  exact proper_of_mem_starts (proper_of_frame? (Option.mem_toList.mp hfound)) hbelow

/-- What the handler beneath finds when a handler delegates to it from a state. -/
structure HandedOn (session : Session σ) (start : Start σ) (t : State σ) (inner : Frame) :
    Prop where
  answer : session.answer (session.visit start.depth) .delegate t =
    session.visit start.depth inner t
  node : inner.node = start.frame.node
  current : (session.enter inner t).frame = some inner
  suppression : (session.enter inner t).suppression =
    if session.scene.document.type? start.frame.node = some .document
      then session.scene.settings.documentSuppression else t.suppression

theorem Frame.beneath?_eq_some {frame inner : Frame} (h : frame.beneath? = some inner) :
    ∃ chain, frame.chain.inner? = some chain ∧ inner = { frame with chain } := by
  obtain ⟨chain, hchain, rfl⟩ := Option.map_eq_some_iff.mp h
  exact ⟨chain, hchain, rfl⟩

theorem handedOn {start : Start σ} (hproper : start.frame.Proper session) {t : State σ}
    (hrequest : (.delegate, t) ∈ session.requests start) {inner : Frame}
    (hinner : start.frame.beneath? = some inner) : HandedOn session start t inner := by
  obtain ⟨chain, hchain, rfl⟩ := Frame.beneath?_eq_some hinner
  refine ⟨?_, rfl, rfl, ?_⟩
  · show Session.delegate _ t = _
    rw [Session.delegate_eq, requests_frame hrequest]
    simp only [hchain]
  · rw [hproper.type, Session.enter]
    simp only [Option.some.injEq]

end DitaTopic.Render
