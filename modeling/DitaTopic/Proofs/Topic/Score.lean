import DitaTopic.Proofs.Topic.Strokes

/-!
# Scores

What playing strokes comes to where the sink takes up everything: the events, how it ends, and
what is open afterwards. A score depends on what is open at its start and on nothing else of the
writer. `delivers_play` says that for every sink playing follows the score up to the first
rejection.
-/

namespace DitaTopic.Topic

open DitaTopic.Markup
open DitaTopic.Render

/-- What strokes come to where every event is taken up. -/
structure Score where
  events : List MarkupEvent
  outcome : Outcome
  openElements : List String
  marks : Marks

/-- A score with events before its own. -/
def Score.behind (s : Score) (events : List MarkupEvent) : Score :=
  { s with events := events ++ s.events }

theorem Score.behind_behind (s : Score) (first second : List MarkupEvent) :
    (s.behind second).behind first = s.behind (first ++ second) := by
  rw [behind, behind, behind, List.append_assoc]

/-- A score and, unless it ends with an error, the one that goes on where it ends. -/
def Score.followedBy (first : Score) (next : List String → Marks → Score) : Score :=
  match first.outcome with
  | .ok _ => (next first.openElements first.marks).behind first.events
  | .error _ => first

def Stroke.score (stroke : Stroke) (openElements : List String) (marks : Marks) : Score where
  events := Command.eventsOf openElements (stroke.commands openElements marks)
  outcome := stroke.verdict
  openElements := Command.openAfterAll openElements (stroke.commands openElements marks)
  marks := stroke.marksAfter openElements marks

def score : List Stroke → List String → Marks → Score
  | [], openElements, marks => ⟨[], .ok (), openElements, marks⟩
  | stroke :: rest, openElements, marks =>
    (stroke.score openElements marks).followedBy (score rest)

theorem Score.followedBy_assoc (first : Score) (next last : List String → Marks → Score) :
    (first.followedBy next).followedBy last =
      first.followedBy fun openElements marks => (next openElements marks).followedBy last := by
  obtain ⟨events, outcome, openElements, marks⟩ := first
  cases outcome with
  | error e => rfl
  | ok _ =>
    simp only [followedBy]
    generalize next openElements marks = middle
    obtain ⟨later, outcome, openElements, marks⟩ := middle
    cases outcome with
    | error e => rfl
    | ok _ => exact (Score.behind_behind ..).symm

theorem score_append (first second : List Stroke) (openElements : List String) (marks : Marks) :
    score (first ++ second) openElements marks =
      (score first openElements marks).followedBy (score second) := by
  induction first generalizing openElements marks with
  | nil => rfl
  | cons stroke rest ih =>
    rw [List.cons_append, score, score, Score.followedBy_assoc]
    congr 1
    funext openElements marks
    exact ih openElements marks

variable {σ : Type}

theorem keepsNesting_commands (openElements : List String) (marks : Marks) (stroke : Stroke) :
    ∀ command ∈ stroke.commands openElements marks, command.keepsNesting = true := by
  intro command hmem
  cases stroke with
  | startSection ofSection ofParagraph =>
    rw [Stroke.commands] at hmem
    split at hmem
    · rcases List.mem_append.mp hmem with hmem | hmem
      · rw [List.eq_of_mem_replicate hmem]
        rfl
      · rcases List.mem_pair.mp hmem with rfl | rfl <;> rfl
    · rw [List.mem_singleton.mp hmem]
      rfl
  | finishBody =>
    rw [Stroke.commands] at hmem
    rcases List.mem_append.mp hmem with hmem | hmem
    · rw [List.eq_of_mem_replicate hmem]
      rfl
    · rw [List.mem_singleton.mp hmem]
      rfl
  | refuse type => cases hmem
  | _ =>
    rw [List.mem_singleton.mp hmem]
    rfl

theorem delivers_make (sink : Sink σ) (stroke : Stroke) (d : Desk σ) :
    Delivers .writeFailure sink d.writer (stroke.score d.writer.openElements d.marks).events
      stroke.verdict (stroke.score d.writer.openElements d.marks).openElements
      ((stroke.make sink d).1, (stroke.make sink d).2.writer) := by
  have hcalls := (Writer.delivers_performAll sink d.writer
    (keepsNesting_commands d.writer.openElements d.marks stroke)).mapError RenderError.writeFailure
  rw [Stroke.make]
  cases hv : stroke.verdict with
  | ok _ =>
    cases hperform : d.writer.performAll sink (stroke.commands d.writer.openElements d.marks) with
    | mk verdict w =>
      rw [hperform] at hcalls
      cases verdict <;> exact hcalls
  | error e =>
    cases stroke with
    | refuse type => exact Delivers.nothing _ sink d.writer (.error e)
    | _ => cases hv

/-- Playing strokes follows their score up to the first rejection. -/
theorem delivers_play (sink : Sink σ) (ss : List Stroke) (w : Writer σ) (marks : Marks) :
    Delivers .writeFailure sink w (score ss w.openElements marks).events
      (score ss w.openElements marks).outcome (score ss w.openElements marks).openElements
      ((play sink ss ⟨w, marks⟩).1, (play sink ss ⟨w, marks⟩).2.writer) := by
  induction ss generalizing w marks with
  | nil => exact Delivers.nothing _ sink w (.ok ())
  | cons stroke rest ih =>
    have hmake := delivers_make sink stroke ⟨w, marks⟩
    have hplay : ((play sink (stroke :: rest) ⟨w, marks⟩).1,
        (play sink (stroke :: rest) ⟨w, marks⟩).2.writer) =
        andThen ((stroke.make sink ⟨w, marks⟩).1, (stroke.make sink ⟨w, marks⟩).2.writer)
          fun w' => ((play sink rest ⟨w', stroke.marksAfter w.openElements marks⟩).1,
            (play sink rest ⟨w', stroke.marksAfter w.openElements marks⟩).2.writer) := by
      rw [play]
      have hmarks : (stroke.make sink ⟨w, marks⟩).2.marks =
          stroke.marksAfter w.openElements marks := rfl
      rw [← hmarks]
      cases stroke.make sink ⟨w, marks⟩ with
      | mk outcome d => cases outcome <;> rfl
    rw [hplay, score, Score.followedBy]
    have hverdict : (stroke.score w.openElements marks).outcome = stroke.verdict := rfl
    rw [hverdict]
    cases hv : stroke.verdict with
    | error e =>
      rw [hv] at hmake
      rw [hverdict, hv]
      exact hmake.stop _
    | ok _ =>
      rw [hv] at hmake
      exact hmake.seq fun s => ih ⟨s, _⟩ _

end DitaTopic.Topic
