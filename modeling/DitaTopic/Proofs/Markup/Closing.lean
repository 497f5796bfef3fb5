import DitaTopic.Proofs.Markup.Delivery

/-!
# Ending everything that is open

Closing a writer goes on until nothing is open. Each turn ends the innermost open element, whether
or not the sink takes its end up, so there are as many turns as there are open elements and the sink
is offered each end once. The verdict is the first rejection, if there is one; what the sink says to
later ends does not count.
-/

namespace DitaTopic.Markup.Writer

variable {σ : Type} {sink : Sink σ} {w : Writer σ} {error : SinkError}

/-- What a verdict complains of. -/
def complaint? : Except SinkError Unit → Option SinkError
  | .ok _ => none
  | .error e => some e

/-- The verdict of calls after others of which a complaint is left. -/
def verdictAfter : Option SinkError → Except SinkError Unit → Except SinkError Unit
  | none, verdict => verdict
  | some e, _ => .error e

/-- Turns of ending the innermost open element, as long as there is one, with the first complaint
kept. The number is that of the turns. -/
inductive Closing (sink : Sink σ) :
    Option SinkError → Writer σ → Nat → Except SinkError Unit × Writer σ → Prop where
  | done {complaint : Option SinkError} {w : Writer σ} (h : w.openElements = []) :
      Closing sink complaint w 0 (verdictAfter complaint (.ok ()), w)
  | turn {complaint : Option SinkError} {w : Writer σ} {turns : Nat}
      {result : Except SinkError Unit × Writer σ} (h : w.openElements ≠ [])
      (rest : Closing sink (complaint.or (complaint? (w.finish sink).1)) (w.finish sink).2 turns
        result) :
      Closing sink complaint w (turns + 1) result

theorem verdictAfter_or (complaint : Option SinkError) (verdict later : Except SinkError Unit) :
    verdictAfter (complaint.or (complaint? verdict)) later =
      verdictAfter complaint (verdictAfter (complaint? verdict) later) := by
  cases complaint <;> rfl

theorem finish_cons (sink : Sink σ) (s : σ) (name : String) (outer : List String) :
    finish sink ⟨s, name :: outer⟩ =
      ((sink.offer (.endElement name) s).1, ⟨(sink.offer (.endElement name) s).2, outer⟩) := rfl

/-- Closing ends the innermost open element and closes what is left. -/
theorem close_cons (sink : Sink σ) (s : σ) (name : String) (outer : List String) :
    close sink ⟨s, name :: outer⟩ =
      (verdictAfter (complaint? (finish sink ⟨s, name :: outer⟩).1)
        (close sink (finish sink ⟨s, name :: outer⟩).2).1,
        (close sink (finish sink ⟨s, name :: outer⟩).2).2) := by
  have hfirst (verdict later : Except SinkError Unit) : verdictAfter (complaint? verdict) later =
      match verdict with
      | .ok _ => later
      | .error e => .error e := by
    cases verdict <;> rfl
  rw [finish_cons, hfirst]
  rfl

/-- The turns come to an end when all that was open is ended. -/
theorem closing_close (sink : Sink σ) (complaint : Option SinkError) (s : σ)
    (openElements : List String) :
    Closing sink complaint ⟨s, openElements⟩ openElements.length
      (verdictAfter complaint (close sink ⟨s, openElements⟩).1,
        (close sink ⟨s, openElements⟩).2) := by
  induction openElements generalizing complaint s with
  | nil => exact .done rfl
  | cons name outer ih =>
    rw [close_cons, ← verdictAfter_or]
    apply Closing.turn
    · exact List.cons_ne_nil name outer
    · exact ih _ _

theorem Closing.unique {complaint : Option SinkError} {turns turns' : Nat}
    {result result' : Except SinkError Unit × Writer σ} (h : Closing sink complaint w turns result)
    (h' : Closing sink complaint w turns' result') : turns = turns' ∧ result = result' := by
  induction h generalizing turns' result' with
  | done hnone =>
    cases h' with
    | done => exact ⟨rfl, rfl⟩
    | turn hsome => exact absurd hnone hsome
  | turn hsome rest ih =>
    cases h' with
    | done hnone => exact absurd hnone hsome
    | turn hsome rest' =>
      obtain ⟨rfl, rfl⟩ := ih rest'
      exact ⟨rfl, rfl⟩

theorem closing_iff {turns : Nat} {result : Except SinkError Unit × Writer σ} :
    Closing sink none w turns result ↔ turns = w.depth ∧ result = w.close sink := by
  have hclose : Closing sink none w w.depth (w.close sink) :=
    closing_close sink none w.sink w.openElements
  constructor
  · intro h
    exact h.unique hclose
  · rintro ⟨rfl, rfl⟩
    exact hclose

/-- Either all ends are taken up, or there is a first one that is not and that decides. -/
theorem close_cases (sink : Sink σ) (w : Writer σ) :
    (sink.Accepts (w.openElements.map .endElement) w.sink ∧ (w.close sink).1 = .ok ()) ∨
    ∃ ended name outer error, w.openElements = ended ++ name :: outer ∧
      sink.RejectsAt w.sink (ended.map .endElement) (.endElement name) error ∧
      (w.close sink).1 = .error error := by
  rcases sink.accepts_or_rejects (w.openElements.map .endElement) w.sink with
    haccepts | ⟨before, event, later, error, hends, hrejects⟩
  · exact .inl ⟨haccepts, finishAll_fst_of_accepts haccepts⟩
  · obtain ⟨ended, rest, hopen, rfl, hrest⟩ := List.map_eq_append_iff.mp hends
    obtain ⟨name, outer, rfl, rfl, -⟩ := List.map_eq_cons_iff.mp hrest
    refine .inr ⟨ended, name, outer, error, hopen, hrejects, ?_⟩
    rw [close, hopen]
    exact finishAll_fst_of_rejects hrejects

theorem close_eq_ok_iff :
    (w.close sink).1 = .ok () ↔ sink.Accepts (w.openElements.map .endElement) w.sink := by
  constructor
  · intro hok
    rcases close_cases sink w with ⟨haccepts, -⟩ | ⟨_, _, _, _, -, -, herror⟩
    · exact haccepts
    · cases hok.symm.trans herror
  · intro haccepts
    exact finishAll_fst_of_accepts haccepts

/-- Closing complains of the first end that is rejected. -/
theorem close_eq_error_iff :
    (w.close sink).1 = .error error ↔
      ∃ ended name outer, w.openElements = ended ++ name :: outer ∧
        sink.RejectsAt w.sink (ended.map .endElement) (.endElement name) error := by
  constructor
  · intro herror
    rcases close_cases sink w with ⟨-, hok⟩ | ⟨ended, name, outer, first, hopen, hrejects, hfirst⟩
    · cases hok.symm.trans herror
    · obtain rfl := Except.error.inj (hfirst.symm.trans herror)
      exact ⟨ended, name, outer, hopen, hrejects⟩
  · rintro ⟨ended, name, outer, hopen, hrejects⟩
    rw [close, hopen]
    exact finishAll_fst_of_rejects hrejects

/-- The writer over the sink that keeps a log of what it is offered. -/
def withLog (w : Writer σ) (log : List MarkupEvent) : Writer (σ × List MarkupEvent) :=
  ⟨(w.sink, log), w.openElements⟩

/-- The log changes nothing about closing, and holds one end for each open element. -/
theorem close_withLog (sink : Sink σ) (w : Writer σ) (log : List MarkupEvent) :
    (w.withLog log).close sink.logged =
      ((w.close sink).1,
        (w.close sink).2.withLog (log ++ w.openElements.map .endElement)) := by
  have hsink : ((w.withLog log).close sink.logged).2.sink =
      ((w.close sink).2.sink, log ++ w.openElements.map .endElement) := by
    rw [close_sink, close_sink]
    exact Sink.after_logged sink _ log w.sink
  have hverdict : ((w.withLog log).close sink.logged).1 = (w.close sink).1 := by
    rcases close_cases sink w with
      ⟨haccepts, hok⟩ | ⟨ended, name, outer, error, hopen, hrejects, herror⟩
    · rw [hok, close_eq_ok_iff]
      exact Sink.accepts_logged.mpr haccepts
    · rw [herror, close_eq_error_iff]
      exact ⟨ended, name, outer, hopen, Sink.rejectsAt_logged.mpr hrejects⟩
  -- nothing is open after either, so the sinks are all there is to compare
  have hclosed : ((w.withLog log).close sink.logged).2 =
      ⟨((w.withLog log).close sink.logged).2.sink, []⟩ := rfl
  apply Prod.ext
  · exact hverdict
  · rw [hclosed, hsink]
    rfl

/-- Closing a writer ends what is open one after the other, in as many turns as there are open
elements. The sink is offered the ends of these, innermost first, and nothing else, whatever it
rejects; nothing is open afterwards. The verdict is good if every end was taken up, and otherwise it
is the first rejection. Closing again offers nothing. -/
theorem close_exhaustive (sink : Sink σ) (w : Writer σ) :
    (∀ turns result, Closing sink none w turns result ↔
      turns = w.depth ∧ result = w.close sink) ∧
    (∀ log, (w.withLog log).close sink.logged =
      ((w.close sink).1, (w.close sink).2.withLog (log ++ w.openElements.map .endElement))) ∧
    (w.close sink).2.openElements = [] ∧
    ((w.close sink).1 = .ok () ↔ sink.Accepts (w.openElements.map .endElement) w.sink) ∧
    (∀ error, (w.close sink).1 = .error error ↔
      ∃ ended name outer, w.openElements = ended ++ name :: outer ∧
        sink.RejectsAt w.sink (ended.map .endElement) (.endElement name) error) ∧
    (w.close sink).2.close sink = (.ok (), (w.close sink).2) ∧
    ∀ log, ((w.close sink).2.withLog log).close sink.logged =
      (.ok (), (w.close sink).2.withLog log) :=
  ⟨fun _ _ => closing_iff, close_withLog sink w, rfl, close_eq_ok_iff,
    fun _ => close_eq_error_iff, rfl, fun _ => rfl⟩

end DitaTopic.Markup.Writer
