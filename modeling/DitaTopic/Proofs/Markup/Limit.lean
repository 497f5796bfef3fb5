import DitaTopic.Markup.Xml
import DitaTopic.Proofs.Markup.Delivery

/-!
# Sinks that run full

A recorder with a capacity and an XML sink with a limit hold the beginning of what the same sink
without one holds. Once such a sink has rejected an event nothing more gets into it, so that
nothing depends on what it is offered afterwards.
-/

namespace DitaTopic.Markup

theorem Sink.after_boundedRecorder {capacity : Nat} {log : Array MarkupEvent}
    (h : log.size ≤ capacity) (events : List MarkupEvent) :
    (boundedRecorder capacity).after events log = log ++ events.take (capacity - log.size) := by
  induction events generalizing log with
  | nil => simp
  | cons event rest ih =>
    rw [after_cons, boundedRecorder]
    by_cases hfull : capacity ≤ log.size
    · have hroom : capacity - log.size = 0 := by omega
      simp only [if_pos hfull]
      rw [← boundedRecorder, ih h, hroom, List.take_zero, List.take_zero]
    · obtain ⟨room, hroom⟩ : ∃ room, capacity - log.size = room + 1 :=
        ⟨capacity - log.size - 1, by omega⟩
      have hpush : (log.push event).size ≤ capacity := by
        rw [Array.size_push]
        omega
      have hrest : capacity - (log.push event).size = room := by
        rw [Array.size_push]
        omega
      simp only [if_neg hfull]
      rw [← boundedRecorder, ih hpush, hrest, hroom, List.take_succ_cons]
      simp

theorem Sink.after_boundedRecorder_empty (capacity : Nat) (events : List MarkupEvent) :
    (boundedRecorder capacity).after events #[] = (events.take capacity).toArray := by
  rw [after_boundedRecorder (Nat.zero_le capacity)]
  simp

/-- A recorder with enough room takes up all events. -/
theorem Sink.accepts_boundedRecorder {capacity : Nat} {log : Array MarkupEvent}
    {events : List MarkupEvent} (h : log.size + events.length ≤ capacity) :
    (boundedRecorder capacity).Accepts events log := by
  induction events generalizing log with
  | nil => exact accepts_nil _ _
  | cons event rest ih =>
    rw [List.length_cons] at h
    have hroom : ¬ capacity ≤ log.size := by omega
    have hoffer : (boundedRecorder capacity).offer event log = (.ok (), log.push event) :=
      if_neg hroom
    have hrest : (log.push event).size + rest.length ≤ capacity := by
      rw [Array.size_push]
      omega
    rw [accepts_cons, hoffer]
    exact ⟨rfl, ih hrest⟩

/-- A bounded recorder that rejects an event is full. -/
theorem Sink.RejectsAt.capacity_le {capacity : Nat} {before : List MarkupEvent}
    {event : MarkupEvent} {error : SinkError}
    (h : (boundedRecorder capacity).RejectsAt #[] before event error) :
    capacity ≤ before.length := by
  refine Nat.le_of_not_lt fun hroom => h.not_accepts [] (accepts_boundedRecorder ?_)
  rw [List.size_toArray, List.length_nil, List.length_append, List.length_singleton]
  omega

/-- A bounded recorder rejects the event behind those that fill it. -/
theorem Sink.rejectsAt_boundedRecorder (before : List MarkupEvent) (event : MarkupEvent) :
    (boundedRecorder before.length).RejectsAt #[] before event (.rejected "sink closed") where
  accepts := accepts_boundedRecorder (Nat.le_of_eq (Nat.zero_add _))
  rejects := by
    have hfull : before.length ≤ (before.take before.length).toArray.size := by
      simp
    rw [after_boundedRecorder_empty, boundedRecorder]
    simp only [if_pos hfull]

namespace Xml

theorem extract_append_of_le (a b : ByteArray) {n : Nat} (h : n ≤ a.size) :
    (a ++ b).extract 0 n = a.extract 0 n := by
  have hrest : b.extract (0 - a.size) (n - a.size) = ByteArray.empty := by
    rw [ByteArray.extract_eq_empty_iff]
    omega
  rw [ByteArray.extract_append, hrest, ByteArray.append_empty]

theorem extract_of_size_le (a : ByteArray) {n : Nat} (h : a.size ≤ n) : a.extract 0 n = a := by
  have hrest : a.extract a.size n = ByteArray.empty := by
    rw [ByteArray.extract_eq_empty_iff]
    omega
  rw [ByteArray.extract_eq_extract_append_extract a.size (Nat.zero_le _) h, hrest,
    ByteArray.extract_zero_size, ByteArray.append_empty]

/-- A limited output that holds the first bytes of an unlimited one does so after both were given
more; it complains only if the unlimited one is longer than the limit then. -/
theorem put_extract (bytes more : ByteArray) (limit : Nat) :
    ∃ fits, Output.put ⟨bytes.extract 0 limit, some limit⟩ more =
        (fits, ⟨(bytes ++ more).extract 0 limit, some limit⟩) ∧
      (fits = false → limit < (bytes ++ more).size) := by
  have hsize : (bytes.extract 0 limit).size = min limit bytes.size := by
    rw [ByteArray.size_extract, Nat.sub_zero]
  have hbytes : (bytes ++ more).extract 0 limit =
      bytes.extract 0 limit ++ more.extract 0 (limit - bytes.size) := by
    rw [ByteArray.extract_append, Nat.zero_sub]
  have hroom : limit - (bytes.extract 0 limit).size = limit - bytes.size := by
    rw [hsize]
    omega
  by_cases hfits : more.size ≤ limit - bytes.size
  · refine ⟨true, ?_, nofun⟩
    rw [hbytes, extract_of_size_le more hfits, Output.put]
    simp only [hroom, if_pos hfits]
  · refine ⟨false, ?_, fun _ => ?_⟩
    · rw [hbytes, Output.put]
      simp only [hroom, if_neg hfits]
    · rw [ByteArray.size_append]
      omega

def layoutAfter (indent : Nat) (layout : Layout) (events : List MarkupEvent) : Layout :=
  events.foldl (fun layout event => (write indent layout event).2) layout

/-- An unlimited XML sink holds the text of its events. -/
theorem after_unlimited (indent : Nat) (events : List MarkupEvent) (layout : Layout)
    (bytes : ByteArray) :
    (sink indent).after events ⟨layout, ⟨bytes, none⟩⟩ =
      ⟨layoutAfter indent layout events,
        ⟨bytes ++ (writeAll indent layout events).toUTF8, none⟩⟩ := by
  induction events generalizing layout bytes with
  | nil =>
    have hbytes : bytes ++ (writeAll indent layout []).toUTF8 = bytes := ByteArray.append_empty
    rw [hbytes]
    rfl
  | cons event rest ih =>
    have hbytes : bytes ++ (writeAll indent layout (event :: rest)).toUTF8 =
        bytes ++ (write indent layout event).1.toUTF8 ++
          (writeAll indent (write indent layout event).2 rest).toUTF8 := by
      rw [ByteArray.append_assoc]
      rfl
    rw [hbytes]
    exact ih _ _

theorem accepts_unlimited (indent : Nat) (events : List MarkupEvent) (layout : Layout)
    (bytes : ByteArray) : (sink indent).Accepts events ⟨layout, ⟨bytes, none⟩⟩ := by
  induction events generalizing layout bytes with
  | nil => exact Sink.accepts_nil _ _
  | cons event rest ih => exact Sink.accepts_cons.mpr ⟨rfl, ih _ _⟩

/-- A limited XML sink holds the first bytes of that text. -/
theorem after_limited (indent limit : Nat) (events : List MarkupEvent) (layout : Layout)
    (bytes : ByteArray) :
    (sink indent).after events ⟨layout, ⟨bytes.extract 0 limit, some limit⟩⟩ =
      ⟨layoutAfter indent layout events,
        ⟨(bytes ++ (writeAll indent layout events).toUTF8).extract 0 limit, some limit⟩⟩ := by
  induction events generalizing layout bytes with
  | nil =>
    have hbytes : bytes ++ (writeAll indent layout []).toUTF8 = bytes := ByteArray.append_empty
    rw [hbytes]
    rfl
  | cons event rest ih =>
    obtain ⟨fits, hput, -⟩ := put_extract bytes (write indent layout event).1.toUTF8 limit
    have hoffer : ((sink indent).offer event ⟨layout, ⟨bytes.extract 0 limit, some limit⟩⟩).2 =
        ⟨(write indent layout event).2,
          ⟨(bytes ++ (write indent layout event).1.toUTF8).extract 0 limit, some limit⟩⟩ := by
      rw [sink]
      simp only [hput]
    rw [Sink.after_cons, hoffer, ih, ByteArray.append_assoc]
    rfl

/-- The text of events that an XML sink without content is offered. -/
def text (indent : Nat) (events : List MarkupEvent) : ByteArray :=
  (writeAll indent {} events).toUTF8

theorem bytes_unlimited (indent : Nat) (events : List MarkupEvent) :
    ((sink indent).after events (State.start none)).output.bytes = text indent events := by
  rw [State.start, after_unlimited, ByteArray.empty_append]
  rfl

theorem after_limited_start (indent limit : Nat) (events : List MarkupEvent) :
    (sink indent).after events (State.start (some limit)) =
      ⟨layoutAfter indent {} events, ⟨(text indent events).extract 0 limit, some limit⟩⟩ := by
  have hstart : State.start (some limit) =
      ⟨{}, ⟨ByteArray.empty.extract 0 limit, some limit⟩⟩ := by
    rw [extract_of_size_le _ (Nat.zero_le limit)]
    rfl
  rw [hstart, after_limited, ByteArray.empty_append]
  rfl

theorem writeAll_append (indent : Nat) (layout : Layout) (first second : List MarkupEvent) :
    writeAll indent layout (first ++ second) =
      writeAll indent layout first ++ writeAll indent (layoutAfter indent layout first) second := by
  induction first generalizing layout with
  | nil => exact (String.empty_append).symm
  | cons event rest ih =>
    rw [List.cons_append, writeAll, writeAll]
    simp only
    rw [ih, String.append_assoc]
    rfl

theorem text_append (indent : Nat) (first second : List MarkupEvent) :
    text indent (first ++ second) =
      text indent first ++ (writeAll indent (layoutAfter indent {} first) second).toUTF8 := by
  rw [text, writeAll_append]
  rfl

/-- Where a limited XML sink rejects an event, the text up to that event exceeds the limit. -/
theorem limit_lt_of_rejects {indent limit : Nat} {before : List MarkupEvent} {event : MarkupEvent}
    {error : SinkError}
    (h : (sink indent).RejectsAt (State.start (some limit)) before event error) :
    limit < (text indent (before ++ [event])).size := by
  obtain ⟨fits, hput, hlt⟩ := put_extract (text indent before)
    (write indent (layoutAfter indent {} before) event).1.toUTF8 limit
  have hrejects := h.rejects
  rw [after_limited_start, sink] at hrejects
  simp only [hput] at hrejects
  cases fits with
  | true => cases hrejects
  | false =>
    have htext : text indent (before ++ [event]) =
        text indent before ++ (write indent (layoutAfter indent {} before) event).1.toUTF8 := by
      rw [text_append, writeAll]
      simp only [writeAll, String.append_empty]
    rw [htext]
    exact hlt rfl

/-- What a limited XML sink is offered after it has rejected an event makes no difference. -/
theorem extract_text_of_rejects {indent limit : Nat} {before : List MarkupEvent}
    {event : MarkupEvent} {error : SinkError}
    (h : (sink indent).RejectsAt (State.start (some limit)) before event error)
    (later : List MarkupEvent) :
    (text indent (before ++ event :: later)).extract 0 limit =
      (text indent (before ++ [event])).extract 0 limit := by
  rw [← List.singleton_append, ← List.append_assoc, text_append,
    extract_append_of_le _ _ (Nat.le_of_lt (limit_lt_of_rejects h))]

end Xml

end DitaTopic.Markup
