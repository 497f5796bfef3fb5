import Mathlib.Data.List.DropRight
import DitaTopic.Text.TrailingBlank

/-!
# Trimmed code blocks

The lines of a text fall into those up to the last line that is not blank and the run of blank lines
behind it. Trimming cuts the end of that run and nothing else, so of all ways to stop early that
leave few enough blank lines at the end it is the one that goes on longest. A literal without any
other line keeps its first blank lines only, or none.
-/

namespace DitaTopic.Text

theorem lines_eq_splitOn (cs : List Char) : lines cs = cs.splitOn '\n' := by
  induction cs with
  | nil => rfl
  | cons c rest ih =>
    rw [lines, List.splitOn_cons_eq_if_modifyHead, ih]
    by_cases hc : c = '\n'
    · rw [if_pos hc, if_pos (beq_iff_eq.mpr hc)]
    · rw [if_neg hc, if_neg (by simpa using hc)]
      cases hrest : rest.splitOn '\n' with
      | nil => exact absurd hrest (List.splitOn_ne_nil _ _)
      | cons line more => rfl

theorem joinLines_eq_intercalate (ls : List (List Char)) :
    joinLines ls = ['\n'].intercalate ls := by
  induction ls with
  | nil => rfl
  | cons line more ih =>
    cases more with
    | nil => rw [List.intercalate_singleton, joinLines]
    | cons next more =>
      rw [List.intercalate_cons_cons, ← ih, List.append_assoc]
      rfl

theorem not_mem_of_mem_lines {cs line : List Char} (h : line ∈ lines cs) : '\n' ∉ line := by
  induction cs generalizing line with
  | nil =>
    rw [List.mem_singleton.mp h]
    exact List.not_mem_nil
  | cons c rest ih =>
    rw [lines] at h
    split at h
    · rcases List.mem_cons.mp h with rfl | h
      · exact List.not_mem_nil
      · exact ih h
    · next hc =>
      split at h
      · rw [List.mem_singleton.mp h, List.mem_singleton]
        exact Ne.symm hc
      · next first more hrest =>
        rcases List.mem_cons.mp h with rfl | h
        · have hfirst : '\n' ∉ first := ih (hrest ▸ List.mem_cons_self ..)
          exact List.not_mem_cons_of_ne_of_not_mem (Ne.symm hc) hfirst
        · exact ih (hrest ▸ List.mem_cons_of_mem _ h)

theorem joinLines_lines (cs : List Char) : joinLines (lines cs) = cs := by
  rw [joinLines_eq_intercalate, lines_eq_splitOn, List.intercalate_splitOn]

/-- Some of the lines of a text, joined, are split into the same lines again. -/
theorem splitOn_joinLines {cs : List Char} {ls : List (List Char)} (hne : ls ≠ [])
    (hmem : ∀ line ∈ ls, line ∈ lines cs) : (joinLines ls).splitOn '\n' = ls := by
  rw [joinLines_eq_intercalate]
  exact List.splitOn_intercalate '\n' (fun line hline => not_mem_of_mem_lines (hmem line hline)) hne

/-- The first lines joined are the start of all lines joined. -/
theorem joinLines_isPrefix {first all : List (List Char)} (h : first <+: all) :
    joinLines first <+: joinLines all := by
  obtain ⟨rest, rfl⟩ := h
  induction first with
  | nil => exact List.nil_prefix
  | cons line more ih =>
    cases more with
    | nil =>
      cases rest with
      | nil => exact List.prefix_refl _
      | cons next rest => exact List.prefix_append line _
    | cons next more =>
      show line ++ '\n' :: joinLines (next :: more) <+:
        line ++ '\n' :: joinLines (next :: more ++ rest)
      rw [List.prefix_append_right_inj, List.cons_prefix_cons]
      exact ⟨rfl, ih⟩

theorem dropFinalNewline_cases (cs : List Char) :
    cs = dropFinalNewline cs ++ ['\n'] ∨ cs = dropFinalNewline cs ∧ cs.getLast? ≠ some '\n' := by
  rw [dropFinalNewline]
  split
  · next hlast => exact .inl (List.dropLast_append_getLast? '\n' hlast).symm
  · next hlast => exact .inr ⟨rfl, hlast⟩

theorem dropFinalNewline_isPrefix (cs : List Char) : dropFinalNewline cs <+: cs := by
  rw [dropFinalNewline]
  split
  · exact List.dropLast_prefix cs
  · exact List.prefix_refl cs

/-! ## The run of blank lines at the end -/

theorem trailingBlankCount_eq (ls : List (List Char)) :
    trailingBlankCount ls = (ls.rtakeWhile isBlankLine).length := by
  rw [List.rtakeWhile, List.length_reverse, trailingBlankCount]

/-- The lines up to the last one that is not blank, and the blank ones behind it. -/
theorem exists_split (ls : List (List Char)) :
    ∃ body blanks, ls = body ++ blanks ∧ body.rtakeWhile isBlankLine = [] ∧
      ∀ line ∈ blanks, isBlankLine line = true :=
  ⟨ls.rdropWhile isBlankLine, ls.rtakeWhile isBlankLine, List.rdropWhile_append_rtakeWhile.symm,
    List.rtakeWhile_eq_nil_iff.mpr (List.rdropWhile_last_not _ _),
    fun _ hline => List.mem_rtakeWhile_imp hline⟩

section Split

variable {body blanks : List (List Char)}

theorem rtakeWhile_append_blanks (hbody : body.rtakeWhile isBlankLine = [])
    (hblanks : ∀ line ∈ blanks, isBlankLine line = true) :
    (body ++ blanks).rtakeWhile isBlankLine = blanks := by
  rw [List.rtakeWhile, List.reverse_eq_nil_iff] at hbody
  rw [List.rtakeWhile, List.reverse_append,
    List.takeWhile_append_of_pos fun line hline => hblanks line (List.mem_reverse.mp hline), hbody,
    List.append_nil, List.reverse_reverse]

/-- The lines that are left when at most `max` blank ones may stand at the end. -/
def keptLines (max : Nat) (ls : List (List Char)) : List (List Char) :=
  ls.take (ls.length - (trailingBlankCount ls - max))

theorem keptLines_append (hbody : body.rtakeWhile isBlankLine = [])
    (hblanks : ∀ line ∈ blanks, isBlankLine line = true) (max : Nat) :
    keptLines max (body ++ blanks) = body ++ blanks.take max := by
  rw [keptLines, trailingBlankCount_eq, rtakeWhile_append_blanks hbody hblanks, List.length_append,
    List.take_append, List.take_of_length_le (by omega)]
  congr 1
  rw [List.take_eq_take_iff]
  omega

end Split

/-- What is kept of lines of which at most `max` blank ones may stand at the end. -/
structure Trimmed (max : Nat) (ls kept : List (List Char)) : Prop where
  /-- Nothing but blank lines at the end is left out. -/
  surplus : ∃ dropped, ls = kept ++ dropped ∧ ∀ line ∈ dropped, isBlankLine line = true
  atMost : (kept.rtakeWhile isBlankLine).length ≤ max
  longest : ∀ other, other <+: ls → (other.rtakeWhile isBlankLine).length ≤ max → other <+: kept

theorem trimmed_keptLines (max : Nat) (ls : List (List Char)) :
    Trimmed max ls (keptLines max ls) := by
  obtain ⟨body, blanks, rfl, hbody, hblanks⟩ := exists_split ls
  rw [keptLines_append hbody hblanks]
  constructor
  case surplus =>
    refine ⟨blanks.drop max, ?_, fun line hline => hblanks line (List.mem_of_mem_drop hline)⟩
    rw [List.append_assoc, List.take_append_drop]
  case atMost =>
    rw [rtakeWhile_append_blanks hbody fun line hline => hblanks line (List.mem_of_mem_take hline)]
    exact List.length_take_le _ _
  case longest =>
    intro other hother hcount
    rcases List.prefix_or_prefix_of_prefix hother (List.prefix_append body blanks) with hbefore |
      ⟨more, rfl⟩
    · exact hbefore.trans (List.prefix_append _ _)
    · rw [List.prefix_append_right_inj] at hother ⊢
      rw [rtakeWhile_append_blanks hbody fun line hline => hblanks line (hother.subset hline)]
        at hcount
      exact List.prefix_take_iff.mpr ⟨hother, hcount⟩

/-- All lines that are not blank are kept. -/
theorem Trimmed.filter_eq {max : Nat} {ls kept : List (List Char)} (h : Trimmed max ls kept) :
    kept.filter (fun line => !isBlankLine line) = ls.filter fun line => !isBlankLine line := by
  obtain ⟨dropped, rfl, hblank⟩ := h.surplus
  have hnone : dropped.filter (fun line => !isBlankLine line) = [] := by
    rw [List.filter_eq_nil_iff]
    intro line hline
    rw [hblank line hline]
    decide
  rw [List.filter_append, hnone, List.append_nil]

/-- The lines of a literal without its final line feed are cut as late as they can be for at most
`max` blank ones to stand at the end, and joined again. What comes out is the start of the literal,
has all the lines that are not blank, and is split into the lines that were kept if there are any;
there are none if all lines are blank and no blank one may stand at the end. -/
theorem trailing_blank_lines_trimmed (max : Nat) (literal : List Char) :
    (literal = dropFinalNewline literal ++ ['\n'] ∨
      literal = dropFinalNewline literal ∧ literal.getLast? ≠ some '\n') ∧
    ∃ ls kept, ls = (dropFinalNewline literal).splitOn '\n' ∧ Trimmed max ls kept ∧
      trailingBlankCount ls - max ≤ ls.length ∧
      trimTrailingBlankLines max literal = ['\n'].intercalate kept ∧
      trimTrailingBlankLines max literal <+: literal ∧
      kept.filter (fun line => !isBlankLine line) = ls.filter (fun line => !isBlankLine line) ∧
      (kept = [] ∨ (trimTrailingBlankLines max literal).splitOn '\n' = kept) := by
  obtain ⟨ls, hls⟩ : ∃ ls, ls = lines (dropFinalNewline literal) := ⟨_, rfl⟩
  have htrimmed : trimTrailingBlankLines max literal = joinLines (keptLines max ls) := by
    rw [hls]
    rfl
  have hkept := trimmed_keptLines max ls
  have hprefix : keptLines max ls <+: ls := List.take_prefix _ _
  have hstart : trimTrailingBlankLines max literal <+: dropFinalNewline literal := by
    rw [htrimmed, ← joinLines_lines (dropFinalNewline literal), ← hls]
    exact joinLines_isPrefix hprefix
  refine ⟨dropFinalNewline_cases literal, ls, keptLines max ls, ?_, hkept, ?_, ?_,
    hstart.trans (dropFinalNewline_isPrefix literal), hkept.filter_eq, ?_⟩
  · rw [hls, lines_eq_splitOn]
  · rw [trailingBlankCount_eq]
    exact Nat.le_trans (Nat.sub_le _ _) (List.rtakeWhile_suffix _ _).length_le
  · rw [htrimmed, joinLines_eq_intercalate]
  · by_cases hne : keptLines max ls = []
    · exact .inl hne
    · rw [htrimmed]
      exact .inr (splitOn_joinLines hne fun line hline => hls ▸ hprefix.subset hline)

/-- The lines of a literal with carriage returns are blank if nothing else is in them. -/
example : trimTrailingBlankLines 1 "a\r\n\r\n \r\n".toList = "a\r\n\r".toList := by decide

example : trimTrailingBlankLines 1 "\n \n\n".toList = [] := by decide

end DitaTopic.Text
