import Simgen.Proofs.Source.Directive
import Simgen.Proofs.Text.Blank
import Simgen.Proofs.Text.Lines
import Mathlib.Data.List.Forall2

/-! What splicing does to the lines of a source. The lines stay one by one with their line ends;
all that is taken out of them are blanks between a backslash and the line end. -/
namespace Simgen.Source

/-- A line ends in a backslash, blanks and a line end, of which the blanks or the line end may be
missing. -/
structure Continued (line front gap ending : List Char) : Prop where
  eq : line = front ++ '\\' :: (gap ++ ending)
  isGaps : IsGaps gap
  isEnding : ∀ c ∈ ending, isLineEnd c = true

/-- A line that ends in a backslash followed by blanks, apart from its line end. -/
def Loose (line : List Char) : Prop :=
  ∃ front gap ending, Continued line front gap ending ∧ gap ≠ []

/-- A line, and the same line or what is left of it without the blanks between a backslash and its
line end. -/
inductive Tightens : List Char → List Char → Prop where
  | same (line) : Tightens line line
  | gap {line front gap ending} : Continued line front gap ending →
      Tightens line (front ++ '\\' :: ending)

variable {line out front gap ending : List Char}

theorem isLineEnd_of_isGap {c : Char} (h : isGap c = true) : isLineEnd c = false := by
  simp only [isGap, Bool.or_eq_true, beq_iff_eq] at h
  rcases h with rfl | rfl <;> decide

namespace Continued

/-- No character of the line end stands directly before it. -/
theorem getLast?_content (front : List Char) (hGap : IsGaps gap) :
    ∀ c ∈ (front ++ '\\' :: gap).getLast?, isLineEnd c = false := by
  intro c hc
  rw [List.getLast?_append, List.getLast?_eq_some_getLast (List.cons_ne_nil _ _), Option.some_or,
    Option.mem_some_iff] at hc
  rcases List.mem_cons.mp (hc ▸ List.getLast_mem _) with rfl | hIn
  · decide
  · exact isLineEnd_of_isGap (hGap c hIn)

theorem eq_content (h : Continued line front gap ending) :
    line = (front ++ '\\' :: gap) ++ ending := by
  simp [h.eq]

theorem dropEndWhile_lineEnd (h : Continued line front gap ending) :
    Text.dropEndWhile isLineEnd line = front ++ '\\' :: gap := by
  rw [h.eq_content]
  exact Text.dropEndWhile_append h.isEnding (getLast?_content front h.isGaps)

theorem dropEndWhile_gap (h : Continued line front gap ending) :
    Text.dropEndWhile isGap (front ++ '\\' :: gap) = front ++ ['\\'] := by
  rw [List.append_cons]
  exact Text.dropEndWhile_append h.isGaps (by simp [isGap])

theorem isLoose_iff (h : Continued line front gap ending) : isLoose line = true ↔ gap ≠ [] := by
  simp [isLoose, h.dropEndWhile_lineEnd, h.dropEndWhile_gap, List.length_pos_iff]

theorem tight (h : Continued line front gap ending) :
    Continued (front ++ '\\' :: ending) front [] ending :=
  ⟨rfl, by simp [IsGaps], h.isEnding⟩

theorem spliceLine_eq (h : Continued line front gap ending) :
    spliceLine line = front ++ '\\' :: ending := by
  by_cases hGap : gap = []
  · rw [spliceLine, if_neg (by simpa [h.isLoose_iff] using hGap), h.eq, hGap, List.nil_append]
  · have hDrop : line.drop (front ++ '\\' :: gap).length = ending := by
      rw [h.eq_content, List.drop_left]
    simp only [spliceLine, h.isLoose_iff.mpr hGap, if_true, h.dropEndWhile_lineEnd,
      h.dropEndWhile_gap, hDrop, List.append_assoc, List.singleton_append]

theorem rtakeWhile_lineEnd (h : Continued line front gap ending) :
    line.rtakeWhile isLineEnd = ending := by
  have hContent := getLast?_content front h.isGaps
  rw [← List.head?_reverse] at hContent
  have hEnding : ∀ c ∈ ending.reverse, isLineEnd c = true :=
    fun c hc => h.isEnding c (List.mem_reverse.mp hc)
  rw [h.eq_content, List.rtakeWhile, List.reverse_append, takeWhile_exact hEnding hContent,
    List.reverse_reverse]

end Continued

/-- The test on a line finds the blanks behind its last backslash. -/
theorem isLoose_iff_loose : isLoose line = true ↔ Loose line := by
  constructor
  · intro h
    have hLine : Text.dropEndWhile isLineEnd line ++ line.rtakeWhile isLineEnd = line :=
      List.rdropWhile_append_rtakeWhile
    have hContent : Text.dropEndWhile isGap (Text.dropEndWhile isLineEnd line) ++
        (Text.dropEndWhile isLineEnd line).rtakeWhile isGap = Text.dropEndWhile isLineEnd line :=
      List.rdropWhile_append_rtakeWhile
    simp only [isLoose, Bool.and_eq_true, decide_eq_true_eq, beq_iff_eq] at h
    obtain ⟨hShorter, hLast⟩ := h
    obtain ⟨front, hFront⟩ := List.getLast?_eq_some_iff.mp hLast
    rw [hFront] at hContent hShorter
    refine ⟨front, (Text.dropEndWhile isLineEnd line).rtakeWhile isGap, line.rtakeWhile isLineEnd,
      ⟨?_, fun c hc => List.mem_rtakeWhile_imp hc, fun c hc => List.mem_rtakeWhile_imp hc⟩, ?_⟩
    · rw [← hContent] at hLine
      simpa using hLine.symm
    · intro hGap
      rw [hGap, List.append_nil] at hContent
      exact Nat.lt_irrefl _ (hContent ▸ hShorter)
  · rintro ⟨front, gap, ending, hLine, hGap⟩
    exact hLine.isLoose_iff.mpr hGap

theorem spliceLine_of_not_loose (h : ¬ Loose line) : spliceLine line = line := by
  rw [spliceLine, if_neg (mt isLoose_iff_loose.mp h)]

theorem tightens_spliceLine (line : List Char) : Tightens line (spliceLine line) := by
  by_cases h : Loose line
  · obtain ⟨front, gap, ending, hLine, -⟩ := h
    rw [hLine.spliceLine_eq]
    exact .gap hLine
  · rw [spliceLine_of_not_loose h]
    exact .same line

theorem not_loose_spliceLine (line : List Char) : ¬ Loose (spliceLine line) := by
  by_cases h : Loose line
  · obtain ⟨front, gap, ending, hLine, -⟩ := h
    rw [hLine.spliceLine_eq, ← isLoose_iff_loose, hLine.tight.isLoose_iff]
    simp
  · rwa [spliceLine_of_not_loose h]

namespace Tightens

theorem rtakeWhile_lineEnd (h : Tightens line out) :
    out.rtakeWhile isLineEnd = line.rtakeWhile isLineEnd := by
  cases h with
  | same => rfl
  | gap hLine => rw [hLine.rtakeWhile_lineEnd, hLine.tight.rtakeWhile_lineEnd]

theorem sublist (h : Tightens line out) : out.Sublist line := by
  cases h with
  | same => exact List.Sublist.refl _
  | gap hLine =>
      rw [hLine.eq]
      exact ((List.sublist_append_right _ _).cons_cons _).append_left _

theorem ne_nil (h : Tightens line out) (hLine : line ≠ []) : out ≠ [] := by
  cases h with
  | same => exact hLine
  | gap => simp

/-- A line feed at the end of a line stays there, and what stands before it is tightened. -/
theorem exists_feed (h : Tightens (line ++ ['\n']) out) :
    ∃ kept, out = kept ++ ['\n'] ∧ Tightens line kept := by
  cases h with
  | same => exact ⟨line, rfl, .same line⟩
  | @gap front gap ending hLine =>
      -- Without a line end the last character would be a blank or the backslash.
      rcases List.eq_nil_or_concat ending with rfl | ⟨returns, c, rfl⟩
      · have hLast : '\n' ∈ (front ++ '\\' :: gap).getLast? := by
          rw [← List.append_nil (front ++ _), ← hLine.eq_content]
          simp
        cases Continued.getLast?_content front hLine.isGaps '\n' hLast
      · have hEq : line ++ ['\n'] = (front ++ '\\' :: (gap ++ returns)) ++ [c] := by
          simp [hLine.eq]
        obtain ⟨hFront, hFeed⟩ := List.append_inj' hEq rfl
        cases hFeed
        have hReturns : ∀ c ∈ returns, isLineEnd c = true :=
          fun c hc => hLine.isEnding c (by simp [hc])
        exact ⟨front ++ '\\' :: returns, by simp, .gap ⟨hFront, hLine.isGaps, hReturns⟩⟩

end Tightens

theorem chunks_spliceLines (cs : List Char) :
    Text.chunks (spliceLines cs) = (Text.chunks cs).map spliceLine := by
  induction cs using Text.line_induction with
  | last cs h =>
      by_cases hNil : cs = []
      · rw [hNil]
        rfl
      · have hTight := tightens_spliceLine cs
        have hFeed : '\n' ∉ spliceLine cs := fun hIn => h (hTight.sublist.subset hIn)
        rw [spliceLines, Text.chunks_of_not_mem hNil h, List.flatMap_singleton, List.map_singleton,
          Text.chunks_of_not_mem (hTight.ne_nil hNil) hFeed]
  | line line rest h ih =>
      obtain ⟨kept, hKept, hTight⟩ := (tightens_spliceLine (line ++ ['\n'])).exists_feed
      have hFeed : '\n' ∉ kept := fun hIn => h (hTight.sublist.subset hIn)
      have hText : spliceLines (line ++ '\n' :: rest) = kept ++ '\n' :: spliceLines rest := by
        simp [spliceLines, Text.chunks_line h, hKept]
      rw [hText, Text.chunks_line h, Text.chunks_line hFeed, List.map_cons, hKept, ih]

theorem spliceLines_of_not_loose {cs : List Char} (h : ∀ line ∈ Text.chunks cs, ¬ Loose line) :
    spliceLines cs = cs := by
  have hSame : (Text.chunks cs).map spliceLine = (Text.chunks cs).map id :=
    List.map_congr_left fun line hLine => spliceLine_of_not_loose (h line hLine)
  rw [spliceLines, List.flatMap_def, hSame, List.map_id, (Text.cutInto_chunks cs).flatten]

/-- Handing back a text without loose lines spares work but gives no other result. -/
theorem splice_eq_spliceLines (cs : List Char) : splice cs = spliceLines cs := by
  rw [splice]
  split
  next => rfl
  next hNone =>
    refine (spliceLines_of_not_loose fun line hLine hLoose => hNone ?_).symm
    exact List.any_eq_true.mpr ⟨line, hLine, isLoose_iff_loose.mpr hLoose⟩

theorem chunks_splice (cs : List Char) :
    Text.chunks (splice cs) = (Text.chunks cs).map spliceLine := by
  rw [splice_eq_spliceLines, chunks_spliceLines]

theorem not_loose_of_mem_splice (cs : List Char) :
    ∀ line ∈ Text.chunks (splice cs), ¬ Loose line := by
  rw [chunks_splice, List.forall_mem_map]
  exact fun line _ => not_loose_spliceLine line

/-- Splicing takes nothing out of a text but blanks between a backslash and the end of its line.
The lines stay as many as they were, in the same order and each with its line end, and none of
them is loose any more; so splicing once more changes nothing. -/
theorem splice_tightens_lines (text : List Char) :
    splice (splice text) = splice text ∧ splice text = spliceLines text ∧
      ∃ before after, Text.CutInto text before ∧ Text.CutInto (splice text) after ∧
        after.length = before.length ∧
        after.map (List.rtakeWhile isLineEnd) = before.map (List.rtakeWhile isLineEnd) ∧
        List.Forall₂ Tightens before after ∧ ∀ line ∈ after, ¬ Loose line := by
  have hTight := not_loose_of_mem_splice text
  have hLines := chunks_splice text
  refine ⟨?_, splice_eq_spliceLines text, _, _, Text.cutInto_chunks text,
    Text.cutInto_chunks (splice text), ?_, ?_, ?_, hTight⟩
  · rw [splice_eq_spliceLines (splice text), spliceLines_of_not_loose hTight]
  · rw [hLines, List.length_map]
  · rw [hLines, List.map_map]
    exact List.map_congr_left fun line _ => (tightens_spliceLine line).rtakeWhile_lineEnd
  · rw [hLines, List.forall₂_map_right_iff, List.forall₂_same]
    exact fun line _ => tightens_spliceLine line

-- Every carriage return before the line feed is kept, but one among the blanks keeps the blanks.
example : splice "a\\ \t\r\r\nb\\ \r \nc\\ ".toList = "a\\\r\r\nb\\ \r \nc\\".toList := by
  decide

end Simgen.Source
