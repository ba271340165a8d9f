import Simgen.Text.Lines

/-! What the lines of a text keep of it: all but the form of its line ends, and whether the
last line has one. -/
namespace Simgen.Text

/-- A text in which a carriage return before a line feed is left out. -/
def plainEnds : List Char → List Char
  | [] => []
  | '\r' :: '\n' :: cs => '\n' :: plainEnds cs
  | c :: cs => c :: plainEnds cs

/-- A text without its last line end, if it ends in one. -/
def dropFinalEnd (cs : List Char) : List Char :=
  if cs.getLast? = some '\n' then cs.dropLast else cs

/-- The lines are those of the text. They hold no line feed, and joined by line feeds they
are the text up to its line ends; only the empty text has no lines at all. -/
structure SplitInto (text : String) (ls : List String) : Prop where
  joined : "\n".intercalate ls = String.ofList (dropFinalEnd (plainEnds text.toList))
  noLineFeed : ∀ l ∈ ls, '\n' ∉ l.toList
  nil_iff : ls = [] ↔ text = ""

theorem plainEnds_cons {c : Char} {cs : List Char} (h : c = '\r' → cs.head? ≠ some '\n') :
    plainEnds (c :: cs) = c :: plainEnds cs := by
  cases cs with
  | nil => simp [plainEnds]
  | cons d cs =>
      rw [plainEnds]
      rintro rest rfl hd
      cases hd
      exact h rfl rfl

theorem plainEnds_of_not_mem {cs : List Char} (h : '\n' ∉ cs) : plainEnds cs = cs := by
  induction cs with
  | nil => rfl
  | cons c cs ih =>
      rw [List.mem_cons, not_or] at h
      rw [plainEnds_cons, ih h.2]
      rintro - hHead
      exact h.2 (List.mem_of_mem_head? hHead)

theorem chunkLine_of_not_mem {cs : List Char} (h : '\n' ∉ cs) : chunkLine cs = cs := by
  unfold chunkLine
  split
  next rest hEnd => exact absurd (List.mem_reverse.mp (hEnd ▸ List.mem_cons_self)) h
  next rest _ hEnd => exact absurd (List.mem_reverse.mp (hEnd ▸ List.mem_cons_self)) h
  next => rfl

theorem chunkLine_return (line : List Char) : chunkLine (line ++ ['\r', '\n']) = line := by
  simp [chunkLine]

theorem chunkLine_feed {line : List Char} (h : line.getLast? ≠ some '\r') :
    chunkLine (line ++ ['\n']) = line := by
  rcases List.eq_nil_or_concat line with rfl | ⟨front, c, rfl⟩
  · rfl
  · have hc : c ≠ '\r' := by simpa using h
    simp [chunkLine, hc]

theorem plainEnds_append {front tail : List Char} (h : '\n' ∉ front)
    (hLast : front.getLast? = some '\r' → tail.head? ≠ some '\n') :
    plainEnds (front ++ tail) = front ++ plainEnds tail := by
  induction front with
  | nil => rfl
  | cons c front ih =>
      rw [List.mem_cons, not_or] at h
      cases front with
      | nil => exact plainEnds_cons fun hc => hLast (by rw [hc]; rfl)
      | cons d front =>
          have hd : d ≠ '\n' := fun hEq => h.2 (hEq ▸ List.mem_cons_self)
          rw [List.cons_append, plainEnds_cons (by simpa using fun _ => hd),
            ih h.2 (by simpa using hLast)]
          rfl

/-- A line loses one carriage return before its line feed. -/
theorem plainEnds_line {line : List Char} (h : '\n' ∉ line) (rest : List Char) :
    plainEnds (line ++ '\n' :: rest) = chunkLine (line ++ ['\n']) ++ '\n' :: plainEnds rest := by
  have hFeed : plainEnds ('\n' :: rest) = '\n' :: plainEnds rest := plainEnds_cons (by simp)
  by_cases hLast : line.getLast? = some '\r'
  · obtain ⟨front, rfl⟩ := List.getLast?_eq_some_iff.mp hLast
    have hFront : '\n' ∉ front := fun hIn => h (List.mem_append_left _ hIn)
    have hReturn : plainEnds ('\r' :: '\n' :: rest) = '\n' :: plainEnds rest := by
      rw [plainEnds]
    rw [List.append_assoc, List.append_assoc, List.singleton_append, List.singleton_append,
      plainEnds_append hFront (by simp), hReturn, chunkLine_return]
  · rw [plainEnds_append h fun hEq => absurd hEq hLast, hFeed, chunkLine_feed hLast]

theorem chunks_of_not_mem {cs : List Char} (hNe : cs ≠ []) (h : '\n' ∉ cs) : chunks cs = [cs] := by
  induction cs with
  | nil => exact absurd rfl hNe
  | cons c cs ih =>
      rw [List.mem_cons, not_or] at h
      cases cs with
      | nil => simp [chunks, Ne.symm h.1]
      | cons d cs => rw [chunks, if_neg (Ne.symm h.1), ih (by simp) h.2]

theorem chunks_line {line : List Char} (h : '\n' ∉ line) (rest : List Char) :
    chunks (line ++ '\n' :: rest) = (line ++ ['\n']) :: chunks rest := by
  induction line with
  | nil => simp [chunks]
  | cons c line ih =>
      rw [List.mem_cons, not_or] at h
      rw [List.cons_append, chunks, if_neg (Ne.symm h.1), ih h.2]
      rfl

theorem chunks_eq_nil_iff {cs : List Char} : chunks cs = [] ↔ cs = [] := by
  cases cs with
  | nil => simp [chunks]
  | cons c cs =>
      rw [chunks]
      split
      · simp
      · split <;> simp

theorem plainEnds_eq_nil_iff {cs : List Char} : plainEnds cs = [] ↔ cs = [] := by
  unfold plainEnds
  split <;> simp

theorem dropFinalEnd_append {cs : List Char} (h : cs ≠ []) (front : List Char) :
    dropFinalEnd (front ++ cs) = front ++ dropFinalEnd cs := by
  have hLast : (front ++ cs).getLast? = cs.getLast? := by
    rw [List.getLast?_append, List.getLast?_eq_some_getLast h, Option.some_or]
  unfold dropFinalEnd
  rw [hLast]
  split
  · exact List.dropLast_append_of_ne_nil h
  · rfl

/-- Texts are taken apart at their first line feed. -/
theorem line_induction {motive : List Char → Prop} (last : ∀ cs, '\n' ∉ cs → motive cs)
    (line : ∀ line rest, '\n' ∉ line → motive rest → motive (line ++ '\n' :: rest))
    (cs : List Char) : motive cs := by
  induction hLength : cs.length using Nat.strongRecOn generalizing cs with
  | ind n ih =>
      by_cases hFeed : '\n' ∈ cs
      · obtain ⟨front, rest, rfl, hFront⟩ := List.eq_append_cons_of_mem hFeed
        exact line front rest hFront (ih rest.length (by simp [← hLength]; omega) rest rfl)
      · exact last cs hFeed

theorem intercalate_chunks (cs : List Char) :
    ['\n'].intercalate ((chunks cs).map chunkLine) = dropFinalEnd (plainEnds cs) := by
  induction cs using line_induction with
  | last cs h =>
      have hLast : cs.getLast? ≠ some '\n' := fun hEq => h (List.mem_of_mem_getLast? hEq)
      rw [plainEnds_of_not_mem h, dropFinalEnd, if_neg hLast]
      by_cases hNil : cs = []
      · simp [hNil, chunks]
      · simp [chunks_of_not_mem hNil h, chunkLine_of_not_mem h]
  | line line rest h ih =>
      rw [chunks_line h, plainEnds_line h, List.map_cons]
      by_cases hNil : rest = []
      · simp [hNil, chunks, plainEnds, dropFinalEnd]
      · have hChunks : (chunks rest).map chunkLine ≠ [] := by simpa [chunks_eq_nil_iff] using hNil
        have hRest : plainEnds rest ≠ [] := fun hEq => hNil (plainEnds_eq_nil_iff.mp hEq)
        rw [List.intercalate_cons_of_ne_nil hChunks, ih, List.append_cons _ _ (plainEnds rest),
          dropFinalEnd_append hRest]

theorem not_mem_of_mem_chunks (cs : List Char) : ∀ chunk ∈ chunks cs, '\n' ∉ chunkLine chunk := by
  induction cs using line_induction with
  | last cs h =>
      by_cases hNil : cs = []
      · simp [hNil, chunks]
      · simpa [chunks_of_not_mem hNil h, chunkLine_of_not_mem h] using h
  | line line rest h ih =>
      rw [chunks_line h, List.forall_mem_cons]
      refine ⟨?_, ih⟩
      by_cases hLast : line.getLast? = some '\r'
      · obtain ⟨front, rfl⟩ := List.getLast?_eq_some_iff.mp hLast
        rw [List.append_assoc, List.singleton_append, chunkLine_return]
        exact fun hIn => h (List.mem_append_left _ hIn)
      · rwa [chunkLine_feed hLast]

/-- The lines of a text with their line ends. A line holds a line feed only at its end, where
only the last line may lack it. -/
structure CutInto (text : List Char) (ls : List (List Char)) : Prop where
  flatten : ls.flatten = text
  ne_nil : ∀ l ∈ ls, l ≠ []
  noInnerFeed : ∀ l ∈ ls, '\n' ∉ l.dropLast
  feed : ∀ l ∈ ls.dropLast, l.getLast? = some '\n'

theorem cutInto_chunks (cs : List Char) : CutInto cs (chunks cs) := by
  induction cs using line_induction with
  | last cs h =>
      by_cases hNil : cs = []
      · subst hNil
        exact ⟨rfl, by simp [chunks], by simp [chunks], by simp [chunks]⟩
      · have hFront : '\n' ∉ cs.dropLast := fun hIn => h ((List.dropLast_sublist cs).subset hIn)
        rw [chunks_of_not_mem hNil h]
        exact ⟨by simp, by simpa using hNil, by simpa using hFront, by simp⟩
  | line line rest h ih =>
      rw [chunks_line h]
      refine ⟨by simp [ih.flatten], ?_, ?_, ?_⟩
      · exact List.forall_mem_cons.mpr ⟨by simp, ih.ne_nil⟩
      · exact List.forall_mem_cons.mpr ⟨by simpa using h, ih.noInnerFeed⟩
      · intro l hl
        cases hChunks : chunks rest with
        | nil => simp [hChunks] at hl
        | cons next others =>
            have hFeed := ih.feed
            rw [hChunks] at hl hFeed
            rw [List.dropLast_cons_cons, List.mem_cons] at hl
            rcases hl with rfl | hl
            · simp
            · exact hFeed l hl

theorem splitInto_lines (text : String) : SplitInto text (lines text) where
  joined := by
    rw [← String.toList_inj, String.toList_intercalate, String.toList_ofList, ← intercalate_chunks]
    simp [lines, Function.comp_def]
  noLineFeed := by
    intro l hl
    obtain ⟨chunk, hChunk, rfl⟩ := List.mem_map.mp hl
    rw [String.toList_ofList]
    exact not_mem_of_mem_chunks text.toList chunk hChunk
  nil_iff := by simp [lines, chunks_eq_nil_iff]

end Simgen.Text
