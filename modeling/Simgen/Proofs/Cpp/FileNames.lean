import Simgen.Cpp.File
import Simgen.Proofs.Files.Path
import Simgen.Proofs.Ident
import Mathlib.Data.List.Nodup

/-! The names of generated files. Combines with distinct names that pass the check have
distinct files, none of which takes the name of a shared header. -/
namespace Simgen

namespace Cpp

theorem map_name_files (style : Style) (d : Design) :
    (files style d).map File.name =
      "bundle.h" :: d.combines.flatMap fun c => [c.name ++ ".h", c.name ++ ".cpp"] := by
  simp [files, combineFiles, List.map_flatMap]

theorem checkKeywords_eq_ok_iff {d : Design} :
    checkKeywords d = .ok () ↔ (∀ b ∈ d.bundles, bundleOffender? b = none) ∧
      ∀ c ∈ d.combines, combineOffender? c = none := by
  rw [← List.findSome?_eq_none_iff, ← List.findSome?_eq_none_iff, ← Option.or_eq_none_iff,
    checkKeywords]
  cases (d.bundles.findSome? bundleOffender?).or (d.combines.findSome? combineOffender?) with
  | none => simp
  | some name => simp

theorem combineOffender?_eq_none_iff {c : Combine} :
    combineOffender? c = none ↔ isKeyword c.name = false ∧ shadowsHeader c = false ∧
      ∀ n ∈ c.ownNames ++ c.signatures.flatMap fun s => s.all.map Param.name,
        isKeyword n = false := by
  unfold combineOffender?
  cases hKeyword : isKeyword c.name with
  | true => simp
  | false =>
      cases hHeader : shadowsHeader c with
      | true => simp
      | false => simp only [Bool.or_self, Bool.false_eq_true, if_false, List.find?_eq_none,
          Bool.not_eq_true, true_and]

theorem not_shadowsHeader_of_checkKeywords {d : Design} (h : checkKeywords d = .ok ())
    {c : Combine} (hc : c ∈ d.combines) : shadowsHeader c = false := by
  have hFree := (checkKeywords_eq_ok_iff.mp h).2 c hc
  exact (combineOffender?_eq_none_iff.mp hFree).2.1

/-- Names that end differently are different. -/
theorem ne_of_getLast?_ne {s t : String} (h : s.toList.getLast? ≠ t.toList.getLast?) : s ≠ t := by
  rintro rfl
  exact h rfl

theorem getLast?_header (name : String) : (name ++ ".h").toList.getLast? = some 'h' := by
  simp

theorem getLast?_source (name : String) : (name ++ ".cpp").toList.getLast? = some 'p' := by
  simp

theorem append_right_injective (extension : String) : Function.Injective (· ++ extension) := by
  intro a b h
  have hList := congrArg String.toList h
  simp only [String.toList_append] at hList
  exact String.toList_injective (List.append_cancel_right hList)

section

variable {d : Design} (hShared : ∀ c ∈ d.combines, shadowsHeader c = false)

include hShared

/-- No generated file but the first has the name of a shared header. -/
theorem ne_shared {header : String} (hHeader : header ∈ commonHeaders ++ combineHeaders)
    {c : Combine} (hc : c ∈ d.combines) {name : String}
    (hName : name ∈ [c.name ++ ".h", c.name ++ ".cpp"]) : name ≠ header := by
  rintro rfl
  rcases List.mem_pair.mp hName with rfl | rfl
  · have hFree := hShared c hc
    rw [shadowsHeader, List.contains_eq_mem, decide_eq_false_iff_not] at hFree
    exact hFree hHeader
  · have hLast : ∀ header ∈ commonHeaders ++ combineHeaders,
        header.toList.getLast? = some 'h' := by decide
    have hSame := hLast _ hHeader
    rw [getLast?_source] at hSame
    cases hSame

theorem nodup_fileNames (hDistinct : (d.combines.map Combine.name).Nodup) (style : Style) :
    ((files style d).map File.name).Nodup := by
  rw [map_name_files, List.nodup_cons]
  constructor
  · intro hIn
    obtain ⟨c, hc, hName⟩ := List.mem_flatMap.mp hIn
    exact ne_shared hShared (by decide) hc hName rfl
  · rw [List.nodup_flatMap]
    constructor
    · intro c _
      rw [List.nodup_cons, List.mem_singleton]
      refine ⟨ne_of_getLast?_ne ?_, List.nodup_singleton _⟩
      rw [getLast?_header, getLast?_source]
      decide
    · refine (List.pairwise_map.mp hDistinct).imp fun {c c'} hNe name hName hName' => ?_
      rcases List.mem_pair.mp hName with rfl | rfl
      · rcases List.mem_pair.mp hName' with hEq | hEq
        · exact hNe (append_right_injective ".h" hEq)
        · exact absurd (congrArg (fun n => n.toList.getLast?) hEq) (by simp)
      · rcases List.mem_pair.mp hName' with hEq | hEq
        · exact absurd (congrArg (fun n => n.toList.getLast?) hEq) (by simp)
        · exact hNe (append_right_injective ".cpp" hEq)

/-- Next to the generated files there is room for the headers that are copied and for the
directory of the library. -/
theorem not_mem_fileNames (style : Style) {name : String}
    (hName : name ∈ ["global.h", "common.h", "vulsimlib.h", "lib"]) :
    name ∉ (files style d).map File.name := by
  rw [map_name_files]
  intro hIn
  rcases List.mem_cons.mp hIn with rfl | hIn
  · revert hName
    decide
  · obtain ⟨c, hc, hOwn⟩ := List.mem_flatMap.mp hIn
    by_cases hLib : name = "lib"
    · subst hLib
      rcases List.mem_pair.mp hOwn with hEq | hEq
      · exact absurd (congrArg (fun n => n.toList.getLast?) hEq) (by simp)
      · exact absurd (congrArg (fun n => n.toList.getLast?) hEq) (by simp)
    · have hHeader : name ∈ commonHeaders ++ combineHeaders := by
        simp only [List.mem_cons, List.not_mem_nil, or_false, hLib] at hName
        rcases hName with rfl | rfl | rfl <;> decide
      exact ne_shared hShared hHeader hc hOwn rfl

end

theorem isName_of_mem_files {style : Style} {d : Design}
    (hValid : ∀ c ∈ d.combines, Ident.isValid c.name = true) {f : File} (hf : f ∈ files style d) :
    Files.Path.IsName f.name := by
  have hName := List.mem_map_of_mem (f := File.name) hf
  rw [map_name_files] at hName
  rcases List.mem_cons.mp hName with hBundle | hName
  · rw [hBundle]
    decide
  · obtain ⟨c, hc, hOwn⟩ := List.mem_flatMap.mp hName
    have hSlash := Ident.no_slash (hValid c hc)
    rcases List.mem_pair.mp hOwn with hEq | hEq
    · rw [hEq]
      exact .of_getLast? (by simp [hSlash]) (getLast?_header c.name) (by decide)
    · rw [hEq]
      exact .of_getLast? (by simp [hSlash]) (getLast?_source c.name) (by decide)

end Cpp

end Simgen
