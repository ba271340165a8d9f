import Simgen.Cpp.File
import Mathlib.Data.List.Basic

/-! How generated files are put together from lines. -/
namespace Simgen.Cpp

theorem render_append (indent : Nat) (first second : List Line) :
    render indent (first ++ second) = render indent first ++ render indent second := by
  rw [render, List.map_append, String.join_append, render, render]

/-- Lines with their line ends. -/
def unlines (ls : List String) : String := String.join (ls.map (· ++ "\n"))

/-- One unit of indentation. -/
def Style.unit (style : Style) : String := String.ofList (List.replicate style.indent ' ')

/-- The text consists of lines, and these are among them in this order. -/
def HoldsLines (text : String) (ls : List String) : Prop :=
  ∃ all, text = unlines all ∧ ls.Sublist all

/-- A line as it stands in a file, without its line end. -/
def Line.laidOut (style : Style) (l : Line) : String :=
  String.ofList (List.replicate (style.indent * l.depth) ' ') ++ l.text

section laidOut

variable {style : Style}

theorem render_eq_unlines (ls : List Line) :
    render style.indent ls = unlines (ls.map (Line.laidOut style)) := by
  rw [render, unlines, List.map_map]
  rfl

@[simp] theorem laidOut_flush (text : String) : (flush text).laidOut style = text := by
  simp [Line.laidOut, flush]

@[simp] theorem laidOut_indented (text : String) :
    (indented text).laidOut style = style.unit ++ text := by
  simp [Line.laidOut, indented, Style.unit]

@[simp] theorem laidOut_twice (text : String) :
    ({ depth := 2, text } : Line).laidOut style = style.unit ++ style.unit ++ text := by
  rw [Line.laidOut, Nat.mul_comm, Nat.two_mul, List.replicate_add, String.ofList_append]
  rfl

theorem laidOut_prologue (headers : List String) :
    (prologue headers).map (Line.laidOut style) =
      ["#pragma once", ""] ++ (headers.map fun name => "#include \"" ++ name ++ "\"") ++ [""] := by
  simp only [prologue, includeLine, List.map_append, List.map_cons, List.map_nil, List.map_map,
    Function.comp_def, laidOut_flush]

theorem holdsLines_of_sublist (style : Style) {first all : List Line} (h : first.Sublist all) :
    HoldsLines (render style.indent all) (first.map (Line.laidOut style)) :=
  ⟨_, render_eq_unlines all, h.map _⟩

end laidOut

/-- A parameter of a method: what is primitive is passed by value, what is not by reference. -/
def paramText (p : Param) : String :=
  match p.type with
  | .primitive type => type.name ++ " " ++ p.name
  | .composite type => type ++ " & " ++ p.name

/-- The parameters of a method between its parentheses; values are returned through pointers. -/
def signatureText (s : Signature) : String :=
  ", ".intercalate
    (s.params.map paramText ++ s.returns.map fun p => p.type.text ++ " * " ++ p.name)

theorem parameterList_parameters (s : Signature) :
    parameterList (parameters s) = signatureText s := by
  have hParam : ∀ p : Param, passed p.type ++ " " ++ p.name = paramText p := by
    intro p
    unfold paramText passed
    cases p.type with
    | primitive type => rfl
    | composite type =>
        have hMark : " & " = " &" ++ " " := rfl
        simp only [hMark, String.append_assoc]
  have hReturn : ∀ p : Param, p.type.text ++ " *" ++ " " ++ p.name =
      p.type.text ++ " * " ++ p.name := by
    intro p
    have hMark : " * " = " *" ++ " " := rfl
    simp only [hMark, String.append_assoc]
  simp only [parameterList, parameters, signatureText, List.map_append, List.map_map,
    Function.comp_def, Parameter.text, hParam, hReturn]

theorem map_name_parameters (s : Signature) :
    (parameters s).map Parameter.name = (s.params ++ s.returns).map Param.name := by
  simp [parameters, Function.comp_def]

/-- The beginning of a header holds blank lines and directives only. -/
theorem of_mem_prologue {headers : List String} {line : Line} (h : line ∈ prologue headers) :
    line.depth = 0 ∧ (line.text = "" ∨ ∃ rest, line.text = "#" ++ rest) := by
  simp only [prologue, List.mem_append, List.mem_cons, List.not_mem_nil, or_false,
    List.mem_map] at h
  rcases h with ((rfl | rfl) | ⟨header, -, rfl⟩) | rfl
  · exact ⟨rfl, Or.inr ⟨"pragma once", rfl⟩⟩
  · exact ⟨rfl, Or.inl rfl⟩
  · refine ⟨rfl, Or.inr ⟨"include \"" ++ header ++ "\"", ?_⟩⟩
    rw [← String.append_assoc, ← String.append_assoc]
    rfl
  · exact ⟨rfl, Or.inl rfl⟩

end Simgen.Cpp
