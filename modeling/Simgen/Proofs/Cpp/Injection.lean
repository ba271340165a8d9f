import Simgen.Proofs.Cpp.ClassScope
import Simgen.Proofs.Cpp.Pieces

/-! How a class is given what it depends on. For each dependency there is one member, one field of
the constructor's argument and one assignment from the field to the member. The text of a header
is the text of these with what stands around them. -/
namespace Simgen.Cpp

/-- Something that a combine has to be given. A variable that holds it is declared by what stands
before and after its name. -/
structure Dependency where
  name : String
  before : String
  after : String
  deriving DecidableEq

/-- The declaration of a variable of this name for the dependency. -/
def Dependency.declare (d : Dependency) (variableName : String) : String :=
  d.before ++ variableName ++ d.after

/-- What a combine has to be given: ports, functions for its requests and, if it can be stalled, a
function for that. -/
def dependencies (c : Combine) : List Dependency :=
  (c.inputs.map fun p =>
      { name := "pipein_" ++ p.name, before := "PipeInputPort<" ++ p.type.text ++ "> * "
        after := ";" }) ++
    (c.outputs.map fun p =>
      { name := "pipeout_" ++ p.name, before := "PipeOutputPort<" ++ p.type.text ++ "> * "
        after := ";" }) ++
    (c.requests.map fun r =>
      { name := "request_" ++ r.name, before := "void (*"
        after := ")(" ++ signatureText r.signature ++ ");" }) ++
    if c.stallable then [{ name := "external_stall", before := "void (*", after := ")();" }] else []

/-- The fields of the constructor's argument by name and declaration. The last one keeps it from
being empty. -/
def argumentFields (c : Combine) : List (String × String) :=
  ((dependencies c).map fun d => (d.name, d.declare d.name)) ++ [("__dummy", "int32 __dummy = 0;")]

/-- What the constructor assigns: to which member, and from which field of its argument. The member
for a dependency has an underscore in front of its name. -/
def assignments (c : Combine) : List (String × String) :=
  (dependencies c).map fun d => ("_" ++ d.name, d.name)

/-- The lines of the class of what the constructor takes. -/
def argumentLines (unit : String) (c : Combine) : List String :=
  [unit ++ "class ConstructorArguments \x7b", unit ++ "public:"] ++
    ((argumentFields c).map fun f => unit ++ unit ++ f.2) ++ [unit ++ "\x7d;", ""]

/-- The lines of a constructor: assignments first, then code. -/
def constructorText (unit className : String) (assigned : List (String × String)) (code : Code) :
    List String :=
  [unit ++ className ++ "(ConstructorArguments & arg) \x7b"] ++
    (assigned.map fun a => unit ++ unit ++ "this->" ++ a.1 ++ " = arg." ++ a.2 ++ ";") ++
    (code.map fun line => unit ++ unit ++ line) ++ [unit ++ "\x7d", ""]

/-- The lines of a header up to the body of the class. -/
def openingText (style : Style) (c : Combine) : List String :=
  ["#pragma once", "", "#include \"common.h\"", "#include \"global.h\"", "#include \"bundle.h\"",
      "#include \"vulsimlib.h\""] ++
    (style.includes.map fun name => "#include \"" ++ name ++ "\"") ++
    ["", "/* " ++ c.comment ++ " */", "class " ++ c.name ++ " \x7b", "public:"]

/-- The lines of a header behind the constructor. -/
def memberText (unit : String) (c : Combine) : List String :=
  [unit ++ "~" ++ c.name ++ "() \x7b", unit ++ "\x7d", "", unit ++ "void all_current_tick();",
      unit ++ "void all_current_applytick();", unit ++ "void user_current_tick();",
      unit ++ "void user_current_applytick();", ""] ++
    ((classMembers c).flatMap fun m =>
      (m.doc.lines ++ [m.declaration.text]).map (unit ++ ·)) ++ ["\x7d;"]

/-- The lines of a header. -/
def headerText (style : Style) (c : Combine) : List String :=
  openingText style c ++ argumentLines style.unit c ++
    constructorText style.unit c.name (assignments c) c.init ++ memberText style.unit c

/-- The member and the field for a dependency are declared once each and in the same way. There is
one assignment to the member, which is also the one that reads the field. -/
structure InjectedOnce (c : Combine) (d : Dependency) : Prop where
  member : DeclaredOnce c ("_" ++ d.name) (d.declare ("_" ++ d.name))
  field : (argumentFields c).filter (fun f => f.1 = d.name) = [(d.name, d.declare d.name)]
  assigned : (assignments c).filter (fun a => a.1 = "_" ++ d.name) = [("_" ++ d.name, d.name)]
  read : (assignments c).filter (fun a => a.2 = d.name) = [("_" ++ d.name, d.name)]

/-- The dependency that is injected. -/
def Injected.dependency (i : Injected) : Dependency :=
  match i.handle with
  | .pointer type => { name := i.field, before := type ++ " * ", after := ";" }
  | .callback ps =>
    { name := i.field, before := "void (*", after := ")(" ++ parameterList ps ++ ");" }

variable {c : Combine}

theorem Handle.name_declare (h : Handle) (name : String) : (h.declare name).name = name := by
  cases h <;> rfl

theorem Injected.name_dependency (i : Injected) : i.dependency.name = i.field := by
  unfold Injected.dependency
  cases i.handle <;> rfl

theorem Injected.text_declare (i : Injected) (name : String) :
    (i.handle.declare name).text = i.dependency.declare name := by
  unfold Injected.dependency Dependency.declare Handle.declare
  cases i.handle with
  | pointer type =>
      have hStar : " * " = " *" ++ " " := rfl
      simp only [Declaration.text, hStar, String.append_assoc]
  | callback ps => simp only [Declaration.text, String.append_assoc]

/-- What is injected are the dependencies, in their order. -/
theorem dependencies_eq (c : Combine) :
    (injections c).map Injected.dependency = dependencies c := by
  have hOperations : c.operations.flatMap (fun f => (operationPart f).injected.toList) = [] :=
    List.flatMap_eq_nil_iff.mpr fun _ _ => rfl
  have hStorage : c.storage.flatMap (fun s => (storagePart s).injected.toList) = [] :=
    List.flatMap_eq_nil_iff.mpr fun _ _ => rfl
  have hConfigs : c.configs.flatMap (fun t => (configPart t).injected.toList) = [] :=
    List.flatMap_eq_nil_iff.mpr fun _ _ => rfl
  have hPort : ∀ front type : String, front ++ type ++ ">" ++ " * " = front ++ type ++ "> * " := by
    intro front type
    have hStar : "> * " = ">" ++ " * " := rfl
    simp only [hStar, String.append_assoc]
  rw [injections, List.filterMap_eq_flatMap_toList, flatMap_parts, hOperations, hStorage, hConfigs,
    List.append_nil, List.append_nil, List.append_nil, dependencies,
    List.map_eq_flatMap (l := c.inputs), List.map_eq_flatMap (l := c.outputs),
    List.map_eq_flatMap (l := c.requests)]
  simp only [List.map_append, List.map_flatMap, ← hPort, ← parameterList_parameters]
  congr 1
  split_ifs <;> rfl

/-- Each part declares the handle that it injects. -/
theorem injected_sublist {q : Part} (h : q ∈ parts c) :
    (q.injected.toList.map Injected.declaration).Sublist (q.members.map Member.declaration) := by
  simp only [parts, List.mem_append, List.mem_map] at h
  rcases h with (((((⟨p, -, rfl⟩ | ⟨p, -, rfl⟩) | ⟨r, -, rfl⟩) | ⟨f, -, rfl⟩) | ⟨s, -, rfl⟩) |
    ⟨t, -, rfl⟩) | hStall
  · exact List.singleton_sublist.mpr List.mem_cons_self
  · exact List.singleton_sublist.mpr List.mem_cons_self
  · exact List.singleton_sublist.mpr List.mem_cons_self
  · exact List.nil_sublist _
  · exact List.nil_sublist _
  · exact List.nil_sublist _
  · split_ifs at hStall
    · cases List.mem_singleton.mp hStall
      exact List.singleton_sublist.mpr (List.mem_cons_of_mem _ List.mem_cons_self)
    · cases hStall

theorem injections_sublist (c : Combine) :
    ((injections c).map Injected.declaration).Sublist (scopeDeclarations c) := by
  have hMembers : ((injections c).map Injected.declaration).Sublist
      ((classMembers c).map Member.declaration) := by
    rw [injections, List.filterMap_eq_flatMap_toList, List.map_flatMap, classMembers,
      List.map_flatMap]
    exact List.Sublist.flatMap_right _ fun q hq => injected_sublist hq
  exact hMembers.trans (List.sublist_append_right _ _)

theorem nodup_injected_fields (h : c.checkNames = .ok ()) :
    ((injections c).map Injected.field).Nodup := by
  have hScope := (List.nodup_cons.mp (nodup_classScope h)).2
  have hNames := ((injections_sublist c).map Declaration.name).nodup hScope
  have hMembers : ((injections c).map Injected.declaration).map Declaration.name =
      ((injections c).map Injected.field).map ("_" ++ ·) := by
    rw [List.map_map, List.map_map]
    exact List.map_congr_left fun i _ => i.handle.name_declare i.member
  rw [hMembers] at hNames
  exact hNames.of_map _

theorem map_field_injections (c : Combine) :
    (injections c).map Injected.field = (dependencies c).map Dependency.name := by
  rw [← dependencies_eq, List.map_map]
  exact List.map_congr_left fun i _ => i.name_dependency.symm

theorem map_fst_argumentFields (c : Combine) :
    (argumentFields c).map Prod.fst = (dependencies c).map Dependency.name ++ ["__dummy"] := by
  simp [argumentFields, Function.comp_def]

/-- No dependency begins with an underscore, so none is called like the last field. -/
theorem dummy_not_dependency (c : Combine) : "__dummy" ∉ (dependencies c).map Dependency.name := by
  have hHead : ∀ n ∈ (dependencies c).map Dependency.name, n.toList.head? ≠ some '_' := by
    intro n hn
    simp only [dependencies, List.map_append, List.map_map, List.mem_append, List.mem_map,
      Function.comp_apply] at hn
    rcases hn with ((⟨p, -, rfl⟩ | ⟨p, -, rfl⟩) | ⟨r, -, rfl⟩) | ⟨entry, hStall, rfl⟩
    · simp
    · simp
    · simp
    · split_ifs at hStall
      · cases List.mem_singleton.mp hStall
        decide
      · cases hStall
  intro hIn
  exact hHead _ hIn rfl

theorem nodup_argumentFields (h : c.checkNames = .ok ()) :
    ((argumentFields c).map Prod.fst).Nodup := by
  rw [map_fst_argumentFields, List.nodup_append]
  apply And.intro (map_field_injections c ▸ nodup_injected_fields h)
  apply And.intro (List.nodup_singleton _)
  intro n hn m hm hEq
  rw [hEq, List.mem_singleton.mp hm] at hn
  exact dummy_not_dependency c hn

theorem declaredOnce_of_mem_dependencies (h : c.checkNames = .ok ()) {d : Dependency}
    (hd : d ∈ dependencies c) : DeclaredOnce c ("_" ++ d.name) (d.declare ("_" ++ d.name)) := by
  rw [← dependencies_eq, List.mem_map] at hd
  obtain ⟨i, hi, rfl⟩ := hd
  have hMember := (injections_sublist c).subset (List.mem_map_of_mem hi)
  have hOnce := declaredOnce_of_mem h hMember
  rwa [Injected.declaration, Handle.name_declare, Injected.text_declare, Injected.member,
    ← Injected.name_dependency] at hOnce

theorem injectedOnce_of_mem (h : c.checkNames = .ok ()) {d : Dependency}
    (hd : d ∈ dependencies c) : InjectedOnce c d := by
  have hFields : ((dependencies c).map Dependency.name).Nodup :=
    map_field_injections c ▸ nodup_injected_fields h
  have hTargets : ((assignments c).map Prod.fst).Nodup := by
    have hMap : (assignments c).map Prod.fst =
        ((dependencies c).map Dependency.name).map ("_" ++ ·) := by
      simp [assignments, Function.comp_def]
    rw [hMap]
    exact hFields.map fun a b hEq => (String.append_right_inj "_").mp hEq
  have hSources : ((assignments c).map Prod.snd).Nodup := by
    have hMap : (assignments c).map Prod.snd = (dependencies c).map Dependency.name := by
      simp [assignments, Function.comp_def]
    rwa [hMap]
  have hAssignment : ("_" ++ d.name, d.name) ∈ assignments c := List.mem_map.mpr ⟨d, hd, rfl⟩
  have hField : (d.name, d.declare d.name) ∈ argumentFields c :=
    List.mem_append_left _ (List.mem_map.mpr ⟨d, hd, rfl⟩)
  exact ⟨declaredOnce_of_mem_dependencies h hd, filter_key_of_mem (nodup_argumentFields h) hField,
    filter_key_of_mem hTargets hAssignment, filter_key_of_mem hSources hAssignment⟩

section laidOut

variable {style : Style}

theorem laidOut_argumentClass :
    (argumentClass c).map (Line.laidOut style) = argumentLines style.unit c := by
  have hFields : ((injections c).map fun i => style.unit ++ style.unit ++ i.argument.text) =
      (dependencies c).map fun d => style.unit ++ style.unit ++ d.declare d.name := by
    rw [← dependencies_eq, List.map_map]
    refine List.map_congr_left fun i _ => ?_
    rw [Injected.argument, Injected.text_declare, Function.comp_apply, Injected.name_dependency]
  have hDummy : (Declaration.field "int32" "__dummy" (some "0")).text = "int32 __dummy = 0;" := rfl
  simp only [argumentClass, argumentLines, argumentFields, List.map_append, List.map_cons,
    List.map_nil, List.map_map, Function.comp_def, laidOut_indented, laidOut_twice, laidOut_flush,
    hFields, hDummy, List.append_assoc, List.cons_append, List.nil_append]

theorem laidOut_constructor :
    (constructor c).map (Line.laidOut style) =
      constructorText style.unit c.name (assignments c) c.init := by
  have hAssignments : ((injections c).map fun i => style.unit ++ style.unit ++ i.statement.text) =
      (assignments c).map fun a =>
        style.unit ++ style.unit ++ "this->" ++ a.1 ++ " = arg." ++ a.2 ++ ";" := by
    rw [assignments, ← dependencies_eq, List.map_map, List.map_map]
    refine List.map_congr_left fun i _ => ?_
    simp only [Injected.statement, Statement.text, Function.comp_apply, Injected.name_dependency,
      Injected.member, String.append_assoc]
  have hOpening : style.unit ++ (c.name ++ "(ConstructorArguments & arg) \x7b") =
      style.unit ++ c.name ++ "(ConstructorArguments & arg) \x7b" := String.append_assoc.symm
  simp only [constructor, constructorText, List.map_append, List.map_cons, List.map_nil,
    List.map_map, Function.comp_def, laidOut_indented, laidOut_twice, laidOut_flush, hAssignments,
    hOpening]

theorem laidOut_openingPieces :
    ((openingPieces style c).flatMap Piece.lines).map (Line.laidOut style) =
      openingText style c := by
  rw [lines_openingPieces, List.map_append, laidOut_prologue]
  simp [openingText, commonHeaders, combineHeaders]

theorem laidOut_memberPieces :
    ((memberPieces c).flatMap Piece.lines).map (Line.laidOut style) = memberText style.unit c := by
  have hMembers : ((classMembers c).flatMap fun m => m.lines.map indented).map
      (Line.laidOut style) =
        (classMembers c).flatMap fun m =>
          (m.doc.lines ++ [m.declaration.text]).map (style.unit ++ ·) := by
    rw [List.map_flatMap]
    congr 1
    funext m
    rw [List.map_map, Member.lines]
    exact List.map_congr_left fun text _ => laidOut_indented text
  have hPhases : (lifecyclePrototypes.map fun d => indented d.text) =
      [indented "void all_current_tick();", indented "void all_current_applytick();",
        indented "void user_current_tick();", indented "void user_current_applytick();"] := rfl
  rw [lines_memberPieces, List.map_append, List.map_append, hMembers, hPhases]
  simp [memberText, destructor, String.append_assoc]

/-- The text of a header. -/
theorem render_eq_headerText :
    render style.indent (classHeader style c) = unlines (headerText style c) := by
  rw [← lines_headerPieces, headerPieces, List.flatMap_append, List.flatMap_append,
    List.flatMap_append, lines_argumentPieces, lines_constructorPieces, render_eq_unlines,
    List.map_append, List.map_append, List.map_append, laidOut_openingPieces,
    laidOut_argumentClass, laidOut_constructor, laidOut_memberPieces, headerText]

end laidOut

/-- The constructor of a class whose names were checked injects every dependency, before any code
of the combine is run. Each dependency has its member, its field in the constructor's argument,
which has no two fields of one name, and the assignment that joins them. Apart from the field
that keeps the argument from being empty, no field is left unread. -/
theorem constructor_injects_dependencies (h : c.checkNames = .ok ()) (style : Style) :
    render style.indent (classHeader style c) =
      unlines (openingText style c ++ argumentLines style.unit c ++
        constructorText style.unit c.name (assignments c) c.init ++ memberText style.unit c) ∧
    HoldsLines (render style.indent (classHeader style c))
      ((scopeDeclarations c).map fun d => style.unit ++ d.text) ∧
    (∀ d ∈ dependencies c, InjectedOnce c d) ∧
    ((argumentFields c).map Prod.fst).Nodup ∧
    ∀ f ∈ argumentFields c, f.1 ≠ "__dummy" → f.1 ∈ (assignments c).map Prod.snd := by
  refine ⟨render_eq_headerText, holdsLines_scopeDeclarations style c,
    fun d hd => injectedOnce_of_mem h hd, nodup_argumentFields h, ?_⟩
  intro f hf hOther
  rcases List.mem_append.mp hf with hDependency | hLast
  · obtain ⟨d, hd, rfl⟩ := List.mem_map.mp hDependency
    exact List.mem_map.mpr ⟨_, List.mem_map.mpr ⟨d, hd, rfl⟩, rfl⟩
  · cases List.mem_singleton.mp hLast
    exact absurd rfl hOther

/-- A combine with members of all kinds, its registers in a mixed order. -/
def issueQueue : Combine :=
  { name := "IssueQueue", comment := "Combine IssueQueue"
    pipes :=
      [⟨"uop", .input, .composite "MicroOp", "Pipe input uop"⟩,
        ⟨"grant", .output, .primitive .uint8, "Pipe output grant"⟩]
    requests :=
      [⟨"wakeup", ⟨[⟨"tag", .primitive .uint8, ""⟩, ⟨"op", .composite "MicroOp", ""⟩],
        [⟨"ready", .primitive .bool, ""⟩]⟩, "Request wakeup"⟩]
    operations :=
      [⟨.service, "flush",
          ⟨[⟨"victim", .composite "MicroOp", ""⟩], [⟨"count", .primitive .uint8, ""⟩]⟩,
          "Service flush", ["*count = depth;", "depth = 0;"]⟩,
        ⟨.helper, "select", ⟨[], []⟩, "Function select", []⟩]
    storage :=
      [.tick "picked" .bool "0" "Storage picked",
        .plain "depth" (.primitive .uint8) (some "0") "Storage depth",
        .next "oldest" (.primitive .uint8) (some "7") "Storage oldest"]
    configs := [⟨"SIZE", "16", "Config SIZE"⟩]
    init := ["depth = 0;"], tick := ["select();"], applyTick := [], stallable := true }

theorem issueQueue_injected :
    issueQueue.checkNames = .ok () ∧
      InjectedOnce issueQueue ⟨"pipein_uop", "PipeInputPort<MicroOp> * ", ";"⟩ ∧
      InjectedOnce issueQueue
        ⟨"request_wakeup", "void (*", ")(uint8 tag, MicroOp & op, bool * ready);"⟩ ∧
      InjectedOnce issueQueue ⟨"external_stall", "void (*", ")();"⟩ := by
  have hChecked : issueQueue.checkNames = .ok () := by rfl
  obtain ⟨-, -, hOnce, -⟩ := constructor_injects_dependencies hChecked {}
  exact ⟨hChecked, hOnce _ (by decide), hOnce _ (by decide), hOnce _ (by decide)⟩

end Simgen.Cpp
