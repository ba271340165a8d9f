import Simgen.Proofs.Cpp.Layout
import Simgen.Proofs.Design.Recovery
import Simgen.Proofs.Names

/-! The header of all bundles, as its text follows from the descriptors. Each bundle of the project
has exactly one block in it, and what a block embeds stands above it. -/
namespace Simgen

namespace Cpp

/-- The line that declares a member. Only members of primitive type have a value. -/
def memberLine (unit : String) (m : Descriptor.Member) : String :=
  unit ++ m.type ++ " " ++ m.name ++
    if Primitive.ofName? m.type = none then ";" else " = " ++ m.value.getD "0" ++ ";"

/-- The block of a bundle. -/
def blockLines (unit : String) (b : Descriptor.Bundle) : List String :=
  ["typedef struct \x7b"] ++ b.members.map (memberLine unit) ++ ["\x7d " ++ b.name ++ ";", ""]

/-- The header with the blocks of these bundles. -/
def bundleLines (style : Style) (bundles : List Descriptor.Bundle) : List String :=
  ["#pragma once", "", "#include \"common.h\"", "#include \"global.h\""] ++
    (style.includes.map fun name => "#include \"" ++ name ++ "\"") ++ [""] ++
    bundles.flatMap (blockLines style.unit)

variable {style : Style}

theorem name_of_ofName? {name : String} {type : Primitive}
    (h : Primitive.ofName? name = some type) : type.name = name := by
  simpa using List.find?_some h

theorem laidOut_memberDeclaration (m : Descriptor.Member) :
    (indented (memberDeclaration (Bundle.memberOf m)).text).laidOut style =
      memberLine style.unit m := by
  rw [laidOut_indented, memberLine]
  cases hType : Primitive.ofName? m.type with
  | none =>
      simp [memberDeclaration, Bundle.memberOf, ValueType.ofName, hType, ValueType.isPrimitive,
        ValueType.text, Declaration.text, String.append_assoc]
  | some type =>
      simp [memberDeclaration, Bundle.memberOf, ValueType.ofName, hType, ValueType.isPrimitive,
        ValueType.text, Declaration.text, name_of_ofName? hType, String.append_assoc]

theorem laidOut_bundleBlock (b : Descriptor.Bundle) :
    (bundleBlock (Bundle.described b)).map (Line.laidOut style) = blockLines style.unit b := by
  have hMembers : ((Bundle.described b).members.map fun m =>
      (indented (memberDeclaration m).text).laidOut style) =
        b.members.map (memberLine style.unit) := by
    rw [Bundle.described, List.map_map]
    exact List.map_congr_left fun m _ => laidOut_memberDeclaration m
  simp only [bundleBlock, blockLines, List.map_append, List.map_cons, List.map_nil, List.map_map,
    Function.comp_def, laidOut_flush, hMembers]
  rfl

theorem laidOut_bundlesHeader {d : Design} {blocks : List Descriptor.Bundle}
    (h : d.bundlesInOrder = blocks.map Bundle.described) :
    (bundlesHeader style d).map (Line.laidOut style) = bundleLines style blocks := by
  rw [bundlesHeader, h, List.map_append, laidOut_prologue, List.map_append, List.flatMap_map,
    List.map_flatMap]
  simp only [laidOut_bundleBlock]
  rfl

end Cpp

namespace Design

variable {sources : Sources} {p : Project} {d : Design}

/-- The order of an elaborated project is one of all its bundles, each behind those that it
embeds. -/
theorem order_of_elaborate (h : (elaborate sources p).outcome = .ok d) :
    d.bundles = p.bundles.map Bundle.described ∧
      (p.bundles.map Descriptor.Bundle.name).Nodup ∧
      d.order.Perm (p.bundles.map Descriptor.Bundle.name) ∧
      Bundle.Ordering.Declarable d.bundles d.order := by
  obtain ⟨hBundles, hArranged, -⟩ := elaborate_eq_ok_iff.mp h
  obtain ⟨hSame, hNames, -⟩ := bundlesOf_names hBundles
  obtain ⟨-, -, hDescribed⟩ := bundlesOf_eq_ok_iff.mp hBundles
  obtain ⟨hLength, hPlaced⟩ := Bundle.arrange_eq_ok_iff.mp hArranged
  have hPerm := Bundle.Ordering.final_placed_perm hNames hLength
  have hDeclarable := (Bundle.Ordering.sound_final hNames).declarable
  rw [hPlaced] at hPerm hDeclarable
  rw [hSame] at hPerm hNames
  exact ⟨hDescribed, hNames, hPerm, hDeclarable⟩

/-- The header of bundles holds the blocks of all bundles, in the order of the design. -/
theorem exists_blocks (h : (elaborate sources p).outcome = .ok d) (style : Cpp.Style) :
    ∃ blocks : List Descriptor.Bundle, blocks.Perm p.bundles ∧
      blocks.map Descriptor.Bundle.name = d.order ∧
      (Cpp.files style d).head? = some
        { name := "bundle.h", contents := Cpp.unlines (Cpp.bundleLines style blocks) } := by
  obtain ⟨hDescribed, hNames, hOrder, -⟩ := order_of_elaborate h
  obtain ⟨hPerm, hBlockNames⟩ := filterMap_find?_of_perm hNames hOrder
  refine ⟨_, hPerm, hBlockNames, ?_⟩
  have hBlocks : d.bundlesInOrder = (d.order.filterMap fun n =>
      p.bundles.find? fun b => b.name = n).map Bundle.described := by
    rw [bundlesInOrder, List.map_filterMap]
    refine List.filterMap_congr fun n _ => ?_
    rw [bundle?, hDescribed, List.find?_map]
    rfl
  rw [Cpp.files, List.head?_cons, Cpp.render_eq_unlines, Cpp.laidOut_bundlesHeader hBlocks]

end Design

namespace Cpp

/-- The declaration order of an elaborated project holds the name of each of its bundles
once, behind the names of all bundles that it embeds. The header is one block for each
bundle in this order and nothing else, so whatever a block embeds by value is declared
above it. -/
theorem bundlesHeader_declares_before_use {sources : Sources} {p : Project} {d : Design}
    (h : (Design.elaborate sources p).outcome = .ok d) (style : Style) :
    d.order.Nodup ∧ d.order.Perm (p.bundles.map Descriptor.Bundle.name) ∧
    (∀ b ∈ d.bundles, ∀ m ∈ b.members, ∀ a ∈ d.bundles, m.type = .composite a.name →
      d.order.idxOf a.name < d.order.idxOf b.name) ∧
    ∃ blocks : List Descriptor.Bundle, blocks.Perm p.bundles ∧
      blocks.map Descriptor.Bundle.name = d.order ∧
      (files style d).head? = some
        { name := "bundle.h", contents := unlines (bundleLines style blocks) } ∧
      ∀ before b after, blocks = before ++ b :: after →
        ∀ m ∈ b.members, ∀ a ∈ p.bundles, m.type = a.name → Primitive.ofName? m.type = none →
          a ∈ before := by
  obtain ⟨hDescribed, hNames, hPerm, hDeclarable⟩ := Design.order_of_elaborate h
  obtain ⟨blocks, hBlocks, hBlockNames, hFile⟩ := Design.exists_blocks h style
  refine ⟨hPerm.nodup_iff.mpr hNames, hPerm, ?_, blocks, hBlocks, hBlockNames, hFile, ?_⟩
  · intro b hb m hm a ha hType
    have hOrder : b.name ∈ d.order := by
      rw [hPerm.mem_iff, ← Bundle.names_described, ← hDescribed]
      exact List.mem_map_of_mem hb
    exact (hDeclarable.idxOf_lt hOrder ⟨List.mem_map_of_mem ha, b, hb, rfl, m, hm, hType⟩).2
  · intro before b after hSplit m hm a ha hType hComposite
    have hb : b ∈ p.bundles := hBlocks.mem_iff.mp (by rw [hSplit]; simp)
    have hNameSplit : d.order = before.map Descriptor.Bundle.name ++
        b.name :: after.map Descriptor.Bundle.name := by
      rw [← hBlockNames, hSplit, List.map_append, List.map_cons]
    have hEmbeds : Bundle.Embeds d.bundles b.name a.name := by
      rw [hDescribed, Bundle.embeds_described_iff]
      refine ⟨List.mem_map_of_mem ha, b, hb, rfl, m, hm, ?_⟩
      rw [ValueType.ofName, hComposite, hType]
    obtain ⟨other, hOther, hName⟩ := List.mem_map.mp (hDeclarable _ _ _ hNameSplit a.name hEmbeds)
    have hOtherIn : other ∈ p.bundles := hBlocks.mem_iff.mp (by rw [hSplit]; simp [hOther])
    rwa [← List.inj_on_of_nodup_map hNames hOtherIn ha hName]

/-- Each bundle embeds one that is read later, the first of them twice, and one member has a
type that no bundle of the project has. -/
def nestedProject : Project :=
  { cppDir := "cpp"
    bundles :=
      [⟨"Outer", [⟨"x", "Middle", none⟩, ⟨"y", "Middle", none⟩], "a.xml"⟩,
        ⟨"Middle", [⟨"leaf", "Inner", none⟩, ⟨"tag", "Label", none⟩], "b.xml"⟩,
        ⟨"Inner", [⟨"bits", "uint8", some "7"⟩], "c.xml"⟩]
    combines := [] }

def nestedDesign : Design :=
  { bundles :=
      [⟨"Outer", [⟨"x", .composite "Middle", none⟩, ⟨"y", .composite "Middle", none⟩]⟩,
        ⟨"Middle", [⟨"leaf", .composite "Inner", none⟩, ⟨"tag", .composite "Label", none⟩]⟩,
        ⟨"Inner", [⟨"bits", .primitive .uint8, some "7"⟩]⟩]
    order := ["Inner", "Middle", "Outer"]
    combines := [] }

theorem nestedDesign_declared :
    (Design.elaborate (fun _ => .error .notFound) nestedProject).outcome = .ok nestedDesign ∧
      nestedDesign.order.Perm ["Outer", "Middle", "Inner"] ∧
      nestedDesign.order.idxOf "Middle" < nestedDesign.order.idxOf "Outer" ∧
      (files {} nestedDesign).head? = some
        { name := "bundle.h"
          contents := unlines
            ["#pragma once", "", "#include \"common.h\"", "#include \"global.h\"", "",
              "typedef struct \x7b", "    uint8 bits = 7;", "\x7d Inner;", "",
              "typedef struct \x7b", "    Inner leaf;", "    Label tag;", "\x7d Middle;", "",
              "typedef struct \x7b", "    Middle x;", "    Middle y;", "\x7d Outer;", ""] } := by
  have hElaborated : (Design.elaborate (fun _ => .error .notFound) nestedProject).outcome =
      .ok nestedDesign := by
    rfl
  obtain ⟨-, hPerm, hBefore, blocks, hBlocks, hNames, hFile, -⟩ :=
    bundlesHeader_declares_before_use hElaborated {}
  have hAll : (blocks.map Descriptor.Bundle.name).filterMap (fun n =>
      nestedProject.bundles.find? fun other => other.name = n) = blocks :=
    filterMap_find?_map (by decide) fun _ hb => hBlocks.mem_iff.mp hb
  rw [← hAll, hNames] at hFile
  refine ⟨hElaborated, hPerm, ?_, hFile⟩
  exact hBefore _ List.mem_cons_self _ List.mem_cons_self _
    (List.mem_cons_of_mem _ List.mem_cons_self) rfl

end Cpp

end Simgen
