import Simgen.Proofs.Descriptor.Schema
import Simgen.Proofs.Descriptor.Valid
import Mathlib.Data.List.Forall2

/-! Reading a written descriptor gives the descriptor back. First each record is read from
the element it was written as; then the children of a combine are read one by one into
entries, and the entries of each kind are collected in their order. -/
namespace Simgen.Descriptor

open Markup (Element)

@[simp] theorem tag_ofText (tag text : String) : (Element.ofText tag text).tag = tag := rfl

@[simp] theorem tag_ofChildren (tag : String) (children : List Element) :
    (Element.ofChildren tag children).tag = tag := rfl

theorem content_ofText {tag text : String} (h : Text.Trimmed text) :
    (Element.ofText tag text).content = text := by
  by_cases hEmpty : text = ""
  · subst hEmpty
    rfl
  · have hText : (Element.ofText tag text).text = some text := if_neg hEmpty
    rw [Element.content, hText]
    exact h

section child

variable {e : Element} {tag parent : String}

theorem optional_of_child {text : Option String}
    (hChild : e.child? tag = text.map (Element.ofText tag)) (hText : ∀ t ∈ text, Text.Trimmed t) :
    optional e tag = text := by
  rw [optional, hChild]
  cases text with
  | none => rfl
  | some t => exact congrArg some (content_ofText (hText t rfl))

theorem required_of_child {text : String} (hChild : e.child? tag = some (.ofText tag text))
    (hText : Text.Solid text) : required e parent tag = .ok text := by
  have hOptional : optional e tag = some text :=
    optional_of_child hChild fun t ht => Option.mem_some_iff.mp ht ▸ hText.2
  rw [required, hOptional]
  exact if_neg hText.1

theorem nameOf_of_child {name : String} (hChild : e.child? "name" = some (.ofText "name" name))
    (hName : Ident.isValid name = true) : nameOf e parent = .ok name := by
  rw [nameOf, required_of_child hChild (Ident.solid hName)]
  exact if_pos hName

theorem valueOf_of_child {value : Option String}
    (hChild : e.child? "value" = value.map (Element.ofText "value"))
    (hValue : ∀ v ∈ value, Text.Solid v) : valueOf e parent = .ok value := by
  cases value with
  | none => rw [valueOf, hChild]; rfl
  | some v => rw [valueOf, hChild, required_of_child hChild (hValue v rfl)]; rfl

end child

/-! Which children an element has is told by the tags of the parts it was written from. -/

section tags

variable (tag t : String)

@[simp] theorem child?_ofChildren (children : List Element) :
    (Element.ofChildren tag children).child? t = children.find? fun c => c.tag = t := rfl

@[simp] theorem childrenWith_ofChildren (children : List Element) :
    (Element.ofChildren tag children).childrenWith t = children.filter fun c => c.tag = t := rfl

@[simp] theorem Pipe.tag_toElement (p : Pipe) : (p.toElement tag).tag = tag := rfl

@[simp] theorem Param.tag_toElement (p : Param) : (p.toElement tag).tag = tag := rfl

@[simp] theorem Operation.tag_toElement (f : Operation) : (f.toElement tag).tag = tag := rfl

@[simp] theorem Storage.tag_toElement (s : Storage) : (s.toElement tag).tag = tag := rfl

@[simp] theorem Constant.tag_toElement (c : Constant) : c.toElement.tag = "config" := rfl

@[simp] theorem Code.tag_toElement (c : Code) : c.toElement.tag = "cppfunc" := rfl

@[simp] theorem Member.tag_toElement (m : Member) : m.toElement.tag = "member" := rfl

@[simp] theorem tag_phaseElement (c : Code) : (phaseElement tag c).tag = tag := rfl

@[simp] theorem find?_optionalChild (text : Option String) :
    (optionalChild tag text).find? (fun c => c.tag = t) =
      if tag = t then text.map (Element.ofText tag) else none := by
  cases text with
  | none => simp [optionalChild]
  | some text => by_cases h : tag = t <;> simp [optionalChild, h]

@[simp] theorem filter_optionalChild (text : Option String) :
    (optionalChild tag text).filter (fun c => c.tag = t) =
      if tag = t then optionalChild tag text else [] := by
  cases text with
  | none => simp [optionalChild]
  | some text => by_cases h : tag = t <;> simp [optionalChild, h]

theorem find?_optionalChild_append {rest : List Element} (hRest : ∀ e ∈ rest, e.tag ≠ tag)
    (text : Option String) :
    (optionalChild tag text ++ rest).find? (fun c => c.tag = tag) =
      text.map (Element.ofText tag) := by
  have hNone : rest.find? (fun c => c.tag = tag) = none :=
    List.find?_eq_none.mpr (by simpa using hRest)
  rw [List.find?_append, hNone, Option.or_none, find?_optionalChild, if_pos rfl]

end tags

section map

variable {α : Type} {f : α → Element} {tag : String} (hTag : ∀ a, (f a).tag = tag)

include hTag

theorem find?_map_tag (t : String) (h : tag ≠ t) (as : List α) :
    (as.map f).find? (fun c => c.tag = t) = none := by
  simp [hTag, h]

theorem filter_map_tag (t : String) (as : List α) :
    (as.map f).filter (fun c => c.tag = t) = if tag = t then as.map f else [] := by
  by_cases h : tag = t <;> simp [hTag, h]

end map

theorem mapM_map_ok {α ε : Type} {f : α → Element} {read : Element → Except ε α} {as : List α}
    (h : ∀ a ∈ as, read (f a) = .ok a) : (as.map f).mapM read = .ok as := by
  induction as with
  | nil => rfl
  | cons a as ih =>
      obtain ⟨hFirst, hRest⟩ := List.forall_mem_cons.mp h
      rw [List.map_cons, List.mapM_cons, hFirst, ih hRest]
      rfl

section records

variable {tag : String}

theorem Member.ofElement_toElement {m : Member} (h : m.Valid) : ofElement m.toElement = .ok m := by
  have hName : nameOf m.toElement "member" = .ok m.name := nameOf_of_child rfl h.name
  have hType : required m.toElement "member" "type" = .ok m.type := required_of_child rfl h.type
  have hValue : valueOf m.toElement "member" = .ok m.value :=
    valueOf_of_child (by simp [toElement]) h.value
  simp only [ofElement, hName, hType, hValue]
  rfl

theorem Pipe.ofElement_toElement {p : Pipe} (h : p.Valid) :
    ofElement (p.toElement tag) = .ok p := by
  have hName : nameOf (p.toElement tag) tag = .ok p.name := nameOf_of_child rfl h.name
  have hType : required (p.toElement tag) tag "type" = .ok p.type := required_of_child rfl h.type
  have hComment : optional (p.toElement tag) "comment" = p.comment :=
    optional_of_child (by simp [toElement]) h.comment
  simp only [ofElement, tag_toElement, hName, hType, hComment]
  rfl

theorem Param.ofElement_toElement {p : Param} (h : p.Valid) :
    ofElement (p.toElement tag) = .ok p := by
  have hName : nameOf (p.toElement tag) tag = .ok p.name := nameOf_of_child rfl h.name
  have hType : required (p.toElement tag) tag "type" = .ok p.type := required_of_child rfl h.type
  have hComment : optional (p.toElement tag) "comment" = p.comment :=
    optional_of_child (by simp [toElement]) h.comment
  simp only [ofElement, tag_toElement, hName, hType, hComment]
  rfl

theorem Storage.ofElement_toElement {s : Storage} (h : s.Valid) :
    ofElement (s.toElement tag) = .ok s := by
  have hName : nameOf (s.toElement tag) tag = .ok s.name := nameOf_of_child rfl h.name
  have hType : required (s.toElement tag) tag "type" = .ok s.type := required_of_child rfl h.type
  have hValue : valueOf (s.toElement tag) tag = .ok s.value :=
    valueOf_of_child (by simp [toElement]) h.value
  have hComment : optional (s.toElement tag) "comment" = s.comment :=
    optional_of_child (by simp [toElement]) h.comment
  simp only [ofElement, tag_toElement, hName, hType, hValue, hComment]
  rfl

theorem Constant.ofElement_toElement {c : Constant} (h : c.Valid) :
    ofElement c.toElement = .ok c := by
  have hName : nameOf c.toElement "config" = .ok c.name := nameOf_of_child rfl h.name
  have hValue : required c.toElement "config" "value" = .ok c.value :=
    required_of_child rfl h.value
  have hComment : optional c.toElement "comment" = c.comment :=
    optional_of_child (by simp [toElement]) h.comment
  simp only [ofElement, hName, hValue, hComment]
  rfl

theorem FunctionRef.ofElement_code {c : Code} (h : c.Valid) :
    ofElement c.toElement = .ok c.reference := by
  obtain ⟨reference, fragments⟩ := c
  cases reference with
  | none =>
      have hNone : ∀ t, t ≠ "code" → optional (Code.toElement ⟨none, fragments⟩) t = none := by
        intro t ht
        have hChild : (Code.toElement ⟨none, fragments⟩).child? t = none :=
          find?_map_tag (tag_ofText "code") t (Ne.symm ht) fragments
        rw [optional, hChild]
        rfl
      rw [ofElement, hNone "file" (by decide), hNone "name" (by decide)]
  | some r =>
      have hr := h.reference r rfl
      have hFile : optional (Code.toElement ⟨some r, fragments⟩) "file" = some r.file :=
        optional_of_child rfl (by simpa using hr.file.2)
      have hFunc : optional (Code.toElement ⟨some r, fragments⟩) "name" = some r.func :=
        optional_of_child rfl (by simpa using hr.func.2)
      rw [ofElement, hFile, hFunc]
      exact if_neg (not_or.mpr ⟨hr.file.1, hr.func.1⟩)

theorem Code.ofElement_toElement {c : Code} (h : c.Valid) : ofElement c.toElement = .ok c := by
  have hCode : c.toElement.childrenWith "code" = c.fragments.map (Element.ofText "code") := by
    cases hReference : c.reference with
    | none => simp [toElement, hReference]
    | some r => simp [toElement, hReference, FunctionRef.toElements]
  have hFragments : (c.toElement.childrenWith "code").map Element.content = c.fragments := by
    rw [hCode, List.map_map]
    refine (List.map_congr_left fun t ht => ?_).trans (List.map_id c.fragments)
    exact content_ofText (h.fragments t ht)
  simp only [ofElement, FunctionRef.ofElement_code h, hFragments]
  rfl

theorem codeOf_of_child {e : Element} {c : Code} (hChild : e.child? "cppfunc" = some c.toElement)
    (h : c.Valid) (fault : SchemaFault) : codeOf e fault = .ok c := by
  rw [codeOf, hChild]
  exact Code.ofElement_toElement h

theorem Operation.ofElement_toElement {hasBody : Bool} {f : Operation} (h : f.Valid hasBody) :
    ofElement (f.toElement tag) hasBody = .ok f := by
  have hName : nameOf (f.toElement tag) tag = .ok f.name := nameOf_of_child rfl h.name
  have hComment : optional (f.toElement tag) "comment" = f.comment := by
    refine optional_of_child ?_ h.comment
    simp only [toElement, child?_ofChildren, List.cons_append, List.append_assoc]
    rw [List.find?_cons_of_neg (by simp), find?_optionalChild_append]
    simp only [List.forall_mem_append, List.forall_mem_map]
    exact ⟨by simp, by simp, by simp⟩
  have hArgs : (f.toElement tag).childrenWith "arg" = f.params.map (Param.toElement "arg") := by
    cases hBody : f.body <;> simp [toElement, hBody, filter_map_tag (Param.tag_toElement _)]
  have hReturned : (f.toElement tag).childrenWith "return" =
      f.returns.map (Param.toElement "return") := by
    cases hBody : f.body <;> simp [toElement, hBody, filter_map_tag (Param.tag_toElement _)]
  have hParams : (f.params.map (Param.toElement "arg")).mapM Param.ofElement = .ok f.params :=
    mapM_map_ok fun p hp => Param.ofElement_toElement (h.params p hp)
  have hReturns : (f.returns.map (Param.toElement "return")).mapM Param.ofElement =
      .ok f.returns :=
    mapM_map_ok fun p hp => Param.ofElement_toElement (h.returns p hp)
  -- With the parts read, the two kinds of operation differ in the body only.
  cases hasBody with
  | false =>
      have hBody : f.body = none := by simpa using h.hasBody
      simp only [ofElement, tag_toElement, hName, hArgs, hReturned, hParams, hReturns, hComment]
      rw [← hBody]
      rfl
  | true =>
      obtain ⟨c, hBody⟩ := Option.isSome_iff_exists.mp h.hasBody
      have hChild : (f.toElement tag).child? "cppfunc" = some c.toElement := by
        simp only [toElement, child?_ofChildren, List.cons_append, List.append_assoc]
        rw [List.find?_cons_of_neg (by simp), List.find?_append, List.find?_append,
          List.find?_append, find?_map_tag (Param.tag_toElement "arg") _ (by decide),
          find?_map_tag (Param.tag_toElement "return") _ (by decide)]
        simp [hBody]
      have hCode := codeOf_of_child hChild (h.body c hBody) (.noBody tag f.name)
      simp only [ofElement, tag_toElement, hName, hArgs, hReturned, hParams, hReturns, hComment,
        bind, Except.bind, if_true, hCode, Functor.map, Except.map]
      rw [← hBody]
      rfl

theorem phaseOf_phaseElement {c : Code} (h : c.Valid) : phaseOf (phaseElement tag c) = .ok c :=
  codeOf_of_child rfl h _

end records

/-- The entries that the children of a written combine are read as, in their order. -/
def Combine.entries (c : Combine) : List Entry :=
  Entry.heading :: (c.comment.map fun _ => Entry.heading).toList ++
    c.pipeIn.map Entry.pipeIn ++ c.pipeOut.map Entry.pipeOut ++ c.requests.map Entry.request ++
    c.services.map Entry.service ++ c.functions.map Entry.function ++
    c.storage.map Entry.storage ++ c.storageNext.map Entry.storageNext ++
    c.storageTick.map Entry.storageTick ++ c.configs.map Entry.config ++ c.init.map Entry.init ++
    c.tick.map Entry.tick ++ c.applyTick.map Entry.applyTick ++
    if c.stallable then [Entry.stallable] else []

/-- What is collected from the entries of a combine is collected from each kind in turn. -/
theorem Combine.filterMap_entries (c : Combine) {β : Type} {collect : Entry → Option β}
    (hHeading : collect .heading = none) (hStallable : collect .stallable = none) :
    c.entries.filterMap collect =
      (c.pipeIn.filterMap fun p => collect (.pipeIn p)) ++
      (c.pipeOut.filterMap fun p => collect (.pipeOut p)) ++
      (c.requests.filterMap fun f => collect (.request f)) ++
      (c.services.filterMap fun f => collect (.service f)) ++
      (c.functions.filterMap fun f => collect (.function f)) ++
      (c.storage.filterMap fun s => collect (.storage s)) ++
      (c.storageNext.filterMap fun s => collect (.storageNext s)) ++
      (c.storageTick.filterMap fun s => collect (.storageTick s)) ++
      (c.configs.filterMap fun t => collect (.config t)) ++
      (c.init.filterMap fun t => collect (.init t)) ++
      (c.tick.filterMap fun t => collect (.tick t)) ++
      (c.applyTick.filterMap fun t => collect (.applyTick t)) := by
  have hFirst : (Entry.heading :: (c.comment.map fun _ => Entry.heading).toList).filterMap collect =
      [] := by
    cases c.comment <;> simp [hHeading]
  have hLast : (if c.stallable then [Entry.stallable] else []).filterMap collect = [] := by
    cases c.stallable <;> simp [hStallable]
  simp only [entries, List.filterMap_append, List.filterMap_map, hFirst, hLast, List.nil_append,
    List.append_nil, Function.comp_def]

/-- Entries that come from elsewhere are passed over where one kind is collected. -/
theorem Combine.ofEntries_entries (c : Combine) :
    ofEntries c.name c.source c.comment c.entries = c := by
  have hOther : ∀ {α β : Type} (as : List α), as.filterMap (fun _ => (none : Option β)) = [] :=
    fun as => List.filterMap_eq_nil_iff.mpr fun _ _ => rfl
  have hFlag : c.entries.contains .stallable = c.stallable := by
    cases hText : c.comment <;> cases hStall : c.stallable <;> simp [entries, hText, hStall]
  simp (disch := rfl) only [ofEntries, hFlag, filterMap_entries, hOther, List.filterMap_some,
    List.nil_append, List.append_nil]

theorem Reads.append {first second : List Element} {entries more : List Entry}
    (hFirst : Reads first entries) (hSecond : Reads second more) :
    Reads (first ++ second) (entries ++ more) :=
  List.rel_append hFirst hSecond

theorem reads_map {α : Type} {write : α → Element} (read : Element → Except SchemaFault α)
    {kind : α → Entry} {as : List α}
    (hKind : ∀ a, Entry.ofElement (write a) = kind <$> read (write a))
    (hRead : ∀ a ∈ as, read (write a) = .ok a) : Reads (as.map write) (as.map kind) := by
  refine List.forall₂_map_left_iff.mpr (List.forall₂_map_right_iff.mpr (List.forall₂_same.mpr ?_))
  intro a ha
  rw [hKind, hRead a ha]
  rfl

theorem Combine.reads_entries {c : Combine} (h : c.Valid) :
    Reads c.toElement.children c.entries := by
  have hHeadings : Reads (.ofText "name" c.name :: optionalChild "comment" c.comment)
      (.heading :: (c.comment.map fun _ => Entry.heading).toList) := by
    refine .cons rfl ?_
    cases c.comment with
    | none => exact .nil
    | some t => exact .cons rfl .nil
  have hStallable : Reads (if c.stallable then [.ofChildren "stallable" []] else [])
      (if c.stallable then [.stallable] else []) := by
    cases c.stallable with
    | false => exact .nil
    | true => exact .cons rfl .nil
  refine .append (.append (.append (.append (.append (.append (.append (.append (.append (.append
    (.append (.append (.append hHeadings ?_) ?_) ?_) ?_) ?_) ?_) ?_) ?_) ?_) ?_) ?_) ?_) hStallable
  · exact reads_map Pipe.ofElement (fun _ => rfl) fun p hp =>
      Pipe.ofElement_toElement (h.pipeIn p hp)
  · exact reads_map Pipe.ofElement (fun _ => rfl) fun p hp =>
      Pipe.ofElement_toElement (h.pipeOut p hp)
  · exact reads_map (Operation.ofElement · false) (fun _ => rfl) fun f hf =>
      Operation.ofElement_toElement (h.requests f hf)
  · exact reads_map (Operation.ofElement · true) (fun _ => rfl) fun f hf =>
      Operation.ofElement_toElement (h.services f hf)
  · exact reads_map (Operation.ofElement · true) (fun _ => rfl) fun f hf =>
      Operation.ofElement_toElement (h.functions f hf)
  · exact reads_map Storage.ofElement (fun _ => rfl) fun s hs =>
      Storage.ofElement_toElement (h.storage s hs)
  · exact reads_map Storage.ofElement (fun _ => rfl) fun s hs =>
      Storage.ofElement_toElement (h.storageNext s hs)
  · exact reads_map Storage.ofElement (fun _ => rfl) fun s hs =>
      Storage.ofElement_toElement (h.storageTick s hs)
  · exact reads_map Constant.ofElement (fun _ => rfl) fun t ht =>
      Constant.ofElement_toElement (h.configs t ht)
  · exact reads_map phaseOf (fun _ => rfl) fun t ht => phaseOf_phaseElement (h.init t ht)
  · exact reads_map phaseOf (fun _ => rfl) fun t ht => phaseOf_phaseElement (h.tick t ht)
  · exact reads_map phaseOf (fun _ => rfl) fun t ht => phaseOf_phaseElement (h.applyTick t ht)

theorem Combine.ofElement_toElement {c : Combine} (h : c.Valid) :
    (ofElement c.toElement c.source).outcome = .ok c := by
  have hName : nameOf c.toElement "combine" = .ok c.name := nameOf_of_child rfl h.name
  have hComment : optional c.toElement "comment" = c.comment := by
    refine optional_of_child ?_ h.comment
    simp only [toElement, child?_ofChildren, List.cons_append, List.append_assoc]
    rw [List.find?_cons_of_neg (by simp), find?_optionalChild_append]
    simp only [List.forall_mem_append, List.forall_mem_map]
    cases c.stallable <;> simp
  have hEntries := (outcome_entries_eq_ok_iff c.name).mpr (reads_entries h)
  rw [ofElement, hName, hComment]
  refine Traced.outcome_bind_eq_ok_iff.mpr ⟨c.name, rfl, ?_⟩
  refine Traced.outcome_bind_eq_ok_iff.mpr ⟨(), rfl, ?_⟩
  refine Traced.outcome_bind_eq_ok_iff.mpr ⟨c.entries, hEntries, ?_⟩
  rw [ofEntries_entries]
  rfl

theorem Bundle.ofElement_toElement {b : Bundle} (h : b.Valid) :
    (ofElement b.toElement b.source).outcome = .ok b := by
  have hName : nameOf b.toElement "bundle" = .ok b.name := nameOf_of_child rfl h.name
  have hChildren : b.toElement.childrenWith "member" = b.members.map Member.toElement := by
    simp [toElement, filter_map_tag Member.tag_toElement]
  have hMembers : (b.members.map Member.toElement).mapM Member.ofElement = .ok b.members :=
    mapM_map_ok fun m hm => Member.ofElement_toElement (h.members m hm)
  rw [ofElement, hName, hChildren, hMembers]
  rfl

theorem root_of_render {e : Element} (h : Markup.Writable e) :
    root e.tag (String.ofList e.render) = .ok e := by
  rw [root, Markup.parse_render h]
  exact if_pos rfl

/-- Reading a written descriptor gives the descriptor back, of a combine and of a bundle. -/
theorem parse_write :
    (∀ c : Combine, c.Valid → (Combine.parse c.write c.source).outcome = .ok c) ∧
      ∀ b : Bundle, b.Valid → (Bundle.parse b.write b.source).outcome = .ok b := by
  constructor
  · intro c h
    have hRoot : root "combine" c.write = .ok c.toElement := root_of_render h.writable
    rw [Combine.parse, Traced.outcome_blaming, mapError_eq_ok_iff, hRoot]
    exact Traced.outcome_bind_eq_ok_iff.mpr ⟨c.toElement, rfl, Combine.ofElement_toElement h⟩
  · intro b h
    have hRoot : root "bundle" b.write = .ok b.toElement := root_of_render h.writable
    rw [Bundle.parse, Traced.outcome_blaming, mapError_eq_ok_iff, hRoot]
    exact Traced.outcome_bind_eq_ok_iff.mpr ⟨b.toElement, rfl, Bundle.ofElement_toElement h⟩

/-- A combine with texts that need escapes, and with optional texts that are there but empty. -/
def adder : Combine where
  name := "Adder"
  comment := some ""
  source := "adder.xml"
  pipeIn := [⟨"operands", "Pair", some "a & b < 2^8"⟩]
  pipeOut := []
  requests := []
  services := [⟨"add", none, [⟨"x", "uint8", none⟩], [⟨"sum", "uint8", some ""⟩],
    some ⟨some ⟨"adder.cpp", "add"⟩, ["if (x < 1 && carry) ++sum;", ""]⟩⟩]
  functions := []
  storage := [⟨"carry", "bool", some "false", none⟩]
  storageNext := []
  storageTick := []
  configs := []
  init := []
  tick := [⟨none, ["carry = false;"]⟩]
  applyTick := []
  stallable := true

def operandPair : Bundle := ⟨"Pair", [⟨"left", "uint8", some "1<<2"⟩], "pair.xml"⟩

theorem adder_parse_write :
    adder.Valid ∧ (Combine.parse adder.write "adder.xml").outcome = .ok adder ∧
      operandPair.Valid ∧
      (Bundle.parse operandPair.write "pair.xml").outcome = .ok operandPair ∧
      operandPair.write = "<bundle><name>Pair</name><member><name>left</name>" ++
        "<type>uint8</type><value>1&lt;&lt;2</value></member></bundle>" := by
  have hAdder : adder.Valid := by decide +kernel
  have hPair : operandPair.Valid := by decide +kernel
  exact ⟨hAdder, parse_write.1 adder hAdder, hPair, parse_write.2 operandPair hPair,
    by decide +kernel⟩

end Simgen.Descriptor
