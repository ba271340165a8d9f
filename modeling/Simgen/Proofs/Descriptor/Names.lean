import Simgen.Proofs.Descriptor.Interleaving
import Simgen.Proofs.Design.Checks
import Simgen.Proofs.ProjectDirectory

/-! What is read from a document is named by identifiers: the descriptor itself, its members, and
the parameters of its operations. -/
namespace Simgen.Descriptor

open Markup (Element)

variable {e : Element} {document source : String}

/-- The names in an entry, those of parameters included. -/
def Entry.names : Entry → List String
  | pipeIn p => [p.name]
  | pipeOut p => [p.name]
  | request f => f.name :: f.paramNames
  | service f => f.name :: f.paramNames
  | function f => f.name :: f.paramNames
  | storage s => [s.name]
  | storageNext s => [s.name]
  | storageTick s => [s.name]
  | config c => [c.name]
  | _ => []

theorem Member.isValid_name_of_ofElement {m : Member} (h : Member.ofElement e = .ok m) :
    Ident.isValid m.name = true := by
  obtain ⟨name, hName, hRest⟩ := bind_eq_ok_iff.mp h
  obtain ⟨_, -, hRest⟩ := bind_eq_ok_iff.mp hRest
  obtain ⟨_, -, hRest⟩ := bind_eq_ok_iff.mp hRest
  cases hRest
  exact isValid_of_nameOf hName

theorem Pipe.isValid_name_of_ofElement {p : Pipe} (h : Pipe.ofElement e = .ok p) :
    Ident.isValid p.name = true := by
  obtain ⟨name, hName, hRest⟩ := bind_eq_ok_iff.mp h
  obtain ⟨_, -, hRest⟩ := bind_eq_ok_iff.mp hRest
  cases hRest
  exact isValid_of_nameOf hName

theorem Param.isValid_name_of_ofElement {p : Param} (h : Param.ofElement e = .ok p) :
    Ident.isValid p.name = true := by
  obtain ⟨_, -, hRest⟩ := bind_eq_ok_iff.mp h
  obtain ⟨name, hName, hRest⟩ := bind_eq_ok_iff.mp hRest
  cases hRest
  exact isValid_of_nameOf hName

theorem Storage.isValid_name_of_ofElement {s : Storage} (h : Storage.ofElement e = .ok s) :
    Ident.isValid s.name = true := by
  obtain ⟨name, hName, hRest⟩ := bind_eq_ok_iff.mp h
  obtain ⟨_, -, hRest⟩ := bind_eq_ok_iff.mp hRest
  obtain ⟨_, -, hRest⟩ := bind_eq_ok_iff.mp hRest
  cases hRest
  exact isValid_of_nameOf hName

theorem Constant.isValid_name_of_ofElement {c : Constant} (h : Constant.ofElement e = .ok c) :
    Ident.isValid c.name = true := by
  obtain ⟨name, hName, hRest⟩ := bind_eq_ok_iff.mp h
  obtain ⟨_, -, hRest⟩ := bind_eq_ok_iff.mp hRest
  cases hRest
  exact isValid_of_nameOf hName

theorem Operation.isValid_names_of_ofElement {hasBody : Bool} {f : Operation}
    (h : Operation.ofElement e hasBody = .ok f) :
    ∀ n ∈ f.name :: f.paramNames, Ident.isValid n = true := by
  obtain ⟨name, hName, hRest⟩ := bind_eq_ok_iff.mp h
  have hParts : ∀ body, (do
      let params ← (e.childrenWith "arg").mapM Param.ofElement
      let returns ← (e.childrenWith "return").mapM Param.ofElement
      return { name, comment := optional e "comment", params, returns, body }) = Except.ok f →
      ∀ n ∈ f.name :: f.paramNames, Ident.isValid n = true := by
    intro body hBody
    obtain ⟨params, hParams, hBody⟩ := bind_eq_ok_iff.mp hBody
    obtain ⟨returns, hReturns, hBody⟩ := bind_eq_ok_iff.mp hBody
    cases hBody
    rw [List.forall_mem_cons, Operation.paramNames, List.forall_mem_map, List.forall_mem_append]
    exact ⟨isValid_of_nameOf hName,
      forall_of_forall₂ (mapM_eq_ok_iff.mp hParams) fun _ _ => Param.isValid_name_of_ofElement,
      forall_of_forall₂ (mapM_eq_ok_iff.mp hReturns) fun _ _ => Param.isValid_name_of_ofElement⟩
  split at hRest
  · obtain ⟨body, -, hBody⟩ := bind_eq_ok_iff.mp hRest
    exact hParts body hBody
  · exact hParts none hRest

theorem Entry.isValid_names_of_ofElement {entry : Entry} (h : Entry.ofElement e = .ok entry) :
    ∀ n ∈ entry.names, Ident.isValid n = true := by
  unfold Entry.ofElement at h
  split at h
  case h_3 | h_4 =>
    obtain ⟨p, hp, rfl⟩ := map_eq_ok_iff.mp h
    exact List.forall_mem_singleton.mpr (Pipe.isValid_name_of_ofElement hp)
  case h_5 | h_6 | h_7 =>
    obtain ⟨f, hf, rfl⟩ := map_eq_ok_iff.mp h
    exact Operation.isValid_names_of_ofElement hf
  case h_8 | h_9 | h_10 =>
    obtain ⟨s, hs, rfl⟩ := map_eq_ok_iff.mp h
    exact List.forall_mem_singleton.mpr (Storage.isValid_name_of_ofElement hs)
  case h_11 =>
    obtain ⟨c, hc, rfl⟩ := map_eq_ok_iff.mp h
    exact List.forall_mem_singleton.mpr (Constant.isValid_name_of_ofElement hc)
  case h_12 | h_13 | h_14 =>
    obtain ⟨c, -, rfl⟩ := map_eq_ok_iff.mp h
    exact List.forall_mem_nil _
  case h_1 | h_2 | h_15 | h_16 =>
    cases h
    exact List.forall_mem_nil _

/-- The names of a combine are those in the entries that it is collected from. -/
theorem Combine.forall_names_ofEntries {P : String → Prop} {entries : List Entry}
    (h : ∀ entry ∈ entries, ∀ n ∈ entry.names, P n) (name : String) (comment : Option String) :
    ∀ n ∈ (ofEntries name source comment entries).declaredNames ++
      (ofEntries name source comment entries).paramNames, P n := by
  simp only [declaredNames, paramNames, ofEntries, List.map_append, List.flatMap_append,
    List.forall_mem_append, List.forall_mem_map, List.forall_mem_flatMap]
  refine ⟨?declared, ?params⟩
  case declared =>
    and_intros
    all_goals
      intro part hPart
      obtain ⟨entry, hEntry, hSome⟩ := List.mem_filterMap.mp hPart
      have hNames := h entry hEntry
      cases entry <;> cases hSome
      exact hNames part.name List.mem_cons_self
  case params =>
    and_intros
    all_goals
      intro part hPart n hn
      obtain ⟨entry, hEntry, hSome⟩ := List.mem_filterMap.mp hPart
      have hNames := h entry hEntry
      cases entry <;> cases hSome
      exact hNames n (List.mem_cons_of_mem _ hn)

theorem Combine.isValid_names_of_parse {d : Combine} (h : (parse document source).outcome = .ok d) :
    ∀ n ∈ d.name :: (d.declaredNames ++ d.paramNames), Ident.isValid n = true := by
  obtain ⟨e, -, -, hRead⟩ := parse_eq_ok_iff.mp h
  obtain ⟨name, entries, hName, hReads, rfl⟩ := ofElement_eq_ok_iff.mp hRead
  rw [List.forall_mem_cons]
  refine ⟨isValid_of_nameOf hName, forall_names_ofEntries ?_ name _⟩
  exact forall_of_forall₂ hReads fun _ _ => Entry.isValid_names_of_ofElement

theorem Bundle.parse_eq_ok_iff {b : Bundle} :
    (parse document source).outcome = .ok b ↔ ∃ e, Element.parse document = .ok e ∧
      e.tag = "bundle" ∧ (ofElement e source).outcome = .ok b := by
  rw [parse, Traced.outcome_blaming, mapError_eq_ok_iff, Traced.outcome_bind_eq_ok_iff]
  simp only [Traced.outcome_lift, mapError_eq_ok_iff, root_eq_ok_iff, and_assoc]

theorem Bundle.isValid_names_of_parse {b : Bundle} (h : (parse document source).outcome = .ok b) :
    ∀ n ∈ b.name :: b.members.map Member.name, Ident.isValid n = true := by
  obtain ⟨e, -, -, hRead⟩ := parse_eq_ok_iff.mp h
  rw [outcome_ofElement] at hRead
  obtain ⟨name, hName, hRead⟩ := bind_eq_ok_iff.mp hRead
  obtain ⟨members, hMembers, hRead⟩ := bind_eq_ok_iff.mp hRead
  cases hRead
  rw [List.forall_mem_cons, List.forall_mem_map]
  refine ⟨isValid_of_nameOf (lift_eq_ok_iff.mp hName), ?_⟩
  exact forall_of_forall₂ (mapM_eq_ok_iff.mp (lift_eq_ok_iff.mp hMembers))
    fun _ _ => Member.isValid_name_of_ofElement

end Simgen.Descriptor
