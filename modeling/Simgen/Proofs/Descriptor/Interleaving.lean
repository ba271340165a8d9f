import Simgen.Proofs.Descriptor.Schema
import Mathlib.Data.List.Forall2

/-! What the reading of a combine depends on: for each tag that has a meaning, the children with
that tag in their order. Neither the mixture of children of different tags nor children with
other tags nor the text of the root decide what is accepted or what is read. -/
namespace Simgen.Descriptor

open Markup (Element)

variable {e f : Element} {children : List Element} {entries others : List Entry} {tag : String}

/-- The tags of what a combine is made of. -/
def partTags : List String :=
  ["pipein", "pipeout", "request", "service", "function", "storage", "storagenext",
    "storagetick", "config", "init", "tick", "applytick", "stallable"]

/-- The tags that have a meaning below the root of a combine descriptor. -/
def knownTags : List String := ["name", "comment"] ++ partTags

/-- Two roots have the same children of each known tag, in the same order. -/
def AgreeByTag (e f : Element) : Prop :=
  ∀ tag ∈ knownTags, e.childrenWith tag = f.childrenWith tag

/-- The tag of the element that an entry is read from. A heading may come from two of them. -/
def Entry.tag? : Entry → Option String
  | heading => none
  | pipeIn _ => some "pipein"
  | pipeOut _ => some "pipeout"
  | request _ => some "request"
  | service _ => some "service"
  | function _ => some "function"
  | storage _ => some "storage"
  | storageNext _ => some "storagenext"
  | storageTick _ => some "storagetick"
  | config _ => some "config"
  | init _ => some "init"
  | tick _ => some "tick"
  | applyTick _ => some "applytick"
  | stallable => some "stallable"
  | unknown tag => some tag

/-- The entries that are read from elements with this tag, in their order. -/
def entriesWith (tag : String) (entries : List Entry) : List Entry :=
  entries.filter fun entry => entry.tag? = some tag

theorem AgreeByTag.symm (h : AgreeByTag e f) : AgreeByTag f e := fun tag hTag => (h tag hTag).symm

theorem child?_eq_head? (e : Element) (tag : String) :
    e.child? tag = (e.childrenWith tag).head? := by
  rw [Element.child?, Element.childrenWith, List.head?_filter]

theorem AgreeByTag.child? (h : AgreeByTag e f) (hTag : tag ∈ knownTags) :
    e.child? tag = f.child? tag := by
  rw [child?_eq_head?, child?_eq_head?, h tag hTag]

theorem followsSchema_of_unknown (hTag : e.tag ∉ knownTags) : FollowsSchema e := by
  rw [followsSchema_iff]
  simp only [knownTags, partTags, List.cons_append, List.nil_append, List.mem_cons,
    List.not_mem_nil, or_false, not_or] at hTag
  simp [hTag]

/-- A root is accepted if it agrees with one that is: each of its children has an unknown tag or
is a child of the other too. -/
theorem AgreeByTag.combineSchema (h : AgreeByTag e f) (hSchema : CombineSchema e) :
    CombineSchema f := by
  constructor
  · obtain ⟨c, hChild, hValid⟩ := hSchema.name
    exact ⟨c, (h.child? (by decide)).symm.trans hChild, hValid⟩
  · intro c hc
    by_cases hTag : c.tag ∈ knownTags
    · have hIn : c ∈ f.childrenWith c.tag := List.mem_filter.mpr ⟨hc, decide_eq_true rfl⟩
      rw [← h c.tag hTag] at hIn
      exact hSchema.children c (List.mem_of_mem_filter hIn)
    · exact followsSchema_of_unknown hTag

/-- An entry tells the tag that it is read from, unless it is a heading. -/
theorem Entry.tag?_of_ofElement {entry : Entry} (h : Entry.ofElement e = .ok entry) :
    entry.tag? = if e.tag ∈ ["name", "comment"] then none else some e.tag := by
  unfold Entry.ofElement at h
  split at h
  case h_1 | h_2 | h_15 =>
    rename_i hTag
    cases h
    simp [hTag, tag?]
  case h_16 =>
    cases h
    simp_all [tag?]
  all_goals
    rename_i hTag
    obtain ⟨part, -, rfl⟩ := map_eq_ok_iff.mp h
    simp [hTag, tag?]

/-- The children with one tag are read as the entries of that tag, whatever stands between. -/
theorem Reads.withTag (h : Reads e.children entries) (hTag : tag ∈ partTags) :
    Reads (e.childrenWith tag) (entriesWith tag entries) := by
  have hNoHeading : ∀ tag ∈ partTags, tag ∉ ["name", "comment"] := by decide
  refine List.rel_filter ?_ h
  intro c entry hRead
  simp only [decide_eq_true_eq, Entry.tag?_of_ofElement hRead]
  split_ifs with hHeading
  · have hOther : c.tag ≠ tag := fun hEq => hNoHeading tag hTag (hEq ▸ hHeading)
    simp [hOther]
  · rw [Option.some.injEq]

theorem Reads.unique (h : Reads children entries) (h' : Reads children others) :
    entries = others := by
  refine List.right_unique_forall₂' ?_ h h'
  intro c entry other hRead hRead'
  rw [hRead] at hRead'
  exact Except.ok.inj hRead'

theorem AgreeByTag.withTag (h : AgreeByTag e f) (hReads : Reads e.children entries)
    (hReads' : Reads f.children others) (hTag : tag ∈ partTags) :
    entriesWith tag entries = entriesWith tag others := by
  have hRead := hReads.withTag hTag
  rw [h tag (List.mem_append_right _ hTag)] at hRead
  exact hRead.unique (hReads'.withTag hTag)

/-- What is collected from entries of one tag is found among those entries alone. -/
theorem filterMap_withTag {β : Type} {collect : Entry → Option β}
    (hCollect : ∀ entry, (collect entry).isSome → entry.tag? = some tag) (entries : List Entry) :
    entries.filterMap collect = (entriesWith tag entries).filterMap collect := by
  rw [entriesWith, List.filterMap_filter]
  apply List.filterMap_congr
  intro entry _
  split_ifs with hTag
  · rfl
  · by_contra hSome
    exact hTag (decide_eq_true (hCollect entry (Option.isSome_iff_ne_none.mpr hSome)))

theorem contains_withTag (entries : List Entry) :
    entries.contains .stallable = (entriesWith "stallable" entries).contains .stallable := by
  rw [Bool.eq_iff_iff, List.contains_iff_mem, List.contains_iff_mem, entriesWith, List.mem_filter]
  simp [Entry.tag?]

/-- Each field of a combine is collected from the entries of one tag. -/
theorem Combine.ofEntries_congr {name source : String} {comment : Option String}
    (h : ∀ tag ∈ partTags, entriesWith tag entries = entriesWith tag others) :
    ofEntries name source comment entries = ofEntries name source comment others := by
  have hField : ∀ {β : Type} {collect : Entry → Option β} (tag : String), tag ∈ partTags →
      (∀ entry, (collect entry).isSome → entry.tag? = some tag) →
      entries.filterMap collect = others.filterMap collect := by
    intro β collect tag hTag hCollect
    rw [filterMap_withTag hCollect entries, filterMap_withTag hCollect others, h tag hTag]
  have hFlag : entries.contains .stallable = others.contains .stallable := by
    rw [contains_withTag entries, contains_withTag others, h "stallable" (by decide)]
  simp only [ofEntries, Combine.mk.injEq, true_and]
  refine ⟨hField "pipein" (by decide) ?_, hField "pipeout" (by decide) ?_,
    hField "request" (by decide) ?_, hField "service" (by decide) ?_,
    hField "function" (by decide) ?_, hField "storage" (by decide) ?_,
    hField "storagenext" (by decide) ?_, hField "storagetick" (by decide) ?_,
    hField "config" (by decide) ?_, hField "init" (by decide) ?_, hField "tick" (by decide) ?_,
    hField "applytick" (by decide) ?_, hFlag⟩
  all_goals
    intro entry
    cases entry <;> simp [Entry.tag?]

theorem root_eq_ok_iff {expected document : String} :
    root expected document = .ok e ↔ Element.parse document = .ok e ∧ e.tag = expected := by
  rw [root]
  cases Element.parse document with
  | error fault => simp
  | ok found =>
      by_cases hTag : found.tag = expected
      · simp only [hTag, if_true, Except.ok.injEq]
        exact ⟨fun hEq => ⟨hEq, hEq ▸ hTag⟩, And.left⟩
      · simp only [hTag, if_false, reduceCtorEq, Except.ok.injEq, false_iff, not_and]
        exact fun hEq => hEq ▸ hTag

namespace Combine

theorem ofElement_eq_ok_iff {source : String} {c : Combine} :
    (ofElement e source).outcome = .ok c ↔ ∃ name entries, nameOf e "combine" = .ok name ∧
      Reads e.children entries ∧ ofEntries name source (optional e "comment") entries = c := by
  rw [outcome_ofElement]
  simp only [bind_eq_ok_iff, lift_eq_ok_iff, outcome_entries_eq_ok_iff, Except.ok.injEq,
    exists_and_left]

/-- Roots that agree give the same combine if both are accepted. -/
theorem eq_of_agreeByTag (h : AgreeByTag e f) {source : String} {c d : Combine}
    (hc : (ofElement e source).outcome = .ok c) (hd : (ofElement f source).outcome = .ok d) :
    c = d := by
  obtain ⟨name, entries, hName, hReads, rfl⟩ := ofElement_eq_ok_iff.mp hc
  obtain ⟨name', others, hName', hReads', rfl⟩ := ofElement_eq_ok_iff.mp hd
  have hSame : nameOf e "combine" = nameOf f "combine" := by
    simp only [nameOf, required, optional, h.child? (by decide : "name" ∈ knownTags)]
  rw [hSame, hName'] at hName
  cases hName
  rw [optional, optional, h.child? (by decide : "comment" ∈ knownTags)]
  exact ofEntries_congr fun tag hTag => h.withTag hReads hReads' hTag

theorem ofElement_of_agreeByTag (h : AgreeByTag e f) {source : String} {c : Combine}
    (hc : (ofElement e source).outcome = .ok c) : (ofElement f source).outcome = .ok c := by
  have hSchema : CombineSchema e := (succeeds_ofElement source).mp ⟨c, hc⟩
  obtain ⟨d, hd⟩ := (succeeds_ofElement source).mpr (h.combineSchema hSchema)
  rw [eq_of_agreeByTag h hc hd, hd]

theorem parse_eq_ok_iff {document source : String} {c : Combine} :
    (parse document source).outcome = .ok c ↔ ∃ e, Element.parse document = .ok e ∧
      e.tag = "combine" ∧ (ofElement e source).outcome = .ok c := by
  rw [parse, Traced.outcome_blaming, mapError_eq_ok_iff, Traced.outcome_bind_eq_ok_iff]
  simp only [Traced.outcome_lift, mapError_eq_ok_iff, root_eq_ok_iff, and_assoc]

/-- Two roots that have, for each known tag, the same children in the same order are both accepted
or both refused, and the same combine is read from them. So it is with documents of such roots. -/
theorem read_by_tag (h : AgreeByTag e f) (source : String) (c : Combine) :
    ((ofElement e source).outcome = .ok c ↔ (ofElement f source).outcome = .ok c) ∧
      ∀ document other, Element.parse document = .ok e → Element.parse other = .ok f →
        e.tag = f.tag →
        ((parse document source).outcome = .ok c ↔ (parse other source).outcome = .ok c) := by
  have hIff : (ofElement e source).outcome = .ok c ↔ (ofElement f source).outcome = .ok c :=
    ⟨ofElement_of_agreeByTag h, ofElement_of_agreeByTag h.symm⟩
  refine ⟨hIff, ?_⟩
  intro document other hParse hParse' hTag
  simp only [parse_eq_ok_iff, hParse, hParse', Except.ok.injEq, exists_eq_left', hTag, hIff]

/-- A root with its children sorted by tag. -/
def gauge : Element :=
  .mk "combine" none
    [.mk "name" (some "Gauge") [],
      .mk "pipein" none [.mk "name" (some "probe") [], .mk "type" (some "uint8") []],
      .mk "tick" none [.mk "cppfunc" none [.mk "code" (some "sample();") []]],
      .mk "tick" none [.mk "cppfunc" none [.mk "code" (some "publish();") []]],
      .mk "stallable" none []]

/-- The same children mixed, among others that have no meaning, below a root with text. -/
def gaugeMixed : Element :=
  .mk "combine" (some "draft")
    [.mk "stallable" none [],
      .mk "tick" none [.mk "cppfunc" none [.mk "code" (some "sample();") []]],
      .mk "pipe" none [.mk "name" (some "") []],
      .mk "pipein" none [.mk "name" (some "probe") [], .mk "type" (some "uint8") []],
      .mk "tick" none [.mk "cppfunc" none [.mk "code" (some "publish();") []]],
      .mk "name" (some "Gauge") []]

def gaugeCombine : Combine where
  name := "Gauge"
  comment := none
  source := "gauge.xml"
  pipeIn := [⟨"probe", "uint8", none⟩]
  pipeOut := []
  requests := []
  services := []
  functions := []
  storage := []
  storageNext := []
  storageTick := []
  configs := []
  init := []
  tick := [⟨none, ["sample();"]⟩, ⟨none, ["publish();"]⟩]
  applyTick := []
  stallable := true

theorem gaugeMixed_read :
    AgreeByTag gauge gaugeMixed ∧ (ofElement gauge "gauge.xml").outcome = .ok gaugeCombine ∧
      (ofElement gaugeMixed "gauge.xml").outcome = .ok gaugeCombine := by
  have hAgree : AgreeByTag gauge gaugeMixed := by
    simp [AgreeByTag, knownTags, partTags, gauge, gaugeMixed, Element.childrenWith,
      Element.children, Element.tag]
  have hRead : (ofElement gauge "gauge.xml").outcome = .ok gaugeCombine := by rfl
  exact ⟨hAgree, hRead, (read_by_tag hAgree "gauge.xml" gaugeCombine).1.mp hRead⟩

end Combine

end Simgen.Descriptor
