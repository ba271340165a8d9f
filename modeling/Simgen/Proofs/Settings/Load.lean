import Simgen.Proofs.Files.Search
import Simgen.Proofs.Settings.Layers

/-! Loading settings. Each assignment is a layer of one key, the files of a project are the layers
below, and nothing but what each key says last decides what is loaded. -/
namespace Simgen.Settings

open Files Toml

section assignments

/-- A key that names one setting: it is not empty, and neither a dot nor an equals sign is in it. -/
def PlainKey (key : String) : Prop := key ≠ "" ∧ '.' ∉ key.toList ∧ '=' ∉ key.toList

instance (key : String) : Decidable (PlainKey key) := inferInstanceAs (Decidable (_ ∧ _))

/-- Assignments by key and value. -/
abbrev Pairs := List (String × String)

/-- Assignments as they are given. -/
def written (pairs : Pairs) : List String := pairs.map fun p => p.1 ++ "=" ++ p.2

/-- The layer of each assignment. -/
def layersOf (pairs : Pairs) : List Table := pairs.map fun p => [(p.1, .text p.2)]

theorem splitKey_of_no_dot {cs : List Char} (h : '.' ∉ cs) (current : List Char) :
    splitKey current cs = [String.ofList (current.reverse ++ cs)] := by
  induction cs generalizing current with
  | nil => simp [splitKey]
  | cons c cs ih =>
      rw [List.mem_cons, not_or] at h
      rw [splitKey, if_neg (Ne.symm h.1), ih h.2]
      simp

theorem takeWhile_sign {key : List Char} (h : '=' ∉ key) (rest : List Char) :
    (key ++ rest).takeWhile (· ≠ '=') = key ++ rest.takeWhile (· ≠ '=') := by
  refine List.takeWhile_append_of_pos fun c hc => ?_
  have hNe : c ≠ '=' := by
    rintro rfl
    exact h hc
  simpa using hNe

theorem assignment?_of_no_sign {set : String} (h : '=' ∉ set.toList) : assignment? set = none := by
  have hKey := takeWhile_sign h []
  simp only [List.append_nil, List.takeWhile_nil] at hKey
  simp only [assignment?, hKey, List.drop_length]

theorem exists_assignment?_of_sign {set : String} (h : '=' ∈ set.toList) :
    ∃ layer, assignment? set = some layer := by
  obtain ⟨key, value, hSet, hKey⟩ := List.eq_append_cons_of_mem h
  have hCut := takeWhile_sign hKey ('=' :: value)
  rw [List.takeWhile_cons_of_neg (by simp), List.append_nil] at hCut
  simp only [assignment?, hSet, hCut, List.drop_left]
  exact ⟨_, rfl⟩

/-- An assignment is cut at its first equals sign. -/
theorem assignment?_of_plain {key : String} (h : PlainKey key) (value : String) :
    assignment? (key ++ "=" ++ value) = some (.ok [(key, .text value)]) := by
  obtain ⟨hSome, hDot, hSign⟩ := h
  have hSet : (key ++ "=" ++ value).toList = key.toList ++ '=' :: value.toList := by simp
  have hCut := takeWhile_sign hSign ('=' :: value.toList)
  rw [List.takeWhile_cons_of_neg (by simp), List.append_nil] at hCut
  simp only [assignment?, hSet, hCut, List.drop_left, splitKey_of_no_dot hDot, List.reverse_nil,
    List.nil_append, String.ofList_toList, nest, if_neg hSome]

theorem assignments_written {pairs : Pairs} (h : ∀ p ∈ pairs, PlainKey p.1) :
    assignments (written pairs) = .ok ((layersOf pairs).map .ok) := by
  induction pairs with
  | nil => rfl
  | cons p pairs ih =>
      obtain ⟨hFirst, hRest⟩ := List.forall_mem_cons.mp h
      rw [written, List.map_cons, assignments, assignment?_of_plain hFirst, ← written, ih hRest]
      rfl

/-- The first assignment without an equals sign is refused. -/
theorem assignments_eq_error {sets : List String} {bad : String}
    (h : sets.find? (fun set => '=' ∉ set.toList) = some bad) :
    assignments sets =
      .error (.other ("--set arguments must be in key=value form, found `" ++ bad ++ "`")) := by
  induction sets with
  | nil => cases h
  | cons set sets ih =>
      rw [List.find?_cons] at h
      by_cases hSign : '=' ∈ set.toList
      · simp only [hSign, not_true_eq_false, decide_false] at h
        obtain ⟨layer, hLayer⟩ := exists_assignment?_of_sign hSign
        rw [assignments, hLayer, ih h]
        rfl
      · simp only [hSign, not_false_eq_true, decide_true, Option.some.injEq] at h
        rw [assignments, assignment?_of_no_sign hSign, h]

theorem distinct_of_mem_layersOf {pairs : Pairs} {t : Table} (h : t ∈ layersOf pairs) :
    Distinct t := by
  obtain ⟨p, -, rfl⟩ := List.mem_map.mp h
  exact List.nodup_singleton p.1

/-- Without the assignments whose key is assigned again later. -/
def unshadowed : Pairs → Pairs
  | [] => []
  | p :: pairs => if p.1 ∈ pairs.map Prod.fst then unshadowed pairs else p :: unshadowed pairs

theorem unshadowed_sublist (pairs : Pairs) : (unshadowed pairs).Sublist pairs := by
  induction pairs with
  | nil => exact .slnil
  | cons p pairs ih =>
      rw [unshadowed]
      split
      · exact ih.cons p
      · exact ih.cons_cons p

theorem lastDefined_layersOf_cons (p : String × String) (pairs : Pairs) (key : String) :
    lastDefined (layersOf (p :: pairs)) key =
      (lastDefined (layersOf pairs) key).or (if key = p.1 then some (.text p.2) else none) := by
  rw [layersOf, List.map_cons, lastDefined_cons, ← layersOf]
  by_cases hKey : key = p.1
  · simp [hKey]
  · have hBeq : (key == p.1) = false := by simpa using hKey
    simp [List.lookup_cons, hBeq, hKey]

theorem isSome_lastDefined_layersOf {pairs : Pairs} {key : String} (h : key ∈ pairs.map Prod.fst) :
    (lastDefined (layersOf pairs) key).isSome := by
  induction pairs with
  | nil => cases h
  | cons p pairs ih =>
      rw [lastDefined_layersOf_cons]
      rcases List.mem_cons.mp h with rfl | h
      · simp
      · simp [ih h]

/-- What is assigned again later is never heard. -/
theorem lastDefined_unshadowed (pairs : Pairs) (key : String) :
    lastDefined (layersOf (unshadowed pairs)) key = lastDefined (layersOf pairs) key := by
  induction pairs with
  | nil => rfl
  | cons p pairs ih =>
      rw [unshadowed, lastDefined_layersOf_cons]
      split
      next hAgain =>
        rw [ih]
        by_cases hKey : key = p.1
        · subst hKey
          obtain ⟨v, hLast⟩ := Option.isSome_iff_exists.mp (isSome_lastDefined_layersOf hAgain)
          rw [hLast, Option.some_or]
        · rw [if_neg hKey, Option.or_none]
      next => rw [lastDefined_layersOf_cons, ih]

theorem lastDefined_swap {p q : String × String} (h : p.1 ≠ q.1) (before after : Pairs)
    (key : String) :
    lastDefined (layersOf (before ++ p :: q :: after)) key =
      lastDefined (layersOf (before ++ q :: p :: after)) key := by
  induction before with
  | nil =>
      simp only [List.nil_append, lastDefined_layersOf_cons, Option.or_assoc]
      by_cases hp : key = p.1
      · have hq : key ≠ q.1 := hp ▸ h
        rw [if_neg hq, Option.none_or, Option.or_none]
      · rw [if_neg hp, Option.none_or, Option.or_none]
  | cons first before ih =>
      rw [List.cons_append, List.cons_append, lastDefined_layersOf_cons, ih,
        ← lastDefined_layersOf_cons]

end assignments

section loading

variable {s : Store} {projectDir : String} {explicit : Option String} {own given : Option Table}
  {tables : List Table} {pairs pairs' : Pairs} {sets : List String}

/-- What tables and assignments make, the lowest first. -/
def settled (tables : List Table) (sets : List String) : Except Cause Settings := do
  let setLayers ← assignments sets
  (ofLayers (tables.map .ok ++ setLayers)).mapError SettingsFault.cause

theorem ofLayers_map_ok (layers : List Table) :
    ofLayers (layers.map .ok) = ofTable (stack layers) := by
  have hMap : (layers.map Except.ok).mapM id = (.ok layers : Except SettingsFault _) := by
    rw [mapM_eq_ok_iff, List.forall₂_map_left_iff]
    exact List.forall₂_same.mpr fun _ _ => rfl
  rw [ofLayers, hMap]
  rfl

theorem settled_written (hPairs : ∀ p ∈ pairs, PlainKey p.1) :
    settled tables (written pairs) =
      (ofTable (stack (tables ++ layersOf pairs))).mapError SettingsFault.cause := by
  rw [← ofLayers_map_ok, List.map_append, settled, assignments_written hPairs]
  rfl

theorem settled_of_refused {bad : String}
    (h : sets.find? (fun set => '=' ∉ set.toList) = some bad) :
    settled tables sets =
      .error (.other ("--set arguments must be in key=value form, found `" ++ bad ++ "`")) := by
  rw [settled, assignments_eq_error h]
  rfl

/-- A file stands at a path and is read as a table. -/
def HoldsTable (s : Store) (path : String) (t : Table) : Prop :=
  s.kind? path = some .file ∧ ∃ contents text, s.read path = .ok contents ∧
    String.fromUTF8? contents = some text ∧ parse? text = some t

/-- The tables of the project's own file and of a file given by name. The own file is looked for
in the working directory and upwards and may be found nowhere; one that is given must be there. -/
structure Provided (s : Store) (projectDir : String) (explicit : Option String)
    (own given : Option Table) : Prop where
  tree : s.WellFormed
  home : s.get? s.current = some .directory
  own : Option.Rel (fun dir => HoldsTable (s.seenFrom dir) (Path.join projectDir fileName))
    (s.nearest? (Path.join projectDir fileName)) own
  given : Option.Rel (HoldsTable s) explicit given

theorem HoldsTable.ne_empty {path : String} {t : Table} (h : HoldsTable s path t) : path ≠ "" := by
  rintro rfl
  cases h.1

theorem HoldsTable.unique {path : String} {t t' : Table} (h : HoldsTable s path t)
    (h' : HoldsTable s path t') : t = t' := by
  obtain ⟨-, contents, text, hRead, hText, hTable⟩ := h
  obtain ⟨-, contents', text', hRead', hText', hTable'⟩ := h'
  obtain rfl := Except.ok.inj (hRead.symm.trans hRead')
  obtain rfl := Option.some.inj (hText.symm.trans hText')
  exact Option.some.inj (hTable.symm.trans hTable')

/-- Where the project's own file is in its place, that is what the search finds. -/
theorem Provided.own_eq (h : Provided s projectDir explicit own given) {t : Table}
    (hTable : HoldsTable s (Path.join projectDir fileName) t) : own = some t := by
  have hOwn := h.own
  rw [Store.nearest?_of_kind? hTable.1] at hOwn
  cases hOwn with
  | some hFound => exact congrArg some (HoldsTable.unique hFound hTable)

theorem HoldsTable.reports_fileLayer {path : String} {t : Table} (h : HoldsTable s path t) :
    Job.Reports (fileLayer path) s [] (.ok [.ok t]) := by
  obtain ⟨-, contents, text, hRead, hText, hTable⟩ := h
  have hAnswer : Job.Reports (Job.readText path) s [] (.ok (.ok text)) := by
    have hAsk : Job.Reports (Job.ask (.read path)) s [] (.ok (.ok contents)) :=
      congrArg (fun answer => (Traced.mk [] (.ok answer), s)) hRead
    refine hAsk.bind ?_
    simp only [hText]
    rfl
  refine hAnswer.bind ?_
  simp only [document, hTable]
  rfl

/-- What is noted while settings are loaded. -/
def loadNotes (projectDir : String) (explicit : Option String) : Journal :=
  (Path.join projectDir fileName :: explicit.toList).map fun file =>
    .note .info ("Loading config from " ++ file)

theorem reports_searchedLayer (hs : s.WellFormed) (hHome : s.get? s.current = some .directory)
    {path : String} (hPath : path ≠ "") {found : Option Table}
    (h : Option.Rel (fun dir => HoldsTable (s.seenFrom dir) path) (s.nearest? path) found) :
    Job.Reports (searchedLayer path) s [] (.ok (found.toList.map .ok)) := by
  have hSearch := Job.reports_search? hs hHome hPath
  refine hSearch.bind ?_
  cases hNearest : s.nearest? path with
  | none =>
      rw [hNearest] at h
      cases h with
      | none => rfl
  | some dir =>
      have hDir : s.get? dir = some .directory :=
        hs.directory_of_suffix hHome ((List.mem_tails _ _).mp (List.mem_of_find?_eq_some hNearest))
      rw [hNearest] at h
      cases h with
      | some hTable =>
          refine HoldsTable.reports_fileLayer ?_
          rwa [HoldsTable, hs.kind?_seenFrom hDir hPath, hs.read_seenFrom hDir hPath]

theorem reports_loadNote (s : Store) (path : String) :
    Job.Reports (Job.note .info ("Loading config from " ++ path)) s
      [.note .info ("Loading config from " ++ path)] (.ok ()) := rfl

theorem Provided.reports_ownLayer (h : Provided s projectDir explicit own given) :
    Job.Reports (ownLayer projectDir) s
      [.note .info ("Loading config from " ++ Path.join projectDir fileName)]
      (.ok (own.toList.map .ok)) :=
  (reports_loadNote s _).bind
    (reports_searchedLayer h.tree h.home (Path.join_ne_empty projectDir (by decide)) h.own)

theorem Provided.reports_givenLayer (h : Provided s projectDir explicit own given) :
    Job.Reports (givenLayer explicit) s
      (explicit.toList.map fun file => .note .info ("Loading config from " ++ file))
      (.ok (given.toList.map .ok)) := by
  cases h.given with
  | none => rfl
  | some hTable =>
      next file t =>
        have hKind : Job.Reports (Job.isFile file) s [] (.ok true) :=
          congrArg (fun kind => (Traced.mk [] (.ok (kind == some Kind.file)), s)) hTable.1
        have hRequire : Job.Reports (Job.require true
            (.invalidFile ("Config file " ++ file ++ " does not exist"))) s [] (.ok ()) := rfl
        have hLayer : Job.Reports (searchedLayer file) s [] (.ok [.ok t]) := by
          have hFound : Option.Rel (fun dir => HoldsTable (s.seenFrom dir) file)
              (s.nearest? file) (some t) := by
            rw [Store.nearest?_of_kind? hTable.1]
            exact .some hTable
          exact reports_searchedLayer h.tree h.home hTable.ne_empty hFound
        exact hKind.bind (hRequire.bind ((reports_loadNote s file).bind hLayer))

theorem reports_settled (tables : List Table) (sets : List String) :
    Job.Reports (do
      let setLayers ← Job.lift (assignments sets)
      Job.lift ((ofLayers (tables.map .ok ++ setLayers)).mapError SettingsFault.cause)) s []
      ((settled tables sets).mapError fun cause => { cause := cause }) := by
  unfold settled
  cases assignments sets with
  | ok setLayers => exact (Job.reports_lift (.ok setLayers)).bind (Job.reports_lift _)
  | error cause => rfl

theorem Provided.reports_load (h : Provided s projectDir explicit own given) (sets : List String) :
    Job.Reports (load projectDir explicit sets) s (loadNotes projectDir explicit)
      ((settled (own.toList ++ given.toList) sets).mapError fun cause => { cause := cause }) := by
  have hSettled := reports_settled (s := s) (own.toList ++ given.toList) sets
  rw [List.map_append] at hSettled
  have hNotes : loadNotes projectDir explicit =
      [.note .info ("Loading config from " ++ Path.join projectDir fileName)] ++
        (explicit.toList.map (fun file => .note .info ("Loading config from " ++ file)) ++
          []) := by
    simp [loadNotes]
  rw [hNotes]
  exact h.reports_ownLayer.bind (h.reports_givenLayer.bind hSettled)

/-- All layers, the lowest first. -/
def allLayers (own given : Option Table) (pairs : Pairs) : List Table :=
  own.toList ++ given.toList ++ layersOf pairs

theorem HoldsTable.distinct {path : String} {t : Table} (h : HoldsTable s path t) : Distinct t := by
  obtain ⟨-, contents, text, -, -, hTable⟩ := h
  exact distinct_of_parse? hTable

theorem Provided.distinct (h : Provided s projectDir explicit own given) {t : Table}
    (ht : t ∈ allLayers own given pairs) : Distinct t := by
  rw [allLayers, List.append_assoc, List.mem_append, List.mem_append] at ht
  rcases ht with hOwn | hGiven | hSet
  · obtain rfl := Option.mem_toList.mp hOwn
    have hFound := h.own
    generalize s.nearest? (Path.join projectDir fileName) = nearest at hFound
    cases hFound with
    | some hTable => exact hTable.distinct
  · obtain rfl := Option.mem_toList.mp hGiven
    cases h.given with
    | some hTable => exact hTable.distinct
  · exact distinct_of_mem_layersOf hSet

/-- Only what each key says last decides how the loading runs. -/
theorem Provided.run_load_congr {s' : Store} {own' given' : Option Table}
    (h : Provided s projectDir explicit own given)
    (h' : Provided s' projectDir explicit own' given')
    (hPairs : ∀ p ∈ pairs, PlainKey p.1) (hPairs' : ∀ p ∈ pairs', PlainKey p.1)
    (hLast : ∀ key ∈ keys, lastDefined (allLayers own' given' pairs') key =
      lastDefined (allLayers own given pairs) key) :
    ((load projectDir explicit (written pairs')).run s').1 =
      ((load projectDir explicit (written pairs)).run s).1 := by
  have hSame : ofTable (stack (allLayers own' given' pairs')) =
      ofTable (stack (allLayers own given pairs)) :=
    ofTable_stack_congr (fun t => h'.distinct) (fun t => h.distinct) hLast
  rw [h.reports_load, h'.reports_load, settled_written hPairs, settled_written hPairs']
  exact congrArg (fun result => Traced.mk (loadNotes projectDir explicit)
    ((Except.mapError SettingsFault.cause result).mapError fun cause => { cause := cause })) hSame

/-- The outcome of loading, by the table of all layers. -/
theorem Provided.outcome_load (h : Provided s projectDir explicit own given)
    (hPairs : ∀ p ∈ pairs, PlainKey p.1) :
    ((load projectDir explicit (written pairs)).run s).1.outcome =
      (ofTable (stack (allLayers own given pairs))).mapError fun fault =>
        { cause := fault.cause } := by
  rw [h.reports_load, settled_written hPairs, ← allLayers]
  cases ofTable (stack (allLayers own given pairs)) with
  | ok settings => rfl
  | error fault => rfl

/-- Every setting is what the last layer says that has its key, the assignments from left to right
behind the files and the defaults below all: so an assignment that is made again later changes
nothing, assignments of different keys can change places, and what cannot be read is no error
where a later layer says something else. The lowest file is the project's own wherever there is
one, and else the nearest that a search upwards finds in its place. The first assignment without
an equals sign is an error. -/
theorem last_layer_decides (h : Provided s projectDir explicit own given)
    (hPairs : ∀ p ∈ pairs, PlainKey p.1) :
    (∀ t, HoldsTable s (Path.join projectDir fileName) t → own = some t) ∧
    (∀ settings, ((load projectDir explicit (written pairs)).run s).1.outcome = .ok settings ↔
      Chosen (allLayers own given pairs) settings) ∧
    (∀ e, ((load projectDir explicit (written pairs)).run s).1.outcome = .error e →
      ∃ key, e = { cause := (SettingsFault.badValue key).cause } ∧
        Refused (allLayers own given pairs) key) ∧
    (load projectDir explicit (written (unshadowed pairs))).run s =
      (load projectDir explicit (written pairs)).run s ∧
    (∀ before p q after, pairs = before ++ p :: q :: after → p.1 ≠ q.1 →
      (load projectDir explicit (written (before ++ q :: p :: after))).run s =
        (load projectDir explicit (written pairs)).run s) ∧
    (∀ s' own' given' pairs', Provided s' projectDir explicit own' given' →
      (∀ p ∈ pairs', PlainKey p.1) →
      (∀ key ∈ keys, lastDefined (allLayers own' given' pairs') key =
        lastDefined (allLayers own given pairs) key) →
      ((load projectDir explicit (written pairs')).run s').1 =
        ((load projectDir explicit (written pairs)).run s).1) ∧
    ∀ sets bad, sets.find? (fun set => '=' ∉ set.toList) = some bad →
      (load projectDir explicit sets).run s = (⟨loadNotes projectDir explicit, .error
        { cause := .other ("--set arguments must be in key=value form, found `" ++ bad ++ "`") }⟩,
        s) := by
  -- A list of assignments that says the same in the end runs in the same way on this tree.
  have hSame (pairs' : Pairs) (hPairs' : ∀ p ∈ pairs', PlainKey p.1)
      (hLast : ∀ key, lastDefined (layersOf pairs') key = lastDefined (layersOf pairs) key) :
      (load projectDir explicit (written pairs')).run s =
        (load projectDir explicit (written pairs)).run s := by
    refine Prod.ext (h.run_load_congr h hPairs hPairs' fun key _ => ?_) ?_
    · simp only [allLayers, lastDefined_append, hLast]
    · rw [h.reports_load, h.reports_load]
  refine ⟨fun t hTable => h.own_eq hTable, fun settings => ?_, fun e he => ?_, ?_,
    fun before p q after hSplit hKeys => ?_,
    fun s' own' given' pairs' h' hPairs' hLast => h.run_load_congr h' hPairs hPairs' hLast,
    fun sets bad hBad => ?_⟩
  · rw [h.outcome_load hPairs, mapError_eq_ok_iff]
    exact ofTable_stack_eq_ok_iff fun t => h.distinct
  · rw [h.outcome_load hPairs] at he
    cases hTable : ofTable (stack (allLayers own given pairs)) with
    | ok settings =>
        rw [hTable] at he
        cases he
    | error fault =>
        rw [hTable] at he
        cases he
        obtain ⟨key, rfl, hKey⟩ := refused_of_ofTable_stack (fun t => h.distinct) hTable
        exact ⟨key, rfl, hKey⟩
  · exact hSame _ (fun p hp => hPairs p ((unshadowed_sublist pairs).subset hp))
      (lastDefined_unshadowed pairs)
  · subst hSplit
    refine hSame _ (fun r hr => hPairs r ?_) (lastDefined_swap (Ne.symm hKeys) before after)
    simp only [List.mem_append, List.mem_cons] at hr ⊢
    tauto
  · have hRun := h.reports_load sets
    rwa [settled_of_refused hBad] at hRun

/-- Neither of these can be a setting. -/
def quarrelOwn : String := "includes = 7\nindent = true\n"

def quarrelGiven : String := "includes = [\"a.h\"]\nruntime_dir = \"rt\"\n"

def quarrelOuter : String := "indent = 2\nincludes = [\"b.h\"]\n"

/-- A project whose own settings are no settings, a file that leaves one of them, and a project of
the same name further up. -/
def quarrel : Store :=
  { current := ["work"]
    entries :=
      [(["work"], .directory), (["p", "work"], .directory),
        (["vulsim.toml", "p", "work"], .file quarrelOwn.toUTF8),
        (["mine.toml", "work"], .file quarrelGiven.toUTF8),
        (["p"], .directory), (["vulsim.toml", "p"], .file quarrelOuter.toUTF8)] }

def quarrelSets : Pairs := [("indent", "many"), ("runtime_dir", "a=b"), ("indent", "8")]

theorem provided_quarrel :
    Provided quarrel "p" (some "mine.toml") (parse? quarrelOwn) (parse? quarrelGiven) := by
  obtain ⟨own, hOwn⟩ := Option.isSome_iff_exists.mp
    (show (parse? quarrelOwn).isSome = true by decide +kernel)
  obtain ⟨given, hGiven⟩ := Option.isSome_iff_exists.mp
    (show (parse? quarrelGiven).isSome = true by decide +kernel)
  have hNearest : quarrel.nearest? (Path.join "p" fileName) = some ["work"] := by decide +kernel
  rw [hOwn, hGiven]
  refine ⟨by decide +kernel, rfl, ?_, ?_⟩
  · rw [hNearest]
    exact .some ⟨by decide +kernel, _, quarrelOwn, rfl, by decide +kernel, hOwn⟩
  · exact .some ⟨by decide +kernel, _, quarrelGiven, rfl, by decide +kernel, hGiven⟩

/-- Without its own file the project gets the settings of the other one. -/
theorem provided_quarrel_remove :
    Provided (quarrel.remove "p/vulsim.toml") "p" none (parse? quarrelOuter) none := by
  obtain ⟨outer, hOuter⟩ := Option.isSome_iff_exists.mp
    (show (parse? quarrelOuter).isSome = true by decide +kernel)
  have hNearest : (quarrel.remove "p/vulsim.toml").nearest? (Path.join "p" fileName) = some [] := by
    decide +kernel
  rw [hOuter]
  refine ⟨Store.WellFormed.remove (by decide +kernel) _, rfl, ?_, .none⟩
  rw [hNearest]
  exact .some ⟨by decide +kernel, _, quarrelOuter, rfl, by decide +kernel, hOuter⟩

theorem quarrel_settled :
    Provided quarrel "p" (some "mine.toml") (parse? quarrelOwn) (parse? quarrelGiven) ∧
    (∀ p ∈ quarrelSets, PlainKey p.1) ∧
    Chosen (allLayers (parse? quarrelOwn) (parse? quarrelGiven) quarrelSets)
      { indent := 8, includes := ["a.h"], runtimeDir := some "a=b" } ∧
    (load "p" (some "mine.toml") ["runtime_dir=a=b", "indent=8"]).run quarrel =
      (load "p" (some "mine.toml") ["indent=many", "runtime_dir=a=b", "indent=8"]).run quarrel ∧
    Provided (quarrel.remove "p/vulsim.toml") "p" none (parse? quarrelOuter) none ∧
    Chosen (allLayers (parse? quarrelOuter) none []) { indent := 2, includes := ["b.h"] } := by
  have hPlain : ∀ p ∈ quarrelSets, PlainKey p.1 := by decide +kernel
  obtain ⟨-, hChosen, -, hUnshadowed, -⟩ := last_layer_decides provided_quarrel hPlain
  have hNone : ∀ p ∈ ([] : Pairs), PlainKey p.1 := by simp
  obtain ⟨-, hOuter, -⟩ := last_layer_decides provided_quarrel_remove hNone
  exact ⟨provided_quarrel, hPlain, (hChosen _).mp (by decide +kernel), hUnshadowed,
    provided_quarrel_remove, (hOuter _).mp (by decide +kernel)⟩

end loading

end Simgen.Settings
