import Simgen.Files.Listing
import Simgen.Proofs.Files.Store
import Simgen.Proofs.Journal

/-! Running jobs on a stored tree, part by part: how a sequence ends is told by how its
parts end, and a job that only looks leaves the tree as it is. -/
namespace Simgen.Files.Job

variable {α β : Type} {s s' : Store}

/-- The job ends with the outcome `r` and leaves the tree `s'`. -/
def Ends (t : Job α) (s : Store) (r : Except Error α) (s' : Store) : Prop :=
  (t.run s).1.outcome = r ∧ (t.run s).2 = s'

theorem run_bind (t : Job α) (f : α → Job β) (s : Store) :
    (t >>= f).run s = Program.run (t.run s).2 (resume f (t.run s).1) :=
  Program.run_bind t (resume f) s

theorem run_resume_ok (f : α → Job β) (journal : Journal) (a : α) (s : Store) :
    Program.run s (resume f ⟨journal, .ok a⟩) =
      (⟨journal ++ ((f a).run s).1.journal, ((f a).run s).1.outcome⟩, ((f a).run s).2) :=
  Program.run_bind (f a) _ s

theorem run_bind_of_ok {t : Job α} {a : α} (h : (t.run s).1.outcome = .ok a) (f : α → Job β) :
    ((t >>= f).run s).1.outcome = ((f a).run (t.run s).2).1.outcome ∧
      ((t >>= f).run s).2 = ((f a).run (t.run s).2).2 := by
  rw [run_bind]
  generalize t.run s = first at h ⊢
  obtain ⟨⟨journal, outcome⟩, middle⟩ := first
  cases h
  rw [run_resume_ok]
  exact ⟨rfl, rfl⟩

theorem run_bind_of_error {t : Job α} {e : Error} (h : (t.run s).1.outcome = .error e)
    (f : α → Job β) :
    ((t >>= f).run s).1.outcome = .error e ∧ ((t >>= f).run s).2 = (t.run s).2 := by
  rw [run_bind]
  generalize t.run s = first at h ⊢
  obtain ⟨⟨journal, outcome⟩, middle⟩ := first
  cases h
  exact ⟨rfl, rfl⟩

/-- Behind a part that succeeds, a sequence ends as the rest of it does. -/
theorem ends_bind_iff_of_ok {t : Job α} {a : α} {middle : Store} (h : Ends t s (.ok a) middle)
    {f : α → Job β} {r : Except Error β} :
    Ends (t >>= f) s r s' ↔ Ends (f a) middle r s' := by
  obtain ⟨hFirst, rfl⟩ := h
  obtain ⟨hNext, hLeft⟩ := run_bind_of_ok hFirst f
  rw [Ends, Ends, hNext, hLeft]

theorem ends_bind_ok_iff {t : Job α} {f : α → Job β} {b : β} :
    Ends (t >>= f) s (.ok b) s' ↔
      ∃ a middle, Ends t s (.ok a) middle ∧ Ends (f a) middle (.ok b) s' := by
  constructor
  · rintro ⟨hOutcome, hStore⟩
    cases hFirst : (t.run s).1.outcome with
    | error e =>
        rw [(run_bind_of_error hFirst f).1] at hOutcome
        cases hOutcome
    | ok a =>
        exact ⟨a, _, ⟨hFirst, rfl⟩, (ends_bind_iff_of_ok ⟨hFirst, rfl⟩).mp ⟨hOutcome, hStore⟩⟩
  · rintro ⟨a, middle, hFirst, hRest⟩
    exact (ends_bind_iff_of_ok hFirst).mpr hRest

theorem ends_bind_error_iff {t : Job α} {f : α → Job β} {e : Error} :
    Ends (t >>= f) s (.error e) s' ↔ Ends t s (.error e) s' ∨
      ∃ a middle, Ends t s (.ok a) middle ∧ Ends (f a) middle (.error e) s' := by
  constructor
  · rintro ⟨hOutcome, hStore⟩
    cases hFirst : (t.run s).1.outcome with
    | error other =>
        obtain ⟨hNext, hLeft⟩ := run_bind_of_error hFirst f
        cases hNext.symm.trans hOutcome
        exact Or.inl ⟨hFirst, hLeft.symm.trans hStore⟩
    | ok a =>
        exact Or.inr
          ⟨a, _, ⟨hFirst, rfl⟩, (ends_bind_iff_of_ok ⟨hFirst, rfl⟩).mp ⟨hOutcome, hStore⟩⟩
  · rintro (⟨hFirst, rfl⟩ | ⟨a, middle, hFirst, hRest⟩)
    · exact run_bind_of_error hFirst f
    · exact (ends_bind_iff_of_ok hFirst).mpr hRest

section parts

variable {r : Except Error α}

@[simp] theorem ends_ofTraced_iff {x : Traced α} :
    Ends (ofTraced x) s r s' ↔ x.outcome = r ∧ s = s' := Iff.rfl

@[simp] theorem ends_pure_iff {a : α} : Ends (pure a) s r s' ↔ .ok a = r ∧ s = s' := Iff.rfl

@[simp] theorem ends_note_iff {level : Level} {text : String} {r : Except Error Unit} :
    Ends (note level text) s r s' ↔ .ok () = r ∧ s = s' := Iff.rfl

@[simp] theorem ends_warn_iff {w : Warning} {r : Except Error Unit} :
    Ends (warn w) s r s' ↔ .ok () = r ∧ s = s' := Iff.rfl

@[simp] theorem ends_ask_iff {q : Query} {r : Except Error q.Answer} :
    Ends (ask q) s r s' ↔ .ok (s.answer q).1 = r ∧ (s.answer q).2 = s' := Iff.rfl

@[simp] theorem ends_check_iff {answer : Except OsError α} {cause : OsError → Cause} :
    Ends (check answer cause) s r s' ↔
      answer.mapError (fun e => { cause := cause e }) = r ∧ s = s' := by
  cases answer with
  | error e => exact Iff.rfl
  | ok a => exact Iff.rfl

@[simp] theorem ends_require_iff {condition : Bool} {cause : Cause} {r : Except Error Unit} :
    Ends (require condition cause) s r s' ↔
      (if condition then .ok () else .error { cause := cause }) = r ∧ s = s' := by
  cases condition with
  | false => exact Iff.rfl
  | true => exact Iff.rfl

@[simp] theorem ends_isDirectory_iff {path : String} {r : Except Error Bool} :
    Ends (isDirectory path) s r s' ↔ .ok (s.kind? path == some .directory) = r ∧ s = s' := Iff.rfl

@[simp] theorem ends_isFile_iff {path : String} {r : Except Error Bool} :
    Ends (isFile path) s r s' ↔ .ok (s.kind? path == some .file) = r ∧ s = s' := Iff.rfl

end parts

theorem exists_ends_of_mem_mapM {f : α → Job β} {items : List α} {results : List β}
    (h : Ends (items.mapM f) s (.ok results) s') {b : β} (hb : b ∈ results) :
    ∃ a ∈ items, ∃ before after, Ends (f a) before (.ok b) after := by
  induction items generalizing s s' results with
  | nil =>
      cases (ends_pure_iff.mp h).1
      cases hb
  | cons item items ih =>
      rw [List.mapM_cons] at h
      obtain ⟨first, middle, hFirst, h⟩ := ends_bind_ok_iff.mp h
      obtain ⟨rest, last, hRest, h⟩ := ends_bind_ok_iff.mp h
      cases (ends_pure_iff.mp h).1
      rcases List.mem_cons.mp hb with rfl | hb
      · exact ⟨item, List.mem_cons_self, s, middle, hFirst⟩
      · obtain ⟨a, ha, hEnds⟩ := ih hRest hb
        exact ⟨a, List.mem_cons_of_mem _ ha, hEnds⟩

/-- The job writes a journal and ends with an outcome, and leaves the tree as it is. -/
def Reports (t : Job α) (s : Store) (journal : Journal) (r : Except Error α) : Prop :=
  t.run s = (⟨journal, r⟩, s)

theorem Reports.bind {t : Job α} {f : α → Job β} {first second : Journal} {a : α}
    {r : Except Error β} (ht : Reports t s first (.ok a)) (hf : Reports (f a) s second r) :
    Reports (t >>= f) s (first ++ second) r := by
  rw [Reports, run_bind, ht, run_resume_ok, hf]

theorem reports_lift (result : Except Cause α) :
    Reports (lift result) s [] (result.mapError fun cause => { cause := cause }) := by
  cases result with
  | ok a => rfl
  | error cause => rfl

/-- Behind a part that notes nothing, a sequence runs as the rest of it does. -/
theorem Reports.run_bind {t : Job α} {a : α} (h : Reports t s [] (.ok a)) (f : α → Job β) :
    (t >>= f).run s = (f a).run s := by
  rw [Job.run_bind, h, run_resume_ok]
  rfl

theorem Reports.ends {t : Job α} {journal : Journal} {r : Except Error α}
    (h : Reports t s journal r) : Ends t s r s := by
  rw [Ends, h]
  exact ⟨rfl, rfl⟩

/-- The job changes nothing, on whatever tree it runs. -/
def Observes (t : Job α) : Prop := ∀ s, (t.run s).2 = s

theorem Observes.eq {t : Job α} (h : Observes t) {r : Except Error α} (hEnds : Ends t s r s') :
    s' = s := hEnds.2.symm.trans (h s)

theorem Observes.bind {t : Job α} {f : α → Job β} (ht : Observes t) (hf : ∀ a, Observes (f a)) :
    Observes (t >>= f) := by
  intro s
  cases hFirst : (t.run s).1.outcome with
  | error e => rw [(run_bind_of_error hFirst f).2, ht]
  | ok a => rw [(run_bind_of_ok hFirst f).2, hf, ht]

/-- Two sequences whose parts run in the same way run in the same way. -/
theorem run_bind_congr {t t' : Job α} {f f' : α → Job β} (ht : Observes t')
    (hFirst : t.run s = t'.run s) (hRest : ∀ a, (f a).run s = (f' a).run s) :
    (t >>= f).run s = (t' >>= f').run s := by
  rw [run_bind, run_bind, hFirst, ht s]
  generalize (t'.run s).1 = first
  obtain ⟨journal, outcome⟩ := first
  cases outcome with
  | error e => rfl
  | ok a => rw [run_resume_ok, run_resume_ok, hRest a]

theorem observes_ofTraced (x : Traced α) : Observes (ofTraced x) := fun _ => rfl

theorem observes_pure (a : α) : Observes (pure a : Job α) := fun _ => rfl

theorem observes_note (level : Level) (text : String) : Observes (note level text) := fun _ => rfl

theorem observes_warn (w : Warning) : Observes (warn w) := fun _ => rfl

theorem observes_check (answer : Except OsError α) (cause : OsError → Cause) :
    Observes (check answer cause) := by
  cases answer with
  | error e => exact fun _ => rfl
  | ok a => exact fun _ => rfl

theorem observes_require (condition : Bool) (cause : Cause) :
    Observes (require condition cause) := by
  cases condition with
  | false => exact fun _ => rfl
  | true => exact fun _ => rfl

theorem observes_list (path : String) : Observes (ask (.list path)) := fun _ => rfl

theorem observes_isDirectory (path : String) : Observes (isDirectory path) := fun _ => rfl

theorem observes_isFile (path : String) : Observes (isFile path) := fun _ => rfl

theorem observes_readText (path : String) : Observes (readText path) := by
  have hRead : Observes (ask (.read path)) := fun _ => rfl
  refine hRead.bind fun answer => ?_
  cases answer with
  | error e => exact observes_pure _
  | ok contents => exact observes_pure _

theorem observes_mapM {f : α → Job β} (hf : ∀ a, Observes (f a)) (items : List α) :
    Observes (items.mapM f) := by
  induction items with
  | nil => exact observes_pure []
  | cons item items ih =>
      rw [List.mapM_cons]
      exact (hf item).bind fun b => ih.bind fun bs => observes_pure (b :: bs)

theorem observes_forM {f : α → Job Unit} (hf : ∀ a, Observes (f a)) (items : List α) :
    Observes (items.forM f) := by
  induction items with
  | nil => exact observes_pure ()
  | cons item items ih => exact (hf item).bind fun _ => ih

/-- Those names are kept at which a file stands. -/
theorem reports_keepFiles (s : Store) (dir : String) (names : List String) :
    Reports (keepFiles dir names) s []
      (.ok (names.filter fun name => s.kind? (Path.join dir name) == some .file)) := by
  induction names with
  | nil => rfl
  | cons name names ih =>
      have hKind : Reports (isFile (Path.join dir name)) s []
          (.ok (s.kind? (Path.join dir name) == some .file)) := rfl
      have hKept : Reports (pure (if s.kind? (Path.join dir name) == some .file then
          name :: names.filter fun name => s.kind? (Path.join dir name) == some .file
          else names.filter fun name => s.kind? (Path.join dir name) == some .file)) s []
          (.ok ((name :: names).filter fun name =>
            s.kind? (Path.join dir name) == some .file)) := by
        rw [List.filter_cons]
        rfl
      exact hKind.bind (ih.bind hKept)

theorem observes_keepFiles (dir : String) (names : List String) : Observes (keepFiles dir names) :=
  fun s => (reports_keepFiles s dir names).ends.2

/-- The files of a directory that can be listed. -/
theorem reports_filesIn {dir : String} {names : List String} (h : s.list dir = .ok names)
    (accepts : String → Bool) :
    Reports (filesIn dir accepts) s []
      (.ok ((Ident.sort (names.filter fun name => (Path.extension? name).any accepts)).filter
        fun name => s.kind? (Path.join dir name) == some .file)) := by
  have hAsk : Reports (ask (.list dir)) s [] (.ok (.ok names)) :=
    congrArg (fun answer => (Traced.mk [] (.ok answer), s)) h
  have hCheck : Reports (check (.ok names) fun e =>
      .invalidFile ("Failed to list " ++ dir ++ ": " ++ e.message)) s [] (.ok names) := rfl
  exact hAsk.bind (hCheck.bind (reports_keepFiles s dir _))

theorem ends_filesIn {dir : String} {names : List String} (h : s.list dir = .ok names)
    (accepts : String → Bool) :
    Ends (filesIn dir accepts) s
      (.ok ((Ident.sort (names.filter fun name => (Path.extension? name).any accepts)).filter
        fun name => s.kind? (Path.join dir name) == some .file)) s :=
  (reports_filesIn h accepts).ends

theorem observes_filesIn (dir : String) (accepts : String → Bool) :
    Observes (filesIn dir accepts) :=
  (observes_list dir).bind fun _ => (observes_check _ _).bind fun _ => observes_keepFiles dir _

end Simgen.Files.Job
