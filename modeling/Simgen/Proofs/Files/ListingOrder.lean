import Simgen.Proofs.Files.Job
import Simgen.Proofs.Text.ByteOrder

/-! Listings in any order. An operating system may list the names in a directory as it likes, and
differently each time. A job is blind to that if it ends in the same way, with the same journal and
the same tree, whatever orders it comes upon. -/
namespace Simgen.Files

/-- Two answers to a query that differ at most in the order of the names in a directory. -/
inductive Reordered : (q : Query) → q.Answer → q.Answer → Prop where
  | same (q : Query) (answer : q.Answer) : Reordered q answer answer
  | listed {path : String} {names names' : List String} (h : names'.Perm names) :
      Reordered (.list path) (.ok names) (.ok names')

theorem Reordered.eq_of_ne_list {q : Query} {answer answer' : q.Answer}
    (h : Reordered q answer answer') (hq : ∀ path, q ≠ .list path) : answer' = answer := by
  cases h with
  | same => rfl
  | listed => exact absurd rfl (hq _)

theorem Reordered.list_cases {path : String} {answer answer' : Except OsError (List String)}
    (h : Reordered (.list path) answer answer') :
    answer' = answer ∨ ∃ names names', answer = .ok names ∧ answer' = .ok names' ∧
      names'.Perm names := by
  cases h with
  | same => exact Or.inl rfl
  | listed hPerm => exact Or.inr ⟨_, _, rfl, rfl, hPerm⟩

/-- A run of a program on a stored tree, in which each listing comes in some order. -/
inductive RunsTo {α : Type} : Store → Program α → α → Store → Prop where
  | done (s : Store) (a : α) : RunsTo s (.done a) a s
  | query {s s' : Store} {q : Query} {next : q.Answer → Program α} {answer : q.Answer} {result : α}
      (hAnswer : Reordered q (s.answer q).1 answer)
      (hNext : RunsTo (s.answer q).2 (next answer) result s') :
      RunsTo s (.query q next) result s'

section programs

variable {α β : Type} {s s' : Store}

/-- One of the runs is that in which the tree lists the names in its own order. -/
theorem runsTo_run (p : Program α) (s : Store) : RunsTo s p (p.run s).1 (p.run s).2 := by
  induction p generalizing s with
  | done a => exact .done s a
  | query q next ih => exact .query (.same q _) (ih (s.answer q).1 (s.answer q).2)

theorem runsTo_bind {p : Program α} {f : α → Program β} {b : β} (h : RunsTo s (p.bind f) b s') :
    ∃ a middle, RunsTo s p a middle ∧ RunsTo middle (f a) b s' := by
  induction p generalizing s with
  | done a => exact ⟨a, s, .done s a, h⟩
  | query q next ih =>
      cases h with
      | query hAnswer hNext =>
          obtain ⟨a, middle, hFirst, hRest⟩ := ih _ hNext
          exact ⟨a, middle, .query hAnswer hFirst, hRest⟩

end programs

namespace Job

variable {α β : Type} {s : Store}

/-- The job does not notice in which order directories are listed. -/
def OrderBlind (t : Job α) : Prop := ∀ s result s', RunsTo s t result s' → t.run s = (result, s')

theorem OrderBlind.runsTo_iff {t : Job α} (h : OrderBlind t) {result : Traced α} {s' : Store} :
    RunsTo s t result s' ↔ t.run s = (result, s') := by
  refine ⟨h s result s', fun hRun => ?_⟩
  have hSome := runsTo_run t s
  rwa [show Program.run s t = (result, s') from hRun] at hSome

theorem orderBlind_ofTraced (x : Traced α) : OrderBlind (ofTraced x) := by
  intro s result s' h
  cases h
  rfl

theorem orderBlind_pure (a : α) : OrderBlind (pure a : Job α) := orderBlind_ofTraced (pure a)

theorem OrderBlind.resume {f : α → Job β} (hf : ∀ a, OrderBlind (f a)) (first : Traced α) :
    OrderBlind (resume f first) := by
  obtain ⟨journal, outcome⟩ := first
  intro s result s' h
  cases outcome with
  | error e =>
      cases h
      rfl
  | ok a =>
      obtain ⟨second, middle, hSecond, hDone⟩ := runsTo_bind (p := f a) h
      cases hDone
      have hRun := run_resume_ok f journal a s
      rwa [hf a s second s' hSecond] at hRun

theorem OrderBlind.bind {t : Job α} {f : α → Job β} (ht : OrderBlind t)
    (hf : ∀ a, OrderBlind (f a)) : OrderBlind (t >>= f) := by
  intro s result s' h
  obtain ⟨first, middle, hFirst, hRest⟩ := runsTo_bind (p := t) h
  rw [run_bind, ht s first middle hFirst]
  exact OrderBlind.resume hf first middle result s' hRest

theorem orderBlind_note (level : Level) (text : String) : OrderBlind (note level text) :=
  orderBlind_ofTraced _

theorem orderBlind_warn (w : Warning) : OrderBlind (warn w) := orderBlind_ofTraced _

theorem orderBlind_check (answer : Except OsError α) (cause : OsError → Cause) :
    OrderBlind (check answer cause) := by
  cases answer with
  | error e => exact orderBlind_ofTraced _
  | ok a => exact orderBlind_pure a

theorem orderBlind_require (condition : Bool) (cause : Cause) :
    OrderBlind (require condition cause) := by
  cases condition with
  | false => exact orderBlind_ofTraced _
  | true => exact orderBlind_pure ()

theorem check_ok (a : α) (cause : OsError → Cause) : check (.ok a) cause = pure a := rfl

/-- Only listings can come in another order. -/
theorem orderBlind_ask {q : Query} (hq : ∀ path, q ≠ .list path) : OrderBlind (ask q) := by
  intro s result s' h
  cases h with
  | query hAnswer hNext =>
      cases hAnswer.eq_of_ne_list hq
      cases hNext
      rfl

theorem orderBlind_kind (path : String) : OrderBlind (ask (.kind path)) :=
  orderBlind_ask (by rintro _ ⟨⟩)

theorem orderBlind_createDirectories (path : String) : OrderBlind (ask (.createDirectories path)) :=
  orderBlind_ask (by rintro _ ⟨⟩)

theorem orderBlind_isDirectory (path : String) : OrderBlind (isDirectory path) :=
  (orderBlind_kind path).bind fun _ => orderBlind_pure _

theorem orderBlind_isFile (path : String) : OrderBlind (isFile path) :=
  (orderBlind_kind path).bind fun _ => orderBlind_pure _

theorem orderBlind_readText (path : String) : OrderBlind (readText path) := by
  have hRead : OrderBlind (ask (.read path)) := orderBlind_ask (by rintro _ ⟨⟩)
  refine hRead.bind fun answer => ?_
  cases answer with
  | error e => exact orderBlind_pure _
  | ok contents => exact orderBlind_pure _

theorem orderBlind_mapM {f : α → Job β} (hf : ∀ a, OrderBlind (f a)) (items : List α) :
    OrderBlind (items.mapM f) := by
  induction items with
  | nil => exact orderBlind_pure []
  | cons item items ih =>
      rw [List.mapM_cons]
      exact (hf item).bind fun b => ih.bind fun bs => orderBlind_pure (b :: bs)

theorem orderBlind_forM {f : α → Job Unit} (hf : ∀ a, OrderBlind (f a)) (items : List α) :
    OrderBlind (items.forM f) := by
  induction items with
  | nil => exact orderBlind_pure ()
  | cons item items ih => exact (hf item).bind fun _ => ih

/-- A job that lists a directory and goes on in the same way whatever the order of the names. -/
theorem orderBlind_list {path : String} {f : Except OsError (List String) → Job β}
    (hSame : ∀ names names' : List String, names'.Perm names → f (.ok names') = f (.ok names))
    (hf : ∀ answer, OrderBlind (f answer)) : OrderBlind (ask (.list path) >>= f) := by
  intro s result s' h
  cases h with
  | query hAnswer hNext =>
      next answer =>
        have hAnswered : f answer = f (s.list path) := by
          rcases hAnswer.list_cases with hEq | ⟨names, names', hNames, hNames', hPerm⟩
          · rw [hEq]
            rfl
          · rw [hNames', hSame names names' hPerm, ← hNames]
            rfl
        have hResume : Job.resume f (pure answer) = Job.resume f (pure (s.list path)) :=
          congrArg (fun job : Job β => Program.bind job fun second =>
            .done (Traced.mk ([] ++ second.journal) second.outcome)) hAnswered
        have hRun := OrderBlind.resume hf (pure answer) s result s' hNext
        rw [hResume] at hRun
        exact hRun

theorem orderBlind_keepFiles (dir : String) (names : List String) :
    OrderBlind (keepFiles dir names) := by
  induction names with
  | nil => exact orderBlind_pure []
  | cons name names ih =>
      exact (orderBlind_isFile _).bind fun isFile => ih.bind fun kept => orderBlind_pure _

theorem orderBlind_filesIn (dir : String) (accepts : String → Bool) :
    OrderBlind (filesIn dir accepts) := by
  refine orderBlind_list (fun names names' hPerm => ?_) fun answer =>
    (orderBlind_check answer _).bind fun names => orderBlind_keepFiles dir _
  have hSort : Ident.sort (names'.filter fun name => (Path.extension? name).any accepts) =
      Ident.sort (names.filter fun name => (Path.extension? name).any accepts) :=
    Ident.sort_eq_of_perm (hPerm.filter _)
  simp only [check_ok, pure_bind, hSort]

/-- The files of a directory whose extension is accepted, in byte order. -/
structure FilesOf (s : Store) (dir : String) (accepts : String → Bool) (files : List String) :
    Prop where
  perm : ∃ names, s.list dir = .ok names ∧ files.Perm (names.filter fun name =>
    (Path.extension? name).any accepts && s.kind? (Path.join dir name) == some .file)
  sorted : files.Pairwise fun a b => Text.bytes a ≤ Text.bytes b

/-- In a directory that can be listed, these files are found. -/
theorem exists_filesOf {dir : String} {names : List String} (h : s.list dir = .ok names)
    (accepts : String → Bool) :
    ∃ files, FilesOf s dir accepts files ∧ Reports (filesIn dir accepts) s [] (.ok files) := by
  refine ⟨_, ⟨⟨names, h, ?_⟩, ?_⟩, reports_filesIn h accepts⟩
  · have hPerm := (Ident.perm_sort (names.filter fun name =>
      (Path.extension? name).any accepts)).filter fun name =>
        s.kind? (Path.join dir name) == some .file
    rw [List.filter_filter] at hPerm
    simpa only [Bool.and_comm] using hPerm
  · exact (Ident.pairwise_sort _).sublist List.filter_sublist

end Job

end Simgen.Files
