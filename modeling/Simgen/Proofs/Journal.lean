import Simgen.Journal
import Mathlib.Data.List.Forall2

/-! Taking runs and checks apart: a sequence succeeds when each of its parts does, and writes what
its parts write. -/
namespace Simgen

variable {α β ε ε' : Type}

theorem bind_eq_ok_iff {x : Except ε α} {f : α → Except ε β} {b : β} :
    x >>= f = .ok b ↔ ∃ a, x = .ok a ∧ f a = .ok b := by
  cases x with
  | error e => simp [bind, Except.bind]
  | ok a => simp [bind, Except.bind]

theorem bind_eq_error_iff {x : Except ε α} {f : α → Except ε β} {e : ε} :
    x >>= f = .error e ↔ x = .error e ∨ ∃ a, x = .ok a ∧ f a = .error e := by
  cases x with
  | error e => simp [bind, Except.bind]
  | ok a => simp [bind, Except.bind]

theorem map_eq_ok_iff {x : Except ε α} {f : α → β} {b : β} :
    f <$> x = .ok b ↔ ∃ a, x = .ok a ∧ f a = b := by
  cases x with
  | error e => simp [Functor.map, Except.map]
  | ok a => simp [Functor.map, Except.map]

/-- Each item has its result. -/
theorem mapM_eq_ok_iff {f : α → Except ε β} {items : List α} {results : List β} :
    items.mapM f = .ok results ↔ List.Forall₂ (fun a b => f a = .ok b) items results := by
  induction items generalizing results with
  | nil => simp [pure, Except.pure, eq_comm]
  | cons a items ih =>
      rw [List.mapM_cons, List.forall₂_cons_left_iff]
      simp only [bind_eq_ok_iff, ih]
      constructor
      · rintro ⟨b, hHead, bs, hTail, hCons⟩
        cases hCons
        exact ⟨b, bs, hHead, hTail, rfl⟩
      · rintro ⟨b, bs, hHead, hTail, rfl⟩
        exact ⟨b, hHead, bs, hTail, rfl⟩

@[simp] theorem mapError_error (f : ε → ε') (e : ε) :
    (.error e : Except ε α).mapError f = .error (f e) := rfl

@[simp] theorem mapError_ok (f : ε → ε') (a : α) :
    (.ok a : Except ε α).mapError f = .ok a := rfl

theorem mapError_eq_ok_iff {x : Except ε α} {f : ε → ε'} {a : α} :
    x.mapError f = .ok a ↔ x = .ok a := by
  cases x with
  | error e => simp
  | ok b => simp

theorem toOption_eq_some_iff {x : Except ε α} {a : α} : x.toOption = some a ↔ x = .ok a := by
  cases x with
  | error e => simp [Except.toOption]
  | ok b => simp [Except.toOption]

theorem exists_error_of_not_ok {x : Except ε α} (h : ¬ ∃ a, x = .ok a) :
    ∃ e, x = .error e := by
  cases x with
  | error e => exact ⟨e, rfl⟩
  | ok a => exact absurd ⟨a, rfl⟩ h

namespace Journal

@[simp] theorem failures_nil : Journal.failures [] = [] := rfl

theorem failures_append (first second : Journal) :
    Journal.failures (first ++ second) = first.failures ++ second.failures :=
  List.filterMap_append

theorem warnings_map_warning (ws : List Warning) :
    Journal.warnings (ws.map .warning) = ws := by
  rw [Journal.warnings, List.filterMap_map]
  exact List.filterMap_some

theorem warnings_append (first second : Journal) :
    Journal.warnings (first ++ second) = first.warnings ++ second.warnings :=
  List.filterMap_append

/-- Nothing is warned of or recorded as failed. -/
def OnlyNotes (j : Journal) : Prop := ∀ event ∈ j, ∃ level text, event = .note level text

/-- The journal without certain events. -/
def without (odd : List Event) (j : Journal) : Journal := j.filter (· ∉ odd)

theorem OnlyNotes.append {first second : Journal} (hFirst : first.OnlyNotes)
    (hSecond : second.OnlyNotes) : Journal.OnlyNotes (first ++ second) :=
  List.forall_mem_append.mpr ⟨hFirst, hSecond⟩

theorem OnlyNotes.warnings_eq_nil {j : Journal} (h : j.OnlyNotes) : j.warnings = [] := by
  apply List.filterMap_eq_nil_iff.mpr
  intro event hEvent
  obtain ⟨level, text, rfl⟩ := h event hEvent
  rfl

theorem without_append (odd : List Event) (first second : Journal) :
    Journal.without odd (first ++ second) = first.without odd ++ second.without odd :=
  List.filter_append ..

theorem without_eq_nil {odd : List Event} {j : Journal} (h : j ⊆ odd) : j.without odd = [] := by
  apply List.filter_eq_nil_iff.mpr
  intro event hEvent
  simpa using h hEvent

end Journal

namespace Traced

@[simp] theorem outcome_ofExcept (x : Except Error α) : (ofExcept x).outcome = x := rfl

@[simp] theorem outcome_tell (events : Journal) : (tell events).outcome = .ok () := rfl

@[simp] theorem outcome_note (level : Level) (text : String) :
    (note level text).outcome = .ok () := rfl

@[simp] theorem outcome_lift (x : Except Cause α) :
    (lift x).outcome = x.mapError fun cause => { cause := cause } := rfl

@[simp] theorem outcome_blaming (file : String) (x : Traced α) :
    (x.blaming file).outcome = x.outcome.mapError (·.blaming file) := rfl

theorem outcome_bind_eq_ok_iff {x : Traced α} {f : α → Traced β} {b : β} :
    (x >>= f).outcome = .ok b ↔ ∃ a, x.outcome = .ok a ∧ (f a).outcome = .ok b := by
  rw [outcome_bind, bind_eq_ok_iff]

theorem outcome_mapM (f : α → Traced β) (items : List α) :
    (items.mapM f).outcome = items.mapM fun a => (f a).outcome := by
  induction items with
  | nil => rfl
  | cons a items ih =>
      rw [List.mapM_cons, List.mapM_cons, outcome_bind]
      simp only [outcome_bind, ih, outcome_pure]
      rfl

theorem journal_bind_of_ok {x : Traced α} {a : α} (h : x.outcome = .ok a) (f : α → Traced β) :
    (x >>= f).journal = x.journal ++ (f a).journal := by
  obtain ⟨journal, outcome⟩ := x
  subst h
  rfl

theorem journal_bind_of_error {x : Traced α} {e : Error} (h : x.outcome = .error e)
    (f : α → Traced β) : (x >>= f).journal = x.journal := by
  obtain ⟨journal, outcome⟩ := x
  subst h
  rfl

/-- The run records no failure. It may well end in one. -/
def Quiet (x : Traced α) : Prop := x.journal.failures = []

theorem quiet_pure (a : α) : (pure a : Traced α).Quiet := rfl

theorem quiet_lift (x : Except Cause α) : (lift x).Quiet := rfl

theorem quiet_note (level : Level) (text : String) : (note level text).Quiet := rfl

theorem quiet_warn (w : Warning) : (warn w).Quiet := rfl

theorem Quiet.bind {x : Traced α} {f : α → Traced β} (hx : x.Quiet) (hf : ∀ a, (f a).Quiet) :
    (x >>= f).Quiet := by
  unfold Quiet at hx ⊢
  cases h : x.outcome with
  | error e => rw [journal_bind_of_error h, hx]
  | ok a =>
      have hNext : (f a).journal.failures = [] := hf a
      rw [journal_bind_of_ok h, Journal.failures_append, hx, hNext, List.nil_append]

theorem lift_bind (x : Except Cause α) (f : α → Except Cause β) :
    lift (x >>= f) = lift x >>= fun a => lift (f a) := by
  cases x with
  | error cause => rfl
  | ok a => rfl

theorem journal_bind_lift (x : Traced α) (f : α → Except Cause β) :
    (x >>= fun a => lift (f a)).journal = x.journal := by
  cases h : x.outcome with
  | error e => exact journal_bind_of_error h _
  | ok a =>
      rw [journal_bind_of_ok h]
      exact List.append_nil _

/-- The run writes notes only. -/
def Notes (x : Traced α) : Prop := x.journal.OnlyNotes

theorem notes_of_journal_eq_nil {x : Traced α} (h : x.journal = []) : x.Notes := by
  intro event hEvent
  rw [h] at hEvent
  cases hEvent

theorem notes_pure (a : α) : (pure a : Traced α).Notes := notes_of_journal_eq_nil rfl

theorem notes_lift (x : Except Cause α) : (lift x).Notes := notes_of_journal_eq_nil rfl

theorem notes_fail (cause : Cause) : (fail cause : Traced α).Notes := notes_of_journal_eq_nil rfl

theorem notes_note (level : Level) (text : String) : (note level text).Notes := by
  intro event hEvent
  exact ⟨level, text, List.mem_singleton.mp hEvent⟩

theorem Notes.bind {x : Traced α} {f : α → Traced β} (hx : x.Notes) (hf : ∀ a, (f a).Notes) :
    (x >>= f).Notes := by
  unfold Notes at hx ⊢
  cases h : x.outcome with
  | error e => rwa [journal_bind_of_error h]
  | ok a =>
      rw [journal_bind_of_ok h]
      exact hx.append (hf a)

theorem notes_mapM {f : α → Traced β} (hf : ∀ a, (f a).Notes) (items : List α) :
    (items.mapM f).Notes := by
  induction items with
  | nil => exact notes_pure []
  | cons item items ih =>
      rw [List.mapM_cons]
      exact (hf item).bind fun b => ih.bind fun bs => notes_pure (b :: bs)

theorem Notes.quiet {x : Traced α} (h : x.Notes) : x.Quiet := by
  apply List.filterMap_eq_nil_iff.mpr
  intro event hEvent
  obtain ⟨level, text, rfl⟩ := h event hEvent
  rfl

/-- Two runs end the same, and their journals differ at most in certain events. -/
structure SameBut (odd : List Event) (x y : Traced α) : Prop where
  outcome : x.outcome = y.outcome
  journal : x.journal.without odd = y.journal.without odd

namespace SameBut

variable {odd : List Event}

theorem refl (x : Traced α) : SameBut odd x x := ⟨rfl, rfl⟩

theorem tell {first second : Journal} (hFirst : first ⊆ odd) (hSecond : second ⊆ odd) :
    SameBut odd (Traced.tell first) (Traced.tell second) := by
  constructor
  · rfl
  · exact (Journal.without_eq_nil hFirst).trans (Journal.without_eq_nil hSecond).symm

theorem extend {first second : Journal} (h : first.without odd = second.without odd)
    (more : Journal) (outcome : Except Error α) :
    SameBut odd ⟨first ++ more, outcome⟩ ⟨second ++ more, outcome⟩ := by
  constructor
  · rfl
  · rw [Journal.without_append, Journal.without_append, h]

theorem bind {x y : Traced α} {f g : α → Traced β} (hxy : SameBut odd x y)
    (hfg : ∀ a, SameBut odd (f a) (g a)) : SameBut odd (x >>= f) (y >>= g) := by
  obtain ⟨hOutcome, hJournal⟩ := hxy
  cases hx : x.outcome with
  | error e =>
      have hy : y.outcome = .error e := hOutcome.symm.trans hx
      constructor
      · rw [outcome_bind, outcome_bind, hx, hy]
        rfl
      · rw [journal_bind_of_error hx, journal_bind_of_error hy, hJournal]
  | ok a =>
      have hy : y.outcome = .ok a := hOutcome.symm.trans hx
      constructor
      · rw [outcome_bind, outcome_bind, hx, hy]
        exact (hfg a).outcome
      · rw [journal_bind_of_ok hx, journal_bind_of_ok hy, Journal.without_append,
          Journal.without_append, hJournal, (hfg a).journal]

end SameBut

end Traced

end Simgen
