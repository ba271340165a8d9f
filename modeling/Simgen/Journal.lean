import Simgen.Error

/-! The journal of a run: what it noted, warned of and recorded as failed, in order.
Log lines and diagnostics are two readings of the same journal. -/
namespace Simgen

/-- Log levels, the most severe first; `off` admits nothing. -/
inductive Level where
  | off | error | warn | info | debug | trace
  deriving DecidableEq

namespace Level

def rank : Level → Nat
  | off => 0 | error => 1 | warn => 2 | info => 3 | debug => 4 | trace => 5

def label : Level → String
  | off => "OFF" | error => "ERROR" | warn => "WARN" | info => "INFO" | debug => "DEBUG"
  | trace => "TRACE"

/-- A level by its name, in any mix of upper and lower case. -/
def ofName? (name : String) : Option Level :=
  [off, error, warn, info, debug, trace].find? fun level =>
    level.label.toList.map Char.toLower == name.toList.map Char.toLower

end Level

/-- Oddities that do not stop the compiler. -/
inductive Warning where
  | unknownType (bundle member type : String)
  | duplicateLifecycle (combine phase : String)
  | missingSupportFile (file : String)
  deriving DecidableEq

/-- The text of a warning. -/
def Warning.message : Warning → String
  | unknownType bundle member type =>
    "Unknown type `" ++ type ++ "` for member `" ++ member ++ "` in bundle `" ++ bundle ++ "`"
  | duplicateLifecycle combine phase =>
    "Combine `" ++ combine ++ "` has multiple " ++ phase ++ "(), only the first one is used"
  | missingSupportFile file => "Support file `" ++ file ++ "` not found, not copied"

/-- One entry of a journal. -/
inductive Event where
  | note (level : Level) (text : String)
  | warning (w : Warning)
  /-- A failure that was recorded and did not stop the run. -/
  | failure (e : Error)
  deriving DecidableEq

namespace Event

def level : Event → Level
  | note level _ => level
  | warning _ => .warn
  | failure _ => .error

def text : Event → String
  | note _ text => text
  | warning w => w.message
  | failure e => e.display

/-- The log line of an event. -/
def line (e : Event) : String := e.level.label ++ " " ++ e.text

/-- The event as it is printed, its level in brackets. Further lines of its text are
indented, so that every record begins with a bracket at the start of a line. -/
def record (e : Event) : String :=
  let label := e.level.label
  let gap := String.ofList (List.replicate (5 - label.length) ' ')
  let text := e.text.toList.flatMap fun c => if c = '\n' then "\n    ".toList else [c]
  "[" ++ label ++ gap ++ "] " ++ String.ofList text ++ "\n"

end Event

abbrev Journal := List Event

namespace Journal

/-- The warnings, in order. -/
def warnings (j : Journal) : List Warning :=
  j.filterMap fun | .warning w => some w | _ => none

/-- The recorded failures, in order. -/
def failures (j : Journal) : List Error :=
  j.filterMap fun | .failure e => some e | _ => none

/-- One line per warning, then one per recorded failure, each kind numbered from zero. -/
def summary (j : Journal) : List String :=
  (j.warnings.zipIdx.map fun (w, i) => "WARN " ++ toString i ++ ": " ++ w.message) ++
    j.failures.zipIdx.map fun (e, i) => "ERROR " ++ toString i ++ ": " ++ e.display

/-- The events that a level admits: those of its own severity and above. -/
def upTo (j : Journal) (level : Level) : Journal := j.filter fun e => e.level.rank ≤ level.rank

/-- The log lines that a level admits. -/
def linesAt (j : Journal) (level : Level) : List String := (j.upTo level).map Event.line

/-- The journal as it is printed at a level. -/
def printed (j : Journal) (level : Level) : String :=
  String.join ((j.upTo level).map Event.record)

end Journal

/-- The result of a run together with its journal. A run that fails keeps what it
had written to the journal before. -/
structure Traced (α : Type) where
  journal : Journal
  outcome : Except Error α

namespace Traced

variable {α β : Type}

/-- A run that only writes to the journal. -/
def tell (events : Journal) : Traced Unit := ⟨events, .ok ()⟩

def note (level : Level) (text : String) : Traced Unit := tell [.note level text]

def warn (w : Warning) : Traced Unit := tell [.warning w]

def ofExcept (outcome : Except Error α) : Traced α := ⟨[], outcome⟩

def fail (cause : Cause) : Traced α := ⟨[], .error { cause := cause }⟩

/-- The outcome of a check as a run. -/
def lift (result : Except Cause α) : Traced α :=
  ofExcept (result.mapError fun cause => { cause := cause })

instance : Monad Traced where
  pure a := ⟨[], .ok a⟩
  bind x f := match x.outcome with
    | .error e => ⟨x.journal, .error e⟩
    | .ok a => ⟨x.journal ++ (f a).journal, (f a).outcome⟩

/-- Blames `file` for a failure of the run. -/
def blaming (file : String) (x : Traced α) : Traced α :=
  { x with outcome := x.outcome.mapError (·.blaming file) }

@[simp] theorem journal_pure (a : α) : (pure a : Traced α).journal = [] := rfl

@[simp] theorem outcome_pure (a : α) : (pure a : Traced α).outcome = .ok a := rfl

/-- The journals of a sequence follow each other; a failure cuts the sequence short. -/
instance : LawfulMonad Traced := LawfulMonad.mk' Traced
  (by
    intro α x
    obtain ⟨journal, outcome⟩ := x
    cases outcome <;> simp [Functor.map])
  (by intro α β a f; rfl)
  (by
    intro α β γ x f g
    obtain ⟨journal, outcome⟩ := x
    cases outcome with
    | error e => rfl
    | ok a =>
      change (match (f a).outcome with
        | .error e => ⟨journal ++ (f a).journal, .error e⟩
        | .ok b => ⟨journal ++ (f a).journal ++ (g b).journal, (g b).outcome⟩ : Traced γ) =
        ⟨journal ++ (f a >>= g).journal, (f a >>= g).outcome⟩
      cases h : (f a).outcome <;> simp [bind, h])

/-- The outcome of a sequence does not depend on the journal. -/
@[simp] theorem outcome_bind (x : Traced α) (f : α → Traced β) :
    (x >>= f).outcome = x.outcome >>= fun a => (f a).outcome := by
  obtain ⟨journal, outcome⟩ := x
  cases outcome <;> rfl

end Traced

end Simgen
