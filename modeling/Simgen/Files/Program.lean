import Simgen.Files.OsError
import Simgen.Journal

/-! Programs over files. A program asks one question after another and may choose each
by the earlier answers; what answers them, a stored tree or an operating system, is
left open. -/
namespace Simgen.Files

inductive Kind where
  | file | directory
  deriving DecidableEq

/-- A question to the file system. Some of them change it. -/
inductive Query where
  /-- The absolute path of the directory that relative paths start from. -/
  | workingDirectory
  /-- What stands at a path, if anything. -/
  | kind (path : String)
  /-- The names in a directory, in no particular order. -/
  | list (path : String)
  | read (path : String)
  /-- Creates a file or replaces its contents. -/
  | write (path : String) (contents : ByteArray)
  /-- Creates a directory and those above it that are missing. -/
  | createDirectories (path : String)
  /-- Creates or empties the target, then fills it from the source. -/
  | copy (source target : String)

/-- The type of the answer to a query. -/
abbrev Query.Answer : Query → Type
  | workingDirectory => Except OsError String
  | kind _ => Option Kind
  | list _ => Except OsError (List String)
  | read _ => Except OsError ByteArray
  | write .. => Except OsError Unit
  | createDirectories _ => Except OsError Unit
  | copy .. => Except OsError Unit

inductive Program (α : Type) where
  | done (result : α)
  | query (q : Query) (next : q.Answer → Program α)

namespace Program

variable {α β : Type}

def bind (p : Program α) (f : α → Program β) : Program β :=
  match p with
  | done a => f a
  | query q next => query q fun answer => (next answer).bind f

instance : Monad Program where
  pure := done
  bind := bind

theorem bind_done (p : Program α) : p.bind done = p := by
  induction p with
  | done a => rfl
  | query q next ih => exact congrArg (query q) (funext ih)

theorem bind_assoc {γ : Type} (p : Program α) (f : α → Program β) (g : β → Program γ) :
    (p.bind f).bind g = p.bind fun a => (f a).bind g := by
  induction p with
  | done a => rfl
  | query q next ih => exact congrArg (query q) (funext ih)

instance : LawfulMonad Program :=
  LawfulMonad.mk' Program bind_done (fun _ _ => rfl) bind_assoc

/-- Runs a program in any monad that answers queries. -/
def runWith {m : Type → Type} [Monad m] (answer : (q : Query) → m q.Answer) : Program α → m α
  | done a => pure a
  | query q next => do
    let a ← answer q
    (next a).runWith answer

end Program

/-- A program with a journal that can fail. What it asked before a failure stays asked. -/
def Job (α : Type) : Type := Program (Traced α)

namespace Job

variable {α β : Type}

/-- Goes on behind a run: with `f` and the journal so far, unless the run failed. -/
def resume (f : α → Program (Traced β)) (first : Traced α) : Program (Traced β) :=
  match first.outcome with
  | .error e => .done ⟨first.journal, .error e⟩
  | .ok a => (f a).bind fun second => .done ⟨first.journal ++ second.journal, second.outcome⟩

def bind (t : Job α) (f : α → Job β) : Job β := Program.bind t (resume f)

instance : Monad Job where
  pure a := Program.done (pure a)
  bind := bind

theorem bind_pure_id (t : Job α) : t.bind (fun a => Program.done (pure a)) = t := by
  have hDone : resume (fun a : α => Program.done (pure a)) = Program.done := by
    funext first
    obtain ⟨journal, outcome⟩ := first
    cases outcome <;> simp [resume, Program.bind]
  unfold Job.bind
  rw [hDone]
  exact Program.bind_done t

theorem resume_resume {γ : Type} (f : α → Program (Traced β)) (g : β → Program (Traced γ))
    (first : Traced α) :
    (resume f first).bind (resume g) = resume (fun a => (f a).bind (resume g)) first := by
  obtain ⟨journal, outcome⟩ := first
  cases outcome with
  | error e => rfl
  | ok a =>
    simp only [resume, Program.bind_assoc]
    congr 1
    funext second
    obtain ⟨journal, outcome⟩ := second
    cases outcome <;> simp [resume, Program.bind, Program.bind_assoc]

theorem bind_assoc {γ : Type} (t : Job α) (f : α → Job β) (g : β → Job γ) :
    (t.bind f).bind g = t.bind fun a => (f a).bind g :=
  (Program.bind_assoc t (resume f) (resume g)).trans
    (congrArg (Program.bind t) (funext (resume_resume f g)))

instance : LawfulMonad Job :=
  LawfulMonad.mk' Job bind_pure_id (fun a f => Program.bind_done (f a)) bind_assoc

def ofTraced (t : Traced α) : Job α := Program.done t

def ask (q : Query) : Job q.Answer := Program.query q fun answer => .done (pure answer)

def note (level : Level) (text : String) : Job Unit := ofTraced (Traced.note level text)

def warn (w : Warning) : Job Unit := ofTraced (Traced.warn w)

def fail (cause : Cause) : Job α := ofTraced (Traced.fail cause)

/-- The outcome of a check as a job. -/
def lift (result : Except Cause α) : Job α :=
  match result with
  | .ok a => pure a
  | .error cause => fail cause

/-- The value of an answer, or the failure that its error means here. -/
def check (answer : Except OsError α) (cause : OsError → Cause) : Job α :=
  match answer with
  | .ok a => pure a
  | .error e => fail (cause e)

/-- Fails unless a condition holds. -/
def require (condition : Bool) (cause : Cause) : Job Unit :=
  if condition then pure () else fail cause

/-- Reads a file as UTF-8. -/
def readText (path : String) : Job (Except OsError String) := do
  match ← ask (.read path) with
  | .error e => return .error e
  | .ok contents => return match String.fromUTF8? contents with
    | some text => .ok text
    | none => .error .notText

def isDirectory (path : String) : Job Bool := return (← ask (.kind path)) == some .directory

def isFile (path : String) : Job Bool := return (← ask (.kind path)) == some .file

end Job

end Simgen.Files
