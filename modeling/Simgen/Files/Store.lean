import Simgen.Files.Path
import Simgen.Files.Program

/-! A file tree as a value, and how it answers queries. -/
namespace Simgen.Files

/-- A place in the tree: names from the entry up to the root. -/
abbrev Location := List String

inductive Content where
  | file (contents : ByteArray)
  | directory

def Content.kind : Content → Kind
  | file _ => .file
  | directory => .directory

/-- The entries below the root, and the place that relative paths start from. -/
structure Store where
  current : Location
  entries : List (Location × Content)

namespace Store

/-- What stands at a place. The root is always a directory. -/
def get? (s : Store) (place : Location) : Option Content :=
  if place = [] then some .directory else s.entries.lookup place

/-- Puts an entry at a place, in the place of the one there if there is one. -/
def insert (s : Store) (place : Location) (c : Content) : Store :=
  if (s.entries.lookup place).isSome then
    { s with entries := s.entries.map fun e => if e.1 = place then (place, c) else e }
  else { s with entries := s.entries ++ [(place, c)] }

/-- The place that segments lead to. Every segment is taken from a directory; whether
there is anything at the last place is not asked. -/
def walk (s : Store) (start : Location) : List String → Except OsError Location
  | [] => .ok start
  | segment :: rest => match s.get? start with
    | none => .error .notFound
    | some (.file _) => .error .notDirectory
    | some .directory =>
      s.walk (if segment = "." then start else if segment = ".." then start.tail
        else segment :: start) rest

/-- The place that a path leads to. -/
def locate (s : Store) (path : String) : Except OsError Location :=
  if path = "" then .error .notFound
  else s.walk (if Path.isAbsolute path then [] else s.current) (Path.segments path)

/-- The place and the content that a path leads to. -/
def find (s : Store) (path : String) : Except OsError (Location × Content) := do
  let place ← s.locate path
  match s.get? place with
  | none => .error .notFound
  | some (.file contents) =>
    if Path.hasTrailingSlash path then .error .notDirectory else .ok (place, .file contents)
  | some .directory => .ok (place, .directory)

def kind? (s : Store) (path : String) : Option Kind :=
  match s.find path with
  | .ok (_, c) => some c.kind
  | .error _ => none

/-- The path of the directory that relative paths start from. -/
def workingDirectory (s : Store) : String := "/" ++ "/".intercalate s.current.reverse

/-- The names directly below a place. -/
def names (s : Store) (place : Location) : List String :=
  s.entries.filterMap fun e => match e.1 with
    | name :: outer => if outer = place then some name else none
    | [] => none

def list (s : Store) (path : String) : Except OsError (List String) := do
  match ← s.find path with
  | (place, .directory) => .ok (s.names place)
  | (_, .file _) => .error .notDirectory

def read (s : Store) (path : String) : Except OsError ByteArray := do
  match ← s.find path with
  | (_, .file contents) => .ok contents
  | (_, .directory) => .error .isDirectory

/-- Creates a file or replaces its contents. The directory must be there. -/
def write (s : Store) (path : String) (contents : ByteArray) : Except OsError Store := do
  let place ← s.locate path
  match s.get? place with
  | some .directory => .error .isDirectory
  | _ =>
    if Path.hasTrailingSlash path then .error .isDirectory
    else .ok (s.insert place (.file contents))

/-- Creates a directory. The directory above must be there. -/
def createDirectory (s : Store) (path : String) : Except OsError Store := do
  let place ← s.locate path
  match s.get? place with
  | some _ => .error .alreadyThere
  | none => .ok (s.insert place .directory)

/-- Creates a directory and those above it, of which there are at most `depth`. What
was created before a failure stays. -/
def createUpTo (s : Store) (path : String) : Nat → Except OsError Unit × Store
  | 0 => (.ok (), s)
  | depth + 1 =>
    if path = "" then (.ok (), s)
    else match s.createDirectory path with
      | .ok s => (.ok (), s)
      | .error .notFound => match Path.parent? path with
        | none => (.error .notFound, s)
        | some parent => match s.createUpTo parent depth with
          | (.error e, s) => (.error e, s)
          | (.ok (), s) => match s.createDirectory path with
            | .ok s => (.ok (), s)
            | .error e => (if s.kind? path = some .directory then .ok () else .error e, s)
      | .error e => (if s.kind? path = some .directory then .ok () else .error e, s)

/-- Creates a directory and those above it that are missing. -/
def createDirectories (s : Store) (path : String) : Except OsError Unit × Store :=
  s.createUpTo path ((Path.segments path).length + 2)

/-- Empties the target, then fills it with what the source holds by then. -/
def copy (s : Store) (source target : String) : Except OsError Unit × Store :=
  match s.read source with
  | .error e => (.error e, s)
  | .ok _ => match s.write target .empty with
    | .error e => (.error e, s)
    | .ok emptied => match emptied.read source with
      | .error e => (.error e, emptied)
      | .ok contents => match emptied.write target contents with
        | .error e => (.error e, emptied)
        | .ok filled => (.ok (), filled)

/-- Removes an entry and all below it; nothing, if there is none. -/
def remove (s : Store) (path : String) : Store :=
  match s.find path with
  | .ok (place, _) => { s with entries := s.entries.filter fun e => !place.isSuffixOf e.1 }
  | .error _ => s

/-- Answers a query. -/
def answer (s : Store) : (q : Query) → q.Answer × Store
  | .workingDirectory => (.ok s.workingDirectory, s)
  | .kind path => (s.kind? path, s)
  | .list path => (s.list path, s)
  | .read path => (s.read path, s)
  | .write path contents => match s.write path contents with
    | .ok s => (.ok (), s)
    | .error e => (.error e, s)
  | .createDirectories path => s.createDirectories path
  | .copy source target => s.copy source target

end Store

/-- Runs a program on a stored tree. -/
def Program.run {α : Type} (s : Store) : Program α → α × Store
  | done a => (a, s)
  | query q next => (next (s.answer q).1).run (s.answer q).2

/-- A sequence runs its second part on the tree that the first part leaves. -/
theorem Program.run_bind {α β : Type} (p : Program α) (f : α → Program β) (s : Store) :
    (p.bind f).run s = (f (p.run s).1).run (p.run s).2 := by
  induction p generalizing s with
  | done a => rfl
  | query q next ih => exact ih (s.answer q).1 (s.answer q).2

/-- Runs a job on a stored tree. -/
def Job.run {α : Type} (t : Job α) (s : Store) : Traced α × Store := Program.run s t

end Simgen.Files
