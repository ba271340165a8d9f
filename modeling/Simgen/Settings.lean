import Simgen.Files.Search
import Simgen.Text.Blank
import Simgen.Text.Digit
import Simgen.Toml.Document

/-! The settings of the compiler. They come in layers, of which a later one overrides an
earlier one key by key: defaults, the project's file, a file given by name, and single
assignments. What a layer says is judged only where no later layer overrides it. -/
namespace Simgen

structure Settings where
  /-- Spaces per level of indentation. -/
  indent : Nat := 4
  /-- Headers that every generated header includes. -/
  includes : List String := []
  /-- Where the runtime headers are copied from. -/
  runtimeDir : Option String := none
  deriving DecidableEq

/-- Why layers make no settings. -/
inductive SettingsFault where
  /-- A file that cannot be read as a document. -/
  | badDocument
  /-- An assignment whose key begins with an empty part. -/
  | badKey
  | badValue (key : String)
  deriving DecidableEq

def SettingsFault.message : SettingsFault → String
  | badDocument => "Invalid configuration: not a readable TOML document"
  | badKey => "Invalid configuration: a key must not be empty"
  | badValue key => "Invalid configuration: unexpected value for key `" ++ key ++ "`"

def SettingsFault.cause (fault : SettingsFault) : Cause := .other fault.message

namespace Settings

/-- The largest indentation. -/
def maxIndent : Nat := 18446744073709551615

/-- A number from its digits, of which there must be one. -/
def natOfText? (digits : List Char) : Option Nat :=
  if digits ≠ [] && digits.all Char.isDigit then some (Text.natOfDigits 10 digits) else none

/-- A number in a text: blanks around it do not count, nor does a plus sign. With a minus
sign only zero is left. -/
def indentOfText? (s : String) : Option Nat :=
  match Text.trimChars s.toList with
  | '-' :: digits => (natOfText? digits).filter (· = 0)
  | '+' :: digits => natOfText? digits
  | digits => natOfText? digits

def indentOf? (v : Toml.Value) : Option Nat :=
  let n := match v with
    | .integer n => if 0 ≤ n then some n.toNat else none
    | .text s => indentOfText? s
    | _ => none
  n.filter (· ≤ maxIndent)

def textOf? : Toml.Value → Option String
  | .text s => some s
  | _ => none

def includesOf? : Toml.Value → Option (List String)
  | .array items => items.mapM textOf?
  | _ => none

/-- Reads the value of a key, or takes the default where the key is missing. -/
def field {α : Type} (t : Toml.Table) (key : String) (default : α) (read : Toml.Value → Option α) :
    Except SettingsFault α :=
  match t.lookup key with
  | none => .ok default
  | some v => match read v with
    | some a => .ok a
    | none => .error (.badValue key)

/-- The settings in a table. Keys without a meaning are ignored. -/
def ofTable (t : Toml.Table) : Except SettingsFault Settings := do
  let indent ← field t "indent" 4 indentOf?
  let includes ← field t "includes" [] includesOf?
  let runtimeDir ← field t "runtime_dir" none fun v => (textOf? v).map some
  return { indent, includes, runtimeDir }

/-- The settings of layers, the lowest first. -/
def ofLayers (layers : List (Except SettingsFault Toml.Table)) : Except SettingsFault Settings := do
  let tables ← layers.mapM id
  ofTable (tables.foldl (fun lower upper => upper.over lower) [])

/-- A value under nested keys, through the first empty one. -/
def nest (v : Toml.Value) : List String → Toml.Value
  | [] => v
  | key :: keys => if key = "" then v else .table [(key, nest v keys)]

/-- Cuts at every dot; `current` is the part so far, in reverse. -/
def splitKey (current : List Char) : List Char → List String
  | [] => [String.ofList current.reverse]
  | c :: cs =>
    if c = '.' then String.ofList current.reverse :: splitKey [] cs
    else splitKey (c :: current) cs

/-- The layer of an assignment `key=value`; the first equals sign divides. -/
def assignment? (set : String) : Option (Except SettingsFault Toml.Table) :=
  let key := set.toList.takeWhile (· ≠ '=')
  match set.toList.drop key.length with
  | [] => none
  | _ :: value => some <|
    match nest (.text (String.ofList value)) (splitKey [] key) with
    | .table t => .ok t
    | _ => .error .badKey

/-- The layers of assignments; the first one without an equals sign is refused. -/
def assignments : List String → Except Cause (List (Except SettingsFault Toml.Table))
  | [] => .ok []
  | set :: sets => match assignment? set with
    | none =>
      .error (.other ("--set arguments must be in key=value form, found `" ++ set ++ "`"))
    | some layer => do
      let layers ← assignments sets
      return layer :: layers

/-- The layer of a document. -/
def document (text : Except Files.OsError String) : Except SettingsFault Toml.Table :=
  match text with
  | .error _ => .error .badDocument
  | .ok text => match Toml.parse? text with
    | none => .error .badDocument
    | some t => .ok t

/-- The name of a project's own settings file. -/
def fileName : String := "vulsim.toml"

/-- The layer of a file. -/
def fileLayer (path : String) : Files.Job (List (Except SettingsFault Toml.Table)) := do
  return [document (← Files.Job.readText path)]

open Files

/-- The layer of a file that is looked for. There is none if it is not found. -/
def searchedLayer (path : String) : Job (List (Except SettingsFault Toml.Table)) := do
  match ← Job.search? path with
  | none => return []
  | some file => fileLayer file

/-- The layer of a project's own file, which may be missing. -/
def ownLayer (projectDir : String) : Job (List (Except SettingsFault Toml.Table)) := do
  let path := Path.join projectDir fileName
  Job.note .info ("Loading config from " ++ path)
  searchedLayer path

/-- The layer of a file given by name, which must be there. -/
def givenLayer : Option String → Job (List (Except SettingsFault Toml.Table))
  | none => pure []
  | some file => do
    Job.require (← Job.isFile file) (.invalidFile ("Config file " ++ file ++ " does not exist"))
    Job.note .info ("Loading config from " ++ file)
    searchedLayer file

/-- Loads the settings for a project. -/
def load (projectDir : String) (explicit : Option String) (sets : List String) :
    Job Settings := do
  let own ← ownLayer projectDir
  let given ← givenLayer explicit
  let setLayers ← Job.lift (assignments sets)
  Job.lift ((ofLayers (own ++ given ++ setLayers)).mapError SettingsFault.cause)

end Settings

end Simgen
