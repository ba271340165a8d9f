/-! Paths as texts: how they are joined, taken apart and shown. -/
namespace Simgen.Files.Path

def isAbsolute (path : String) : Bool := path.toList.head? = some '/'

/-- The path of `inner` seen from `outer`. An absolute path stands by itself, and a
slash is put between the two unless there is one or nothing to divide. -/
def join (outer inner : String) : String :=
  if isAbsolute inner || outer = "" then inner
  else if outer.toList.getLast? = some '/' then outer ++ inner
  else outer ++ "/" ++ inner

/-- Cuts at every slash; `current` is the segment so far, in reverse. -/
def split (current : List Char) : List Char → List String
  | [] => [String.ofList current.reverse]
  | c :: cs =>
    if c = '/' then String.ofList current.reverse :: split [] cs else split (c :: current) cs

/-- The segments between slashes, without empty ones. -/
def segments (path : String) : List String := (split [] path.toList).filter (· ≠ "")

/-- Whether a path ends in a slash, and so can only mean a directory. -/
def hasTrailingSlash (path : String) : Bool := path.toList.getLast? = some '/'

/-- The segments that count when a path is taken apart: a dot counts only at the start
of a relative path. -/
def components (path : String) : List String :=
  match segments path with
  | [] => []
  | first :: rest =>
    (if first = "." && isAbsolute path then [] else [first]) ++ rest.filter (· ≠ ".")

/-- The path without its last component. The root and the empty path have none. -/
def parent? (path : String) : Option String :=
  match components path with
  | [] => none
  | parts => some ((if isAbsolute path then "/" else "") ++ "/".intercalate parts.dropLast)

/-- A directory and all those above it, the innermost first. -/
def upwards (dir : String) : List String :=
  let parts := components dir
  (List.range (parts.length + 1)).reverse.map fun n =>
    (if isAbsolute dir then "/" else "") ++ "/".intercalate (parts.take n)

/-- The part of a file name behind its last dot. A name that only begins with a dot has
none. -/
def extension? (name : String) : Option String :=
  let cs := name.toList.reverse
  let tail := cs.takeWhile (· ≠ '.')
  match cs.drop tail.length with
  | [] => none
  | _ :: stem => if stem = [] || name = ".." then none else some (String.ofList tail.reverse)

end Simgen.Files.Path
