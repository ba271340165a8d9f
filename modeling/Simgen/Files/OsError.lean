/-! Failures of file operations. -/
namespace Simgen.Files

inductive OsError where
  | notFound
  | alreadyThere
  | notDirectory
  | isDirectory
  /-- The bytes of a text file are no UTF-8. -/
  | notText
  /-- Anything else that the operating system reports. -/
  | other (text : String)
  deriving DecidableEq

def OsError.message : OsError → String
  | notFound => "No such file or directory (os error 2)"
  | alreadyThere => "File exists (os error 17)"
  | notDirectory => "Not a directory (os error 20)"
  | isDirectory => "Is a directory (os error 21)"
  | notText => "stream did not contain valid UTF-8"
  | other text => text

end Simgen.Files
