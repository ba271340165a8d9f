import Simgen.Descriptor.Basic
import Simgen.Files.Path

/-! A project: the descriptors that were read, and where its hand-written sources are. -/
namespace Simgen

structure Project where
  cppDir : String
  bundles : List Descriptor.Bundle
  combines : List Descriptor.Combine
  deriving DecidableEq

namespace Descriptor.Code

/-- The path of the source file that a block refers to. -/
def sourcePath? (c : Code) (cppDir : String) : Option String :=
  c.reference.map fun r => Files.Path.join cppDir r.file

end Descriptor.Code

namespace Descriptor.Combine

/-- Every block of code of a combine. -/
def codes (c : Combine) : List Code :=
  (c.services ++ c.functions).filterMap Operation.body ++ c.init ++ c.tick ++ c.applyTick

end Descriptor.Combine

/-- The source files that the combines of a project refer to. -/
def Project.sourcePaths (p : Project) : List String :=
  p.combines.flatMap fun d => d.codes.filterMap fun c => c.sourcePath? p.cppDir

end Simgen
