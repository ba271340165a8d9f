import Simgen.Combine.Registers
import Simgen.Descriptor.Writer
import Simgen.Files.Store
import Simgen.Main
import Simgen.Proofs.Combine.Registers
import Simgen.Proofs.Cpp.BundleHeader
import Simgen.Proofs.Cpp.ClassScope
import Simgen.Proofs.Design.Recovery
import Simgen.Proofs.Files.Path
import Simgen.Proofs.Files.Store
import Simgen.Proofs.Files.Job
import Simgen.Proofs.Compile.Failure
import Simgen.Proofs.Cpp.FileNames
import Simgen.Proofs.Files.WellFormed
import Simgen.Proofs.Files.Additions
import Simgen.Proofs.Compile.OutputDirectory
import Simgen.Proofs.Compile.Output
import Simgen.Proofs.Markup.Escape
import Simgen.Proofs.Markup.Reader
import Simgen.Proofs.Markup.Writer
import Simgen.Proofs.Descriptor.Valid
import Simgen.Proofs.Descriptor.RoundTrip
import Simgen.Proofs.Markup.Reference
import Simgen.Proofs.Markup.Declaration
import Simgen.Proofs.Markup.Document
import Simgen.Proofs.Descriptor.Schema
import Simgen.Proofs.Design.Code
import Simgen.Proofs.Cpp.CodeLines
import Simgen.Proofs.Source.Directive
import Simgen.Proofs.Source.Lexing
import Simgen.Proofs.Source.Nesting
import Simgen.Proofs.Source.Folding
import Simgen.Proofs.Source.ParameterList
import Simgen.Proofs.Source.Header
import Simgen.Proofs.Source.FileScope
import Simgen.Proofs.Source.Splice
import Simgen.Proofs.Bundle.Independence
import Simgen.Proofs.Design.Checks
import Simgen.Proofs.Design.Masking
import Simgen.Proofs.Design.ClassNames
import Simgen.Proofs.Files.Frame
import Simgen.Proofs.Compile.Preservation
import Simgen.Proofs.Bundle.Release
import Simgen.Proofs.Bundle.Depth
import Simgen.Proofs.Combine.NameClash
import Simgen.Proofs.Descriptor.Interleaving
import Simgen.Proofs.Cpp.Injection
import Simgen.Proofs.Cpp.MethodDefinitions
import Simgen.Proofs.Design.Forwarding
import Simgen.Proofs.Descriptor.Names
import Simgen.Proofs.Cpp.Identifiers
import Simgen.Proofs.Design.LaterBlocks
import Simgen.Proofs.Design.Warnings
import Simgen.Proofs.Markup.Comment
import Simgen.Proofs.Cpp.Comments
import Simgen.Proofs.Compile.ListingOrder
import Simgen.Proofs.Settings.Load
import Simgen.Proofs.Bundle.Counters
import Simgen.Proofs.Markup.Lockstep
