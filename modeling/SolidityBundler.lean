import SolidityBundler.CommandLine.Program
import SolidityBundler.Main
import SolidityBundler.Proofs.LineMap
import SolidityBundler.Proofs.CommentOut
import SolidityBundler.Proofs.Attribution
import SolidityBundler.Proofs.Index.Alias
import SolidityBundler.Proofs.Index.Lookup
import SolidityBundler.Proofs.Relevance
import SolidityBundler.Proofs.Bundler.Record
import SolidityBundler.Proofs.Walk.Meets
import SolidityBundler.Proofs.Bundler.Calls
import SolidityBundler.Proofs.Independence
import SolidityBundler.Proofs.Path.Descent
import SolidityBundler.Proofs.RelativeImports
import SolidityBundler.Proofs.Shadowing
import SolidityBundler.Proofs.Index.Located
import SolidityBundler.Proofs.Source.Statements
import SolidityBundler.Proofs.HiddenImports
import SolidityBundler.Proofs.LexicalBoundaries
import SolidityBundler.Proofs.Compiler.Failure
import SolidityBundler.Proofs.Build.Bundles
import SolidityBundler.Proofs.Build.Success
import SolidityBundler.Proofs.Bundler.Kept
import SolidityBundler.Proofs.LibraryAliases
import SolidityBundler.Proofs.FallbackNames
import SolidityBundler.Proofs.Specifiers
import SolidityBundler.Proofs.Walk.Passes
import SolidityBundler.Proofs.MutualImports
import SolidityBundler.Proofs.Index.Merged
import SolidityBundler.Proofs.ImportStatements
import SolidityBundler.Proofs.InlinedText
import SolidityBundler.Proofs.Compiler.Accounting
import SolidityBundler.Proofs.LocatedSources
import SolidityBundler.Proofs.Build.Fatal
import SolidityBundler.Proofs.Listing
import SolidityBundler.Proofs.Excerpt
import SolidityBundler.Proofs.MaskedSource
import SolidityBundler.Proofs.Walk.Rounds
