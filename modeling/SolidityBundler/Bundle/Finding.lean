/-
What can be wrong with an import graph.

An import may refer to nothing, and imports may lead back to where they started.  Both are
recorded and bundling goes on.
-/
import SolidityBundler.Diagnostic
import SolidityBundler.Source.Unit

namespace SolidityBundler

/-- A problem met while units are inlined. -/
inductive Finding
  /-- A statement of `importer` refers to no unit. -/
  | unresolved (importer : SourceUnit) (edge : ImportEdge)
  /-- Each member imports the next one, and the last one imports the first by `edge`. -/
  | cycle (members : List SourceUnit) (edge : ImportEdge)
  deriving DecidableEq, Repr

namespace Finding

/-- The unit that holds the statement to blame. -/
def unit? : Finding → Option SourceUnit
  | .unresolved importer _ => some importer
  | .cycle members _ => members.getLast?

def edge : Finding → ImportEdge
  | .unresolved _ edge => edge
  | .cycle _ edge => edge

def message : Finding → Text
  | .unresolved _ edge => "[RES-0010] cannot resolve import '" ++ edge.specifier ++ "'"
  | .cycle members _ =>
      "[FLT-0010] import cycle detected: " ++
        Text.join " -> " ((members ++ members.take 1).map SourceUnit.name)

def diagnostic (finding : Finding) : Diagnostic where
  severity := .error
  message := .proper finding.message
  unitName := finding.unit?.map SourceUnit.name
  filename := (finding.unit?.bind SourceUnit.path).map fun path => .proper path.toText
  line := some finding.edge.position.line
  column := some finding.edge.position.column

end Finding

end SolidityBundler
