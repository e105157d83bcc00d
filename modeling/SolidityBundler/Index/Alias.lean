/-
Suffix aliases of library units.

Library sources often import each other by paths that leave out the directories their
package was installed in.  Every proper suffix of a library name therefore becomes another
name for the same file, unless a library file has that name already.  Where two names share
a suffix, the deeper one owns it, and of two equally deep ones the smaller.

`aliasTable` builds this map by letting the names claim their suffixes in that order;
`owner?` finds the owner of one suffix by searching all names.
-/
import SolidityBundler.Path.Slash
import SolidityBundler.Sorting
import SolidityBundler.Table

namespace SolidityBundler

/-- Whether a name comes before another when suffixes are claimed: deeper names first, names
of equal depth in increasing order. -/
def claimsBefore (a b : Text) : Bool :=
  decide (SlashPath.depth b < SlashPath.depth a) ||
    (SlashPath.depth a == SlashPath.depth b && decide (a < b))

def claimOrder (names : List Text) : List Text := sortBy claimsBefore names

/-- The map after `name` has claimed its suffixes for `target`: names of the library and
suffixes already claimed are left alone. -/
def claimSuffixes {α : Type} (reserved : List Text) (name : Text) (target : α)
    (aliases : Table Text α) : Table Text α :=
  (SlashPath.suffixes name).foldl
    (fun aliases suffix =>
      if reserved.contains suffix then aliases else aliases.insertNew suffix target)
    aliases

/-- The aliases of a library: suffix to what the library holds under the owning name. -/
def aliasTable {α : Type} (library : Table Text α) : Table Text α :=
  (claimOrder library.keys).foldl
    (fun aliases name =>
      match library.get? name with
      | some target => claimSuffixes library.keys name target aliases
      | none => aliases)
    .empty

/-! ### The owner of a suffix -/

/-- The first of some names by the order of claims. -/
def firstClaimant? : List Text → Option Text
  | [] => none
  | name :: rest =>
      match firstClaimant? rest with
      | some other => if claimsBefore other name then some other else some name
      | none => some name

/-- The name that owns a suffix, when the suffix is free to be an alias. -/
def owner? (names : List Text) (suffix : Text) : Option Text :=
  if suffix ∈ names then none
  else firstClaimant? (names.filter fun name => (SlashPath.suffixes name).contains suffix)

end SolidityBundler
