/-
Bundling entry points.

Each entry is walked from the start; what the bundler remembers carries over from one entry
to the next, and so do the problems it has met.  Entries are taken in order, each once, and
the first one that names no unit ends the run.
-/
import SolidityBundler.Bundle.Walk

namespace SolidityBundler

/-- Bundles by the names they were asked for, and every problem met so far. -/
structure Bundling where
  bundles : Table Text Bundle
  findings : List Finding

def Bundling.contents (bundling : Bundling) : Table Text Text :=
  bundling.bundles.mapValues fun _ bundle => bundle.content

def Bundling.diagnostics (bundling : Bundling) : List Diagnostic :=
  bundling.findings.map Finding.diagnostic

def Bundling.hasErrors (bundling : Bundling) : Bool :=
  bundling.diagnostics.any Diagnostic.isError

/-- An entry point that names no unit. -/
structure UnknownEntry where
  name : Text
  deriving DecidableEq, Repr

/-- What whoever asked for the entry is told. -/
def UnknownEntry.message (unknown : UnknownEntry) : Text :=
  "Unknown entry point '" ++ unknown.name ++ "'"

namespace Bundler

def bundledMessage (bundle : Bundle) : Text :=
  "'" ++ bundle.entry ++ "' inlines " ++ Text.ofNat bundle.spans.length ++ " unit(s): " ++
    Text.join ", " bundle.units

/-- The units that the entry needs, in the order in which they are inlined. -/
def inlineOrder (b : Bundler) (entry : SourceUnit) : List SourceUnit × Bundler :=
  let (b, w) := Walk.run b (.start entry)
  (w.order, b)

def bundle (b : Bundler) (entry : SourceUnit) : Bundle × Bundler :=
  let (order, b) := b.inlineOrder entry
  let (sections, b) := b.sections order
  let bundle := Bundle.ofSections entry.name sections
  (bundle, b.tell (.debug (bundledMessage bundle)))

/-- The bundles of entries given by name, added to those at hand. -/
def bundleEach (b : Bundler) (bundles : Table Text Bundle) :
    List Text → Except UnknownEntry (Table Text Bundle) × Bundler
  | [] => (.ok bundles, b)
  | name :: names =>
      match b.index.lookup? name with
      | none => (.error { name }, b)
      | some entry =>
          let (bundle, b) := (b.tell (.unitStage "Flattening" name)).bundle entry
          b.bundleEach (bundles.insert name bundle) names

def finishedMessage (bundles : Nat) (findings : Nat) : Text :=
  "Flattened " ++ Text.ofNat bundles ++ " entry point(s) with " ++ Text.ofNat findings ++
    " diagnostic(s)"

/-- The bundles of all entries, and every problem met so far. -/
def bundleAll (b : Bundler) (entries : List Text) : Except UnknownEntry Bundling × Bundler :=
  match b.bundleEach .empty (sortedDistinct entries) with
  | (.error unknown, b) => (.error unknown, b)
  | (.ok bundles, b) =>
      (.ok { bundles, findings := b.findings },
        b.tell (.info (finishedMessage bundles.size b.findings.length)))

end Bundler

end SolidityBundler
