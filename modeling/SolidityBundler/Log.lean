/-
Messages on the way.

The stages of a build hand back entries, each with the level that admits it.  Writing them
out is one function: a style says which levels are admitted and whether a line begins with
the time and the level.  Where no style is set every entry is written, behind the name of
the program.
-/
import SolidityBundler.Text.Basic

namespace SolidityBundler

namespace Log

inductive Level
  | silent
  | error
  | warning
  | info
  | debug
  deriving DecidableEq, Repr

/-- The rank of a level; a style admits what ranks no higher than its own. -/
def Level.rank : Level → Nat
  | .silent => 0
  | .error => 3
  | .warning => 6
  | .info => 10
  | .debug => 30

def Level.label : Level → Text
  | .silent => "SILENT"
  | .error => "ERROR"
  | .warning => "WARNING"
  | .info => "INFO"
  | .debug => "DEBUG"

structure Entry where
  level : Level
  message : Text
  deriving DecidableEq, Repr

def Entry.error (message : Text) : Entry := { level := .error, message }

def Entry.warning (message : Text) : Entry := { level := .warning, message }

def Entry.info (message : Text) : Entry := { level := .info, message }

def Entry.debug (message : Text) : Entry := { level := .debug, message }

/-- The start of a stage. -/
def Entry.stage (name : Text) : Entry := .info ("==> " ++ name)

/-- One unit passing through a stage; without a unit, the start of the stage. -/
def Entry.unitStage (name unit : Text) : Entry :=
  if unit.isEmpty then .stage name else .info ("    " ++ name ++ " " ++ unit)

structure Style where
  level : Level
  /-- Whether a line begins with time and level. -/
  rich : Bool
  time : Text
  deriving DecidableEq, Repr

/-- The name that messages are signed with. -/
def signature : Text := "solb"

def Style.admits (style : Style) (entry : Entry) : Bool := entry.level.rank ≤ style.level.rank

def Style.opening (style : Style) (entry : Entry) : Text :=
  if style.rich && entry.level != .silent then
    style.time ++ " " ++ signature ++ "[" ++ entry.level.label ++ "] "
  else []

/-- The line written for an entry, if it is admitted. -/
def line? (style : Option Style) (entry : Entry) : Option Text :=
  match style with
  | none => some (signature ++ ": " ++ entry.message)
  | some style =>
      if style.admits entry then some (style.opening entry ++ entry.message) else none

def render (style : Option Style) (entries : List Entry) : Text :=
  (entries.filterMap (line? style)).flatMap (· ++ ['\n'])

end Log

end SolidityBundler
