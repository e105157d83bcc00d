/-
The grammar of command lines.

Every word of a command line is first classified on its own: as an option of the grammar, an
unknown option, the separator `--`, or an operand.  Long options may be shortened as long as
only one option begins that way, and short ones may be run together.  Then the words are taken
from left to right; an option that needs a value takes it from its own word or from the next
one, which must be an operand.

The first fault ends the reading.  Words that nothing has a use for are collected and left to
the caller.
-/
import SolidityBundler.Text.Blank
import SolidityBundler.Text.Digit
import SolidityBundler.Text.Quoted

namespace SolidityBundler

namespace CommandLine

/-! ### Options -/

/-- What an option needs. -/
inductive OptionKind
  | flag
  | value
  | integer
  deriving DecidableEq, Repr

/-- An option of a grammar with a meaning of type `α`. -/
structure OptionSpec (α : Type) where
  /-- Its spellings, each with one or two dashes. -/
  names : List Text
  kind : OptionKind
  meaning : α

/-- What stands in for the operands of a grammar. -/
inductive OperandSpec
  | none
  | single (name : Text)
  /-- An operand among fixed choices, which takes all further words with it. -/
  | command (name : Text) (choices : List Text)
  deriving DecidableEq, Repr

/-- Options and operands of a program or of one of its commands. -/
structure Grammar (α : Type) where
  /-- The program, with the command if it is the grammar of one. -/
  program : Text
  options : List (OptionSpec α)
  operand : OperandSpec

def OptionSpec.label {α : Type} (option : OptionSpec α) : Text := Text.join "/" option.names

/-! ### Faults -/

inductive UsageFault
  | missingOperand (name : Text)
  | invalidChoice (name word : Text) (choices : List Text)
  | unrecognized (words : List Text)
  | missingValue (option : Text)
  | unwantedValue (option value : Text)
  | invalidInteger (option value : Text)
  | ambiguous (word : Text) (candidates : List Text)
  deriving DecidableEq, Repr

def UsageFault.message : UsageFault → Text
  | .missingOperand name => "the following arguments are required: " ++ name
  | .invalidChoice name word choices =>
      "argument " ++ name ++ ": invalid choice: " ++ Text.quoted word ++ " (choose from " ++
        Text.join ", " (choices.map Text.quoted) ++ ")"
  | .unrecognized words => "unrecognized arguments: " ++ Text.join " " words
  | .missingValue option => "argument " ++ option ++ ": expected one argument"
  | .unwantedValue option value =>
      "argument " ++ option ++ ": ignored explicit argument " ++ Text.quoted value
  | .invalidInteger option value =>
      "argument " ++ option ++ ": invalid int value: " ++ Text.quoted value
  | .ambiguous word candidates =>
      "ambiguous option: " ++ word ++ " could match " ++ Text.join ", " candidates

structure UsageError where
  program : Text
  fault : UsageFault
  deriving DecidableEq, Repr

def UsageError.message (e : UsageError) : Text := e.program ++ ": error: " ++ e.fault.message

/-! ### Integers -/

/-- Whether a character is passed over around an integer: white space apart from the
information separators. -/
def isIntegerBlank (c : Char) : Bool := Text.isBlank c && !(28 ≤ c.toNat && c.toNat ≤ 31)

/-- The number that decimal digits of any script stand for, with single low lines between them.
`afterDigit` says whether a low line may come next. -/
def digitsValue? (n : Nat) : (afterDigit : Bool) → Text → Option Nat
  | afterDigit, [] => if afterDigit then some n else none
  | afterDigit, c :: rest =>
      if c = '_' ∧ afterDigit then digitsValue? n false rest
      else (Text.digitValue? c).bind fun d => digitsValue? (n * 10 + d) true rest

/-- The number that a text of digits stands for, unless there are too many of them. -/
def numberValue? (t : Text) : Option Nat :=
  if t.countP Text.isDecimalDigit ≤ Text.maxDigits then digitsValue? 0 false t else none

def integerValue? (word : Text) : Option Int :=
  match Text.trim isIntegerBlank word with
  | '-' :: rest => (numberValue? rest).map fun n => -(n : Int)
  | '+' :: rest => (numberValue? rest).map Int.ofNat
  | rest => (numberValue? rest).map Int.ofNat

/-- Whether digits with at most one point in or before them follow, up to a line feed at the
end. -/
def isNumeral (t : Text) : Bool :=
  let t := if t.getLast? == some '\n' then t.dropLast else t
  let whole := t.takeWhile Text.isDecimalDigit
  match t.dropWhile Text.isDecimalDigit with
  | [] => !whole.isEmpty
  | '.' :: behind => !behind.isEmpty && behind.all Text.isDecimalDigit
  | _ => false

/-- Whether a word looks like a negative number; such a word is an operand. -/
def isNegativeNumber (word : Text) : Bool :=
  match word with
  | '-' :: rest => isNumeral rest
  | _ => false

/-! ### Classifying words -/

/-- The part that a word plays. -/
inductive Role (α : Type)
  | operand
  | separator
  /-- An option under one of its names, with the value that is part of the word, if any. -/
  | option (option : OptionSpec α) (name : Text) (explicit : Option Text)
  | unknown

/-- The word behind which every word is an operand. -/
def separator : Text := ['-', '-']

structure Word (α : Type) where
  text : Text
  role : Role α

section Classify

variable {α : Type}

def Grammar.spellings (g : Grammar α) : List (Text × OptionSpec α) :=
  g.options.flatMap fun option => option.names.map (·, option)

def Grammar.find? (g : Grammar α) (name : Text) : Option (OptionSpec α) :=
  (g.spellings.find? fun (n, _) => n == name).map Prod.snd

/-- A way to read a word: an option, the name that it is taken for, and its value. -/
abbrev Reading (α : Type) := OptionSpec α × Text × Option Text

/-- The ways to read a word with two dashes: every option that begins with what stands before
the first equals sign. -/
def Grammar.longReadings (g : Grammar α) (word : Text) : List (Reading α) :=
  let (name, explicit) :=
    match Text.cut? '=' word with
    | some (name, value) => (name, some value)
    | none => (word, none)
  (g.spellings.filter fun (n, _) => name.isPrefixOf n).map fun (n, option) => (option, n, explicit)

/-- The ways to read a word with one dash: as a short option with its value behind it, or as
the beginning of an option. -/
def Grammar.shortReadings (g : Grammar α) (word : Text) : List (Reading α) :=
  g.spellings.filterMap fun (n, option) =>
    if n = word.take 2 then some (option, n, some (word.drop 2))
    else if word.isPrefixOf n then some (option, n, none)
    else none

/-- Reads a word that begins with a dash and is no option as it stands. -/
def Grammar.readDashed (g : Grammar α) (word : Text) : Except UsageFault (Role α) :=
  let readings :=
    if ['-', '-'].isPrefixOf word then g.longReadings word else g.shortReadings word
  match readings with
  | [(option, name, explicit)] => .ok (.option option name explicit)
  | _ :: _ :: _ => .error (.ambiguous word (readings.map fun (_, name, _) => name))
  | [] => .ok (if isNegativeNumber word || word.contains ' ' then .operand else .unknown)

/-- The option and value of a word such as `--name=value`, if the name is complete. -/
def Grammar.withValue? (g : Grammar α) (word : Text) : Option (Role α) := do
  let (name, value) ← Text.cut? '=' word
  let option ← g.find? name
  return .option option name (some value)

/-- Classifies a word that stands before any separator. -/
def Grammar.classify (g : Grammar α) (word : Text) : Except UsageFault (Role α) :=
  if word.head? != some '-' then .ok .operand
  else
    match g.find? word with
    | some option => .ok (.option option word none)
    | none =>
        if word.length = 1 then .ok .operand
        else
          match g.withValue? word with
          | some role => .ok role
          | none => g.readDashed word

/-- Classifies the words of a command line.  Behind the separator every word is an operand. -/
def Grammar.classifyAll (g : Grammar α) : List Text → Except UsageFault (List (Word α))
  | [] => .ok []
  | word :: rest =>
      if word = separator then
        .ok ({ text := word, role := .separator } ::
          rest.map fun text => { text, role := .operand })
      else do
        let role ← g.classify word
        return { text := word, role } :: (← g.classifyAll rest)

end Classify

/-! ### Taking options -/

structure Given (α : Type) where
  meaning : α
  /-- Its value; none for a flag, and for an option that has lost its value. -/
  value : Option Text

section Take

variable {α : Type}

/-- Checks a value and hands it to its option.  A separator is taken away even where it stands
for a value, and leaves the option without one. -/
def OptionSpec.give (option : OptionSpec α) (value : Text) : Except UsageFault (Given α) :=
  if value = separator then .ok { meaning := option.meaning, value := none }
  else if option.kind = .integer ∧ integerValue? value = none then
    .error (.invalidInteger option.label value)
  else .ok { meaning := option.meaning, value := some value }

/-- What a group of short options comes to: the flags in it, and the option at its end that
still needs a value, if there is one. -/
structure Group (α : Type) where
  flags : List (Given α)
  wanting : Option (OptionSpec α)

/-- Takes an option whose word goes on with a value.  Behind a short flag the rest of the word
is a further short option with what follows it. -/
def Grammar.takeExplicit (g : Grammar α) :
    OptionSpec α → (short : Bool) → (explicit : Text) → Except UsageFault (Group α)
  | option, _, [] =>
      if option.kind = .flag then .error (.unwantedValue option.label [])
      else do return { flags := [← option.give []], wanting := none }
  | option, short, c :: rest =>
      if option.kind = .flag then
        match short, g.find? ['-', c] with
        | true, some next =>
            let flag : Given α := { meaning := option.meaning, value := none }
            if rest.isEmpty then
              if next.kind = .flag then
                .ok { flags := [flag, { meaning := next.meaning, value := none }], wanting := none }
              else .ok { flags := [flag], wanting := some next }
            else do
              let group ← g.takeExplicit next true rest
              return { group with flags := flag :: group.flags }
        | _, _ => .error (.unwantedValue option.label (c :: rest))
      else do return { flags := [← option.give (c :: rest)], wanting := none }

def isShortName (name : Text) : Bool := !List.isPrefixOf ['-', '-'] name

/-- Takes an option: the flags in its word, and the option that takes the next word. -/
def Grammar.takeOption (g : Grammar α) (option : OptionSpec α) (name : Text) :
    Option Text → Except UsageFault (Group α)
  | some explicit => g.takeExplicit option (isShortName name) explicit
  | none =>
      if option.kind = .flag then
        .ok { flags := [{ meaning := option.meaning, value := none }], wanting := none }
      else .ok { flags := [], wanting := some option }

/-! ### Whole command lines -/

structure Parsed (α : Type) where
  options : List (Given α) := []
  operand : Option Text := none
  /-- The words behind a command. -/
  behind : List Text := []
  extras : List Text := []

def Parsed.withOptions (p : Parsed α) (options : List (Given α)) : Parsed α :=
  { p with options := options ++ p.options }

def Parsed.withExtra (p : Parsed α) (word : Text) : Parsed α :=
  { p with extras := word :: p.extras }

/-- A command: its name must be one of the choices, and it takes the words behind it. -/
def takeCommand (name : Text) (choices : List Text) (word : Text) (behind : List (Word α)) :
    Except UsageFault (Parsed α) :=
  if choices.contains word then .ok { operand := some word, behind := behind.map Word.text }
  else .error (.invalidChoice name word choices)

/-- How far the operand of a line is. -/
inductive Stage
  | awaiting
  /-- Just taken: a separator that comes next goes with it. -/
  | taken
  | done
  deriving DecidableEq, Repr

def Stage.next : Stage → Stage
  | .awaiting => .awaiting
  | .taken | .done => .done

/-- Reads classified words; `wanting` is an option that takes the next word as its value.  A
separator next to a single operand goes with it, and one before a command is taken for the
command. -/
def Grammar.takeWords (g : Grammar α) :
    Stage → (wanting : Option (OptionSpec α)) → List (Word α) → Except UsageFault (Parsed α)
  | _, none, [] => .ok {}
  | stage, some option, ⟨value, .operand⟩ :: rest => do
      let given ← option.give value
      return (← g.takeWords stage none rest).withOptions [given]
  | _, some option, _ => .error (.missingValue option.label)
  | stage, none, ⟨_, .option option name explicit⟩ :: rest => do
      let group ← g.takeOption option name explicit
      return (← g.takeWords stage.next group.wanting rest).withOptions group.flags
  | stage, none, ⟨text, .unknown⟩ :: rest => do
      return (← g.takeWords stage.next none rest).withExtra text
  | stage, none, ⟨text, .operand⟩ :: rest =>
      match stage, g.operand with
      | .awaiting, .command name choices => takeCommand name choices text rest
      | .awaiting, .single _ => do
          return { ← g.takeWords .taken none rest with operand := some text }
      | _, _ => do return (← g.takeWords stage.next none rest).withExtra text
  | stage, none, ⟨text, .separator⟩ :: rest =>
      match stage, g.operand, rest.isEmpty with
      | .awaiting, .command name choices, false => takeCommand name choices text rest
      | .awaiting, .single _, false => g.takeWords .awaiting none rest
      | .taken, _, _ => g.takeWords .done none rest
      | _, _, _ => do return (← g.takeWords stage.next none rest).withExtra text

/-- Whether an operand that has to be there is missing. -/
def Grammar.checkOperand (g : Grammar α) (p : Parsed α) : Except UsageFault (Parsed α) :=
  match g.operand, p.operand with
  | .single name, none | .command name _, none => .error (.missingOperand name)
  | _, _ => .ok p

def Grammar.parse (g : Grammar α) (words : List Text) : Except UsageFault (Parsed α) := do
  g.takeWords .awaiting none (← g.classifyAll words)

end Take

end CommandLine

end SolidityBundler
