/-
Reading JSON text.

The tokens of a text drive a machine that keeps a stack of the arrays and objects that are
still open.  A state says what may come next, so every departure from the grammar is refused
at the token where it happens.  Of several members with one key the last value counts, at the
place of the first.

Arrays and objects are read to any depth.  A reader that recurses on them ends at some depth with
an error of the runtime, and there is no such limit here.
-/
import SolidityBundler.Json.Token

namespace SolidityBundler

namespace Json

/-- An array or object that waits for a value. -/
inductive Holder
  /-- The items so far, the latest first. -/
  | array (items : List Json)
  /-- The members so far, and the key of the value to come. -/
  | object (members : List (Utf16 × Json)) (key : Utf16)

/-- What may come next. -/
inductive Expectation
  | value
  /-- A value, or the end of an empty array. -/
  | firstItem
  /-- A comma or the end of the array that holds `items`, the latest first. -/
  | afterItem (items : List Json)
  /-- A key, or the end of an empty object. -/
  | firstKey
  /-- A further key. -/
  | key (members : List (Utf16 × Json))
  | colon (members : List (Utf16 × Json)) (key : Utf16)
  /-- A comma or the end of the object. -/
  | afterMember (members : List (Utf16 × Json))
  /-- Nothing: the value is complete. -/
  | nothing (value : Json)

structure Reader where
  expectation : Expectation
  /-- What waits for the value being read, the innermost first. -/
  holders : List Holder

/-- Hands a complete value to what waits for it. -/
def Reader.complete (value : Json) : List Holder → Reader
  | [] => { expectation := .nothing value, holders := [] }
  | .array items :: holders => { expectation := .afterItem (value :: items), holders }
  | .object members key :: holders =>
      { expectation := .afterMember (putMember members key value), holders }

def Reader.beginValue (holders : List Holder) : Token → Option Reader
  | .openObject => some { expectation := .firstKey, holders }
  | .openArray => some { expectation := .firstItem, holders }
  | .scalar value => some (.complete value holders)
  | _ => none

def Reader.takeKey (holders : List Holder) (members : List (Utf16 × Json)) :
    Token → Option Reader
  | .scalar (.string key) => some { expectation := .colon members key, holders }
  | _ => none

def Reader.step (r : Reader) (token : Token) : Option Reader :=
  match r.expectation, token with
  | .value, token => Reader.beginValue r.holders token
  | .firstItem, .closeArray => some (.complete (.array []) r.holders)
  | .firstItem, token => Reader.beginValue (.array [] :: r.holders) token
  | .afterItem items, .comma =>
      some { expectation := .value, holders := .array items :: r.holders }
  | .afterItem items, .closeArray => some (.complete (.array items.reverse) r.holders)
  | .firstKey, .closeObject => some (.complete (.object []) r.holders)
  | .firstKey, token => Reader.takeKey r.holders [] token
  | .key members, token => Reader.takeKey r.holders members token
  | .colon members key, .colon =>
      some { expectation := .value, holders := .object members key :: r.holders }
  | .afterMember members, .comma => some { expectation := .key members, holders := r.holders }
  | .afterMember members, .closeObject => some (.complete (.object members) r.holders)
  | _, _ => none

def Reader.run (r : Reader) : List Token → Option Reader
  | [] => some r
  | token :: rest => (r.step token).bind (·.run rest)

/-- The value that a JSON text stands for. -/
def parse? (t : Text) : Option Json := do
  let reader ← Reader.run { expectation := .value, holders := [] } (← tokens t)
  match reader.expectation with
  | .nothing value => some value
  | _ => none

end Json

end SolidityBundler
