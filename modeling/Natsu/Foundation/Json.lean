import Natsu.Foundation.ByteString

/-!
# JSON values

A parsed text with the accesses that a program makes to it.  An access to a
value of another kind throws, which is `none`.
-/

namespace Natsu.Foundation

/-- A number is kept as the `int` that it is cast to.  Of two members with one
key the first counts. -/
inductive Json where
  | number (value : Int)
  | string (text : Bytes)
  | bool (value : Bool)
  | null
  | object (members : List (Bytes × Json))
  | array (items : List Json)

namespace Json

def find? (members : List (Bytes × Json)) (key : Bytes) : Option Json :=
  (members.find? fun pair => pair.1 = key).map Prod.snd

def contains (json : Json) (key : Bytes) : Bool :=
  match json with
  | .object members => (find? members key).isSome
  | _ => false

/-- The member of an object, which is null where there is none. -/
def member (json : Json) (key : Bytes) : Option Json :=
  match json with
  | .object members => some ((find? members key).getD .null)
  | _ => none

/-- The number of items, and 1 for what is no array. -/
def size : Json → Nat
  | .array items => items.length
  | _ => 1

/-- The item of an array. -/
def item (json : Json) (index : Nat) : Option Json :=
  match json with
  | .array items => items[index]?
  | _ => none

def asString : Json → Option Bytes
  | .string text => some (cstr text)
  | _ => none

def asInt : Json → Option Int
  | .number value => some value
  | _ => none

end Json

end Natsu.Foundation
