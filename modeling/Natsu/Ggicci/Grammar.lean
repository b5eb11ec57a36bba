import Natsu.Foundation.Reader
import Natsu.Ggicci.Parser

/-!
# The language of gci-json

The texts that denote values, and a reader of them that looks at one byte
behind what it takes.  The reader takes a text exactly when it denotes the
value that is given, and where it fails the text up to there could still have
been completed.
-/

namespace Natsu.Ggicci

open Natsu.Foundation

def Blank (text : Bytes) : Prop := ∀ byte ∈ text, isWhitespace byte = true

def Digits (text : Bytes) : Prop := ∀ byte ∈ text, isdigit byte = true

/-- No digit stands behind a first 0. -/
inductive IsInteger : Bytes → Prop where
  | zero : IsInteger [48]
  | digits {first : UInt8} {rest : Bytes} :
      isdigit first = true → first ≠ 48 → Digits rest →
      IsInteger (first :: rest)

inductive IsFraction : Bytes → Prop where
  | absent : IsFraction []
  | present {first : UInt8} {rest : Bytes} :
      isdigit first = true → Digits rest → IsFraction (46 :: first :: rest)

inductive IsExponent : Bytes → Prop where
  | absent : IsExponent []
  | present {mark first : UInt8} {sign rest : Bytes} :
      mark = 101 ∨ mark = 69 → sign = [] ∨ sign = [43] ∨ sign = [45] →
      isdigit first = true → Digits rest →
      IsExponent (mark :: (sign ++ first :: rest))

inductive IsNumber : Bytes → Prop where
  | number {sign whole fraction exponent : Bytes} :
      sign = [] ∨ sign = [45] → IsInteger whole → IsFraction fraction →
      IsExponent exponent → IsNumber (sign ++ whole ++ fraction ++ exponent)

/-- What may stand between quotes.  Escapes are left as they are. -/
inductive IsText : Bytes → Prop where
  | empty : IsText []
  | plain {byte : UInt8} {rest : Bytes} :
      byte ≠ 34 → byte ≠ 92 → iscntrl byte = false → IsText rest →
      IsText (byte :: rest)
  | escape {byte : UInt8} {rest : Bytes} :
      isEscape byte = true → IsText rest → IsText (92 :: byte :: rest)
  | unicode {hex rest : Bytes} :
      hex.length = 4 → (∀ byte ∈ hex, isxdigit byte = true) → IsText rest →
      IsText (92 :: 117 :: (hex ++ rest))

/-- What a text can denote: a value, a value between blanks, the pairs of an
object and the items of an array. -/
inductive Phrase (Double : Type) where
  | value (json : Json Double)
  | element (json : Json Double)
  | pair (key : Bytes) (json : Json Double)
  | pairs (members : List (Bytes × Json Double))
  | items (items : List (Json Double))

/-- The members of an object that holds these pairs: of two pairs with one key
the first counts. -/
def insertPairs {Double : Type} (members pairs : List (Bytes × Json Double)) :
    List (Bytes × Json Double) :=
  pairs.foldl (fun members pair => insertMember pair.1 pair.2 members) members

inductive Derives {Double : Type} (atof : Bytes → Double) :
    Phrase Double → Bytes → Prop where
  | number {text : Bytes} :
      IsNumber text → Derives atof (.value (.number (atof text))) text
  | string {text : Bytes} :
      IsText text → Derives atof (.value (.string text)) (34 :: (text ++ [34]))
  | true : Derives atof (.value (.bool true)) (ascii "true")
  | false : Derives atof (.value (.bool false)) (ascii "false")
  | null : Derives atof (.value .null) (ascii "null")
  | emptyObject {blank : Bytes} :
      Blank blank → Derives atof (.value (.object [])) (123 :: (blank ++ [125]))
  | object {members : List (Bytes × Json Double)} {text : Bytes} :
      Derives atof (.pairs members) text →
      Derives atof (.value (.object (insertPairs [] members)))
        (123 :: (text ++ [125]))
  | emptyArray {blank : Bytes} :
      Blank blank → Derives atof (.value (.array [])) (91 :: (blank ++ [93]))
  | array {items : List (Json Double)} {text : Bytes} :
      Derives atof (.items items) text →
      Derives atof (.value (.array items)) (91 :: (text ++ [93]))
  | element {json : Json Double} {before text after : Bytes} :
      Blank before → Derives atof (.value json) text → Blank after →
      Derives atof (.element json) (before ++ text ++ after)
  | pair {key before after text : Bytes} {json : Json Double} :
      Blank before → IsText key → Blank after →
      Derives atof (.element json) text →
      Derives atof (.pair key json)
        (before ++ 34 :: (key ++ 34 :: (after ++ 58 :: text)))
  | onePair {key text : Bytes} {json : Json Double} :
      Derives atof (.pair key json) text →
      Derives atof (.pairs [(key, json)]) text
  | morePairs {key text rest : Bytes} {json : Json Double}
      {members : List (Bytes × Json Double)} :
      Derives atof (.pair key json) text →
      Derives atof (.pairs members) rest →
      Derives atof (.pairs ((key, json) :: members)) (text ++ 44 :: rest)
  | oneItem {json : Json Double} {text : Bytes} :
      Derives atof (.element json) text → Derives atof (.items [json]) text
  | moreItems {json : Json Double} {items : List (Json Double)}
      {text rest : Bytes} :
      Derives atof (.element json) text → Derives atof (.items items) rest →
      Derives atof (.items (json :: items)) (text ++ 44 :: rest)

/-- The text is one value between blanks. -/
def Denotes {Double : Type} (atof : Bytes → Double) (text : Bytes)
    (json : Json Double) : Prop :=
  Derives atof (.element json) text

namespace Read

open Reader

def blanks : Reader UInt8 Bytes := span isWhitespace

def integer : Reader UInt8 Bytes := do
  let first ← expect isdigit
  if first = 48 then pure [48]
  else do
    let rest ← span isdigit
    pure (first :: rest)

/-- A digit and those behind it. -/
def digits (front : Bytes) : Reader UInt8 Bytes := do
  let first ← expect isdigit
  let rest ← span isdigit
  pure (front ++ first :: rest)

def fraction : Reader UInt8 Bytes := do
  let dot ← optional (· == 46)
  if dot = [] then pure [] else digits dot

def exponent : Reader UInt8 Bytes := do
  let mark ← optional (fun byte => byte == 101 || byte == 69)
  if mark = [] then pure []
  else do
    let sign ← optional (fun byte => byte == 43 || byte == 45)
    digits (mark ++ sign)

def number : Reader UInt8 Bytes := do
  let sign ← optional (· == 45)
  let whole ← integer
  let _ ← refuse isdigit
  let fraction ← fraction
  let exponent ← exponent
  pure (sign ++ whole ++ fraction ++ exponent)

def hex : Nat → Reader UInt8 Bytes
  | 0 => pure []
  | remaining + 1 => do
      let first ← expect isxdigit
      let rest ← hex remaining
      pure (first :: rest)

def escape : Reader UInt8 Bytes := do
  let byte ← expect (fun byte => isEscape byte || byte == 117)
  if isEscape byte then pure [92, byte]
  else do
    let digits ← hex 4
    pure (92 :: 117 :: digits)

/-- A character of a string behind those that have been read, or the closing
quote. -/
def character (text : Bytes) : Reader UInt8 (Bytes ⊕ Bytes) := do
  let byte ← expect (fun byte => !iscntrl byte)
  if byte = 34 then pure (.inr text)
  else if byte = 92 then do
    let escaped ← escape
    pure (.inl (text ++ escaped))
  else pure (.inl (text ++ [byte]))

def string : Reader UInt8 Bytes := do
  let _ ← blanks
  let _ ← expect (· == 34)
  forever character []

def specific : Bytes → Reader UInt8 Unit
  | [] => pure ()
  | expected :: rest => do
      let _ ← expect (· == expected)
      specific rest

section

variable {Double : Type} (atof : Bytes → Double)
  (value : Reader UInt8 (Json Double))

def pair : Reader UInt8 (Bytes × Json Double) := do
  let key ← string
  let _ ← blanks
  let _ ← specific (ascii ":")
  let json ← value
  pure (key, json)

/-- The end of an object, or one more pair. -/
def nextPair (members : List (Bytes × Json Double)) :
    Reader UInt8 (List (Bytes × Json Double) ⊕ List (Bytes × Json Double)) := do
  let byte ← expect (fun byte => byte == 125 || byte == 44)
  if byte = 125 then pure (.inr members)
  else do
    let pair ← pair value
    pure (.inl (insertMember pair.1 pair.2 members))

def object : Reader UInt8 (Json Double) := do
  let _ ← expect (· == 123)
  let _ ← blanks
  let closed ← optional (· == 125)
  if closed ≠ [] then pure (.object [])
  else do
    let first ← pair value
    let members ← forever (nextPair value) (insertMember first.1 first.2 [])
    pure (.object members)

/-- The end of an array, or one more item. -/
def nextItem (items : List (Json Double)) :
    Reader UInt8 (List (Json Double) ⊕ List (Json Double)) := do
  let byte ← expect (fun byte => byte == 93 || byte == 44)
  if byte = 93 then pure (.inr items)
  else do
    let json ← value
    pure (.inl (items ++ [json]))

def array : Reader UInt8 (Json Double) := do
  let _ ← expect (· == 91)
  let _ ← blanks
  let closed ← optional (· == 93)
  if closed ≠ [] then pure (.array [])
  else do
    let first ← value
    let items ← forever (nextItem value) [first]
    pure (.array items)

def bool : Reader UInt8 (Json Double) := do
  let first ← peek
  if first = some 116 then do
    let _ ← specific (ascii "true")
    pure (.bool true)
  else do
    let _ ← specific (ascii "false")
    pure (.bool false)

def ofKind : Parser.Kind → Reader UInt8 (Json Double)
  | .number => do
      let text ← number
      pure (.number (atof text))
  | .string => do
      let text ← string
      pure (.string text)
  | .bool => bool
  | .null => do
      let _ ← specific (ascii "null")
      pure .null
  | .object => object value
  | .array => array value

def bare : Reader UInt8 (Json Double) := do
  let first ← peek
  ofKind atof value (Parser.kindOf (first.getD 0))

/-- A value between blanks, nested at most this deep. -/
def element : Nat → Reader UInt8 (Json Double)
  | 0 => fail
  | depth + 1 => do
      let _ ← blanks
      let json ← bare atof (element depth)
      let _ ← blanks
      pure json

/-- A value between blanks, and nothing behind it. -/
def document (depth : Nat) : Reader UInt8 (Json Double) := do
  let json ← element atof (depth + 1)
  let _ ← refuse (fun _ => true)
  pure json

end

end Read

end Natsu.Ggicci
