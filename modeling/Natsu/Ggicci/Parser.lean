import Natsu.Foundation.ByteString

/-!
# The parser of gci-json

`Json::Parser` walks over a C string with one position.  It reads the next
character, and steps back over one that it has only looked at.  Every syntax
error is an `UnexpectedTokenException` with the character and the position at
which it is thrown.
-/

namespace Natsu.Ggicci

open Natsu.Foundation

/-- A value.  The members of an object are a `std::map`, which is kept in the
order of its keys.  The text of a string is kept with its escapes. -/
inductive Json (Double : Type) where
  | number (num : Double)
  | string (str : Bytes)
  | bool (boo : Bool)
  | null
  | object (members : List (Bytes × Json Double))
  | array (items : List (Json Double))

/-- `std::map::insert`, which changes nothing where the key is known. -/
def insertMember {Value : Type} (key : Bytes) (value : Value) :
    List (Bytes × Value) → List (Bytes × Value)
  | [] => [(key, value)]
  | (other, known) :: rest =>
      if key = other then (other, known) :: rest
      else if key < other then (key, value) :: (other, known) :: rest
      else (other, known) :: insertMember key value rest

/-- The character types of `ctype.h` in the C locale. -/
def isdigit (byte : UInt8) : Bool := 48 ≤ byte && byte ≤ 57

def isxdigit (byte : UInt8) : Bool :=
  isdigit byte || (65 ≤ byte && byte ≤ 70) || (97 ≤ byte && byte ≤ 102)

def iscntrl (byte : UInt8) : Bool := byte < 32 || byte == 127

/-- The blanks that `SkipWhitespaces` skips. -/
def isWhitespace (byte : UInt8) : Bool :=
  byte == 32 || byte == 9 || byte == 10 || byte == 13

/-- The characters that may stand behind a backslash, besides `u`. -/
def isEscape (byte : UInt8) : Bool :=
  byte == 34 || byte == 92 || byte == 47 || byte == 98 || byte == 102 ||
    byte == 110 || byte == 114 || byte == 116

structure Parser where
  source : Bytes
  pos : Int := -1
  character : UInt8 := 32
  token : Bytes := []

/-- How parsing stops without a value: an `UnexpectedTokenException`, a read
behind the terminating NUL, or a model that has run out of rounds. -/
inductive Fault where
  | unexpectedToken (character : UInt8) (pos : Int)
  | outside
  | exhausted
  deriving DecidableEq

def Action (α : Type) : Type := Parser → Except Fault α × Parser

instance : Monad Action where
  pure value := fun parser => (.ok value, parser)
  bind act next := fun parser =>
    match act parser with
    | (.ok value, parser) => next value parser
    | (.error fault, parser) => (.error fault, parser)

namespace Parser

variable {α γ δ σ : Type}

theorem bind_ok {act : Action α} {next : α → Action γ} {parser after : Parser}
    {value : α} (done : act parser = (.ok value, after)) :
    (act >>= next) parser = next value after := by
  change (match act parser with
    | (.ok value, parser) => next value parser
    | (.error fault, parser) => (.error fault, parser)) = _
  rw [done]

theorem bind_error {act : Action α} {next : α → Action γ}
    {parser after : Parser} {fault : Fault}
    (thrown : act parser = (.error fault, after)) :
    (act >>= next) parser = (.error fault, after) := by
  change (match act parser with
    | (.ok value, parser) => next value parser
    | (.error fault, parser) => (.error fault, parser)) = _
  rw [thrown]

theorem bind_bind {act : Action α} {next : α → Action γ}
    {last : γ → Action δ} (parser : Parser) :
    (act >>= next >>= last) parser =
      (act >>= fun value => next value >>= last) parser := by
  cases isDone : act parser with
  | mk outcome after =>
      cases outcome with
      | error fault =>
          rw [bind_error isDone, bind_error (bind_error isDone)]
      | ok value =>
          rw [bind_ok isDone]
          cases isNext : next value after with
          | mk second final =>
              cases second with
              | error fault =>
                  rw [bind_error isNext,
                    bind_error ((bind_ok isDone).trans isNext)]
              | ok second =>
                  rw [bind_ok isNext, bind_ok ((bind_ok isDone).trans isNext)]

theorem map_same (act : Action α) : id <$> act = act := by
  funext parser
  change (match act parser with
    | (.ok value, after) => (.ok value, after)
    | (.error fault, after) => (.error fault, after)) = act parser
  split
  · next isDone => exact isDone.symm
  · next isDone => exact isDone.symm

instance : LawfulMonad Action :=
  LawfulMonad.mk' Action map_same (fun _ _ => rfl)
    fun _ _ _ => funext bind_bind

/-- `*(source + index)`: the terminating NUL stands behind the last byte. -/
def byteAt (source : Bytes) (index : Int) : Option UInt8 :=
  (source ++ [0])[index.toNat]?

def unexpectedToken : Action α := fun parser =>
  (.error (.unexpectedToken parser.character parser.pos), parser)

def nextCharacter : Action UInt8 := fun parser =>
  if 0 ≤ parser.pos ∧ byteAt parser.source parser.pos = some 0 then
    unexpectedToken parser
  else
    match byteAt parser.source (parser.pos + 1) with
    | none => (.error .outside, parser)
    | some character =>
        (.ok character,
          { parser with pos := parser.pos + 1, character := character })

def retract : Action Unit := fun parser =>
  (.ok (), { parser with pos := parser.pos - 1, character := 32 })

/-- `pos--` alone. -/
def stepBack : Action Unit := fun parser =>
  (.ok (), { parser with pos := parser.pos - 1 })

def concat : Action Unit := fun parser =>
  (.ok (), { parser with token := parser.token ++ [parser.character] })

def clearToken : Action Unit := fun parser =>
  (.ok (), { parser with token := [] })

/-- Go on as the current character says. -/
def withCharacter (next : UInt8 → Action α) : Action α := fun parser =>
  next parser.character parser

/-- Go on with the text of the token. -/
def withToken (next : Bytes → α) : Action α := fun parser =>
  (.ok (next parser.token), parser)

def repeatFor (body : σ → Action (σ ⊕ α)) : Nat → σ → Action α
  | 0, _ => fun parser => (.error .exhausted, parser)
  | rounds + 1, state => do
      match ← body state with
      | .inl next => repeatFor body rounds next
      | .inr value => pure value

/-- `while (true)`. -/
def whileTrue (body : σ → Action (σ ⊕ α)) (state : σ) : Action α :=
  fun parser => repeatFor body (parser.source.length + 2) state parser

def skipWhitespaces : Action Unit :=
  whileTrue (fun _ => do
    let ch ← nextCharacter
    if isWhitespace ch then pure (.inl ())
    else do
      stepBack
      pure (.inr ())) ()

/-- `Json::Kind`. -/
inductive Kind where
  | number
  | string
  | bool
  | null
  | object
  | array
  deriving DecidableEq

def kindOf (character : UInt8) : Kind :=
  if character = 34 then .string
  else if character = 116 ∨ character = 102 then .bool
  else if character = 110 then .null
  else if character = 123 then .object
  else if character = 91 then .array
  else .number

def kindDetect : Action Kind := do
  let character ← nextCharacter
  retract
  pure (kindOf character)

/-- `if (!isdigit(character)) { UnexpectedToken(); }` and `Concat()`. -/
def concatDigit : Action Unit :=
  withCharacter fun character =>
    if isdigit character then concat else unexpectedToken

/-- The loop of `ConsumeNumber` that steps back over what is no digit. -/
def concatDigits : Action Unit :=
  whileTrue (fun _ => do
    let character ← nextCharacter
    if isdigit character then do
      concat
      pure (.inl ())
    else do
      retract
      pure (.inr ())) ()

/-- The loop behind a dot, which leaves what is no digit as the current
character. -/
def concatDecimals : Action Unit :=
  whileTrue (fun _ => do
    let character ← nextCharacter
    if isdigit character then do
      concat
      pure (.inl ())
    else pure (.inr ())) ()

/-- The sign of a number, and the character behind it. -/
def consumeSign : Action Unit := do
  let character ← nextCharacter
  if character = 45 then do
    concat
    let _ ← nextCharacter
    pure ()
  else pure ()

/-- The first digit, and those behind one that is not 0. -/
def consumeInteger : Action Unit :=
  withCharacter fun character => do
    concatDigit
    if character = 48 then pure () else concatDigits

/-- The dot and the digits behind it.  The character behind them is read. -/
def consumeFraction : Action Unit := do
  let character ← nextCharacter
  if isdigit character then unexpectedToken
  else if character = 46 then do
    concat
    let _ ← nextCharacter
    concatDigit
    concatDecimals
  else pure ()

def consumeExponentSign : Action Unit := do
  let character ← nextCharacter
  if character = 43 ∨ character = 45 then concat
  else if isdigit character then retract
  else unexpectedToken

/-- The exponent of the scientific notation, or a step back. -/
def consumeExponent : Action Unit :=
  withCharacter fun character =>
    if character = 101 ∨ character = 69 then do
      concat
      consumeExponentSign
      let _ ← nextCharacter
      concatDigit
      concatDigits
    else retract

/-- The hexadecimal digits behind `\u`. -/
def concatHex : Nat → Action Unit
  | 0 => pure ()
  | remaining + 1 => do
      let character ← nextCharacter
      if isxdigit character then do
        concat
        concatHex remaining
      else unexpectedToken

def consumeEscape : Action Unit := do
  concat
  let character ← nextCharacter
  if isEscape character then concat
  else if character = 117 then do
    concat
    concatHex 4
  else unexpectedToken

/-- A character between the quotes. -/
def consumeCharacter : Action Unit :=
  withCharacter fun character =>
    if character = 92 then consumeEscape
    else if iscntrl character then unexpectedToken
    else concat

/-- The loop of `ConsumeString`. -/
def consumeText : Action Unit :=
  whileTrue (fun _ => do
    let character ← nextCharacter
    if character = 34 then pure (.inr ())
    else do
      consumeCharacter
      pure (.inl ())) ()

/-- The text between the quotes. -/
def consumeString : Action Bytes := do
  skipWhitespaces
  let character ← nextCharacter
  if character = 34 then do
    clearToken
    consumeText
    withToken id
  else unexpectedToken

def consumeSpecific : Bytes → Action Unit
  | [] => pure ()
  | expected :: rest => do
      let character ← nextCharacter
      if character = expected then consumeSpecific rest else unexpectedToken

section

variable {Double : Type} (atof : Bytes → Double)

def consumeNumber : Action (Json Double) := do
  clearToken
  consumeSign
  consumeInteger
  consumeFraction
  consumeExponent
  withToken fun token => .number (atof token)

def consumeBool : Action (Json Double) := do
  let ch ← nextCharacter
  retract
  if ch = 116 then do
    consumeSpecific (ascii "true")
    pure (.bool true)
  else do
    consumeSpecific (ascii "false")
    pure (.bool false)

def consumeNull : Action (Json Double) := do
  consumeSpecific (ascii "null")
  pure .null

/-- `ConsumePair`, where `value` is `ConsumeValue`. -/
def consumePair (value : Action (Json Double)) :
    Action (Bytes × Json Double) := do
  let key ← consumeString
  skipWhitespaces
  consumeSpecific (ascii ":")
  let json ← value
  pure (cstr key, json)

/-- The `try` block that inserts a pair.  A syntax error is thrown again as
the parser stands. -/
def insertPair (value : Action (Json Double))
    (members : List (Bytes × Json Double)) :
    Action (List (Bytes × Json Double)) := fun parser =>
  match consumePair value parser with
  | (.ok (key, json), parser) => (.ok (insertMember key json members), parser)
  | (.error (.unexpectedToken _ _), parser) => unexpectedToken parser
  | (.error fault, parser) => (.error fault, parser)

def consumeObject (value : Action (Json Double)) : Action (Json Double) := do
  let character ← nextCharacter
  if character = 123 then do
    skipWhitespaces
    let character ← nextCharacter
    if character = 125 then pure (.object [])
    else do
      retract
      let members ← insertPair value []
      let members ← whileTrue (fun members => do
        let character ← nextCharacter
        if character = 125 then pure (.inr members)
        else if character = 44 then do
          let members ← insertPair value members
          pure (.inl members)
        else unexpectedToken) members
      pure (.object members)
  else unexpectedToken

/-- The `try` block that appends an item. -/
def pushItem (value : Action (Json Double)) (items : List (Json Double)) :
    Action (List (Json Double)) := fun parser =>
  match value parser with
  | (.ok json, parser) => (.ok (items ++ [json]), parser)
  | (.error (.unexpectedToken _ _), parser) => unexpectedToken parser
  | (.error fault, parser) => (.error fault, parser)

def consumeArray (value : Action (Json Double)) : Action (Json Double) := do
  let character ← nextCharacter
  if character = 91 then do
    skipWhitespaces
    let character ← nextCharacter
    if character = 93 then pure (.array [])
    else do
      retract
      let items ← pushItem value []
      let items ← whileTrue (fun items => do
        let character ← nextCharacter
        if character = 93 then pure (.inr items)
        else if character = 44 then do
          let items ← pushItem value items
          pure (.inl items)
        else unexpectedToken) items
      pure (.array items)
  else unexpectedToken

/-- The consumer of a kind. -/
def consumer (value : Action (Json Double)) : Kind → Action (Json Double)
  | .number => consumeNumber atof
  | .string => do
      let token ← consumeString
      pure (.string token)
  | .bool => consumeBool
  | .null => consumeNull
  | .object => consumeObject value
  | .array => consumeArray value

/-- `ConsumeValue` for a value inside another, nested at most this deep. -/
def consumeValue : Nat → Action (Json Double)
  | 0 => fun parser => (.error .exhausted, parser)
  | depth + 1 => do
      skipWhitespaces
      let kind ← kindDetect
      let json ← consumer atof (consumeValue depth) kind
      skipWhitespaces
      pure json

/-- `ConsumeValue(false)`: the value has to end with the text. -/
def consumeDocument (depth : Nat) : Action (Json Double) := do
  skipWhitespaces
  let kind ← kindDetect
  let json ← consumer atof (consumeValue atof depth) kind
  withCharacter fun character =>
    if character = 0 then pure json
    else do
      skipWhitespaces
      let character ← nextCharacter
      if character = 0 then pure json else unexpectedToken

/-- `Json::Parse`.  No value is nested deeper than the text is long. -/
def parse (json_string : Bytes) : Except Fault (Json Double) :=
  (consumeDocument atof (cstr json_string).length
    { source := cstr json_string }).1

end

end Parser

end Natsu.Ggicci
