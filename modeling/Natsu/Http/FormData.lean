import Mathlib.Data.List.Find
import Natsu.Http.Text
import Natsu.Http.Url

/-!
# Form data

`data` looks a name up in the query of a GET request, or in the body of a POST
request whose media type is the one it compares with.  `curl_unescape` is a
parameter: the bytes of its result, for a string and a length.
-/

namespace Natsu.Http

open Natsu.Foundation

section Lookup

variable (curlUnescape : Bytes → Int → Bytes)

/-- The name and the value of a token.  Without `=` the name is
`substr(0, npos - 1)`. -/
def tokenPair (token : Bytes) : Bytes × Bytes :=
  match find (ascii "=") token with
  | some pos =>
      let v := substr token (pos + 1) npos
      (substr token 0 pos, cstr (curlUnescape v (toInt v.length)))
  | none => (substr token 0 (npos - 1), [])

/-- The loop over the tokens, which both branches of `data` have. -/
def searchTokens (q : Bytes) : List Bytes → Bytes
  | [] => []
  | token :: tokens =>
      let pair := tokenPair curlUnescape token
      if pair.1 = q then pair.2 else searchTokens q tokens

def HttpRequest.data (request : HttpRequest) (q : Bytes) : Bytes :=
  match request.method with
  | some .GET =>
      searchTokens curlUnescape q (tokenize request.query (ascii "&"))
  | some .POST =>
      if request.header (ascii "content-type") =
          ascii "application/x-www-from-urlencoded" then
        searchTokens curlUnescape q (tokenize request.body (ascii "&"))
      else []
  | _ => []

end Lookup

/-- The unreserved characters of a URL. -/
def unreserved (byte : UInt8) : Bool :=
  (97 ≤ byte && byte ≤ 122) || (65 ≤ byte && byte ≤ 90) ||
    (48 ≤ byte && byte ≤ 57) || byte == 45 || byte == 46 || byte == 95 ||
    byte == 126

def hexByte (digit : Nat) : UInt8 :=
  if digit < 10 then UInt8.ofNat (48 + digit) else UInt8.ofNat (55 + digit)

def encodeByte (byte : UInt8) : Bytes :=
  if unreserved byte then [byte]
  else [37, hexByte (byte.toNat / 16), hexByte (byte.toNat % 16)]

/-- Percent-encoding. -/
def percentEncode (text : Bytes) : Bytes := text.flatMap encodeByte

def pairText (pair : Bytes × Bytes) : Bytes :=
  pair.1 ++ ascii "=" ++ percentEncode pair.2

def queryText (pairs : List (Bytes × Bytes)) : Bytes :=
  (ascii "&").intercalate (pairs.map pairText)

/-- The bytes that a name, a value or a percent sign can have in a query. -/
def Ordinary (byte : UInt8) : Prop := unreserved byte = true ∨ byte = 37

theorem Ordinary.avoids {byte : UInt8} (ordinary : Ordinary byte) :
    byte ≠ 38 ∧ byte ≠ 61 ∧ byte ≠ 35 ∧ byte ≠ 59 ∧ byte ≠ 63 := by
  refine ⟨?_, ?_, ?_, ?_, ?_⟩ <;> rintro rfl <;>
    simp [Ordinary, unreserved] at ordinary

theorem unreserved_hexByte : ∀ digit < 16, unreserved (hexByte digit) = true := by
  decide

theorem ordinary_of_mem_percentEncode {text : Bytes} {byte : UInt8}
    (member : byte ∈ percentEncode text) : Ordinary byte := by
  obtain ⟨plain, _, inside⟩ := List.mem_flatMap.mp member
  unfold encodeByte at inside
  have small := plain.toNat_lt
  split at inside
  · rename_i isUnreserved
    obtain rfl := List.mem_singleton.mp inside
    exact .inl isUnreserved
  · simp only [List.mem_cons, List.not_mem_nil, or_false] at inside
    rcases inside with rfl | rfl | rfl
    · exact .inr rfl
    · exact .inl (unreserved_hexByte _ (by omega))
    · exact .inl (unreserved_hexByte _ (by omega))

/-- A list of pairs that a query can be written from. -/
structure Encodable (pairs : List (Bytes × Bytes)) : Prop where
  named : ∀ pair ∈ pairs, pair.1 ≠ []
  unreservedNames : ∀ pair ∈ pairs, pair.1.all unreserved = true
  noNul : ∀ pair ∈ pairs, (0 : UInt8) ∉ pair.2

section Recovery

variable {curlUnescape : Bytes → Int → Bytes} {pairs : List (Bytes × Bytes)}
  {request : HttpRequest} {document : Bytes}

theorem ordinary_of_mem_name (encodable : Encodable pairs)
    {pair : Bytes × Bytes} (member : pair ∈ pairs) {byte : UInt8}
    (inside : byte ∈ pair.1) : Ordinary byte :=
  .inl (List.all_eq_true.mp (encodable.unreservedNames pair member) byte inside)

/-- No separator but `=` is in the text of a pair. -/
theorem avoids_of_mem_pairText (encodable : Encodable pairs)
    {pair : Bytes × Bytes} (member : pair ∈ pairs) {byte : UInt8}
    (inside : byte ∈ pairText pair) :
    byte ≠ 38 ∧ byte ≠ 35 ∧ byte ≠ 59 := by
  simp only [pairText, List.mem_append] at inside
  rcases inside with (inName | isEqual) | inValue
  · have avoids := (ordinary_of_mem_name encodable member inName).avoids
    exact ⟨avoids.1, avoids.2.2.1, avoids.2.2.2.1⟩
  · obtain rfl : byte = 61 := by simpa [ascii] using isEqual
    decide
  · have avoids := (ordinary_of_mem_percentEncode inValue).avoids
    exact ⟨avoids.1, avoids.2.2.1, avoids.2.2.2.1⟩

/-- A token is split at its first `=`. -/
theorem tokenPair_split {name : Bytes} (absent : (61 : UInt8) ∉ name)
    {value : Bytes} (fits : value.length ≤ npos) :
    tokenPair curlUnescape (name ++ 61 :: value) =
      (name, cstr (curlUnescape value (toInt value.length))) := by
  have found : find (ascii "=") (name ++ 61 :: value) = some name.length :=
    find_byte 61 absent value
  have isName : substr (name ++ 61 :: value) 0 name.length = name := by
    rw [substr, List.drop_zero, List.take_left]
  have isValue : substr (name ++ 61 :: value) (name.length + 1) npos =
      value := by
    rw [substr_behind, List.take_of_length_le fits]
  simp only [tokenPair, found, isName, isValue]

theorem tokenPair_pairText (encodable : Encodable pairs)
    {pair : Bytes × Bytes} (member : pair ∈ pairs)
    (fits : (pairText pair).length ≤ npos)
    (inverts : curlUnescape (percentEncode pair.2)
      (toInt (percentEncode pair.2).length) = pair.2) :
    tokenPair curlUnescape (pairText pair) = pair := by
  have noEqual : (61 : UInt8) ∉ pair.1 := fun inside =>
    (ordinary_of_mem_name encodable member inside).avoids.2.1 rfl
  have written : pairText pair = pair.1 ++ 61 :: percentEncode pair.2 := by
    simp [pairText, ascii]
  rw [written, List.length_append, List.length_cons] at fits
  rw [written, tokenPair_split noEqual (by omega), inverts,
    cstr_eq_self (encodable.noNul pair member)]

theorem searchTokens_pairs (pairs : List (Bytes × Bytes))
    (read : ∀ pair ∈ pairs, tokenPair curlUnescape (pairText pair) = pair)
    (q : Bytes) :
    searchTokens curlUnescape q (pairs.map pairText) =
      (pairs.lookup q).getD [] := by
  induction pairs with
  | nil => rfl
  | cons pair pairs induction =>
      have rest := induction fun other member =>
        read other (List.mem_cons_of_mem _ member)
      obtain ⟨name, value⟩ := pair
      simp only [List.map_cons, searchTokens, read _ List.mem_cons_self]
      by_cases same : name = q
      · subst same
        rw [if_pos rfl, List.lookup_cons, beq_self_eq_true]
        rfl
      · have different : (q == name) = false := by
          simpa using fun equality => same equality.symm
        rw [if_neg same, rest, List.lookup_cons, different]

theorem tokenize_ampersand {text : Bytes} (fits : text.length ≤ npos) :
    tokenize text (ascii "&") = (text.splitOn 38).filter (· ≠ []) := by
  have isSplit : (fun byte => decide (byte ∈ ascii "&")) =
      fun byte : UInt8 => byte == 38 := by
    funext byte
    simp [ascii, beq_eq_decide]
  rw [tokenize_eq fits, List.splitOn_eq_splitOnP, isSplit]

theorem tokenize_queryText (encodable : Encodable pairs)
    (fits : (queryText pairs).length ≤ npos) :
    tokenize (queryText pairs) (ascii "&") = pairs.map pairText := by
  have parts : ∀ text ∈ pairs.map pairText, text ≠ [] ∧ (38 : UInt8) ∉ text := by
    intro text member
    obtain ⟨pair, isPair, rfl⟩ := List.mem_map.mp member
    refine ⟨?_, fun inside =>
      (avoids_of_mem_pairText encodable isPair inside).1 rfl⟩
    simp [pairText, encodable.named pair isPair]
  rw [tokenize_ampersand fits]
  cases pairs with
  | nil => simp [queryText]
  | cons pair pairs =>
      have split := List.splitOn_intercalate (38 : UInt8)
        (fun text member => (parts text member).2) (by simp)
      rw [queryText, show ascii "&" = [38] from rfl, split]
      rw [List.filter_eq_self]
      intro text member
      simpa using (parts text member).1

/-- Looking up a name in an encoded query gives its first value. -/
theorem data_of_queryText (isGet : request.method = some .GET)
    (isPath : request.path = document ++ 63 :: queryText pairs)
    (fits : request.path.length ≤ npos)
    (documentPlain : Component.Plain document) (encodable : Encodable pairs)
    (inverts : ∀ pair ∈ pairs, curlUnescape (percentEncode pair.2)
      (toInt (percentEncode pair.2).length) = pair.2) (q : Bytes) :
    request.data curlUnescape q = (pairs.lookup q).getD [] := by
  have queryFits : (queryText pairs).length ≤ npos := by
    rw [isPath, List.length_append, List.length_cons] at fits
    omega
  have avoids : ∀ byte ∈ queryText pairs, byte ≠ 35 ∧ byte ≠ 59 := by
    intro byte inside
    rcases mem_intercalate inside with isSeparator | ⟨text, member, inText⟩
    · obtain rfl : byte = 38 := by simpa [ascii] using isSeparator
      decide
    · obtain ⟨pair, isPair, rfl⟩ := List.mem_map.mp member
      exact (avoids_of_mem_pairText encodable isPair inText).2
  have isQuery : request.query = queryText pairs := by
    apply query_eq isPath fits documentPlain
    · exact fun inside => (avoids 35 inside).1 rfl
    · exact fun inside => (avoids 59 inside).2 rfl
  simp only [HttpRequest.data, isGet, isQuery]
  rw [tokenize_queryText encodable queryFits]
  apply searchTokens_pairs
  intro pair member
  have shorter := length_le_intercalate (ascii "&")
    (List.mem_map_of_mem (f := pairText) member)
  exact tokenPair_pairText encodable member (Nat.le_trans shorter queryFits)
    (inverts pair member)

end Recovery

/-- The name of a token. -/
def formName (token : Bytes) : Bytes := token.takeWhile (· ≠ 61)

/-- The value of a token, before `curl_unescape`. -/
def formValue (token : Bytes) : Option Bytes :=
  if 61 ∈ token then some (token.dropWhile (· ≠ 61)).tail else none

/-- The first token of a form with this name. -/
def firstNamed (s q : Bytes) : Option Bytes :=
  ((s.splitOn 38).filter (· ≠ [])).find? fun token => formName token = q

section Agreement

variable {curlUnescape : Bytes → Int → Bytes}

theorem tokenPair_eq {token : Bytes} (fits : token.length < npos) :
    tokenPair curlUnescape token =
      (formName token, ((formValue token).map fun value =>
        cstr (curlUnescape value (toInt value.length))).getD []) := by
  by_cases member : 61 ∈ token
  · obtain ⟨front, back, rfl, absent⟩ := List.eq_append_cons_of_mem member
    have isName : formName (front ++ 61 :: back) = front := by
      rw [formName, List.takeWhile_append_of_pos (by
        intro byte inside
        simpa using fun same : byte = 61 => absent (same ▸ inside))]
      simp
    have isValue : formValue (front ++ 61 :: back) = some back := by
      rw [formValue, if_pos member, List.dropWhile_append_of_pos (by
        intro byte inside
        simpa using fun same : byte = 61 => absent (same ▸ inside))]
      simp
    rw [List.length_append, List.length_cons] at fits
    rw [tokenPair_split absent (by omega), isName, isValue]
    rfl
  · have notFound : find (ascii "=") token = none := find_byte_eq_none member
    have whole : formName token = token := by
      rw [formName, List.takeWhile_eq_self_iff]
      intro byte inside
      simpa using fun same : byte = 61 => member (same ▸ inside)
    have all : substr token 0 (npos - 1) = token := by
      rw [substr, List.drop_zero]
      apply List.take_of_length_le
      omega
    simp only [tokenPair, notFound, all, whole, formValue, if_neg member,
      Option.map_none, Option.getD_none]

theorem searchTokens_eq (tokens : List Bytes) (q : Bytes) :
    searchTokens curlUnescape q tokens =
      ((tokens.find? fun token => (tokenPair curlUnescape token).1 = q).map
        fun token => (tokenPair curlUnescape token).2).getD [] := by
  induction tokens with
  | nil => rfl
  | cons token tokens induction =>
      simp only [searchTokens, List.find?_cons]
      by_cases same : (tokenPair curlUnescape token).1 = q
      · simp [same]
      · simp [same, induction]

theorem get_data_eq {request : HttpRequest} {document s : Bytes}
    (isGet : request.method = some .GET)
    (isPath : request.path = document ++ 63 :: s)
    (fits : request.path.length ≤ npos)
    (documentPlain : Component.Plain document)
    (noFragment : (35 : UInt8) ∉ s) (noParameters : (59 : UInt8) ∉ s)
    (q : Bytes) :
    request.data curlUnescape q =
      ((firstNamed s q).bind fun token => (formValue token).map fun value =>
        cstr (curlUnescape value (toInt value.length))).getD [] := by
  have shorter : s.length < npos := by
    rw [isPath, List.length_append, List.length_cons] at fits
    omega
  simp only [HttpRequest.data, isGet,
    query_eq isPath fits documentPlain noFragment noParameters]
  rw [searchTokens_eq, tokenize_ampersand (Nat.le_of_lt shorter)]
  have pairs : ∀ token ∈ (s.splitOn 38).filter (· ≠ []),
      tokenPair curlUnescape token = (formName token,
        ((formValue token).map fun value =>
          cstr (curlUnescape value (toInt value.length))).getD []) := by
    intro token member
    have part := length_le_intercalate [38] (List.mem_of_mem_filter member)
    rw [List.intercalate_splitOn] at part
    exact tokenPair_eq (Nat.lt_of_le_of_lt part shorter)
  have found : (((s.splitOn 38).filter (· ≠ [])).find? fun token =>
      (tokenPair curlUnescape token).1 = q) = firstNamed s q := by
    apply List.find?_congr
    intro token member
    rw [pairs token member]
  rw [found]
  cases isFirst : firstNamed s q with
  | none => rfl
  | some token =>
      simp only [Option.map_some, Option.bind_some, Option.getD_some,
        pairs token (List.mem_of_find?_eq_some isFirst)]

/-- The media type that `data` compares with is not the one of forms, so data in
the body is only found where the query has none to find. -/
theorem post_data_eq_get_data_iff {post get : HttpRequest} {document s : Bytes}
    (isPost : post.method = some .POST)
    (isForm : post.header (ascii "content-type") =
      ascii "application/x-www-form-urlencoded")
    (_isBody : post.body = s) (isGet : get.method = some .GET)
    (isPath : get.path = document ++ 63 :: s)
    (fits : get.path.length ≤ npos)
    (documentPlain : Component.Plain document)
    (noFragment : (35 : UInt8) ∉ s) (noParameters : (59 : UInt8) ∉ s)
    (q : Bytes) :
    post.data curlUnescape q = get.data curlUnescape q ↔
      ∀ token ∈ firstNamed s q, ∀ value ∈ formValue token,
        cstr (curlUnescape value (toInt value.length)) = [] := by
  have nothing : post.data curlUnescape q = [] := by
    have otherType : ascii "application/x-www-form-urlencoded" ≠
        ascii "application/x-www-from-urlencoded" := by decide
    simp only [HttpRequest.data, isPost, isForm, if_neg otherType]
  rw [nothing, get_data_eq isGet isPath fits documentPlain noFragment
    noParameters]
  cases firstNamed s q with
  | none => simp
  | some token =>
      cases isValue : formValue token with
      | none => simp [isValue]
      | some value =>
          rw [Option.bind_some, isValue, Option.map_some, Option.getD_some]
          constructor
          · intro isEmpty other isToken otherValue isOther
            obtain rfl := Option.some.inj isToken
            obtain rfl := Option.some.inj (isValue.symm.trans isOther)
            exact isEmpty.symm
          · intro empty
            exact (empty token rfl value isValue).symm

end Agreement

namespace Example

/-- What `curl_unescape` does with a string without NUL. -/
def unescape (text : Bytes) (length : Int) : Bytes :=
  decode (if length = 0 then cstr text else text.take length.toNat)
where
  decode : Bytes → Bytes
    | 37 :: high :: low :: rest =>
        match leadingDigits 16 [high, low] with
        | [first, second] => UInt8.ofNat (first * 16 + second) :: decode rest
        | _ => 37 :: decode (high :: low :: rest)
    | byte :: rest => byte :: decode rest
    | [] => []

/-- Two values for one name, the first with an ampersand in it. -/
theorem data_of_queryText_repeated :
    Encodable [(ascii "a", ascii "x&y"), (ascii "a", ascii "2")] ∧
      queryText [(ascii "a", ascii "x&y"), (ascii "a", ascii "2")] =
        ascii "a=x%26y&a=2" ∧
      ({ method := some .GET, path := ascii "/f?a=x%26y&a=2" } :
        HttpRequest).data unescape (ascii "a") = ascii "x&y" := by
  have encodable :
      Encodable [(ascii "a", ascii "x&y"), (ascii "a", ascii "2")] :=
    ⟨by decide, by decide, by decide⟩
  have isPath : ({ method := some .GET, path := ascii "/f?a=x%26y&a=2" } :
      HttpRequest).path = ascii "/f" ++ 63 :: queryText
        [(ascii "a", ascii "x&y"), (ascii "a", ascii "2")] := by decide
  exact ⟨encodable, by decide, data_of_queryText rfl isPath (by decide)
    (by decide) encodable (by decide) (ascii "a")⟩

def getForm : HttpRequest where
  method := some .GET
  path := ascii "/f?a=1"

def postForm : HttpRequest where
  method := some .POST
  path := ascii "/f"
  headers := .ofList [(ascii "content-type",
    ascii "application/x-www-form-urlencoded")]
  body := ascii "a=1"

theorem post_data_lost :
    postForm.header (ascii "content-type") =
        ascii "application/x-www-form-urlencoded" ∧
      getForm.path = ascii "/f" ++ 63 :: postForm.body ∧
      postForm.data unescape (ascii "a") = [] ∧
      getForm.data unescape (ascii "a") = ascii "1" := by
  decide +kernel

/-- A name that the form does not have. -/
theorem post_data_eq_get_data_iff_absent :
    firstNamed (ascii "a=1") (ascii "b") = none ∧
      postForm.data unescape (ascii "b") =
        getForm.data unescape (ascii "b") := by
  have absent : firstNamed (ascii "a=1") (ascii "b") = none := by decide
  have isForm : postForm.header (ascii "content-type") =
      ascii "application/x-www-form-urlencoded" := by decide +kernel
  have isBody : postForm.body = ascii "a=1" := rfl
  have isPath : getForm.path = ascii "/f" ++ 63 :: ascii "a=1" := by decide
  refine ⟨absent, (post_data_eq_get_data_iff rfl isForm isBody rfl isPath
    (by decide) (by decide) (by decide) (by decide) _).mpr ?_⟩
  simp [absent]

end Example

end Natsu.Http
