import Mathlib.Data.List.Induction
import Natsu.Foundation.ByteString

/-!
# HTTP requests

The request object that the parser fills.  `header_` is an ordered map from
lower-case names; `method_` has no value until the request line is read.
-/

namespace Natsu.Http

open Natsu.Foundation

inductive Method where
  | PUT
  | GET
  | POST
  | DELETE
  deriving DecidableEq, Repr

structure HttpRequest where
  method : Option Method := none
  path : Bytes
  headers : Std.ExtTreeMap Bytes Bytes := ∅
  body : Bytes := []

namespace HttpRequest

/-- The value of a header, empty when there is none. -/
def header (request : HttpRequest) (name : Bytes) : Bytes :=
  (request.headers[name]?).getD []

def setHeader (request : HttpRequest) (name value : Bytes) : HttpRequest :=
  { request with headers := request.headers.insert name value }

/-- The path before its parameters, query and fragment.  `npos` is larger than
every position. -/
def document (request : HttpRequest) : Bytes :=
  let npos := 2 ^ 64 - 1
  let posP := find [59] request.path
  let posF := find [35] request.path
  let posQ := find [63] request.path
  if posP = none ∧ posF = none ∧ posQ = none then request.path
  else
    request.path.take
      (min (posP.getD npos) (min (posF.getD npos) (posQ.getD npos)))

@[simp] theorem header_setHeader_self (request : HttpRequest)
    (name value : Bytes) :
    (request.setHeader name value).header name = value := by
  simp [header, setHeader]

theorem header_setHeader_of_ne (request : HttpRequest)
    {name other : Bytes} (value : Bytes) (different : other ≠ name) :
    (request.setHeader name value).header other = request.header other := by
  simp [header, setHeader, Std.ExtTreeMap.getElem?_insert, different.symm]

/-- Store fields one by one. -/
def setHeaders (request : HttpRequest) (fields : List (Bytes × Bytes)) :
    HttpRequest :=
  fields.foldl (fun request field => request.setHeader field.1 field.2) request

/-- Of several fields with one name the last is kept. -/
theorem header_setHeaders (request : HttpRequest)
    (fields : List (Bytes × Bytes)) (name : Bytes) :
    (request.setHeaders fields).header name =
      ((fields.filter (·.1 = name)).getLast?.map Prod.snd).getD
        (request.header name) := by
  induction fields using List.reverseRecOn with
  | nil => rfl
  | append_singleton fields field induction =>
      have stored : request.setHeaders (fields ++ [field]) =
          (request.setHeaders fields).setHeader field.1 field.2 := by
        simp [setHeaders]
      rw [stored]
      by_cases same : field.1 = name
      · subst same
        rw [header_setHeader_self]
        simp [List.filter_append]
      · rw [header_setHeader_of_ne _ _ (Ne.symm same), induction]
        simp [List.filter_append, same]

/-- Storing fields changes no other part of the request. -/
theorem setHeaders_parts (request : HttpRequest)
    (fields : List (Bytes × Bytes)) :
    (request.setHeaders fields).method = request.method ∧
      (request.setHeaders fields).path = request.path ∧
      (request.setHeaders fields).body = request.body := by
  induction fields generalizing request with
  | nil => exact ⟨rfl, rfl, rfl⟩
  | cons field fields induction => exact induction (request.setHeader _ _)

end HttpRequest

end Natsu.Http
