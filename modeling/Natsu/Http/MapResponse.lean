import Natsu.Foundation.Loop
import Natsu.Http.Response

/-!
# Responses from maps

`response(resp)` for a map writes `&` and goes on where it should leave, and
leaves where it should go on.  A map of at most one entry takes the loop to
`resp.end()`; of any other map only the first entry is written.
-/

namespace Natsu.Http

open Natsu.Foundation

def entryText (entry : Bytes × Bytes) : Bytes :=
  entry.1 ++ ascii "=" ++ entry.2

/-- The loop of `response(resp)`, with the entries from `it` on and `r`.  There
is no result where the end iterator is dereferenced. -/
def mapLoop : Loop (List (Bytes × Bytes) × Bytes) (Option Bytes) where
  body state :=
    match state.1 with
    | [] => .inr none
    | entry :: rest =>
        let r := state.2 ++ entryText entry
        if rest = [] then .inl (rest, r ++ ascii "&")
        else .inr (some r)
  measure state := state.1.length
  decreases := by
    intro state next round
    split at round
    · simp at round
    · rename_i entry rest isHead
      dsimp only at round
      split at round
      · obtain rfl := Sum.inl.inj round
        simp [isHead]
      · simp at round

/-- The entries as the body of a form, in the order of their keys. -/
def formText (resp : Std.ExtTreeMap Bytes Bytes) : Bytes :=
  (ascii "&").intercalate (resp.toList.map entryText)

namespace HttpResponse

/-- `response(resp)` for a map. -/
def respondMap (response : HttpResponse) (resp : Std.ExtTreeMap Bytes Bytes) :
    Option HttpResponse :=
  (mapLoop.run (resp.toList, [])).map fun r => response.respond r []

/-- The call comes back, with all entries in the body. -/
def MapComplete (response : HttpResponse)
    (resp : Std.ExtTreeMap Bytes Bytes) : Prop :=
  ∃ final, response.respondMap resp = some final ∧ final.body = formText resp

theorem mapLoop_run (entries : List (Bytes × Bytes)) (r : Bytes) :
    mapLoop.run (entries, r) =
      match entries with
      | first :: _ :: _ => some (r ++ entryText first)
      | _ => none := by
  have atEnd : ∀ r, mapLoop.run ([], r) = none := fun r =>
    mapLoop.run_leave rfl
  match entries with
  | [] => exact atEnd r
  | [entry] =>
      rw [mapLoop.run_next rfl]
      exact atEnd _
  | first :: second :: rest => exact mapLoop.run_leave rfl

/-- No map is written completely. -/
theorem not_mapComplete (response : HttpResponse)
    (resp : Std.ExtTreeMap Bytes Bytes) : ¬ response.MapComplete resp := by
  rintro ⟨final, returned, complete⟩
  rw [respondMap, mapLoop_run] at returned
  match isList : resp.toList with
  | [] => simp [isList] at returned
  | [entry] => simp [isList] at returned
  | first :: second :: rest =>
      rw [isList] at returned
      obtain rfl := Option.some.inj returned
      have lengths := congrArg List.length complete
      simp only [respond, formText, isList, List.map_cons,
        List.intercalate_cons_cons, List.length_append, List.nil_append]
        at lengths
      have separator : (ascii "&").length = 1 := by decide
      omega

theorem respondMap_two_entries :
    ¬ ({} : HttpResponse).MapComplete
        (.ofList [(ascii "a", ascii "1"), (ascii "b", ascii "2")]) ∧
      formText (.ofList [(ascii "a", ascii "1"), (ascii "b", ascii "2")]) =
        ascii "a=1&b=2" ∧
      ((({} : HttpResponse).respondMap
          (.ofList [(ascii "a", ascii "1"), (ascii "b", ascii "2")])).map
        body) = some (ascii "a=1") ∧
      ((({} : HttpResponse).respondMap
          (.ofList [(ascii "a", ascii "1")])).map body) = none ∧
      ((({} : HttpResponse).respondMap ∅).map body) = none := by
  have meant : formText (.ofList [(ascii "a", ascii "1"),
      (ascii "b", ascii "2")]) = ascii "a=1&b=2" := by decide +kernel
  have written : ((({} : HttpResponse).respondMap
      (.ofList [(ascii "a", ascii "1"), (ascii "b", ascii "2")])).map body) =
        some (ascii "a=1") := by decide +kernel
  refine ⟨?_, meant, written, by decide +kernel, by decide +kernel⟩
  rintro ⟨final, returned, complete⟩
  rw [returned, Option.map_some, complete, meant] at written
  exact absurd written (by decide)

end HttpResponse

end Natsu.Http
