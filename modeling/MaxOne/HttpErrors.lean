import MaxOne.Library.JsonText
import MaxOne.Schema

/-!
# Errors from the API to the browser

Whatever a handler throws leaves the API as one envelope, written as JSON; a route
of the Next server hands the text on or reads it and writes it again; the browser
reads the envelope and shows it. What the browser shows is what the API has said,
and of an error that is not an HTTP exception it says nothing.
-/
namespace MaxOne.HttpErrors
open Library.Binary64 Library.ScriptValue Library.JsonText

/-! ## The API -/

structure ErrorBody where
  statusCode : ℕ
  code : String
  message : String
  details : Option (List String)
  path : String
  timestamp : String
  deriving DecidableEq, Repr

/-- The object `res.json` is given; an undefined field is not written. -/
def ErrorBody.json (body : ErrorBody) : Value :=
  .object ([("statusCode", .number (.finite body.statusCode)), ("code", .text body.code),
      ("message", .text body.message)] ++
    (body.details.map fun details => ("details", .array (details.map .text))).toList ++
    [("path", .text body.path), ("timestamp", .text body.timestamp)])

structure HttpResponse where
  status : ℕ
  body : String
  deriving DecidableEq, Repr

def HttpResponse.ok (res : HttpResponse) : Bool := 200 ≤ res.status && res.status ≤ 299

section Arrives
variable {f : NumberFormat} {body : ErrorBody} {string : Value → String}

end Arrives

end MaxOne.HttpErrors
