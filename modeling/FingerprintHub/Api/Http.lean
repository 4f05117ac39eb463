import FingerprintHub.Library.PyText
import FingerprintHub.Store.Schema

/-!
# Requests and responses

What a handler reads of a request, and what it answers. A query, a path segment
and a JSON text hold Python strings, so they may hold surrogates and `U+0000`; a
text that is to become an SQL parameter has to pass `sqlText` first.

A handler that raises is answered by `error_middleware`: `internalServerError`
stands in a handler where the source lets an exception escape.
-/

namespace FingerprintHub

/-! ### Responses -/

/-- A JSON value of a response. The fields of an object keep the order in which the
handler writes them. -/
inductive Json where
  | null
  | bool (b : Bool)
  | int (n : ℤ)
  | str (s : String)
  | arr (items : List Json)
  | obj (fields : List (String × Json))

namespace Json

/-- An optional integer column. -/
def ofInt? (n : Option ℤ) : Json := (n.map int).getD null

/-- An optional text. -/
def ofStr? (s : Option String) : Json := (s.map str).getD null

end Json

/-- A response: its status, and its JSON body unless it is empty. -/
structure Response where
  status : ℕ
  body : Option Json

namespace Response

/-- `web.json_response(body)`. -/
def ok (body : Json) : Response := ⟨200, some body⟩

/-- `web.json_response({"error": message}, status=status)`. -/
def error (status : ℕ) (message : String) : Response :=
  ⟨status, some (.obj [("error", .str message)])⟩

/-- The answer of `error_middleware` to an exception. -/
def internalServerError : Response := error 500 "internal server error"

/-- The answer of `error_middleware` to an `OperationalError`. -/
def databaseUnavailable : Response := error 503 "database temporarily unavailable"

/-- The answer to an id without a live row. -/
def notFound : Response := error 404 "fingerprint not found"

/-- The answer to a path segment that is no integer. -/
def invalidId : Response := error 400 "invalid fingerprint id"

end Response

/-! ### Consumers and scopes -/

/-- `CHECK (scopes <@ ARRAY['read', 'write', 'admin'])`. -/
inductive Scope where
  | read
  | write
  | admin
  deriving DecidableEq, Repr

/-- The text of a scope. -/
def Scope.text : Scope → String
  | .read => "read"
  | .write => "write"
  | .admin => "admin"

/-- The authenticated consumer of a request. -/
structure Consumer where
  id : ℤ
  scopes : List Scope
  deriving DecidableEq, Repr

/-- `"admin" in set(consumer.get("scopes") or ())`. -/
def Consumer.isAdmin (c : Consumer) : Bool := Scope.admin ∈ c.scopes

/-- `require_scope` before the rest of a handler: 403 unless the consumer holds the scope. No
scope contains another; that an admin is let through elsewhere is for the handler to say. -/
def requireScope (c : Consumer) (scope : Scope) {α : Type} (refuse : Response → α) (k : α) : α :=
  if scope ∈ c.scopes then k
  else refuse (.error 403 ("missing required scope: " ++ scope.text))

/-- The fields of `ServiceConfig` that the handlers read. -/
structure ServiceConfig where
  autoHideFlagThreshold : ℕ
  maxSyncLimit : ℤ
  defaultSyncLimit : ℤ
  maxListLimit : ℤ

/-- A `ServiceConfig` with the defaults of `config.py`. -/
def ServiceConfig.default : ServiceConfig where
  autoHideFlagThreshold := 2
  maxSyncLimit := 500
  defaultSyncLimit := 200
  maxListLimit := 200

/-! ### Requests -/

/-- `request.query.get`. -/
abbrev Query := String → Option PyStr

/-- The integer part of a JSON number with a fraction or an exponent: `Infinity` and
`1e999` are infinite. -/
inductive Trunc where
  | nan
  | infinite
  | finite (n : ℤ)
  deriving DecidableEq

/-- A value of a JSON object. A number with a fraction or an exponent, an array and an
object come with what `str` makes of them. -/
inductive Value where
  | null
  | bool (b : Bool)
  | int (n : ℤ)
  | float (text : PyStr) (trunc : Trunc)
  | str (t : PyStr)
  | list (text : PyStr)
  | dict (text : PyStr)
  deriving DecidableEq

/-- What `request.json()` makes of a request body: it raises something else than a
`JSONDecodeError` (on undecodable bytes, for one), it raises a `JSONDecodeError`, or
it returns a value, which is an object or not. -/
inductive Body where
  | raises
  | invalid (details : String)
  | notObject
  | object (get : String → Option Value)

/-- A contribution of an image as `scam`, to `kick`, with the default for the rest. -/
def sampleBody : Body :=
  .object fun key =>
    if key = "phash_hex" then some (.str (PyStr.ofString "00000000000000aa"))
    else if key = "category" then some (.str (PyStr.ofString "scam"))
    else if key = "action" then some (.str (PyStr.ofString "kick"))
    else none

/-- `str(value)`. -/
def Value.text : Value → PyStr
  | .null => PyStr.ofString "None"
  | .bool true => PyStr.ofString "True"
  | .bool false => PyStr.ofString "False"
  | .int n => PyStr.ofInt n
  | .float text _ => text
  | .str t => t
  | .list text => text
  | .dict text => text

/-- `_str_or_none` of a text: blank texts count as none. -/
def strOrNone (t : Option PyStr) : Option PyStr :=
  t.bind fun t => if PyStr.strip t = [] then none else some (PyStr.strip t)

/-- `_str_or_none(value)`: an absent value and a JSON `null` are both `None`. -/
def Value.strOrNone (value : Option Value) : Option PyStr :=
  match value with
  | none => none
  | some .null => none
  | some v => FingerprintHub.strOrNone (some v.text)

/-- `str(body.get(key, "")).strip()`. A JSON `null` becomes the text `None`, unlike an absent
value. -/
def Value.stripped (value : Option Value) : PyStr := PyStr.strip ((value.map Value.text).getD [])

/-- `_bool_or_none(value)` with the default `False`: what is neither absent, `null` nor a boolean
is refused. -/
def Value.boolOrNone (value : Option Value) : Option Bool :=
  match value with
  | none => some false
  | some .null => some false
  | some (.bool b) => some b
  | some _ => none

/-- `_path_id`. -/
def pathId (segment : PyStr) : Option ℤ := PyStr.int segment

/-! ### SQL parameters -/

/-- A text parameter: psycopg raises on a surrogate and on `U+0000`. Both can be part of a JSON
string or of a percent-encoded query. -/
def sqlText (t : PyStr) : Option String :=
  (PyStr.encode t).bind fun s => if Char.ofNat 0 ∈ s.toList then none else some s

/-- An optional text parameter: `none` is the exception, `some none` is `NULL`. -/
def sqlText? (t : Option PyStr) : Option (Option String) :=
  match t with
  | none => some none
  | some t => (sqlText t).map some

/-- The plaintext of `encrypt_text`: it raises on a surrogate only. -/
def plaintext? (t : Option PyStr) : Option (Option String) :=
  match t with
  | none => some none
  | some t => (PyStr.encode t).map some

/-- Whether an integer parameter fits the `BIGINT` that `LIMIT` and `OFFSET` take. -/
def fitsBigint (n : ℤ) : Bool := -2 ^ 63 ≤ n && n < 2 ^ 63

/-- Whether an integer fits the `INTEGER` column `distance`. -/
def fitsInteger (n : ℤ) : Bool := -2 ^ 31 ≤ n && n < 2 ^ 31

end FingerprintHub
