import FingerprintHub.Api.Handlers
import FingerprintHub.Library.PyJson

/-!
# From the bytes of a request to its body

`await request.json()` reads the bytes of the request, decodes them as UTF-8 and passes the
text to `json.loads`. `parse_json_body` catches the `JSONDecodeError` of the last step and
nothing else: bytes that are not UTF-8 raise a `UnicodeDecodeError`, an integer with too many
digits a `ValueError` and values nested too deeply a `RecursionError`. A body that is too large
is refused with 413 before.

What depends on the installation is collected in `Runtime`.
-/

namespace FingerprintHub
namespace Api

open Base64 (Bytes)
open FieldEncryption (AesGcm Keyring Nonce utf8Decode)

/-- The runtime the service is installed on: what aiohttp, CPython and the platform decide, and
the source does not. All results are for an arbitrary one. -/
structure Runtime where
  /-- A body of so many bytes is above the `client_max_size` of the application. -/
  tooLarge : ℕ → Bool
  /-- The containers that may be nested before `json` raises a `RecursionError`. -/
  depth : ℕ
  /-- `str(float(literal))` and `int(float(literal))`. -/
  float : PyStr → PyStr × Trunc
  /-- `str` of a list or a dictionary. -/
  containerText : PyJson → PyStr
  /-- `str` of the `JSONDecodeError` for a text. -/
  details : PyStr → String

variable (rt : Runtime)

/-- What the handlers see of a JSON value. -/
def valueOf : PyJson → Value
  | .null => .null
  | .bool b => .bool b
  | .int n => .int n
  | .float literal => .float (rt.float literal).1 (rt.float literal).2
  | .nan => .float (PyStr.ofString "nan") .nan
  | .infinity false => .float (PyStr.ofString "inf") .infinite
  | .infinity true => .float (PyStr.ofString "-inf") .infinite
  | .str t => .str t
  | .list items => .list (rt.containerText (.list items))
  | .dict fields => .dict (rt.containerText (.dict fields))

/-- `body.get(key)`: of equal keys the last one counts. -/
def getField (fields : List (PyStr × PyJson)) (key : String) : Option Value :=
  (fields.reverse.find? (fun f => f.1 = PyStr.ofString key)).map (fun f => valueOf rt f.2)

/-- `parse_json_body` on a body that was read. Of the exceptions only the `JSONDecodeError` is
caught, so that the others become a 500. -/
def parseJsonBody (bytes : Bytes) : Body :=
  match utf8Decode bytes with
  | none => .raises
  | some text =>
    match PyJson.loads rt.depth (PyStr.ofString text) with
    | .error .decode => .invalid (rt.details (PyStr.ofString text))
    | .error _ => .raises
    | .ok (.dict fields) => .object (getField rt fields)
    | .ok _ => .notObject

/-- The answer to a body that is too large. -/
def entityTooLarge : Response := ⟨413, none⟩

/-- What follows `parse_json_body` in a handler. -/
def withJsonBody (bytes : Bytes) (s : Store) (k : Body → Response × Store) : Response × Store :=
  if rt.tooLarge bytes.length then (entityTooLarge, s) else k (parseJsonBody rt bytes)

variable (gcm : AesGcm) (ring : Keyring)

/-- POST `/v1/fingerprints/{id}/hit` with these bytes. -/
def postHit (nonces : ℕ → Nonce) (c : Consumer) (segment : PyStr) (bytes : Bytes) (nowMs : ℤ)
    (s : Store) : Response × Store :=
  requireScope c .write (·, s) <|
    match pathId segment with
    | none => (.invalidId, s)
    | some _ =>
      withJsonBody rt bytes s fun body => reportHit gcm ring nonces c segment body nowMs s

/-- POST `/v1/fingerprints/{id}/flag` with these bytes. The id is read before the body, as in the
source. -/
def postFlag (config : ServiceConfig) (nonces : ℕ → Nonce) (c : Consumer) (segment : PyStr)
    (bytes : Bytes) (nowMs : ℤ) (s : Store) : Response × Store :=
  requireScope c .write (·, s) <|
    match pathId segment with
    | none => (.invalidId, s)
    | some _ =>
      withJsonBody rt bytes s fun body =>
        flagFingerprint gcm ring config nonces c segment body nowMs s

/-! ### What a body says -/

/-- The fields a body has: one that is not UTF-8, no JSON or no object has none. This is what a
body says to the two handlers that take an optional one. -/
def fieldsOfBody (bytes : Bytes) (key : String) : Option Value :=
  match (utf8Decode bytes).map (fun text => PyJson.loads rt.depth (PyStr.ofString text)) with
  | some (.ok (.dict fields)) => getField rt fields key
  | _ => none

/-- A body that aiohttp takes and Python decodes, and on which `json.loads` raises no other
exception than its own. -/
structure Readable (bytes : Bytes) : Prop where
  size : rt.tooLarge bytes.length = false
  utf8 : utf8Decode bytes ≠ none
  digits : ∀ text, utf8Decode bytes = some text →
    PyJson.loads rt.depth (PyStr.ofString text) ≠ .error .digits
  depth : ∀ text, utf8Decode bytes = some text →
    PyJson.loads rt.depth (PyStr.ofString text) ≠ .error .recursion

variable {rt} {bytes : Bytes}

/-- For bytes that decode to a text it is the text that counts. -/
theorem readable_iff {text : String} (h_utf8 : utf8Decode bytes = some text) :
    Readable rt bytes ↔ rt.tooLarge bytes.length = false ∧
      PyJson.loads rt.depth (PyStr.ofString text) ≠ .error .digits ∧
      PyJson.loads rt.depth (PyStr.ofString text) ≠ .error .recursion := by
  constructor
  · intro h
    exact ⟨h.size, h.digits text h_utf8, h.depth text h_utf8⟩
  · rintro ⟨h_size, h_digits, h_depth⟩
    -- the bytes decode to one text only
    have h_text : ∀ text', utf8Decode bytes = some text' → text' = text :=
      fun text' h_text' => Option.some.inj (h_text'.symm.trans h_utf8)
    refine ⟨h_size, by simp [h_utf8], fun text' h_text' => ?_, fun text' h_text' => ?_⟩
    · rw [h_text text' h_text']
      exact h_digits
    · rw [h_text text' h_text']
      exact h_depth

/-- **A readable body counts as the fields it has**: an unparseable one and one that is no object
count as empty. -/
theorem optionalBody_of_readable (h : Readable rt bytes) :
    optionalBody (parseJsonBody rt bytes) = some (fieldsOfBody rt bytes) := by
  unfold parseJsonBody fieldsOfBody
  cases h_utf8 : utf8Decode bytes with
  | none => exact absurd h_utf8 h.utf8
  | some text =>
    obtain ⟨-, h_digits, h_depth⟩ := (readable_iff h_utf8).mp h
    simp only [Option.map_some]
    cases h_loads : PyJson.loads rt.depth (PyStr.ofString text) with
    | error e =>
      -- the exceptions that would escape are excluded
      cases e with
      | decode => rfl
      | digits => exact absurd h_loads h_digits
      | recursion => exact absurd h_loads h_depth
      | stuck => exact absurd h_loads (PyJson.loads_ne_stuck _ _)
    | ok value => cases value <;> rfl

/-- A body that is not readable is too large, or an exception escapes on it. -/
theorem of_not_readable (h : ¬ Readable rt bytes) :
    rt.tooLarge bytes.length = true ∨ optionalBody (parseJsonBody rt bytes) = none := by
  by_cases h_size : rt.tooLarge bytes.length = true
  · exact Or.inl h_size
  · refine Or.inr ?_
    unfold parseJsonBody
    cases h_utf8 : utf8Decode bytes with
    | none => rfl
    | some text =>
      -- the text is not to blame unless it is for one of the two
      have h_loads : PyJson.loads rt.depth (PyStr.ofString text) = .error .digits ∨
          PyJson.loads rt.depth (PyStr.ofString text) = .error .recursion := by
        by_contra h_not
        rw [not_or] at h_not
        exact h ((readable_iff h_utf8).mpr ⟨by simpa using h_size, h_not⟩)
      rcases h_loads with h_loads | h_loads
      · simp only [h_loads]
        rfl
      · simp only [h_loads]
        rfl

/-- A body with a field is readable, if it is not too large. -/
theorem readable_of_field {key : String} {value : Value} (h_size : rt.tooLarge bytes.length = false)
    (h : fieldsOfBody rt bytes key = some value) : Readable rt bytes := by
  unfold fieldsOfBody at h
  split at h
  · next fields h_fields =>
    obtain ⟨text, h_text, h_loads⟩ := Option.map_eq_some_iff.mp h_fields
    exact (readable_iff h_text).mpr ⟨h_size, by simp [h_loads], by simp [h_loads]⟩
  · exact absurd h (by simp)

end Api
end FingerprintHub
