import FingerprintHub.Library.PyText

/-!
# `json.loads`

The scanner of Python's `json` on a `str`, with what it does beyond the grammar of JSON: it
takes `NaN` and the infinities, integers of any size up to a number of digits, and escapes of
single surrogates. It raises a `JSONDecodeError` on a text it cannot read, a `ValueError` on
an integer with too many digits and a `RecursionError` on values nested too deeply.

A loop over the items of an array or the fields of an object takes the length of the text as
its number of rounds. `Shortens` says that every scanner leaves less text than it was given,
so that no loop runs out of rounds (`loads_ne_stuck`).
-/

namespace FingerprintHub

/-- A JSON value. A number with a fraction or an exponent keeps its text, since nothing here
calculates with it. The fields of an object are in the order in which they stand. -/
inductive PyJson where
  | null
  | bool (b : Bool)
  | int (n : ℤ)
  | float (literal : PyStr)
  | nan
  | infinity (negative : Bool)
  | str (t : PyStr)
  | list (items : List PyJson)
  | dict (fields : List (PyStr × PyJson))

namespace PyJson

/-- What `json.loads` raises. -/
inductive LoadsError where
  /-- `JSONDecodeError` -/
  | decode
  /-- the `ValueError` of an integer with too many digits -/
  | digits
  /-- `RecursionError` -/
  | recursion
  /-- no exception: a loop that ran out of rounds -/
  | stuck
  deriving DecidableEq, Repr

/-- What a scanner returns: a value, and the text after it. Positions are not kept, since no
message of an error is used. -/
abbrev Scan (α : Type) := Except LoadsError (α × PyStr)

/-- The whitespace of JSON is skipped. -/
def skipSpace (t : PyStr) : PyStr :=
  t.dropWhile (fun c => c.val = 0x20 || c.val = 0x09 || c.val = 0x0a || c.val = 0x0d)

/-! ### Numbers -/

/-- `0` to `9`. -/
def isDigit (c : CodePoint) : Bool := 0x30 ≤ c.val && c.val ≤ 0x39

/-- A sign at the front. -/
def scanSign (signs : PyStr) (t : PyStr) : PyStr × PyStr :=
  match t with
  | [] => ([], [])
  | c :: rest => if c ∈ signs then ([c], rest) else ([], c :: rest)

/-- The integer part of a number: nothing but a single digit follows a zero, so that `01` is a
zero with something after it. -/
def scanInteger (t : PyStr) : Option (PyStr × PyStr) :=
  match t with
  | [] => none
  | c :: rest =>
    if c = CodePoint.ofChar '0' then some ([c], rest)
    else if isDigit c then some (c :: rest.takeWhile isDigit, rest.dropWhile isDigit)
    else none

/-- The fraction of a number, if there is one. -/
def scanFraction (t : PyStr) : PyStr × PyStr :=
  match t with
  | c :: d :: rest =>
    if c = CodePoint.ofChar '.' ∧ isDigit d = true then
      (c :: d :: rest.takeWhile isDigit, rest.dropWhile isDigit)
    else ([], t)
  | _ => ([], t)

/-- The exponent of a number, if there is one. -/
def scanExponent (t : PyStr) : PyStr × PyStr :=
  match t with
  | [] => ([], [])
  | c :: rest =>
    if c = CodePoint.ofChar 'e' ∨ c = CodePoint.ofChar 'E' then
      let (sign, digits) := scanSign (PyStr.ofString "+-") rest
      -- without a digit the `e` is not part of the number
      if digits.takeWhile isDigit = [] then ([], c :: rest)
      else (c :: (sign ++ digits.takeWhile isDigit), digits.dropWhile isDigit)
    else ([], c :: rest)

/-- `_match_number`: an integer, and a float if there is a fraction or an exponent. -/
def scanNumber (t : PyStr) : Scan PyJson :=
  let (sign, t₁) := scanSign (PyStr.ofString "-") t
  match scanInteger t₁ with
  | none => .error .decode
  | some (digits, t₂) =>
    let (fraction, t₃) := scanFraction t₂
    let (exponent, t₄) := scanExponent t₃
    if fraction ++ exponent = [] then
      -- `int` of the digits, which raises on too many
      match PyStr.int (sign ++ digits) with
      | none => .error .digits
      | some n => .ok (.int n, t₄)
    else .ok (.float (sign ++ digits ++ fraction ++ exponent), t₄)

/-! ### Strings -/

/-- The quotation mark. -/
def quote : CodePoint := 0x22

/-- The backslash. -/
def backslash : CodePoint := 0x5c

/-- A hex digit. -/
def hexDigit? (c : CodePoint) : Option ℕ :=
  if 0x30 ≤ c.val ∧ c.val ≤ 0x39 then some (c.val - 0x30)
  else if 0x61 ≤ c.val ∧ c.val ≤ 0x66 then some (c.val - 0x61 + 10)
  else if 0x41 ≤ c.val ∧ c.val ≤ 0x46 then some (c.val - 0x41 + 10)
  else none

/-- The code point of four hex digits. -/
def hex4? (a b c d : CodePoint) : Option CodePoint :=
  match hexDigit? a, hexDigit? b, hexDigit? c, hexDigit? d with
  | some a, some b, some c, some d => some (Fin.ofNat _ (((a * 16 + b) * 16 + c) * 16 + d))
  | _, _, _, _ => none

/-- The first half of a pair, -/
def isHighSurrogate (c : CodePoint) : Bool := 0xd800 ≤ c.val && c.val ≤ 0xdbff

/-- and the second. -/
def isLowSurrogate (c : CodePoint) : Bool := 0xdc00 ≤ c.val && c.val ≤ 0xdfff

/-- The code point of a surrogate pair. -/
def joinSurrogates (high low : CodePoint) : CodePoint :=
  Fin.ofNat _ (0x10000 + (high.val - 0xd800) * 0x400 + (low.val - 0xdc00))

/-- The code point of an escape of one character. -/
def escape? (c : CodePoint) : Option CodePoint :=
  if c = quote ∨ c = backslash ∨ c = CodePoint.ofChar '/' then some c
  else if c = CodePoint.ofChar 'b' then some 0x08
  else if c = CodePoint.ofChar 'f' then some 0x0c
  else if c = CodePoint.ofChar 'n' then some 0x0a
  else if c = CodePoint.ofChar 'r' then some 0x0d
  else if c = CodePoint.ofChar 't' then some 0x09
  else none

/-- A character of a string: its code point, and whether it stands there as `\uXXXX`. -/
structure CodeUnit where
  code : CodePoint
  escaped : Bool
  deriving DecidableEq

/-- A high surrogate is joined with a low one that follows it, when both are escaped, and is kept
otherwise. So a surrogate may be left over, and the text cannot be encoded. -/
def joinSurrogatePairs : List CodeUnit → PyStr
  | [] => []
  | [u] => [u.code]
  | u :: v :: rest =>
    if u.escaped && v.escaped && isHighSurrogate u.code && isLowSurrogate v.code then
      joinSurrogates u.code v.code :: joinSurrogatePairs rest
    else u.code :: joinSurrogatePairs (v :: rest)

/-- A character in front of what is scanned after it. -/
def consUnit (u : CodeUnit) : Scan (List CodeUnit) → Scan (List CodeUnit)
  | .error e => .error e
  | .ok (units, rest) => .ok (u :: units, rest)

/-- The characters of a string, up to its closing quote. -/
def scanUnits : PyStr → Scan (List CodeUnit)
  | [] => .error .decode
  | c :: t =>
    if c = quote then .ok ([], t)
    else if c = backslash then
      match t with
      | [] => .error .decode
      | e :: t =>
        if e = CodePoint.ofChar 'u' then
          match t with
          | h₁ :: h₂ :: h₃ :: h₄ :: t =>
            match hex4? h₁ h₂ h₃ h₄ with
            | none => .error .decode
            | some u => consUnit ⟨u, true⟩ (scanUnits t)
          | _ => .error .decode
        else
          match escape? e with
          | none => .error .decode
          | some c => consUnit ⟨c, false⟩ (scanUnits t)
    -- control characters have to be escaped
    else if c.val ≤ 0x1f then .error .decode
    else consUnit ⟨c, false⟩ (scanUnits t)

/-- `scanstring`, from behind the opening quote. -/
def scanString (t : PyStr) : Scan PyStr :=
  match scanUnits t with
  | .error e => .error e
  | .ok (units, rest) => .ok (joinSurrogatePairs units, rest)

/-! ### Values -/

/-- What comes one after another, with commas in between, up to a closing bracket. The number is
the rounds that are left to the loop. -/
def scanSeries {α : Type} (scan : PyStr → Scan α) (close : CodePoint) : ℕ → PyStr → Scan (List α)
  | 0, _ => .error .stuck
  | n + 1, t =>
    match scan t with
    | .error e => .error e
    | .ok (item, rest) =>
      match skipSpace rest with
      | [] => .error .decode
      | c :: rest =>
        if c = close then .ok ([item], rest)
        else if c = CodePoint.ofChar ',' then
          match scanSeries scan close n (skipSpace rest) with
          | .error e => .error e
          | .ok (items, rest) => .ok (item :: items, rest)
        else .error .decode

/-- A container, from behind its opening bracket: empty, or a series. No comma may stand before
the closing bracket. -/
def scanContainer {α : Type} (scan : PyStr → Scan α) (close : CodePoint) (wrap : List α → PyJson)
    (t : PyStr) : Scan PyJson :=
  match skipSpace t with
  | [] => .error .decode
  | c :: rest =>
    if c = close then .ok (wrap [], rest)
    else
      match scanSeries scan close (c :: rest).length (c :: rest) with
      | .error e => .error e
      | .ok (items, rest) => .ok (wrap items, rest)

/-- `JSONArray`. -/
def scanArray (scan : PyStr → Scan PyJson) : PyStr → Scan PyJson :=
  scanContainer scan (CodePoint.ofChar ']') .list

/-- A key, its colon and its value. -/
def scanField (scan : PyStr → Scan PyJson) (t : PyStr) : Scan (PyStr × PyJson) :=
  match t with
  | [] => .error .decode
  | c :: rest =>
    if c = quote then
      match scanString rest with
      | .error e => .error e
      | .ok (key, rest) =>
        match skipSpace rest with
        | [] => .error .decode
        | c :: rest =>
          if c = CodePoint.ofChar ':' then
            match scan (skipSpace rest) with
            | .error e => .error e
            | .ok (value, rest) => .ok ((key, value), rest)
          else .error .decode
    else .error .decode

/-- `JSONObject`. -/
def scanObject (scan : PyStr → Scan PyJson) : PyStr → Scan PyJson :=
  scanContainer (scanField scan) (CodePoint.ofChar '}') .dict

/-- The values that are a word. -/
def words : List (PyStr × PyJson) :=
  [(PyStr.ofString "null", .null), (PyStr.ofString "true", .bool true),
    (PyStr.ofString "false", .bool false), (PyStr.ofString "NaN", .nan),
    (PyStr.ofString "Infinity", .infinity false), (PyStr.ofString "-Infinity", .infinity true)]

/-- `scan_once` on anything but a container. -/
def scanLeaf (t : PyStr) : Scan PyJson :=
  match words.find? (fun w => w.1.isPrefixOf t) with
  | some w => .ok (w.2, t.drop w.1.length)
  | none => scanNumber t

/-- `scan_once`, where `inner` scans what is nested: `none` is the `RecursionError`. It is raised
at the bracket, before anything inside is looked at. -/
def scanWith (inner : Option (PyStr → Scan PyJson)) (t : PyStr) : Scan PyJson :=
  match t with
  | [] => .error .decode
  | c :: rest =>
    if c = quote then
      match scanString rest with
      | .error e => .error e
      | .ok (text, rest) => .ok (.str text, rest)
    else if c = CodePoint.ofChar '{' then
      match inner with
      | none => .error .recursion
      | some scan => scanObject scan rest
    else if c = CodePoint.ofChar '[' then
      match inner with
      | none => .error .recursion
      | some scan => scanArray scan rest
    else scanLeaf (c :: rest)

/-- `scan_once` with so many levels of nesting to go. -/
def scanOnce : ℕ → PyStr → Scan PyJson
  | 0 => scanWith none
  | depth + 1 => scanWith (some (scanOnce depth))

/-- `json.loads(t)`, where containers may be nested to a depth. How deep that is depends on the
recursion limit and on what is on the stack already, and so it is a parameter. -/
def loads (depth : ℕ) (t : PyStr) : Except LoadsError PyJson :=
  -- a byte order mark is refused
  if t.head? = some 0xfeff then .error .decode
  else
    match scanOnce depth (skipSpace t) with
    | .error e => .error e
    | .ok (value, rest) => if skipSpace rest = [] then .ok value else .error .decode

/-! ### Progress -/

/-- A scanner leaves less text than it was given, and finishes. Both are needed of what is nested
for a loop over it to finish. -/
structure Shortens {α : Type} (scan : PyStr → Scan α) : Prop where
  shorter : ∀ {t rest : PyStr} {v : α}, scan t = .ok (v, rest) → rest.length < t.length
  finishes : ∀ t, scan t ≠ .error .stuck

/-- A result is no exhausted loop, and leaves less than a text of this length. It is `Shortens`
for one text, and passes through the cases of a scanner. -/
def Within {α : Type} (n : ℕ) : Scan α → Prop
  | .ok (_, rest) => rest.length < n
  | .error e => e ≠ .stuck

/-- A longer text may be left from a longer one. -/
theorem Within.mono {α : Type} {n n' : ℕ} {scanned : Scan α} (h : Within n scanned)
    (h_le : n ≤ n') : Within n' scanned := by
  cases scanned with
  | ok result => exact Nat.lt_of_lt_of_le h h_le
  | error e => exact h

/-- What goes wrong in a part goes wrong in the whole. -/
theorem Within.error {α β : Type} {n n' : ℕ} {e : LoadsError}
    (h : Within n (.error e : Scan α)) : Within n' (.error e : Scan β) := h

/-- A text that cannot be read is no exhausted loop. -/
theorem within_decode {α : Type} (n : ℕ) : Within n (.error .decode : Scan α) :=
  LoadsError.noConfusion

/-- A scanner that stays within every text shortens it, -/
theorem Shortens.of_within {α : Type} {scan : PyStr → Scan α}
    (h : ∀ t, Within t.length (scan t)) : Shortens scan where
  shorter {t rest v} h_ok := by
    have h_within := h t
    rw [h_ok] at h_within
    exact h_within
  finishes t h_error := by
    have h_within := h t
    rw [h_error] at h_within
    exact h_within rfl

/-- and conversely. -/
theorem Shortens.within {α : Type} {scan : PyStr → Scan α} (h : Shortens scan) (t : PyStr) :
    Within t.length (scan t) := by
  cases h_scan : scan t with
  | ok result => exact h.shorter h_scan
  | error e => exact fun h_stuck => h.finishes t (h_stuck ▸ h_scan)

/-- What a scanner refuses, who calls it refuses. -/
theorem Shortens.error {α β : Type} {scan : PyStr → Scan α} (h : Shortens scan) {t : PyStr}
    {e : LoadsError} (h_error : scan t = .error e) (n : ℕ) : Within n (.error e : Scan β) :=
  fun h_stuck => h.finishes t (h_stuck ▸ h_error)

/-- Skipping takes no text away that is not there, and so do the parts of a number. -/
theorem length_skipSpace_le (t : PyStr) : (skipSpace t).length ≤ t.length :=
  (List.dropWhile_sublist _).length_le

/-- A sign may be missing, -/
theorem length_scanSign_le (signs t : PyStr) : (scanSign signs t).2.length ≤ t.length := by
  unfold scanSign
  split
  · exact le_refl _
  · split
    · exact Nat.le_succ _
    · exact le_refl _

/-- an integer part may not, -/
theorem length_scanInteger_lt {t digits rest : PyStr} (h : scanInteger t = some (digits, rest)) :
    rest.length < t.length := by
  unfold scanInteger at h
  split at h
  · exact absurd h (by simp)
  · next c t =>
    split at h
    · obtain ⟨-, rfl⟩ := Prod.mk.inj (Option.some.inj h)
      exact Nat.lt_succ_self _
    · split at h
      · obtain ⟨-, rfl⟩ := Prod.mk.inj (Option.some.inj h)
        exact Nat.lt_succ_of_le (List.dropWhile_sublist _).length_le
      · exact absurd h (by simp)

/-- a fraction may, -/
theorem length_scanFraction_le (t : PyStr) : (scanFraction t).2.length ≤ t.length := by
  unfold scanFraction
  split
  · next c d rest =>
    have h_rest : (rest.dropWhile isDigit).length ≤ rest.length :=
      (List.dropWhile_sublist _).length_le
    split
    · simp only [List.length_cons]
      omega
    · exact le_refl _
  · exact le_refl _

/-- and so may an exponent. -/
theorem length_scanExponent_le (t : PyStr) : (scanExponent t).2.length ≤ t.length := by
  unfold scanExponent
  split
  · exact le_refl _
  · next c rest =>
    have h_sign := length_scanSign_le (PyStr.ofString "+-") rest
    have h_digits : ((scanSign (PyStr.ofString "+-") rest).2.dropWhile isDigit).length ≤
        (scanSign (PyStr.ofString "+-") rest).2.length := (List.dropWhile_sublist _).length_le
    split
    · dsimp only
      split
      · exact le_refl _
      · simp only [List.length_cons]
        omega
    · exact le_refl _

/-- A number has a digit. -/
theorem shortens_scanNumber : Shortens scanNumber := by
  refine .of_within (fun t => ?_)
  have h_sign := length_scanSign_le (PyStr.ofString "-") t
  unfold scanNumber
  dsimp only
  split
  · exact within_decode _
  · next digits t₂ h_integer =>
    have h_digits := length_scanInteger_lt h_integer
    have h_fraction := length_scanFraction_le t₂
    have h_exponent := length_scanExponent_le (scanFraction t₂).2
    have h_lt : (scanExponent (scanFraction t₂).2).2.length < t.length := by omega
    split
    · split
      · exact LoadsError.noConfusion
      · exact h_lt
    · exact h_lt

/-- What is scanned behind a character ends where it ended. -/
theorem Within.consUnit {u : CodeUnit} {scanned : Scan (List CodeUnit)} {n n' : ℕ}
    (h : Within n scanned) (h_le : n ≤ n') : Within n' (consUnit u scanned) := by
  cases scanned with
  | ok result => exact Nat.lt_of_lt_of_le h h_le
  | error e => exact h

/-- A string ends behind its closing quote, -/
theorem shortens_scanUnits : Shortens scanUnits := by
  refine .of_within (fun t => ?_)
  fun_induction scanUnits t with
  | case2 t => exact Nat.lt_succ_self _
  | case5 h₁ h₂ h₃ h₄ t u _ _ ih => exact ih.consUnit (by simp only [List.length_cons]; omega)
  | case8 e t _ u _ _ ih => exact ih.consUnit (by simp only [List.length_cons]; omega)
  | case10 c t _ _ _ ih => exact ih.consUnit (Nat.le_succ _)
  | _ => exact within_decode _

/-- with its pairs joined or not. -/
theorem shortens_scanString : Shortens scanString := by
  refine .of_within (fun t => ?_)
  unfold scanString
  split
  · next e h_error => exact shortens_scanUnits.error h_error _
  · next units rest h_ok => exact shortens_scanUnits.shorter h_ok

/-- A field begins with its key. -/
theorem shortens_scanField {scan : PyStr → Scan PyJson} (h_scan : Shortens scan) :
    Shortens (scanField scan) := by
  refine .of_within (fun t => ?_)
  unfold scanField
  split
  · exact within_decode _
  split
  swap
  · exact within_decode _
  · next c rest _ =>
    split
    · next e h_error => exact shortens_scanString.error h_error _
    · -- the key, the colon and the value each leave less
      next key t₁ h_key =>
      have h_lt := shortens_scanString.shorter h_key
      have h_space := length_skipSpace_le t₁
      split
      · exact within_decode _
      · next c' t₂ h_colon =>
        rw [h_colon, List.length_cons] at h_space
        have h_space' := length_skipSpace_le t₂
        split
        swap
        · exact within_decode _
        split
        · next e h_error => exact h_scan.error h_error _
        · next value t₃ h_ok =>
          have h_lt' := h_scan.shorter h_ok
          show t₃.length < rest.length + 1
          omega

/-- **A series ends within as many rounds as its text is long.** By induction on the rounds: each
takes an item off, and an item has a character. -/
theorem within_scanSeries {α : Type} {scan : PyStr → Scan α} (h_scan : Shortens scan)
    (close : CodePoint) {n : ℕ} {t : PyStr} (h_n : 0 < n) (h_t : t.length ≤ n) :
    Within t.length (scanSeries scan close n t) := by
  induction n generalizing t with
  | zero => exact absurd h_n (lt_irrefl 0)
  | succ n ih =>
    unfold scanSeries
    split
    · next e h_error => exact h_scan.error h_error _
    · next item rest h_ok =>
      have h_lt := h_scan.shorter h_ok
      have h_space := length_skipSpace_le rest
      split
      · exact within_decode _
      · next c rest' h_rest =>
        rw [h_rest, List.length_cons] at h_space
        have h_space' := length_skipSpace_le rest'
        split
        · show rest'.length < t.length
          omega
        split
        swap
        · exact within_decode _
        -- after a comma the rest is shorter by two, so that a round is left
        have h_items := @ih (skipSpace rest') (by omega) (by omega)
        split
        · next e h_error =>
          rw [h_error] at h_items
          exact h_items.error
        · next items rest'' h_ok' =>
          rw [h_ok'] at h_items
          exact Nat.lt_of_lt_of_le h_items (by omega)

/-- A container ends at its closing bracket. -/
theorem shortens_scanContainer {α : Type} {scan : PyStr → Scan α} (h_scan : Shortens scan)
    (close : CodePoint) (wrap : List α → PyJson) : Shortens (scanContainer scan close wrap) := by
  refine .of_within (fun t => ?_)
  have h_space := length_skipSpace_le t
  unfold scanContainer
  split
  · exact within_decode _
  · next c rest h_rest =>
    rw [h_rest] at h_space
    have h_series := @within_scanSeries α scan h_scan close (c :: rest).length (c :: rest)
      (Nat.succ_pos _) (le_refl _)
    split
    · exact Nat.lt_of_succ_le h_space
    · split
      · next e h_error =>
        rw [h_error] at h_series
        exact h_series.error
      · next items rest' h_ok =>
        rw [h_ok] at h_series
        exact h_series.mono h_space

/-- A word has letters. -/
theorem words_ne_nil : ∀ w ∈ words, 0 < w.1.length := by
  intro w h_w
  simp only [words, List.mem_cons, List.not_mem_nil, or_false] at h_w
  rcases h_w with rfl | rfl | rfl | rfl | rfl | rfl <;> decide

/-- A leaf is a word or a number. -/
theorem shortens_scanLeaf : Shortens scanLeaf := by
  refine .of_within (fun t => ?_)
  unfold scanLeaf
  split
  · next w h_w =>
    have h_word := words_ne_nil w (List.mem_of_find?_eq_some h_w)
    have h_front : w.1 <+: t := List.isPrefixOf_iff_prefix.mp (by simpa using List.find?_some h_w)
    have h_le := h_front.length_le
    show (t.drop w.1.length).length < t.length
    rw [List.length_drop]
    omega
  · exact shortens_scanNumber.within t

/-- A value has a first character, if what is nested in it is scanned so. -/
theorem shortens_scanWith {inner : Option (PyStr → Scan PyJson)}
    (h_inner : ∀ scan, inner = some scan → Shortens scan) : Shortens (scanWith inner) := by
  refine .of_within (fun t => ?_)
  unfold scanWith
  split
  · exact within_decode _
  · next c rest =>
    have h_behind : rest.length ≤ (c :: rest).length := Nat.le_succ _
    split
    · split
      · next e h_error => exact shortens_scanString.error h_error _
      · next text rest' h_ok =>
        exact Nat.lt_of_lt_of_le (shortens_scanString.shorter h_ok) h_behind
    split
    · split
      · exact LoadsError.noConfusion
      · -- an object, if it may be nested here
        next scan =>
        have h_object : Shortens (scanObject scan) :=
          shortens_scanContainer (shortens_scanField (h_inner scan rfl)) _ _
        exact (h_object.within rest).mono h_behind
    split
    · split
      · exact LoadsError.noConfusion
      · next scan =>
        -- and an array
        have h_array : Shortens (scanArray scan) := shortens_scanContainer (h_inner scan rfl) _ _
        exact (h_array.within rest).mono h_behind
    · exact shortens_scanLeaf.within (c :: rest)

/-- A value ends before the text does, at every depth. -/
theorem shortens_scanOnce (depth : ℕ) : Shortens (scanOnce depth) := by
  induction depth with
  | zero => exact shortens_scanWith (fun scan h => absurd h (by simp))
  | succ depth ih =>
    refine shortens_scanWith (fun scan h => ?_)
    obtain rfl := Option.some.inj h
    exact ih

/-- **No loop of the scanner runs out of rounds.** So `stuck` is a case of the definition and none
of the program, and every text is read or refused. -/
theorem loads_ne_stuck (depth : ℕ) (t : PyStr) : loads depth t ≠ .error .stuck := by
  intro h
  unfold loads at h
  split at h
  · exact absurd h (by simp)
  · split at h
    · next e h_scan =>
      obtain rfl := Except.error.inj h
      exact (shortens_scanOnce depth).finishes _ h_scan
    · split at h
      · exact absurd h (by simp)
      · exact absurd h (by simp)

end PyJson

end FingerprintHub
