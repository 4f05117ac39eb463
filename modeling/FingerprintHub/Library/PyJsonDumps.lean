import FingerprintHub.Library.PyJson
import Mathlib.Data.List.Forall2

/-!
# `json.dumps`

The encoder of Python's `json`, with `ensure_ascii` or without, and with or without a space
after a comma and a colon. The defaults have both; the compact style writes characters as they
are, and no spaces. It raises a `ValueError` on an integer with too many digits and a
`RecursionError` on values nested too deeply.

A float is written as its `repr`, which is the literal it is modelled by.

`loads_dumps` is the round trip: what was written is read back, in either style. One thing
is not: escaped one by one, a high surrogate and a low one after it are read as the pair
they look like, so `Unpaired` is asked of text that is escaped.
-/

namespace FingerprintHub
namespace PyJson

/-- How `json.dumps` is called: `ensure_ascii`, and whether the separators have a space. -/
structure DumpsStyle where
  ensureAscii : Bool
  spaced : Bool

/-- `ensure_ascii=False, separators=(",", ":")`. -/
def DumpsStyle.compact : DumpsStyle := ⟨false, false⟩

namespace DumpsStyle

variable (style : DumpsStyle)

/-- The space after a separator. -/
def space : PyStr := if style.spaced then [CodePoint.ofChar ' '] else []

/-- `item_separator`. -/
def comma : PyStr := CodePoint.ofChar ',' :: style.space

/-- `key_separator`. -/
def colon : PyStr := CodePoint.ofChar ':' :: style.space

end DumpsStyle

/-- What `json.dumps` raises. -/
inductive DumpsError where
  /-- the `ValueError` of an integer with too many digits -/
  | digits
  /-- `RecursionError` -/
  | recursion
  deriving DecidableEq, Repr

/-! ### Strings -/

/-- A digit of `'{0:04x}'`. -/
def hexChar (d : ℕ) : CodePoint := CodePoint.ofChar (Nat.digitChar d)

/-- `'\\u{0:04x}'.format(n)`. -/
def hexEscape (n : ℕ) : PyStr :=
  [backslash, CodePoint.ofChar 'u', hexChar (n / 4096 % 16), hexChar (n / 256 % 16),
    hexChar (n / 16 % 16), hexChar (n % 16)]

/-- `ESCAPE_DCT`, apart from the control characters. -/
def shortEscape? (c : CodePoint) : Option CodePoint :=
  if c = quote ∨ c = backslash then some c
  else if c.val = 0x08 then some (CodePoint.ofChar 'b')
  else if c.val = 0x0c then some (CodePoint.ofChar 'f')
  else if c.val = 0x0a then some (CodePoint.ofChar 'n')
  else if c.val = 0x0d then some (CodePoint.ofChar 'r')
  else if c.val = 0x09 then some (CodePoint.ofChar 't')
  else none

/-- The halves of a character that needs a surrogate pair: the high one -/
def highHalf (c : CodePoint) : ℕ := 0xd800 + (c.val - 0x10000) / 0x400

/-- and the low one. -/
def lowHalf (c : CodePoint) : ℕ := 0xdc00 + (c.val - 0x10000) % 0x400

/-- The character is written as a `\uXXXX`, or two of them. -/
def DumpsStyle.escapes (style : DumpsStyle) (c : CodePoint) : Bool :=
  c.val ≤ 0x1f || (style.ensureAscii && decide (0x7e < c.val))

/-- One character of a string. -/
def writeChar (style : DumpsStyle) (c : CodePoint) : PyStr :=
  match shortEscape? c with
  | some e => [backslash, e]
  | none =>
    if style.escapes c then
      if c.val < 0x10000 then hexEscape c.val
      else hexEscape (highHalf c) ++ hexEscape (lowHalf c)
    else [c]

/-- A string. -/
def writeString (style : DumpsStyle) (t : PyStr) : PyStr :=
  quote :: (t.flatMap (writeChar style) ++ [quote])

/-! ### Values -/

/-- The items of a container between its brackets. -/
def writeContainer (style : DumpsStyle) (open_ close : Char) (items : List PyStr) : PyStr :=
  CodePoint.ofChar open_ :: (style.comma.intercalate items ++ [CodePoint.ofChar close])

/-- A key, its colon and its value. -/
def writeField (style : DumpsStyle) (write : PyJson → Except DumpsError PyStr)
    (f : PyStr × PyJson) : Except DumpsError PyStr :=
  match write f.2 with
  | .error e => .error e
  | .ok t => .ok (writeString style f.1 ++ (style.colon ++ t))

/-- A value, where `inner` writes what is nested: `none` is the `RecursionError`. -/
def writeWith (style : DumpsStyle) (inner : Option (PyJson → Except DumpsError PyStr)) :
    PyJson → Except DumpsError PyStr
  | .null => .ok (PyStr.ofString "null")
  | .bool true => .ok (PyStr.ofString "true")
  | .bool false => .ok (PyStr.ofString "false")
  -- `str` refuses integers with too many digits
  | .int n =>
    if n.natAbs < 10 ^ PyStr.maxStrDigits then .ok (PyStr.ofInt n) else .error .digits
  | .float literal => .ok literal
  | .nan => .ok (PyStr.ofString "NaN")
  | .infinity false => .ok (PyStr.ofString "Infinity")
  | .infinity true => .ok (PyStr.ofString "-Infinity")
  | .str t => .ok (writeString style t)
  | .list items =>
    -- a container needs one level more
    match inner with
    | none => .error .recursion
    | some write => (items.mapM write).map (writeContainer style '[' ']')
  | .dict fields =>
    match inner with
    | none => .error .recursion
    | some write =>
      (fields.mapM (writeField style write)).map (writeContainer style '{' '}')

/-- `json.dumps(v)`, where containers may be nested to a depth. -/
def dumps (style : DumpsStyle) : ℕ → PyJson → Except DumpsError PyStr
  | 0 => writeWith style none
  | depth + 1 => writeWith style (some (dumps style depth))

/-! ### Reading a string back -/

/-- A hex digit that was written is read as its number. -/
theorem hexDigit?_hexChar {d : ℕ} (h : d < 16) : hexDigit? (hexChar d) = some d := by
  interval_cases d <;> rfl

/-- Four hex digits are read as the number they were written for. -/
theorem hex4?_hexChar {n : ℕ} (h : n < 0x10000) :
    hex4? (hexChar (n / 4096 % 16)) (hexChar (n / 256 % 16)) (hexChar (n / 16 % 16))
      (hexChar (n % 16)) = some (Fin.ofNat _ n) := by
  have h_mod : ∀ m, m % 16 < 16 := fun m => Nat.mod_lt m (by decide)
  have h_digits : ((n / 4096 % 16 * 16 + n / 256 % 16) * 16 + n / 16 % 16) * 16 + n % 16 = n := by
    omega
  simp only [hex4?, hexDigit?_hexChar (h_mod _), h_digits]

/-- An escape is read as its code point. -/
theorem scanUnits_hexEscape {n : ℕ} (h : n < 0x10000) (t : PyStr) :
    scanUnits (hexEscape n ++ t) = consUnit ⟨Fin.ofNat _ n, true⟩ (scanUnits t) := by
  have h_ne : backslash ≠ quote := by decide
  simp only [hexEscape, List.cons_append, List.nil_append, scanUnits, if_neg h_ne, if_true,
    hex4?_hexChar h]

/-- A short escape is read as its character. -/
theorem escape?_of_short {c e : CodePoint} (h : shortEscape? c = some e) :
    e ≠ CodePoint.ofChar 'u' ∧ escape? e = some c := by
  unfold shortEscape? at h
  split at h
  · next h_c =>
    obtain rfl := Option.some.inj h
    rcases h_c with rfl | rfl
    · exact ⟨by decide, by decide⟩
    · exact ⟨by decide, by decide⟩
  repeat
    split at h
    · next h_c =>
      obtain rfl := Option.some.inj h
      refine ⟨by decide, ?_⟩
      have h_fin : c = Fin.ofNat _ c.val := (Fin.ofNat_val_eq_self c).symm
      rw [h_fin, h_c]
      decide
  exact absurd h (by simp)

/-- There are code points, which `Fin.ofNat` asks for. -/
theorem neZero_codePoints : NeZero 0x110000 := ⟨by decide⟩

/-- What the scanner finds of a character: itself, escaped or not, or the two halves of a pair. -/
def unitsOf (style : DumpsStyle) (c : CodePoint) : List CodeUnit :=
  match shortEscape? c with
  | some _ => [⟨c, false⟩]
  | none =>
    if style.escapes c then
      if c.val < 0x10000 then [⟨c, true⟩]
      else
        [⟨@Fin.ofNat _ neZero_codePoints (highHalf c), true⟩,
          ⟨@Fin.ofNat _ neZero_codePoints (lowHalf c), true⟩]
    else [⟨c, false⟩]

/-- The halves are code points below the other plane: -/
theorem highHalf_lt (c : CodePoint) : highHalf c < 0xdc00 := by
  have h_c := c.isLt
  unfold highHalf
  omega

/-- four hex digits are enough for each. -/
theorem lowHalf_lt (c : CodePoint) : lowHalf c < 0xe000 := by
  unfold lowHalf
  omega

/-- A character is read as its units, whatever follows. -/
theorem scanUnits_writeChar (style : DumpsStyle) (c : CodePoint) (t : PyStr) :
    scanUnits (writeChar style c ++ t) = (unitsOf style c).foldr consUnit (scanUnits t) := by
  have h_ne : backslash ≠ quote := by decide
  unfold writeChar unitsOf
  cases h_short : shortEscape? c with
  -- a backslash and a letter
  | some e =>
    obtain ⟨h_u, h_escape⟩ := escape?_of_short h_short
    rw [List.cons_append, List.cons_append, List.nil_append, scanUnits.eq_def]
    simp only [if_neg h_ne, if_true, if_neg h_u, h_escape, List.foldr_cons, List.foldr_nil]
  | none =>
    dsimp only
    split
    · split
      · next h_lt =>
        rw [scanUnits_hexEscape h_lt, Fin.ofNat_val_eq_self]
        rfl
      · -- one escape is not enough: both halves are read
        have h_high : highHalf c < 0x10000 := (highHalf_lt c).trans (by decide)
        have h_low : lowHalf c < 0x10000 := (lowHalf_lt c).trans (by decide)
        rw [List.append_assoc, scanUnits_hexEscape h_high, scanUnits_hexEscape h_low]
        rfl
    · -- a character that stands for itself: it has no short escape, and is no control character
      next h_escapes =>
      have h_plain : c ≠ quote ∧ c ≠ backslash := by
        refine ⟨?_, ?_⟩
        · rintro rfl
          exact absurd h_short (by decide)
        · rintro rfl
          exact absurd h_short (by decide)
      have h_control : ¬ c.val ≤ 0x1f := by
        intro h_le
        exact h_escapes (by simp [DumpsStyle.escapes, h_le])
      rw [List.cons_append, List.nil_append, scanUnits.eq_def]
      simp only [if_neg h_plain.1, if_neg h_plain.2, if_neg h_control, List.foldr_cons,
        List.foldr_nil]

/-- Units in front of others are their concatenation. -/
theorem foldr_consUnit (units : List CodeUnit) (units' : List CodeUnit) (rest : PyStr) :
    units.foldr consUnit (.ok (units', rest)) = .ok (units ++ units', rest) := by
  induction units with
  | nil => rfl
  | cons u units ih =>
    rw [List.foldr_cons, ih]
    rfl

/-- The characters that were written are found up to the quote that closes them. -/
theorem scanUnits_write (style : DumpsStyle) (t rest : PyStr) :
    scanUnits (t.flatMap (writeChar style) ++ quote :: rest) =
      .ok (t.flatMap (unitsOf style), rest) := by
  induction t with
  | nil =>
    rw [List.flatMap_nil, List.nil_append, scanUnits.eq_def]
    rfl
  | cons c t ih =>
    rw [List.flatMap_cons, List.append_assoc, scanUnits_writeChar, ih, foldr_consUnit,
      List.flatMap_cons]

/-- No high surrogate stands before a low one. Escaped, the two would be read as one character;
Python's `json.dumps` writes them so all the same. -/
def Unpaired (t : PyStr) : Prop :=
  t.IsChain (fun c d => ¬ (isHighSurrogate c = true ∧ isLowSurrogate d = true))

/-- A unit that is no escaped high surrogate stands for itself, -/
theorem joinSurrogatePairs_cons {u : CodeUnit}
    (h : ¬ (u.escaped = true ∧ isHighSurrogate u.code = true)) (l : List CodeUnit) :
    joinSurrogatePairs (u :: l) = u.code :: joinSurrogatePairs l := by
  cases l with
  | nil => rfl
  | cons v l =>
    rw [joinSurrogatePairs, if_neg]
    intro h_and
    simp only [Bool.and_eq_true] at h_and
    exact h ⟨h_and.1.1.1, h_and.1.2⟩

/-- and so does one that no escaped low surrogate follows. -/
theorem joinSurrogatePairs_of_head {u : CodeUnit} {l : List CodeUnit}
    (h : ∀ v ∈ l.head?, isLowSurrogate v.code = false) :
    joinSurrogatePairs (u :: l) = u.code :: joinSurrogatePairs l := by
  cases l with
  | nil => rfl
  | cons v l =>
    rw [joinSurrogatePairs, if_neg]
    intro h_and
    simp only [Bool.and_eq_true] at h_and
    have h_v := h v rfl
    rw [h_and.2] at h_v
    exact absurd h_v (by simp)

/-- The halves of a character are joined to it again. -/
theorem joinSurrogatePairs_halves {c : CodePoint} (h : ¬ c.val < 0x10000) (l : List CodeUnit) :
    joinSurrogatePairs
      (⟨Fin.ofNat _ (highHalf c), true⟩ :: ⟨Fin.ofNat _ (lowHalf c), true⟩ :: l) =
      c :: joinSurrogatePairs l := by
  have h_c := c.isLt
  have h_high : (Fin.ofNat 0x110000 (highHalf c)).val = highHalf c :=
    Nat.mod_eq_of_lt ((highHalf_lt c).trans (by decide))
  have h_low : (Fin.ofNat 0x110000 (lowHalf c)).val = lowHalf c :=
    Nat.mod_eq_of_lt ((lowHalf_lt c).trans (by decide))
  -- both halves are what the scanner takes them for
  have h_isHigh : isHighSurrogate (Fin.ofNat _ (highHalf c)) = true := by
    simp only [isHighSurrogate, h_high, Bool.and_eq_true, decide_eq_true_eq]
    unfold highHalf
    omega
  have h_isLow : isLowSurrogate (Fin.ofNat _ (lowHalf c)) = true := by
    simp only [isLowSurrogate, h_low, Bool.and_eq_true, decide_eq_true_eq]
    unfold lowHalf
    omega
  have h_join : joinSurrogates (Fin.ofNat _ (highHalf c)) (Fin.ofNat _ (lowHalf c)) = c := by
    refine Fin.ext ?_
    simp only [joinSurrogates, h_high, h_low]
    show _ % 0x110000 = _
    unfold highHalf lowHalf
    omega
  rw [joinSurrogatePairs, if_pos (by rw [h_isHigh, h_isLow]; rfl), h_join]

/-- What the scanner finds first of a text is no low surrogate, unless the text begins with
one. -/
theorem isLowSurrogate_head {style : DumpsStyle} {t : PyStr}
    (h : ∀ d ∈ t.head?, isLowSurrogate d = false) :
    ∀ v ∈ (t.flatMap (unitsOf style)).head?, isLowSurrogate v.code = false := by
  cases t with
  | nil => exact fun v h_v => absurd h_v (by simp)
  | cons d t =>
    have h_d := h d rfl
    -- also where it is read as two halves, of which the high one comes first
    have h_half : isLowSurrogate (Fin.ofNat _ (highHalf d)) = false := by
      have h_lt := highHalf_lt d
      have h_high : (Fin.ofNat 0x110000 (highHalf d)).val = highHalf d :=
        Nat.mod_eq_of_lt (h_lt.trans (by decide))
      simp only [isLowSurrogate, h_high, Bool.and_eq_false_iff, decide_eq_false_iff_not]
      omega
    have h_head : ∃ u l, unitsOf style d = u :: l ∧ isLowSurrogate u.code = false := by
      unfold unitsOf
      split
      · exact ⟨_, _, rfl, h_d⟩
      · split
        · split
          · exact ⟨_, _, rfl, h_d⟩
          · exact ⟨_, _, rfl, h_half⟩
        · exact ⟨_, _, rfl, h_d⟩
    obtain ⟨u, l, h_units, h_u⟩ := h_head
    intro v h_v
    rw [List.flatMap_cons, h_units] at h_v
    obtain rfl := Option.some.inj h_v
    exact h_u

/-- The characters found are the text, if nothing in it looks like a pair. By induction on the
text: a pair of halves is one character of it, and any other unit stands for itself. -/
theorem joinSurrogatePairs_write {style : DumpsStyle} {t : PyStr}
    (h : style.ensureAscii = true → Unpaired t) :
    joinSurrogatePairs (t.flatMap (unitsOf style)) = t := by
  induction t with
  | nil => rfl
  | cons c t ih =>
    have ih := ih (fun h_ascii => (h h_ascii).of_cons)
    -- a character that is written as it is, or by one escape
    have h_single : ∀ b, (b = true → style.escapes c = true) →
        joinSurrogatePairs (⟨c, b⟩ :: t.flatMap (unitsOf style)) = c :: t := by
      intro b h_b
      by_cases h_high : b = true ∧ isHighSurrogate c = true
      · have h_ascii : style.ensureAscii = true := by
          have h_escapes := h_b h_high.1
          have h_c := h_high.2
          simp only [DumpsStyle.escapes, isHighSurrogate, Bool.or_eq_true, Bool.and_eq_true,
            decide_eq_true_eq] at h_escapes h_c
          exact (h_escapes.resolve_left (by omega)).1
        rw [joinSurrogatePairs_of_head, ih]
        refine isLowSurrogate_head (fun d h_d => ?_)
        cases t with
        | nil => exact absurd h_d (by simp)
        | cons d' t =>
          obtain rfl := Option.some.inj h_d
          have h_pair := (List.isChain_cons_cons.mp (h h_ascii)).1
          by_contra h_low
          exact h_pair ⟨h_high.2, by simpa using h_low⟩
      · rw [joinSurrogatePairs_cons h_high, ih]
    rw [List.flatMap_cons]
    unfold unitsOf
    split
    · exact h_single false (by simp)
    · split
      · next h_escapes =>
        split
        · exact h_single true (fun _ => h_escapes)
        · next h_lt =>
          rw [List.cons_append, List.cons_append, List.nil_append, joinSurrogatePairs_halves h_lt]
          exact congrArg (c :: ·) ih
      · exact h_single false (by simp)

/-- **A string that was written is read back.** -/
theorem scanString_write {style : DumpsStyle} {t : PyStr}
    (h : style.ensureAscii = true → Unpaired t) (rest : PyStr) :
    scanString (t.flatMap (writeChar style) ++ quote :: rest) = .ok (t, rest) := by
  rw [scanString, scanUnits_write]
  exact congrArg (fun t => Except.ok (t, rest)) (joinSurrogatePairs_write h)

/-! ### Reading a number back -/

/-- What may follow a number: nothing that would belong to it. -/
def Delimits (rest : PyStr) : Prop :=
  ∀ c ∈ rest.head?, isDigit c = false ∧ c ∉ PyStr.ofString ".eE+-"

/-- The end of the text delimits a number. -/
theorem delimits_nil : Delimits [] := fun c h => absurd h (by simp)

/-- Digits end where they ended. -/
theorem Delimits.digits {rest : PyStr} (h : Delimits rest) (t : PyStr) :
    (t ++ rest).takeWhile isDigit = t.takeWhile isDigit ∧
      (t ++ rest).dropWhile isDigit = t.dropWhile isDigit ++ rest := by
  have h_rest : rest.takeWhile isDigit = [] ∧ rest.dropWhile isDigit = rest := by
    cases rest with
    | nil => exact ⟨rfl, rfl⟩
    | cons c rest =>
      have h_c := (h c rfl).1
      simp only [List.takeWhile_cons, List.dropWhile_cons, h_c]
      exact ⟨rfl, rfl⟩
  induction t with
  | nil => exact h_rest
  | cons c t ih =>
    rw [List.cons_append, List.takeWhile_cons, List.dropWhile_cons, List.takeWhile_cons,
      List.dropWhile_cons]
    split
    · exact ⟨congrArg (c :: ·) ih.1, ih.2⟩
    · exact ⟨rfl, rfl⟩

/-- A sign is read as before, where none follows. -/
theorem scanSign_append {signs rest : PyStr} (h : ∀ c ∈ rest.head?, c ∉ signs) (t : PyStr) :
    scanSign signs (t ++ rest) = ((scanSign signs t).1, (scanSign signs t).2 ++ rest) := by
  cases t with
  | nil =>
    cases rest with
    | nil => rfl
    | cons c rest => exact if_neg (h c rfl)
  | cons c t =>
    simp only [List.cons_append, scanSign]
    split
    · rfl
    · rfl

/-- An integer part is read as before, -/
theorem scanInteger_append {rest : PyStr} (h : Delimits rest) {t digits t' : PyStr}
    (h_scan : scanInteger t = some (digits, t')) :
    scanInteger (t ++ rest) = some (digits, t' ++ rest) := by
  cases t with
  | nil => exact absurd h_scan (by simp [scanInteger])
  | cons c t =>
    simp only [scanInteger, List.cons_append] at h_scan ⊢
    split at h_scan
    · next h_zero =>
      obtain ⟨rfl, rfl⟩ := Prod.mk.inj (Option.some.inj h_scan)
      exact if_pos h_zero
    · next h_zero =>
      split at h_scan
      · next h_c =>
        obtain ⟨rfl, rfl⟩ := Prod.mk.inj (Option.some.inj h_scan)
        rw [if_neg h_zero, if_pos h_c, (h.digits t).1, (h.digits t).2]
      · exact absurd h_scan (by simp)

/-- a fraction, -/
theorem scanFraction_append {rest : PyStr} (h : Delimits rest) (t : PyStr) :
    scanFraction (t ++ rest) = ((scanFraction t).1, (scanFraction t).2 ++ rest) := by
  -- the point of a fraction is followed by a digit
  have h_none : ∀ l : PyStr, (∀ c ∈ l.head?, c ≠ CodePoint.ofChar '.' ∨
      ∀ d ∈ l.tail.head?, isDigit d = false) → scanFraction l = ([], l) := by
    intro l h_l
    unfold scanFraction
    split
    · next c d l =>
      refine if_neg (fun h_and => ?_)
      rcases h_l c rfl with h_c | h_d
      · exact h_c h_and.1
      · exact absurd h_and.2 (by simp [h_d d rfl])
    · rfl
  match t with
  | [] =>
    refine h_none rest (fun c h_c => Or.inl ?_)
    rintro rfl
    exact (h _ h_c).2 (by decide)
  | [c] =>
    have h_c : scanFraction (c :: rest) = ([], c :: rest) :=
      h_none (c :: rest) (fun _ _ => Or.inr (fun d h_d => (h d h_d).1))
    exact h_c
  | c :: d :: t =>
    simp only [List.cons_append, scanFraction]
    split
    · rw [(h.digits t).1, (h.digits t).2]
    · rfl

/-- and an exponent. -/
theorem scanExponent_append {rest : PyStr} (h : Delimits rest) (t : PyStr) :
    scanExponent (t ++ rest) = ((scanExponent t).1, (scanExponent t).2 ++ rest) := by
  cases t with
  | nil =>
    cases rest with
    | nil => rfl
    | cons c rest =>
      -- what delimits a number is no exponent
      refine if_neg (fun h_c => (h c rfl).2 ?_)
      rcases h_c with rfl | rfl
      · decide
      · decide
  | cons c t =>
    -- nor is it a sign
    have h_sign : ∀ d ∈ rest.head?, d ∉ PyStr.ofString "+-" := by
      intro d h_d h_mem
      exact (h d h_d).2 (List.mem_append_right (PyStr.ofString ".eE") h_mem)
    simp only [List.cons_append, scanExponent]
    rw [scanSign_append h_sign]
    dsimp only
    rw [(h.digits _).1, (h.digits _).2]
    split
    · split
      · rfl
      · rfl
    · rfl

/-- **A number is read as before**, whatever follows that delimits it. -/
theorem scanNumber_append {rest : PyStr} (h : Delimits rest) {t t' : PyStr} {v : PyJson}
    (h_scan : scanNumber t = .ok (v, t')) : scanNumber (t ++ rest) = .ok (v, t' ++ rest) := by
  have h_sign : ∀ d ∈ rest.head?, d ∉ PyStr.ofString "-" := by
    intro d h_d h_mem
    exact (h d h_d).2 (List.mem_append_right (PyStr.ofString ".eE+") h_mem)
  simp only [scanNumber] at h_scan ⊢
  rw [scanSign_append h_sign]
  dsimp only
  cases h_integer : scanInteger (scanSign (PyStr.ofString "-") t).2 with
  | none =>
    rw [h_integer] at h_scan
    exact absurd h_scan (by simp)
  | some result =>
    obtain ⟨digits, t₂⟩ := result
    rw [h_integer] at h_scan
    -- each part ends where it ended without `rest`
    rw [scanInteger_append h h_integer]
    dsimp only at h_scan ⊢
    rw [scanFraction_append h]
    dsimp only
    rw [scanExponent_append h]
    dsimp only
    -- an integer, or a float
    split at h_scan
    · rw [if_pos ‹_›]
      split at h_scan
      · exact absurd h_scan (by simp)
      · obtain ⟨rfl, rfl⟩ := Prod.mk.inj (Except.ok.inj h_scan)
        simp only
    · obtain ⟨rfl, rfl⟩ := Prod.mk.inj (Except.ok.inj h_scan)
      rw [if_neg ‹_›]

/-- The digits of a natural number begin with a zero only for zero itself. -/
theorem ofInt_eq_cons (n : ℕ) : ∃ (c : CodePoint) (t : PyStr), PyStr.ofInt n = c :: t ∧
    isDigit c = true ∧ (∀ d ∈ t, isDigit d = true) ∧ (c = CodePoint.ofChar '0' → t = []) := by
  have h_digits : ∃ (d : ℕ) (ds : List ℕ), Nat.toDigits 10 n = (d :: ds).map Nat.digitChar ∧
      (∀ e ∈ d :: ds, e < 10) ∧ (d = 0 → n = 0) := by
    -- the last digit is taken off, and what is left is a smaller number
    induction n using Nat.strong_induction_on with
    | _ n ih =>
      rw [Nat.toDigits_eq_if (by decide)]
      by_cases h : n < 10
      · exact ⟨n, [], if_pos h, by simpa using h, id⟩
      · obtain ⟨d, ds, h_digits, h_lt, h_zero⟩ := ih (n / 10) (by omega)
        refine ⟨d, ds ++ [n % 10], ?_, ?_, fun h_d => absurd (h_zero h_d) (by omega)⟩
        · rw [if_neg h, h_digits, ← List.cons_append, List.map_append]
          rfl
        · rw [← List.cons_append]
          intro e h_e
          rcases List.mem_append.mp h_e with h_e | h_e
          · exact h_lt e h_e
          · rw [List.mem_singleton.mp h_e]
            omega
  obtain ⟨d, ds, h_digits, h_lt, h_zero⟩ := h_digits
  have h_digit : ∀ e ∈ d :: ds, isDigit (CodePoint.ofChar (Nat.digitChar e)) = true := by
    intro e h_e
    have h_e := h_lt e h_e
    interval_cases e <;> decide
  refine ⟨_, _, PyStr.ofInt_natCast h_digits, h_digit d (List.mem_cons_self ..), ?_, ?_⟩
  · intro c h_c
    obtain ⟨e, h_e, rfl⟩ := List.mem_map.mp h_c
    exact h_digit e (List.mem_cons_of_mem _ h_e)
  · intro h_c
    have h_d : d = 0 := by
      have h_d := h_lt d (List.mem_cons_self ..)
      interval_cases d <;> first | rfl | exact absurd h_c (by decide)
    obtain rfl := h_zero h_d
    have h_length := congrArg List.length h_digits
    rw [List.length_map, List.length_cons] at h_length
    have h_ds : ds.length = 0 := by
      have h_one : (Nat.toDigits 10 0).length = 1 := by decide
      omega
    rw [List.length_eq_zero_iff.mp h_ds]
    rfl

/-- The digits of a natural number are an integer part. -/
theorem scanInteger_ofInt (n : ℕ) : scanInteger (PyStr.ofInt n) = some (PyStr.ofInt n, []) := by
  obtain ⟨c, t, h_text, h_c, h_t, h_zero⟩ := ofInt_eq_cons n
  rw [h_text, scanInteger]
  by_cases h_eq : c = CodePoint.ofChar '0'
  · rw [if_pos h_eq, h_zero h_eq]
  · rw [if_neg h_eq, if_pos h_c, List.takeWhile_eq_self_iff.mpr h_t,
      List.dropWhile_eq_nil_iff.mpr h_t]

/-- **An integer that was written is read back**, up to the longest that is converted. -/
theorem scanNumber_ofInt {n : ℤ} (h : n.natAbs < 10 ^ PyStr.maxStrDigits) :
    scanNumber (PyStr.ofInt n) = .ok (.int n, []) := by
  have h_sign : ∃ sign, PyStr.ofInt n = sign ++ PyStr.ofInt n.natAbs ∧
      scanSign (PyStr.ofString "-") (PyStr.ofInt n) = (sign, PyStr.ofInt n.natAbs) := by
    -- a sign is read off if there is one, and no digit is a sign
    by_cases h_neg : n < 0
    · have h_n : n = -(n.natAbs : ℤ) := by omega
      have h_text : PyStr.ofInt n = CodePoint.ofChar '-' :: PyStr.ofInt n.natAbs := by
        rw [← PyStr.ofInt_neg (by omega), ← h_n]
      refine ⟨[CodePoint.ofChar '-'], h_text, ?_⟩
      rw [h_text]
      rfl
    · have h_n : PyStr.ofInt n = PyStr.ofInt n.natAbs := by
        rw [Int.natAbs_of_nonneg (by omega)]
      refine ⟨[], h_n, ?_⟩
      obtain ⟨c, t, h_text, h_c, -, -⟩ := ofInt_eq_cons n.natAbs
      rw [h_n, h_text]
      refine if_neg (fun h_mem => ?_)
      rw [List.mem_singleton.mp h_mem] at h_c
      exact absurd h_c (by decide)
  obtain ⟨sign, h_text, h_scan⟩ := h_sign
  unfold scanNumber
  rw [h_scan]
  dsimp only
  rw [scanInteger_ofInt]
  -- nothing is left for a fraction or an exponent
  dsimp only [scanFraction, scanExponent]
  rw [← h_text, PyStr.int_ofInt_of_natAbs h]
  rfl

/-- The text of a float is a number to the scanner, and no integer. -/
def FloatLiteral (literal : PyStr) : Prop := scanNumber literal = .ok (.float literal, [])

/-- A number begins with a digit, or with a sign and a digit. -/
theorem head_of_scanNumber {t rest : PyStr} {v : PyJson} (h : scanNumber t = .ok (v, rest)) :
    (∃ c t', t = c :: t' ∧ isDigit c = true) ∨
      ∃ c t', t = CodePoint.ofChar '-' :: c :: t' ∧ isDigit c = true := by
  have h_digit : ∀ {l : PyStr} {r}, scanInteger l = some r → ∃ c l', l = c :: l' ∧
      isDigit c = true := by
    intro l r h_l
    cases l with
    | nil => exact absurd h_l (by simp [scanInteger])
    | cons c l =>
      refine ⟨c, l, rfl, ?_⟩
      simp only [scanInteger] at h_l
      split at h_l
      · next h_zero =>
        rw [h_zero]
        decide
      · split at h_l
        · next h_c => exact h_c
        · exact absurd h_l (by simp)
  unfold scanNumber at h
  dsimp only at h
  cases h_integer : scanInteger (scanSign (PyStr.ofString "-") t).2 with
  | none =>
    rw [h_integer] at h
    exact absurd h (by simp)
  | some r =>
    obtain ⟨c, l, h_l, h_c⟩ := h_digit h_integer
    cases t with
    | nil => exact absurd h_l (by simp [scanSign])
    | cons s t =>
      -- with a sign in front, or without
      simp only [scanSign] at h_l
      split at h_l
      · next h_mem =>
        rw [List.mem_singleton.mp h_mem]
        exact Or.inr ⟨c, l, congrArg _ h_l, h_c⟩
      · exact Or.inl ⟨c, l, h_l, h_c⟩

/-- A number is none of the words. -/
theorem scanLeaf_of_number {t rest : PyStr} {v : PyJson} (h : scanNumber t = .ok (v, rest)) :
    scanLeaf t = .ok (v, rest) := by
  have h_none : words.find? (fun w => w.1.isPrefixOf t) = none := by
    rw [List.find?_eq_none]
    -- no word has a digit among its first two characters
    have h_heads : ∀ w ∈ words, ∃ c d l, w.1 = c :: d :: l ∧ isDigit c = false ∧
        isDigit d = false := by
      intro w h_w
      simp only [words, List.mem_cons, List.not_mem_nil, or_false] at h_w
      rcases h_w with rfl | rfl | rfl | rfl | rfl | rfl
      all_goals exact ⟨_, _, _, rfl, by decide, by decide⟩
    intro w h_w h_front
    obtain ⟨c, d, l, h_word, h_c, h_d⟩ := h_heads w h_w
    rw [h_word] at h_front
    rcases head_of_scanNumber h with ⟨e, t', rfl, h_e⟩ | ⟨e, t', rfl, h_e⟩
    · simp only [List.isPrefixOf, Bool.and_eq_true, beq_iff_eq] at h_front
      rw [h_front.1, h_e] at h_c
      exact absurd h_c (by simp)
    · simp only [List.isPrefixOf, Bool.and_eq_true, beq_iff_eq] at h_front
      rw [h_front.2.1, h_e] at h_d
      exact absurd h_d (by simp)
  rw [scanLeaf, h_none]
  exact h

/-! ### Reading a container back -/

/-- What holds of each character of a text that is written out. -/
theorem forall_mem_of_all {p : CodePoint → Prop} [DecidablePred p] {l : PyStr}
    (h : l.all (fun c => decide (p c)) = true) : ∀ c ∈ l, p c :=
  fun c h_c => of_decide_eq_true (List.all_eq_true.mp h c h_c)

/-- Whitespace of JSON. -/
def isSpace (c : CodePoint) : Bool :=
  c.val = 0x20 || c.val = 0x09 || c.val = 0x0a || c.val = 0x0d

/-- What is skipped is whitespace. -/
theorem skipSpace_eq (t : PyStr) : skipSpace t = t.dropWhile isSpace := rfl

/-- A text begins with what a value may begin with: no whitespace, no closing bracket, no comma or
colon, and no byte order mark. -/
def Opens (t : PyStr) : Prop :=
  ∃ c t', t = c :: t' ∧ isSpace c = false ∧ c ∉ PyStr.ofString "]\x7d,:" ∧ c.val ≠ 0xfeff

/-- It does so whatever follows, -/
theorem Opens.append {t : PyStr} (h : Opens t) (rest : PyStr) : Opens (t ++ rest) := by
  obtain ⟨c, t', rfl, h_c⟩ := h
  exact ⟨c, t' ++ rest, rfl, h_c⟩

/-- and nothing is skipped before it. -/
theorem Opens.skipSpace {t : PyStr} (h : Opens t) : skipSpace t = t := by
  obtain ⟨c, t', rfl, h_c, -⟩ := h
  rw [skipSpace_eq, List.dropWhile_cons, h_c]
  rfl

/-- A digit, a quote, a bracket or the first letter of a word. -/
theorem opens_cons {c : CodePoint} (h : isDigit c = true ∨ c ∈ PyStr.ofString "\x22\x7b[-ntfNI")
    (t : PyStr) : Opens (c :: t) := by
  refine ⟨c, t, rfl, ?_⟩
  rcases h with h_digit | h_mem
  · simp only [isDigit, Bool.and_eq_true, decide_eq_true_eq] at h_digit
    refine ⟨?_, ?_, ?_⟩
    · simp only [isSpace, Bool.or_eq_false_iff, decide_eq_false_iff_not]
      omega
    · intro h_mem
      have h_val : ∀ d ∈ PyStr.ofString "]\x7d,:", d.val < 0x30 ∨ 0x39 < d.val :=
        forall_mem_of_all (by decide)
      have h_c := h_val c h_mem
      omega
    · omega
  · have h_all : ∀ d ∈ PyStr.ofString "\x22\x7b[-ntfNI",
        isSpace d = false ∧ d ∉ PyStr.ofString "]\x7d,:" ∧ d.val ≠ 0xfeff :=
      forall_mem_of_all (by decide)
    exact h_all c h_mem

/-- A leaf begins like a value. -/
theorem opens_of_scanLeaf {t rest : PyStr} {v : PyJson} (h : scanLeaf t = .ok (v, rest)) :
    Opens t := by
  unfold scanLeaf at h
  split at h
  · next w h_w =>
    have h_mem := List.mem_of_find?_eq_some h_w
    have h_front : w.1 <+: t := List.isPrefixOf_iff_prefix.mp (by simpa using List.find?_some h_w)
    obtain ⟨t', rfl⟩ := h_front
    refine Opens.append ?_ t'
    simp only [words, List.mem_cons, List.not_mem_nil, or_false] at h_mem
    rcases h_mem with rfl | rfl | rfl | rfl | rfl | rfl
    all_goals exact opens_cons (Or.inr (by decide)) _
  · rcases head_of_scanNumber h with ⟨c, t', rfl, h_c⟩ | ⟨c, t', rfl, -⟩
    · exact opens_cons (Or.inl h_c) t'
    · exact opens_cons (Or.inr (by decide)) _

/-- What is read begins like a value. -/
theorem opens_of_scanOnce {depth : ℕ} {t rest : PyStr} {v : PyJson}
    (h : scanOnce depth t = .ok (v, rest)) : Opens t := by
  have h_with : ∃ inner, scanWith inner t = .ok (v, rest) := by
    cases depth with
    | zero => exact ⟨none, h⟩
    | succ depth => exact ⟨some (scanOnce depth), h⟩
  obtain ⟨inner, h_with⟩ := h_with
  unfold scanWith at h_with
  split at h_with
  · exact absurd h_with (by simp)
  · next c t =>
    by_cases h_c : c = quote ∨ c = CodePoint.ofChar '{' ∨ c = CodePoint.ofChar '['
    · refine opens_cons (Or.inr ?_) t
      rcases h_c with rfl | rfl | rfl
      all_goals decide
    · rw [not_or, not_or] at h_c
      rw [if_neg h_c.1, if_neg h_c.2.1, if_neg h_c.2.2] at h_with
      exact opens_of_scanLeaf h_with

/-- A scanner reads a text as an item, whatever delimits it. This is the statement that goes
through the levels of nesting. -/
def Reads {α : Type} (scan : PyStr → Scan α) (item : α) (t : PyStr) : Prop :=
  Opens t ∧ ∀ rest, Delimits rest → scan (t ++ rest) = .ok (item, rest)

/-- The brackets and the comma delimit what stands before them. -/
theorem delimits_cons {c : CodePoint} (h : c ∈ PyStr.ofString "]\x7d,") (rest : PyStr) :
    Delimits (c :: rest) := by
  have h_all : ∀ d ∈ PyStr.ofString "]\x7d,", isDigit d = false ∧ d ∉ PyStr.ofString ".eE+-" :=
    forall_mem_of_all (by decide)
  intro d h_d
  obtain rfl := Option.some.inj h_d
  exact h_all c h

variable {style : DumpsStyle}

/-- The space after a comma is skipped. -/
theorem skipSpace_space {t : PyStr} (h : Opens t) : skipSpace (style.space ++ t) = t := by
  unfold DumpsStyle.space
  split
  · rw [skipSpace_eq, List.cons_append, List.nil_append, List.dropWhile_cons]
    exact h.skipSpace
  · exact h.skipSpace

/-- **Items written one after another are read one after another.** By induction on the items;
each is delimited by a comma or by the bracket. -/
theorem scanSeries_intercalate {α : Type} {scan : PyStr → Scan α} {close : CodePoint}
    (h_close : close ∈ PyStr.ofString "]\x7d") {items : List α} {texts : List PyStr}
    (h : List.Forall₂ (Reads scan) items texts) (h_ne : items ≠ []) (rest : PyStr) {n : ℕ}
    (h_n : items.length ≤ n) :
    scanSeries scan close n (style.comma.intercalate texts ++ close :: rest) =
      .ok (items, rest) := by
  have h_closes : isSpace close = false ∧ CodePoint.ofChar ',' ≠ close := by
    have h_all : ∀ d ∈ PyStr.ofString "]\x7d", isSpace d = false ∧ CodePoint.ofChar ',' ≠ d :=
      forall_mem_of_all (by decide)
    exact h_all close h_close
  induction h generalizing n with
  | nil => exact absurd rfl h_ne
  | @cons item t items texts h_item h_items ih =>
    -- there is a round left for the item
    obtain ⟨n, rfl⟩ : ∃ m, n = m + 1 := ⟨n - 1, by simp only [List.length_cons] at h_n; omega⟩
    cases h_items with
    | nil =>
      -- the last item: the bracket ends it and the series
      have h_delimits := delimits_cons (List.mem_append_left (PyStr.ofString ",") h_close) rest
      have h_skip : skipSpace (close :: rest) = close :: rest := by
        rw [skipSpace_eq, List.dropWhile_cons, h_closes.1]
        rfl
      rw [List.intercalate_singleton, scanSeries, h_item.2 _ h_delimits]
      dsimp only
      rw [h_skip]
      exact if_pos rfl
    | @cons item' t' items texts h_item' h_items =>
      -- a comma ends the item, and the next one begins behind the space
      rw [List.intercalate_cons_cons, DumpsStyle.comma]
      simp only [List.append_assoc, List.cons_append]
      have h_delimits : Delimits (CodePoint.ofChar ',' ::
          (style.space ++ (style.comma.intercalate (t' :: texts) ++ close :: rest))) :=
        delimits_cons (by decide) _
      have h_opens : Opens (style.comma.intercalate (t' :: texts) ++ close :: rest) := by
        cases texts with
        | nil =>
          rw [List.intercalate_singleton]
          exact h_item'.1.append _
        | cons t'' texts =>
          rw [List.intercalate_cons_cons, List.append_assoc, List.append_assoc]
          exact h_item'.1.append _
      have h_skip : ∀ t : PyStr, skipSpace (CodePoint.ofChar ',' :: t) =
          CodePoint.ofChar ',' :: t := fun t => rfl
      have h_rest := @ih (List.cons_ne_nil _ _) n (Nat.le_of_succ_le_succ h_n)
      rw [DumpsStyle.comma] at h_delimits h_opens h_rest
      rw [scanSeries, h_item.2 _ h_delimits]
      dsimp only
      rw [h_skip]
      dsimp only
      rw [if_neg h_closes.2, if_pos rfl, skipSpace_space h_opens, h_rest]

/-- There are at least as many characters as items. -/
theorem length_le_intercalate {α : Type} {scan : PyStr → Scan α} {items : List α}
    {texts : List PyStr} (h : List.Forall₂ (Reads scan) items texts) :
    items.length ≤ (style.comma.intercalate texts).length := by
  induction h with
  | nil => exact Nat.zero_le _
  | @cons item t items texts h_item h_items ih =>
    have h_t : 0 < t.length := by
      obtain ⟨c, t', rfl, -⟩ := h_item.1
      exact Nat.succ_pos _
    cases texts with
    | nil =>
      cases h_items
      rw [List.intercalate_singleton]
      exact h_t
    | cons t' texts =>
      rw [List.intercalate_cons_cons, List.length_append, List.length_append, List.length_cons]
      omega

/-- **A container that was written is read back.** The rounds of its loop are the length of its
text, which is enough. -/
theorem scanContainer_intercalate {α : Type} {scan : PyStr → Scan α} {close : CodePoint}
    (h_close : close ∈ PyStr.ofString "]\x7d") (wrap : List α → PyJson) {items : List α}
    {texts : List PyStr} (h : List.Forall₂ (Reads scan) items texts) (rest : PyStr) :
    scanContainer scan close wrap (style.comma.intercalate texts ++ close :: rest) =
      .ok (wrap items, rest) := by
  have h_all : ∀ d ∈ PyStr.ofString "]\x7d", isSpace d = false ∧
      d ∈ PyStr.ofString "]\x7d,:" := forall_mem_of_all (by decide)
  have h_close' := h_all close h_close
  have h_series := @scanSeries_intercalate style _ _ _ h_close _ _ h
  have h_length := @length_le_intercalate style _ _ _ _ h
  cases h with
  | nil =>
    have h_skip : skipSpace (close :: rest) = close :: rest := by
      rw [skipSpace_eq, List.dropWhile_cons, h_close'.1]
      rfl
    rw [List.intercalate_nil, List.nil_append, scanContainer, h_skip]
    exact if_pos rfl
  | @cons item t items texts h_item h_items =>
    -- what is behind the bracket begins with the first item
    have h_opens : Opens (style.comma.intercalate (t :: texts) ++ close :: rest) := by
      cases texts with
      | nil =>
        rw [List.intercalate_singleton]
        exact h_item.1.append _
      | cons t' texts =>
        rw [List.intercalate_cons_cons, List.append_assoc, List.append_assoc]
        exact h_item.1.append _
    -- the loop has as many rounds as there are characters
    have h_rounds : (item :: items).length ≤
        (style.comma.intercalate (t :: texts) ++ close :: rest).length := by
      rw [List.length_append]
      omega
    have h_series := h_series (List.cons_ne_nil _ _) rest h_rounds
    have h_skip := h_opens.skipSpace
    obtain ⟨c, t', h_text, -, h_c, -⟩ := h_opens
    rw [h_text] at h_series h_skip ⊢
    have h_ne : c ≠ close := by
      rintro rfl
      exact h_c h_close'.2
    rw [scanContainer, h_skip]
    dsimp only
    rw [if_neg h_ne, h_series]

/-- A field is read back if its value is. -/
theorem reads_field {scan : PyStr → Scan PyJson} {key : PyStr} {v : PyJson} {t : PyStr}
    (h_key : style.ensureAscii = true → Unpaired key) (h : Reads scan v t) :
    Reads (scanField scan) (key, v) (writeString style key ++ (style.colon ++ t)) := by
  refine ⟨opens_cons (Or.inr (by decide)) _, fun rest h_rest => ?_⟩
  have h_skip : ∀ l : PyStr, skipSpace (CodePoint.ofChar ':' :: l) = CodePoint.ofChar ':' :: l :=
    fun l => rfl
  simp only [writeString, DumpsStyle.colon, List.cons_append, List.append_assoc, List.nil_append,
    scanField, if_true]
  rw [scanString_write h_key]
  dsimp only
  rw [h_skip]
  dsimp only
  rw [if_pos rfl, skipSpace_space (h.1.append rest), h.2 rest h_rest]

/-! ### Reading a value back -/

/-- Every float of the value is the text of a float, and nothing in its text that is escaped looks
like a surrogate pair. A float that Python has is written so by `float.__repr__`; without
`ensure_ascii` nothing is asked of the strings. -/
inductive Plain (style : DumpsStyle) : PyJson → Prop where
  | null : Plain style .null
  | bool (b : Bool) : Plain style (.bool b)
  | int (n : ℤ) : Plain style (.int n)
  | float {literal : PyStr} (h : FloatLiteral literal) : Plain style (.float literal)
  | nan : Plain style .nan
  | infinity (negative : Bool) : Plain style (.infinity negative)
  | str {t : PyStr} (h : style.ensureAscii = true → Unpaired t) : Plain style (.str t)
  | list {items : List PyJson} (h : ∀ v ∈ items, Plain style v) : Plain style (.list items)
  | dict {fields : List (PyStr × PyJson)}
      (h_keys : ∀ f ∈ fields, style.ensureAscii = true → Unpaired f.1)
      (h : ∀ f ∈ fields, Plain style f.2) : Plain style (.dict fields)

/-- What `mapM` writes is written item by item. -/
theorem forall₂_of_mapM {α β : Type} {write : α → Except DumpsError β} {items : List α}
    {texts : List β} (h : items.mapM write = .ok texts) :
    List.Forall₂ (fun a t => write a = .ok t) items texts := by
  induction items generalizing texts with
  | nil =>
    obtain rfl := Except.ok.inj h
    exact .nil
  | cons a items ih =>
    rw [List.mapM_cons] at h
    -- neither the first nor a later item raises
    cases h_a : write a with
    | error e =>
      rw [h_a] at h
      exact absurd h (by simp [bind, Except.bind])
    | ok t =>
      rw [h_a] at h
      cases h_items : items.mapM write with
      | error e =>
        rw [h_items] at h
        exact absurd h (by simp [bind, Except.bind])
      | ok ts =>
        rw [h_items] at h
        obtain rfl := Except.ok.inj h
        exact .cons h_a (ih h_items)

/-- Items that were written are read, if each is. -/
theorem reads_of_mapM {α : Type} {write : α → Except DumpsError PyStr} {scan : PyStr → Scan α}
    {items : List α} {texts : List PyStr} (h : items.mapM write = .ok texts)
    (h_reads : ∀ a ∈ items, ∀ t, write a = .ok t → Reads scan a t) :
    List.Forall₂ (Reads scan) items texts :=
  (List.forall₂_and_left items texts).mpr ⟨h_reads, forall₂_of_mapM h⟩ |>.imp
    (fun _ t h_and => h_and.1 t h_and.2)

/-- **What is written for a container is read back as it**, if that holds of its items. -/
theorem scanContainer_writeContainer {α : Type} {write : α → Except DumpsError PyStr}
    {scan : PyStr → Scan α} {open_ close : Char}
    (h_close : CodePoint.ofChar close ∈ PyStr.ofString "]\x7d") (wrap : List α → PyJson)
    {items : List α} (h_reads : ∀ a ∈ items, ∀ t, write a = .ok t → Reads scan a t) {t : PyStr}
    (h : (items.mapM write).map (writeContainer style open_ close) = .ok t) (rest : PyStr) :
    ∃ t', t ++ rest = CodePoint.ofChar open_ :: t' ∧
      scanContainer scan (CodePoint.ofChar close) wrap t' = .ok (wrap items, rest) := by
  cases h_texts : items.mapM write with
  | error e =>
    rw [h_texts] at h
    exact absurd h (by simp [Except.map])
  | ok texts =>
    rw [h_texts] at h
    obtain rfl := Except.ok.inj h
    refine ⟨style.comma.intercalate texts ++ CodePoint.ofChar close :: rest, ?_, ?_⟩
    · simp only [writeContainer, List.cons_append, List.append_assoc, List.nil_append]
    · exact scanContainer_intercalate h_close wrap (reads_of_mapM h_texts h_reads) rest

/-- A word is read as its value. -/
theorem scanLeaf_word {w : PyStr × PyJson} (h : w ∈ words) (rest : PyStr) :
    scanLeaf (w.1 ++ rest) = .ok (w.2, rest) := by
  simp only [words, List.mem_cons, List.not_mem_nil, or_false] at h
  rcases h with rfl | rfl | rfl | rfl | rfl | rfl
  all_goals rfl

/-- A leaf that is no string is scanned as a leaf. -/
theorem scanWith_leaf (inner : Option (PyStr → Scan PyJson)) {t rest : PyStr} {v : PyJson}
    (h_head : ∀ c ∈ t.head?, c ∉ PyStr.ofString "\x22\x7b[")
    (h : scanLeaf t = .ok (v, rest)) : scanWith inner t = .ok (v, rest) := by
  cases t with
  | nil =>
    obtain ⟨c, t', h_nil, -⟩ := opens_of_scanLeaf h
    exact absurd h_nil (by simp)
  | cons c t =>
    have h_c := h_head c rfl
    have h_ne : c ≠ quote ∧ c ≠ CodePoint.ofChar '{' ∧ c ≠ CodePoint.ofChar '[' := by
      refine ⟨?_, ?_, ?_⟩
      all_goals
        rintro rfl
        exact h_c (by decide)
    unfold scanWith
    dsimp only
    rw [if_neg h_ne.1, if_neg h_ne.2.1, if_neg h_ne.2.2]
    exact h

/-- A number is scanned as it was before what delimits it. -/
theorem scanWith_number (inner : Option (PyStr → Scan PyJson)) {t rest : PyStr} {v : PyJson}
    (h : scanNumber t = .ok (v, [])) (h_rest : Delimits rest) :
    scanWith inner (t ++ rest) = .ok (v, rest) := by
  refine scanWith_leaf inner (fun c h_c h_mem => ?_)
    (scanLeaf_of_number (scanNumber_append h_rest h))
  have h_all : ∀ d ∈ PyStr.ofString "\x22\x7b[", isDigit d = false ∧ d ≠ CodePoint.ofChar '-' :=
    forall_mem_of_all (by decide)
  have h_d := h_all c h_mem
  rcases head_of_scanNumber h with ⟨d, t', rfl, h_digit⟩ | ⟨d, t', rfl, -⟩
  · obtain rfl := Option.some.inj h_c
    rw [h_digit] at h_d
    exact absurd h_d.1 (by simp)
  · exact h_d.2 (Option.some.inj h_c).symm

/-- A word is scanned as its value. -/
theorem scanWith_word (inner : Option (PyStr → Scan PyJson)) {w : PyStr × PyJson}
    (h : w ∈ words) (rest : PyStr) : scanWith inner (w.1 ++ rest) = .ok (w.2, rest) := by
  refine scanWith_leaf inner (fun c h_c h_mem => ?_) (scanLeaf_word h rest)
  simp only [words, List.mem_cons, List.not_mem_nil, or_false] at h
  rcases h with rfl | rfl | rfl | rfl | rfl | rfl
  all_goals
    obtain rfl := Option.some.inj h_c
    exact absurd h_mem (by decide)

/-- What is written with `inner` is read with `scan`, if that holds of what is nested. One case
for each kind of value. -/
theorem scanWith_writeWith {write : Option (PyJson → Except DumpsError PyStr)}
    {scan : Option (PyStr → Scan PyJson)} {v : PyJson} {t : PyStr}
    (h_inner : ∀ w, write = some w → ∃ s, scan = some s ∧
      ∀ v t, Plain style v → w v = .ok t → Reads s v t)
    (h_v : Plain style v) (h : writeWith style write v = .ok t) {rest : PyStr}
    (h_rest : Delimits rest) : scanWith scan (t ++ rest) = .ok (v, rest) := by
  cases h_v with
  | null =>
    obtain rfl := Except.ok.inj h
    exact scanWith_word scan (w := (PyStr.ofString "null", .null)) (by simp [words]) rest
  | bool b =>
    cases b with
    | false =>
      obtain rfl := Except.ok.inj h
      exact scanWith_word scan (w := (PyStr.ofString "false", .bool false)) (by simp [words]) rest
    | true =>
      obtain rfl := Except.ok.inj h
      exact scanWith_word scan (w := (PyStr.ofString "true", .bool true)) (by simp [words]) rest
  -- too many digits are not written
  | int n =>
    rw [writeWith] at h
    split at h
    · next h_n =>
      obtain rfl := Except.ok.inj h
      exact scanWith_number scan (scanNumber_ofInt h_n) h_rest
    · exact absurd h (by simp)
  | float h_literal =>
    obtain rfl := Except.ok.inj h
    exact scanWith_number scan h_literal h_rest
  | nan =>
    obtain rfl := Except.ok.inj h
    exact scanWith_word scan (w := (PyStr.ofString "NaN", .nan)) (by simp [words]) rest
  | infinity negative =>
    cases negative with
    | false =>
      obtain rfl := Except.ok.inj h
      exact scanWith_word scan (w := (PyStr.ofString "Infinity", .infinity false))
        (by simp [words]) rest
    | true =>
      obtain rfl := Except.ok.inj h
      exact scanWith_word scan (w := (PyStr.ofString "-Infinity", .infinity true))
        (by simp [words]) rest
  | str h_t =>
    obtain rfl := Except.ok.inj h
    simp only [writeString, List.cons_append, List.append_assoc, List.nil_append, scanWith,
      if_true]
    rw [scanString_write h_t]
  -- a container is read as its items are, with one level less
  | @list items h_items =>
    cases write with
    | none => exact absurd h (by simp [writeWith])
    | some w =>
      obtain ⟨s, rfl, h_reads⟩ := h_inner w rfl
      obtain ⟨t', h_text, h_scan⟩ := scanContainer_writeContainer (by decide) .list
        (fun v h_mem t h_write => h_reads v t (h_items v h_mem) h_write) h rest
      rw [h_text]
      exact h_scan
  | @dict fields h_keys h_fields =>
    cases write with
    | none => exact absurd h (by simp [writeWith])
    | some w =>
      obtain ⟨s, rfl, h_reads⟩ := h_inner w rfl
      have h_field : ∀ f ∈ fields, ∀ t, writeField style w f = .ok t →
          Reads (scanField s) f t := by
        intro f h_mem t h_write
        unfold writeField at h_write
        split at h_write
        · exact absurd h_write (by simp)
        · next t' h_value =>
          obtain rfl := Except.ok.inj h_write
          exact reads_field (h_keys f h_mem) (h_reads f.2 t' (h_fields f h_mem) h_value)
      obtain ⟨t', h_text, h_scan⟩ :=
        scanContainer_writeContainer (by decide) .dict h_field h rest
      rw [h_text]
      exact h_scan

/-- What is read whatever delimits it begins like a value. -/
theorem reads_of_scanOnce {depth : ℕ} {v : PyJson} {t : PyStr}
    (h : ∀ rest, Delimits rest → scanOnce depth (t ++ rest) = .ok (v, rest)) :
    Reads (scanOnce depth) v t := by
  refine ⟨?_, h⟩
  have h_nil := h [] delimits_nil
  rw [List.append_nil] at h_nil
  exact opens_of_scanOnce h_nil

/-- **A value that was written is read back**, where containers may be nested as deeply. By
induction on the depth it was written with. -/
theorem reads_of_dumps {depth depth' : ℕ} (h_depth : depth ≤ depth') {v : PyJson} {t : PyStr}
    (h_v : Plain style v) (h : dumps style depth v = .ok t) : Reads (scanOnce depth') v t := by
  induction depth generalizing depth' v t with
  | zero =>
    refine reads_of_scanOnce (fun rest h_rest => ?_)
    cases depth' with
    | zero => exact scanWith_writeWith (fun w h_w => absurd h_w (by simp)) h_v h h_rest
    | succ depth' =>
      exact scanWith_writeWith (fun w h_w => absurd h_w (by simp)) h_v h h_rest
  | succ depth ih =>
    obtain ⟨depth', rfl⟩ : ∃ n, depth' = n + 1 := ⟨depth' - 1, by omega⟩
    refine reads_of_scanOnce (fun rest h_rest => scanWith_writeWith (fun w h_w => ?_) h_v h h_rest)
    obtain rfl := Option.some.inj h_w
    exact ⟨_, rfl, fun v t h_v h => ih (Nat.le_of_succ_le_succ h_depth) h_v h⟩

/-- **`json.loads` reads back what `json.dumps` wrote**, in either style. The reader may be called
deeper in the stack or not, as long as it may nest as deeply as the value. -/
theorem loads_dumps {depth depth' : ℕ} (h_depth : depth ≤ depth') {v : PyJson} {t : PyStr}
    (h_v : Plain style v) (h : dumps style depth v = .ok t) : loads depth' t = .ok v := by
  obtain ⟨h_opens, h_scan⟩ := reads_of_dumps h_depth h_v h
  have h_nil := h_scan [] delimits_nil
  rw [List.append_nil] at h_nil
  have h_skip := h_opens.skipSpace
  obtain ⟨c, t', rfl, -, -, h_bom⟩ := h_opens
  have h_head : (c :: t').head? ≠ some 0xfeff := fun h_c =>
    h_bom (congrArg Fin.val (Option.some.inj h_c))
  rw [loads, if_neg h_head, h_skip, h_nil]
  rfl

end PyJson
end FingerprintHub
