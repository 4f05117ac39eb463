import Mathlib.Data.List.DropRight
import Mathlib.Tactic.IntervalCases

/-!
# Text as Python has it

A Python `str` is a list of code points, and a code point may be a surrogate: an
undecodable byte of a request line and an unpaired `\u` escape of a JSON text both
end up as one. `encode` is where such text fails.

The functions are the ones of `str` and `int` on text that a service uses on what
it is sent: `strip`, `lower`, `split` and `int(text)`.
-/

namespace FingerprintHub

/-- A code point, surrogates included. -/
abbrev CodePoint := Fin 0x110000

/-- A Python `str`. -/
abbrev PyStr := List CodePoint

/-- The code point of a character. -/
def CodePoint.ofChar (c : Char) : CodePoint :=
  ⟨c.toNat, by
    have h := c.valid
    unfold UInt32.isValidChar Nat.isValidChar at h
    unfold Char.toNat
    omega⟩

/-- The character of a code point; a surrogate has none. Lean's strings are of characters, so that
a Python `str` is not one of them. -/
def CodePoint.char? (c : CodePoint) : Option Char :=
  if h : c.val.isValidChar then some (Char.ofNatAux c.val h) else none

@[simp] theorem CodePoint.char?_ofChar (c : Char) : (CodePoint.ofChar c).char? = some c := by
  have h_valid : (CodePoint.ofChar c).val.isValidChar := c.valid
  rw [CodePoint.char?, dif_pos h_valid]
  rfl

/-- Different characters have different code points, -/
theorem CodePoint.ofChar_injective : Function.Injective CodePoint.ofChar := by
  intro c c' h
  have h_char := congrArg CodePoint.char? h
  rw [char?_ofChar, char?_ofChar] at h_char
  exact Option.some.inj h_char

/-- and a code point with a character is its. -/
theorem CodePoint.eq_ofChar {c : CodePoint} {ch : Char} (h : c.char? = some ch) :
    c = CodePoint.ofChar ch := by
  by_cases h_valid : c.val.isValidChar
  · rw [CodePoint.char?, dif_pos h_valid] at h
    obtain rfl := Option.some.inj h
    exact Fin.ext rfl
  · rw [CodePoint.char?, dif_neg h_valid] at h
    exact absurd h (by simp)

namespace PyStr

/-- The text of a string. -/
def ofString (s : String) : PyStr := s.toList.map CodePoint.ofChar

/-- `t.encode("utf-8")`, before the bytes: `none` is the `UnicodeEncodeError` on a surrogate. The
result is the text as a string, which UTF-8 gives back whole. -/
def encode (t : PyStr) : Option String :=
  (t.mapM CodePoint.char?).map String.ofList

@[simp] theorem encode_ofString (s : String) : encode (ofString s) = some s := by
  have h_chars : ∀ l : List Char, (l.map CodePoint.ofChar).mapM CodePoint.char? = some l := by
    intro l
    induction l with
    | nil => rfl
    | cons c l ih => simp [ih]
  rw [encode, ofString, h_chars, Option.map_some, String.ofList_toList]

/-- `encode("utf-8")` takes the text: it has no surrogate. -/
def Encodable (t : PyStr) : Prop := ∀ c ∈ t, c.char? ≠ none

/-- What cannot be encoded has a surrogate. -/
theorem encode_eq_none_iff {t : PyStr} : encode t = none ↔ ¬ Encodable t := by
  have h_chars : ∀ t : PyStr, t.mapM CodePoint.char? = none ↔ ¬ Encodable t := by
    intro t
    induction t with
    | nil => simp [Encodable]
    | cons c t ih =>
      have h_cons : Encodable (c :: t) ↔ c.char? ≠ none ∧ Encodable t := List.forall_mem_cons
      rw [h_cons, List.mapM_cons]
      cases h_c : c.char? with
      | none => simp
      | some ch =>
        cases h_t : t.mapM CodePoint.char? with
        | none => simpa [h_t] using ih.mp h_t
        | some text => simpa [h_t] using ih
  rw [encode, Option.map_eq_none_iff]
  exact h_chars t

/-- The code points of what is encoded. -/
theorem eq_ofString_of_encode {t : PyStr} {s : String} (h : encode t = some s) :
    t = ofString s := by
  obtain ⟨text, h_text, rfl⟩ := Option.map_eq_some_iff.mp h
  rw [ofString, String.toList_ofList]
  clear h
  induction t generalizing text with
  | nil =>
    obtain rfl := Option.some.inj h_text
    rfl
  | cons c t ih =>
    rw [List.mapM_cons] at h_text
    obtain ⟨ch, h_ch, h_text⟩ := Option.bind_eq_some_iff.mp h_text
    obtain ⟨rest, h_rest, h_text⟩ := Option.bind_eq_some_iff.mp h_text
    obtain rfl := Option.some.inj h_text
    rw [List.map_cons, CodePoint.eq_ofChar h_ch, ih rest h_rest]

/-! ### Whitespace and case -/

/-- `str.isspace` on one code point. -/
def isSpace (c : CodePoint) : Bool :=
  (0x9 ≤ c.val && c.val ≤ 0xd) || (0x1c ≤ c.val && c.val ≤ 0x20) || c.val = 0x85 || c.val = 0xa0 ||
    c.val = 0x1680 || (0x2000 ≤ c.val && c.val ≤ 0x200a) || c.val = 0x2028 || c.val = 0x2029 ||
    c.val = 0x202f || c.val = 0x205f || c.val = 0x3000

/-- Cut what satisfies `p` off both ends. -/
def stripBy (p : CodePoint → Bool) (t : PyStr) : PyStr := (t.dropWhile p).rdropWhile p

/-- `t.strip()`. -/
def strip (t : PyStr) : PyStr := stripBy isSpace t

/-- A text without anything to cut is left as it is. -/
theorem stripBy_eq_self {p : CodePoint → Bool} {t : PyStr} (h : ∀ c ∈ t, p c = false) :
    stripBy p t = t := by
  have h_drop : t.dropWhile p = t := by
    cases t with
    | nil => rfl
    | cons c t => exact List.dropWhile_cons_of_neg (by simp [h c (by simp)])
  rw [stripBy, h_drop, List.rdropWhile_eq_self_iff]
  intro h_ne
  simp [h _ (List.getLast_mem h_ne)]

/-- What is put around a text is cut off again. -/
theorem stripBy_append {p : CodePoint → Bool} {before after : PyStr}
    (h_before : ∀ c ∈ before, p c = true) (h_after : ∀ c ∈ after, p c = true) (t : PyStr) :
    stripBy p (before ++ (t ++ after)) = stripBy p t := by
  have h_right : ∀ x : PyStr, (x ++ after).rdropWhile p = x.rdropWhile p := by
    intro x
    rw [List.rdropWhile, List.reverse_append, List.dropWhile_append_of_pos (by simpa using h_after)]
    rfl
  rw [stripBy, stripBy, List.dropWhile_append_of_pos h_before, List.dropWhile_append]
  split
  · next h_nil =>
    -- nothing of the text is left, and what follows it goes as well
    rw [List.isEmpty_iff.mp h_nil, List.dropWhile_eq_nil_iff.mpr h_after]
  · exact h_right _

/-- A text that neither starts nor ends with `p` is all that is left. -/
theorem stripBy_pad {p : CodePoint → Bool} {before t after : PyStr} (h_before : ∀ c ∈ before, p c)
    (h_after : ∀ c ∈ after, p c) (h_head : ∀ c ∈ t.head?, p c = false)
    (h_last : ∀ c ∈ t.getLast?, p c = false) : stripBy p (before ++ (t ++ after)) = t := by
  have h_drop : t.dropWhile p = t := by
    cases t with
    | nil => rfl
    | cons c rest => exact List.dropWhile_cons_of_neg (by simp [h_head c rfl])
  rw [stripBy_append h_before h_after, stripBy, h_drop, List.rdropWhile_eq_self_iff]
  intro h_ne
  simp [h_last _ (List.getLast?_eq_some_getLast h_ne)]

/-- A text of which nothing is left was all to be cut. -/
theorem of_stripBy_eq_nil {p : CodePoint → Bool} {t : PyStr} (h : stripBy p t = []) :
    ∀ c ∈ t, p c = true := by
  intro c h_c
  rw [stripBy, List.rdropWhile_eq_nil_iff] at h
  rw [← @List.takeWhile_append_dropWhile _ p t] at h_c
  rcases List.mem_append.mp h_c with h_c | h_c
  · exact List.mem_takeWhile_imp h_c
  · exact h c h_c

/-- The lower case of an ASCII letter; other code points are left alone. Outside
ASCII only the Kelvin sign and the dotted capital I have an ASCII letter in their
lower case, `k` and `i`. -/
def lowerAscii (c : CodePoint) : CodePoint :=
  if h : 0x41 ≤ c.val ∧ c.val ≤ 0x5a then ⟨c.val + 0x20, by omega⟩ else c

/-- `t.lower()`, as far as a comparison with ASCII text without `k` and `i` can
tell. -/
def lower (t : PyStr) : PyStr := t.map lowerAscii

/-- Lower case makes nothing a whitespace. -/
theorem isSpace_lowerAscii (c : CodePoint) : isSpace (lowerAscii c) = isSpace c := by
  unfold lowerAscii
  split
  · next h =>
    have h_letter : isSpace c = false := by
      simp [isSpace]
      omega
    rw [h_letter]
    simp [isSpace]
    omega
  · rfl

/-- Letters are no whitespace, in either case. -/
theorem strip_lower (t : PyStr) : strip (lower t) = lower (strip t) := by
  have h_space : isSpace ∘ lowerAscii = isSpace := funext isSpace_lowerAscii
  calc strip (lower t)
      = ((t.map lowerAscii).dropWhile isSpace).rdropWhile isSpace := rfl
    _ = ((t.dropWhile isSpace).map lowerAscii).rdropWhile isSpace := by
        rw [List.dropWhile_map, h_space]
    _ = lower (strip t) := by
        rw [List.rdropWhile, ← List.map_reverse, List.dropWhile_map, h_space, ← List.map_reverse]
        rfl

/-! ### Splitting -/

section Split

variable {α : Type} [DecidableEq α] (sep : α)

/-- `t.split(sep, n)`: at most `n` cuts at the separator. Without a separator the text is the one
part, as in Python. -/
def splitMax : ℕ → List α → List (List α)
  | 0, t => [t]
  | n + 1, t =>
    match t.dropWhile (· ≠ sep) with
    | [] => [t]
    | _ :: rest => t.takeWhile (· ≠ sep) :: splitMax n rest

/-- The first part is what stands before the first separator, and the rest is split further. -/
theorem splitMax_append {a : List α} (h : sep ∉ a) (n : ℕ) (rest : List α) :
    splitMax sep (n + 1) (a ++ sep :: rest) = a :: splitMax sep n rest := by
  have h_all : ∀ x ∈ a, decide (x ≠ sep) = true := by
    intro x h_x
    exact decide_eq_true (fun h_eq => h (h_eq ▸ h_x))
  have h_drop : (a ++ sep :: rest).dropWhile (· ≠ sep) = sep :: rest := by
    rw [List.dropWhile_append_of_pos h_all]
    exact List.dropWhile_cons_of_neg (by simp)
  have h_take : (a ++ sep :: rest).takeWhile (· ≠ sep) = a := by
    rw [List.takeWhile_append_of_pos h_all, List.takeWhile_cons_of_neg (by simp), List.append_nil]
  rw [splitMax, h_drop, h_take]

/-- Conversely, a first part with another one after it ends at the first separator. -/
theorem splitMax_eq_cons_iff {n : ℕ} {t a p : List α} {ps : List (List α)} :
    splitMax sep (n + 1) t = a :: p :: ps ↔
      sep ∉ a ∧ ∃ rest, t = a ++ sep :: rest ∧ splitMax sep n rest = p :: ps := by
  constructor
  · intro h
    unfold splitMax at h
    split at h
    · exact absurd h (by simp)
    · next c rest h_drop =>
      obtain ⟨rfl, h_rest⟩ := List.cons.inj h
      have h_c : c = sep := by
        have h_head := List.head?_dropWhile_not (fun x => decide (x ≠ sep)) t
        rw [h_drop] at h_head
        simpa using h_head
      refine ⟨fun h_mem => ?_, rest, ?_, h_rest⟩
      · have h_sep := List.mem_takeWhile_imp h_mem
        exact absurd rfl (of_decide_eq_true h_sep)
      · rw [h_c] at h_drop
        rw [← h_drop, List.takeWhile_append_dropWhile]
  · rintro ⟨h_a, rest, rfl, h_rest⟩
    rw [splitMax_append sep h_a, h_rest]

end Split

/-! ### Numbers -/

/-- The code points of a decimal digit zero; the digits one to nine follow it. -/
def digitZeros : List ℕ :=
  [0x30, 0x660, 0x6f0, 0x7c0, 0x966, 0x9e6, 0xa66, 0xae6, 0xb66, 0xbe6, 0xc66, 0xce6, 0xd66, 0xde6,
    0xe50, 0xed0, 0xf20, 0x1040, 0x1090, 0x17e0, 0x1810, 0x1946, 0x19d0, 0x1a80, 0x1a90, 0x1b50,
    0x1bb0, 0x1c40, 0x1c50, 0xa620, 0xa8d0, 0xa900, 0xa9d0, 0xa9f0, 0xaa50, 0xabf0, 0xff10,
    0x104a0, 0x10d30, 0x11066, 0x110f0, 0x11136, 0x111d0, 0x112f0, 0x11450, 0x114d0, 0x11650,
    0x116c0, 0x11730, 0x118e0, 0x11950, 0x11c50, 0x11d50, 0x11da0, 0x11f50, 0x16a60, 0x16ac0,
    0x16b50, 0x1d7ce, 0x1d7d8, 0x1d7e2, 0x1d7ec, 0x1d7f6, 0x1e140, 0x1e2f0, 0x1e4f0, 0x1e950,
    0x1fbf0]

/-- The value of a decimal digit of any script. -/
def digit? (c : CodePoint) : Option ℕ :=
  (digitZeros.find? (fun z => decide (z ≤ c.val) && decide (c.val < z + 10))).map (c.val - ·)

/-- The whitespace `int` allows around a number: that of `strip` without the
separators `0x1c` to `0x1f`. -/
def isIntSpace (c : CodePoint) : Bool := isSpace c && !(0x1c ≤ c.val && c.val ≤ 0x1f)

/-- The digits of a non-empty run of digits with single underscores between them, as in `1_000`.
-/
def digitRun : PyStr → Option (List ℕ)
  | [] => none
  | [c] => (digit? c).map ([·])
  | c :: c' :: rest =>
    if c' = CodePoint.ofChar '_' then
      (digit? c).bind fun d => (digitRun rest).map (d :: ·)
    else
      (digit? c).bind fun d => (digitRun (c' :: rest)).map (d :: ·)

/-- The most digits `int` converts, and `str` writes: `sys.int_info.default_max_str_digits`. -/
def maxStrDigits : ℕ := 4300

/-- The value of a run of digits: `none` where `int` raises `ValueError`. -/
def magnitude (t : PyStr) : Option ℤ :=
  (digitRun t).bind fun ds =>
    if ds.length ≤ maxStrDigits then some (ds.foldl (fun n d => 10 * n + d) 0 : ℕ) else none

/-- `int(t)`: `none` is the `ValueError`. Whitespace around the number, one sign, and digits of
any script are allowed. -/
def int (t : PyStr) : Option ℤ :=
  match stripBy isIntSpace t with
  | [] => none
  | c :: rest =>
    if c = CodePoint.ofChar '-' then (magnitude rest).map (- ·)
    else if c = CodePoint.ofChar '+' then magnitude rest
    else magnitude (c :: rest)

/-- `str(n)`. -/
def ofInt (n : ℤ) : PyStr := ofString (toString n)

/-! ### Reading back a written number -/

/-- A digit that was written is read as its number. -/
theorem digit?_digitChar {d : ℕ} (h : d < 10) :
    digit? (CodePoint.ofChar (Nat.digitChar d)) = some d := by
  interval_cases d <;> rfl

/-- An ASCII digit stands neither for whitespace, nor for a sign, nor for an
underscore. -/
theorem digitChar_plain {d : ℕ} (h : d < 10) :
    isIntSpace (CodePoint.ofChar (Nat.digitChar d)) = false ∧
      CodePoint.ofChar (Nat.digitChar d) ≠ CodePoint.ofChar '_' ∧
      CodePoint.ofChar (Nat.digitChar d) ≠ CodePoint.ofChar '-' ∧
      CodePoint.ofChar (Nat.digitChar d) ≠ CodePoint.ofChar '+' := by
  interval_cases d <;> decide

/-- A run of digits is read digit by digit. -/
theorem digitRun_digits {ds : List ℕ} (h_ne : ds ≠ []) (h_lt : ∀ d ∈ ds, d < 10) :
    digitRun (ds.map (fun d => CodePoint.ofChar (Nat.digitChar d))) = some ds := by
  induction ds with
  | nil => exact absurd rfl h_ne
  | cons d ds ih =>
    have h_d := h_lt d (by simp)
    cases ds with
    | nil => simp [digitRun, digit?_digitChar h_d]
    | cons d' ds =>
      have h_plain := (digitChar_plain (h_lt d' (by simp))).2.1
      have h_rest := ih (by simp) (fun e he => h_lt e (by simp [he]))
      rw [List.map_cons, List.map_cons, digitRun, if_neg h_plain, digit?_digitChar h_d]
      rw [List.map_cons] at h_rest
      rw [Option.bind_some, h_rest]
      rfl

/-- The digits `str` writes for a natural number: there is one at least, each is below ten, and
together they make the number. -/
theorem exists_digits (n : ℕ) : ∃ ds : List ℕ, Nat.toDigits 10 n = ds.map Nat.digitChar ∧ ds ≠ [] ∧
    (∀ d ∈ ds, d < 10) ∧ ds.foldl (fun n d => 10 * n + d) 0 = n := by
  induction n using Nat.strong_induction_on with
  | _ n ih =>
    rw [Nat.toDigits_eq_if (by decide)]
    by_cases h : n < 10
    · exact ⟨[n], by rw [if_pos h]; rfl, by simp, by simpa using h, by simp⟩
    · obtain ⟨ds, h_digits, -, h_lt, h_fold⟩ := ih (n / 10) (by omega)
      refine ⟨ds ++ [n % 10], ?_, by simp, ?_, ?_⟩
      · rw [if_neg h, h_digits, List.map_append]
        rfl
      · intro d h_mem
        rcases List.mem_append.mp h_mem with h_d | h_d
        · exact h_lt d h_d
        · rw [List.mem_singleton.mp h_d]
          omega
      · rw [List.foldl_append, h_fold, List.foldl_cons, List.foldl_nil]
        omega

/-- `str` of a natural number is its digits. -/
theorem ofInt_natCast {n : ℕ} {ds : List ℕ} (h : Nat.toDigits 10 n = ds.map Nat.digitChar) :
    ofInt (n : ℤ) = ds.map (fun d => CodePoint.ofChar (Nat.digitChar d)) := by
  have h_repr : (toString (n : ℤ)).toList = Nat.toDigits 10 n := Nat.toList_repr
  rw [ofInt, ofString, h_repr, h, List.map_map]
  rfl

/-- A natural number is read back, if it is not too long. -/
theorem magnitude_ofInt {n : ℕ} (h : n < 10 ^ maxStrDigits) :
    magnitude (ofInt n) = some (n : ℤ) := by
  obtain ⟨ds, h_digits, h_ne, h_lt, h_fold⟩ := exists_digits n
  have h_length : ds.length ≤ maxStrDigits := by
    have h_le := (Nat.length_toDigits_le_iff (b := 10) (by decide) (by decide)).mpr h
    rwa [h_digits, List.length_map] at h_le
  calc magnitude (ofInt n)
      = if ds.length ≤ maxStrDigits then some ((ds.foldl (fun n d => 10 * n + d) 0 : ℕ) : ℤ)
        else none := by
        rw [magnitude, ofInt_natCast h_digits, digitRun_digits h_ne h_lt, Option.bind_some]
    _ = some (n : ℤ) := by rw [if_pos h_length, h_fold]

/-- There is no whitespace in what `str` writes for a natural number. -/
theorem isIntSpace_ofInt {n : ℕ} {c : CodePoint} (h : c ∈ ofInt n) : isIntSpace c = false := by
  obtain ⟨ds, h_digits, -, h_lt, -⟩ := exists_digits n
  rw [ofInt_natCast h_digits] at h
  obtain ⟨d, h_d, rfl⟩ := List.mem_map.mp h
  exact (digitChar_plain (h_lt d h_d)).1

/-- **`int` reads back what `str` wrote**, up to the longest number it converts. What is written
has no whitespace, sign or underscore, so that it is all read as digits. -/
theorem int_ofInt {n : ℕ} (h : n < 10 ^ maxStrDigits) : int (ofInt n) = some (n : ℤ) := by
  obtain ⟨ds, h_digits, h_ne, h_lt, -⟩ := exists_digits n
  have h_text := ofInt_natCast h_digits
  have h_strip : stripBy isIntSpace (ofInt n) = ofInt n :=
    stripBy_eq_self (fun c h_c => isIntSpace_ofInt h_c)
  have h_magnitude := magnitude_ofInt h
  cases ds with
  | nil => exact absurd rfl h_ne
  | cons d ds =>
    have h_plain := digitChar_plain (h_lt d (by simp))
    rw [List.map_cons] at h_text
    rw [int, h_strip, h_text]
    rw [h_text] at h_magnitude
    simp only [if_neg h_plain.2.2.1, if_neg h_plain.2.2.2, h_magnitude]

/-- `str` of a negative number. -/
theorem ofInt_neg {n : ℕ} (h : 0 < n) :
    ofInt (-(n : ℤ)) = CodePoint.ofChar '-' :: ofInt n := by
  obtain ⟨m, rfl⟩ := Nat.exists_eq_add_of_lt h
  have h_cast : (-((0 + m + 1 : ℕ) : ℤ)) = Int.negSucc m := by
    rw [Nat.zero_add]
    rfl
  have h_repr : (toString (Int.negSucc m)).toList = '-' :: (toString (0 + m + 1)).toList := by
    rw [Nat.zero_add]
    show (String.append "-" (toString (m + 1))).toList = _
    exact String.toList_append
  rw [h_cast, ofInt, ofString, h_repr, List.map_cons]
  rfl

/-- The same for an integer of either sign, by its size. -/
theorem int_ofInt_of_natAbs {n : ℤ} (h : n.natAbs < 10 ^ maxStrDigits) :
    int (ofInt n) = some n := by
  rcases Int.natAbs_eq n with h_pos | h_neg
  · rw [h_pos]
    exact int_ofInt h
  · by_cases h_zero : n.natAbs = 0
    · rw [Int.natAbs_eq_zero.mp h_zero]
      decide
    · have h_text : ofInt n = CodePoint.ofChar '-' :: ofInt n.natAbs := by
        rw [← ofInt_neg (Nat.pos_of_ne_zero h_zero), ← h_neg]
      have h_strip : stripBy isIntSpace (ofInt n) = ofInt n := by
        refine stripBy_eq_self (fun c h_c => ?_)
        rw [h_text] at h_c
        rcases List.mem_cons.mp h_c with rfl | h_c
        · decide
        · exact isIntSpace_ofInt h_c
      rw [int, h_strip, h_text]
      simp only [if_true, magnitude_ofInt h, Option.map_some]
      rw [← h_neg]

end PyStr

end FingerprintHub
