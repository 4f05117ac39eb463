import Mathlib.Tactic.IntervalCases

/-!
# Base64

`encode` is `base64.b64encode`, on the list of bytes and the list of characters.
`decode` is `base64.b64decode(…, validate=True)`: groups of four characters of the
alphabet, the last of which may end in one or two `=`. Like the decoder of CPython 3.12,
which is the one followed here, it ignores the bits of a short group that no byte takes,
and lets a run of `=` follow a complete last group; that run is no part of any encoding,
and releases differ in whether they refuse it. `none` is the `binascii.Error`.

`decode_encode` is the round trip.
-/

namespace FingerprintHub
namespace Base64

/-- A string of bytes. -/
abbrev Bytes := List UInt8

/-! ### The alphabet -/

/-- The character of a number below 64. -/
def digit (n : ℕ) : Char :=
  if n < 26 then Char.ofNat (0x41 + n)
  else if n < 52 then Char.ofNat (0x61 + (n - 26))
  else if n < 62 then Char.ofNat (0x30 + (n - 52))
  else if n = 62 then '+'
  else '/'

/-- The number of a character of the alphabet. -/
def value? (c : Char) : Option ℕ :=
  if 'A' ≤ c ∧ c ≤ 'Z' then some (c.toNat - 0x41)
  else if 'a' ≤ c ∧ c ≤ 'z' then some (c.toNat - 0x61 + 26)
  else if '0' ≤ c ∧ c ≤ '9' then some (c.toNat - 0x30 + 52)
  else if c = '+' then some 62
  else if c = '/' then some 63
  else none

/-- The number of a digit is the one it stands for. -/
theorem value?_digit {n : ℕ} (h : n < 64) : value? (digit n) = some n := by
  interval_cases n <;> rfl

@[simp] theorem value?_pad : value? '=' = none := rfl

/-- A character outside the alphabet is no digit. -/
theorem digit_ne_of_value? {n : ℕ} (h : n < 64) {c : Char} (h_none : value? c = none) :
    digit n ≠ c := by
  intro h_eq
  have h_value := value?_digit h
  rw [h_eq, h_none] at h_value
  exact absurd h_value (by simp)

/-- No digit is the padding. -/
theorem digit_ne_pad {n : ℕ} (h : n < 64) : digit n ≠ '=' := digit_ne_of_value? h value?_pad

/-! ### Encoding -/

/-- `base64.b64encode`. Three bytes are four digits, and what is left over at the end is padded.
-/
def encode : Bytes → List Char
  | x :: y :: z :: rest =>
    let n := (x.toNat * 256 + y.toNat) * 256 + z.toNat
    digit (n / 262144) :: digit (n / 4096 % 64) :: digit (n / 64 % 64) :: digit (n % 64) ::
      encode rest
  | [x, y] =>
    let n := (x.toNat * 256 + y.toNat) * 4
    [digit (n / 4096), digit (n / 64 % 64), digit (n % 64), '=']
  | [x] =>
    let n := x.toNat * 16
    [digit (n / 64), digit (n % 64), '=', '=']
  | [] => []

/-! ### Decoding -/

/-- The groups of an encoding, from a group boundary on. In a last group that is short the bits
that no byte takes are not looked at, so that several texts stand for the same bytes. -/
def decodeGroups (t : List Char) : Option Bytes :=
  if t.all (· = '=') then
    -- a run of padding at a boundary leaves nothing over
    some []
  else
    match t with
    | a :: b :: c :: d :: rest =>
      match value? a, value? b, value? c, value? d with
      | some a, some b, some c, some d =>
        let n := ((a * 64 + b) * 64 + c) * 64 + d
        (decodeGroups rest).map fun bytes =>
          .ofNat (n / 65536) :: .ofNat (n / 256 % 256) :: .ofNat (n % 256) :: bytes
      | some a, some b, some c, none =>
        let n := (a * 64 + b) * 64 + c
        if d = '=' ∧ rest = [] then some [.ofNat (n / 1024), .ofNat (n / 4 % 256)] else none
      | some a, some b, none, none =>
        let n := a * 64 + b
        if c = '=' ∧ d = '=' ∧ rest = [] then some [.ofNat (n / 16)] else none
      | _, _, _, _ => none
    | _ => none

/-- `base64.b64decode(…, validate=True)`. A text that begins with padding is refused, also where
it is only padding. -/
def decode (t : List Char) : Option Bytes :=
  if t.head? = some '=' then none else decodeGroups t

/-! ### The round trip -/

/-- An encoding does not begin with padding, -/
theorem encode_head_ne_pad (bytes : Bytes) : (encode bytes).head? ≠ some '=' := by
  intro h_pad
  match bytes with
  | [] => exact absurd h_pad (by simp [encode])
  | [x] =>
    have h_lt := x.toNat_lt
    exact digit_ne_pad (n := x.toNat * 16 / 64) (by omega) (Option.some.inj h_pad)
  | [x, y] =>
    have h_lt := x.toNat_lt
    have h_lt' := y.toNat_lt
    exact digit_ne_pad (n := (x.toNat * 256 + y.toNat) * 4 / 4096) (by omega)
      (Option.some.inj h_pad)
  | x :: y :: z :: _ =>
    have h_lt := x.toNat_lt
    have h_lt' := y.toNat_lt
    have h_lt'' := z.toNat_lt
    exact digit_ne_pad (n := ((x.toNat * 256 + y.toNat) * 256 + z.toNat) / 262144) (by omega)
      (Option.some.inj h_pad)

/-- and neither does any list that starts with a digit. -/
theorem not_all_pad {n : ℕ} (h : n < 64) (t : List Char) :
    ¬ ((digit n :: t).all (fun c => decide (c = '=')) = true) := by
  rw [List.all_cons]
  simp [digit_ne_pad h]

/-- The groups of an encoding are decoded one by one. The cases are the bytes that are left: none,
one, two, or three and more. -/
theorem decodeGroups_encode (bytes : Bytes) : decodeGroups (encode bytes) = some bytes := by
  match bytes with
  | [] => rfl
  | [x] =>
    have h_lt := x.toNat_lt
    have h_high : x.toNat * 16 / 64 < 64 := by omega
    have h_low : x.toNat * 16 % 64 < 64 := by omega
    rw [encode, decodeGroups, if_neg (not_all_pad h_high _)]
    simp only [value?_digit h_high, value?_digit h_low, value?_pad]
    -- the two digits make the byte and four bits that are zero
    have h_byte : (x.toNat * 16 / 64 * 64 + x.toNat * 16 % 64) / 16 = x.toNat := by omega
    rw [h_byte, UInt8.ofNat_toNat]
    rfl
  | [x, y] =>
    have h_lt := x.toNat_lt
    have h_lt' := y.toNat_lt
    generalize h_n : (x.toNat * 256 + y.toNat) * 4 = n
    have h_a : n / 4096 < 64 := by omega
    have h_b : n / 64 % 64 < 64 := by omega
    have h_c : n % 64 < 64 := by omega
    rw [encode, decodeGroups]
    simp only [h_n]
    rw [if_neg (not_all_pad h_a _)]
    simp only [value?_digit h_a, value?_digit h_b, value?_digit h_c, value?_pad]
    -- three digits make two bytes and two bits that are zero
    have h_x : ((n / 4096 * 64 + n / 64 % 64) * 64 + n % 64) / 1024 = x.toNat := by omega
    have h_y : ((n / 4096 * 64 + n / 64 % 64) * 64 + n % 64) / 4 % 256 = y.toNat := by omega
    rw [h_x, h_y, UInt8.ofNat_toNat, UInt8.ofNat_toNat]
    rfl
  | x :: y :: z :: rest =>
    have h_lt := x.toNat_lt
    have h_lt' := y.toNat_lt
    have h_lt'' := z.toNat_lt
    have h_rest := decodeGroups_encode rest
    generalize h_n : (x.toNat * 256 + y.toNat) * 256 + z.toNat = n
    have h_a : n / 262144 < 64 := by omega
    have h_b : n / 4096 % 64 < 64 := by omega
    have h_c : n / 64 % 64 < 64 := by omega
    have h_d : n % 64 < 64 := by omega
    rw [encode, decodeGroups]
    simp only [h_n]
    rw [if_neg (not_all_pad h_a _)]
    simp only [value?_digit h_a, value?_digit h_b, value?_digit h_c, value?_digit h_d, h_rest]
    -- four digits make the number of the three bytes
    have h_group : ((n / 262144 * 64 + n / 4096 % 64) * 64 + n / 64 % 64) * 64 + n % 64 = n := by
      omega
    have h_x : n / 65536 = x.toNat := by omega
    have h_y : n / 256 % 256 = y.toNat := by omega
    have h_z : n % 256 = z.toNat := by omega
    rw [h_group, h_x, h_y, h_z, UInt8.ofNat_toNat, UInt8.ofNat_toNat, UInt8.ofNat_toNat]
    rfl

/-- **What was encoded is decoded.** The converse does not hold: an encoding is not the only text
for its bytes. -/
theorem decode_encode (bytes : Bytes) : decode (encode bytes) = some bytes := by
  rw [decode, if_neg (encode_head_ne_pad bytes), decodeGroups_encode]

/-- What an encoding is written with: digits and padding, by the same cases as it is written. -/
theorem digit_or_pad_of_mem_encode {bytes : Bytes} {c : Char} (h : c ∈ encode bytes) :
    c = '=' ∨ ∃ n < 64, c = digit n := by
  -- one, two or three bytes make four characters
  match bytes with
  | [] => exact absurd h (by simp [encode])
  | [x] =>
    have h_lt := x.toNat_lt
    simp only [encode, List.mem_cons, List.not_mem_nil, or_false] at h
    rcases h with rfl | rfl | rfl | rfl
    · exact Or.inr ⟨_, by omega, rfl⟩
    · exact Or.inr ⟨_, by omega, rfl⟩
    · exact Or.inl rfl
    · exact Or.inl rfl
  | [x, y] =>
    have h_lt := x.toNat_lt
    have h_lt' := y.toNat_lt
    simp only [encode, List.mem_cons, List.not_mem_nil, or_false] at h
    rcases h with rfl | rfl | rfl | rfl
    · exact Or.inr ⟨_, by omega, rfl⟩
    · exact Or.inr ⟨_, by omega, rfl⟩
    · exact Or.inr ⟨_, by omega, rfl⟩
    · exact Or.inl rfl
  | x :: y :: z :: rest =>
    have h_lt := x.toNat_lt
    have h_lt' := y.toNat_lt
    have h_lt'' := z.toNat_lt
    simp only [encode, List.mem_cons] at h
    rcases h with rfl | rfl | rfl | rfl | h
    · exact Or.inr ⟨_, by omega, rfl⟩
    · exact Or.inr ⟨_, by omega, rfl⟩
    · exact Or.inr ⟨_, by omega, rfl⟩
    · exact Or.inr ⟨_, by omega, rfl⟩
    · exact digit_or_pad_of_mem_encode h

/-- No encoding contains a colon. -/
theorem colon_not_mem_encode (bytes : Bytes) : ':' ∉ encode bytes := by
  intro h_mem
  rcases digit_or_pad_of_mem_encode h_mem with h_pad | ⟨n, h_lt, h_digit⟩
  · exact absurd h_pad (by decide)
  · exact digit_ne_of_value? h_lt rfl h_digit.symm

/-- What is decoded consists of digits and padding. -/
theorem value?_or_pad_of_decodeGroups {t : List Char} {bytes : Bytes}
    (h : decodeGroups t = some bytes) : ∀ c ∈ t, value? c ≠ none ∨ c = '=' := by
  fun_induction decodeGroups t generalizing bytes with
  | case1 t h_pad =>
    intro c h_c
    exact Or.inr (of_decide_eq_true (List.all_eq_true.mp h_pad c h_c))
  | case2 a b c d rest _ _ _ _ h_d h_c h_b h_a _ _ =>
    rename_i ih
    -- four digits, and the groups after them
    obtain ⟨bytes', h_rest, -⟩ := Option.map_eq_some_iff.mp h
    intro x h_x
    rcases List.mem_append.mp (show x ∈ [a, b, c, d] ++ rest from h_x) with h_four | h_mem
    · have h_digits : ∀ y ∈ [a, b, c, d], value? y ≠ none := by simp [h_a, h_b, h_c, h_d]
      exact Or.inl (h_digits x h_four)
    · exact ih h_rest x h_mem
  | case3 a b c d rest _ _ _ _ h_c h_b h_a _ h_end =>
    obtain ⟨rfl, rfl⟩ := h_end
    simp [h_a, h_b, h_c]
  | case5 a b c d rest _ _ _ _ h_b h_a _ h_end =>
    obtain ⟨rfl, rfl, rfl⟩ := h_end
    simp [h_a, h_b]
  | case4 => exact absurd h (by simp)
  | case6 => exact absurd h (by simp)
  | case7 => exact absurd h (by simp)
  | case8 => exact absurd h (by simp)

/-- Nothing with a colon in it is decoded. -/
theorem colon_not_mem_of_decode {t : List Char} {bytes : Bytes} (h : decode t = some bytes) :
    ':' ∉ t := by
  intro h_mem
  unfold decode at h
  split at h
  · exact absurd h (by simp)
  · rcases value?_or_pad_of_decodeGroups h ':' h_mem with h_value | h_pad
    · exact h_value rfl
    · exact absurd h_pad (by decide)

end Base64

end FingerprintHub
