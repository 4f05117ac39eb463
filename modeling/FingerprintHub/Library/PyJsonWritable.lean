import FingerprintHub.Library.PyJsonDumps

/-!
# What `json.dumps` writes

`json.dumps` raises on an integer with too many digits and on values nested too deeply, and what
it writes without `ensure_ascii` may hold a surrogate, on which `encode("utf-8")` raises. A value
for which nothing of this happens is `Writable`, by a definition that follows the value and says
nothing of the encoder. `dumps_encodable_iff` is by induction on the depth: a container is
written just when each of its items is.
-/

namespace FingerprintHub
namespace PyJson

/-- The value is written compactly as a text that can be encoded, where containers may be nested
to a depth: no container is nested deeper, no integer has too many digits, and no string or key
has a surrogate. -/
inductive Writable : ℕ → PyJson → Prop where
  | null {depth : ℕ} : Writable depth .null
  | bool {depth : ℕ} (b : Bool) : Writable depth (.bool b)
  | int {depth : ℕ} {n : ℤ} (h : n.natAbs < 10 ^ PyStr.maxStrDigits) : Writable depth (.int n)
  | float {depth : ℕ} (literal : PyStr) : Writable depth (.float literal)
  | nan {depth : ℕ} : Writable depth .nan
  | infinity {depth : ℕ} (negative : Bool) : Writable depth (.infinity negative)
  | str {depth : ℕ} {t : PyStr} (h : PyStr.Encodable t) : Writable depth (.str t)
  | list {depth : ℕ} {items : List PyJson} (h : ∀ v ∈ items, Writable depth v) :
      Writable (depth + 1) (.list items)
  | dict {depth : ℕ} {fields : List (PyStr × PyJson)}
      (h_keys : ∀ f ∈ fields, PyStr.Encodable f.1) (h : ∀ f ∈ fields, Writable depth f.2) :
      Writable (depth + 1) (.dict fields)

/-- What is below the surrogates is a character. -/
theorem char?_ne_none {c : CodePoint} (h : c.val < 0xd800) : c.char? ≠ none := by
  rw [CodePoint.char?, dif_pos (Or.inl h)]
  exact Option.some_ne_none _

/-- A text can be encoded if its parts can, -/
theorem encodable_append {t t' : PyStr} :
    PyStr.Encodable (t ++ t') ↔ PyStr.Encodable t ∧ PyStr.Encodable t' :=
  List.forall_mem_append

/-- its first character and the others, -/
theorem encodable_cons {c : CodePoint} {t : PyStr} :
    PyStr.Encodable (c :: t) ↔ c.char? ≠ none ∧ PyStr.Encodable t :=
  List.forall_mem_cons

/-- down to none. -/
theorem encodable_nil : PyStr.Encodable [] := fun _ h => absurd h List.not_mem_nil

/-- The text of a string can be encoded. -/
theorem encodable_ofString (s : String) : PyStr.Encodable (PyStr.ofString s) := by
  intro c h_c
  obtain ⟨ch, -, rfl⟩ := List.mem_map.mp h_c
  rw [CodePoint.char?_ofChar]
  exact Option.some_ne_none _

/-- Of texts that are put together only they matter, if what separates them can be encoded. -/
theorem encodable_intercalate {sep : PyStr} (h : PyStr.Encodable sep) (texts : List PyStr) :
    PyStr.Encodable (sep.intercalate texts) ↔ ∀ t ∈ texts, PyStr.Encodable t := by
  induction texts with
  | nil => exact iff_of_true encodable_nil (fun _ h => absurd h List.not_mem_nil)
  | cons t texts ih =>
    cases texts with
    | nil => rw [List.intercalate_singleton, List.forall_mem_singleton]
    | cons t' texts =>
      rw [List.intercalate_cons_cons, encodable_append, encodable_append, ih,
        List.forall_mem_cons (a := t)]
      exact ⟨fun ⟨⟨h_t, _⟩, h_rest⟩ => ⟨h_t, h_rest⟩, fun ⟨h_t, h_rest⟩ => ⟨⟨h_t, h⟩, h_rest⟩⟩

/-- A hex digit is ASCII, -/
theorem hexChar_lt {d : ℕ} (h : d < 16) : (hexChar d).val < 0xd800 := by
  interval_cases d <;> decide

/-- and so is an escape. -/
theorem encodable_hexEscape (n : ℕ) : PyStr.Encodable (hexEscape n) := by
  have h_digit : ∀ m, (hexChar (m % 16)).char? ≠ none :=
    fun m => char?_ne_none (hexChar_lt (Nat.mod_lt m (by decide)))
  simp only [hexEscape, encodable_cons]
  exact ⟨by decide, by decide, h_digit _, h_digit _, h_digit _, h_digit _, encodable_nil⟩

/-- What has a short escape is ASCII, and so is the escape. -/
theorem lt_of_shortEscape? {c e : CodePoint} (h : shortEscape? c = some e) :
    c.val < 0xd800 ∧ e.val < 0xd800 := by
  unfold shortEscape? at h
  split at h
  · next h_c =>
    obtain rfl := Option.some.inj h
    rcases h_c with rfl | rfl
    · exact ⟨by decide, by decide⟩
    · exact ⟨by decide, by decide⟩
  · repeat
      split at h
      · next h_c =>
        obtain rfl := Option.some.inj h
        exact ⟨by omega, by decide⟩
    exact absurd h (by simp)

/-- A character is written as what can be encoded, unless it is a surrogate. -/
theorem encodable_writeChar (c : CodePoint) :
    PyStr.Encodable (writeChar .compact c) ↔ c.char? ≠ none := by
  unfold writeChar
  split
  · next e h_e =>
    obtain ⟨h_c, h_e⟩ := lt_of_shortEscape? h_e
    refine iff_of_true ?_ (char?_ne_none h_c)
    simp only [encodable_cons]
    exact ⟨by decide, char?_ne_none h_e, encodable_nil⟩
  · split
    · next h_escapes =>
      -- without `ensure_ascii` only control characters are escaped
      have h_c : c.val < 0xd800 := by
        simp only [DumpsStyle.escapes, DumpsStyle.compact, Bool.false_and, Bool.or_false,
          decide_eq_true_eq] at h_escapes
        omega
      rw [if_pos (h_c.trans (by decide))]
      exact iff_of_true (encodable_hexEscape c.val) (char?_ne_none h_c)
    · simp only [encodable_cons, and_iff_left_iff_imp]
      exact fun _ => encodable_nil

/-- The quotes around a string can be encoded, -/
theorem encodable_writeString (t : PyStr) :
    PyStr.Encodable (writeString .compact t) ↔ PyStr.Encodable t := by
  have h_quote : quote.char? ≠ none := by decide
  have h_chars : PyStr.Encodable (t.flatMap (writeChar .compact)) ↔ PyStr.Encodable t := by
    induction t with
    | nil => exact iff_of_true encodable_nil encodable_nil
    | cons c t ih =>
      rw [List.flatMap_cons, encodable_append, encodable_writeChar, encodable_cons, ih]
  rw [writeString, encodable_cons, encodable_append, encodable_cons, h_chars]
  exact ⟨fun h => h.2.1, fun h => ⟨h_quote, h, h_quote, encodable_nil⟩⟩

/-- and so can the brackets and commas of a container. -/
theorem encodable_writeContainer {open_ close : Char} (texts : List PyStr) :
    PyStr.Encodable (writeContainer .compact open_ close texts) ↔
      ∀ t ∈ texts, PyStr.Encodable t := by
  have h_char : ∀ c : Char, (CodePoint.ofChar c).char? ≠ none := by simp
  rw [writeContainer, encodable_cons, encodable_append, encodable_cons, encodable_intercalate]
  · exact ⟨fun h => h.2.1, fun h => ⟨h_char _, h, h_char _, encodable_nil⟩⟩
  · exact encodable_cons.mpr ⟨h_char _, encodable_nil⟩

/-- A digit is a character. -/
theorem char?_of_isDigit {c : CodePoint} (h : isDigit c = true) : c.char? ≠ none := by
  simp only [isDigit, Bool.and_eq_true, decide_eq_true_eq] at h
  exact char?_ne_none (by omega)

/-- The parts of a number consist of such: its digits, -/
theorem encodable_takeWhile (t : PyStr) : PyStr.Encodable (t.takeWhile isDigit) :=
  fun _ h_c => char?_of_isDigit (List.mem_takeWhile_imp h_c)

/-- its sign, -/
theorem encodable_scanSign (signs : String) (t : PyStr) :
    PyStr.Encodable (scanSign (PyStr.ofString signs) t).1 := by
  unfold scanSign
  split
  · exact encodable_nil
  · split
    · next h_c => exact encodable_cons.mpr ⟨encodable_ofString signs _ h_c, encodable_nil⟩
    · exact encodable_nil

/-- its integer part, -/
theorem encodable_scanInteger {t digits rest : PyStr} (h : scanInteger t = some (digits, rest)) :
    PyStr.Encodable digits := by
  unfold scanInteger at h
  split at h
  · exact absurd h (by simp)
  · split at h
    · next h_c =>
      obtain ⟨rfl, -⟩ := Prod.mk.inj (Option.some.inj h)
      rw [h_c]
      exact encodable_cons.mpr ⟨by decide, encodable_nil⟩
    · split at h
      · next h_c =>
        obtain ⟨rfl, -⟩ := Prod.mk.inj (Option.some.inj h)
        exact encodable_cons.mpr ⟨char?_of_isDigit h_c, encodable_takeWhile _⟩
      · exact absurd h (by simp)

/-- its fraction, -/
theorem encodable_scanFraction (t : PyStr) : PyStr.Encodable (scanFraction t).1 := by
  unfold scanFraction
  split
  · split
    · next h_c =>
      rw [h_c.1]
      refine encodable_cons.mpr ⟨by decide, encodable_cons.mpr ⟨?_, encodable_takeWhile _⟩⟩
      exact char?_of_isDigit h_c.2
    · exact encodable_nil
  · exact encodable_nil

/-- and its exponent. -/
theorem encodable_scanExponent (t : PyStr) : PyStr.Encodable (scanExponent t).1 := by
  unfold scanExponent
  split
  · exact encodable_nil
  · split
    · next h_c =>
      dsimp only
      split
      · exact encodable_nil
      · refine encodable_cons.mpr ⟨?_, encodable_append.mpr
          ⟨encodable_scanSign _ _, encodable_takeWhile _⟩⟩
        rcases h_c with rfl | rfl
        · decide
        · decide
    · exact encodable_nil

/-- A number has the characters of one. -/
theorem encodable_of_floatLiteral {literal : PyStr} (h : FloatLiteral literal) :
    PyStr.Encodable literal := by
  unfold FloatLiteral scanNumber at h
  dsimp only at h
  split at h
  · exact absurd h (by simp)
  · next digits rest h_integer =>
    split at h
    · split at h
      · exact absurd h (by simp)
      · exact absurd h (by simp)
    · -- the literal is made of the parts that were scanned
      obtain ⟨h_literal, -⟩ := Prod.mk.inj (Except.ok.inj h)
      rw [← PyJson.float.inj h_literal]
      simp only [encodable_append]
      exact ⟨⟨⟨encodable_scanSign _ _, encodable_scanInteger h_integer⟩,
        encodable_scanFraction _⟩, encodable_scanExponent _⟩

/-- Items are written just when each is: the first that raises ends the loop, and otherwise every
text is there. -/
theorem exists_mapM_iff {α : Type} {write : α → Except DumpsError PyStr} {items : List α} :
    (∃ texts, items.mapM write = .ok texts ∧ ∀ t ∈ texts, PyStr.Encodable t) ↔
      ∀ a ∈ items, ∃ t, write a = .ok t ∧ PyStr.Encodable t := by
  induction items with
  | nil =>
    have h_nil : ∃ texts, ([] : List α).mapM write = .ok texts ∧
        ∀ t ∈ texts, PyStr.Encodable t := ⟨[], rfl, fun _ h => absurd h List.not_mem_nil⟩
    exact iff_of_true h_nil (fun _ h => absurd h List.not_mem_nil)
  | cons a items ih =>
    rw [List.forall_mem_cons, ← ih, List.mapM_cons]
    constructor
    · rintro ⟨texts, h_texts, h_encodable⟩
      -- nothing raises, so the first and the others are there
      cases h_a : write a with
      | error e =>
        rw [h_a] at h_texts
        exact absurd h_texts (by simp [bind, Except.bind])
      | ok t =>
        rw [h_a] at h_texts
        cases h_items : items.mapM write with
        | error e =>
          rw [h_items] at h_texts
          exact absurd h_texts (by simp [bind, Except.bind])
        | ok ts =>
          rw [h_items] at h_texts
          obtain rfl := Except.ok.inj h_texts
          obtain ⟨h_t, h_ts⟩ := List.forall_mem_cons.mp h_encodable
          exact ⟨⟨t, rfl, h_t⟩, ts, rfl, h_ts⟩
    · rintro ⟨⟨t, h_a, h_t⟩, ts, h_items, h_ts⟩
      rw [h_a, h_items]
      exact ⟨t :: ts, rfl, List.forall_mem_cons.mpr ⟨h_t, h_ts⟩⟩

/-- A container is written just when each of its items is. -/
theorem exists_container_iff {α : Type} {write : α → Except DumpsError PyStr} {items : List α}
    {open_ close : Char} :
    (∃ t, (items.mapM write).map (writeContainer .compact open_ close) = .ok t ∧
      PyStr.Encodable t) ↔ ∀ a ∈ items, ∃ t, write a = .ok t ∧ PyStr.Encodable t := by
  rw [← exists_mapM_iff]
  cases items.mapM write with
  | error e => simp [Except.map]
  | ok texts => simp [Except.map, encodable_writeContainer]

/-- A field is written just when its value is, and its key can be encoded. -/
theorem exists_field_iff {write : PyJson → Except DumpsError PyStr} {f : PyStr × PyJson} :
    (∃ t, writeField .compact write f = .ok t ∧ PyStr.Encodable t) ↔
      PyStr.Encodable f.1 ∧ ∃ t, write f.2 = .ok t ∧ PyStr.Encodable t := by
  have h_colon : PyStr.Encodable DumpsStyle.compact.colon := by
    exact encodable_cons.mpr ⟨by decide, encodable_nil⟩
  unfold writeField
  cases write f.2 with
  | error e => simp
  | ok t => simp [encodable_append, encodable_writeString, h_colon]

/-- What is written with `inner`, if that writes what is nested. The first case is the outermost
level that may still be written, where every container raises. -/
theorem writeWith_encodable_iff {inner : Option (PyJson → Except DumpsError PyStr)} {depth : ℕ}
    (h_inner : (inner = none ∧ depth = 0) ∨ ∃ write n, inner = some write ∧ depth = n + 1 ∧
      ∀ v, Plain .compact v → ((∃ t, write v = .ok t ∧ PyStr.Encodable t) ↔ Writable n v))
    {v : PyJson} (h_v : Plain .compact v) :
    (∃ t, writeWith .compact inner v = .ok t ∧ PyStr.Encodable t) ↔ Writable depth v := by
  cases h_v with
  | null => exact iff_of_true ⟨_, rfl, encodable_ofString _⟩ .null
  | bool b =>
    refine iff_of_true ?_ (.bool b)
    cases b with
    | false => exact ⟨_, rfl, encodable_ofString _⟩
    | true => exact ⟨_, rfl, encodable_ofString _⟩
  | int n =>
    rw [writeWith]
    constructor
    · rintro ⟨t, h_t, -⟩
      split at h_t
      · next h_n => exact .int h_n
      · exact absurd h_t (by simp)
    · rintro (_ | _ | h_n)
      exact ⟨_, if_pos h_n, encodable_ofString _⟩
  | float h_literal =>
    exact iff_of_true ⟨_, rfl, encodable_of_floatLiteral h_literal⟩ (.float _)
  | nan => exact iff_of_true ⟨_, rfl, encodable_ofString _⟩ .nan
  | infinity negative =>
    refine iff_of_true ?_ (.infinity negative)
    cases negative with
    | false => exact ⟨_, rfl, encodable_ofString _⟩
    | true => exact ⟨_, rfl, encodable_ofString _⟩
  | @str t _ =>
    constructor
    · rintro ⟨t', h_t, h_encodable⟩
      obtain rfl := Except.ok.inj h_t
      exact .str ((encodable_writeString t).mp h_encodable)
    · intro h
      cases h with
      | str h_t => exact ⟨_, rfl, (encodable_writeString t).mpr h_t⟩
  -- a list is written just when there is a level left and each item is written
  | @list items h_items =>
    rcases h_inner with ⟨rfl, rfl⟩ | ⟨write, n, rfl, rfl, h_write⟩
    · exact iff_of_false (by simp [writeWith]) (fun h => by cases h)
    · rw [writeWith, exists_container_iff]
      constructor
      · exact fun h => .list (fun v h_v => (h_write v (h_items v h_v)).mp (h v h_v))
      · intro h
        cases h with
        | list h => exact fun v h_v => (h_write v (h_items v h_v)).mpr (h v h_v)
  -- a dictionary likewise, with its keys
  | @dict fields _ h_fields =>
    rcases h_inner with ⟨rfl, rfl⟩ | ⟨write, n, rfl, rfl, h_write⟩
    · exact iff_of_false (by simp [writeWith]) (fun h => by cases h)
    · rw [writeWith, exists_container_iff]
      simp only [exists_field_iff]
      constructor
      · exact fun h => .dict (fun f h_f => (h f h_f).1)
          (fun f h_f => (h_write f.2 (h_fields f h_f)).mp (h f h_f).2)
      · intro h
        cases h with
        | dict h_keys h =>
          exact fun f h_f => ⟨h_keys f h_f, (h_write f.2 (h_fields f h_f)).mpr (h f h_f)⟩

/-- **What `json.dumps` writes compactly and `encode` takes** are the writable values. By
induction on the depth; what is nested is written with one level less. -/
theorem dumps_encodable_iff {depth : ℕ} {v : PyJson} (h_v : Plain .compact v) :
    (∃ t, dumps .compact depth v = .ok t ∧ PyStr.Encodable t) ↔ Writable depth v := by
  induction depth generalizing v with
  | zero => exact writeWith_encodable_iff (Or.inl ⟨rfl, rfl⟩) h_v
  | succ depth ih =>
    exact writeWith_encodable_iff (Or.inr ⟨_, depth, rfl, rfl, fun v h_v => ih h_v⟩) h_v

end PyJson
end FingerprintHub
