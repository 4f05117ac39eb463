import FingerprintHub.Library.Table

/-!
# Rewriting a column row by row

A data migration reads the values of a column with the ids of their rows, computes for
each what it is to become, and sends an `UPDATE … WHERE id = …` for those that change.
`Column.rewrite` is that loop. Each `UPDATE` names its row by the id, so the loop is one
change of all rows at once (`Column.rewrite_eq`) when no two rows share an id and no
value makes it raise.
-/

namespace FingerprintHub

/-- A computation that does not raise did not raise in its first part. -/
theorem exists_of_bind_eq_ok {ε α β : Type} {x : Except ε α} {g : α → Except ε β} {b : β}
    (h : x >>= g = .ok b) : ∃ a, x = .ok a ∧ g a = .ok b := by
  cases x with
  | error e => exact absurd h (by simp [bind, Except.bind])
  | ok a => exact ⟨a, rfl, h⟩

/-- A column that may be `NULL`, and the id by which an `UPDATE` names a row. The laws say that
writing the column changes neither the key nor the id, and that writing what is there changes
nothing. -/
structure Column {ρ κ : Type} (key : ρ → κ) (ι α : Type) where
  rowId : ρ → ι
  get : ρ → Option α
  set : Option α → ρ → ρ
  key_set : ∀ v r, key (set v r) = key r
  rowId_set : ∀ v r, rowId (set v r) = rowId r
  set_get : ∀ r, set (get r) r = r

namespace Column

variable {ρ κ ι α ε : Type} {key : ρ → κ} (col : Column key ι α)
  (f : ι → α → Except ε (Option α))

/-- `SELECT id, column … WHERE column IS NOT NULL`. -/
def values (t : Table key) : List (ι × α) :=
  t.rows.filterMap (fun r => (col.get r).map (fun v => (col.rowId r, v)))

/-- The values name distinct rows. -/
theorem nodup_values {t : Table key} (h_ids : (t.rows.map col.rowId).Nodup) :
    ((col.values t).map Prod.fst).Nodup := by
  have h_sub : ((col.values t).map Prod.fst).Sublist (t.rows.map col.rowId) := by
    unfold values
    induction t.rows with
    | nil => exact List.Sublist.refl _
    | cons r rows ih =>
      cases h_get : col.get r with
      | none =>
        simp only [List.filterMap_cons, h_get, Option.map_none, List.map_cons]
        exact ih.cons _
      | some v =>
        simp only [List.filterMap_cons, h_get, Option.map_some, List.map_cons]
        exact ih.cons_cons _
  exact h_sub.nodup h_ids

/-- A value that is read is that of a row, with the id of the row. -/
theorem mem_values {t : Table key} {e : ι × α} :
    e ∈ col.values t ↔ ∃ r ∈ t.rows, col.get r = some e.2 ∧ col.rowId r = e.1 := by
  unfold values
  rw [List.mem_filterMap]
  constructor
  · rintro ⟨r, h_r, h_e⟩
    obtain ⟨v, h_v, rfl⟩ := Option.map_eq_some_iff.mp h_e
    exact ⟨r, h_r, h_v, rfl⟩
  · rintro ⟨r, h_r, h_v, h_id⟩
    exact ⟨r, h_r, by rw [h_v, h_id]; rfl⟩

/-- A row with the value the loop computes from `v`, or as it is when there is nothing to write.
-/
def replace (r : ρ) (id : ι) (v : α) : ρ :=
  match f id v with
  | .ok (some v') => col.set (some v') r
  | _ => r

/-- What becomes of a row. -/
def rewritten (r : ρ) : ρ :=
  match col.get r with
  | none => r
  | some v => col.replace f r (col.rowId r) v

/-- The key stays, -/
theorem key_replace (r : ρ) (id : ι) (v : α) : key (col.replace f r id v) = key r := by
  unfold replace
  split
  · exact col.key_set _ r
  · rfl

/-- the id stays, -/
theorem rowId_replace (r : ρ) (id : ι) (v : α) :
    col.rowId (col.replace f r id v) = col.rowId r := by
  unfold replace
  split
  · exact col.rowId_set _ r
  · rfl

/-- also when the row is rewritten from its own value. -/
theorem key_rewritten (r : ρ) : key (col.rewritten f r) = key r := by
  unfold rewritten
  split
  · rfl
  · exact col.key_replace f r _ _

/-- What a value becomes. -/
def settled (f : ι → α → Except ε (Option α)) (id : ι) (v : α) : α :=
  match f id v with
  | .ok (some v') => v'
  | _ => v

/-- A row gets what its value becomes. -/
theorem rewritten_eq (r : ρ) :
    col.rewritten f r = col.set ((col.get r).map (settled f (col.rowId r))) r := by
  have h_set := col.set_get r
  unfold rewritten
  cases h_get : col.get r with
  | none =>
    rw [h_get] at h_set
    exact h_set.symm
  | some v =>
    rw [h_get] at h_set
    show col.replace f r (col.rowId r) v = col.set (some (settled f (col.rowId r) v)) r
    unfold replace settled
    split
    · rfl
    · exact h_set.symm

/-! ### The loop -/

variable [DecidableEq ι]

/-- `UPDATE … SET column = v WHERE id = …`. -/
def put (t : Table key) (id : ι) (v : α) : Table key :=
  t.update (fun r => col.rowId r = id) (col.set (some v)) (col.key_set (some v))

/-- One round of the loop. -/
def rewriteOne (t : Table key) (e : ι × α) : Except ε (Table key) :=
  match f e.1 e.2 with
  | .error err => .error err
  | .ok none => .ok t
  | .ok (some v) => .ok (col.put t e.1 v)

/-- The loop. The values are those of the table before it, and the first round that raises ends
it. -/
def rewrite (t : Table key) : Except ε (Table key) :=
  (col.values t).foldlM (col.rewriteOne f) t

/-! ### The loop at once -/

/-- What becomes of a row by the rounds of a list. -/
def replaceAll (es : List (ι × α)) (r : ρ) : ρ :=
  match es.find? (fun e => e.1 = col.rowId r) with
  | none => r
  | some e => col.replace f r e.1 e.2

/-- The keys stay. -/
theorem key_replaceAll (es : List (ι × α)) (r : ρ) : key (col.replaceAll f es r) = key r := by
  unfold replaceAll
  split
  · rfl
  · exact col.key_replace f r _ _

/-- A row no round names stays. -/
theorem replaceAll_of_not_mem {es : List (ι × α)} {r : ρ} (h : col.rowId r ∉ es.map Prod.fst) :
    col.replaceAll f es r = r := by
  have h_none : es.find? (fun e => e.1 = col.rowId r) = none := by
    refine List.find?_eq_none.mpr (fun e h_e h_eq => ?_)
    have h_eq : e.1 = col.rowId r := by simpa using h_eq
    exact h (h_eq ▸ List.mem_map_of_mem h_e)
  rw [replaceAll, h_none]

/-- A round that does not raise replaces the row it names. -/
theorem rewriteOne_eq {t : Table key} {e : ι × α} {o : Option α} (h_ok : f e.1 e.2 = .ok o) :
    col.rewriteOne f t e = .ok (t.map
      (fun r => if col.rowId r = e.1 then col.replace f r e.1 e.2 else r)
      (fun r => by split <;> simp [key_replace])) := by
  unfold rewriteOne
  rw [h_ok]
  cases o with
  | none =>
    refine congrArg Except.ok (Table.map_eq_self (fun r _ => ?_)).symm
    split
    · rw [replace, h_ok]
    · rfl
  | some v =>
    refine congrArg Except.ok (Table.ext (List.map_congr_left (fun r _ => ?_)))
    simp only [decide_eq_true_eq, replace, h_ok]

/-- **The rounds of a list at once**, when each names another row. By induction on the list: a
later round finds its row as it was before the loop. -/
theorem foldlM_eq {es : List (ι × α)} (h_nodup : (es.map Prod.fst).Nodup)
    (h_ok : ∀ e ∈ es, ∃ o, f e.1 e.2 = .ok o) (t : Table key) :
    es.foldlM (col.rewriteOne f) t
      = .ok (t.map (col.replaceAll f es) (col.key_replaceAll f es)) := by
  induction es generalizing t with
  | nil =>
    refine congrArg Except.ok (Table.map_eq_self (fun r _ => ?_)).symm
    exact col.replaceAll_of_not_mem f (by simp)
  | cons e es ih =>
    obtain ⟨h_not, h_rest⟩ := List.nodup_cons.mp h_nodup
    obtain ⟨o, h_o⟩ := h_ok e (List.mem_cons_self ..)
    have h_later : ∀ e' ∈ es, ∃ o, f e'.1 e'.2 = .ok o :=
      fun e' h_e' => h_ok e' (List.mem_cons_of_mem _ h_e')
    calc (e :: es).foldlM (col.rewriteOne f) t
        = es.foldlM (col.rewriteOne f) (t.map
            (fun r => if col.rowId r = e.1 then col.replace f r e.1 e.2 else r)
            (fun r => by split <;> simp [key_replace])) := by
          rw [List.foldlM_cons, col.rewriteOne_eq f h_o]
          rfl
      _ = .ok ((t.map (fun r => if col.rowId r = e.1 then col.replace f r e.1 e.2 else r)
            (fun r => by split <;> simp [key_replace])).map (col.replaceAll f es)
            (col.key_replaceAll f es)) := ih h_rest h_later _
      _ = .ok (t.map (col.replaceAll f (e :: es)) (col.key_replaceAll f (e :: es))) := by
          rw [Table.map_map]
          refine congrArg Except.ok (Table.map_congr (fun r _ => ?_))
          simp only [Function.comp_apply]
          by_cases h_id : col.rowId r = e.1
          · -- the later rounds do not name the row of the first
            rw [if_pos h_id, replaceAll_of_not_mem]
            · simp [replaceAll, h_id]
            · rw [rowId_replace, h_id]
              exact h_not
          · have h_ne : ¬ e.1 = col.rowId r := fun h_eq => h_id h_eq.symm
            rw [if_neg h_id]
            simp [replaceAll, h_ne]

/-- **The loop at once**: every row is rewritten from its own value, as if no other row were
there. -/
theorem rewrite_eq {t : Table key} (h_ids : (t.rows.map col.rowId).Nodup)
    (h_ok : ∀ r ∈ t.rows, ∀ v, col.get r = some v → ∃ o, f (col.rowId r) v = .ok o) :
    col.rewrite f t = .ok (t.map (col.rewritten f) (col.key_rewritten f)) := by
  have h_values : ∀ e ∈ col.values t, ∃ o, f e.1 e.2 = .ok o := by
    intro e h_e
    obtain ⟨r, h_r, h_v, h_id⟩ := col.mem_values.mp h_e
    rw [← h_id]
    exact h_ok r h_r e.2 h_v
  rw [rewrite, col.foldlM_eq f (col.nodup_values h_ids) h_values]
  refine congrArg Except.ok (Table.map_congr (fun r h_r => ?_))
  -- a row of the table is named by its own value, if it has one
  have h_same : ∀ e ∈ col.values t, e.1 = col.rowId r → col.get r = some e.2 := by
    intro e h_e h_id
    obtain ⟨r', h_r', h_v, h_id'⟩ := col.mem_values.mp h_e
    rw [List.inj_on_of_nodup_map h_ids h_r h_r' (h_id.symm.trans h_id'.symm)]
    exact h_v
  unfold replaceAll rewritten
  cases h_find : (col.values t).find? (fun e => e.1 = col.rowId r) with
  | none =>
    cases h_get : col.get r with
    | none => rfl
    | some v =>
      have h_mem : (col.rowId r, v) ∈ col.values t := col.mem_values.mpr ⟨r, h_r, h_get, rfl⟩
      exact absurd (List.find?_eq_none.mp h_find _ h_mem) (by simp)
  | some e =>
    have h_id : e.1 = col.rowId r := by simpa using List.find?_some h_find
    rw [h_same e (List.mem_of_find?_eq_some h_find) h_id]
    show col.replace f r e.1 e.2 = col.replace f r (col.rowId r) e.2
    rw [h_id]

/-- A value that makes its round raise makes the loop raise, if not with its own error then with
an earlier one. -/
theorem rewrite_error {t : Table key} {r : ρ} (h_r : r ∈ t.rows) {v : α}
    (h_get : col.get r = some v) {err : ε} (h_err : f (col.rowId r) v = .error err) :
    ∃ err', col.rewrite f t = .error err' := by
  have h_rounds : ∀ (es : List (ι × α)) (t' : Table key), (col.rowId r, v) ∈ es →
      ∃ err', es.foldlM (col.rewriteOne f) t' = .error err' := by
    intro es
    induction es with
    | nil => exact fun _ h_mem => absurd h_mem (List.not_mem_nil)
    | cons e es ih =>
      intro t' h_mem
      rw [List.foldlM_cons]
      cases h_one : col.rewriteOne f t' e with
      | error err' => exact ⟨err', rfl⟩
      | ok t'' =>
        rcases List.mem_cons.mp h_mem with rfl | h_later
        · rw [rewriteOne, h_err] at h_one
          exact absurd h_one (by simp)
        · exact ih t'' h_later
  exact h_rounds (col.values t) t (col.mem_values.mpr ⟨r, h_r, h_get, rfl⟩)

/-- A loop that does not raise is the loop at once, and no value made it raise. -/
theorem eq_of_rewrite {t t' : Table key} (h_ids : (t.rows.map col.rowId).Nodup)
    (h : col.rewrite f t = .ok t') :
    t' = t.map (col.rewritten f) (col.key_rewritten f) ∧
      ∀ r ∈ t.rows, ∀ v, col.get r = some v → ∃ o, f (col.rowId r) v = .ok o := by
  have h_ok : ∀ r ∈ t.rows, ∀ v, col.get r = some v → ∃ o, f (col.rowId r) v = .ok o := by
    intro r h_r v h_get
    cases h_f : f (col.rowId r) v with
    | ok o => exact ⟨o, rfl⟩
    | error err =>
      obtain ⟨err', h_err⟩ := col.rewrite_error f h_r h_get h_f
      rw [h] at h_err
      exact absurd h_err (by simp)
  refine ⟨?_, h_ok⟩
  rw [col.rewrite_eq f h_ids h_ok] at h
  exact (Except.ok.inj h).symm

end Column

end FingerprintHub
