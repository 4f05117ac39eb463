import Mathlib.Data.List.Nodup
import Mathlib.Data.Finset.Image

/-!
# Tables with a primary key

A table is the list of its rows together with the fact that no two rows share a
key. The operations are the ones SQL offers on it: `get?` (a `SELECT` by key),
`select`, `update`, `delete`, and `insert`, which is `INSERT … ON CONFLICT (key)
DO NOTHING`. Each keeps the primary key unique, so a table with two rows under
one key cannot be built.

A table is read through `get?`. `mem_rows` turns membership into a lookup, and
`get?_update`, `get?_delete`, `get?_insert` say what a lookup returns after each
operation, so that clients never look at the row list.
-/

namespace FingerprintHub

/-- A list of rows in which the key `key` is unique. Two tables with the same rows in another
order are not equal, but every lookup in them is. -/
structure Table {ρ κ : Type} (key : ρ → κ) where
  /-- The rows, in the order in which they were inserted. -/
  rows : List ρ
  /-- The primary key: no two rows share a key. -/
  nodup : (rows.map key).Nodup

namespace Table

variable {ρ κ : Type} {key : ρ → κ}

/-- The table without rows. -/
def empty (key : ρ → κ) : Table key where
  rows := []
  nodup := List.nodup_nil

/-- `SELECT … WHERE p`, in insertion order. -/
def select (t : Table key) (p : ρ → Bool) : List ρ :=
  t.rows.filter p

/-- Two rows under one key are the same row. -/
theorem eq_of_key_eq (t : Table key) {r r' : ρ} (hr : r ∈ t.rows) (hr' : r' ∈ t.rows)
    (h : key r = key r') : r = r' :=
  List.inj_on_of_nodup_map t.nodup hr hr' h

/-- A row filter keeps the keys distinct. -/
theorem nodup_map_filter (t : Table key) (p : ρ → Bool) :
    ((t.rows.filter p).map key).Nodup :=
  (List.filter_sublist.map key).nodup t.nodup

/-- `DELETE … WHERE p`. -/
def delete (t : Table key) (p : ρ → Bool) : Table key where
  rows := t.rows.filter (fun r => !p r)
  nodup := t.nodup_map_filter _

/-- `UPDATE … SET f WHERE p`, for an `f` that leaves the key alone. -/
def update (t : Table key) (p : ρ → Bool) (f : ρ → ρ)
    (hf : ∀ r, key (f r) = key r) : Table key where
  rows := t.rows.map (fun r => if p r then f r else r)
  nodup := by
    have h : (key ∘ fun r => if p r then f r else r) = key := by
      funext r
      simp only [Function.comp_apply]
      split
      · exact hf r
      · rfl
    rw [List.map_map, h]
    exact t.nodup

/-- Tables with the same rows are the same table. -/
@[ext] theorem ext {t t' : Table key} (h : t.rows = t'.rows) : t = t' := by
  cases t; cases t'; cases h; rfl

@[simp] theorem rows_empty : (empty key).rows = [] := rfl

/-- An update that matches no row does nothing. -/
theorem update_eq_self {t : Table key} {p : ρ → Bool} {f : ρ → ρ}
    {hf : ∀ r, key (f r) = key r} (h : ∀ r ∈ t.rows, p r = false) : t.update p f hf = t := by
  apply ext
  refine (List.map_congr_left (fun r hr => ?_)).trans (List.map_id _)
  simp [h r hr]

/-- An update is invisible in the columns it does not set. -/
theorem map_rows_update {σ : Type} (t : Table key) (p : ρ → Bool) (f : ρ → ρ)
    (hf : ∀ r, key (f r) = key r) {g : ρ → σ} (hg : ∀ r, g (f r) = g r) :
    (t.update p f hf).rows.map g = t.rows.map g := by
  rw [update, List.map_map]
  refine List.map_congr_left (fun r _ => ?_)
  simp only [Function.comp_apply]
  split
  · exact hg r
  · rfl

/-- A deletion that matches no row does nothing. -/
theorem delete_eq_self {t : Table key} {p : ρ → Bool} (h : ∀ r ∈ t.rows, p r = false) :
    t.delete p = t := by
  apply ext
  exact List.filter_eq_self.mpr (fun r hr => by simp [h r hr])

/-- Two deletions are one. -/
theorem delete_delete (t : Table key) (p q : ρ → Bool) :
    (t.delete p).delete q = t.delete (fun r => p r || q r) := by
  apply ext
  show (t.rows.filter _).filter _ = t.rows.filter _
  rw [List.filter_filter]
  refine List.filter_congr (fun r _ => ?_)
  rw [Bool.not_or, Bool.and_comm]

/-- A deletion looks only at the rows there are. -/
theorem delete_congr {t : Table key} {p q : ρ → Bool} (h : ∀ r ∈ t.rows, p r = q r) :
    t.delete p = t.delete q := by
  apply ext
  exact List.filter_congr (fun r hr => by rw [h r hr])

/-- A deletion that an update does not influence may come first. -/
theorem delete_update (t : Table key) (p : ρ → Bool) {f : ρ → ρ} (hf : ∀ r, key (f r) = key r)
    {q : ρ → Bool} (hq : ∀ r, q (f r) = q r) :
    (t.update p f hf).delete q = (t.delete q).update p f hf := by
  apply ext
  show (t.rows.map _).filter _ = (t.rows.filter _).map _
  rw [List.filter_map]
  refine congrArg _ (List.filter_congr (fun r _ => ?_))
  simp only [Function.comp_apply]
  split
  · rw [hq]
  · rfl

/-- An update that a later one covers is not needed: what the later one makes of a row is the same
with the earlier one and without. -/
theorem update_update (t : Table key) {p q : ρ → Bool} {f g : ρ → ρ}
    (hf : ∀ r, key (f r) = key r) (hg : ∀ r, key (g r) = key r)
    (h : ∀ r ∈ t.rows, (if q (if p r then f r else r) then g (if p r then f r else r)
      else if p r then f r else r) = if q r then g r else r) :
    (t.update p f hf).update q g hg = t.update q g hg := by
  apply ext
  show (t.rows.map _).map _ = t.rows.map _
  rw [List.map_map]
  exact List.map_congr_left h

/-- A second reason to select a row adds no row just when it comes with the first. -/
theorem length_select_or (t : Table key) (p q : ρ → Bool) :
    (t.select p).length = (t.select (fun r => p r || q r)).length ↔
      ∀ r ∈ t.rows, q r = true → p r = true := by
  have h_sub : (t.select p).Sublist (t.select (fun r => p r || q r)) :=
    List.monotone_filter_right _ (fun r h => by rw [h, Bool.true_or])
  constructor
  · intro h_length r h_r h_q
    -- lists of one length, the one within the other, are the same
    have h_mem : r ∈ t.select (fun r => p r || q r) :=
      List.mem_filter.mpr ⟨h_r, by rw [h_q, Bool.or_true]⟩
    rw [← h_sub.eq_of_length h_length] at h_mem
    exact (List.mem_filter.mp h_mem).2
  · intro h_both
    refine congrArg List.length (List.filter_congr (fun r h_r => ?_))
    cases h_q : q r with
    | false => rw [Bool.or_false]
    | true => rw [h_both r h_r h_q, Bool.true_or]

/-! ### The same change in every row -/

/-- `UPDATE … SET f`, for an `f` that leaves the key alone. -/
def map (t : Table key) (f : ρ → ρ) (hf : ∀ r, key (f r) = key r) : Table key where
  rows := t.rows.map f
  nodup := by
    have h : key ∘ f = key := funext hf
    rw [List.map_map, h]
    exact t.nodup

section Map

variable {f g : ρ → ρ} {hf : ∀ r, key (f r) = key r} {hg : ∀ r, key (g r) = key r}

@[simp] theorem rows_map (t : Table key) : (t.map f hf).rows = t.rows.map f := rfl

/-- Changes that agree on the rows there are agree. -/
theorem map_congr {t : Table key} (h : ∀ r ∈ t.rows, f r = g r) : t.map f hf = t.map g hg :=
  ext (List.map_congr_left h)

/-- A change that leaves its rows alone leaves the table alone. -/
theorem map_eq_self {t : Table key} (h : ∀ r ∈ t.rows, f r = r) : t.map f hf = t :=
  ext ((List.map_congr_left h).trans (List.map_id _))

/-- A change that leaves the table alone leaves its rows alone. -/
theorem eq_of_map_eq_self {t : Table key} (hf : ∀ r, key (f r) = key r) (h : t.map f hf = t)
    {r : ρ} (h_r : r ∈ t.rows) : f r = r := by
  have h_rows : t.rows.map f = t.rows.map id :=
    (congrArg Table.rows h).trans (List.map_id _).symm
  exact List.map_inj_left.mp h_rows r h_r

/-- Two changes are one. -/
theorem map_map (t : Table key) :
    (t.map f hf).map g hg = t.map (g ∘ f) (fun r => (hg (f r)).trans (hf r)) :=
  ext List.map_map

/-- A change that hides itself need not be made twice. -/
theorem map_idem (t : Table key) (hf : ∀ r, key (f r) = key r) (h : ∀ r, f (f r) = f r) :
    (t.map f hf).map f hf = t.map f hf := by
  rw [map_map]
  exact ext (List.map_congr_left (fun r _ => h r))

/-- What a change does not influence may be selected before it. -/
theorem select_map (t : Table key) (hf : ∀ r, key (f r) = key r) {p : ρ → Bool}
    (hp : ∀ r, p (f r) = p r) :
    (t.map f hf).select p = (t.select p).map f := by
  show (t.rows.map f).filter p = (t.rows.filter p).map f
  rw [List.filter_map]
  exact congrArg _ (List.filter_congr (fun r _ => hp r))

/-- It may be deleted before it as well. -/
theorem delete_map (t : Table key) (hf : ∀ r, key (f r) = key r) {p : ρ → Bool}
    (hp : ∀ r, p (f r) = p r) :
    (t.map f hf).delete p = (t.delete p).map f hf := by
  apply ext
  show (t.rows.map f).filter _ = (t.rows.filter _).map f
  rw [List.filter_map]
  exact congrArg _ (List.filter_congr (fun r _ => by simp [hp r]))

/-- A change commutes with an update that it does not influence. -/
theorem map_update (t : Table key) (hf : ∀ r, key (f r) = key r) {p : ρ → Bool}
    (hp : ∀ r, p (f r) = p r) {u u' : ρ → ρ} (hu : ∀ r, key (u r) = key r)
    (hu' : ∀ r, key (u' r) = key r) (h : ∀ r, f (u r) = u' (f r)) :
    (t.update p u hu).map f hf = (t.map f hf).update p u' hu' := by
  apply ext
  show (t.rows.map _).map f = (t.rows.map f).map _
  rw [List.map_map, List.map_map]
  refine List.map_congr_left (fun r _ => ?_)
  simp only [Function.comp_apply, hp]
  split
  · exact h r
  · rfl

/-- An update before a change, which may be made on the changed rows if the change hides
the difference. -/
theorem map_update_map (t : Table key) (hf : ∀ r, key (f r) = key r) {p p' : ρ → Bool}
    {u u' : ρ → ρ} (hu : ∀ r, key (u r) = key r) (hu' : ∀ r, key (u' r) = key r)
    (h : ∀ r ∈ t.rows, f (if p r then u r else r)
      = f (if p' (f r) then u' (f r) else f r)) :
    (t.update p u hu).map f hf = ((t.map f hf).update p' u' hu').map f hf := by
  apply ext
  show (t.rows.map _).map f = ((t.rows.map f).map _).map f
  rw [List.map_map, List.map_map, List.map_map]
  exact List.map_congr_left h

end Map

variable [DecidableEq κ]

/-- The row under a key. -/
def get? (t : Table key) (k : κ) : Option ρ :=
  t.rows.find? (fun r => key r = k)

/-- `INSERT … ON CONFLICT (key) DO NOTHING`. A new row comes last, so that the list is in the
order in which the rows were inserted. -/
def insert (t : Table key) (r : ρ) : Table key where
  rows := if key r ∈ t.rows.map key then t.rows else t.rows ++ [r]
  nodup := by
    split
    · exact t.nodup
    · next h =>
      rw [List.map_append, List.map_cons, List.map_nil]
      exact List.nodup_append.mpr ⟨t.nodup, List.nodup_singleton _,
        fun a ha b hb => by rw [List.mem_singleton.mp hb]; exact fun hab => h (hab ▸ ha)⟩

/-! ### Lookups -/

/-- A lookup finds the row with the key, -/
theorem get?_eq_some (t : Table key) {k : κ} {r : ρ} :
    t.get? k = some r ↔ r ∈ t.rows ∧ key r = k := by
  unfold get?
  constructor
  · intro h
    exact ⟨List.mem_of_find?_eq_some h, by simpa using List.find?_some h⟩
  · rintro ⟨hr, rfl⟩
    cases hf : t.rows.find? (fun r' => key r' = key r) with
    | none => exact absurd (List.find?_eq_none.mp hf r hr) (by simp)
    | some r' =>
      have hk : key r' = key r := by simpa using List.find?_some hf
      rw [t.eq_of_key_eq (List.mem_of_find?_eq_some hf) hr hk]

/-- or there is none. -/
theorem get?_eq_none (t : Table key) {k : κ} :
    t.get? k = none ↔ ∀ r ∈ t.rows, key r ≠ k := by
  simp [get?, List.find?_eq_none]

/-- Membership is a lookup. -/
theorem mem_rows (t : Table key) {r : ρ} : r ∈ t.rows ↔ t.get? (key r) = some r := by
  rw [get?_eq_some]
  exact ⟨fun h => ⟨h, rfl⟩, fun h => h.1⟩

/-- What is found has the key, -/
theorem key_of_get? {t : Table key} {k : κ} {r : ρ} (h : t.get? k = some r) : key r = k :=
  (t.get?_eq_some.mp h).2

/-- and is a row. -/
theorem mem_of_get? {t : Table key} {k : κ} {r : ρ} (h : t.get? k = some r) : r ∈ t.rows :=
  (t.get?_eq_some.mp h).1

@[simp] theorem get?_empty (k : κ) : (empty key).get? k = none := rfl

/-- A selection has the rows that match. -/
theorem mem_select {t : Table key} {p : ρ → Bool} {r : ρ} :
    r ∈ t.select p ↔ t.get? (key r) = some r ∧ p r = true := by
  rw [select, List.mem_filter, mem_rows]

/-- A deletion drops the row under a key exactly when the row matches. -/
@[simp] theorem get?_delete (t : Table key) (p : ρ → Bool) (k : κ) :
    (t.delete p).get? k = (t.get? k).filter (fun r => !p r) := by
  apply Option.ext
  intro r
  rw [get?_eq_some, Option.filter_eq_some_iff, get?_eq_some]
  simp only [delete, List.mem_filter]
  tauto

/-- An update rewrites the row under a key exactly when the row matches. -/
@[simp] theorem get?_update (t : Table key) (p : ρ → Bool) (f : ρ → ρ)
    (hf : ∀ r, key (f r) = key r) (k : κ) :
    (t.update p f hf).get? k = (t.get? k).map (fun r => if p r then f r else r) := by
  have hkey : ∀ r, key (if p r then f r else r) = key r := by
    intro r
    split
    · exact hf r
    · rfl
  apply Option.ext
  intro r
  rw [get?_eq_some, Option.map_eq_some_iff]
  simp only [update, List.mem_map]
  constructor
  · rintro ⟨⟨r₀, hr₀, rfl⟩, hk⟩
    exact ⟨r₀, t.get?_eq_some.mpr ⟨hr₀, (hkey r₀).symm.trans hk⟩, rfl⟩
  · rintro ⟨r₀, hr₀, rfl⟩
    exact ⟨⟨r₀, mem_of_get? hr₀, rfl⟩, (hkey r₀).trans (key_of_get? hr₀)⟩

/-- An insertion is seen under its own key when the key was free, and nowhere
else. -/
theorem get?_insert (t : Table key) (r : ρ) (k : κ) :
    (t.insert r).get? k = if key r = k ∧ t.get? k = none then some r else t.get? k := by
  by_cases hc : key r ∈ t.rows.map key
  · have hrows : (t.insert r).rows = t.rows := if_pos hc
    have hsame : (t.insert r).get? k = t.get? k := by rw [get?, hrows, get?]
    obtain ⟨r₀, hr₀, hk₀⟩ := List.mem_map.mp hc
    rw [hsame, if_neg]
    rintro ⟨rfl, hn⟩
    exact t.get?_eq_none.mp hn r₀ hr₀ hk₀
  · have hrows : (t.insert r).rows = t.rows ++ [r] := if_neg hc
    rw [get?, hrows, List.find?_append]
    change (t.get? k).or _ = _
    cases hg : t.get? k with
    | some r' => simp
    | none => by_cases hk : key r = k <;> simp [hk]

/-- An insertion under a free key. -/
theorem get?_insert_of_none {t : Table key} {r : ρ} (h : t.get? (key r) = none) (k : κ) :
    (t.insert r).get? k = if key r = k then some r else t.get? k := by
  rw [get?_insert]
  by_cases hk : key r = k
  · subst hk; rw [if_pos ⟨rfl, h⟩, if_pos rfl]
  · rw [if_neg (fun hc => hk hc.1), if_neg hk]

/-- It comes after the other rows. -/
theorem rows_insert_of_none {t : Table key} {r : ρ} (h : t.get? (key r) = none) :
    (t.insert r).rows = t.rows ++ [r] := by
  refine if_neg (fun h_mem => ?_)
  obtain ⟨r', h_r', h_key⟩ := List.mem_map.mp h_mem
  exact t.get?_eq_none.mp h r' h_r' h_key

/-- After an insertion its key is taken, by the new row or the old one. -/
theorem exists_get?_insert (t : Table key) (r : ρ) : ∃ r', (t.insert r).get? (key r) = some r' := by
  rw [get?_insert]
  split
  · exact ⟨r, rfl⟩
  · next h => exact Option.ne_none_iff_exists'.mp (fun h_none => h ⟨rfl, h_none⟩)

/-- A change in every row changes the row under a key. -/
@[simp] theorem get?_map (t : Table key) (f : ρ → ρ) (hf : ∀ r, key (f r) = key r) (k : κ) :
    (t.map f hf).get? k = (t.get? k).map f := by
  show (t.rows.map f).find? _ = (t.rows.find? _).map f
  rw [List.find?_map]
  congr 2
  funext r
  simp only [Function.comp_apply, hf]

/-! ### What a statement removed -/

/-- The rows that a later table does not have any more, by their keys. A row that was changed is
not lost. -/
def lost (t t' : Table key) : List ρ := t.select (fun r => (t'.get? (key r)).isNone)

/-- A deletion loses what it selects. -/
theorem lost_delete (t : Table key) (p : ρ → Bool) : t.lost (t.delete p) = t.select p := by
  refine List.filter_congr (fun r h_r => ?_)
  rw [get?_delete, (t.mem_rows).mp h_r, Option.filter_some]
  cases p r <;> rfl

/-- An update loses nothing. -/
theorem lost_update (t t' : Table key) (p : ρ → Bool) {f : ρ → ρ} (hf : ∀ r, key (f r) = key r) :
    t.lost (t'.update p f hf) = t.lost t' := by
  refine List.filter_congr (fun r _ => ?_)
  rw [get?_update, Option.isNone_map]

/-- A change commutes with an insertion. -/
theorem map_insert (t : Table key) (f : ρ → ρ) (hf : ∀ r, key (f r) = key r) (r : ρ) :
    (t.insert r).map f hf = (t.map f hf).insert (f r) := by
  have h_keys : (t.rows.map f).map key = t.rows.map key := by
    rw [List.map_map]
    exact List.map_congr_left (fun r' _ => hf r')
  apply ext
  show (if key r ∈ t.rows.map key then t.rows else t.rows ++ [r]).map f
    = if key (f r) ∈ (t.rows.map f).map key then t.rows.map f else t.rows.map f ++ [f r]
  rw [h_keys, hf]
  split
  · rfl
  · exact List.map_append

end Table

end FingerprintHub
