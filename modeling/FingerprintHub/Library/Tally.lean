import Mathlib.Algebra.BigOperators.Group.List.Lemmas
import Mathlib.Algebra.Order.BigOperators.Group.List
import Mathlib.Data.Int.Basic
import Mathlib.Algebra.Ring.Int.Defs
import Mathlib.Tactic.Ring
import FingerprintHub.Library.Table

/-!
# Sums over a table

`SUM`, `COUNT … FILTER` and `GROUP BY` on the rows of a table. A sum is an integer, so that
what a statement adds to it can be said as a difference; a count is the sum of ones.

A statement changes a sum by what it inserts, deletes or changes (`tally_insert`, `tally_delete`,
`tally_update_key`), and the counts of the groups add up to the count of all (`sum_groupCount`).
-/

namespace FingerprintHub
namespace Table

variable {ρ κ : Type} {key : ρ → κ}

/-- `SELECT SUM(w)`. -/
def tally (t : Table key) (w : ρ → ℤ) : ℤ := (t.rows.map w).sum

/-- `SELECT COUNT(*) FILTER (WHERE p)`. -/
def count (t : Table key) (p : ρ → Bool) : ℕ := t.rows.countP p

/-- `SELECT g, COUNT(*) WHERE p GROUP BY g`. In which order the groups come is not specified, and
the lemmas say nothing of it. -/
def groupCount {γ : Type} [DecidableEq γ] (t : Table key) (p : ρ → Bool) (g : ρ → γ) :
    List (γ × ℕ) :=
  (((t.select p).map g).dedup).map (fun c => (c, t.count (fun r => p r && decide (g r = c))))

/-- One for a row that counts. -/
def one (p : ρ → Bool) (r : ρ) : ℤ := if p r then 1 else 0

@[simp] theorem tally_empty (w : ρ → ℤ) : (empty key).tally w = 0 := rfl

/-- A count is a sum. -/
theorem count_eq_tally (t : Table key) (p : ρ → Bool) : (t.count p : ℤ) = t.tally (one p) := by
  unfold count tally
  induction t.rows with
  | nil => rfl
  | cons r rows ih =>
    rw [List.countP_cons, List.map_cons, List.sum_cons, ← ih]
    unfold one
    split
    · push_cast
      ring
    · push_cast
      ring

/-- The sum of two columns, -/
theorem tally_add (t : Table key) (w w' : ρ → ℤ) :
    t.tally (fun r => w r + w' r) = t.tally w + t.tally w' := List.sum_map_add

/-- and a sum by its values on the rows there are. -/
theorem tally_congr {t : Table key} {w w' : ρ → ℤ} (h : ∀ r ∈ t.rows, w r = w' r) :
    t.tally w = t.tally w' := congrArg List.sum (List.map_congr_left h)

/-- An update that the sum does not see. -/
theorem tally_update_of_eq (t : Table key) (p : ρ → Bool) {f : ρ → ρ}
    (hf : ∀ r, key (f r) = key r) {w : ρ → ℤ} (h : ∀ r, p r = true → w (f r) = w r) :
    (t.update p f hf).tally w = t.tally w := by
  unfold tally update
  rw [List.map_map]
  refine congrArg List.sum (List.map_congr_left (fun r _ => ?_))
  simp only [Function.comp_apply]
  split
  · next h_p => exact h r h_p
  · rfl

/-- What a deletion takes. -/
theorem tally_delete (t : Table key) (p : ρ → Bool) (w : ρ → ℤ) :
    (t.delete p).tally w = t.tally w - ((t.select p).map w).sum := by
  show ((t.rows.filter (fun r => !p r)).map w).sum =
    (t.rows.map w).sum - ((t.rows.filter p).map w).sum
  induction t.rows with
  | nil => rfl
  | cons r rows ih =>
    rw [List.filter_cons, List.filter_cons]
    cases h : p r with
    | false =>
      simp only [Bool.not_false, if_true, if_false, List.map_cons, List.sum_cons, ih,
        Bool.false_eq_true]
      ring
    | true =>
      simp only [Bool.not_true, if_true, if_false, List.map_cons, List.sum_cons, ih,
        Bool.false_eq_true]
      ring

variable [DecidableEq κ]

/-- What an update of one row adds: the difference it makes on that row. The key is unique, so
that there is no other. -/
theorem tally_update_key {t : Table key} {k : κ} {r : ρ} (h : t.get? k = some r) {f : ρ → ρ}
    (hf : ∀ r, key (f r) = key r) (w : ρ → ℤ) :
    (t.update (fun r => key r = k) f hf).tally w = t.tally w + (w (f r) - w r) := by
  obtain ⟨h_mem, rfl⟩ := t.get?_eq_some.mp h
  obtain ⟨before, after, h_rows⟩ := List.append_of_mem h_mem
  have h_nodup := t.nodup
  rw [h_rows, List.map_append, List.map_cons, List.nodup_middle, List.nodup_cons,
    ← List.map_append] at h_nodup
  -- no other row has the key
  have h_other : ∀ l : List ρ, (∀ r' ∈ l, r' ∈ before ++ after) →
      (l.map (fun r' => if decide (key r' = key r) then f r' else r')).map w = l.map w := by
    intro l h_l
    rw [List.map_map]
    refine List.map_congr_left (fun r' h_r' => ?_)
    have h_ne : key r' ≠ key r := fun h_eq =>
      h_nodup.1 (h_eq ▸ List.mem_map_of_mem (h_l r' h_r'))
    simp [h_ne]
  show ((t.rows.map (fun r' => if decide (key r' = key r) then f r' else r')).map w).sum =
    (t.rows.map w).sum + (w (f r) - w r)
  rw [h_rows, List.map_append, List.map_cons, List.map_append, List.map_cons,
    h_other before (fun r' h_r' => List.mem_append_left _ h_r'),
    h_other after (fun r' h_r' => List.mem_append_right _ h_r'), List.map_append, List.map_cons]
  simp only [List.sum_append, List.sum_cons, decide_true, if_true]
  ring

/-- What an insertion adds. -/
theorem tally_insert {t : Table key} {r : ρ} (h : t.get? (key r) = none) (w : ρ → ℤ) :
    (t.insert r).tally w = t.tally w + w r := by
  unfold tally
  rw [rows_insert_of_none h, List.map_append, List.sum_append, List.map_singleton,
    List.sum_singleton]

section Groups

variable {γ : Type} [DecidableEq γ] (t : Table key) (p : ρ → Bool) (g : ρ → γ)

omit [DecidableEq κ] in
/-- A group is there exactly when a row is in it, with the number of its rows, -/
theorem mem_groupCount {c : γ} {n : ℕ} :
    (c, n) ∈ t.groupCount p g ↔ 0 < n ∧ n = t.count (fun r => p r && decide (g r = c)) := by
  unfold groupCount
  rw [List.mem_map]
  constructor
  · rintro ⟨c', h_c', h_eq⟩
    obtain ⟨rfl, rfl⟩ := Prod.mk.inj h_eq
    refine ⟨List.countP_pos_iff.mpr ?_, rfl⟩
    obtain ⟨r, h_r, h_g⟩ := List.mem_map.mp (List.mem_dedup.mp h_c')
    obtain ⟨h_r, h_p⟩ := List.mem_filter.mp h_r
    exact ⟨r, h_r, by simp [h_p, h_g]⟩
  · rintro ⟨h_pos, rfl⟩
    obtain ⟨r, h_r, h_and⟩ := List.countP_pos_iff.mp h_pos
    simp only [Bool.and_eq_true, decide_eq_true_eq] at h_and
    refine ⟨c, List.mem_dedup.mpr (List.mem_map.mpr ⟨r, ?_, h_and.2⟩), rfl⟩
    exact List.mem_filter.mpr ⟨h_r, h_and.1⟩

omit [DecidableEq κ] in
/-- and only once. -/
theorem nodup_groupCount : ((t.groupCount p g).map Prod.fst).Nodup := by
  unfold groupCount
  rw [List.map_map]
  have h_id : (Prod.fst ∘ fun c => (c, t.count (fun r => p r && decide (g r = c)))) = id := rfl
  rw [h_id, List.map_id]
  exact List.nodup_dedup _

omit [DecidableEq κ] in
/-- **The groups add up to the whole**: every row that counts is in one of them. -/
theorem sum_groupCount : ((t.groupCount p g).map Prod.snd).sum = t.count p := by
  have h_count : ∀ c, t.count (fun r => p r && decide (g r = c)) =
      ((t.select p).map g).count c := by
    intro c
    rw [count, select, List.count, List.countP_map, List.countP_filter]
    refine List.countP_congr (fun r _ => ?_)
    simp [and_comm]
  have h_length : t.count p = ((t.select p).map g).length := by
    rw [List.length_map, count, List.countP_eq_length_filter]
    rfl
  unfold groupCount
  rw [List.map_map, h_length]
  have h_snd : (Prod.snd ∘ fun c => (c, t.count (fun r => p r && decide (g r = c)))) =
      fun c => ((t.select p).map g).count c := funext h_count
  rw [h_snd]
  exact List.sum_map_count_dedup_eq_length _

end Groups

end Table
end FingerprintHub
