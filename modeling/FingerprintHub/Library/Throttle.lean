import Mathlib.Algebra.Order.Group.Unbundled.Basic
import Mathlib.Algebra.Order.Monoid.Unbundled.Basic
import Mathlib.Algebra.Order.Monoid.Unbundled.Pow
import Mathlib.Algebra.Order.Monoid.Defs
import Mathlib.Data.List.Induction
import Mathlib.Logic.Function.Basic

/-!
# A throttle

A throttle lets something of a key through when the last of this key was let through a `period`
ago or longer, and keeps for each key when that was. A key of which nothing was let through counts
from `start`.

What is let through of a key is a `period` apart (`Keeps.spaced`), so that an interval holds few
of it (`length_le_of_spaced`); and what is not let through comes less than a `period` after
something that was (`exists_recent`).
-/

namespace FingerprintHub
namespace Throttle

variable {κ τ : Type}

/-- The times of a key, in the order in which they came. -/
def times [DecidableEq κ] (xs : List (κ × τ)) (k : κ) : List τ :=
  (xs.filter (fun x => decide (x.1 = k))).map Prod.snd

section Times

variable [DecidableEq κ] {xs ys : List (κ × τ)} {k : κ} {t : τ}

/-- Times of a key, by what comes, -/
theorem times_append : times (xs ++ ys) k = times xs k ++ times ys k := by
  rw [times, List.filter_append, List.map_append]
  rfl

/-- one at a time. -/
theorem times_singleton {x : κ × τ} : times [x] k = if x.1 = k then [x.2] else [] := by
  unfold times
  by_cases h : x.1 = k
  · rw [if_pos h, List.filter_cons_of_pos (by simpa using h)]
    rfl
  · rw [if_neg h, List.filter_cons_of_neg (by simpa using h)]
    rfl

theorem mem_times : t ∈ times xs k ↔ (k, t) ∈ xs := by
  simp only [times, List.mem_map, List.mem_filter, decide_eq_true_eq]
  constructor
  · rintro ⟨x, ⟨h_x, rfl⟩, rfl⟩
    exact h_x
  · exact fun h => ⟨(k, t), ⟨h, rfl⟩, rfl⟩

end Times

/-- When each key was last let through, and all that was. -/
structure State (κ τ : Type) where
  marked : κ → τ
  passed : List (κ × τ)

variable [DecidableEq κ] [LinearOrder τ] [AddCommGroup τ] {period start : τ}

/-- Something of a key comes at a time. It is let through, and the key marked, or nothing changes.
-/
def offer (period : τ) (s : State κ τ) (x : κ × τ) : State κ τ :=
  if period ≤ x.2 - s.marked x.1 then ⟨Function.update s.marked x.1 x.2, s.passed ++ [x]⟩ else s

/-- All that comes, from the start. -/
def run (period start : τ) (xs : List (κ × τ)) : State κ τ :=
  xs.foldl (offer period) ⟨fun _ => start, []⟩

/-- The last that comes is offered last. -/
theorem run_concat (xs : List (κ × τ)) (x : κ × τ) :
    run period start (xs ++ [x]) = offer period (run period start xs) x := by
  rw [run, List.foldl_append]
  rfl

/-- What was let through stays. -/
theorem passed_mono (xs ys : List (κ × τ)) {x : κ × τ} (h : x ∈ (run period start xs).passed) :
    x ∈ (run period start (xs ++ ys)).passed := by
  induction ys using List.reverseRecOn with
  | nil => rwa [List.append_nil]
  | append_singleton ys y ih =>
    rw [← List.append_assoc, run_concat, offer]
    split
    · exact List.mem_append_left _ ih
    · exact ih

/-! ### What is let through -/

/-- The times are a period apart, each from all that come later. -/
def Spaced (period : τ) (ts : List τ) : Prop := ts.Pairwise (fun t t' => t + period ≤ t')

/-- An interval holds few times that are a period apart: between `n` of them lie `n - 1` periods.
-/
theorem length_le_of_spaced [IsOrderedAddMonoid τ] {ts : List τ} {a b : τ}
    (h_spaced : Spaced period ts) (h_in : ∀ t ∈ ts, a ≤ t ∧ t ≤ b) (h_ne : ts ≠ []) :
    (ts.length - 1) • period ≤ b - a := by
  induction ts generalizing a with
  | nil => exact absurd rfl h_ne
  | cons t ts ih =>
    obtain ⟨h_a, h_b⟩ := h_in t List.mem_cons_self
    obtain ⟨h_first, h_rest⟩ := List.pairwise_cons.mp h_spaced
    cases ts with
    | nil => simpa using h_a.trans h_b
    | cons t' ts =>
      have h_ts : ∀ u ∈ t' :: ts, t + period ≤ u ∧ u ≤ b :=
        fun u h_u => ⟨h_first u h_u, (h_in u (List.mem_cons_of_mem _ h_u)).2⟩
      have h_le := ih h_rest h_ts (List.cons_ne_nil _ _)
      calc ((t :: t' :: ts).length - 1) • period
          = ((t' :: ts).length - 1) • period + period := by
            simp [succ_nsmul]
        _ ≤ b - (t + period) + period := add_le_add_left h_le period
        _ = b - t := by rw [sub_add_eq_sub_sub, sub_add_cancel]
        _ ≤ b - a := sub_le_sub_left h_a b

/-- What the throttle keeps of what came: what it lets through of a key is spaced, the mark is the
last of it, and it is among what came. -/
structure Keeps (period start : τ) (xs : List (κ × τ)) (s : State κ τ) : Prop where
  spaced : ∀ k, Spaced period (times s.passed k)
  marked : ∀ k, s.marked k = ((times s.passed k).getLast?).getD start
  sublist : s.passed.Sublist xs

section Keeps

variable [IsOrderedAddMonoid τ] {xs : List (κ × τ)} {s : State κ τ} {x : κ × τ} {k : κ} {t : τ}

/-- Nothing was let through after the mark. -/
theorem Keeps.le_marked (h : Keeps period start xs s) (h_period : 0 ≤ period)
    (h_t : t ∈ times s.passed k) : t ≤ s.marked k := by
  have h_spaced := h.spaced k
  rw [h.marked k]
  obtain ⟨ts, last, h_eq⟩ : ∃ ts last, times s.passed k = ts ++ [last] :=
    ⟨_, _, (List.dropLast_concat_getLast (List.ne_nil_of_mem h_t)).symm⟩
  rw [h_eq] at h_t h_spaced ⊢
  rw [List.getLast?_concat, Option.getD_some]
  rcases List.mem_append.mp h_t with h_t | h_t
  · have h_le := (List.pairwise_append.mp h_spaced).2.2 t h_t last (List.mem_singleton_self _)
    exact (le_add_of_nonneg_right h_period).trans h_le
  · exact (List.mem_singleton.mp h_t).le

/-- What comes keeps this: it is let through a period after the mark, and nothing was let through
after the mark. -/
theorem Keeps.offer (h : Keeps period start xs s) (h_period : 0 ≤ period) (x : κ × τ) :
    Keeps period start (xs ++ [x]) (offer period s x) := by
  unfold Throttle.offer
  split
  · next h_due =>
    refine ⟨fun k => ?_, fun k => ?_, h.sublist.append (List.Sublist.refl _)⟩
    · show Spaced period (times (s.passed ++ [x]) k)
      rw [times_append, times_singleton]
      split
      · next h_k =>
        subst h_k
        refine List.pairwise_append.mpr ⟨h.spaced _, List.pairwise_singleton _ _, ?_⟩
        intro t h_t t' h_t'
        obtain rfl := List.mem_singleton.mp h_t'
        -- it comes a period after the mark
        calc t + period ≤ s.marked x.1 + period := add_le_add_left (h.le_marked h_period h_t) period
          _ = period + s.marked x.1 := add_comm _ _
          _ ≤ x.2 := le_sub_iff_add_le.mp h_due
      · rw [List.append_nil]
        exact h.spaced k
    · show Function.update s.marked x.1 x.2 k = _
      rw [times_append, times_singleton]
      by_cases h_k : x.1 = k
      · subst h_k
        simp
      · rw [if_neg h_k, List.append_nil, Function.update_of_ne (Ne.symm h_k)]
        exact h.marked k
  · exact ⟨h.spaced, h.marked, h.sublist.trans (List.sublist_append_left _ _)⟩

/-- So it holds after all that comes. -/
theorem Keeps.run (h_period : 0 ≤ period) (xs : List (κ × τ)) :
    Keeps period start xs (run period start xs) := by
  induction xs using List.reverseRecOn with
  | nil => exact ⟨fun _ => List.Pairwise.nil, fun _ => rfl, List.Sublist.refl _⟩
  | append_singleton xs x ih =>
    rw [run_concat]
    exact ih.offer h_period x

/-- **What comes a period after the start** is let through, or comes less than a period after
something of its key that was. -/
theorem exists_recent (h_period : 0 < period) (xs : List (κ × τ)) {x : κ × τ}
    (h_start : start + period ≤ x.2) :
    ∃ t, (x.1, t) ∈ (run period start (xs ++ [x])).passed ∧ x.2 < t + period := by
  rw [run_concat, Throttle.offer]
  split
  · exact ⟨x.2, List.mem_append_right _ (List.mem_singleton_self _),
      lt_add_of_pos_right _ h_period⟩
  · next h_early =>
    have h_keeps : Keeps period start xs (Throttle.run period start xs) := .run h_period.le xs
    have h_marked := h_keeps.marked x.1
    cases h_last : (times (Throttle.run period start xs).passed x.1).getLast? with
    | none =>
      -- nothing of the key was let through, and it counts from the start
      rw [h_last, Option.getD_none] at h_marked
      rw [h_marked, le_sub_iff_add_le, add_comm] at h_early
      exact absurd h_start h_early
    | some t =>
      rw [h_last, Option.getD_some] at h_marked
      rw [h_marked, le_sub_iff_add_le, add_comm, not_le] at h_early
      exact ⟨t, mem_times.mp (List.mem_of_getLast? h_last), h_early⟩

end Keeps

end Throttle
end FingerprintHub
