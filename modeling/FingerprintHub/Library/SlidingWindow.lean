import Mathlib.Algebra.Order.Group.Unbundled.Basic
import Mathlib.Algebra.Order.Monoid.Unbundled.Basic
import Mathlib.Algebra.Order.Monoid.Defs
import Mathlib.Data.Finset.Card
import Mathlib.Data.List.Induction
import Mathlib.Data.List.TakeWhile
import Mathlib.Logic.Function.Basic

/-!
# A sliding-window limiter

A limiter keeps, for each client, the times of its accepted requests in a queue. A request
first drops from the front what is older than the width of the window, and is then accepted
if fewer than `limit` times are left. The queue is pruned only by requests of its own client,
so that it may hold times that no longer count.

`Tracks` relates the queue to all times that were ever accepted: what was dropped is too old
to count, now and later. From it a request is accepted exactly when fewer than `limit` of all
accepted times lie in the window before it (`accepts_iff`), whatever has been dropped. The
rest follows from this count: how many times a closed interval can hold
(`length_interval_le`), that a request that was refused changes nothing (`log_of_refused`),
and that clients do not see each other (`log_filter`).
-/

namespace FingerprintHub
namespace SlidingWindow

/-! ### Requests and answers -/

/-- A request of a client at a time. -/
structure Request (κ τ : Type) where
  client : κ
  time : τ
  deriving DecidableEq

section Logs

variable {κ τ : Type} [DecidableEq κ]

/-- The times of the accepted requests of a client, from the requests and their answers. -/
def accepted (log : List (Request κ τ × Bool)) (c : κ) : List τ :=
  (log.filter (fun e => decide (e.1.client = c) && e.2)).map (fun e => e.1.time)

/-- The accepted times of a log, by its entries, -/
theorem accepted_append (log log' : List (Request κ τ × Bool)) (c : κ) :
    accepted (log ++ log') c = accepted log c ++ accepted log' c := by
  rw [accepted, List.filter_append, List.map_append]
  rfl

/-- one at a time. -/
theorem accepted_singleton (r : Request κ τ) (b : Bool) (c : κ) :
    accepted [(r, b)] c = if r.client = c ∧ b = true then [r.time] else [] := by
  unfold accepted
  by_cases h : r.client = c ∧ b = true
  · rw [if_pos h, List.filter_cons_of_pos (by simpa using h)]
    rfl
  · rw [if_neg h, List.filter_cons_of_neg (by simpa using h)]
    rfl

end Logs

variable {κ τ : Type} [LinearOrder τ]

/-- The requests come in the order of their times, as those of one process do that reads a
monotonic clock. -/
def InOrder (rs : List (Request κ τ)) : Prop := rs.Pairwise (fun r r' => r.time ≤ r'.time)

namespace InOrder

variable {rs rs' : List (Request κ τ)} {r : Request κ τ}

/-- The requests before some are in order. -/
theorem left (h : InOrder (rs ++ rs')) : InOrder rs := (List.pairwise_append.mp h).1

theorem left_concat (h : InOrder (rs ++ r :: rs')) : InOrder (rs ++ [r]) := by
  rw [InOrder, List.append_cons] at h
  exact left h

theorem le_last (h : InOrder (rs ++ [r])) : ∀ q ∈ rs, q.time ≤ r.time :=
  fun q h_q => (List.pairwise_append.mp h).2.2 q h_q r (List.mem_singleton.mpr rfl)

end InOrder

/-! ### One queue -/

/-- In a sorted queue the times below a cutoff stand at the front. -/
theorem dropWhile_lt {l : List τ} (h : l.Pairwise (· ≤ ·)) (cutoff : τ) :
    l.dropWhile (fun t => decide (t < cutoff)) = l.filter (fun t => decide (cutoff ≤ t)) := by
  induction l with
  | nil => rfl
  | cons a l ih =>
    obtain ⟨h_le, h_l⟩ := List.pairwise_cons.mp h
    by_cases h_a : a < cutoff
    · rw [List.dropWhile_cons_of_pos (by simpa using h_a),
        List.filter_cons_of_neg (by simpa using h_a), ih h_l]
    · have h_all : (a :: l).filter (fun t => decide (cutoff ≤ t)) = a :: l := by
        refine List.filter_eq_self.mpr (fun t h_t => decide_eq_true ?_)
        rcases List.mem_cons.mp h_t with rfl | h_t
        · exact not_lt.mp h_a
        · exact (not_lt.mp h_a).trans (h_le t h_t)
      rw [List.dropWhile_cons_of_neg (by simpa using h_a), h_all]

variable [AddCommGroup τ]

/-- A request at `now`: prune the queue from the front, and accept if there is room. -/
def request (width : τ) (limit : ℤ) (window : List τ) (now : τ) : Bool × List τ :=
  let kept := window.dropWhile (fun t => decide (t < now - width))
  if limit ≤ kept.length then (false, kept) else (true, kept ++ [now])

/-- The times that lie in the window before `now`, its ends included: a time that is `width` old
to the moment still counts. -/
def recent (width : τ) (times : List τ) (now : τ) : List τ :=
  times.filter (fun t => decide (now - width ≤ t ∧ t ≤ now))

/-- The queue of a client whose accepted times are given, at a time not before any of them. The
queue is their end; what stood before it was dropped and is older than the window, then and at
every later time. -/
structure Tracks (width : τ) (limit : ℤ) (accepted window : List τ) (now : τ) : Prop where
  sorted : accepted.Pairwise (· ≤ ·)
  le_now : ∀ t ∈ accepted, t ≤ now
  /-- What was dropped is too old to count. -/
  dropped : ∃ old, accepted = old ++ window ∧ ∀ t ∈ old, t < now - width
  length_le : (window.length : ℤ) ≤ max limit 0

namespace Tracks

variable {width : τ} {limit : ℤ} {accepted window : List τ} {now t : τ}

/-- A client that has sent nothing. -/
theorem empty (width : τ) (limit : ℤ) (now : τ) : Tracks width limit [] [] now where
  sorted := List.Pairwise.nil
  le_now := fun _ h => absurd h List.not_mem_nil
  dropped := ⟨[], rfl, fun _ h => absurd h List.not_mem_nil⟩
  length_le := le_max_right limit 0

/-- The queue is sorted, as the end of a sorted list. -/
theorem sorted_window (h : Tracks width limit accepted window now) :
    window.Pairwise (· ≤ ·) := by
  obtain ⟨old, h_eq, -⟩ := h.dropped
  have h_sorted := h.sorted
  rw [h_eq] at h_sorted
  exact (List.pairwise_append.mp h_sorted).2.1

/-- **After pruning the queue holds the accepted times that count.** -/
theorem kept_eq (h : Tracks width limit accepted window now) :
    window.dropWhile (fun t => decide (t < now - width)) = recent width accepted now := by
  obtain ⟨old, h_eq, h_old⟩ := h.dropped
  have h_none : old.filter (fun t => decide (now - width ≤ t ∧ t ≤ now)) = [] := by
    refine List.filter_eq_nil_iff.mpr (fun t h_t h_in => ?_)
    exact absurd (of_decide_eq_true h_in).1 (not_le.mpr (h_old t h_t))
  calc window.dropWhile (fun t => decide (t < now - width))
      = window.filter (fun t => decide (now - width ≤ t)) := dropWhile_lt h.sorted_window _
    _ = window.filter (fun t => decide (now - width ≤ t ∧ t ≤ now)) := by
        refine List.filter_congr (fun t h_t => ?_)
        -- no accepted time is after now
        have h_le : t ≤ now := h.le_now t (by rw [h_eq]; exact List.mem_append_right _ h_t)
        exact decide_eq_decide.mpr ⟨fun h_t' => ⟨h_t', h_le⟩, And.left⟩
    _ = (old ++ window).filter (fun t => decide (now - width ≤ t ∧ t ≤ now)) := by
        rw [List.filter_append, h_none, List.nil_append]
    _ = recent width accepted now := by rw [recent, h_eq]

/-- A request is accepted when fewer times than the limit count. -/
theorem request_iff (h : Tracks width limit accepted window now) :
    (request width limit window now).1 = true ↔
      ((recent width accepted now).length : ℤ) < limit := by
  unfold request
  simp only [h.kept_eq]
  split
  · next h_full => exact ⟨fun h_false => Bool.noConfusion h_false, fun h_lt => by omega⟩
  · next h_room => exact ⟨fun _ => not_le.mp h_room, fun _ => rfl⟩

/-- **A request keeps the queue on track.** -/
theorem request (h : Tracks width limit accepted window now) :
    Tracks width limit
      (accepted ++ if (SlidingWindow.request width limit window now).1 = true then [now] else [])
      (SlidingWindow.request width limit window now).2 now := by
  -- what was dropped before, and what is dropped now
  have h_split : ∃ old, accepted = old ++ window.dropWhile (fun t => decide (t < now - width)) ∧
      ∀ t ∈ old, t < now - width := by
    obtain ⟨old, h_eq, h_old⟩ := h.dropped
    refine ⟨old ++ window.takeWhile (fun t => decide (t < now - width)), ?_, fun t h_t => ?_⟩
    · rw [List.append_assoc, List.takeWhile_append_dropWhile]
      exact h_eq
    · rcases List.mem_append.mp h_t with h_t | h_t
      · exact h_old t h_t
      · have h_lt := List.mem_takeWhile_imp h_t
        exact of_decide_eq_true h_lt
  have h_length : ((window.dropWhile (fun t => decide (t < now - width))).length : ℤ)
      ≤ max limit 0 :=
    le_trans (Int.ofNat_le.mpr (List.dropWhile_sublist _).length_le) h.length_le
  unfold SlidingWindow.request
  simp only
  obtain ⟨old, h_eq, h_old⟩ := h_split
  split
  · rw [if_neg Bool.false_ne_true, List.append_nil]
    exact ⟨h.sorted, h.le_now, ⟨old, h_eq, h_old⟩, h_length⟩
  · next h_room =>
    rw [if_pos rfl]
    refine ⟨?_, fun t h_t => ?_, ⟨old, ?_, h_old⟩, ?_⟩
    · refine List.pairwise_append.mpr ⟨h.sorted, List.pairwise_singleton _ _, fun a h_a b h_b => ?_⟩
      rw [List.mem_singleton.mp h_b]
      exact h.le_now a h_a
    · rcases List.mem_append.mp h_t with h_t | h_t
      · exact h.le_now t h_t
      · exact (List.mem_singleton.mp h_t).le
    · rw [← List.append_assoc, ← h_eq]
    · -- there was room, so that one more is within the limit
      rw [List.length_append, List.length_singleton]
      omega

/-- What is too old stays too old. -/
theorem mono [IsOrderedAddMonoid τ] (h : Tracks width limit accepted window now)
    (h_le : now ≤ t) : Tracks width limit accepted window t where
  sorted := h.sorted
  le_now := fun t' h_t' => (h.le_now t' h_t').trans h_le
  dropped := by
    obtain ⟨old, h_eq, h_old⟩ := h.dropped
    exact ⟨old, h_eq, fun t' h_t' => (h_old t' h_t').trans_le (sub_le_sub_right h_le width)⟩
  length_le := h.length_le

end Tracks

/-! ### Many clients -/

/-- The queues of all clients, and the requests so far with their answers. The log is what the
results are about; the limiter itself keeps none. -/
structure Served (κ τ : Type) where
  windows : κ → List τ
  log : List (Request κ τ × Bool)

variable [DecidableEq κ] (width : τ) (limit : ℤ)

/-- One request is served. -/
def serve (s : Served κ τ) (r : Request κ τ) : Served κ τ where
  windows := Function.update s.windows r.client (request width limit (s.windows r.client) r.time).2
  log := s.log ++ [(r, (request width limit (s.windows r.client) r.time).1)]

/-- Requests are served one after the other, from empty queues. -/
def run (rs : List (Request κ τ)) : Served κ τ :=
  rs.foldl (serve width limit) ⟨fun _ => [], []⟩

/-- Whether a request is accepted after others. -/
def accepts (rs : List (Request κ τ)) (r : Request κ τ) : Bool :=
  (request width limit ((run width limit rs).windows r.client) r.time).1

variable {width limit} {rs : List (Request κ τ)} {r : Request κ τ}

/-- The last request is served last, -/
theorem run_concat (rs : List (Request κ τ)) (r : Request κ τ) :
    run width limit (rs ++ [r]) = serve width limit (run width limit rs) r :=
  List.foldl_append ..

/-- and logged last. -/
theorem log_concat (rs : List (Request κ τ)) (r : Request κ τ) :
    (run width limit (rs ++ [r])).log
      = (run width limit rs).log ++ [(r, accepts width limit rs r)] := by
  rw [run_concat]
  rfl

/-- **Clients do not see each other.** What a client is answered, and its queue, are what they
would be without the requests of others. By induction on the requests, the last one taken off. -/
theorem log_filter (rs : List (Request κ τ)) (c : κ) :
    (run width limit rs).windows c
      = (run width limit (rs.filter (fun r => decide (r.client = c)))).windows c ∧
    (run width limit rs).log.filter (fun e => decide (e.1.client = c))
      = (run width limit (rs.filter (fun r => decide (r.client = c)))).log := by
  induction rs using List.reverseRecOn with
  | nil => exact ⟨rfl, rfl⟩
  | append_singleton rs r ih =>
    obtain ⟨h_windows, h_log⟩ := ih
    rw [List.filter_append, log_concat, List.filter_append, h_log, run_concat]
    by_cases h_c : r.client = c
    · subst h_c
      rw [List.filter_cons_of_pos (by simp), List.filter_cons_of_pos (by simp), List.filter_nil,
        List.filter_nil, log_concat, run_concat, accepts, accepts, h_windows]
      refine ⟨?_, rfl⟩
      simp only [serve, Function.update_self, h_windows]
    · -- a request of another leaves the queue and the answers alone
      rw [List.filter_cons_of_neg (by simpa using h_c),
        List.filter_cons_of_neg (by simpa using h_c), List.filter_nil, List.filter_nil,
        List.append_nil, List.append_nil]
      refine ⟨?_, rfl⟩
      simp only [serve, Function.update_of_ne (Ne.symm h_c)]
      exact h_windows

variable [IsOrderedAddMonoid τ]

/-- **Every queue is on track** after requests in order, whatever requests of other clients lie
between. -/
theorem tracks_run (h : InOrder rs) {now : τ} (h_now : ∀ q ∈ rs, q.time ≤ now) (c : κ) :
    Tracks width limit (accepted (run width limit rs).log c) ((run width limit rs).windows c)
      now := by
  induction rs using List.reverseRecOn generalizing now c with
  | nil => exact Tracks.empty width limit now
  | append_singleton rs r ih =>
    have h_r : r.time ≤ now := h_now r (List.mem_append_right _ (List.mem_singleton.mpr rfl))
    have h_tracks := fun c => ih h.left h.le_last c
    refine Tracks.mono ?_ h_r
    rw [log_concat, accepted_append, accepted_singleton, run_concat]
    by_cases h_c : r.client = c
    · subst h_c
      have h_next := (h_tracks r.client).request
      simp only [serve, Function.update_self, true_and]
      exact h_next
    · -- the queues of other clients are left alone
      rw [if_neg (fun h_and => h_c h_and.1), List.append_nil]
      simp only [serve, Function.update_of_ne (Ne.symm h_c)]
      exact h_tracks c

/-- A queue is sorted and no longer than the limit. -/
theorem windows_bounded (h : InOrder rs) (c : κ) :
    ((run width limit rs).windows c).Pairwise (· ≤ ·) ∧
      (((run width limit rs).windows c).length : ℤ) ≤ max limit 0 := by
  obtain ⟨now, h_now⟩ : ∃ now, ∀ q ∈ rs, q.time ≤ now := by
    cases rs using List.reverseRecOn with
    | nil => exact ⟨0, fun q h_q => absurd h_q List.not_mem_nil⟩
    | append_singleton rs r =>
      refine ⟨r.time, fun q h_q => ?_⟩
      rcases List.mem_append.mp h_q with h_q | h_q
      · exact h.le_last q h_q
      · rw [List.mem_singleton.mp h_q]
  have h_tracks := @tracks_run _ _ _ _ _ width limit rs _ h now h_now c
  exact ⟨h_tracks.sorted_window, h_tracks.length_le⟩

/-- **A request is accepted exactly when fewer accepted requests of its client than the limit lie
in the window before it.** The right side counts in the whole log, and so does not depend on what
the queue has dropped. -/
theorem accepts_iff (h : InOrder (rs ++ [r])) : accepts width limit rs r = true ↔
    ((recent width (accepted (run width limit rs).log r.client) r.time).length : ℤ) < limit :=
  (tracks_run h.left h.le_last r.client).request_iff

/-- **No closed interval of the width holds more accepted requests than the limit.** The last one
in the interval was accepted when fewer than the limit lay in the window before it, and that
window has the rest. -/
theorem length_interval_le (h : InOrder rs) (c : κ) (a : τ) :
    (((accepted (run width limit rs).log c).filter
      (fun t => decide (a ≤ t ∧ t ≤ a + width))).length : ℤ) ≤ max limit 0 := by
  induction rs using List.reverseRecOn with
  | nil => exact le_max_right limit 0
  | append_singleton rs r ih =>
    have h_before := ih h.left
    rw [log_concat, accepted_append, accepted_singleton, List.filter_append]
    by_cases h_new : (r.client = c ∧ accepts width limit rs r = true) ∧
        a ≤ r.time ∧ r.time ≤ a + width
    · -- what the interval holds besides the request counts for the request
      obtain ⟨⟨rfl, h_accepts⟩, h_a, h_end⟩ := h_new
      have h_room := (accepts_iff h).mp h_accepts
      have h_tracks := @tracks_run _ _ _ _ _ width limit rs _ h.left r.time h.le_last r.client
      have h_sub : ((accepted (run width limit rs).log r.client).filter
          (fun t => decide (a ≤ t ∧ t ≤ a + width))).length
          ≤ (recent width (accepted (run width limit rs).log r.client) r.time).length := by
        rw [recent, ← List.countP_eq_length_filter, ← List.countP_eq_length_filter]
        refine List.countP_mono_left (fun t h_t h_in => decide_eq_true ⟨?_, h_tracks.le_now t h_t⟩)
        exact (sub_le_iff_le_add.mpr h_end).trans (of_decide_eq_true h_in).1
      have h_keep : [r.time].filter (fun t => decide (a ≤ t ∧ t ≤ a + width)) = [r.time] :=
        List.filter_cons_of_pos (by simpa using ⟨h_a, h_end⟩)
      rw [if_pos ⟨rfl, h_accepts⟩, h_keep, List.length_append, List.length_singleton]
      omega
    · have h_none : (if r.client = c ∧ accepts width limit rs r = true then [r.time] else []).filter
          (fun t => decide (a ≤ t ∧ t ≤ a + width)) = [] := by
        split
        · next h_and =>
          exact List.filter_cons_of_neg (fun h_in => h_new ⟨h_and, of_decide_eq_true h_in⟩)
        · rfl
      rw [h_none, List.append_nil]
      exact h_before

/-- **A refused request changes nothing.** Without it the requests after it are answered the
same. -/
theorem log_of_refused {rest : List (Request κ τ)} (h : InOrder (rs ++ r :: rest))
    (h_refused : accepts width limit rs r = false) :
    ∃ later, (run width limit (rs ++ r :: rest)).log
        = (run width limit rs).log ++ (r, false) :: later ∧
      (run width limit (rs ++ rest)).log = (run width limit rs).log ++ later := by
  induction rest using List.reverseRecOn with
  | nil =>
    refine ⟨[], ?_, ?_⟩
    · rw [log_concat, h_refused]
    · rw [List.append_nil, List.append_nil]
  | append_singleton rest q ih =>
    have h_with : InOrder ((rs ++ r :: rest) ++ [q]) := by
      rw [List.append_assoc]
      exact h
    have h_without : InOrder ((rs ++ rest) ++ [q]) := by
      refine h_with.sublist (List.Sublist.append_right ?_ _)
      exact List.Sublist.append_left (List.sublist_cons_self r rest) rs
    obtain ⟨later, h_log, h_log'⟩ := ih h_with.left
    -- the refused request is not among the accepted ones, on which the answer depends
    have h_accepted : ∀ c, accepted (run width limit (rs ++ r :: rest)).log c
        = accepted (run width limit (rs ++ rest)).log c := by
      intro c
      have h_cons : accepted ((r, false) :: later) c = accepted later c := by
        rw [← List.singleton_append, accepted_append, accepted_singleton,
          if_neg (fun h_and => Bool.false_ne_true h_and.2), List.nil_append]
      calc accepted (run width limit (rs ++ r :: rest)).log c
          = accepted (run width limit rs).log c ++ accepted ((r, false) :: later) c := by
            rw [h_log, accepted_append]
        _ = accepted (run width limit rs).log c ++ accepted later c := by rw [h_cons]
        _ = accepted (run width limit (rs ++ rest)).log c := by rw [h_log', accepted_append]
    have h_answer : accepts width limit (rs ++ r :: rest) q
        = accepts width limit (rs ++ rest) q := by
      rw [Bool.eq_iff_iff, accepts_iff h_with, accepts_iff h_without, h_accepted]
    refine ⟨later ++ [(q, accepts width limit (rs ++ rest) q)], ?_, ?_⟩
    · calc (run width limit (rs ++ r :: (rest ++ [q]))).log
          = (run width limit (rs ++ r :: rest)).log
              ++ [(q, accepts width limit (rs ++ r :: rest) q)] := by
            rw [← List.cons_append, ← List.append_assoc, log_concat]
        _ = ((run width limit rs).log ++ (r, false) :: later)
              ++ [(q, accepts width limit (rs ++ rest) q)] := by rw [h_log, h_answer]
        _ = _ := List.append_assoc ..
    · rw [← List.append_assoc, log_concat, h_log', List.append_assoc]

omit [IsOrderedAddMonoid τ] in
/-- A request changes the queue of its client. -/
theorem windows_concat (rs : List (Request κ τ)) (r : Request κ τ) :
    (run width limit (rs ++ [r])).windows r.client =
      (request width limit ((run width limit rs).windows r.client) r.time).2 := by
  rw [run_concat]
  exact Function.update_self ..

omit [IsOrderedAddMonoid τ] in
/-- A request leaves the queues of others alone. -/
theorem windows_concat_of_ne (rs : List (Request κ τ)) {r : Request κ τ} {c : κ}
    (h : c ≠ r.client) :
    (run width limit (rs ++ [r])).windows c = (run width limit rs).windows c := by
  rw [run_concat]
  exact Function.update_of_ne h ..

/-! ### Groups of clients -/

omit [LinearOrder τ] [AddCommGroup τ] [IsOrderedAddMonoid τ] in
/-- The accepted requests of a client at certain times. -/
theorem length_filter_accepted (log : List (Request κ τ × Bool)) (c : κ) (p : τ → Bool) :
    ((accepted log c).filter p).length =
      log.countP (fun e => decide (e.1.client = c) && (e.2 && p e.1.time)) := by
  rw [accepted, List.filter_map, List.length_map, List.filter_filter,
    ← List.countP_eq_length_filter]
  refine List.countP_congr (fun e _ => ?_)
  simp only [Function.comp_apply, Bool.and_eq_true]
  tauto

/-- The accepted requests of a group of clients in an interval. -/
def countGroup (log : List (Request κ τ × Bool)) (K : Finset κ) (a b : τ) : ℕ :=
  log.countP (fun e => decide (e.1.client ∈ K) && (e.2 && decide (a ≤ e.1.time ∧ e.1.time ≤ b)))

omit [AddCommGroup τ] [IsOrderedAddMonoid τ] in
/-- One client more adds its own requests. -/
theorem countGroup_insert_le (log : List (Request κ τ × Bool)) (K : Finset κ) (c : κ) (a b : τ) :
    countGroup log (insert c K) a b ≤
      ((accepted log c).filter (fun t => decide (a ≤ t ∧ t ≤ b))).length +
        countGroup log K a b := by
  rw [length_filter_accepted, countGroup, countGroup]
  simp only [Finset.mem_insert]
  induction log with
  | nil => exact Nat.zero_le _
  | cons e log ih =>
    simp only [List.countP_cons]
    by_cases h_e : e.1.client = c
    · simp only [h_e, true_or, decide_true, Bool.true_and]
      omega
    · simp only [h_e, false_or, decide_false, Bool.false_and]
      omega

/-- **No closed interval of the width holds more accepted requests of a group of clients than the
limit for each of them.** -/
theorem countGroup_le (h : InOrder rs) (K : Finset κ) (a : τ) :
    (countGroup (run width limit rs).log K a (a + width) : ℤ) ≤ K.card * max limit 0 := by
  induction K using Finset.induction_on with
  | empty => simp [countGroup]
  | insert c K h_c ih =>
    have h_one := @length_interval_le _ _ _ _ _ width limit rs _ h c a
    have h_insert := countGroup_insert_le (run width limit rs).log K c a (a + width)
    rw [Finset.card_insert_of_notMem h_c]
    calc (countGroup (run width limit rs).log (insert c K) a (a + width) : ℤ)
        ≤ (((accepted (run width limit rs).log c).filter
            (fun t => decide (a ≤ t ∧ t ≤ a + width))).length : ℤ) +
          (countGroup (run width limit rs).log K a (a + width) : ℤ) := by exact_mod_cast h_insert
      _ ≤ max limit 0 + K.card * max limit 0 := Int.add_le_add h_one ih
      _ = ((K.card + 1 : ℕ) : ℤ) * max limit 0 := by
          rw [Int.natCast_add, Int.add_mul, Int.natCast_one, Int.one_mul, Int.add_comm]

omit [IsOrderedAddMonoid τ] in
/-- The log is of the requests. -/
theorem map_log (rs : List (Request κ τ)) : (run width limit rs).log.map Prod.fst = rs := by
  induction rs using List.reverseRecOn with
  | nil => rfl
  | append_singleton rs r ih => rw [log_concat, List.map_append, ih, List.map_singleton]

/-- **A client that sends no more than the limit is not refused.** -/
theorem accepts_of_few (h : InOrder (rs ++ [r]))
    (h_few : (rs.countP (fun q => decide (q.client = r.client)) : ℤ) < limit) :
    accepts width limit rs r = true := by
  refine (accepts_iff h).mpr (lt_of_le_of_lt (Int.ofNat_le.mpr ?_) h_few)
  calc (recent width (accepted (run width limit rs).log r.client) r.time).length
      ≤ (accepted (run width limit rs).log r.client).length := List.length_filter_le _ _
    _ = (run width limit rs).log.countP (fun e => decide (e.1.client = r.client) && e.2) := by
        rw [accepted, List.length_map, ← List.countP_eq_length_filter]
    _ ≤ (run width limit rs).log.countP (fun e => decide (e.1.client = r.client)) :=
        List.countP_mono_left (fun e _ h_e => (Bool.and_eq_true _ _ ▸ h_e).1)
    _ = rs.countP (fun q => decide (q.client = r.client)) := by
        conv_rhs => rw [← @map_log _ _ _ _ _ width limit rs, List.countP_map]
        rfl

/-! ### Clocks -/

/-- A clock that is set otherwise makes no difference: only differences of times are looked at. -/
theorem request_shift (window : List τ) (now d : τ) :
    request width limit (window.map (fun t => t - d)) (now - d) =
      ((request width limit window now).1,
        (request width limit window now).2.map (fun t => t - d)) := by
  have h_old : ((fun t => decide (t < now - d - width)) ∘ fun t => t - d) =
      fun t => decide (t < now - width) := by
    funext t
    refine decide_eq_decide.mpr ?_
    rw [sub_right_comm, sub_lt_sub_iff_right]
  unfold request
  rw [List.dropWhile_map, h_old]
  dsimp only
  rw [List.length_map]
  split
  · rfl
  · rw [List.map_append, List.map_singleton]

end SlidingWindow
end FingerprintHub
