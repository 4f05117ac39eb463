import Mathlib.Data.List.Sort

/-!
# Pages of a keyset-ordered scan

A reader that holds a cursor `since` asks for the rows whose key is above it, in
key order, at most `limit` at a time. The page it gets is `pull`: one row more
than the limit is fetched, the extra row only says that there is more, and the
cursor moves to the key of the last row kept.

The lemmas say what a page covers when the keys are pairwise distinct.
`mem_pull_rows` and `pull_complete` together: the page holds exactly the matching
rows between the old and the new cursor. `pull_more_iff`: `more` says whether a
matching row lies above the new cursor.
-/

namespace FingerprintHub
namespace Keyset

/-- Selecting and sorting by what a projection keeps may come after the projection. -/
theorem map_sorted_filter {ρ σ : Type} (f : ρ → σ) {p : ρ → Bool} {q : σ → Bool}
    {le : ρ → ρ → Prop} {le' : σ → σ → Prop} [DecidableRel le] [DecidableRel le']
    (h_p : ∀ a, p a = q (f a)) (h_le : ∀ a b, le a b ↔ le' (f a) (f b)) (l : List ρ) :
    ((l.filter p).insertionSort le).map f = ((l.map f).filter q).insertionSort le' := by
  have h_filter : p = q ∘ f := funext h_p
  rw [List.map_insertionSort le le' f _ (fun a _ b _ => h_le a b), List.filter_map, h_filter]

variable {ρ κ : Type} [LinearOrder κ] (seq : ρ → κ) (p : ρ → Bool)

/-- `SELECT … WHERE seq > since AND p ORDER BY seq ASC`. -/
def scan (rows : List ρ) (since : κ) : List ρ :=
  (rows.filter (fun r => decide (since < seq r) && p r)).insertionSort
    (fun a b => seq a ≤ seq b)

/-- A page of a scan: its rows, the cursor to continue from, and whether more
rows lie above that cursor. -/
structure Page (ρ κ : Type) where
  rows : List ρ
  next : κ
  more : Bool

/-- The first page above `since`: `limit + 1` rows are fetched, `limit` are kept. With no row kept
the cursor stays where it is. -/
def pull (rows : List ρ) (since : κ) (limit : ℕ) : Page ρ κ :=
  let fetched := (scan seq p rows since).take (limit + 1)
  let kept := fetched.take limit
  { rows := kept
    next := (kept.getLast?.map seq).getD since
    more := decide (limit < fetched.length) }

variable {seq p} {rows : List ρ} {since : κ} {limit : ℕ}

/-- A scan has the matching rows above the cursor, -/
theorem mem_scan {r : ρ} : r ∈ scan seq p rows since ↔ r ∈ rows ∧ since < seq r ∧ p r = true := by
  simp [scan, List.mem_insertionSort, List.mem_filter]

/-- in the order of their keys. -/
theorem scan_pairwise : (scan seq p rows since).Pairwise (fun a b => seq a ≤ seq b) := by
  have : Std.Total (fun a b : ρ => seq a ≤ seq b) := ⟨fun a b => le_total (seq a) (seq b)⟩
  have : IsTrans ρ (fun a b : ρ => seq a ≤ seq b) := ⟨fun _ _ _ h h' => le_trans h h'⟩
  exact List.pairwise_insertionSort _ _

/-- With distinct keys a scan is strictly increasing. -/
theorem scan_pairwise_lt (h_distinct : (rows.map seq).Nodup) :
    (scan seq p rows since).Pairwise (fun a b => seq a < seq b) := by
  have h_sub : ((rows.filter (fun r => decide (since < seq r) && p r)).map seq).Nodup :=
    (List.filter_sublist.map seq).nodup h_distinct
  have h_nodup : ((scan seq p rows since).map seq).Nodup :=
    (((List.perm_insertionSort _ _).map seq).nodup_iff).mpr h_sub
  have h_ne : (scan seq p rows since).Pairwise (fun a b => seq a ≠ seq b) :=
    List.pairwise_map.mp h_nodup
  exact (scan_pairwise.and h_ne).imp (fun h => lt_of_le_of_ne h.1 h.2)

/-- The page is a prefix of the scan. -/
theorem pull_rows : (pull seq p rows since limit).rows = (scan seq p rows since).take limit := by
  simp [pull, List.take_take]

/-- There is more when the scan is longer than the page may be. -/
theorem pull_more :
    (pull seq p rows since limit).more = decide (limit < (scan seq p rows since).length) := by
  simp only [pull, List.length_take, decide_eq_decide]
  omega

/-- The new cursor is the key of the last row of the page, or the old cursor
when the page is empty. -/
theorem pull_next :
    (pull seq p rows since limit).next
      = ((pull seq p rows since limit).rows.getLast?.map seq).getD since := rfl

/-- A row of the page is one of the scan. -/
theorem mem_scan_of_mem_pull {r : ρ} (h : r ∈ (pull seq p rows since limit).rows) :
    r ∈ scan seq p rows since := by
  rw [pull_rows] at h
  exact List.mem_of_mem_take h

/-- Every row of a page lies above the old cursor and at most at the new one. -/
theorem mem_pull_rows {r : ρ} (h : r ∈ (pull seq p rows since limit).rows) :
    r ∈ rows ∧ p r = true ∧ since < seq r ∧ seq r ≤ (pull seq p rows since limit).next := by
  obtain ⟨h_mem, h_lt, h_p⟩ := mem_scan.mp (mem_scan_of_mem_pull h)
  refine ⟨h_mem, h_p, h_lt, ?_⟩
  rw [pull_next]
  have h_sorted : (pull seq p rows since limit).rows.Pairwise (fun a b => seq a ≤ seq b) := by
    rw [pull_rows]
    exact scan_pairwise.sublist (List.take_sublist _ _)
  generalize (pull seq p rows since limit).rows = l at h h_sorted ⊢
  -- the last row of a sorted list bounds all of its rows
  rcases List.eq_nil_or_concat' l with rfl | ⟨l', last, rfl⟩
  · exact absurd h List.not_mem_nil
  · rw [List.getLast?_append, List.getLast?_singleton, Option.some_or, Option.map_some,
      Option.getD_some]
    rcases List.mem_append.mp h with h | h
    · exact (List.pairwise_append.mp h_sorted).2.2 r h last (List.mem_singleton.mpr rfl)
    · rw [List.mem_singleton.mp h]

/-- The cursor never moves back. -/
theorem since_le_next : since ≤ (pull seq p rows since limit).next := by
  rw [pull_next]
  cases h : (pull seq p rows since limit).rows.getLast? with
  | none => exact le_refl _
  | some last => exact (mem_pull_rows (List.mem_of_getLast? h)).2.2.1.le

/-- The new cursor is the old one or the key of a row of the page. -/
theorem next_eq_or_mem : (pull seq p rows since limit).next = since ∨
    ∃ r ∈ (pull seq p rows since limit).rows, seq r = (pull seq p rows since limit).next := by
  rw [pull_next]
  cases h : (pull seq p rows since limit).rows.getLast? with
  | none => exact Or.inl rfl
  | some last => exact Or.inr ⟨last, List.mem_of_getLast? h, rfl⟩

/-- A row of the scan that is cut off lies strictly above the new cursor. -/
theorem next_lt_of_mem_drop (h_distinct : (rows.map seq).Nodup) {r : ρ}
    (h : r ∈ (scan seq p rows since).drop limit) :
    (pull seq p rows since limit).next < seq r := by
  have h_split : ((scan seq p rows since).take limit ++ (scan seq p rows since).drop limit).Pairwise
      (fun a b => seq a < seq b) := by
    rw [List.take_append_drop]
    exact scan_pairwise_lt h_distinct
  rw [pull_next, pull_rows]
  cases hl : ((scan seq p rows since).take limit).getLast? with
  | none => exact (mem_scan.mp (List.mem_of_mem_drop h)).2.1
  | some last => exact (List.pairwise_append.mp h_split).2.2 last (List.mem_of_getLast? hl) r h

/-- **A page is complete up to its cursor.** With distinct keys, every matching
row above the old cursor and at most at the new one is in the page. -/
theorem pull_complete (h_distinct : (rows.map seq).Nodup) {r : ρ} (h_mem : r ∈ rows)
    (h_p : p r = true) (h_lt : since < seq r)
    (h_le : seq r ≤ (pull seq p rows since limit).next) :
    r ∈ (pull seq p rows since limit).rows := by
  have h_scan : r ∈ scan seq p rows since := mem_scan.mpr ⟨h_mem, h_lt, h_p⟩
  rw [← List.take_append_drop limit (scan seq p rows since)] at h_scan
  rcases List.mem_append.mp h_scan with h | h
  · rw [pull_rows]; exact h
  · exact absurd (next_lt_of_mem_drop h_distinct h) (not_lt.mpr h_le)

/-- **`more` is exact.** With distinct keys, a page announces more exactly when a
matching row lies above its cursor. -/
theorem pull_more_iff (h_distinct : (rows.map seq).Nodup) :
    (pull seq p rows since limit).more = true ↔
      ∃ r ∈ rows, p r = true ∧ (pull seq p rows since limit).next < seq r := by
  rw [pull_more, decide_eq_true_eq]
  constructor
  · intro h_len
    obtain ⟨r, hr⟩ := List.exists_mem_of_length_pos
      (l := (scan seq p rows since).drop limit) (by rw [List.length_drop]; omega)
    obtain ⟨h_mem, -, h_p⟩ := mem_scan.mp (List.mem_of_mem_drop hr)
    exact ⟨r, h_mem, h_p, next_lt_of_mem_drop h_distinct hr⟩
  · rintro ⟨r, h_mem, h_p, h_lt⟩
    by_contra h_len
    -- nothing is cut off, so the row is in the page and below the cursor
    have h_in : r ∈ (pull seq p rows since limit).rows := by
      rw [pull_rows, List.take_of_length_le (not_lt.mp h_len)]
      exact mem_scan.mpr ⟨h_mem, lt_of_le_of_lt since_le_next h_lt, h_p⟩
    exact absurd (mem_pull_rows h_in).2.2.2 (not_le.mpr h_lt)

/-- In a strictly increasing list fewer than `n` elements lie below one of the
first `n`. -/
theorem countP_lt_of_mem_take {l : List ρ} (h_sorted : l.Pairwise (fun a b => seq a < seq b))
    {n : ℕ} {r : ρ} (h : r ∈ l.take n) : l.countP (fun q => decide (seq q < seq r)) < n := by
  induction l generalizing n with
  | nil => simp at h
  | cons a l ih =>
    obtain ⟨h_first, h_rest⟩ := List.pairwise_cons.mp h_sorted
    cases n with
    | zero => simp at h
    | succ n =>
      rw [List.countP_cons]
      rcases List.mem_cons.mp h with rfl | h
      · -- nothing lies below the first element
        have h_zero : l.countP (fun q => decide (seq q < seq r)) = 0 :=
          List.countP_eq_zero.mpr (fun q hq => by simpa using (h_first q hq).le)
        simp [h_zero]
      · have h_lt := ih h_rest h
        split <;> omega

/-- **A page is short.** With distinct keys, fewer than `limit` matching rows lie
between the old cursor and a row of the page. -/
theorem countP_lt_of_mem_pull (h_distinct : (rows.map seq).Nodup) {r : ρ}
    (h : r ∈ (pull seq p rows since limit).rows) :
    rows.countP (fun q => decide (seq q < seq r) && (decide (since < seq q) && p q)) < limit := by
  rw [pull_rows] at h
  calc rows.countP (fun q => decide (seq q < seq r) && (decide (since < seq q) && p q))
      = (rows.filter (fun q => decide (since < seq q) && p q)).countP
          (fun q => decide (seq q < seq r)) := (List.countP_filter).symm
    _ = (scan seq p rows since).countP (fun q => decide (seq q < seq r)) :=
        ((List.perm_insertionSort _ _).countP_eq _).symm
    _ < limit := countP_lt_of_mem_take (scan_pairwise_lt h_distinct) h

/-! ### Page after page -/

/-- A page and the scan from its cursor are the scan. -/
theorem scan_eq_append (h_distinct : (rows.map seq).Nodup) :
    scan seq p rows since
      = (pull seq p rows since limit).rows
        ++ scan seq p rows (pull seq p rows since limit).next := by
  have : Std.Irrefl (fun a b : ρ => seq a < seq b) := ⟨fun a => lt_irrefl (seq a)⟩
  have : Std.Antisymm (fun a b : ρ => seq a < seq b) := ⟨fun a b h h' => absurd h (lt_asymm h')⟩
  have h_page : (pull seq p rows since limit).rows.Pairwise (fun a b => seq a < seq b) := by
    rw [pull_rows]
    exact (scan_pairwise_lt h_distinct).sublist (List.take_sublist _ _)
  have h_append : ((pull seq p rows since limit).rows
      ++ scan seq p rows (pull seq p rows since limit).next).Pairwise
      (fun a b => seq a < seq b) := by
    refine List.pairwise_append.mpr ⟨h_page, scan_pairwise_lt h_distinct, fun a ha b hb => ?_⟩
    exact lt_of_le_of_lt (mem_pull_rows ha).2.2.2 (mem_scan.mp hb).2.1
  -- two strictly increasing lists with the same elements are equal
  refine List.Pairwise.eq_of_mem_iff (scan_pairwise_lt h_distinct) h_append (fun r => ?_)
  rw [List.mem_append, mem_scan, mem_scan]
  constructor
  · rintro ⟨h_mem, h_lt, h_p⟩
    -- a row up to the new cursor is on the page
    by_cases h_le : seq r ≤ (pull seq p rows since limit).next
    · exact Or.inl (pull_complete h_distinct h_mem h_p h_lt h_le)
    · exact Or.inr ⟨h_mem, not_le.mp h_le, h_p⟩
  · rintro (h | ⟨h_mem, h_lt, h_p⟩)
    · obtain ⟨h_mem, h_p, h_lt, -⟩ := mem_pull_rows h
      exact ⟨h_mem, h_lt, h_p⟩
    · exact ⟨h_mem, lt_of_le_of_lt since_le_next h_lt, h_p⟩

/-- Nothing is left to scan after a page that announces no more. -/
theorem scan_next_eq_nil (h_distinct : (rows.map seq).Nodup)
    (h_last : (pull seq p rows since limit).more = false) :
    scan seq p rows (pull seq p rows since limit).next = [] := by
  refine List.eq_nil_iff_forall_not_mem.mpr (fun r hr => ?_)
  obtain ⟨h_mem, h_lt, h_p⟩ := mem_scan.mp hr
  have h_more := (pull_more_iff h_distinct).mpr ⟨r, h_mem, h_p, h_lt⟩
  exact absurd (h_more.symm.trans h_last) (by simp)

variable (seq p rows since) in
/-- The cursor after `n` pulls, each from where the one before it ended. -/
def cursor (limits : ℕ → ℕ) : ℕ → κ
  | 0 => since
  | n + 1 => (pull seq p rows (cursor limits n) (limits n)).next

/-- The first pages and the scan from the cursor after them are the scan. -/
theorem scan_eq_pages (h_distinct : (rows.map seq).Nodup) (limits : ℕ → ℕ) (n : ℕ) :
    scan seq p rows since
      = (List.range n).flatMap
          (fun k => (pull seq p rows (cursor seq p rows since limits k) (limits k)).rows)
        ++ scan seq p rows (cursor seq p rows since limits n) := by
  induction n with
  | zero => rfl
  | succ n ih =>
    calc scan seq p rows since
        = _ ++ scan seq p rows (cursor seq p rows since limits n) := ih
      _ = _ ++ ((pull seq p rows (cursor seq p rows since limits n) (limits n)).rows
            ++ scan seq p rows (cursor seq p rows since limits (n + 1))) :=
          congrArg _ (scan_eq_append h_distinct)
      _ = _ := by
          rw [List.range_succ, List.flatMap_append, List.flatMap_singleton, List.append_assoc]

/-- **Pulling ends.** With limits of at least one, some page announces no more: every page that
does takes a row off the scan. -/
theorem exists_last_page (h_distinct : (rows.map seq).Nodup) {limits : ℕ → ℕ}
    (h_limits : ∀ k, 1 ≤ limits k) :
    ∃ n, (pull seq p rows (cursor seq p rows since limits n) (limits n)).more = false := by
  by_contra h_never
  push Not at h_never
  -- every page that announces more is full, so `n` of them hold at least `n` rows
  have h_length : ∀ n, n ≤ ((List.range n).flatMap (fun k =>
      (pull seq p rows (cursor seq p rows since limits k) (limits k)).rows)).length := by
    intro n
    induction n with
    | zero => exact Nat.zero_le _
    | succ n ih =>
      have h_more := Bool.eq_true_of_not_eq_false (h_never n)
      rw [pull_more, decide_eq_true_eq] at h_more
      have h_full : 1 ≤ (pull seq p rows (cursor seq p rows since limits n)
          (limits n)).rows.length := by
        rw [pull_rows, List.length_take]
        have h_one := h_limits n
        omega
      rw [List.range_succ, List.flatMap_append, List.flatMap_singleton, List.length_append]
      omega
  have h_scan := congrArg List.length
    (@scan_eq_pages _ _ _ seq p rows since h_distinct limits ((scan seq p rows since).length + 1))
  rw [List.length_append] at h_scan
  have h_le := h_length ((scan seq p rows since).length + 1)
  omega

end Keyset
end FingerprintHub
