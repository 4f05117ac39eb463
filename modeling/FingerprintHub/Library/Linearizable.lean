import Mathlib.Data.List.Nodup
import Mathlib.Logic.Function.Basic
import Mathlib.Logic.Relation

/-!
# Linearization

Transactions that run side by side, seen by their callers. A `Phase` is what has become
of one of them. A system linearizes when a run of it is explained by a log, a list of
calls and replies made one after the other: each call by itself turns what is committed
before it into what is committed after it, and returns its reply, as a sequential
specification `spec` says.

The log of a run grows at its end only. A call that has returned is in the log, one that
has not begun is not, so that calls that do not overlap are logged in the order they were
made (`Linearizes.realTime`).

`Phase.Moves` lists what a step may do to the phase of the transaction that takes it. A
call that changes nothing may be logged as soon as its reply is settled, at `decide`; any
other is logged when it commits. `linearizes_of_moves` is the rule: a system whose every
step is such a move linearizes.
-/

namespace FingerprintHub

variable {σ Call Reply C : Type}

/-- What has become of a transaction. A `decided` one has settled its reply without a change of
its own; its caller has not been told, and may never be. -/
inductive Phase (Call Reply : Type) where
  | idle
  | running (call : Call)
  | decided (call : Call) (reply : Reply)
  | done (call : Call) (reply : Reply)
  | aborted (call : Call)

/-- The transaction has not been aborted. What an aborted one did is undone, so that its entry is
left out. -/
def Phase.kept : Phase Call Reply → Bool
  | .aborted _ => false
  | _ => true

/-- A call that took effect, and what it returned, by the transaction that made it. -/
structure LogEntry (Call Reply : Type) where
  tx : ℕ
  call : Call
  reply : Reply

/-- A log leads from `c` to `c'` by calls made one after the other, each as the specification
says. -/
inductive Legal (spec : Call → Reply → C → C → Prop) (c : C) :
    List (LogEntry Call Reply) → C → Prop
  | nil : Legal spec c [] c
  | snoc {l : List (LogEntry Call Reply)} {e : LogEntry Call Reply} {c' c'' : C}
      (h : Legal spec c l c') (h_spec : spec e.call e.reply c' c'') :
      Legal spec c (l ++ [e]) c''

/-- A call that returns `reply` changes nothing, wherever it is made. -/
def ReadsOnly (spec : Call → Reply → C → C → Prop) (call : Call) (reply : Reply) : Prop :=
  ∀ c c', spec call reply c c' → c' = c

/-- Entries that change nothing may be left out: the entries after them start where they started.
-/
theorem Legal.filter {spec : Call → Reply → C → C → Prop} {c c' : C}
    {l : List (LogEntry Call Reply)} (h : Legal spec c l c') (p : LogEntry Call Reply → Bool)
    (h_out : ∀ e ∈ l, p e = false → ReadsOnly spec e.call e.reply) :
    Legal spec c (l.filter p) c' := by
  induction h with
  | nil => exact .nil
  | @snoc l e c' c'' _ h_spec ih =>
    have ih := ih (fun e' h_e' => h_out e' (List.mem_append_left _ h_e'))
    rw [List.filter_append]
    cases h_p : p e with
    | true =>
      rw [List.filter_cons_of_pos h_p]
      exact ih.snoc h_spec
    | false =>
      have h_same : c'' = c' :=
        h_out e (List.mem_append_right _ (List.mem_singleton_self e)) h_p c' c'' h_spec
      rw [List.filter_cons_of_neg (by simp [h_p]), List.filter_nil, List.append_nil, h_same]
      exact ih

/-! ### Explaining a run -/

section Explains

variable (spec : Call → Reply → C → C → Prop) (phase : σ → ℕ → Phase Call Reply)
  (committed : σ → C)

/-- A log explains a state that started from `c₀`. It may have entries of calls that have not
returned, as long as their reply is settled. -/
structure Explains (c₀ : C) (x : σ) (l : List (LogEntry Call Reply)) : Prop where
  /-- The calls that were not aborted lead to what is committed. -/
  legal : Legal spec c₀ (l.filter (fun e => (phase x e.tx).kept)) (committed x)
  /-- No call is logged twice. -/
  once : (l.map LogEntry.tx).Nodup
  /-- A call that returned is logged with what it returned. -/
  done : ∀ tx call reply, phase x tx = .done call reply → ⟨tx, call, reply⟩ ∈ l
  /-- A call that is logged has begun, and returns nothing else. -/
  begun : ∀ e ∈ l, phase x e.tx = .decided e.call e.reply ∨ phase x e.tx = .done e.call e.reply ∨
    phase x e.tx = .aborted e.call

/-- The logs of a run of `n` steps through the states `x`. A log is never rewritten: each is a
prefix of the next. -/
structure Linearizes (x : ℕ → σ) (n : ℕ) (log : ℕ → List (LogEntry Call Reply)) : Prop where
  start : log 0 = []
  grows : ∀ k < n, log k <+: log (k + 1)
  explains : ∀ k ≤ n, Explains spec phase committed (committed (x 0)) (x k) (log k)

variable {spec phase committed} {x : ℕ → σ} {n : ℕ} {log : ℕ → List (LogEntry Call Reply)}

/-- Earlier logs are prefixes of later ones. -/
theorem Linearizes.log_le (h : Linearizes spec phase committed x n log) {j k : ℕ} (h_le : j ≤ k)
    (h_n : k ≤ n) : log j <+: log k := by
  obtain ⟨d, rfl⟩ := Nat.exists_eq_add_of_le h_le
  induction d with
  | zero => exact List.prefix_refl _
  | succ d ih =>
    exact (ih (Nat.le_add_right j d) (Nat.le_of_succ_le h_n)).trans (h.grows (j + d) h_n)

/-- **Real time.** A call that returned before another began comes before it in the log: the one
is logged already when the other has not begun, and the log grows at its end. -/
theorem Linearizes.realTime (h : Linearizes spec phase committed x n log) {j k : ℕ}
    (h_le : j ≤ k) (h_n : k ≤ n) {tx : ℕ} {call : Call} {reply : Reply}
    (h_done : phase (x j) tx = .done call reply) {e : LogEntry Call Reply} (h_e : e ∈ log k)
    (h_idle : phase (x j) e.tx = .idle) :
    ∃ l, log k = log j ++ l ∧ ⟨tx, call, reply⟩ ∈ log j ∧ e ∈ l := by
  obtain ⟨l, h_l⟩ := h.log_le h_le h_n
  have h_j := h.explains j (Nat.le_trans h_le h_n)
  refine ⟨l, h_l.symm, h_j.done tx call reply h_done, ?_⟩
  rw [← h_l] at h_e
  refine (List.mem_append.mp h_e).resolve_left (fun h_mem => ?_)
  have h_begun := h_j.begun e h_mem
  rw [h_idle] at h_begun
  rcases h_begun with h_eq | h_eq | h_eq <;> exact absurd h_eq (by simp)

end Explains

/-! ### The rule -/

/-- What a step does to the phase of the transaction that takes it, and to what is committed. Only
`commit` changes what is committed, and the specification has to allow the change at that moment.
-/
inductive Phase.Moves (spec : Call → Reply → C → C → Prop) (c : C) :
    C → Phase Call Reply → Phase Call Reply → Prop
  | begin {call : Call} : Moves spec c c .idle (.running call)
  | work {call : Call} : Moves spec c c (.running call) (.running call)
  | decide {call : Call} {reply : Reply} (h_spec : spec call reply c c)
      (h_reads : ReadsOnly spec call reply) :
      Moves spec c c (.running call) (.decided call reply)
  | answer {call : Call} {reply : Reply} : Moves spec c c (.decided call reply) (.done call reply)
  | commit {call : Call} {reply : Reply} {c' : C} (h_spec : spec call reply c c') :
      Moves spec c c' (.running call) (.done call reply)
  | abort {call : Call} : Moves spec c c (.running call) (.aborted call)
  | drop {call : Call} {reply : Reply} : Moves spec c c (.decided call reply) (.aborted call)

/-- What the log says of a transaction in a phase. An aborted one may be in the log, with a reply
that changes nothing. -/
def Logged (spec : Call → Reply → C → C → Prop) (l : List (LogEntry Call Reply)) (tx : ℕ) :
    Phase Call Reply → Prop
  | .idle | .running _ => ∀ e ∈ l, e.tx ≠ tx
  | .decided call reply => ReadsOnly spec call reply ∧ ⟨tx, call, reply⟩ ∈ l
  | .done call reply => ⟨tx, call, reply⟩ ∈ l
  | .aborted call => ∀ e ∈ l, e.tx = tx → e.call = call ∧ ReadsOnly spec e.call e.reply

/-- A log that keeps up with the phases. This is the invariant behind the rule; `Explains` follows
from it. -/
structure Tracks (spec : Call → Reply → C → C → Prop) (c₀ : C) (phase : ℕ → Phase Call Reply)
    (c : C) (l : List (LogEntry Call Reply)) : Prop where
  legal : Legal spec c₀ l c
  once : (l.map LogEntry.tx).Nodup
  logged : ∀ tx, Logged spec l tx (phase tx)

section Rule

variable {spec : Call → Reply → C → C → Prop} {c₀ c c' : C} {phase phase' : ℕ → Phase Call Reply}
  {l : List (LogEntry Call Reply)} {tx : ℕ}

/-- A transaction is logged once, so that its number tells the entry. -/
theorem eq_of_tx_eq (h : (l.map LogEntry.tx).Nodup) {e e' : LogEntry Call Reply} (h_e : e ∈ l)
    (h_e' : e' ∈ l) (h_tx : e.tx = e'.tx) : e = e' :=
  List.inj_on_of_nodup_map h h_e h_e' h_tx

/-- An entry of another transaction says nothing of this one. -/
theorem Logged.append {e : LogEntry Call Reply} (h_ne : e.tx ≠ tx) {p : Phase Call Reply}
    (h : Logged spec l tx p) : Logged spec (l ++ [e]) tx p := by
  have h_mem : ∀ {e'}, e' ∈ l ++ [e] → e'.tx = tx → e' ∈ l := by
    intro e' h_e' h_tx
    refine (List.mem_append.mp h_e').resolve_right (fun h_last => h_ne ?_)
    rw [← List.mem_singleton.mp h_last, h_tx]
  cases p with
  | idle => exact fun e' h_e' h_tx => h e' (h_mem h_e' h_tx) h_tx
  | running call => exact fun e' h_e' h_tx => h e' (h_mem h_e' h_tx) h_tx
  | decided call reply => exact ⟨h.1, List.mem_append_left _ h.2⟩
  | done call reply => exact List.mem_append_left _ h
  | aborted call => exact fun e' h_e' h_tx => h e' (h_mem h_e' h_tx) h_tx

/-- A call takes effect and is logged. -/
theorem Tracks.snoc (h : Tracks spec c₀ phase c l) {call : Call} {reply : Reply}
    (h_run : phase tx = .running call) (h_spec : spec call reply c c')
    (h_other : ∀ tx', tx' ≠ tx → phase' tx' = phase tx')
    (h_self : Logged spec (l ++ [⟨tx, call, reply⟩]) tx (phase' tx)) :
    Tracks spec c₀ phase' c' (l ++ [⟨tx, call, reply⟩]) := by
  have h_new : ∀ e ∈ l, e.tx ≠ tx := by
    have h_tx := h.logged tx
    rw [h_run] at h_tx
    exact h_tx
  refine ⟨h.legal.snoc h_spec, ?_, fun tx' => ?_⟩
  · rw [List.map_append, List.nodup_append]
    refine ⟨h.once, List.nodup_singleton _, fun t h_t t' h_t' => ?_⟩
    obtain ⟨e, h_e, rfl⟩ := List.mem_map.mp h_t
    obtain rfl := List.mem_singleton.mp h_t'
    exact h_new e h_e
  · by_cases h_tx : tx' = tx
    · subst h_tx
      exact h_self
    · rw [h_other tx' h_tx]
      exact (h.logged tx').append (fun h_eq => h_tx h_eq.symm)

/-- A step that logs nothing. -/
theorem Tracks.same (h : Tracks spec c₀ phase c l)
    (h_other : ∀ tx', tx' ≠ tx → phase' tx' = phase tx') (h_self : Logged spec l tx (phase' tx)) :
    Tracks spec c₀ phase' c l := by
  refine ⟨h.legal, h.once, fun tx' => ?_⟩
  by_cases h_tx : tx' = tx
  · subst h_tx
    exact h_self
  · rw [h_other tx' h_tx]
    exact h.logged tx'

/-- **A move keeps the log up.** It adds an entry at `decide` and at `commit`, and nothing
otherwise. -/
theorem Tracks.move (h : Tracks spec c₀ phase c l)
    (h_other : ∀ tx', tx' ≠ tx → phase' tx' = phase tx')
    (h_move : Phase.Moves spec c c' (phase tx) (phase' tx)) :
    ∃ more, Tracks spec c₀ phase' c' (l ++ more) := by
  have h_tx := h.logged tx
  generalize h_p : phase tx = p at h_move h_tx
  generalize h_p' : phase' tx = p' at h_move
  -- a step that logs nothing extends the log by nothing
  have h_same : Logged spec l tx (phase' tx) → ∃ more, Tracks spec c₀ phase' c (l ++ more) := by
    intro h_self
    refine ⟨[], ?_⟩
    rw [List.append_nil]
    exact h.same h_other h_self
  cases h_move with
  | begin => exact h_same (by rw [h_p']; exact h_tx)
  | work => exact h_same (by rw [h_p']; exact h_tx)
  | @decide call reply h_spec h_reads =>
    refine ⟨_, h.snoc h_p h_spec h_other ?_⟩
    rw [h_p']
    exact ⟨h_reads, List.mem_append_right _ (List.mem_singleton_self _)⟩
  | answer => exact h_same (by rw [h_p']; exact h_tx.2)
  | @commit call reply _ h_spec =>
    refine ⟨_, h.snoc h_p h_spec h_other ?_⟩
    rw [h_p']
    exact List.mem_append_right _ (List.mem_singleton_self _)
  | abort => exact h_same (by rw [h_p']; exact fun e h_e h_eq => absurd h_eq (h_tx e h_e))
  | drop =>
    refine h_same ?_
    rw [h_p']
    intro e h_e h_eq
    -- the one entry it has is the one of its decision
    obtain rfl := eq_of_tx_eq h.once h_e h_tx.2 h_eq
    exact ⟨rfl, h_tx.1⟩

/-- A log that keeps up explains the state: the entries of aborted calls change nothing and are
left out. -/
theorem Tracks.explains {x : σ} {phase : σ → ℕ → Phase Call Reply} {committed : σ → C}
    (h : Tracks spec c₀ (phase x) (committed x) l) : Explains spec phase committed c₀ x l where
  legal := by
    refine h.legal.filter _ (fun e h_e h_out => ?_)
    have h_tx := h.logged e.tx
    cases h_p : phase x e.tx with
    -- what an aborted call has logged changes nothing
    | aborted call =>
      rw [h_p] at h_tx
      exact (h_tx e h_e rfl).2
    | _ =>
      rw [h_p] at h_out
      exact absurd h_out (by simp [Phase.kept])
  once := h.once
  done := by
    intro tx call reply h_done
    have h_tx := h.logged tx
    rw [h_done] at h_tx
    exact h_tx
  begun := by
    intro e h_e
    have h_tx := h.logged e.tx
    cases h_p : phase x e.tx with
    -- who is logged has begun and settled a reply
    | idle => rw [h_p] at h_tx; exact absurd rfl (h_tx e h_e)
    | running call => rw [h_p] at h_tx; exact absurd rfl (h_tx e h_e)
    | decided call reply =>
      rw [h_p] at h_tx
      rw [eq_of_tx_eq h.once h_e h_tx.2 rfl]
      exact Or.inl rfl
    | done call reply =>
      rw [h_p] at h_tx
      rw [eq_of_tx_eq h.once h_e h_tx rfl]
      exact Or.inr (Or.inl rfl)
    | aborted call =>
      rw [h_p] at h_tx
      rw [(h_tx e h_e rfl).1]
      exact Or.inr (Or.inr rfl)

end Rule

/-- **The rule.** Where every step is a move of one transaction, and an invariant `inv` holds
where it is needed, every run linearizes. The logs are built along the run, and `h_idle` says that
it starts with nobody at work. -/
theorem linearizes_of_moves {spec : Call → Reply → C → C → Prop} {phase : σ → ℕ → Phase Call Reply}
    {committed : σ → C} {inv : σ → Prop} {step : σ → σ → Prop}
    (h_inv : ∀ x y, inv x → step x y → inv y)
    (h_moves : ∀ x y, inv x → step x y →
      ∃ tx, (∀ tx', tx' ≠ tx → phase y tx' = phase x tx') ∧
        Phase.Moves spec (committed x) (committed y) (phase x tx) (phase y tx))
    {x : ℕ → σ} (h_start : inv (x 0)) (h_idle : ∀ tx, phase (x 0) tx = .idle) {n : ℕ}
    (h_run : ∀ k < n, step (x k) (x (k + 1))) :
    ∃ log, Linearizes spec phase committed x n log := by
  -- the log is built along the run, and never changed where it has been built
  have h_build : ∀ m ≤ n, inv (x m) ∧ ∃ log : ℕ → List (LogEntry Call Reply), log 0 = [] ∧
      (∀ k < m, log k <+: log (k + 1)) ∧
      ∀ k ≤ m, Tracks spec (committed (x 0)) (phase (x k)) (committed (x k)) (log k) := by
    intro m
    induction m with
    | zero =>
      refine fun _ => ⟨h_start, fun _ => [], rfl, fun k h_k => absurd h_k (Nat.not_lt_zero k), ?_⟩
      intro k h_k
      obtain rfl := Nat.le_zero.mp h_k
      refine ⟨.nil, List.nodup_nil, fun tx => ?_⟩
      rw [h_idle]
      exact fun e h_e => absurd h_e List.not_mem_nil
    | succ m ih =>
      intro h_m
      obtain ⟨h_x, log, h_zero, h_grows, h_tracks⟩ := ih (Nat.le_of_succ_le h_m)
      have h_step := h_run m h_m
      obtain ⟨tx, h_other, h_move⟩ := h_moves _ _ h_x h_step
      obtain ⟨more, h_more⟩ := (h_tracks m (Nat.le_refl m)).move h_other h_move
      have h_old : ∀ k, k ≤ m → Function.update log (m + 1) (log m ++ more) k = log k :=
        fun k h_k => Function.update_of_ne (by omega) _ _
      refine ⟨h_inv _ _ h_x h_step, Function.update log (m + 1) (log m ++ more), ?_, ?_, ?_⟩
      · rw [h_old 0 (Nat.zero_le m)]
        exact h_zero
      · intro k h_k
        rw [h_old k (Nat.le_of_lt_succ h_k)]
        rcases Nat.lt_succ_iff_lt_or_eq.mp h_k with h_lt | rfl
        · rw [h_old (k + 1) h_lt]
          exact h_grows k h_lt
        · rw [Function.update_self]
          exact List.prefix_append _ _
      · intro k h_k
        rcases Nat.le_succ_iff.mp h_k with h_le | rfl
        · rw [h_old k h_le]
          exact h_tracks k h_le
        · rw [Function.update_self]
          exact h_more
  obtain ⟨-, log, h_zero, h_grows, h_tracks⟩ := h_build n (Nat.le_refl n)
  exact ⟨log, h_zero, h_grows, fun k h_k => (h_tracks k h_k).explains⟩

/-- Steps one after the other are a run. -/
theorem exists_run {R : σ → σ → Prop} {a b : σ} (h : Relation.ReflTransGen R a b) :
    ∃ (x : ℕ → σ) (n : ℕ), x 0 = a ∧ x n = b ∧ ∀ k < n, R (x k) (x (k + 1)) := by
  induction h with
  | refl => exact ⟨fun _ => a, 0, rfl, rfl, fun k h_k => absurd h_k (Nat.not_lt_zero k)⟩
  | @tail b c _ h_step ih =>
    obtain ⟨x, n, h_start, h_end, h_run⟩ := ih
    have h_old : ∀ k, k ≤ n → Function.update x (n + 1) c k = x k :=
      fun k h_k => Function.update_of_ne (by omega) _ _
    refine ⟨Function.update x (n + 1) c, n + 1, ?_, Function.update_self _ _ _, fun k h_k => ?_⟩
    · rw [h_old 0 (Nat.zero_le n)]
      exact h_start
    · rw [h_old k (Nat.le_of_lt_succ h_k)]
      rcases Nat.lt_succ_iff_lt_or_eq.mp h_k with h_lt | rfl
      · rw [h_old (k + 1) h_lt]
        exact h_run k h_lt
      · rw [Function.update_self, h_end]
        exact h_step

end FingerprintHub
