import FingerprintHub.Concurrent.Commits

/-!
# The calls linearize

In a run whose contributions are exclusive and undisturbed the statements of all calls
interleave, and yet each call takes effect at one moment: a call that changes something
when it commits, and one that does not at the statement that settles its reply. So the
replies given, and what is committed, are those of the same calls made one after the
other (`calls_linearize`).

Two mixes of calls need no condition on the run: hits, flags and deletions, and
contributions, hits and flags on a store without tombstones.
-/

namespace FingerprintHub
namespace Concurrent

/-! ### Every state is orderly -/

/-- A step of a run of contributions that are exclusive and undisturbed, without retention. Both
conditions are on the state before the step and what it commits. -/
structure OrderlyStep (sys sys' : System) : Prop where
  step : Step NoRetention sys sys'
  exclusive : Exclusive sys sys'
  undisturbed : Undisturbed sys sys'

/-- At the start every invariant holds, of any reachable store. -/
theorem Orderly.quiet {s : Store} (h_s : s.Reachable) : Orderly (.quiet s) where
  lock := .quiet h_s.wf
  tidy := .quiet h_s
  flags := .quiet s
  hits := .quiet h_s.wf
  seq := .quiet h_s.wf
  answers := ⟨fun _ _ _ _ _ _ h_run => Activity.noConfusion h_run,
    fun _ _ _ _ h_done => Activity.noConfusion h_done⟩
  drafted := .quiet h_s.wf

/-- Each invariant has a step lemma of its own; together they carry one another. -/
theorem Orderly.step {sys sys' : System} (h : Orderly sys) (h_step : OrderlyStep sys sys') :
    Orderly sys' := by
  obtain ⟨h_st, h_exclusive, h_undisturbed⟩ := h_step
  -- no retention is started, and a call stays the one it was
  have h_calls : ∀ tx s, sys'.activity tx = .running s → NoRetention s.call := by
    intro tx s h_run'
    have h_moves := h_st.moves tx
    generalize h_a : sys.activity tx = act at h_moves
    generalize sys'.activity tx = act' at h_moves h_run'
    cases h_moves with
    | other _ _ => exact h.flags.calls tx s (h_a.trans h_run')
    | @begin op h_allowed _ =>
      obtain rfl := Activity.running.inj h_run'
      rw [Session.start_call]
      exact h_allowed
    | @exec s₀ _ h_exec =>
      obtain rfl := Activity.running.inj h_run'
      rw [h_exec.call_eq]
      exact h.flags.calls tx s₀ h_a
    | commit _ => exact Activity.noConfusion h_run'
    | abort _ => exact Activity.noConfusion h_run'
  -- now each invariant by its own lemma
  exact {
    lock := h.lock.step h_st
    tidy := h.tidy.step h.lock h.flags h_st h_exclusive
    flags := h.flags.step h_calls h_st
    hits := h.hits.step h_calls h_st
    seq := h.seq.step h.lock h_st
    answers := h.answers.step h.lock h_undisturbed h_st
    drafted := h.drafted.step h.lock h.tidy h.flags h.hits h_st }

/-! ### One call -/

/-- A hit of a row that is gone changes nothing, -/
theorem reportHit_of_gone (enc : EncryptText) (a : HitArgs) (s : Store)
    (h_gone : s.Gone a.fingerprintId) :
    (Op.reportHit enc a).reply s = .reportHit none ∧ (Op.reportHit enc a).apply s = s := by
  rcases s.reportHit_cases enc a with ⟨-, h⟩ | ⟨r, h_r, h_live, -⟩
  · exact ⟨congrArg Reply.reportHit (congrArg Prod.fst h), congrArg Prod.snd h⟩
  · exact absurd (h_gone r h_r) h_live

/-- nor does a flag, -/
theorem flag_of_gone (enc : EncryptText) (a : FlagArgs) (s : Store)
    (h_gone : s.Gone a.fingerprintId) :
    (Op.flag enc a).reply s = .flag none ∧ (Op.flag enc a).apply s = s := by
  rcases s.flag_cases enc a with ⟨-, h⟩ | ⟨r, h_r, h_active, -, -⟩ | ⟨r, h_r, h_live, -, -⟩
  · exact ⟨congrArg Reply.flag (congrArg Prod.fst h), congrArg Prod.snd h⟩
  · exact Status.noConfusion (h_active.symm.trans (h_gone r h_r))
  · exact absurd (h_gone r h_r) h_live

/-- nor a deletion. -/
theorem softDelete_of_gone (id nowMs : ℤ) (s : Store) (h_gone : s.Gone id) :
    (Op.softDelete id nowMs).reply s = .softDelete false ∧
      (Op.softDelete id nowMs).apply s = s := by
  rcases s.softDelete_cases id nowMs with ⟨-, h⟩ | ⟨r, h_r, h_live, -⟩
  · exact ⟨congrArg Reply.softDelete (congrArg Prod.fst h), congrArg Prod.snd h⟩
  · exact absurd (h_gone r h_r) h_live

section Call

variable {sys : System} {tx : ℕ}

/-- **A transaction that has written commits its call**: what it reads is what the call by itself
makes of what is committed. The cases are what the transaction owns on the row it is aimed at, one
lemma above for each. -/
theorem Orderly.commit (h : Orderly sys) {op : Op} {reply : Reply} {existing : Option ℤ}
    {drawn : Option ℕ} (h_run : sys.activity tx = .running ⟨op, .finish reply, existing, drawn⟩)
    {i : ℤ} (h_target : (⟨op, .finish reply, existing, drawn⟩ : Session).target = some i) :
    Atomically op reply sys.db.contents (sys.db.seen tx) := by
  obtain ⟨⟨holder, draft⟩, h_l, rfl, h_owns⟩ :=
    h.lock.owns_of_held h_run (h.lock.holds tx _ i h_run h_target)
  have h_call := h.flags.calls _ _ h_run
  generalize h_row : sys.db.row i = o at h_owns
  -- what the lock on the target was taken for
  cases h_owns with
  | insert h_eq =>
    obtain rfl := h_eq
    exact h.commit_insert h_run h_row h_l
  | resurrect h_eq =>
    obtain rfl := h_eq
    exact h.commit_resurrect h_run h_row h_l
  | hitGone _ _ => exact absurd h_target (by simp [Session.target])
  | hit h_i h_live h_n h_eq =>
    obtain rfl := h_i
    obtain rfl := h_n
    obtain rfl := h_eq
    exact h.commit_hit h_run h_row h_live h_l
  | flagGone _ _ => exact absurd h_target (by simp [Session.target])
  | hide h_i h_active h_threshold h_eq =>
    obtain rfl := h_i
    obtain rfl := h_eq
    exact h.commit_hide h_run h_row h_active h_threshold h_l
  | keep h_i h_live h_status h_keep h_eq =>
    obtain rfl := h_i
    obtain rfl := h_eq
    exact h.commit_keep h_run h_row h_live h_status h_keep h_l
  | delete h_live h_eq =>
    obtain rfl := h_eq
    exact h.commit_delete h_run h_row h_live h_l
  | purge _ _ => exact h_call.elim
  | anonymize _ _ _ => exact h_call.elim

/-- A call that is aimed at a row that is gone is answered as by itself at that moment. -/
theorem Orderly.refuse (h : Orderly sys) {op : Op} {reply : Reply} {i : ℤ}
    (h_refuse : ∀ s : Store, s.Gone i → op.reply s = reply ∧ op.apply s = s)
    (h_rows : ∀ r, sys.db.row i = some r → r.status = .deleted) :
    Atomically op reply sys.db.contents sys.db.contents := by
  obtain ⟨s, h_c, h_unused, -, -, -, -⟩ := h.store h.drawable 0
  obtain ⟨h_reply, h_same⟩ :=
    h_refuse s (fun r h_r => h_rows r ((row_of_contents h_c i).symm.trans h_r))
  exact ⟨s, h_c, h_unused, h_reply, by rw [h_same]; exact h_c⟩

/-- A contribution that finds a live row with its key gives the answer it would give by itself at
that moment, though it may have begun on other rows. -/
theorem Orderly.decide_found (h : Orderly sys) {enc : EncryptText} {a : ContributeArgs}
    {r : Fingerprint} (h_find : sys.db.snapshot.findOwned a.owned = some r) (h_live : r.Live) :
    Atomically (.contribute enc a) (.contribute (some (.existing r.id r.status), false))
      sys.db.contents sys.db.contents := by
  obtain ⟨s, h_c, h_unused, -, -, -, -⟩ := h.store h.drawable 0
  obtain ⟨h_r, h_key⟩ := h.lock.row_of_findOwned h_find
  -- the call finds the same row
  have h_same : ∀ r', s.findOwned a.owned = some r' → r' = r := by
    intro r' h_r'
    obtain ⟨h_row', h_key'⟩ := Store.row_of_findOwned h_r'
    rw [row_of_contents h_c] at h_row'
    have h_id := h.id_of_owned (Or.inl h_r) h_row' (h_key'.trans h_key.symm)
    rw [h_id, h_r] at h_row'
    exact (Option.some.inj h_row').symm
  refine ⟨s, h_c, h_unused, ?_⟩
  rcases s.contribute_cases enc a with
    ⟨r', h_r', -, h_eq⟩ | ⟨r', h_r', h_deleted, -⟩ | ⟨h_none, -⟩
  · obtain rfl := h_same r' h_r'
    refine ⟨congrArg Reply.contribute (congrArg Prod.fst h_eq), ?_⟩
    rw [Op.apply, h_eq]
    exact h_c
  · exact absurd h_deleted (h_same r' h_r' ▸ h_live)
  · exact absurd h_key (Store.owned_ne_of_findOwned h_none ((row_of_contents h_c r.id).trans h_r))

/-- **A reply that needs no commit** is the one its call would give at that moment, and it changes
nothing. So the call may be logged when the statement runs, whatever happens before its
transaction ends. -/
theorem Orderly.decide (h : Orderly sys) {s s' : Session} {db : Db} {reply : Reply}
    (h_run : sys.activity tx = .running s) (h_exec : Exec tx sys.db s db s')
    (h_pc : s'.pc = .finish reply) (h_target : s'.target = none) :
    Atomically s.call reply sys.db.contents sys.db.contents ∧
      ReadsOnly Atomically s.call reply := by
  have h_none : ∀ {i}, sys.db.row i = none →
      ∀ r, sys.db.row i = some r → r.status = .deleted :=
    fun h_row r h_r => absurd (h_row.symm.trans h_r) (by simp)
  have h_some : ∀ {i r}, sys.db.row i = some r → r.status = .deleted →
      ∀ r', sys.db.row i = some r' → r'.status = .deleted :=
    fun h_row h_deleted r' h_r' => Option.some.inj (h_row.symm.trans h_r') ▸ h_deleted
  cases h_exec with
  | selectLive h_find h_live =>
    obtain rfl := Pc.finish.inj h_pc
    exact ⟨h.decide_found h_find h_live, contribute_readsOnly _ _ _ _⟩
  | reselectSome h_find =>
    obtain rfl := Pc.finish.inj h_pc
    -- it looks again because of a row it ran into, and that row is live
    obtain ⟨h_r, h_key⟩ := h.lock.row_of_findOwned h_find
    have h_live := (h.answers.expects tx _ _ _ _ _ h_run).1 _ _ h_r h_key
    exact ⟨h.decide_found h_find h_live, contribute_readsOnly _ _ _ _⟩
  -- after a conflict there is a row
  | reselectNone h_find =>
    obtain ⟨i, r, h_r, h_key⟩ := (h.answers.expects tx _ _ _ _ _ h_run).2
    exact absurd h_key (h.lock.owned_ne_of_findOwned h_find h_r)
  -- the tombstone has not been purged
  | resurrectMiss h_row =>
    obtain ⟨r, h_r, -⟩ := h.answers.expects tx _ _ _ _ _ h_run
    exact absurd (h_row.symm.trans h_r) (by simp)
  | hitMissing h_row =>
    obtain rfl := Pc.finish.inj h_pc
    exact ⟨h.refuse (reportHit_of_gone _ _) (h_none h_row), reportHit_readsOnly _ _⟩
  | hitDeleted h_free h_row h_deleted =>
    obtain rfl := Pc.finish.inj h_pc
    exact ⟨h.refuse (reportHit_of_gone _ _) (h_some h_row h_deleted), reportHit_readsOnly _ _⟩
  | flagMissing h_row =>
    obtain rfl := Pc.finish.inj h_pc
    exact ⟨h.refuse (flag_of_gone _ _) (h_none h_row), flag_readsOnly _ _⟩
  | flagDeleted h_free h_row h_deleted =>
    obtain rfl := Pc.finish.inj h_pc
    exact ⟨h.refuse (flag_of_gone _ _) (h_some h_row h_deleted), flag_readsOnly _ _⟩
  | deleteMiss h_rows =>
    obtain rfl := Pc.finish.inj h_pc
    exact ⟨h.refuse (softDelete_of_gone _ _) h_rows, softDelete_readsOnly _ _⟩
  | refuse _ => exact (h.flags.calls tx _ h_run).elim
  | anonymizeDone => exact (h.flags.calls tx _ h_run).elim
  -- the other statements are not the last ones, or have written
  | _ => first | exact Pc.noConfusion h_pc | exact absurd h_target (by simp [Session.target])

/-- A transaction that has not written commits nothing: it may hold a row it has found deleted,
and no draft. -/
theorem Orderly.commit_nothing (h : Orderly sys) {op : Op} {reply : Reply} {existing : Option ℤ}
    {drawn : Option ℕ} (h_run : sys.activity tx = .running ⟨op, .finish reply, existing, drawn⟩)
    (h_target : (⟨op, .finish reply, existing, drawn⟩ : Session).target = none) :
    sys.db.seen tx = sys.db.contents := by
  have h_call := h.flags.calls _ _ h_run
  -- what it holds it would hold as a target
  have h_held : ∀ i, (sys.db.rows.cell i).Held tx →
      (sys.db.rows.cell i).view tx = sys.db.row i := by
    intro i h_held
    refine (h.lock.view_of_held h_run h_held (fun o d h_owns => ?_)).1
    cases h_owns with
    | hitGone _ _ => rfl
    | flagGone _ _ => rfl
    | purge _ _ => exact h_call.elim
    | anonymize _ _ _ => exact h_call.elim
    | _ => exact absurd h_target (by simp [Session.target])
  ext k : 2
  · by_cases h_k : (sys.db.rows.cell k).Held tx
    · exact h_held k h_k
    · exact Cell.view_of_not_held h_k
  · refine Cell.view_of_not_held (fun h_k => ?_)
    obtain ⟨enc, a, pc, h_s, h_pc⟩ := h.hits.owns_of_held h_run h_k
    obtain ⟨rfl, rfl, -, -⟩ := Session.mk.inj h_s
    cases reply with
    | reportHit result =>
      cases result with
      | none => exact h_pc
      | some n => exact absurd h_target (by simp [Session.target])
    | _ => exact h_pc
  · refine Cell.view_of_not_held ?_
    rintro ⟨l, h_l, h_holder⟩
    have h_owns := h.flags.owns_of_lock h_run h_l h_holder
    generalize (sys.db.flags.cell k).committed = o at h_owns
    generalize l.draft = d at h_owns
    cases h_owns with
    | insert _ _ h_pc =>
      cases reply with
      | flag result =>
        cases result with
        | none => exact h_pc
        | some result => exact absurd h_target (by simp [Session.target])
      | _ => exact h_pc
    | clear _ =>
      -- it has rewritten the tombstone whose flags it has cleared
      obtain ⟨l', -, -, h_own⟩ :=
        h.lock.owns_of_held h_run (h.tidy.holds tx _ _ _ _ _ h_run)
      generalize sys.db.row _ = o' at h_own
      generalize l'.draft = d' at h_own
      cases h_own with
      | resurrect _ => exact absurd h_target (by simp [Session.target])

end Call

/-! ### One step -/

/-- A transaction as its caller sees it. Its reply is decided when it is at its end and has
nothing to commit; one that has something to commit may still be aborted without effect. -/
def Activity.phase : Activity → Phase Op Reply
  | .idle => .idle
  | .running ⟨op, .finish reply, existing, drawn⟩ =>
    if (⟨op, .finish reply, existing, drawn⟩ : Session).target = none then .decided op reply
    else .running op
  | .running s => .running s.call
  | .done op reply => .done op reply
  | .aborted op => .aborted op

/-- Before its end a transaction is running, -/
theorem Activity.phase_running {s : Session} (h : ∀ reply, s.pc ≠ .finish reply) :
    (Activity.running s).phase = .running s.call := by
  obtain ⟨call, pc, existing, drawn⟩ := s
  cases pc with
  | finish reply => exact absurd rfl (h reply)
  | _ => rfl

/-- from its first statement on. -/
theorem Activity.phase_start (op : Op) : (Activity.running (.start op)).phase = .running op := by
  cases op <;> rfl

/-- A statement comes before the end. -/
theorem Exec.not_finish {tx : ℕ} {db db' : Db} {s s' : Session} (h : Exec tx db s db' s')
    (reply : Reply) : s.pc ≠ .finish reply := by
  cases h <;> exact nofun

section Moves

variable {sys sys' : System} {tx : ℕ}

/-- A statement commits nothing, in no table. -/
theorem Orderly.contents_exec (h : Orderly sys) {s s' : Session} {db : Db}
    (h_run : sys.activity tx = .running s) (h_exec : Exec tx sys.db s db s') :
    db.contents = sys.db.contents := by
  ext k : 2
  · exact h.lock.row_exec h_run h_exec k
  · exact (h.hits.move h_run h_exec k).committed
  · exact (h.flags.move h_run h_exec k).committed

/-- What a statement makes of the phase: the reply is decided, or the call goes on. -/
theorem Orderly.moves_exec (h : Orderly sys) {s s' : Session} {db : Db}
    (h_run : sys.activity tx = .running s) (h_exec : Exec tx sys.db s db s') :
    Phase.Moves Atomically sys.db.contents sys.db.contents (Activity.running s).phase
      (Activity.running s').phase := by
  have h_call := h_exec.call_eq
  rw [Activity.phase_running h_exec.not_finish]
  obtain ⟨call, pc, existing, drawn⟩ := s'
  obtain rfl : call = s.call := h_call
  cases pc with
  | finish reply =>
    simp only [Activity.phase]
    split
    · next h_target =>
      obtain ⟨h_spec, h_reads⟩ := h.decide h_run h_exec rfl h_target
      exact .decide h_spec h_reads
    · exact .work
  | _ => exact .work

/-- **Every step is a move of one transaction**, with the call by itself as the specification.
This is what `linearizes_of_moves` asks of a system. -/
theorem Orderly.moves (h : Orderly sys) (h_step : Step NoRetention sys sys') :
    ∃ tx, (∀ tx', tx' ≠ tx → (sys'.activity tx').phase = (sys.activity tx').phase) ∧
      Phase.Moves Atomically sys.db.contents sys'.db.contents (sys.activity tx).phase
        (sys'.activity tx).phase := by
  -- a step changes the phase of its own transaction only
  have h_other : ∀ {tx tx' : ℕ} {a : Activity}, tx' ≠ tx →
      (Function.update sys.activity tx a tx').phase = (sys.activity tx').phase :=
    fun h_ne => by rw [Function.update_of_ne h_ne]
  cases h_step with
  | @begin tx op h_idle _ =>
    refine ⟨tx, fun tx' => h_other, ?_⟩
    simp only [Function.update_self, h_idle]
    rw [Activity.phase_start]
    exact .begin
  | @exec tx s s' db h_run h_exec =>
    refine ⟨tx, fun tx' => h_other, ?_⟩
    simp only [Function.update_self, h_run]
    rw [h.contents_exec h_run h_exec]
    exact h.moves_exec h_run h_exec
  | @commit tx op reply existing drawn h_run =>
    refine ⟨tx, fun tx' => h_other, ?_⟩
    -- only retention does more at its end than commit
    have h_end : endOf tx op sys.db = sys.db.commit tx := by
      have h_call := h.flags.calls tx _ h_run
      cases op with
      | applyRetention _ _ _ => exact h_call.elim
      | _ => rfl
    simp only [Function.update_self, h_run, h_end, Db.contents_commit, Activity.phase]
    -- with a target the call takes effect now, and without one it did so before
    split
    · next h_target =>
      rw [h.commit_nothing h_run h_target]
      exact .answer
    · next h_target =>
      obtain ⟨i, h_i⟩ := Option.ne_none_iff_exists'.mp h_target
      exact .commit (h.commit h_run h_i)
  | @abort tx s h_run =>
    refine ⟨tx, fun tx' => h_other, ?_⟩
    simp only [Function.update_self, h_run, Db.contents_rollback]
    obtain ⟨call, pc, existing, drawn⟩ := s
    cases pc with
    | finish reply =>
      simp only [Activity.phase]
      split
      · exact .drop
      · exact .abort
    | _ => exact .abort

end Moves

/-! ### Whole runs -/

/-- What the callers of a run are told, and what it commits, is explained by a log of calls made
one after the other, in an order that real time does not contradict. `x` is the run, state by
state, and `log k` the log after `k` steps. -/
structure CallsLinearize (x : ℕ → System) (n : ℕ) (log : ℕ → List (LogEntry Op Reply)) :
    Prop where
  linearizes : Linearizes Atomically (fun sys tx => (sys.activity tx).phase)
    (fun sys => sys.db.contents) x n log
  /-- A call that returned before another began comes before it. -/
  realTime : ∀ j k tx op reply e, j ≤ k → k ≤ n → (x j).activity tx = .done op reply →
    e ∈ log k → (x j).activity e.tx = .idle →
    ∃ l, log k = log j ++ l ∧ ⟨tx, op, reply⟩ ∈ log j ∧ e ∈ l

/-- **Contributions, hits, flags and deletions linearize** in every run in which contributions are
exclusive and undisturbed, from every reachable store.

`log n` is the order: it has each call that returned once, with what it returned, and the
functions of `api/fingerprint_store.py` made one after the other in this order return the same and
leave the same rows, hits and flags. Of ids and sequence numbers only that they are new is said,
since calls that run at the same time draw from the same sequences. -/
theorem calls_linearize (s : Store) (h_s : s.Reachable) (x : ℕ → System) (n : ℕ)
    (h_start : x 0 = .quiet s) (h_run : ∀ k < n, OrderlyStep (x k) (x (k + 1))) :
    ∃ log, CallsLinearize x n log := by
  have h_inv : ∀ sys sys', Orderly sys → OrderlyStep sys sys' → Orderly sys' :=
    fun _ _ h h_step => h.step h_step
  have h_quiet : Orderly (x 0) := h_start ▸ .quiet h_s
  have h_idle : ∀ tx, ((x 0).activity tx).phase = .idle := by
    rw [h_start]
    exact fun _ => rfl
  obtain ⟨log, h_log⟩ := linearizes_of_moves h_inv (fun _ _ h h_step => h.moves h_step.step)
    h_quiet h_idle h_run
  refine ⟨log, h_log, fun j k tx op reply e h_le h_n h_done h_e h_e_idle => ?_⟩
  exact h_log.realTime h_le h_n (congrArg Activity.phase h_done) h_e
    (congrArg Activity.phase h_e_idle)

/-- A step of one transaction alone, that leaves the rows or commits, disturbs nobody. -/
theorem undisturbed_alone {db : Db} {act : ℕ → Activity} (tx : ℕ) {y : System}
    (h_alone : ∀ tx' s, tx' ≠ tx → act tx' ≠ .running s)
    (h_row : (∀ i, y.db.row i = db.row i) ∨ ∃ s reply, act tx = .running s ∧ s.pc = .finish reply) :
    Undisturbed ⟨db, act⟩ y := by
  -- who is running is this transaction, and if it is at its end it relies on nothing
  have h_tx : ∀ tx' s, act tx' = .running s → (∀ reply, s.pc ≠ .finish reply) →
      ∀ i, y.db.row i = db.row i := by
    intro tx' s h_run h_pc
    obtain rfl : tx' = tx := by
      by_contra h_ne
      exact h_alone tx' s h_ne h_run
    rcases h_row with h_same | ⟨s', reply, h_run', h_end⟩
    · exact h_same
    · obtain rfl := Activity.running.inj (h_run.symm.trans h_run')
      exact absurd h_end (h_pc reply)
  refine ⟨fun tx' enc a pc i drawn h_run h_pc h_some => ?_,
    fun tx' enc a pc drawn h_run h_pc i r r' h_r _ h_live h_r' => ?_⟩
  · rw [h_tx tx' _ h_run h_pc i]
    exact h_some
  · have h_not : ∀ reply, pc ≠ .finish reply := by
      rintro reply rfl
      rcases h_pc with h_eq | ⟨_, h_eq⟩ <;> exact Pc.noConfusion h_eq
    rw [h_tx tx' _ h_run h_not i] at h_r'
    exact Option.some.inj (h_r.symm.trans h_r') ▸ h_live

/-- A run of one transaction after another, of which only `tx` may be running. It is how runs are
built for which every step has to be orderly. -/
structure Solo (s : Store) (tx : ℕ) (sys : System) : Prop where
  run : Relation.ReflTransGen OrderlyStep (.quiet s) sys
  orderly : Orderly sys
  alone : ∀ tx' c, tx' ≠ tx → sys.activity tx' ≠ .running c

section Solo

variable {s : Store} {tx : ℕ} {db : Db} {act : ℕ → Activity}

theorem Solo.quiet (h_s : s.Reachable) : Solo s tx (.quiet s) :=
  ⟨.refl, .quiet h_s, fun _ _ _ => nofun⟩

/-- One step more of the transaction that may be running. -/
theorem Solo.step (h : Solo s tx ⟨db, act⟩) {db' : Db} {a : Activity}
    (h_step : OrderlyStep ⟨db, act⟩ ⟨db', Function.update act tx a⟩) :
    Solo s tx ⟨db', Function.update act tx a⟩ where
  run := h.run.tail h_step
  orderly := h.orderly.step h_step
  alone := by
    intro tx' c h_ne
    show Function.update act tx a tx' ≠ _
    rw [Function.update_of_ne h_ne]
    exact h.alone tx' c h_ne

theorem Solo.begin (h : Solo s tx ⟨db, act⟩) (op : Op) (h_idle : act tx = .idle)
    (h_op : NoRetention op) : Solo s tx ⟨db, Function.update act tx (.running (.start op))⟩ :=
  h.step ⟨@Step.begin _ ⟨db, act⟩ tx op h_idle h_op, exclusive_running,
    undisturbed_alone tx h.alone (Or.inl fun _ => rfl)⟩

theorem Solo.exec (h : Solo s tx ⟨db, act⟩) {c c' : Session} {db' : Db}
    (h_run : act tx = .running c) (h_exec : Exec tx db c db' c') :
    Solo s tx ⟨db', Function.update act tx (.running c')⟩ :=
  h.step ⟨@Step.exec _ ⟨db, act⟩ tx c c' db' h_run h_exec, exclusive_running,
    undisturbed_alone tx h.alone (Or.inl (h.orderly.lock.row_exec h_run h_exec))⟩

theorem Solo.commit (h : Solo s tx ⟨db, act⟩) {op : Op} {reply : Reply} {existing : Option ℤ}
    {drawn : Option ℕ} (h_run : act tx = .running ⟨op, .finish reply, existing, drawn⟩) :
    Solo s tx ⟨endOf tx op db, Function.update act tx (.done op reply)⟩ :=
  h.step ⟨@Step.commit _ ⟨db, act⟩ tx op reply existing drawn h_run, exclusive_alone tx h.alone,
    undisturbed_alone tx h.alone (Or.inr ⟨_, reply, h_run, rfl⟩)⟩

end Solo

/-- A resurrection alone, up to its commit: there is a run to which the theorem applies, and it
revives a tombstone. -/
theorem calls_linearize_alone : ∃ x n log, x 0 = .quiet sampleTombstone ∧
    (∃ row, (x n).activity 1 = .done sampleCall (.contribute (some (.written row), true))) ∧
    CallsLinearize x n log := by
  have h_s : sampleTombstone.Reachable := ⟨_, rfl⟩
  have h : Solo sampleTombstone 1 ⟨.ofStore sampleTombstone, fun _ => .idle⟩ := .quiet h_s
  have h := h.begin sampleCall rfl trivial
  have h := h.exec rfl (.selectTombstone rfl rfl)
  have h := h.exec rfl (.clearFlags .start)
  have h := h.exec rfl .clearFlagsDone
  have h := h.exec rfl (.resurrectEval rfl nofun)
  have h := h.exec rfl (.resurrectWrite rfl rfl)
  have h := h.commit rfl
  obtain ⟨x, n, h_start, h_end, h_run⟩ := exists_run h.run
  obtain ⟨log, h_log⟩ := calls_linearize sampleTombstone h_s x n h_start h_run
  exact ⟨x, n, log, h_start, ⟨_, by rw [h_end]; rfl⟩, h_log⟩

/-- A run, state by state. -/
theorem reaches_of_run {allowed : Op → Prop} {s : Store} {x : ℕ → System} {n : ℕ}
    (h_start : x 0 = .quiet s) (h_run : ∀ k < n, Step allowed (x k) (x (k + 1))) {k : ℕ}
    (h_k : k ≤ n) : Reaches allowed s (x k) := by
  induction k with
  | zero => rw [h_start]; exact .quiet
  | succ k ih => exact (ih (Nat.le_of_succ_le h_k)).step (h_run k h_k)

/-! ### Mixes of calls that need no condition -/

/-- The calls that do not contribute, retention apart. -/
def HitsFlagsDeletes : Op → Prop
  | .reportHit _ _ | .flag _ _ | .softDelete _ _ => True
  | _ => False

theorem HitsFlagsDeletes.noRetention {op : Op} (h : HitsFlagsDeletes op) : NoRetention op := by
  cases op <;> trivial

/-- Without contributions every step is orderly: both conditions are about contributions. -/
theorem Reaches.orderlyStep {s : Store} {sys sys' : System}
    (h : Reaches HitsFlagsDeletes s sys) (h_step : Step HitsFlagsDeletes sys sys') :
    OrderlyStep sys sys' where
  step := h_step.mono (fun _ => HitsFlagsDeletes.noRetention)
  exclusive := fun tx _ _ _ _ _ _ _ _ _ _ h_run _ _ => (h.allowed_call tx h_run).elim
  undisturbed :=
    ⟨fun tx _ _ _ _ _ h_run => (h.allowed_call tx h_run).elim,
      fun tx _ _ _ _ h_run => (h.allowed_call tx h_run).elim⟩

/-- **Hits, flags and deletions linearize**, in every run from every reachable store. Each of them
locks its row before it reads it, so that no condition on the run is needed. -/
theorem hits_flags_deletes_linearize (s : Store) (h_s : s.Reachable) (x : ℕ → System) (n : ℕ)
    (h_start : x 0 = .quiet s) (h_run : ∀ k < n, Step HitsFlagsDeletes (x k) (x (k + 1))) :
    ∃ log, CallsLinearize x n log := by
  refine calls_linearize s h_s x n h_start (fun k h_k => ?_)
  exact (reaches_of_run h_start h_run (Nat.le_of_lt h_k)).orderlyStep (h_run k h_k)

/-- Two flags race to the threshold, and a hit and a deletion of the row run beside them. -/
theorem hits_flags_deletes_linearize_race : ∃ x n log, x 0 = .quiet (Store.empty.run [sampleCall]) ∧
    (x n).activity 2 =
      .done (.flag (fun _ t => t) (sampleFlag 1 3)) (.flag (some ⟨2, .hidden, true⟩)) ∧
    (x n).activity 4 = .done (.softDelete 1 30) (.softDelete true) ∧
    CallsLinearize x n log := by
  have h : Reaches HitsFlagsDeletes (Store.empty.run [sampleCall])
      ⟨.ofStore (Store.empty.run [sampleCall]), fun _ => .idle⟩ := .quiet
  have h := h.begin 1 (.flag (fun _ t => t) (sampleFlag 1 2)) rfl trivial
  have h := h.begin 2 (.flag (fun _ t => t) (sampleFlag 1 3)) rfl trivial
  have h := h.begin 3 (.reportHit (fun _ t => t) ⟨1, 2, none, none, 25⟩) rfl trivial
  have h := h.begin 4 (.softDelete 1 30) rfl trivial
  -- the flag of consumer 2 takes the lock, and the deletion has to look again
  have h := h.exec 1 rfl (.flagLock rfl rfl (by decide))
  have h := h.exec 4 rfl (.deleteEval rfl (by decide) (by decide))
  have h := h.exec 1 rfl (.insertFlag (fun _ => nofun) rfl)
  have h := h.exec 1 rfl .count
  have h := h.exec 1 rfl (.keep (by decide) rfl)
  have h := h.commit 1 rfl
  have h := h.exec 3 rfl (.hitLock rfl rfl (by decide))
  have h := h.exec 3 rfl .insertHit
  have h := h.exec 3 rfl (.bumpHit rfl)
  have h := h.commit 3 rfl
  -- the second flag reaches the threshold
  have h := h.exec 2 rfl (.flagLock rfl rfl (by decide))
  have h := h.exec 2 rfl (.insertFlag (fun _ => nofun) rfl)
  have h := h.exec 2 rfl .count
  have h := h.exec 2 rfl (.hide (by decide) rfl)
  have h := h.commit 2 rfl
  have h := h.exec 4 rfl (.deleteEval rfl (by decide) (by decide))
  have h := h.exec 4 rfl (.deleteWrite rfl rfl (by decide))
  have h := h.commit 4 rfl
  obtain ⟨x, n, h_start, h_end, h_run⟩ := exists_run h
  obtain ⟨log, h_log⟩ := hits_flags_deletes_linearize _ ⟨[sampleCall], rfl⟩ x n h_start h_run
  exact ⟨x, n, log, h_start, by rw [h_end]; rfl, by rw [h_end]; rfl, h_log⟩

/-- No row is a tombstone, and nobody has read one. Then nothing is resurrected, and nothing can
be purged under a contribution. -/
structure Tombless (sys : System) : Prop where
  rows : ∀ i r, sys.db.row i = some r → r.Live
  sessions : ∀ tx enc a pc i drawn,
    sys.activity tx ≠ .running ⟨.contribute enc a, pc, some i, drawn⟩

/-- Who takes nothing leaves a row that is live: it drafts no deletion and no purge. -/
theorem Owns.live {s : Session} {i : ℤ} {o : Option Fingerprint} {r' : Fingerprint}
    (h : Owns s i o (some (some r'))) (h_call : TakesNothing s.call)
    (h_live : ∀ r, o = some r → r.Live) : r'.Live := by
  cases h with
  | insert h_row => rw [h_row]; exact nofun
  | resurrect h_row => rw [h_row]; exact nofun
  | hit _ _ _ h_row => have h_r := h_live _ rfl; rw [h_row]; exact h_r
  | hide _ _ _ h_row => rw [h_row]; exact nofun
  | keep _ _ _ _ h_row => have h_r := h_live _ rfl; rw [h_row]; exact h_r
  | delete _ _ => exact h_call.elim
  | anonymize _ _ _ => exact h_call.elim

/-- Without deletions no tombstone comes. -/
theorem Tombless.step {s : Store} {sys sys' : System} (h : Tombless sys) (h_lock : Locking sys)
    (h_reach : Reaches TakesNothing s sys) (h_step : Step TakesNothing sys sys') :
    Tombless sys' where
  rows := by
    intro i r' h_row'
    rcases h_lock.row_step h_step i with
      h_same | ⟨tx, op, reply, existing, drawn, d, h_run, -, -, -, h_owns, h_d⟩
    · exact h.rows i r' (h_same.symm.trans h_row')
    · rw [← h_d, h_row'] at h_owns
      exact h_owns.live (h_reach.allowed_call tx h_run) (h.rows i)
  sessions := by
    intro tx enc a pc i drawn h_run'
    have h_moves := h_step.moves tx
    generalize h_a : sys.activity tx = act at h_moves
    generalize sys'.activity tx = act' at h_moves h_run'
    cases h_moves with
    | other _ _ => exact h.sessions tx enc a pc i drawn (h_a.trans h_run')
    | @begin op _ _ =>
      have h_existing := congrArg Session.existing (Activity.running.inj h_run')
      rw [Session.start_existing] at h_existing
      exact absurd h_existing (by simp)
    | @exec s₀ s₁ h_exec =>
      obtain rfl := Activity.running.inj h_run'
      rcases h_exec.existing_cases with h_same | ⟨_, _, r, -, -, h_found, h_deleted⟩
      · obtain ⟨call, pc₀, existing, drawn₀⟩ := s₀
        obtain rfl : call = .contribute enc a := h_exec.call_eq.symm
        obtain rfl : some i = existing := h_same
        exact h.sessions tx enc a pc₀ i drawn₀ h_a
      -- a tombstone it has read is a committed row
      · exact h.rows _ r (h_lock.row_of_findOwned h_found).1 h_deleted
    | commit _ => exact Activity.noConfusion h_run'
    | abort _ => exact Activity.noConfusion h_run'

/-- **Contributions, hits and flags linearize**, in every run from a reachable store without
tombstones. The runs that go wrong all need one: it is read, and another transaction resurrects or
purges it. -/
theorem contributions_linearize (s : Store) (h_s : s.Reachable)
    (h_live : ∀ i r, s.row i = some r → r.Live) (x : ℕ → System) (n : ℕ)
    (h_start : x 0 = .quiet s) (h_run : ∀ k < n, Step TakesNothing (x k) (x (k + 1))) :
    ∃ log, CallsLinearize x n log := by
  have h_reach : ∀ k ≤ n, Reaches TakesNothing s (x k) :=
    fun k h_k => reaches_of_run h_start h_run h_k
  have h_tombless : ∀ k ≤ n, Tombless (x k) := by
    intro k h_k
    induction k with
    | zero =>
      rw [h_start]
      refine ⟨fun i r h_row => h_live i r ?_, fun _ _ _ _ _ _ h_run => Activity.noConfusion h_run⟩
      rw [← System.row_quiet]
      exact h_row
    | succ k ih =>
      have h_x := h_reach k (Nat.le_of_succ_le h_k)
      exact (ih (Nat.le_of_succ_le h_k)).step (Locking.reaches h_s h_x) h_x (h_run k h_k)
  refine calls_linearize s h_s x n h_start (fun k h_k => ?_)
  have h_x := h_reach k (Nat.le_of_lt h_k)
  refine ⟨(h_run k h_k).mono (fun op h_op => ?_), ?_, h_x.undisturbed h_s (h_run k h_k)⟩
  · cases op <;> trivial
  · intro tx _ enc _ a _ reply _ i drawn _ h_tx _ _
    exact absurd h_tx ((h_tombless k (Nat.le_of_lt h_k)).sessions tx enc a _ i drawn)

/-- Two contributions of one hash on an empty store: the second runs into the first, and the log
has the first before it. -/
theorem contributions_linearize_race : ∃ x n log, x 0 = .quiet Store.empty ∧
    (x n).activity 2 = .done sampleCall (.contribute (some (.existing 1 .active), false)) ∧
    CallsLinearize x n log := by
  have h : Reaches TakesNothing Store.empty ⟨.ofStore .empty, fun _ => .idle⟩ := .quiet
  have h := h.begin 1 sampleCall rfl trivial
  have h := h.begin 2 sampleCall rfl trivial
  have h := h.exec 1 rfl (.selectNone rfl)
  have h := h.exec 2 rfl (.selectNone rfl)
  have h := h.exec 1 rfl .insertAllot
  have h := h.exec 2 rfl .insertAllot
  have h := h.exec 1 rfl
    (.insertWrite (fun _ _ => nofun) (fun ⟨_, _, _, h_lock, _⟩ => nomatch h_lock))
  have h := h.commit 1 rfl
  have h := h.exec 2 rfl (@Exec.insertConflict _ _ _ _ _ 1 _ _ rfl rfl
    (fun ⟨_, h_lock, _⟩ => nomatch h_lock))
  have h := h.exec 2 rfl (.reselectSome rfl)
  have h := h.commit 2 rfl
  obtain ⟨x, n, h_start, h_end, h_run⟩ := exists_run h
  obtain ⟨log, h_log⟩ := contributions_linearize Store.empty ⟨[], rfl⟩ (fun _ _ => nofun) x n
    h_start h_run
  exact ⟨x, n, log, h_start, by rw [h_end]; rfl, h_log⟩

end Concurrent
end FingerprintHub
