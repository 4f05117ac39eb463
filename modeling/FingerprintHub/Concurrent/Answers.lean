import FingerprintHub.Concurrent.Locking

/-!
# The answers of concurrent contributions

`contribute` reads first and writes later, and takes no lock when it reads. Two
things can happen in between. A tombstone it means to resurrect can be purged: its
`UPDATE` then finds no row, and `(None, True)` is returned. And after its first
`SELECT` found nothing, a row with its key can come and be deleted before its second
`SELECT` runs: the answer is then `(None, False)`, or a refusal on behalf of a
tombstone.

`Undisturbed` says of a step that it is neither. In a run of undisturbed steps every
answer is truthful (`contribute_truthful`). `Expects` is what a contribution relies on
at each of its statements; no undisturbed step takes it away.
-/

namespace FingerprintHub
namespace Concurrent

/-- The step neither purges a tombstone that a contribution has read and not yet written, nor
deletes a live row whose key a contribution is inserting. Both clauses are about the state before
the step and what it commits; they say nothing of what the contribution answers. -/
structure Undisturbed (sys sys' : System) : Prop where
  noPurge : ∀ tx enc a pc i drawn,
    sys.activity tx = .running ⟨.contribute enc a, pc, some i, drawn⟩ →
    (∀ reply, pc ≠ .finish reply) → sys.db.row i ≠ none → sys'.db.row i ≠ none
  noDelete : ∀ tx enc a pc drawn,
    sys.activity tx = .running ⟨.contribute enc a, pc, none, drawn⟩ →
    (pc = .reselect ∨ ∃ id, pc = .insert id) →
    ∀ i r r', sys.db.row i = some r → r.owned = a.owned → r.Live →
      sys'.db.row i = some r' → r'.Live

/-- The row carries the arguments of a contribution, and is active. Its id, its `sync_seq` and, of
a row that was resurrected, its `hit_count` are not the caller's to give. -/
structure Carries (enc : EncryptText) (a : ContributeArgs) (row : Fingerprint) : Prop where
  status : row.status = .active
  owned : row.owned = a.owned
  triple : row.triple = a.triple
  category : row.category = a.category
  action : row.action = a.action
  sourceGuildId : row.sourceGuildId = encryptText enc 2 a.sourceGuildId
  reason : row.reason = encryptText enc 0 a.reason
  sourceUrl : row.sourceUrl = encryptText enc 1 a.sourceUrl
  autoAdded : row.autoAdded = a.autoAdded
  provenance : row.provenance = a.provenance
  addedAtMs : row.addedAtMs = a.nowMs
  updatedAtMs : row.updatedAtMs = a.nowMs

/-- What the `INSERT` writes carries the arguments, -/
theorem carries_freshRow (enc : EncryptText) (a : ContributeArgs) (id : ℤ) (v : ℕ) :
    Carries enc a (freshRow enc a id v) := by
  constructor <;> rfl

/-- and so does what the `UPDATE` writes, which leaves the key as it finds it. -/
theorem carries_resurrectRow (enc : EncryptText) (a : ContributeArgs) (v : ℕ) {r : Fingerprint}
    (h : r.owned = a.owned) : Carries enc a (resurrectRow enc a v r) := by
  constructor <;> first | exact h | rfl

/-- A truthful answer: a row that carries the arguments, created, or a live row, not created. The
answers that are not, a tombstone and no row at all, are those `contribute` gives when a row it
has read is gone. -/
def Truthful (enc : EncryptText) (a : ContributeArgs) : Reply → Prop
  | .contribute (some (.written row), true) => Carries enc a row
  | .contribute (some (.existing _ status), false) => status ≠ .deleted
  | _ => False

/-- Every committed row with the key is live. -/
def AllLive (db : Db) (key : String × ℤ) : Prop :=
  ∀ i r, db.row i = some r → r.owned = key → r.Live

/-- Some committed row has the key. -/
def Present (db : Db) (key : String × ℤ) : Prop :=
  ∃ i r, db.row i = some r ∧ r.owned = key

/-- What a contribution relies on at its next statement. On the way to its `UPDATE` it has read a
row with its key; on the way to its `INSERT` it has found no tombstone with its key, and after a
conflict there is a row. -/
def Expects (db : Db) (enc : EncryptText) (a : ContributeArgs) : Pc → Option ℤ → Prop
  | .select, _ => True
  | .clearFlags _, some i | .resurrect _, some i => ∃ r, db.row i = some r ∧ r.owned = a.owned
  | .insert _, none => AllLive db a.owned
  | .reselect, none => AllLive db a.owned ∧ Present db a.owned
  | .finish reply, _ => Truthful enc a reply
  | _, _ => False

/-- Every contribution finds what it relies on, and those that are done were answered truthfully.
`expects` for a contribution that is about to commit is that its answer is truthful, which is why
a commit keeps `done`. -/
structure Answers (sys : System) : Prop where
  expects : ∀ tx enc a pc existing drawn,
    sys.activity tx = .running ⟨.contribute enc a, pc, existing, drawn⟩ →
    Expects sys.db enc a pc existing
  done : ∀ tx enc a reply, sys.activity tx = .done (.contribute enc a) reply →
    Truthful enc a reply

/-! ### The next statement of a contribution -/

/-- Each statement leaves what the next one relies on. Its own statements change no committed row,
so that what it has read is still there. -/
theorem Expects.exec {sys : System} (h_lock : Locking sys) {tx : ℕ} {enc : EncryptText}
    {a : ContributeArgs} {pc : Pc} {existing : Option ℤ} {drawn : Option ℕ} {s' : Session} {db : Db}
    (h_exec : Exec tx sys.db ⟨.contribute enc a, pc, existing, drawn⟩ db s')
    (h : Expects sys.db enc a pc existing) :
    Expects db enc a s'.pc s'.existing := by
  cases h_exec with
  | selectLive h_found h_live => exact h_live
  | selectTombstone h_found h_deleted => exact ⟨_, h_lock.row_of_findOwned h_found⟩
  | selectNone h_found =>
    intro i r h_row h_key
    exact absurd h_key (h_lock.owned_ne_of_findOwned h_found h_row)
  | clearFlags _ => exact h
  | clearFlagsDone => exact h
  | resurrectEval _ _ => exact h
  | resurrectWrite h_free h_row =>
    refine carries_resurrectRow enc a _ ?_
    obtain ⟨r, h_r, h_key⟩ := h
    obtain rfl := Option.some.inj (h_row.symm.trans h_r)
    exact h_key
  | resurrectMiss h_row =>
    -- the row it read is there
    obtain ⟨r, h_r, -⟩ := h
    exact absurd (h_row.symm.trans h_r) (by simp)
  | insertAllot => exact h
  | insertWrite _ _ => exact carries_freshRow enc a _ _
  | insertConflict h_row h_key _ => exact ⟨h, _, _, h_row, h_key⟩
  | reselectSome h_found =>
    obtain ⟨h_row, h_key⟩ := h_lock.row_of_findOwned h_found
    exact h.1 _ _ h_row h_key
  | reselectNone h_found =>
    obtain ⟨i, r, h_row, h_key⟩ := h.2
    exact absurd h_key (h_lock.owned_ne_of_findOwned h_found h_row)

/-! ### Commits of others -/

section Interference

variable {allowed : Op → Prop} {sys sys' : System}

/-- While no tombstone it has read is purged, a contribution keeps the row. What a commit makes of
a row has the key it had. -/
theorem row_kept (h_lock : Locking sys) (h_step : Step allowed sys sys') {i : ℤ}
    (h_noPurge : sys.db.row i ≠ none → sys'.db.row i ≠ none) {key : String × ℤ}
    (h : ∃ r, sys.db.row i = some r ∧ r.owned = key) :
    ∃ r, sys'.db.row i = some r ∧ r.owned = key := by
  obtain ⟨r, h_row, h_key⟩ := h
  rcases h_lock.row_step h_step i with
    h_same | ⟨tx, op, reply, existing, drawn, d, -, -, -, -, h_owns, h_d⟩
  · exact ⟨r, h_same.trans h_row, h_key⟩
  · have h_some := h_noPurge (by simp [h_row])
    cases d with
    | none => exact absurd h_d h_some
    | some r' =>
      rw [h_row] at h_owns
      exact ⟨r', h_d, h_owns.owned_eq.trans h_key⟩

/-- While no row with its key is deleted, a contribution sees only live ones: a row that comes is
inserted or resurrected, and active. -/
theorem AllLive.step (h_lock : Locking sys) (h_step : Step allowed sys sys') {key : String × ℤ}
    (h_noDelete : ∀ i r r', sys.db.row i = some r → r.owned = key → r.Live →
      sys'.db.row i = some r' → r'.Live)
    (h : AllLive sys.db key) : AllLive sys'.db key := by
  intro i r' h_row' h_key
  rcases h_lock.row_step h_step i with
    h_same | ⟨tx, op, reply, existing, drawn, d, -, -, -, -, h_owns, h_d⟩
  · exact h i r' (h_same.symm.trans h_row') h_key
  · obtain rfl : d = some r' := h_d.symm.trans h_row'
    generalize h_o : sys.db.row i = o at h_owns
    cases o with
    | none =>
      -- a row that appears is a fresh one
      cases h_owns with
      | insert h_row =>
        rw [h_row]
        exact fun h_status => Status.noConfusion h_status
    | some r =>
      have h_old : r.owned = key := h_owns.owned_eq.symm.trans h_key
      exact h_noDelete i r r' h_o h_old (h i r h_o h_old) h_row'

/-- Live rows are not purged, so that the row the `INSERT` has run into is found by the second
`SELECT`. -/
theorem Present.step (h_lock : Locking sys) (h_step : Step allowed sys sys') {key : String × ℤ}
    (h_live : AllLive sys.db key) (h : Present sys.db key) : Present sys'.db key := by
  obtain ⟨i, r, h_row, h_key⟩ := h
  refine ⟨i, row_kept h_lock h_step (fun _ h_gone => ?_) ⟨r, h_row, h_key⟩⟩
  rcases h_lock.row_step h_step i with
    h_same | ⟨tx, op, reply, existing, drawn, d, -, -, -, -, h_owns, h_d⟩
  · exact absurd (h_row.symm.trans (h_same.symm.trans h_gone)) (by simp)
  · rw [h_row, ← h_d, h_gone] at h_owns
    cases h_owns with
    | purge _ h_purges =>
      -- the purge takes deleted rows only
      unfold RetentionPolicy.purges at h_purges
      simp only [Bool.and_eq_true, decide_eq_true_eq] at h_purges
      exact h_live i r h_row h_key h_purges.1

/-- What a contribution relies on survives the undisturbed steps of others. The cases are the
statement that comes next and whether it has read a tombstone. -/
theorem Expects.step (h_lock : Locking sys) (h_ok : Undisturbed sys sys')
    (h_step : Step allowed sys sys') {tx : ℕ} {enc : EncryptText} {a : ContributeArgs} {pc : Pc}
    {existing : Option ℤ}
    {drawn : Option ℕ} (h_run : sys.activity tx = .running ⟨.contribute enc a, pc, existing, drawn⟩)
    (h : Expects sys.db enc a pc existing) : Expects sys'.db enc a pc existing := by
  cases existing with
  | none =>
    cases pc with
    | insert id =>
      -- every row of the key is live, and nobody deletes it while the insertion waits
      have h_live : AllLive sys.db a.owned := h
      exact h_live.step h_lock h_step (h_ok.noDelete tx enc a _ _ h_run (Or.inr ⟨id, rfl⟩))
    | reselect =>
      obtain ⟨h_live, h_present⟩ := h
      have h_noDelete := h_ok.noDelete tx enc a _ _ h_run (Or.inl rfl)
      exact ⟨h_live.step h_lock h_step h_noDelete, h_present.step h_lock h_step h_live⟩
    | _ => exact h
  | some i =>
    cases pc with
    | clearFlags todo =>
      -- the tombstone it has read is still there
      have h_noPurge := h_ok.noPurge tx enc a _ i _ h_run (fun _ h_pc => Pc.noConfusion h_pc)
      exact row_kept h_lock h_step h_noPurge h
    | resurrect seen =>
      have h_noPurge := h_ok.noPurge tx enc a _ i _ h_run (fun _ h_pc => Pc.noConfusion h_pc)
      exact row_kept h_lock h_step h_noPurge h
    | _ => exact h

/-- **The invariant holds over every undisturbed step**: of others by `Expects.step`, of its own
by `Expects.exec`. -/
theorem Answers.step (h : Answers sys) (h_lock : Locking sys) (h_ok : Undisturbed sys sys')
    (h_step : Step allowed sys sys') : Answers sys' := by
  refine ⟨fun tx enc a pc existing drawn h_run' => ?_, fun tx enc a reply h_done => ?_⟩
  · have h_moves := h_step.moves tx
    generalize h_a : sys.activity tx = act at h_moves
    generalize sys'.activity tx = act' at h_moves h_run'
    cases h_moves with
    -- the step of another transaction
    | other _ _ =>
      have h_expects := h.expects tx enc a pc existing drawn (h_a.trans h_run')
      exact Expects.step h_lock h_ok h_step (h_a.trans h_run') h_expects
    | @begin op _ _ =>
      have h_s := Activity.running.inj h_run'
      obtain rfl : op = .contribute enc a := by rw [← Session.start_call op, h_s]
      cases h_s
      trivial
    | @exec s s' h_exec =>
      -- its own statement
      obtain rfl := Activity.running.inj h_run'
      obtain ⟨call, pc₀, existing₀, drawn₀⟩ := s
      obtain rfl : call = .contribute enc a := h_exec.call_eq.symm
      exact Expects.exec h_lock h_exec (h.expects tx enc a _ _ _ h_a)
    | commit _ => exact Activity.noConfusion h_run'
    | abort _ => exact Activity.noConfusion h_run'
  · have h_moves := h_step.moves tx
    rw [h_done] at h_moves
    generalize h_a : sys.activity tx = act at h_moves
    cases h_moves with
    | other _ _ => exact h.done tx enc a reply h_a
    -- what is returned is what the last statement had settled
    | commit _ => exact h.expects tx enc a _ _ _ h_a

end Interference

/-! ### The answers of an undisturbed run -/

/-- Every answer, given or about to be given, is truthful. `created` is about the moment before
the commit, `committed` about the commit itself, and `duplicate` about the statement that reads
the row: after that a live row may be deleted like any other. -/
structure AnswersTruthfully (allowed : Op → Prop) (sys : System) : Prop where
  /-- a created row has been written by the transaction itself, with its arguments; -/
  created : ∀ tx enc a row existing drawn,
    sys.activity tx = .running
      ⟨.contribute enc a, .finish (.contribute (some (.written row), true)), existing, drawn⟩ →
    Carries enc a row ∧ (sys.db.rows.cell row.id).lock = some ⟨tx, some (some row)⟩
  /-- it is the committed row after the commit; -/
  committed : ∀ sys' tx enc a row, Step allowed sys sys' →
    (∀ reply, sys.activity tx ≠ .done (.contribute enc a) reply) →
    sys'.activity tx = .done (.contribute enc a) (.contribute (some (.written row), true)) →
    sys'.db.row row.id = some row
  /-- a duplicate is live when the transaction reads it; -/
  duplicate : ∀ sys' tx enc a s i status existing drawn, Step allowed sys sys' →
    sys.activity tx = .running s → (∀ reply, s.pc ≠ .finish reply) →
    sys'.activity tx = .running
      ⟨.contribute enc a, .finish (.contribute (some (.existing i status), false)), existing,
        drawn⟩ →
    ∃ r, sys.db.row i = some r ∧ r.owned = a.owned ∧ r.status = status ∧ r.Live
  /-- there is no other answer. -/
  answered : ∀ tx enc a reply,
    (∃ existing drawn,
      sys.activity tx = .running ⟨.contribute enc a, .finish reply, existing, drawn⟩) ∨
      sys.activity tx = .done (.contribute enc a) reply →
    Truthful enc a reply

/-- What a contribution that has created a row holds. -/
theorem Locking.created_lock {sys : System} (h_lock : Locking sys) {tx : ℕ} {enc : EncryptText}
    {a : ContributeArgs} {row : Fingerprint} {existing : Option ℤ} {drawn : Option ℕ}
    (h_run : sys.activity tx = .running
      ⟨.contribute enc a, .finish (.contribute (some (.written row), true)), existing, drawn⟩) :
    (sys.db.rows.cell row.id).lock = some ⟨tx, some (some row)⟩ := by
  obtain ⟨⟨holder, draft⟩, h_cell, rfl, h_owns⟩ :=
    h_lock.owns_of_held h_run (h_lock.holds tx _ row.id h_run rfl)
  have h_draft : draft = some (some row) := by
    generalize sys.db.row row.id = o at h_owns
    generalize row.id = i at h_owns
    -- the draft of a row that was written is that row
    cases h_owns with
    | insert _ => rfl
    | resurrect _ => rfl
  rw [h_cell, h_draft]

/-- **Contributions are answered truthfully** in every run of undisturbed steps, whatever other
calls run beside them. `Undisturbed` is a condition on each step from the state before it; a run
of calls that neither delete nor purge satisfies it throughout (`Reaches.undisturbed`). -/
theorem contribute_truthful (allowed : Op → Prop) (s : Store) (h_s : s.Reachable) (sys : System)
    (h : ReachesBy allowed Undisturbed s sys) : AnswersTruthfully allowed sys := by
  have h_lock : Locking sys := Locking.reaches h_s h.reaches
  -- the invariant starts with nothing running, and every step of the run keeps it
  have h_ans : Answers sys := by
    refine h.invariant h_s Answers ⟨?_, ?_⟩ ?_
    · intro tx enc a pc existing drawn h_run
      exact Activity.noConfusion h_run
    · intro tx enc a reply h_done
      exact Activity.noConfusion h_done
    · intro x y h_lock h_inv h_step h_ok
      exact h_inv.step h_lock h_ok h_step
  refine ⟨fun tx enc a row existing drawn h_run => ?_, fun sys' tx enc a row h_step h_not h_done =>
    ?_, fun sys' tx enc a s i status existing drawn h_step h_run h_pc h_run' => ?_,
    fun tx enc a reply h_end => ?_⟩
  · exact ⟨h_ans.expects tx enc a _ _ _ h_run, h_lock.created_lock h_run⟩
  · have h_moves := h_step.moves tx
    rw [h_done] at h_moves
    generalize h_a : sys.activity tx = act at h_moves
    cases h_moves with
    | other _ _ => exact absurd h_a (h_not _)
    | commit h_db =>
      rw [h_db]
      show ((sys.db.rows.commit tx).cell row.id).committed = some row
      -- the commit makes the draft the committed row
      rw [Versioned.cell_commit, Cell.commit_of_lock (h_lock.created_lock h_a) rfl]
      rfl
  · have h_moves := h_step.moves tx
    rw [h_run, h_run'] at h_moves
    cases h_moves with
    | other _ _ => exact absurd rfl (h_pc _)
    | exec h_exec =>
      generalize sys'.db = db at h_exec
      cases h_exec with
      | selectLive h_found h_live =>
        obtain ⟨h_row, h_key⟩ := h_lock.row_of_findOwned h_found
        exact ⟨_, h_row, h_key, rfl, h_live⟩
      -- after a conflict the row is live, since nobody deleted it in between
      | reselectSome h_found =>
        obtain ⟨h_row, h_key⟩ := h_lock.row_of_findOwned h_found
        have h_live : AllLive sys.db a.owned := (h_ans.expects tx enc a _ _ _ h_run).1
        exact ⟨_, h_row, h_key, rfl, h_live _ _ h_row h_key⟩
  · rcases h_end with ⟨existing, drawn, h_run⟩ | h_done
    · exact h_ans.expects tx enc a _ _ _ h_run
    · exact h_ans.done tx enc a reply h_done

/-! ### Calls that take nothing away -/

/-- A call that neither deletes nor purges. -/
def TakesNothing : Op → Prop
  | .contribute _ _ | .reportHit _ _ | .flag _ _ => True
  | _ => False

/-- Such calls disturb no contribution: none of them makes a tombstone, and none removes a row. -/
theorem Reaches.undisturbed {s : Store} (h_s : s.Reachable) {sys sys' : System}
    (h : Reaches TakesNothing s sys) (h_step : Step TakesNothing sys sys') :
    Undisturbed sys sys' := by
  have h_row := (Locking.reaches h_s h).row_step h_step
  refine ⟨fun tx enc a pc i drawn _ _ h_some h_none => ?_,
    fun tx enc a pc drawn _ _ i r r' h_r _ h_live h_r' => ?_⟩
  -- a row that goes was purged
  · rcases h_row i with h_same | ⟨tx', op, reply, existing, drawn', d, h_run, -, -, -, h_owns, h_d⟩
    · exact h_some (h_same.symm.trans h_none)
    · have h_takes := h.allowed_call tx' h_run
      rw [← h_d, h_none] at h_owns
      generalize sys.db.row i = o at h_owns
      cases h_owns with
      | purge _ _ => exact h_takes
  -- and one that is deleted was deleted
  · rcases h_row i with h_same | ⟨tx', op, reply, existing, drawn', d, h_run, -, -, -, h_owns, h_d⟩
    · obtain rfl := Option.some.inj (h_r'.symm.trans (h_same.trans h_r))
      exact h_live
    · have h_takes := h.allowed_call tx' h_run
      rw [← h_d, h_r', h_r] at h_owns
      cases h_owns with
      -- what the others write is live, and they find it so
      | resurrect h_eq => rw [h_eq]; exact fun h_status => Status.noConfusion h_status
      | hit _ _ _ h_eq => rw [h_eq]; exact h_live
      | hide _ _ _ h_eq => rw [h_eq]; exact fun h_status => Status.noConfusion h_status
      | keep _ _ _ _ h_eq => rw [h_eq]; exact h_live
      | delete _ _ => exact absurd h_takes id
      | anonymize _ _ _ => exact absurd h_takes id

/-! ### Runs -/

/-- Two contributions of one hash: the second waits for the key, and is refused on behalf of the
live row the first has inserted. -/
theorem contribute_truthful_race : ∃ sys, Reaches TakesNothing Store.empty sys ∧
    sys.activity 2 = .done sampleCall (.contribute (some (.existing 1 .active), false)) ∧
    AnswersTruthfully TakesNothing sys := by
  have h : Reaches TakesNothing Store.empty ⟨.ofStore .empty, fun _ => .idle⟩ := .quiet
  have h := h.begin 1 sampleCall rfl trivial
  have h := h.begin 2 sampleCall rfl trivial
  -- both read before either writes
  have h := h.exec 1 rfl (.selectNone rfl)
  have h := h.exec 2 rfl (.selectNone rfl)
  have h := h.exec 1 rfl .insertAllot
  have h := h.exec 1 rfl
    (.insertWrite (fun _ _ => nofun) (fun ⟨_, _, _, h_lock, _⟩ => nomatch h_lock))
  have h := h.exec 2 rfl .insertAllot
  have h := h.commit 1 rfl
  -- the `INSERT` of the second meets the committed row
  have h := h.exec 2 rfl (@Exec.insertConflict _ _ _ _ _ 1 _ _ rfl rfl
    (fun ⟨_, h_lock, _⟩ => nomatch h_lock))
  have h := h.exec 2 rfl (.reselectSome rfl)
  have h := h.commit 2 rfl
  have h_reachable : Store.empty.Reachable := ⟨[], rfl⟩
  have h_undisturbed := h.reachesBy (fun _ _ h' h_step => h'.undisturbed h_reachable h_step)
  exact ⟨_, h, rfl, contribute_truthful TakesNothing Store.empty h_reachable _ h_undisturbed⟩

/-- The calls that contend for the row of one key. -/
def AddsOrRemoves : Op → Prop
  | .contribute _ _ | .softDelete _ _ | .applyRetention _ _ _ => True
  | _ => False

/-- **Disturbed contributions are answered untruthfully.** Calls 1 to 3 contribute one
hash side by side and 2 wins. The row is deleted before the others' second `SELECT`: 3 is
refused on behalf of the tombstone. Call 4 means to resurrect it. Then it is purged: 1
gets no row, not created, and 4 gets no row, created. -/
theorem contribute_untruthful : ∃ sys, Reaches AddsOrRemoves Store.empty sys ∧
    sys.activity 3 = .done sampleCall (.contribute (some (.existing 1 .deleted), false)) ∧
    sys.activity 1 = .done sampleCall (.contribute (none, false)) ∧
    sys.activity 4 = .done sampleCall (.contribute (none, true)) := by
  have h : Reaches AddsOrRemoves Store.empty ⟨.ofStore .empty, fun _ => .idle⟩ := .quiet
  have h := h.begin 1 sampleCall rfl trivial
  have h := h.begin 2 sampleCall rfl trivial
  have h := h.begin 3 sampleCall rfl trivial
  have h := h.exec 1 rfl (.selectNone rfl)
  have h := h.exec 2 rfl (.selectNone rfl)
  have h := h.exec 3 rfl (.selectNone rfl)
  have h := h.exec 2 rfl .insertAllot
  have h := h.exec 2 rfl (.insertWrite (fun _ _ => nofun)
    (fun ⟨_, _, _, h_lock, _⟩ => nomatch h_lock))
  have h : Reaches _ _ ⟨.ofStore (Store.empty.run [sampleCall]), _⟩ := h.commit 2 rfl
  -- both others meet the row of 2
  have h := h.exec 1 rfl .insertAllot
  have h := h.exec 1 rfl (@Exec.insertConflict _ _ _ _ _ 1 _ _ rfl rfl
    (fun ⟨_, h_lock, _⟩ => nomatch h_lock))
  have h := h.exec 3 rfl .insertAllot
  have h := h.exec 3 rfl (@Exec.insertConflict _ _ _ _ _ 1 _ _ rfl rfl
    (fun ⟨_, h_lock, _⟩ => nomatch h_lock))
  -- its deletion
  have h := h.begin 5 (.softDelete 1 20) rfl trivial
  have h := h.exec 5 rfl (.deleteEval rfl (by decide) nofun)
  have h := h.exec 5 rfl (.deleteWrite rfl rfl (by decide))
  have h := h.commit 5 rfl
  have h := h.exec 3 rfl (.reselectSome rfl)
  have h := h.commit 3 rfl
  have h := h.begin 4 sampleCall rfl trivial
  have h := h.exec 4 rfl (.selectTombstone rfl rfl)
  -- and its purge
  have h := h.begin 6 (.applyRetention ⟨0, 0, 0, 0⟩ 60 false) rfl trivial
  have h := h.exec 6 rfl (.accept (by decide))
  have h := h.exec 6 rfl (.expireHits .start)
  have h := h.exec 6 rfl .expireHitsDone
  have h := h.exec 6 rfl (.clearReasons .start)
  have h := h.exec 6 rfl .clearReasonsDone
  have h := h.exec 6 rfl (.purge .start)
  have h := h.exec 6 rfl (.purge (.act (fun _ => nofun) rfl rfl))
  have h := h.exec 6 rfl .purgeDone
  have h := h.exec 6 rfl (.cascadeHits .start)
  have h := h.exec 6 rfl .cascadeHitsDone
  have h := h.exec 6 rfl (.cascadeFlags .start)
  have h := h.exec 6 rfl .cascadeFlagsDone
  have h := h.exec 6 rfl (.anonymize .start)
  have h := h.exec 6 rfl .anonymizeDone
  have h := h.commit 6 rfl
  have h := h.exec 1 rfl (.reselectNone rfl)
  have h := h.commit 1 rfl
  have h := h.exec 4 rfl (.clearFlags .start)
  have h := h.exec 4 rfl .clearFlagsDone
  have h := h.exec 4 rfl (.resurrectMiss rfl)
  have h := h.commit 4 rfl
  exact ⟨_, h, rfl, rfl, rfl⟩

end Concurrent
end FingerprintHub
