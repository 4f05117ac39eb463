import FingerprintHub.Store.Contribute
import FingerprintHub.Store.Retention
import FingerprintHub.Concurrent.ForeignKey

/-!
# Retention spares what is live

What retention may touch, whatever runs at the same time: its statements change only
tombstones, and at its commit they are tombstones still. Everything else that is live
keeps its source metadata until a contribution replaces it, hits go with their age or
their fingerprint, and flags with their fingerprint or with a resurrection.
-/

namespace FingerprintHub

namespace Concurrent

variable {allowed : Op → Prop} {sys sys' : System} {tx : ℕ} {c c' : Session} {db : Db} {i : ℤ}

/-- The step commits a contribution that has written the row, as a new one or as a tombstone
revived. -/
def Renews (enc : EncryptText) (a : ContributeArgs) (i : ℤ) (sys sys' : System) : Prop :=
  ∃ tx existing drawn row, row.id = i ∧
    sys.activity tx = .running ⟨.contribute enc a,
      .finish (.contribute (some (.written row), true)), existing, drawn⟩ ∧
    sys'.activity tx = .done (.contribute enc a) (.contribute (some (.written row), true))

/-- A step that commits neither a contribution to a row nor its deletion. What such steps leave
alone of a live row is what retention is to leave alone. -/
def Keeps (allowed : Op → Prop) (i : ℤ) (sys sys' : System) : Prop :=
  Step allowed sys sys' ∧ ¬ Deletes i sys sys' ∧ ∀ enc a, ¬ Renews enc a i sys sys'

/-- What retention is to spare, in a state and the steps from it. `touches` is about each of its
statements, before anything is committed; the others say of any step of anybody what it may take
away, and that only retention takes a hit. -/
structure RetentionSpares (allowed : Op → Prop) (sys : System) : Prop where
  /-- A statement of retention changes a row only if it is committed as a tombstone. -/
  touches : ∀ tx c c' db i, sys.activity tx = .running c → ¬ NoRetention c.call →
    Exec tx sys.db c db c' → db.rows.cell i ≠ sys.db.rows.cell i →
    ∃ r, sys.db.row i = some r ∧ r.status = .deleted
  /-- A live row keeps its texts, unless a contribution to it commits. -/
  live : ∀ sys' i r, Step allowed sys sys' → sys.db.row i = some r → r.Live →
    (∃ r', sys'.db.row i = some r' ∧ r'.sourceTexts = r.sourceTexts) ∨
    ∃ enc a, Renews enc a i sys sys'
  /-- The texts of a contribution that commits stay until the row is deleted or contributed
  once more. -/
  renewed : ∀ y z i enc a, Step allowed sys y → Renews enc a i sys y →
    Relation.ReflTransGen (Keeps allowed i) y z →
    ∃ r, z.db.row i = some r ∧ r.Live ∧ r.sourceTexts = a.sourceTexts enc
  /-- A hit disappears at a commit of retention: it is old, or its fingerprint is purged. -/
  hits : ∀ sys' k hit, Step allowed sys sys' → (sys.db.hits.cell k).committed = some hit →
    (sys'.db.hits.cell k).committed ≠ some hit →
    ∃ tx p nowMs reply,
      sys.activity tx = .running ⟨.applyRetention p nowMs false, .finish reply, none, none⟩ ∧
      (p.expiresHit nowMs hit = true ∨
        ∃ r, sys.db.row hit.fingerprintId = some r ∧ p.purges nowMs r = true ∧
          sys'.db.row hit.fingerprintId = none)
  /-- A flag stays or loses its reason, or its fingerprint is purged, or resurrected. -/
  flags : ∀ sys' i consumer f, Step allowed sys sys' →
    (sys.db.flags.cell (i, consumer)).committed = some f →
    (sys'.db.flags.cell (i, consumer)).committed = some f ∨
    (sys'.db.flags.cell (i, consumer)).committed = some (clearReason f) ∨
    (∃ r, sys.db.row i = some r ∧ r.status = .deleted ∧ sys'.db.row i = none) ∨
    ∃ enc a v r, sys.db.row i = some r ∧ sys'.db.row i = some (resurrectRow enc a v r) ∧
      Renews enc a i sys sys'

/-! ### The statements -/

/-- A sweep of retention over the fingerprints writes what is committed as a tombstone: it locks
the row before it looks at it, so that what it has listed as one and finds live is left alone. -/
theorem Locking.sweep_touches (h_lock : Locking sys) {p : RetentionPolicy} {nowMs : ℤ}
    {dryRun : Bool} {pc : Pc}
    (h_run : sys.activity tx = .running ⟨.applyRetention p nowMs dryRun, pc, none, none⟩)
    {q : Fingerprint → Bool} {act : Fingerprint → Option Fingerprint} {todo : Option (List ℤ)}
    {rows : Versioned ℤ Fingerprint} {todo' : List ℤ} {acted : Bool}
    (h_sweep : Versioned.Sweep tx q act sys.db.rows todo rows todo' acted)
    (h_q : ∀ r, q r = true → r.status = .deleted) (h_ne : rows.cell i ≠ sys.db.rows.cell i) :
    ∃ r, sys.db.row i = some r ∧ r.status = .deleted := by
  rcases h_sweep.touch i with h_same | ⟨r, h_free, h_view, h_where, -⟩
  · exact absurd h_same h_ne
  · by_cases h_held : (sys.db.rows.cell i).Held tx
    · -- it has purged or anonymised the row before
      obtain ⟨l, -, -, h_owns⟩ := h_lock.owns_of_held h_run h_held
      generalize sys.db.row i = o at h_owns
      generalize l.draft = d at h_owns
      cases h_owns with
      | purge _ h_purges => exact ⟨_, rfl, (RetentionPolicy.purges_iff.mp h_purges).1⟩
      | anonymize _ h_anonymizes _ =>
        exact ⟨_, rfl, (RetentionPolicy.anonymizes_iff.mp h_anonymizes).1.1⟩
    · rw [Cell.view_of_not_held h_held] at h_view
      exact ⟨r, h_view, h_q r h_where⟩

/-- The clause `touches`: of its statements only the two sweeps over the fingerprints write rows.
-/
theorem Locking.retention_touches (h_lock : Locking sys) (h_run : sys.activity tx = .running c)
    (h_call : ¬ NoRetention c.call) (h_exec : Exec tx sys.db c db c')
    (h_ne : db.rows.cell i ≠ sys.db.rows.cell i) :
    ∃ r, sys.db.row i = some r ∧ r.status = .deleted := by
  cases h_exec with
  | purge h_sweep =>
    refine h_lock.sweep_touches h_run h_sweep (fun r h_due => ?_) h_ne
    exact (RetentionPolicy.purges_iff.mp h_due).1
  | anonymize h_sweep =>
    refine h_lock.sweep_touches h_run h_sweep (fun r h_due => ?_) h_ne
    exact (RetentionPolicy.anonymizes_iff.mp h_due).1.1
  -- the other statements write no fingerprint
  | refuse _ => exact absurd rfl h_ne
  | accept _ => exact absurd rfl h_ne
  | expireHits _ => exact absurd rfl h_ne
  | expireHitsDone => exact absurd rfl h_ne
  | clearReasons _ => exact absurd rfl h_ne
  | clearReasonsDone => exact absurd rfl h_ne
  | purgeDone => exact absurd rfl h_ne
  | cascadeHits _ => exact absurd rfl h_ne
  | cascadeHitsDone => exact absurd rfl h_ne
  | cascadeFlags _ => exact absurd rfl h_ne
  | cascadeFlagsDone => exact absurd rfl h_ne
  | anonymizeDone => exact absurd rfl h_ne
  | _ => exact absurd trivial h_call

/-! ### The rows -/

/-- **What a step does to a live row**: it stays and keeps its texts, live unless it is deleted,
or a contribution to it commits. The cases are what the committing session owns on the row. -/
theorem Locking.live_step (h_lock : Locking sys) (h_step : Step allowed sys sys') {r : Fingerprint}
    (h_row : sys.db.row i = some r) (h_live : r.Live) :
    (∃ r', sys'.db.row i = some r' ∧ r'.sourceTexts = r.sourceTexts ∧
      (r'.Live ∨ Deletes i sys sys')) ∨ ∃ enc a, Renews enc a i sys sys' := by
  rcases h_lock.row_step h_step i with
    h_same | ⟨tx, op, reply, existing, drawn, d, h_run, h_eq, -, -, h_owns, h_d⟩
  · exact Or.inl ⟨r, h_same.trans h_row, rfl, Or.inl h_live⟩
  · have h_done : sys'.activity tx = .done op reply := by
      rw [h_eq]
      exact Function.update_self _ _ _
    rw [h_row] at h_owns
    cases h_owns with
    | @resurrect enc a _ _ _ v h_r' =>
      have h_id : (resurrectRow enc a v r).id = i := h_lock.keyed i r h_row
      exact Or.inr ⟨enc, a, tx, _, _, _, h_r' ▸ h_id, h_run, h_done⟩
    -- hits, flags and deletions keep the source fields; retention takes no live row
    | hit _ _ _ h_r' =>
      exact Or.inl ⟨_, h_d, by rw [h_r']; rfl, Or.inl (by rw [h_r']; exact h_live)⟩
    | hide _ _ _ h_r' => exact Or.inl ⟨_, h_d, by rw [h_r']; rfl, Or.inl (by rw [h_r']; nofun)⟩
    | keep _ _ _ _ h_r' =>
      exact Or.inl ⟨_, h_d, by rw [h_r']; rfl, Or.inl (by rw [h_r']; exact h_live)⟩
    | delete _ h_r' => exact Or.inl ⟨_, h_d, by rw [h_r']; rfl, Or.inr ⟨tx, _, ⟨_, h_run⟩, h_done⟩⟩
    | purge _ h_purges => exact absurd (RetentionPolicy.purges_iff.mp h_purges).1 h_live
    | anonymize _ h_anonymizes _ =>
      exact absurd (RetentionPolicy.anonymizes_iff.mp h_anonymizes).1.1 h_live

/-- A contribution that commits has its row there, with its texts. -/
theorem Locking.renewed_step (h_lock : Locking sys) (h_step : Step allowed sys sys')
    {enc : EncryptText} {a : ContributeArgs} (h_renews : Renews enc a i sys sys') :
    ∃ r, sys'.db.row i = some r ∧ r.Live ∧ r.sourceTexts = a.sourceTexts enc := by
  obtain ⟨tx, existing, drawn, row, rfl, h_run, h_done⟩ := h_renews
  -- a contribution is no preview, so that its end is a commit
  have h_db : sys'.db = sys.db.commit tx := by
    have h_moves := h_step.moves tx
    rw [h_run, h_done] at h_moves
    cases h_moves with
    | commit h_db => exact h_db
  -- the row in the answer is the draft it holds
  obtain ⟨⟨holder, draft⟩, h_l, rfl, h_owns⟩ :=
    h_lock.owns_of_held h_run (h_lock.holds tx _ row.id h_run rfl)
  have h_row : sys'.db.row row.id = draft.getD (sys.db.row row.id) := by
    rw [h_db]
    show ((sys.db.rows.commit holder).cell row.id).committed = _
    rw [Versioned.cell_commit, Cell.committed_commit, Cell.view_of_lock h_l rfl]
  change Owns _ row.id (sys.db.row row.id) draft at h_owns
  generalize h_i : row.id = i at h_owns h_row
  generalize sys.db.row i = o at h_owns h_row
  cases h_owns with
  | insert h_eq => exact ⟨row, h_row, by rw [h_eq]; nofun, by rw [h_eq]; rfl⟩
  | resurrect h_eq => exact ⟨row, h_row, by rw [h_eq]; nofun, by rw [h_eq]; rfl⟩

/-- **From its commit on** the texts of a contribution stay. By induction on the steps after it,
none of which deletes the row or contributes it again. -/
theorem kept_of_renews {s : Store} (h_s : s.Reachable) (h : Reaches allowed s sys)
    (h_step : Step allowed sys sys') {enc : EncryptText} {a : ContributeArgs}
    (h_renews : Renews enc a i sys sys') {z : System}
    (h_path : Relation.ReflTransGen (Keeps allowed i) sys' z) :
    Reaches allowed s z ∧
      ∃ r, z.db.row i = some r ∧ r.Live ∧ r.sourceTexts = a.sourceTexts enc := by
  induction h_path with
  | refl => exact ⟨h.step h_step, (Locking.reaches h_s h).renewed_step h_step h_renews⟩
  | @tail y z h_path h_keeps ih =>
    obtain ⟨h_y, r, h_row, h_live, h_texts⟩ := ih
    obtain ⟨h_yz, h_not_deletes, h_not_renews⟩ := h_keeps
    refine ⟨h_y.step h_yz, ?_⟩
    -- neither deleted nor contributed again, it keeps its source fields
    rcases (Locking.reaches h_s h_y).live_step h_yz h_row h_live with
      ⟨r', h_row', h_texts', h_live'⟩ | ⟨enc', a', h_renews'⟩
    · exact ⟨r', h_row', h_live'.resolve_right h_not_deletes, h_texts'.trans h_texts⟩
    · exact absurd h_renews' (h_not_renews enc' a')

/-! ### Hits and flags -/

/-- A row whose deletion commits is a tombstone, and is gone: the cascade is for such rows only.
-/
theorem Locking.purged (h_lock : Locking sys) (h_db : sys'.db = sys.db.commit tx)
    (h_purging : sys.db.Purging tx i) {p : RetentionPolicy} {nowMs : ℤ} {dryRun : Bool} {pc : Pc}
    (h_run : sys.activity tx = .running ⟨.applyRetention p nowMs dryRun, pc, none, none⟩) :
    ∃ r, sys.db.row i = some r ∧ p.purges nowMs r = true ∧ sys'.db.row i = none := by
  obtain ⟨p', nowMs', dryRun', pc', r, h_run', -, h_row, h_purges⟩ := h_lock.purging h_purging
  obtain h_eq := Activity.running.inj (h_run.symm.trans h_run')
  injection h_eq with h_call
  injection h_call with h_p h_now
  subst h_p h_now
  refine ⟨r, h_row, h_purges, ?_⟩
  rw [h_db]
  show ((sys.db.rows.commit tx).cell i).committed = none
  rw [Versioned.cell_commit, Cell.committed_commit]
  exact view_of_purging h_purging

/-- **What a step does to a flag row**: the cases are what the committing session owns on it. -/
theorem Cascades.flag_lost (h : Cascades sys) (h_step : Step allowed sys sys') {consumer : ℤ}
    {f : Flag} (h_f : (sys.db.flags.cell (i, consumer)).committed = some f) :
    (sys'.db.flags.cell (i, consumer)).committed = some f ∨
    (sys'.db.flags.cell (i, consumer)).committed = some (clearReason f) ∨
    (∃ r, sys.db.row i = some r ∧ r.status = .deleted ∧ sys'.db.row i = none) ∨
    ∃ enc a v r, sys.db.row i = some r ∧ sys'.db.row i = some (resurrectRow enc a v r) ∧
      Renews enc a i sys sys' := by
  rcases h.flags.flag_step h.locks h.purges h_step (i, consumer) with
    h_same | ⟨tx, op, reply, existing, drawn, d, h_run, h_done, h_db, h_sheds, h_d⟩
  · exact Or.inl (h_same.trans h_f)
  · right
    rw [h_f] at h_sheds
    cases h_sheds with
    | own h_owns =>
      cases h_owns with
      | @clear enc a _ _ _ _ _ h_pc =>
        -- the resurrection that cleared it commits
        obtain ⟨r, v, h_row, rfl, h_l⟩ := h.resurrects h_run h_f
        have h_row' : sys'.db.row i = some (resurrectRow enc a v r) := by
          rw [h_db]
          show ((sys.db.rows.commit tx).cell i).committed = _
          rw [Versioned.cell_commit, Cell.committed_commit, Cell.view_of_lock h_l rfl]
          rfl
        have h_id : r.id = i := h.locks.keyed i r h_row
        have h_renews : Renews enc a i sys sys' :=
          ⟨tx, some i, drawn, resurrectRow enc a v r, h_id, h_run, h_done⟩
        exact Or.inr (Or.inr ⟨enc, a, v, r, h_row, h_row', h_renews⟩)
    | clearReason => exact Or.inl h_d
    | cascade h_gone =>
      obtain ⟨r, h_row, h_purges, h_none⟩ := h.locks.purged h_db h_gone h_run
      exact Or.inr (Or.inl ⟨r, h_row, (RetentionPolicy.purges_iff.mp h_purges).1, h_none⟩)

/-- **Retention spares what is live**, in every run of any calls from any reachable store.

Several retention runs may go on at once, beside contributions, deletions and everything else. The
statement is about READ COMMITTED as `Exec` has it: no isolation is assumed beyond what a lock on
a row gives. -/
theorem retention_spares (s : Store) (h_s : s.Reachable) (allowed : Op → Prop) (sys : System)
    (h : Reaches allowed s sys) : RetentionSpares allowed sys := by
  have h_inv : Cascades sys := .reaches h_s h
  refine ⟨fun tx c c' db i h_run h_call h_exec h_ne => ?_, fun sys' i r h_step h_row h_live => ?_,
    fun y z i enc a h_step h_renews h_path => ?_, fun sys' k hit h_step h_hit h_ne => ?_,
    fun sys' i consumer f h_step h_f => h_inv.flag_lost h_step h_f⟩
  · exact h_inv.locks.retention_touches h_run h_call h_exec h_ne
  · refine (h_inv.locks.live_step h_step h_row h_live).imp_left ?_
    rintro ⟨r', h_row', h_texts, -⟩
    exact ⟨r', h_row', h_texts⟩
  · exact (kept_of_renews h_s h h_step h_renews h_path).2
  · rcases h_inv.hits.hit_step h_inv.locks h_inv.purges h_step h_hit with
      h_same | ⟨tx, p, nowMs, reply, h_run, h_db, h_why⟩
    · exact absurd h_same h_ne
    · exact ⟨tx, p, nowMs, reply, h_run, h_why.imp_right (fun h_purging =>
        h_inv.locks.purged h_db h_purging h_run)⟩

/-- Everything is due at once, which is the policy that would harm most. -/
def eagerPolicy : RetentionPolicy where
  hitRetentionMs := 0
  flagReasonRetentionMs := 0
  tombstoneMetadataRetentionMs := 0
  tombstoneRetentionMs := 0

/-- Retention lists a tombstone, a contribution resurrects it and commits, and retention finds it
live and leaves it: the sweep reads the newest version once it has the lock. -/
theorem retention_spares_resurrected : ∃ sys, Reaches (fun _ => True) sampleTombstone sys ∧
    (∃ c, sys.activity 1 = .running c ∧ ¬ NoRetention c.call) ∧
    (∃ r, sys.db.row 1 = some r ∧ r.status = .active) ∧
    RetentionSpares (fun _ => True) sys := by
  have h : Reaches (fun _ => True) sampleTombstone
    ⟨.ofStore sampleTombstone, fun _ => .idle⟩ := .quiet
  have h := h.begin 1 (.applyRetention eagerPolicy 100 false) rfl trivial
  have h := h.exec 1 rfl (.accept (by decide))
  have h := h.exec 1 rfl (.expireHits .start)
  have h := h.exec 1 rfl .expireHitsDone
  have h := h.exec 1 rfl (.clearReasons .start)
  have h := h.exec 1 rfl .clearReasonsDone
  -- the tombstone is on the list of the purge
  have h := h.exec 1 rfl (.purge .start)
  have h := h.begin 2 sampleCall rfl trivial
  have h := h.exec 2 rfl (.selectTombstone rfl rfl)
  have h := h.exec 2 rfl (.clearFlags .start)
  have h := h.exec 2 rfl .clearFlagsDone
  have h := h.exec 2 rfl (.resurrectEval rfl nofun)
  have h := h.exec 2 rfl (.resurrectWrite rfl rfl)
  have h := h.commit 2 rfl
  -- and is none any more when its turn comes
  have h := h.exec 1 rfl (.purge (.skip (Cell.free_of_lock_none rfl) fun r h_view => by
    have h_status : some Status.active = some r.status :=
      congrArg (Option.map Fingerprint.status) h_view
    simp [RetentionPolicy.purges, ← Option.some.inj h_status]))
  exact ⟨_, h, ⟨_, rfl, id⟩, ⟨_, rfl, rfl⟩,
    retention_spares sampleTombstone ⟨_, rfl⟩ (fun _ => True) _ h⟩

end Concurrent
end FingerprintHub
