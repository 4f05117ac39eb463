import FingerprintHub.Concurrent.Hits

/-!
# Retention under locks

`apply_retention` purges tombstones, and the cascade takes their hits and flags along.
A transaction that has deleted a fingerprint and not committed is `Purging` it. Two
facts make the cascade sound. The keys a session carries to the cascade are exactly
the fingerprints it is purging (`Purges`). And whatever a session holds on a hit or a
flag row is one of a few things (`ShedsHit`, `ShedsFlag`), of which only the cascade
deletes a row that is not due, and only below a fingerprint that is being purged
(`HitCells`, `FlagCells`).
-/

namespace FingerprintHub
namespace Concurrent

variable {allowed : Op → Prop} {sys sys' : System} {tx : ℕ} {c c' : Session} {db : Db} {i : ℤ}

/-- A transaction has deleted a fingerprint and not committed. Others still read the tombstone,
and none of them can change it. -/
def Db.Purging (db : Db) (tx : ℕ) (i : ℤ) : Prop := (db.rows.cell i).lock = some ⟨tx, some none⟩

/-! ### Who purges -/

/-- Whoever is purging a fingerprint is running retention, and the fingerprint is a
tombstone that is due. -/
theorem Locking.purging (h_lock : Locking sys) (h_purging : sys.db.Purging tx i) :
    ∃ p nowMs dryRun pc r,
      sys.activity tx = .running ⟨.applyRetention p nowMs dryRun, pc, none, none⟩ ∧
      pc.AfterPurge ∧ sys.db.row i = some r ∧ p.purges nowMs r = true := by
  obtain ⟨s, h_run, h_owns⟩ := h_lock.owns i _ h_purging
  change Owns s i (sys.db.row i) (some none) at h_owns
  generalize h_o : sys.db.row i = o at h_owns
  generalize h_d : (some none : Option (Option Fingerprint)) = d at h_owns
  cases h_owns with
  | purge h_pc h_purges => exact ⟨_, _, _, _, _, h_run, h_pc, rfl, h_purges⟩
  | _ => exact absurd h_d (by simp)

/-- What a transaction has deleted it does not see any more. -/
theorem view_of_purging (h_purging : sys.db.Purging tx i) :
    (sys.db.rows.cell i).view tx = none := by
  rw [Cell.view_of_lock h_purging rfl]
  rfl

/-- A sweep over the fingerprints does not touch what its transaction has deleted. -/
theorem purging_sweep {p : Fingerprint → Bool} {act : Fingerprint → Option Fingerprint}
    {todo : Option (List ℤ)} {rows : Versioned ℤ Fingerprint} {todo' : List ℤ} {acted : Bool}
    (h_sweep : Versioned.Sweep tx p act sys.db.rows todo rows todo' acted)
    (h_purging : sys.db.Purging tx i) : (rows.cell i).lock = some ⟨tx, some none⟩ := by
  rcases h_sweep.touch i with h_same | ⟨r, -, h_view, -, -⟩
  · rw [h_same]
    exact h_purging
  · rw [view_of_purging h_purging] at h_view
    exact absurd h_view (by simp)

/-- A deletion survives the statements of its own transaction, -/
theorem Locking.purging_exec (h_lock : Locking sys) (h_run : sys.activity tx = .running c)
    (h_exec : Exec tx sys.db c db c') (h_purging : sys.db.Purging tx i) : db.Purging tx i := by
  obtain ⟨p, nowMs, dryRun, pc, r, h_run', -⟩ := h_lock.purging h_purging
  obtain rfl := Activity.running.inj (h_run.symm.trans h_run')
  cases h_exec with
  | purge h_sweep => exact purging_sweep h_sweep h_purging
  | anonymize h_sweep => exact purging_sweep h_sweep h_purging
  | _ => exact h_purging

/-- and the steps of the others, which delete nothing for it. -/
theorem Locking.purging_other (h_lock : Locking sys) {tx' : ℕ} (h_acts : Acts tx' sys sys')
    (h_ne : tx' ≠ tx) : sys'.db.Purging tx i ↔ sys.db.Purging tx i := by
  -- the end of another transaction keeps its lock
  have h_ends : ∀ {c : Cell Fingerprint}, (sys.db.rows.cell i).Ends tx' c →
      (c.lock = some ⟨tx, some none⟩ ↔ sys.db.Purging tx i) := by
    intro c h_c
    rw [h_c.lock]
    exact ⟨And.left, fun h => ⟨h, fun h_eq => h_ne h_eq.symm⟩⟩
  cases h_acts with
  | begin h_db => rw [h_db]
  | exec h_run h_exec =>
    have h_move := h_lock.rowMove h_run h_exec i
    constructor
    · intro h_purging
      change (sys'.db.rows.cell i).lock = _ at h_purging
      show (sys.db.rows.cell i).lock = _
      generalize sys'.db.rows.cell i = cell at h_move h_purging
      cases h_move with
      | same _ => exact h_purging
      -- what the statement locks or writes is locked by `tx'`
      | taken _ _ => exact absurd (congrArg RowLock.holder (Option.some.inj h_purging)) h_ne
      | written _ _ => exact absurd (congrArg RowLock.holder (Option.some.inj h_purging)) h_ne
    · intro h_purging
      show (sys'.db.rows.cell i).lock = _
      rw [h_move.eq_of_ne h_purging (fun h_eq => h_ne h_eq.symm)]
      exact h_purging
  | commit h_run h_done h_db =>
    rw [h_db]
    exact h_ends (rows_endOf _ _ _ i)
  | abort h_db =>
    rw [h_db]
    exact h_ends (rows_rollback _ _ i)

/-! ### The keys carried to the cascade -/

/-- The fingerprints a session has purged, while it carries them to the cascade. The source has no
such variable: PostgreSQL fires the foreign-key trigger for each deleted row at the end of the
statement. -/
def Pc.gone : Pc → Option (List ℤ)
  | .purge _ gone _ | .cascadeHits _ gone _ | .cascadeFlags _ gone _ => some gone
  | _ => none

/-- A session carries exactly the fingerprints it is purging. -/
def Purges (sys : System) : Prop :=
  ∀ tx c gone, sys.activity tx = .running c → c.pc.gone = some gone →
    ∀ i, i ∈ gone ↔ sys.db.Purging tx i

/-- What a step of the purge adds to the keys it adds to the deletions: the row at the head of the
list, if it still matches when its lock is there. -/
theorem purging_purge {p : Fingerprint → Bool} {todo : Option (List ℤ)}
    {rows : Versioned ℤ Fingerprint} {todo' gone : List ℤ} {acted : Bool}
    (h_sweep : Versioned.Sweep tx p (fun _ => none) sys.db.rows todo rows todo' acted)
    (h_gone : ∀ i, i ∈ gone ↔ sys.db.Purging tx i) (i : ℤ) :
    i ∈ (if acted then (todo.getD []).head?.toList ++ gone else gone) ↔
      (rows.cell i).lock = some ⟨tx, some none⟩ := by
  cases h_sweep with
  | start => exact h_gone i
  | @act k todo r h_free h_view h_where =>
    simp only [if_true, Option.getD_some, List.head?_cons, Option.toList_some,
      List.singleton_append, List.mem_cons]
    -- the row the step deletes is the one it adds to the keys
    by_cases h_i : i = k
    · subst h_i
      rw [Versioned.cell_set_self]
      exact ⟨fun _ => rfl, fun _ => Or.inl rfl⟩
    · rw [Versioned.cell_set_of_ne _ h_i]
      exact ⟨fun h => (h_gone i).mp (h.resolve_left h_i), fun h => Or.inr ((h_gone i).mpr h)⟩
  | skip h_free h_where => exact h_gone i

/-- A statement keeps the two in step. -/
theorem Purges.exec (h : Purges sys) (h_lock : Locking sys) (h_run : sys.activity tx = .running c)
    (h_exec : Exec tx sys.db c db c') :
    Purges ⟨db, Function.update sys.activity tx (.running c')⟩ := by
  intro tx' c'' gone h_run' h_gone i
  rcases running_update h_run' with ⟨rfl, h_eq⟩ | ⟨h_tx, h_run'⟩
  · obtain rfl := Activity.running.inj h_eq
    have h_old := h tx' c
    cases h_exec with
    | clearReasonsDone =>
      -- the purge starts, and nothing is purged yet
      obtain rfl := Option.some.inj h_gone
      refine ⟨fun h_mem => absurd h_mem (by simp), fun h_purging => ?_⟩
      obtain ⟨p, nowMs, dryRun, pc, r, h_run'', h_pc, -⟩ := h_lock.purging h_purging
      obtain h_eq := Activity.running.inj (h_run.symm.trans h_run'')
      injection h_eq with _ h_pc_eq
      rw [← h_pc_eq] at h_pc
      exact h_pc.elim
    | purge h_sweep =>
      obtain rfl := Option.some.inj h_gone
      exact purging_purge h_sweep (h_old _ h_run rfl) i
    | purgeDone =>
      obtain rfl := Option.some.inj h_gone
      exact h_old _ h_run rfl i
    | cascadeHits h_sweep =>
      obtain rfl := Option.some.inj h_gone
      exact h_old _ h_run rfl i
    | cascadeHitsDone =>
      obtain rfl := Option.some.inj h_gone
      exact h_old _ h_run rfl i
    | cascadeFlags h_sweep =>
      obtain rfl := Option.some.inj h_gone
      exact h_old _ h_run rfl i
    | _ => exact absurd h_gone (by simp [Pc.gone])
  · have h_acts : Acts tx sys ⟨db, Function.update sys.activity tx (.running c')⟩ :=
      .exec h_run h_exec
    rw [h tx' c'' gone h_run' h_gone i]
    exact (h_lock.purging_other h_acts (fun h_eq => h_tx h_eq.symm)).symm

/-- The end of a transaction releases its deletions, and the session that carried the keys is
over. -/
theorem Purges.ends (h : Purges sys) {a : Activity} (h_over : a.Over)
    (h_rows : ∀ i, (sys.db.rows.cell i).Ends tx (db.rows.cell i)) :
    Purges ⟨db, Function.update sys.activity tx a⟩ := by
  intro tx' c gone h_run h_gone i
  rcases running_update h_run with ⟨rfl, h_eq⟩ | ⟨h_tx, h_run⟩
  · exact absurd h_eq (h_over c)
  · rw [h tx' c gone h_run h_gone i]
    show _ ↔ (db.rows.cell i).lock = _
    rw [(h_rows i).lock]
    exact ⟨fun h_purging => ⟨h_purging, h_tx⟩, And.left⟩

/-- So every step keeps them in step, -/
theorem Purges.step (h : Purges sys) (h_lock : Locking sys) (h_step : Step allowed sys sys') :
    Purges sys' := by
  cases h_step with
  | @begin tx op h_idle h_op =>
    intro tx' c gone h_run h_gone i
    rcases running_update h_run with ⟨-, h_eq⟩ | ⟨-, h_run⟩
    · obtain rfl := Activity.running.inj h_eq
      exact absurd h_gone (by cases op <;> simp [Session.start, Pc.gone])
    · exact h tx' c gone h_run h_gone i
  | exec h_run h_exec => exact h.exec h_lock h_run h_exec
  | @commit tx op reply existing drawn h_run =>
    exact h.ends (fun s h_s => by simp at h_s) (rows_endOf tx op sys.db)
  | @abort tx s h_run => exact h.ends (fun s h_s => by simp at h_s) (rows_rollback tx sys.db)

/-- from a start at which nothing is purged, -/
theorem Purges.quiet (s : Store) : Purges (.quiet s) :=
  fun _ _ _ h_run => absurd h_run (by simp [System.quiet])

/-- in every run. -/
theorem Purges.reaches {s : Store} (h_s : s.Reachable) (h : Reaches allowed s sys) :
    Purges sys := by
  induction h with
  | refl => exact .quiet s
  | tail h_run h_step ih => exact ih.step (.reaches h_s h_run) h_step

/-! ### Hit rows -/

/-- What a session holds on a hit row: a hit it has inserted, or a deletion by retention, for its
age or for its fingerprint. `purging` is what the transaction is purging, so that a cascade is
only ever below that. -/
inductive ShedsHit (purging : ℤ → Prop) : Session → Option Hit → Option (Option Hit) → Prop
  | insert {enc : EncryptText} {a : HitArgs} {pc : Pc} {hit : Hit} :
      ShedsHit purging ⟨.reportHit enc a, pc, none, none⟩ none (some (some hit))
  | expire {p : RetentionPolicy} {nowMs : ℤ} {dryRun : Bool} {pc : Pc} {hit : Hit}
      (h_expired : p.expiresHit nowMs hit = true) :
      ShedsHit purging ⟨.applyRetention p nowMs dryRun, pc, none, none⟩ (some hit) (some none)
  | cascade {p : RetentionPolicy} {nowMs : ℤ} {dryRun : Bool} {pc : Pc} {hit : Hit}
      (h_gone : purging hit.fingerprintId) :
      ShedsHit purging ⟨.applyRetention p nowMs dryRun, pc, none, none⟩ (some hit) (some none)

/-- Purging more sheds no less. -/
theorem ShedsHit.mono {purging purging' : ℤ → Prop} {o : Option Hit} {d : Option (Option Hit)}
    (h_purging : ∀ i, purging i → purging' i) (h_call : c'.call = c.call)
    (h_plain : c'.existing = none ∧ c'.drawn = none) (h : ShedsHit purging c o d) :
    ShedsHit purging' c' o d := by
  obtain ⟨call', pc', existing', drawn'⟩ := c'
  obtain ⟨rfl, rfl⟩ := h_plain
  cases h with
  | insert => obtain rfl := h_call; exact .insert
  | expire h_expired => obtain rfl := h_call; exact .expire h_expired
  | cascade h_gone => obtain rfl := h_call; exact .cascade (h_purging _ h_gone)

/-- Such a session has drawn nothing and has no row in mind. -/
theorem ShedsHit.plain {purging : ℤ → Prop} {o : Option Hit} {d : Option (Option Hit)}
    (h : ShedsHit purging c o d) : c.existing = none ∧ c.drawn = none := by
  cases h with
  | insert => exact ⟨rfl, rfl⟩
  | expire _ => exact ⟨rfl, rfl⟩
  | cascade _ => exact ⟨rfl, rfl⟩

/-- The locks on the hit rows are what the sessions say they are, with retention among the calls.
-/
structure HitCells (sys : System) : Prop where
  /-- A row beyond the identity column has never been touched. -/
  fresh : ∀ k, sys.db.lastHitId < k → sys.db.hits.cell k = .empty
  owns : ∀ k, (sys.db.hits.cell k).OwnedBy fun tx o d =>
    ∃ c, sys.activity tx = .running c ∧ ShedsHit (sys.db.Purging tx) c o d

/-- A session keeps what it holds on a hit row from statement to statement. -/
theorem ShedsHit.exec {db' : Db} (h_exec : Exec tx db c db' c') {purging purging' : ℤ → Prop}
    (h_purging : ∀ i, purging i → purging' i) {o : Option Hit} {d : Option (Option Hit)}
    (h : ShedsHit purging c o d) : ShedsHit purging' c' o d := by
  refine h.mono h_purging h_exec.call_eq ?_
  cases h with
  | insert => cases h_exec <;> exact ⟨rfl, rfl⟩
  | expire h_expired => cases h_exec <;> exact ⟨rfl, rfl⟩
  | cascade h_gone => cases h_exec <;> exact ⟨rfl, rfl⟩

/-- A sweep of retention over the hits deletes what it may: rows that match its `WHERE`, of which
it has deleted none before. -/
theorem HitCells.move_sweep (h : HitCells sys) {p : RetentionPolicy} {nowMs : ℤ} {dryRun : Bool}
    {pc : Pc} (h_run : sys.activity tx = .running ⟨.applyRetention p nowMs dryRun, pc, none, none⟩)
    {q : Hit → Bool} {todo : Option (List ℤ)} {hits : Versioned ℤ Hit} {todo' : List ℤ}
    {acted : Bool}
    (h_sweep : Versioned.Sweep tx q (fun _ => none) sys.db.hits todo hits todo' acted)
    {own : Option Hit → Option (Option Hit) → Prop}
    (h_keep : ∀ o d, ShedsHit (sys.db.Purging tx) ⟨.applyRetention p nowMs dryRun, pc, none, none⟩
      o d → own o d)
    (h_act : ∀ hit, q hit = true → own (some hit) (some none)) (k : ℤ) :
    (sys.db.hits.cell k).Move (ShedsHit (sys.db.Purging tx)
      ⟨.applyRetention p nowMs dryRun, pc, none, none⟩) own tx (hits.cell k) := by
  rcases h_sweep.touch k with h_same | ⟨hit, h_free, h_view, h_where, h_cell⟩
  · rw [h_same]
    exact .same h_keep
  · rw [h_cell]
    cases h_l : (sys.db.hits.cell k).lock with
    | none =>
      rw [Cell.view_of_lock_none h_l] at h_view
      refine .taken h_l ?_
      rw [h_view]
      exact h_act hit h_where
    | some l =>
      -- what it holds it has deleted, and does not see any more
      exfalso
      obtain ⟨c', h_run', h_sheds⟩ := h.owns k l h_l
      rw [h_free l h_l] at h_run'
      obtain rfl := Activity.running.inj (h_run.symm.trans h_run')
      rw [Cell.view_of_lock h_l (h_free l h_l)] at h_view
      generalize l.draft = d at h_sheds h_view
      generalize (sys.db.hits.cell k).committed = o at h_sheds h_view
      cases h_sheds with
      | expire h_expired => exact absurd h_view (by simp)
      | cascade h_gone => exact absurd h_view (by simp)

/-- **What a statement does to a hit row.** Three statements write hits: the `INSERT` of
`report_hit`, the `DELETE` by age, and the cascade. -/
theorem HitCells.move (h : HitCells sys) (h_lock : Locking sys) (h_purges : Purges sys)
    (h_run : sys.activity tx = .running c) (h_exec : Exec tx sys.db c db c') (k : ℤ) :
    (sys.db.hits.cell k).Move (ShedsHit (sys.db.Purging tx) c) (ShedsHit (db.Purging tx) c') tx
      (db.hits.cell k) := by
  have h_keep : ∀ o d, ShedsHit (sys.db.Purging tx) c o d → ShedsHit (db.Purging tx) c' o d :=
    fun o d => .exec h_exec fun i => h_lock.purging_exec h_run h_exec
  cases h_exec with
  | @insertHit enc a =>
    by_cases h_k : k = sys.db.lastHitId + 1
    -- the new row takes an id that was never touched
    · subst h_k
      have h_empty := h.fresh (sys.db.lastHitId + 1) (Int.lt_succ _)
      change Cell.Move _ _ tx _ (Versioned.cell (Versioned.set _ _ _) _)
      rw [Versioned.cell_set_self, h_empty]
      exact .taken rfl .insert
    · change Cell.Move _ _ tx _ (Versioned.cell (Versioned.set _ _ _) _)
      rw [Versioned.cell_set_of_ne _ h_k]
      exact .same h_keep
  | expireHits h_sweep =>
    exact h.move_sweep h_run h_sweep h_keep (fun hit h_where => .expire h_where) k
  | cascadeHits h_sweep =>
    refine h.move_sweep h_run h_sweep h_keep (fun hit h_where => .cascade ?_) k
    -- the keys it carries are those of the rows it has deleted
    exact (h_purges tx _ _ h_run rfl _).mp (by simpa using h_where)
  | _ => exact .same h_keep

/-- At the start no hit is locked. -/
theorem HitCells.quiet {s : Store} (h_wf : s.Wf) : HitCells (.quiet s) where
  fresh := (HitLocks.quiet h_wf).fresh
  owns := fun k => Versioned.ownedBy_ofTable s.hits k _

/-- A statement keeps the locks on the hit rows, -/
theorem HitCells.exec (h : HitCells sys) (h_lock : Locking sys) (h_purges : Purges sys)
    (h_run : sys.activity tx = .running c) (h_exec : Exec tx sys.db c db c') :
    HitCells ⟨db, Function.update sys.activity tx (.running c')⟩ where
  fresh := by
    intro k h_lt
    have h_empty := h.fresh k (lt_of_le_of_lt h_exec.sequences_le.2.2 h_lt)
    have h_move := h.move h_lock h_purges h_run h_exec k
    change db.lastHitId < k at h_lt
    change db.hits.cell k = .empty
    rw [h_empty] at h_move
    cases h_exec with
    -- the statement inserts below the new bound, and retention acts on rows it can see
    | insertHit => exact (Versioned.cell_set_of_ne _ h_lt.ne' _).trans h_empty
    | expireHits h_sweep =>
      rcases h_sweep.touch k with h_same | ⟨hit, -, h_view, -, -⟩
      · exact h_same.trans h_empty
      · rw [h_empty] at h_view
        exact absurd h_view (by simp [Versioned.view_empty])
    | cascadeHits h_sweep =>
      rcases h_sweep.touch k with h_same | ⟨hit, -, h_view, -, -⟩
      · exact h_same.trans h_empty
      · rw [h_empty] at h_view
        exact absurd h_view (by simp [Versioned.view_empty])
    | _ => exact h_empty
  owns := by
    intro k
    refine OwnedBy.exec (h.owns k) h_run db (h.move h_lock h_purges h_run h_exec k) ?_
    intro tx' c₀ o d h_tx h_sheds
    -- another retention run still purges what it has deleted
    have h_acts : Acts tx sys ⟨db, Function.update sys.activity tx (.running c')⟩ :=
      .exec h_run h_exec
    refine h_sheds.mono ?_ rfl h_sheds.plain
    intro i h_purging
    exact (h_lock.purging_other h_acts (fun h_eq => h_tx h_eq.symm)).mpr h_purging

/-- the end of a transaction does, -/
theorem HitCells.ends (h : HitCells sys) {a : Activity}
    (h_rows : ∀ i, (sys.db.rows.cell i).Ends tx (db.rows.cell i))
    (h_hits : ∀ k, (sys.db.hits.cell k).Ends tx (db.hits.cell k))
    (h_last : db.lastHitId = sys.db.lastHitId) :
    HitCells ⟨db, Function.update sys.activity tx a⟩ where
  fresh := by
    intro k h_lt
    change db.lastHitId < k at h_lt
    rw [h_last] at h_lt
    have h_empty := h.fresh k h_lt
    have h_ends := h_hits k
    rw [h_empty] at h_ends
    exact h_ends.of_empty
  owns := by
    intro k
    refine OwnedBy.ended (h.owns k) (h_hits k) db a ?_
    intro tx' c₀ o d h_tx h_sheds
    refine h_sheds.mono ?_ rfl h_sheds.plain
    intro i h_purging
    exact ((h_rows i).lock _).mpr ⟨h_purging, h_tx⟩

/-- and so does every step, -/
theorem HitCells.step (h : HitCells sys) (h_lock : Locking sys) (h_purges : Purges sys)
    (h_step : Step allowed sys sys') : HitCells sys' := by
  cases h_step with
  | @begin tx op h_idle h_op =>
    exact ⟨h.fresh, fun k => OwnedBy.begun (h.owns k) h_idle _⟩
  | exec h_run h_exec => exact h.exec h_lock h_purges h_run h_exec
  | @commit tx op reply existing drawn h_run =>
    refine h.ends (rows_endOf tx op sys.db) (hits_endOf tx op sys.db) ?_
    unfold endOf
    split <;> rfl
  | @abort tx s h_run => exact h.ends (rows_rollback tx sys.db) (hits_rollback tx sys.db) rfl

/-- in every run. -/
theorem HitCells.reaches {s : Store} (h_s : s.Reachable) (h : Reaches allowed s sys) :
    HitCells sys := by
  induction h with
  | refl => exact .quiet h_s.wf
  | tail h_run h_step ih => exact ih.step (.reaches h_s h_run) (.reaches h_s h_run) h_step

/-- **A hit row that disappears** is older than the cutoff of the retention run that commits, or
that run purges its fingerprint. Nothing but a commit takes it, and nothing but retention has
drafted its deletion. -/
theorem HitCells.hit_step (h : HitCells sys) (h_lock : Locking sys) (h_purges : Purges sys)
    (h_step : Step allowed sys sys') {k : ℤ} {hit : Hit}
    (h_hit : (sys.db.hits.cell k).committed = some hit) :
    (sys'.db.hits.cell k).committed = some hit ∨
    ∃ tx p nowMs reply,
      sys.activity tx = .running ⟨.applyRetention p nowMs false, .finish reply, none, none⟩ ∧
      sys'.db = sys.db.commit tx ∧
      (p.expiresHit nowMs hit = true ∨ sys.db.Purging tx hit.fingerprintId) := by
  obtain ⟨tx, h_acts⟩ := h_step.acts
  cases h_acts with
  | begin h_db => rw [h_db]; exact Or.inl h_hit
  | exec h_run h_exec =>
    rw [(h.move h_lock h_purges h_run h_exec k).committed]
    exact Or.inl h_hit
  | @commit op reply existing drawn h_run h_done h_db =>
    cases h_dry : dryRuns op with
    | true =>
      -- a preview is rolled back
      refine Or.inl ?_
      rw [h_db, endOf, h_dry, if_pos rfl]
      show ((sys.db.hits.rollback tx).cell k).committed = _
      rw [Versioned.committed_cell_rollback]
      exact h_hit
    | false =>
      have h_commit : sys'.db = sys.db.commit tx := by
        rw [h_db, endOf, h_dry]
        rfl
      rcases (hits_endOf tx op sys.db k).committed with h_same | ⟨l, d, h_l, h_holder, h_d, h_c⟩
      · rw [h_db]
        exact Or.inl (h_same.trans h_hit)
      · -- the draft of a hit that was committed before is a deletion
        obtain ⟨c, h_run', h_sheds⟩ := h.owns k l h_l
        rw [h_holder] at h_run' h_sheds
        obtain rfl := Activity.running.inj (h_run.symm.trans h_run')
        rw [h_hit, h_d] at h_sheds
        generalize h_o : some hit = o at h_sheds
        cases h_sheds with
        | insert => exact absurd h_o (by simp)
        | @expire p nowMs dryRun _ _ h_expired =>
          obtain rfl := Option.some.inj h_o
          obtain rfl : dryRun = false := h_dry
          exact Or.inr ⟨tx, p, nowMs, reply, h_run, h_commit, Or.inl h_expired⟩
        | @cascade p nowMs dryRun _ _ h_gone =>
          obtain rfl := Option.some.inj h_o
          obtain rfl : dryRun = false := h_dry
          exact Or.inr ⟨tx, p, nowMs, reply, h_run, h_commit, Or.inr h_gone⟩
  | abort h_db =>
    rw [h_db]
    refine Or.inl ?_
    show ((sys.db.hits.rollback tx).cell k).committed = _
    rw [Versioned.committed_cell_rollback]
    exact h_hit

/-! ### Flag rows -/

/-- What a session holds on a flag row: what `flag` and `contribute` hold (`OwnsFlag`), and
for retention a flag whose reason it has cleared, or a deletion for its fingerprint. -/
inductive ShedsFlag (purging : ℤ → Prop) : Session → ℤ × ℤ → Option Flag →
    Option (Option Flag) → Prop
  | own {c : Session} {k : ℤ × ℤ} {o : Option Flag} {d : Option (Option Flag)}
      (h_owns : OwnsFlag c k o d) : ShedsFlag purging c k o d
  | clearReason {p : RetentionPolicy} {nowMs : ℤ} {dryRun : Bool} {pc : Pc} {k : ℤ × ℤ} {f : Flag} :
      ShedsFlag purging ⟨.applyRetention p nowMs dryRun, pc, none, none⟩ k (some f)
        (some (some (clearReason f)))
  | cascade {p : RetentionPolicy} {nowMs : ℤ} {dryRun : Bool} {pc : Pc} {k : ℤ × ℤ} {f : Flag}
      (h_gone : purging k.1) :
      ShedsFlag purging ⟨.applyRetention p nowMs dryRun, pc, none, none⟩ k (some f) (some none)

/-- The locks on the flag rows are what the sessions say they are, retention included. -/
structure FlagCells (sys : System) : Prop where
  owns : ∀ k, (sys.db.flags.cell k).OwnedBy fun tx o d =>
    ∃ c, sys.activity tx = .running c ∧ ShedsFlag (sys.db.Purging tx) c k o d
  keyed : ∀ k f, (sys.db.flags.cell k).committed = some f → f.key = k

section Sheds

variable {purging purging' : ℤ → Prop} {k : ℤ × ℤ} {o : Option Flag} {d : Option (Option Flag)}

/-- Without retention there is nothing else to hold. -/
theorem ShedsFlag.owns (h : ShedsFlag purging c k o d) (h_call : NoRetention c.call) :
    OwnsFlag c k o d := by
  cases h with
  | own h_owns => exact h_owns
  | clearReason => exact h_call.elim
  | cascade h_gone => exact h_call.elim

/-- Purging more sheds no less. -/
theorem ShedsFlag.mono (h_purging : ∀ i, purging i → purging' i)
    (h : ShedsFlag purging c k o d) : ShedsFlag purging' c k o d := by
  cases h with
  | own h_owns => exact .own h_owns
  | clearReason => exact .clearReason
  | cascade h_gone => exact .cascade (h_purging _ h_gone)

/-- Retention keeps what it holds from statement to statement. -/
theorem ShedsFlag.retain {p : RetentionPolicy} {nowMs : ℤ} {dryRun : Bool} {pc pc' : Pc}
    (h_purging : ∀ i, purging i → purging' i)
    (h : ShedsFlag purging ⟨.applyRetention p nowMs dryRun, pc, none, none⟩ k o d) :
    ShedsFlag purging' ⟨.applyRetention p nowMs dryRun, pc', none, none⟩ k o d := by
  cases h with
  | own h_owns => exact nomatch h_owns
  | clearReason => exact .clearReason
  | cascade h_gone => exact .cascade (h_purging _ h_gone)

/-- The version it holds lies under the key. -/
theorem ShedsFlag.key {f : Flag} (h : ShedsFlag purging c k o (some (some f)))
    (h_keyed : ∀ f, o = some f → f.key = k) : f.key = k := by
  generalize h_d : (some (some f) : Option (Option Flag)) = d at h
  cases h with
  | own h_owns =>
    cases h_owns with
    | insert _ h_key _ =>
      obtain rfl := Option.some.inj (Option.some.inj h_d)
      exact h_key
    | clear _ => exact absurd h_d (by simp)
  | clearReason =>
    obtain rfl := Option.some.inj (Option.some.inj h_d)
    have h_key := h_keyed _ rfl
    exact h_key
  | cascade h_gone => exact absurd h_d (by simp)

end Sheds

/-- What a running session holds on a flag row. -/
theorem FlagCells.sheds_of_lock (h : FlagCells sys) (h_run : sys.activity tx = .running c)
    {k : ℤ × ℤ} {l : RowLock Flag} (h_l : (sys.db.flags.cell k).lock = some l)
    (h_holder : l.holder = tx) :
    ShedsFlag (sys.db.Purging tx) c k (sys.db.flags.cell k).committed l.draft := by
  obtain ⟨c', h_run', h_sheds⟩ := h.owns k l h_l
  rw [h_holder] at h_run' h_sheds
  obtain rfl := Activity.running.inj (h_run.symm.trans h_run')
  exact h_sheds

/-- What a transaction reads lies under its key. -/
theorem FlagCells.view_keyed (h : FlagCells sys) {k : ℤ × ℤ} {f : Flag}
    (h_view : (sys.db.flags.cell k).view tx = some f) : f.key = k := by
  -- its own draft, or what is committed
  by_cases h_held : (sys.db.flags.cell k).Held tx
  · obtain ⟨l, h_l, h_holder⟩ := h_held
    obtain ⟨c, -, h_sheds⟩ := h.owns k l h_l
    rw [Cell.view_of_lock h_l h_holder] at h_view
    cases h_d : l.draft with
    | none =>
      rw [h_d] at h_view
      exact h.keyed k f h_view
    | some d =>
      rw [h_d] at h_view h_sheds
      obtain rfl : d = some f := h_view
      exact h_sheds.key (h.keyed k)
  · rw [Cell.view_of_not_held h_held] at h_view
    exact h.keyed k f h_view

/-- A sweep of retention over the flags writes what it may. A flag whose reason it has cleared may
match again, and `h_again` is for that. -/
theorem FlagCells.move_sweep (h : FlagCells sys) {p : RetentionPolicy} {nowMs : ℤ} {dryRun : Bool}
    {pc : Pc} (h_run : sys.activity tx = .running ⟨.applyRetention p nowMs dryRun, pc, none, none⟩)
    {q : Flag → Bool} {act : Flag → Option Flag} {todo : Option (List (ℤ × ℤ))}
    {flags : Versioned (ℤ × ℤ) Flag} {todo' : List (ℤ × ℤ)} {acted : Bool}
    (h_sweep : Versioned.Sweep tx q act sys.db.flags todo flags todo' acted) {k : ℤ × ℤ}
    {own : Option Flag → Option (Option Flag) → Prop}
    (h_keep : ∀ o d, ShedsFlag (sys.db.Purging tx) ⟨.applyRetention p nowMs dryRun, pc, none, none⟩
      k o d → own o d)
    (h_act : ∀ f, f.key = k → q f = true → own (some f) (some (act f)))
    (h_again : ∀ f, f.key = k → q (clearReason f) = true →
      own (some f) (some (act (clearReason f)))) :
    (sys.db.flags.cell k).Move (ShedsFlag (sys.db.Purging tx)
      ⟨.applyRetention p nowMs dryRun, pc, none, none⟩ k) own tx (flags.cell k) := by
  rcases h_sweep.touch k with h_same | ⟨f, h_free, h_view, h_where, h_cell⟩
  · rw [h_same]
    exact .same h_keep
  · rw [h_cell]
    cases h_l : (sys.db.flags.cell k).lock with
    | none =>
      rw [Cell.view_of_lock_none h_l] at h_view
      refine .taken h_l ?_
      rw [h_view]
      exact h_act f (h.keyed k f h_view) h_where
    | some l =>
      -- a flag it holds already: its reason is cleared, or it is gone
      have h_holder := h_free l h_l
      have h_sheds := h.sheds_of_lock h_run h_l h_holder
      refine .written ⟨l, h_l, h_holder⟩ ?_
      rw [Cell.view_of_lock h_l h_holder] at h_view
      have h_keyed := h.keyed k
      generalize l.draft = d at h_sheds h_view
      generalize (sys.db.flags.cell k).committed = o at h_sheds h_view h_keyed
      cases h_sheds with
      | own h_owns => exact nomatch h_owns
      | clearReason =>
        obtain rfl := Option.some.inj h_view
        exact h_again _ (h_keyed _ rfl) h_where
      | cascade h_gone => exact absurd h_view (by simp)

/-- **What a statement does to a flag row.** Beside the statements of `flag` and `contribute`,
retention clears reasons and cascades. -/
theorem FlagCells.move (h : FlagCells sys) (h_lock : Locking sys) (h_purges : Purges sys)
    (h_run : sys.activity tx = .running c) (h_exec : Exec tx sys.db c db c') (k : ℤ × ℤ) :
    (sys.db.flags.cell k).Move (ShedsFlag (sys.db.Purging tx) c k) (ShedsFlag (db.Purging tx) c' k)
      tx (db.flags.cell k) := by
  by_cases h_call : NoRetention c.call
  · -- `flag` and `contribute` move flags as they do without retention
    have h_owns : ∀ l, (sys.db.flags.cell k).lock = some l → l.holder = tx →
        OwnsFlag c k (sys.db.flags.cell k).committed l.draft :=
      fun l h_l h_holder => (h.sheds_of_lock h_run h_l h_holder).owns h_call
    refine (h_exec.flagMove h_call h_owns (h.keyed k)).mono ?_ (fun o d => .own)
    exact fun o d h_sheds => h_sheds.owns h_call
  · have h_purging : ∀ i, sys.db.Purging tx i → db.Purging tx i :=
      fun i => h_lock.purging_exec h_run h_exec
    cases h_exec with
    | clearReasons h_sweep =>
      refine h.move_sweep h_run h_sweep (fun o d => .retain h_purging) ?_ ?_
      · intro f h_key h_where
        exact .clearReason
      · -- a reason that is cleared is not cleared again
        intro f h_key h_where
        exact absurd h_where (by simp [RetentionPolicy.clearsReason, FingerprintHub.clearReason])
    | @cascadeFlags p nowMs dryRun n todo flags todo' gone acted h_sweep =>
      -- the keys it carries are those of the rows it has deleted
      have h_gone : ∀ f : Flag, f.key = k → f.fingerprintId ∈ gone → sys.db.Purging tx k.1 := by
        rintro f rfl h_mem
        exact (h_purges tx _ gone h_run rfl _).mp h_mem
      refine h.move_sweep h_run h_sweep (fun o d => .retain h_purging) ?_ ?_
      · intro f h_key h_where
        exact .cascade (h_gone f h_key (by simpa using h_where))
      · intro f h_key h_where
        exact .cascade (h_gone f h_key (of_decide_eq_true h_where))
    -- the other statements of retention leave the flags alone
    | refuse _ => exact .same (fun o d => .retain h_purging)
    | accept _ => exact .same (fun o d => .retain h_purging)
    | expireHits _ => exact .same (fun o d => .retain h_purging)
    | expireHitsDone => exact .same (fun o d => .retain h_purging)
    | clearReasonsDone => exact .same (fun o d => .retain h_purging)
    | purge _ => exact .same (fun o d => .retain h_purging)
    | purgeDone => exact .same (fun o d => .retain h_purging)
    | cascadeHits _ => exact .same (fun o d => .retain h_purging)
    | cascadeHitsDone => exact .same (fun o d => .retain h_purging)
    | cascadeFlagsDone => exact .same (fun o d => .retain h_purging)
    | anonymize _ => exact .same (fun o d => .retain h_purging)
    | anonymizeDone => exact .same (fun o d => .retain h_purging)
    | _ => exact absurd trivial h_call

/-- At the start no flag is locked. -/
theorem FlagCells.quiet (s : Store) : FlagCells (.quiet s) where
  owns := fun k => Versioned.ownedBy_ofTable s.flags k _
  keyed := (FlagLocks.quiet s).keyed

/-- A statement keeps the locks on the flag rows, -/
theorem FlagCells.exec (h : FlagCells sys) (h_lock : Locking sys) (h_purges : Purges sys)
    (h_run : sys.activity tx = .running c) (h_exec : Exec tx sys.db c db c') :
    FlagCells ⟨db, Function.update sys.activity tx (.running c')⟩ where
  owns := by
    intro k
    refine OwnedBy.exec (h.owns k) h_run db (h.move h_lock h_purges h_run h_exec k) ?_
    intro tx' c₀ o d h_tx h_sheds
    have h_acts : Acts tx sys ⟨db, Function.update sys.activity tx (.running c')⟩ :=
      .exec h_run h_exec
    refine h_sheds.mono (fun i h_purging => ?_)
    exact (h_lock.purging_other h_acts (fun h_eq => h_tx h_eq.symm)).mpr h_purging
  keyed := by
    intro k f h_f
    change (db.flags.cell k).committed = some f at h_f
    rw [(h.move h_lock h_purges h_run h_exec k).committed] at h_f
    exact h.keyed k f h_f

/-- the end of a transaction does, -/
theorem FlagCells.ends (h : FlagCells sys) {a : Activity}
    (h_rows : ∀ i, (sys.db.rows.cell i).Ends tx (db.rows.cell i))
    (h_flags : ∀ k, (sys.db.flags.cell k).Ends tx (db.flags.cell k)) :
    FlagCells ⟨db, Function.update sys.activity tx a⟩ where
  owns := by
    intro k
    refine OwnedBy.ended (h.owns k) (h_flags k) db a ?_
    intro tx' c₀ o d h_tx h_sheds
    refine h_sheds.mono (fun i h_purging => ?_)
    exact ((h_rows i).lock _).mpr ⟨h_purging, h_tx⟩
  keyed := by
    intro k f h_f
    change (db.flags.cell k).committed = some f at h_f
    rcases (h_flags k).committed with h_same | ⟨l, d, h_l, -, h_d, h_c⟩
    · exact h.keyed k f (h_same.symm.trans h_f)
    · obtain ⟨c₀, -, h_sheds⟩ := h.owns k l h_l
      rw [h_d, ← h_c, h_f] at h_sheds
      exact h_sheds.key (h.keyed k)

/-- and so does every step, -/
theorem FlagCells.step (h : FlagCells sys) (h_lock : Locking sys) (h_purges : Purges sys)
    (h_step : Step allowed sys sys') : FlagCells sys' := by
  cases h_step with
  | @begin tx op h_idle h_op =>
    exact ⟨fun k => OwnedBy.begun (h.owns k) h_idle _, h.keyed⟩
  | exec h_run h_exec => exact h.exec h_lock h_purges h_run h_exec
  | @commit tx op reply existing drawn h_run =>
    exact h.ends (rows_endOf tx op sys.db) (flags_endOf tx op sys.db)
  | @abort tx s h_run => exact h.ends (rows_rollback tx sys.db) (flags_rollback tx sys.db)

/-- in every run. -/
theorem FlagCells.reaches {s : Store} (h_s : s.Reachable) (h : Reaches allowed s sys) :
    FlagCells sys := by
  induction h with
  | refl => exact .quiet s
  | tail h_run h_step ih => exact ih.step (.reaches h_s h_run) (.reaches h_s h_run) h_step

/-- **A flag row changes only by a commit**, to the draft the committing session held. -/
theorem FlagCells.flag_step (h : FlagCells sys) (h_lock : Locking sys) (h_purges : Purges sys)
    (h_step : Step allowed sys sys') (k : ℤ × ℤ) :
    (sys'.db.flags.cell k).committed = (sys.db.flags.cell k).committed ∨
    ∃ tx op reply existing drawn d,
      sys.activity tx = .running ⟨op, .finish reply, existing, drawn⟩ ∧
      sys'.activity tx = .done op reply ∧ sys'.db = sys.db.commit tx ∧
      ShedsFlag (sys.db.Purging tx) ⟨op, .finish reply, existing, drawn⟩ k
        (sys.db.flags.cell k).committed (some d) ∧
      (sys'.db.flags.cell k).committed = d := by
  obtain ⟨tx, h_acts⟩ := h_step.acts
  cases h_acts with
  | begin h_db => rw [h_db]; exact Or.inl rfl
  | exec h_run h_exec => exact Or.inl (h.move h_lock h_purges h_run h_exec k).committed
  | @commit op reply existing drawn h_run h_done h_db =>
    cases h_dry : dryRuns op with
    | true =>
      rw [h_db, endOf, h_dry, if_pos rfl]
      refine Or.inl ?_
      show ((sys.db.flags.rollback tx).cell k).committed = _
      rw [Versioned.committed_cell_rollback]
    | false =>
      -- a run that is no preview commits
      have h_commit : sys'.db = sys.db.commit tx := by
        rw [h_db, endOf, h_dry]
        rfl
      rcases (flags_endOf tx op sys.db k).committed with h_same | ⟨l, d, h_l, h_holder, h_d, h_c⟩
      · rw [h_db]
        exact Or.inl h_same
      · have h_sheds := h.sheds_of_lock h_run h_l h_holder
        rw [h_d] at h_sheds
        rw [← h_db] at h_c
        exact Or.inr ⟨tx, op, reply, existing, drawn, d, h_run, h_done, h_commit, h_sheds, h_c⟩
  | abort h_db =>
    rw [h_db]
    refine Or.inl ?_
    show ((sys.db.flags.rollback tx).cell k).committed = _
    rw [Versioned.committed_cell_rollback]

/-- A flag row that a transaction holds is left alone by the others. -/
theorem FlagCells.flag_other (h : FlagCells sys) (h_lock : Locking sys) (h_purges : Purges sys)
    {tx' : ℕ} (h_acts : Acts tx' sys sys') (h_ne : tx' ≠ tx) {k : ℤ × ℤ}
    (h_held : (sys.db.flags.cell k).Held tx) : sys'.db.flags.cell k = sys.db.flags.cell k := by
  have h_not : ¬ (sys.db.flags.cell k).Held tx' := fun h' => h_ne (h'.unique h_held)
  obtain ⟨l, h_l, rfl⟩ := h_held
  cases h_acts with
  | begin h_db => rw [h_db]
  | exec h_run h_exec =>
    exact (h.move h_lock h_purges h_run h_exec k).eq_of_ne h_l (fun h_eq => h_ne h_eq.symm)
  | commit _ _ h_db => rw [h_db]; exact (flags_endOf _ _ _ k).same h_not
  | abort h_db => rw [h_db]; exact (flags_rollback _ _ k).same h_not

end Concurrent
end FingerprintHub
