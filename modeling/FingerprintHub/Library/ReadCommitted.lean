import FingerprintHub.Library.Table

/-!
# Rows under READ COMMITTED

The versions of one row are a `Cell`: the newest committed version, and the lock
of the transaction that is working on it, with the version that transaction has
written, if it has written one. A transaction reads its own version where it has
one and the committed version everywhere else (`view`). It takes a lock only when
no other transaction holds it (`Free`), writes only under its lock, and gives its
locks back when it commits or rolls back.

A `Versioned` table is a finite map from keys to cells. It is read through `cell`;
`cell_set` and `cell_map` say what is under a key after one cell is replaced and
after a commit. `snapshot` is the table of what is committed.

`Sweep` is a statement over many rows, an `UPDATE` or a `DELETE` with a `WHERE`. It
finds its rows when it starts. It then takes them one by one, waits for the lock of
each, and reads the `WHERE` once more on the version it finds there.
-/

namespace FingerprintHub

/-- A lock: who holds it, and the version its holder has written; `some none` is a deletion, and
`none` a lock that was taken without a write. -/
structure RowLock (ρ : Type) where
  holder : ℕ
  draft : Option (Option ρ)

/-- The versions of a row that matter: the committed one, and the one of the transaction that
holds the lock. Older versions are of no interest at READ COMMITTED, where every statement reads
the newest. -/
structure Cell (ρ : Type) where
  committed : Option ρ
  lock : Option (RowLock ρ)

namespace Cell

variable {ρ : Type} (tx : ℕ) (c : Cell ρ)

/-- No version of the row exists. -/
def empty : Cell ρ := ⟨none, none⟩

/-- The lock is held by the transaction. -/
def Held : Prop := ∃ l, c.lock = some l ∧ l.holder = tx

/-- No other transaction holds the lock. -/
def Free : Prop := ∀ l, c.lock = some l → l.holder = tx

/-- Another transaction has written a version it has not committed. Whoever needs to know whether
it will be there has to wait. -/
def InProgress : Prop := ∃ l, c.lock = some l ∧ l.holder ≠ tx ∧ l.draft ≠ none

/-- The version a transaction reads: its own where it has written one, and the committed one
everywhere else. -/
def view : Option ρ :=
  match c.lock with
  | some l => if l.holder = tx then l.draft.getD c.committed else c.committed
  | none => c.committed

/-- `SELECT … FOR UPDATE`. -/
def acquire : Cell ρ :=
  match c.lock with
  | some _ => c
  | none => { c with lock := some ⟨tx, none⟩ }

/-- A version is written under the lock. -/
def write (version : Option ρ) : Cell ρ := { c with lock := some ⟨tx, some version⟩ }

/-- The transaction commits. -/
def commit : Cell ρ :=
  match c.lock with
  | some l => if l.holder = tx then ⟨l.draft.getD c.committed, none⟩ else c
  | none => c

/-- The transaction rolls back. -/
def rollback : Cell ρ :=
  match c.lock with
  | some l => if l.holder = tx then ⟨c.committed, none⟩ else c
  | none => c

@[simp] theorem commit_empty : (empty : Cell ρ).commit tx = empty := rfl
@[simp] theorem rollback_empty : (empty : Cell ρ).rollback tx = empty := rfl

@[simp] theorem committed_write (v : Option ρ) : (c.write tx v).committed = c.committed := rfl

@[simp] theorem lock_write (v : Option ρ) : (c.write tx v).lock = some ⟨tx, some v⟩ := rfl

@[simp] theorem committed_acquire : (c.acquire tx).committed = c.committed := by
  unfold acquire
  split <;> rfl

variable {tx c}

/-- Who holds the row is the holder of its lock. -/
theorem Held.holder_eq {l : RowLock ρ} (h : c.Held tx) (h_lock : c.lock = some l) :
    l.holder = tx := by
  obtain ⟨l', h_lock', h_holder⟩ := h
  obtain rfl : l = l' := Option.some.inj (h_lock.symm.trans h_lock')
  exact h_holder

/-- A row has one holder. -/
theorem Held.unique {tx' : ℕ} (h : c.Held tx) (h' : c.Held tx') : tx = tx' := by
  obtain ⟨l, h_lock, rfl⟩ := h
  exact h'.holder_eq h_lock

/-- A row that another transaction has locked is not held. -/
theorem not_held_of_lock {l : RowLock ρ} (h_lock : c.lock = some l) (h_ne : l.holder ≠ tx) :
    ¬ c.Held tx :=
  fun h => h_ne (h.holder_eq h_lock)

theorem acquire_of_lock_none (h : c.lock = none) :
    c.acquire tx = ⟨c.committed, some ⟨tx, none⟩⟩ := by
  unfold acquire
  rw [h]

theorem free_of_lock_none (h : c.lock = none) : c.Free tx :=
  fun _ h_lock => absurd (h.symm.trans h_lock) (by simp)

/-- A transaction that does not hold the lock commits nothing to the row, -/
theorem commit_of_not_held (h : ¬ c.Held tx) : c.commit tx = c := by
  unfold commit
  split
  · next l h_lock =>
    rw [if_neg]
    exact fun h_holder => h ⟨l, h_lock, h_holder⟩
  · rfl

/-- and takes nothing back. -/
theorem rollback_of_not_held (h : ¬ c.Held tx) : c.rollback tx = c := by
  unfold rollback
  split
  · next l h_lock =>
    rw [if_neg]
    exact fun h_holder => h ⟨l, h_lock, h_holder⟩
  · rfl

/-- The holder commits what it has written, and gives the lock back. -/
theorem commit_of_lock {l : RowLock ρ} (h_lock : c.lock = some l) (h_holder : l.holder = tx) :
    c.commit tx = ⟨l.draft.getD c.committed, none⟩ := by
  unfold commit
  rw [h_lock]
  exact if_pos h_holder

/-- What is committed is what the committing transaction read. -/
theorem committed_commit : (c.commit tx).committed = c.view tx := by
  unfold commit view
  split
  · split <;> rfl
  · rfl

@[simp] theorem committed_rollback : (c.rollback tx).committed = c.committed := by
  unfold rollback
  split
  · split <;> rfl
  · rfl

/-- After a commit the lock is as it was, unless it was the transaction's own. -/
theorem lock_commit {l : RowLock ρ} : (c.commit tx).lock = some l ↔
    c.lock = some l ∧ l.holder ≠ tx := by
  cases h_lock : c.lock with
  | none => simp [commit, h_lock]
  | some l' =>
    by_cases h : l'.holder = tx
    · rw [commit_of_lock h_lock h]
      refine ⟨fun h' => absurd h' (by simp), ?_⟩
      rintro ⟨h_eq, h_ne⟩
      exact absurd (Option.some.inj h_eq ▸ h) h_ne
    · rw [commit_of_not_held (not_held_of_lock h_lock h), h_lock]
      refine ⟨fun h_eq => ⟨h_eq, ?_⟩, And.left⟩
      exact Option.some.inj h_eq ▸ h

/-- The same after a rollback. -/
theorem lock_rollback {l : RowLock ρ} : (c.rollback tx).lock = some l ↔
    c.lock = some l ∧ l.holder ≠ tx := by
  have h_same : (c.rollback tx).lock = (c.commit tx).lock := by
    unfold rollback commit
    split
    · split <;> rfl
    · rfl
  rw [h_same]
  exact lock_commit

/-- A row nobody has locked is read as committed, -/
theorem view_of_lock_none (h : c.lock = none) : c.view tx = c.committed := by
  unfold view
  rw [h]

/-- and so is one that another transaction holds. -/
theorem view_of_not_held (h : ¬ c.Held tx) : c.view tx = c.committed := by
  rw [← committed_commit, commit_of_not_held h]

/-- The holder reads its draft, if there is one. -/
theorem view_of_lock {l : RowLock ρ} (h_lock : c.lock = some l) (h_holder : l.holder = tx) :
    c.view tx = l.draft.getD c.committed := by
  unfold view
  rw [h_lock]
  exact if_pos h_holder

/-- Who does not see a committed row has deleted it: its draft is a deletion. -/
theorem lock_of_view_none {r : ρ} (h_committed : c.committed = some r) (h_view : c.view tx = none) :
    c.lock = some ⟨tx, some none⟩ := by
  by_cases h_held : c.Held tx
  · obtain ⟨⟨holder, draft⟩, h_lock, rfl⟩ := h_held
    rw [view_of_lock h_lock rfl, h_committed] at h_view
    cases draft with
    | none => exact absurd h_view (by simp)
    -- a draft it has written is what it sees, so the draft is a deletion
    | some version =>
      obtain rfl : version = none := h_view
      exact h_lock
  · rw [view_of_not_held h_held, h_committed] at h_view
    exact absurd h_view (by simp)

@[simp] theorem view_write (v : Option ρ) : (c.write tx v).view tx = v := by
  rw [view_of_lock (c.lock_write tx v) rfl]
  rfl

/-! ### Ownership

What a transaction may have done to a row it holds is a predicate on the committed
version and the draft. An invariant about locks says that whoever holds a lock owns
what is there (`OwnedBy`). It is kept by a `Move`, a step of one transaction, and by
`Ends`, its commit or rollback.
-/

/-- **One step on a row.** The transaction leaves the row alone and keeps what it owned there, or
it finds the lock free and takes it, or it writes under its lock. `own` says what the transaction
owns before the step and `own'` what it owns after it, as relations of the committed version and
the draft. -/
inductive Move (own own' : Option ρ → Option (Option ρ) → Prop) (tx : ℕ) (c : Cell ρ) :
    Cell ρ → Prop
  | same (h_owns : ∀ o d, own o d → own' o d) : Move own own' tx c c
  | taken {d : Option (Option ρ)} (h_free : c.lock = none) (h_owns : own' c.committed d) :
      Move own own' tx c ⟨c.committed, some ⟨tx, d⟩⟩
  | written {d : Option (Option ρ)} (h_held : c.Held tx) (h_owns : own' c.committed d) :
      Move own own' tx c ⟨c.committed, some ⟨tx, d⟩⟩

/-- **The end of a transaction**, by commit or by rollback, releases its locks. What is committed
then is what was, or the draft of that transaction. -/
structure Ends (tx : ℕ) (c c' : Cell ρ) : Prop where
  same : ¬ c.Held tx → c' = c
  lock : ∀ l, c'.lock = some l ↔ c.lock = some l ∧ l.holder ≠ tx
  committed : c'.committed = c.committed ∨
    ∃ l d, c.lock = some l ∧ l.holder = tx ∧ l.draft = some d ∧ c'.committed = d

/-- A commit is an end, -/
theorem Ends.commit (tx : ℕ) (c : Cell ρ) : Ends tx c (c.commit tx) where
  same := commit_of_not_held
  lock := fun _ => lock_commit
  committed := by
    by_cases h_held : c.Held tx
    · obtain ⟨l, h_lock, h_holder⟩ := h_held
      rw [commit_of_lock h_lock h_holder]
      cases h_d : l.draft with
      | none => exact Or.inl rfl
      | some d => exact Or.inr ⟨l, d, h_lock, h_holder, h_d, rfl⟩
    · rw [commit_of_not_held h_held]
      exact Or.inl rfl

/-- and so is a rollback. -/
theorem Ends.rollback (tx : ℕ) (c : Cell ρ) : Ends tx c (c.rollback tx) where
  same := rollback_of_not_held
  lock := fun _ => lock_rollback
  committed := Or.inl committed_rollback

/-- Whoever holds the lock owns what is there, by a relation for each transaction. -/
def OwnedBy (own : ℕ → Option ρ → Option (Option ρ) → Prop) (c : Cell ρ) : Prop :=
  ∀ l, c.lock = some l → own l.holder c.committed l.draft

section Ownership

variable {own own' : Option ρ → Option (Option ρ) → Prop} {c' : Cell ρ}

/-- A step commits nothing. -/
theorem Move.committed (h : Move own own' tx c c') : c'.committed = c.committed := by
  cases h <;> rfl

theorem Move.mono {own₁ own₁' : Option ρ → Option (Option ρ) → Prop} (h : Move own own' tx c c')
    (h_own : ∀ o d, own₁ o d → own o d) (h_own' : ∀ o d, own' o d → own₁' o d) :
    Move own₁ own₁' tx c c' := by
  cases h with
  | same h_owns => exact .same (fun o d h => h_own' o d (h_owns o d (h_own o d h)))
  | taken h_free h_owns => exact .taken h_free (h_own' _ _ h_owns)
  | written h_held h_owns => exact .written h_held (h_own' _ _ h_owns)

/-- A row another transaction holds stays what it is. -/
theorem Move.eq_of_ne (h : Move own own' tx c c') {l : RowLock ρ} (h_lock : c.lock = some l)
    (h_ne : l.holder ≠ tx) : c' = c := by
  cases h with
  | same _ => rfl
  | taken h_free _ => exact absurd (h_free.symm.trans h_lock) (by simp)
  -- a lock is taken only where there is none, and written under only by its holder
  | written h_held _ => exact absurd (h_held.holder_eq h_lock) h_ne

/-- Other transactions read the same row. -/
theorem Move.view_of_ne (h : Move own own' tx c c') {tx' : ℕ} (h_ne : tx' ≠ tx) :
    c'.view tx' = c.view tx' := by
  -- a draft under another's lock is not seen, whatever it is
  have h_taken : ∀ d, (⟨c.committed, some ⟨tx, d⟩⟩ : Cell ρ).view tx' = c.committed :=
    fun _ => if_neg (fun h_eq => h_ne h_eq.symm)
  cases h with
  | same _ => rfl
  | taken h_free _ => rw [h_taken, view_of_lock_none h_free]
  | written h_held _ =>
    rw [h_taken, view_of_not_held]
    exact fun h_held' => h_ne (h_held'.unique h_held)

/-- **Ownership survives a step.** Of the transaction that takes it by the move; of the others
because their rows stay and `h_other` carries over what they owned there. -/
theorem OwnedBy.move {own own' : ℕ → Option ρ → Option (Option ρ) → Prop} (h : c.OwnedBy own)
    (h_move : Move (own tx) (own' tx) tx c c')
    (h_other : ∀ tx' o d, tx' ≠ tx → own tx' o d → own' tx' o d) : c'.OwnedBy own' := by
  intro l h_lock
  cases h_move with
  | same h_owns =>
    -- the lock is the one that was there: the transaction's own, or another's
    by_cases h_tx : l.holder = tx
    · rw [h_tx]
      exact h_owns _ _ (h_tx ▸ h l h_lock)
    · exact h_other _ _ _ h_tx (h l h_lock)
  | taken _ h_owns =>
    obtain rfl := Option.some.inj h_lock
    exact h_owns
  | written _ h_owns =>
    obtain rfl := Option.some.inj h_lock
    exact h_owns

/-- **Ownership survives an end.** A lock that remains is another's, and its row is as it
was. -/
theorem OwnedBy.ends {own own' : ℕ → Option ρ → Option (Option ρ) → Prop} (h : c.OwnedBy own)
    (h_ends : Ends tx c c') (h_other : ∀ tx' o d, tx' ≠ tx → own tx' o d → own' tx' o d) :
    c'.OwnedBy own' := by
  intro l h_lock
  obtain ⟨h_lock', h_ne⟩ := (h_ends.lock l).mp h_lock
  rw [h_ends.same (not_held_of_lock h_lock' h_ne)]
  exact h_other _ _ _ h_ne (h l h_lock')

/-- No end of a transaction fills a row that was never touched. -/
theorem Ends.of_empty (h : Ends tx .empty c') : c' = .empty := by
  refine h.same ?_
  rintro ⟨l, h_lock, -⟩
  exact absurd h_lock (by simp [empty])

/-- Other transactions keep their locks. -/
theorem Ends.held_of_ne (h : Ends tx c c') {tx' : ℕ} (h_ne : tx' ≠ tx) (h_held : c.Held tx') :
    c'.Held tx' := by
  obtain ⟨l, h_lock, rfl⟩ := h_held
  exact ⟨l, (h.lock l).mpr ⟨h_lock, h_ne⟩, rfl⟩

/-- Others get no lock by it: what they do not hold they read as it is committed. -/
theorem Ends.view_of_not_held (h : Ends tx c c') {tx' : ℕ} (h_not : ¬ c.Held tx') :
    c'.view tx' = c'.committed := by
  refine Cell.view_of_not_held ?_
  rintro ⟨l, h_lock, h_holder⟩
  exact h_not ⟨l, ((h.lock l).mp h_lock).1, h_holder⟩

/-- A row that another transaction holds, before the step or after it, stays what it is. `Move`
and `Ends` are both such, and it is what invariants about several rows of one transaction need of
the steps of others. -/
def Kept (tx : ℕ) (c c' : Cell ρ) : Prop :=
  ∀ tx', tx' ≠ tx → c.Held tx' ∨ c'.Held tx' → c' = c

/-- A step is one, -/
theorem Move.kept (h : Move own own' tx c c') : Kept tx c c' := by
  intro tx' h_ne h_held
  rcases h_held with ⟨l, h_lock, rfl⟩ | h_held
  · exact h.eq_of_ne h_lock h_ne
  · cases h with
    | same _ => rfl
    -- a lock just taken is the transaction's own
    | taken _ _ => exact absurd (h_held.holder_eq rfl).symm h_ne
    | written _ _ => exact absurd (h_held.holder_eq rfl).symm h_ne

/-- and so is an end. -/
theorem Ends.kept (h : Ends tx c c') : Kept tx c c' := by
  intro tx' h_ne h_held
  rcases h_held with h_held | ⟨l, h_lock, -⟩
  · exact h.same (fun h_tx => h_ne (h_held.unique h_tx))
  · obtain ⟨h_old, h_holder⟩ := (h.lock l).mp h_lock
    exact h.same (not_held_of_lock h_old h_holder)

/-- Its own lock is gone. -/
theorem Ends.lock_none (h : Ends tx c c') (h_held : c.Held tx) : c'.lock = none := by
  cases h_lock : c'.lock with
  | none => rfl
  | some l =>
    obtain ⟨h_old, h_ne⟩ := (h.lock l).mp h_lock
    exact absurd (h_held.holder_eq h_old) h_ne

/-! ### Versions -/

/-- A version of the row, committed or about to be. `UNIQUE` constraints are about versions: an
insertion waits for those that are not committed. -/
def Version (c : Cell ρ) (r : ρ) : Prop :=
  c.committed = some r ∨ ∃ l, c.lock = some l ∧ l.draft = some (some r)

/-- A step makes one new version at most, which its transaction owns. -/
theorem Move.version (h : Move own own' tx c c') {r : ρ} (h_r : c'.Version r) :
    c.Version r ∨ own' c.committed (some (some r)) := by
  have h_draft : ∀ {d}, own' c.committed d →
      (⟨c.committed, some ⟨tx, d⟩⟩ : Cell ρ).Version r →
      c.Version r ∨ own' c.committed (some (some r)) := by
    intro d h_owns h_version
    rcases h_version with h_committed | ⟨l, h_lock, h_d⟩
    · exact Or.inl (Or.inl h_committed)
    · obtain rfl := Option.some.inj h_lock
      obtain rfl : d = some (some r) := h_d
      exact Or.inr h_owns
  cases h with
  | same _ => exact Or.inl h_r
  | taken _ h_owns => exact h_draft h_owns h_r
  | written _ h_owns => exact h_draft h_owns h_r

/-- An end makes none. -/
theorem Ends.version (h : Ends tx c c') {r : ρ} (h_r : c'.Version r) : c.Version r := by
  rcases h_r with h_committed | ⟨l, h_lock, h_d⟩
  · rcases h.committed with h_same | ⟨l, d, h_lock, -, h_d, h_c⟩
    · exact Or.inl (h_same.symm.trans h_committed)
    · exact Or.inr ⟨l, h_lock, by rw [h_d, ← h_c, h_committed]⟩
  · exact Or.inr ⟨l, ((h.lock l).mp h_lock).1, h_d⟩

end Ownership

end Cell

/-! ### Tables of cells -/

/-- A finite map from keys to cells; under every other key the cell is empty. The keys with
entries are those that were ever written. -/
structure Versioned (κ ρ : Type) where
  entries : Table (Prod.fst : κ × Cell ρ → κ)

namespace Versioned

variable {κ ρ : Type}

/-- The committed rows. -/
def rows (t : Versioned κ ρ) : List ρ := t.entries.rows.filterMap (fun e => e.2.committed)

/-- The rows a transaction reads. -/
def viewRows (tx : ℕ) (t : Versioned κ ρ) : List ρ :=
  t.entries.rows.filterMap (fun e => e.2.view tx)

/-- The keys of the rows a transaction reads that match. -/
def matching (tx : ℕ) (p : ρ → Bool) (t : Versioned κ ρ) : List κ :=
  (t.entries.rows.filter (fun e => (e.2.view tx).any p)).map Prod.fst

/-- The same change in every cell. -/
def map (f : Cell ρ → Cell ρ) (t : Versioned κ ρ) : Versioned κ ρ :=
  ⟨t.entries.update (fun _ => true) (fun e => (e.1, f e.2)) (fun _ => rfl)⟩

/-- A transaction commits. -/
def commit (tx : ℕ) (t : Versioned κ ρ) : Versioned κ ρ := t.map (Cell.commit tx)

/-- A transaction rolls back. -/
def rollback (tx : ℕ) (t : Versioned κ ρ) : Versioned κ ρ := t.map (Cell.rollback tx)

/-- The cells of a table of committed rows. -/
def ofTable {key : ρ → κ} (t : Table key) : Versioned κ ρ where
  entries :=
    { rows := t.rows.map (fun r => (key r, ⟨some r, none⟩))
      nodup := by
        rw [List.map_map]
        exact t.nodup }

variable [DecidableEq κ]

/-- The cell under a key. -/
def cell (t : Versioned κ ρ) (k : κ) : Cell ρ := ((t.entries.get? k).map Prod.snd).getD .empty

/-- The cell under a key is replaced. -/
def set (t : Versioned κ ρ) (k : κ) (c : Cell ρ) : Versioned κ ρ :=
  if (t.entries.get? k).isSome
  then ⟨t.entries.update (fun e => e.1 = k) (fun e => (e.1, c)) (fun _ => rfl)⟩
  else ⟨t.entries.insert (k, c)⟩

/-- The table of the committed rows under their own key. -/
def snapshot (t : Versioned κ ρ) (key : ρ → κ) : Table key :=
  t.rows.foldl Table.insert (.empty key)

/-- After a cell is replaced, it is there, and the others are what they were. -/
theorem cell_set (t : Versioned κ ρ) (k k' : κ) (c : Cell ρ) :
    (t.set k c).cell k' = if k' = k then c else t.cell k' := by
  unfold set cell
  split
  · next h_some =>
    rw [Table.get?_update]
    obtain ⟨e, h_e⟩ := Option.isSome_iff_exists.mp h_some
    by_cases h_k : k' = k
    · subst h_k
      rw [if_pos rfl, h_e]
      simp [Table.key_of_get? h_e]
    -- the update rewrites the entry of `k` only
    · rw [if_neg h_k]
      cases h_e' : t.entries.get? k' with
      | none => rfl
      | some e' => simp [Table.key_of_get? h_e', h_k]
  · next h_none =>
    have h_get : t.entries.get? k = none := by simpa using h_none
    rw [Table.get?_insert_of_none h_get]
    by_cases h_k : k' = k
    · subst h_k
      simp
    · rw [if_neg (fun h => h_k h.symm), if_neg h_k]

@[simp] theorem cell_set_self (t : Versioned κ ρ) (k : κ) (c : Cell ρ) :
    (t.set k c).cell k = c := by
  rw [cell_set, if_pos rfl]

theorem cell_set_of_ne (t : Versioned κ ρ) {k k' : κ} (h : k' ≠ k) (c : Cell ρ) :
    (t.set k c).cell k' = t.cell k' := by
  rw [cell_set, if_neg h]

/-- A change of all cells that leaves the empty one alone. -/
theorem cell_map (t : Versioned κ ρ) {f : Cell ρ → Cell ρ} (h : f .empty = .empty) (k : κ) :
    (t.map f).cell k = f (t.cell k) := by
  unfold map cell
  rw [Table.get?_update]
  cases t.entries.get? k with
  | none => exact h.symm
  | some e => rfl

@[simp] theorem cell_commit (t : Versioned κ ρ) (tx : ℕ) (k : κ) :
    (t.commit tx).cell k = (t.cell k).commit tx :=
  t.cell_map (Cell.commit_empty tx) k

@[simp] theorem cell_rollback (t : Versioned κ ρ) (tx : ℕ) (k : κ) :
    (t.rollback tx).cell k = (t.cell k).rollback tx :=
  t.cell_map (Cell.rollback_empty tx) k

/-- A rollback takes nothing of what is committed. -/
@[simp] theorem committed_cell_rollback (t : Versioned κ ρ) (tx : ℕ) (k : κ) :
    ((t.rollback tx).cell k).committed = (t.cell k).committed := by
  rw [cell_rollback, Cell.committed_rollback]

/-- A commit ends the transaction in every cell, -/
theorem ends_commit (t : Versioned κ ρ) (tx : ℕ) (k : κ) :
    (t.cell k).Ends tx ((t.commit tx).cell k) := by
  rw [cell_commit]
  exact .commit tx _

/-- and so does a rollback. -/
theorem ends_rollback (t : Versioned κ ρ) (tx : ℕ) (k : κ) :
    (t.cell k).Ends tx ((t.rollback tx).cell k) := by
  rw [cell_rollback]
  exact .rollback tx _

/-- In a table as it is committed nothing is locked. -/
theorem cell_ofTable {key : ρ → κ} (t : Table key) (k : κ) :
    (ofTable t).cell k = ⟨t.get? k, none⟩ := by
  -- `find?` goes through the map that wraps each row
  have h_find : (ofTable t).entries.get? k = (t.get? k).map (fun r => (key r, ⟨some r, none⟩)) := by
    unfold ofTable Table.get?
    rw [List.find?_map]
    rfl
  unfold cell
  rw [h_find]
  cases t.get? k <;> rfl

/-- Nobody owns anything in a table as it is committed. -/
theorem ownedBy_ofTable {key : ρ → κ} (t : Table key) (k : κ)
    (own : ℕ → Option ρ → Option (Option ρ) → Prop) : ((ofTable t).cell k).OwnedBy own := by
  intro l h_lock
  rw [cell_ofTable] at h_lock
  exact absurd h_lock (by simp)

/-- A cell that is not empty has an entry. -/
theorem entry_of_cell {t : Versioned κ ρ} {k : κ} (h : t.cell k ≠ .empty) :
    (k, t.cell k) ∈ t.entries.rows := by
  unfold cell at h ⊢
  cases h_e : t.entries.get? k with
  | none =>
    rw [h_e] at h
    exact absurd rfl h
  | some e =>
    have h_mem := Table.mem_of_get? h_e
    rw [← Table.key_of_get? h_e]
    exact h_mem

/-- Every entry is its key and its cell. -/
theorem cell_of_entry {t : Versioned κ ρ} {e : κ × Cell ρ} (h : e ∈ t.entries.rows) :
    t.cell e.1 = e.2 := by
  unfold cell
  rw [(Table.mem_rows _).mp h]
  rfl

/-- The committed rows are those of the cells, -/
theorem mem_rows {t : Versioned κ ρ} {r : ρ} : r ∈ t.rows ↔ ∃ k, (t.cell k).committed = some r := by
  unfold rows
  rw [List.mem_filterMap]
  constructor
  · rintro ⟨e, h_e, h_r⟩
    exact ⟨e.1, by rw [cell_of_entry h_e]; exact h_r⟩
  · rintro ⟨k, h_r⟩
    refine ⟨(k, t.cell k), entry_of_cell (fun h => ?_), h_r⟩
    rw [h] at h_r
    exact absurd h_r (by simp [Cell.empty])

theorem view_empty (tx : ℕ) : (Cell.empty : Cell ρ).view tx = none := rfl

/-- a transaction reads what it views in them, -/
theorem mem_viewRows {t : Versioned κ ρ} {tx : ℕ} {r : ρ} :
    r ∈ t.viewRows tx ↔ ∃ k, (t.cell k).view tx = some r := by
  unfold viewRows
  rw [List.mem_filterMap]
  constructor
  · rintro ⟨e, h_e, h_r⟩
    exact ⟨e.1, by rw [cell_of_entry h_e]; exact h_r⟩
  · rintro ⟨k, h_r⟩
    refine ⟨(k, t.cell k), entry_of_cell (fun h => ?_), h_r⟩
    rw [h, view_empty] at h_r
    exact absurd h_r (by simp)

/-- and the keys that match are those of what it views. -/
theorem mem_matching {t : Versioned κ ρ} {tx : ℕ} {p : ρ → Bool} {k : κ} :
    k ∈ t.matching tx p ↔ ∃ r, (t.cell k).view tx = some r ∧ p r = true := by
  unfold matching
  rw [List.mem_map]
  constructor
  · rintro ⟨e, h_e, rfl⟩
    obtain ⟨h_mem, h_any⟩ := List.mem_filter.mp h_e
    rw [cell_of_entry h_mem]
    cases h_r : e.2.view tx with
    | none =>
      rw [h_r] at h_any
      exact absurd h_any (by simp)
    | some r =>
      rw [h_r] at h_any
      exact ⟨r, rfl, h_any⟩
  · rintro ⟨r, h_r, h_p⟩
    refine ⟨(k, t.cell k), List.mem_filter.mpr ⟨entry_of_cell (fun h => ?_), ?_⟩, rfl⟩
    · rw [h, view_empty] at h_r
      exact absurd h_r (by simp)
    · simp [h_r, h_p]

/-! ### The committed table -/

/-- Every committed row lies under its own key, as in any table of a schema with a primary key. -/
def Keyed (t : Versioned κ ρ) (key : ρ → κ) : Prop :=
  ∀ k r, (t.cell k).committed = some r → key r = k

private theorem get?_foldl_insert {key : ρ → κ} (l : List ρ) (t : Table key) (k : κ) :
    (l.foldl Table.insert t).get? k = (t.get? k).or (l.find? (fun r => key r = k)) := by
  induction l generalizing t with
  | nil => simp
  | cons r l ih =>
    rw [List.foldl_cons, ih, Table.get?_insert, List.find?_cons]
    cases h : t.get? k with
    | some r' => simp
    | none => by_cases h_k : key r = k <;> simp [h_k]

/-- The committed table holds under a key what is committed there. -/
theorem get?_snapshot {t : Versioned κ ρ} {key : ρ → κ} (h : t.Keyed key) (k : κ) :
    (t.snapshot key).get? k = (t.cell k).committed := by
  unfold snapshot
  rw [get?_foldl_insert, Table.get?_empty, Option.none_or]
  cases h_c : (t.cell k).committed with
  | none =>
    -- a row found with this key would lie under it, where nothing is committed
    refine List.find?_eq_none.mpr (fun r h_r => ?_)
    obtain ⟨k', h_k'⟩ := mem_rows.mp h_r
    have h_key := h k' r h_k'
    intro h_eq
    have h_eq : key r = k := by simpa using h_eq
    rw [← h_key, h_eq, h_c] at h_k'
    exact absurd h_k' (by simp)
  | some r =>
    have h_key : key r = k := h k r h_c
    -- the row lies among the rows, so one with this key is found, and it is under `k` as well
    cases h_f : t.rows.find? (fun r => key r = k) with
    | none =>
      have := List.find?_eq_none.mp h_f r (mem_rows.mpr ⟨k, h_c⟩)
      exact absurd h_key (by simpa using this)
    | some r' =>
      have h_key' : key r' = k := by simpa using List.find?_some h_f
      obtain ⟨k', h_k'⟩ := mem_rows.mp (List.mem_of_find?_eq_some h_f)
      have h_same : k' = k := (h k' r' h_k').symm.trans h_key'
      rw [h_same, h_c] at h_k'
      exact h_k'.symm

/-! ### Statements over many rows -/

/-- A step of a statement over many rows. `todo` are the keys it has still to visit, `none` before
it has started; `acted` says whether the step wrote a version. The statement waits at a row
another transaction holds, and asks the `WHERE` again of what it then finds: so it may skip what
it has listed, and never visits what came later. -/
inductive Sweep (tx : ℕ) (p : ρ → Bool) (act : ρ → Option ρ) :
    Versioned κ ρ → Option (List κ) → Versioned κ ρ → List κ → Bool → Prop
  | start {t : Versioned κ ρ} : Sweep tx p act t none t (t.matching tx p) false
  | act {t : Versioned κ ρ} {k : κ} {todo : List κ} {r : ρ} (h_free : (t.cell k).Free tx)
      (h_view : (t.cell k).view tx = some r) (h_where : p r = true) :
      Sweep tx p act t (some (k :: todo)) (t.set k ((t.cell k).write tx (act r))) todo true
  | skip {t : Versioned κ ρ} {k : κ} {todo : List κ} (h_free : (t.cell k).Free tx)
      (h_where : ∀ r, (t.cell k).view tx = some r → p r = false) :
      Sweep tx p act t (some (k :: todo)) t todo false

namespace Sweep

variable {tx : ℕ} {p : ρ → Bool} {act : ρ → Option ρ} {t t' : Versioned κ ρ}
  {todo : Option (List κ)} {todo' : List κ} {acted : Bool}

/-- What a step does to the cell under a key: nothing, or it writes on a version that matches. -/
theorem touch (h : Sweep tx p act t todo t' todo' acted) (k : κ) :
    t'.cell k = t.cell k ∨ ∃ r, (t.cell k).Free tx ∧ (t.cell k).view tx = some r ∧ p r = true ∧
      t'.cell k = (t.cell k).write tx (act r) := by
  cases h with
  | start => exact Or.inl rfl
  | @act k₀ _ r h_free h_view h_where =>
    by_cases h_k : k = k₀
    · subst h_k
      exact Or.inr ⟨r, h_free, h_view, h_where, cell_set_self _ _ _⟩
    · exact Or.inl (cell_set_of_ne _ h_k _)
  | skip h_free h_where => exact Or.inl rfl

/-- Nothing is committed by it. -/
theorem committed (h : Sweep tx p act t todo t' todo' acted) (k : κ) :
    (t'.cell k).committed = (t.cell k).committed := by
  rcases h.touch k with h_same | ⟨r, -, -, -, h_write⟩
  · rw [h_same]
  · rw [h_write, Cell.committed_write]

/-- **A `DELETE` leaves nothing out**: a row that matches whenever the transaction sees it is on
the list, or it is not seen any more. With the list empty at the end, none that it sees matches.
-/
theorem deletes (h : Sweep tx p (fun _ => none) t todo t' todo' acted) {k : κ}
    (h_where : ∀ r, (t.cell k).view tx = some r → p r = true)
    (h_todo : (∀ l, todo = some l → k ∈ l) ∨ (t.cell k).view tx = none) :
    k ∈ todo' ∨ (t'.cell k).view tx = none := by
  cases h with
  | start =>
    cases h_view : (t.cell k).view tx with
    | none => exact Or.inr rfl
    | some r => exact Or.inl (mem_matching.mpr ⟨r, h_view, h_where r h_view⟩)
  -- the row just visited is deleted; any other stays on the list or unseen
  | @act k₀ todo r h_free h_view h_p =>
    by_cases h_k : k = k₀
    · subst h_k
      rw [cell_set_self]
      exact Or.inr (Cell.view_write _)
    · rw [cell_set_of_ne _ h_k]
      refine h_todo.imp_left (fun h_mem => ?_)
      exact (List.mem_cons.mp (h_mem _ rfl)).resolve_left h_k
  -- a row is skipped only if it does not match, and this one matches whenever it is seen
  | @skip k₀ todo h_free h_not =>
    by_cases h_k : k = k₀
    · subst h_k
      refine Or.inr ?_
      cases h_view : (t.cell k).view tx with
      | none => rfl
      | some r => exact absurd ((h_where r h_view).symm.trans (h_not r h_view)) (by simp)
    · refine h_todo.imp_left (fun h_mem => ?_)
      exact (List.mem_cons.mp (h_mem _ rfl)).resolve_left h_k

end Sweep

end Versioned

end FingerprintHub
