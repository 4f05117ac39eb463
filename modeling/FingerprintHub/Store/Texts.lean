import FingerprintHub.Store.Runs

/-!
# The five text columns that hold what `encrypt_text` returned

The operations of the store copy these columns and ask whether they are `NULL`, and
never look at the texts in them. So a function on texts may be applied to a whole store
before an operation or after it (`Op.apply_mapTexts`), and along a run
(`Store.run_mapTexts`).

Whatever holds of every stored text and of every text an operation is given holds of
every stored text afterwards (`AllTexts.step`). This follows from the same fact, for the
function that changes exactly the texts the property fails of.
-/

namespace FingerprintHub

attribute [ext] Store

/-! ### A function on texts, applied to rows

The function may depend on the column, by its position in the migrations, and on the id
of the row. -/

/-- A row of `fingerprints` with the function applied to its three texts. -/
def Fingerprint.mapEach (g : ℕ → ℤ → String → String) (r : Fingerprint) : Fingerprint :=
  { r with
    sourceGuildId := r.sourceGuildId.map (g 0 r.id)
    reason := r.reason.map (g 1 r.id)
    sourceUrl := r.sourceUrl.map (g 2 r.id) }

/-- A row of `fingerprint_hits` with the function applied to its text. -/
def Hit.mapEach (g : ℕ → ℤ → String → String) (h : Hit) : Hit :=
  { h with guildId := h.guildId.map (g 3 h.id) }

/-- A row of `fingerprint_flags` with the function applied to its text. -/
def Flag.mapEach (g : ℕ → ℤ → String → String) (f : Flag) : Flag :=
  { f with reason := f.reason.map (g 4 f.id) }

@[simp] theorem Fingerprint.mapEach_key (g : ℕ → ℤ → String → String) (r : Fingerprint) :
    (r.mapEach g).id = r.id := rfl

@[simp] theorem Hit.mapEach_key (g : ℕ → ℤ → String → String) (h : Hit) :
    (h.mapEach g).id = h.id := rfl

@[simp] theorem Flag.mapEach_key (g : ℕ → ℤ → String → String) (f : Flag) :
    (f.mapEach g).key = f.key := rfl

/-- A row of `fingerprints` with one function applied to its texts. -/
def Fingerprint.mapTexts (φ : String → String) : Fingerprint → Fingerprint :=
  .mapEach (fun _ _ => φ)

/-- A row of `fingerprint_hits` with one function applied to its text. -/
def Hit.mapTexts (φ : String → String) : Hit → Hit := .mapEach (fun _ _ => φ)

/-- A row of `fingerprint_flags` with one function applied to its text. -/
def Flag.mapTexts (φ : String → String) : Flag → Flag := .mapEach (fun _ _ => φ)

@[simp] theorem Fingerprint.mapTexts_key (φ : String → String) (r : Fingerprint) :
    (r.mapTexts φ).id = r.id := rfl

@[simp] theorem Hit.mapTexts_key (φ : String → String) (h : Hit) : (h.mapTexts φ).id = h.id := rfl

@[simp] theorem Flag.mapTexts_key (φ : String → String) (f : Flag) :
    (f.mapTexts φ).key = f.key := rfl

/-- The texts of the source columns. -/
def Fingerprint.texts (r : Fingerprint) : List (Option String) :=
  [r.sourceGuildId, r.reason, r.sourceUrl]

/-- The calls of `encrypt_text`, with the function applied to what they return. -/
def mapEnc (φ : String → String) (enc : EncryptText) : EncryptText :=
  fun i t => φ (enc i t)

@[simp] theorem encryptText_mapEnc (φ : String → String) (enc : EncryptText) (i : ℕ)
    (plaintext : Option String) :
    encryptText (mapEnc φ enc) i plaintext = (encryptText enc i plaintext).map φ := by
  unfold encryptText
  rw [Option.map_map]
  rfl

/-- A call, with its calls of `encrypt_text` changed. -/
def Op.mapCalls (g : EncryptText → EncryptText) : Op → Op
  | .contribute enc a => .contribute (g enc) a
  | .reportHit enc a => .reportHit (g enc) a
  | .flag enc a => .flag (g enc) a
  | .softDelete id nowMs => .softDelete id nowMs
  | .applyRetention p nowMs dryRun => .applyRetention p nowMs dryRun

namespace Store

variable (g : ℕ → ℤ → String → String) (φ : String → String) (s : Store)

/-- A store with the function applied to every text. -/
def mapEach : Store :=
  { s with
    fingerprints := s.fingerprints.map (Fingerprint.mapEach g) (Fingerprint.mapEach_key g)
    hits := s.hits.map (Hit.mapEach g) (Hit.mapEach_key g)
    flags := s.flags.map (Flag.mapEach g) (Flag.mapEach_key g) }

/-- A store with one function applied to every text. -/
def mapTexts : Store := s.mapEach (fun _ _ => φ)

@[simp] theorem fingerprints_mapEach : (s.mapEach g).fingerprints =
    s.fingerprints.map (Fingerprint.mapEach g) (Fingerprint.mapEach_key g) := rfl
@[simp] theorem hits_mapEach :
    (s.mapEach g).hits = s.hits.map (Hit.mapEach g) (Hit.mapEach_key g) := rfl
@[simp] theorem flags_mapEach :
    (s.mapEach g).flags = s.flags.map (Flag.mapEach g) (Flag.mapEach_key g) := rfl

@[simp] theorem fingerprints_mapTexts : (s.mapTexts φ).fingerprints =
    s.fingerprints.map (Fingerprint.mapTexts φ) (Fingerprint.mapTexts_key φ) := rfl
@[simp] theorem hits_mapTexts :
    (s.mapTexts φ).hits = s.hits.map (Hit.mapTexts φ) (Hit.mapTexts_key φ) := rfl
@[simp] theorem flags_mapTexts :
    (s.mapTexts φ).flags = s.flags.map (Flag.mapTexts φ) (Flag.mapTexts_key φ) := rfl
@[simp] theorem syncSeq_mapTexts : (s.mapTexts φ).syncSeq = s.syncSeq := rfl
@[simp] theorem lastId_mapTexts : (s.mapTexts φ).lastId = s.lastId := rfl
@[simp] theorem lastHitId_mapTexts : (s.mapTexts φ).lastHitId = s.lastHitId := rfl
@[simp] theorem lastFlagId_mapTexts : (s.mapTexts φ).lastFlagId = s.lastFlagId := rfl

/-- The text is stored in one of the five columns. -/
inductive HasText (v : String) : Prop
  | fingerprint {r : Fingerprint} (h_row : r ∈ s.fingerprints.rows) (h_text : some v ∈ r.texts)
  | hit {h : Hit} (h_row : h ∈ s.hits.rows) (h_text : h.guildId = some v)
  | flag {f : Flag} (h_row : f ∈ s.flags.rows) (h_text : f.reason = some v)

/-- Every stored text has the property. -/
def AllTexts (P : String → Prop) : Prop := ∀ v, s.HasText v → P v

/-! ### What a function on texts leaves alone -/

variable {s}

/-- Functions that agree on the stored texts agree on the store. -/
theorem mapEach_congr {g g' : ℕ → ℤ → String → String}
    (h : s.AllTexts (fun v => ∀ i id, g i id v = g' i id v)) : s.mapEach g = s.mapEach g' := by
  -- of one column of one row
  have h_map : ∀ (o : Option String) i id, (∀ v, o = some v → s.HasText v) →
      o.map (g i id) = o.map (g' i id) := by
    intro o i id h_o
    cases o with
    | none => rfl
    | some v => exact congrArg some (h v (h_o v rfl) i id)
  have h_fingerprints : (s.mapEach g).fingerprints = (s.mapEach g').fingerprints := by
    rw [fingerprints_mapEach, fingerprints_mapEach]
    -- the three texts of a row are stored texts
    refine Table.map_congr (fun r h_r => ?_)
    have h_text : ∀ o ∈ r.texts, ∀ i id, o.map (g i id) = o.map (g' i id) := by
      intro o h_o i id
      exact h_map o i id (fun v h_v => .fingerprint h_r (h_v ▸ h_o))
    unfold Fingerprint.mapEach
    rw [h_text r.sourceGuildId (by simp [Fingerprint.texts]),
      h_text r.reason (by simp [Fingerprint.texts]),
      h_text r.sourceUrl (by simp [Fingerprint.texts])]
  have h_hits : (s.mapEach g).hits = (s.mapEach g').hits := by
    rw [hits_mapEach, hits_mapEach]
    refine Table.map_congr (fun h' h_row => ?_)
    unfold Hit.mapEach
    rw [h_map h'.guildId 3 h'.id (fun v h_v => .hit h_row h_v)]
  have h_flags : (s.mapEach g).flags = (s.mapEach g').flags := by
    rw [flags_mapEach, flags_mapEach]
    refine Table.map_congr (fun f h_row => ?_)
    unfold Flag.mapEach
    rw [h_map f.reason 4 f.id (fun v h_v => .flag h_row h_v)]
  exact Store.ext h_fingerprints h_hits h_flags rfl rfl rfl rfl

/-- The identity changes nothing. -/
@[simp] theorem mapTexts_id : s.mapTexts id = s := by
  have h_fingerprints : (s.mapTexts id).fingerprints = s.fingerprints := by
    rw [fingerprints_mapTexts]
    refine Table.map_eq_self (fun r _ => ?_)
    simp [Fingerprint.mapTexts, Fingerprint.mapEach]
  have h_hits : (s.mapTexts id).hits = s.hits := by
    rw [hits_mapTexts]
    refine Table.map_eq_self (fun h _ => ?_)
    simp [Hit.mapTexts, Hit.mapEach]
  have h_flags : (s.mapTexts id).flags = s.flags := by
    rw [flags_mapTexts]
    refine Table.map_eq_self (fun f _ => ?_)
    simp [Flag.mapTexts, Flag.mapEach]
  exact Store.ext h_fingerprints h_hits h_flags rfl rfl rfl rfl

/-- A function that changes no stored text changes nothing. -/
theorem mapEach_eq_self {g : ℕ → ℤ → String → String}
    (h : s.AllTexts (fun v => ∀ i id, g i id v = v)) : s.mapEach g = s :=
  calc s.mapEach g
      = s.mapTexts id := mapEach_congr h
    _ = s := mapTexts_id

/-- Two functions one after the other are their composition. -/
theorem mapEach_mapEach (g g' : ℕ → ℤ → String → String) :
    (s.mapEach g).mapEach g' = s.mapEach (fun i id v => g' i id (g i id v)) := by
  have h_fingerprints : ((s.mapEach g).mapEach g').fingerprints
      = (s.mapEach (fun i id v => g' i id (g i id v))).fingerprints := by
    rw [fingerprints_mapEach, fingerprints_mapEach, fingerprints_mapEach, Table.map_map]
    refine Table.map_congr (fun r _ => ?_)
    simp [Fingerprint.mapEach, Function.comp_def]
  have h_hits : ((s.mapEach g).mapEach g').hits
      = (s.mapEach (fun i id v => g' i id (g i id v))).hits := by
    rw [hits_mapEach, hits_mapEach, hits_mapEach, Table.map_map]
    refine Table.map_congr (fun h _ => ?_)
    simp [Hit.mapEach, Function.comp_def]
  have h_flags : ((s.mapEach g).mapEach g').flags
      = (s.mapEach (fun i id v => g' i id (g i id v))).flags := by
    rw [flags_mapEach, flags_mapEach, flags_mapEach, Table.map_map]
    refine Table.map_congr (fun f _ => ?_)
    simp [Flag.mapEach, Function.comp_def]
  exact Store.ext h_fingerprints h_hits h_flags rfl rfl rfl rfl

/-- The texts of the changed store are those of the store, changed. -/
theorem hasText_mapEach {g : ℕ → ℤ → String → String} {v : String}
    (h : (s.mapEach g).HasText v) : ∃ u i id, s.HasText u ∧ v = g i id u := by
  cases h with
  | fingerprint h_row h_text =>
    obtain ⟨r, h_r, rfl⟩ := List.mem_map.mp h_row
    have h_mem : some v ∈ [r.sourceGuildId.map (g 0 r.id), r.reason.map (g 1 r.id),
      r.sourceUrl.map (g 2 r.id)] := h_text
    -- a text in one of the three columns
    have h_of : ∀ o ∈ r.texts, ∀ i, some v = o.map (g i r.id) →
        ∃ u i id, s.HasText u ∧ v = g i id u := by
      intro o h_o i h_v
      obtain ⟨u, rfl, h_u⟩ := Option.map_eq_some_iff.mp h_v.symm
      exact ⟨u, i, r.id, .fingerprint h_r h_o, h_u.symm⟩
    -- which one it is decides the function
    simp only [List.mem_cons, List.not_mem_nil, or_false] at h_mem
    rcases h_mem with h_v | h_v | h_v
    · exact h_of _ (by simp [Fingerprint.texts]) 0 h_v
    · exact h_of _ (by simp [Fingerprint.texts]) 1 h_v
    · exact h_of _ (by simp [Fingerprint.texts]) 2 h_v
  | hit h_row h_text =>
    obtain ⟨h', h_h', rfl⟩ := List.mem_map.mp h_row
    obtain ⟨u, h_u, h_v⟩ := Option.map_eq_some_iff.mp h_text
    exact ⟨u, 3, h'.id, .hit h_h' h_u, h_v.symm⟩
  | flag h_row h_text =>
    obtain ⟨f, h_f, rfl⟩ := List.mem_map.mp h_row
    obtain ⟨u, h_u, h_v⟩ := Option.map_eq_some_iff.mp h_text
    exact ⟨u, 4, f.id, .flag h_f h_u, h_v.symm⟩

/-- What becomes of a stored text is stored. -/
theorem HasText.mapEach {u : String} (h : s.HasText u) (g : ℕ → ℤ → String → String) :
    ∃ i id, (s.mapEach g).HasText (g i id u) := by
  cases h with
  | @fingerprint r h_row h_text =>
    have h_row' : r.mapEach g ∈ (s.mapEach g).fingerprints.rows := List.mem_map_of_mem h_row
    have h_of : ∀ i, some (g i r.id u) ∈ (r.mapEach g).texts →
        ∃ i id, (s.mapEach g).HasText (g i id u) := fun i h => ⟨i, r.id, .fingerprint h_row' h⟩
    simp only [Fingerprint.texts, List.mem_cons, List.not_mem_nil, or_false] at h_text
    rcases h_text with h | h | h
    · exact h_of 0 (by simp [Fingerprint.texts, Fingerprint.mapEach, ← h])
    · exact h_of 1 (by simp [Fingerprint.texts, Fingerprint.mapEach, ← h])
    · exact h_of 2 (by simp [Fingerprint.texts, Fingerprint.mapEach, ← h])
  | @hit h' h_row h_text =>
    exact ⟨3, h'.id, .hit (List.mem_map_of_mem h_row) (congrArg (Option.map (g 3 h'.id)) h_text)⟩
  | @flag f h_row h_text =>
    exact ⟨4, f.id, .flag (List.mem_map_of_mem h_row) (congrArg (Option.map (g 4 f.id)) h_text)⟩

/-! ### Statements -/

section Statements

variable (φ : String → String) (s)

@[simp] theorem row_mapTexts (id : ℤ) :
    (s.mapTexts φ).row id = (s.row id).map (Fingerprint.mapTexts φ) := by
  unfold row
  rw [fingerprints_mapTexts, Table.get?_map]

@[simp] theorem findOwned_mapTexts (key : String × ℤ) :
    (s.mapTexts φ).findOwned key = (s.findOwned key).map (Fingerprint.mapTexts φ) := by
  unfold findOwned
  rw [fingerprints_mapTexts, Table.rows_map, List.find?_map]
  rfl

/-- An `UPDATE` of a row that treats the texts alike. -/
theorem mapTexts_updateRow (id : ℤ) {set set' : Fingerprint → Fingerprint}
    {h : ∀ r, (set r).id = r.id} {h' : ∀ r, (set' r).id = r.id}
    (h_set : ∀ r, (set r).mapTexts φ = set' (r.mapTexts φ)) :
    (s.updateRow id set h).mapTexts φ = (s.mapTexts φ).updateRow id set' h' :=
  Store.ext (Table.map_update s.fingerprints (Fingerprint.mapTexts_key φ) (fun _ => rfl) h h' h_set)
    rfl rfl rfl rfl rfl rfl

/-- The statements commute with the function: a deletion, -/
theorem mapTexts_deleteFlags (id : ℤ) :
    (s.deleteFlags id).mapTexts φ = (s.mapTexts φ).deleteFlags id :=
  Store.ext rfl rfl (Table.delete_map s.flags (Flag.mapTexts_key φ) (fun _ => rfl)).symm
    rfl rfl rfl rfl

/-- a value drawn from the sequence, -/
theorem mapTexts_nextSeq : s.nextSeq.mapTexts φ = (s.mapTexts φ).nextSeq := rfl

/-- and an insertion, if what it encrypts is changed as well. -/
theorem mapTexts_inserted (enc : EncryptText) (a : ContributeArgs) :
    (s.inserted enc a).mapTexts φ = (s.mapTexts φ).inserted (mapEnc φ enc) a := by
  have h_row : ∀ id seq, (freshRow enc a id seq).mapTexts φ = freshRow (mapEnc φ enc) a id seq := by
    intro id seq
    simp only [freshRow, Fingerprint.mapTexts, Fingerprint.mapEach, encryptText_mapEnc]
  have h_insert := Table.map_insert s.fingerprints (Fingerprint.mapTexts φ)
    (Fingerprint.mapTexts_key φ) (freshRow enc a (s.lastId + 1) (s.syncSeq + 1))
  rw [h_row] at h_insert
  exact Store.ext h_insert rfl rfl rfl rfl rfl rfl

/-- The same for a hit, -/
theorem mapTexts_recordHit (enc : EncryptText) (a : HitArgs) :
    (s.recordHit enc a).mapTexts φ = (s.mapTexts φ).recordHit (mapEnc φ enc) a := by
  have h_row : ∀ id, (a.hit enc id).mapTexts φ = a.hit (mapEnc φ enc) id := by
    intro id
    simp only [HitArgs.hit, Hit.mapTexts, Hit.mapEach, encryptText_mapEnc]
  have h_insert := Table.map_insert s.hits (Hit.mapTexts φ) (Hit.mapTexts_key φ)
    (a.hit enc (s.lastHitId + 1))
  rw [h_row] at h_insert
  exact Store.ext rfl h_insert rfl rfl rfl rfl rfl

/-- and for a flag. -/
theorem mapTexts_recordFlag (enc : EncryptText) (a : FlagArgs) :
    (s.recordFlag enc a).mapTexts φ = (s.mapTexts φ).recordFlag (mapEnc φ enc) a := by
  have h_row : ∀ id, (a.flag enc id).mapTexts φ = a.flag (mapEnc φ enc) id := by
    intro id
    simp only [FlagArgs.flag, Flag.mapTexts, Flag.mapEach, encryptText_mapEnc]
  have h_insert := Table.map_insert s.flags (Flag.mapTexts φ) (Flag.mapTexts_key φ)
    (a.flag enc (s.lastFlagId + 1))
  rw [h_row] at h_insert
  exact Store.ext rfl rfl h_insert rfl rfl rfl rfl

/-- Flaggers are counted by their ids. -/
@[simp] theorem countFlaggers_mapTexts (id : ℤ) :
    (s.mapTexts φ).countFlaggers id = s.countFlaggers id := by
  have h_flags : (s.mapTexts φ).flagsOf id = (s.flagsOf id).map (Flag.mapTexts φ) :=
    Table.select_map s.flags (Flag.mapTexts_key φ) (fun _ => rfl)
  unfold countFlaggers
  rw [h_flags, List.map_map]
  rfl

/-- The four statements of `apply_retention` see of a text whether it is there. -/
theorem mapTexts_retain (p : RetentionPolicy) (nowMs : ℤ) :
    (s.retain p nowMs).2.mapTexts φ = ((s.mapTexts φ).retain p nowMs).2 := by
  -- a reason is cleared if there is one
  have h_clears : ∀ f : Flag, p.clearsReason nowMs (f.mapTexts φ) = p.clearsReason nowMs f := by
    intro f
    have h_some : (f.mapTexts φ).reason.isSome = f.reason.isSome := Option.isSome_map
    unfold RetentionPolicy.clearsReason
    rw [h_some]
    rfl
  -- a tombstone is redacted if there is something in one of the columns
  have h_anonymizes : ∀ r : Fingerprint,
      p.anonymizes nowMs (r.mapTexts φ) = p.anonymizes nowMs r := by
    intro r
    have h_guild : (r.mapTexts φ).sourceGuildId.isSome = r.sourceGuildId.isSome := Option.isSome_map
    have h_reason : (r.mapTexts φ).reason.isSome = r.reason.isSome := Option.isSome_map
    have h_url : (r.mapTexts φ).sourceUrl.isSome = r.sourceUrl.isSome := Option.isSome_map
    unfold RetentionPolicy.anonymizes
    rw [h_guild, h_reason, h_url]
    rfl
  -- the purge does not look at texts at all
  have h_gone : ((s.mapTexts φ).fingerprints.select (p.purges nowMs)).map (·.id)
      = (s.fingerprints.select (p.purges nowMs)).map (·.id) := by
    rw [fingerprints_mapTexts,
      Table.select_map _ (Fingerprint.mapTexts_key φ) (fun _ => rfl), List.map_map]
    rfl
  -- the four statements, table by table
  unfold retain purge
  refine Store.ext ?_ ?_ ?_ rfl rfl rfl rfl
  · show Table.map _ _ (Fingerprint.mapTexts_key φ) = _
    rw [Table.map_update _ (Fingerprint.mapTexts_key φ) h_anonymizes anonymizeRow_id
        anonymizeRow_id (fun _ => rfl),
      ← Table.delete_map _ (Fingerprint.mapTexts_key φ) (fun _ => rfl)]
    rfl
  · show Table.map _ _ (Hit.mapTexts_key φ) = Table.delete (Table.delete _ _) _
    rw [h_gone, hits_mapTexts, Table.delete_map _ (Hit.mapTexts_key φ) (fun _ => rfl),
      Table.delete_map _ (Hit.mapTexts_key φ) (fun _ => rfl)]
  · show Table.map _ _ (Flag.mapTexts_key φ)
      = Table.delete (Table.update _ _ clearReason clearReason_key) _
    rw [h_gone, flags_mapTexts,
      ← Table.map_update _ (Flag.mapTexts_key φ) h_clears clearReason_key clearReason_key
        (fun _ => rfl),
      Table.delete_map _ (Flag.mapTexts_key φ) (fun _ => rfl)]

end Statements

end Store

/-! ### Operations and runs -/

/-- **A function on texts may be applied before a call or after it.** The cases are those of the
operations: each decides what it does by columns that hold no text, and each text it writes is the
result of a call of `encrypt_text`. -/
theorem Op.apply_mapTexts (φ : String → String) (s : Store) (op : Op) :
    (op.apply s).mapTexts φ = (op.mapCalls (mapEnc φ)).apply (s.mapTexts φ) := by
  cases op with
  | contribute enc a =>
    show (s.contribute enc a).2.mapTexts φ = ((s.mapTexts φ).contribute (mapEnc φ enc) a).2
    -- the row that is written commutes with the function
    have h_resurrect : ∀ seq r, (resurrectRow enc a seq r).mapTexts φ
        = resurrectRow (mapEnc φ enc) a seq (r.mapTexts φ) := by
      intro seq r
      simp only [resurrectRow, Fingerprint.mapTexts, Fingerprint.mapEach, encryptText_mapEnc]
    -- the same row is found by its key
    have h_find := s.findOwned_mapTexts φ a.owned
    cases h : s.findOwned a.owned with
    | none =>
      rw [h] at h_find
      simp only [Store.contribute, h, h_find, Option.map_none]
      rw [Store.insertFingerprint_of_none h, Store.insertFingerprint_of_none h_find]
      exact s.mapTexts_inserted φ enc a
    | some r =>
      rw [h] at h_find
      simp only [Store.contribute, h, h_find, Option.map_some]
      by_cases h_live : r.status ≠ .deleted
      · rw [if_pos h_live, if_pos (show (r.mapTexts φ).status ≠ .deleted from h_live)]
      · rw [if_neg h_live, if_neg (show ¬ (r.mapTexts φ).status ≠ .deleted from h_live)]
        simp only [Store.resurrect]
        rw [Store.mapTexts_updateRow _ φ _ (h_resurrect _), Store.mapTexts_nextSeq,
          Store.mapTexts_deleteFlags]
        rfl
  | reportHit enc a =>
    show (s.reportHit enc a).2.mapTexts φ = ((s.mapTexts φ).reportHit (mapEnc φ enc) a).2
    have h_row := s.row_mapTexts φ a.fingerprintId
    cases h : s.row a.fingerprintId with
    | none =>
      rw [h] at h_row
      simp only [Store.reportHit, h, h_row, Option.map_none]
    | some r =>
      rw [h] at h_row
      simp only [Store.reportHit, h, h_row, Option.map_some]
      by_cases h_gone : r.status = .deleted
      · rw [if_pos h_gone, if_pos (show (r.mapTexts φ).status = .deleted from h_gone)]
      · rw [if_neg h_gone, if_neg (show ¬ (r.mapTexts φ).status = .deleted from h_gone)]
        -- the hit is recorded, and the row only counted up
        rw [← Store.mapTexts_recordHit]
        exact Store.mapTexts_updateRow _ φ _ (fun _ => rfl)
  | flag enc a =>
    show (s.flag enc a).2.mapTexts φ = ((s.mapTexts φ).flag (mapEnc φ enc) a).2
    have h_row := s.row_mapTexts φ a.fingerprintId
    cases h : s.row a.fingerprintId with
    | none =>
      rw [h] at h_row
      simp only [Store.flag, h, h_row, Option.map_none]
    | some r =>
      rw [h] at h_row
      simp only [Store.flag, h, h_row, Option.map_some, ← Store.mapTexts_recordFlag,
        Store.countFlaggers_mapTexts]
      by_cases h_gone : r.status = .deleted
      · rw [if_pos h_gone, if_pos (show (r.mapTexts φ).status = .deleted from h_gone)]
      · rw [if_neg h_gone, if_neg (show ¬ (r.mapTexts φ).status = .deleted from h_gone)]
        -- the same branch is taken, since the count and the status are the same
        have h_status : (r.mapTexts φ).status = r.status := rfl
        rw [h_status]
        split
        · exact Store.mapTexts_updateRow _ φ _ (fun _ => rfl)
        · exact Store.mapTexts_updateRow _ φ _ (fun _ => rfl)
  | softDelete id nowMs =>
    show (s.softDelete id nowMs).2.mapTexts φ = ((s.mapTexts φ).softDelete id nowMs).2
    have h_row := s.row_mapTexts φ id
    cases h : s.row id with
    | none =>
      rw [h] at h_row
      simp only [Store.softDelete, h, h_row, Option.map_none]
    | some r =>
      rw [h] at h_row
      simp only [Store.softDelete, h, h_row, Option.map_some]
      by_cases h_gone : r.status = .deleted
      · rw [if_pos h_gone, if_pos (show (r.mapTexts φ).status = .deleted from h_gone)]
      · rw [if_neg h_gone, if_neg (show ¬ (r.mapTexts φ).status = .deleted from h_gone)]
        exact Store.mapTexts_updateRow _ φ _ (fun _ => rfl)
  | applyRetention p nowMs dryRun =>
    show (s.applyRetention p nowMs dryRun).2.mapTexts φ
      = ((s.mapTexts φ).applyRetention p nowMs dryRun).2
    rcases s.applyRetention_cases p nowMs dryRun with ⟨h_not, -, h⟩ | ⟨h_accepted, h⟩
    · rcases (s.mapTexts φ).applyRetention_cases p nowMs dryRun with ⟨-, -, h'⟩ | ⟨h_accepted, -⟩
      · rw [h, h']
      · exact absurd h_accepted h_not
    · rcases (s.mapTexts φ).applyRetention_cases p nowMs dryRun with ⟨h_not, -⟩ | ⟨-, h'⟩
      · exact absurd h_accepted h_not
      · rw [h, h']
        cases dryRun with
        | true => rfl
        | false => exact s.mapTexts_retain φ p nowMs

/-- The same along a run. -/
theorem Store.run_mapTexts (φ : String → String) (s : Store) (ops : List Op) :
    (s.run ops).mapTexts φ = (s.mapTexts φ).run (ops.map (Op.mapCalls (mapEnc φ))) := by
  induction ops generalizing s with
  | nil => rfl
  | cons op ops ih =>
    show ((op.apply s).run ops).mapTexts φ = _
    rw [ih, op.apply_mapTexts]
    rfl

/-! ### What holds of every stored text -/

/-- The calls of `encrypt_text` in an operation return texts with the property. -/
def Op.Encrypts (P : String → Prop) : Op → Prop
  | .contribute enc _ => ∀ i t, P (enc i t)
  | .reportHit enc _ => ∀ i t, P (enc i t)
  | .flag enc _ => ∀ i t, P (enc i t)
  | .softDelete _ _ => True
  | .applyRetention _ _ _ => True

namespace Store

open Classical in
/-- A function that changes exactly the texts that do not have the property. A store that it
leaves alone is one in which every text has the property. -/
noncomputable def spoil (P : String → Prop) (v : String) : String :=
  if P v then v else v.push 'x'

theorem spoil_eq_self {P : String → Prop} {v : String} : spoil P v = v ↔ P v := by
  unfold spoil
  split
  · next h_p => exact ⟨fun _ => h_p, fun _ => rfl⟩
  · next h_p =>
    refine ⟨fun h_eq => ?_, fun h => absurd h h_p⟩
    -- a text and a longer one differ
    have h_length := congrArg String.length h_eq
    rw [String.length_push] at h_length
    omega

/-- A store that a function on texts leaves alone holds only texts it leaves alone. -/
theorem allTexts_of_mapTexts {s : Store} {φ : String → String} (h : s.mapTexts φ = s) :
    s.AllTexts (fun v => φ v = v) := by
  -- a column that is left alone holds a text that is
  have h_some : ∀ {o : Option String} {v : String}, o.map φ = o → o = some v → φ v = v := by
    intro o v h_o h_v
    subst h_v
    exact Option.some.inj h_o
  intro v h_v
  cases h_v with
  | @fingerprint r h_row h_text =>
    have h_r : r.mapTexts φ = r :=
      Table.eq_of_map_eq_self (Fingerprint.mapTexts_key φ) (congrArg Store.fingerprints h) h_row
    -- its three columns are left alone one by one
    have h_texts : r.texts.map (Option.map φ) = r.texts.map id :=
      calc r.texts.map (Option.map φ)
          = r.texts := congrArg Fingerprint.texts h_r
        _ = r.texts.map id := (List.map_id _).symm
    exact h_some (List.map_inj_left.mp h_texts _ h_text) rfl
  | @hit h' h_row h_text =>
    have h_r : h'.mapTexts φ = h' :=
      Table.eq_of_map_eq_self (Hit.mapTexts_key φ) (congrArg Store.hits h) h_row
    exact h_some (congrArg Hit.guildId h_r) h_text
  | @flag f h_row h_text =>
    have h_r : f.mapTexts φ = f :=
      Table.eq_of_map_eq_self (Flag.mapTexts_key φ) (congrArg Store.flags h) h_row
    exact h_some (congrArg Flag.reason h_r) h_text

/-- **What holds of the stored texts and of those a call stores holds of the stored texts
after it.** -/
theorem AllTexts.step {s : Store} {P : String → Prop} (h : s.AllTexts P) {op : Op}
    (h_op : op.Encrypts P) : (op.apply s).AllTexts P := by
  -- the function leaves the call alone
  have h_calls : op.mapCalls (mapEnc (spoil P)) = op := by
    have h_enc : ∀ enc : EncryptText, (∀ i t, P (enc i t)) → mapEnc (spoil P) enc = enc := by
      intro enc h_enc
      funext i t
      exact spoil_eq_self.mpr (h_enc i t)
    cases op with
    | contribute enc a => exact congrArg (Op.contribute · a) (h_enc enc h_op)
    | reportHit enc a => exact congrArg (Op.reportHit · a) (h_enc enc h_op)
    | flag enc a => exact congrArg (Op.flag · a) (h_enc enc h_op)
    | softDelete id nowMs => rfl
    | applyRetention p nowMs dryRun => rfl
  -- and the store before it, so that it leaves alone the store after it
  have h_self : s.mapTexts (spoil P) = s :=
    mapEach_eq_self (fun v h_v _ _ => spoil_eq_self.mpr (h v h_v))
  have h_after : (op.apply s).mapTexts (spoil P) = op.apply s := by
    rw [op.apply_mapTexts, h_calls, h_self]
  exact fun v h_v => spoil_eq_self.mp (allTexts_of_mapTexts h_after v h_v)

/-- The same along a run. -/
theorem AllTexts.run {s : Store} {P : String → Prop} (h : s.AllTexts P) {ops : List Op}
    (h_ops : ∀ op ∈ ops, op.Encrypts P) : (s.run ops).AllTexts P := by
  induction ops generalizing s with
  | nil => exact h
  | cons op ops ih =>
    exact ih (h.step (h_ops op (List.mem_cons_self ..)))
      (fun op' h_op' => h_ops op' (List.mem_cons_of_mem _ h_op'))

end Store

end FingerprintHub
