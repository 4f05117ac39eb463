import Mathlib.Data.List.Sort
import Mathlib.Data.List.Lex
import Mathlib.Logic.Relation
import FingerprintHub.Api.Http
import FingerprintHub.Crypto.FieldEncryption

/-!
# `api/consumers_store.py`

The table `consumers` and the functions on it. A consumer is minted with
`tools/create_consumer.py`, which prints its API key once; the table keeps the SHA-256 of the
key. Consumers are disabled and enabled again by their name, and never deleted.

SHA-256 is a parameter, and nothing is assumed about it: the `UNIQUE` of `api_key_hash` is what
keeps two keys apart. `secrets.token_urlsafe` is the argument `token`.
-/

namespace FingerprintHub
namespace Api

open Base64 (Bytes)
open FieldEncryption (utf8)

/-- A row of `consumers`. The raw key is not in it, only its hash. -/
structure ConsumerRecord where
  id : ℤ
  name : String
  apiKeyHash : String
  scopes : List Scope
  enabled : Bool
  createdAtMs : ℤ
  lastSeenAtMs : Option ℤ
  deriving DecidableEq, Repr

/-- What a handler sees of the row. -/
def ConsumerRecord.consumer (r : ConsumerRecord) : Consumer := ⟨r.id, r.scopes⟩

/-- The `SET` of `touch_last_seen`. -/
def ConsumerRecord.seenAt (nowMs : ℤ) (r : ConsumerRecord) : ConsumerRecord :=
  { r with lastSeenAtMs := some nowMs }

/-- `SET enabled = …`. -/
def ConsumerRecord.setEnabled (enabled : Bool) (r : ConsumerRecord) : ConsumerRecord :=
  { r with enabled := enabled }

/-- The table, with the last value of its identity column. An id that was drawn for a row that was
refused is not given out again. -/
structure Consumers where
  table : Table ConsumerRecord.id
  lastId : ℤ

namespace Consumers

/-- The table right after `upgrade()` of `0001_init`. -/
def empty : Consumers := ⟨.empty _, 0⟩

/-- The row of a consumer id. -/
abbrev row (cs : Consumers) (id : ℤ) : Option ConsumerRecord := cs.table.get? id

/-- `find_by_key_hash`: the row with the hash. The query does not look at `enabled`. -/
def findByKeyHash (cs : Consumers) (keyHash : String) : Option ConsumerRecord :=
  cs.table.rows.find? (fun r => r.apiKeyHash = keyHash)

/-- `touch_last_seen`, which sets the time whatever it was before. -/
def touchLastSeen (cs : Consumers) (id nowMs : ℤ) : Consumers :=
  { cs with
    table := cs.table.update (fun r => r.id = id) (ConsumerRecord.seenAt nowMs) (fun _ => rfl) }

/-- `UPDATE consumers SET enabled = … WHERE name = …`. -/
def setEnabled (cs : Consumers) (name : String) (enabled : Bool) : Consumers :=
  { cs with
    table := cs.table.update (fun r => r.name = name) (ConsumerRecord.setEnabled enabled)
      (fun _ => rfl) }

end Consumers

/-! ### Minting a consumer -/

/-- `API_KEY_PREFIX`. -/
def apiKeyPrefix : String := "fph_"

/-- `generate_api_key`, with the token that was drawn. -/
def generateApiKey (token : String) : String := apiKeyPrefix ++ token

/-- A text of `VALID_SCOPES`. -/
def Scope.ofText? (t : PyStr) : Option Scope :=
  [Scope.read, .write, .admin].find? (fun scope => PyStr.ofString scope.text = t)

/-- `sorted(set(scopes) - VALID_SCOPES)`: the texts that the error names, each once. -/
def invalidScopes (scopes : List PyStr) : List PyStr :=
  ((scopes.filter (fun t => (Scope.ofText? t).isNone)).dedup).insertionSort (· ≤ ·)

/-- What `create_consumer` raises. In each case no row is inserted. -/
inductive CreateError where
  /-- `invalid scope(s): …` -/
  | invalidScopes (scopes : List PyStr)
  /-- a name that psycopg cannot send -/
  | unsendable
  /-- `UniqueViolation` -/
  | uniqueViolation
  deriving DecidableEq

section Mint

variable (sha256 : Bytes → String)

/-- `hash_api_key`: `none` is the `UnicodeEncodeError` of a surrogate. -/
def hashApiKey (rawKey : PyStr) : Option String :=
  (PyStr.encode rawKey).map (fun text => sha256 (utf8 text))

/-- `create_consumer`: the id and the raw key, and the table after the transaction. The default
of `id` is drawn before a conflict is found. -/
def createConsumer (name : PyStr) (scopes : List PyStr) (token : String) (nowMs : ℤ)
    (cs : Consumers) : Except CreateError (ℤ × String) × Consumers :=
  if invalidScopes scopes ≠ [] then (.error (.invalidScopes (invalidScopes scopes)), cs)
  else
    let rawKey := generateApiKey token
    let keyHash := sha256 (utf8 rawKey)
    match sqlText name with
    | none => (.error .unsendable, cs)
    | some name =>
      let id := cs.lastId + 1
      if cs.table.rows.any (fun r => r.name = name || r.apiKeyHash = keyHash) then
        (.error .uniqueViolation, { cs with lastId := id })
      else
        (.ok (id, rawKey),
          ⟨cs.table.insert
            { id := id, name := name, apiKeyHash := keyHash
              scopes := scopes.filterMap Scope.ofText?, enabled := true, createdAtMs := nowMs
              lastSeenAtMs := none }, id⟩)

end Mint

/-! ### The constraints -/

/-- The constraints of the table: ids that were handed out, `UNIQUE (name)` and `UNIQUE
(api_key_hash)`. The primary key is part of `Table`. -/
structure Consumers.Wf (cs : Consumers) : Prop where
  id_le : ∀ r ∈ cs.table.rows, r.id ≤ cs.lastId
  names : (cs.table.rows.map (·.name)).Nodup
  hashes : (cs.table.rows.map (·.apiKeyHash)).Nodup

namespace Consumers

variable {cs cs' : Consumers} {r : ConsumerRecord} {id : ℤ}

/-- An `UPDATE` changes each row by itself. -/
theorem row_update (cs : Consumers) (p : ConsumerRecord → Bool)
    {f : ConsumerRecord → ConsumerRecord} (h_id : ∀ r, (f r).id = r.id) (id : ℤ) :
    row { cs with table := cs.table.update p f h_id } id =
      (cs.row id).map (fun r => if p r then f r else r) :=
  Table.get?_update cs.table p f h_id id

/-- The empty table meets them. -/
theorem Wf.empty : Wf empty := ⟨by simp [Consumers.empty], List.nodup_nil, List.nodup_nil⟩

/-- **A hash finds the one row that has it.** The lookup takes the first row with the hash, and
there is no second. -/
theorem Wf.findByKeyHash_iff (h : cs.Wf) {keyHash : String} :
    cs.findByKeyHash keyHash = some r ↔ cs.row r.id = some r ∧ r.apiKeyHash = keyHash := by
  constructor
  · intro h_find
    refine ⟨cs.table.mem_rows.mp (List.mem_of_find?_eq_some h_find), ?_⟩
    simpa using List.find?_some h_find
  · rintro ⟨h_row, rfl⟩
    have h_mem := Table.mem_of_get? h_row
    cases h_find : cs.findByKeyHash r.apiKeyHash with
    | none => exact absurd (List.find?_eq_none.mp h_find r h_mem) (by simp)
    | some r' =>
      have h_hash : r'.apiKeyHash = r.apiKeyHash := by simpa using List.find?_some h_find
      -- the row that is found has the same hash, and so is the same
      rw [List.inj_on_of_nodup_map h.hashes (List.mem_of_find?_eq_some h_find) h_mem h_hash]

/-- What an `UPDATE` that sets neither a name nor a hash leaves of the constraints: all of them.
-/
theorem Wf.update (h : cs.Wf) (p : ConsumerRecord → Bool) {f : ConsumerRecord → ConsumerRecord}
    (h_id : ∀ r, (f r).id = r.id) (h_name : ∀ r, (f r).name = r.name)
    (h_hash : ∀ r, (f r).apiKeyHash = r.apiKeyHash) :
    Wf { cs with table := cs.table.update p f h_id } where
  id_le := by
    intro r h_r
    obtain ⟨r₀, h_r₀, rfl⟩ := List.mem_map.mp h_r
    have h_eq : (if p r₀ then f r₀ else r₀).id = r₀.id := by
      split
      · exact h_id r₀
      · rfl
    rw [h_eq]
    exact h.id_le r₀ h_r₀
  names := by
    rw [Table.map_rows_update _ _ _ _ h_name]
    exact h.names
  hashes := by
    rw [Table.map_rows_update _ _ _ _ h_hash]
    exact h.hashes

/-- The columns of a row that no statement sets once it is there. -/
def SameKey (r r' : ConsumerRecord) : Prop :=
  r'.name = r.name ∧ r'.apiKeyHash = r.apiKeyHash ∧ r'.scopes = r.scopes

/-- The rows stay, with their keys and their scopes, and new ones get new ids. This is how the
table may change between the lookup of a key and the write of its consumer. -/
structure Keeps (cs cs' : Consumers) : Prop where
  row : ∀ id r, cs.row id = some r → ∃ r', cs'.row id = some r' ∧ SameKey r r'
  fresh : ∀ id r', cs'.row id = some r' → cs.row id ≠ none ∨ cs.lastId < id
  lastId : cs.lastId ≤ cs'.lastId

/-- A table keeps its rows, -/
theorem Keeps.refl (cs : Consumers) : Keeps cs cs where
  row := fun _ r h_row => ⟨r, h_row, rfl, rfl, rfl⟩
  fresh := fun _ _ h_row => Or.inl (by simp [h_row])
  lastId := le_refl _

/-- and two changes that keep them do so in a row. -/
theorem Keeps.trans {cs'' : Consumers} (h : Keeps cs cs') (h' : Keeps cs' cs'') :
    Keeps cs cs'' where
  row := by
    intro id r h_row
    obtain ⟨r', h_row', h_name, h_hash, h_scopes⟩ := h.row id r h_row
    obtain ⟨r'', h_row'', h_name', h_hash', h_scopes'⟩ := h'.row id r' h_row'
    exact ⟨r'', h_row'', h_name'.trans h_name, h_hash'.trans h_hash, h_scopes'.trans h_scopes⟩
  fresh := by
    intro id r'' h_row''
    rcases h'.fresh id r'' h_row'' with h_ne | h_lt
    · obtain ⟨r', h_row'⟩ := Option.ne_none_iff_exists'.mp h_ne
      exact h.fresh id r' h_row'
    · exact Or.inr (h.lastId.trans_lt h_lt)
  lastId := h.lastId.trans h'.lastId

/-- An `UPDATE` of the other columns keeps the rows. -/
theorem Keeps.update (cs : Consumers) (p : ConsumerRecord → Bool)
    {f : ConsumerRecord → ConsumerRecord} (h_id : ∀ r, (f r).id = r.id)
    (h_same : ∀ r, SameKey r (f r)) :
    Keeps cs { cs with table := cs.table.update p f h_id } where
  row := by
    intro id r h_row
    refine ⟨if p r then f r else r, ?_, ?_⟩
    · rw [row_update]
      exact congrArg _ h_row
    · split
      · exact h_same r
      · exact ⟨rfl, rfl, rfl⟩
  fresh := by
    intro id r' h_row'
    rw [row_update] at h_row'
    obtain ⟨r, h_row, -⟩ := Option.map_eq_some_iff.mp h_row'
    exact Or.inl (by simp [h_row])
  lastId := le_refl _

end Consumers

/-! ### What is done to the table -/

/-- A call that changes the table: `create_consumer`, the `UPDATE` of an operator, and
`touch_last_seen`. There is no `DELETE`. -/
inductive ConsumerOp where
  | create (name : PyStr) (scopes : List PyStr) (token : String) (nowMs : ℤ)
  | setEnabled (name : String) (enabled : Bool)
  | touchLastSeen (id nowMs : ℤ)

/-- The table after a call. -/
def ConsumerOp.apply (sha256 : Bytes → String) (cs : Consumers) : ConsumerOp → Consumers
  | .create name scopes token nowMs => (createConsumer sha256 name scopes token nowMs cs).2
  | .setEnabled name enabled => cs.setEnabled name enabled
  | .touchLastSeen id nowMs => cs.touchLastSeen id nowMs

section Ops

variable {sha256 : Bytes → String} {cs : Consumers} {name : PyStr} {scopes : List PyStr}
  {token : String} {nowMs : ℤ}

/-- `create_consumer` adds no row, or a row of a new name and a new hash. What it returns besides
the table says which. -/
theorem createConsumer_cases (sha256 : Bytes → String) (name : PyStr) (scopes : List PyStr)
    (token : String) (nowMs : ℤ) (cs : Consumers) :
    (∃ e n, createConsumer sha256 name scopes token nowMs cs = (.error e, { cs with lastId := n }) ∧
      cs.lastId ≤ n) ∨
    ∃ r : ConsumerRecord, r.id = cs.lastId + 1 ∧ PyStr.encode name = some r.name ∧
      r.apiKeyHash = sha256 (utf8 (generateApiKey token)) ∧
      r.scopes.map (fun scope => PyStr.ofString scope.text) = scopes ∧ r.enabled = true ∧
      (∀ r' ∈ cs.table.rows, r'.name ≠ r.name ∧ r'.apiKeyHash ≠ r.apiKeyHash) ∧
      createConsumer sha256 name scopes token nowMs cs =
        (.ok (r.id, generateApiKey token), ⟨cs.table.insert r, r.id⟩) := by
  unfold createConsumer
  split
  · exact Or.inl ⟨_, cs.lastId, rfl, le_refl _⟩
  · next h_scopes =>
    -- no scope is left over, so that each is one of the three
    have h_texts : ∀ t ∈ scopes, ∃ scope, Scope.ofText? t = some scope := by
      intro t h_t
      by_contra h_none
      have h_mem : t ∈ invalidScopes scopes := by
        rw [invalidScopes, List.mem_insertionSort, List.mem_dedup, List.mem_filter]
        refine ⟨h_t, ?_⟩
        cases h_scope : Scope.ofText? t with
        | none => rfl
        | some scope => exact absurd ⟨scope, h_scope⟩ h_none
      rw [not_not.mp h_scopes] at h_mem
      exact absurd h_mem (by simp)
    dsimp only
    split
    · exact Or.inl ⟨_, cs.lastId, rfl, le_refl _⟩
    · next name' h_name =>
      split
      · exact Or.inl ⟨_, _, rfl, by omega⟩
      · next h_free =>
        obtain ⟨text, h_text, h_if⟩ := Option.bind_eq_some_iff.mp h_name
        -- a name that psycopg takes is the text it was given as
        have h_encode : PyStr.encode name = some name' := by
          split at h_if
          · exact absurd h_if (by simp)
          · rw [h_text]
            exact h_if
        refine Or.inr ⟨⟨cs.lastId + 1, name', _, scopes.filterMap Scope.ofText?, true, nowMs, none⟩,
          rfl, h_encode, rfl, ?_, rfl, fun r' h_r' => ?_, rfl⟩
        · -- a valid scope is the text it was given as
          clear h_scopes
          induction scopes with
          | nil => rfl
          | cons t scopes ih =>
            obtain ⟨scope, h_scope⟩ := h_texts t (List.mem_cons_self ..)
            have h_text' : PyStr.ofString scope.text = t := by
              simpa using List.find?_some h_scope
            have ih := ih (fun t' h_t' => h_texts t' (List.mem_cons_of_mem _ h_t'))
            rw [List.filterMap_cons, h_scope]
            exact congrArg₂ List.cons h_text' ih
        · have h_not := fun h_or => h_free (List.any_eq_true.mpr ⟨r', h_r', h_or⟩)
          simpa using h_not

namespace Consumers

/-- **A call keeps the constraints.** A row that is inserted has a new id, and the two `UNIQUE`s
were checked; the two `UPDATE`s set other columns. -/
theorem Wf.apply (h : cs.Wf) (op : ConsumerOp) : Wf (op.apply sha256 cs) := by
  cases op with
  | create name scopes token nowMs =>
    show Wf (createConsumer sha256 name scopes token nowMs cs).2
    rcases createConsumer_cases sha256 name scopes token nowMs cs with
      ⟨e, n, h_call, h_le⟩ | ⟨r, h_id, -, -, -, -, h_free, h_call⟩
    · rw [h_call]
      exact ⟨fun r h_r => (h.id_le r h_r).trans h_le, h.names, h.hashes⟩
    · -- the new id was not in use
      have h_none : cs.table.get? r.id = none := by
        rw [Table.get?_eq_none]
        intro r' h_r' h_eq
        have h_le := h.id_le r' h_r'
        omega
      have h_rows : (cs.table.insert r).rows = cs.table.rows ++ [r] :=
        Table.rows_insert_of_none h_none
      rw [h_call]
      refine ⟨?_, ?_, ?_⟩
      · intro r' h_r'
        change r' ∈ (cs.table.insert r).rows at h_r'
        rw [h_rows, List.mem_append, List.mem_singleton] at h_r'
        show r'.id ≤ r.id
        rcases h_r' with h_r' | rfl
        · have h_le := h.id_le r' h_r'
          omega
        · exact le_refl _
      · show ((cs.table.insert r).rows.map _).Nodup
        rw [h_rows, List.map_append, List.nodup_append]
        refine ⟨h.names, List.nodup_singleton _, ?_⟩
        -- no row has the new name
        rintro a h_a b h_b rfl
        obtain ⟨r', h_r', rfl⟩ := List.mem_map.mp h_a
        exact (h_free r' h_r').1 (List.mem_singleton.mp h_b)
      · show ((cs.table.insert r).rows.map _).Nodup
        rw [h_rows, List.map_append, List.nodup_append]
        refine ⟨h.hashes, List.nodup_singleton _, ?_⟩
        -- nor the new hash
        rintro a h_a b h_b rfl
        obtain ⟨r', h_r', rfl⟩ := List.mem_map.mp h_a
        exact (h_free r' h_r').2 (List.mem_singleton.mp h_b)
  | setEnabled name enabled =>
    exact h.update _ (f := ConsumerRecord.setEnabled enabled) (fun _ => rfl) (fun _ => rfl)
      (fun _ => rfl)
  | touchLastSeen id nowMs =>
    exact h.update _ (f := ConsumerRecord.seenAt nowMs) (fun _ => rfl) (fun _ => rfl) (fun _ => rfl)

/-- **A call keeps the rows.** A minted consumer is a row more, and the `UPDATE`s do not set a
name, a hash or a scope. -/
theorem Wf.keeps (h : cs.Wf) (op : ConsumerOp) : Keeps cs (op.apply sha256 cs) := by
  cases op with
  | create name scopes token nowMs =>
    show Keeps cs (createConsumer sha256 name scopes token nowMs cs).2
    rcases createConsumer_cases sha256 name scopes token nowMs cs with
      ⟨e, n, h_call, h_le⟩ | ⟨r, h_id, -, -, -, -, -, h_call⟩
    · rw [h_call]
      exact { Keeps.refl cs with lastId := h_le }
    · have h_none : cs.table.get? r.id = none := by
        rw [Table.get?_eq_none]
        intro r' h_r' h_eq
        have h_le := h.id_le r' h_r'
        omega
      -- the other ids have the rows they had
      have h_row : ∀ id, (Consumers.mk (cs.table.insert r) r.id).row id =
          if r.id = id then some r else cs.row id := Table.get?_insert_of_none h_none
      rw [h_call]
      refine ⟨fun id r' h_row' => ⟨r', ?_, rfl, rfl, rfl⟩, fun id r' h_row' => ?_, ?_⟩
      · rw [h_row, if_neg]
        · exact h_row'
        · rintro rfl
          exact absurd (h_none.symm.trans h_row') (by simp)
      · rw [h_row] at h_row'
        by_cases h_eq : r.id = id
        · exact Or.inr (by omega)
        · rw [if_neg h_eq] at h_row'
          exact Or.inl (by simp [h_row'])
      · show cs.lastId ≤ r.id
        omega
  | setEnabled name enabled =>
    exact .update cs _ (f := ConsumerRecord.setEnabled enabled) (fun _ => rfl)
      (fun _ => ⟨rfl, rfl, rfl⟩)
  | touchLastSeen id nowMs =>
    exact .update cs _ (f := ConsumerRecord.seenAt nowMs) (fun _ => rfl) (fun _ => ⟨rfl, rfl, rfl⟩)

end Consumers

end Ops

/-! ### The keys that were issued -/

/-- A consumer as the operator knows it: what `create_consumer` printed, and whether it was
disabled since. The raw key is known here, and only here. -/
structure Issue where
  id : ℤ
  name : String
  rawKey : String
  scopes : List PyStr
  enabled : Bool

/-- What a call changes of what the operator knows. It is told from what `create_consumer`
returns, and not from the table. -/
def ConsumerOp.issued (sha256 : Bytes → String) (cs : Consumers) (known : List Issue) :
    ConsumerOp → List Issue
  | .create name scopes token nowMs =>
    match (createConsumer sha256 name scopes token nowMs cs).1, PyStr.encode name with
    | .ok (id, rawKey), some name => known ++ [⟨id, name, rawKey, scopes, true⟩]
    | _, _ => known
  | .setEnabled name enabled =>
    known.map (fun i => if i.name = name then { i with enabled := enabled } else i)
  | .touchLastSeen _ _ => known

/-- The table, and what the operator knows, after a sequence of calls. -/
def Consumers.run (sha256 : Bytes → String) (ops : List ConsumerOp) : Consumers × List Issue :=
  ops.foldl (fun st op => (op.apply sha256 st.1, op.issued sha256 st.1 st.2)) (.empty, [])

/-- The row says what the operator knows. -/
structure Issue.Describes (sha256 : Bytes → String) (i : Issue) (r : ConsumerRecord) : Prop where
  id : r.id = i.id
  name : r.name = i.name
  hash : r.apiKeyHash = sha256 (utf8 i.rawKey)
  scopes : r.scopes.map (fun scope => PyStr.ofString scope.text) = i.scopes
  enabled : r.enabled = i.enabled

/-- The rows are what the operator knows, one by one and in the order in which they were minted.
-/
structure Registers (sha256 : Bytes → String) (cs : Consumers) (known : List Issue) : Prop where
  wf : cs.Wf
  rows : List.Forall₂ (Issue.Describes sha256) known cs.table.rows

section Registers

variable {sha256 : Bytes → String} {cs : Consumers} {known : List Issue}

/-- To begin with there is nothing to know. -/
theorem Registers.empty : Registers sha256 .empty [] := ⟨.empty, .nil⟩

/-- **A call does to the table what the operator takes it to do.** -/
theorem Registers.apply (h : Registers sha256 cs known) (op : ConsumerOp) :
    Registers sha256 (op.apply sha256 cs) (op.issued sha256 cs known) where
  wf := h.wf.apply op
  rows := by
    cases op with
    | create name scopes token nowMs =>
      show List.Forall₂ (Issue.Describes sha256)
        (match (createConsumer sha256 name scopes token nowMs cs).1, PyStr.encode name with
        | .ok (id, rawKey), some name => known ++ [⟨id, name, rawKey, scopes, true⟩]
        | _, _ => known) (createConsumer sha256 name scopes token nowMs cs).2.table.rows
      -- nothing was printed, or the key of the row that was inserted
      rcases createConsumer_cases sha256 name scopes token nowMs cs with
        ⟨e, n, h_call, -⟩ | ⟨r, h_id, h_name, h_hash, h_scopes, h_enabled, -, h_call⟩
      · rw [h_call]
        exact h.rows
      · have h_none : cs.table.get? r.id = none := by
          rw [Table.get?_eq_none]
          intro r' h_r' h_eq
          have h_le := h.wf.id_le r' h_r'
          omega
        rw [h_call, h_name]
        dsimp only
        rw [Table.rows_insert_of_none h_none]
        exact List.rel_append h.rows (.cons (.mk rfl rfl h_hash h_scopes h_enabled) .nil)
    | setEnabled name enabled =>
      show List.Forall₂ _ (known.map _) (cs.table.rows.map _)
      rw [List.forall₂_map_left_iff, List.forall₂_map_right_iff]
      refine h.rows.imp (fun i r h_r => ?_)
      -- the row has the name exactly if the issue has it
      by_cases h_name : i.name = name
      · rw [if_pos h_name, if_pos (decide_eq_true (h_r.name.trans h_name))]
        exact { h_r with enabled := rfl }
      · have h_other : ¬ decide (r.name = name) = true := by
          rw [h_r.name]
          simpa using h_name
        rw [if_neg h_name, if_neg h_other]
        exact h_r
    | touchLastSeen id nowMs =>
      show List.Forall₂ _ known (cs.table.rows.map _)
      rw [List.forall₂_map_right_iff]
      -- the operator does not know when a consumer was last seen
      refine h.rows.imp (fun i r h_r => ?_)
      split
      · exact { h_r with }
      · exact h_r

/-- So does a sequence of calls. -/
theorem Registers.run (ops : List ConsumerOp) :
    Registers sha256 (Consumers.run sha256 ops).1 (Consumers.run sha256 ops).2 := by
  -- the induction is from any table and what is known of it
  have h_from : ∀ (ops : List ConsumerOp) {cs : Consumers} {known : List Issue},
      Registers sha256 cs known →
        Registers sha256
          (ops.foldl (fun st op => (op.apply sha256 st.1, op.issued sha256 st.1 st.2))
            (cs, known)).1
          (ops.foldl (fun st op => (op.apply sha256 st.1, op.issued sha256 st.1 st.2))
            (cs, known)).2 := by
    intro ops
    induction ops with
    | nil => exact fun h => h
    | cons op ops ih => exact fun h => ih (h.apply op)
  exact h_from ops .empty

/-- A row is one the operator knows, -/
theorem Registers.exists_issue (h : Registers sha256 cs known) {r : ConsumerRecord}
    (h_r : r ∈ cs.table.rows) : ∃ i ∈ known, i.Describes sha256 r := by
  obtain ⟨n, h_n, rfl⟩ := List.mem_iff_getElem.mp h_r
  have h_length := h.rows.length_eq
  exact ⟨known[n], List.getElem_mem _, h.rows.get (by omega) h_n⟩

/-- and the other way round. -/
theorem Registers.exists_row (h : Registers sha256 cs known) {i : Issue} (h_i : i ∈ known) :
    ∃ r ∈ cs.table.rows, i.Describes sha256 r := by
  obtain ⟨n, h_n, rfl⟩ := List.mem_iff_getElem.mp h_i
  have h_length := h.rows.length_eq
  exact ⟨cs.table.rows[n], List.getElem_mem _, h.rows.get h_n (by omega)⟩

end Registers

/-- **A key is its consumer.** After every sequence of mintings, of `UPDATE`s by an operator and
of `touch_last_seen`, the lookup of a key that was issued finds the consumer it was issued for,
with the scopes it was minted with, enabled unless it was disabled last; no two keys or ids that
were issued are the same, and nothing but the hash of a key that was issued finds a row.

Nothing is assumed of `sha256`: a key whose hash is taken is not issued. -/
theorem issued_keys_identify (sha256 : Bytes → String) (ops : List ConsumerOp) :
    (∀ i ∈ (Consumers.run sha256 ops).2, ∃ hash r,
      hashApiKey sha256 (PyStr.ofString i.rawKey) = some hash ∧
        (Consumers.run sha256 ops).1.findByKeyHash hash = some r ∧ i.Describes sha256 r) ∧
    ((Consumers.run sha256 ops).2.map (fun i => i.id)).Nodup ∧
    ((Consumers.run sha256 ops).2.map (fun i => i.rawKey)).Nodup ∧
    ∀ hash r, (Consumers.run sha256 ops).1.findByKeyHash hash = some r →
      ∃ i ∈ (Consumers.run sha256 ops).2, hash = sha256 (utf8 i.rawKey) ∧
        i.Describes sha256 r := by
  have h := @Registers.run sha256 ops
  generalize (Consumers.run sha256 ops).1 = cs at h ⊢
  generalize (Consumers.run sha256 ops).2 = known at h ⊢
  refine ⟨fun i h_i => ?_, ?_, ?_, fun hash r h_find => ?_⟩
  · obtain ⟨r, h_r, h_describes⟩ := h.exists_row h_i
    refine ⟨_, r, ?_, h.wf.findByKeyHash_iff.mpr ⟨cs.table.mem_rows.mp h_r, h_describes.hash⟩,
      h_describes⟩
    rw [hashApiKey, PyStr.encode_ofString]
    rfl
  · -- the ids are those of the rows
    have h_ids : known.map (fun i => i.id) = cs.table.rows.map ConsumerRecord.id := by
      rw [← List.forall₂_eq_eq_eq, List.forall₂_map_left_iff, List.forall₂_map_right_iff]
      exact h.rows.imp (fun i r h_r => h_r.id.symm)
    rw [h_ids]
    exact cs.table.nodup
  · -- the hashes of the keys are those of the rows, which are distinct
    have h_hashes : (known.map (fun i => i.rawKey)).map (fun k => sha256 (utf8 k)) =
        cs.table.rows.map (·.apiKeyHash) := by
      rw [List.map_map, ← List.forall₂_eq_eq_eq, List.forall₂_map_left_iff,
        List.forall₂_map_right_iff]
      exact h.rows.imp (fun i r h_r => h_r.hash.symm)
    refine List.Nodup.of_map (fun k => sha256 (utf8 k)) ?_
    rw [h_hashes]
    exact h.wf.hashes
  · -- a row that is found is one the operator knows
    obtain ⟨h_row, h_hash⟩ := h.wf.findByKeyHash_iff.mp h_find
    obtain ⟨i, h_i, h_describes⟩ := h.exists_issue (Table.mem_of_get? h_row)
    exact ⟨i, h_i, h_hash.symm.trans h_describes.hash, h_describes⟩

end Api
end FingerprintHub
