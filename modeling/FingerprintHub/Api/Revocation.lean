import Mathlib.Data.List.Count
import FingerprintHub.Api.Access

/-!
# Revoking a consumer

A consumer is revoked by an `UPDATE` on `consumers` while the service runs, and "disabling takes
effect on the next request". `disabled_consumers_run_out` says what that comes to: the requests
of the consumer that were under way are served, no more than there were of them, and every
request that arrives from then on is refused.

The measure is the number of requests under way. A request is under way from the moment its key
has found an enabled record.
-/

namespace FingerprintHub
namespace Api

open Base64 (Bytes)
open FieldEncryption (AesGcm)

variable {sha256 : Bytes → String} {rt : Runtime} {gcm : AesGcm} {config : ServiceConfig}
  {rateLimit : ℤ} {a b : App} {e : AppEvent} {answer : Option Response} {id : ℤ} {name : String}

/-! ### What is under way -/

/-- The key has found an enabled record of the consumer, so that the limiter will not refuse the
request for being disabled. -/
def findsEnabled (id : ℤ) (x : HttpRequest × Option ConsumerRecord) : Bool :=
  x.2.any (fun r => decide (r.id = id) && r.enabled)

/-- The requests of a consumer that are under way, in any of the three stages. -/
def App.underWay (a : App) (id : ℤ) : ℕ :=
  a.lookedUp.countP (findsEnabled id) +
    a.admitted.countP (fun x => decide (x.record.id = id)) +
    a.service.allowed.countP (fun x => decide (x.1.id = id))

/-- A handler of the consumer ends. A deletion ends with its second transaction. -/
def serves (id : ℤ) : AppEvent × Option Response → Bool
  | (.handle _ record _ _ _, some _) => record.id = id
  | (.softDelete c _ _, some _) => c.id = id
  | _ => false

/-- The consumer of the id is disabled. The operator knows it by its name. -/
def Consumers.Disabled (cs : Consumers) (id : ℤ) (name : String) : Prop :=
  ∃ r, cs.row id = some r ∧ r.name = name ∧ r.enabled = false

/-- A run, with its steps and their answers. -/
inductive AppRun (sha256 : Bytes → String) (rt : Runtime) (gcm : AesGcm) (config : ServiceConfig)
    (rateLimit : ℤ) (a : App) : List (AppEvent × Option Response) → App → Prop
  | nil : AppRun sha256 rt gcm config rateLimit a [] a
  | step {trace : List (AppEvent × Option Response)} {b c : App} {e : AppEvent}
      {answer : Option Response} (h_run : AppRun sha256 rt gcm config rateLimit a trace b)
      (h_step : AppStep sha256 rt gcm config rateLimit b e answer c) :
      AppRun sha256 rt gcm config rateLimit a (trace ++ [(e, answer)]) c

/-! ### A disabled consumer stays disabled -/

namespace Consumers

variable {cs : Consumers}

/-- A call that does not enable the consumer again leaves it disabled. -/
theorem Disabled.apply (h_wf : cs.Wf) (h : cs.Disabled id name) (op : ConsumerOp)
    (h_op : op ≠ .setEnabled name true) : (op.apply sha256 cs).Disabled id name := by
  obtain ⟨r, h_row, rfl, h_disabled⟩ := h
  cases op with
  | create name scopes token nowMs =>
    show (createConsumer sha256 name scopes token nowMs cs).2.Disabled id r.name
    rcases createConsumer_cases sha256 name scopes token nowMs cs with
      ⟨_, _, h_call, -⟩ | ⟨r', h_id, -, -, -, -, -, h_call⟩
    · rw [h_call]
      exact ⟨r, h_row, rfl, h_disabled⟩
    · -- a new row has a new id
      have h_none : cs.table.get? r'.id = none := by
        rw [Table.get?_eq_none]
        intro r₀ h_r₀ h_eq
        have h_le := h_wf.id_le r₀ h_r₀
        omega
      refine ⟨r, ?_, rfl, h_disabled⟩
      rw [h_call]
      show (cs.table.insert r').get? id = some r
      rw [Table.get?_insert_of_none h_none, if_neg]
      · exact h_row
      · rintro rfl
        exact absurd (h_none.symm.trans h_row) (by simp)
  | setEnabled name' enabled =>
    -- the UPDATE is of this name, and sets the flag to false, or it is of another
    have h_row' : (cs.setEnabled name' enabled).row id =
        some (if r.name = name' then r.setEnabled enabled else r) := by
      refine (cs.row_update _ _ id).trans ?_
      rw [h_row]
      simp
    refine ⟨_, h_row', ?_, ?_⟩
    · split <;> rfl
    · split
      · next h_name =>
        cases enabled with
        | false => rfl
        | true => exact absurd (by rw [h_name]) h_op
      · exact h_disabled
  | touchLastSeen id' nowMs =>
    have h_row' : (cs.touchLastSeen id' nowMs).row id =
        some (if r.id = id' then r.seenAt nowMs else r) := by
      refine (cs.row_update _ _ id).trans ?_
      rw [h_row]
      simp
    refine ⟨_, h_row', ?_, ?_⟩
    · split <;> rfl
    · split
      · exact h_disabled
      · exact h_disabled

/-- Its key finds it disabled: no other row has the hash. -/
theorem Disabled.of_find (h_wf : cs.Wf) (h : cs.Disabled id name) {hash : String}
    {record : ConsumerRecord} (h_find : cs.findByKeyHash hash = some record)
    (h_id : record.id = id) : record.enabled = false := by
  obtain ⟨r, h_row, -, h_disabled⟩ := h
  have h_record := (h_wf.findByKeyHash_iff.mp h_find).1
  rw [h_id, h_row] at h_record
  rw [← Option.some.inj h_record]
  exact h_disabled

end Consumers

/-! ### The measure -/

/-- **A step of a run without the consumer**: no request of a disabled consumer gets under way,
and every handler that ends takes one away. The other steps move a request on, or are of other
consumers. -/
theorem AppStep.underWay (h_wf : a.consumers.Wf) (h_disabled : a.consumers.Disabled id name)
    (h : AppStep sha256 rt gcm config rateLimit a e answer b) :
    (if serves id (e, answer) then 1 else 0) + b.underWay id ≤ a.underWay id := by
  cases h with
  | create => exact (zero_add _).le
  | setEnabled => exact (zero_add _).le
  | retention => exact (zero_add _).le
  | isPublic => exact (zero_add _).le
  | noKey => exact (zero_add _).le
  | @lookup req _ row h_lookup =>
    -- the key of the consumer finds a disabled record
    have h_not : findsEnabled id (req, row) = false := by
      cases row with
      | none => rfl
      | some record =>
        obtain ⟨hash, -, h_find⟩ := lookupKey_ok h_lookup
        by_cases h_id : record.id = id
        · simp [findsEnabled, h_disabled.of_find h_wf h_find h_id]
        · simp [findsEnabled, h_id]
    simp [serves, App.underWay, h_not]
  | refuse h_at h_auth =>
    simp only [serves, App.underWay, h_at, List.countP_append, List.countP_cons]
    simp
  | @authenticate before after req row h_at now record touch h_auth =>
    -- what is let through was enabled when it was found
    obtain ⟨rfl, h_enabled⟩ := authenticate_ok h_auth
    simp only [serves, App.underWay, h_at, List.countP_append, List.countP_cons, findsEnabled,
      Option.any_some, h_enabled, Bool.and_true]
    simp
    omega
  | touch h_at nowMs =>
    simp only [serves, App.underWay, h_at, List.countP_append, List.countP_cons]
    simp
  | touchFails h_at =>
    simp only [serves, App.underWay, h_at, List.countP_append, List.countP_cons]
    simp
  -- a handler that ends takes its request away
  | @answer before after req record h_at ring nonces nowMs response s h_serve =>
    simp only [App.underWay, h_at, List.countP_append, List.countP_cons]
    by_cases h_id : record.id = id
    · simp [serves, h_id]
      omega
    · simp [serves, h_id]
  -- a deletion that is allowed goes on to its second transaction
  | @allowDelete before after req record h_at ring nonces nowMs fid h_serve =>
    simp only [serves, App.underWay, h_at, List.countP_append, List.countP_cons,
      ConsumerRecord.consumer]
    simp
    omega
  | @softDelete c fid h_allowed nowMs =>
    have h_erase := List.countP_erase (fun x : Consumer × ℤ => decide (x.1.id = id))
      a.service.allowed (c, fid)
    simp only [App.underWay, h_erase]
    by_cases h_id : c.id = id
    · have h_pos : 0 < a.service.allowed.countP (fun x => decide (x.1.id = id)) :=
        List.countP_pos_iff.mpr ⟨_, h_allowed, by simp [h_id]⟩
      simp [serves, h_id, h_allowed]
      omega
    · simp [serves, h_id]

/-- A run with its steps is a run. -/
theorem AppRun.reaches {trace : List (AppEvent × Option Response)}
    (h : AppRun sha256 rt gcm config rateLimit a trace b) :
    AppReaches sha256 rt gcm config rateLimit a b := by
  induction h with
  | nil => exact .refl
  | step _ h_step ih => exact ih.tail ⟨_, _, h_step⟩

/-- The run of a disabled consumer: it stays disabled, and what was served of it and what is under
way is no more than what was under way. -/
theorem AppRun.disabled (h_wf : a.consumers.Wf) (h_disabled : a.consumers.Disabled id name)
    {trace : List (AppEvent × Option Response)}
    (h : AppRun sha256 rt gcm config rateLimit a trace b)
    (h_trace : ∀ x ∈ trace, x.1 ≠ .setEnabled name true) :
    b.consumers.Wf ∧ b.consumers.Disabled id name ∧
      trace.countP (serves id) + b.underWay id ≤ a.underWay id := by
  induction h with
  | nil => exact ⟨h_wf, h_disabled, by simp⟩
  | @step trace b c e answer h_run h_step ih =>
    obtain ⟨h_wf_b, h_disabled_b, h_count⟩ :=
      ih (fun x h_x => h_trace x (List.mem_append_left _ h_x))
    have h_event : e ≠ .setEnabled name true :=
      h_trace (e, answer) (List.mem_append_right _ (List.mem_singleton_self _))
    -- the step keeps it disabled, and the measure falls with every handler
    refine ⟨(h_step.consumers_wf h_wf_b).1, ?_, ?_⟩
    · rw [h_step.consumers]
      cases h_op : e.consumerOp with
      | none => exact h_disabled_b
      | some op =>
        refine h_disabled_b.apply h_wf_b op ?_
        -- the only call that would enable it is that of the operator
        rintro rfl
        cases e with
        | setEnabled name' enabled =>
          obtain ⟨rfl, rfl⟩ := ConsumerOp.setEnabled.inj (Option.some.inj h_op)
          exact h_event rfl
        | _ => simp [AppEvent.consumerOp] at h_op
    · have h_last := h_step.underWay h_wf_b h_disabled_b
      rw [List.countP_append, List.countP_singleton]
      omega

/-- **A disabled consumer runs out.** Once a consumer is disabled, and as long as it is not
enabled again, no more of its requests are served than were under way at that moment, whatever
else happens; and a request that arrives with its key is refused with 401 whenever the limiter
gets to it, without being counted.

The bound is on the handlers that end, whatever they answer, and holds at every point of the run.
-/
theorem disabled_consumers_run_out
    (h_start : AppReaches sha256 rt gcm config rateLimit .start a) {r : ConsumerRecord}
    (h_row : a.consumers.row r.id = some r) {trace : List (AppEvent × Option Response)}
    (h_run : AppRun sha256 rt gcm config rateLimit
      { a with consumers := a.consumers.setEnabled r.name false } trace b)
    (h_trace : ∀ x ∈ trace, x.1 ≠ .setEnabled r.name true) :
    trace.countP (serves r.id) + b.underWay r.id ≤ a.underWay r.id ∧
    ∀ req : HttpRequest, req.apiKey ≠ [] →
      hashApiKey sha256 req.apiKey = some r.apiKeyHash →
      ∃ record, lookupKey sha256 req b.consumers = .ok (some record) ∧ record.id = r.id ∧
        ∀ st now, authenticate rateLimit st (some record) now =
          (.error (.error 401 "invalid or disabled API key"), st) := by
  have h_wf : (a.consumers.setEnabled r.name false).Wf :=
    @Consumers.Wf.apply sha256 _ h_start.wf.2 (.setEnabled r.name false)
  have h_row' : (a.consumers.setEnabled r.name false).row r.id = some (r.setEnabled false) := by
    refine (a.consumers.row_update _ _ r.id).trans ?_
    rw [h_row]
    simp
  have h_start' : (a.consumers.setEnabled r.name false).Disabled r.id r.name :=
    ⟨r.setEnabled false, h_row', rfl, rfl⟩
  obtain ⟨h_wf_b, ⟨record, h_record, -, h_disabled⟩, h_count⟩ :=
    h_run.disabled h_wf h_start' h_trace
  refine ⟨h_count, fun req h_key h_hash =>
    ⟨record, ?_, Table.key_of_get? h_record, fun st now => ?_⟩⟩
  · -- the key still finds the row
    obtain ⟨record', h_record', -, h_same, -⟩ := (h_run.reaches.consumers_wf h_wf).2.row _ _ h_row'
    obtain rfl := Option.some.inj (h_record.symm.trans h_record')
    have h_id : record.id = r.id := Table.key_of_get? h_record
    rw [lookupKey_of_hash h_key h_hash, h_wf_b.findByKeyHash_iff.mpr]
    exact ⟨by rw [h_id]; exact h_record, h_same⟩
  · exact authenticate_disabled h_disabled

/-- The one request that was under way is served, and then none is left. -/
theorem disabled_consumers_run_out_post :
    (sampleAdmitted (samplePost "[]")).underWay 1 = 1 ∧
    ∃ event answer b,
      AppRun sampleSha256 sampleRuntime FieldEncryption.sampleGcm .default 5
        { sampleAdmitted (samplePost "[]") with
          consumers := sampleConsumers.setEnabled "client" false } [(event, answer)] b ∧
      serves 1 (event, answer) = true ∧ b.underWay 1 = 0 := by
  have h_one : (sampleAdmitted (samplePost "[]")).underWay 1 = 1 := rfl
  have h_row : (sampleAdmitted (samplePost "[]")).consumers.row sampleRecord.id =
      some sampleRecord := by decide +kernel
  have h_step := @AppStep.answer sampleSha256 sampleRuntime FieldEncryption.sampleGcm .default 5
    { sampleAdmitted (samplePost "[]") with
      consumers := sampleConsumers.setEnabled "client" false } [] [] _ _ rfl
    _ _ _ _ _ (sampleAnswer_serve _ "[]" _)
  have h_run := AppRun.nil.step h_step
  obtain ⟨h_count, -⟩ :=
    disabled_consumers_run_out (sampleAdmitted_reaches .default "[]") h_row h_run (by simp)
  have h_none := @Nat.le_of_add_le_add_left 1 _ 0 h_count
  exact ⟨h_one, _, _, _, h_run, rfl, Nat.le_zero.mp h_none⟩

end Api
end FingerprintHub
