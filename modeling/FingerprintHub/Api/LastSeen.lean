import Mathlib.Tactic.Linarith
import FingerprintHub.Api.Revocation
import FingerprintHub.Library.Throttle

/-!
# When a consumer is marked as seen

`auth_middleware` updates `last_seen_at_ms` at most once a minute for each consumer, "avoids a
write per request". The decision is made when a request is let through, and the update is a
transaction of its own, so that many requests are let through between the two.

`AppRun.follows` says that the decisions of a run are those of a throttle of 60 seconds that gets
the requests that are let through, in their order, and that every update belongs to one of them.
-/

namespace FingerprintHub
namespace Api

open Auth (AuthState rateLimited)
open Base64 (Bytes)
open FieldEncryption (AesGcm)

variable {sha256 : Bytes → String} {rt : Runtime} {gcm : AesGcm} {config : ServiceConfig}
  {rateLimit : ℤ} {a b : App} {e : AppEvent} {answer : Option Response} {id : ℤ}
  {trace : List (AppEvent × Option Response)}

/-! ### What a run lets through -/

/-- The consumer and the time of a request that is let through. One that is refused has an answer
in this step, and one whose key was not found has no record. -/
def letThrough : AppEvent × Option Response → Option (ℤ × ℚ)
  | (.authenticate _ (some record) now, none) => some (record.id, now)
  | _ => none

/-- The update runs, or fails. Both end the wait of the request for it. -/
def updates (id : ℤ) : AppEvent × Option Response → Bool
  | (.touch record _, _) => record.id = id
  | (.touchFails record, _) => record.id = id
  | _ => false

/-- The update is due: it was decided for this request of the consumer, and has not run. -/
def dueFor (id : ℤ) (x : Admitted) : Bool := x.touch && decide (x.record.id = id)

/-- What `auth_middleware` decides in a step: the consumer to be marked as seen, and when. Only
the limiter decides, and only for a request that it lets through. -/
def decision (rateLimit : ℤ) (a : App) : AppEvent → List (ℤ × ℚ)
  | .authenticate _ row now =>
    match (authenticate rateLimit a.auth row now).1 with
    | .ok (record, true) => [(record.id, now)]
    | _ => []
  | _ => []

/-- A run from the start, with its decisions in their order. -/
inductive DecidingRun (sha256 : Bytes → String) (rt : Runtime) (gcm : AesGcm)
    (config : ServiceConfig) (rateLimit : ℤ) :
    List (AppEvent × Option Response) → List (ℤ × ℚ) → App → Prop
  | nil : DecidingRun sha256 rt gcm config rateLimit [] [] .start
  | step {trace : List (AppEvent × Option Response)} {decisions : List (ℤ × ℚ)} {b c : App}
      {e : AppEvent} {answer : Option Response}
      (h_run : DecidingRun sha256 rt gcm config rateLimit trace decisions b)
      (h_step : AppStep sha256 rt gcm config rateLimit b e answer c) :
      DecidingRun sha256 rt gcm config rateLimit (trace ++ [(e, answer)])
        (decisions ++ decision rateLimit b e) c

/-- `last_seen_marked` after a run, with the requests for which an update was decided, as the
throttle of 60 seconds has them. -/
def throttled (trace : List (AppEvent × Option Response)) : Throttle.State ℤ ℚ :=
  Throttle.run 60 0 (trace.filterMap letThrough)

/-- The decisions are those of the throttle: it has the marks of the process, and for each
consumer it has passed as many requests as there are updates, done and due. -/
structure Follows (trace : List (AppEvent × Option Response)) (b : App) : Prop where
  marked : b.auth.lastSeenMarked = (throttled trace).marked
  count : ∀ id, trace.countP (updates id) + b.admitted.countP (dueFor id) =
    (Throttle.times (throttled trace).passed id).length

/-! ### Step by step -/

/-- What the limiter lets through is offered to the throttle. The mark is set when the throttle
passes, and left when it does not. -/
theorem authenticate_throttle {st : AuthState} {row : Option ConsumerRecord} {now : ℚ}
    {record : ConsumerRecord} {touch : Bool} (passed : List (ℤ × ℚ))
    (h : (authenticate rateLimit st row now).1 = .ok (record, touch)) :
    Throttle.offer 60 ⟨st.lastSeenMarked, passed⟩ (record.id, now) =
      ⟨(authenticate rateLimit st row now).2.lastSeenMarked,
        if touch then passed ++ [(record.id, now)] else passed⟩ := by
  obtain ⟨rfl, h_enabled⟩ := authenticate_ok h
  unfold authenticate at h ⊢
  dsimp only at h ⊢
  rw [if_neg (by simp [h_enabled])] at h ⊢
  -- the request is not limited, since it is let through
  split at h
  · exact absurd h (by simp)
  · next h_free =>
    rw [if_neg h_free]
    unfold Throttle.offer
    dsimp only at h ⊢
    split at h
    · next h_due =>
      obtain ⟨-, rfl⟩ := Prod.mk.inj (Except.ok.inj h)
      simp [h_due]
    · next h_recent =>
      obtain ⟨-, rfl⟩ := Prod.mk.inj (Except.ok.inj h)
      simp [h_recent]

/-- What is answered at once is not offered to it: the mark is left. -/
theorem authenticate_error_marked {st : AuthState} {row : Option ConsumerRecord} {now : ℚ}
    {response : Response} (h : (authenticate rateLimit st row now).1 = .error response) :
    (authenticate rateLimit st row now).2.lastSeenMarked = st.lastSeenMarked := by
  unfold authenticate at h ⊢
  split
  · rfl
  · next record =>
    dsimp only at h ⊢
    split
    · rfl
    · next h_enabled =>
      rw [if_neg h_enabled] at h
      split
      · rfl
      · next h_free =>
        rw [if_neg h_free] at h
        split at h
        · exact absurd h (by simp)
        · exact absurd h (by simp)

/-- A step without a request that is let through, and with as many updates as it takes away from
those that are due. -/
theorem Follows.of_same (h : Follows trace a) (h_step : letThrough (e, answer) = none)
    (h_marked : b.auth.lastSeenMarked = a.auth.lastSeenMarked)
    (h_due : ∀ id, (if updates id (e, answer) then 1 else 0) + b.admitted.countP (dueFor id) =
      a.admitted.countP (dueFor id)) :
    Follows (trace ++ [(e, answer)]) b := by
  have h_throttled : throttled (trace ++ [(e, answer)]) = throttled trace := by
    rw [throttled, List.filterMap_append, List.filterMap_cons_none h_step, List.filterMap_nil,
      List.append_nil]
    rfl
  refine ⟨?_, fun id => ?_⟩
  · rw [h_throttled, h_marked]
    exact h.marked
  · have h_count := h.count id
    have h_due := h_due id
    rw [h_throttled, List.countP_append, List.countP_singleton]
    omega

/-- **A step of the application is one of the throttle**, or changes neither side. The limiter
makes an update due, and an update that runs or fails takes one away. -/
theorem Follows.step (h : Follows trace a)
    (h_step : AppStep sha256 rt gcm config rateLimit a e answer b) :
    Follows (trace ++ [(e, answer)]) b := by
  cases h_step with
  | create => exact h.of_same rfl rfl (fun _ => zero_add _)
  | setEnabled => exact h.of_same rfl rfl (fun _ => zero_add _)
  | retention => exact h.of_same rfl rfl (fun _ => zero_add _)
  | isPublic => exact h.of_same rfl rfl (fun _ => zero_add _)
  | noKey => exact h.of_same rfl rfl (fun _ => zero_add _)
  | lookup => exact h.of_same rfl rfl (fun _ => zero_add _)
  | @refuse before after req row h_at now response h_auth =>
    have h_none : letThrough (.authenticate req row now, some response) = none := by
      cases row with
      | none => rfl
      | some record => rfl
    exact h.of_same h_none (authenticate_error_marked h_auth) (fun _ => zero_add _)
  | @authenticate before after req row h_at now record touch h_auth =>
    obtain ⟨rfl, -⟩ := authenticate_ok h_auth
    -- the request is the next one the throttle gets
    have h_throttled : throttled (trace ++ [(.authenticate req (some record) now, none)]) =
        Throttle.offer 60 (throttled trace) (record.id, now) := by
      rw [throttled, List.filterMap_append]
      exact Throttle.run_concat _ _
    have h_offer := authenticate_throttle (throttled trace).passed h_auth
    rw [h.marked] at h_offer
    refine ⟨?_, fun id => ?_⟩
    · rw [h_throttled]
      exact (congrArg Throttle.State.marked h_offer).symm
    · have h_passed : (throttled (trace ++ [(.authenticate req (some record) now, none)])).passed =
          if touch then (throttled trace).passed ++ [(record.id, now)]
          else (throttled trace).passed := by
        rw [h_throttled]
        exact congrArg Throttle.State.passed h_offer
      have h_count := h.count id
      rw [h_passed, List.countP_append, List.countP_singleton, List.countP_cons]
      -- an update is due for it exactly if the throttle has passed it
      cases touch with
      | false => simpa [updates, dueFor] using h_count
      | true =>
        rw [if_pos rfl, Throttle.times_append, Throttle.times_singleton, List.length_append]
        by_cases h_id : record.id = id
        · simp [updates, dueFor, h_id]
          omega
        · simp [updates, dueFor, h_id]
          omega
  | @touch before after req record h_at nowMs =>
    refine h.of_same rfl rfl (fun id => ?_)
    rw [h_at]
    simp only [updates, dueFor, List.countP_append, List.countP_cons]
    -- the update that was due for the request is made
    by_cases h_id : record.id = id
    · simp [h_id]
      omega
    · simp [h_id]
  | @touchFails before after req record h_at =>
    refine h.of_same rfl rfl (fun id => ?_)
    rw [h_at]
    simp only [updates, dueFor, List.countP_append, List.countP_cons]
    by_cases h_id : record.id = id
    · simp [h_id]
      omega
    · simp [h_id]
  -- a request is handled once no update is due for it
  | answer h_at ring nonces nowMs h_serve =>
    refine h.of_same rfl rfl (fun id => ?_)
    rw [h_at]
    simp [updates, dueFor, List.countP_append]
  | allowDelete h_at ring nonces nowMs h_serve =>
    refine h.of_same rfl rfl (fun id => ?_)
    rw [h_at]
    simp [updates, dueFor, List.countP_append]
  | softDelete => exact h.of_same rfl rfl (fun _ => zero_add _)

/-- A run does, from marks at 0 and nothing due. -/
theorem AppRun.follows (h : AppRun sha256 rt gcm config rateLimit .start trace b) :
    Follows trace b := by
  induction h with
  | nil => exact ⟨rfl, fun _ => rfl⟩
  | step _ h_step ih => exact ih.step h_step

/-- A run with its decisions is a run, -/
theorem DecidingRun.appRun {decisions : List (ℤ × ℚ)}
    (h : DecidingRun sha256 rt gcm config rateLimit trace decisions b) :
    AppRun sha256 rt gcm config rateLimit .start trace b := by
  induction h with
  | nil => exact .nil
  | step _ h_step ih => exact ih.step h_step

/-- and every run has its decisions. -/
theorem AppRun.deciding (h : AppRun sha256 rt gcm config rateLimit .start trace b) :
    ∃ decisions, DecidingRun sha256 rt gcm config rateLimit trace decisions b := by
  induction h with
  | nil => exact ⟨[], .nil⟩
  | step _ h_step ih =>
    obtain ⟨decisions, h_run⟩ := ih
    exact ⟨_, h_run.step h_step⟩

/-- A step decides what the throttle lets through in it. -/
theorem passed_concat (h : Follows trace a)
    (h_step : AppStep sha256 rt gcm config rateLimit a e answer b) :
    (throttled (trace ++ [(e, answer)])).passed =
      (throttled trace).passed ++ decision rateLimit a e := by
  -- a step that lets no request through decides nothing
  have h_same : letThrough (e, answer) = none → decision rateLimit a e = [] →
      (throttled (trace ++ [(e, answer)])).passed =
        (throttled trace).passed ++ decision rateLimit a e := by
    intro h_none h_nil
    rw [h_nil, List.append_nil, throttled, List.filterMap_append,
      List.filterMap_cons_none h_none, List.filterMap_nil, List.append_nil]
    rfl
  cases h_step with
  | @refuse before after req row h_at now response h_auth =>
    have h_nil : decision rateLimit a (.authenticate req row now) = [] := by
      simp only [decision, h_auth]
    refine h_same ?_ h_nil
    cases row with
    | none => rfl
    | some record => rfl
  | @authenticate before after req row h_at now record touch h_auth =>
    obtain ⟨rfl, -⟩ := authenticate_ok h_auth
    -- the throttle passes the request that the limiter lets through, or not
    have h_throttled : throttled (trace ++ [(.authenticate req (some record) now, none)]) =
        Throttle.offer 60 (throttled trace) (record.id, now) := by
      rw [throttled, List.filterMap_append]
      exact Throttle.run_concat _ _
    have h_offer := authenticate_throttle (throttled trace).passed h_auth
    rw [h.marked] at h_offer
    rw [h_throttled]
    refine (congrArg Throttle.State.passed h_offer).trans ?_
    simp only [decision, h_auth]
    cases touch with
    | false => exact (List.append_nil _).symm
    | true => rfl
  | _ => exact h_same rfl rfl

/-- **The decisions of a run are those of the throttle.** What is known of a throttle is known of
them. -/
theorem DecidingRun.decisions_eq {decisions : List (ℤ × ℚ)}
    (h : DecidingRun sha256 rt gcm config rateLimit trace decisions b) :
    decisions = (throttled trace).passed := by
  induction h with
  | nil => rfl
  | step h_run h_step ih => rw [ih, passed_concat h_run.appRun.follows h_step]

/-! ### The throttle of a consumer -/

/-- **A consumer is marked once a minute.** In every run of the application, whatever is
interleaved, the decisions to update `last_seen_at_ms` of a consumer are a minute apart, and each
is carried out once or still to be. So if the requests of the consumer that are let through lie in
an interval of `length` seconds, the column is updated, or tried to be, no more than once a minute
in it. And for every request that is let through a minute or more after the clock began, an update
was decided less than a minute before, or is decided now.

The times are those of `time.monotonic()` when a request is let through. The updates themselves
are transactions of their own, and when they run is left open. -/
theorem last_seen_is_throttled {decisions : List (ℤ × ℚ)}
    (h : DecidingRun sha256 rt gcm config rateLimit trace decisions b) (id : ℤ) :
    Throttle.Spaced 60 (Throttle.times decisions id) ∧
    trace.countP (updates id) + b.admitted.countP (dueFor id) =
      (Throttle.times decisions id).length ∧
    (∀ first length : ℚ, 0 ≤ length →
      (∀ x ∈ trace.filterMap letThrough, x.1 = id → first ≤ x.2 ∧ x.2 ≤ first + length) →
      60 * ((trace.countP (updates id) : ℚ) - 1) ≤ length) ∧
    ∀ before now after, trace.filterMap letThrough = before ++ (id, now) :: after → 60 ≤ now →
      ∃ t, (id, t) ∈ decisions ∧ (id, t) ∈ before ++ [(id, now)] ∧ now < t + 60 := by
  have h_follows := h.appRun.follows
  have h_keeps : ∀ xs : List (ℤ × ℚ), Throttle.Keeps 60 0 xs (Throttle.run 60 0 xs) :=
    Throttle.Keeps.run (by norm_num)
  have h_spaced : Throttle.Spaced 60 (Throttle.times decisions id) := by
    rw [h.decisions_eq]
    exact (h_keeps _).spaced id
  have h_count : trace.countP (updates id) + b.admitted.countP (dueFor id) =
      (Throttle.times decisions id).length := by
    rw [h.decisions_eq]
    exact h_follows.count id
  refine ⟨h_spaced, h_count, fun first length h_length h_in => ?_,
    fun before now after h_trace h_now => ?_⟩
  · have h_in : ∀ t ∈ Throttle.times decisions id, first ≤ t ∧ t ≤ first + length := by
      intro t h_t
      rw [h.decisions_eq, Throttle.mem_times] at h_t
      exact h_in (id, t) ((h_keeps _).sublist.subset h_t) rfl
    -- the updates are no more than the decisions, which are a minute apart
    generalize Throttle.times decisions id = ts at h_spaced h_count h_in
    have h_le : (trace.countP (updates id) : ℚ) ≤ ts.length := by exact_mod_cast (by omega)
    cases ts with
    | nil =>
      simp only [List.length_nil, Nat.cast_zero] at h_le
      linarith
    | cons t ts =>
      have h_bound := Throttle.length_le_of_spaced h_spaced h_in (List.cons_ne_nil _ _)
      rw [nsmul_eq_mul, List.length_cons, Nat.add_sub_cancel] at h_bound
      rw [List.length_cons, Nat.cast_succ] at h_le
      linarith
  · -- the request meets the throttle as the requests before it have left it
    obtain ⟨t, h_passed, h_recent⟩ :=
      @Throttle.exists_recent ℤ ℚ _ _ _ 60 0 _ (by norm_num) before (id, now) (by simpa using h_now)
    refine ⟨t, ?_, (h_keeps _).sublist.subset h_passed, h_recent⟩
    rw [h.decisions_eq, throttled, h_trace, ← List.singleton_append, ← List.append_assoc]
    exact Throttle.passed_mono _ _ h_passed

/-- The first request of a consumer after the first minute is one for which an update is decided.
-/
theorem last_seen_is_throttled_first :
    ∃ trace decisions b,
      DecidingRun sampleSha256 sampleRuntime FieldEncryption.sampleGcm .default 5 trace
        decisions b ∧
      trace.filterMap letThrough = [(1, 60)] ∧ (1, 60) ∈ decisions := by
  have h_auth : (authenticate 5 App.start.auth (some sampleRecord) 60).1 =
      .ok (sampleRecord, true) := by
    have h_free : (Auth.rateLimited 5 (fun _ => []) 1 60).1 = false := by decide +kernel
    simp [authenticate, sampleRecord, App.start, h_free]
  have h_run := ((AppRun.nil.step (sampleMinted_step .default)).step
    (sampleLookedUp_step .default "[]")).step
    (@AppStep.authenticate sampleSha256 sampleRuntime FieldEncryption.sampleGcm .default 5
      (sampleLookedUp (samplePost "[]")) [] [] _ _ rfl _ _ _ h_auth)
  obtain ⟨decisions, h_deciding⟩ := h_run.deciding
  refine ⟨_, decisions, _, h_deciding, rfl, ?_⟩
  obtain ⟨t, h_decided, h_mem, -⟩ :=
    (last_seen_is_throttled h_deciding 1).2.2.2 [] 60 [] rfl le_rfl
  obtain ⟨-, rfl⟩ := Prod.mk.inj (List.mem_singleton.mp h_mem)
  exact h_decided

end Api
end FingerprintHub
