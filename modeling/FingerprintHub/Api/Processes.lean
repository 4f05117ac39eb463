import FingerprintHub.Api.RateLimit

/-!
# Many processes

`make_auth_middleware` keeps the windows of the limiter in the process that serves. Each process
has its own, by its own `time.monotonic()`, and a process that is started again begins with none.

All of them together are one sliding-window limiter again, for which a consumer is another client
in each process and after each start (`Follows`). So a minute holds the limit of requests of a
consumer for each process that served some of them, and no more.
-/

namespace FingerprintHub
namespace Auth

open SlidingWindow (Request InOrder)

/-! ### The processes -/

/-- A process, and how often it had been started. What is in memory belongs to both. -/
structure Incarnation where
  process : ℕ
  starts : ℕ
  deriving DecidableEq

/-- A process is started, where its clock will differ from the time by `origin`, or gets a
request; `now` is the time then. -/
inductive ProcessEvent where
  | start (process : ℕ) (origin : ℚ)
  | request (process : ℕ) (req : AuthRequest)

/-- The requests, whatever process gets them. -/
def ProcessEvent.request? : ProcessEvent → Option AuthRequest
  | .start .. => none
  | .request _ req => some req

/-- What became of a request, and in which process. The request has the time, and not what the
clock of the process said. -/
structure Answer where
  server : Incarnation
  req : AuthRequest
  result : AuthResult

/-- The state of every process, and all answers so far in their order. -/
structure Processes where
  auth : ℕ → AuthState
  origin : ℕ → ℚ
  starts : ℕ → ℕ
  answers : List Answer

/-- The state of a process that is started: no window, and no mark. -/
def AuthState.start : AuthState := ⟨fun _ => [], fun _ => 0⟩

/-- The process of a number. -/
def Processes.incarnation (s : Processes) (process : ℕ) : Incarnation :=
  ⟨process, s.starts process⟩

/-- What `auth_middleware` of a process makes of a request, by the clock of the process. -/
def Processes.middleware (rateLimit : ℤ) (s : Processes) (process : ℕ) (req : AuthRequest) :
    AuthResult × AuthState :=
  authMiddleware rateLimit (s.auth process) { req with now := req.now - s.origin process }

/-- One event. -/
def Processes.step (rateLimit : ℤ) (s : Processes) : ProcessEvent → Processes
  | .start process origin =>
    { s with
      auth := Function.update s.auth process .start
      origin := Function.update s.origin process origin
      starts := Function.update s.starts process (s.starts process + 1) }
  | .request process req =>
    { s with
      auth := Function.update s.auth process (s.middleware rateLimit process req).2
      answers := s.answers ++
        [⟨s.incarnation process, req, (s.middleware rateLimit process req).1⟩] }

/-- All events, from processes that were just started. -/
def Processes.run (rateLimit : ℤ) (events : List ProcessEvent) : Processes :=
  events.foldl (Processes.step rateLimit) ⟨fun _ => .start, fun _ => 0, fun _ => 0, []⟩

/-- The requests come in the order of their times. Nothing is said of the times at which processes
are started. -/
def Timed (events : List ProcessEvent) : Prop :=
  ((events.filterMap ProcessEvent.request?).map AuthRequest.now).Pairwise (· ≤ ·)

/-- A handler gets the request, for the consumer. -/
def Answer.serves (c : ℤ) (x : Answer) : Bool :=
  match x.result with
  | .handler (some consumer) => decide (consumer.id = c)
  | _ => false

/-- The requests of a consumer that were served in the minute from a time on, in any process. -/
def Processes.served (s : Processes) (c : ℤ) (a : ℚ) : List Answer :=
  s.answers.filter (fun x => x.serves c && decide (a ≤ x.req.now ∧ x.req.now ≤ a + 60))

/-! ### One limiter -/

/-- A consumer in a process: a client of the one limiter. -/
structure Slot where
  incarnation : Incarnation
  consumer : ℤ
  deriving DecidableEq

/-- The answer as an entry of the log of one limiter. A request that does not authenticate is not
in the log. -/
def Answer.entry (x : Answer) : Option (Request Slot ℚ × Bool) :=
  (authenticated x.req).map (fun c => (⟨⟨x.server, c.id⟩, x.req.now⟩,
    match x.result with
    | .handler _ => true
    | .response _ => false))

/-- What an event asks the limiter. -/
def Processes.asks (s : Processes) : ProcessEvent → Option (Request Slot ℚ)
  | .start .. => none
  | .request process req =>
    (authenticated req).map (fun c => ⟨⟨s.incarnation process, c.id⟩, req.now⟩)

/-- No consumer is served that has not authenticated, and one that has is served or over the
limit. -/
inductive Answer.Answered (x : Answer) : Prop where
  | unasked (h_auth : authenticated x.req = none) (h_result : ∀ c, x.result ≠ .handler (some c))
  | served {c : Consumer} (h_auth : authenticated x.req = some c)
      (h_result : x.result = .handler (some c))
  | refused {c : Consumer} (h_auth : authenticated x.req = some c)
      (h_result : x.result = .response tooMany)

/-- The processes are one limiter: it has made their answers, and its windows are theirs, up to
the difference of the clocks. -/
structure Follows (rateLimit : ℤ) (s : Processes) (rs : List (Request Slot ℚ)) : Prop where
  log : (SlidingWindow.run 60 rateLimit rs).log = s.answers.filterMap Answer.entry
  windows : ∀ p c, (s.auth p).requestTimes c =
    ((SlidingWindow.run 60 rateLimit rs).windows ⟨s.incarnation p, c⟩).map
      (fun t => t - s.origin p)
  /-- What is to be started has served nothing. -/
  fresh : ∀ p n c, s.starts p < n → (SlidingWindow.run 60 rateLimit rs).windows ⟨⟨p, n⟩, c⟩ = []
  answered : ∀ x ∈ s.answers, x.Answered

section Runs

variable {rateLimit : ℤ} {s : Processes} {rs : List (Request Slot ℚ)}

/-- A process is started with empty windows, and the limiter has none for its new clients. -/
theorem Follows.start (h : Follows rateLimit s rs) (process : ℕ) (origin : ℚ) :
    Follows rateLimit (s.step rateLimit (.start process origin)) rs where
  log := h.log
  windows := by
    intro p c
    -- the new incarnation has not asked for anything
    by_cases h_p : p = process
    · subst h_p
      have h_fresh := h.fresh p (s.starts p + 1) c (Nat.lt_succ_self _)
      simp only [Processes.step, Processes.incarnation, Function.update_self, h_fresh]
      rfl
    · simp only [Processes.step, Processes.incarnation, Function.update_of_ne h_p]
      exact h.windows p c
  fresh := by
    intro p n c h_n
    refine h.fresh p n c (lt_of_le_of_lt ?_ h_n)
    by_cases h_p : p = process
    · subst h_p
      simp [Processes.step]
    · simp [Processes.step, Function.update_of_ne h_p]
  answered := h.answered

/-- A process answers a request as the one limiter does. The difference of its clock does not
matter, since only differences of times are compared. -/
theorem Follows.middleware (h : Follows rateLimit s rs) (process : ℕ) {req : AuthRequest}
    {c : Consumer} (h_auth : authenticated req = some c) :
    (s.middleware rateLimit process req).1 =
      (if SlidingWindow.accepts 60 rateLimit rs ⟨⟨s.incarnation process, c.id⟩, req.now⟩ then
        .handler (some c) else .response tooMany) ∧
    (s.middleware rateLimit process req).2.requestTimes =
      Function.update (s.auth process).requestTimes c.id
        ((SlidingWindow.request 60 rateLimit
          ((SlidingWindow.run 60 rateLimit rs).windows ⟨s.incarnation process, c.id⟩)
          req.now).2.map (fun t => t - s.origin process)) := by
  -- a window that is shifted answers alike, and is shifted afterwards
  have h_shift := @SlidingWindow.request_shift _ _ _ 60 rateLimit _
    ((SlidingWindow.run 60 rateLimit rs).windows ⟨s.incarnation process, c.id⟩) req.now
    (s.origin process)
  have h_limited := rateLimited_eq rateLimit (s.auth process).requestTimes c.id
    (req.now - s.origin process)
  rw [h.windows, h_shift] at h_limited
  rcases authMiddleware_cases rateLimit (s.auth process)
      { req with now := req.now - s.origin process } with
    ⟨h_none, -, -⟩ | ⟨c', h_some, h_times, h_result⟩
  · exact absurd (h_none.symm.trans h_auth) (by simp)
  · obtain rfl := Option.some.inj (h_some.symm.trans h_auth)
    refine ⟨h_result.trans ?_, h_times.trans (congrArg Prod.snd h_limited)⟩
    rw [congrArg Prod.fst h_limited, SlidingWindow.accepts]
    cases (SlidingWindow.request 60 rateLimit
      ((SlidingWindow.run 60 rateLimit rs).windows ⟨s.incarnation process, c'.id⟩) req.now).1 with
    | true => rfl
    | false => rfl

/-- A request that does not authenticate is served to no consumer. -/
theorem middleware_none (rateLimit : ℤ) (s : Processes) (process : ℕ) {req : AuthRequest}
    (h_auth : authenticated req = none) :
    (s.middleware rateLimit process req).2 = s.auth process ∧
      ∀ c, (s.middleware rateLimit process req).1 ≠ .handler (some c) := by
  rcases authMiddleware_cases rateLimit (s.auth process)
      { req with now := req.now - s.origin process } with
    ⟨-, h_same, h_result⟩ | ⟨c, h_some, -, -⟩
  · exact ⟨h_same, h_result⟩
  · exact absurd (h_auth.symm.trans h_some) (by simp)

/-- A request that does not authenticate asks the limiter nothing. -/
theorem Follows.unasked (h : Follows rateLimit s rs) (process : ℕ) {req : AuthRequest}
    (h_auth : authenticated req = none) :
    Follows rateLimit (s.step rateLimit (.request process req)) rs := by
  obtain ⟨h_same, h_result⟩ := middleware_none rateLimit s process h_auth
  have h_state : (s.step rateLimit (.request process req)).auth = s.auth := by
    simp only [Processes.step, h_same, Function.update_eq_self]
  exact {
    log := by
      have h_entry : Answer.entry ⟨s.incarnation process, req,
          (s.middleware rateLimit process req).1⟩ = none := congrArg (Option.map _) h_auth
      rw [h.log, Processes.step, List.filterMap_append, List.filterMap_cons_none h_entry,
        List.filterMap_nil, List.append_nil]
    windows := fun p c => (congrFun h_state p).symm ▸ h.windows p c
    fresh := h.fresh
    answered := by
      intro x h_x
      rcases List.mem_append.mp h_x with h_x | h_x
      · exact h.answered x h_x
      · obtain rfl := List.mem_singleton.mp h_x
        exact .unasked h_auth h_result }

/-- A request that does is one more for the limiter, of its consumer in its process. -/
theorem Follows.asked (h : Follows rateLimit s rs) (process : ℕ) {req : AuthRequest}
    {c : Consumer} (h_auth : authenticated req = some c) :
    Follows rateLimit (s.step rateLimit (.request process req))
      (rs ++ [⟨⟨s.incarnation process, c.id⟩, req.now⟩]) := by
  obtain ⟨h_result, h_times⟩ := h.middleware process h_auth
  exact {
    log := by
      have h_entry : Answer.entry ⟨s.incarnation process, req,
          (s.middleware rateLimit process req).1⟩ =
          some (⟨⟨s.incarnation process, c.id⟩, req.now⟩, SlidingWindow.accepts 60 rateLimit rs
            ⟨⟨s.incarnation process, c.id⟩, req.now⟩) := by
        rw [Answer.entry, h_auth, Option.map_some, h_result]
        cases SlidingWindow.accepts 60 rateLimit rs
          ⟨⟨s.incarnation process, c.id⟩, req.now⟩ with
        | true => rfl
        | false => rfl
      rw [SlidingWindow.log_concat, h.log, Processes.step, List.filterMap_append,
        List.filterMap_cons_some h_entry, List.filterMap_nil]
    windows := by
      intro p c'
      show _ = ((SlidingWindow.run 60 rateLimit
        (rs ++ [⟨⟨s.incarnation process, c.id⟩, req.now⟩])).windows ⟨s.incarnation p, c'⟩).map
          (fun t => t - s.origin p)
      by_cases h_slot : (⟨s.incarnation p, c'⟩ : Slot) = ⟨s.incarnation process, c.id⟩
      · -- the queue of the request
        obtain ⟨h_inc, rfl⟩ := Slot.mk.inj h_slot
        obtain ⟨rfl, -⟩ := Incarnation.mk.inj h_inc
        calc ((s.step rateLimit (.request p req)).auth p).requestTimes c.id
            = (s.middleware rateLimit p req).2.requestTimes c.id :=
              congrFun (congrArg _ (Function.update_self ..)) _
          _ = _ := by
              rw [h_times, Function.update_self,
                SlidingWindow.windows_concat rs ⟨⟨s.incarnation p, c.id⟩, req.now⟩]
      · have h_same : ((s.step rateLimit (.request process req)).auth p).requestTimes c' =
            (s.auth p).requestTimes c' := by
          simp only [Processes.step]
          -- another consumer of the process, or another process
          by_cases h_p : p = process
          · subst h_p
            rw [Function.update_self, h_times]
            exact Function.update_of_ne (fun h_c => h_slot (congrArg (Slot.mk _) h_c)) ..
          · rw [Function.update_of_ne h_p]
        rw [h_same, h.windows p c', SlidingWindow.windows_concat_of_ne rs h_slot]
    fresh := by
      intro p n c' h_n
      have h_slot : (⟨⟨p, n⟩, c'⟩ : Slot) ≠ ⟨s.incarnation process, c.id⟩ := by
        intro h_eq
        obtain ⟨rfl, rfl⟩ := Incarnation.mk.inj (Slot.mk.inj h_eq).1
        exact lt_irrefl _ h_n
      exact (SlidingWindow.windows_concat_of_ne rs h_slot).trans (h.fresh p n c' h_n)
    answered := by
      intro x h_x
      rcases List.mem_append.mp h_x with h_x | h_x
      · exact h.answered x h_x
      · obtain rfl := List.mem_singleton.mp h_x
        split at h_result
        · exact .served h_auth h_result
        · exact .refused h_auth h_result }

/-- **Every event is a step of the one limiter.** -/
theorem Follows.step (h : Follows rateLimit s rs) (e : ProcessEvent) :
    Follows rateLimit (s.step rateLimit e) (rs ++ (s.asks e).toList) := by
  cases e with
  | start process origin =>
    rw [Processes.asks, Option.toList_none, List.append_nil]
    exact h.start process origin
  | request process req =>
    cases h_auth : authenticated req with
    | none =>
      have h_asks : s.asks (.request process req) = none := congrArg (Option.map _) h_auth
      rw [h_asks, Option.toList_none, List.append_nil]
      exact h.unasked process h_auth
    | some c =>
      have h_asks : s.asks (.request process req) =
          some ⟨⟨s.incarnation process, c.id⟩, req.now⟩ := congrArg (Option.map _) h_auth
      rw [h_asks]
      exact h.asked process h_auth

/-- A run ends with its last event. -/
theorem run_concat (events : List ProcessEvent) (e : ProcessEvent) :
    Processes.run rateLimit (events ++ [e]) = (Processes.run rateLimit events).step rateLimit e :=
  List.foldl_append ..

/-- **The processes are one limiter**, for a consumer in each process and after each start. -/
theorem follows_run (rateLimit : ℤ) (events : List ProcessEvent) :
    ∃ rs, Follows rateLimit (Processes.run rateLimit events) rs := by
  induction events using List.reverseRecOn with
  | nil =>
    exact ⟨[], rfl, fun _ _ => rfl, fun _ _ _ _ => rfl, fun _ h_x => absurd h_x List.not_mem_nil⟩
  | append_singleton events e ih =>
    obtain ⟨rs, h⟩ := ih
    rw [run_concat]
    exact ⟨_, h.step e⟩

/-- The answers are to the requests, one to each and in their order. -/
theorem map_answers (rateLimit : ℤ) (events : List ProcessEvent) :
    (Processes.run rateLimit events).answers.map Answer.req =
      events.filterMap ProcessEvent.request? := by
  induction events using List.reverseRecOn with
  | nil => rfl
  | append_singleton events e ih =>
    rw [run_concat, List.filterMap_append, ← ih]
    cases e with
    | start process origin => exact (List.append_nil _).symm
    | request process req => exact List.map_append ..

/-- The one limiter gets its requests in order, since they come in the order of the answers. -/
theorem Follows.inOrder {events : List ProcessEvent} (h_timed : Timed events)
    (h : Follows rateLimit (Processes.run rateLimit events) rs) : InOrder rs := by
  have h_answers : (Processes.run rateLimit events).answers.Pairwise
      (fun x y => x.req.now ≤ y.req.now) := by
    have h_times := h_timed
    rw [Timed, ← map_answers rateLimit events, List.map_map, List.pairwise_map] at h_times
    exact h_times
  have h_rs : rs = ((Processes.run rateLimit events).answers.filterMap Answer.entry).map
      Prod.fst := by
    rw [← h.log, SlidingWindow.map_log]
  rw [h_rs, InOrder, List.pairwise_map]
  refine h_answers.filterMap _ (fun x y h_le e h_e e' h_e' => ?_)
  obtain ⟨c, -, rfl⟩ := Option.map_eq_some_iff.mp h_e
  obtain ⟨c', -, rfl⟩ := Option.map_eq_some_iff.mp h_e'
  exact h_le

/-- **What was served is what the one limiter accepted**, whichever answers are counted. -/
theorem Answer.Answered.entry {x : Answer} (h : x.Answered) (slot : Slot) (p : ℚ → Bool) :
    ((x.entry.map (fun e => decide (e.1.client = slot) && (e.2 && p e.1.time))).getD false) =
      (decide (x.server = slot.incarnation) && (x.serves slot.consumer && p x.req.now)) := by
  unfold Answer.entry Answer.serves
  obtain ⟨incarnation, consumer⟩ := slot
  -- no entry, an entry that was accepted, and one that was not
  cases h with
  | unasked h_auth h_result =>
    rw [h_auth]
    cases h_x : x.result with
    | response r => simp
    | handler c =>
      cases c with
      | none => simp
      | some c => exact absurd h_x (h_result c)
  | served h_auth h_result =>
    rw [h_auth, h_result]
    simp only [Option.map_some, Option.getD_some, Slot.mk.injEq, Bool.true_and]
    by_cases h_server : x.server = incarnation
    · simp [h_server]
    · simp [h_server]
  | refused h_auth h_result =>
    rw [h_auth, h_result]
    simp

/-- A minute holds no more served requests than the limit for each process that served one. A
process that was started again counts anew. -/
theorem served_le {events : List ProcessEvent} (h_timed : Timed events) (c : ℤ) (a : ℚ) :
    (((Processes.run rateLimit events).served c a).length : ℤ) ≤
      ((((Processes.run rateLimit events).served c a).map Answer.server).toFinset.card : ℤ) *
        max rateLimit 0 := by
  obtain ⟨rs, h⟩ := follows_run rateLimit events
  generalize h_s : Processes.run rateLimit events = s at h
  have h_order : InOrder rs := Follows.inOrder h_timed (h_s.symm ▸ h)
  -- the consumer is a client for each process that served it
  let K := (((s.served c a).map Answer.server).toFinset).image (fun i => (⟨i, c⟩ : Slot))
  -- each request that was served is an entry of one of these clients
  have h_count : (s.served c a).length ≤
      SlidingWindow.countGroup (SlidingWindow.run 60 rateLimit rs).log K a (a + 60) := by
    rw [SlidingWindow.countGroup, h.log, List.countP_filterMap, Processes.served,
      ← List.countP_eq_length_filter]
    refine List.countP_mono_left (fun x h_x h_in => ?_)
    have h_served : x ∈ s.served c a := List.mem_filter.mpr ⟨h_x, h_in⟩
    have h_K : (⟨x.server, c⟩ : Slot) ∈ K :=
      Finset.mem_image_of_mem _ (List.mem_toFinset.mpr (List.mem_map_of_mem h_served))
    have h_entry := (h.answered x h_x).entry ⟨x.server, c⟩
      (fun t => decide (a ≤ t ∧ t ≤ a + 60))
    simp only [decide_true, Bool.true_and] at h_entry
    rw [h_in] at h_entry
    cases h_x : x.entry with
    | none =>
      rw [h_x] at h_entry
      exact absurd h_entry Bool.false_ne_true
    | some e =>
      rw [h_x] at h_entry
      obtain ⟨h_client, h_time⟩ := Bool.and_eq_true_iff.mp h_entry
      have h_mem : e.1.client ∈ K := of_decide_eq_true h_client ▸ h_K
      show (decide (e.1.client ∈ K) && _) = true
      rw [decide_eq_true h_mem]
      exact h_time
  have h_card : (K.card : ℤ) ≤ ((s.served c a).map Answer.server).toFinset.card :=
    Int.ofNat_le.mpr Finset.card_image_le
  calc ((s.served c a).length : ℤ)
      ≤ SlidingWindow.countGroup (SlidingWindow.run 60 rateLimit rs).log K a (a + 60) :=
        Int.ofNat_le.mpr h_count
    _ ≤ K.card * max rateLimit 0 := SlidingWindow.countGroup_le h_order K a
    _ ≤ _ := Int.mul_le_mul_of_nonneg_right h_card (le_max_right _ _)

/-! ### The limit is reached -/

/-- Requests at one time, each to a process. Some may be to the same. -/
def atOnce (req : AuthRequest) (processes : List ℕ) : List ProcessEvent :=
  processes.map (fun p => .request p req)

/-- They come in the order of their times. -/
theorem timed_atOnce (req : AuthRequest) (processes : List ℕ) : Timed (atOnce req processes) := by
  have h_now : ∀ t ∈ ((atOnce req processes).filterMap ProcessEvent.request?).map AuthRequest.now,
      t = req.now := by
    intro t h_t
    obtain ⟨r, h_r, rfl⟩ := List.mem_map.mp h_t
    obtain ⟨e, h_e, h_some⟩ := List.mem_filterMap.mp h_r
    obtain ⟨p, -, rfl⟩ := List.mem_map.mp h_e
    exact congrArg AuthRequest.now (Option.some.inj h_some).symm
  refine List.pairwise_of_forall_mem_list (fun t h_t t' h_t' => ?_)
  rw [h_now t h_t, h_now t' h_t']

/-- What the one limiter gets of requests at one time, and that each of them is served. -/
structure AllServed (rateLimit : ℤ) (req : AuthRequest) (c : Consumer) (ps : List ℕ) : Prop where
  follows : Follows rateLimit (Processes.run rateLimit (atOnce req ps))
    (ps.map (fun p => ⟨⟨⟨p, 0⟩, c.id⟩, req.now⟩))
  starts : (Processes.run rateLimit (atOnce req ps)).starts = fun _ => 0
  served : ((Processes.run rateLimit (atOnce req ps)).served c.id req.now).length = ps.length

/-- One process after the other serves its request, as long as none gets more than the limit. -/
theorem allServed {req : AuthRequest} {c : Consumer} (h_auth : authenticated req = some c)
    {ps : List ℕ} (h_few : ∀ p, (ps.count p : ℤ) ≤ rateLimit) : AllServed rateLimit req c ps := by
  induction ps using List.reverseRecOn with
  | nil =>
    exact ⟨⟨rfl, fun _ _ => rfl, fun _ _ _ _ => rfl, fun _ h_x => absurd h_x List.not_mem_nil⟩,
      rfl, rfl⟩
  | append_singleton ps p ih =>
    have h_before := ih (fun q => le_trans
      (Int.ofNat_le.mpr ((List.sublist_append_left ps [p]).count_le q)) (h_few q))
    have h_run : Processes.run rateLimit (atOnce req (ps ++ [p])) =
        (Processes.run rateLimit (atOnce req ps)).step rateLimit (.request p req) := by
      rw [atOnce, List.map_append]
      exact run_concat _ _
    have h_slot : (Processes.run rateLimit (atOnce req ps)).incarnation p = ⟨p, 0⟩ :=
      congrArg (Incarnation.mk p) (congrFun h_before.starts p)
    have h_follows := h_before.follows.asked p h_auth
    rw [← h_run, h_slot] at h_follows
    -- the process has room for one more
    have h_accepts : SlidingWindow.accepts 60 rateLimit
        (ps.map (fun p => (⟨⟨⟨p, 0⟩, c.id⟩, req.now⟩ : Request Slot ℚ)))
        ⟨⟨⟨p, 0⟩, c.id⟩, req.now⟩ = true := by
      refine SlidingWindow.accepts_of_few (h_follows.inOrder (timed_atOnce req _)) ?_
      have h_count : (ps.map (fun p => (⟨⟨⟨p, 0⟩, c.id⟩, req.now⟩ : Request Slot ℚ))).countP
          (fun q => decide (q.client = ⟨⟨p, 0⟩, c.id⟩)) = ps.count p := by
        rw [List.countP_map, List.count]
        refine List.countP_congr (fun q _ => ?_)
        simp
      have h_p := h_few p
      rw [List.count_append, List.count_singleton_self] at h_p
      rw [h_count]
      omega
    have h_result := (h_before.follows.middleware p h_auth).1
    rw [h_slot, h_accepts, if_pos rfl] at h_result
    -- and what it serves counts for the minute
    have h_serves : Answer.serves c.id ⟨⟨p, 0⟩, req, .handler (some c)⟩ = true :=
      decide_eq_true rfl
    refine ⟨by rw [List.map_append]; exact h_follows, h_run ▸ h_before.starts, ?_⟩
    rw [h_run, Processes.step, Processes.served, List.filter_append, h_slot, h_result,
      List.length_append, List.length_append, List.length_singleton]
    refine congrArg₂ _ h_before.served ?_
    rw [List.filter_cons_of_pos]
    · rfl
    · rw [h_serves, Bool.true_and, decide_eq_true_eq]
      exact ⟨le_rfl, le_add_of_nonneg_right (Nat.ofNat_nonneg 60)⟩

/-! ### The limit in all processes -/

/-- A process serves a request exactly when it has served fewer of the consumer than the limit in
the minute before, since it was started. What other processes have served does not count. -/
theorem middleware_serves_iff {events : List ProcessEvent} {process : ℕ} {req : AuthRequest}
    {c : Consumer} (h_timed : Timed (events ++ [.request process req]))
    (h_auth : authenticated req = some c) :
    ((Processes.run rateLimit events).middleware rateLimit process req).1 = .handler (some c) ↔
      ((Processes.run rateLimit events).answers.countP (fun x =>
        decide (x.server = (Processes.run rateLimit events).incarnation process) &&
          (x.serves c.id && decide (req.now - 60 ≤ x.req.now ∧ x.req.now ≤ req.now))) : ℤ) <
        rateLimit := by
  obtain ⟨rs, h⟩ := follows_run rateLimit events
  have h_follows := h.asked process h_auth
  rw [← run_concat] at h_follows
  have h_accepts := @SlidingWindow.accepts_iff _ _ _ _ _ 60 rateLimit _ _ _
    (h_follows.inOrder h_timed)
  -- what counts is what the process served
  have h_count : (SlidingWindow.recent 60 (SlidingWindow.accepted
      (SlidingWindow.run 60 rateLimit rs).log
        ⟨(Processes.run rateLimit events).incarnation process, c.id⟩) req.now).length =
      (Processes.run rateLimit events).answers.countP (fun x =>
        decide (x.server = (Processes.run rateLimit events).incarnation process) &&
          (x.serves c.id && decide (req.now - 60 ≤ x.req.now ∧ x.req.now ≤ req.now))) := by
    rw [SlidingWindow.recent, SlidingWindow.length_filter_accepted, h.log, List.countP_filterMap]
    refine List.countP_congr (fun x h_x => ?_)
    rw [(h.answered x h_x).entry ⟨_, c.id⟩ (fun t => decide (req.now - 60 ≤ t ∧ t ≤ req.now))]
  rw [(h.middleware process h_auth).1, ← h_count, ← h_accepts]
  split
  · next h_yes => exact ⟨fun _ => h_yes, fun _ => rfl⟩
  · next h_no => exact ⟨fun h_eq => AuthResult.noConfusion h_eq, fun h_yes => absurd h_yes h_no⟩

/-- **The limit holds for each process.** In every run of processes that are started, and started
again, at any time: a process serves a request exactly when it has served fewer of its consumer
than the limit in the minute before, since it was started; so a minute holds no more served
requests of a consumer than the limit for each process that served one; and there may be as many,
since requests of which no process gets more than the limit are all served.

The configured limit is thus one of a process, and a consumer that reaches several gets a multiple
of it. -/
theorem limit_holds_per_process (rateLimit : ℤ) {events : List ProcessEvent}
    (h_timed : Timed events) :
    (∀ before process req after c, events = before ++ .request process req :: after →
      authenticated req = some c →
      (((Processes.run rateLimit before).middleware rateLimit process req).1 =
          .handler (some c) ↔
        ((Processes.run rateLimit before).answers.countP (fun x =>
          decide (x.server = (Processes.run rateLimit before).incarnation process) &&
            (x.serves c.id && decide (req.now - 60 ≤ x.req.now ∧ x.req.now ≤ req.now))) : ℤ) <
          rateLimit)) ∧
    (∀ c a, (((Processes.run rateLimit events).served c a).length : ℤ) ≤
      ((((Processes.run rateLimit events).served c a).map Answer.server).toFinset.card : ℤ) *
        max rateLimit 0) ∧
    ∀ req c, authenticated req = some c → ∀ processes : List ℕ,
      (∀ p, (processes.count p : ℤ) ≤ rateLimit) →
      ((Processes.run rateLimit (atOnce req processes)).served c.id req.now).length =
        processes.length := by
  refine ⟨?_, served_le h_timed, fun req c h_auth ps h_few => (allServed h_auth h_few).served⟩
  rintro before process req after c rfl h_auth
  refine middleware_serves_iff ?_ h_auth
  rw [Timed, List.append_cons, List.filterMap_append, List.map_append] at h_timed
  exact (List.pairwise_append.mp h_timed).1

end Runs

/-- A request of consumer 1 at time 0. -/
def sampleAuthRequest : AuthRequest where
  path := "/v1/fingerprints"
  apiKey := PyStr.ofString "fph_k"
  row := some ⟨⟨1, [.read]⟩, true⟩
  now := 0

/-- Two processes with a limit of one serve two requests at once, and this is what two processes
may serve in a minute. -/
theorem limit_holds_per_process_two :
    ((Processes.run 1 (atOnce sampleAuthRequest [0, 1])).served 1 0).length = 2 ∧
    (2 : ℤ) ≤ ((((Processes.run 1 (atOnce sampleAuthRequest [0, 1])).served 1 0).map
      Answer.server).toFinset.card : ℤ) * max 1 0 := by
  obtain ⟨-, h_bound, h_reached⟩ :=
    limit_holds_per_process 1 (timed_atOnce sampleAuthRequest [0, 1])
  have h_auth : authenticated sampleAuthRequest = some ⟨1, [.read]⟩ := by decide +kernel
  have h_few : ∀ p, (([0, 1] : List ℕ).count p : ℤ) ≤ 1 := by
    intro p
    exact_mod_cast List.nodup_iff_count_le_one.mp (by decide) p
  have h_length := h_reached sampleAuthRequest _ h_auth [0, 1] h_few
  have h_bound := h_bound 1 0
  rw [show (0 : ℚ) = sampleAuthRequest.now from rfl] at h_bound ⊢
  rw [h_length] at h_bound
  exact ⟨h_length, h_bound⟩

end Auth
end FingerprintHub
