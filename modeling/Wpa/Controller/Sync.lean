import Wpa.Decision.Rules
import Wpa.Controller.Queues
import Wpa.Controller.WorkQueue

/-! # One reconciliation

`syncHandler` for one event, against the listers' caches and the registry as they stand
when it runs. It reads the caches first (`syncRead`), then makes its registry call, then
reads the key's record back and decides. It returns the error the worker hands back to
the work queue, the registry it leaves, and what it writes to the cluster: the replicas it
scales a workload to and the policy's new status. How the cluster answers the workload
update is an argument: for each attempt, whether the lister still finds the workload and
how the update call ends.

A scale also reaches the workload cache: `updateDeployment` and `updateReplicaSet` set
`Spec.Replicas` on the object the lister returns, which is the cached object itself.

The process ends through `klog.Fatalf` in two places: a `maxDisruption` that is neither
an integer nor a percentage, and a workload update whose retries end in an error.
-/

namespace Wpa


/-- The fields of the `Controller` struct the reconciler reads and writes. -/
structure Controller where
  workerPodAutoScalers : ObjectKey → Option WorkerPodAutoScaler
  deployments : ObjectKey → Option Workload
  replicaSets : ObjectKey → Option Workload
  workqueue : WorkQueue WokerPodAutoScalerEvent
  defaultMaxDisruption : String
  scaleDownDelay : Int
  queues : Queues

/-- Modelled from the spec: the operations `GetScaleOperation` chooses from. -/
inductive ScaleOperation
  | ScaleUp
  | ScaleDown
  | NoOp
  deriving DecidableEq, Repr

/-- Modelled from the spec: `GetScaleOperation` at the instant `now`. A scale down waits
`scaleDownDelay` after the last scale. -/
def GetScaleOperation (queueName : String) (desiredWorkers currentWorkers : Int32)
    (lastScaleTime : Option Int) (scaleDownDelay now : Int) : ScaleOperation :=
  if desiredWorkers = currentWorkers then .NoOp
  else if desiredWorkers > currentWorkers then .ScaleUp
  else match lastScaleTime with
    | some t => if now - t < scaleDownDelay then .NoOp else .ScaleDown
    | none => .ScaleDown

/-- A Go `error` the cluster API returns, and whether `errors.IsConflict` holds of it. -/
structure ApiError where
  message : String
  conflict : Bool
  deriving DecidableEq

/-- `retry.OnError` over `wait.ExponentialBackoff`: attempt `i` runs `fn i`. A success
ends the loop, a retriable error is retried while steps remain and returned once they are
spent, any other error is returned at once. -/
def onError (retriable : ApiError → Bool) (fn : ℕ → Option ApiError) :
    Option ApiError → ℕ → ℕ → Option ApiError
  | lastErr, 0, _ => lastErr
  | _, steps + 1, i =>
    match fn i with
    | none => none
    | some e => if retriable e then onError retriable fn (some e) steps (i + 1) else some e

/-- `retry.RetryOnConflict(retry.DefaultRetry, fn)`: five steps, retrying conflicts. -/
def retryOnConflict (fn : ℕ → Option ApiError) : Option ApiError :=
  onError ApiError.conflict fn none 5 0

/-- How the cluster answers one attempt of a workload update. -/
structure UpdateAttempt where
  found : Bool
  updateErr : Option ApiError

/-- One attempt of `updateDeployment` or `updateReplicaSet`: read the workload from the
lister, then send the update. -/
def updateAttempt (kind ns workloadName : String) (a : UpdateAttempt) : Option ApiError :=
  if a.found then a.updateErr
  else some ⟨kind ++ " " ++ workloadName ++ " was not found in namespace " ++ ns, false⟩

/-- The body `updateDeployment` and `updateReplicaSet` share, for a workload of `kind`. -/
def updateWorkload (kind ns workloadName : String) (attempts : ℕ → UpdateAttempt) :
    Except Abort Unit :=
  match retryOnConflict fun i => updateAttempt kind ns workloadName (attempts i) with
  | none => .ok ()
  | some e => .error (.fatal ("Failed to update " ++ kind ++ " (retry failed): " ++ e.message))

/-- `updateDeployment`. -/
def updateDeployment (ns deploymentName : String) (attempts : ℕ → UpdateAttempt) :
    Except Abort Unit :=
  updateWorkload "deployment" ns deploymentName attempts

/-- `updateReplicaSet`. -/
def updateReplicaSet (ns replicaSetName : String) (attempts : ℕ → UpdateAttempt) :
    Except Abort Unit :=
  updateWorkload "ReplicaSet" ns replicaSetName attempts

/-- A lister's cache once `Spec.Replicas` of its object at `key` is set: the object that
`updateDeployment` and `updateReplicaSet` get from the lister is the cached one. -/
def setReplicas (lister : ObjectKey → Option Workload) (key : ObjectKey) (replicas : Int32) :
    ObjectKey → Option Workload :=
  Function.update lister key ((lister key).map fun w => { w with replicas := some replicas })

/-- The workload caches after a scale of the workload `wpa` names to `replicas`: its
deployment when it names one, otherwise its ReplicaSet. -/
def Controller.writeReplicas (c : Controller) (wpa : WorkerPodAutoScaler) (replicas : Int32) :
    Controller :=
  if wpa.spec.deploymentName ≠ "" then
    { c with deployments :=
        setReplicas c.deployments ⟨wpa.meta.ns, wpa.spec.deploymentName⟩ replicas }
  else
    { c with replicaSets :=
        setReplicas c.replicaSets ⟨wpa.meta.ns, wpa.spec.replicaSetName⟩ replicas }

/-- The workload caches after a sync of `wpa` that scaled to `scaled`, if it scaled. -/
def Controller.writeScale (c : Controller) (wpa : WorkerPodAutoScaler) :
    Option Int32 → Controller
  | none => c
  | some replicas => c.writeReplicas wpa replicas

namespace Controller

variable (c : Controller) (wpa : WorkerPodAutoScaler) (scaled : Option Int32)

/-- A scale writes the workload caches and nothing else. -/
theorem writeScale_eq : ∃ ds rs, c.writeScale wpa scaled =
    { c with deployments := ds, replicaSets := rs } := by
  rcases scaled with _ | d
  · exact ⟨_, _, rfl⟩
  · unfold writeScale writeReplicas; split_ifs <;> exact ⟨_, _, rfl⟩

@[simp] theorem writeScale_workerPodAutoScalers :
    (c.writeScale wpa scaled).workerPodAutoScalers = c.workerPodAutoScalers := by
  obtain ⟨_, _, h⟩ := c.writeScale_eq wpa scaled; rw [h]

@[simp] theorem writeScale_workqueue : (c.writeScale wpa scaled).workqueue = c.workqueue := by
  obtain ⟨_, _, h⟩ := c.writeScale_eq wpa scaled; rw [h]

@[simp] theorem writeScale_queues : (c.writeScale wpa scaled).queues = c.queues := by
  obtain ⟨_, _, h⟩ := c.writeScale_eq wpa scaled; rw [h]

@[simp] theorem writeScale_defaultMaxDisruption :
    (c.writeScale wpa scaled).defaultMaxDisruption = c.defaultMaxDisruption := by
  obtain ⟨_, _, h⟩ := c.writeScale_eq wpa scaled; rw [h]

@[simp] theorem writeScale_scaleDownDelay :
    (c.writeScale wpa scaled).scaleDownDelay = c.scaleDownDelay := by
  obtain ⟨_, _, h⟩ := c.writeScale_eq wpa scaled; rw [h]

end Controller

/-- `updateWorkerPodAutoScalerStatus`: the status it sends, or `none` when the five tracked
fields already hold their values. -/
def updateWorkerPodAutoScalerStatus (desiredWorkers : Int32) (wpa : WorkerPodAutoScaler)
    (currentWorkers availableWorkers queueMessages : Int32) (lastScaleTime : Option Int) :
    Option WorkerPodAutoScalerStatus :=
  if wpa.status.currentReplicas = currentWorkers ∧
      wpa.status.availableReplicas = availableWorkers ∧
      wpa.status.desiredReplicas = desiredWorkers ∧
      wpa.status.currentMessages = queueMessages ∧
      wpa.status.lastScaleTime = lastScaleTime then none
  else some ⟨queueMessages, currentWorkers, availableWorkers, desiredWorkers, lastScaleTime⟩

/-- What one call of `syncHandler` leaves: the error it returns, the registry, the
replicas it scales a workload to, and the status it writes. -/
structure SyncResult where
  err : Option String
  queues : Queues
  scaled : Option Int32
  status : Option WorkerPodAutoScalerStatus

/-- The panic of a nil pointer dereference. -/
def nilPointerDereference : Abort :=
  .panic "runtime error: invalid memory address or nil pointer dereference"

/-- A workload lookup of `syncHandler`, with the error it returns for a missing one. -/
def getWorkload (kind : String) (lister : ObjectKey → Option Workload)
    (ns workloadName : String) : Except String Workload :=
  match lister ⟨ns, workloadName⟩ with
  | some w => .ok w
  | none => .error (kind ++ " " ++ workloadName ++ " not found in namespace " ++ ns)

/-- The workload lookup of `syncHandler`: the deployment when the policy names one, else
the ReplicaSet when it names one. -/
def Controller.getWorkloadOf (c : Controller) (wpa : WorkerPodAutoScaler) :
    Option (Except String Workload) :=
  if wpa.spec.deploymentName ≠ "" then
    some (getWorkload "deployment" c.deployments wpa.meta.ns wpa.spec.deploymentName)
  else if wpa.spec.replicaSetName ≠ "" then
    some (getWorkload "ReplicaSet" c.replicaSets wpa.meta.ns wpa.spec.replicaSetName)
  else none

/-- The registry call of `syncHandler`'s switch on the event. -/
def syncQueue (queues : Queues) (eventName ns name : String) (spec : WorkerPodAutoScalerSpec)
    (currentWorkers : Int32) (secondsToProcessOneJob : Float64) : Except String Queues :=
  if eventName = WokerPodAutoScalerEventAdd ∨ eventName = WokerPodAutoScalerEventUpdate then
    queues.Add ns name spec.queueURI spec.queueServiceName currentWorkers secondsToProcessOneJob
  else if eventName = WokerPodAutoScalerEventDelete then .ok (queues.Delete ns name)
  else .ok queues

/-- The workload update of a scale: the deployment when the policy names one, otherwise
the ReplicaSet. -/
def scaleWorkload (wpa : WorkerPodAutoScaler) (attempts : ℕ → UpdateAttempt) :
    Except Abort Unit :=
  if wpa.spec.deploymentName ≠ "" then
    updateDeployment wpa.meta.ns wpa.spec.deploymentName attempts
  else updateReplicaSet wpa.meta.ns wpa.spec.replicaSetName attempts

/-- The rest of `syncHandler` after the registry call: skip a queue without a record or
not yet polled; otherwise decide, scale, and write the status. -/
def scaleWorkers (c : Controller) (now : Int) (attempts : ℕ → UpdateAttempt)
    (queues : Queues) (ns name : String) (wpa : WorkerPodAutoScaler)
    (currentWorkers availableWorkers : Int32) (secondsToProcessOneJob : Float64) :
    Except Abort SyncResult :=
  let (queueName, queueMessages, messagesSentPerMinute, idleWorkers) :=
    queues.GetQueueInfo ns name
  if queueName = "" ∨ queueMessages = UnsyncedQueueMessageCount then
    .ok ⟨none, queues, none, none⟩
  else match wpa.spec.targetMessagesPerWorker, wpa.spec.minReplicas, wpa.spec.maxReplicas with
    | some targetMessagesPerWorker, some minReplicas, some maxReplicas => do
      let desiredWorkers ← GetDesiredWorkers queueName queueMessages messagesSentPerMinute
        secondsToProcessOneJob targetMessagesPerWorker currentWorkers idleWorkers minReplicas
        maxReplicas (wpa.GetMaxDisruption c.defaultMaxDisruption)
      let op := GetScaleOperation queueName desiredWorkers currentWorkers
        wpa.status.lastScaleTime c.scaleDownDelay now
      if op = .ScaleUp ∨ op = .ScaleDown then
        scaleWorkload wpa attempts
        return ⟨none, queues, some desiredWorkers, updateWorkerPodAutoScalerStatus desiredWorkers
          wpa currentWorkers availableWorkers queueMessages (some now)⟩
      else
        return ⟨none, queues, none, updateWorkerPodAutoScalerStatus desiredWorkers wpa
          currentWorkers availableWorkers queueMessages wpa.status.lastScaleTime⟩
    | _, _, _ => .error nilPointerDereference

/-- What `syncHandler` finds in the listers' caches before its registry call. -/
inductive SyncRead
  /-- It returns before the registry call, with this error. -/
  | done (err : Option String)
  /-- The key's policy is gone from the cache. -/
  | gone (ns name : String)
  /-- The key's policy and the replicas of the workload it names. -/
  | found (ns name : String) (wpa : WorkerPodAutoScaler) (currentWorkers availableWorkers : Int32)

/-- `syncHandler` up to its registry call: split the key, then get the policy and its
workload from the listers. -/
def syncRead (c : Controller) (event : WokerPodAutoScalerEvent) : Except Abort SyncRead :=
  match splitMetaNamespaceKey event.key with
  | .error _ => .ok (.done none)
  | .ok (ns, name) =>
    match c.workerPodAutoScalers ⟨ns, name⟩ with
    | none => .ok (.gone ns name)
    | some wpa =>
      match c.getWorkloadOf wpa with
      | none => .ok (.done none)
      | some (.error err) => .ok (.done (some err))
      | some (.ok w) =>
        match w.replicas with
        | none => .error nilPointerDereference
        | some currentWorkers => .ok (.found ns name wpa currentWorkers w.availableReplicas)

/-- `syncHandler` for `event`, at the instant `now`. -/
def syncHandler (c : Controller) (now : Int) (attempts : ℕ → UpdateAttempt)
    (event : WokerPodAutoScalerEvent) : Except Abort SyncResult :=
  match syncRead c event with
  | .error a => .error a
  | .ok (.done err) => .ok ⟨err, c.queues, none, none⟩
  | .ok (.gone ns name) => .ok ⟨none, c.queues.Delete ns name, none, none⟩
  | .ok (.found ns name wpa currentWorkers availableWorkers) =>
    let secondsToProcessOneJob := wpa.spec.secondsToProcessOneJob.getD 0
    match syncQueue c.queues event.name ns name wpa.spec currentWorkers
        secondsToProcessOneJob with
    | .error err => .ok ⟨some err, c.queues, none, none⟩
    | .ok queues => scaleWorkers c now attempts queues ns name wpa currentWorkers
        availableWorkers secondsToProcessOneJob

/-- The policy `ns/p`: queue `q1` on `sqs`, deployment `d`, between 0 and 10 replicas. -/
def samplePolicy (maxDisruption : Option String) : WorkerPodAutoScaler :=
  ⟨⟨"ns", "p", by decide, by decide⟩,
    ⟨some 0, some 10, maxDisruption, "https://sqs/q1", SqsQueueService, "d", "", some 1, none⟩,
    ⟨0, 0, 0, 0, none⟩, rfl⟩

/-- The controller with `samplePolicy` on a deployment of two replicas, its queue polled
empty, and the default budget `10%`. -/
def sampleController (maxDisruption : Option String) : Controller :=
  ⟨fun k => if k = ⟨"ns", "p"⟩ then some (samplePolicy maxDisruption) else none,
    fun k => if k = ⟨"ns", "d"⟩ then some ⟨some 2, 2⟩ else none, fun _ => none,
    WorkQueue.empty, "10%", 0,
    ⟨fun k => if k = ⟨"ns", "p"⟩ then
      some ⟨"q1", "https://sqs/q1", SqsQueueService, 0, 0, 0, 2, 0⟩ else none⟩⟩

section Retry

variable {retriable : ApiError → Bool} {fn : ℕ → Option ApiError}

/-- The retry loop fails with the error of the attempt that ended it: an error that is not
retriable, or a retriable one when no step remains; with no step at all, with the error it
was given. -/
theorem onError_eq_some_iff {steps i : ℕ} {lastErr : Option ApiError} {e : ApiError} :
    onError retriable fn lastErr steps i = some e ↔
      (steps = 0 ∧ lastErr = some e) ∨
        ∃ j < steps, (∀ l < j, ∃ e', fn (i + l) = some e' ∧ retriable e') ∧
          fn (i + j) = some e ∧ (retriable e → j + 1 = steps) := by
  induction steps generalizing i lastErr with
  | zero => simp [onError]
  | succ n ih =>
    have shift : ∀ j, i + (j + 1) = i + 1 + j := fun j => by omega
    simp only [Nat.succ_ne_zero, false_and, false_or]
    rcases hfi : fn i with _ | e₀
    · simp only [onError, hfi, reduceCtorEq, false_iff, not_exists, not_and]
      intro j _ hall hj
      rcases j with _ | j
      · simp [hfi] at hj
      · obtain ⟨_, he, -⟩ := hall 0 (Nat.succ_pos j)
        simp [hfi] at he
    · by_cases hr : retriable e₀
      · simp only [onError, hfi, hr, if_true, ih, Option.some.injEq]
        constructor
        · rintro (⟨rfl, rfl⟩ | ⟨j, hj, hall, hfj, hlast⟩)
          · exact ⟨0, by omega, fun l hl => absurd hl (Nat.not_lt_zero l), hfi, fun _ => rfl⟩
          · refine ⟨j + 1, by omega, fun l hl => ?_, shift j ▸ hfj, fun h => by
              have := hlast h; omega⟩
            cases l with
            | zero => exact ⟨e₀, hfi, hr⟩
            | succ l => exact shift l ▸ hall l (by omega)
        · rintro ⟨j, hj, hall, hfj, hlast⟩
          rcases j with _ | j
          · rw [add_zero, hfi, Option.some.injEq] at hfj
            subst hfj
            exact .inl ⟨by have := hlast hr; omega, rfl⟩
          · exact .inr ⟨j, by omega, fun l hl => shift l ▸ hall (l + 1) (by omega),
              shift j ▸ hfj, fun h => by have := hlast h; omega⟩
      · simp only [onError, hfi, if_neg hr, Option.some.injEq]
        constructor
        · rintro rfl
          exact ⟨0, by omega, fun l hl => absurd hl (Nat.not_lt_zero l), hfi, fun h => absurd h hr⟩
        · rintro ⟨j, -, hall, hfj, -⟩
          rcases j with _ | j
          · rw [add_zero, hfi, Option.some.injEq] at hfj; exact hfj
          · obtain ⟨e', he', hr'⟩ := hall 0 (Nat.succ_pos j)
            rw [add_zero, hfi, Option.some.injEq] at he'
            exact absurd (he' ▸ hr') hr

theorem retryOnConflict_eq_some_iff {e : ApiError} :
    retryOnConflict fn = some e ↔ ∃ j < 5, (∀ l < j, ∃ e', fn l = some e' ∧ e'.conflict) ∧
      fn j = some e ∧ (e.conflict → j = 4) := by
  simpa only [zero_add, OfNat.ofNat_ne_zero, false_and, false_or, Nat.reduceEqDiff] using
    (onError_eq_some_iff : onError ApiError.conflict fn none 5 0 = some e ↔ _)

end Retry

section Update

variable {kind ns workloadName : String} {attempts : ℕ → UpdateAttempt} {a : UpdateAttempt}

theorem updateAttempt_conflict_iff :
    (∃ e, updateAttempt kind ns workloadName a = some e ∧ e.conflict) ↔
      a.found ∧ ∃ e, a.updateErr = some e ∧ e.conflict := by
  unfold updateAttempt; split_ifs with h <;> simp [h]

/-- A workload update that fails ends the process with the error of the attempt that
stopped the retry loop, under the workload's kind: a missing workload or an error other
than a conflict stops it at once, and a conflict only at the fifth attempt. -/
theorem updateWorkload_eq_error_iff {x : Abort} :
    updateWorkload kind ns workloadName attempts = .error x ↔
      ∃ j < 5, (∀ l < j, (attempts l).found ∧ ∃ e, (attempts l).updateErr = some e ∧ e.conflict) ∧
        ∃ e, updateAttempt kind ns workloadName (attempts j) = some e ∧ (e.conflict → j = 4) ∧
          x = .fatal ("Failed to update " ++ kind ++ " (retry failed): " ++ e.message) := by
  have hfail : updateWorkload kind ns workloadName attempts = .error x ↔
      ∃ e, retryOnConflict (fun i => updateAttempt kind ns workloadName (attempts i)) = some e ∧
        x = .fatal ("Failed to update " ++ kind ++ " (retry failed): " ++ e.message) := by
    unfold updateWorkload
    rcases retryOnConflict (fun i => updateAttempt kind ns workloadName (attempts i)) with _ | e <;>
      simp [eq_comm]
  simp only [hfail, retryOnConflict_eq_some_iff, updateAttempt_conflict_iff]
  constructor
  · rintro ⟨e, ⟨j, hj, hall, he, hlast⟩, rfl⟩
    exact ⟨j, hj, hall, e, he, hlast, rfl⟩
  · rintro ⟨j, hj, hall, e, he, hlast, rfl⟩
    exact ⟨e, ⟨j, hj, hall, he, hlast⟩, rfl⟩

end Update

section Frame

variable {c : Controller} {now : Int} {attempts : ℕ → UpdateAttempt}
  {e : WokerPodAutoScalerEvent} {r : SyncResult} {k : ObjectKey}

theorem syncQueue_records_of_ne {queues queues' : Queues} {eventName ns name : String}
    {spec : WorkerPodAutoScalerSpec} {w : Int32} {s : Float64}
    (h : syncQueue queues eventName ns name spec w s = .ok queues') (hk : k ≠ ⟨ns, name⟩) :
    queues'.records k = queues.records k := by
  unfold syncQueue at h
  split_ifs at h
  · exact (Queues.Add_records h).2 k hk
  · cases h; exact Queues.Delete_records_of_ne hk
  · cases h; rfl

/-- Repeating the registry call of a sync on the registry it returned changes nothing. -/
theorem syncQueue_idem {queues queues' : Queues} {eventName ns name : String}
    {spec : WorkerPodAutoScalerSpec} {w : Int32} {s : Float64}
    (h : syncQueue queues eventName ns name spec w s = .ok queues') :
    syncQueue queues' eventName ns name spec w s = .ok queues' := by
  unfold syncQueue at h ⊢
  split_ifs at h ⊢
  · exact Queues.Add_idem h
  · cases h; rw [Queues.Delete_idem]
  · cases h; rfl

/-- For an event of one of the handlers' names, the registry call either succeeds on a
known queue service or removes the record. -/
theorem syncQueue_of_ok {queues queues' : Queues} {eventName ns name : String}
    {spec : WorkerPodAutoScalerSpec} {w : Int32} {s : Float64}
    (hn : eventName = WokerPodAutoScalerEventAdd ∨ eventName = WokerPodAutoScalerEventUpdate ∨
      eventName = WokerPodAutoScalerEventDelete)
    (h : syncQueue queues eventName ns name spec w s = .ok queues') :
    spec.queueServiceName ∈ [SqsQueueService, BeanstalkQueueService] ∨
      queues' = queues.Delete ns name := by
  unfold syncQueue at h
  split_ifs at h with h₁ h₂
  · by_contra hs
    rw [not_or] at hs
    cases h.symm.trans (Queues.Add_eq_error_iff.2 ⟨hs.1, rfl⟩)
  · cases h; exact .inr rfl
  · exact absurd (hn.elim (fun h => .inl h) fun h => h.elim (fun h => .inr h) (absurd · h₂)) h₁

/-- For an event of one of the handlers' names, the registry call leaves at the key no
record or one started for the spec's queue URI and service. -/
theorem syncQueue_records_self {queues queues' : Queues} {eventName ns name : String}
    {spec : WorkerPodAutoScalerSpec} {w : Int32} {s : Float64}
    (hn : eventName = WokerPodAutoScalerEventAdd ∨ eventName = WokerPodAutoScalerEventUpdate ∨
      eventName = WokerPodAutoScalerEventDelete)
    (h : syncQueue queues eventName ns name spec w s = .ok queues') {r : QueueSpec}
    (hr : queues'.records ⟨ns, name⟩ = some r) :
    r.uri = spec.queueURI ∧ r.serviceName = spec.queueServiceName := by
  unfold syncQueue at h
  split_ifs at h with h₁ h₂
  · obtain ⟨r', hr', hu, hs, -⟩ := Queues.Add_records_self h
    rw [hr'] at hr; cases hr; exact ⟨hu, hs⟩
  · cases h; simp at hr
  · exact absurd (hn.elim (fun h => .inl h) fun h => h.elim (fun h => .inr h) (absurd · h₂)) h₁

theorem scaleWorkers_queues {queues : Queues} {ns name : String} {wpa : WorkerPodAutoScaler}
    {cur avail : Int32} {s : Float64}
    (h : scaleWorkers c now attempts queues ns name wpa cur avail s = .ok r) :
    r.queues = queues := by
  unfold scaleWorkers at h
  split at h
  split_ifs at h
  · cases h; rfl
  · split at h
    · simp only [bind, Except.bind, pure, Except.pure] at h
      split at h
      · cases h
      · split_ifs at h
        · split at h <;> cases h; rfl
        · cases h; rfl
    · cases h

/-- A scale is decided on the key's record, once a poll has filled it: on its display
name, backlog, send rate and idle workers, with the policy's target, `minReplicas` and
`maxReplicas`. -/
theorem scaleWorkers_scaled_record {queues : Queues} {ns name : String}
    {wpa : WorkerPodAutoScaler} {cur avail d : Int32} {s : Float64}
    (h : scaleWorkers c now attempts queues ns name wpa cur avail s = .ok r)
    (hd : r.scaled = some d) :
    ∃ rec, queues.records ⟨ns, name⟩ = some rec ∧ rec.messages ≠ UnsyncedQueueMessageCount ∧
      ∃ t mn mx, wpa.spec.targetMessagesPerWorker = some t ∧ wpa.spec.minReplicas = some mn ∧
        wpa.spec.maxReplicas = some mx ∧
        GetDesiredWorkers rec.name rec.messages rec.messagesSentPerMinute s t cur rec.idleWorkers
          mn mx (wpa.GetMaxDisruption c.defaultMaxDisruption) = .ok d := by
  cases hrec : queues.records ⟨ns, name⟩ with
  | none =>
    simp only [scaleWorkers, Queues.GetQueueInfo, hrec, true_or, if_true] at h
    cases h; cases hd
  | some rec =>
    simp only [scaleWorkers, Queues.GetQueueInfo, hrec] at h
    split_ifs at h with hskip
    · cases h; cases hd
    refine ⟨rec, rfl, fun hu => hskip (.inr hu), ?_⟩
    split at h
    · rename_i t mn mx ht hmn hmx
      simp only [bind, Except.bind, pure, Except.pure] at h
      split at h
      · cases h
      · rename_i hg
        split_ifs at h
        · split at h
          · cases h
          · cases h; cases hd; exact ⟨t, mn, mx, ht, hmn, hmx, hg⟩
        · cases h; cases hd
    · cases h

/-- The reads of the caches end in a nil pointer panic or in one of four outcomes: no
workload named, a missing workload, a policy gone from the cache, or the policy and its
workload's replicas. -/
theorem syncRead_cases {o : SyncRead} (h : syncRead c e = .ok o) :
    (o = .done none ∧ ∀ ns name, splitMetaNamespaceKey e.key = .ok (ns, name) → ∃ wpa,
        c.workerPodAutoScalers ⟨ns, name⟩ = some wpa ∧ wpa.spec.deploymentName = "" ∧
          wpa.spec.replicaSetName = "") ∨
      (∃ err, o = .done (some err)) ∨
      (∃ ns name, splitMetaNamespaceKey e.key = .ok (ns, name) ∧
        c.workerPodAutoScalers ⟨ns, name⟩ = none ∧ o = .gone ns name) ∨
      ∃ ns name wpa cur avail, splitMetaNamespaceKey e.key = .ok (ns, name) ∧
        c.workerPodAutoScalers ⟨ns, name⟩ = some wpa ∧ o = .found ns name wpa cur avail := by
  unfold syncRead at h
  split at h
  · rename_i hs
    cases h; exact .inl ⟨rfl, fun ns name h' => by rw [hs] at h'; cases h'⟩
  · rename_i ns name hs
    split at h
    · cases h; exact .inr (.inr (.inl ⟨ns, name, hs, ‹_›, rfl⟩))
    · rename_i wpa hp
      split at h
      · rename_i hw
        cases h
        refine .inl ⟨rfl, fun ns' name' h' => ?_⟩
        rw [hs] at h'; cases h'
        unfold Controller.getWorkloadOf at hw
        split_ifs at hw with h₁ h₂
        exact ⟨wpa, hp, not_not.1 h₁, not_not.1 h₂⟩
      · cases h; exact .inr (.inl ⟨_, rfl⟩)
      · split at h
        · cases h
        · cases h; exact .inr (.inr (.inr ⟨ns, name, wpa, _, _, hs, hp, rfl⟩))

theorem syncRead_eq_error {a : Abort} (h : syncRead c e = .error a) : a = nilPointerDereference := by
  unfold syncRead at h
  repeat' split at h
  all_goals cases h
  rfl

theorem syncRead_found {ns name : String} {wpa : WorkerPodAutoScaler} {cur avail : Int32}
    (h : syncRead c e = .ok (.found ns name wpa cur avail)) :
    splitMetaNamespaceKey e.key = .ok (ns, name) ∧ c.workerPodAutoScalers ⟨ns, name⟩ = some wpa ∧
      ∃ w, c.getWorkloadOf wpa = some (.ok w) ∧ w.replicas = some cur ∧
        w.availableReplicas = avail := by
  unfold syncRead at h
  repeat' split at h
  all_goals cases h
  exact ⟨‹_›, ‹_›, _, ‹_›, ‹_›, rfl⟩

/-- Everything one call of `syncHandler` can end in: a return before the registry call,
with or without an error; a nil pointer panic on the workload's replicas; the record's
removal when the policy is gone; or what `scaleWorkers` does after the registry call. -/
theorem syncHandler_cases {x : Except Abort SyncResult} (h : syncHandler c now attempts e = x) :
    (x = .ok ⟨none, c.queues, none, none⟩ ∧ ∀ ns name,
      splitMetaNamespaceKey e.key = .ok (ns, name) → ∃ wpa,
        c.workerPodAutoScalers ⟨ns, name⟩ = some wpa ∧ wpa.spec.deploymentName = "" ∧
          wpa.spec.replicaSetName = "") ∨
      (∃ err, x = .ok ⟨some err, c.queues, none, none⟩) ∨
      x = .error nilPointerDereference ∨
      (∃ ns name, splitMetaNamespaceKey e.key = .ok (ns, name) ∧
        c.workerPodAutoScalers ⟨ns, name⟩ = none ∧ x = .ok ⟨none, c.queues.Delete ns name, none, none⟩) ∨
      ∃ ns name wpa queues cur avail, splitMetaNamespaceKey e.key = .ok (ns, name) ∧
        c.workerPodAutoScalers ⟨ns, name⟩ = some wpa ∧
        syncRead c e = .ok (.found ns name wpa cur avail) ∧
        syncQueue c.queues e.name ns name wpa.spec cur
          (wpa.spec.secondsToProcessOneJob.getD 0) = .ok queues ∧
        x = scaleWorkers c now attempts queues ns name wpa cur avail
          (wpa.spec.secondsToProcessOneJob.getD 0) := by
  unfold syncHandler at h
  split at h
  · rename_i a hr
    exact .inr (.inr (.inl (by rw [← h, syncRead_eq_error hr])))
  · rename_i err hr
    rcases syncRead_cases hr with ⟨he, hsk⟩ | ⟨err', he⟩ | ⟨_, _, -, -, ⟨⟩⟩ |
      ⟨_, _, _, _, _, -, -, ⟨⟩⟩ <;> cases he
    · exact .inl ⟨h.symm, hsk⟩
    · exact .inr (.inl ⟨err', h.symm⟩)
  · rename_i hr
    rcases syncRead_cases hr with ⟨⟨⟩, -⟩ | ⟨_, ⟨⟩⟩ | ⟨_, _, hs, hp, he⟩ | ⟨_, _, _, _, _, -, -, ⟨⟩⟩
    cases he
    exact .inr (.inr (.inr (.inl ⟨_, _, hs, hp, h.symm⟩)))
  · rename_i hr
    obtain ⟨hs, hp, -⟩ := syncRead_found hr
    dsimp only at h
    split at h
    · exact .inr (.inl ⟨_, h.symm⟩)
    · exact .inr (.inr (.inr (.inr ⟨_, _, _, _, _, _, hs, hp, hr, ‹_›, h.symm⟩)))

/-- `syncHandler` changes no record but the one of the key its event names. -/
theorem syncHandler_records_of_ne (h : syncHandler c now attempts e = .ok r)
    (hk : ∀ ns name, splitMetaNamespaceKey e.key = .ok (ns, name) → k ≠ ⟨ns, name⟩) :
    r.queues.records k = c.queues.records k := by
  rcases syncHandler_cases h with ⟨h, -⟩ | ⟨_, h⟩ | h | ⟨ns, name, hs, -, h⟩ |
    ⟨ns, name, _, _, _, _, hs, -, -, hq, h⟩
  · cases h; rfl
  · cases h; rfl
  · cases h
  · cases h; exact Queues.Delete_records_of_ne (hk ns name hs)
  · rw [scaleWorkers_queues h.symm]; exact syncQueue_records_of_ne hq (hk ns name hs)

/-- A key whose policy is gone from the cache loses its record. -/
theorem syncHandler_of_not_found {ns name : String}
    (hs : splitMetaNamespaceKey e.key = .ok (ns, name))
    (hp : c.workerPodAutoScalers ⟨ns, name⟩ = none) :
    syncHandler c now attempts e = .ok ⟨none, c.queues.Delete ns name, none, none⟩ := by
  simp only [syncHandler, syncRead, hs, hp]

/-- A sync without error of an event whose key holds a policy naming a workload made the
registry call with that policy's spec and kept the registry it returned. -/
theorem syncHandler_registry_call {k : ObjectKey} {p : WorkerPodAutoScaler}
    (h : syncHandler c now attempts e = .ok r) (herr : r.err = none)
    (hs : splitMetaNamespaceKey e.key = .ok (k.ns, k.name))
    (hp : c.workerPodAutoScalers k = some p)
    (hwl : p.spec.deploymentName ≠ "" ∨ p.spec.replicaSetName ≠ "") :
    ∃ cur sec, syncQueue c.queues e.name k.ns k.name p.spec cur sec = .ok r.queues := by
  rcases syncHandler_cases h with ⟨h, hsk⟩ | ⟨_, h⟩ | h | ⟨_, _, hs', hc, -⟩ |
    ⟨_, _, wpa, _, cur, _, hs', hp', -, hq, h⟩
  · obtain ⟨wpa, hwpa, hd, hr⟩ := hsk _ _ hs
    rw [hp] at hwpa; cases hwpa
    exact absurd ⟨hd, hr⟩ (not_and_or.2 (by simpa only [not_not] using hwl))
  · cases h; cases herr
  · cases h
  · rw [hs] at hs'; cases hs'; rw [hp] at hc; cases hc
  · rw [hs] at hs'; cases hs'; rw [hp] at hp'; cases hp'
    exact ⟨cur, _, scaleWorkers_queues h.symm ▸ hq⟩

/-- Every scale the controller commands stays within the bounds of the policy at the
event's key: at most its `maxReplicas`, and at least its `minReplicas` when
`minReplicas ≤ maxReplicas`. -/
theorem syncHandler_scaled_within_bounds (h : syncHandler c now attempts e = .ok r)
    {d : Int32} (hd : r.scaled = some d) :
    ∃ k wpa mn mx, splitMetaNamespaceKey e.key = .ok (k.ns, k.name) ∧
      c.workerPodAutoScalers k = some wpa ∧ wpa.spec.minReplicas = some mn ∧
      wpa.spec.maxReplicas = some mx ∧ d.val ≤ mx.val ∧ (mn.val ≤ mx.val → mn.val ≤ d.val) := by
  rcases syncHandler_cases h with ⟨h, -⟩ | ⟨_, h⟩ | h | ⟨_, _, _, _, h⟩ |
    ⟨ns, name, wpa, _, _, _, hs, hp, -, -, h⟩
  · cases h; cases hd
  · cases h; cases hd
  · cases h
  · cases h; cases hd
  obtain ⟨_, -, -, _, mn, mx, -, hmn, hmx, hg⟩ := scaleWorkers_scaled_record h.symm hd
  obtain ⟨mD, -, rfl⟩ := GetDesiredWorkers_eq_ok hg
  exact ⟨⟨ns, name⟩, wpa, mn, mx, hs, hp, hmn, hmx, desiredWorkersOf_floor_bounds⟩

theorem syncHandler_scaled_within_bounds_sample :
    ∃ k wpa mn mx, splitMetaNamespaceKey "ns/p" = .ok (k.ns, k.name) ∧
      (sampleController none).workerPodAutoScalers k = some wpa ∧
      wpa.spec.minReplicas = some mn ∧ wpa.spec.maxReplicas = some mx ∧
      (1 : Int32).val ≤ mx.val ∧ (mn.val ≤ mx.val → mn.val ≤ (1 : Int32).val) :=
  syncHandler_scaled_within_bounds (show syncHandler (sampleController none) 0
    (fun _ => ⟨true, none⟩) ⟨"ns/p", WokerPodAutoScalerEventUpdate⟩ =
      .ok ⟨none, (sampleController none).queues, some 1, some ⟨0, 2, 2, 1, some 0⟩⟩ from rfl)
    rfl

end Frame

section Locality

/-! A sync reads and writes only the registry record of its own key. -/

variable {c : Controller} {now : Int} {attempts : ℕ → UpdateAttempt}

theorem syncQueue_transplant {queues Q : Queues} {eventName ns name : String}
    {spec : WorkerPodAutoScalerSpec} {w : Int32} {s : Float64}
    (hq : Q.records ⟨ns, name⟩ = queues.records ⟨ns, name⟩) :
    syncQueue Q eventName ns name spec w s =
      (syncQueue queues eventName ns name spec w s).map
        fun q => Q.set ⟨ns, name⟩ (q.records ⟨ns, name⟩) := by
  unfold syncQueue
  split_ifs
  · exact Queues.Add_transplant hq
  · exact congrArg Except.ok Queues.Delete_transplant
  · simp only [Except.map]; rw [← hq, Queues.set_records]

theorem scaleWorkers_transplant {queues Q : Queues} {ns name : String}
    {wpa : WorkerPodAutoScaler} {cur avail : Int32} {s : Float64}
    (hq : Q.records ⟨ns, name⟩ = queues.records ⟨ns, name⟩) :
    scaleWorkers c now attempts Q ns name wpa cur avail s =
      (scaleWorkers c now attempts queues ns name wpa cur avail s).map
        fun r => { r with queues := Q } := by
  have hinfo : Q.GetQueueInfo ns name = queues.GetQueueInfo ns name := by
    simp only [Queues.GetQueueInfo, hq]
  unfold scaleWorkers
  rw [hinfo]
  split
  split_ifs
  · rfl
  split
  · simp only [bind, Except.bind, pure, Except.pure]
    split
    · rfl
    · split_ifs
      · split <;> rfl
      · rfl
  · rfl

/-- Past the registry call a sync reads of the controller only its default budget and
scale down delay. -/
theorem scaleWorkers_congr {c' : Controller} (hd : c'.defaultMaxDisruption = c.defaultMaxDisruption)
    (hδ : c'.scaleDownDelay = c.scaleDownDelay) :
    scaleWorkers c' now attempts = scaleWorkers c now attempts := by
  unfold scaleWorkers; rw [hd, hδ]

theorem scaleWorkers_with_queues (Q : Queues) :
    scaleWorkers { c with queues := Q } now attempts = scaleWorkers c now attempts := rfl

/-- `syncHandler` reads the controller through `syncRead`, its registry, its default budget
and its scale down delay. -/
theorem syncHandler_congr {c' : Controller} {e : WokerPodAutoScalerEvent}
    (hr : syncRead c' e = syncRead c e) (hq : c'.queues = c.queues)
    (hd : c'.defaultMaxDisruption = c.defaultMaxDisruption)
    (hδ : c'.scaleDownDelay = c.scaleDownDelay) :
    syncHandler c' now attempts e = syncHandler c now attempts e := by
  unfold syncHandler; rw [hr, hq, scaleWorkers_congr hd hδ]

/-- On a registry that agrees with the controller's at the event's key, `syncHandler`
decides the same, and leaves that registry with the record it leaves at the key. -/
theorem syncHandler_transplant {e : WokerPodAutoScalerEvent} {Q : Queues} {ns name : String}
    (hs : splitMetaNamespaceKey e.key = .ok (ns, name))
    (hq : Q.records ⟨ns, name⟩ = c.queues.records ⟨ns, name⟩) :
    syncHandler { c with queues := Q } now attempts e =
      (syncHandler c now attempts e).map
        fun r => { r with queues := Q.set ⟨ns, name⟩ (r.queues.records ⟨ns, name⟩) } := by
  have hQ : Q.set ⟨ns, name⟩ (c.queues.records ⟨ns, name⟩) = Q := by rw [← hq, Queues.set_records]
  have hr' : syncRead { c with queues := Q } e = syncRead c e := rfl
  unfold syncHandler
  rw [hr']
  rcases hr : syncRead c e with a | (err | ⟨ns', name'⟩ | ⟨ns', name', wpa, cur, avail⟩)
  · rfl
  · simp only [Except.map, hQ]
  · obtain ⟨⟨⟩, -⟩ | ⟨_, ⟨⟩⟩ | ⟨_, _, hs', -, he⟩ | ⟨_, _, _, _, _, -, -, ⟨⟩⟩ :=
      syncRead_cases hr
    cases he; rw [hs] at hs'; cases hs'
    simp only [Except.map, Queues.Delete, Queues.set_records_self]
  · obtain ⟨hs', -⟩ := syncRead_found hr
    rw [hs] at hs'; cases hs'
    dsimp only
    rw [syncQueue_transplant hq]
    cases hsq : syncQueue c.queues e.name ns name wpa.spec cur _ with
    | error err => simp only [Except.map, hQ]
    | ok queues =>
      simp only [Except.map]
      rw [scaleWorkers_with_queues, scaleWorkers_transplant (Queues.set_records_self _)]
      cases hsw : scaleWorkers c now attempts queues ns name wpa cur avail _ with
      | error a => rfl
      | ok r => simp only [Except.map, scaleWorkers_queues hsw]

end Locality

end Wpa
