import Mathlib.Data.Fintype.Card
import Wpa.Controller.Sync

/-! # The controller process

The policy informer, the registry's pollers and `threadiness` workers interleave on one
controller. The informer updates its cache and enqueues an event through
`enqueueAdd/Update/DeleteWorkerPodAutoScaler`; a worker runs `processNextWorkItem`: it
gets an event, runs `syncHandler` on it against the caches of that moment, then hands the
event back, rate limited when the sync failed. A run ends when a sync aborts the process.

Between `Get` and `Done` a worker's event is in the queue's processing set, and the queue
hands out no event twice, so no two workers ever hold the same event. They can hold two
events of one key: the queue deduplicates whole events, and an add and an update of one
policy are different events.
-/

namespace Wpa

namespace Controller

/-- The handlers' shared body: queue the event of `eventName` for the object's key. -/
def enqueue (c : Controller) (eventName : String) (obj : InformerObject) : Controller :=
  { c with workqueue := c.workqueue.add ⟨getKeyForWorkerPodAutoScaler obj, eventName⟩ }

def enqueueAddWorkerPodAutoScaler (c : Controller) (obj : InformerObject) : Controller :=
  c.enqueue WokerPodAutoScalerEventAdd obj

def enqueueUpdateWorkerPodAutoScaler (c : Controller) (obj : InformerObject) : Controller :=
  c.enqueue WokerPodAutoScalerEventUpdate obj

def enqueueDeleteWorkerPodAutoScaler (c : Controller) (obj : InformerObject) : Controller :=
  c.enqueue WokerPodAutoScalerEventDelete obj

/-- The informer's cache with the entry of `k` replaced. -/
def setPolicy (c : Controller) (k : ObjectKey) (p : Option WorkerPodAutoScaler) : Controller :=
  { c with workerPodAutoScalers := Function.update c.workerPodAutoScalers k p }

/-- The controller after a sync of `event` that returned `r`: the registry it left, and the
cached workload of the policy it read carrying the replicas of its scale. -/
def afterSync (c : Controller) (event : WokerPodAutoScalerEvent) (r : SyncResult) : Controller :=
  match syncRead c event with
  | .ok (.found _ _ wpa _ _) => { c with queues := r.queues }.writeScale wpa r.scaled
  | _ => { c with queues := r.queues }

variable (c : Controller) (eventName : String) (obj : InformerObject) (k : ObjectKey)
  (p : Option WorkerPodAutoScaler) (e : WokerPodAutoScalerEvent) (r : SyncResult)

@[simp] theorem enqueue_workerPodAutoScalers :
    (c.enqueue eventName obj).workerPodAutoScalers = c.workerPodAutoScalers := rfl

@[simp] theorem enqueue_queues : (c.enqueue eventName obj).queues = c.queues := rfl

@[simp] theorem setPolicy_workerPodAutoScalers :
    (c.setPolicy k p).workerPodAutoScalers = Function.update c.workerPodAutoScalers k p := rfl

@[simp] theorem setPolicy_queues : (c.setPolicy k p).queues = c.queues := rfl

@[simp] theorem afterSync_workerPodAutoScalers :
    (c.afterSync e r).workerPodAutoScalers = c.workerPodAutoScalers := by
  unfold afterSync; split <;> simp

@[simp] theorem afterSync_workqueue : (c.afterSync e r).workqueue = c.workqueue := by
  unfold afterSync; split <;> simp

@[simp] theorem afterSync_queues : (c.afterSync e r).queues = r.queues := by
  unfold afterSync; split <;> simp

@[simp] theorem afterSync_defaultMaxDisruption :
    (c.afterSync e r).defaultMaxDisruption = c.defaultMaxDisruption := by
  unfold afterSync; split <;> simp

@[simp] theorem afterSync_scaleDownDelay : (c.afterSync e r).scaleDownDelay = c.scaleDownDelay := by
  unfold afterSync; split <;> simp

/-- A controller whose reads of an event agree with those of `c` writes the same after a
sync of it. -/
theorem afterSync_of_read {c' : Controller} (h : syncRead c' e = syncRead c e) :
    c'.afterSync e r = match syncRead c e with
      | .ok (.found _ _ wpa _ _) => { c' with queues := r.queues }.writeScale wpa r.scaled
      | _ => { c' with queues := r.queues } := by
  unfold afterSync; rw [h]

end Controller

/-- Where a worker is in `processNextWorkItem`. -/
inductive Worker
  | idle
  | syncing (event : WokerPodAutoScalerEvent)
  | synced (event : WokerPodAutoScalerEvent) (err : Option String)
  deriving DecidableEq

/-- The event a worker holds between `Get` and `Done`. -/
def Worker.event? : Worker → Option WokerPodAutoScalerEvent
  | .idle => none
  | .syncing e => some e
  | .synced e _ => some e

/-- The controller and its `W` workers. -/
structure Process (W : ℕ) where
  controller : Controller
  workers : Fin W → Worker

/-- What can happen next: a policy, workload or poll change the process observes, or a
step of a worker. `sync` carries the instant and how the cluster answers the updates. -/
inductive Action (W : ℕ)
  | create (p : WorkerPodAutoScaler)
  | update (p : WorkerPodAutoScaler)
  | delete (key : ObjectKey) (tombstone : Bool)
  | setDeployment (key : ObjectKey) (w : Option Workload)
  | setReplicaSet (key : ObjectKey) (w : Option Workload)
  | poll (key : ObjectKey) (messages : Int32) (messagesSentPerMinute : Float64)
      (idleWorkers : Int32)
  | get (w : Fin W)
  | sync (w : Fin W) (now : Int) (attempts : ℕ → UpdateAttempt)
  | finish (w : Fin W)
  | ready (event : WokerPodAutoScalerEvent)

namespace Process

variable {W : ℕ}

/-- A started controller: empty caches, queue and registry, every worker waiting. -/
def init (W : ℕ) (defaultMaxDisruption : String) (scaleDownDelay : Int) : Process W :=
  ⟨⟨fun _ => none, fun _ => none, fun _ => none, WorkQueue.empty, defaultMaxDisruption,
    scaleDownDelay, Queues.empty⟩, fun _ => .idle⟩

def withController (s : Process W) (c : Controller) : Process W := { s with controller := c }

def withWorkqueue (s : Process W) (q : WorkQueue WokerPodAutoScalerEvent) : Process W :=
  { s with controller := { s.controller with workqueue := q } }

@[simp] theorem withController_controller (s : Process W) (c : Controller) :
    (s.withController c).controller = c := rfl

@[simp] theorem withController_workers (s : Process W) (c : Controller) :
    (s.withController c).workers = s.workers := rfl

/-- One action, or `none` when it cannot happen: the informer creates only absent
policies and updates or deletes only present ones, a worker gets only when idle and the
queue has an event, and a sync that aborts ends the run. A delete the informer missed
reaches the handler as a tombstone. -/
def step (s : Process W) : Action W → Option (Process W)
  | .create p =>
    match s.controller.workerPodAutoScalers p.meta.objectKey with
    | none => some (s.withController ((s.controller.setPolicy p.meta.objectKey (some p)
        ).enqueueAddWorkerPodAutoScaler (.policy p)))
    | some _ => none
  | .update p =>
    match s.controller.workerPodAutoScalers p.meta.objectKey with
    | some _ => some (s.withController ((s.controller.setPolicy p.meta.objectKey (some p)
        ).enqueueUpdateWorkerPodAutoScaler (.policy p)))
    | none => none
  | .delete k tombstone =>
    match s.controller.workerPodAutoScalers k with
    | some p => some (s.withController ((s.controller.setPolicy k none
        ).enqueueDeleteWorkerPodAutoScaler
          (if tombstone then .tombstone p.meta.key p else .policy p)))
    | none => none
  | .setDeployment k w => some (s.withController
      { s.controller with deployments := Function.update s.controller.deployments k w })
  | .setReplicaSet k w => some (s.withController
      { s.controller with replicaSets := Function.update s.controller.replicaSets k w })
  | .poll k m r i =>
    match s.controller.queues.records k with
    | some _ => some (s.withController
        { s.controller with queues := s.controller.queues.poll k m r i })
    | none => none
  | .get w =>
    match s.workers w, s.controller.workqueue.get with
    | .idle, some (e, q) =>
      some { s.withWorkqueue q with workers := Function.update s.workers w (.syncing e) }
    | _, _ => none
  | .sync w now attempts =>
    match s.workers w with
    | .syncing e =>
      match syncHandler s.controller now attempts e with
      | .ok r => some ⟨s.controller.afterSync e r, Function.update s.workers w (.synced e r.err)⟩
      | .error _ => none
    | _ => none
  | .finish w =>
    match s.workers w with
    | .synced e err =>
      -- `Forget` only clears the rate limiter's count of failures.
      let q := if err.isSome then s.controller.workqueue.addRateLimited e
        else s.controller.workqueue
      some { s.withWorkqueue (q.done e) with workers := Function.update s.workers w .idle }
    | _ => none
  | .ready e =>
    if e ∈ s.controller.workqueue.waiting then
      some (s.withWorkqueue (s.controller.workqueue.ready e))
    else none

/-- The state after a list of actions, if each can happen in turn. -/
def run (s : Process W) : List (Action W) → Option (Process W)
  | [] => some s
  | a :: as => (s.step a).bind (·.run as)

end Process

/-- The states a run reaches from a start through actions that satisfy `allowed`. -/
inductive Reachable {W : ℕ} (allowed : Action W → Prop) : Process W → Prop
  | init (defaultMaxDisruption : String) (scaleDownDelay : Int) :
      Reachable allowed (Process.init W defaultMaxDisruption scaleDownDelay)
  | step {s s' : Process W} (a : Action W) :
      Reachable allowed s → allowed a → s.step a = some s' → Reachable allowed s'

theorem Reachable.run {W : ℕ} {allowed : Action W → Prop} {s s' : Process W}
    {as : List (Action W)} (hs : Reachable allowed s) (ha : ∀ a ∈ as, allowed a)
    (h : s.run as = some s') : Reachable allowed s' := by
  induction as generalizing s with
  | nil => cases h; exact hs
  | cons a as ih =>
    simp only [Process.run, Option.bind_eq_some] at h
    obtain ⟨t, ht, h⟩ := h
    exact ih (.step a hs (ha a (.head _)) ht) (fun b hb => ha b (.tail _ hb)) h

namespace Process

variable {W : ℕ} {s s' : Process W}

/-- What a reachable process keeps true: the work queue is valid, an event a worker holds
is being processed, and no two workers hold the same event. -/
structure Valid (s : Process W) : Prop where
  workqueue : s.controller.workqueue.Valid
  held : ∀ w e, (s.workers w).event? = some e → e ∈ s.controller.workqueue.processing
  unique : ∀ w w' e, (s.workers w).event? = some e → (s.workers w').event? = some e → w = w'

theorem valid_init (W : ℕ) (d : String) (δ : Int) : (init W d δ).Valid :=
  ⟨WorkQueue.valid_empty, fun _ _ h => (by cases h), fun _ _ _ h => (by cases h)⟩

/-- A step that keeps the workers' events and the processing set keeps the process valid
when it keeps its queue valid. -/
theorem Valid.of_frame (hv : s.Valid) (hq : s'.controller.workqueue.Valid)
    (hp : s'.controller.workqueue.processing = s.controller.workqueue.processing)
    (hw : ∀ w, (s'.workers w).event? = (s.workers w).event?) : s'.Valid :=
  ⟨hq, fun w e h => hp ▸ hv.held w e (hw w ▸ h),
    fun w w' e h h' => hv.unique w w' e (hw w ▸ h) (hw w' ▸ h')⟩

theorem Valid.get (hv : s.Valid) {w : Fin W} {e : WokerPodAutoScalerEvent}
    {q : WorkQueue WokerPodAutoScalerEvent} (hw : s.workers w = .idle)
    (hg : s.controller.workqueue.get = some (e, q)) :
    { s.withWorkqueue q with workers := Function.update s.workers w (.syncing e) }.Valid := by
  obtain ⟨rest, hq, rfl⟩ := WorkQueue.get_eq_some.1 hg
  have he : ∀ v, (s.workers v).event? ≠ some e := fun v h =>
    hv.workqueue.queue_not_processing e (by simp [hq]) (hv.held v e h)
  refine ⟨hv.workqueue.get hg, fun v e' h => ?_, fun v v' e' h h' => ?_⟩ <;>
    dsimp only [withWorkqueue] at *
  · rw [List.mem_insert_iff]
    by_cases hv' : v = w
    · subst hv'; simp only [Function.update_same, Worker.event?, Option.some.injEq] at h
      exact .inl h.symm
    · rw [Function.update_noteq hv'] at h; exact .inr (hv.held v e' h)
  · by_cases hvw : v = w <;> by_cases hvw' : v' = w
    · rw [hvw, hvw']
    · subst hvw; simp only [Function.update_same, Worker.event?, Option.some.injEq] at h
      rw [Function.update_noteq hvw', ← h] at h'; exact absurd h' (he v')
    · subst hvw'; simp only [Function.update_same, Worker.event?, Option.some.injEq] at h'
      rw [Function.update_noteq hvw, ← h'] at h; exact absurd h (he v)
    · rw [Function.update_noteq hvw] at h; rw [Function.update_noteq hvw'] at h'
      exact hv.unique v v' e' h h'

theorem Valid.finish (hv : s.Valid) {w : Fin W} {e : WokerPodAutoScalerEvent}
    {err : Option String} (hw : s.workers w = .synced e err)
    {q : WorkQueue WokerPodAutoScalerEvent} (hq : q.Valid)
    (hp : q.processing = s.controller.workqueue.processing) :
    { s.withWorkqueue (q.done e) with workers := Function.update s.workers w .idle }.Valid := by
  have he : e ∈ q.processing := hp ▸ hv.held w e (by rw [hw]; rfl)
  refine ⟨hq.done he, fun v e' h => ?_, fun v v' e' h h' => ?_⟩ <;>
    dsimp only [withWorkqueue] at *
  · by_cases hvw : v = w
    · subst hvw; simp [Worker.event?] at h
    · rw [Function.update_noteq hvw] at h
      have hne : e' ≠ e := fun h' => hvw (hv.unique v w e' h (by rw [hw, h']; rfl))
      simpa [withWorkqueue, hp, hq.processing_nodup.mem_erase_iff, hne] using hv.held v e' h
  · by_cases hvw : v = w
    · subst hvw; simp [Worker.event?] at h
    by_cases hvw' : v' = w
    · subst hvw'; simp [Worker.event?] at h'
    rw [Function.update_noteq hvw] at h; rw [Function.update_noteq hvw'] at h'
    exact hv.unique v v' e' h h'

/-- Every step keeps a process valid. -/
theorem Valid.step (hv : s.Valid) {a : Action W} (h : s.step a = some s') : s'.Valid := by
  cases a with
  | create p | update p | delete k _ =>
    simp only [Process.step] at h; split at h <;> cases h
    exact hv.of_frame (hv.workqueue.add _) WorkQueue.add_processing fun _ => rfl
  | setDeployment | setReplicaSet => cases h; exact hv.of_frame hv.workqueue rfl fun _ => rfl
  | poll =>
    simp only [Process.step] at h; split at h <;> cases h
    exact hv.of_frame hv.workqueue rfl fun _ => rfl
  | get w =>
    simp only [Process.step] at h; split at h <;> cases h
    exact hv.get ‹_› ‹_›
  | sync w now attempts =>
    simp only [Process.step] at h; split at h <;> [split at h; cases h] <;> cases h
    refine hv.of_frame (by simpa using hv.workqueue) (by simp) fun v => ?_
    by_cases hvw : v = w
    · subst hvw; simp [Worker.event?, *]
    · simp [Function.update_noteq hvw]
  | finish w =>
    simp only [Process.step] at h; split at h <;> cases h
    split_ifs
    · exact hv.finish ‹_› (hv.workqueue.addRateLimited _) rfl
    · exact hv.finish ‹_› hv.workqueue rfl
  | ready e =>
    simp only [Process.step] at h; split_ifs at h; cases h
    exact hv.of_frame (hv.workqueue.ready e) WorkQueue.add_processing fun _ => rfl

end Process

theorem Reachable.valid {W : ℕ} {s : Process W} {allowed : Action W → Prop}
    (h : Reachable allowed s) : s.Valid := by
  induction h with
  | init d δ => exact Process.valid_init W d δ
  | step a _ _ hs ih => exact ih.step hs

/-- The names the informer handlers give events. -/
def eventNames : List String :=
  [WokerPodAutoScalerEventAdd, WokerPodAutoScalerEventUpdate, WokerPodAutoScalerEventDelete]

namespace Process

variable {W : ℕ} {s s' : Process W}

/-- Every event in the queue's sets has a name the handlers give. -/
def EventsNamed (s : Process W) : Prop :=
  ∀ e, e ∈ s.controller.workqueue.dirty ∨ e ∈ s.controller.workqueue.processing ∨
    e ∈ s.controller.workqueue.waiting → e.name ∈ eventNames

theorem EventsNamed.of_add (hn : s.EventsNamed) {x : WokerPodAutoScalerEvent}
    (hx : x.name ∈ eventNames) (hq : s'.controller.workqueue = s.controller.workqueue.add x) :
    s'.EventsNamed := by
  intro e he
  rw [hq, WorkQueue.mem_add_dirty, WorkQueue.add_processing, WorkQueue.add_waiting] at he
  rcases he with (rfl | he) | he
  exacts [hx, hn e (.inl he), hn e (.inr he)]

theorem EventsNamed.step (hv : s.Valid) (hn : s.EventsNamed) {a : Action W}
    (h : s.step a = some s') : s'.EventsNamed := by
  cases a with
  | create p | update p | delete k _ =>
    simp only [Process.step] at h; split at h <;> cases h
    exact hn.of_add (by simp [eventNames]) rfl
  | setDeployment | setReplicaSet => cases h; exact hn
  | poll =>
    simp only [Process.step] at h; split at h <;> cases h; exact hn
  | get w =>
    simp only [Process.step] at h; split at h <;> cases h
    rename_i e q _ hg
    obtain ⟨rest, hq, rfl⟩ := WorkQueue.get_eq_some.1 hg
    rintro e' (he | he | he)
    · exact hn e' (.inl (List.mem_of_mem_erase he))
    · rcases List.mem_insert_iff.1 he with rfl | he
      · exact hn e' (.inl (hv.workqueue.queue_dirty e' (by simp [hq])))
      · exact hn e' (.inr (.inl he))
    · exact hn e' (.inr (.inr he))
  | sync =>
    simp only [Process.step] at h; split at h <;> [split at h; cases h] <;> cases h
    exact fun e he => hn e (by simpa only [Controller.afterSync_workqueue] using he)
  | finish w =>
    simp only [Process.step] at h; split at h <;> cases h
    rename_i e err hw
    have he : e.name ∈ eventNames := hn e (.inr (.inl (hv.held w e (by rw [hw]; rfl))))
    rintro e' (he' | he' | he') <;> dsimp only [withWorkqueue] at he' <;>
      split_ifs at he' <;> simp only [WorkQueue.done_dirty, WorkQueue.done_processing,
        WorkQueue.done_waiting, WorkQueue.addRateLimited_dirty,
        WorkQueue.addRateLimited_processing, WorkQueue.addRateLimited_waiting,
        List.mem_insert_iff] at he'
    · exact hn e' (.inl he')
    · exact hn e' (.inl he')
    · exact hn e' (.inr (.inl (List.mem_of_mem_erase he')))
    · exact hn e' (.inr (.inl (List.mem_of_mem_erase he')))
    · rcases he' with rfl | he'
      exacts [he, hn e' (.inr (.inr he'))]
    · exact hn e' (.inr (.inr he'))
  | ready e =>
    simp only [Process.step] at h; split_ifs at h with hw; cases h
    rintro e' (he | he | he)
    · rcases WorkQueue.mem_ready_dirty.1 he with rfl | he
      exacts [hn e' (.inr (.inr hw)), hn e' (.inl he)]
    · exact hn e' (.inr (.inl (by simpa [withWorkqueue] using he)))
    · exact hn e' (.inr (.inr (List.mem_of_mem_erase (by simpa [withWorkqueue] using he))))

end Process

theorem Reachable.eventsNamed {W : ℕ} {s : Process W} {allowed : Action W → Prop}
    (h : Reachable allowed s) : s.EventsNamed := by
  induction h with
  | init => intro e he; simp [Process.init, WorkQueue.empty] at he
  | step a hr _ hs ih => exact ih.step hr.valid hs

/-- For one key, at most three workers hold events at once, one for each kind of event. -/
theorem Reachable.key_holders_le_three {W : ℕ} {s : Process W} {allowed : Action W → Prop}
    (h : Reachable allowed s) (key : String) :
    (Finset.univ.filter fun w => ∃ e, (s.workers w).event? = some e ∧ e.key = key).card ≤ 3 := by
  have hv := h.valid
  have hn := h.eventsNamed
  calc _ ≤ eventNames.toFinset.card := Finset.card_le_card_of_injOn
        (fun w => ((s.workers w).event?.map (·.name)).getD "") ?_ ?_
    _ = 3 := by decide
  · intro w hw
    obtain ⟨e, he, -⟩ := (Finset.mem_filter.1 hw).2
    simp only [he, Option.map_some', Option.getD_some, List.mem_toFinset]
    exact hn e (.inr (.inl (hv.held w e he)))
  · intro w hw w' hw' hf
    obtain ⟨⟨k, n⟩, he, rfl⟩ := (Finset.mem_filter.1 hw).2
    obtain ⟨⟨k', n'⟩, he', rfl⟩ := (Finset.mem_filter.1 hw').2
    simp only [he, he', Option.map_some', Option.getD_some] at hf
    subst hf
    exact hv.unique w w' _ he he'

theorem Reachable.key_holders_le_three_sample :
    ∃ s : Process 2, Reachable (fun _ => True) s ∧
      (Finset.univ.filter fun w => ∃ e, (s.workers w).event? = some e ∧ e.key = "ns/p").card ≤ 3 :=
  let h := (Reachable.init "10%" 0).run (fun _ _ => trivial)
    (show (Process.init 2 "10%" 0).run [.create (samplePolicy none), .update (samplePolicy none),
      .get 0, .get 1] = some _ from rfl)
  ⟨_, h, h.key_holders_le_three "ns/p"⟩

/-- No two workers ever hold the same event, the same key and the same kind, between
`Get` and `Done`, so never run `syncHandler` on it at once. -/
theorem Reachable.event_exclusive {W : ℕ} {s : Process W} (h : Reachable (fun _ => True) s)
    {w w' : Fin W} {e : WokerPodAutoScalerEvent} (hw : (s.workers w).event? = some e)
    (hw' : (s.workers w').event? = some e) : w = w' :=
  h.valid.unique w w' e hw hw'

theorem Reachable.event_exclusive_created :
    ∃ s : Process 2, Reachable (fun _ => True) s ∧
      (s.workers 0).event? = some ⟨"ns/p", WokerPodAutoScalerEventAdd⟩ ∧ (0 : Fin 2) = 0 :=
  let h := (Reachable.init "10%" 0).run (fun _ _ => trivial)
    (show (Process.init 2 "10%" 0).run [.create (samplePolicy none), .get 0] = some _ from rfl)
  ⟨_, h, rfl, h.event_exclusive rfl rfl⟩

/-- With two workers, an add and an update of one policy are in `syncHandler` at once. -/
theorem two_workers_sync_one_key :
    ∃ s : Process 2, Reachable (fun _ => True) s ∧
      s.workers 0 = .syncing ⟨"ns/p", WokerPodAutoScalerEventAdd⟩ ∧
      s.workers 1 = .syncing ⟨"ns/p", WokerPodAutoScalerEventUpdate⟩ :=
  ⟨_, (Reachable.init "10%" 0).run (fun _ _ => trivial)
    (show (Process.init 2 "10%" 0).run [.create (samplePolicy none), .update (samplePolicy none),
      .get 0, .get 1] = some _ from rfl), rfl, rfl⟩

end Wpa
