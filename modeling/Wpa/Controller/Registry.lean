import Wpa.Controller.Process

/-! # Records and policies

A registry record outlives its policy only while a delete event of its key is still to
be synced: the informer queues one when it drops the policy, the queue keeps it dirty,
waiting or held until a sync of it has run without error, and that sync finds no policy
and drops the record. In the same way a policy that names a workload but a queue service
the registry does not support keeps a record only while an event of its key is pending,
since each sync of it fails. So once the process is quiescent every record has a policy,
and one that names a workload names a supported queue service.

The first of these needs every delete to reach the handler with its object. A delete the
informer missed arrives as a `DeletedFinalStateUnknown` tombstone, which
`cache.MetaNamespaceKeyFunc` gives no key, and the event of key `""` leaves the record in
place. The converse fails by design: the queue merges a re-created policy's add with an
add still queued before the delete, and the delete, synced last, drops the record of a
live policy. A sync also keeps the record of a policy that no longer names a workload,
and the deletion of a workload reaches no handler of the controller.
-/

namespace Wpa

/-- A delete that reaches the handler as a tombstone. -/
def Action.isTombstone {W : ℕ} : Action W → Bool
  | .delete _ tombstone => tombstone
  | _ => false

namespace Process

variable {W : ℕ} {s s' : Process W}

/-- Nothing queued, being processed or waiting out a backoff. -/
def Quiescent (s : Process W) : Prop :=
  s.controller.workqueue.queue = [] ∧ s.controller.workqueue.processing = [] ∧
    s.controller.workqueue.waiting = []

instance : DecidablePred (Quiescent (W := W)) := fun _ => inferInstanceAs (Decidable (_ ∧ _))

/-- The event is still to be synced, or to be handed back after a failed sync. -/
def Pending (s : Process W) (e : WokerPodAutoScalerEvent) : Prop :=
  e ∈ s.controller.workqueue.dirty ∨ e ∈ s.controller.workqueue.waiting ∨
    ∃ w, s.workers w = .syncing e ∨ ∃ err, s.workers w = .synced e (some err)

/-- A delete event of key `k` is pending. -/
def DeletePending (s : Process W) (k : ObjectKey) : Prop :=
  ∃ e, e.name = WokerPodAutoScalerEventDelete ∧
    splitMetaNamespaceKey e.key = .ok (k.ns, k.name) ∧ s.Pending e

/-- The informer's cache holds each policy under its own key, and a record without a
policy has a delete of its key pending. -/
structure RecordsBacked (s : Process W) : Prop where
  keyed : ∀ k p, s.controller.workerPodAutoScalers k = some p → p.meta.objectKey = k
  backed : ∀ k, (s.controller.queues.records k).isSome →
    s.controller.workerPodAutoScalers k = none → s.DeletePending k

theorem recordsBacked_init (W : ℕ) (d : String) (δ : Int) : (init W d δ).RecordsBacked :=
  ⟨fun _ _ h => (by cases h), fun _ h => (by cases h)⟩

/-- A quiescent valid process has nothing pending. -/
theorem Valid.not_pending (hv : s.Valid) (hq : s.Quiescent) (e : WokerPodAutoScalerEvent) :
    ¬ s.Pending e := by
  obtain ⟨hq, hp, hw⟩ := hq
  have held : ∀ w, (s.workers w).event? ≠ some e := fun w h => by
    simpa [hp] using hv.held w e h
  rintro (h | h | ⟨w, h | ⟨err, h⟩⟩)
  · simp [hv.workqueue.dirty_eq_nil hq hp] at h
  · simp [hw] at h
  all_goals exact held w (by rw [h]; rfl)

theorem DeletePending.mono {k : ObjectKey} (h : s.DeletePending k)
    (hp : ∀ e, s.Pending e → s'.Pending e) : s'.DeletePending k :=
  let ⟨e, hn, hs, he⟩ := h; ⟨e, hn, hs, hp e he⟩

theorem Pending.of_add {e x : WokerPodAutoScalerEvent}
    (hq : s'.controller.workqueue = s.controller.workqueue.add x) (hw : s'.workers = s.workers)
    (h : s.Pending e) : s'.Pending e := by
  rcases h with h | h | h
  · exact .inl (hq ▸ WorkQueue.mem_add_dirty.2 (.inr h))
  · exact .inr (.inl (by rw [hq, WorkQueue.add_waiting]; exact h))
  · exact .inr (.inr (hw ▸ h))

/-- A new state of a worker holding `e` keeps every other pending event pending. -/
theorem Pending.update_worker {w : Fin W} {e e' : WokerPodAutoScalerEvent} {c : Controller}
    {x : Worker} (hw : (s.workers w).event? = some e)
    (hc : c.workqueue = s.controller.workqueue) (he : e' ≠ e) (h : s.Pending e') :
    (⟨c, Function.update s.workers w x⟩ : Process W).Pending e' := by
  rcases h with h | h | ⟨v, hv⟩
  · exact .inl (hc ▸ h)
  · exact .inr (.inl (hc ▸ h))
  · have hvw : v ≠ w := by
      rintro rfl
      rcases hv with hv | ⟨_, hv⟩ <;> rw [hv] at hw <;> exact he (Option.some.inj hw)
    exact .inr (.inr ⟨v, by dsimp only; rwa [Function.update_noteq hvw]⟩)

/-- A step that leaves the policy cache alone, makes no record and keeps every pending
event pending. -/
structure Frame (s s' : Process W) : Prop where
  cache : s'.controller.workerPodAutoScalers = s.controller.workerPodAutoScalers
  records : ∀ k, (s'.controller.queues.records k).isSome → (s.controller.queues.records k).isSome
  pending : ∀ e, s.Pending e → s'.Pending e

/-- What one step does to the policy cache, the registry and the pending events: the
work queue's, the pollers' and the workload caches' steps are frame steps; the others
are the informer's notification of a created or updated policy, its notification of a
deleted one, and a sync. -/
theorem step_cases {a : Action W} (h : s.step a = some s') :
    Frame s s' ∨
      (∃ p eventName, s' = s.withController
        ((s.controller.setPolicy p.meta.objectKey (some p)).enqueue eventName (.policy p))) ∨
      (∃ k p tombstone, a = .delete k tombstone ∧ s.controller.workerPodAutoScalers k = some p ∧
        s' = s.withController ((s.controller.setPolicy k none).enqueue
          WokerPodAutoScalerEventDelete (if tombstone then .tombstone p.meta.key p else .policy p))) ∨
      ∃ w e now attempts r, a = .sync w now attempts ∧ s.workers w = .syncing e ∧
        syncHandler s.controller now attempts e = .ok r ∧
        s' = ⟨s.controller.afterSync e r, Function.update s.workers w (.synced e r.err)⟩ := by
  cases a with
  | create p | update p =>
    simp only [Process.step] at h; split at h <;> cases h
    exact .inr (.inl ⟨p, _, rfl⟩)
  | delete k tombstone =>
    simp only [Process.step] at h; split at h <;> cases h
    exact .inr (.inr (.inl ⟨k, _, tombstone, rfl, ‹_›, rfl⟩))
  | setDeployment | setReplicaSet => cases h; exact .inl ⟨rfl, fun _ => id, fun _ => id⟩
  | poll =>
    simp only [Process.step] at h; split at h <;> cases h
    refine .inl ⟨rfl, fun k hk => ?_, fun _ => id⟩
    rw [Option.isSome_iff_ne_none] at hk ⊢
    exact fun h => hk (Queues.poll_records_eq_none.2 h)
  | get w =>
    simp only [Process.step] at h; split at h <;> cases h
    rename_i e q hw hg
    obtain ⟨rest, -, rfl⟩ := WorkQueue.get_eq_some.1 hg
    refine .inl ⟨rfl, fun _ => id, fun e' hp => ?_⟩
    rcases hp with hp | hp | ⟨v, hv⟩
    · by_cases he : e' = e
      · subst he; exact .inr (.inr ⟨w, .inl (Function.update_same _ _ _)⟩)
      · exact .inl ((List.mem_erase_of_ne he).2 hp)
    · exact .inr (.inl hp)
    · have hvw : v ≠ w := by rintro rfl; rw [hw] at hv; simp at hv
      exact .inr (.inr ⟨v, by dsimp only; rwa [Function.update_noteq hvw]⟩)
  | sync w now attempts =>
    simp only [Process.step] at h; split at h <;> [split at h; cases h] <;> cases h
    exact .inr (.inr (.inr ⟨w, _, now, attempts, _, rfl, ‹_›, ‹_›, rfl⟩))
  | finish w =>
    simp only [Process.step] at h; split at h <;> cases h
    rename_i e err hw
    refine .inl ⟨rfl, fun _ => id, fun e' hp => ?_⟩
    rcases hp with hp | hp | ⟨v, hv⟩
    · exact .inl (by dsimp only [withWorkqueue]; split_ifs <;> simpa using hp)
    · exact .inr (.inl (by dsimp only [withWorkqueue]; split_ifs <;> simp [hp]))
    · by_cases hvw : v = w
      · subst hvw
        obtain ⟨err', he⟩ := hv.resolve_left (by rw [hw]; simp)
        rw [hw] at he; cases he
        exact .inr (.inl (by simp [withWorkqueue]))
      · exact .inr (.inr ⟨v, by dsimp only; rwa [Function.update_noteq hvw]⟩)
  | ready e =>
    simp only [Process.step] at h; split_ifs at h; cases h
    refine .inl ⟨rfl, fun _ => id, fun e' hp => ?_⟩
    rcases hp with hp | hp | hp
    · exact .inl (WorkQueue.mem_ready_dirty.2 (.inr hp))
    · by_cases he : e' = e
      · exact .inl (WorkQueue.mem_ready_dirty.2 (.inl he))
      · exact .inr (.inl (by simpa [withWorkqueue] using (List.mem_erase_of_ne he).2 hp))
    · exact .inr (.inr hp)

/-- No step loses a pending event, except a sync of that event that returns without
error. -/
theorem Pending.step {a : Action W} {e : WokerPodAutoScalerEvent} (h : s.step a = some s')
    (hp : s.Pending e) :
    s'.Pending e ∨ ∃ w now attempts r, a = .sync w now attempts ∧ s.workers w = .syncing e ∧
      syncHandler s.controller now attempts e = .ok r ∧ r.err = none := by
  rcases step_cases h with hf | ⟨_, _, rfl⟩ | ⟨_, _, _, -, -, rfl⟩ |
    ⟨w, e', now, attempts, r, rfl, hw, hs, rfl⟩
  · exact .inl (hf.pending e hp)
  · exact .inl (hp.of_add rfl rfl)
  · exact .inl (hp.of_add rfl rfl)
  · by_cases he : e = e'
    · subst he
      cases herr : r.err with
      | none => exact .inr ⟨w, now, attempts, r, rfl, hw, hs, herr⟩
      | some err => exact .inl (.inr (.inr ⟨w, .inr ⟨err, by simp [herr]⟩⟩))
    · exact .inl (hp.update_worker (by rw [hw]; rfl) (Controller.afterSync_workqueue _ _ _) he)

/-- Some step of the run from `s` through `as` syncs `e` without error. -/
def SyncsOk : Process W → List (Action W) → WokerPodAutoScalerEvent → Prop
  | _, [], _ => False
  | s, a :: as, e =>
    (∃ w now attempts r, a = .sync w now attempts ∧ s.workers w = .syncing e ∧
      syncHandler s.controller now attempts e = .ok r ∧ r.err = none) ∨
    ∃ s', s.step a = some s' ∧ s'.SyncsOk as e

/-- A run keeps a pending event pending until a sync of it returns without error. -/
theorem Pending.run {as : List (Action W)} {e : WokerPodAutoScalerEvent}
    (h : s.run as = some s') (hp : s.Pending e) : s'.Pending e ∨ s.SyncsOk as e := by
  induction as generalizing s with
  | nil => cases h; exact .inl hp
  | cons a as ih =>
    simp only [Process.run, Option.bind_eq_some] at h
    obtain ⟨t, ht, h⟩ := h
    rcases hp.step ht with hp | hsync
    · exact (ih h hp).imp_right fun hs => .inr ⟨t, ht, hs⟩
    · exact .inr (.inl hsync)

/-- A step that makes no record and drops no policy, and keeps every pending event
pending, keeps records backed. -/
theorem RecordsBacked.of_frame (hr : s.RecordsBacked)
    (hc : ∀ k, s'.controller.workerPodAutoScalers k = s.controller.workerPodAutoScalers k ∨
      ∃ p, s'.controller.workerPodAutoScalers k = some p ∧ p.meta.objectKey = k)
    (hrec : ∀ k, (s'.controller.queues.records k).isSome → (s.controller.queues.records k).isSome)
    (hp : ∀ e, s.Pending e → s'.Pending e) : s'.RecordsBacked := by
  refine ⟨fun k p h => ?_, fun k hk h => ?_⟩ <;> rcases hc k with hk' | ⟨p', hp', hkey⟩
  · exact hr.keyed k p (hk' ▸ h)
  · rw [hp'] at h; cases h; exact hkey
  · exact (hr.backed k (hrec k hk) (hk' ▸ h)).mono hp
  · rw [hp'] at h; cases h

theorem RecordsBacked.delete (hr : s.RecordsBacked) {k : ObjectKey} {p : WorkerPodAutoScaler}
    (hp : s.controller.workerPodAutoScalers k = some p) :
    (s.withController ((s.controller.setPolicy k none).enqueue WokerPodAutoScalerEventDelete
      (.policy p))).RecordsBacked := by
  have hkey := hr.keyed k p hp
  refine ⟨fun k' p' h => ?_, fun k' hk h => ?_⟩ <;> by_cases hk' : k' = k
  · subst hk'; simp at h
  · exact hr.keyed k' p' (by simpa [hk'] using h)
  · subst hk'
    refine ⟨⟨p.meta.key, WokerPodAutoScalerEventDelete⟩, rfl, ?_,
      .inl (WorkQueue.mem_add_dirty.2 (.inl rfl))⟩
    rw [splitMetaNamespaceKey_key, ← hkey]; rfl
  · exact (hr.backed k' hk (by simpa [hk'] using h)).mono fun e => Pending.of_add rfl rfl

theorem RecordsBacked.sync (hr : s.RecordsBacked) {w : Fin W} {e : WokerPodAutoScalerEvent}
    {now : Int} {attempts : ℕ → UpdateAttempt} {r : SyncResult}
    (hw : s.workers w = .syncing e) (h : syncHandler s.controller now attempts e = .ok r) :
    (⟨s.controller.afterSync e r, Function.update s.workers w (.synced e r.err)⟩ :
      Process W).RecordsBacked := by
  refine ⟨fun k p hp => hr.keyed k p (by simpa using hp), fun ⟨kns, kname⟩ hk hc => ?_⟩
  simp only [Controller.afterSync_queues, Controller.afterSync_workerPodAutoScalers] at hk hc ⊢
  by_cases hs : splitMetaNamespaceKey e.key = .ok (kns, kname)
  · rw [syncHandler_of_not_found hs hc] at h; cases h
    simp at hk
  have hne : ∀ ns name, splitMetaNamespaceKey e.key = .ok (ns, name) →
      (⟨kns, kname⟩ : ObjectKey) ≠ ⟨ns, name⟩ :=
    fun ns name he hk' => hs (by rw [he]; cases hk'; rfl)
  rw [syncHandler_records_of_ne h hne] at hk
  obtain ⟨e', hn, hs', hp⟩ := hr.backed _ hk hc
  exact ⟨e', hn, hs', hp.update_worker (by rw [hw]; rfl) (Controller.afterSync_workqueue _ _ _) fun (he' : e' = e) => hs (he' ▸ hs')⟩

/-- Without tombstones every step keeps records backed. -/
theorem RecordsBacked.step (hr : s.RecordsBacked) {a : Action W} (ha : a.isTombstone = false)
    (h : s.step a = some s') : s'.RecordsBacked := by
  rcases step_cases h with hf | ⟨p, _, rfl⟩ | ⟨k, p, tombstone, rfl, hp, rfl⟩ |
    ⟨w, e, now, attempts, r, -, hw, hs, rfl⟩
  · exact hr.of_frame (fun k => .inl (congrFun hf.cache k)) hf.records hf.pending
  · refine hr.of_frame (fun k => ?_) (fun _ => id) (fun _ => Pending.of_add rfl rfl)
    by_cases hk : k = p.meta.objectKey
    · subst hk; exact .inr ⟨p, Function.update_same _ _ _, rfl⟩
    · exact .inl (Function.update_noteq hk _ _)
  · cases ha; exact hr.delete hp
  · exact hr.sync hw hs

/-- A policy that names a workload and a queue service the registry does not support has
a record only while an event of its key is pending: a sync of such a policy fails at
the registry call or before it, or drops the record. -/
def ServiceChecked (s : Process W) : Prop :=
  ∀ k p, s.controller.workerPodAutoScalers k = some p →
    (p.spec.deploymentName ≠ "" ∨ p.spec.replicaSetName ≠ "") →
    p.spec.queueServiceName ∉ [SqsQueueService, BeanstalkQueueService] →
    (s.controller.queues.records k).isSome →
    ∃ e, splitMetaNamespaceKey e.key = .ok (k.ns, k.name) ∧ s.Pending e

/-- A sync that succeeds on a policy naming a workload went through the registry call,
which knew the queue service or dropped the record. -/
theorem sync_of_ok_named (hv : s.Valid) (hn : s.EventsNamed) {w : Fin W}
    {e : WokerPodAutoScalerEvent} {now : Int} {attempts : ℕ → UpdateAttempt} {r : SyncResult}
    (hw : s.workers w = .syncing e) (h : syncHandler s.controller now attempts e = .ok r)
    (herr : r.err = none) {k : ObjectKey} {p : WorkerPodAutoScaler}
    (hs : splitMetaNamespaceKey e.key = .ok (k.ns, k.name))
    (hp : s.controller.workerPodAutoScalers k = some p)
    (hwl : p.spec.deploymentName ≠ "" ∨ p.spec.replicaSetName ≠ "") :
    p.spec.queueServiceName ∈ [SqsQueueService, BeanstalkQueueService] ∨
      r.queues.records k = none := by
  obtain ⟨_, _, hq⟩ := syncHandler_registry_call h herr hs hp hwl
  have hname := hn e (.inr (.inl (hv.held w e (by rw [hw]; rfl))))
  rcases syncQueue_of_ok (by simpa [eventNames] using hname) hq with hk | hd
  · exact .inl hk
  · exact .inr (hd ▸ Queues.Delete_records_self)

theorem ServiceChecked.sync (hsc : s.ServiceChecked) (hv : s.Valid) (hn : s.EventsNamed)
    {w : Fin W} {e : WokerPodAutoScalerEvent} {now : Int} {attempts : ℕ → UpdateAttempt}
    {r : SyncResult} (hw : s.workers w = .syncing e)
    (h : syncHandler s.controller now attempts e = .ok r) :
    (⟨s.controller.afterSync e r, Function.update s.workers w (.synced e r.err)⟩ :
      Process W).ServiceChecked := by
  intro k p hp hwl hu hk
  simp only [Controller.afterSync_queues, Controller.afterSync_workerPodAutoScalers] at hp hk
  by_cases hs : splitMetaNamespaceKey e.key = .ok (k.ns, k.name)
  · cases herr : r.err with
    | some err => exact ⟨e, hs, .inr (.inr ⟨w, .inr ⟨err, by simp [herr]⟩⟩)⟩
    | none =>
      rcases sync_of_ok_named hv hn hw h herr hs hp hwl with hk' | hk'
      · exact absurd hk' hu
      · simp [hk'] at hk
  · have hne : ∀ ns name, splitMetaNamespaceKey e.key = .ok (ns, name) → k ≠ ⟨ns, name⟩ :=
      fun ns name he hk' => hs (by rw [he, hk'])
    obtain ⟨e', hs', hp'⟩ := hsc k p hp hwl hu (by rwa [syncHandler_records_of_ne h hne] at hk)
    exact ⟨e', hs', hp'.update_worker (by rw [hw]; rfl) (Controller.afterSync_workqueue _ _ _) fun (he' : e' = e) => hs (he' ▸ hs')⟩

/-- Every step keeps a reachable process's unsupported queue services unrecorded, once
their events are synced. -/
theorem ServiceChecked.step (hsc : s.ServiceChecked) (hv : s.Valid) (hn : s.EventsNamed)
    {a : Action W} (h : s.step a = some s') : s'.ServiceChecked := by
  rcases step_cases h with hf | ⟨p, eventName, rfl⟩ | ⟨k, p, tombstone, -, -, rfl⟩ |
    ⟨w, e, now, attempts, r, -, hw, hs, rfl⟩
  · intro k q hq hwl hu hk
    obtain ⟨e, he, hp⟩ := hsc k q (hf.cache ▸ hq) hwl hu (hf.records k hk)
    exact ⟨e, he, hf.pending e hp⟩
  · intro k q hq hwl hu hk
    by_cases hk' : k = p.meta.objectKey
    · subst hk'
      exact ⟨⟨p.meta.key, eventName⟩, splitMetaNamespaceKey_key p.meta,
        .inl (WorkQueue.mem_add_dirty.2 (.inl rfl))⟩
    · obtain ⟨e, he, hp⟩ := hsc k q (by simpa [hk'] using hq) hwl hu hk
      exact ⟨e, he, Pending.of_add rfl rfl hp⟩
  · intro k' q hq hwl hu hk
    by_cases hk' : k' = k
    · subst hk'; simp at hq
    · obtain ⟨e, he, hp⟩ := hsc k' q (by simpa [hk'] using hq) hwl hu hk
      exact ⟨e, he, Pending.of_add rfl rfl hp⟩
  · exact hsc.sync hv hn hw hs

end Process

theorem Reachable.recordsBacked {W : ℕ} {s : Process W} {allowed : Action W → Prop}
    (h : Reachable allowed s) (ht : ∀ a, allowed a → a.isTombstone = false) : s.RecordsBacked := by
  induction h with
  | init d δ => exact Process.recordsBacked_init W d δ
  | step a _ ha hs ih => exact ih.step (ht a ha) hs

theorem Reachable.serviceChecked {W : ℕ} {s : Process W} {allowed : Action W → Prop}
    (h : Reachable allowed s) : s.ServiceChecked := by
  induction h with
  | init => exact fun _ _ h => by cases h
  | step a hr _ hs ih => exact ih.step hr.valid hr.eventsNamed hs

/-- No event is lost: every run from a reachable state that ends quiescent syncs each
event pending at its start without error. -/
theorem Reachable.pending_synced_before_quiescent {W : ℕ} {s s' : Process W}
    (h : Reachable (fun _ => True) s) {as : List (Action W)} (hrun : s.run as = some s')
    (hq : s'.Quiescent) {e : WokerPodAutoScalerEvent} (hp : s.Pending e) : s.SyncsOk as e :=
  (hp.run hrun).resolve_left ((h.run (fun _ _ => trivial) hrun).valid.not_pending hq e)

theorem Reachable.pending_synced_before_quiescent_created :
    ∃ s : Process 1, Reachable (fun _ => True) s ∧
      s.Pending ⟨"ns/p", WokerPodAutoScalerEventAdd⟩ ∧
      s.SyncsOk [.get 0, .sync 0 0 (fun _ => ⟨true, none⟩), .finish 0]
        ⟨"ns/p", WokerPodAutoScalerEventAdd⟩ :=
  let h := (Reachable.init "10%" 0).run (fun _ _ => trivial)
    (show (Process.init 1 "10%" 0).run [.setDeployment ⟨"ns", "d"⟩ (some ⟨some 2, 2⟩),
      .create (samplePolicy none)] = some _ from rfl)
  let hp : Process.Pending _ _ := .inl (List.mem_singleton_self _)
  ⟨_, h, hp, h.pending_synced_before_quiescent
    (show Process.run _ [.get 0, .sync 0 0 (fun _ => ⟨true, none⟩), .finish 0] = some _ from rfl)
    ⟨rfl, rfl, rfl⟩ hp⟩

/-- Every record of a quiescent process whose key holds a policy that names a workload
belongs to a policy naming a queue service the registry supports. In a run whose deletes
all reach the handler with their object, every record of a quiescent process has its
policy in the cache. -/
theorem Reachable.quiescent_record_has_policy {W : ℕ} {s : Process W}
    {allowed : Action W → Prop} (h : Reachable allowed s) (hq : s.Quiescent)
    {k : ObjectKey} (hk : (s.controller.queues.records k).isSome) :
    (∀ p, s.controller.workerPodAutoScalers k = some p →
      p.spec.deploymentName ≠ "" ∨ p.spec.replicaSetName ≠ "" →
        p.spec.queueServiceName ∈ [SqsQueueService, BeanstalkQueueService]) ∧
    ((∀ a, allowed a → a.isTombstone = false) →
      ∃ p, s.controller.workerPodAutoScalers k = some p) := by
  refine ⟨fun p hc hwl => ?_, fun ht => ?_⟩
  · by_contra hu
    obtain ⟨e, -, hp⟩ := h.serviceChecked k p hc hwl hu hk
    exact h.valid.not_pending hq e hp
  · cases hc : s.controller.workerPodAutoScalers k with
    | none =>
      obtain ⟨e, -, -, hp⟩ := (h.recordsBacked ht).backed k hk hc
      exact absurd hp (h.valid.not_pending hq e)
    | some p => exact ⟨p, rfl⟩

theorem Reachable.quiescent_record_has_policy_synced :
    ∃ s : Process 1, Reachable (fun a : Action 1 => a.isTombstone = false) s ∧ s.Quiescent ∧
      (s.controller.queues.records ⟨"ns", "p"⟩).isSome ∧
      (∀ p, s.controller.workerPodAutoScalers ⟨"ns", "p"⟩ = some p →
        p.spec.deploymentName ≠ "" ∨ p.spec.replicaSetName ≠ "" →
          p.spec.queueServiceName ∈ [SqsQueueService, BeanstalkQueueService]) ∧
      ((∀ a : Action 1, a.isTombstone = false → a.isTombstone = false) →
        ∃ p, s.controller.workerPodAutoScalers ⟨"ns", "p"⟩ = some p) :=
  let h := (Reachable.init "10%" 0).run (by decide)
    (show (Process.init 1 "10%" 0).run [.setDeployment ⟨"ns", "d"⟩ (some ⟨some 2, 2⟩),
      .create (samplePolicy none), .get 0, .sync 0 0 (fun _ => ⟨true, none⟩), .finish 0] =
      some _ from rfl)
  ⟨_, h, ⟨rfl, rfl, rfl⟩, rfl, h.quiescent_record_has_policy ⟨rfl, rfl, rfl⟩ rfl⟩

/-- Four quiescent states against a record exactly for each policy with an existing
workload and a known queue service: a policy re-created while its first add was still
queued has no record; a policy updated to name no workload keeps its record; so does a
policy whose deployment `d` was deleted; and a delete seen as a tombstone leaves the
record of a deleted policy. -/
theorem quiescent_records_disagree_with_policies :
    (∃ s : Process 1, Reachable (fun a : Action 1 => a.isTombstone = false) s ∧ s.Quiescent ∧
      s.controller.workerPodAutoScalers ⟨"ns", "p"⟩ = some (samplePolicy none) ∧
      s.controller.deployments ⟨"ns", "d"⟩ = some ⟨some 2, 2⟩ ∧
      (samplePolicy none).spec.queueServiceName ∈ [SqsQueueService, BeanstalkQueueService] ∧
      s.controller.queues.records ⟨"ns", "p"⟩ = none) ∧
    (∃ s : Process 1, Reachable (fun a : Action 1 => a.isTombstone = false) s ∧ s.Quiescent ∧
      (s.controller.queues.records ⟨"ns", "p"⟩).isSome ∧
      (s.controller.workerPodAutoScalers ⟨"ns", "p"⟩).map
        (fun p => (p.spec.deploymentName, p.spec.replicaSetName)) = some ("", "")) ∧
    (∃ s : Process 1, Reachable (fun a : Action 1 => a.isTombstone = false) s ∧ s.Quiescent ∧
      (s.controller.queues.records ⟨"ns", "p"⟩).isSome ∧
      s.controller.workerPodAutoScalers ⟨"ns", "p"⟩ = some (samplePolicy none) ∧
      (samplePolicy none).spec.deploymentName = "d" ∧
      s.controller.deployments ⟨"ns", "d"⟩ = none) ∧
    (∃ s : Process 1, Reachable (fun _ => True) s ∧ s.Quiescent ∧
      (s.controller.queues.records ⟨"ns", "p"⟩).isSome ∧
      s.controller.workerPodAutoScalers ⟨"ns", "p"⟩ = none) :=
  ⟨⟨_, (Reachable.init "10%" 0).run (by decide)
      (show (Process.init 1 "10%" 0).run [.setDeployment ⟨"ns", "d"⟩ (some ⟨some 2, 2⟩),
        .create (samplePolicy none), .delete ⟨"ns", "p"⟩ false, .create (samplePolicy none),
        .get 0, .sync 0 0 (fun _ => ⟨true, none⟩), .finish 0,
        .get 0, .sync 0 0 (fun _ => ⟨true, none⟩), .finish 0] = some _ from rfl),
      ⟨rfl, rfl, rfl⟩, rfl, rfl, by decide, rfl⟩,
    ⟨_, (Reachable.init "10%" 0).run (by decide)
      (show (Process.init 1 "10%" 0).run [.setDeployment ⟨"ns", "d"⟩ (some ⟨some 2, 2⟩),
        .create (samplePolicy none), .get 0, .sync 0 0 (fun _ => ⟨true, none⟩), .finish 0,
        .update { samplePolicy none with
          spec := { (samplePolicy none).spec with deploymentName := "" } },
        .get 0, .sync 0 0 (fun _ => ⟨true, none⟩), .finish 0] = some _ from rfl),
      ⟨rfl, rfl, rfl⟩, rfl, rfl⟩,
    ⟨_, (Reachable.init "10%" 0).run (by decide)
      (show (Process.init 1 "10%" 0).run [.setDeployment ⟨"ns", "d"⟩ (some ⟨some 2, 2⟩),
        .create (samplePolicy none), .get 0, .sync 0 0 (fun _ => ⟨true, none⟩), .finish 0,
        .setDeployment ⟨"ns", "d"⟩ none] = some _ from rfl),
      ⟨rfl, rfl, rfl⟩, rfl, rfl, rfl, rfl⟩,
    ⟨_, (Reachable.init "10%" 0).run (fun _ _ => trivial)
      (show (Process.init 1 "10%" 0).run [.setDeployment ⟨"ns", "d"⟩ (some ⟨some 2, 2⟩),
        .create (samplePolicy none), .get 0, .sync 0 0 (fun _ => ⟨true, none⟩), .finish 0,
        .delete ⟨"ns", "p"⟩ true, .get 0, .sync 0 0 (fun _ => ⟨true, none⟩), .finish 0] =
        some _ from rfl),
      ⟨rfl, rfl, rfl⟩, rfl, rfl⟩⟩

end Wpa
