import Wpa.Controller.Phases

/-! # Fresh registry records

A policy change enqueues an event of its key, and the queue keeps that event pending until
a sync of it has ended without error. A sync of a policy that names a workload passes the
queue URI and service of the policy it read to `Queues.Add`, which keeps a record started
with them or starts a new one, or, for a delete event, drops the record; polls refresh a
record's counters but not what it was started with.

A worker's reads can be stale by its registry call, and another worker's registry call for
the same key can replace the record before the first one decides. Neither happens when no
worker gets an event while another holds one of the same key, as with a single worker: a
change of the policy under a worker then queues an event of the key again, and no other
worker touches the key's record. Under that scheduling a worker decides on a record started
for the queue of the policy it read, and once the process is quiescent the record of a
policy that names a workload polls the queue the policy names now, through the service it
names now. Two workers syncing one key can leave a record on a queue its policy has left.
-/

namespace Wpa

theorem ObjectKey.eq_of_split {key : String} {k l : ObjectKey}
    (h : splitMetaNamespaceKey key = .ok (k.ns, k.name))
    (h' : splitMetaNamespaceKey key = .ok (l.ns, l.name)) : k = l := by
  rw [h] at h'; cases k; cases l; cases h'; rfl

theorem Progress.key_eq_of_snapshot {p : Progress} {k : ObjectKey} {wpa : WorkerPodAutoScaler}
    (h : p.snapshot = some (k, wpa)) : p.key = some k := by
  cases p with
  | start => cases h
  | read o => cases o <;> cases h; rfl
  | registered => cases h; rfl

/-- What a worker's reads record: the key of its event and, for a policy found, the policy
in the cache under that key. -/
theorem syncRead_progress {c : Controller} {e : WokerPodAutoScalerEvent} {o : SyncRead}
    (ho : syncRead c e = .ok o) :
    (∀ k, (Progress.read o).key = some k → splitMetaNamespaceKey e.key = .ok (k.ns, k.name)) ∧
      ∀ k wpa, (Progress.read o).snapshot = some (k, wpa) →
        c.workerPodAutoScalers k = some wpa := by
  refine ⟨fun k h => ?_, fun k wpa h => ?_⟩ <;>
    rcases syncRead_cases ho with ⟨rfl, -⟩ | ⟨_, rfl⟩ | ⟨_, _, hs, -, rfl⟩ |
      ⟨_, _, _, _, _, hs, hp, rfl⟩ <;>
    cases h <;> assumption

namespace Process

variable {W : ℕ} {s s' : Process W}

/-- A record of a key whose policy names a workload was started for the policy's current
queue URI and queue service, unless an event of the key is pending. -/
def RecordsFresh (s : Process W) : Prop :=
  ∀ k p r, s.controller.workerPodAutoScalers k = some p →
    (p.spec.deploymentName ≠ "" ∨ p.spec.replicaSetName ≠ "") →
    s.controller.queues.records k = some r →
    (r.uri = p.spec.queueURI ∧ r.serviceName = p.spec.queueServiceName) ∨
      ∃ e, splitMetaNamespaceKey e.key = .ok (k.ns, k.name) ∧ s.Pending e

theorem recordsFresh_init (W : ℕ) (d : String) (δ : Int) : (init W d δ).RecordsFresh :=
  fun _ _ _ h => (by cases h)

/-- Only a poll or a sync changes the registry. -/
theorem step_queues {a : Action W} (h : s.step a = some s') :
    s'.controller.queues = s.controller.queues ∨
      (∃ key m x i, s'.controller.queues = s.controller.queues.poll key m x i) ∨
      ∃ w now attempts, a = .sync w now attempts := by
  cases a with
  | create | update | delete | get | finish =>
    simp only [Process.step] at h; split at h <;> cases h; exact .inl rfl
  | setDeployment | setReplicaSet => cases h; exact .inl rfl
  | poll key m x i =>
    simp only [Process.step] at h; split at h <;> cases h; exact .inr (.inl ⟨key, m, x, i, rfl⟩)
  | sync w now attempts => exact .inr (.inr ⟨w, now, attempts, rfl⟩)
  | ready =>
    simp only [Process.step] at h; split_ifs at h; cases h; exact .inl rfl

/-- A frame step that keeps what each record was started with keeps records fresh. -/
theorem RecordsFresh.of_frame (hf : s.RecordsFresh) (hfr : Frame s s')
    (hrec : ∀ k r', s'.controller.queues.records k = some r' →
      ∃ r, s.controller.queues.records k = some r ∧ r.uri = r'.uri ∧
        r.serviceName = r'.serviceName) : s'.RecordsFresh := by
  intro k p r' hp hwl hr'
  obtain ⟨r, hr, hu, hsn⟩ := hrec k r' hr'
  rcases hf k p r (hfr.cache ▸ hp) hwl hr with ⟨hu', hsn'⟩ | ⟨e, hs, hpe⟩
  · exact .inl ⟨hu ▸ hu', hsn ▸ hsn'⟩
  · exact .inr ⟨e, hs, hfr.pending e hpe⟩

/-- An informer notification keeps records fresh: it changes at most the policy of the key
it queues an event for. -/
theorem RecordsFresh.enqueue (hf : s.RecordsFresh) {k₀ : ObjectKey} {v : Option WorkerPodAutoScaler}
    {eventName : String} {obj : InformerObject}
    (hkey : ∀ p, v = some p → splitMetaNamespaceKey (getKeyForWorkerPodAutoScaler obj) =
      .ok (k₀.ns, k₀.name)) :
    (s.withController ((s.controller.setPolicy k₀ v).enqueue eventName obj)).RecordsFresh := by
  intro k p r hp hwl hr
  by_cases hk : k = k₀
  · subst hk
    simp only [withController_controller, Controller.enqueue_workerPodAutoScalers,
      Controller.setPolicy_workerPodAutoScalers, Function.update_same] at hp
    exact .inr ⟨_, hkey p hp, .inl (WorkQueue.mem_add_dirty.2 (.inl rfl))⟩
  · rcases hf k p r (by simpa [hk] using hp) hwl hr with hm | ⟨e, hs, hpe⟩
    · exact .inl hm
    · exact .inr ⟨e, hs, hpe.of_add rfl rfl⟩

/-- Every step but a sync keeps records fresh. -/
theorem RecordsFresh.step (hf : s.RecordsFresh) {a : Action W} (h : s.step a = some s')
    (hsync : ∀ w now attempts, a ≠ .sync w now attempts) : s'.RecordsFresh := by
  rcases step_cases h with hfr | ⟨p, _, rfl⟩ | ⟨k, p, tombstone, -, -, rfl⟩ |
    ⟨w, _, now, attempts, _, rfl, -⟩
  · rcases step_queues h with hq | ⟨key, m, x, i, hq⟩ | ⟨w, now, attempts, rfl⟩
    · exact hf.of_frame hfr fun k r' hr => ⟨r', hq ▸ hr, rfl, rfl⟩
    · exact hf.of_frame hfr fun k r' hr => Queues.poll_records_eq_some (hq ▸ hr)
    · exact absurd rfl (hsync w now attempts)
  · exact hf.enqueue fun q hq => by cases hq; exact splitMetaNamespaceKey_key _
  · exact hf.enqueue fun _ hq => by cases hq
  · exact absurd rfl (hsync w now attempts)

/-- An event of the key waits in the queue, dirty or backing off. -/
def Queued (s : Process W) (k : ObjectKey) : Prop :=
  ∃ e, splitMetaNamespaceKey e.key = .ok (k.ns, k.name) ∧
    (e ∈ s.controller.workqueue.dirty ∨ e ∈ s.controller.workqueue.waiting)

variable {k : ObjectKey}

theorem Queued.pending (h : s.Queued k) :
    ∃ e, splitMetaNamespaceKey e.key = .ok (k.ns, k.name) ∧ s.Pending e :=
  let ⟨e, hs, he⟩ := h; ⟨e, hs, he.imp_right .inl⟩

theorem Queued.of_workqueue (hq : s'.controller.workqueue = s.controller.workqueue)
    (h : s.Queued k) : s'.Queued k :=
  let ⟨e, hs, he⟩ := h; ⟨e, hs, hq ▸ he⟩

theorem Queued.of_add {x : WokerPodAutoScalerEvent}
    (hq : s'.controller.workqueue = s.controller.workqueue.add x) (h : s.Queued k) : s'.Queued k :=
  let ⟨e, hs, he⟩ := h
  ⟨e, hs, hq ▸ he.imp (fun h => WorkQueue.mem_add_dirty.2 (.inr h)) fun h => by
    rwa [WorkQueue.add_waiting]⟩

/-- A queued event stays queued until a worker gets it. -/
theorem Queued.step {a : Action W} (h : s.step a = some s') (hk : s.Queued k)
    (hget : ∀ w e q, a = .get w → s.controller.workqueue.get = some (e, q) →
      splitMetaNamespaceKey e.key ≠ .ok (k.ns, k.name)) : s'.Queued k := by
  cases a with
  | create | update | delete =>
    simp only [Process.step] at h; split at h <;> cases h; exact hk.of_add rfl
  | setDeployment | setReplicaSet => cases h; exact hk
  | poll => simp only [Process.step] at h; split at h <;> cases h; exact hk
  | get w =>
    simp only [Process.step] at h; split at h <;> cases h
    rename_i e q _ hg
    obtain ⟨x, hx, hm⟩ := hk
    have hxe : x ≠ e := fun hxe => hget w e q rfl hg (hxe ▸ hx)
    obtain ⟨rest, -, rfl⟩ := WorkQueue.get_eq_some.1 hg
    exact ⟨x, hx, hm.imp_left (List.mem_erase_of_ne hxe).2⟩
  | sync =>
    simp only [Process.step] at h; split at h <;> [split at h; cases h] <;> cases h
    exact hk.of_workqueue (Controller.afterSync_workqueue _ _ _)
  | finish w =>
    simp only [Process.step] at h; split at h <;> cases h
    obtain ⟨x, hx, hm⟩ := hk
    refine ⟨x, hx, ?_⟩
    dsimp only [withWorkqueue]
    split_ifs <;> simp only [WorkQueue.done_dirty, WorkQueue.done_waiting,
      WorkQueue.addRateLimited_dirty, WorkQueue.addRateLimited_waiting, List.mem_insert_iff] <;>
      tauto
  | ready e =>
    simp only [Process.step] at h; split_ifs at h; cases h
    obtain ⟨x, hx, hm⟩ := hk
    refine ⟨x, hx, ?_⟩
    by_cases hxe : x = e
    · exact .inl (WorkQueue.mem_ready_dirty.2 (.inl hxe))
    · exact hm.imp (fun h => WorkQueue.mem_ready_dirty.2 (.inr h)) fun h => by
        simpa [withWorkqueue] using (List.mem_erase_of_ne hxe).2 h

/-- A step other than a sync moves at most one worker: an idle one that gets the queue's
next event, or one that hands its event back. -/
theorem step_worker {a : Action W} (h : s.step a = some s')
    (hsync : ∀ w now attempts, a ≠ .sync w now attempts) (v : Fin W) :
    s'.workers v = s.workers v ∨
      (s.workers v = .idle ∧ ∃ e q, a = .get v ∧ s.controller.workqueue.get = some (e, q) ∧
        s'.workers v = .syncing e) ∨
      ((∃ e err, s.workers v = .synced e err) ∧ s'.workers v = .idle) := by
  cases a with
  | create | update | delete | poll =>
    simp only [Process.step] at h; split at h <;> cases h; exact .inl rfl
  | setDeployment | setReplicaSet => cases h; exact .inl rfl
  | ready => simp only [Process.step] at h; split_ifs at h; cases h; exact .inl rfl
  | sync w now attempts => exact absurd rfl (hsync w now attempts)
  | get w =>
    simp only [Process.step] at h; split at h <;> cases h
    rename_i e q hw hg
    by_cases hvw : v = w
    · subst hvw; exact .inr (.inl ⟨hw, e, q, rfl, hg, Function.update_same _ _ _⟩)
    · exact .inl (Function.update_noteq hvw _ _)
  | finish w =>
    simp only [Process.step] at h; split at h <;> cases h
    rename_i e err hw
    by_cases hvw : v = w
    · subst hvw; exact .inr (.inr ⟨⟨e, err, hw⟩, Function.update_same _ _ _⟩)
    · exact .inl (Function.update_noteq hvw _ _)

theorem idle_of_get {w : Fin W} (h : s.step (.get w) = some s') : s.workers w = .idle := by
  simp only [Process.step] at h; split at h <;> cases h; assumption

section NoSync

variable {a : Action W} (h : s.step a = some s')
  (hsync : ∀ w now attempts, a ≠ .sync w now attempts)
  {v : Fin W} {e : WokerPodAutoScalerEvent}
include h hsync

theorem syncing_step (hv : s.workers v = .syncing e) : s'.workers v = .syncing e := by
  rcases step_worker h hsync v with hw | ⟨hi, -⟩ | ⟨⟨_, _, hs⟩, -⟩
  · rwa [hw]
  · rw [hv] at hi; cases hi
  · rw [hv] at hs; cases hs

theorem syncing_of_step (hv : s'.workers v = .syncing e) :
    s.workers v = .syncing e ∨ s.workers v = .idle := by
  rcases step_worker h hsync v with hw | ⟨hi, -⟩ | ⟨-, hi⟩
  · exact .inl (hw ▸ hv)
  · exact .inr hi
  · rw [hv] at hi; cases hi

/-- A worker holds an event after the step that it held before, or that it got. -/
theorem event_step (hv : (s'.workers v).event? = some e) :
    (s.workers v).event? = some e ∨
      ∃ q, a = .get v ∧ s.controller.workqueue.get = some (e, q) := by
  rcases step_worker h hsync v with hw | ⟨-, e', q, ha, hg, hw⟩ | ⟨-, hw⟩
  · exact .inl (hw ▸ hv)
  · rw [hw] at hv; cases hv; exact .inr ⟨q, ha, hg⟩
  · rw [hw] at hv; cases hv

/-- What a step leaves of "every policy of key `k` satisfies `P`, or an event of `k` is
queued": a create or update of `k` queues an event of `k`, a delete leaves no policy, and
only a get takes a queued event. -/
theorem cached_or_queued_step {P : WorkerPodAutoScaler → Prop}
    (hget : ∀ w e q, a = .get w → s.controller.workqueue.get = some (e, q) →
      splitMetaNamespaceKey e.key ≠ .ok (k.ns, k.name))
    (hk : (∀ p, s.controller.workerPodAutoScalers k = some p → P p) ∨ s.Queued k) :
    (∀ p, s'.controller.workerPodAutoScalers k = some p → P p) ∨ s'.Queued k := by
  have hq : s.Queued k → s'.Queued k := fun hq => hq.step h hget
  rcases step_cases h with hfr | ⟨p, _, rfl⟩ | ⟨k₀, p, tombstone, -, -, rfl⟩ |
    ⟨w, _, now, attempts, _, rfl, -⟩
  · exact hk.imp (fun hp p hp' => hp p (hfr.cache ▸ hp')) hq
  · by_cases hk₀ : k = p.meta.objectKey
    · subst hk₀
      exact .inr ⟨⟨p.meta.key, _⟩, splitMetaNamespaceKey_key p.meta,
        .inl (WorkQueue.mem_add_dirty.2 (.inl rfl))⟩
    · exact hk.imp (fun hp p' hp' => hp p' (by simpa [hk₀] using hp')) fun hk => hk.of_add rfl
  · by_cases hk₀ : k = k₀
    · subst hk₀; exact .inl fun p' hp' => by simp at hp'
    · exact hk.imp (fun hp p' hp' => hp p' (by simpa [hk₀] using hp')) fun hk => hk.of_add rfl
  · exact absurd rfl (hsync w now attempts)

end NoSync

end Process

namespace Phased

variable {W : ℕ} {s s' : Phased W}

/-- A worker gets an event only while no other worker holds one of the same key: a
scheduling under which the syncs of one key never overlap. -/
def KeySerial (s : Phased W) : Action W → Prop
  | .atomic (.get w) => ∀ e q, s.process.controller.workqueue.get = some (e, q) →
      ∀ v e' ns name, v ≠ w → (s.process.workers v).event? = some e' →
        splitMetaNamespaceKey e'.key = .ok (ns, name) → splitMetaNamespaceKey e.key ≠ .ok (ns, name)
  | _ => True

/-- A single worker is key-serial. -/
theorem keySerial_one (s : Phased 1) (a : Action 1) : KeySerial s a := by
  cases a with
  | atomic b =>
    cases b with
    | get w => exact fun _ _ _ v _ _ _ hv => absurd (Subsingleton.elim v w) hv
    | _ => trivial
  | _ => trivial

/-- No two workers hold events of one key. -/
def Serial (s : Phased W) : Prop :=
  ∀ w v e e' ns name, w ≠ v → (s.process.workers w).event? = some e →
    (s.process.workers v).event? = some e' → splitMetaNamespaceKey e.key = .ok (ns, name) →
    splitMetaNamespaceKey e'.key ≠ .ok (ns, name)

/-- What worker `w`'s progress through a sync tells about the process: it reads the key of
its event; the policy it read names the queue and service of the policy in the cache, unless
an event of the key has been queued since; and once it has made its registry call, the
record of its key was started for the policy it read. -/
structure Tracks (s : Phased W) (w : Fin W) : Prop where
  idle : (∀ e, s.process.workers w ≠ .syncing e) → s.progress w = .start
  keyed : ∀ e k, s.process.workers w = .syncing e → (s.progress w).key = some k →
    splitMetaNamespaceKey e.key = .ok (k.ns, k.name)
  read : ∀ k wpa, (s.progress w).snapshot = some (k, wpa) →
    (∀ p, s.process.controller.workerPodAutoScalers k = some p →
      p.spec.queueURI = wpa.spec.queueURI ∧ p.spec.queueServiceName = wpa.spec.queueServiceName) ∨
    s.process.Queued k
  registered : ∀ ns name wpa cur avail, s.progress w = .registered ns name wpa cur avail →
    ∀ r, s.process.controller.queues.records ⟨ns, name⟩ = some r →
      r.uri = wpa.spec.queueURI ∧ r.serviceName = wpa.spec.queueServiceName

/-- What holds along every key-serial phased run. -/
structure Inv (s : Phased W) : Prop where
  serial : s.Serial
  tracks : ∀ w, s.Tracks w
  fresh : s.process.RecordsFresh

theorem inv_init (W : ℕ) (d : String) (δ : Int) :
    (⟨Process.init W d δ, fun _ => .start⟩ : Phased W).Inv where
  serial _ _ _ _ _ _ _ h := by cases h
  tracks _ := ⟨fun _ => rfl, fun _ _ _ h => (by cases h), fun _ _ h => (by cases h),
    fun _ _ _ _ _ h => (by cases h)⟩
  fresh := Process.recordsFresh_init W d δ

theorem Tracks.syncing {w : Fin W} (ht : s.Tracks w) (h : s.progress w ≠ .start) :
    ∃ e, s.process.workers w = .syncing e := by
  by_contra hne
  exact h (ht.idle fun e he => hne ⟨e, he⟩)

/-- A worker's tracking carries over to a state with its worker, progress, cache and queue,
where the record of its registered key stays. -/
theorem Tracks.transfer {v : Fin W} (ht : s.Tracks v)
    (hw : s'.process.workers v = s.process.workers v) (hp : s'.progress v = s.progress v)
    (hc : s'.process.controller.workerPodAutoScalers = s.process.controller.workerPodAutoScalers)
    (hq : s'.process.controller.workqueue = s.process.controller.workqueue)
    (hr : ∀ ns name wpa cur avail, s.progress v = .registered ns name wpa cur avail →
      s'.process.controller.queues.records ⟨ns, name⟩ =
        s.process.controller.queues.records ⟨ns, name⟩) :
    s'.Tracks v := by
  refine ⟨?_, ?_, ?_, ?_⟩ <;> simp only [hw, hp, hc]
  · exact ht.idle
  · exact ht.keyed
  · exact fun k wpa hk => (ht.read k wpa hk).imp_right (Process.Queued.of_workqueue hq)
  · exact fun ns name wpa cur avail h r hr' =>
      ht.registered ns name wpa cur avail h r (by rwa [← hr _ _ _ _ _ h])

/-- The key a worker reads is not the key of another worker's event. -/
theorem Inv.key_ne (hi : s.Inv) {w v : Fin W} (hwv : w ≠ v) {e : WokerPodAutoScalerEvent}
    (hw : (s.process.workers w).event? = some e) {k : ObjectKey}
    (hk : (s.progress v).key = some k) : splitMetaNamespaceKey e.key ≠ .ok (k.ns, k.name) := by
  obtain ⟨e', he'⟩ := (hi.tracks v).syncing fun h => by simp [h, Progress.key] at hk
  exact fun hs => hi.serial w v e e' _ _ hwv hw (by rw [he']; rfl) hs
    ((hi.tracks v).keyed e' k he' hk)

/-- An atomic step other than a sync keeps the invariant, under key-serial scheduling. -/
theorem Inv.atomic (hi : s.Inv) {b : Wpa.Action W} (ha : KeySerial s (.atomic b))
    {p : Process W} (hb : s.process.step b = some p)
    (hsync : ∀ w now attempts, b ≠ .sync w now attempts) : (⟨p, s.progress⟩ : Phased W).Inv := by
  -- the event a worker gets is of no key another worker holds
  have hget : ∀ v e' (k : ObjectKey), (s.process.workers v).event? = some e' →
      splitMetaNamespaceKey e'.key = .ok (k.ns, k.name) → ∀ w e q, b = .get w →
        s.process.controller.workqueue.get = some (e, q) →
        splitMetaNamespaceKey e.key ≠ .ok (k.ns, k.name) := by
    rintro v e' k hv hs w e q rfl hg
    have hvw : v ≠ w := by rintro rfl; rw [Process.idle_of_get hb] at hv; cases hv
    exact ha e q hg v e' k.ns k.name hvw hv hs
  refine ⟨?serial, fun v => ⟨?idle, ?keyed, ?read, ?registered⟩, hi.fresh.step hb hsync⟩
  case serial =>
    intro w v e e' ns name hwv he he' hs
    rcases Process.event_step hb hsync he with he | ⟨q, rfl, hg⟩ <;>
      rcases Process.event_step hb hsync he' with he' | ⟨q', hb', hg'⟩
    · exact hi.serial w v e e' ns name hwv he he' hs
    · exact hget w e ⟨ns, name⟩ he hs v e' q' hb' hg'
    · exact fun hs' => hget v e' ⟨ns, name⟩ he' hs' w e q rfl hg hs
    · cases hb'; exact absurd rfl hwv
  case idle =>
    exact fun hn => (hi.tracks v).idle fun e he => hn e (Process.syncing_step hb hsync he)
  case keyed =>
    intro e k he hk
    rcases Process.syncing_of_step hb hsync he with he | he
    · exact (hi.tracks v).keyed e k he hk
    · rw [(hi.tracks v).idle fun e' h => Worker.noConfusion (he.symm.trans h)] at hk; cases hk
  case read =>
    intro k wpa hk
    obtain ⟨e, he⟩ := (hi.tracks v).syncing fun h => by simp [h, Progress.snapshot] at hk
    have hs := (hi.tracks v).keyed e k he (Progress.key_eq_of_snapshot hk)
    exact Process.cached_or_queued_step hb hsync (hget v e k (by rw [he]; rfl) hs)
      ((hi.tracks v).read k wpa hk)
  case registered =>
    intro ns name wpa cur avail hp r hr
    rcases Process.step_queues hb with hq | ⟨key, m, x, i, hq⟩ | ⟨w, now, attempts, rfl⟩
    · exact (hi.tracks v).registered ns name wpa cur avail hp r (hq ▸ hr)
    · obtain ⟨r', hr', hu, hsn⟩ := Queues.poll_records_eq_some (hq ▸ hr)
      obtain ⟨hu', hsn'⟩ := (hi.tracks v).registered ns name wpa cur avail hp r' hr'
      exact ⟨hu ▸ hu', hsn ▸ hsn'⟩
    · exact absurd rfl (hsync w now attempts)

section EndSync

variable {w : Fin W} {e : WokerPodAutoScalerEvent} {c : Controller} {err : Option String}

@[simp] theorem endSync_progress_self : (s.endSync w e c err).progress w = .start :=
  Function.update_same _ _ _

@[simp] theorem endSync_controller : (s.endSync w e c err).process.controller = c := rfl

/-- A sync that ends in an error keeps every pending event pending. -/
theorem pending_endSync_some (hw : s.process.workers w = .syncing e)
    (hq : c.workqueue = s.process.controller.workqueue) {e' : WokerPodAutoScalerEvent}
    (hp : s.process.Pending e') {err' : String} :
    (s.endSync w e c (some err')).process.Pending e' := by
  by_cases he : e' = e
  · subst he; exact .inr (.inr ⟨w, .inr ⟨err', Function.update_same _ _ _⟩⟩)
  · exact hp.update_worker (by rw [hw]; rfl) hq he

/-- Ending a sync of `e` keeps records fresh at every key but `e`'s when the cache, the queue
and the records of those keys stay; `hk` says why they stay fresh at `e`'s key. -/
theorem fresh_endSync (hf : s.process.RecordsFresh) (hw : s.process.workers w = .syncing e)
    (hc : c.workerPodAutoScalers = s.process.controller.workerPodAutoScalers)
    (hq : c.workqueue = s.process.controller.workqueue)
    (hr : ∀ k, splitMetaNamespaceKey e.key ≠ .ok (k.ns, k.name) →
      c.queues.records k = s.process.controller.queues.records k)
    (hk : ∀ k p r, splitMetaNamespaceKey e.key = .ok (k.ns, k.name) →
      c.workerPodAutoScalers k = some p →
      (p.spec.deploymentName ≠ "" ∨ p.spec.replicaSetName ≠ "") →
      c.queues.records k = some r →
      (r.uri = p.spec.queueURI ∧ r.serviceName = p.spec.queueServiceName) ∨
        ∃ e', splitMetaNamespaceKey e'.key = .ok (k.ns, k.name) ∧
          (s.endSync w e c err).process.Pending e') :
    (s.endSync w e c err).process.RecordsFresh := by
  intro k p r hp hwl hr'
  by_cases hs : splitMetaNamespaceKey e.key = .ok (k.ns, k.name)
  · exact hk k p r hs hp hwl hr'
  · rcases hf k p r (hc ▸ hp) hwl (hr k hs ▸ hr') with hm | ⟨e', hs', hpe⟩
    · exact .inl hm
    · exact .inr ⟨e', hs', hpe.update_worker (by rw [hw]; rfl) hq
        fun (he : e' = e) => hs (he ▸ hs')⟩

/-- Ending worker `w`'s sync of `e` keeps the invariant when the cache and the queue stay,
records change only at `e`'s key, and records stay fresh. -/
theorem Inv.endSync (hi : s.Inv) (hw : s.process.workers w = .syncing e)
    (hc : c.workerPodAutoScalers = s.process.controller.workerPodAutoScalers)
    (hq : c.workqueue = s.process.controller.workqueue)
    (hr : ∀ k, splitMetaNamespaceKey e.key ≠ .ok (k.ns, k.name) →
      c.queues.records k = s.process.controller.queues.records k)
    (hf : (s.endSync w e c err).process.RecordsFresh) : (s.endSync w e c err).Inv where
  serial u v e₁ e₂ ns name huv h₁ h₂ := by
    rw [endSync_event hw] at h₁ h₂; exact hi.serial u v e₁ e₂ ns name huv h₁ h₂
  tracks v := by
    by_cases hvw : v = w
    · subst hvw
      exact ⟨fun _ => endSync_progress_self, fun _ _ _ h => by simp [Progress.key] at h,
        fun _ _ h => by simp [Progress.snapshot] at h, fun _ _ _ _ _ h => by simp at h⟩
    · exact (hi.tracks v).transfer (Function.update_noteq hvw _ _) (Function.update_noteq hvw _ _)
        hc hq fun ns name _ _ _ hp =>
          hr _ (hi.key_ne (Ne.symm hvw) (by rw [hw]; rfl) (by rw [hp]; rfl))
  fresh := hf

/-- A sync that ends in an error where it read or made its registry call keeps the
invariant. -/
theorem Inv.endSync_error (hi : s.Inv) (hw : s.process.workers w = .syncing e) (err : String) :
    (s.endSync w e s.process.controller (some err)).Inv :=
  hi.endSync hw rfl rfl (fun _ _ => rfl) (fresh_endSync hi.fresh hw rfl rfl (fun _ _ => rfl)
    fun k p r _ hp hwl hr => (hi.fresh k p r hp hwl hr).imp_right
      fun ⟨e', hs, hpe⟩ => ⟨e', hs, pending_endSync_some hw rfl hpe⟩)

/-- A sync of a policy that names no workload ends at its reads and keeps the invariant. -/
theorem Inv.read_done (hi : s.Inv) (hw : s.process.workers w = .syncing e)
    (ho : syncRead s.process.controller e = .ok (.done none)) :
    (s.endSync w e s.process.controller none).Inv := by
  refine hi.endSync hw rfl rfl (fun _ _ => rfl) (fresh_endSync hi.fresh hw rfl rfl (fun _ _ => rfl)
    fun k p r hs hp hwl _ => ?_)
  rcases syncRead_cases ho with ⟨-, hnw⟩ | ⟨_, h⟩ | ⟨_, _, _, _, h⟩ | ⟨_, _, _, _, _, _, _, h⟩
  · obtain ⟨wpa, hwpa, hd, hrs⟩ := hnw k.ns k.name hs
    obtain rfl : p = wpa := Option.some.inj (hp.symm.trans hwpa)
    exact hwl.elim (absurd hd) (absurd hrs)
  all_goals cases h

/-- A worker's reads of the caches keep the invariant. -/
theorem Inv.read (hi : s.Inv) (hw : s.process.workers w = .syncing e) {o : SyncRead}
    (ho : syncRead s.process.controller e = .ok o) :
    ({ s with progress := Function.update s.progress w (.read o) } : Phased W).Inv := by
  obtain ⟨hkey, hsnap⟩ := syncRead_progress ho
  refine ⟨hi.serial, fun v => ?_, hi.fresh⟩
  by_cases hvw : v = w
  · subst hvw
    refine ⟨fun h => absurd hw (h e), fun e' k he' hk => ?_, fun k wpa hk => .inl fun p hp => ?_,
      fun _ _ _ _ _ h => by simp at h⟩
    · cases hw.symm.trans he'
      simp only [Function.update_same] at hk
      exact hkey k hk
    · simp only [Function.update_same] at hk
      obtain rfl := Option.some.inj (hp.symm.trans (hsnap k wpa hk))
      exact ⟨rfl, rfl⟩
  · exact (hi.tracks v).transfer rfl (Function.update_noteq hvw _ _) rfl rfl fun _ _ _ _ _ _ => rfl

/-- A worker's registry call for a policy gone from the cache drops the key's record and
keeps the invariant. -/
theorem Inv.gone (hi : s.Inv) (hw : s.process.workers w = .syncing e) {ns name : String}
    (hp : s.progress w = .read (.gone ns name)) :
    (s.endSync w e { s.process.controller with queues := s.process.controller.queues.Delete ns name }
      none).Inv := by
  have hkey := (hi.tracks w).keyed e ⟨ns, name⟩ hw (by rw [hp]; rfl)
  have hr : ∀ k, splitMetaNamespaceKey e.key ≠ .ok (k.ns, k.name) →
      (s.process.controller.queues.Delete ns name).records k = s.process.controller.queues.records k :=
    fun k hk => Queues.Delete_records_of_ne fun h => hk (by subst h; exact hkey)
  refine hi.endSync hw rfl rfl hr (fresh_endSync hi.fresh hw rfl rfl hr fun k p r hs _ _ hr' => ?_)
  obtain rfl := ObjectKey.eq_of_split hs (l := ⟨ns, name⟩) hkey
  simp at hr'

/-- A worker's registry call for the policy it found starts or keeps the key's record for
that policy's queue and keeps the invariant. -/
theorem Inv.register (hi : s.Inv) (hv : s.process.Valid) (hn : s.process.EventsNamed)
    (hw : s.process.workers w = .syncing e) {ns name : String} {wpa : WorkerPodAutoScaler}
    {cur avail : Int32} (hp : s.progress w = .read (.found ns name wpa cur avail)) {queues : Queues}
    (hq : syncQueue s.process.controller.queues e.name ns name wpa.spec cur
      (wpa.spec.secondsToProcessOneJob.getD 0) = .ok queues) :
    (⟨⟨{ s.process.controller with queues := queues }, s.process.workers⟩,
      Function.update s.progress w (.registered ns name wpa cur avail)⟩ : Phased W).Inv := by
  have hkey := (hi.tracks w).keyed e ⟨ns, name⟩ hw (by rw [hp]; rfl)
  have hother : ∀ k, k ≠ ⟨ns, name⟩ → queues.records k = s.process.controller.queues.records k :=
    fun k hk => syncQueue_records_of_ne hq hk
  refine ⟨hi.serial, fun v => ?_, fun k p r hp' hwl hr => ?_⟩
  · by_cases hvw : v = w
    · subst hvw
      have hname : e.name ∈ eventNames := hn e (.inr (.inl (hv.held v e (by rw [hw]; rfl))))
      refine ⟨fun h => absurd hw (h e), fun e' k he' hk => ?_, fun k wpa' hk => ?_,
        fun ns' name' wpa' cur' avail' h r hr => ?_⟩
      · cases hw.symm.trans he'
        simp only [Function.update_same, Progress.key] at hk
        cases hk; exact hkey
      · simp only [Function.update_same, Progress.snapshot] at hk
        cases hk
        exact (hi.tracks v).read _ _ (by rw [hp]; rfl)
      · simp only [Function.update_same, Progress.registered.injEq] at h
        obtain ⟨rfl, rfl, rfl, -, -⟩ := h
        exact syncQueue_records_self (by simpa [eventNames] using hname) hq hr
    · refine (hi.tracks v).transfer rfl (Function.update_noteq hvw _ _) rfl rfl
        fun ns' name' _ _ _ h => hother _ fun hk => ?_
      cases hk
      exact hi.key_ne (Ne.symm hvw) (by rw [hw]; rfl) (by rw [h]; rfl) hkey
  · by_cases hk : k = ⟨ns, name⟩
    · subst hk; exact .inr ⟨e, hkey, .inr (.inr ⟨w, .inl hw⟩)⟩
    · exact hi.fresh k p r hp' hwl (by rwa [← hother k hk])

/-- A worker's decision and writes keep the invariant: the record it decided on was started
for the policy it read, which names the queue of the cache's policy unless an event of the
key is queued. -/
theorem Inv.scale (hi : s.Inv) (hw : s.process.workers w = .syncing e) {ns name : String}
    {wpa : WorkerPodAutoScaler} {cur avail : Int32}
    (hp : s.progress w = .registered ns name wpa cur avail) {now : Int}
    {attempts : ℕ → UpdateAttempt} {r : SyncResult}
    (hsc : scaleWorkers s.process.controller now attempts s.process.controller.queues ns name
      wpa cur avail (wpa.spec.secondsToProcessOneJob.getD 0) = .ok r) :
    (s.endSync w e ({ s.process.controller with queues := r.queues }.writeScale wpa r.scaled)
      r.err).Inv := by
  have hkey := (hi.tracks w).keyed e ⟨ns, name⟩ hw (by rw [hp]; rfl)
  have hrq : r.queues = s.process.controller.queues := scaleWorkers_queues hsc
  refine hi.endSync hw (by simp) (by simp) (fun k _ => by simp [hrq])
    (fresh_endSync hi.fresh hw (by simp) (by simp) (fun k _ => by simp [hrq])
      fun k p rec hs hp' _ hrec => ?_)
  obtain rfl := ObjectKey.eq_of_split hs (l := ⟨ns, name⟩) hkey
  simp only [Controller.writeScale_workerPodAutoScalers, Controller.writeScale_queues,
    hrq] at hp' hrec
  obtain ⟨hu, hsn⟩ := (hi.tracks w).registered ns name wpa cur avail hp rec hrec
  rcases (hi.tracks w).read ⟨ns, name⟩ wpa (by rw [hp]; rfl) with hc | hq
  · obtain ⟨hu', hsn'⟩ := hc p hp'
    exact .inl ⟨hu.trans hu'.symm, hsn.trans hsn'.symm⟩
  · exact .inr (hq.of_workqueue (by simp)).pending

end EndSync

/-- Every step that key-serial scheduling allows keeps the invariant. -/
theorem Inv.step (hi : s.Inv) (hv : s.process.Valid) (hn : s.process.EventsNamed)
    {a : Action W} (ha : KeySerial s a) (h : s.step a = some s') : s'.Inv := by
  rcases step_cases h with ⟨b, rfl, hb, hp, hsync⟩ |
    ⟨w, e, o, -, hw, -, ho, ⟨err, rfl, rfl⟩ | ⟨-, rfl⟩⟩ | ⟨w, e, ns, name, -, hw, hp, rfl⟩ |
    ⟨w, e, ns, name, wpa, cur, avail, -, hw, hp, ⟨err, -, rfl⟩ | ⟨queues, hq, rfl⟩⟩ |
    ⟨w, e, ns, name, wpa, cur, avail, now, attempts, r, -, hw, hp, hsc, rfl⟩
  · obtain ⟨p, q⟩ := s'
    dsimp only at hb hp; subst hp
    exact hi.atomic ha hb hsync
  · cases err with
    | none => exact hi.read_done hw ho
    | some err => exact hi.endSync_error hw err
  · exact hi.read hw ho
  · exact hi.gone hw hp
  · exact hi.endSync_error hw err
  · exact hi.register hv hn hw hp hq
  · exact hi.scale hw hp hsc

end Phased

theorem Phased.Reachable.inv {W : ℕ} {s : Phased W} (h : Phased.Reachable Phased.KeySerial s) :
    s.Inv := by
  induction h with
  | init d δ => exact Phased.inv_init _ d δ
  | step a hr ha hs ih => exact ih.step hr.valid hr.eventsNamed ha hs

/-- Under key-serial scheduling, once the controller is quiescent the record of every policy
that names a workload polls the queue URI the policy names now, through the queue service
it names now: no poller is left on a queue the policy has been moved off. -/
theorem Phased.Reachable.quiescent_record_fresh {W : ℕ} {s : Phased W}
    (h : Phased.Reachable Phased.KeySerial s) (hq : s.process.Quiescent) {k : ObjectKey}
    {p : WorkerPodAutoScaler} {r : QueueSpec}
    (hp : s.process.controller.workerPodAutoScalers k = some p)
    (hwl : p.spec.deploymentName ≠ "" ∨ p.spec.replicaSetName ≠ "")
    (hr : s.process.controller.queues.records k = some r) :
    r.uri = p.spec.queueURI ∧ r.serviceName = p.spec.queueServiceName :=
  (h.inv.fresh k p r hp hwl hr).resolve_right fun ⟨e, _, he⟩ => h.valid.not_pending hq e he

/-- A policy moved to another queue, synced by one worker: once quiescent, its record polls
the new queue. -/
theorem Phased.Reachable.quiescent_record_fresh_moved :
    ∃ s : Phased 1, Phased.Reachable Phased.KeySerial s ∧ s.process.Quiescent ∧
      ∃ p r, s.process.controller.workerPodAutoScalers ⟨"ns", "p"⟩ = some p ∧
        (p.spec.deploymentName ≠ "" ∨ p.spec.replicaSetName ≠ "") ∧
        s.process.controller.queues.records ⟨"ns", "p"⟩ = some r ∧
        r.uri = "https://sqs/q2" ∧ r.uri = p.spec.queueURI ∧
        r.serviceName = p.spec.queueServiceName :=
  let h := (Phased.Reachable.init "10%" 0).run Phased.keySerial_one
    (show (⟨Process.init 1 "10%" 0, fun _ => .start⟩ : Phased 1).run
      [.atomic (.setDeployment ⟨"ns", "d"⟩ (some ⟨some 2, 2⟩)), .atomic (.create (samplePolicy none)),
        .atomic (.get 0), .read 0, .register 0, .scale 0 0 (fun _ => ⟨true, none⟩),
        .atomic (.finish 0), .atomic (.update sampleMovedPolicy), .atomic (.get 0), .read 0,
        .register 0, .scale 0 0 (fun _ => ⟨true, none⟩), .atomic (.finish 0)] = some _ from rfl)
  ⟨_, h, ⟨rfl, rfl, rfl⟩, sampleMovedPolicy, _, rfl, .inl (by decide), rfl, rfl,
    h.quiescent_record_fresh (k := ⟨"ns", "p"⟩) (p := sampleMovedPolicy) ⟨rfl, rfl, rfl⟩ rfl
      (.inl (by decide)) rfl⟩

/-- Under key-serial scheduling, a worker that scales decides on the queue of the policy it
read: the replica count it sends is `GetDesiredWorkers` on the record at the policy's key,
which a poll has filled and which was started for that policy's queue URI and service; and
that policy names the queue and service of the policy in the cache, unless an event of the
key has been queued since, for another sync. -/
theorem Phased.Reachable.scale_on_read_queue {W : ℕ} {s : Phased W}
    (h : Phased.Reachable Phased.KeySerial s) {w : Fin W} {ns name : String}
    {wpa : WorkerPodAutoScaler} {cur avail : Int32}
    (hw : s.progress w = .registered ns name wpa cur avail) {now : Int}
    {attempts : ℕ → UpdateAttempt} {r : SyncResult}
    (hr : scaleWorkers s.process.controller now attempts s.process.controller.queues ns name wpa
      cur avail (wpa.spec.secondsToProcessOneJob.getD 0) = .ok r)
    {d : Int32} (hd : r.scaled = some d) :
    (∃ rec, s.process.controller.queues.records ⟨ns, name⟩ = some rec ∧
      rec.uri = wpa.spec.queueURI ∧ rec.serviceName = wpa.spec.queueServiceName ∧
      rec.messages ≠ UnsyncedQueueMessageCount ∧
      ∃ t mn mx, wpa.spec.targetMessagesPerWorker = some t ∧ wpa.spec.minReplicas = some mn ∧
        wpa.spec.maxReplicas = some mx ∧
        GetDesiredWorkers rec.name rec.messages rec.messagesSentPerMinute
          (wpa.spec.secondsToProcessOneJob.getD 0) t cur rec.idleWorkers mn mx
          (wpa.GetMaxDisruption s.process.controller.defaultMaxDisruption) = .ok d) ∧
    ((∀ p, s.process.controller.workerPodAutoScalers ⟨ns, name⟩ = some p →
        p.spec.queueURI = wpa.spec.queueURI ∧ p.spec.queueServiceName = wpa.spec.queueServiceName) ∨
      s.process.Queued ⟨ns, name⟩) := by
  have ht := h.inv.tracks w
  obtain ⟨rec, hrec, hm, hrest⟩ := scaleWorkers_scaled_record hr hd
  obtain ⟨hu, hsn⟩ := ht.registered _ _ _ _ _ hw rec hrec
  exact ⟨⟨rec, hrec, hu, hsn, hm, hrest⟩, ht.read _ _ (by rw [hw]; rfl)⟩

/-- One worker, its deployment at zero replicas and five messages on the queue: it decides
five workers on the record of `q1`, the queue of the policy it read. -/
theorem Phased.Reachable.scale_on_read_queue_polled :
    ∃ s : Phased 1, Phased.Reachable Phased.KeySerial s ∧
      s.progress 0 = .registered "ns" "p" (samplePolicy none) 0 0 ∧
      ∃ r, scaleWorkers s.process.controller 0 (fun _ => ⟨true, none⟩) s.process.controller.queues
          "ns" "p" (samplePolicy none) 0 0 ((samplePolicy none).spec.secondsToProcessOneJob.getD 0) =
          .ok r ∧ r.scaled = some 5 ∧
        ∃ rec, s.process.controller.queues.records ⟨"ns", "p"⟩ = some rec ∧
          rec.uri = "https://sqs/q1" ∧ rec.uri = (samplePolicy none).spec.queueURI ∧
          rec.messages ≠ UnsyncedQueueMessageCount :=
  let h := (Phased.Reachable.init "10%" 0).run Phased.keySerial_one
    (show (⟨Process.init 1 "10%" 0, fun _ => .start⟩ : Phased 1).run
      [.atomic (.setDeployment ⟨"ns", "d"⟩ (some ⟨some 0, 0⟩)), .atomic (.create (samplePolicy none)),
        .atomic (.get 0), .read 0, .register 0, .atomic (.poll ⟨"ns", "p"⟩ 5 0 0)] = some _ from rfl)
  let ⟨⟨rec, hrec, hu, _, hm, _⟩, _⟩ := h.scale_on_read_queue (w := 0) rfl
    (show scaleWorkers _ 0 (fun _ => ⟨true, none⟩) _ _ _ _ _ _ _ = .ok _ from rfl) (d := 5) rfl
  ⟨_, h, rfl, _, rfl, rfl, rec, hrec, hu, hu, hm⟩

end Wpa
