import Wpa.Controller.Process

/-! # Syncs of different policies commute

A sync reads and writes only the registry record of its own key. Of the caches it writes
only the workload its policy names: `updateDeployment` and `updateReplicaSet` set the new
replicas on the cached object, which a later sync of any policy naming that workload
reads as its current workers. So two workers syncing events of different policies that
name different workloads reach the same state whichever goes first, and abort in one
order exactly when they do in the other. Two policies naming one deployment do not
commute: the second sync scales from the replicas the first one wrote.
-/

namespace Wpa

/-- A workload of the listers' caches: a deployment or a ReplicaSet, by key. -/
inductive WorkloadRef
  | deployment (key : ObjectKey)
  | replicaSet (key : ObjectKey)
  deriving DecidableEq

/-- The workload a policy names, as `syncHandler` picks it: its deployment if it names
one, else its ReplicaSet. -/
def WorkerPodAutoScaler.workloadRef (wpa : WorkerPodAutoScaler) : Option WorkloadRef :=
  if wpa.spec.deploymentName ≠ "" then some (.deployment ⟨wpa.meta.ns, wpa.spec.deploymentName⟩)
  else if wpa.spec.replicaSetName ≠ "" then
    some (.replicaSet ⟨wpa.meta.ns, wpa.spec.replicaSetName⟩)
  else none

/-- The cached object of a workload. -/
def Controller.workload (c : Controller) : WorkloadRef → Option Workload
  | .deployment key => c.deployments key
  | .replicaSet key => c.replicaSets key

section Caches

variable {c c' : Controller} {p : WorkerPodAutoScaler}

/-- The workload lookup reads the caches only at the workload the policy names. -/
theorem getWorkloadOf_congr (h : ∀ x, p.workloadRef = some x → c'.workload x = c.workload x) :
    c'.getWorkloadOf p = c.getWorkloadOf p := by
  unfold Controller.getWorkloadOf
  unfold WorkerPodAutoScaler.workloadRef at h
  split_ifs at h ⊢
  · have hd : c'.deployments _ = c.deployments _ := h _ rfl
    simp only [getWorkload, hd]
  · have hr : c'.replicaSets _ = c.replicaSets _ := h _ rfl
    simp only [getWorkload, hr]
  · rfl

theorem workloadRef_isSome_of_getWorkloadOf {w : Except String Workload}
    (h : c.getWorkloadOf p = some w) : p.workloadRef.isSome := by
  unfold Controller.getWorkloadOf at h
  unfold WorkerPodAutoScaler.workloadRef
  split_ifs at h ⊢ <;> rfl

/-- A scale of one workload leaves every other cached workload as it was. -/
theorem writeReplicas_workload {x y : WorkloadRef} (hy : p.workloadRef = some y) (hx : x ≠ y)
    (d : Int32) : (c.writeReplicas p d).workload x = c.workload x := by
  unfold WorkerPodAutoScaler.workloadRef at hy
  unfold Controller.writeReplicas
  split_ifs at hy ⊢ <;> cases hy <;> cases x <;> simp only [Controller.workload, setReplicas] <;>
    exact Function.update_noteq (fun h => hx (congrArg _ h)) _ _

theorem setReplicas_comm {lister : ObjectKey → Option Workload} {k₁ k₂ : ObjectKey} (h : k₁ ≠ k₂)
    (d₁ d₂ : Int32) :
    setReplicas (setReplicas lister k₁ d₁) k₂ d₂ = setReplicas (setReplicas lister k₂ d₂) k₁ d₁ := by
  unfold setReplicas
  rw [Function.update_noteq h.symm, Function.update_noteq h, Function.update_comm h]

/-- Scales of two different workloads commute. -/
theorem writeScale_comm {p₁ p₂ : WorkerPodAutoScaler} {y₁ y₂ : WorkloadRef}
    (h₁ : p₁.workloadRef = some y₁) (h₂ : p₂.workloadRef = some y₂) (hne : y₁ ≠ y₂)
    (x₁ x₂ : Option Int32) :
    (c.writeScale p₁ x₁).writeScale p₂ x₂ = (c.writeScale p₂ x₂).writeScale p₁ x₁ := by
  rcases x₁ with _ | d₁ <;> rcases x₂ with _ | d₂
  iterate 3 rfl
  unfold WorkerPodAutoScaler.workloadRef at h₁ h₂
  simp only [Controller.writeScale, Controller.writeReplicas]
  split_ifs at h₁ h₂ ⊢ <;> cases h₁ <;> cases h₂ <;> first
    | rfl
    | rw [setReplicas_comm fun h => hne (congrArg _ h)]

/-- A scale writes no registry. -/
theorem writeScale_with_queues (Q : Queues) (x : Option Int32) :
    { c.writeScale p x with queues := Q } = { c with queues := Q }.writeScale p x := by
  rcases x with _ | d
  · rfl
  · simp only [Controller.writeScale, Controller.writeReplicas]; split_ifs <;> rfl

end Caches

section Sync

variable {c : Controller} {e e' : WokerPodAutoScalerEvent} {r : SyncResult}
  {ns name ns' name' : String}

/-- `syncRead` reads the policy cache and, of the workload caches, the workload the policy
at the event's key names. -/
theorem syncRead_congr {c' : Controller} (hp : c'.workerPodAutoScalers = c.workerPodAutoScalers)
    (hw : ∀ ns name q x, splitMetaNamespaceKey e.key = .ok (ns, name) →
      c.workerPodAutoScalers ⟨ns, name⟩ = some q → q.workloadRef = some x →
        c'.workload x = c.workload x) :
    syncRead c' e = syncRead c e := by
  unfold syncRead
  rw [hp]
  split
  · rfl
  rename_i ns name hs
  split
  · rfl
  rename_i q hq
  rw [getWorkloadOf_congr fun x => hw ns name q x hs hq]

/-- A sync writes of the workload caches only the workload the policy at its key names. -/
theorem afterSync_workload (hs : splitMetaNamespaceKey e.key = .ok (ns, name)) {x : WorkloadRef}
    (hx : ∀ p, c.workerPodAutoScalers ⟨ns, name⟩ = some p → p.workloadRef ≠ some x) :
    (c.afterSync e r).workload x = c.workload x := by
  unfold Controller.afterSync
  split
  · rename_i wpa _ _ hr
    obtain ⟨hs', hp, _, hw, -⟩ := syncRead_found hr
    rw [hs] at hs'; cases hs'
    obtain ⟨y, hy⟩ := Option.isSome_iff_exists.1 (workloadRef_isSome_of_getWorkloadOf hw)
    rcases r.scaled with _ | d
    · rfl
    · exact writeReplicas_workload hy (fun h => hx wpa hp (by rw [h]; exact hy)) d
  · rfl

/-- After a sync of a policy naming another workload, a sync reads the caches as before. -/
theorem syncRead_afterSync (hs : splitMetaNamespaceKey e.key = .ok (ns, name))
    (hs' : splitMetaNamespaceKey e'.key = .ok (ns', name'))
    (hwl : ∀ p p' x, c.workerPodAutoScalers ⟨ns, name⟩ = some p →
      c.workerPodAutoScalers ⟨ns', name'⟩ = some p' → p'.workloadRef = some x → p.workloadRef ≠ some x) :
    syncRead (c.afterSync e r) e' = syncRead c e' :=
  syncRead_congr (Controller.afterSync_workerPodAutoScalers _ _ _)
    fun _ _ q x he hq hx => by
      rw [hs'] at he; cases he
      exact afterSync_workload hs fun p hp => hwl p q x hp hq hx

end Sync

variable {c : Controller} {e₁ e₂ : WokerPodAutoScalerEvent} {ns₁ name₁ ns₂ name₂ : String}
  {n₁ n₂ : Int} {a₁ a₂ : ℕ → UpdateAttempt} {r₁ r₂ : SyncResult}

section Controller

variable (hs₁ : splitMetaNamespaceKey e₁.key = .ok (ns₁, name₁))
  (hs₂ : splitMetaNamespaceKey e₂.key = .ok (ns₂, name₂))
  (hk : (⟨ns₁, name₁⟩ : ObjectKey) ≠ ⟨ns₂, name₂⟩)
include hs₁ hs₂ hk

/-- After a sync of another key whose policy names another workload, a sync decides as it
would have before it, and adds the record it leaves at its own key to the registry the
first left. -/
theorem syncHandler_after
    (hwl : ∀ p₁ p₂ x, c.workerPodAutoScalers ⟨ns₁, name₁⟩ = some p₁ →
      c.workerPodAutoScalers ⟨ns₂, name₂⟩ = some p₂ → p₂.workloadRef = some x →
        p₁.workloadRef ≠ some x)
    (h₁ : syncHandler c n₁ a₁ e₁ = .ok r₁) :
    syncHandler (c.afterSync e₁ r₁) n₂ a₂ e₂ =
      (syncHandler c n₂ a₂ e₂).map fun r₂ =>
        { r₂ with queues := r₁.queues.set ⟨ns₂, name₂⟩ (r₂.queues.records ⟨ns₂, name₂⟩) } := by
  have hr : syncRead (c.afterSync e₁ r₁) e₂ = syncRead { c with queues := r₁.queues } e₂ :=
    syncRead_afterSync hs₁ hs₂ hwl
  rw [syncHandler_congr hr (Controller.afterSync_queues _ _ _)
    (Controller.afterSync_defaultMaxDisruption _ _ _) (Controller.afterSync_scaleDownDelay _ _ _)]
  exact syncHandler_transplant hs₂ (syncHandler_records_of_ne h₁ fun ns name he => by
    rw [hs₁] at he; cases he; exact hk.symm)

/-- Both orders of two syncs of different keys leave the same registry. -/
theorem syncHandler_registries_comm (h₁ : syncHandler c n₁ a₁ e₁ = .ok r₁)
    (h₂ : syncHandler c n₂ a₂ e₂ = .ok r₂) :
    r₁.queues.set ⟨ns₂, name₂⟩ (r₂.queues.records ⟨ns₂, name₂⟩) =
      r₂.queues.set ⟨ns₁, name₁⟩ (r₁.queues.records ⟨ns₁, name₁⟩) := by
  have other : ∀ {e : WokerPodAutoScalerEvent} {ns name : String} {n : Int}
      {a : ℕ → UpdateAttempt} {r : SyncResult} (k : ObjectKey),
      splitMetaNamespaceKey e.key = .ok (ns, name) → k ≠ ⟨ns, name⟩ →
      syncHandler c n a e = .ok r → r.queues.records k = c.queues.records k :=
    fun k hs hne h => syncHandler_records_of_ne h fun _ _ he => by
      rw [hs] at he; cases he; exact hne
  refine Queues.ext fun k => ?_
  by_cases hk₂ : k = ⟨ns₂, name₂⟩
  · subst hk₂
    rw [Queues.set_records_self, Queues.set_records_of_ne _ hk.symm]
  by_cases hk₁ : k = ⟨ns₁, name₁⟩
  · subst hk₁
    rw [Queues.set_records_self, Queues.set_records_of_ne _ hk]
  · rw [Queues.set_records_of_ne _ hk₂, Queues.set_records_of_ne _ hk₁, other _ hs₁ hk₁ h₁,
      other _ hs₂ hk₂ h₂]

end Controller

/-- The workload a sync that read a policy scales is the one the policy names. -/
theorem syncRead_found_workloadRef {e : WokerPodAutoScalerEvent} {ns name : String}
    {wpa : WorkerPodAutoScaler} {cur avail : Int32}
    (h : syncRead c e = .ok (.found ns name wpa cur avail)) : ∃ y, wpa.workloadRef = some y := by
  obtain ⟨-, -, _, hw, -⟩ := syncRead_found h
  exact Option.isSome_iff_exists.1 (workloadRef_isSome_of_getWorkloadOf hw)

/-- Two syncs of different keys whose policies name different workloads leave the same
controller in either order, each registry being the one the other order leaves. -/
theorem afterSync_comm (hs₁ : splitMetaNamespaceKey e₁.key = .ok (ns₁, name₁))
    (hs₂ : splitMetaNamespaceKey e₂.key = .ok (ns₂, name₂))
    (hwl : ∀ p₁ p₂ x, c.workerPodAutoScalers ⟨ns₁, name₁⟩ = some p₁ →
      c.workerPodAutoScalers ⟨ns₂, name₂⟩ = some p₂ → p₁.workloadRef = some x →
        p₂.workloadRef ≠ some x) (Q : Queues) :
    (c.afterSync e₁ r₁).afterSync e₂ { r₂ with queues := Q } =
      (c.afterSync e₂ r₂).afterSync e₁ { r₁ with queues := Q } := by
  rw [Controller.afterSync_of_read _ _ _ (syncRead_afterSync hs₁ hs₂ fun p₁ p₂ x h₁ h₂ hx =>
      fun h => hwl p₁ p₂ x h₁ h₂ h hx),
    Controller.afterSync_of_read _ _ _ (syncRead_afterSync hs₂ hs₁ fun p₂ p₁ x h₂ h₁ hx =>
      hwl p₁ p₂ x h₁ h₂ hx)]
  unfold Controller.afterSync
  rcases hr₁ : syncRead c e₁ with _ | (_ | _ | ⟨_, _, p₁, _, _⟩) <;>
    rcases hr₂ : syncRead c e₂ with _ | (_ | _ | ⟨_, _, p₂, _, _⟩) <;>
    simp only [writeScale_with_queues]
  obtain ⟨hs₁', hp₁, -⟩ := syncRead_found hr₁
  obtain ⟨hs₂', hp₂, -⟩ := syncRead_found hr₂
  rw [hs₁] at hs₁'; cases hs₁'; rw [hs₂] at hs₂'; cases hs₂'
  obtain ⟨y₁, hy₁⟩ := syncRead_found_workloadRef hr₁
  obtain ⟨y₂, hy₂⟩ := syncRead_found_workloadRef hr₂
  exact writeScale_comm hy₁ hy₂ (fun h => hwl p₁ p₂ y₁ hp₁ hp₂ hy₁ (h ▸ hy₂)) _ _

namespace Process

variable {W : ℕ} {s : Process W} {w₁ w₂ : Fin W}

/-- Two workers syncing events of different policies that name different workloads reach
the same state in either order, and one order aborts exactly when the other does. -/
theorem sync_comm (hw : w₁ ≠ w₂) (h₁ : s.workers w₁ = .syncing e₁)
    (h₂ : s.workers w₂ = .syncing e₂) (hs₁ : splitMetaNamespaceKey e₁.key = .ok (ns₁, name₁))
    (hs₂ : splitMetaNamespaceKey e₂.key = .ok (ns₂, name₂))
    (hk : (⟨ns₁, name₁⟩ : ObjectKey) ≠ ⟨ns₂, name₂⟩)
    (hwl : ∀ p₁ p₂ x, s.controller.workerPodAutoScalers ⟨ns₁, name₁⟩ = some p₁ →
      s.controller.workerPodAutoScalers ⟨ns₂, name₂⟩ = some p₂ → p₁.workloadRef = some x →
        p₂.workloadRef ≠ some x)
    (n₁ n₂ : Int) (a₁ a₂ : ℕ → UpdateAttempt) :
    (s.step (.sync w₁ n₁ a₁)).bind (·.step (.sync w₂ n₂ a₂)) =
      (s.step (.sync w₂ n₂ a₂)).bind (·.step (.sync w₁ n₁ a₁)) := by
  have h₂' : ∀ x, Function.update s.workers w₁ x w₂ = .syncing e₂ := fun x => by
    rw [Function.update_noteq hw.symm, h₂]
  have h₁' : ∀ x, Function.update s.workers w₂ x w₁ = .syncing e₁ := fun x => by
    rw [Function.update_noteq hw, h₁]
  have hwl₁ : ∀ p₁ p₂ x, s.controller.workerPodAutoScalers ⟨ns₁, name₁⟩ = some p₁ →
      s.controller.workerPodAutoScalers ⟨ns₂, name₂⟩ = some p₂ → p₂.workloadRef = some x →
        p₁.workloadRef ≠ some x := fun p₁ p₂ x h₁ h₂ hx h => hwl p₁ p₂ x h₁ h₂ h hx
  have hwl₂ : ∀ p₂ p₁ x, s.controller.workerPodAutoScalers ⟨ns₂, name₂⟩ = some p₂ →
      s.controller.workerPodAutoScalers ⟨ns₁, name₁⟩ = some p₁ → p₁.workloadRef = some x →
        p₂.workloadRef ≠ some x := fun p₂ p₁ x h₂ h₁ hx => hwl p₁ p₂ x h₁ h₂ hx
  cases hr₁ : syncHandler s.controller n₁ a₁ e₁ with
  | error x₁ =>
    cases hr₂ : syncHandler s.controller n₂ a₂ e₂ with
    | error x₂ => simp only [Process.step, h₁, h₂, hr₁, hr₂, Option.bind]
    | ok r₂ =>
      simp only [Process.step, h₁, h₂, hr₁, hr₂, h₁', Option.bind,
        syncHandler_after hs₂ hs₁ hk.symm hwl₂ hr₂, Except.map]
  | ok r₁ =>
    cases hr₂ : syncHandler s.controller n₂ a₂ e₂ with
    | error x₂ =>
      simp only [Process.step, h₁, h₂, hr₁, hr₂, h₂', Option.bind,
        syncHandler_after hs₁ hs₂ hk hwl₁ hr₁, Except.map]
    | ok r₂ =>
      simp only [Process.step, h₁, h₂, hr₁, hr₂, h₁', h₂', Option.bind,
        syncHandler_after hs₁ hs₂ hk hwl₁ hr₁, syncHandler_after hs₂ hs₁ hk.symm hwl₂ hr₂,
        Except.map, syncHandler_registries_comm hs₁ hs₂ hk hr₁ hr₂, Function.update_comm hw,
        afterSync_comm hs₁ hs₂ hwl]

end Process

/-- Two workers holding the adds of two policies on the deployments `d` and `e`, after both
were created. -/
theorem Process.sync_comm_two_policies :
    ∃ s : Process 2, Reachable (fun _ => True) s ∧
      s.workers 0 = .syncing ⟨"ns/p", WokerPodAutoScalerEventAdd⟩ ∧
      s.workers 1 = .syncing ⟨"ns/q", WokerPodAutoScalerEventAdd⟩ ∧
      (∀ p₁ p₂ x, s.controller.workerPodAutoScalers ⟨"ns", "p"⟩ = some p₁ →
        s.controller.workerPodAutoScalers ⟨"ns", "q"⟩ = some p₂ → p₁.workloadRef = some x →
          p₂.workloadRef ≠ some x) ∧
      (s.step (.sync 0 0 fun _ => ⟨true, none⟩)).bind (·.step (.sync 1 0 fun _ => ⟨true, none⟩)) =
        (s.step (.sync 1 0 fun _ => ⟨true, none⟩)).bind (·.step (.sync 0 0 fun _ => ⟨true, none⟩)) := by
  let q : WorkerPodAutoScaler := { samplePolicy none with
    meta := ⟨"ns", "q", by decide, by decide⟩
    spec := { (samplePolicy none).spec with deploymentName := "e" } }
  have hne : (samplePolicy none).workloadRef ≠ q.workloadRef := by decide
  refine ⟨_, (Reachable.init "10%" 0).run (fun _ _ => trivial)
      (show (Process.init 2 "10%" 0).run [.create (samplePolicy none), .create q, .get 0, .get 1] =
        some _ from rfl), rfl, rfl, ?hwl, Process.sync_comm (by decide) rfl rfl
      (show splitMetaNamespaceKey "ns/p" = .ok ("ns", "p") from rfl)
      (show splitMetaNamespaceKey "ns/q" = .ok ("ns", "q") from rfl) (by decide) ?hwl 0 0 _ _⟩
  intro p₁ p₂ x h₁ h₂ hx hx'
  cases h₁; cases h₂
  exact hne (hx.trans hx'.symm)

end Wpa
