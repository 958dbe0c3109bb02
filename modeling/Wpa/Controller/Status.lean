import Wpa.Controller.Sync

/-! # Status writes

`syncHandler` ends by writing the policy's status: the replicas it found and decided, the
backlog, and a `lastScaleTime` that is the current instant when it scaled and the one the
status had otherwise; `updateWorkerPodAutoScalerStatus` skips the write when the policy
already has that status. The API server stores `lastScaleTime`, a `metav1.Time`, to the
whole second, and the informer later hands the written policy back to the cache.

Two consequences once a write has reached the cache. A sync that scales nothing is
idempotent: run again at the same instant, it returns the same and writes nothing, so a
controller at rest makes no API calls. And in a run where each write arrives before the
next sync of the key, a workload is never scaled down sooner than `scaleDownDelay` less
one second after an earlier scale of it, whatever its queue, its replicas and the
policy's spec do in between; the second is the fraction the stored time drops.
-/

namespace Wpa

/-- The policy as the API server stores it after `UpdateStatus` with `status`, its
`lastScaleTime` kept to the whole second; `none` is a write that
`updateWorkerPodAutoScalerStatus` skipped. -/
def WorkerPodAutoScaler.withStatus (wpa : WorkerPodAutoScaler) :
    Option WorkerPodAutoScalerStatus → WorkerPodAutoScaler
  | none => wpa
  | some status =>
    { wpa with
      status := { status with lastScaleTime := status.lastScaleTime.map truncateToSecond }
      lastScaleTime_stored := by simp [Function.comp_def] }

@[simp] theorem WorkerPodAutoScaler.withStatus_none (wpa : WorkerPodAutoScaler) :
    wpa.withStatus none = wpa := rfl

@[simp] theorem WorkerPodAutoScaler.withStatus_meta (wpa : WorkerPodAutoScaler)
    (st : Option WorkerPodAutoScalerStatus) : (wpa.withStatus st).meta = wpa.meta := by
  cases st <;> rfl

@[simp] theorem WorkerPodAutoScaler.withStatus_spec (wpa : WorkerPodAutoScaler)
    (st : Option WorkerPodAutoScalerStatus) : (wpa.withStatus st).spec = wpa.spec := by
  cases st <;> rfl

@[simp] theorem WorkerPodAutoScaler.withStatus_GetMaxDisruption (wpa : WorkerPodAutoScaler)
    (st : Option WorkerPodAutoScalerStatus) (d : String) :
    (wpa.withStatus st).GetMaxDisruption d = wpa.GetMaxDisruption d := by
  cases st <;> rfl

/-- A skipped status write loses nothing: the policy already has the status it would have
written, its `lastScaleTime` kept to the second. -/
theorem updateWorkerPodAutoScalerStatus_written {d c a q : Int32} {t : Option Int}
    {wpa : WorkerPodAutoScaler} :
    (wpa.withStatus (updateWorkerPodAutoScalerStatus d wpa c a q t)).status =
      ⟨q, c, a, d, t.map truncateToSecond⟩ := by
  unfold updateWorkerPodAutoScalerStatus
  split_ifs with h
  · obtain ⟨rfl, rfl, rfl, rfl, rfl⟩ := h
    rw [WorkerPodAutoScaler.withStatus_none, wpa.lastScaleTime_stored]
  · rfl

@[simp] theorem updateWorkerPodAutoScalerStatus_lastScaleTime {d c a q : Int32}
    {t : Option Int} {wpa : WorkerPodAutoScaler} :
    (wpa.withStatus (updateWorkerPodAutoScalerStatus d wpa c a q t)).status.lastScaleTime =
      t.map truncateToSecond := by
  rw [updateWorkerPodAutoScalerStatus_written]

/-- Once a status write has reached the cache, the same write is skipped, when its
`lastScaleTime` is a whole second. -/
theorem updateWorkerPodAutoScalerStatus_idem {d c a q : Int32} {t : Option Int}
    {wpa : WorkerPodAutoScaler} (ht : t.map truncateToSecond = t) :
    updateWorkerPodAutoScalerStatus d
      (wpa.withStatus (updateWorkerPodAutoScalerStatus d wpa c a q t)) c a q t = none := by
  have hw : (wpa.withStatus (updateWorkerPodAutoScalerStatus d wpa c a q t)).status =
    ⟨q, c, a, d, t⟩ := by rw [updateWorkerPodAutoScalerStatus_written, ht]
  generalize wpa.withStatus _ = wpa' at hw ⊢
  simp only [updateWorkerPodAutoScalerStatus, hw, and_self, if_true]

/-- A scale down waits `scaleDownDelay` after the last scale. -/
theorem GetScaleOperation_delay {queueName : String} {d cur : Int32} {t δ now : Int}
    (h : GetScaleOperation queueName d cur (some t) δ now ≠ .NoOp) (hd : d.val < cur.val) :
    δ ≤ now - t := by
  simp only [GetScaleOperation] at h
  split_ifs at h with h₁ h₂ h₃
  · exact absurd rfl h
  · exact absurd h₂ (not_lt.2 (le_of_lt hd))
  · exact absurd rfl h
  · omega

section Status

variable {c : Controller} {now : Int} {attempts : ℕ → UpdateAttempt}

/-- What a `scaleWorkers` that returns leaves in the policy's status: without a scale the
`lastScaleTime` it had; with a scale to `d`, one that `GetScaleOperation` chose on the
time of the last scale, and a status recording `d`, the current workers and the current
instant to the second. -/
theorem scaleWorkers_status {queues : Queues} {ns name : String} {wpa : WorkerPodAutoScaler}
    {cur avail : Int32} {s : Float64} {r : SyncResult}
    (h : scaleWorkers c now attempts queues ns name wpa cur avail s = .ok r) :
    (r.scaled = none ∧
        (wpa.withStatus r.status).status.lastScaleTime = wpa.status.lastScaleTime) ∨
      ∃ d, r.scaled = some d ∧
        (∃ queueName, GetScaleOperation queueName d cur wpa.status.lastScaleTime
          c.scaleDownDelay now ≠ .NoOp) ∧
        (wpa.withStatus r.status).status.currentReplicas = cur ∧
        (wpa.withStatus r.status).status.desiredReplicas = d ∧
        (wpa.withStatus r.status).status.lastScaleTime = some (truncateToSecond now) := by
  unfold scaleWorkers at h
  split at h
  split_ifs at h
  · cases h; exact .inl ⟨rfl, rfl⟩
  split at h
  · simp only [bind, Except.bind, pure, Except.pure] at h
    split at h
    · cases h
    split_ifs at h with hop
    · split at h
      · cases h
      · cases h
        refine .inr ⟨_, rfl, ⟨_, fun h' => by
          rcases hop with hop | hop <;> rw [hop] at h' <;> cases h'⟩, ?_⟩
        simp only [updateWorkerPodAutoScalerStatus_written, Option.map_some', and_self]
    · cases h
      exact .inl ⟨rfl, by rw [updateWorkerPodAutoScalerStatus_lastScaleTime, wpa.lastScaleTime_stored]⟩
  · cases h

/-- What a sync that returns leaves in the status of the policy at its key: the same
`lastScaleTime` unless it scales, and after a scale a status recording the replicas it
scaled to, the replicas it scaled from and the current instant to the second. -/
theorem syncHandler_status {e : WokerPodAutoScalerEvent} {r : SyncResult} {k : ObjectKey}
    {p : WorkerPodAutoScaler} (h : syncHandler c now attempts e = .ok r)
    (hs : splitMetaNamespaceKey e.key = .ok (k.ns, k.name))
    (hp : c.workerPodAutoScalers k = some p) :
    (r.scaled = none ∧ (p.withStatus r.status).status.lastScaleTime = p.status.lastScaleTime) ∨
      ∃ d cur, r.scaled = some d ∧
        (∃ queueName, GetScaleOperation queueName d cur p.status.lastScaleTime
          c.scaleDownDelay now ≠ .NoOp) ∧
        (p.withStatus r.status).status.currentReplicas = cur ∧
        (p.withStatus r.status).status.desiredReplicas = d ∧
        (p.withStatus r.status).status.lastScaleTime = some (truncateToSecond now) := by
  rcases syncHandler_cases h with ⟨h, -⟩ | ⟨_, h⟩ | h | ⟨_, _, hs', hc, -⟩ |
    ⟨_, _, wpa, _, _, _, hs', hp', -, -, h⟩
  · cases h; exact .inl ⟨rfl, rfl⟩
  · cases h; exact .inl ⟨rfl, rfl⟩
  · cases h
  · rw [hs] at hs'; cases hs'; rw [hp] at hc; cases hc
  · rw [hs] at hs'; cases hs'; rw [hp] at hp'; cases hp'
    exact (scaleWorkers_status h.symm).imp_right fun ⟨d, hd⟩ => ⟨d, _, hd⟩

/-- After a `scaleWorkers` that scales nothing, with its status in the policy, the same
call returns the same and writes no status. -/
theorem scaleWorkers_idem {queues : Queues} {ns name : String} {wpa : WorkerPodAutoScaler}
    {cur avail : Int32} {s : Float64} {r : SyncResult}
    (h : scaleWorkers c now attempts queues ns name wpa cur avail s = .ok r)
    (hd : r.scaled = none) (attempts' : ℕ → UpdateAttempt) :
    scaleWorkers c now attempts' r.queues ns name (wpa.withStatus r.status) cur avail s =
      .ok { r with status := none } := by
  rw [scaleWorkers_queues h]
  unfold scaleWorkers at h ⊢
  split at h
  rename_i hinfo
  simp only [hinfo]
  split_ifs at h with hskip
  · cases h; simp only [if_pos hskip]
  simp only [if_neg hskip, WorkerPodAutoScaler.withStatus_spec,
    WorkerPodAutoScaler.withStatus_GetMaxDisruption]
  split at h
  · rename_i ht hmn hmx
    simp only [ht, hmn, hmx, bind, Except.bind, pure, Except.pure] at h ⊢
    split at h
    · cases h
    split_ifs at h with hop
    · split at h
      · cases h
      · cases h; cases hd
    · cases h
      simp only [updateWorkerPodAutoScalerStatus_lastScaleTime, wpa.lastScaleTime_stored,
        if_neg hop, updateWorkerPodAutoScalerStatus_idem wpa.lastScaleTime_stored]
  · cases h

/-- `syncRead` reads the policy cache at the event's key only: with the policy there
replaced by one of the same spec and metadata, it reads the same, and hands back the new
policy. -/
theorem syncRead_replace_policy {e : WokerPodAutoScalerEvent} {k : ObjectKey}
    {p p' : WorkerPodAutoScaler} {Q : Queues} (hs : splitMetaNamespaceKey e.key = .ok (k.ns, k.name))
    (hp : c.workerPodAutoScalers k = some p) (hspec : p'.spec = p.spec) (hmeta : p'.meta = p.meta) :
    syncRead { c with
        queues := Q
        workerPodAutoScalers := Function.update c.workerPodAutoScalers k (some p') } e =
      (syncRead c e).map fun
        | .found ns name _ cur avail => .found ns name p' cur avail
        | o => o := by
  simp only [syncRead, hs, hp, Function.update_same, Controller.getWorkloadOf, hspec, hmeta]
  repeat' split
  all_goals rfl

/-- A sync that scales nothing is idempotent: run again at the same instant, on the
registry it left and with its status in the cache, it returns the same, scales nothing and
writes no status. -/
theorem syncHandler_idem {e : WokerPodAutoScalerEvent} {r : SyncResult} {k : ObjectKey}
    {p : WorkerPodAutoScaler} (h : syncHandler c now attempts e = .ok r) (hd : r.scaled = none)
    (hs : splitMetaNamespaceKey e.key = .ok (k.ns, k.name))
    (hp : c.workerPodAutoScalers k = some p) (attempts' : ℕ → UpdateAttempt) :
    syncHandler { c with
        queues := r.queues
        workerPodAutoScalers := Function.update c.workerPodAutoScalers k (some (p.withStatus r.status)) }
      now attempts' e = .ok { r with status := none } := by
  unfold syncHandler at h ⊢
  rw [syncRead_replace_policy hs hp (WorkerPodAutoScaler.withStatus_spec _ _)
    (WorkerPodAutoScaler.withStatus_meta _ _)]
  rcases hr : syncRead c e with a | (err | ⟨ns', name'⟩ | ⟨ns', name', wpa, cur, avail⟩) <;>
    rw [hr] at h
  · cases h
  · cases h; rfl
  · obtain ⟨⟨⟩, -⟩ | ⟨_, ⟨⟩⟩ | ⟨_, _, hs', hc, he⟩ | ⟨_, _, _, _, _, -, -, ⟨⟩⟩ :=
      syncRead_cases hr
    cases he; rw [hs] at hs'; cases hs'; rw [hp] at hc; cases hc
  · obtain ⟨hs', hp', -⟩ := syncRead_found hr
    rw [hs] at hs'; cases hs'; rw [hp] at hp'; cases hp'
    dsimp only [Except.map] at h ⊢
    split at h
    · rename_i hq
      cases h; simp only [WorkerPodAutoScaler.withStatus_spec, hq]
    · rename_i queues hq
      rw [← scaleWorkers_queues h] at hq
      rw [WorkerPodAutoScaler.withStatus_spec, syncQueue_idem hq]
      exact scaleWorkers_idem h hd attempts'

end Status

/-- The sample policy cooling down from a scale at instant 0. -/
def sampleCoolingPolicy : WorkerPodAutoScaler :=
  { samplePolicy none with status := ⟨0, 0, 0, 0, some 0⟩, lastScaleTime_stored := by decide }

/-- The sample controller with a delay of ten minutes and the cooling policy. -/
def sampleCoolingController : Controller :=
  { sampleController none with
    workerPodAutoScalers := fun k => if k = ⟨"ns", "p"⟩ then some sampleCoolingPolicy else none
    scaleDownDelay := 600000000000 }

/-- At instant 0 the cooling policy is held at two replicas and its status is written;
the same sync once that status is in the cache writes nothing. -/
theorem syncHandler_idem_cooling :
    ∃ r, syncHandler sampleCoolingController 0 (fun _ => ⟨true, none⟩)
        ⟨"ns/p", WokerPodAutoScalerEventUpdate⟩ = .ok r ∧ r.scaled = none ∧ r.status ≠ none ∧
      syncHandler { sampleCoolingController with
          queues := r.queues
          workerPodAutoScalers := Function.update sampleCoolingController.workerPodAutoScalers
            ⟨"ns", "p"⟩ (some (sampleCoolingPolicy.withStatus r.status)) }
        0 (fun _ => ⟨false, none⟩) ⟨"ns/p", WokerPodAutoScalerEventUpdate⟩ =
        .ok { r with status := none } :=
  let h : syncHandler sampleCoolingController 0 (fun _ => ⟨true, none⟩)
      ⟨"ns/p", WokerPodAutoScalerEventUpdate⟩ =
        .ok ⟨none, (sampleController none).queues, none, some ⟨0, 2, 2, 1, some 0⟩⟩ := rfl
  ⟨_, h, rfl, Option.some_ne_none _, syncHandler_idem (k := ⟨"ns", "p"⟩) h rfl rfl rfl _⟩

/-- Syncs `0, …, rounds - 1` of the policy at key `k`, each returning: the policy each
sync reads carries the status the sync before it left, as the API server stores it, and
the clock does not go back. The informer hands the controller its own status writes; in
such a run each one arrives before the next sync of the key. The queue, the workload and
the policy's spec may change in any way between syncs. -/
structure SyncRun (k : ObjectKey) where
  rounds : ℕ
  c : ℕ → Controller
  now : ℕ → Int
  attempts : ℕ → ℕ → UpdateAttempt
  event : ℕ → WokerPodAutoScalerEvent
  policy : ℕ → WorkerPodAutoScaler
  result : ℕ → SyncResult
  keyed : ∀ i < rounds, splitMetaNamespaceKey (event i).key = .ok (k.ns, k.name)
  cached : ∀ i < rounds, (c i).workerPodAutoScalers k = some (policy i)
  synced : ∀ i < rounds, syncHandler (c i) (now i) (attempts i) (event i) = .ok (result i)
  written : ∀ i, i + 1 < rounds →
    (policy (i + 1)).status = ((policy i).withStatus (result i).status).status
  clock : ∀ i, i + 1 < rounds → now i ≤ now (i + 1)

namespace SyncRun

variable {k : ObjectKey} (run : SyncRun k)

theorem now_mono {i j : ℕ} (hij : i ≤ j) (hj : j < run.rounds) : run.now i ≤ run.now j := by
  induction j with
  | zero => rw [Nat.le_zero.1 hij]
  | succ j ih =>
    rcases Nat.of_le_succ hij with hij | rfl
    · exact (ih hij (by omega)).trans (run.clock j hj)
    · exact le_refl _

/-- After a scale, the policy's `lastScaleTime` is never earlier than the whole second the
scale fell in. -/
theorem lastScaleTime_after {i j : ℕ} (hij : i < j) (hj : j < run.rounds)
    (hi : (run.result i).scaled ≠ none) :
    ∃ t, (run.policy j).status.lastScaleTime = some t ∧ truncateToSecond (run.now i) ≤ t := by
  induction j with
  | zero => omega
  | succ j ih =>
    rw [run.written j hj]
    have hj' : j < run.rounds := by omega
    rcases syncHandler_status (run.synced j hj') (run.keyed j hj') (run.cached j hj') with
      ⟨hn, ht⟩ | ⟨_, _, -, -, -, -, ht⟩
    · rcases Nat.lt_succ_iff_lt_or_eq.1 hij with hij | rfl
      · rw [ht]; exact ih hij (by omega)
      · exact absurd hn hi
    · exact ⟨_, ht, truncateToSecond_mono (run.now_mono (by omega) (by omega))⟩

/-- In a run where each status write reaches the cache before the next sync of the key,
a sync that scales the workload down comes more than `scaleDownDelay` less one second
after every earlier scale of it: the cooldown is measured from the stored
`lastScaleTime`, which drops the fraction of a second the scale fell at. -/
theorem scale_down_after_delay {i j : ℕ} (hij : i < j) (hj : j < run.rounds)
    (hi : (run.result i).scaled ≠ none) {d : Int32} (hd : (run.result j).scaled = some d)
    (hdown : d.val <
      ((run.policy j).withStatus (run.result j).status).status.currentReplicas.val) :
    (run.c j).scaleDownDelay - 1000000000 < run.now j - run.now i := by
  obtain ⟨t, ht, hit⟩ := run.lastScaleTime_after hij hj hi
  rcases syncHandler_status (run.synced j hj) (run.keyed j hj) (run.cached j hj) with
    ⟨hn, -⟩ | ⟨d', cur, hd', ⟨_, hop⟩, hcur, -, -⟩
  · rw [hd] at hn; cases hn
  · rw [hd, Option.some.injEq] at hd'
    subst hd'
    rw [hcur] at hdown
    rw [ht] at hop
    have hdelay := GetScaleOperation_delay hop hdown
    have htrunc := (truncateToSecond_mem (run.now i)).1
    omega

end SyncRun

/-- The sample policy's status after the scale down to one replica, stored at instant 0. -/
def sampleScaledPolicy : WorkerPodAutoScaler :=
  { samplePolicy none with status := ⟨0, 2, 2, 1, some 0⟩, lastScaleTime_stored := by decide }

/-- Two syncs of the sample policy with a delay of ten minutes: a scale down 0.9 s into
the clock, stored as instant 0, then another at 600 s, 599.1 s later, on a deployment
still at two replicas. -/
def sampleRun : SyncRun ⟨"ns", "p"⟩ where
  rounds := 2
  c i := { sampleController none with
    workerPodAutoScalers := fun k => if k = ⟨"ns", "p"⟩ then
      some (if i = 0 then samplePolicy none else sampleScaledPolicy) else none
    scaleDownDelay := 600000000000 }
  now i := if i = 0 then 900000000 else 600000000000
  attempts _ _ := ⟨true, none⟩
  event _ := ⟨"ns/p", WokerPodAutoScalerEventUpdate⟩
  policy i := if i = 0 then samplePolicy none else sampleScaledPolicy
  result i := ⟨none, (sampleController none).queues, some 1,
    some ⟨0, 2, 2, 1, some (if i = 0 then 900000000 else 600000000000)⟩⟩
  keyed _ _ := rfl
  cached _ _ := rfl
  synced
    | 0, _ => rfl
    | 1, _ => rfl
    | _ + 2, h => absurd h (by omega)
  written
    | 0, _ => rfl
    | _ + 1, h => absurd h (by omega)
  clock
    | 0, _ => by decide
    | _ + 1, h => absurd h (by omega)

theorem SyncRun.scale_down_after_delay_sample :
    0 < 1 ∧ 1 < sampleRun.rounds ∧ (sampleRun.result 0).scaled ≠ none ∧
      (sampleRun.result 1).scaled = some 1 ∧
      (1 : Int32).val <
        ((sampleRun.policy 1).withStatus (sampleRun.result 1).status).status.currentReplicas.val ∧
      (sampleRun.c 1).scaleDownDelay - 1000000000 < sampleRun.now 1 - sampleRun.now 0 :=
  ⟨Nat.one_pos, Nat.one_lt_two, Option.some_ne_none _, rfl, by decide,
    sampleRun.scale_down_after_delay Nat.one_pos Nat.one_lt_two (Option.some_ne_none _) rfl
      (by decide)⟩

end Wpa
