import Wpa.Controller.Registry

/-! # Syncs in phases

`syncHandler` is not one step of a worker. It reads the listers' caches, then makes its
registry call, then reads the key's record back, decides and writes; the registry is a
shared structure that each of these calls locks on its own, and the informer, the pollers
and the other workers act in between. Here a worker holding an event goes through these
phases, each one step against the caches and the registry of its moment. `Process` runs
the phases of each sync back to back, and every one of its runs is a phased run.

Two workers can hold events of one key at once, an add and an update of one policy, and
then one's registry call can undo the other's: a worker that read the policy before it
moved to another queue registers the old queue after the other worker registered the new
one.
-/

namespace Wpa

/-- How far a worker holding an event has got in `syncHandler`. -/
inductive Progress
  /-- It has not read the caches yet. -/
  | start
  /-- It has read the caches; its registry call is next. -/
  | read (o : SyncRead)
  /-- It has made its registry call for the policy it read; the decision is next. -/
  | registered (ns name : String) (wpa : WorkerPodAutoScaler) (currentWorkers availableWorkers : Int32)

/-- The key a worker's reads were for. -/
def Progress.key : Progress → Option ObjectKey
  | .read (.gone ns name) => some ⟨ns, name⟩
  | .read (.found ns name _ _ _) => some ⟨ns, name⟩
  | .registered ns name _ _ _ => some ⟨ns, name⟩
  | _ => none

/-- The policy a worker read, with its key. -/
def Progress.snapshot : Progress → Option (ObjectKey × WorkerPodAutoScaler)
  | .read (.found ns name wpa _ _) => some (⟨ns, name⟩, wpa)
  | .registered ns name wpa _ _ => some (⟨ns, name⟩, wpa)
  | _ => none

/-- The controller process with each sync cut into its phases. -/
structure Phased (W : ℕ) where
  process : Process W
  progress : Fin W → Progress

/-- A step of the phased process: an action of `Process` other than a whole sync, or one
phase of a worker's sync. `scale` carries the instant and how the cluster answers the
workload update. -/
inductive Phased.Action (W : ℕ)
  | atomic (a : Wpa.Action W)
  | read (w : Fin W)
  | register (w : Fin W)
  | scale (w : Fin W) (now : Int) (attempts : ℕ → UpdateAttempt)

namespace Phased

variable {W : ℕ}

/-- The process once worker `w`'s sync of `e` has ended with `err`, leaving `c`. -/
def endSync (s : Phased W) (w : Fin W) (e : WokerPodAutoScalerEvent) (c : Controller)
    (err : Option String) : Phased W :=
  ⟨⟨c, Function.update s.process.workers w (.synced e err)⟩, Function.update s.progress w .start⟩

/-- One step, or `none` when it cannot happen: the atomic actions as `Process.step` takes
them, a phase only after the one before it, and a sync that aborts ends the run. -/
def step (s : Phased W) : Action W → Option (Phased W)
  | .atomic (.sync _ _ _) => none
  | .atomic a => (s.process.step a).map fun p => ⟨p, s.progress⟩
  | .read w =>
    match s.process.workers w, s.progress w with
    | .syncing e, .start =>
      match syncRead s.process.controller e with
      | .error _ => none
      | .ok (.done err) => some (s.endSync w e s.process.controller err)
      | .ok o => some { s with progress := Function.update s.progress w (.read o) }
    | _, _ => none
  | .register w =>
    match s.process.workers w, s.progress w with
    | .syncing e, .read (.gone ns name) =>
      some (s.endSync w e
        { s.process.controller with queues := s.process.controller.queues.Delete ns name } none)
    | .syncing e, .read (.found ns name wpa cur avail) =>
      match syncQueue s.process.controller.queues e.name ns name wpa.spec cur
          (wpa.spec.secondsToProcessOneJob.getD 0) with
      | .error err => some (s.endSync w e s.process.controller (some err))
      | .ok queues => some ⟨⟨{ s.process.controller with queues := queues }, s.process.workers⟩,
          Function.update s.progress w (.registered ns name wpa cur avail)⟩
    | _, _ => none
  | .scale w now attempts =>
    match s.process.workers w, s.progress w with
    | .syncing e, .registered ns name wpa cur avail =>
      match scaleWorkers s.process.controller now attempts s.process.controller.queues ns name
          wpa cur avail (wpa.spec.secondsToProcessOneJob.getD 0) with
      | .error _ => none
      | .ok r => some (s.endSync w e
          ({ s.process.controller with queues := r.queues }.writeScale wpa r.scaled) r.err)
    | _, _ => none

/-- The state after a list of steps, if each can happen in turn. -/
def run (s : Phased W) : List (Action W) → Option (Phased W)
  | [] => some s
  | a :: as => (s.step a).bind (·.run as)

/-- The states a phased run reaches from a start, through steps that `allowed` permits in
the state they are taken from. -/
inductive Reachable (allowed : Phased W → Action W → Prop) : Phased W → Prop
  | init (defaultMaxDisruption : String) (scaleDownDelay : Int) :
      Reachable allowed ⟨Process.init W defaultMaxDisruption scaleDownDelay, fun _ => .start⟩
  | step {s s' : Phased W} (a : Action W) :
      Reachable allowed s → allowed s a → s.step a = some s' → Reachable allowed s'

theorem Reachable.run {allowed : Phased W → Action W → Prop} {s s' : Phased W}
    {as : List (Action W)} (hs : Reachable allowed s) (ha : ∀ t a, allowed t a)
    (h : s.run as = some s') : Reachable allowed s' := by
  induction as generalizing s with
  | nil => cases h; exact hs
  | cons a as ih =>
    simp only [Phased.run, Option.bind_eq_some] at h
    obtain ⟨t, ht, h⟩ := h
    exact ih (.step a hs (ha _ a) ht) h

/-- A process none of whose workers is inside a sync's phases. -/
def ofProcess (s : Process W) : Phased W := ⟨s, fun _ => .start⟩

/-- One step of `Process` is a phased run: an atomic action is itself, and a sync is its
phases back to back. -/
theorem run_of_process_step {s s' : Process W} {a : Wpa.Action W} (h : s.step a = some s') :
    ∃ as, (ofProcess s).run as = some (ofProcess s') := by
  have hstart : ∀ w, Function.update (fun _ : Fin W => Progress.start) w .start = fun _ => .start :=
    fun w => Function.update_eq_self w _
  by_cases ha : ∃ w now attempts, a = .sync w now attempts
  swap
  · refine ⟨[.atomic a], ?_⟩
    cases a with
    | sync w now attempts => exact absurd ⟨w, now, attempts, rfl⟩ ha
    | _ => simp only [run, step, ofProcess, h, Option.map_some', Option.bind]
  · obtain ⟨w, now, attempts, rfl⟩ := ha
    simp only [Process.step] at h
    split at h <;> [skip; cases h]
    rename_i e hw
    split at h <;> [skip; cases h]
    rename_i r hr
    cases h
    unfold syncHandler at hr
    unfold Controller.afterSync
    rcases hread : syncRead s.controller e with a | (err | ⟨ns, name⟩ | ⟨ns, name, wpa, cur, avail⟩) <;>
      rw [hread] at hr
    · cases hr
    · cases hr
      exact ⟨[.read w], by simp only [run, step, ofProcess, hw, hread, endSync, hstart]; rfl⟩
    · cases hr
      exact ⟨[.read w, .register w], by
        simp only [run, step, ofProcess, hw, hread, endSync, Function.update_same, Option.bind,
          Function.update_idem, hstart]⟩
    · dsimp only at hr
      split at hr
      · rename_i err hq
        cases hr
        exact ⟨[.read w, .register w], by
          simp only [run, step, ofProcess, hw, hread, hq, endSync, Function.update_same,
            Option.bind, Function.update_idem, hstart]; rfl⟩
      · rename_i queues hq
        refine ⟨[.read w, .register w, .scale w now attempts], ?_⟩
        simp only [run, step, ofProcess, hw, hread, hq, Function.update_same, Option.bind,
          Function.update_idem, scaleWorkers_with_queues, hr, endSync, hstart,
          scaleWorkers_queues hr]

/-- Every state of the atomic process is one of the phased process. -/
theorem reachable_of_process {allowed : Wpa.Action W → Prop} {s : Process W}
    (h : Wpa.Reachable allowed s) : Reachable (fun _ _ => True) (ofProcess s) := by
  induction h with
  | init d δ => exact .init d δ
  | step a _ _ hs ih =>
    obtain ⟨as, has⟩ := run_of_process_step hs
    exact ih.run (fun _ _ => trivial) has

variable {s s' : Phased W}

/-- Everything one phased step can do: an atomic action of `Process` other than a sync,
the progress left alone; a worker's reads of the caches, which end its sync or record what
it read; its registry call, which drops the record of a policy gone from the cache, or
calls `Queues.Add` or `Queues.Delete` and ends the sync on an error; and its decision and
writes, on the registry as it stands then. -/
theorem step_cases {a : Action W} (h : s.step a = some s') :
    (∃ b, a = .atomic b ∧ s.process.step b = some s'.process ∧ s'.progress = s.progress ∧
      ∀ w now attempts, b ≠ .sync w now attempts) ∨
    (∃ w e o, a = .read w ∧ s.process.workers w = .syncing e ∧ s.progress w = .start ∧
      syncRead s.process.controller e = .ok o ∧
      ((∃ err, o = .done err ∧ s' = s.endSync w e s.process.controller err) ∨
        (∀ err, o ≠ .done err) ∧ s' = { s with progress := Function.update s.progress w (.read o) })) ∨
    (∃ w e ns name, a = .register w ∧ s.process.workers w = .syncing e ∧
      s.progress w = .read (.gone ns name) ∧
      s' = s.endSync w e
        { s.process.controller with queues := s.process.controller.queues.Delete ns name } none) ∨
    (∃ w e ns name wpa cur avail, a = .register w ∧ s.process.workers w = .syncing e ∧
      s.progress w = .read (.found ns name wpa cur avail) ∧
      ((∃ err, syncQueue s.process.controller.queues e.name ns name wpa.spec cur
          (wpa.spec.secondsToProcessOneJob.getD 0) = .error err ∧
          s' = s.endSync w e s.process.controller (some err)) ∨
        ∃ queues, syncQueue s.process.controller.queues e.name ns name wpa.spec cur
          (wpa.spec.secondsToProcessOneJob.getD 0) = .ok queues ∧
          s' = ⟨⟨{ s.process.controller with queues := queues }, s.process.workers⟩,
            Function.update s.progress w (.registered ns name wpa cur avail)⟩)) ∨
    ∃ w e ns name wpa cur avail now attempts r, a = .scale w now attempts ∧
      s.process.workers w = .syncing e ∧ s.progress w = .registered ns name wpa cur avail ∧
      scaleWorkers s.process.controller now attempts s.process.controller.queues ns name wpa cur
        avail (wpa.spec.secondsToProcessOneJob.getD 0) = .ok r ∧
      s' = s.endSync w e ({ s.process.controller with queues := r.queues }.writeScale wpa r.scaled)
        r.err := by
  cases a with
  | atomic b =>
    refine .inl ⟨b, rfl, ?_⟩
    cases b with
    | sync => cases h
    | _ =>
      simp only [step, Option.map_eq_some'] at h
      obtain ⟨p, hp, rfl⟩ := h
      exact ⟨hp, rfl, fun _ _ _ => nofun⟩
  | read w =>
    simp only [step] at h
    split at h <;> [skip; cases h]
    rename_i e hw hp
    split at h
    · cases h
    · cases h; exact .inr (.inl ⟨w, e, _, rfl, hw, hp, ‹_›, .inl ⟨_, rfl, rfl⟩⟩)
    · rename_i o hnd hr
      cases h; exact .inr (.inl ⟨w, e, o, rfl, hw, hp, hr, .inr ⟨hnd, rfl⟩⟩)
  | register w =>
    simp only [step] at h
    split at h
    · cases h; exact .inr (.inr (.inl ⟨w, _, _, _, rfl, ‹_›, ‹_›, rfl⟩))
    · rename_i e ns name wpa cur avail hw hp
      split at h <;> cases h
      · exact .inr (.inr (.inr (.inl ⟨w, e, ns, name, wpa, cur, avail, rfl, hw, hp,
          .inl ⟨_, ‹_›, rfl⟩⟩)))
      · exact .inr (.inr (.inr (.inl ⟨w, e, ns, name, wpa, cur, avail, rfl, hw, hp,
          .inr ⟨_, ‹_›, rfl⟩⟩)))
    · cases h
  | scale w now attempts =>
    simp only [step] at h
    split at h <;> [skip; cases h]
    rename_i e ns name wpa cur avail hw hp
    split at h <;> cases h
    exact .inr (.inr (.inr (.inr ⟨w, e, ns, name, wpa, cur, avail, now, attempts, _, rfl, hw, hp,
      ‹_›, rfl⟩)))

theorem endSync_event {w : Fin W} {e : WokerPodAutoScalerEvent} {c : Controller}
    {err : Option String} (hw : s.process.workers w = .syncing e) (v : Fin W) :
    ((s.endSync w e c err).process.workers v).event? = (s.process.workers v).event? := by
  by_cases hvw : v = w
  · subst hvw; simp [endSync, hw, Worker.event?]
  · simp [endSync, Function.update_noteq hvw]

/-- A phase leaves the work queue and the event each worker holds; only the atomic actions
change them. -/
theorem step_atomic_or_phase {a : Action W} (h : s.step a = some s') :
    (∃ b, s.process.step b = some s'.process) ∨
      (s'.process.controller.workqueue = s.process.controller.workqueue ∧
        ∀ v, (s'.process.workers v).event? = (s.process.workers v).event?) := by
  rcases step_cases h with ⟨b, -, hb, -⟩ | ⟨w, e, o, -, hw, -, -, ⟨err, -, rfl⟩ | ⟨-, rfl⟩⟩ |
      ⟨w, e, ns, name, -, hw, -, rfl⟩ | ⟨w, e, _, _, _, _, _, -, hw, -, ⟨err, -, rfl⟩ | ⟨q, -, rfl⟩⟩ |
      ⟨w, e, _, _, wpa, _, _, _, _, r, -, hw, -, -, rfl⟩
  · exact .inl ⟨b, hb⟩
  · exact .inr ⟨rfl, endSync_event hw⟩
  · exact .inr ⟨rfl, fun _ => rfl⟩
  · exact .inr ⟨rfl, endSync_event hw⟩
  · exact .inr ⟨rfl, endSync_event hw⟩
  · exact .inr ⟨rfl, fun _ => rfl⟩
  · exact .inr ⟨by simp [endSync], endSync_event hw⟩

end Phased

theorem Phased.Reachable.valid {W : ℕ} {allowed : Phased W → Phased.Action W → Prop}
    {s : Phased W} (h : Phased.Reachable allowed s) : s.process.Valid := by
  induction h with
  | init d δ => exact Process.valid_init W d δ
  | step a _ _ hs ih =>
    rcases Phased.step_atomic_or_phase hs with ⟨b, hb⟩ | ⟨hq, hw⟩
    · exact ih.step hb
    · exact ih.of_frame (hq ▸ ih.workqueue) (by rw [hq]) hw

theorem Phased.Reachable.eventsNamed {W : ℕ} {allowed : Phased W → Phased.Action W → Prop}
    {s : Phased W} (h : Phased.Reachable allowed s) : s.process.EventsNamed := by
  induction h with
  | init => intro e he; simp [Process.init, WorkQueue.empty] at he
  | step a hr _ hs ih =>
    rcases Phased.step_atomic_or_phase hs with ⟨b, hb⟩ | ⟨hq, -⟩
    · exact ih.step hr.valid hb
    · exact fun e he => ih e (hq ▸ he)

/-- `samplePolicy` moved to the queue `q2`. -/
def sampleMovedPolicy : WorkerPodAutoScaler :=
  { samplePolicy none with spec := { (samplePolicy none).spec with queueURI := "https://sqs/q2" } }

end Wpa
