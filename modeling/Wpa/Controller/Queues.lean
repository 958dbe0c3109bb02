import Wpa.Controller.Objects

/-! # The queue registry

The process-wide map from a policy's key to the record its poller keeps fresh: the queue's
display name, its backlog, send rate and idle workers, and the parameters the poller was
started with. The registry's package is not among the sources; its operations follow the
specification. A record is made by `Add`, replaced when `Add` brings other parameters,
refreshed by polls, and dropped by `Delete`; only `Add` can fail, on an unknown queue
service.
-/

namespace Wpa

def SqsQueueService : String := "sqs"
def BeanstalkQueueService : String := "beanstalkd"

/-- Modelled from the spec: `queue.UnsyncedQueueMessageCount`, the backlog of a record no
poll has filled yet. -/
def UnsyncedQueueMessageCount : Int32 := -1

/-- Modelled from the spec: a registry record, `QueueSpec`. -/
structure QueueSpec where
  name : String
  uri : String
  serviceName : String
  messages : Int32
  messagesSentPerMinute : Float64
  idleWorkers : Int32
  workers : Int32
  secondsToProcessOneJob : Float64
  deriving DecidableEq

/-- Modelled from the spec: `queue.Queues`, at most one record per policy key. -/
structure Queues where
  records : ObjectKey → Option QueueSpec

namespace Queues

variable {q q' : Queues} {k : ObjectKey} {ns name uri serviceName : String} {workers : Int32}
  {secondsToProcessOneJob : Float64}

def empty : Queues := ⟨fun _ => none⟩

def set (q : Queues) (key : ObjectKey) (v : Option QueueSpec) : Queues :=
  ⟨fun k => if k = key then v else q.records k⟩

@[simp] theorem set_records_self (v : Option QueueSpec) : (q.set k v).records k = v := by
  simp [set]

@[simp] theorem set_records_of_ne {k' : ObjectKey} (v : Option QueueSpec) (h : k' ≠ k) :
    (q.set k v).records k' = q.records k' := by
  simp [set, h]

@[ext] theorem ext {q q' : Queues} (h : ∀ k, q.records k = q'.records k) : q = q' := by
  cases q; cases q'; congr; funext k; exact h k

/-- Writing back a key's own record changes nothing. -/
theorem set_records (k : ObjectKey) : q.set k (q.records k) = q :=
  ext fun k' => by by_cases h : k' = k <;> simp [set, h]

@[simp] theorem set_set (k : ObjectKey) (v v' : Option QueueSpec) :
    (q.set k v).set k v' = q.set k v' :=
  ext fun k' => by by_cases h : k' = k <;> simp [set, h]

/-- Writes to different keys commute. -/
theorem set_comm {k₁ k₂ : ObjectKey} (h : k₁ ≠ k₂) (v₁ v₂ : Option QueueSpec) :
    (q.set k₁ v₁).set k₂ v₂ = (q.set k₂ v₂).set k₁ v₁ :=
  ext fun k => by
    by_cases h₁ : k = k₁
    · subst h₁; simp [set, h]
    · by_cases h₂ : k = k₂ <;> simp [set, h₁, h₂, h.symm]

/-- Modelled from the spec: the display name of a queue, the last `/`-separated segment
of its URI. -/
def getQueueName (uri : String) : String := ⟨(uri.toList.splitOn '/').getLastD []⟩

/-- Modelled from the spec: `Queues.Add`. A record with the same parameters is kept with
what its poller has seen; otherwise a new record, not yet polled, takes its place. -/
def Add (q : Queues) (ns name uri serviceName : String) (workers : Int32)
    (secondsToProcessOneJob : Float64) : Except String Queues :=
  if serviceName ∉ [SqsQueueService, BeanstalkQueueService] then
    .error ("queue service " ++ serviceName ++ " is not supported")
  else
    let fresh : QueueSpec := ⟨getQueueName uri, uri, serviceName, UnsyncedQueueMessageCount,
      0, 0, workers, secondsToProcessOneJob⟩
    match q.records ⟨ns, name⟩ with
    | some r =>
      if r.uri = uri ∧ r.serviceName = serviceName ∧ r.workers = workers ∧
          r.secondsToProcessOneJob = secondsToProcessOneJob then .ok q
      else .ok (q.set ⟨ns, name⟩ (some fresh))
    | none => .ok (q.set ⟨ns, name⟩ (some fresh))

/-- Modelled from the spec: `Queues.Delete`, which never fails. -/
def Delete (q : Queues) (ns name : String) : Queues := q.set ⟨ns, name⟩ none

/-- Modelled from the spec: `Queues.GetQueueInfo`, with an empty name for a key without a
record. -/
def GetQueueInfo (q : Queues) (ns name : String) : String × Int32 × Float64 × Int32 :=
  match q.records ⟨ns, name⟩ with
  | some r => (r.name, r.messages, r.messagesSentPerMinute, r.idleWorkers)
  | none => ("", 0, 0, 0)

/-- Modelled from the spec: what one poll of a key publishes, all at once. A key without a
record has no poller. -/
def poll (q : Queues) (key : ObjectKey) (messages : Int32) (messagesSentPerMinute : Float64)
    (idleWorkers : Int32) : Queues :=
  match q.records key with
  | some r => q.set key (some { r with
      messages := messages, messagesSentPerMinute := messagesSentPerMinute,
      idleWorkers := idleWorkers })
  | none => q

theorem Add_eq_error_iff {e : String} :
    q.Add ns name uri serviceName workers secondsToProcessOneJob = .error e ↔
      serviceName ∉ [SqsQueueService, BeanstalkQueueService] ∧
        e = "queue service " ++ serviceName ++ " is not supported" := by
  unfold Add
  split_ifs with h
  · simp only [h, not_true_eq_false, false_and, iff_false]
    split <;> (try split_ifs) <;> simp
  · simp [h, eq_comm]

/-- `Add` leaves a record at its key and no other key changes. -/
theorem Add_records (h : q.Add ns name uri serviceName workers secondsToProcessOneJob = .ok q') :
    (q'.records ⟨ns, name⟩).isSome ∧ ∀ k ≠ ⟨ns, name⟩, q'.records k = q.records k := by
  unfold Add at h
  split_ifs at h
  split at h
  · rename_i r hr
    split_ifs at h <;> cases h
    · exact ⟨by simp [hr], fun _ _ => rfl⟩
    · exact ⟨by simp, fun k hk => set_records_of_ne _ hk⟩
  · cases h; exact ⟨by simp, fun k hk => set_records_of_ne _ hk⟩

/-- After `Add`, the key's record was started with the queue, service and processing time
given. -/
theorem Add_records_self (h : q.Add ns name uri serviceName workers secondsToProcessOneJob = .ok q') :
    ∃ r, q'.records ⟨ns, name⟩ = some r ∧ r.uri = uri ∧ r.serviceName = serviceName ∧
      r.secondsToProcessOneJob = secondsToProcessOneJob := by
  unfold Add at h
  split_ifs at h
  split at h
  · rename_i r hr
    split_ifs at h with hsame <;> cases h
    · exact ⟨r, hr, hsame.1, hsame.2.1, hsame.2.2.2⟩
    · exact ⟨_, set_records_self _, rfl, rfl, rfl⟩
  · cases h; exact ⟨_, set_records_self _, rfl, rfl, rfl⟩

/-- A second `Add` with the same parameters keeps the registry the first left. -/
theorem Add_idem (h : q.Add ns name uri serviceName workers secondsToProcessOneJob = .ok q') :
    q'.Add ns name uri serviceName workers secondsToProcessOneJob = .ok q' := by
  unfold Add at h ⊢
  split_ifs at h with hs
  rw [if_neg (not_not.2 hs)]
  split at h
  · rename_i r hr
    split_ifs at h with hsame <;> cases h
    · simp only [hr, hsame, and_self, if_true]
    · simp only [set_records_self, and_self, if_true]
  · cases h; simp only [set_records_self, and_self, if_true]

theorem Delete_idem : (q.Delete ns name).Delete ns name = q.Delete ns name := set_set _ _ _

@[simp] theorem Delete_records_self : (q.Delete ns name).records ⟨ns, name⟩ = none :=
  set_records_self none

theorem Delete_records_of_ne (h : k ≠ ⟨ns, name⟩) : (q.Delete ns name).records k = q.records k :=
  set_records_of_ne none h

/-- A poll refreshes a record and neither makes nor drops one. -/
theorem poll_records_eq_none {key : ObjectKey} {m i : Int32} {r : Float64} :
    (q.poll key m r i).records k = none ↔ q.records k = none := by
  unfold poll
  split
  · rename_i hr
    by_cases hk : k = key
    · subst hk; simp [hr]
    · simp [hk]
  · rfl

/-- `Add` reads and writes only the record of its key: on another registry with the same
record there, it gives the same outcome, written into that registry. -/
theorem Add_transplant (hq : q'.records ⟨ns, name⟩ = q.records ⟨ns, name⟩) :
    q'.Add ns name uri serviceName workers secondsToProcessOneJob =
      (q.Add ns name uri serviceName workers secondsToProcessOneJob).map
        fun q'' => q'.set ⟨ns, name⟩ (q''.records ⟨ns, name⟩) := by
  unfold Add
  by_cases hs : serviceName ∉ [SqsQueueService, BeanstalkQueueService]
  · simp only [if_pos hs]; rfl
  simp only [if_neg hs, hq]
  split
  · split_ifs
    · simp only [Except.map]; rw [← hq, set_records]
    · simp only [Except.map, set_records_self]
  · simp only [Except.map, set_records_self]

theorem Delete_transplant : q'.Delete ns name = q'.set ⟨ns, name⟩ ((q.Delete ns name).records ⟨ns, name⟩) := by
  rw [Delete_records_self]; rfl

/-- A poll keeps what each record was started with. -/
theorem poll_records_eq_some {key : ObjectKey} {m i : Int32} {x : Float64} {r' : QueueSpec}
    (h : (q.poll key m x i).records k = some r') :
    ∃ r, q.records k = some r ∧ r.uri = r'.uri ∧ r.serviceName = r'.serviceName := by
  unfold poll at h
  split at h
  · rename_i r hr
    by_cases hk : k = key
    · subst hk
      rw [set_records_self, Option.some.injEq] at h
      exact ⟨r, hr, by rw [← h], by rw [← h]⟩
    · exact ⟨r', by rwa [set_records_of_ne _ hk] at h, rfl, rfl⟩
  · exact ⟨r', h, rfl, rfl⟩

end Queues

end Wpa
