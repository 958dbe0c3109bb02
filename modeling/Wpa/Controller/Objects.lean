import Mathlib.Data.List.Basic
import Wpa.Basic.Go

/-! # Policies, workloads and their keys

The objects the controller reads from its informer caches, the `namespace/name` keys it
puts on the work queue, and the events it queues. Kubernetes names and namespaces hold no
`/`, so splitting a key gives back the namespace and name it was made of.
-/

namespace Wpa

/-- The namespace and name of an object, as the listers index it. -/
structure ObjectKey where
  ns : String
  name : String
  deriving DecidableEq, Repr

/-- An object's metadata; a namespace and a name never contain `/`. -/
structure ObjectMeta where
  ns : String
  name : String
  ns_valid : '/' ∉ ns.toList
  name_valid : '/' ∉ name.toList

/-- The lister key of an object. -/
def ObjectMeta.objectKey (m : ObjectMeta) : ObjectKey := ⟨m.ns, m.name⟩

/-- `cache.MetaNamespaceKeyFunc` on an object: `namespace/name`, or `name` without a
namespace. -/
def ObjectMeta.key (m : ObjectMeta) : String :=
  if m.ns = "" then m.name else m.ns ++ "/" ++ m.name

/-- `cache.SplitMetaNamespaceKey`. -/
def splitMetaNamespaceKey (key : String) : Except String (String × String) :=
  match key.toList.splitOn '/' with
  | [name] => .ok ("", ⟨name⟩)
  | [ns, name] => .ok (⟨ns⟩, ⟨name⟩)
  | _ => .error ("unexpected key format: " ++ key)

theorem splitMetaNamespaceKey_key (m : ObjectMeta) :
    splitMetaNamespaceKey m.key = .ok (m.ns, m.name) := by
  unfold splitMetaNamespaceKey ObjectMeta.key
  split_ifs with h
  · have : m.name.toList.splitOn '/' = [m.name.toList] := by
      simpa [List.intercalate] using (List.splitOn_intercalate [m.name.toList] '/' (by simpa using m.name_valid)
        (by simp) : (['/'].intercalate [m.name.toList]).splitOn '/' = [m.name.toList])
    rw [this, h]; rfl
  · have : (m.ns ++ "/" ++ m.name).toList.splitOn '/' = [m.ns.toList, m.name.toList] := by
      have : (['/'].intercalate [m.ns.toList, m.name.toList]).splitOn '/' =
          [m.ns.toList, m.name.toList] :=
        List.splitOn_intercalate _ '/' (by simpa using ⟨m.ns_valid, m.name_valid⟩) (by simp)
      simpa [List.intercalate] using this
    rw [this]; rfl

/-- `WorkerPodAutoScalerSpec`. -/
structure WorkerPodAutoScalerSpec where
  minReplicas : Option Int32
  maxReplicas : Option Int32
  maxDisruption : Option String
  queueURI : String
  queueServiceName : String
  deploymentName : String
  replicaSetName : String
  targetMessagesPerWorker : Option Int32
  secondsToProcessOneJob : Option Float64

/-- The instant a stored `metav1.Time` keeps: the whole second it falls in. Instants and
durations are nanoseconds, as Go's `time.Time` and `time.Duration` count them, and the API
server keeps a `metav1.Time` to the second. -/
def truncateToSecond (t : Int) : Int := t - t % 1000000000

@[simp] theorem truncateToSecond_idem (t : Int) :
    truncateToSecond (truncateToSecond t) = truncateToSecond t := by
  unfold truncateToSecond; omega

theorem truncateToSecond_mono {t t' : Int} (h : t ≤ t') :
    truncateToSecond t ≤ truncateToSecond t' := by
  unfold truncateToSecond; omega

/-- A stored instant lies less than a second before the instant written. -/
theorem truncateToSecond_mem (t : Int) :
    t - 1000000000 < truncateToSecond t ∧ truncateToSecond t ≤ t := by
  unfold truncateToSecond; omega

/-- `WorkerPodAutoScalerStatus`; `lastScaleTime` is an instant of the controller's clock. -/
structure WorkerPodAutoScalerStatus where
  currentMessages : Int32
  currentReplicas : Int32
  availableReplicas : Int32
  desiredReplicas : Int32
  lastScaleTime : Option Int
  deriving DecidableEq

/-- `WorkerPodAutoScaler`, a scaling policy as the API server stores it: its
`lastScaleTime` is a whole second. -/
structure WorkerPodAutoScaler where
  meta : ObjectMeta
  spec : WorkerPodAutoScalerSpec
  status : WorkerPodAutoScalerStatus
  lastScaleTime_stored : status.lastScaleTime.map truncateToSecond = status.lastScaleTime

/-- Modelled from the spec: `GetMaxDisruption` (in the API package, not in the sources):
the policy's `maxDisruption`, or the controller's default when the policy sets none. -/
def WorkerPodAutoScaler.GetMaxDisruption (w : WorkerPodAutoScaler) (defaultDisruption : String) :
    Option String :=
  some (w.spec.maxDisruption.getD defaultDisruption)

/-- The fields of a Deployment or ReplicaSet the controller reads: `spec.replicas`, a
pointer, and `status.availableReplicas`. -/
structure Workload where
  replicas : Option Int32
  availableReplicas : Int32

/-- `WokerPodAutoScalerEvent`, the item of the work queue. -/
structure WokerPodAutoScalerEvent where
  key : String
  name : String
  deriving DecidableEq, Repr

def WokerPodAutoScalerEventAdd : String := "add"
def WokerPodAutoScalerEventUpdate : String := "update"
def WokerPodAutoScalerEventDelete : String := "delete"

/-- What an informer hands to a handler: the policy, or on a missed delete a
`cache.DeletedFinalStateUnknown` tombstone that carries the key and the last known state. -/
inductive InformerObject
  | policy (p : WorkerPodAutoScaler)
  | tombstone (key : String) (p : WorkerPodAutoScaler)

/-- `cache.MetaNamespaceKeyFunc`: a tombstone has no object metadata of its own. -/
def metaNamespaceKeyFunc : InformerObject → Except String String
  | .policy p => .ok p.meta.key
  | .tombstone _ _ => .error "object has no meta"

/-- `getKeyForWorkerPodAutoScaler`: the key, or `""` when there is none. -/
def getKeyForWorkerPodAutoScaler (obj : InformerObject) : String :=
  match metaNamespaceKeyFunc obj with
  | .ok key => key
  | .error _ => ""

end Wpa
