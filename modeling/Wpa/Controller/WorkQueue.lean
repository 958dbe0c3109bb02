import Mathlib.Data.List.Nodup

/-! # The work queue

client-go's rate-limited work queue, as the controller drives it: the FIFO `queue`, the
`dirty` set of items to be processed, the `processing` set of items a worker holds, and
the items `waiting` out a backoff. The queue is deduplicated on whole items: an item is
queued at most once and never while a worker holds it; one added while held stays dirty
and is queued again when the worker is done with it.
-/

namespace Wpa

/-- The state of a `workqueue.Type` with its delaying layer. -/
structure WorkQueue (α : Type) where
  queue : List α
  dirty : List α
  processing : List α
  waiting : List α

namespace WorkQueue

variable {α : Type} [DecidableEq α] {q q' : WorkQueue α} {x y : α}

def empty : WorkQueue α := ⟨[], [], [], []⟩

/-- `Type.Add`: nothing for a dirty item; otherwise it becomes dirty, and is queued unless
a worker holds it. -/
def add (q : WorkQueue α) (x : α) : WorkQueue α :=
  if x ∈ q.dirty then q
  else if x ∈ q.processing then { q with dirty := x :: q.dirty }
  else { q with queue := q.queue ++ [x], dirty := x :: q.dirty }

/-- `Type.Get`: the head of the queue, now held and no longer dirty. The Go code blocks on
an empty queue; here there is nothing to get. -/
def get (q : WorkQueue α) : Option (α × WorkQueue α) :=
  match q.queue with
  | [] => none
  | x :: rest => some (x, ⟨rest, q.dirty.erase x, q.processing.insert x, q.waiting⟩)

/-- `Type.Done`: the item is no longer held, and is queued again if it is dirty. -/
def done (q : WorkQueue α) (x : α) : WorkQueue α :=
  if x ∈ q.dirty then { q with queue := q.queue ++ [x], processing := q.processing.erase x }
  else { q with processing := q.processing.erase x }

/-- `AddRateLimited`: the controller's rate limiter never asks for a zero delay, so
`AddAfter` files the item among those waiting, once. -/
def addRateLimited (q : WorkQueue α) (x : α) : WorkQueue α :=
  { q with waiting := q.waiting.insert x }

/-- The waiting loop: an item whose delay has passed leaves `waiting` and is added. -/
def ready (q : WorkQueue α) (x : α) : WorkQueue α :=
  { q with waiting := q.waiting.erase x }.add x

@[simp] theorem add_processing : (q.add x).processing = q.processing := by
  unfold add; split_ifs <;> rfl

@[simp] theorem add_waiting : (q.add x).waiting = q.waiting := by
  unfold add; split_ifs <;> rfl

theorem mem_add_dirty : y ∈ (q.add x).dirty ↔ y = x ∨ y ∈ q.dirty := by
  unfold add; split_ifs with h
  · exact ⟨.inr, fun h' => h'.elim (· ▸ h) id⟩
  all_goals exact List.mem_cons

theorem mem_add_queue : y ∈ (q.add x).queue → y ∈ q.queue ∨ y = x := by
  unfold add; split_ifs
  · exact .inl
  · exact .inl
  · simp only [List.mem_append, List.mem_singleton]; exact id

theorem get_eq_some : q.get = some (x, q') ↔ ∃ rest, q.queue = x :: rest ∧
    q' = ⟨rest, q.dirty.erase x, q.processing.insert x, q.waiting⟩ := by
  rcases hq : q.queue with _ | ⟨y, rest⟩ <;> simp only [get, hq]
  · simp
  · constructor
    · rintro ⟨⟩; exact ⟨rest, rfl, rfl⟩
    · rintro ⟨r, ⟨⟩, rfl⟩; rfl

@[simp] theorem done_waiting : (q.done x).waiting = q.waiting := by
  unfold done; split_ifs <;> rfl

@[simp] theorem done_dirty : (q.done x).dirty = q.dirty := by
  unfold done; split_ifs <;> rfl

@[simp] theorem done_processing : (q.done x).processing = q.processing.erase x := by
  unfold done; split_ifs <;> rfl

@[simp] theorem addRateLimited_dirty : (q.addRateLimited x).dirty = q.dirty := rfl

@[simp] theorem addRateLimited_processing : (q.addRateLimited x).processing = q.processing := rfl

@[simp] theorem addRateLimited_waiting : (q.addRateLimited x).waiting = q.waiting.insert x := rfl

theorem mem_ready_dirty : y ∈ (q.ready x).dirty ↔ y = x ∨ y ∈ q.dirty := mem_add_dirty

@[simp] theorem ready_waiting : (q.ready x).waiting = q.waiting.erase x := add_waiting

@[simp] theorem ready_processing : (q.ready x).processing = q.processing := add_processing

/-- What the controller's queue keeps true between any two operations. -/
structure Valid (q : WorkQueue α) : Prop where
  queue_nodup : q.queue.Nodup
  dirty_nodup : q.dirty.Nodup
  processing_nodup : q.processing.Nodup
  queue_dirty : ∀ x ∈ q.queue, x ∈ q.dirty
  queue_not_processing : ∀ x ∈ q.queue, x ∉ q.processing
  dirty_pending : ∀ x ∈ q.dirty, x ∈ q.queue ∨ x ∈ q.processing

omit [DecidableEq α] in
theorem valid_empty : (empty : WorkQueue α).Valid :=
  ⟨.nil, .nil, .nil, by simp [empty], by simp [empty], by simp [empty]⟩

theorem Valid.add (hv : q.Valid) (x : α) : (q.add x).Valid := by
  unfold WorkQueue.add
  split_ifs with h₁ h₂
  · exact hv
  · exact ⟨hv.queue_nodup, List.nodup_cons.2 ⟨h₁, hv.dirty_nodup⟩, hv.processing_nodup,
      fun y hy => .tail _ (hv.queue_dirty y hy), hv.queue_not_processing,
      fun y hy => (List.mem_cons.1 hy).elim (fun e => .inr (e ▸ h₂)) (hv.dirty_pending y)⟩
  · refine ⟨List.nodup_append.2 ⟨hv.queue_nodup, List.nodup_singleton x,
      List.disjoint_singleton.2 fun h => h₁ (hv.queue_dirty x h)⟩,
      List.nodup_cons.2 ⟨h₁, hv.dirty_nodup⟩, hv.processing_nodup, ?_, ?_, ?_⟩ <;>
    simp only [List.mem_append, List.mem_cons, List.not_mem_nil, or_false]
    · rintro y (hy | rfl)
      exacts [.inr (hv.queue_dirty y hy), .inl rfl]
    · rintro y (hy | rfl)
      exacts [hv.queue_not_processing y hy, h₂]
    · rintro y (rfl | hy)
      exacts [.inl (.inr rfl), (hv.dirty_pending y hy).imp_left .inl]

theorem Valid.get (hv : q.Valid) (h : q.get = some (x, q')) : q'.Valid := by
  obtain ⟨rest, hq, rfl⟩ := get_eq_some.1 h
  have hn := hv.queue_nodup; rw [hq] at hn
  have hx : x ∉ q.processing := hv.queue_not_processing x (by simp [hq])
  refine ⟨(List.nodup_cons.1 hn).2, hv.dirty_nodup.erase x, hv.processing_nodup.insert,
    fun y hy => ?_, fun y hy => ?_, fun y hy => ?_⟩ <;>
    simp only [List.mem_insert_iff, hv.dirty_nodup.mem_erase_iff] at hy ⊢
  · have hyx : y ≠ x := fun e => (List.nodup_cons.1 hn).1 (e ▸ hy)
    exact ⟨hyx, hv.queue_dirty y (by simp [hq, hy])⟩
  · have hyx : y ≠ x := fun e => (List.nodup_cons.1 hn).1 (e ▸ hy)
    exact not_or.2 ⟨hyx, hv.queue_not_processing y (by simp [hq, hy])⟩
  · rcases hv.dirty_pending y hy.2 with h | h
    · rw [hq, List.mem_cons] at h
      exact h.elim (absurd · hy.1) .inl
    · exact .inr (.inr h)

theorem Valid.done (hv : q.Valid) (hx : x ∈ q.processing) : (q.done x).Valid := by
  have hq : x ∉ q.queue := fun h => hv.queue_not_processing x h hx
  have hp := hv.processing_nodup
  unfold WorkQueue.done
  split_ifs with hd
  · refine ⟨List.nodup_append.2 ⟨hv.queue_nodup, List.nodup_singleton x,
      List.disjoint_singleton.2 hq⟩, hv.dirty_nodup, hp.erase x, ?_, ?_, ?_⟩ <;>
    simp only [List.mem_append, List.mem_singleton, hp.mem_erase_iff]
    · rintro y (hy | rfl)
      exacts [hv.queue_dirty y hy, hd]
    · rintro y (hy | rfl)
      exacts [fun h => hv.queue_not_processing y hy h.2, fun h => h.1 rfl]
    · intro y hy
      by_cases e : y = x
      · exact .inl (.inr e)
      · exact (hv.dirty_pending y hy).imp .inl (⟨e, ·⟩)
  · refine ⟨hv.queue_nodup, hv.dirty_nodup, hp.erase x, hv.queue_dirty, ?_, ?_⟩ <;>
    simp only [hp.mem_erase_iff]
    · exact fun y hy h => hv.queue_not_processing y hy h.2
    · intro y hy
      have e : y ≠ x := fun e => hd (e ▸ hy)
      exact (hv.dirty_pending y hy).imp_right (⟨e, ·⟩)

theorem Valid.addRateLimited (hv : q.Valid) (x : α) : (q.addRateLimited x).Valid :=
  ⟨hv.queue_nodup, hv.dirty_nodup, hv.processing_nodup, hv.queue_dirty,
    hv.queue_not_processing, hv.dirty_pending⟩

theorem Valid.ready (hv : q.Valid) (x : α) : (q.ready x).Valid :=
  Valid.add (q := { q with waiting := q.waiting.erase x }) ⟨hv.queue_nodup, hv.dirty_nodup, hv.processing_nodup, hv.queue_dirty,
    hv.queue_not_processing, hv.dirty_pending⟩ x

omit [DecidableEq α] in
/-- A valid queue with nothing queued and nothing held has nothing dirty. -/
theorem Valid.dirty_eq_nil (hv : q.Valid) (hq : q.queue = []) (hp : q.processing = []) :
    q.dirty = [] :=
  List.eq_nil_iff_forall_not_mem.2 fun y hy => by simpa [hq, hp] using hv.dirty_pending y hy

end WorkQueue

end Wpa
