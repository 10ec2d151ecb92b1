import KernelMonitor.Library.LabelledRun
import KernelMonitor.Library.RingBuffer

/-! # The bounded buffer of the demonstration

Model of part 3 of `demo/threadsync.c`, for any capacity, any items and any number of
consumers, at the granularity of the lock operations. A thread is a program counter
with its locals. A wait may end at any time, as `pthread_cond_wait` allows; a signal
wakes one sleeper of its choice, and nobody where nobody sleeps.
-/

namespace KernelMonitor

open Library

/-! ## States -/

/-- The buffer and its indices: `g_buffer`, `g_count`, `g_head` and `g_tail`. -/
structure Ring where
  buffer : List Int
  count : Int
  head : Nat
  tail : Nat
  deriving DecidableEq, Repr

/-- `SLOTS` -/
def Ring.slots (r : Ring) : Nat := r.buffer.length

/-- What `buffer_put` does to the globals once it is past its loop. -/
def Ring.put (r : Ring) (item : Int) : Ring :=
  { r with
    buffer := r.buffer.set r.tail item, tail := (r.tail + 1) % r.slots, count := r.count + 1 }

/-- What `buffer_take` does to the globals once it has read the item. -/
def Ring.take (r : Ring) : Ring :=
  { r with head := (r.head + 1) % r.slots, count := r.count - 1 }

/-- Where a thread is in its current call. -/
inductive CallPoint where
  /-- Before `pthread_mutex_lock`. -/
  | locking
  /-- At the condition of the wait loop. -/
  | testing
  | asleep
  /-- Out of the wait, not yet holding the mutex again. -/
  | woken
  /-- After the wait loop. -/
  | ready
  /-- Before `pthread_mutex_unlock`. -/
  | leaving
  /-- The thread has returned. -/
  | finished
  deriving DecidableEq, Repr

def CallPoint.holdsLock : CallPoint → Bool
  | .testing | .ready | .leaving => true
  | _ => false

/-- Where `pthread_mutex_lock` is called, by the thread or inside `pthread_cond_wait`. -/
def CallPoint.wantsLock : CallPoint → Bool
  | .locking | .woken => true
  | _ => false

theorem CallPoint.wantsLock_cases {point : CallPoint} (wants : point.wantsLock = true) :
    point = .locking ∨ point = .woken := by
  cases point <;> simp_all [CallPoint.wantsLock]

/-- The producer and the arguments of its calls of `buffer_put` to come, the current one
    included. -/
structure Producer where
  point : CallPoint
  calls : List Int
  deriving DecidableEq, Repr

/-- A consumer with its locals `item` and `taken`. -/
structure Consumer where
  point : CallPoint
  item : Int
  taken : Nat
  deriving DecidableEq, Repr

inductive BufferThread where
  | producer
  | consumer (k : Nat)
  deriving DecidableEq, Repr

/-- The state of part 3; `owner` is who holds `g_buffer_lock`. -/
structure BoundedBuffer where
  ring : Ring
  producerWaits : Nat
  owner : Option BufferThread
  producer : Producer
  consumers : List Consumer
  deriving DecidableEq, Repr

/-- What `producer` puts: the items, and one stop marker for each consumer. -/
def producerCalls (items : List Int) (consumers : Nat) : List Int :=
  items ++ List.replicate consumers (-1)

/-- A producer before its next call, or done with them. -/
def Producer.next (calls : List Int) : Producer where
  point := if calls = [] then .finished else .locking
  calls := calls

/-- A consumer after a call of `buffer_take`: a stop marker ends its loop. -/
def Consumer.next (c : Consumer) : Consumer :=
  if c.item = -1 then { c with point := .finished }
  else { c with point := .locking, taken := c.taken + 1 }

def BoundedBuffer.start (slots : Nat) (items : List Int) (consumers : Nat) : BoundedBuffer where
  ring := ⟨List.replicate slots 0, 0, 0, 0⟩
  producerWaits := 0
  owner := none
  producer := .next (producerCalls items consumers)
  consumers := List.replicate consumers ⟨.locking, 0, 0⟩

/-! ## Steps -/

/-- `pthread_cond_signal(&g_not_empty)`: which consumer it wakes. -/
inductive SignalNotEmpty (consumers : List Consumer) : Option Nat → List Consumer → Prop where
  | nobody (awake : ∀ c ∈ consumers, c.point ≠ .asleep) : SignalNotEmpty consumers none consumers
  | wakes {k : Nat} {c : Consumer} (there : consumers[k]? = some c) (asleep : c.point = .asleep) :
      SignalNotEmpty consumers (some k) (consumers.set k { c with point := .woken })

/-- `pthread_cond_signal(&g_not_full)`: only the producer waits for it. -/
def Producer.signalNotFull (p : Producer) : Producer :=
  if p.point = .asleep then { p with point := .woken } else p

inductive BufferLabel where
  | lock (thread : BufferThread)
  | wait (thread : BufferThread)
  /-- A spurious wakeup. -/
  | wake (thread : BufferThread)
  | leaveWait (thread : BufferThread)
  | put (item : Int) (woken : Option Nat)
  | take (k : Nat) (item left : Int)
  | unlock (thread : BufferThread)
  deriving DecidableEq, Repr

inductive BufferStep : BoundedBuffer → BufferLabel → BoundedBuffer → Prop where
  | putLock {s : BoundedBuffer} (wants : s.producer.point.wantsLock = true)
      (free : s.owner = none) :
      BufferStep s (.lock .producer)
        { s with owner := some .producer, producer := { s.producer with point := .testing } }
  | putWait {s : BoundedBuffer} (there : s.producer.point = .testing)
      (full : s.ring.count = s.ring.slots) :
      BufferStep s (.wait .producer)
        { s with
          owner := none, producerWaits := s.producerWaits + 1,
          producer := { s.producer with point := .asleep } }
  | putWake {s : BoundedBuffer} (there : s.producer.point = .asleep) :
      BufferStep s (.wake .producer) { s with producer := { s.producer with point := .woken } }
  | putLeaveWait {s : BoundedBuffer} (there : s.producer.point = .testing)
      (room : s.ring.count ≠ s.ring.slots) :
      BufferStep s (.leaveWait .producer)
        { s with producer := { s.producer with point := .ready } }
  /-- The item is stored and a consumer signalled. -/
  | put {s : BoundedBuffer} {item : Int} {calls : List Int} {woken : Option Nat}
      {consumers : List Consumer} (there : s.producer.point = .ready)
      (current : s.producer.calls = item :: calls)
      (signal : SignalNotEmpty s.consumers woken consumers) :
      BufferStep s (.put item woken)
        { s with
          ring := s.ring.put item, producer := { point := .leaving, calls := calls },
          consumers := consumers }
  | putUnlock {s : BoundedBuffer} (there : s.producer.point = .leaving) :
      BufferStep s (.unlock .producer)
        { s with owner := none, producer := .next s.producer.calls }
  | takeLock {s : BoundedBuffer} {k : Nat} {c : Consumer} (known : s.consumers[k]? = some c)
      (wants : c.point.wantsLock = true) (free : s.owner = none) :
      BufferStep s (.lock (.consumer k))
        { s with
          owner := some (.consumer k)
          consumers := s.consumers.set k { c with point := .testing } }
  | takeWait {s : BoundedBuffer} {k : Nat} {c : Consumer} (known : s.consumers[k]? = some c)
      (there : c.point = .testing) (empty : s.ring.count = 0) :
      BufferStep s (.wait (.consumer k))
        { s with owner := none, consumers := s.consumers.set k { c with point := .asleep } }
  | takeWake {s : BoundedBuffer} {k : Nat} {c : Consumer} (known : s.consumers[k]? = some c)
      (there : c.point = .asleep) :
      BufferStep s (.wake (.consumer k))
        { s with consumers := s.consumers.set k { c with point := .woken } }
  | takeLeaveWait {s : BoundedBuffer} {k : Nat} {c : Consumer} (known : s.consumers[k]? = some c)
      (there : c.point = .testing) (filled : s.ring.count ≠ 0) :
      BufferStep s (.leaveWait (.consumer k))
        { s with consumers := s.consumers.set k { c with point := .ready } }
  /-- The item is read, `left` is what remains, and the producer is signalled. -/
  | take {s : BoundedBuffer} {k : Nat} {c : Consumer} {item : Int}
      (known : s.consumers[k]? = some c) (there : c.point = .ready)
      (read : s.ring.buffer[s.ring.head]? = some item) :
      BufferStep s (.take k item s.ring.take.count)
        { s with
          ring := s.ring.take, producer := s.producer.signalNotFull,
          consumers := s.consumers.set k { c with point := .leaving, item := item } }
  | takeUnlock {s : BoundedBuffer} {k : Nat} {c : Consumer} (known : s.consumers[k]? = some c)
      (there : c.point = .leaving) :
      BufferStep s (.unlock (.consumer k))
        { s with owner := none, consumers := s.consumers.set k c.next }

/-- Part 3 with one producer and so many consumers. -/
def bufferSystem (slots : Nat) (items : List Int) (consumers : Nat) :
    LabelledSystem BoundedBuffer BufferLabel where
  Init s := s = .start slots items consumers
  Step := BufferStep

/-! ## The lock -/

/-- The thread is inside its locked code. -/
def BoundedBuffer.holds (s : BoundedBuffer) : BufferThread → Bool
  | .producer => s.producer.point.holdsLock
  | .consumer k => (s.consumers[k]?).any fun c => c.point.holdsLock

/-- A thread is inside its locked code exactly when it owns the mutex. -/
def BoundedBuffer.Locked (s : BoundedBuffer) : Prop :=
  ∀ thread, s.owner = some thread ↔ s.holds thread = true

namespace BoundedBuffer.Locked

variable {s next : BoundedBuffer}

theorem kept (locked : s.Locked) (owner : next.owner = s.owner)
    (same : ∀ t, next.holds t = s.holds t) : next.Locked := fun t => by
  rw [owner, same]
  exact locked t

theorem moved (locked : s.Locked) (thread : BufferThread) (owner : next.owner = s.owner)
    (inside : next.holds thread = s.holds thread)
    (others : ∀ t, t ≠ thread → next.holds t = s.holds t) : next.Locked :=
  locked.kept owner fun t => by
    by_cases same : t = thread
    · exact same ▸ inside
    · exact others t same

theorem acquired (locked : s.Locked) (thread : BufferThread) (free : s.owner = none)
    (owner : next.owner = some thread) (inside : next.holds thread = true)
    (others : ∀ t, t ≠ thread → next.holds t = s.holds t) : next.Locked := by
  intro t
  rw [owner]
  by_cases same : t = thread
  · subst same
    exact ⟨fun _ => inside, fun _ => rfl⟩
  · have outside : s.holds t ≠ true := fun held => by
      rw [(locked t).mpr held] at free
      cases free
    rw [others t same]
    exact ⟨fun equal => absurd (Option.some.inj equal).symm same, fun held => absurd held outside⟩

theorem released (locked : s.Locked) (thread : BufferThread) (inside : s.holds thread = true)
    (owner : next.owner = none) (outside : next.holds thread = false)
    (others : ∀ t, t ≠ thread → next.holds t = s.holds t) : next.Locked := by
  intro t
  rw [owner]
  refine ⟨fun equal => (by cases equal), fun held => ?_⟩
  by_cases same : t = thread
  · rw [same, outside] at held
    cases held
  · rw [others t same, ← locked t, (locked thread).mpr inside] at held
    exact absurd (Option.some.inj held).symm same

/-- Two threads are not in their locked code at once. -/
theorem apart (locked : s.Locked) {thread other : BufferThread} (inside : s.holds thread = true)
    (inside' : s.holds other = true) : thread = other := by
  have owner := (locked thread).mpr inside
  rw [(locked other).mpr inside'] at owner
  exact (Option.some.inj owner).symm

end BoundedBuffer.Locked

theorem holds_producer_at {s : BoundedBuffer} {point : CallPoint}
    (there : s.producer.point = point) : s.holds .producer = point.holdsLock := by
  rw [BoundedBuffer.holds, there]

theorem holds_consumer_at {s : BoundedBuffer} {k : Nat} {c : Consumer} {point : CallPoint}
    (known : s.consumers[k]? = some c) (there : c.point = point) :
    s.holds (.consumer k) = point.holdsLock := by
  rw [BoundedBuffer.holds, known, Option.any_some, there]

/-- A step of the producer alone. -/
theorem holds_producer {s next : BoundedBuffer} (consumers : next.consumers = s.consumers) :
    ∀ t, t ≠ .producer → next.holds t = s.holds t := by
  intro t other
  cases t with
  | producer => exact absurd rfl other
  | consumer k => simp only [BoundedBuffer.holds, consumers]

/-- A consumer's step moves nobody else. -/
theorem holds_set {s next : BoundedBuffer} {k : Nat} {new : Consumer}
    (consumers : next.consumers = s.consumers.set k new)
    (producer : next.producer.point.holdsLock = s.producer.point.holdsLock) :
    ∀ t, t ≠ .consumer k → next.holds t = s.holds t := by
  intro t other
  cases t with
  | producer => exact producer
  | consumer j =>
      have apart : k ≠ j := fun same => other (same ▸ rfl)
      simp only [BoundedBuffer.holds, consumers, List.getElem?_set_ne apart]

theorem known_set {pool : List Consumer} {k : Nat} {old : Consumer} (known : pool[k]? = some old)
    (new : Consumer) : (pool.set k new)[k]? = some new :=
  List.getElem?_set_self (List.getElem?_eq_some_iff.mp known).choose

theorem holds_set_self {s next : BoundedBuffer} {k : Nat} {old new : Consumer} {inside : Bool}
    (known : s.consumers[k]? = some old) (consumers : next.consumers = s.consumers.set k new)
    (same : new.point.holdsLock = inside) : next.holds (.consumer k) = inside :=
  (holds_consumer_at (consumers ▸ known_set known new) rfl).trans same

/-- A signal wakes nobody into the locked code. -/
theorem SignalNotEmpty.holds {consumers after : List Consumer} {woken : Option Nat}
    (signal : SignalNotEmpty consumers woken after) (k : Nat) :
    ((after[k]?).any fun c => c.point.holdsLock) =
      (consumers[k]?).any fun c => c.point.holdsLock := by
  cases signal with
  | nobody awake => rfl
  | wakes there asleep =>
      rename_i j c
      by_cases same : j = k
      · subst same
        rw [known_set there, there, Option.any_some, Option.any_some, asleep]
        rfl
      · rw [List.getElem?_set_ne same]

theorem Producer.next_point (calls : List Int) :
    (Producer.next calls).point = .finished ∨ (Producer.next calls).point = .locking := by
  unfold Producer.next
  by_cases none : calls = []
  · exact .inl (if_pos none)
  · exact .inr (if_neg none)

theorem Consumer.next_point (c : Consumer) :
    c.next.point = .finished ∨ c.next.point = .locking := by
  unfold Consumer.next
  by_cases marker : c.item = -1
  · rw [if_pos marker]
    exact .inl rfl
  · rw [if_neg marker]
    exact .inr rfl

theorem Producer.next_elsewhere (calls : List Int) :
    (Producer.next calls).point ≠ .ready ∧ (Producer.next calls).point ≠ .asleep := by
  rcases Producer.next_point calls with there | there <;> simp [there]

theorem Consumer.next_elsewhere (c : Consumer) :
    c.next.point ≠ .ready ∧ c.next.point ≠ .asleep := by
  rcases c.next_point with there | there <;> simp [there]

theorem Producer.next_outside (calls : List Int) :
    (Producer.next calls).point.holdsLock = false := by
  rcases Producer.next_point calls with there | there <;> rw [there] <;> rfl

theorem Consumer.next_outside (c : Consumer) : c.next.point.holdsLock = false := by
  rcases c.next_point with there | there <;> rw [there] <;> rfl

theorem Producer.signalNotFull_holdsLock (p : Producer) :
    p.signalNotFull.point.holdsLock = p.point.holdsLock := by
  unfold Producer.signalNotFull
  split
  · rename_i asleep
    rw [asleep]
    rfl
  · rfl

theorem BufferStep.locked {s next : BoundedBuffer} {label : BufferLabel}
    (step : BufferStep s label next) (locked : s.Locked) : next.Locked := by
  cases step with
  | putLock wants free => exact locked.acquired .producer free rfl rfl (holds_producer rfl)
  | putWait there full =>
      exact locked.released .producer (holds_producer_at there) rfl rfl (holds_producer rfl)
  | putWake there | putLeaveWait there room =>
      exact locked.moved .producer rfl (holds_producer_at there).symm (holds_producer rfl)
  | put there current signal =>
      refine locked.kept rfl fun u => ?_
      cases u with
      | producer => exact (holds_producer_at there).symm
      | consumer k => exact signal.holds k
  | putUnlock there =>
      exact locked.released .producer (holds_producer_at there) rfl (Producer.next_outside _)
        (holds_producer rfl)
  | takeLock known wants free =>
      exact locked.acquired _ free rfl (holds_set_self known rfl rfl) (holds_set rfl rfl)
  | takeWait known there empty =>
      exact locked.released _ (holds_consumer_at known there) rfl (holds_set_self known rfl rfl)
        (holds_set rfl rfl)
  | takeWake known there | takeLeaveWait known there filled =>
      exact locked.moved _ rfl (holds_set_self known rfl (holds_consumer_at known there).symm)
        (holds_set rfl rfl)
  | take known there read =>
      exact locked.moved _ rfl (holds_set_self known rfl (holds_consumer_at known there).symm)
        (holds_set rfl (Producer.signalNotFull_holdsLock _))
  | takeUnlock known there =>
      exact locked.released _ (holds_consumer_at known there) rfl
        (holds_set_self known rfl (Consumer.next_outside _)) (holds_set rfl rfl)

/-! ## The queue -/

/-- The ring is the queue of these items, the next to be taken first. -/
structure Ring.Holds (r : Ring) (waiting : List Int) : Prop where
  head : r.head < r.slots
  tail : r.tail = (r.head + waiting.length) % r.slots
  count : r.count = waiting.length
  fits : waiting.length ≤ r.slots
  cells : RingHolds r.buffer r.head waiting

@[simp] theorem Ring.put_slots (r : Ring) (item : Int) : (r.put item).slots = r.slots :=
  List.length_set

theorem Ring.Holds.put {r : Ring} {waiting : List Int} (holds : r.Holds waiting)
    (room : waiting.length < r.slots) (item : Int) : (r.put item).Holds (waiting ++ [item]) where
  head := by
    rw [Ring.put_slots]
    exact holds.head
  tail := by
    rw [Ring.put_slots, List.length_append, List.length_singleton]
    simp only [Ring.put, holds.tail, Nat.mod_add_mod, Nat.add_assoc]
  count := by
    simp only [Ring.put, holds.count, List.length_append, List.length_singleton]
    norm_cast
  fits := by
    rw [Ring.put_slots, List.length_append, List.length_singleton]
    exact room
  cells := by
    have put := holds.cells.put room item
    rwa [← Ring.slots, ← holds.tail] at put

theorem Ring.Holds.take {r : Ring} {item : Int} {waiting : List Int}
    (holds : r.Holds (item :: waiting)) :
    r.buffer[r.head]? = some item ∧ r.take.Holds waiting := by
  have fits := holds.fits
  rw [List.length_cons] at fits
  refine ⟨holds.cells.front holds.head, ?_, ?_, ?_, ?_, holds.cells.drop⟩
  · exact Nat.mod_lt _ (by omega)
  · have tail := holds.tail
    rw [List.length_cons] at tail
    simp only [Ring.take, Ring.slots, Nat.mod_add_mod] at tail ⊢
    rw [tail, Nat.add_right_comm, Nat.add_assoc]
  · have count := holds.count
    rw [List.length_cons] at count
    simp only [Ring.take, count]
    omega
  · exact Nat.le_of_succ_le fits

def BufferLabel.put? : BufferLabel → Option Int
  | .put item _ => some item
  | _ => none

def BufferLabel.take? : BufferLabel → Option Int
  | .take _ item _ => some item
  | _ => none

/-- What was put, in order. -/
def puts (trace : List BufferLabel) : List Int := trace.filterMap BufferLabel.put?

/-- What was taken, in order. -/
def takes (trace : List BufferLabel) : List Int := trace.filterMap BufferLabel.take?

theorem puts_snoc (trace : List BufferLabel) (label : BufferLabel) :
    puts (trace ++ [label]) = puts trace ++ label.put?.toList := by
  rw [puts, List.filterMap_append, ← puts]
  cases label <;> rfl

theorem takes_snoc (trace : List BufferLabel) (label : BufferLabel) :
    takes (trace ++ [label]) = takes trace ++ label.take?.toList := by
  rw [takes, List.filterMap_append, ← takes]
  cases label <;> rfl

/-- The ring is what was put and not yet taken, and the producer keeps to its program. -/
structure Queued (program : List Int) (trace : List BufferLabel) (s : BoundedBuffer)
    (waiting : List Int) : Prop where
  ring : s.ring.Holds waiting
  order : puts trace = takes trace ++ waiting
  calls : puts trace ++ s.producer.calls = program

/-- A thread past its wait loop still finds what it waited for. -/
structure BoundedBuffer.Ready (s : BoundedBuffer) : Prop where
  producer : s.producer.point = .ready → s.ring.count ≠ s.ring.slots
  consumer : ∀ (k : Nat) (c : Consumer), s.consumers[k]? = some c → c.point = .ready →
    s.ring.count ≠ 0

@[simp] theorem Producer.signalNotFull_calls (p : Producer) : p.signalNotFull.calls = p.calls := by
  unfold Producer.signalNotFull
  split <;> rfl

/-- Steps that neither put nor take. -/
theorem Queued.quiet {program waiting : List Int} {trace : List BufferLabel}
    {s next : BoundedBuffer} {label : BufferLabel} (queued : Queued program trace s waiting)
    (put : label.put? = none) (take : label.take? = none) (ring : next.ring = s.ring)
    (calls : next.producer.calls = s.producer.calls) :
    Queued program (trace ++ [label]) next waiting where
  ring := ring ▸ queued.ring
  order := by
    rw [puts_snoc, takes_snoc, put, take, Option.toList_none, List.append_nil, List.append_nil]
    exact queued.order
  calls := by
    rw [puts_snoc, put, Option.toList_none, List.append_nil, calls]
    exact queued.calls

theorem BufferStep.queued {program waiting : List Int} {trace : List BufferLabel}
    {s next : BoundedBuffer} {label : BufferLabel} (step : BufferStep s label next)
    (ready : s.Ready) (queued : Queued program trace s waiting) :
    ∃ after, Queued program (trace ++ [label]) next after := by
  have count := queued.ring.count
  cases step with
  | put there current signal =>
      rename_i item calls woken consumers
      have room : waiting.length < s.ring.slots := by
        have fits := queued.ring.fits
        have unfilled := ready.producer there
        omega
      refine ⟨waiting ++ [item], queued.ring.put room item, ?_, ?_⟩
      · rw [puts_snoc, takes_snoc, queued.order, List.append_assoc]
        simp only [BufferLabel.put?, BufferLabel.take?, Option.toList_some, Option.toList_none,
          List.append_nil]
      · rw [puts_snoc, ← queued.calls, current, List.append_assoc]
        rfl
  | take known there read =>
      rename_i k c item
      have filled := ready.consumer _ _ known there
      cases waiting with
      | nil => exact absurd count filled
      | cons first rest =>
          obtain ⟨front, taken⟩ := queued.ring.take
          rw [read] at front
          obtain rfl := Option.some.inj front
          refine ⟨rest, taken, ?_, ?_⟩
          · rw [puts_snoc, takes_snoc, queued.order]
            simp only [BufferLabel.put?, BufferLabel.take?, Option.toList_some, Option.toList_none,
              List.append_nil, List.append_assoc, List.singleton_append]
          · rw [puts_snoc, Producer.signalNotFull_calls]
            simp only [BufferLabel.put?, Option.toList_none, List.append_nil]
            exact queued.calls
  | _ => exact ⟨waiting, queued.quiet rfl rfl rfl rfl⟩

/-- A consumer that is not past its loop after the step. -/
theorem BoundedBuffer.Ready.elsewhere {s next : BoundedBuffer} (ready : s.Ready) {k : Nat}
    {new : Consumer} (consumers : next.consumers = s.consumers.set k new)
    (other : new.point = .ready → s.ring.count ≠ 0) (ring : next.ring = s.ring)
    (producer : next.producer = s.producer) : next.Ready where
  producer := by
    rw [producer, ring]
    exact ready.producer
  consumer j c known there := by
    rw [consumers] at known
    rw [ring]
    rcases getElem?_set_cases known with ⟨_, rfl⟩ | ⟨_, kept⟩
    · exact other there
    · exact ready.consumer j c kept there

theorem BufferStep.ready {s next : BoundedBuffer} {label : BufferLabel}
    (step : BufferStep s label next) (locked : s.Locked) {waiting : List Int}
    (ring : s.ring.Holds waiting) (ready : s.Ready) : next.Ready := by
  cases step with
  | putLock | putWait | putWake => exact ⟨by simp, ready.consumer⟩
  | putLeaveWait there room => exact ⟨fun _ => room, ready.consumer⟩
  | put there current signal =>
      refine ⟨by simp, fun _ _ _ _ => ?_⟩
      have count := ring.count
      simp only [Ring.put]
      omega
  | putUnlock there =>
      exact ⟨fun past => absurd past (Producer.next_elsewhere _).1, ready.consumer⟩
  | takeLock known wants free => exact ready.elsewhere rfl (by simp) rfl rfl
  | takeWait known there empty => exact ready.elsewhere rfl (by simp) rfl rfl
  | takeWake known there => exact ready.elsewhere rfl (by simp) rfl rfl
  | takeLeaveWait known there filled => exact ready.elsewhere rfl (fun _ => filled) rfl rfl
  | take known there read =>
      rename_i k c item
      have inside : s.holds (.consumer k) = true := holds_consumer_at known there
      constructor
      · intro past
        have held : s.holds .producer = true := by
          rw [BoundedBuffer.holds, ← Producer.signalNotFull_holdsLock, past]
          rfl
        cases locked.apart inside held
      · intro j other known' past
        rcases getElem?_set_cases known' with ⟨_, rfl⟩ | ⟨apart, kept⟩
        · cases past
        · have held : s.holds (.consumer j) = true := holds_consumer_at kept past
          cases locked.apart inside held
          exact absurd rfl apart
  | takeUnlock known there =>
      rename_i k c
      exact ready.elsewhere rfl (fun past => absurd past c.next_elsewhere.1) rfl rfl

end KernelMonitor
