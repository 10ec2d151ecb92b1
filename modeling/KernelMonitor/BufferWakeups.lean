import KernelMonitor.BoundedBuffer

/-! # Complete runs of the bounded buffer

Which stop markers were taken and by whom, who sleeps while there is something to do,
and what follows for every run: the consumers take what was put, in order, and no
schedule puts everybody to sleep.
-/

namespace KernelMonitor

open Library

/-! ## Stop markers -/

/-- The consumer has taken its stop marker. -/
def Consumer.stopped (c : Consumer) : Bool :=
  c.point = .finished || (c.point = .leaving && c.item = -1)

/-- What a consumer took, in order. -/
def takesBy (k : Nat) (trace : List BufferLabel) : List Int :=
  trace.filterMap fun label =>
    match label with
    | .take j item _ => if j = k then some item else none
    | _ => none

/-- The stop markers taken are those of the consumers that have stopped. -/
structure Marked (trace : List BufferLabel) (s : BoundedBuffer) : Prop where
  all : (takes trace).count (-1) = s.consumers.countP Consumer.stopped
  own : ∀ (k : Nat) (c : Consumer), s.consumers[k]? = some c →
    (takesBy k trace).count (-1) = c.stopped.toNat

theorem Consumer.next_stopped {c : Consumer} (there : c.point = .leaving) :
    c.next.stopped = c.stopped := by
  unfold Consumer.next Consumer.stopped
  by_cases marker : c.item = -1 <;> simp [marker, there]

theorem takesBy_take (k j : Nat) (trace : List BufferLabel) (item left : Int) :
    takesBy k (trace ++ [.take j item left]) =
      takesBy k trace ++ if j = k then [item] else [] := by
  rw [takesBy, List.filterMap_append, ← takesBy]
  congr 1
  by_cases same : j = k <;> simp [same]

theorem takesBy_quiet {k : Nat} {trace : List BufferLabel} {label : BufferLabel}
    (quiet : label.take? = none) : takesBy k (trace ++ [label]) = takesBy k trace := by
  rw [takesBy, List.filterMap_append, ← takesBy]
  cases label with
  | take => cases quiet
  | _ => exact List.append_nil _

/-- A consumer that did not take anything is as far as it was. -/
theorem Marked.quiet {trace : List BufferLabel} {s next : BoundedBuffer} {label : BufferLabel}
    (marked : Marked trace s) (quiet : label.take? = none) {k : Nat} {old new : Consumer}
    (known : s.consumers[k]? = some old) (consumers : next.consumers = s.consumers.set k new)
    (same : new.stopped = old.stopped) : Marked (trace ++ [label]) next where
  all := by
    have counted := countP_set_add Consumer.stopped known new
    rw [same] at counted
    rw [takes_snoc, quiet, Option.toList_none, List.append_nil, marked.all, consumers]
    omega
  own j c known' := by
    rw [consumers] at known'
    rw [takesBy_quiet quiet]
    rcases getElem?_set_cases known' with ⟨rfl, rfl⟩ | ⟨_, kept⟩
    · rw [same]
      exact marked.own _ _ known
    · exact marked.own _ _ kept

theorem Marked.kept {trace : List BufferLabel} {s next : BoundedBuffer} {label : BufferLabel}
    (marked : Marked trace s) (quiet : label.take? = none)
    (consumers : next.consumers = s.consumers) : Marked (trace ++ [label]) next where
  all := by
    rw [takes_snoc, quiet, Option.toList_none, List.append_nil, marked.all, consumers]
  own j c known := by
    rw [consumers] at known
    rw [takesBy_quiet quiet]
    exact marked.own _ _ known

theorem BufferStep.marked {trace : List BufferLabel} {s next : BoundedBuffer}
    {label : BufferLabel} (step : BufferStep s label next) (marked : Marked trace s) :
    Marked (trace ++ [label]) next := by
  cases step with
  | put there current signal =>
      cases signal with
      | nobody awake => exact marked.kept rfl rfl
      | wakes known asleep => exact marked.quiet rfl known rfl (by simp [Consumer.stopped, asleep])
  | takeLock known wants free =>
      refine marked.quiet rfl known rfl ?_
      rcases CallPoint.wantsLock_cases wants with there | there <;> simp [Consumer.stopped, there]
  | takeWait known there | takeWake known there | takeLeaveWait known there =>
      exact marked.quiet rfl known rfl (by simp [Consumer.stopped, there])
  | take known there read =>
      rename_i k c item
      have fresh : c.stopped = false := by simp [Consumer.stopped, there]
      have last :
          Consumer.stopped { c with point := .leaving, item := item } = decide (item = -1) := by
        simp [Consumer.stopped]
      have one : [item].count (-1) = (decide (item = -1)).toNat := by
        by_cases marker : item = -1 <;> simp [marker]
      constructor
      · have counted := countP_set_add Consumer.stopped known
          { c with point := .leaving, item := item }
        rw [fresh, last, Bool.toNat_false, Nat.add_zero] at counted
        rw [takes_snoc, BufferLabel.take?, Option.toList_some, List.count_append, one, marked.all,
          counted]
      · intro j other known'
        rw [takesBy_take]
        rcases getElem?_set_cases known' with ⟨rfl, rfl⟩ | ⟨apart, kept⟩
        · rw [if_pos rfl, List.count_append, one, marked.own _ _ known, fresh, last,
            Bool.toNat_false, Nat.zero_add]
        · rw [if_neg (Ne.symm apart), List.append_nil]
          exact marked.own _ _ kept
  | takeUnlock known there => exact marked.quiet rfl known rfl (Consumer.next_stopped there)
  | _ => exact marked.kept rfl rfl

/-! ## Sleepers -/

/-- The producer sleeps or waits for the lock only in a call it has to make. -/
structure Producer.InTurn (p : Producer) : Prop where
  busy : p.point ≠ .finished → p.point ≠ .leaving → p.calls ≠ []
  done : p.point = .finished → p.calls = []

theorem Producer.next_inTurn (calls : List Int) : (Producer.next calls).InTurn := by
  unfold Producer.next
  by_cases none : calls = []
  · exact ⟨by simp [none], by simp [none]⟩
  · exact ⟨by simp [none], by simp [none]⟩

theorem BufferStep.inTurn {s next : BoundedBuffer} {label : BufferLabel}
    (step : BufferStep s label next) (turn : s.producer.InTurn) : next.producer.InTurn := by
  cases step with
  | putLock wants free =>
      refine ⟨fun _ _ => turn.busy ?_ ?_, by simp⟩ <;>
        rcases CallPoint.wantsLock_cases wants with there | there <;> simp [there]
  | putWait there | putWake there | putLeaveWait there =>
      exact ⟨fun _ _ => turn.busy (by simp [there]) (by simp [there]), by simp⟩
  | put there current signal => exact ⟨by simp, by simp⟩
  | putUnlock there => exact Producer.next_inTurn _
  | take known there read =>
      unfold Producer.signalNotFull
      split
      · rename_i asleep
        exact ⟨fun _ _ => turn.busy (by simp [asleep]) (by simp [asleep]), by simp⟩
      · exact turn
  | _ => exact turn

/-- The consumer is awake and will look at the count before it stops. -/
def Consumer.seeking (c : Consumer) : Bool := c.point ≠ .asleep && !c.stopped

/-- No wakeup is lost: the producer sleeps on a full buffer only, and while a consumer
    sleeps there are no more items than consumers still looking for one. -/
structure BoundedBuffer.Awake (s : BoundedBuffer) : Prop where
  producer : s.producer.point = .asleep → s.ring.count = s.ring.slots
  consumers : (∃ c ∈ s.consumers, c.point = .asleep) →
    s.ring.count ≤ s.consumers.countP Consumer.seeking

/-- A consumer's step between takes, and not into a wait. -/
theorem BoundedBuffer.Awake.elsewhere {s next : BoundedBuffer} (awake : s.Awake) {k : Nat}
    {old new : Consumer} (known : s.consumers[k]? = some old)
    (consumers : next.consumers = s.consumers.set k new)
    (looks : old.seeking = true → new.seeking = true) (up : new.point ≠ .asleep)
    (ring : next.ring = s.ring) (producer : next.producer = s.producer) : next.Awake where
  producer := by
    rw [producer, ring]
    exact awake.producer
  consumers := by
    rw [consumers, ring]
    rintro ⟨c, member, asleep⟩
    have counted := countP_set_add Consumer.seeking known new
    have more : old.seeking.toNat ≤ new.seeking.toNat := Bool.toNat_le_toNat looks
    rcases List.mem_or_eq_of_mem_set member with before | rfl
    · have enough := awake.consumers ⟨c, before, asleep⟩
      omega
    · exact absurd asleep up

theorem BufferStep.awake {s next : BoundedBuffer} {label : BufferLabel}
    (step : BufferStep s label next) (awake : s.Awake) : next.Awake := by
  cases step with
  | putLock | putWake | putLeaveWait => exact ⟨by simp, awake.consumers⟩
  | putWait there full => exact ⟨fun _ => full, awake.consumers⟩
  | put there current signal =>
      refine ⟨by simp, ?_⟩
      rintro ⟨c, member, asleep⟩
      cases signal with
      | nobody none => exact absurd asleep (none c member)
      | wakes known sleeping =>
          rename_i k old
          have counted := countP_set_add Consumer.seeking known { old with point := .woken }
          have before : old.seeking = false := by simp [Consumer.seeking, sleeping]
          have after : Consumer.seeking { old with point := .woken } = true := by
            simp [Consumer.seeking, Consumer.stopped]
          have enough := awake.consumers ⟨old, List.mem_of_getElem? known, sleeping⟩
          rw [before, after, Bool.toNat_false, Bool.toNat_true] at counted
          simp only [Ring.put]
          omega
  | putUnlock there =>
      exact ⟨fun asleep => absurd asleep (Producer.next_elsewhere _).2, awake.consumers⟩
  | takeLock known wants free =>
      exact awake.elsewhere known rfl (fun _ => by simp [Consumer.seeking, Consumer.stopped])
        (by simp) rfl rfl
  | takeWait known there empty =>
      refine ⟨awake.producer, fun _ => ?_⟩
      rw [empty]
      exact Int.natCast_nonneg _
  | takeWake known there | takeLeaveWait known there =>
      exact awake.elsewhere known rfl (fun _ => by simp [Consumer.seeking, Consumer.stopped])
        (by simp) rfl rfl
  | take known there read =>
      rename_i k old item
      constructor
      · intro asleep
        unfold Producer.signalNotFull at asleep
        split at asleep
        · cases asleep
        · contradiction
      · rintro ⟨c, member, asleep⟩
        have counted := countP_set_add Consumer.seeking known
          { old with point := .leaving, item := item }
        have before : old.seeking = true := by simp [Consumer.seeking, Consumer.stopped, there]
        rw [before, Bool.toNat_true] at counted
        rcases List.mem_or_eq_of_mem_set member with kept | rfl
        · have enough := awake.consumers ⟨c, kept, asleep⟩
          simp only [Ring.take]
          omega
        · cases asleep
  | takeUnlock known there =>
      rename_i k c
      have up : c.next.point ≠ .asleep := c.next_elsewhere.2
      refine awake.elsewhere known rfl (fun seeks => ?_) up rfl rfl
      simp only [Consumer.seeking, Bool.and_eq_true, decide_eq_true_eq] at seeks ⊢
      rw [Consumer.next_stopped there]
      exact ⟨up, seeks.2⟩

/-! ## Whole runs -/

/-- Everything that holds of a run, step by step. -/
structure BoundedBuffer.Sound (slots : Nat) (items : List Int) (consumers : Nat)
    (trace : List BufferLabel) (s : BoundedBuffer) : Prop where
  size : s.ring.slots = slots
  workers : s.consumers.length = consumers
  locked : s.Locked
  ready : s.Ready
  queued : ∃ waiting, Queued (producerCalls items consumers) trace s waiting
  marked : Marked trace s
  inTurn : s.producer.InTurn
  awake : s.Awake

theorem BufferStep.sizes {s next : BoundedBuffer} {label : BufferLabel}
    (step : BufferStep s label next) :
    next.ring.slots = s.ring.slots ∧ next.consumers.length = s.consumers.length := by
  cases step with
  | put there current signal =>
      refine ⟨Ring.put_slots _ _, ?_⟩
      cases signal with
      | nobody awake => rfl
      | wakes known asleep => exact List.length_set
  | putLock | putWait | putWake | putLeaveWait | putUnlock => exact ⟨rfl, rfl⟩
  | _ => exact ⟨rfl, List.length_set⟩

theorem start_sound {slots : Nat} (capacity : 0 < slots) (items : List Int) (consumers : Nat) :
    (BoundedBuffer.start slots items consumers).Sound slots items consumers [] := by
  have each {c : Consumer} (member : c ∈ List.replicate consumers ⟨.locking, 0, 0⟩) :
      c = ⟨.locking, 0, 0⟩ := List.eq_of_mem_replicate member
  refine {
    size := List.length_replicate
    workers := List.length_replicate
    locked := ?_
    ready := ⟨fun past => absurd past (Producer.next_elsewhere _).1, ?_⟩
    queued := ⟨[], ⟨?_, ?_, rfl, Nat.zero_le _, .nil _ _⟩, rfl, rfl⟩
    marked := ⟨?_, ?_⟩
    inTurn := Producer.next_inTurn _
    awake := ⟨fun asleep => absurd asleep (Producer.next_elsewhere _).2, ?_⟩ }
  · intro thread
    refine ⟨fun owner => (by cases owner), fun held => ?_⟩
    cases thread with
    | producer =>
        rw [BoundedBuffer.holds, BoundedBuffer.start, Producer.next_outside] at held
        cases held
    | consumer k =>
        obtain ⟨c, known, inside⟩ := (Option.any_eq_true _ _).mp held
        rw [each (List.mem_of_getElem? known)] at inside
        cases inside
  · intro k c known past
    rw [each (List.mem_of_getElem? known)] at past
    cases past
  · simpa [BoundedBuffer.start, Ring.slots] using capacity
  · simp [BoundedBuffer.start, Ring.slots]
  · simp [BoundedBuffer.start, takes, Consumer.stopped, List.countP_replicate]
  · intro k c known
    rw [each (List.mem_of_getElem? known)]
    rfl
  · rintro ⟨c, member, asleep⟩
    rw [each member] at asleep
    cases asleep

theorem buffer_sound {slots consumers : Nat} {items : List Int} {trace : List BufferLabel}
    {s : BoundedBuffer} (capacity : 0 < slots)
    (history : (bufferSystem slots items consumers).Trace trace s) :
    s.Sound slots items consumers trace := by
  apply history.induct (P := fun trace s => s.Sound slots items consumers trace)
  · rintro _ rfl
    exact start_sound capacity items consumers
  · intro trace s label next _ sound step
    obtain ⟨waiting, queued⟩ := sound.queued
    obtain ⟨sameSlots, sameConsumers⟩ := BufferStep.sizes step
    exact {
      size := sameSlots.trans sound.size
      workers := sameConsumers.trans sound.workers
      locked := BufferStep.locked step sound.locked
      ready := BufferStep.ready step sound.locked queued.ring sound.ready
      queued := BufferStep.queued step sound.ready queued
      marked := BufferStep.marked step sound.marked
      inTurn := BufferStep.inTurn step sound.inTurn
      awake := BufferStep.awake step sound.awake }

/-! ## What a run does -/

def BoundedBuffer.AllFinished (s : BoundedBuffer) : Prop :=
  s.producer.point = .finished ∧ ∀ c ∈ s.consumers, c.point = .finished

/-- Some thread has not finished, and all such sleep with no wakeup on its way. -/
def BoundedBuffer.Stuck (s : BoundedBuffer) : Prop :=
  ¬ s.AllFinished ∧ (s.producer.point = .finished ∨ s.producer.point = .asleep) ∧
    ∀ c ∈ s.consumers, c.point = .finished ∨ c.point = .asleep

section Runs

variable {slots consumers : Nat} {items : List Int} {trace : List BufferLabel} {s : BoundedBuffer}

theorem BoundedBuffer.Sound.takes_front (sound : s.Sound slots items consumers trace) :
    takes trace <+: producerCalls items consumers := by
  obtain ⟨waiting, queued⟩ := sound.queued
  refine ⟨waiting ++ s.producer.calls, ?_⟩
  rw [← List.append_assoc, ← queued.order, queued.calls]

/-- Once every consumer has stopped, everything was taken. -/
theorem BoundedBuffer.Sound.takes_all (sound : s.Sound slots items consumers trace)
    (plain : -1 ∉ items) (some : 0 < consumers ∨ items = [])
    (stopped : ∀ c ∈ s.consumers, c.stopped = true) :
    takes trace = producerCalls items consumers := by
  refine prefix_of_all_marks plain some sound.takes_front ?_
  rw [sound.marked.all, List.countP_eq_length.mpr stopped, sound.workers]

theorem Consumer.stopped_of_finished {c : Consumer} (done : c.point = .finished) :
    c.stopped = true := by simp [Consumer.stopped, done]

/-- With everybody asleep the counts of items, of markers taken and of consumers that
    have stopped do not add up. -/
theorem BoundedBuffer.Sound.not_stuck (sound : s.Sound slots items consumers trace)
    (capacity : 0 < slots) (plain : -1 ∉ items) (some : 0 < consumers ∨ items.length ≤ slots) :
    ¬ s.Stuck := by
  rintro ⟨unfinished, producer, pool⟩
  obtain ⟨waiting, queued⟩ := sound.queued
  have count := queued.ring.count
  have size := sound.size
  by_cases sleeper : ∃ c ∈ s.consumers, c.point = .asleep
  · -- nobody looks for items, so there are none, and the producer is done
    have none : s.consumers.countP Consumer.seeking = 0 := by
      refine List.countP_eq_zero.mpr fun c member => ?_
      rcases pool c member with done | asleep
      · simp [Consumer.seeking, Consumer.stopped, done]
      · simp [Consumer.seeking, asleep]
    have few := sound.awake.consumers sleeper
    have empty : waiting = [] := List.length_eq_zero_iff.mp (by omega)
    have done : s.producer.point = .finished := by
      refine producer.resolve_right fun asleep => ?_
      have full := sound.awake.producer asleep
      omega
    have all := queued.calls
    rw [sound.inTurn.done done, List.append_nil, queued.order, empty, List.append_nil] at all
    have markers := sound.marked.all
    rw [all, producerCalls, List.count_append, List.count_replicate_self,
      List.count_eq_zero_of_not_mem plain, Nat.zero_add, ← sound.workers] at markers
    obtain ⟨c, member, asleep⟩ := sleeper
    have stopped := List.countP_eq_length.mp markers.symm c member
    simp [Consumer.stopped, asleep] at stopped
  · -- the consumers have all finished, and the producer sleeps on a full buffer
    have finished : ∀ c ∈ s.consumers, c.point = .finished := fun c member =>
      (pool c member).resolve_right fun asleep => sleeper ⟨c, member, asleep⟩
    have asleep : s.producer.point = .asleep :=
      producer.resolve_left fun done => unfinished ⟨done, finished⟩
    have full := sound.awake.producer asleep
    have calls := sound.inTurn.busy (by simp [asleep]) (by simp [asleep])
    have whole := queued.calls
    rw [queued.order] at whole
    have lengths := congrArg List.length whole
    have more := List.length_pos_iff.mpr calls
    rw [List.length_append, List.length_append] at lengths
    by_cases any : 0 < consumers
    · rw [sound.takes_all plain (.inl any) fun c member =>
        Consumer.stopped_of_finished (finished c member)] at lengths
      omega
    · have zero : consumers = 0 := by omega
      rw [producerCalls, zero, List.replicate_zero, List.append_nil] at lengths
      omega

end Runs

/-- In every run, whatever the schedule, the spurious wakeups and the sleepers the signals
    choose: the count stays within the capacity, and from `g_head` on the slots hold what
    was put and not yet taken, in order. What was taken is a front part of the items and
    then the stop markers; a consumer takes one marker and no more, and once everybody
    has finished everything was taken. With a consumer, or room for all items, no state
    has every unfinished thread asleep. -/
theorem bounded_buffer_fifo {slots consumers : Nat} {items : List Int}
    {trace : List BufferLabel} {s : BoundedBuffer} (capacity : 0 < slots) (plain : -1 ∉ items)
    (history : (bufferSystem slots items consumers).Trace trace s) :
    (0 ≤ s.ring.count ∧ s.ring.count ≤ slots) ∧
    (∃ waiting, puts trace = takes trace ++ waiting ∧ s.ring.count = waiting.length ∧
      ∀ i < waiting.length, s.ring.buffer[(s.ring.head + i) % slots]? = waiting[i]?) ∧
    puts trace <+: producerCalls items consumers ∧
    (s.consumers.length = consumers ∧ ∀ (k : Nat) (c : Consumer), s.consumers[k]? = some c →
      (takesBy k trace).count (-1) ≤ 1 ∧
        (c.point = .finished → (takesBy k trace).count (-1) = 1)) ∧
    (0 < consumers ∨ items = [] → s.AllFinished →
      takes trace = producerCalls items consumers) ∧
    (0 < consumers ∨ items.length ≤ slots → ¬ s.Stuck) := by
  have sound := buffer_sound capacity history
  obtain ⟨waiting, queued⟩ := sound.queued
  have ring := queued.ring
  have size := sound.size
  refine ⟨?_, ⟨waiting, queued.order, ring.count, ?_⟩, ⟨_, queued.calls⟩,
    ⟨sound.workers, fun k c known => ?_⟩, fun some finished => ?_, sound.not_stuck capacity plain⟩
  · have count := ring.count
    have fits := ring.fits
    omega
  · intro i inside
    have held := ring.cells i inside
    rwa [← Ring.slots, size] at held
  · have own := sound.marked.own k c known
    refine ⟨own ▸ Bool.toNat_le _, fun done => ?_⟩
    rw [own, Consumer.stopped_of_finished done]
    rfl
  · exact sound.takes_all plain some fun c member =>
      Consumer.stopped_of_finished (finished.2 c member)

/-! One slot, one item and a consumer that begins by falling asleep. -/

theorem example_handover :
    ∃ trace s, (bufferSystem 1 [5] 1).Trace trace s ∧ s.AllFinished := by
  refine ⟨_, _, ⟨_, rfl,
    .cons (.takeLock (k := 0) rfl rfl rfl) <| .cons (.takeWait (k := 0) rfl rfl rfl) <|
    .cons (.putLock rfl rfl) <| .cons (.putLeaveWait rfl (by decide)) <|
    .cons (.put rfl rfl (.wakes (k := 0) rfl rfl)) <| .cons (.putUnlock rfl) <|
    .cons (.takeLock (k := 0) rfl rfl rfl) <| .cons (.takeLeaveWait (k := 0) rfl rfl (by decide)) <|
    .cons (.take (k := 0) rfl rfl rfl) <| .cons (.takeUnlock (k := 0) rfl rfl) <|
    .cons (.putLock rfl rfl) <| .cons (.putLeaveWait rfl (by decide)) <|
    .cons (.put rfl rfl (.nobody (by decide))) <| .cons (.putUnlock rfl) <|
    .cons (.takeLock (k := 0) rfl rfl rfl) <| .cons (.takeLeaveWait (k := 0) rfl rfl (by decide)) <|
    .cons (.take (k := 0) rfl rfl rfl) <| .single (.takeUnlock (k := 0) rfl rfl)⟩, ?_⟩
  exact ⟨rfl, by decide⟩

theorem bounded_buffer_fifo_example :
    ∃ trace s, (bufferSystem 1 [5] 1).Trace trace s ∧ s.AllFinished ∧ ¬ s.Stuck ∧
      takes trace = producerCalls [5] 1 := by
  obtain ⟨trace, s, history, finished⟩ := example_handover
  obtain ⟨_, _, _, _, everything, awake⟩ := bounded_buffer_fifo (by decide) (by decide) history
  exact ⟨trace, s, history, finished, awake (.inl (by decide)),
    everything (.inl (by decide)) finished⟩

/-- Without consumers a producer of two items sleeps on a full slot for good. -/
theorem example_alone :
    ∃ trace s, (bufferSystem 1 [1, 2] 0).Trace trace s ∧ s.producer.point = .asleep ∧
      s.consumers = [] := by
  refine ⟨_, _, ⟨_, rfl,
    .cons (.putLock rfl rfl) <| .cons (.putLeaveWait rfl (by decide)) <|
    .cons (.put rfl rfl (.nobody (by decide))) <| .cons (.putUnlock rfl) <|
    .cons (.putLock rfl rfl) <| .single (.putWait rfl rfl)⟩, rfl, rfl⟩

theorem producer_alone_stuck :
    ¬ ∀ slots consumers items trace s, 0 < slots → -1 ∉ items →
      (bufferSystem slots items consumers).Trace trace s → ¬ s.Stuck := by
  intro every
  obtain ⟨trace, s, history, asleep, alone⟩ := example_alone
  refine every 1 0 [1, 2] trace s (by decide) (by decide) history ⟨?_, .inr asleep, ?_⟩
  · rintro ⟨done, _⟩
    rw [asleep] at done
    cases done
  · rw [alone]
    simp

end KernelMonitor
