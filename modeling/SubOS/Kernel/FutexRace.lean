import SubOS.Kernel.Futex

set_option autoImplicit false

/-!
# Which tasks `futex_wake` wakes

`futex_wake` wakes the longest waiting sleeper of a bucket, or all of them; its caller asks for a
number of tasks that wait on one address. `futex_wait` tests the word and only later links an entry,
and nothing keeps the two together. A wake-up is lost only there, or when a call for one task is
used up by a sleeper on another address.

## Main definitions

* `Futex.parked`, `Futex.WakesExactly` — the parked tasks, and what a caller may expect.
* `Futex.Suits`, `Watched.Reaches` — when a call does so.

## Main results

* `Futex.wakesExactly_iff` — a call wakes as expected exactly if the sleepers suit it.
* `Watched.not_parked_run`, `Watched.wake_up_lost` — wake-ups that are not lost, and one that is.

## Design

The record is never read by the system. `changed t` says that the word of the call in which `t`
waits has been given another value since the test, and `owed t` that then a `futex_wake` on the
word was executed that asks for at least as many tasks as wait on it.
-/

namespace SubOS.Kernel

open EventRun Option List Futex

open Function (update update_self update_of_ne update_eq_self)

variable {i : EntryId} {q : QueueId}

/-- The call of `futex_wait` that has found the expected value and has not entered the wait. -/
def FPc.transit : FPc → Option FutexCall
  | .claim c | .count c | .countWaits c | .countActive c | .enter c => some c
  | _ => none

namespace Futex

/-- The address on which a task is parked: it is on the queue and its entry is not flipped. -/
def parkedAt (f : Futex) (t : TaskId) : Option Addr :=
  match f.frame t, (f.sys.ctx t).pc.linked with
  | .waiting c, some (_, i) => if (f.sys.waits.pool i).woken then none else some c.uaddr
  | _, _ => none

/-- The tasks parked on an address. -/
def parked (f : Futex) (uaddr : Addr) : Finset TaskId :=
  (Finset.range f.sys.sched.nextPid).filter fun t => f.parkedAt t = some uaddr

/-- The tasks that are parked in `f` and no longer in `f'`. -/
def wokenBy (f f' : Futex) : Finset TaskId :=
  (Finset.range f.sys.sched.nextPid).filter fun t => f.parkedAt t ≠ none ∧ f'.parkedAt t = none

/-- `futex_wake(uaddr, n)` wakes `n` of the tasks parked on the address, or all if there are fewer,
returns their number, and leaves every other task parked as it is. -/
structure WakesExactly (f : Futex) (uaddr : Addr) (n : ℕ) : Prop where
  on : ∀ t ∈ f.wokenBy (f.futexWake uaddr n).1, f.parkedAt t = some uaddr
  number : (f.wokenBy (f.futexWake uaddr n).1).card = min n (f.parked uaddr).card
  returned : (f.futexWake uaddr n).2 = min n (f.parked uaddr).card
  others : ∀ t, f.parkedAt t ≠ some uaddr →
    (f.futexWake uaddr n).1.parkedAt t = f.parkedAt t

/-- The tasks that sleep in the bucket of an address, the longest waiting first. -/
def bucketTasks (f : Futex) (uaddr : Addr) : List TaskId :=
  (f.sys.sleepers (futexHash uaddr)).map fun i => (f.sys.waits.pool i).task.getD 0

/-- The sleepers of the bucket suit a call: if the caller asks for no task, nobody sleeps in the
bucket; if it asks for one, the longest waiting sleeper waits on the address; and if it asks for
more, all sleepers wait on the address and there are not more of them. -/
def Suits (f : Futex) (uaddr : Addr) (n : ℕ) : Prop :=
  uaddr = 0 ∨
    (n = 0 → f.bucketTasks uaddr = []) ∧
    (n = 1 → ∀ t ∈ (f.bucketTasks uaddr).head?, f.parkedAt t = some uaddr) ∧
    (2 ≤ n → (∀ t ∈ f.bucketTasks uaddr, f.parkedAt t = some uaddr) ∧
      (f.bucketTasks uaddr).length ≤ n)

/-- The call that a task waits in: the test has found the expected value, and the task has not been
woken and has not given up. -/
def awaits (f : Futex) (t : TaskId) : Option FutexCall :=
  match f.frame t with
  | .waiting c =>
    match (f.sys.ctx t).pc.linked with
    | some (_, i) => if (f.sys.waits.pool i).woken then none else some c
    | none => if (f.sys.ctx t).pc.early then some c else none
  | fr => fr.transit

/-- The tasks that wait on an address. -/
def awaiting (f : Futex) (uaddr : Addr) : Finset TaskId :=
  (Finset.range f.sys.sched.nextPid).filter fun t => (f.awaits t).map FutexCall.uaddr = some uaddr

/-- The statement of this file that the event executes. -/
def executes (f : Futex) (e : Event) : Option FPc :=
  if e = .run ∧ (f.sys.ctx f.sys.current).irq = none then some (f.frame f.sys.current) else none

/-- The word that the event writes, and the value. -/
def writes (f : Futex) : Event → Option (Addr × UInt32)
  | .store uaddr value =>
    if (f.sys.ctx f.sys.current).irq = none ∧ (f.sys.ctx f.sys.current).pc = .user ∧
        f.frame f.sys.current = .user then some (uaddr, value) else none
  | _ => none

/-- The event is a test by the task that finds the expected value. -/
def begins (f : Futex) (e : Event) (t : TaskId) : Bool :=
  match f.executes e with
  | some (.test c) => t = f.sys.current ∧ f.mem c.uaddr = c.expected
  | _ => false

/-- The event writes a value that the task does not expect to the word that it waits on. -/
def changes (f : Futex) (e : Event) (t : TaskId) : Bool :=
  match f.writes e, f.awaits t with
  | some (uaddr, value), some c => c.uaddr = uaddr ∧ value ≠ c.expected
  | _, _ => false

/-- The address and the number of a `futex_wake` that the event executes. -/
def wakeCall (f : Futex) (e : Event) : Option (Addr × ℤ) :=
  match f.executes e with
  | some (.wake uaddr n) => some (uaddr, n)
  | _ => none

/-- The event is a `futex_wake` on the word that the task waits on, for at least as many tasks as
wait on it. -/
def calls (f : Futex) (e : Event) (t : TaskId) : Bool :=
  match f.wakeCall e with
  | some (uaddr, n) => t ∈ f.awaiting uaddr ∧ ((f.awaiting uaddr).card : ℤ) ≤ n
  | none => false

variable {f f' : Futex} {t : TaskId} {uaddr : Addr} {e : Event}

/-! ## The sleepers of a bucket -/

section

variable (h : f.Inv)
include h

lemma Inv.of_parkedAt (ht : f.parkedAt t = some uaddr) :
    uaddr ≠ 0 ∧ ∃ i, (f.sys.ctx t).pc.linked = some (futexHash uaddr, i) ∧
      (f.sys.waits.pool i).woken = false := by
  have hfits := h.fits t
  unfold parkedAt at ht
  split at ht
  · next c q i hframe hlinked =>
    rw [hframe] at hfits
    split at ht
    · cases ht
    · next hwoken =>
      obtain rfl := some.inj ht
      obtain rfl := hfits.2 q (Pc.queue_of_linked hlinked)
      exact ⟨hfits.1, i, hlinked, by simpa using hwoken⟩
  · cases ht

/-- A task on the queue of a bucket is in `futex_wait`, on an address of the bucket. -/
lemma Inv.parkedAt_of_linked (hlinked : (f.sys.ctx t).pc.linked = some (futexHash uaddr, i))
    (hwoken : (f.sys.waits.pool i).woken = false) :
    ∃ a, f.parkedAt t = some a ∧ futexHash a = futexHash uaddr := by
  have hfits := h.fits t
  have hqueue := Pc.queue_of_linked hlinked
  cases hframe : f.frame t with
  | waiting c =>
    rw [hframe] at hfits
    refine ⟨c.uaddr, ?_, (hfits.2 _ hqueue).symm⟩
    simp [parkedAt, hframe, hlinked, hwoken]
  | user =>
    rw [hframe] at hfits
    exact absurd (hfits _ hqueue) (not_le.2 (futexHash_lt uaddr))
  | _ =>
    -- a task elsewhere is in no wait
    simp_all [FPc.Fits, Pc.queue]

lemma Inv.mem_sleepers :
    i ∈ f.sys.sleepers q ↔
      (∃ t, (f.sys.ctx t).pc.linked = some (q, i)) ∧ (f.sys.waits.pool i).woken = false := by
  obtain ⟨members, hqueued⟩ := h.sys.queued
  rw [Sys.sleepers, mem_filter, hqueued.waiters_eq, hqueued.mem]
  simp

lemma Inv.task_of_linked
    (hlinked : (f.sys.ctx t).pc.linked = some (q, i)) : (f.sys.waits.pool i).task = some t :=
  h.sys.owned.task t i (Pc.filled_of_linked hlinked)

/-- **The sleepers of a bucket** are the tasks parked on the addresses of the bucket. -/
lemma Inv.mem_bucketTasks :
    t ∈ f.bucketTasks uaddr ↔ ∃ a, f.parkedAt t = some a ∧ futexHash a = futexHash uaddr := by
  rw [bucketTasks, List.mem_map]
  constructor
  · rintro ⟨i, hi, rfl⟩
    obtain ⟨⟨t, hlinked⟩, hwoken⟩ := h.mem_sleepers.1 hi
    rw [h.task_of_linked hlinked]
    exact h.parkedAt_of_linked hlinked hwoken
  · rintro ⟨a, ht, ha⟩
    obtain ⟨-, i, hlinked, hwoken⟩ := h.of_parkedAt ht
    rw [ha] at hlinked
    refine ⟨i, h.mem_sleepers.2 ⟨⟨t, hlinked⟩, hwoken⟩, ?_⟩
    rw [h.task_of_linked hlinked]
    rfl

lemma Inv.nodup_bucketTasks (uaddr : Addr) : (f.bucketTasks uaddr).Nodup := by
  refine .map_on (fun i hi j hj hij => ?_) ((h.sys.waiters_nodup _).filter _)
  obtain ⟨⟨t, ht⟩, -⟩ := h.mem_sleepers.1 hi
  obtain ⟨⟨u, hu⟩, -⟩ := h.mem_sleepers.1 hj
  rw [h.task_of_linked ht, h.task_of_linked hu] at hij
  obtain rfl : t = u := hij
  exact congrArg Prod.snd (some.inj (ht.symm.trans hu))

lemma Inv.lt_of_parkedAt (ht : f.parkedAt t = some uaddr) : t < f.sys.sched.nextPid := by
  by_contra hge
  obtain ⟨-, i, hlinked, -⟩ := h.of_parkedAt ht
  rw [h.sys.placed.fresh t (not_lt.1 hge)] at hlinked
  cases hlinked

lemma Inv.parked_eq (uaddr : Addr) :
    f.parked uaddr =
      ((f.bucketTasks uaddr).filter fun t => f.parkedAt t = some uaddr).toFinset := by
  ext t
  rw [parked, Finset.mem_filter, Finset.mem_range, List.mem_toFinset, List.mem_filter,
    h.mem_bucketTasks]
  constructor
  · rintro ⟨-, ht⟩
    exact ⟨⟨uaddr, ht, rfl⟩, by simpa using ht⟩
  · rintro ⟨-, ht⟩
    have ht : f.parkedAt t = some uaddr := by simpa using ht
    exact ⟨h.lt_of_parkedAt ht, ht⟩

lemma Inv.card_parked (uaddr : Addr) :
    (f.parked uaddr).card =
      ((f.bucketTasks uaddr).filter fun t => f.parkedAt t = some uaddr).length := by
  rw [h.parked_eq, toFinset_card_of_nodup ((h.nodup_bucketTasks uaddr).filter _)]

end

/-! ## What the call does -/

/-- The tasks that a call wakes: the longest waiting sleeper of the bucket, or all. -/
def chosenTasks (f : Futex) (uaddr : Addr) (n : ℕ) : List TaskId :=
  if n ≤ 1 then (f.bucketTasks uaddr).take 1 else f.bucketTasks uaddr

lemma mem_bucketTasks_of_chosen {n : ℕ} (ht : t ∈ f.chosenTasks uaddr n) :
    t ∈ f.bucketTasks uaddr := by
  unfold chosenTasks at ht
  split at ht
  · exact mem_of_mem_take ht
  · exact ht

section

variable (h : f.Inv)
include h

lemma Inv.nodup_chosenTasks (uaddr : Addr) (n : ℕ) : (f.chosenTasks uaddr n).Nodup := by
  unfold chosenTasks
  split
  · exact (h.nodup_bucketTasks uaddr).take
  · exact h.nodup_bucketTasks uaddr

/-- When sleepers of a queue are flipped, their tasks are no longer parked, and the others are as
they were. -/
lemma Inv.parkedAt_of_woken {f' : Futex} {l : List EntryId} (hframe : f'.frame = f.frame)
    (hw : Sys.Woken f.sys f'.sys q l) (hl : l ⊆ f.sys.sleepers q) (t : TaskId) :
    f'.parkedAt t = if t ∈ l.map fun i => (f.sys.waits.pool i).task.getD 0 then none
      else f.parkedAt t := by
  split
  · next hmem =>
    obtain ⟨i, hi, rfl⟩ := mem_map.1 hmem
    obtain ⟨⟨t, hlinked⟩, -⟩ := h.mem_sleepers.1 (hl hi)
    rw [h.task_of_linked hlinked]
    have hwoken := (hw.woken i).2 (.inr hi)
    unfold parkedAt
    rw [hframe, hw.ctx, getD_some, hlinked]
    split
    · next heq =>
      cases heq
      rw [if_pos hwoken]
    · rfl
  · next hnot =>
    unfold parkedAt
    rw [hframe, hw.ctx]
    split
    · next c q' i _ hlinked =>
      -- the entry of a task that is not among those woken is not flipped
      have hi : i ∉ l := by
        refine fun hi => hnot (mem_map.2 ⟨i, hi, ?_⟩)
        rw [h.task_of_linked hlinked]
        rfl
      have hiff : (f'.sys.waits.pool i).woken = (f.sys.waits.pool i).woken := by
        rw [Bool.eq_iff_iff, hw.woken]
        simp [hi]
      rw [hiff]
    · rfl

/-- **What the call does**: the tasks chosen are no longer parked, and it returns their number. -/
theorem Inv.futexWake_spec (hnull : uaddr ≠ 0) (n : ℕ) :
    (∀ t, (f.futexWake uaddr n).1.parkedAt t =
      if t ∈ f.chosenTasks uaddr n then none else f.parkedAt t) ∧
      (f.futexWake uaddr n).2 = (f.chosenTasks uaddr n).length := by
  have hnodup := h.sys.waiters_nodup (futexHash uaddr)
  unfold Futex.futexWake chosenTasks
  rw [if_neg hnull]
  by_cases hn : n ≤ 1
  · obtain ⟨hw, hcount⟩ := Sys.wakeUp_spec hnodup
    rw [if_pos (by exact_mod_cast hn), if_pos hn, bucketTasks, ← map_take]
    refine ⟨h.parkedAt_of_woken rfl hw (take_subset 1 _), ?_⟩
    rw [hcount, length_map]
  · obtain ⟨hw, hcount⟩ := Sys.wakeUpAll_spec hnodup
    rw [if_neg (by exact_mod_cast hn), if_neg hn, bucketTasks]
    refine ⟨h.parkedAt_of_woken rfl hw (.refl _), ?_⟩
    rw [hcount, length_map]

lemma Inv.wokenBy_futexWake (hnull : uaddr ≠ 0) (n : ℕ) :
    f.wokenBy (f.futexWake uaddr n).1 = (f.chosenTasks uaddr n).toFinset := by
  ext t
  rw [wokenBy, Finset.mem_filter, Finset.mem_range, List.mem_toFinset, (h.futexWake_spec hnull n).1]
  constructor
  · rintro ⟨-, hsome, hnone⟩
    by_contra hnot
    rw [if_neg hnot] at hnone
    exact hsome hnone
  · intro ht
    obtain ⟨a, ha, -⟩ := h.mem_bucketTasks.1 (mem_bucketTasks_of_chosen ht)
    exact ⟨h.lt_of_parkedAt ha, by rw [ha]; exact some_ne_none a, if_pos ht⟩

/-- The call does what it should if all tasks chosen are on the address and their number is right.
-/
lemma Inv.wakesExactly_iff_chosen (hnull : uaddr ≠ 0) (n : ℕ) :
    f.WakesExactly uaddr n ↔
      (∀ t ∈ f.chosenTasks uaddr n, f.parkedAt t = some uaddr) ∧
        (f.chosenTasks uaddr n).length = min n (f.parked uaddr).card := by
  have hwoken := h.wokenBy_futexWake hnull n
  obtain ⟨hparked, hret⟩ := h.futexWake_spec hnull n
  constructor
  · intro hw
    refine ⟨fun t ht => hw.on t ?_, hret.symm.trans hw.returned⟩
    rw [hwoken]
    exact mem_toFinset.2 ht
  · rintro ⟨hon, hnumber⟩
    refine ⟨fun t ht => ?_, ?_, hret.trans hnumber, fun t ht => ?_⟩
    · rw [hwoken] at ht
      exact hon t (mem_toFinset.1 ht)
    · rw [hwoken, toFinset_card_of_nodup (h.nodup_chosenTasks uaddr n)]
      exact hnumber
    · rw [hparked, if_neg fun hmem => ht (hon t hmem)]

lemma Inv.wakesExactly_null (n : ℕ) : f.WakesExactly 0 n := by
  have hparked : f.parked 0 = ∅ := by
    refine Finset.filter_eq_empty_iff.2 fun t _ ht => ?_
    exact (h.of_parkedAt ht).1 rfl
  have hwoken : f.wokenBy (f.futexWake 0 n).1 = ∅ := by
    refine Finset.filter_eq_empty_iff.2 ?_
    rintro t - ⟨hsome, hnone⟩
    exact hsome hnone
  refine ⟨fun t ht => ?_, ?_, ?_, fun t _ => rfl⟩
  · rw [hwoken] at ht
    cases ht
  · rw [hwoken, hparked]
    simp
  · rw [hparked]
    simp [Futex.futexWake]

lemma Inv.chosen_iff (uaddr : Addr) (n : ℕ) :
    ((∀ t ∈ f.chosenTasks uaddr n, f.parkedAt t = some uaddr) ∧
        (f.chosenTasks uaddr n).length = min n (f.parked uaddr).card) ↔
      (n = 0 → f.bucketTasks uaddr = []) ∧
      (n = 1 → ∀ t ∈ (f.bucketTasks uaddr).head?, f.parkedAt t = some uaddr) ∧
      (2 ≤ n → (∀ t ∈ f.bucketTasks uaddr, f.parkedAt t = some uaddr) ∧
        (f.bucketTasks uaddr).length ≤ n) := by
  rw [h.card_parked]
  unfold chosenTasks
  generalize f.bucketTasks uaddr = l
  obtain rfl | rfl | hn : n = 0 ∨ n = 1 ∨ 2 ≤ n := by omega
  · cases l <;> simp
  · cases l with
    | nil => simp
    | cons t rest => by_cases ht : f.parkedAt t = some uaddr <;> simp [ht]
  · rw [if_neg (by omega)]
    constructor
    · rintro ⟨hon, hlen⟩
      exact ⟨by omega, by omega, fun _ => ⟨hon, hlen ▸ min_le_left _ _⟩⟩
    · rintro ⟨-, -, hall⟩
      obtain ⟨hon, hlen⟩ := hall hn
      have hfilter : (l.filter fun t => f.parkedAt t = some uaddr) = l :=
        filter_eq_self.2 fun t ht => by simpa using hon t ht
      exact ⟨hon, by rw [hfilter, min_eq_right hlen]⟩

end

/-- **Which calls of `futex_wake` do what they should.** In every state reached, a call wakes the
number of tasks that it is asked for, on the address and nowhere else, if and only if the sleepers
of the bucket suit it. -/
theorem wakesExactly_iff (es : List Event) (uaddr : Addr) (n : ℕ) :
    (run step boot es).WakesExactly uaddr n ↔ (run step boot es).Suits uaddr n := by
  have h := inv_run es
  rcases eq_or_ne uaddr 0 with rfl | hnull
  · exact ⟨fun _ => .inl rfl, fun _ => h.wakesExactly_null n⟩
  · rw [h.wakesExactly_iff_chosen hnull, h.chosen_iff, Suits, or_iff_right hnull]

/-- **Two words share a bucket.** Task 1 is parked on the word at 8 and task 2 on the word at 12. Of
the calls on the word at 8, one that asks for two tasks wakes both, one that asks for none wakes the
first; a call on the word at 12 that asks for one task wakes the other word's. -/
theorem futexWake_shared_bucket :
    ∃ f, f = run step boot ([.act (.create true true), .act (.create true true),
        .act .yield, .futexWait ⟨8, 0, 0⟩] ++ List.replicate 11 .run ++ [.futexWait ⟨12, 0, 0⟩] ++
        List.replicate 11 .run) ∧
      f.parked 8 = {1} ∧ f.parked 12 = {2} ∧
      f.wokenBy (f.futexWake 8 2).1 = {1, 2} ∧ (f.futexWake 8 2).2 = 2 ∧ ¬ f.WakesExactly 8 2 ∧
      f.wokenBy (f.futexWake 8 0).1 = {1} ∧ (f.futexWake 8 0).2 = 1 ∧ ¬ f.WakesExactly 8 0 ∧
      f.wokenBy (f.futexWake 12 1).1 = {1} ∧ ¬ f.WakesExactly 12 1 := by
  refine ⟨_, rfl, by decide +kernel, by decide +kernel, by decide +kernel, by decide +kernel,
    fun h => ?_, by decide +kernel, by decide +kernel, fun h => ?_, by decide +kernel,
    fun h => ?_⟩
  · exact absurd h.returned (by decide +kernel)
  · exact absurd h.returned (by decide +kernel)
  · exact absurd (h.on 1) (by decide +kernel)

/-! ## How tasks begin to wait -/

lemma awaits_of_parkedAt (h : f.parkedAt t = some uaddr) :
    (f.awaits t).map FutexCall.uaddr = some uaddr := by
  unfold parkedAt at h
  split at h
  · next c q i hframe hlinked =>
    unfold awaits
    rw [hframe]
    rw [hlinked]
    split at h
    · cases h
    · next hwoken =>
      dsimp only
      rw [if_neg hwoken]
      exact h
  · cases h

lemma awaits_of_follows (hframe : f'.frame t = f.frame t)
    (hpc : (f.sys.ctx t).pc.Follows (f'.sys.ctx t).pc)
    (hwoken : ∀ q i, (f.sys.ctx t).pc.linked = some (q, i) → (f.sys.waits.pool i).woken = true →
      (f'.sys.waits.pool i).woken = true) (h : f.awaits t = none) : f'.awaits t = none := by
  unfold awaits at h ⊢
  rw [hframe]
  split at h
  · -- a task that has not linked its entry yet waits
    have hearly : (f.sys.ctx t).pc.early = false := by
      by_contra hearly
      cases hpc' : (f.sys.ctx t).pc <;> simp [hpc', Pc.early, Pc.linked] at h hearly
    split
    · next q i hlinked =>
      rcases hpc.linked q i hlinked with hold | hold
      · rw [hold] at h
        have hw : (f.sys.waits.pool i).woken = true := by
          by_contra hnot
          simp [hnot] at h
        rw [if_pos (hwoken q i hold hw)]
      · cases hearly.symm.trans hold
    · rw [if_neg]
      intro hnew
      rw [hpc.early hnew] at hearly
      cases hearly
  · exact h

lemma awaits_of_call (h : (f.frame t).call = none) : f.awaits t = none := by
  unfold awaits
  cases hframe : f.frame t <;> simp_all [FPc.call, FPc.transit]

lemma awaits_of_transit {c : FutexCall} (h : (f.frame t).transit = some c) :
    f.awaits t = some c := by
  unfold awaits
  cases hframe : f.frame t <;> simp_all [FPc.transit]

/-- What becomes of a task in a step: it moves on where it is, it is outside a wait, it was on its
way into the wait, or it begins one. -/
def Proceeds (f f' : Futex) (e : Event) (t : TaskId) : Prop :=
  f'.frame t = f.frame t ∧ (f.sys.ctx t).pc.Follows (f'.sys.ctx t).pc ∨
    (f'.frame t).call = none ∨ (∃ c, (f.frame t).transit = some c) ∨ f.begins e t = true

lemma Proceeds.of_eq (hframe : f'.frame t = f.frame t)
    (hpc : (f'.sys.ctx t).pc = (f.sys.ctx t).pc) : f.Proceeds f' e t :=
  .inl ⟨hframe, hpc ▸ .of_eq rfl rfl rfl⟩

lemma stmt_moves (f : Futex) (fr : FPc) :
    ∃ fr', (f.stmt fr).frame = update f.frame f.sys.current fr' ∧
      (∀ u, u ≠ f.sys.current → ((f.stmt fr).sys.ctx u).pc = (f.sys.ctx u).pc) ∧
      ((fr' = f.frame f.sys.current ∧
          (f.sys.ctx f.sys.current).pc.Follows ((f.stmt fr).sys.ctx f.sys.current).pc) ∨
        fr'.call = none ∨ (∃ c, fr.transit = some c) ∨
          ∃ c, fr = .test c ∧ f.mem c.uaddr = c.expected) := by
  have hrun : ∃ fr', f.frame = update f.frame f.sys.current fr' ∧
      (∀ u, u ≠ f.sys.current → ((f.sys.step .run).ctx u).pc = (f.sys.ctx u).pc) ∧
      ((fr' = f.frame f.sys.current ∧
          (f.sys.ctx f.sys.current).pc.Follows ((f.sys.step .run).ctx f.sys.current).pc) ∨
        fr'.call = none ∨ (∃ c, fr.transit = some c) ∨
          ∃ c, fr = .test c ∧ f.mem c.uaddr = c.expected) :=
    ⟨_, (update_eq_self _ _).symm, fun u hu => (f.sys.run_follows u).2 hu,
      .inl ⟨rfl, (f.sys.run_follows _).1⟩⟩
  cases fr with
  | user => exact hrun
  | waiting c =>
    simp only [stmt]
    split
    · exact ⟨_, rfl, fun _ _ => rfl, .inr (.inl rfl)⟩
    · exact hrun
  | test c =>
    simp only [stmt]
    split
    · exact ⟨_, rfl, fun _ _ => rfl, .inr (.inl rfl)⟩
    · next heq =>
      exact ⟨_, rfl, fun _ _ => rfl, .inr (.inr (.inr ⟨c, rfl, not_not.1 heq⟩))⟩
  | enter c =>
    exact ⟨_, rfl, fun u hu => f.sys.act_pc_of_ne _ hu, .inr (.inr (.inl ⟨c, rfl⟩))⟩
  | claim c | count c | countWaits c | countActive c =>
    exact ⟨_, rfl, fun _ _ => rfl, .inr (.inr (.inl ⟨c, rfl⟩))⟩
  | wake uaddr count =>
    exact ⟨_, rfl, fun u _ => f.futexWake_pc uaddr count u, .inr (.inl rfl)⟩
  | requeue uaddr1 uaddr2 count =>
    rcases f.stmt_requeue uaddr1 uaddr2 count with heq | ⟨moved, heq⟩
    · rw [heq]
      exact ⟨_, rfl, fun _ _ => rfl, .inr (.inl rfl)⟩
    · rw [heq]
      exact ⟨_, rfl, fun _ _ => rfl, .inr (.inl rfl)⟩
  | requeueWake uaddr1 moved left =>
    cases left with
    | zero => exact ⟨_, rfl, fun _ _ => rfl, .inr (.inl rfl)⟩
    | succ n => exact ⟨_, rfl, fun u _ => f.sys.wakeUp_pc _ u, .inr (.inl rfl)⟩
  | _ => exact ⟨_, rfl, fun _ _ => rfl, .inr (.inl rfl)⟩

lemma userStep_moves (f : Futex) (hframe : f.frame f.sys.current = .user) (e : Event) :
    ∃ fr', (f.userStep e).frame = update f.frame f.sys.current fr' ∧ fr'.call = none ∧
      ∀ u, u ≠ f.sys.current → ((f.userStep e).sys.ctx u).pc = (f.sys.ctx u).pc := by
  have hstay : f.frame = update f.frame f.sys.current .user := by
    rw [← hframe, update_eq_self]
  cases e with
  | act a =>
    simp only [userStep]
    split
    · exact ⟨_, hstay, rfl, fun u hu => f.sys.act_pc_of_ne _ hu⟩
    · exact ⟨_, hstay, rfl, fun _ _ => rfl⟩
  | futexWait c | futexRequeue uaddr1 uaddr2 count =>
    simp only [userStep]
    split <;> exact ⟨_, rfl, rfl, fun _ _ => rfl⟩
  | futexWake uaddr count => exact ⟨_, rfl, rfl, fun _ _ => rfl⟩
  | _ => exact ⟨_, hstay, rfl, fun _ _ => rfl⟩

/-- **What becomes of a task in a step.** -/
theorem step_proceeds (f : Futex) (e : Event) (t : TaskId) : f.Proceeds (f.step e) e t := by
  unfold step
  split
  · exact .of_eq rfl (f.sys.timer_pc t)
  · exact .of_eq rfl (f.sys.irq_pc t)
  · split
    · next hirq =>
      obtain ⟨fr', hframe, hother, hcur⟩ := f.stmt_moves (f.frame f.sys.current)
      rcases eq_or_ne t f.sys.current with rfl | hne
      · unfold Proceeds
        rw [hframe, update_self]
        refine hcur.imp_right (Or.imp_right (Or.imp_right ?_))
        rintro ⟨c, hc, hmem⟩
        simp [begins, executes, hirq, hc, hmem]
      · exact .of_eq (by rw [hframe, update_of_ne hne]) (hother t hne)
    · next hirq => exact .of_eq rfl (f.sys.run_pc_of_irq hirq t)
  · split
    · next hcan =>
      obtain ⟨fr', hframe, hcall, hother⟩ := f.userStep_moves hcan.2.2 e
      rcases eq_or_ne t f.sys.current with rfl | hne
      · refine .inr (.inl ?_)
        rw [hframe, update_self]
        exact hcall
      · exact .of_eq (by rw [hframe, update_of_ne hne]) (hother t hne)
    · exact .of_eq rfl rfl

lemma Inv.stmt_woken (h : f.Inv) (fr : FPc) (hi : (f.sys.ctx t).pc.linked = some (q, i))
    (hw : (f.sys.waits.pool i).woken = true) : ((f.stmt fr).sys.waits.pool i).woken = true := by
  cases fr with
  | user => exact h.sys.step_woken .run hi hw
  | waiting c =>
    simp only [Futex.stmt]
    split
    · exact hw
    · exact h.sys.step_woken .run hi hw
  | enter c => exact h.sys.step_woken (.act (.wait _)) hi hw
  | wake uaddr count =>
    obtain ⟨l, hwoken⟩ := h.futexWake_woken uaddr count
    exact (hwoken.woken i).2 (.inl hw)
  | test c =>
    simp only [Futex.stmt]
    split <;> exact hw
  | requeue uaddr1 uaddr2 count =>
    rcases f.stmt_requeue uaddr1 uaddr2 count with heq | ⟨moved, heq⟩
    · rw [heq]
      exact hw
    · rw [heq]
      exact hw
  | requeueWake uaddr1 moved left =>
    cases left with
    | zero => exact hw
    | succ n => exact h.sys.step_woken (.act (.wakeUp _)) hi hw
  | _ => exact hw

lemma Inv.step_woken (h : f.Inv) (e : Event) (hi : (f.sys.ctx t).pc.linked = some (q, i))
    (hw : (f.sys.waits.pool i).woken = true) : ((f.step e).sys.waits.pool i).woken = true := by
  unfold Futex.step
  split
  · exact h.sys.step_woken .timer hi hw
  · exact h.sys.step_woken .irq hi hw
  · split
    · exact h.stmt_woken _ hi hw
    · exact h.sys.step_woken .run hi hw
  · split
    · cases e with
      | act a =>
        simp only [Futex.userStep]
        split
        · exact h.sys.step_woken (.act a) hi hw
        · exact hw
      | futexWait c | futexRequeue uaddr1 uaddr2 count =>
        simp only [Futex.userStep]
        split <;> exact hw
      | _ => exact hw
    · exact hw

/-- **A task begins to wait only by a test** that finds the expected value. -/
theorem Inv.awaits_step (h : f.Inv) (e : Event) (hnone : f.awaits t = none)
    (hbegins : f.begins e t = false) : (f.step e).awaits t = none := by
  rcases f.step_proceeds e t with ⟨hframe, hpc⟩ | hcall | ⟨c, hc⟩ | hb
  · exact awaits_of_follows hframe hpc (fun q i hi hw => h.step_woken e hi hw) hnone
  · exact awaits_of_call hcall
  · rw [awaits_of_transit hc] at hnone
    cases hnone
  · cases hbegins.symm.trans hb

/-! ## Wake-ups that reach their tasks -/

lemma step_of_wakeCall {n : ℤ} (hcall : f.wakeCall e = some (uaddr, n)) :
    f.frame f.sys.current = .wake uaddr n ∧ f.step e = f.stmt (.wake uaddr n) := by
  unfold wakeCall executes at hcall
  split at hcall
  · next u m hexec =>
    obtain ⟨rfl, rfl⟩ := Prod.mk.inj (some.inj hcall)
    split at hexec
    · next hrun =>
      obtain ⟨rfl, hirq⟩ := hrun
      have hframe := some.inj hexec
      exact ⟨hframe, by simp [step, hirq, hframe]⟩
    · cases hexec
  · cases hcall

lemma Inv.mem_awaiting (h : f.Inv) (ht : f.parkedAt t = some uaddr) : t ∈ f.awaiting uaddr :=
  Finset.mem_filter.2 ⟨Finset.mem_range.2 (h.lt_of_parkedAt ht), awaits_of_parkedAt ht⟩

/-- A task that is parked is woken by a call for all tasks that wait on the address, if a call for
one task finds a sleeper on the address first. -/
lemma Inv.mem_chosenTasks (h : f.Inv) (ht : f.parkedAt t = some uaddr) {n : ℕ}
    (hn : (f.awaiting uaddr).card ≤ n)
    (hfirst : n ≤ 1 → ∀ u ∈ (f.bucketTasks uaddr).head?, f.parkedAt u = some uaddr) :
    t ∈ f.chosenTasks uaddr n := by
  have hmem : t ∈ f.bucketTasks uaddr := h.mem_bucketTasks.2 ⟨uaddr, ht, rfl⟩
  unfold chosenTasks
  split
  · next hle =>
    cases hl : f.bucketTasks uaddr with
    | nil =>
      rw [hl] at hmem
      cases hmem
    | cons u rest =>
      -- only one task waits on the address
      have hu : f.parkedAt u = some uaddr := hfirst hle u (by rw [hl]; rfl)
      obtain rfl : t = u := Finset.card_le_one.1 (hn.trans hle) t (h.mem_awaiting ht) u
        (h.mem_awaiting hu)
      simp
  · exact hmem

lemma Inv.awaits_wake (h : f.Inv) {n : ℤ} (hcall : f.wakeCall e = some (uaddr, n))
    (ht : f.parkedAt t = some uaddr) (hn : ((f.awaiting uaddr).card : ℤ) ≤ n)
    (hfirst : n ≤ 1 → ∀ u ∈ (f.bucketTasks uaddr).head?, f.parkedAt u = some uaddr) :
    (f.step e).awaits t = none := by
  obtain ⟨m, rfl⟩ : ∃ m : ℕ, n = m := ⟨n.toNat, by omega⟩
  obtain ⟨hcur, hstep⟩ := step_of_wakeCall hcall
  have hchosen := h.mem_chosenTasks ht (by exact_mod_cast hn)
    fun hle => hfirst (by exact_mod_cast hle)
  have hnone := (h.futexWake_spec (h.of_parkedAt ht).1 m).1 t
  rw [if_pos hchosen] at hnone
  rw [hstep]
  unfold parkedAt at ht
  split at ht
  · next c q i hframe hlinked =>
    have hne : t ≠ f.sys.current := by
      rintro rfl
      cases hcur.symm.trans hframe
    have hframe' : (f.stmt (.wake uaddr m)).frame t = .waiting c := by
      rw [← hframe]
      exact update_of_ne hne _ _
    have hlinked' : ((f.futexWake uaddr m).1.sys.ctx t).pc.linked = some (q, i) := by
      rw [futexWake_pc, hlinked]
    -- its entry is flipped
    have hwoken : ((f.futexWake uaddr m).1.sys.waits.pool i).woken = true := by
      unfold parkedAt at hnone
      rw [futexWake_frame, hframe, hlinked'] at hnone
      simpa using hnone
    have hsys : (f.stmt (.wake uaddr m)).sys = (f.futexWake uaddr m).1.sys := rfl
    unfold awaits
    rw [hframe', hsys]
    simp only [hlinked', hwoken, if_true]
  · cases ht

end Futex

/-! ## Runs -/

/-- The system with a record of what each task has coming. -/
structure Watched where
  futex : Futex
  changed : TaskId → Bool
  owed : TaskId → Bool

namespace Watched

/-- One step of the system, with the record of it. -/
def step (w : Watched) (e : Futex.Event) : Watched where
  futex := w.futex.step e
  changed t := !w.futex.begins e t && (w.changed t || w.futex.changes e t)
  owed t := !w.futex.begins e t && (w.owed t || w.changed t && w.futex.calls e t)

/-- After boot nothing is recorded. -/
def boot : Watched := ⟨Futex.boot, fun _ => false, fun _ => false⟩

/-- If the event is a `futex_wake` that a task has coming, the task is parked, and a call for one
task finds a sleeper on the address first. -/
def Reaches (w : Watched) (e : Futex.Event) : Prop :=
  ∀ p ∈ w.futex.wakeCall e, ((w.futex.awaiting p.1).card : ℤ) ≤ p.2 →
    ∀ t ∈ w.futex.awaiting p.1, w.changed t = true →
      w.futex.parkedAt t = some p.1 ∧
        (p.2 ≤ 1 → ∀ u ∈ (w.futex.bucketTasks p.1).head?, w.futex.parkedAt u = some p.1)
  deriving Decidable

variable {w : Watched}

/-- The invariant: that of the system, and a task that is owed a wake-up does not wait. -/
structure Inv (w : Watched) : Prop where
  futex : w.futex.Inv
  owed : ∀ t, w.owed t = true → w.futex.awaits t = none

/-- **A step that reaches its tasks keeps the invariant.** -/
theorem Inv.step (h : w.Inv) (e : Event) (hreach : w.Reaches e) : (w.step e).Inv := by
  refine ⟨h.futex.step e, fun t ht => ?_⟩
  simp only [Watched.step, Bool.and_eq_true, Bool.not_eq_true', Bool.or_eq_true] at ht
  obtain ⟨hbegins, howed | ⟨hchanged, hcalls⟩⟩ := ht
  · exact h.futex.awaits_step e (h.owed t howed) hbegins
  · unfold calls at hcalls
    split at hcalls
    · next uaddr n hcall =>
      obtain ⟨hmem, hn⟩ := of_decide_eq_true hcalls
      obtain ⟨hparked, hfirst⟩ := hreach _ hcall hn t hmem hchanged
      exact h.futex.awaits_wake hcall hparked hn hfirst
    · cases hcalls

/-- **No wake-up is lost**: along every run whose wake-ups all reach the tasks they are for, a task
whose word was given another value after its test, and then was the subject of a `futex_wake` for
all tasks that wait on it, is not parked. -/
theorem not_parked_run (es : List Futex.Event) (h : Along step Reaches boot es) (t : TaskId)
    (howed : (run step boot es).owed t = true) : (run step boot es).futex.parkedAt t = none := by
  have hboot : boot.Inv := ⟨inv_boot, fun t ht => by cases ht⟩
  have hstep : ∀ (w : Watched) (e : Event), w.Inv → w.Reaches e → (w.step e).Inv :=
    fun _ e hw => hw.step e
  have hrun := run_invariant_of_along hstep hboot h
  by_contra hsome
  obtain ⟨uaddr, huaddr⟩ := ne_none_iff_exists'.1 hsome
  have hawaits := awaits_of_parkedAt huaddr
  rw [hrun.owed t howed] at hawaits
  cases hawaits

/-- Task 1 waits on the word at 8 and yields to task 2, which writes the word and wakes it. -/
theorem not_parked_run_woken :
    (run step boot ([.act (.create true true), .act (.create true true), .act .yield,
      .futexWait ⟨8, 0, 0⟩] ++ List.replicate 11 .run ++ [.store 8 1, .futexWake 8 1, .run,
      .run])).futex.parkedAt 1 = none :=
  not_parked_run _ (by decide +kernel) 1 (by decide +kernel)

/-- **A wake-up is lost.** Task 1 finds the value that it expects and is preempted. Task 2 writes
the word, calls `futex_wake`, which wakes nobody, and yields. Task 1 then parks: it is BLOCKED, it
is linked in no lane, and its wait has no timeout. -/
theorem wake_up_lost :
    ∃ w, w = run step boot ([.act (.setPreempt true), .act (.create true true),
        .act (.create true true), .act .yield, .futexWait ⟨8, 0, 0⟩, .run, .timer, .timer,
        .store 8 1, .futexWake 8 1, .run, .run, .act .yield] ++ List.replicate 11 .run) ∧
      w.owed 1 = true ∧ w.futex.mem 8 = 1 ∧ w.futex.parkedAt 1 = some 8 ∧
      (w.futex.sys.sched.tasks 1).state = .blocked ∧ w.futex.sys.current = 2 ∧
      w.futex.sys.sched.weaveLinked 1 = false :=
  ⟨_, rfl, by decide +kernel, by decide +kernel, by decide +kernel, by decide +kernel,
    by decide +kernel, by decide +kernel⟩

end Watched

end SubOS.Kernel
