import Mathlib.Data.List.FinRange
import SubOS.Kernel.Sched
import SubOS.Lib.EventRun

set_option autoImplicit false

/-!
# Read-copy-update

`kernel/rcu.c`: readers raise and lower one counter, writers queue callbacks in a table, and
`rcu_process_callbacks` takes them out when it has found no reader, and runs them. It tests for
readers and then takes the lock. In between a reader may open a section and a writer queue a
callback, which is then run although the reader is still inside.

## Main definitions

* `Rcu.step`, `Rcu.Quiet` — a step of the system, and the condition on it.

## Main results

* `Rcu.readers_left_run`, `Rcu.reader_inside` — whether the readers have left when a callback runs.

## Design

Any task may take the next step, so that every interleaving is a run. What a task does with
`g_rcu_lock` held is one step. A callback is code of the user: while it runs, its task may call any
of these functions. `rcu_init` has run. Three parts of the state are a record that no function
reads: each section gets a number, `sections` are those that are open, and a callback keeps the
number of the call that queued it and the sections that were open then.
-/

namespace SubOS.Kernel

open EventRun List

def rcuMaxCallbacks : ℕ := 64

/-- A read-side critical section: the reader and the number of the section. -/
abbrev Section := TaskId × ℕ

structure RcuHead where
  func : ℕ
  arg : ℕ
  gpTarget : UInt64
  inUse : Bool
  /-- The number of the call that queued the callback. -/
  ticket : ℕ
  /-- The sections that were open when it was queued. -/
  seen : List Section
  deriving DecidableEq, Repr

/-- `rcu_stats_t`, without the nesting depth, which is computed on demand. -/
structure RcuStats where
  gracePeriods : UInt64
  callbacksQueued : UInt64
  callbacksInvoked : UInt64
  readLocks : UInt64
  pending : UInt32
  deriving DecidableEq, Repr

/-- The next statement of a task. -/
inductive RcuPc where
  /-- Outside these functions, or in a callback. -/
  | user
  /-- `rcu_read_lock` is about to raise the counter, and to count itself. -/
  | readLock
  | readLockStat
  /-- `rcu_read_unlock` is about to read the counter, and to lower it. -/
  | readUnlock
  | readUnlockSub
  /-- `rcu_process_callbacks` is about to test for readers. -/
  | process
  /-- About to take the ready callbacks out of the table. -/
  | select
  /-- At the loop over the callbacks. -/
  | invoke (ready : List RcuHead)
  /-- About to count a callback. -/
  | invoked (ready : List RcuHead)
  /-- `call_rcu` is about to look for a slot. -/
  | callRcu (ticket func arg : ℕ)
  /-- The same after the table was full. -/
  | callRcuRetry (ticket func arg : ℕ)
  /-- `rcu_synchronize` is about to read the grace period, and the clock. -/
  | syncStart
  | syncDeadline (start : UInt64)
  /-- At its loop. -/
  | syncTest (start deadline : UInt64)
  /-- About to test whether the grace period has ended, and whether the time is over. -/
  | syncBreak (start deadline : UInt64)
  | syncTime (start deadline : UInt64)
  deriving DecidableEq, Repr

inductive RcuReturn where
  /-- From a callback to the loop over the callbacks. -/
  | invoked (ready : List RcuHead)
  /-- From `rcu_process_callbacks` to `call_rcu`. -/
  | callRcuRetry (ticket func arg : ℕ)
  /-- From `rcu_process_callbacks` to `rcu_synchronize`. -/
  | syncBreak (start deadline : UInt64)
  deriving DecidableEq, Repr

structure RcuCtx where
  pc : RcuPc
  stack : List RcuReturn
  /-- The result of the last `call_rcu`. -/
  result : Option ℤ
  deriving DecidableEq, Repr

structure Rcu where
  /-- `g_callbacks`. -/
  callbacks : Fin rcuMaxCallbacks → RcuHead
  gracePeriod : UInt64
  readerNesting : UInt32
  stats : RcuStats
  /-- `pit_get_ticks`. -/
  ticks : UInt64
  ctx : TaskId → RcuCtx
  /-- The sections that are open, the latest first. -/
  sections : List Section
  /-- The numbers of sections and of calls that have been given. -/
  opened : ℕ
  calls : ℕ

namespace Rcu

/-- Set the context of a task. -/
def setCtx (s : Rcu) (t : TaskId) (c : RcuCtx) : Rcu := { s with ctx := Function.update s.ctx t c }

/-- Set the next statement of a task. -/
def goto (s : Rcu) (t : TaskId) (pc : RcuPc) : Rcu := s.setCtx t { s.ctx t with pc := pc }

/-- Call `rcu_process_callbacks`, and return to `k`. -/
def callProcess (s : Rcu) (t : TaskId) (k : RcuReturn) : Rcu :=
  s.setCtx t { s.ctx t with pc := .process, stack := k :: (s.ctx t).stack }

/-- Return from `rcu_process_callbacks`. -/
def processReturn (s : Rcu) (t : TaskId) : Rcu :=
  match (s.ctx t).stack with
  | .callRcuRetry ticket func arg :: rest =>
    s.setCtx t { s.ctx t with pc := .callRcuRetry ticket func arg, stack := rest }
  | .syncBreak start deadline :: rest =>
    s.setCtx t { s.ctx t with pc := .syncBreak start deadline, stack := rest }
  | _ => s.goto t .user

/-- Return from `call_rcu`. -/
def callReturn (s : Rcu) (t : TaskId) (r : ℤ) : Rcu :=
  s.setCtx t { s.ctx t with pc := .user, result := some r }

/-- One round of the loop that takes the ready callbacks out of the table. -/
def selectSlot (completed : UInt64) (a : Rcu × List RcuHead) (i : Fin rcuMaxCallbacks) :
    Rcu × List RcuHead :=
  let h := a.1.callbacks i
  if h.inUse = true ∧ h.gpTarget ≤ completed then
    ({ a.1 with
        callbacks := Function.update a.1.callbacks i { h with inUse := false }
        stats := { a.1.stats with
          pending := if 0 < a.1.stats.pending then a.1.stats.pending - 1 else a.1.stats.pending } },
      a.2 ++ [h])
  else a

/-- What `rcu_process_callbacks` does with the lock held. -/
def selectReady (s : Rcu) : Rcu × List RcuHead :=
  let completed := s.gracePeriod + 1
  (List.finRange rcuMaxCallbacks).foldl (selectSlot completed)
    ({ s with
        gracePeriod := completed
        stats := { s.stats with gracePeriods := s.stats.gracePeriods + 1 } }, [])

def freeSlot (s : Rcu) : Option (Fin rcuMaxCallbacks) :=
  (List.finRange rcuMaxCallbacks).find? fun i => !(s.callbacks i).inUse

/-- Queue a callback in a slot. -/
def fillSlot (s : Rcu) (i : Fin rcuMaxCallbacks) (ticket func arg : ℕ) : Rcu :=
  { s with
    callbacks := Function.update s.callbacks i
      ⟨func, arg, s.gracePeriod + 1, true, ticket, s.sections⟩
    stats := { s.stats with
      callbacksQueued := s.stats.callbacksQueued + 1
      pending := s.stats.pending + 1 } }

/-- The next statement of a task. -/
def stmt (s : Rcu) (t : TaskId) : RcuPc → Rcu
  | .user => s
  | .readLock =>
    { s with
      readerNesting := s.readerNesting + 1
      sections := (t, s.opened) :: s.sections
      opened := s.opened + 1 }.goto t .readLockStat
  | .readLockStat =>
    { s with stats := { s.stats with readLocks := s.stats.readLocks + 1 } }.goto t .user
  | .readUnlock => if 0 < s.readerNesting then s.goto t .readUnlockSub else s.goto t .user
  | .readUnlockSub =>
    -- the latest section of the reader ends
    { s with
      readerNesting := s.readerNesting - 1
      sections := s.sections.eraseP fun x => x.1 = t }.goto t .user
  | .process => if s.readerNesting = 0 then s.goto t .select else s.processReturn t
  | .select => s.selectReady.1.goto t (.invoke s.selectReady.2)
  | .invoke ready =>
    match ready with
    | [] => s.processReturn t
    | h :: rest =>
      if h.func ≠ 0 then
        s.setCtx t { s.ctx t with pc := .user, stack := .invoked rest :: (s.ctx t).stack }
      else s.goto t (.invoked rest)
  | .invoked ready =>
    { s with stats := { s.stats with callbacksInvoked := s.stats.callbacksInvoked + 1 } }.goto t
      (.invoke ready)
  | .callRcu ticket func arg =>
    match s.freeSlot with
    | some i => (s.fillSlot i ticket func arg).callReturn t 0
    | none => s.callProcess t (.callRcuRetry ticket func arg)
  | .callRcuRetry ticket func arg =>
    match s.freeSlot with
    | some i => (s.fillSlot i ticket func arg).callReturn t 0
    | none => s.callReturn t (-1)
  | .syncStart => s.goto t (.syncDeadline s.gracePeriod)
  | .syncDeadline start => s.goto t (.syncTest start (s.ticks + 200))
  | .syncTest start deadline =>
    if s.gracePeriod ≤ start then s.callProcess t (.syncBreak start deadline) else s.goto t .user
  | .syncBreak start deadline =>
    if start < s.gracePeriod then s.goto t .user else s.goto t (.syncTime start deadline)
  | .syncTime start deadline =>
    -- `sched_yield` lets any task take the next step
    if deadline ≤ s.ticks then s.goto t .user else s.goto t (.syncTest start deadline)

inductive Event where
  /-- A task calls one of the functions. -/
  | readLock (t : TaskId)
  | readUnlock (t : TaskId)
  | process (t : TaskId)
  | callRcu (t : TaskId) (func arg : ℕ)
  | synchronize (t : TaskId)
  /-- A task returns from a callback. -/
  | callbackReturn (t : TaskId)
  /-- A task executes its next statement. -/
  | run (t : TaskId)
  /-- The timer ticks. -/
  | tick
  deriving DecidableEq, Repr

/-- A task that is outside the functions, or in a callback, calls one. -/
def call (s : Rcu) (t : TaskId) (pc : RcuPc) : Rcu :=
  if (s.ctx t).pc = .user then s.goto t pc else s

/-- A task returns from a callback. -/
def callbackReturn (s : Rcu) (t : TaskId) : Rcu :=
  match (s.ctx t).pc, (s.ctx t).stack with
  | .user, .invoked ready :: rest =>
    s.setCtx t { s.ctx t with pc := .invoked ready, stack := rest }
  | _, _ => s

def step (s : Rcu) : Event → Rcu
  | .readLock t => s.call t .readLock
  | .readUnlock t => s.call t .readUnlock
  | .process t => s.call t .process
  | .callRcu t func arg =>
    if (s.ctx t).pc = .user then
      if func = 0 then s.callReturn t (-1)
      else { s with calls := s.calls + 1 }.goto t (.callRcu s.calls func arg)
    else s
  | .synchronize t => s.call t .syncStart
  | .callbackReturn t => s.callbackReturn t
  | .run t => s.stmt t (s.ctx t).pc
  | .tick => { s with ticks := s.ticks + 1 }

/-- `rcu_init`. -/
def init : Rcu where
  callbacks _ := ⟨0, 0, 0, false, 0, []⟩
  gracePeriod := 1
  readerNesting := 0
  stats := ⟨0, 0, 0, 0, 0⟩
  ticks := 0
  ctx _ := ⟨.user, [], none⟩
  sections := []
  opened := 0
  calls := 0

end Rcu

/-- The callbacks that a task is yet to run. -/
def RcuPc.ready : RcuPc → List RcuHead
  | .invoke ready | .invoked ready => ready
  | _ => []

def RcuReturn.ready : RcuReturn → List RcuHead
  | .invoked ready => ready
  | _ => []

def RcuCtx.ready (c : RcuCtx) : List RcuHead := c.pc.ready ++ c.stack.flatMap RcuReturn.ready

/-- The task is in `rcu_read_unlock`. -/
def RcuPc.unlocking : RcuPc → Bool
  | .readUnlock | .readUnlockSub => true
  | _ => false

namespace Rcu

/-- A reader leaves only a section that it has opened, the counter of readers does not overflow, and
callbacks are taken out of the table only while there is no reader. -/
def Quiet (s : Rcu) : Event → Prop
  | .readUnlock t => ∃ x ∈ s.sections, x.1 = t
  | .run t =>
    ((s.ctx t).pc = .readLock → s.readerNesting.toNat + 1 < 2 ^ 32) ∧
      ((s.ctx t).pc = .select → s.readerNesting = 0)
  | _ => True

instance (s : Rcu) : DecidablePred s.Quiet := by rintro ⟨⟩ <;> dsimp only [Quiet] <;> infer_instance

structure Inv (s : Rcu) : Prop where
  nesting : s.readerNesting.toNat = s.sections.length
  numbered : ∀ x ∈ s.sections, x.2 < s.opened
  queued : ∀ i, ∀ x ∈ (s.callbacks i).seen, x.2 < s.opened
  ready : ∀ t, ∀ h ∈ (s.ctx t).ready, ∀ x ∈ h.seen, x.2 < s.opened ∧ x ∉ s.sections
  unlocking : ∀ t, (s.ctx t).pc.unlocking = true → ∃ x ∈ s.sections, x.1 = t

variable {s s' : Rcu} {t : TaskId} {c : RcuCtx} {pc : RcuPc}

/-! ## A task goes on -/

lemma Inv.congr (h : s.Inv) (hnesting : s'.readerNesting = s.readerNesting)
    (hsections : s'.sections = s.sections) (hopened : s'.opened = s.opened)
    (hqueued : ∀ i, (s'.callbacks i).seen = (s.callbacks i).seen) (hctx : s'.ctx = s.ctx) :
    s'.Inv where
  nesting := by rw [hnesting, hsections, h.nesting]
  numbered := by rw [hsections, hopened]; exact h.numbered
  queued := by
    intro i
    rw [hqueued, hopened]
    exact h.queued i
  ready := by rw [hctx, hopened, hsections]; exact h.ready
  unlocking := by rw [hctx, hsections]; exact h.unlocking

attribute [local simp] Rcu.setCtx RcuCtx.ready RcuPc.ready Rcu.goto

lemma Inv.setCtx (h : s.Inv)
    (hready : ∀ hd ∈ c.ready, ∀ x ∈ hd.seen, x.2 < s.opened ∧ x ∉ s.sections)
    (hunlocking : c.pc.unlocking = true → ∃ x ∈ s.sections, x.1 = t) : (s.setCtx t c).Inv := by
  refine ⟨h.nesting, h.numbered, h.queued, fun u => ?_, fun u => ?_⟩
  · rcases eq_or_ne u t with rfl | hne
    · simpa using hready
    · simpa [hne] using h.ready u
  · rcases eq_or_ne u t with rfl | hne
    · simpa using hunlocking
    · simpa [hne] using h.unlocking u

lemma Inv.shrink (h : s.Inv) (hready : ∀ hd ∈ c.ready, hd ∈ (s.ctx t).ready)
    (hunlocking : c.pc.unlocking = false) : (s.setCtx t c).Inv := by
  refine h.setCtx (fun hd hmem => h.ready t hd (hready hd hmem)) fun hc => ?_
  cases hunlocking.symm.trans hc

lemma mem_ready_of_pc (hpc : ∀ hd ∈ pc.ready, hd ∈ c.pc.ready) :
    ∀ hd ∈ ({ c with pc := pc } : RcuCtx).ready, hd ∈ c.ready := by
  intro hd hmem
  rcases mem_append.1 hmem with hmem | hmem
  · exact mem_append_left _ (hpc hd hmem)
  · exact mem_append_right _ hmem

lemma Inv.goto (h : s.Inv) (hpc : pc.ready = [])
    (hunlocking : pc.unlocking = false) : (s.goto t pc).Inv := by
  refine h.shrink (mem_ready_of_pc fun hd hmem => ?_) hunlocking
  rw [hpc] at hmem
  cases hmem

lemma Inv.callProcess (h : s.Inv) {k : RcuReturn} (hk : k.ready = []) :
    (s.callProcess t k).Inv := by
  refine h.shrink (fun hd hmem => ?_) rfl
  have hmem' : hd ∈ (s.ctx t).stack.flatMap RcuReturn.ready := by
    simpa [hk] using hmem
  exact mem_append_right _ hmem'

lemma mem_ready_of_tail {k : RcuReturn} {rest : List RcuReturn}
    (hstack : (s.ctx t).stack = k :: rest)
    {hd : RcuHead} (hmem : hd ∈ rest.flatMap RcuReturn.ready) : hd ∈ (s.ctx t).ready := by
  refine mem_append_right _ ?_
  rw [hstack, flatMap_cons]
  exact mem_append_right _ hmem

lemma Inv.processReturn (h : s.Inv) : (s.processReturn t).Inv := by
  unfold Rcu.processReturn
  split
  · next hstack => exact h.shrink (fun hd hmem => mem_ready_of_tail hstack hmem) rfl
  · next hstack => exact h.shrink (fun hd hmem => mem_ready_of_tail hstack hmem) rfl
  · exact h.goto rfl rfl

lemma Inv.callReturn (h : s.Inv) (r : ℤ) : (s.callReturn t r).Inv := by
  refine h.shrink (fun hd hmem => ?_) rfl
  exact mem_append_right _ (by simpa using hmem)

lemma Inv.callbackReturn (h : s.Inv) : (s.callbackReturn t).Inv := by
  unfold Rcu.callbackReturn
  split
  · next ready rest hpc hstack =>
    refine h.shrink (fun hd hmem => ?_) rfl
    refine mem_append_right _ ?_
    rw [hstack]
    simpa [RcuReturn.ready] using hmem
  · exact h

/-! ## Sections -/

lemma Inv.openSection (h : s.Inv) (hlt : s.readerNesting.toNat + 1 < 2 ^ 32) :
    Inv { s with
      readerNesting := s.readerNesting + 1
      sections := (t, s.opened) :: s.sections
      opened := s.opened + 1 } where
  nesting := by
    rw [UInt32.toNat_add, UInt32.toNat_one, Nat.mod_eq_of_lt hlt, h.nesting, length_cons]
  numbered := by
    intro x hx
    rcases mem_cons.1 hx with rfl | hx
    · exact Nat.lt_succ_self _
    · exact Nat.lt_succ_of_lt (h.numbered x hx)
  queued := fun i x hx => Nat.lt_succ_of_lt (h.queued i x hx)
  ready := by
    intro u hd hmem x hx
    obtain ⟨hlt, hnot⟩ := h.ready u hd hmem x hx
    refine ⟨Nat.lt_succ_of_lt hlt, fun hin => ?_⟩
    rcases mem_cons.1 hin with rfl | hin
    · exact lt_irrefl _ hlt
    · exact hnot hin
  unlocking := by
    intro u hu
    obtain ⟨x, hx, hxu⟩ := h.unlocking u hu
    exact ⟨x, mem_cons_of_mem _ hx, hxu⟩

lemma Inv.closeSection (h : s.Inv) (hopen : ∃ x ∈ s.sections, x.1 = t) :
    ({ s with
        readerNesting := s.readerNesting - 1
        sections := s.sections.eraseP fun x => x.1 = t }.goto t .user).Inv := by
  obtain ⟨x, hx, hxt⟩ := hopen
  have hlen := length_eraseP_of_mem (p := fun x => decide (x.1 = t)) hx (by simpa using hxt)
  have hpos : 0 < s.sections.length := length_pos_of_mem hx
  have hsub : ∀ y ∈ s.sections.eraseP fun x => x.1 = t, y ∈ s.sections :=
    fun y hy => mem_of_mem_eraseP hy
  refine ⟨?_, fun y hy => h.numbered y (hsub y hy), h.queued, fun u hd hmem y hy => ?_,
    fun u hu => ?_⟩
  · have hle : 1 ≤ s.readerNesting := by
      rw [UInt32.le_iff_toNat_le, h.nesting]
      exact hpos
    change (s.readerNesting - 1).toNat = (s.sections.eraseP fun x => decide (x.1 = t)).length
    rw [UInt32.toNat_sub_of_le _ _ hle, h.nesting, hlen]
    rfl
  · have hmem' : hd ∈ (s.ctx u).ready := by
      rcases eq_or_ne u t with rfl | hne
      · refine @mem_ready_of_pc (s.ctx u) .user (fun _ hc => by cases hc) hd ?_
        simpa using hmem
      · simpa [hne] using hmem
    obtain ⟨hlt, hnot⟩ := h.ready u hd hmem' y hy
    exact ⟨hlt, fun hin => hnot (hsub y hin)⟩
  · rcases eq_or_ne u t with rfl | hne
    · simp [RcuPc.unlocking] at hu
    · -- the section of another reader stays
      obtain ⟨y, hy, hyu⟩ := h.unlocking u (by simpa [hne] using hu)
      refine ⟨y, (mem_eraseP_of_neg ?_).2 hy, hyu⟩
      simpa [hyu] using hne

/-! ## The table -/

/-- What the loop over the table leaves as it was, and where it finds the ready callbacks. -/
structure Selects (s : Rcu) (a : Rcu × List RcuHead) : Prop where
  nesting : a.1.readerNesting = s.readerNesting
  sections : a.1.sections = s.sections
  opened : a.1.opened = s.opened
  ctx : a.1.ctx = s.ctx
  seen : ∀ i, (a.1.callbacks i).seen = (s.callbacks i).seen
  ready : ∀ h ∈ a.2, ∃ i, h.seen = (s.callbacks i).seen

lemma Selects.selectSlot {a : Rcu × List RcuHead} (h : s.Selects a) (completed : UInt64)
    (i : Fin rcuMaxCallbacks) : s.Selects (selectSlot completed a i) := by
  unfold Rcu.selectSlot
  dsimp only
  split
  · refine ⟨h.nesting, h.sections, h.opened, h.ctx, fun j => ?_, fun hd hmem => ?_⟩
    · rcases eq_or_ne j i with rfl | hne
      · simp [h.seen]
      · simp [hne, h.seen]
    · rcases mem_append.1 hmem with hmem | hmem
      · exact h.ready hd hmem
      · exact ⟨i, by rw [mem_singleton.1 hmem, h.seen]⟩
  · exact h

/-- **What `rcu_process_callbacks` does with the lock held.** -/
lemma selects_selectReady (s : Rcu) : s.Selects s.selectReady := by
  have hloop : ∀ (completed : UInt64) (l : List (Fin rcuMaxCallbacks)) (a : Rcu × List RcuHead),
      s.Selects a → s.Selects (l.foldl (selectSlot completed) a) := by
    intro completed l
    induction l with
    | nil => exact fun _ h => h
    | cons i rest ih => exact fun a h => ih _ (h.selectSlot completed i)
  exact hloop _ _ _ ⟨rfl, rfl, rfl, rfl, fun _ => rfl, fun _ hc => by cases hc⟩

lemma Inv.select (h : s.Inv) (hquiet : s.readerNesting = 0) :
    (s.selectReady.1.goto t (.invoke s.selectReady.2)).Inv := by
  have hsel := s.selects_selectReady
  have hnone : s.sections = [] := by
    have hlen := h.nesting
    rw [hquiet] at hlen
    exact length_eq_zero_iff.1 hlen.symm
  have htable : s.selectReady.1.Inv :=
    h.congr hsel.nesting hsel.sections hsel.opened hsel.seen hsel.ctx
  refine htable.setCtx (fun hd hmem x hx => ?_) fun hc => by cases hc
  rw [hsel.sections, hsel.opened, hnone]
  refine ⟨?_, not_mem_nil⟩
  rcases mem_append.1 hmem with hmem | hmem
  · obtain ⟨i, hi⟩ := hsel.ready hd hmem
    exact h.queued i x (hi ▸ hx)
  · rw [hsel.ctx] at hmem
    exact (h.ready t hd (mem_append_right _ hmem) x hx).1

lemma Inv.fillSlot (h : s.Inv) (i : Fin rcuMaxCallbacks) (ticket func arg : ℕ) :
    (s.fillSlot i ticket func arg).Inv := by
  refine ⟨h.nesting, h.numbered, fun j => ?_, h.ready, h.unlocking⟩
  rcases eq_or_ne j i with rfl | hne
  · simpa [Rcu.fillSlot] using h.numbered
  · simpa [Rcu.fillSlot, hne] using h.queued j

/-! ## Runs -/

/-- **A statement keeps the invariant.** -/
theorem Inv.stmt (h : s.Inv) (hpc : (s.ctx t).pc = pc)
    (hlock : pc = .readLock → s.readerNesting.toNat + 1 < 2 ^ 32)
    (hselect : pc = .select → s.readerNesting = 0) : (s.stmt t pc).Inv := by
  have hstat : ∀ k : RcuStats, Inv { s with stats := k } :=
    fun k => h.congr rfl rfl rfl (fun _ => rfl) rfl
  cases pc with
  | user => exact h
  | readLock => exact (h.openSection (hlock rfl)).goto rfl rfl
  | readLockStat => exact (hstat _).goto rfl rfl
  | readUnlock =>
    simp only [Rcu.stmt]
    split
    · refine h.setCtx (fun hd hmem =>
        h.ready t hd (mem_ready_of_pc (fun _ hc => by cases hc) hd hmem))
        fun _ => h.unlocking t (by rw [hpc]; rfl)
    · exact h.goto rfl rfl
  | readUnlockSub => exact h.closeSection (h.unlocking t (by rw [hpc]; rfl))
  | process =>
    simp only [Rcu.stmt]
    split
    · exact h.goto rfl rfl
    · exact h.processReturn
  | select => exact h.select (hselect rfl)
  | invoke ready =>
    cases ready with
    | nil => exact h.processReturn
    | cons hd rest =>
      have hsub : ∀ k ∈ rest, k ∈ (s.ctx t).pc.ready := by
        intro k hk
        rw [hpc]
        exact mem_cons_of_mem _ hk
      simp only [Rcu.stmt]
      split
      · refine h.shrink (fun k hk => ?_) rfl
        have hk : k ∈ rest ++ (s.ctx t).stack.flatMap RcuReturn.ready := by
          simpa [RcuReturn.ready] using hk
        rcases mem_append.1 hk with hk | hk
        · exact mem_append_left _ (hsub k hk)
        · exact mem_append_right _ hk
      · exact h.shrink (mem_ready_of_pc hsub) rfl
  | invoked ready =>
    refine (hstat _).shrink (mem_ready_of_pc fun hd hmem => ?_) rfl
    rw [hpc]
    exact hmem
  | callRcu ticket func arg =>
    simp only [Rcu.stmt]
    split
    · exact (h.fillSlot _ ticket func arg).callReturn 0
    · exact h.callProcess rfl
  | callRcuRetry ticket func arg =>
    simp only [Rcu.stmt]
    split
    · exact (h.fillSlot _ ticket func arg).callReturn 0
    · exact h.callReturn (-1)
  | syncStart | syncDeadline start => exact h.goto rfl rfl
  | syncTest start deadline =>
    simp only [Rcu.stmt]
    split
    · exact h.callProcess rfl
    · exact h.goto rfl rfl
  | syncBreak start deadline | syncTime start deadline =>
    simp only [Rcu.stmt]
    split
    · exact h.goto rfl rfl
    · exact h.goto rfl rfl

/-- **A step that meets the condition keeps the invariant.** -/
theorem Inv.step (h : s.Inv) (e : Event) (hq : s.Quiet e) : (s.step e).Inv := by
  have hcall : ∀ (t : TaskId) {pc : RcuPc}, pc.ready = [] → pc.unlocking = false →
      (s.call t pc).Inv := by
    intro t pc hready hunlocking
    unfold Rcu.call
    split
    · exact h.goto hready hunlocking
    · exact h
  cases e with
  | readLock t | process t | synchronize t => exact hcall t rfl rfl
  | readUnlock t =>
    simp only [Rcu.step, Rcu.call]
    split
    · refine h.setCtx (fun hd hmem =>
        h.ready t hd (mem_ready_of_pc (fun _ hc => by cases hc) hd hmem))
        fun _ => hq
    · exact h
  | callRcu t func arg =>
    have hcalls : Inv { s with calls := s.calls + 1 } := h.congr rfl rfl rfl (fun _ => rfl) rfl
    simp only [Rcu.step]
    split_ifs
    · exact h.callReturn (-1)
    · exact hcalls.goto rfl rfl
    · exact h
  | callbackReturn t => exact h.callbackReturn
  | run t => exact h.stmt rfl hq.1 hq.2
  | tick => exact h.congr rfl rfl rfl (fun _ => rfl) rfl

lemma inv_init : init.Inv where
  nesting := rfl
  numbered := fun _ hx => by cases hx
  queued := fun _ _ hx => by cases hx
  ready := fun _ _ hx => by cases hx
  unlocking := fun _ hx => by cases hx

/-- **Callbacks wait for readers.** In every run whose steps meet the condition, when a task is
about to run a callback, no section that was open when the callback was queued is still open. -/
theorem readers_left_run (es : List Event) (h : Along step Quiet init es) (t : TaskId)
    (hd : RcuHead) (rest : List RcuHead)
    (hpc : ((run step init es).ctx t).pc = .invoke (hd :: rest)) :
    ∀ x ∈ hd.seen, x ∉ (run step init es).sections := by
  have hstep : ∀ (s : Rcu) (e : Event), s.Inv → s.Quiet e → (s.step e).Inv :=
    fun _ e hs => hs.step e
  have hrun := run_invariant_of_along hstep inv_init h
  have hmem : hd ∈ ((run step init es).ctx t).ready := by
    refine mem_append_left _ ?_
    rw [hpc]
    exact mem_cons_self
  exact fun x hx => (hrun.ready t hd hmem x hx).2

/-- Task 2 is inside a section when task 3 queues a callback, and leaves it before task 1 runs the
callback. -/
theorem readers_left_run_one_reader :
    ∃ s, s = run step init [.readLock 2, .run 2, .run 2, .callRcu 3 7 8, .run 3,
        .readUnlock 2, .run 2, .run 2, .process 1, .run 1, .run 1] ∧
      (s.ctx 1).pc = .invoke [⟨7, 8, 2, true, 0, [(2, 0)]⟩] ∧
      ∀ x ∈ [((2 : TaskId), 0)], x ∉ s.sections :=
  ⟨_, rfl, by decide +kernel,
    readers_left_run _ (by decide +kernel) 1 ⟨7, 8, 2, true, 0, [(2, 0)]⟩ [] (by decide +kernel)⟩

/-- **A reader is still inside.** Task 1 finds no reader and is switched away from before it takes
the lock. Task 2 opens a section, and task 3 queues a callback. Task 1 goes on and takes the
callback out of the table; it is about to run it, and then runs it, while the section is open. -/
theorem reader_inside :
    ∃ s hd, s = run step init [.process 1, .run 1, .readLock 2, .run 2, .callRcu 3 7 8,
        .run 3, .run 1] ∧
      (s.ctx 3).result = some 0 ∧ (s.ctx 1).pc = .invoke [hd] ∧ (2, 0) ∈ hd.seen ∧
      (2, 0) ∈ s.sections ∧ ((s.step (.run 1)).ctx 1).stack = [.invoked []] ∧
      (2, 0) ∈ (s.step (.run 1)).sections :=
  ⟨_, ⟨7, 8, 2, true, 0, [(2, 0)]⟩, rfl, by decide +kernel, by decide +kernel, by decide,
    by decide +kernel, by decide +kernel, by decide +kernel⟩

end Rcu

end SubOS.Kernel
