import Mathlib.Data.UInt
import SubOS.Lib.EventRun
import SubOS.Lib.RingBuffer

set_option autoImplicit false

/-!
# The rings of io_uring

`io_uring/io_uring.c`: a ring of submission entries and a ring of completion entries, both of 32
cells. `io_uring_submit` performs all entries that wait and posts a completion for each, unless the
completion ring is full.

## Main definitions

* `ioUringSubmit`, `Session` — the function, and a ring in use.

## Main results

* `Session.complete_iff`, `Session.completion_lost` — when no completion is lost.

## Design

The cursors are elements of `Fin 32`, since the code reduces them modulo 32. The fields of an entry
that no function reads are left out.
-/

namespace SubOS.IoUring

open EventRun RingBuffer List

/-- `IORING_QUEUE_DEPTH`. -/
def queueDepth : ℕ := 32

instance : NeZero queueDepth := ⟨by decide⟩

/-- `io_uring_sqe_t`. -/
structure Sqe where
  opcode : UInt8
  fd : Int32
  off : UInt64
  addr : UInt64
  len : UInt32
  userData : UInt64
deriving DecidableEq

/-- `io_uring_cqe_t`. -/
structure Cqe where
  userData : UInt64
  res : Int32
  flags : UInt32
deriving DecidableEq

/-- `io_uring_ring_t`. -/
structure Ring where
  sqes : Fin queueDepth → Sqe
  sqHead : Fin queueDepth
  sqTail : Fin queueDepth
  cqes : Fin queueDepth → Cqe
  cqHead : Fin queueDepth
  cqTail : Fin queueDepth
  submitted : UInt32
  completed : UInt32

/-- An entry after `memset`. -/
def zeroSqe : Sqe := ⟨0, 0, 0, 0, 0, 0⟩

def ioUringInit : Ring := ⟨fun _ => zeroSqe, 0, 0, fun _ => ⟨0, 0, 0⟩, 0, 0, 0, 0⟩

/-! ## Performing an entry -/

/-- The functions of `vfs.c` that an entry calls: `vfs_lseek` with `SEEK_SET`, `vfs_read`,
`vfs_write` and `vfs_close`. -/
structure VfsOps (σ : Type*) where
  lseek : σ → Int32 → Int64 → σ
  read : σ → Int32 → UInt64 → UInt32 → σ × ℤ
  write : σ → Int32 → UInt64 → UInt32 → σ × ℤ
  close : σ → Int32 → σ × ℤ

/-- `IORING_OP_NOP`. -/
def opNop : UInt8 := 0

/-- `IORING_OP_READV`. -/
def opReadv : UInt8 := 1

/-- `IORING_OP_WRITEV`. -/
def opWritev : UInt8 := 2

/-- `IORING_OP_FSYNC`. -/
def opFsync : UInt8 := 3

/-- `IORING_OP_READ_FIXED`. -/
def opReadFixed : UInt8 := 4

/-- `IORING_OP_WRITE_FIXED`. -/
def opWriteFixed : UInt8 := 5

/-- `IORING_OP_CLOSE`. -/
def opClose : UInt8 := 7

section Perform

variable {σ : Type*} (ops : VfsOps σ)

/-- The seek before a transfer. -/
def seekFirst (s : σ) (sqe : Sqe) : σ :=
  if 0 < sqe.off then ops.lseek s sqe.fd sqe.off.toInt64 else s

/-- The arguments of a transfer are there. -/
def transfers (sqe : Sqe) : Bool := decide (0 ≤ sqe.fd) && sqe.addr != 0 && decide (0 < sqe.len)

/-- The `switch` of `io_uring_submit`: the new state and `res`. -/
def perform (s : σ) (sqe : Sqe) : σ × Int32 :=
  if sqe.opcode = opNop then (s, 0)
  else if sqe.opcode = opReadv ∨ sqe.opcode = opReadFixed then
    if transfers sqe then
      let r := ops.read (seekFirst ops s sqe) sqe.fd sqe.addr sqe.len
      (r.1, Int32.ofInt r.2)
    else (s, -1)
  else if sqe.opcode = opWritev ∨ sqe.opcode = opWriteFixed then
    if transfers sqe then
      let r := ops.write (seekFirst ops s sqe) sqe.fd sqe.addr sqe.len
      (r.1, Int32.ofInt r.2)
    else (s, -1)
  else if sqe.opcode = opClose then
    if 0 ≤ sqe.fd then
      let r := ops.close s sqe.fd
      (r.1, Int32.ofInt r.2)
    else (s, 0)
  else if sqe.opcode = opFsync then (s, 0)
  else (s, -1)

end Perform

/-! ## The calls -/

namespace Ring

/-- `io_uring_get_sqe`: the cell of the new entry. -/
def ioUringGetSqe (r : Ring) : Ring × Option (Fin queueDepth) :=
  let next := r.sqTail + 1
  if next = r.sqHead then (r, none)
  else ({ r with sqes := Function.update r.sqes r.sqTail zeroSqe, sqTail := next }, some r.sqTail)

/-- Post a completion, if there is a free cell. -/
def post (r : Ring) (cqe : Cqe) : Ring :=
  let nextCq := r.cqTail + 1
  if nextCq ≠ r.cqHead then
    { r with
      cqes := Function.update r.cqes r.cqTail cqe, cqTail := nextCq, completed := r.completed + 1 }
  else r

/-- The end of a round of `io_uring_submit`. -/
def consume (r : Ring) : Ring := { r with sqHead := r.sqHead + 1, submitted := r.submitted + 1 }

def ioUringPeekCqe (r : Ring) : Option Cqe :=
  if r.cqHead = r.cqTail then none else some (r.cqes r.cqHead)

def ioUringCqeSeen (r : Ring) : Ring :=
  if r.cqHead ≠ r.cqTail then { r with cqHead := r.cqHead + 1 } else r

/-- The entries that wait, in order. -/
def waiting (r : Ring) : List Sqe := (RingBuffer.between r.sqes r.sqHead r.sqTail).contents

/-- The completions that have not been seen, in order. -/
def unseen (r : Ring) : List Cqe := (RingBuffer.between r.cqes r.cqHead r.cqTail).contents

end Ring

/-- The completion of an entry with this result. -/
def cqeOf (done : Sqe × Int32) : Cqe := ⟨done.1.userData, done.2, 0⟩

/-- The loop of `io_uring_submit`: the entries that it consumes, with their results. -/
def submitLoop {σ : Type*} (ops : VfsOps σ) : ℕ → σ → Ring → σ × Ring × List (Sqe × Int32)
  | 0, s, r => (s, r, [])
  | n + 1, s, r =>
    if r.sqHead = r.sqTail then (s, r, [])
    else
      let sqe := r.sqes r.sqHead
      let p := perform ops s sqe
      let rest := submitLoop ops n p.1 (r.post (cqeOf (sqe, p.2))).consume
      (rest.1, rest.2.1, (sqe, p.2) :: rest.2.2)

/-- `io_uring_submit`. At most 31 entries wait. -/
def ioUringSubmit {σ : Type*} (ops : VfsOps σ) (s : σ) (r : Ring) :
    σ × Ring × List (Sqe × Int32) :=
  submitLoop ops queueDepth s r

/-! ## What the calls do to the rings -/

namespace Ring

variable (r : Ring) (cqe : Cqe)

lemma room_iff : r.cqTail + 1 ≠ r.cqHead ↔ r.unseen.length < 31 := by
  unfold unseen
  constructor
  · exact length_between_of_room
  · intro hlt hfull
    rw [length_between_of_full r.cqes hfull] at hlt
    exact absurd hlt (by decide)

lemma unseen_post :
    (r.post cqe).unseen = if r.unseen.length < 31 then r.unseen ++ [cqe] else r.unseen := by
  unfold post
  by_cases hroom : r.cqTail + 1 ≠ r.cqHead
  · rw [if_pos hroom, if_pos (r.room_iff.1 hroom)]
    exact contents_between_push hroom cqe
  · rw [if_neg hroom, if_neg fun hlt => hroom (r.room_iff.2 hlt)]

lemma completed_post :
    (r.post cqe).completed = if r.unseen.length < 31 then r.completed + 1 else r.completed := by
  unfold post
  by_cases hroom : r.cqTail + 1 ≠ r.cqHead
  · rw [if_pos hroom, if_pos (r.room_iff.1 hroom)]
  · rw [if_neg hroom, if_neg fun hlt => hroom (r.room_iff.2 hlt)]

@[simp] lemma post_sqes : (r.post cqe).sqes = r.sqes := by
  unfold post
  dsimp only
  split_ifs <;> rfl

@[simp] lemma post_sqHead : (r.post cqe).sqHead = r.sqHead := by
  unfold post
  dsimp only
  split_ifs <;> rfl

@[simp] lemma post_sqTail : (r.post cqe).sqTail = r.sqTail := by
  unfold post
  dsimp only
  split_ifs <;> rfl

@[simp] lemma post_submitted : (r.post cqe).submitted = r.submitted := by
  unfold post
  dsimp only
  split_ifs <;> rfl

lemma waiting_consume_post (h : r.sqHead ≠ r.sqTail) :
    r.waiting = r.sqes r.sqHead :: (r.post cqe).consume.waiting := by
  unfold waiting consume
  rw [post_sqes, post_sqHead, post_sqTail]
  exact contents_between_pop h

@[simp] lemma unseen_consume : r.consume.unseen = r.unseen := rfl

@[simp] lemma completed_consume : r.consume.completed = r.completed := rfl

lemma unseen_length_le : r.unseen.length ≤ 31 := by
  unfold unseen
  rw [length_between]
  exact Nat.le_of_lt_succ (r.cqTail - r.cqHead).isLt

lemma waiting_length_le : r.waiting.length ≤ 31 := by
  unfold waiting
  rw [length_between]
  exact Nat.le_of_lt_succ (r.sqTail - r.sqHead).isLt

/-- What is peeked is the first completion that has not been seen, and it is seen next. -/
lemma unseen_eq_peek : r.unseen = r.ioUringPeekCqe.toList ++ r.ioUringCqeSeen.unseen := by
  unfold ioUringPeekCqe ioUringCqeSeen
  by_cases hempty : r.cqHead = r.cqTail
  · rw [if_pos hempty, if_neg (not_not.2 hempty)]
    rfl
  · rw [if_neg hempty, if_pos hempty]
    exact contents_between_pop hempty

lemma waiting_getSqe :
    r.ioUringGetSqe.1.waiting =
      r.waiting ++ if r.ioUringGetSqe.2.isSome then [zeroSqe] else [] := by
  unfold ioUringGetSqe
  by_cases hfull : r.sqTail + 1 = r.sqHead
  · rw [if_pos hfull]
    exact (append_nil _).symm
  · rw [if_neg hfull]
    exact contents_between_push hfull zeroSqe

end Ring

/-! ## Submitting -/

/-- What `io_uring_submit` leaves behind: it has consumed the entries that waited, in order, and
their completions are unseen as far as there was room. -/
structure SubmitSpec (r r' : Ring) (done : List (Sqe × Int32)) : Prop where
  consumed : done.map Prod.fst = r.waiting
  emptied : r'.waiting = []
  unseen : r'.unseen = r.unseen ++ (done.map cqeOf).take (31 - r.unseen.length)
  submitted : r'.submitted = r.submitted + UInt32.ofNat done.length
  completed : r'.completed =
    r.completed + UInt32.ofNat (min done.length (31 - r.unseen.length))

/-- **The loop of `io_uring_submit`.**

**Proof sketch.** Induction on the rounds. A round takes the first entry that waits and posts its
completion if fewer than 31 are unseen; a ring that is full stays full. -/
theorem submitLoop_spec {σ : Type*} (ops : VfsOps σ) {n : ℕ} (s : σ) {r : Ring}
    (hn : r.waiting.length ≤ n) :
    SubmitSpec r (submitLoop ops n s r).2.1 (submitLoop ops n s r).2.2 := by
  have hidle : ∀ {r : Ring}, r.waiting = [] → SubmitSpec r r [] := fun {r} hempty =>
    ⟨hempty.symm, hempty, by simp, by simp, by simp⟩
  induction n generalizing s r with
  | zero => exact hidle (length_eq_zero_iff.1 (Nat.le_zero.1 hn))
  | succ n ih =>
    unfold submitLoop
    by_cases hempty : r.sqHead = r.sqTail
    · rw [if_pos hempty]
      refine hidle ?_
      unfold Ring.waiting
      rw [hempty, contents_between_self]
    · rw [if_neg hempty]
      set sqe := r.sqes r.sqHead
      set p := perform ops s sqe
      have hwaiting := r.waiting_consume_post (cqeOf (sqe, p.2)) hempty
      have hrest := ih p.1 (r := (r.post (cqeOf (sqe, p.2))).consume) (by
        rw [hwaiting, length_cons] at hn
        omega)
      have hunseen := r.unseen_post (cqeOf (sqe, p.2))
      have hcompleted := r.completed_post (cqeOf (sqe, p.2))
      refine ⟨?_, hrest.emptied, ?_, ?_, ?_⟩
      · rw [hwaiting, map_cons, hrest.consumed]
      · rw [hrest.unseen, Ring.unseen_consume, hunseen]
        by_cases hroom : r.unseen.length < 31
        · rw [if_pos hroom, map_cons, length_append, length_singleton,
            show 31 - r.unseen.length = (31 - (r.unseen.length + 1)) + 1 by omega,
            take_succ_cons, append_assoc]
          rfl
        · rw [if_neg hroom, show 31 - r.unseen.length = 0 by omega, take_zero, take_zero]
      · rw [hrest.submitted, length_cons, UInt32.ofNat_add]
        show (r.post _).submitted + 1 + _ = _
        rw [Ring.post_submitted, add_assoc, add_comm 1]
        rfl
      · rw [hrest.completed, Ring.completed_consume, Ring.unseen_consume, hunseen, hcompleted,
          length_cons]
        by_cases hroom : r.unseen.length < 31
        · rw [if_pos hroom, if_pos hroom, length_append, length_singleton, show ∀ k,
            min (k + 1) (31 - r.unseen.length) =
              min k (31 - (r.unseen.length + 1)) + 1 by omega, UInt32.ofNat_add, add_assoc,
            add_comm 1]
          rfl
        · rw [if_neg hroom, if_neg hroom, show 31 - r.unseen.length = 0 by omega, Nat.min_zero,
            Nat.min_zero]

/-! ## A ring in use -/

/-- A ring in use: the entries that have been consumed with their results, and the completions that
have been observed. -/
structure Session (σ : Type*) where
  env : σ
  ring : Ring
  consumed : List (Sqe × Int32)
  observed : List Cqe

/-- The calls on a ring, and the writing of an entry by the caller. -/
inductive RingEvent where
  | getSqe
  | fill (i : Fin queueDepth) (sqe : Sqe)
  | submit
  | peekCqe
  | cqeSeen

namespace Session

variable {σ : Type*} (ops : VfsOps σ)

/-- One call. A completion is observed when it is marked as seen; it is the one that
`io_uring_peek_cqe` returns then. -/
def step (t : Session σ) : RingEvent → Session σ
  | .getSqe => { t with ring := t.ring.ioUringGetSqe.1 }
  | .fill i sqe => { t with ring := { t.ring with sqes := Function.update t.ring.sqes i sqe } }
  | .submit =>
    let out := ioUringSubmit ops t.env t.ring
    { t with env := out.1, ring := out.2.1, consumed := t.consumed ++ out.2.2 }
  | .peekCqe => t
  | .cqeSeen =>
    { t with
      ring := t.ring.ioUringCqeSeen, observed := t.observed ++ t.ring.ioUringPeekCqe.toList }

/-- The ring after `io_uring_init`. -/
def start (env : σ) : Session σ := ⟨env, ioUringInit, [], []⟩

/-- Every entry that was consumed has its one completion, in the order of the submission: it has
been observed or is still unseen. The counters agree. -/
def Complete (t : Session σ) : Prop :=
  t.observed ++ t.ring.unseen = t.consumed.map cqeOf ∧ t.ring.submitted = t.ring.completed

/-- The completions of a submission fit into the completion ring. -/
def Fits (t : Session σ) : RingEvent → Prop
  | .submit => t.ring.waiting.length + t.ring.unseen.length ≤ 31
  | _ => True

variable {ops} {t : Session σ}

lemma submit_spec (ops : VfsOps σ) (t : Session σ) :
    SubmitSpec t.ring (ioUringSubmit ops t.env t.ring).2.1 (ioUringSubmit ops t.env t.ring).2.2 :=
  submitLoop_spec ops t.env (le_trans t.ring.waiting_length_le (by decide))

/-- **A submission loses no completion** if and only if they all fit. -/
lemma complete_submit_iff (ops : VfsOps σ) (h : t.Complete) :
    (t.step ops .submit).Complete ↔ t.Fits .submit := by
  have hspec := submit_spec ops t
  set out := ioUringSubmit ops t.env t.ring with hout
  have hle := t.ring.unseen_length_le
  have hlength : out.2.2.length = t.ring.waiting.length := by
    rw [← hspec.consumed, length_map]
  have hlists : t.observed ++ out.2.1.unseen = (t.consumed ++ out.2.2).map cqeOf ↔
      (out.2.2.map cqeOf).take (31 - t.ring.unseen.length) = out.2.2.map cqeOf := by
    rw [hspec.unseen, ← append_assoc, h.1, map_append, append_cancel_left_eq]
  have hstep : (t.step ops .submit).Complete ↔
      t.observed ++ out.2.1.unseen = (t.consumed ++ out.2.2).map cqeOf ∧
        out.2.1.submitted = out.2.1.completed := Iff.rfl
  rw [hstep, hlists, hspec.submitted, hspec.completed, h.2]
  show _ ↔ t.ring.waiting.length + t.ring.unseen.length ≤ 31
  constructor
  · rintro ⟨htake, -⟩
    have hlen := congrArg length htake
    rw [length_take, length_map] at hlen
    omega
  · intro hfits
    refine ⟨take_of_length_le (by rw [length_map]; omega), ?_⟩
    rw [Nat.min_eq_left (by omega)]

lemma complete_step_iff (ops : VfsOps σ) (h : t.Complete) (e : RingEvent) :
    (t.step ops e).Complete ↔ t.Fits e := by
  cases e with
  | submit => exact complete_submit_iff ops h
  | getSqe =>
    refine iff_of_true ?_ trivial
    unfold step Ring.ioUringGetSqe
    dsimp only
    split_ifs <;> exact h
  | fill i sqe | peekCqe => exact iff_of_true h trivial
  | cqeSeen =>
    refine iff_of_true ⟨?_, ?_⟩ trivial
    · show (t.observed ++ t.ring.ioUringPeekCqe.toList) ++ t.ring.ioUringCqeSeen.unseen =
        t.consumed.map cqeOf
      rw [append_assoc, ← t.ring.unseen_eq_peek, h.1]
    · show t.ring.ioUringCqeSeen.submitted = t.ring.ioUringCqeSeen.completed
      unfold Ring.ioUringCqeSeen
      split_ifs <;> exact h.2

/-- **No completion is lost.** A new entry stands behind those that wait, and a submission consumes
the entries that wait, in order. In every state of a run every entry consumed so far has its one
completion, in the order of the submission, and the counters agree, if and only if every submission
fits into the completion ring. -/
theorem complete_iff (ops : VfsOps σ) (env : σ) (es : List RingEvent) :
    (∀ t : Session σ, (t.step ops .getSqe).ring.waiting =
      t.ring.waiting ++ if t.ring.ioUringGetSqe.2.isSome then [zeroSqe] else []) ∧
    (∀ t : Session σ, (t.step ops .submit).consumed.map Prod.fst =
      t.consumed.map Prod.fst ++ t.ring.waiting ∧ (t.step ops .submit).ring.waiting = []) ∧
    (Along (step ops) (fun t e => (t.step ops e).Complete) (start env) es ↔
      Along (step ops) Fits (start env) es) := by
  refine ⟨fun t => t.ring.waiting_getSqe, fun t => ?_, ?_⟩
  · have hspec := submit_spec ops t
    refine ⟨?_, hspec.emptied⟩
    show (t.consumed ++ _).map Prod.fst = _
    rw [map_append, hspec.consumed]
  · have hstart : (start env).Complete := ⟨rfl, rfl⟩
    exact along_congr Complete (fun t e h => complete_step_iff ops h e)
      (fun t e h hfits => (complete_step_iff ops h e).2 hfits) hstart es

end Session

/-! ## A full completion ring -/

/-- A file system that is never called. -/
def idle : VfsOps Unit :=
  ⟨fun s _ _ => s, fun s _ _ _ => (s, 0), fun s _ _ _ => (s, 0), fun s _ => (s, 0)⟩

/-- 31 entries are submitted, and one more, before a completion is seen. -/
def overfull : List RingEvent :=
  List.replicate 31 .getSqe ++ [.submit, .getSqe, .submit]

/-- **A completion is lost.** The last entry has been consumed and counted as submitted, and there
is no completion for it. -/
theorem Session.completion_lost :
    (run (Session.step idle) (Session.start ()) overfull).consumed.length = 32 ∧
    (run (Session.step idle) (Session.start ()) overfull).observed = [] ∧
    (run (Session.step idle) (Session.start ()) overfull).ring.unseen.length = 31 ∧
    (run (Session.step idle) (Session.start ()) overfull).ring.submitted = 32 ∧
    (run (Session.step idle) (Session.start ()) overfull).ring.completed = 31 := by
  decide +kernel

end SubOS.IoUring
