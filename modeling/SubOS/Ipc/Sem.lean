import Mathlib.Algebra.Group.Int.Defs
import Mathlib.Data.Fin.Tuple.Basic
import Mathlib.Data.List.Infix
import SubOS.Lib.EventRun

set_option autoImplicit false

/-!
# System V semaphores

The sets of `ipc/sem.c`. `semop` applies its operations one after another. It looks at the number of
a semaphore when it comes to the operation, and not at all at the value: an operation with a wrong
number leaves the ones before it applied, and a counter may become negative.

## Main definitions

* `semop`, `Atomic`, `Careful` — the call; all or nothing; the condition on a call.

## Main results

* `semop_atomic`, `not_atomic` — when `semop` is atomic.

## Design

`sem_flg`, `semflg` and the field `semid` are read by no function.
-/

namespace SubOS.Ipc

open Function EventRun Int32 List

def maxSemSets : ℕ := 16

def maxSemsPerSet : ℕ := 16

structure Sembuf where
  semNum : UInt16
  semOp : Int16
  deriving DecidableEq

/-- `semid_ds_t`. -/
structure SemidDs where
  key : Int32
  nsems : ℕ
  values : Fin maxSemsPerSet → Int32
  inUse : Bool
  nsems_le : nsems ≤ maxSemsPerSet

/-- `sem_sets`. -/
abbrev SemSets := Fin maxSemSets → SemidDs

/-- One operation of `semop`. -/
def SemidDs.add (d : SemidDs) (op : Sembuf) (h : op.semNum.toNat < d.nsems) : SemidDs :=
  let i : Fin maxSemsPerSet := ⟨op.semNum.toNat, h.trans_le d.nsems_le⟩
  { d with values := update d.values i (d.values i + op.semOp.toInt32) }

/-- The loop of `semop`. -/
def SemidDs.semopLoop (d : SemidDs) : List Sembuf → SemidDs × ℤ
  | [] => (d, 0)
  | op :: sops => if h : op.semNum.toNat < d.nsems then (d.add op h).semopLoop sops else (d, -1)

/-- A set cleared by `memset`. -/
def SemidDs.zero : SemidDs := ⟨0, 0, fun _ => 0, false, Nat.zero_le _⟩

namespace SemSets

def init : SemSets := fun _ => .zero

def semget (s : SemSets) (key : Int32) (nsems : ℤ) : SemSets × ℤ :=
  if h : 0 < nsems ∧ nsems ≤ maxSemsPerSet then
    match Fin.find? fun i => (s i).inUse && (s i).key == key with
    | some i => (s, i.val)
    | none =>
      match Fin.find? fun i => !(s i).inUse with
      | some i =>
        let values := fun k : Fin maxSemsPerSet => if (k.val : ℤ) < nsems then 0 else (s i).values k
        (update s i ⟨key, nsems.toNat, values, true, by omega⟩, i.val)
      | none => (s, -1)
  else (s, -1)

/-- The set with this number, if it is in use. -/
def slot (s : SemSets) (semid : ℤ) : Option (Fin maxSemSets) :=
  if h : 0 ≤ semid ∧ semid < maxSemSets then
    if (s ⟨semid.toNat, by omega⟩).inUse = true then some ⟨semid.toNat, by omega⟩ else none
  else none

def semop (s : SemSets) (semid : ℤ) (sops : Option (List Sembuf)) : SemSets × ℤ :=
  match s.slot semid with
  | none => (s, -1)
  | some i =>
    match sops with
    | none => (s, -1)
    | some sops => (update s i ((s i).semopLoop sops).1, ((s i).semopLoop sops).2)

/-- `semctl` with `IPC_RMID`. The other commands change nothing. -/
def semctl (s : SemSets) (semid : ℤ) : SemSets :=
  match s.slot semid with
  | some i => update s i .zero
  | none => s

/-- A call; a `semop` without an array is one with a NULL pointer. -/
inductive Call where
  | semget (key : Int32) (nsems : ℤ)
  | semop (semid : ℤ) (sops : Option (List Sembuf))
  | semctl (semid : ℤ)

def step (s : SemSets) : Call → SemSets
  | .semget key nsems => (s.semget key nsems).1
  | .semop semid sops => (s.semop semid sops).1
  | .semctl semid => s.semctl semid

end SemSets

/-! ## All or nothing -/

/-- What the operations add to a semaphore. -/
def delta (k : Fin maxSemsPerSet) : List Sembuf → ℤ
  | [] => 0
  | op :: sops => (if op.semNum.toNat = k.val then op.semOp.toInt else 0) + delta k sops

/-- The operations before the first one with a wrong number. -/
def SemidDs.before (d : SemidDs) (sops : List Sembuf) : List Sembuf :=
  sops.takeWhile fun op => op.semNum.toNat < d.nsems

/-- The sums of the operations are applied, and no value on the way is negative. -/
def SemidDs.Applied (d d' : SemidDs) (sops : List Sembuf) : Prop :=
  ∀ k, (d'.values k).toInt = (d.values k).toInt + delta k sops ∧
    ∀ pre, pre <+: sops → 0 ≤ (d.values k).toInt + delta k pre

namespace SemSets

/-- A call of `semop` returns 0 and applies its operations, or it returns -1 and changes nothing. -/
def Atomic (s : SemSets) : Call → Prop
  | .semop semid sops =>
    (∃ (i : Fin maxSemSets) (ops : List Sembuf), (i.val : ℤ) = semid ∧ sops = some ops ∧
      (s i).Applied ((s.semop semid sops).1 i) ops ∧
      (∀ j ≠ i, (s.semop semid sops).1 j = s j) ∧ (s.semop semid sops).2 = 0) ∨
    s.semop semid sops = (s, -1)
  | _ => True

/-- All numbers are right and the sums stay between 0 and `INT_MAX`, or those before the first wrong
number cancel each other. -/
def Careful (s : SemSets) : Call → Prop
  | .semop semid sops => ∀ i ∈ s.slot semid, ∀ ops ∈ sops,
    ((s i).before ops = ops ∧ ∀ pre ∈ ops.inits, ∀ k,
      0 ≤ ((s i).values k).toInt + delta k pre ∧ ((s i).values k).toInt + delta k pre < 2 ^ 31) ∨
    (s i).before ops ≠ ops ∧ ∀ k, delta k ((s i).before ops) % 2 ^ 32 = 0
  | _ => True

instance (s : SemSets) : DecidablePred s.Careful := by
  rintro ⟨⟩ <;> dsimp only [Careful] <;> infer_instance

end SemSets

lemma SemidDs.add_values (d : SemidDs) (op : Sembuf) (h : op.semNum.toNat < d.nsems)
    (k : Fin maxSemsPerSet) : (d.add op h).values k =
      d.values k + ofInt (if op.semNum.toNat = k.val then op.semOp.toInt else 0) := by
  unfold add
  dsimp only
  by_cases hk : k = ⟨op.semNum.toNat, h.trans_le d.nsems_le⟩
  · rw [hk, update_self, if_pos rfl, ← Int16.toInt_toInt32, ofInt_toInt]
  · rw [update_of_ne hk, if_neg fun heq => hk (Fin.ext heq.symm)]
    exact (Int32.add_zero _).symm

/-- **The loop of `semop`** applies the operations before the first one with a wrong number. -/
lemma SemidDs.semopLoop_eq (d : SemidDs) (sops : List Sembuf) :
    d.semopLoop sops =
      ({ d with values := fun k => d.values k + ofInt (delta k (d.before sops)) },
        if d.before sops = sops then 0 else -1) := by
  induction sops generalizing d with
  | nil =>
    have hsame : (fun k => d.values k + ofInt (delta k (d.before []))) = d.values :=
      funext fun k => Int32.add_zero _
    rw [hsame]
    rfl
  | cons op sops ih =>
    unfold semopLoop before
    by_cases h : op.semNum.toNat < d.nsems
    · rw [dif_pos h, ih, takeWhile_cons_of_pos (by simpa using h)]
      have hvalues : (fun k => (d.add op h).values k + ofInt (delta k ((d.add op h).before sops))) =
          fun k => d.values k + ofInt (delta k (op :: d.before sops)) := by
        funext k
        rw [add_values, delta, ofInt_add, Int32.add_assoc]
        rfl
      rw [hvalues]
      simp only [cons.injEq, true_and]
      rfl
    · have hsame : (fun k => d.values k + ofInt (delta k [])) = d.values :=
        funext fun k => Int32.add_zero _
      rw [dif_neg h, takeWhile_cons_of_neg (by simpa using h), hsame, if_neg (by simp)]

/-- Sums that stay between 0 and `INT_MAX` are applied. -/
lemma SemidDs.applied_of_fits {d : SemidDs} {sops : List Sembuf} (hall : d.before sops = sops)
    (hfits : ∀ pre ∈ sops.inits, ∀ k,
      0 ≤ (d.values k).toInt + delta k pre ∧ (d.values k).toInt + delta k pre < 2 ^ 31) :
    d.Applied (d.semopLoop sops).1 sops := by
  intro k
  refine ⟨?_, fun pre hpre => (hfits pre ((mem_inits _ _).2 hpre) k).1⟩
  obtain ⟨hlow, hhigh⟩ := hfits sops ((mem_inits _ _).2 prefix_rfl) k
  have hsum : d.values k + ofInt (delta k sops) = ofInt ((d.values k).toInt + delta k sops) := by
    rw [ofInt_add, ofInt_toInt]
  rw [semopLoop_eq, hall]
  show (d.values k + ofInt (delta k sops)).toInt = _
  rw [hsum, toInt_ofInt_of_le (by omega) hhigh]

lemma SemidDs.semopLoop_of_cancel {d : SemidDs} {sops : List Sembuf} (hsome : d.before sops ≠ sops)
    (hcancel : ∀ k, delta k (d.before sops) % 2 ^ 32 = 0) : d.semopLoop sops = (d, -1) := by
  have hsame : (fun k => d.values k + ofInt (delta k (d.before sops))) = d.values := by
    funext k
    have hzero : ofInt (delta k (d.before sops)) = 0 := by
      rw [← toInt_inj, toInt_ofInt, ← Int.emod_bmod]
      show (delta k (d.before sops) % 2 ^ 32).bmod size = 0
      rw [hcancel]
      rfl
    rw [hzero, Int32.add_zero]
  rw [semopLoop_eq, hsame, if_neg hsome]

namespace SemSets

variable {s : SemSets}

lemma slot_eq_some {semid : ℤ} {i : Fin maxSemSets} (h : s.slot semid = some i) :
    (i.val : ℤ) = semid := by
  unfold slot at h
  split_ifs at h with hrange
  rw [← Option.some.inj h]
  exact Int.toNat_of_nonneg hrange.1

/-- **A careful call is atomic.** -/
lemma atomic_of_careful {c : Call} (h : s.Careful c) : s.Atomic c := by
  cases c with
  | semget | semctl => trivial
  | semop semid sops =>
    cases hslot : s.slot semid with
    | none => exact .inr (by rw [semop, hslot])
    | some i =>
      cases sops with
      | none => exact .inr (by rw [semop, hslot])
      | some ops =>
        have hcall : s.semop semid (some ops) =
            (update s i ((s i).semopLoop ops).1, ((s i).semopLoop ops).2) := by
          rw [semop, hslot]
        dsimp only [Atomic]
        rw [hcall]
        rcases h i hslot ops rfl with ⟨hall, hfits⟩ | ⟨hsome, hcancel⟩
        · refine .inl ⟨i, ops, slot_eq_some hslot, rfl, ?_, fun j hj => ?_, ?_⟩
          · dsimp only
            rw [update_self]
            exact SemidDs.applied_of_fits hall hfits
          · exact update_of_ne hj _ _
          · rw [SemidDs.semopLoop_eq, if_pos hall]
        · right
          rw [SemidDs.semopLoop_of_cancel hsome hcancel, update_eq_self]

/-- No counter is negative. -/
def NonNeg (s : SemSets) : Prop := ∀ i k, 0 ≤ ((s i).values k).toInt

lemma NonNeg.update (h : s.NonNeg) {d : SemidDs} (hd : ∀ k, 0 ≤ (d.values k).toInt)
    (i : Fin maxSemSets) : NonNeg (update s i d) := by
  intro j k
  rcases eq_or_ne j i with rfl | hj
  · rw [update_self]
    exact hd k
  · rw [update_of_ne hj]
    exact h j k

lemma NonNeg.step (h : s.NonNeg) {c : Call} (hc : s.Careful c) : (s.step c).NonNeg := by
  cases c with
  | semget key nsems =>
    unfold SemSets.step semget
    dsimp only
    split
    · split
      · exact h
      split
      · refine h.update (fun k => ?_) _
        dsimp only
        split
        · decide
        · exact h _ k
      · exact h
    · exact h
  | semctl semid =>
    unfold SemSets.step semctl
    dsimp only
    split
    · exact h.update (fun _ => le_rfl) _
    · exact h
  | semop semid sops =>
    rcases atomic_of_careful hc with ⟨i, ops, -, -, happlied, hother, -⟩ | hsame
    · intro j k
      rcases eq_or_ne j i with rfl | hj
      · obtain ⟨hsum, hpre⟩ := happlied k
        exact hsum ▸ hpre ops prefix_rfl
      · rw [SemSets.step, hother j hj]
        exact h j k
    · show (s.semop semid sops).1.NonNeg
      rw [hsame]
      exact h

/-- **In a run of careful calls `semop` is atomic**, and no counter is ever negative. -/
theorem semop_atomic (cs : List Call) (hok : Along step Careful init cs) :
    Along step Atomic init cs ∧ NonNeg (run step init cs) :=
  have hinit : init.NonNeg := fun _ _ => le_rfl
  ⟨hok.mono fun _ _ => atomic_of_careful,
    run_invariant_of_along (fun _ _ h hc => h.step hc) hinit hok⟩

/-- Two semaphores are raised and lowered, and a wrong number comes first. -/
def raiseAndLower : List Call :=
  [.semget 1 2, .semop 0 (some [⟨0, 2⟩, ⟨1, 1⟩, ⟨0, -1⟩]), .semop 0 (some [⟨5, 1⟩, ⟨0, 1⟩])]

theorem semop_atomic_raiseAndLower : Along step Careful init raiseAndLower ∧
    NonNeg (run step init raiseAndLower) := by
  have hok : Along step Careful init raiseAndLower := by decide +kernel
  exact ⟨hok, (semop_atomic _ hok).2⟩

/-- **An operation with a wrong number leaves those before it applied**, and a counter becomes
negative. -/
theorem not_atomic :
    ¬ (init.step (.semget 1 2)).Atomic (.semop 0 (some [⟨0, 1⟩, ⟨5, 1⟩])) ∧
    ¬ (init.step (.semget 1 2)).Atomic (.semop 0 (some [⟨0, -1⟩])) := by
  constructor
  · rintro (⟨-, -, -, -, -, -, hret⟩ | hsame)
    · exact absurd hret (by decide +kernel)
    · have hvalue := congrArg (fun r => (r.1 ⟨0, by decide⟩).values ⟨0, by decide⟩) hsame
      exact absurd hvalue (by decide +kernel)
  · rintro (⟨i, ops, hi, hops, happlied, -⟩ | hsame)
    · have hneg := (happlied ⟨0, by decide⟩).2 ops prefix_rfl
      rw [← Option.some.inj hops] at hneg
      obtain rfl : i = ⟨0, by decide⟩ := Fin.ext (Int.natCast_inj.1 hi)
      exact absurd hneg (by decide +kernel)
    · exact absurd (congrArg Prod.snd hsame) (by decide +kernel)

end SemSets

end SubOS.Ipc
