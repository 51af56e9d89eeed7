import Mathlib.Algebra.Order.Ring.Int
import Mathlib.Data.Fintype.Card
import SubOS.Lib.EventRun
import SubOS.Lib.Halting

set_option autoImplicit false

/-!
# Bytecode programs in the kernel

`kernel/bpf.c`: the verifier, the tables of loaded programs and maps, and the interpreter. The
verifier rejects registers that do not exist and jumps that leave the program, and asks for an exit
instruction somewhere. A run of an accepted program therefore stays inside the program and the
register file. It need not end: the verifier accepts backward jumps.

## Main definitions

* `bpfVerifyProg`, `BpfTables.bpfProgRun` — the verifier and the interpreter.
* `BpfTables.RunsSafely` — a run ends, inside the program and the register file.

## Main results

* `BpfTables.runsSafely_of_forward` — programs without backward jumps run safely.
* `BpfTables.selfJump_accepted` — an accepted program whose run does not end.

## Design

The program counter is a `uint32_t`. The register fields of an instruction are four bits wide; using
a register that does not exist leaves the loop with `Left.wild`. Names are `none` where the source
has a null pointer. No function here reads the keys and values of a map.
-/

namespace SubOS.Kernel

open Function (update update_self update_of_ne)

/-! ### Instructions -/

def bpfMaxInsns : ℕ := 256

/-- `BPF_MAX_PROGS` and `BPF_MAX_MAPS`. -/
def bpfMaxProgs : ℕ := 16

@[inherit_doc bpfMaxProgs]
def bpfMaxMaps : ℕ := 16

def bpfRegCnt : ℕ := 11

/-- `BPF_CLASS_ALU`, `BPF_CLASS_JMP` and `BPF_CLASS_ALU64`. -/
def bpfClassAlu : UInt8 := 0x04

@[inherit_doc bpfClassAlu]
def bpfClassJmp : UInt8 := 0x05

@[inherit_doc bpfClassAlu]
def bpfClassAlu64 : UInt8 := 0x07

def bpfJmpExit : UInt8 := 0x90

/-- `bpf_insn_t`: the opcode, two register fields of four bits, a jump offset and an immediate. -/
structure Insn where
  opcode : UInt8
  dstReg : Fin 16
  srcReg : Fin 16
  offset : Int16
  imm : Int32
  deriving DecidableEq

namespace Insn

/-- The instruction class, `opcode & 0x07`. -/
def cls (i : Insn) : UInt8 := i.opcode &&& 0x07

/-- The operation, `opcode & 0xF0`. -/
def op (i : Insn) : UInt8 := i.opcode &&& 0xF0

/-- The opcode of the plain exit instruction, the only one the verifier takes for an exit. -/
def isExit (i : Insn) : Bool := i.opcode == (bpfClassJmp ||| bpfJmpExit)

/-- Both register fields name registers that exist. -/
def registersOk (i : Insn) : Bool := i.dstReg < bpfRegCnt && i.srcReg < bpfRegCnt

/-- The jump test of the verifier for the instruction at index `k` of `count`. -/
def targetOk (i : Insn) (k count : ℕ) : Bool :=
  let target : ℤ := k + 1 + i.offset.toInt
  0 ≤ target && target < count

end Insn

/-! ### The verifier -/

/-- The body of the loop in `bpf_verify_prog`: whether the instruction at index `k` passes. -/
def insnOk (count k : ℕ) (i : Insn) : Bool :=
  i.registersOk && (i.cls != bpfClassJmp || i.isExit || i.targetOk k count)

def bpfVerifyProg (insns : List Insn) : Bool :=
  insns.length != 0 && insns.length ≤ bpfMaxInsns &&
    insns.zipIdx.all (fun x => insnOk insns.length x.2 x.1) && insns.any Insn.isExit

/-! ### The interpreter -/

abbrev Regs := Fin bpfRegCnt → UInt64

/-- The program counter and the registers of a run. -/
structure Conf where
  pc : ℕ
  regs : Regs

/-- How a run leaves the interpreter's loop: with a value for `ret_val` and the time it adds to
`total_runtime_ns`, or through a register that does not exist. -/
inductive Left where
  | returned (ret : UInt64) (ns : UInt64)
  | wild
  deriving DecidableEq

/-- `regs[r]`, for a register that exists. -/
def Regs.read (regs : Regs) (r : Fin 16) : UInt64 :=
  if h : r.val < bpfRegCnt then regs ⟨r.val, h⟩ else 0

/-- `regs[r] = x`, for a register that exists. -/
def Regs.write (regs : Regs) (r : Fin 16) (x : UInt64) : Regs :=
  if h : r.val < bpfRegCnt then update regs ⟨r.val, h⟩ x else regs

/-- `pc += d` on a `uint32_t`. -/
def movePc (pc : ℕ) (d : ℤ) : ℕ := (((pc : ℤ) + d) % 2 ^ 32).toNat

/-- The arithmetic of the classes `ALU` and `ALU64`; other operations do nothing. -/
def aluOp (op : UInt8) : Option (UInt64 → UInt64 → UInt64) :=
  match op with
  | 0x00 => some fun x v => x + v
  | 0x10 => some fun x v => x - v
  | 0x20 => some fun x v => x * v
  | 0x30 => some fun x v => if v ≠ 0 then x / v else x
  | 0x40 => some fun x v => x ||| v
  | 0x50 => some fun x v => x &&& v
  | 0xa0 => some fun x v => x ^^^ v
  | 0xb0 => some fun _ v => v
  | _ => none

/-- The comparisons of the class `JMP`: `JEQ`, `JGT`, `JGE` and `JNE`. -/
def jmpTest (op : UInt8) : Option (UInt64 → UInt64 → Bool) :=
  match op with
  | 0x10 => some fun x v => x == v
  | 0x20 => some fun x v => x > v
  | 0x30 => some fun x v => x ≥ v
  | 0x50 => some fun x v => x != v
  | _ => none

namespace Insn

/-- The operand is a register: bit 3 of the opcode. -/
def readsSrc (i : Insn) : Bool := i.opcode &&& 0x08 != 0

/-- The instruction calculates. -/
def isAlu (i : Insn) : Bool := i.cls == bpfClassAlu64 || i.cls == bpfClassAlu

/-- The destination register is read or written. -/
def usesDst (i : Insn) : Bool :=
  (i.isAlu && (aluOp i.op).isSome) || (i.cls == bpfClassJmp && (jmpTest i.op).isSome)

/-- The instruction reaches for a register that does not exist. -/
def strays (i : Insn) : Bool :=
  (i.readsSrc && bpfRegCnt ≤ i.srcReg) || (i.usesDst && bpfRegCnt ≤ i.dstReg)

/-- `val`: a register or the zero-extended immediate. -/
def val (i : Insn) (regs : Regs) : UInt64 :=
  if i.readsSrc then regs.read i.srcReg else i.imm.toUInt32.toUInt64

/-- The instruction is `JA` or one of the comparisons. -/
def isJump (i : Insn) : Bool :=
  i.cls == bpfClassJmp && (i.op == 0x00 || (jmpTest i.op).isSome)

/-- Whether a jump is made: `JA` always, a comparison when it holds, anything else never. -/
def jumps (i : Insn) (regs : Regs) : Bool :=
  i.cls == bpfClassJmp &&
    (i.op == 0x00 || (jmpTest i.op).any fun test => test (regs.read i.dstReg) (i.val regs))

/-- The registers after an instruction. -/
def regsAfter (i : Insn) (regs : Regs) : Regs :=
  match aluOp i.op with
  | some f => if i.isAlu then regs.write i.dstReg (f (regs.read i.dstReg) (i.val regs)) else regs
  | none => regs

/-- One instruction: the `switch` of `bpf_prog_run` and the `pc++` after it. -/
def exec (i : Insn) (s : Conf) : Conf ⊕ Left :=
  if i.strays then .inr .wild
  else if i.cls == bpfClassJmp && i.op == bpfJmpExit then
    .inr (.returned (s.regs ⟨0, by decide⟩) 50)
  else
    let pc := if i.jumps s.regs then movePc s.pc i.offset.toInt else s.pc
    .inl { pc := movePc pc 1, regs := i.regsAfter s.regs }

end Insn

/-- A slot of `bpf_programs` that is in use. -/
structure Prog where
  id : ℕ
  name : List UInt8
  type : ℕ
  insns : List Insn
  runCount : UInt64
  totalRuntimeNs : UInt64

/-- One round of the loop of `bpf_prog_run`: the test `pc < insn_count`, the fetch and the
instruction. -/
def step (insns : List Insn) (s : Conf) : Conf ⊕ Left :=
  if h : s.pc < insns.length then (insns.get ⟨s.pc, h⟩).exec s
  else .inr (.returned (s.regs ⟨0, by decide⟩) 0)

/-- The configuration a run starts in: the context in register 1, the frame pointer in 10. -/
def Conf.start (ctx fp : UInt64) : Conf where
  pc := 0
  regs := fun r => if r.val = 1 then ctx else if r.val = 10 then fp else 0

/-! ### The tables -/

/-- A slot of `bpf_maps` that is in use. -/
structure BpfMap where
  id : ℕ
  name : List UInt8
  keySize : ℕ
  valueSize : ℕ
  maxEntries : ℕ

/-- `bpf_programs`, `bpf_maps` and `next_bpf_id`. -/
structure BpfTables where
  progs : Fin bpfMaxProgs → Option Prog
  maps : Fin bpfMaxMaps → Option BpfMap
  nextId : ℕ

namespace BpfTables

/-- The tables `bpf_init` clears. -/
def cleared : BpfTables where
  progs := fun _ => none
  maps := fun _ => none
  nextId := 1

/-- `next_bpf_id++`. -/
def succId (t : BpfTables) : ℕ := (t.nextId + 1) % 2 ^ 32

/-- `bpf_prog_load`. The result is the new identifier or `-1`. -/
def bpfProgLoad (t : BpfTables) (type : ℕ) (name : Option (List UInt8)) (insns : List Insn) :
    ℤ × BpfTables :=
  match name with
  | none => (-1, t)
  | some name =>
    if insns.length = 0 then (-1, t)
    else if !bpfVerifyProg insns then (-1, t)
    else
      match (List.finRange bpfMaxProgs).find? (fun i => (t.progs i).isNone) with
      | none => (-1, t)
      | some i =>
        let p : Prog := { id := t.nextId, name := name.take 31, type := type, insns := insns,
                          runCount := 0, totalRuntimeNs := 0 }
        (t.nextId, { t with progs := update t.progs i (some p), nextId := t.succId })

/-- `bpf_map_create`; whether `kzalloc` finds the memory for the entries makes no difference. -/
def bpfMapCreate (t : BpfTables) (name : Option (List UInt8))
    (keySize valueSize maxEntries : ℕ) : ℤ × BpfTables :=
  match name with
  | none => (-1, t)
  | some name =>
    if keySize = 0 ∨ valueSize = 0 ∨ maxEntries = 0 then (-1, t)
    else
      match (List.finRange bpfMaxMaps).find? (fun i => (t.maps i).isNone) with
      | none => (-1, t)
      | some i =>
        let m : BpfMap := { id := t.nextId, name := name.take 31, keySize := keySize,
                            valueSize := valueSize, maxEntries := maxEntries }
        (t.nextId, { t with maps := update t.maps i (some m), nextId := t.succId })

/-- `bpf_init`: the tables with the packet counter that is loaded at boot
(`r0 = r1; r0 += 14; exit`). -/
def bpfInit : BpfTables :=
  (cleared.bpfProgLoad 1 (some "net_pkt_counter".toUTF8.toList)
    [{ opcode := 0xb7, dstReg := 0, srcReg := 1, offset := 0, imm := 0 },
     { opcode := 0x07, dstReg := 0, srcReg := 0, offset := 0, imm := 14 },
     { opcode := 0x95, dstReg := 0, srcReg := 0, offset := 0, imm := 0 }]).2

/-- The slot `bpf_prog_run` finds: the first one in use with the identifier. -/
def findProg (t : BpfTables) (id : ℕ) : Option (Fin bpfMaxProgs) :=
  (List.finRange bpfMaxProgs).find? fun i => (t.progs i).any fun p => p.id == id

/-- `bpf_prog_run`, for at most `fuel` rounds of its loop: the return code, what is stored
through `ret_val` and the tables with the counters of the program; `none` when the rounds are not
enough. A run that reads a register that does not exist has no result. -/
def bpfProgRun (t : BpfTables) (fuel id : ℕ) (ctx fp : UInt64) :
    Option (ℤ × Option UInt64 × BpfTables) :=
  match t.findProg id with
  | none => some (-1, none, t)
  | some i =>
    match t.progs i with
    | none => some (-1, none, t)
    | some p =>
      match Halting.after (step p.insns) (Conf.start ctx fp) fuel with
      | .inr (.returned ret ns) =>
        let p' := { p with runCount := p.runCount + 1, totalRuntimeNs := p.totalRuntimeNs + ns }
        some (0, some ret, { t with progs := update t.progs i (some p') })
      | _ => none

/-- A call into `bpf.c` that changes the tables. -/
inductive Call where
  | load (type : ℕ) (name : Option (List UInt8)) (insns : List Insn)
  | mapCreate (name : Option (List UInt8)) (keySize valueSize maxEntries : ℕ)
  | run (fuel id : ℕ) (ctx fp : UInt64)

/-- The tables after a call. A run that does not end leaves them as they are. -/
def apply (t : BpfTables) : Call → BpfTables
  | .load type name insns => (t.bpfProgLoad type name insns).2
  | .mapCreate name keySize valueSize maxEntries =>
    (t.bpfMapCreate name keySize valueSize maxEntries).2
  | .run fuel id ctx fp =>
    match t.bpfProgRun fuel id ctx fp with
    | some (_, _, t') => t'
    | none => t

end BpfTables

open BpfTables

/-! ### The verifier's tests -/

section Accepted

variable {insns : List Insn} {s : Conf} {i : Insn}

lemma insnOk_of_verified (hv : bpfVerifyProg insns = true) (h : s.pc < insns.length) :
    insnOk insns.length s.pc (insns.get ⟨s.pc, h⟩) = true := by
  simp only [bpfVerifyProg, Bool.and_eq_true, List.all_eq_true] at hv
  refine hv.1.2 (insns.get ⟨s.pc, h⟩, s.pc) ?_
  rw [List.mem_zipIdx_iff_getElem?]
  exact List.getElem?_eq_getElem h

lemma length_le_of_verified (hv : bpfVerifyProg insns = true) : insns.length ≤ bpfMaxInsns := by
  simp only [bpfVerifyProg, Bool.and_eq_true, decide_eq_true_eq] at hv
  exact hv.1.1.2

lemma movePc_eq {pc : ℕ} {d : ℤ} (h₀ : 0 ≤ (pc : ℤ) + d) (h₁ : (pc : ℤ) + d < 2 ^ 32) :
    (movePc pc d : ℤ) = pc + d := by
  rw [movePc, Int.emod_eq_of_lt h₀ h₁, Int.toNat_of_nonneg h₀]

lemma movePc_movePc {pc : ℕ} {d : ℤ} (h₀ : 0 ≤ (pc : ℤ) + 1 + d)
    (h₁ : (pc : ℤ) + 1 + d < 2 ^ 32) : (movePc (movePc pc d) 1 : ℤ) = pc + 1 + d := by
  have hcast : (movePc pc d : ℤ) = (pc + d) % 2 ^ 32 :=
    Int.toNat_of_nonneg (Int.emod_nonneg _ (by decide))
  have hsum : ((movePc pc d : ℤ) + 1) % 2 ^ 32 = pc + 1 + d := by
    rw [hcast, Int.emod_add_emod, Int.emod_eq_of_lt] <;> omega
  rw [movePc, hsum, Int.toNat_of_nonneg h₀]

lemma Insn.strays_eq_false (h : i.registersOk = true) : i.strays = false := by
  simp only [Insn.registersOk, Bool.and_eq_true, decide_eq_true_eq] at h
  simp [Insn.strays, Nat.not_le.2 h.1, Nat.not_le.2 h.2]

lemma Insn.op_of_isExit (h : i.isExit = true) : i.op = bpfJmpExit := by
  have hop : i.opcode = bpfClassJmp ||| bpfJmpExit := by simpa [Insn.isExit] using h
  rw [Insn.op, hop]
  decide

lemma Insn.jumps_eq_false (h : i.op = bpfJmpExit) (regs : Regs) : i.jumps regs = false := by
  rw [Insn.jumps, h]
  simp [bpfJmpExit, jmpTest]

lemma target_of_jumps {count k : ℕ} {regs : Regs} (hok : insnOk count k i = true)
    (hj : i.jumps regs = true) :
    0 ≤ (k : ℤ) + 1 + i.offset.toInt ∧ (k : ℤ) + 1 + i.offset.toInt < count := by
  have hcls : i.cls = bpfClassJmp := by
    simp only [Insn.jumps, Bool.and_eq_true, beq_iff_eq] at hj
    exact hj.1
  have hexit : i.isExit = false := by
    by_contra h
    rw [Bool.not_eq_false] at h
    rw [Insn.jumps_eq_false (Insn.op_of_isExit h)] at hj
    exact nomatch hj
  simp only [insnOk, Bool.and_eq_true, hcls, hexit, bne_self_eq_false, Bool.false_or,
    Insn.targetOk, decide_eq_true_eq] at hok
  exact hok.2

/-! ### One round -/

/-- No jump of the text has a negative offset. -/
def Forward (insns : List Insn) : Prop := ∀ i ∈ insns, i.isJump = true → 0 ≤ i.offset.toInt
  deriving Decidable

lemma Insn.isJump_of_jumps {regs : Regs} (h : i.jumps regs = true) : i.isJump = true := by
  simp only [Insn.jumps, Insn.isJump, Bool.and_eq_true, Bool.or_eq_true] at h ⊢
  exact ⟨h.1, h.2.imp_right Option.isSome_of_any⟩

/-- One round of an accepted program: it returns, or it moves to an instruction inside the program
or just behind it, and forward if the program has no backward jumps. -/
lemma step_cases (hv : bpfVerifyProg insns = true) (s : Conf) :
    (∃ ret ns, step insns s = .inr (.returned ret ns)) ∨
      ∃ u, step insns s = .inl u ∧ u.pc ≤ insns.length ∧
        (Forward insns → s.pc < u.pc) := by
  have hlen := length_le_of_verified hv
  rw [bpfMaxInsns] at hlen
  unfold step
  by_cases h : s.pc < insns.length
  · have hok := insnOk_of_verified hv h
    have hmem := insns.get_mem ⟨s.pc, h⟩
    rw [dif_pos h]
    generalize insns.get ⟨s.pc, h⟩ = i at hok hmem
    have hreg : i.registersOk = true := by
      simp only [insnOk, Bool.and_eq_true] at hok
      exact hok.1
    unfold Insn.exec
    rw [Insn.strays_eq_false hreg, if_neg Bool.false_ne_true]
    split
    · exact .inl ⟨_, _, rfl⟩
    · refine .inr ⟨_, rfl, ?_⟩
      cases hj : i.jumps s.regs with
      | true =>
        obtain ⟨h₀, h₁⟩ := target_of_jumps hok hj
        have heq := movePc_movePc h₀ (by omega)
        simp only [if_true]
        refine ⟨by omega, fun hfwd => ?_⟩
        have hle := hfwd i hmem (Insn.isJump_of_jumps hj)
        omega
      | false =>
        have heq : ((movePc s.pc 1 : ℕ) : ℤ) = s.pc + 1 := movePc_eq (by omega) (by omega)
        simp only [Bool.false_eq_true, if_false]
        exact ⟨by omega, fun _ => by omega⟩
  · rw [dif_neg h]
    exact .inl ⟨_, _, rfl⟩

/-! ### Whole runs -/

variable {ctx fp : UInt64}

section

variable (hv : bpfVerifyProg insns = true)
include hv

lemma pc_le :
    ∀ n t, Halting.after (step insns) (.start ctx fp) n = .inl t → t.pc ≤ insns.length := by
  refine Halting.after_invariant (Nat.zero_le _) ?_
  intro t u _ hu
  rcases step_cases hv t with ⟨ret, ns, h⟩ | ⟨u', h, hle, -⟩
  · cases h.symm.trans hu
  · cases h.symm.trans hu
    exact hle

/-- A run of an accepted program does not reach for a register that does not exist. -/
lemma after_ne_wild (n : ℕ) : Halting.after (step insns) (.start ctx fp) n ≠ .inr .wild := by
  induction n with
  | zero => exact nofun
  | succ n ih =>
    cases hn : Halting.after (step insns) (.start ctx fp) n with
    | inl t =>
      rw [Halting.after_succ_of_inl hn]
      rcases step_cases hv t with ⟨ret, ns, h⟩ | ⟨u, h, -⟩ <;> rw [h] <;> exact nofun
    | inr l =>
      rw [Halting.after_of_le hn (Nat.le_succ n), ← hn]
      exact ih

/-- **An accepted program without backward jumps ends.** -/
lemma halts_of_forward (hfwd : Forward insns) : Halting.Halts (step insns) (.start ctx fp) := by
  refine Halting.halts_of_rank Conf.pc (insns.length + 1)
    (fun n t h => Nat.lt_succ_of_le (pc_le hv n t h)) fun t u hu => ?_
  rcases step_cases hv t with ⟨ret, ns, h⟩ | ⟨u', h, -, hlt⟩
  · cases h.symm.trans hu
  · cases h.symm.trans hu
    exact hlt hfwd

end

end Accepted

/-! ### Loaded programs -/

namespace BpfTables

/-- The slots of a table in use. -/
def inUse {n : ℕ} {α : Type} (slots : Fin n → Option α) : Finset (Fin n) :=
  Finset.univ.filter fun i => (slots i).isSome

lemma card_inUse_update {n : ℕ} {α : Type} {slots : Fin n → Option α} {i : Fin n}
    (h : slots i = none) (x : α) :
    (inUse (update slots i (some x))).card = (inUse slots).card + 1 := by
  have hins : inUse (update slots i (some x)) = insert i (inUse slots) := by
    ext j
    by_cases hj : j = i
    · subst hj
      simp [inUse]
    · simp [inUse, hj]
  rw [hins, Finset.card_insert_of_notMem (by simp [inUse, h])]

/-- Identifiers are given out in order: the next one counts the slots in use, and no program has
it yet. -/
structure Numbered (t : BpfTables) : Prop where
  next : t.nextId = 1 + (inUse t.progs).card + (inUse t.maps).card
  fresh : ∀ i p, t.progs i = some p → p.id < t.nextId

namespace Numbered

variable {t : BpfTables}

lemma nextId_lt (h : t.Numbered) : t.nextId + 1 < 2 ^ 32 := by
  have hprogs : (inUse t.progs).card ≤ 16 := card_finset_fin_le _
  have hmaps : (inUse t.maps).card ≤ 16 := card_finset_fin_le _
  have hnext := h.next
  omega

lemma succId_eq (h : t.Numbered) : t.succId = t.nextId + 1 := Nat.mod_eq_of_lt h.nextId_lt

lemma eq_none_of_find {n : ℕ} {α : Type} {slots : Fin n → Option α} {i : Fin n}
    (h : (List.finRange n).find? (fun i => (slots i).isNone) = some i) : slots i = none := by
  simpa using List.find?_some h

lemma bpfProgLoad_eq (t : BpfTables) (type : ℕ) (name : Option (List UInt8)) (insns : List Insn) :
    (t.bpfProgLoad type name insns = (-1, t)) ∨
      ∃ i p, t.bpfProgLoad type name insns =
          ((t.nextId : ℤ),
            { t with progs := update t.progs i (some p), nextId := t.succId }) ∧
        t.progs i = none ∧ p.id = t.nextId ∧ p.insns = insns ∧ bpfVerifyProg insns = true := by
  unfold bpfProgLoad
  cases name with
  | none => exact .inl rfl
  | some name =>
    split_ifs with hlen hver
    · exact .inl rfl
    · exact .inl rfl
    · cases hfind : (List.finRange bpfMaxProgs).find? (fun i => (t.progs i).isNone) with
      | none => exact .inl rfl
      | some i => exact .inr ⟨i, _, rfl, eq_none_of_find hfind, rfl, rfl, by simpa using hver⟩

lemma bpfProgLoad (h : t.Numbered) (type : ℕ) (name : Option (List UInt8)) (insns : List Insn) :
    (t.bpfProgLoad type name insns).2.Numbered := by
  rcases bpfProgLoad_eq t type name insns with
    heq | ⟨i, p, heq, hfree, hid, -⟩
  · rw [heq]
    exact h
  · rw [heq]
    refine ⟨?_, fun j q hq => ?_⟩
    · dsimp only
      rw [card_inUse_update hfree, h.succId_eq, h.next]
      omega
    · dsimp only at hq ⊢
      rw [h.succId_eq]
      by_cases hj : j = i
      · subst hj
        rw [update_self, Option.some_inj] at hq
        subst hq
        omega
      · rw [update_of_ne hj] at hq
        exact Nat.lt_succ_of_lt (h.fresh j q hq)

lemma bpfMapCreate (h : t.Numbered) (name : Option (List UInt8))
    (keySize valueSize maxEntries : ℕ) :
    (t.bpfMapCreate name keySize valueSize maxEntries).2.Numbered := by
  unfold BpfTables.bpfMapCreate
  cases name with
  | none => exact h
  | some name =>
    split_ifs
    · exact h
    · cases hfind : (List.finRange bpfMaxMaps).find? (fun i => (t.maps i).isNone) with
      | none => exact h
      | some i =>
        refine ⟨?_, fun j q hq => ?_⟩
        · dsimp only
          rw [card_inUse_update (eq_none_of_find hfind), h.succId_eq, h.next]
          omega
        · rw [h.succId_eq]
          exact Nat.lt_succ_of_lt (h.fresh j q hq)

lemma bpfProgRun (h : t.Numbered) {fuel id : ℕ} {ctx fp : UInt64} {r : ℤ} {ret : Option UInt64}
    {t' : BpfTables} (hrun : t.bpfProgRun fuel id ctx fp = some (r, ret, t')) : t'.Numbered := by
  unfold BpfTables.bpfProgRun at hrun
  split at hrun
  · cases hrun
    exact h
  · rename_i i _
    split at hrun
    · cases hrun
      exact h
    · rename_i p hp
      split at hrun
      · cases hrun
        have huse : ∀ q, inUse (update t.progs i (some q)) = inUse t.progs := by
          intro q
          ext j
          by_cases hj : j = i
          · subst hj
            simp [inUse, hp]
          · simp [inUse, hj]
        refine ⟨by rw [huse]; exact h.next, fun j q hq => ?_⟩
        dsimp only at hq ⊢
        by_cases hj : j = i
        · subst hj
          rw [update_self, Option.some_inj] at hq
          subst hq
          exact h.fresh j p hp
        · rw [update_of_ne hj] at hq
          exact h.fresh j q hq
      · exact nomatch hrun

lemma apply (h : t.Numbered) (c : Call) : (t.apply c).Numbered := by
  cases c with
  | load type name insns => exact h.bpfProgLoad type name insns
  | mapCreate name k v m => exact h.bpfMapCreate name k v m
  | run fuel id ctx fp =>
    unfold BpfTables.apply
    dsimp only
    split
    · rename_i hrun
      exact h.bpfProgRun hrun
    · exact h

lemma cleared : cleared.Numbered :=
  ⟨by simp [BpfTables.cleared, inUse], fun _ _ h => nomatch h⟩

lemma run (cs : List Call) : (EventRun.run .apply bpfInit cs).Numbered :=
  EventRun.run_invariant (fun _ c h => h.apply c) (.bpfProgLoad .cleared _ _ _) cs

end Numbered

/-- The instructions of the program with an identifier. -/
def loaded (t : BpfTables) (id : ℕ) : Option (List Insn) :=
  (t.findProg id).bind fun i => (t.progs i).map Prog.insns

/-- A run of a loaded program ends with the return code `0`; it fetches only instructions of the
program, and these name only registers that exist. -/
structure RunsSafely (t : BpfTables) (id : ℕ) (ctx fp : UInt64) : Prop where
  ends : ∃ fuel ret t', t.bpfProgRun fuel id ctx fp = some (0, some ret, t')
  inRange : ∀ insns, t.loaded id = some insns → ∀ n s,
    Halting.after (step insns) (Conf.start ctx fp) n = .inl s → s.pc ≤ insns.length
  registers : ∀ insns, t.loaded id = some insns → ∀ n s i,
    Halting.after (step insns) (Conf.start ctx fp) n = .inl s → insns[s.pc]? = some i →
      i.dstReg < bpfRegCnt ∧ i.srcReg < bpfRegCnt

variable {t : BpfTables}

lemma findProg_of_load (h : t.Numbered) {i : Fin bpfMaxProgs} {p : Prog}
    (hid : p.id = t.nextId) (next : ℕ) :
    findProg { t with progs := update t.progs i (some p), nextId := next } t.nextId =
      some i := by
  have hsome : (findProg { t with progs := update t.progs i (some p), nextId := next }
      t.nextId).isSome := by
    rw [findProg, List.find?_isSome]
    exact ⟨i, List.mem_finRange i, by simp [hid]⟩
  obtain ⟨j, hj⟩ := Option.isSome_iff_exists.1 hsome
  have hpred := List.find?_some hj
  rw [hj, Option.some_inj]
  by_contra hne
  simp only [update_of_ne hne, Option.any_eq_true, beq_iff_eq] at hpred
  obtain ⟨q, hq, hqid⟩ := hpred
  exact absurd (h.fresh j q hq) (by omega)

lemma bpfProgRun_eq {id : ℕ} {i : Fin bpfMaxProgs} {p : Prog}
    (hfind : t.findProg id = some i) (hp : t.progs i = some p) (fuel : ℕ) (ctx fp : UInt64) :
    (∃ ret t', t.bpfProgRun fuel id ctx fp = some (0, some ret, t')) ↔
      ∃ ret ns,
        Halting.after (step p.insns) (.start ctx fp) fuel = .inr (.returned ret ns) := by
  unfold bpfProgRun
  simp only [hfind, hp]
  rcases Halting.after (step p.insns) (.start ctx fp) fuel with s | ⟨ret, ns⟩ | _ <;> simp

lemma Numbered.load_spec {t' : BpfTables} (h : t.Numbered) {type : ℕ} {name : Option (List UInt8)}
    {insns : List Insn} {id : ℤ} (hload : t.bpfProgLoad type name insns = (id, t')) (hid : 0 ≤ id) :
    bpfVerifyProg insns = true ∧
      ∃ i p, t'.findProg id.toNat = some i ∧ t'.progs i = some p ∧ p.insns = insns := by
  rcases bpfProgLoad_eq t type name insns with
    heq | ⟨i, p, heq, -, hpid, hpi, hv⟩
  · rw [heq, Prod.mk.injEq] at hload
    omega
  · cases heq.symm.trans hload
    refine ⟨hv, i, p, ?_, update_self .., hpi⟩
    exact findProg_of_load h hpid t.succId

/-- A loaded program runs safely in a context if and only if it ends there: the verifier's tests
keep every round inside the program and the register file. -/
lemma runsSafely_iff (cs : List Call) (type : ℕ) (name : Option (List UInt8))
    (insns : List Insn) (ctx fp : UInt64) {id : ℤ}
    (hload : (EventRun.run apply bpfInit cs).bpfProgLoad type name insns = (id, t)) (hid : 0 ≤ id) :
    t.RunsSafely id.toNat ctx fp ↔ Halting.Halts (step insns) (Conf.start ctx fp) := by
  obtain ⟨hv, i, p, hfind, hslot, hpi⟩ := (Numbered.run cs).load_spec hload hid
  have hloaded : ∀ insns', t.loaded id.toNat = some insns' → insns = insns' := by
    intro insns' h
    rw [loaded, hfind, Option.bind_some, hslot, Option.map_some, hpi, Option.some_inj] at h
    exact h
  constructor
  · rintro ⟨⟨fuel, hend⟩, -, -⟩
    obtain ⟨ret, ns, h⟩ := (bpfProgRun_eq hfind hslot fuel ctx fp).1 hend
    exact ⟨fuel, _, hpi ▸ h⟩
  · rintro ⟨fuel, l, hl⟩
    refine ⟨⟨fuel, (bpfProgRun_eq hfind hslot fuel ctx fp).2 ?_⟩, ?_, ?_⟩
    · cases l with
      | returned ret ns => exact ⟨ret, ns, hpi.symm ▸ hl⟩
      | wild => exact absurd hl (after_ne_wild hv fuel)
    · intro insns' h n s hs
      obtain rfl := hloaded insns' h
      exact pc_le hv n s hs
    · intro insns' h n s j _ hj
      obtain rfl := hloaded insns' h
      obtain ⟨hlt, rfl⟩ := List.getElem?_eq_some_iff.1 hj
      have hok := insnOk_of_verified hv hlt
      simp only [insnOk, Insn.registersOk, Bool.and_eq_true, decide_eq_true_eq] at hok
      exact hok.1

/-- **A loaded program without backward jumps runs safely in every context.** The converse fails:
see `runsSafely_countdown`. -/
theorem runsSafely_of_forward (cs : List Call) (type : ℕ) (name : Option (List UInt8))
    (insns : List Insn) (hfwd : Forward insns) {id : ℤ} {t : BpfTables}
    (hload : (EventRun.run apply bpfInit cs).bpfProgLoad type name insns = (id, t)) (hid : 0 ≤ id)
    (ctx fp : UInt64) : t.RunsSafely id.toNat ctx fp := by
  rw [runsSafely_iff cs type name insns ctx fp hload hid]
  exact halts_of_forward ((Numbered.run cs).load_spec hload hid).1 hfwd

/-- `if (r1 == 0) goto exit; r0 = 1; exit`. -/
def testContext : List Insn :=
  [⟨0x15, 1, 0, 1, 0⟩, ⟨0xb7, 0, 0, 0, 1⟩, ⟨0x95, 0, 0, 0, 0⟩]

theorem runsSafely_testContext :
    Forward testContext ∧ (bpfInit.bpfProgLoad 2 (some []) testContext).1 = 2 ∧
      ∀ ctx, (bpfInit.bpfProgLoad 2 (some []) testContext).2.RunsSafely 2 ctx 0 := by
  have hload : bpfInit.bpfProgLoad 2 (some []) testContext =
      (2, (bpfInit.bpfProgLoad 2 (some []) testContext).2) := rfl
  have hfwd : Forward testContext := by decide
  exact ⟨hfwd, by decide +kernel, fun ctx =>
    runsSafely_of_forward [] 2 (some []) testContext hfwd hload (by decide) ctx 0⟩

/-- `r0 = 2; do r0 -= 1; while (r0 != 0); exit`: it jumps back once. -/
def countdown : List Insn :=
  [⟨0xb7, 0, 0, 0, 2⟩, ⟨0x17, 0, 0, 0, 1⟩, ⟨0x55, 0, 0, -2, 0⟩, ⟨0x95, 0, 0, 0, 0⟩]

/-- The countdown, loaded after boot, runs safely although it jumps back. -/
lemma runsSafely_countdown :
    ¬ Forward countdown ∧ (bpfInit.bpfProgLoad 2 (some []) countdown).1 = 2 ∧
      (bpfInit.bpfProgLoad 2 (some []) countdown).2.RunsSafely 2 0 0 := by
  have hload : bpfInit.bpfProgLoad 2 (some []) countdown =
      (2, (bpfInit.bpfProgLoad 2 (some []) countdown).2) := rfl
  refine ⟨by decide, by decide +kernel,
    (runsSafely_iff [] 2 (some []) countdown 0 0 hload (by decide)).2 ⟨6, _, rfl⟩⟩

/-- `JA -1; exit`: a jump to itself before the exit the verifier asks for. -/
def selfJump : List Insn := [⟨0x05, 0, 0, -1, 0⟩, ⟨0x95, 0, 0, 0, 0⟩]

/-- The verifier accepts a jump to itself, and no number of rounds is enough for its run. -/
theorem selfJump_accepted :
    bpfVerifyProg selfJump = true ∧
      (bpfInit.bpfProgLoad 2 (some []) selfJump).1 = 2 ∧
      ∀ fuel, (bpfInit.bpfProgLoad 2 (some []) selfJump).2.bpfProgRun fuel 2 0 0 = none := by
  refine ⟨by decide +kernel, by decide +kernel, fun fuel => ?_⟩
  have hstay : Halting.after (step selfJump) (.start 0 0) fuel = .inl (.start 0 0) := by
    induction fuel with
    | zero => rfl
    | succ n ih =>
      rw [Halting.after_succ_of_inl ih]
      rfl
  have hload : bpfInit.bpfProgLoad 2 (some []) selfJump =
      (2, (bpfInit.bpfProgLoad 2 (some []) selfJump).2) := rfl
  obtain ⟨-, i, p, hfind, hslot, hpi⟩ := (Numbered.run []).load_spec hload (by decide)
  have hid : (2 : ℤ).toNat = 2 := rfl
  rw [hid] at hfind
  simp only [bpfProgRun, hfind, hslot, hpi, hstay]

end BpfTables

end SubOS.Kernel
