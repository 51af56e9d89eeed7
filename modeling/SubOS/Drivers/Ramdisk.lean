import Mathlib.Data.UInt
import SubOS.Lib.ByteMemory

set_option autoImplicit false

/-!
# The RAM disk behind the block layer

The transfers of the RAM disk compare `(sector + count) * 512` with the size of the storage in
64-bit arithmetic. The sum and the products wrap, so the check passes for sectors that do not exist.

## Main definitions

* `blockSubmitBio`, `Exact` — a request to a block device; it is served exactly.

## Main results

* `exact_iff`, `not_exact` — which transfers are served exactly.
-/

namespace SubOS.Drivers

open ByteMemory

def ramdiskSize : UInt64 := 512 * 1024

/-- `block_req_type_t`. -/
inductive ReqType
  | read
  | write
  | flush

/-- What a request returns, the memory after it, and the part of the storage that it gives to
`memcpy`: the address and the number of bytes. -/
structure Outcome where
  ret : ℤ
  mem : ByteMemory
  access : Option (ℕ × ℕ)

def refused (mem : ByteMemory) : Outcome := ⟨-1, mem, none⟩

/-- `memcpy` between a buffer and the storage. -/
def move (mem : ByteMemory) (buf pos len : ℕ) : ReqType → ByteMemory
  | .write => mem.copy pos buf len
  | _ => mem.copy buf pos len

/-- The body of both transfers. The number of bytes is a product of 32 bits. -/
def ramdiskSectors (type : ReqType) (storage : UInt64) (mem : ByteMemory) (sector : UInt64)
    (count : UInt32) (buf : UInt64) : Outcome :=
  if storage = 0 ∨ buf = 0 then refused mem
  else if (sector + count.toUInt64) * 512 > ramdiskSize then refused mem
  else
    let pos := (storage + sector * 512).toNat
    let len := (count * 512).toNat
    ⟨0, move mem buf.toNat pos len type, some (pos, len)⟩

def ramdiskReadSectors := ramdiskSectors .read

def ramdiskWriteSectors := ramdiskSectors .write

/-- `block_device_t`, with its functions. -/
structure BlockDevice where
  name : List UInt8
  readOnly : Bool
  readSectors : Option (ByteMemory → UInt64 → UInt32 → UInt64 → Outcome)
  writeSectors : Option (ByteMemory → UInt64 → UInt32 → UInt64 → Outcome)
  flush : Option (ByteMemory → Outcome)

/-- What `ramdisk_init` registers. -/
def ramdiskDev (storage : UInt64) : BlockDevice where
  name := ascii "ram0"
  readOnly := false
  readSectors := some (ramdiskReadSectors storage)
  writeSectors := some (ramdiskWriteSectors storage)
  flush := none

/-- `block_get_device`, among the registered devices. -/
def blockGetDevice (devices : List BlockDevice) (name : List UInt8) : Option BlockDevice :=
  devices.find? fun d => d.name = name

def blockSubmitBio (devices : List BlockDevice) (name : List UInt8) (type : ReqType)
    (mem : ByteMemory) (sector : UInt64) (count : UInt32) (buffer : UInt64) : Outcome :=
  match blockGetDevice devices name with
  | none => refused mem
  | some dev =>
    match type, dev.readSectors, dev.writeSectors, dev.flush with
    | .read, some f, _, _ => f mem sector count buffer
    | .write, _, some f, _ => if dev.readOnly then refused mem else f mem sector count buffer
    | .flush, _, _, some f => f mem
    | .flush, _, _, none => ⟨0, mem, none⟩
    | _, _, _, _ => refused mem

/-- All sectors of the request are on the disk. -/
def SectorsExist (sector : UInt64) (count : UInt32) : Prop :=
  ∀ k, sector.toNat ≤ k → k < sector.toNat + count.toNat → k < 1024

/-- **A request is served exactly**: it succeeds if and only if its sectors exist, then copies them,
in exact arithmetic, and touches nothing outside the storage. -/
structure Exact (type : ReqType) (storage : UInt64) (mem : ByteMemory) (sector : UInt64)
    (count : UInt32) (buffer : UInt64) (o : Outcome) : Prop where
  succeeds : o.ret = 0 ↔ SectorsExist sector count
  copies : o.ret = 0 → o.mem = move mem buffer.toNat (storage.toNat + sector.toNat * 512)
    (count.toNat * 512) type
  inside : ∀ a n, o.access = some (a, n) → ∀ x, a ≤ x → x < a + n →
    storage.toNat ≤ x ∧ x < storage.toNat + ramdiskSize.toNat

/-- The sectors exist; or there are none and the check passes; or the check fails. -/
def InRange (sector : UInt64) (count : UInt32) : Prop :=
  sector.toNat + count.toNat ≤ 1024 ∨ count.toNat = 0 ∧ sector.toNat % 2 ^ 55 ≤ 1024 ∨
    0 < count.toNat ∧ 1024 < (sector.toNat + count.toNat) % 2 ^ 55

variable {type : ReqType} {storage buf : UInt64} (sector : UInt64) (count : UInt32)

/-- The check looks at the end of the request modulo `2 ^ 55`. -/
lemma check_iff : (sector + count.toUInt64) * 512 > ramdiskSize ↔
    1024 < (sector.toNat + count.toNat) % 2 ^ 55 := by
  rw [gt_iff_lt, UInt64.lt_iff_toNat_lt, UInt64.toNat_mul, UInt64.toNat_add, UInt32.toNat_toUInt64]
  change 524288 < _ * 512 % _ ↔ _
  omega

lemma sectorsExist_iff :
    SectorsExist sector count ↔ sector.toNat + count.toNat ≤ 1024 ∨ count.toNat = 0 := by
  constructor
  · intro h
    by_contra hnot
    have hlast := h (sector.toNat + count.toNat - 1) (by omega) (by omega)
    omega
  · intro h k hk hlt
    omega

lemma move_zero (mem : ByteMemory) (a b : ℕ) : move mem a b 0 type = mem := by
  funext x
  cases type <;> exact if_neg (by omega)

lemma ramdiskSectors_exact_iff (hs : storage ≠ 0) (hb : buf ≠ 0)
    (hend : storage.toNat + ramdiskSize.toNat ≤ 2 ^ 64) (mem : ByteMemory) :
    Exact type storage mem sector count buf (ramdiskSectors type storage mem sector count buf) ↔
      InRange sector count := by
  have hsize : ramdiskSize.toNat = 524288 := rfl
  have hexist := sectorsExist_iff sector count
  unfold ramdiskSectors InRange
  rw [if_neg (not_or.2 ⟨hs, hb⟩)]
  by_cases hcheck : (sector + count.toUInt64) * 512 > ramdiskSize
  · rw [if_pos hcheck]
    rw [check_iff] at hcheck
    refine Iff.trans ⟨fun h he => absurd (h.succeeds.2 he) (by simp [refused]), fun h =>
      ⟨by simp [refused, h], by simp [refused], by simp [refused]⟩⟩ ((not_congr hexist).trans ?_)
    omega
  · rw [if_neg hcheck]
    rw [check_iff] at hcheck
    have hlen : (count * 512).toNat = count.toNat * 512 % 2 ^ 32 := UInt32.toNat_mul count 512
    have hpos : (storage + sector * 512).toNat =
        (storage.toNat + sector.toNat * 512 % 2 ^ 64) % 2 ^ 64 := by
      rfl
    refine ⟨fun h => ?_, fun h => ?_⟩
    · have he := hexist.1 (h.succeeds.1 rfl)
      omega
    · refine ⟨iff_of_true rfl (hexist.2 (by omega)), fun _ => ?_, fun a n heq x hax hxn => ?_⟩
      · dsimp only
        by_cases hc : count.toNat = 0
        · rw [hlen, hc, Nat.zero_mul, Nat.zero_mod, move_zero, move_zero]
        · rw [hlen, hpos, Nat.mod_eq_of_lt (a := count.toNat * 512) (by omega),
            Nat.mod_eq_of_lt (a := sector.toNat * 512) (by omega), Nat.mod_eq_of_lt (by omega)]
      · simp only [Option.some.injEq, Prod.mk.injEq] at heq
        omega

/-- **The RAM disk serves a transfer exactly** if and only if its sectors exist, or it is empty and
passes the check, or the check modulo `2 ^ 55` fails. -/
theorem exact_iff {devices : List BlockDevice} {name : List UInt8}
    (hdev : blockGetDevice devices name = some (ramdiskDev storage)) (htype : type ≠ .flush)
    (hs : storage ≠ 0) (hb : buf ≠ 0) (hend : storage.toNat + ramdiskSize.toNat ≤ 2 ^ 64)
    (mem : ByteMemory) :
    Exact type storage mem sector count buf
      (blockSubmitBio devices name type mem sector count buf) ↔ InRange sector count := by
  unfold blockSubmitBio
  rw [hdev]
  cases type with
  | flush => exact absurd rfl htype
  | read | write => exact ramdiskSectors_exact_iff sector count hs hb hend mem

/-- A request for the disk at `0x100000`. -/
def diskAt1M (sector : UInt64) (count : UInt32) : Outcome :=
  blockSubmitBio [ramdiskDev 0x100000] (ascii "ram0") .read (fun _ => 0) sector count 0x8000

/-- The last sector is read exactly. -/
theorem exact_iff_last : Exact .read 0x100000 (fun _ => 0) 1023 1 0x8000 (diskAt1M 1023 1) := by
  have hdev : blockGetDevice [ramdiskDev 0x100000] (ascii "ram0") = some (ramdiskDev 0x100000) :=
    rfl
  have hread : ReqType.read ≠ .flush := nofun
  have hbuf : (0x8000 : UInt64) ≠ 0 := by decide
  exact (exact_iff 1023 1 hdev hread (by decide) hbuf (by decide) _).2 (.inl (by decide))

/-- **Sectors that do not exist are served.** Sector `2 ^ 55` is taken for sector 0, and a request
whose end wraps around begins before the storage. -/
theorem not_exact : ¬ Exact .read 0x100000 (fun _ => 0) (2 ^ 55) 1 0x8000 (diskAt1M (2 ^ 55) 1) ∧
    (diskAt1M 0xFFFFFFFFFFFFFFFF 2).access = some (0x100000 - 512, 1024) := by
  refine ⟨fun h => ?_, rfl⟩
  have hexist := h.succeeds.1 rfl
  exact absurd (hexist (2 ^ 55) (by decide) (by decide)) (by decide)

end SubOS.Drivers
