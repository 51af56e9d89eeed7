import Mathlib.Data.UInt
import SubOS.Lib.ByteMemory
import SubOS.Lib.EventRun
import SubOS.Lib.Table

set_option autoImplicit false

/-!
# Virtual memory areas

`mm/vma.c`: a table of 16 tasks, each with 32 areas of its address space. `vma_mmap` does not look
whether the new area meets another one, and where a task has no entry it takes the first entry of
the table after it had one made and copied there. `vma_create_mm` forgets how many areas there are,
but not the areas.

## Main definitions

* `Sound`, `Careful` — what holds between calls, and the calls that keep it.

## Main results

* `careful_sound`, `first_task_overwritten` — careful calls isolate the tasks, others do not.

## Design

A caller of `vma_create_mm` gives the address of a structure of its own, which is not modelled;
inside `vma_mmap` it is the first entry of the table. The bounds of code, data and stack are
constants that no function reads.
-/

namespace SubOS.Mm

open EventRun Fin List Option UInt64 Finset Function

open ByteMemory (ascii)

def maxTrackedTasks : ℕ := 16

def maxVmasPerTask : ℕ := 32

structure VmArea where
  vmStart : UInt64
  vmEnd : UInt64
  vmFlags : UInt32
  vmProt : UInt32
  vmPgoff : UInt64
  vmName : List UInt8
  inUse : Bool
deriving DecidableEq

structure MmStruct where
  pid : UInt32
  vmas : Fin maxVmasPerTask → VmArea
  vmaCount : UInt64

/-- `task_mm_table`. -/
abbrev VmaTable := Fin maxTrackedTasks → MmStruct

namespace VmaTable

/-! ## The functions -/

/-- `vma_create_mm`; `out` is the entry that the result is copied to, if it is one of the table. -/
def vmaCreateMm (t : VmaTable) (pid : UInt32) (out : Option (Fin maxTrackedTasks)) : VmaTable × ℤ :=
  match Fin.find? fun i => (t i).pid == 0 || (t i).pid == pid with
  | none => (t, -1)
  | some i =>
    let mm := { t i with pid, vmaCount := 0 }
    let t := Function.update t i mm
    (match out with
      | none => t
      | some k => Function.update t k mm, 0)

/-- The first entry of a task. -/
def entryOf (t : VmaTable) (pid : UInt32) : Option (Fin maxTrackedTasks) :=
  Fin.find? fun i => (t i).pid == pid

/-- Where `vma_mmap` places an area. -/
def targetAddr (mm : MmStruct) (addr : UInt64) : UInt64 :=
  if addr = 0 then 0x70000000 + mm.vmaCount * 0x10000 else addr

/-- The first area that is not in use. -/
def freeArea (mm : MmStruct) : Option (Fin maxVmasPerTask) := Fin.find? fun j => !(mm.vmas j).inUse

/-- The entry that `vma_mmap` uses, and the table with it. -/
def entryForMmap (t : VmaTable) (pid : UInt32) : VmaTable × Fin maxTrackedTasks :=
  match t.entryOf pid with
  | some i => (t, i)
  | none => ((t.vmaCreateMm pid (some ⟨0, by decide⟩)).1, ⟨0, by decide⟩)

/-- The area that `vma_mmap` makes. -/
def newArea (mm : MmStruct) (addr len : UInt64) (prot flags : UInt32) (name : Option (List UInt8)) :
    VmArea where
  vmStart := targetAddr mm addr
  vmEnd := targetAddr mm addr + len
  vmFlags := flags
  vmProt := prot
  vmPgoff := 0
  vmName := (name.getD (ascii "[anon]")).take 31
  inUse := true

def vmaMmap (t : VmaTable) (pid : UInt32) (addr len : UInt64) (prot flags : UInt32)
    (name : Option (List UInt8)) : VmaTable × UInt64 :=
  if len = 0 then (t, 0)
  else
    let (t, k) := t.entryForMmap pid
    match freeArea (t k) with
    | none => (t, 0)
    | some j =>
      let area := newArea (t k) addr len prot flags name
      (Function.update t k { t k with
        vmas := Function.update (t k).vmas j area, vmaCount := (t k).vmaCount + 1 }, area.vmStart)

/-- The loops of `vma_munmap` and `vma_find`: the first area in use of a task with a property. -/
def lookup (t : VmaTable) (pid : UInt32) (p : VmArea → Bool) :
    Option (Fin maxTrackedTasks × Fin maxVmasPerTask) :=
  (List.finRange maxTrackedTasks).findSome? fun i =>
    if (t i).pid = pid then
      (Fin.find? fun j => ((t i).vmas j).inUse && p ((t i).vmas j)).map fun j => (i, j)
    else none

/-- `vma_munmap`; the length is not used. -/
def vmaMunmap (t : VmaTable) (pid : UInt32) (addr : UInt64) : VmaTable × ℤ :=
  match t.lookup pid fun a => a.vmStart == addr with
  | none => (t, -1)
  | some (i, j) =>
    (Function.update t i { t i with
      vmas := Function.update (t i).vmas j { (t i).vmas j with inUse := false }
      vmaCount := (t i).vmaCount - 1 }, 0)

/-- The area contains the address. -/
def contains (addr : UInt64) (a : VmArea) : Bool :=
  decide (a.vmStart ≤ addr) && decide (addr < a.vmEnd)

/-- `vma_find`: the place of the area. -/
def vmaFind (t : VmaTable) (pid : UInt32) (addr : UInt64) :
    Option (Fin maxTrackedTasks × Fin maxVmasPerTask) :=
  t.lookup pid (contains addr)

/-- The table cleared by `memset`. -/
def cleared : VmaTable := fun _ => ⟨0, fun _ => ⟨0, 0, 0, 0, 0, [], false⟩, 0⟩

def vmaInit : VmaTable :=
  let t := (cleared.vmaCreateMm 1 (some ⟨0, by decide⟩)).1
  let t := (t.vmaMmap 1 0x00400000 0x20000 5 2 (some (ascii "/bin/lazybox"))).1
  let t := (t.vmaMmap 1 0x00600000 0x10000 3 2 (some (ascii "[heap]"))).1
  (t.vmaMmap 1 0x7FFF0000 0x08000 3 0x22 (some (ascii "[stack]"))).1

/-! ## Calls -/

inductive Call where
  | vmaCreateMm (pid : UInt32)
  | vmaMmap (pid : UInt32) (addr len : UInt64) (prot flags : UInt32) (name : Option (List UInt8))
  | vmaMunmap (pid : UInt32) (addr len : UInt64)

/-- The task that a call is for. -/
def Call.pid : Call → UInt32
  | .vmaCreateMm pid => pid
  | .vmaMmap pid .. => pid
  | .vmaMunmap pid .. => pid

def step (t : VmaTable) : Call → VmaTable
  | .vmaCreateMm pid => (t.vmaCreateMm pid none).1
  | .vmaMmap pid addr len prot flags name => (t.vmaMmap pid addr len prot flags name).1
  | .vmaMunmap pid addr _ => (t.vmaMunmap pid addr).1

/-- The areas in use of an entry. -/
def areasIn (mm : MmStruct) : List VmArea :=
  ((List.finRange maxVmasPerTask).map mm.vmas).filter (·.inUse)

/-- The areas in use of a task. -/
def areasOf (t : VmaTable) (pid : UInt32) : List VmArea :=
  (List.finRange maxTrackedTasks).flatMap fun i => if (t i).pid = pid then areasIn (t i) else []

/-- The areas have no address in common. -/
def Apart (a b : VmArea) : Prop := a.vmEnd ≤ b.vmStart ∨ b.vmEnd ≤ a.vmStart
  deriving Decidable

/-- The areas in use of an entry are not empty, lie apart, and are counted. -/
structure Orderly (mm : MmStruct) : Prop where
  nonempty : ∀ j, (mm.vmas j).inUse = true → (mm.vmas j).vmStart < (mm.vmas j).vmEnd
  apart : ∀ j j', j ≠ j' → (mm.vmas j).inUse = true → (mm.vmas j').inUse = true →
    Apart (mm.vmas j) (mm.vmas j')
  counted : mm.vmaCount.toNat = Table.count (·.inUse) mm.vmas

/-- What holds between calls: a task has at most one entry, every entry is orderly, and the entries
that belong to no task come last and have no areas. -/
structure Sound (t : VmaTable) : Prop where
  unique : ∀ i k, (t i).pid ≠ 0 → (t i).pid = (t k).pid → i = k
  orderly : ∀ i, (t i).pid ≠ 0 → Orderly (t i)
  unused : ∀ i, (t i).pid = 0 → ∀ j, ((t i).vmas j).inUse = false
  last : ∀ i k, (t i).pid = 0 → i ≤ k → (t k).pid = 0

/-- A call for one task leaves the areas of every other task alone. -/
def Isolated (t : VmaTable) (c : Call) : Prop :=
  ∀ pid, pid ≠ 0 → pid ≠ c.pid → areasOf (t.step c) pid = areasOf t pid

/-- A new entry is made for a task that has no areas; an area is mapped for a task that has an
entry, does not wrap around, and meets no other area. -/
def Careful (t : VmaTable) : Call → Prop
  | .vmaCreateMm pid => areasOf t pid = []
  | .vmaMmap pid addr len _ _ _ => len ≠ 0 →
    ∃ k ∈ t.entryOf pid, (freeArea (t k)).isSome →
      (targetAddr (t k) addr).toNat + len.toNat < 2 ^ 64 ∧
      ∀ j, ((t k).vmas j).inUse = true →
        targetAddr (t k) addr + len ≤ ((t k).vmas j).vmStart ∨
          ((t k).vmas j).vmEnd ≤ targetAddr (t k) addr
  | .vmaMunmap .. => True

instance (t : VmaTable) : DecidablePred (Careful t) := by
  rintro ⟨⟩ <;> dsimp only [Careful] <;> infer_instance

variable {t : VmaTable} {pid : UInt32} {addr : UInt64} {i k : Fin maxTrackedTasks}
  {j : Fin maxVmasPerTask} {p : VmArea → Bool} {mm : MmStruct}

/-! ## Looking up -/

lemma entryOf_eq_some (h : t.entryOf pid = some i) : (t i).pid = pid := by
  simpa using eq_true_of_find?_eq_some h

lemma lookup_eq_some (h : t.lookup pid p = some (i, j)) :
    (t i).pid = pid ∧ ((t i).vmas j).inUse = true ∧ p ((t i).vmas j) = true := by
  obtain ⟨i', -, hi'⟩ := exists_of_findSome?_eq_some h
  split_ifs at hi' with hpid
  obtain ⟨j', hj', heq⟩ := map_eq_some_iff.1 hi'
  obtain ⟨rfl, rfl⟩ := Prod.mk.inj heq
  have hfound := eq_true_of_find?_eq_some hj'
  rw [Bool.and_eq_true] at hfound
  exact ⟨hpid, hfound⟩

lemma isSome_lookup (hpid : (t i).pid = pid) (huse : ((t i).vmas j).inUse = true)
    (hp : p ((t i).vmas j) = true) : (t.lookup pid p).isSome = true := by
  unfold lookup
  rw [List.findSome?_isSome_iff]
  refine ⟨i, mem_finRange i, ?_⟩
  rw [if_pos hpid, isSome_map]
  by_contra hnone
  rw [not_isSome_iff_eq_none, find?_eq_none_iff] at hnone
  have := hnone j
  rw [huse, hp] at this
  exact nomatch this

lemma disjoint_of_apart {a b : VmArea} (h : Apart a b) (ha : contains addr a = true)
    (hb : contains addr b = true) : False := by
  unfold contains at ha hb
  simp only [Bool.and_eq_true, decide_eq_true_eq, le_iff_toNat_le, lt_iff_toNat_lt]
    at ha hb
  unfold Apart at h
  simp only [le_iff_toNat_le] at h
  omega

/-- **`vma_find` returns the only area of the task that contains the address**, and nothing where
there is none. -/
theorem Sound.vmaFind_iff (hs : Sound t) : t.vmaFind pid addr = some (i, j) ↔
    (t i).pid = pid ∧ ((t i).vmas j).inUse = true ∧ contains addr ((t i).vmas j) = true := by
  refine ⟨lookup_eq_some, fun ⟨hpid, huse, hin⟩ => ?_⟩
  obtain ⟨⟨i', j'⟩, hfound⟩ := isSome_iff_exists.1 (isSome_lookup hpid huse hin)
  obtain ⟨hpid', huse', hin'⟩ := lookup_eq_some hfound
  have hne : (t i).pid ≠ 0 := fun h0 => by
    rw [hs.unused i h0 j] at huse
    exact nomatch huse
  obtain rfl : i = i' := hs.unique i i' hne (hpid.trans hpid'.symm)
  -- Two areas of one entry that contain the address would not lie apart.
  have hj : j' = j := by
    by_contra hjj
    exact disjoint_of_apart ((hs.orderly i hne).apart j' j hjj huse' huse) hin' hin
  rw [vmaFind, hfound, hj]

/-! ## One entry -/

lemma areasIn_eq_nil (h : areasIn mm = []) (j : Fin maxVmasPerTask) :
    (mm.vmas j).inUse = false := by
  unfold areasIn at h
  rw [filter_eq_nil_iff] at h
  exact Bool.eq_false_of_not_eq_true (h _ (mem_map_of_mem (mem_finRange j)))

lemma orderly_of_unused (hunused : ∀ j, (mm.vmas j).inUse = false) (hcount : mm.vmaCount = 0) :
    Orderly mm where
  nonempty j huse := absurd huse (by rw [hunused j]; exact Bool.false_ne_true)
  apart j _ _ huse := absurd huse (by rw [hunused j]; exact Bool.false_ne_true)
  counted := by
    unfold Table.count
    rw [hcount, filter_false_of_mem fun j _ => by simp [hunused j]]
    rfl

lemma count_le (p : VmArea → Bool) (f : Fin maxVmasPerTask → VmArea) : Table.count p f ≤ 32 := by
  have hle := card_filter_le univ fun j => p (f j) = true
  rwa [card_univ, Fintype.card_fin] at hle

lemma Orderly.map (h : Orderly mm) {a : VmArea} (hfree : (mm.vmas j).inUse = false)
    (huse : a.inUse = true) (hne : a.vmStart < a.vmEnd)
    (hapart : ∀ j', (mm.vmas j').inUse = true → Apart a (mm.vmas j')) :
    Orderly { mm with vmas := Function.update mm.vmas j a, vmaCount := mm.vmaCount + 1 } where
  nonempty j₁ h₁ := by
    dsimp only at h₁ ⊢
    by_cases hj : j₁ = j
    · subst hj
      rw [update_self]
      exact hne
    · rw [update_of_ne hj] at h₁ ⊢
      exact h.nonempty j₁ h₁
  apart j₁ j₂ hj h₁ h₂ := by
    dsimp only at h₁ h₂ ⊢
    by_cases hj₁ : j₁ = j
    · subst hj₁
      rw [update_of_ne (.symm hj)] at h₂ ⊢
      rw [update_self]
      exact hapart j₂ h₂
    · rw [update_of_ne hj₁] at h₁ ⊢
      by_cases hj₂ : j₂ = j
      · subst hj₂
        rw [update_self]
        exact (hapart j₁ h₁).symm
      · rw [update_of_ne hj₂] at h₂ ⊢
        exact h.apart j₁ j₂ hj h₁ h₂
  counted := by
    have hle := count_le (·.inUse) mm.vmas
    have hadd : (mm.vmaCount + 1).toNat = mm.vmaCount.toNat + 1 := by
      rw [UInt64.toNat_add, h.counted]
      exact Nat.mod_eq_of_lt (by change _ + 1 < _; omega)
    rw [hadd, Table.count_update_enter hfree huse, h.counted]

lemma Orderly.unmap (h : Orderly mm) (huse : (mm.vmas j).inUse = true) :
    Orderly { mm with
      vmas := Function.update mm.vmas j { mm.vmas j with inUse := false }
      vmaCount := mm.vmaCount - 1 } := by
  -- What is still in use is another area, as it was.
  have hkept : ∀ {j'}, (Function.update mm.vmas j { mm.vmas j with inUse := false } j').inUse =
    true → Function.update mm.vmas j { mm.vmas j with inUse := false } j' = mm.vmas j' := by
    intro j' hj'
    by_cases hj : j' = j
    · rw [hj, update_self] at hj'
      exact nomatch hj'
    · exact update_of_ne hj _ _
  refine ⟨fun j₁ h₁ => ?_, fun j₁ j₂ hj h₁ h₂ => ?_, ?_⟩
  · have heq := hkept h₁
    dsimp only at h₁ ⊢
    rw [heq] at h₁ ⊢
    exact h.nonempty j₁ h₁
  · have heq₁ := hkept h₁
    have heq₂ := hkept h₂
    dsimp only at h₁ h₂ ⊢
    rw [heq₁] at h₁ ⊢
    rw [heq₂] at h₂ ⊢
    exact h.apart j₁ j₂ hj h₁ h₂
  · have hpos : 0 < Table.count (·.inUse) mm.vmas :=
      card_pos.2 ⟨j, mem_filter.2 ⟨mem_univ j, huse⟩⟩
    have hle : 1 ≤ mm.vmaCount := le_iff_toNat_le.2 (by rw [h.counted]; exact hpos)
    rw [UInt64.toNat_sub_of_le _ _ hle, Table.count_update_leave huse rfl, h.counted]
    rfl

/-! ## One call -/

lemma Sound.ne_zero_of_lt (hs : Sound t) (hk : (t k).pid ≠ 0) (hlt : i < k) : (t i).pid ≠ 0 :=
  fun h0 => hk (hs.last i k h0 hlt.le)

lemma Sound.update (hs : Sound t) (hpid : pid ≠ 0) (honly : ∀ i, (t i).pid = pid → i = k)
    (hfirst : ∀ i < k, (t i).pid ≠ 0) (hmm : mm.pid = pid) (hord : Orderly mm) :
    Sound (Function.update t k mm) where
  unique i₁ i₂ hne heq := by
    by_cases h₁ : i₁ = k <;> by_cases h₂ : i₂ = k
    · rw [h₁, h₂]
    · rw [h₁, update_self, update_of_ne h₂, hmm] at heq
      rw [h₁, honly i₂ heq.symm]
    · rw [h₂, update_self, update_of_ne h₁, hmm] at heq
      rw [h₂, honly i₁ heq]
    · rw [update_of_ne h₁] at hne heq
      rw [update_of_ne h₂] at heq
      exact hs.unique i₁ i₂ hne heq
  orderly i hne := by
    by_cases hi : i = k
    · rw [hi, update_self]
      exact hord
    · rw [update_of_ne hi] at hne ⊢
      exact hs.orderly i hne
  unused i h0 := by
    by_cases hi : i = k
    · rw [hi, update_self, hmm] at h0
      exact absurd h0 hpid
    · rw [update_of_ne hi] at h0 ⊢
      exact hs.unused i h0
  last i i' h0 hle := by
    have hi : i ≠ k := by
      rintro rfl
      rw [update_self, hmm] at h0
      exact hpid h0
    rw [update_of_ne hi] at h0
    have hi' : i' ≠ k := by
      rintro rfl
      exact hfirst i (lt_of_le_of_ne hle hi) h0
    rw [update_of_ne hi']
    exact hs.last i i' h0 hle

lemma Sound.update_own (hs : Sound t) (hpid : pid ≠ 0) (hk : (t k).pid = pid) (hmm : mm.pid = pid)
    (hord : Orderly mm) : Sound (Function.update t k mm) := by
  have hne : (t k).pid ≠ 0 := hk ▸ hpid
  refine hs.update hpid (fun i hi => ?_) (fun i => hs.ne_zero_of_lt hne) hmm hord
  exact (hs.unique k i hne (hk.trans hi.symm)).symm

/-- What a call does to the table: nothing, or one entry that belongs to the task or to nobody
becomes an entry of the task, and the table stays sound. -/
inductive OneEntry (t : VmaTable) (pid : UInt32) (t' : VmaTable) : Prop
  | same (h : t' = t)
  | written (k : Fin maxTrackedTasks) (mm : MmStruct) (h : t' = Function.update t k mm)
      (hk : (t k).pid = 0 ∨ (t k).pid = pid) (hmm : mm.pid = pid) (hs : Sound t')

lemma areasOf_eq_nil (h : areasOf t pid = []) (hi : (t i).pid = pid) (j : Fin maxVmasPerTask) :
    ((t i).vmas j).inUse = false := by
  unfold areasOf at h
  rw [flatMap_eq_nil_iff] at h
  have hnil := h i (mem_finRange i)
  rw [if_pos hi] at hnil
  exact areasIn_eq_nil hnil j

lemma Sound.vmaCreateMm (hs : Sound t) (hpid : pid ≠ 0) (hnone : areasOf t pid = []) :
    OneEntry t pid (t.vmaCreateMm pid none).1 := by
  unfold VmaTable.vmaCreateMm
  cases hfind : Fin.find? fun i => (t i).pid == 0 || (t i).pid == pid with
  | none => exact .same rfl
  | some k =>
    obtain ⟨hk, hbefore⟩ := find?_eq_some_iff.1 hfind
    have hk : (t k).pid = 0 ∨ (t k).pid = pid := by simpa using hk
    have hbefore : ∀ i < k, (t i).pid ≠ 0 ∧ (t i).pid ≠ pid := by simpa using hbefore
    refine .written k { t k with pid, vmaCount := 0 } rfl hk rfl ?_
    have honly : ∀ i, (t i).pid = pid → i = k := by
      intro i hi
      rcases lt_trichotomy i k with hlt | heq | hgt
      · exact absurd hi (hbefore i hlt).2
      · exact heq
      · rcases hk with h0 | hk
        · exact absurd (hi.symm.trans (hs.last k i h0 hgt.le)) hpid
        · exact hs.unique i k (hi ▸ hpid) (hi.trans hk.symm)
    refine hs.update hpid honly (fun i hi => (hbefore i hi).1) rfl (orderly_of_unused ?_ rfl)
    rcases hk with h0 | hk
    · exact hs.unused k h0
    · exact areasOf_eq_nil hnone hk

lemma Sound.vmaMmap (hs : Sound t) (hpid : pid ≠ 0) {len : UInt64} {prot flags : UInt32}
    {name : Option (List UInt8)} (hok : Careful t (.vmaMmap pid addr len prot flags name)) :
    OneEntry t pid (t.vmaMmap pid addr len prot flags name).1 := by
  unfold VmaTable.vmaMmap
  by_cases hlen : len = 0
  · rw [if_pos hlen]
    exact .same rfl
  obtain ⟨k, hk, hplace⟩ := hok hlen
  have hentry : t.entryForMmap pid = (t, k) := by
    unfold entryForMmap
    rw [mem_def.1 hk]
  rw [if_neg hlen, hentry]
  dsimp only
  cases hfree : freeArea (t k) with
  | none => exact .same rfl
  | some j =>
    obtain ⟨hfits, hapart⟩ := hplace (by rw [hfree]; rfl)
    have hown := entryOf_eq_some hk
    have hunused : ((t k).vmas j).inUse = false := by simpa using eq_true_of_find?_eq_some hfree
    refine .written k _ rfl (.inr hown) hown (hs.update_own hpid hown hown ?_)
    refine (hs.orderly k (hown ▸ hpid)).map hunused rfl ?_ hapart
    have hpos : 0 < len.toNat := Nat.pos_of_ne_zero fun h0 => hlen (UInt64.toNat_inj.1 h0)
    change targetAddr (t k) addr < targetAddr (t k) addr + len
    rw [lt_iff_toNat_lt, UInt64.toNat_add, Nat.mod_eq_of_lt hfits]
    omega

lemma Sound.vmaMunmap (hs : Sound t) (hpid : pid ≠ 0) :
    OneEntry t pid (t.vmaMunmap pid addr).1 := by
  unfold VmaTable.vmaMunmap
  cases hfound : t.lookup pid fun a => a.vmStart == addr with
  | none => exact .same rfl
  | some ij =>
    obtain ⟨i, j⟩ := ij
    obtain ⟨hown, huse, -⟩ := lookup_eq_some hfound
    refine .written i _ rfl (.inr hown) hown (hs.update_own hpid hown hown ?_)
    exact (hs.orderly i (hown ▸ hpid)).unmap huse

lemma Sound.oneEntry (hs : Sound t) {c : Call} (hpid : c.pid ≠ 0) (hok : Careful t c) :
    OneEntry t c.pid (t.step c) := by
  cases c with
  | vmaCreateMm pid => exact hs.vmaCreateMm hpid hok
  | vmaMmap pid addr len prot flags name => exact hs.vmaMmap hpid hok
  | vmaMunmap pid addr len => exact hs.vmaMunmap hpid

lemma areasOf_update (hk : (t k).pid ≠ pid) (hmm : mm.pid ≠ pid) :
    areasOf (Function.update t k mm) pid = areasOf t pid := by
  refine flatMap_congr fun i _ => ?_
  by_cases hi : i = k
  · rw [hi, update_self, if_neg hmm, if_neg hk]
  · rw [update_of_ne hi]

/-- **One careful call** leaves the other tasks alone and the table sound. -/
lemma Sound.step (hs : Sound t) {c : Call} (hpid : c.pid ≠ 0) (hok : Careful t c) :
    Isolated t c ∧ Sound (t.step c) := by
  obtain h | ⟨k, mm, h, hk, hmm, hs'⟩ := hs.oneEntry hpid hok
  · refine ⟨fun pid _ _ => ?_, ?_⟩
    · rw [h]
    · rw [h]
      exact hs
  · refine ⟨fun pid h0 hne => ?_, hs'⟩
    rw [h]
    refine areasOf_update ?_ (hmm ▸ hne.symm)
    rcases hk with hk | hk
    · exact hk ▸ h0.symm
    · exact hk ▸ hne.symm

/-! ## Runs -/

lemma sound_cleared : Sound cleared where
  unique _ _ h := absurd rfl h
  orderly _ h := absurd rfl h
  unused _ _ _ := rfl
  last _ _ _ _ := rfl

/-- The calls of `vma_init`. -/
def initCalls : List Call :=
  [.vmaCreateMm 1, .vmaMmap 1 0x00400000 0x20000 5 2 (some (ascii "/bin/lazybox")),
    .vmaMmap 1 0x00600000 0x10000 3 2 (some (ascii "[heap]")),
    .vmaMmap 1 0x7FFF0000 0x08000 3 0x22 (some (ascii "[stack]"))]

lemma vmaInit_eq : vmaInit = run step cleared initCalls := by
  have hfirst : (cleared.vmaCreateMm 1 (some ⟨0, by decide⟩)).1 =
    (cleared.vmaCreateMm 1 none).1 := by
    have hfind : Fin.find? (fun i => (cleared i).pid == 0 || (cleared i).pid == 1) =
        some ⟨0, by decide⟩ := by decide
    unfold VmaTable.vmaCreateMm
    exact update_idem _ _ _
  unfold vmaInit
  rw [hfirst]
  rfl

lemma sound_vmaInit : Sound vmaInit := by
  rw [vmaInit_eq]
  have hok : Along step (fun t c => c.pid ≠ 0 ∧ Careful t c) cleared initCalls := by
    decide +kernel
  exact run_invariant_of_along (fun _ _ hs h => (hs.step h.1 h.2).2) sound_cleared hok

/-- **Every run of careful calls for tasks isolates the tasks and reaches a sound table**, in which
`vma_find` returns the only area of a task that contains an address. -/
theorem careful_sound (cs : List Call) (hpid : ∀ c ∈ cs, c.pid ≠ 0)
    (hok : Along step Careful vmaInit cs) :
    Along step Isolated vmaInit cs ∧ Sound (run step vmaInit cs) ∧
      ∀ pid addr i j, vmaFind (run step vmaInit cs) pid addr = some (i, j) ↔
        (run step vmaInit cs i).pid = pid ∧
        ((run step vmaInit cs i).vmas j).inUse = true ∧
        contains addr ((run step vmaInit cs i).vmas j) = true := by
  have halong := (along_of_mem hpid).and hok
  have hstep : ∀ t c, Sound t → c.pid ≠ 0 ∧ Careful t c → Isolated t c ∧ Sound (t.step c) :=
    fun t c hs h => hs.step h.1 h.2
  have hsound := run_invariant_of_along (fun t c hs h => (hstep t c hs h).2) sound_vmaInit halong
  exact ⟨along_of_along hstep sound_vmaInit halong, hsound, fun pid addr i j =>
    hsound.vmaFind_iff⟩

/-- The calls of a second task: it gets an entry and maps two areas, the second where the first one
was before it was unmapped. -/
def secondTask : List Call :=
  [.vmaCreateMm 2, .vmaMmap 2 0x1000 0x1000 3 2 none, .vmaMunmap 2 0x1000 0x1000,
    .vmaMmap 2 0x1000 0x2000 3 2 none]

theorem careful_sound_secondTask :
    (∀ c ∈ secondTask, c.pid ≠ 0) ∧ Along step Careful vmaInit secondTask ∧
      Sound (run step vmaInit secondTask) := by
  have hpid : ∀ c ∈ secondTask, c.pid ≠ 0 := by decide
  have hok : Along step Careful vmaInit secondTask := by decide +kernel
  exact ⟨hpid, hok, (careful_sound secondTask hpid hok).2.1⟩

/-- **A mapping for a task without an entry overwrites the first one**: task 1 had areas and has
none left, and two entries belong to task 2. An area may also be mapped over another one of its
task. -/
theorem first_task_overwritten :
    (areasOf vmaInit 1 ≠ [] ∧ areasOf (vmaInit.step (.vmaMmap 2 0x1000 0x1000 3 2 none)) 1 = []) ∧
    (∃ i k, i ≠ k ∧ (vmaInit.step (.vmaMmap 2 0x1000 0x1000 3 2 none) i).pid = 2 ∧
      (vmaInit.step (.vmaMmap 2 0x1000 0x1000 3 2 none) k).pid = 2) ∧
    ∃ i j j', j ≠ j' ∧
      ((vmaInit.step (.vmaMmap 1 0x400000 0x1000 3 2 none) i).vmas j).inUse = true ∧
      ((vmaInit.step (.vmaMmap 1 0x400000 0x1000 3 2 none) i).vmas j').inUse = true ∧
      ¬Apart ((vmaInit.step (.vmaMmap 1 0x400000 0x1000 3 2 none) i).vmas j)
        ((vmaInit.step (.vmaMmap 1 0x400000 0x1000 3 2 none) i).vmas j') := by
  refine ⟨by decide +kernel, ⟨⟨0, by decide⟩, ⟨1, by decide⟩, by decide +kernel⟩, ?_⟩
  exact ⟨⟨0, by decide⟩, ⟨0, by decide⟩, ⟨3, by decide⟩, by decide +kernel⟩

end VmaTable

end SubOS.Mm
