import SubOS.Kernel.Elf

set_option autoImplicit false

/-!
# Where the ELF loader writes

`elf_load` has to keep to the virtual pages of the user range. A segment that starts above
`USER_LIMIT` passes its range check, because `USER_LIMIT - p_vaddr` wraps around; the walk through
the tables then uses the low 48 bits of the address, and arrives in whatever slot they name.

## Main definitions

* `Confined`, `Inside` — only user pages change; no segment above them comes to be mapped.

## Main results

* `confined_iff` — the two are the same.
* `kernelSlot_load` — a segment that is loaded into another slot.

## Design

The address space is arbitrary: its tables may be shared, damaged or full. A segment above the user
range does no harm when its end, rounded up to a page, wraps around, and when the walk to its first
page ends before anything is written.
-/

namespace SubOS.Kernel

open Mm Bool Space

variable {image : List UInt8} {eh : Elf64Ehdr} {l : Loader} {p : Elf64Phdr} {s : Space} {len : ℕ}

/-- The pages that have been touched are user pages. -/
def Within (s : Space) : Prop := ∀ x ∈ s.touched, userBase ≤ x ∧ x < userLimit

/-- `elf_load` touches user pages only. -/
def Confined (image : List UInt8) (s : Space) : Prop :=
  Within (elfLoad image { s with touched := [] }).2

/-- The state before a round of the loop lets it do no harm: if the round comes to map a segment,
the segment starts in the user range, or its end wraps around, or the walk to its first page does
not come to write an entry. -/
def Inside (image : List UInt8) (eh : Elf64Ehdr) (l : Loader) (i : ℕ) : Prop :=
  l.status = .running → ∀ p, phdrAt image (eh.phoff + i * phdrSize) = some p →
    p.loadable = true → p.check image.length = none →
      p.vaddr ≤ userLimit ∨ 2 ^ 64 ≤ p.vaddr + p.memsz + 4095 ∨
        l.space.canMap (pageDown p.vaddr) = false

/-! ## One segment -/

lemma check_eq_none (h : p.check len = none) :
    p.filesz ≤ p.memsz ∧ p.offset + p.filesz ≤ len ∧ userBase ≤ p.vaddr ∧
      p.memsz ≤ (userLimit + 2 ^ 64 - p.vaddr) % 2 ^ 64 := by
  unfold Elf64Phdr.check at h
  split_ifs at h with h₁ h₂ h₃ h₄
  exact ⟨by omega, by omega, by omega, by omega⟩

lemma end_le_of_check (h : p.check len = none) (hstart : p.vaddr ≤ userLimit) :
    p.vaddr + p.memsz ≤ userLimit := by
  obtain ⟨-, -, hbase, hsize⟩ := check_eq_none h
  omega

lemma copySegment_adds (image : List UInt8) (l : Loader) (h : p.vaddr + p.filesz < 2 ^ 64) :
    Adds (fun x => pageDown p.vaddr ≤ x ∧ x < p.vaddr + p.filesz) l.space
      (copySegment image l p).space := by
  unfold copySegment
  split_ifs with hzero
  · exact .of_eq rfl
  · cases hbytes : bytesAt image p.offset p.filesz with
    | none => exact .of_eq rfl
    | some bytes =>
      have hlen := length_of_bytesAt hbytes
      have hadds := l.space.write_adds p.vaddr bytes (by omega)
      rw [hlen] at hadds
      dsimp only
      split_ifs <;> exact hadds

section

variable (entry : ℕ) {virt : ℕ}

/-- What a segment that is mapped leaves of the loop, as far as pages are concerned. -/
lemma loadSegment_space (hload : p.loadable = true) (hcheck : p.check image.length = none) :
    (loadSegment image entry l p).space =
      if (l.space.alloc p.vaddr p.memsz (elfProtOf p.flags)).1 then
        (copySegment image
          { l with space := (l.space.alloc p.vaddr p.memsz (elfProtOf p.flags)).2 } p).space
      else (l.space.alloc p.vaddr p.memsz (elfProtOf p.flags)).2 := by
  rw [loadSegment, hload, hcheck]
  rcases l.space.alloc p.vaddr p.memsz (elfProtOf p.flags) with ⟨_ | _, s₁⟩
  · rfl
  · simp only [Bool.not_true, false_eq_true, if_false, if_true]
    split_ifs <;> rfl

lemma loadSegment_adds (hload : p.loadable = true)
    (hcheck : p.check image.length = none) (hstart : p.vaddr ≤ userLimit) :
    Adds (fun x => userBase ≤ x ∧ x < userLimit) l.space
      (loadSegment image entry l p).space := by
  obtain ⟨hfile, -, hbase, -⟩ := check_eq_none hcheck
  have hend := end_le_of_check hcheck hstart
  rw [loadSegment_space entry hload hcheck]
  rw [userBase] at hbase
  rw [userLimit] at hend
  have halloc := (l.space.alloc_adds p.vaddr p.memsz (elfProtOf p.flags)).mono
    (Q := fun x => userBase ≤ x ∧ x < userLimit) (fun x hx => by
      have hmod : (p.vaddr + p.memsz + 4096 - 1) % 2 ^ 64 = p.vaddr + p.memsz + 4096 - 1 :=
        Nat.mod_eq_of_lt (by omega)
      unfold pageEnd pageDown vmPageSize at hx
      rw [userBase, userLimit]
      omega)
  split_ifs
  · have hcopy := copySegment_adds (p := p) image
      { l with space := (l.space.alloc p.vaddr p.memsz (elfProtOf p.flags)).2 } (by omega)
    refine halloc.trans (hcopy.mono fun x hx => ?_)
    unfold pageDown at hx
    rw [userBase, userLimit]
    omega
  · exact halloc

lemma alloc_of_wrap (s : Space) (prot : Prot) (hhigh : userLimit < virt)
    (hlen : len ≤ (userLimit + 2 ^ 64 - virt) % 2 ^ 64) (hvirt : virt < 2 ^ 64)
    (hwrap : 2 ^ 64 ≤ virt + len + 4095) : s.alloc virt len prot = (false, s) := by
  rw [userLimit] at hhigh hlen
  have hle : pageEnd virt len ≤ pageDown virt := by
    unfold pageEnd pageDown vmPageSize
    omega
  unfold alloc
  rw [if_pos hle, ite_self]

/-- A segment above the user range whose end does not wrap around is mapped page by page. -/
lemma alloc_of_high (s : Space) (prot : Prot) (hlen : len ≠ 0)
    (hwrap : virt + len + 4095 < 2 ^ 64) :
    ∃ n, s.alloc virt len prot = s.allocLoop prot (pageDown virt) (n + 1) := by
  have hlt : pageDown virt + 4096 ≤ pageEnd virt len := by
    unfold pageEnd pageDown vmPageSize
    omega
  have hpos : 0 < (pageEnd virt len - pageDown virt) / vmPageSize :=
    Nat.div_pos (by rw [vmPageSize]; omega) (by decide)
  refine ⟨(pageEnd virt len - pageDown virt) / vmPageSize - 1, ?_⟩
  rw [alloc, if_neg hlen, if_neg (by omega), Nat.sub_add_cancel hpos]

lemma alloc_high (s : Space) (prot : Prot) (hlen : len ≠ 0) (hwrap : virt + len + 4095 < 2 ^ 64) :
    (s.canMap (pageDown virt) = true → pageDown virt ∈ (s.alloc virt len prot).2.touched) ∧
      (s.canMap (pageDown virt) = false → (s.alloc virt len prot).1 = false ∧
        (s.alloc virt len prot).2.touched = s.touched) := by
  obtain ⟨n, halloc⟩ := alloc_of_high s prot hlen hwrap
  have hdown : pageDown (pageDown virt) = pageDown virt := by
    unfold pageDown
    omega
  have hfirst := s.allocPage_touched (pageDown virt) prot
  rw [hdown] at hfirst
  rw [halloc, allocLoop]
  rcases hpage : s.allocPage (pageDown virt) prot with ⟨ok, s₁⟩
  rw [hpage] at hfirst
  cases hmap : s.canMap (pageDown virt) with
  | true =>
    rw [hmap, if_pos rfl] at hfirst
    refine ⟨fun _ => ?_, fun h => by cases h⟩
    cases ok with
    | false => exact hfirst
    | true => exact (allocLoop_adds prot n s₁ _).keeps _ hfirst
  | false =>
    rw [hmap, if_neg Bool.false_ne_true] at hfirst
    refine ⟨fun h => (by cases h), fun _ => ?_⟩
    obtain ⟨hok, htouched⟩ := hfirst
    subst hok
    exact ⟨rfl, htouched⟩

lemma loadSegment_keeps (hload : p.loadable = true)
    (hcheck : p.check image.length = none) (hend : p.vaddr + p.memsz < 2 ^ 64) {x : ℕ}
    (hx : x ∈ (l.space.alloc p.vaddr p.memsz (elfProtOf p.flags)).2.touched) :
    x ∈ (loadSegment image entry l p).space.touched := by
  obtain ⟨hfile, -, -, -⟩ := check_eq_none hcheck
  rw [loadSegment_space entry hload hcheck]
  split_ifs
  · exact (copySegment_adds image _ (by omega)).keeps x hx
  · exact hx

lemma loadSegment_refused (hload : p.loadable = true) (hcheck : p.check image.length = none)
    (hfail : (l.space.alloc p.vaddr p.memsz (elfProtOf p.flags)).1 = false)
    (hsame : (l.space.alloc p.vaddr p.memsz (elfProtOf p.flags)).2.touched = l.space.touched) :
    (loadSegment image entry l p).space.touched = l.space.touched := by
  rw [loadSegment_space entry hload hcheck, hfail]
  exact hsame

/-- **A segment above the user range** touches its first page, or no page at all: its end wraps
around, or the walk to its first page does not come to write an entry. -/
lemma loadSegment_high (hload : p.loadable = true) (hcheck : p.check image.length = none)
    (hvirt : p.vaddr < 2 ^ 64) (hhigh : userLimit < p.vaddr) :
    (p.vaddr + p.memsz + 4095 < 2 ^ 64 ∧ l.space.canMap (pageDown p.vaddr) = true ∧
      pageDown p.vaddr ∈ (loadSegment image entry l p).space.touched ∧
        ∀ x ∈ l.space.touched, x ∈ (loadSegment image entry l p).space.touched) ∨
    ((2 ^ 64 ≤ p.vaddr + p.memsz + 4095 ∨ l.space.canMap (pageDown p.vaddr) = false) ∧
      (loadSegment image entry l p).space.touched = l.space.touched) := by
  obtain ⟨-, -, -, hsize⟩ := check_eq_none hcheck
  have hne : p.memsz ≠ 0 := by
    rw [Elf64Phdr.loadable, and_eq_true, bne_iff_ne] at hload
    exact hload.2
  rcases Nat.lt_or_ge (p.vaddr + p.memsz + 4095) (2 ^ 64) with hend | hwrap
  · obtain ⟨hopen, hblocked⟩ :=
      alloc_high l.space (elfProtOf p.flags) hne hend
    cases hmap : l.space.canMap (pageDown p.vaddr) with
    | true =>
      refine .inl ⟨hend, rfl, loadSegment_keeps entry hload hcheck (by omega) (hopen hmap),
        fun x hx => loadSegment_keeps entry hload hcheck (by omega) ?_⟩
      exact (l.space.alloc_adds p.vaddr p.memsz _).keeps x hx
    | false =>
      obtain ⟨hfail, hsame⟩ := hblocked hmap
      exact .inr ⟨.inr rfl, loadSegment_refused entry hload hcheck hfail hsame⟩
  · have halloc := alloc_of_wrap l.space (elfProtOf p.flags) hhigh hsize hvirt hwrap
    exact .inr ⟨.inl hwrap,
      loadSegment_refused entry hload hcheck (by rw [halloc]) (by rw [halloc])⟩

end

/-! ## The loop -/

lemma loadHeader_cases (image : List UInt8) (eh : Elf64Ehdr) (l : Loader) (i : ℕ) :
    (loadHeader image eh l i).space = l.space ∧ Inside image eh l i ∨
      ∃ p, l.status = .running ∧ phdrAt image (eh.phoff + i * phdrSize) = some p ∧
        p.loadable = true ∧ p.check image.length = none ∧
        loadHeader image eh l i = loadSegment image eh.entry l p := by
  by_cases hrun : l.status = .running
  · cases hp : phdrAt image (eh.phoff + i * phdrSize) with
    | none =>
      refine .inl ⟨?_, fun _ p hp' => ?_⟩
      · rw [loadHeader, if_pos hrun, hp]
      · cases hp.symm.trans hp'
    | some p =>
      have hround : loadHeader image eh l i = loadSegment image eh.entry l p := by
        rw [loadHeader, if_pos hrun, hp]
      cases hload : p.loadable with
      | false =>
        refine .inl ⟨?_, fun _ p' hp' hload' => ?_⟩
        · rw [hround, loadSegment, hload]
          rfl
        · rw [hp, Option.some_inj] at hp'
          rw [← hp', hload] at hload'
          exact nomatch hload'
      | true =>
        cases hcheck : p.check image.length with
        | some e =>
          refine .inl ⟨?_, fun _ p' hp' _ hcheck' => ?_⟩
          · rw [hround, loadSegment, hload, hcheck]
            rfl
          · rw [hp, Option.some_inj] at hp'
            rw [← hp', hcheck] at hcheck'
            exact nomatch hcheck'
        | none => exact .inr ⟨p, hrun, rfl, hload, hcheck, hround⟩
  · refine .inl ⟨?_, fun h => absurd h hrun⟩
    rw [loadHeader, if_neg hrun]

lemma loadHeader_keeps (image : List UInt8) (eh : Elf64Ehdr) (l : Loader) (i : ℕ) {x : ℕ}
    (hx : x ∈ l.space.touched) : x ∈ (loadHeader image eh l i).space.touched := by
  rcases loadHeader_cases image eh l i with ⟨hsame, -⟩ | ⟨p, -, hp, hload, hcheck, hround⟩
  · rwa [hsame]
  · rw [hround]
    by_cases hhigh : p.vaddr ≤ userLimit
    · exact (loadSegment_adds eh.entry hload hcheck hhigh).keeps x hx
    · rcases loadSegment_high eh.entry hload hcheck (phdrAt_lt hp).1 (by omega) with
        ⟨-, -, -, hkeeps⟩ | ⟨-, hsame⟩
      · exact hkeeps x hx
      · rwa [hsame]

/-- **A round of the loop stays in the user range** if and only if the state before it lets it do no
harm. -/
theorem loadHeader_within_iff (hl : Within l.space) (i : ℕ) :
    Within (loadHeader image eh l i).space ↔ Inside image eh l i := by
  rcases loadHeader_cases image eh l i with ⟨hsame, hinside⟩ | ⟨p, hrun, hp, hload, hcheck, hround⟩
  · rw [hsame]
    exact iff_of_true hl hinside
  · have hiff : Inside image eh l i ↔ p.vaddr ≤ userLimit ∨
        2 ^ 64 ≤ p.vaddr + p.memsz + 4095 ∨ l.space.canMap (pageDown p.vaddr) = false := by
      refine ⟨fun h => h hrun p hp hload hcheck, fun h _ p' hp' _ _ => ?_⟩
      rw [hp, Option.some_inj] at hp'
      rwa [← hp']
    rw [hround, hiff]
    by_cases hhigh : p.vaddr ≤ userLimit
    · refine iff_of_true (fun x hx => ?_) (.inl hhigh)
      exact ((loadSegment_adds eh.entry hload hcheck hhigh).only x hx).elim id (hl x)
    · rcases loadSegment_high eh.entry hload hcheck (phdrAt_lt hp).1 (by omega) with
        ⟨hend, hmap, hmem, -⟩ | ⟨hharmless, hsame⟩
      · -- the first page of the segment is above the user range
        refine iff_of_false (fun hwithin => ?_) ?_
        · have hpage := (hwithin _ hmem).2
          rw [userLimit] at hhigh hpage
          unfold pageDown at hpage
          omega
        · rintro (hlow | hwrap | hblocked)
          · exact hhigh hlow
          · omega
          · cases hmap.symm.trans hblocked
      · exact iff_of_true (fun x hx => hl x (hsame ▸ hx)) (.inr hharmless)

/-- **The loader keeps to the user range** if and only if no round of its loop comes to map a
segment above it: for every image that passes the checks of the header, and every address space. -/
theorem confined_iff (image : List UInt8) (s : Space) :
    Confined image s ↔ ∀ eh, elfCheckHeader image = some (.ok eh) →
      EventRun.Along (loadHeader image eh) (Inside image eh)
        (.start { s with touched := [] }) (List.range eh.phnum) := by
  have hempty : Within { s with touched := [] } := fun x hx => nomatch hx
  unfold Confined elfLoad
  rcases hheader : elfCheckHeader image with _ | (e | eh)
  · exact iff_of_true hempty fun eh h => nomatch h
  · exact iff_of_true hempty fun eh h => nomatch h
  · have hrun := EventRun.run_iff_along (fun l : Loader => Within l.space) (Inside image eh)
      (fun l i hl => loadHeader_within_iff hl i)
      (fun l i hl x hx => hl x (loadHeader_keeps image eh l i hx))
      (s := .start { s with touched := [] }) hempty (List.range eh.phnum)
    refine hrun.trans ⟨fun h eh' heq => ?_, fun h => h eh rfl⟩
    cases heq
    exact h

/-! ## An image that reaches the kernel's tables -/

/-- An image with one segment of `memsz` bytes at `vaddr`, none of them in the file, that starts at
its first byte. -/
def oneSegment (vaddr memsz flags : ℕ) : List UInt8 :=
  imageOf vaddr [⟨ptLoad, flags, 0, vaddr, 0, memsz⟩] []

/-- The page tables that the boot loader leaves at `0x1000`: the root, a table with four entries,
and four tables of huge pages that map the first 4 GB. -/
def bootEntry (a : ℕ) : ℕ :=
  if a = 0x1000 then 0x2003
  else if 0x2000 ≤ a ∧ a < 0x2020 then 0x3003 + (a - 0x2000) / 8 * 0x1000
  else if 0x3000 ≤ a ∧ a < 0x7000 then (a - 0x3000) / 8 * 0x200000 + 0x83
  else 0

def bootMemory : ByteMemory := fun x => UInt8.ofNat (bootEntry (x / 8 * 8) / 256 ^ (x % 8))

/-- Pages above the boot loader's tables are free. -/
def bootPmm : Pmm := ⟨fun i => decide (i < 7), 32, 7⟩

/-- A segment at `2 ^ 48 + 2 ^ 32`, which is above `USER_LIMIT`, is accepted: the image is loaded,
and an entry of the kernel's own second-level table, absent before, is present after it. -/
theorem kernelSlot_load : ∃ s p₁, Space.create bootMemory bootPmm = (some s, p₁) ∧
    ¬ Confined (oneSegment (2 ^ 48 + 2 ^ 32) 1 5) s ∧
    (elfLoad (oneSegment (2 ^ 48 + 2 ^ 32) 1 5) s).1 =
      .ok (2 ^ 48 + 2 ^ 32) (2 ^ 48 + 2 ^ 32 + 0x1000) ∧
    isPresent (bootMemory.load 0x2020 8) = false ∧
    isPresent ((elfLoad (oneSegment (2 ^ 48 + 2 ^ 32) 1 5) s).2.mem.load 0x2020 8) = true := by
  have hrun : (create bootMemory bootPmm).1.any (fun s =>
      decide (2 ^ 48 + 2 ^ 32 ∈
        (elfLoad (oneSegment (2 ^ 48 + 2 ^ 32) 1 5) { s with touched := [] }).2.touched) &&
      (decide ((elfLoad (oneSegment (2 ^ 48 + 2 ^ 32) 1 5) s).1 =
        .ok (2 ^ 48 + 2 ^ 32) (2 ^ 48 + 2 ^ 32 + 0x1000)) &&
      isPresent ((elfLoad (oneSegment (2 ^ 48 + 2 ^ 32) 1 5) s).2.mem.load 0x2020 8))) = true := by
    decide +kernel
  obtain ⟨s, hs, hfacts⟩ := (Option.any_eq_true _ _).1 hrun
  rw [and_eq_true, and_eq_true, decide_eq_true_iff, decide_eq_true_iff] at hfacts
  refine ⟨s, _, Prod.ext hs rfl, fun hconf => ?_, hfacts.2.1, by decide +kernel, hfacts.2.2⟩
  exact absurd (hconf _ hfacts.1).2 (by decide)

end SubOS.Kernel
