import SubOS.Kernel.ElfConfined
import SubOS.Mm.VmOps

set_option autoImplicit false

/-!
# What the ELF loader leaves in user memory

For an image whose segments are inside the user range and do not overlap, a successful `elf_load`
leaves every segment as the image describes it. Segments may share pages, and a copy may cross
pages; both disappear in the view of the address space as user memory.

## Main definitions

* `Layout` — user memory with these segments and nothing else.

## Main results

* `loadHeader_run`, `elfLoad_content` — a round of the loop, and the contract of `elf_load`.
-/

namespace SubOS.Kernel

open Mm EventRun Space Elf64Phdr List UserMemory Nat Bool

variable {image : List UInt8} {eh : Elf64Ehdr} {l : Loader} {p : Elf64Phdr} {i : ℕ}

/-! ## Segments in user memory -/

/-- The program headers at some indices of the table. -/
def segmentsAt (image : List UInt8) (eh : Elf64Ehdr) (is : List ℕ) : List Elf64Phdr :=
  (is.filterMap fun i => phdrAt image (eh.phoff + i * phdrSize)).filter (·.loadable)

/-- The segments of an image that are loaded, in order. -/
def segmentsOf (image : List UInt8) : List Elf64Phdr :=
  (ehdrOf image).elim [] fun eh => segmentsAt image eh (List.range eh.phnum)

/-- The bytes that the image has for a segment. -/
def Elf64Phdr.data (p : Elf64Phdr) (image : List UInt8) : List UInt8 :=
  (image.drop p.offset).take p.filesz

/-- Put a segment into user memory. -/
def place (image : List UInt8) (u : UserMemory) (p : Elf64Phdr) : UserMemory :=
  (u.map (elfProtOf p.flags) (p.vaddr / 4096) (Space.pagesOf p.vaddr p.memsz)).put p.vaddr
    (p.data image)

structure Laid (image : List UInt8) (u : UserMemory) (p : Elf64Phdr) : Prop where
  /-- The bytes that the image has for it, -/
  file : ∀ i < p.filesz, ∃ b, image[p.offset + i]? = some b ∧ u.byte (p.vaddr + i) = some b
  /-- zeros behind them, -/
  zero : ∀ i, p.filesz ≤ i → i < p.memsz → u.byte (p.vaddr + i) = some 0
  /-- and pages with its rights. -/
  rights : ∀ i < Space.pagesOf p.vaddr p.memsz, ∃ pg, u (p.vaddr / 4096 + i) = some pg ∧
    pg.user = true ∧ ((elfProtOf p.flags).write = true → pg.writable = true)

/-- Two segments do not overlap. -/
def Elf64Phdr.Apart (p q : Elf64Phdr) : Prop :=
  p.vaddr + p.memsz ≤ q.vaddr ∨ q.vaddr + q.memsz ≤ p.vaddr
  deriving Decidable

/-- User memory with the segments `done` and nothing else. -/
structure Layout (image : List UInt8) (done : List Elf64Phdr) (u : UserMemory) : Prop where
  laid : ∀ p ∈ done, Laid image u p
  /-- Bytes outside the segments' file contents are 0. -/
  blank : ∀ a c, u.byte a = some c →
    c = 0 ∨ ∃ p ∈ done, p.vaddr ≤ a ∧ a < p.vaddr + p.filesz

lemma Layout.nil (image : List UInt8) : Layout image [] fun _ => none :=
  ⟨fun _ hp => (nomatch hp), fun _ _ h => (nomatch h)⟩

section Place

variable {u : UserMemory} {done : List Elf64Phdr} {q : Elf64Phdr}

lemma page_lt_pagesOf (hi : i < p.memsz) :
    p.vaddr / 4096 ≤ (p.vaddr + i) / vmPageSize ∧
      (p.vaddr + i) / vmPageSize < p.vaddr / 4096 + pagesOf p.vaddr p.memsz := by
  rw [vmPageSize, pagesOf]
  omega

lemma length_data (h : p.offset + p.filesz ≤ image.length) : (p.data image).length = p.filesz := by
  rw [data, length_take_of_le]
  rw [length_drop]
  omega

lemma byte_place (hlen : p.offset + p.filesz ≤ image.length) (a : ℕ) :
    (place image u p).byte a =
      ((u.map (elfProtOf p.flags) (p.vaddr / 4096) (pagesOf p.vaddr p.memsz)).byte a).map
        fun c => if p.vaddr ≤ a ∧ a < p.vaddr + p.filesz then
          (p.data image).getD (a - p.vaddr) 0 else c := by
  rw [place, byte_put, length_data hlen]

lemma byte_place_of_apart (hlen : p.offset + p.filesz ≤ image.length) (hsize : p.filesz ≤ p.memsz)
    {a : ℕ} {c : UInt8} (hc : u.byte a = some c) (ha : a < p.vaddr ∨ p.vaddr + p.memsz ≤ a) :
    (place image u p).byte a = some c := by
  rw [byte_place hlen, byte_map_of_some hc, Option.map_some, if_neg (by omega)]

attribute [local simp] UserPage.widen UserPage.put

lemma exists_place_of_some (image : List UInt8) (p : Elf64Phdr) {v : ℕ} {pg : UserPage}
    (h : u v = some pg) :
    ∃ pg', place image u p v = some pg' ∧ (pg.user = true → pg'.user = true) ∧
      (pg.writable = true → pg'.writable = true) := by
  unfold place put UserMemory.map
  split_ifs
  · rw [h]
    refine ⟨_, rfl, fun hu => ?_, fun hw => ?_⟩
    · simp [hu]
    · simp [hw]
  · rw [h]
    exact ⟨_, rfl, id, id⟩

lemma exists_place_of_page (hi : i < pagesOf p.vaddr p.memsz) :
    ∃ pg, place image u p (p.vaddr / 4096 + i) = some pg ∧ pg.user = true ∧
      ((elfProtOf p.flags).write = true → pg.writable = true) := by
  unfold place put UserMemory.map
  rw [if_pos (by omega)]
  cases u (p.vaddr / 4096 + i) with
  | none => exact ⟨_, rfl, rfl, id⟩
  | some pg =>
    refine ⟨_, rfl, ?_, fun hw => ?_⟩
    · simp [elfProtOf]
    · simp [hw]

lemma Laid.place (hlen : p.offset + p.filesz ≤ image.length) (hsize : p.filesz ≤ p.memsz)
    (hq : Laid image u q) (hqsize : q.filesz ≤ q.memsz) (hapart : q.Apart p) :
    Laid image (place image u p) q where
  file i hi := by
    obtain ⟨b, hb, hbyte⟩ := hq.file i hi
    refine ⟨b, hb, byte_place_of_apart hlen hsize hbyte ?_⟩
    rcases hapart with h | h
    · left
      omega
    · right
      omega
  zero i hlow hhigh := by
    refine byte_place_of_apart hlen hsize (hq.zero i hlow hhigh) ?_
    rcases hapart with h | h
    · left
      omega
    · right
      omega
  rights i hi := by
    obtain ⟨pg, hpg, huser, hwrite⟩ := hq.rights i hi
    obtain ⟨pg', hpg', huser', hwrite'⟩ := exists_place_of_some image p hpg
    exact ⟨pg', hpg', huser' huser, fun h => hwrite' (hwrite h)⟩

/-- The bytes of the pages of a segment before its own are copied there: 0 wherever no other segment
has put something. -/
lemma byte_map_segment (hu : Layout image done u) (hdone : ∀ q ∈ done, q.filesz ≤ q.memsz)
    (hapart : ∀ q ∈ done, q.Apart p) (hi : i < p.memsz) :
    (u.map (elfProtOf p.flags) (p.vaddr / 4096) (pagesOf p.vaddr p.memsz)).byte
      (p.vaddr + i) = some 0 := by
  obtain ⟨hlow, hhigh⟩ := page_lt_pagesOf hi
  cases hpage : u ((p.vaddr + i) / vmPageSize) with
  | none => exact byte_map_of_none hpage hlow hhigh
  | some pg =>
    have hbyte : u.byte (p.vaddr + i) = some (pg.data ((p.vaddr + i) % vmPageSize)) := by
      rw [byte, hpage]
      rfl
    have hzero : pg.data ((p.vaddr + i) % vmPageSize) = 0 := by
      rcases hu.blank _ _ hbyte with hzero | ⟨q, hq, hin⟩
      · exact hzero
      · have := hdone q hq
        rcases hapart q hq with h | h <;> omega
    rw [hzero] at hbyte
    exact byte_map_of_some hbyte

/-- **Putting one more segment into user memory.** -/
theorem Layout.place (hu : Layout image done u) (hlen : p.offset + p.filesz ≤ image.length)
    (hsize : p.filesz ≤ p.memsz) (hdone : ∀ q ∈ done, q.filesz ≤ q.memsz)
    (hapart : ∀ q ∈ done, q.Apart p) : Layout image (done ++ [p]) (place image u p) := by
  have hbefore : ∀ i < p.memsz, _ := fun i hi => byte_map_segment hu hdone hapart hi
  refine ⟨fun q hq => ?_, fun a c hc => ?_⟩
  · rcases mem_append.1 hq with hq | hq
    · exact (hu.laid q hq).place hlen hsize (hdone q hq) (hapart q hq)
    · rw [mem_singleton] at hq
      subst hq
      refine ⟨fun i hi => ?_, fun i hlow hhigh => ?_, fun i hi => exists_place_of_page hi⟩
      · have hdata : (q.data image)[i]? = image[q.offset + i]? := by
          rw [data, getElem?_take_of_lt hi, getElem?_drop]
        have hidx : q.offset + i < image.length := by omega
        refine ⟨image[q.offset + i], getElem?_eq_getElem hidx, ?_⟩
        rw [byte_place hlen, hbefore i (by omega), Option.map_some, if_pos (by omega),
          Nat.add_sub_cancel_left, getD_eq_getElem?_getD, hdata,
          getElem?_eq_getElem hidx, Option.getD_some]
      · rw [byte_place hlen, hbefore i hhigh, Option.map_some, if_neg (by omega)]
  · rw [byte_place hlen, Option.map_eq_some_iff] at hc
    obtain ⟨c', hc', rfl⟩ := hc
    split_ifs with hin
    · exact .inr ⟨p, by simp, hin.1, hin.2⟩
    · -- the byte was there before, or its page is new
      cases hpage : u (a / vmPageSize) with
      | some pg =>
        have hbyte : u.byte a = some (pg.data (a % vmPageSize)) := by
          rw [byte, hpage]
          rfl
        rw [byte_map_of_some hbyte, Option.some_inj] at hc'
        rcases hu.blank a _ (hc' ▸ hbyte) with hzero | ⟨q, hq, hin'⟩
        · exact .inl hzero
        · exact .inr ⟨q, mem_append_left _ hq, hin'⟩
      | none =>
        by_cases hmap : p.vaddr / 4096 ≤ a / vmPageSize ∧
            a / vmPageSize < p.vaddr / 4096 + pagesOf p.vaddr p.memsz
        · rw [byte_map_of_none hpage hmap.1 hmap.2, Option.some_inj] at hc'
          exact .inl hc'.symm
        · rw [byte_map_outside hmap, byte, hpage] at hc'
          exact nomatch hc'

lemma page_of_foldl_place (segs : List Elf64Phdr) :
    ∀ {u : UserMemory} {v : ℕ}, segs.foldl (place image) u v ≠ none →
      u v ≠ none ∨ ∃ p ∈ segs, p.vaddr / 4096 ≤ v ∧ v * 4096 < p.vaddr + p.memsz := by
  induction segs with
  | nil => exact .inl
  | cons p segs ih =>
    intro u v hv
    rcases ih hv with hplaced | ⟨q, hq, hin⟩
    · by_cases hmap : p.vaddr / 4096 ≤ v ∧
          v < p.vaddr / 4096 + pagesOf p.vaddr p.memsz
      · have hhigh := hmap.2
        rw [pagesOf] at hhigh
        exact .inr ⟨p, mem_cons_self, hmap.1, by omega⟩
      · left
        intro hnone
        refine hplaced ?_
        rw [place, put, UserMemory.map, if_neg hmap, hnone]
        rfl
    · exact .inr ⟨q, mem_cons_of_mem p hq, hin⟩

/-- **Putting segments into user memory one after the other.** -/
theorem Layout.foldl_place (rest : List Elf64Phdr) :
    ∀ {done : List Elf64Phdr} {u : UserMemory}, Layout image done u →
      (∀ p ∈ done ++ rest, p.offset + p.filesz ≤ image.length ∧ p.filesz ≤ p.memsz) →
      (done ++ rest).Pairwise Elf64Phdr.Apart →
      Layout image (done ++ rest) (rest.foldl (Kernel.place image) u) := by
  induction rest with
  | nil =>
    intro done u hu _ _
    rwa [append_nil]
  | cons p rest ih =>
    intro done u hu hfit hapart
    have hp := hfit p (by simp)
    have hlist : done ++ p :: rest = done ++ [p] ++ rest := append_cons ..
    have hstep : Layout image (done ++ [p]) (Kernel.place image u p) := by
      refine hu.place hp.1 hp.2 (fun q hq => (hfit q (mem_append_left _ hq)).2) ?_
      intro q hq
      exact (pairwise_append.1 hapart).2.2 q hq p mem_cons_self
    rw [hlist] at hfit hapart ⊢
    exact ih hstep hfit hapart

end Place

/-! ## The loop puts the segments into user memory -/

section Run

variable {m₀ : ByteMemory} {p₀ : Pmm}

lemma copySegment_of_write {ok : Bool} {s₁ : Space} (hzero : p.filesz ≠ 0)
    (hlen : p.offset + p.filesz ≤ image.length)
    (hwrite : l.space.write p.vaddr (p.data image) = (ok, s₁)) :
    copySegment image l p =
      if ok then { l with space := s₁ } else { l with space := s₁ }.fail .nomem := by
  have hbytes : bytesAt image p.offset p.filesz = some (p.data image) := bytesAt_of_le hlen
  rw [copySegment, if_neg hzero, hbytes]
  dsimp only
  rw [hwrite]

lemma copySegment_spec (ho : Owns m₀ p₀ l.space) (hrun : l.status = .running)
    (hlen : p.offset + p.filesz ≤ image.length) (hin : InUser p.vaddr p.filesz) :
    Owns m₀ p₀ (copySegment image l p).space ∧
      (copySegment image l p).status ≠ .overrun ∧
      (copySegment image l p).brk = l.brk ∧
      (copySegment image l p).entryMapped = l.entryMapped ∧
      ((copySegment image l p).status = .running →
        (copySegment image l p).space.view = l.space.view.put p.vaddr (p.data image)) := by
  by_cases hzero : p.filesz = 0
  · have hnothing : copySegment image l p = l := by rw [copySegment, if_pos hzero]
    rw [hnothing]
    refine ⟨ho, ?_, rfl, rfl, fun _ => ?_⟩
    · rw [hrun]
      exact Status.noConfusion
    · rw [data, hzero, take_zero, put_nil]
  · rcases hwrite : l.space.write p.vaddr (p.data image) with ⟨ok, s₁⟩
    have hin' : InUser p.vaddr (p.data image).length := by rwa [length_data hlen]
    obtain ⟨k, -, hput, hall⟩ := ho.write_spec hin' hwrite
    rw [copySegment_of_write hzero hlen hwrite]
    cases ok with
    | false => exact ⟨hput.owns, Status.noConfusion, rfl, rfl, Status.noConfusion⟩
    | true =>
      refine ⟨hput.owns, ?_, rfl, rfl, fun _ => ?_⟩
      · exact fun h => Status.noConfusion (hrun.symm.trans h)
      · have hview := hput.view
        rw [hall rfl, take_length] at hview
        exact hview

/-- A segment inside the user range keeps the address space in order; if the loop goes on, the
segment has been put into user memory and counted. -/
lemma loadSegment_spec (image : List UInt8) (hp : p₀.Reserved) (ho : Owns m₀ p₀ l.space)
    (hrun : l.status = .running) (hload : p.loadable = true)
    (hhigh : p.vaddr + p.memsz ≤ userLimit) (entry : ℕ) :
    Owns m₀ p₀ (loadSegment image entry l p).space ∧
      (loadSegment image entry l p).status ≠ .overrun ∧
      ((loadSegment image entry l p).status = .running →
        p.check image.length = none ∧
        (loadSegment image entry l p).space.view = place image l.space.view p ∧
        (loadSegment image entry l p).brk = max l.brk (p.vaddr + p.memsz) ∧
        (loadSegment image entry l p).entryMapped =
          (l.entryMapped || decide (p.vaddr ≤ entry ∧ entry < p.vaddr + p.memsz))) := by
  rw [loadSegment, hload]
  cases hcheck : p.check image.length with
  | some e => exact ⟨ho, Status.noConfusion, Status.noConfusion⟩
  | none =>
    obtain ⟨hfile, hlen, hlow, -⟩ := check_eq_none hcheck
    have hin : InUser p.vaddr p.memsz := ⟨hlow, hhigh⟩
    have hend : (p.vaddr + p.memsz) % 2 ^ 64 = p.vaddr + p.memsz := by
      rw [userLimit] at hhigh
      exact mod_eq_of_lt (by omega)
    rcases halloc : l.space.alloc p.vaddr p.memsz (elfProtOf p.flags) with ⟨ok, s₁⟩
    obtain ⟨k, -, hmaps, hall⟩ := ho.alloc_spec hp hin halloc
    cases ok with
    | false => exact ⟨hmaps.owns, Status.noConfusion, Status.noConfusion⟩
    | true =>
      simp only [Bool.not_true, false_eq_true, if_false]
      have hin' : InUser p.vaddr p.filesz := ⟨hin.low, le_trans (by omega) hin.high⟩
      obtain ⟨ho', hover, hbrk, hentry, hview⟩ :=
        copySegment_spec (l := { l with space := s₁ }) hmaps.owns hrun hlen hin'
      split_ifs with hgo
      · refine ⟨ho', fun h => Status.noConfusion (hgo.symm.trans h), fun _ => ⟨trivial, ?_, ?_, ?_⟩⟩
        · have hplace := hview hgo
          rw [hmaps.view, hall rfl] at hplace
          exact hplace
        · simp only [countSegment, hend, hbrk]
          split_ifs <;> omega
        · simp only [countSegment, hend, hentry, decide_and, ge_iff_le]
      · exact ⟨ho', hover, fun h => absurd h hgo⟩

lemma run_of_not_running (h : l.status ≠ .running) (is : List ℕ) :
    run (loadHeader image eh) l is = l := by
  induction is with
  | nil => rfl
  | cons i is ih =>
    rw [run_cons, loadHeader, if_neg h]
    exact ih

/-- **The loop of `elf_load`**, over some of the program headers: the address space stays in order,
and if the loop comes to its end, the segments have been put into user memory and counted. -/
theorem loadHeader_run (hp : p₀.Reserved) (is : List ℕ) :
    ∀ {l : Loader}, Owns m₀ p₀ l.space → l.status = .running →
      (∀ i ∈ is, ∃ p, phdrAt image (eh.phoff + i * phdrSize) = some p) →
      (∀ p ∈ segmentsAt image eh is, p.vaddr + p.memsz ≤ userLimit) →
      Owns m₀ p₀ (run (loadHeader image eh) l is).space ∧
        ((run (loadHeader image eh) l is).status = .running →
          (∀ p ∈ segmentsAt image eh is, p.check image.length = none) ∧
          (run (loadHeader image eh) l is).space.view =
            (segmentsAt image eh is).foldl (place image) l.space.view ∧
          (run (loadHeader image eh) l is).brk =
            (segmentsAt image eh is).foldl (fun b p => max b (p.vaddr + p.memsz)) l.brk ∧
          (run (loadHeader image eh) l is).entryMapped =
            (l.entryMapped || (segmentsAt image eh is).any fun p =>
              decide (p.vaddr ≤ eh.entry ∧ eh.entry < p.vaddr + p.memsz))) := by
  induction is with
  | nil =>
    intro l ho _ _ _
    refine ⟨ho, fun _ => ⟨fun _ hp => (nomatch hp), rfl, rfl, ?_⟩⟩
    exact (Bool.or_false _).symm
  | cons i is ih =>
    intro l ho hrun hread hin
    obtain ⟨p, hphdr⟩ := hread i mem_cons_self
    have hread' : ∀ j ∈ is, ∃ p, phdrAt image (eh.phoff + j * phdrSize) = some p :=
      fun j hj => hread j (mem_cons_of_mem i hj)
    have hround : loadHeader image eh l i = loadSegment image eh.entry l p := by
      rw [loadHeader, if_pos hrun, hphdr]
    rw [run_cons, hround]
    cases hload : p.loadable with
    | false =>
      have hskip : loadSegment image eh.entry l p = l := by
        rw [loadSegment, hload]
        rfl
      have hsegs : segmentsAt image eh (i :: is) = segmentsAt image eh is := by
        simp [segmentsAt, hphdr, hload]
      rw [hskip, hsegs]
      rw [hsegs] at hin
      exact ih ho hrun hread' hin
    | true =>
      have hsegs : segmentsAt image eh (i :: is) = p :: segmentsAt image eh is := by
        simp [segmentsAt, hphdr, hload]
      rw [hsegs, forall_mem_cons] at hin
      obtain ⟨ho', -, hnext⟩ := loadSegment_spec image hp ho hrun hload hin.1 eh.entry
      by_cases hgo : (loadSegment image eh.entry l p).status = .running
      · obtain ⟨hcheck, hview, hbrk, hentry⟩ := hnext hgo
        obtain ⟨howns, hrest⟩ := ih ho' hgo hread' hin.2
        refine ⟨howns, fun hend => ?_⟩
        obtain ⟨hchecks, hview', hbrk', hentry'⟩ := hrest hend
        rw [hsegs]
        refine ⟨forall_mem_cons.2 ⟨hcheck, hchecks⟩, ?_, ?_, ?_⟩
        · rw [hview', hview]
          rfl
        · rw [hbrk', hbrk]
          rfl
        · rw [hentry', hentry, Bool.or_assoc]
          rfl
      · rw [run_of_not_running hgo]
        exact ⟨ho', fun h => absurd h hgo⟩

end Run

/-! ## The whole function -/

lemma phdrs_readable (h : elfCheckHeader image = some (.ok eh)) (hi : i < eh.phnum) :
    ∃ p, phdrAt image (eh.phoff + i * phdrSize) = some p :=
  phdrAt_isSome (phdrs_inside (elfCheckHeader_ok h).2 hi)

lemma loadHeader_not_overrun (hl : l.status ≠ .overrun)
    (hread : ∃ p, phdrAt image (eh.phoff + i * phdrSize) = some p) :
    (loadHeader image eh l i).status ≠ .overrun := by
  obtain ⟨p, hp⟩ := hread
  by_cases hrun : l.status = .running
  · rw [loadHeader, if_pos hrun, hp]
    dsimp only
    unfold loadSegment
    split_ifs
    · exact hl
    · cases hcheck : p.check image.length with
      | some e => exact Status.noConfusion
      | none =>
        obtain ⟨-, hlen, -, -⟩ := check_eq_none hcheck
        rcases l.space.alloc p.vaddr p.memsz (elfProtOf p.flags) with ⟨_ | _, s₁⟩
        · exact Status.noConfusion
        · have hcopy : (copySegment image { l with space := s₁ } p).status ≠ .overrun := by
            by_cases hzero : p.filesz = 0
            · rw [copySegment, if_pos hzero]
              exact hl
            · rcases hwrite : s₁.write p.vaddr (p.data image) with ⟨_ | _, s₂⟩
              · rw [copySegment_of_write hzero hlen hwrite]
                exact Status.noConfusion
              · rw [copySegment_of_write hzero hlen hwrite]
                exact hl
          simp only [Bool.not_true, false_eq_true, if_false]
          split_ifs
          · exact hcopy
          · exact hcopy
  · rw [loadHeader, if_neg hrun]
    exact hl

/-- **No byte outside the image is read.** -/
theorem elfLoad_not_overrun (image : List UInt8) (s : Space) : (elfLoad image s).1 ≠ .overrun := by
  unfold elfLoad
  rcases hheader : elfCheckHeader image with _ | (e | eh)
  · -- a header that is long enough can be read
    unfold elfCheckHeader at hheader
    split_ifs at hheader with hshort
    obtain ⟨eh, heh⟩ := ehdrOf_isSome (not_lt.1 hshort)
    rw [heh] at hheader
    exact nomatch hheader
  · exact Loaded.noConfusion
  · have hloop : (loadLoop image eh s).status ≠ .overrun := by
      have hstep : ∀ (l : Loader) (i : ℕ), l.status ≠ .overrun → i < eh.phnum →
          (loadHeader image eh l i).status ≠ .overrun :=
        fun l i hl hi => loadHeader_not_overrun hl (phdrs_readable hheader hi)
      have halong : Along (loadHeader image eh) (fun _ i => i < eh.phnum) (.start s)
          (range eh.phnum) := along_of_mem fun i hi => mem_range.1 hi
      exact run_invariant_of_along hstep Status.noConfusion halong
    dsimp only [Loader.finish]
    cases hstatus : (loadLoop image eh s).status with
    | overrun => exact absurd hstatus hloop
    | failed e => exact Loaded.noConfusion
    | running =>
      split_ifs <;> exact Loaded.noConfusion

lemma foldl_max_spec (segs : List Elf64Phdr) :
    ∀ b : ℕ, b ≤ segs.foldl (fun b p => max b (p.vaddr + p.memsz)) b ∧
      (∀ p ∈ segs, p.vaddr + p.memsz ≤ segs.foldl (fun b p => max b (p.vaddr + p.memsz)) b) ∧
      (segs.foldl (fun b p => max b (p.vaddr + p.memsz)) b = b ∨
        ∃ p ∈ segs, segs.foldl (fun b p => max b (p.vaddr + p.memsz)) b = p.vaddr + p.memsz) := by
  induction segs with
  | nil => exact fun b => ⟨le_refl b, fun _ hp => (nomatch hp), .inl rfl⟩
  | cons p segs ih =>
    intro b
    obtain ⟨hge, hall, hone⟩ := ih (max b (p.vaddr + p.memsz))
    rw [foldl_cons]
    refine ⟨by omega, forall_mem_cons.2 ⟨by omega, hall⟩, ?_⟩
    rcases hone with heq | ⟨q, hq, heq⟩
    · rcases le_total b (p.vaddr + p.memsz) with hle | hle
      · exact .inr ⟨p, mem_cons_self, by omega⟩
      · exact .inl (by omega)
    · exact .inr ⟨q, mem_cons_of_mem p hq, heq⟩

/-- What a successful `elf_load` leaves, whether segments overlap or not. -/
structure ElfPlaced (image : List UInt8) (entry brk : ℕ) (u : UserMemory) : Prop where
  fits : ∀ p ∈ segmentsOf image, p.check image.length = none
  view : u = (segmentsOf image).foldl (place image) fun _ => none
  entry : ∃ p ∈ segmentsOf image, p.vaddr ≤ entry ∧ entry < p.vaddr + p.memsz
  /-- The break is the end of the last segment, rounded up to a page. -/
  brk : ∃ top, (∃ p ∈ segmentsOf image, top = p.vaddr + p.memsz) ∧
    (∀ p ∈ segmentsOf image, p.vaddr + p.memsz ≤ top) ∧ brk = (top + 4095) / 4096 * 4096

/-- **A successful `elf_load`** on a new address space puts the segments of the image there. -/
theorem elfLoad_placed {m₀ : ByteMemory} {p₀ p₁ : Pmm} {s s' : Space} {entry brk : ℕ}
    (hp : p₀.Reserved) (hcreate : create m₀ p₀ = (some s, p₁))
    (hhigh : ∀ p ∈ segmentsOf image, p.vaddr + p.memsz ≤ userLimit)
    (hload : elfLoad image s = (.ok entry brk, s')) :
    Owns m₀ p₀ s' ∧ ElfPlaced image entry brk s'.view := by
  obtain ⟨ho, hview, -, -⟩ := create_spec hp hcreate
  unfold elfLoad at hload
  rcases hheader : elfCheckHeader image with _ | (e | eh)
  · rw [hheader] at hload
    exact nomatch (Prod.mk.inj hload).1
  · rw [hheader] at hload
    exact nomatch (Prod.mk.inj hload).1
  · rw [hheader] at hload
    have hsegs : segmentsOf image = segmentsAt image eh (range eh.phnum) := by
      rw [segmentsOf, (elfCheckHeader_ok hheader).1]
      rfl
    rw [hsegs] at hhigh
    obtain ⟨howns, hend⟩ := loadHeader_run (l := .start s) hp (range eh.phnum) ho rfl
      (fun i hi => phdrs_readable hheader (mem_range.1 hi)) hhigh
    obtain ⟨hfinish, rfl⟩ := Prod.mk.inj hload
    unfold Loader.finish at hfinish
    cases hstatus : (loadLoop image eh s).status with
    | failed e | overrun =>
      rw [hstatus] at hfinish
      exact nomatch hfinish
    | running =>
      rw [hstatus] at hfinish
      split_ifs at hfinish with hbrk hmapped
      obtain ⟨rfl, hbrk'⟩ := Loaded.ok.inj hfinish
      obtain ⟨hchecks, hview', htop, hentry⟩ := hend hstatus
      change (loadLoop image eh s).space.view = foldl _ s.view _ at hview'
      change (loadLoop image eh s).entryMapped = _ at hentry
      change (loadLoop image eh s).brk =
        foldl (fun b (p : Elf64Phdr) => max b (p.vaddr + p.memsz)) 0 _ at htop
      refine ⟨howns, ⟨?_, ?_, ?_, ?_⟩⟩
      · rw [hsegs]
        exact hchecks
      · rw [hview', hview, hsegs]
      · rw [hsegs]
        rw [hentry] at hmapped
        simpa [Loader.start] using hmapped
      · obtain ⟨-, hmax, hone⟩ :=
          foldl_max_spec (segmentsAt image eh (range eh.phnum)) 0
        rw [← htop] at hmax hone
        rcases hone with hzero | ⟨p, hp', heq⟩
        · exact absurd hzero hbrk
        · refine ⟨(loadLoop image eh s).brk, ⟨p, hsegs ▸ hp', heq⟩, ?_, ?_⟩
          · rw [hsegs]
            exact hmax
          · have hlimit := hhigh p hp'
            rw [userLimit] at hlimit
            have hsmall : (loadLoop image eh s).brk + 4096 - 1 < 2 ^ 64 := by omega
            rw [← hbrk', pageDown, vmPageSize, mod_eq_of_lt hsmall]
            omega

lemma ElfPlaced.layout {entry brk : ℕ} {u : UserMemory} (h : ElfPlaced image entry brk u)
    (hapart : (segmentsOf image).Pairwise Elf64Phdr.Apart) : Layout image (segmentsOf image) u := by
  rw [h.view]
  refine .foldl_place _ (.nil image) (fun p hp => ?_) hapart
  obtain ⟨hfile, hlen, -, -⟩ := check_eq_none (h.fits p hp)
  exact ⟨hlen, hfile⟩

/-- **The contract of `elf_load`.** For every image, no byte outside it is read; and for every image
whose segments are in the user range and do not overlap, a new address space into which it has been
loaded has every segment as the image describes it, the entry point is in one of them, and the break
is the end of the last one, rounded up to a page. -/
theorem elfLoad_content (image : List UInt8) (s : Space) :
    (elfLoad image s).1 ≠ .overrun ∧
      ∀ (m₀ : ByteMemory) (p₀ p₁ : Pmm) (entry brk : ℕ) (s' : Space), p₀.Reserved →
        Space.create m₀ p₀ = (some s, p₁) →
        (∀ p ∈ segmentsOf image, Space.InUser p.vaddr p.memsz) →
        (segmentsOf image).Pairwise Elf64Phdr.Apart →
        elfLoad image s = (.ok entry brk, s') →
          (∀ p ∈ segmentsOf image, Laid image s'.view p) ∧
          (∃ p ∈ segmentsOf image, p.vaddr ≤ entry ∧ entry < p.vaddr + p.memsz) ∧
          ∃ top, (∃ p ∈ segmentsOf image, top = p.vaddr + p.memsz) ∧
            (∀ p ∈ segmentsOf image, p.vaddr + p.memsz ≤ top) ∧
            brk = (top + 4095) / 4096 * 4096 := by
  refine ⟨elfLoad_not_overrun image s, ?_⟩
  intro m₀ p₀ p₁ entry brk s' hp hcreate hin hapart hload
  obtain ⟨-, hplaced⟩ := elfLoad_placed hp hcreate (fun p hp' => (hin p hp').high) hload
  exact ⟨(hplaced.layout hapart).laid, hplaced.entry, hplaced.brk⟩

/-- An image with two segments on one page: code, and behind it data that goes on to the next page.
-/
def twoSegments : List UInt8 :=
  imageOf (userBase + 0x1000)
    [⟨ptLoad, 5, 176, userBase + 0x1000, 4, 8⟩, ⟨ptLoad, 6, 180, userBase + 0x1010, 2, 0x1000⟩]
    [0x90, 0x90, 0xEB, 0xFC, 0x2A, 0x2B]

/-- Both are laid out, and the break is behind the second page. -/
theorem elfLoad_content_shared : ∃ s s' p₁, Space.create bootMemory bootPmm = (some s, p₁) ∧
    elfLoad twoSegments s = (.ok (userBase + 0x1000) (userBase + 0x3000), s') ∧
    (∀ p ∈ segmentsOf twoSegments, Laid twoSegments s'.view p) ∧
    (segmentsOf twoSegments).length = 2 := by
  have hrun : (create bootMemory bootPmm).1.any (fun s =>
      decide ((elfLoad twoSegments s).1 = .ok (userBase + 0x1000) (userBase + 0x3000))) = true := by
    decide +kernel
  have hin : ∀ p ∈ segmentsOf twoSegments, userBase ≤ p.vaddr ∧ p.vaddr + p.memsz ≤ userLimit := by
    decide +kernel
  obtain ⟨s, hs, hok⟩ := (Option.any_eq_true _ _).1 hrun
  rw [decide_eq_true_iff] at hok
  have hload : elfLoad twoSegments s =
      (.ok (userBase + 0x1000) (userBase + 0x3000), (elfLoad twoSegments s).2) := by rw [← hok]
  have hcreate : create bootMemory bootPmm = (some s, (create bootMemory bootPmm).2) :=
    Prod.ext hs rfl
  refine ⟨s, _, _, hcreate, hload, ?_, by decide +kernel⟩
  exact ((elfLoad_content twoSegments s).2 _ _ _ _ _ _ ⟨by decide, by decide⟩ hcreate
    (fun p hp => ⟨(hin p hp).1, (hin p hp).2⟩) (by decide +kernel) hload).1

end SubOS.Kernel
