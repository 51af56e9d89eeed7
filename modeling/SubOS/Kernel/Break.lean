import SubOS.Kernel.ElfContent

set_option autoImplicit false

/-!
# The break of a process

`sys_brk` moves the end of the heap of a process. Below the stack and above the image the heap grows
by pages of zeros; when it shrinks, its pages stay mapped, and when it grows again they come back
with what the process has left in them.

## Main definitions

* `BreakInv` — what holds between two calls.

## Main results

* `break_run` — the break in every run of a process.
* `regrown_dirty` — a page that comes back with its old contents.
-/

namespace SubOS.Kernel

open Mm EventRun Nat Space UserMemory UserPage Option Uproc

/-- The lowest address of the stack, `USER_STACK_TOP - USER_STACK_PAGES * VM_PAGE_SIZE`. -/
def brkLimit : ℕ := userStackTop - userStackPages * vmPageSize

/-- The address space of a process is in order. -/
def OwnedSpace (s : Space) : Prop := ∃ m₀ p₀, Pmm.Reserved p₀ ∧ Space.Owns m₀ p₀ s

/-- The break is in its range, and the pages between its start and its end are there, for the user
and writable. -/
structure BreakOk (u : Uproc) : Prop where
  low : u.brkStart ≤ u.brk
  high : u.brk ≤ brkLimit
  pages : ∀ v, u.brkStart ≤ v * 4096 → v * 4096 < (u.brk + 4095) / 4096 * 4096 →
    ∃ pg, u.space.view v = some pg ∧ pg.user = true ∧ pg.writable = true

/-- A page between two breaks, each rounded up to a page. -/
def Gained (old new v : ℕ) : Prop :=
  (old + 4095) / 4096 * 4096 ≤ v * 4096 ∧ v * 4096 < (new + 4095) / 4096 * 4096

/-- A call that raises the break adds pages of zeros. -/
def RaisedZero (u : Uproc) (c : Call) : Prop :=
  u.brk < (u.call c).brk → ∀ v, Gained u.brk (u.call c).brk v → ∀ k < 4096,
    (u.call c).space.view.byte (v * 4096 + k) = some 0

/-- A call of `sys_brk` gives the process back a page that it has stored to. -/
def Regains (u : Uproc) (addr : ℕ) : Prop := ∃ v ∈ u.stored, Gained u.brk addr v

/-- Moving the break without getting a page back, stores of the process in the user range, where all
its memory is, and anything of the kernel that leaves the memory of the process alone. -/
def Steady (u : Uproc) : Call → Prop
  | .brk addr => ¬ Regains u addr
  | .store a _ => userBase ≤ a ∧ a < userLimit
  | .kernel mem pmm => OwnedSpace { u.space with mem := mem, pmm := pmm } ∧
      Space.view { u.space with mem := mem, pmm := pmm } = u.space.view
  | .read _ _ _ => False
  | .copyToUser _ _ => False

/-- What holds between two calls: the address space is in order, the break is aligned at its start,
and the pages between image and stack that the process has not stored to hold zeros. -/
structure BreakInv (u : Uproc) : Prop where
  owned : OwnedSpace u.space
  aligned : u.brkStart % 4096 = 0
  base : userBase ≤ u.brkStart
  ok : BreakOk u
  clean : ∀ v pg, u.brkStart ≤ v * 4096 → v * 4096 < brkLimit → v ∉ u.stored →
    u.space.view v = some pg → ∀ k < 4096, pg.data k = 0

/-! ## Calls -/

variable {s : Space} {m₀ : ByteMemory} {p₀ : Pmm}

section Calls

variable {u : Uproc} {m : UserMemory} {v n b a w : ℕ} {prot : Prot}

lemma lt_roundUp_of_lt (h : ¬ b / 4096 ≤ v) : v * 4096 < (b + 4095) / 4096 * 4096 := by
  omega

lemma lt_roundUp_of_le (h : v * 4096 < (a + 4095) / 4096 * 4096) (hab : a ≤ b) :
    v * 4096 < (b + 4095) / 4096 * 4096 :=
  Nat.lt_of_lt_of_le h (Nat.mul_le_mul_right _ (Nat.div_le_div_right (Nat.add_le_add_right hab _)))

lemma Gained.page {old new : ℕ} (h : Gained old new v) :
    (old / 4096 ≤ v ∧ v < old / 4096 + ((new + 4095) / 4096 - old / 4096)) ∧ old ≤ v * 4096 := by
  obtain ⟨hlow, hhigh⟩ := h
  omega

lemma pagesOf_brk {old new : ℕ} (h : old ≤ new) :
    pagesOf old (new - old) = (new + 4095) / 4096 - old / 4096 := by
  rw [pagesOf, Nat.add_sub_cancel' h]

lemma inUser_brk (h : BreakInv u) {addr : ℕ} (hlow : u.brk < addr) (hhigh : addr ≤ brkLimit) :
    InUser u.brk (addr - u.brk) := by
  have hbase := h.base
  have hstart := h.ok.low
  have hlimit : brkLimit ≤ userLimit := by decide
  exact ⟨by omega, by omega⟩

lemma map_of_some (prot : Prot) (v n : ℕ) {pg : UserPage} (h : m w = some pg) :
    ∃ pg', m.map prot v n w = some pg' ∧ (pg.user = true → pg'.user = true) ∧
      (pg.writable = true → pg'.writable = true) ∧ pg'.data = pg.data := by
  unfold map
  split_ifs
  · rw [h]
    refine ⟨_, rfl, fun hu => ?_, fun hw => ?_, rfl⟩
    · simp [widen, hu]
    · simp [widen, hw]
  · exact ⟨pg, h, id, id, rfl⟩

lemma map_of_mem (h : v ≤ w ∧ w < v + n) :
    ∃ pg, m.map protReadWrite v n w = some pg ∧ pg.user = true ∧ pg.writable = true := by
  unfold map
  rw [if_pos h]
  cases m w with
  | none => exact ⟨_, rfl, rfl, rfl⟩
  | some pg => exact ⟨_, rfl, by simp [widen, protReadWrite],
      by simp [widen, protReadWrite]⟩

/-- A page after mapping a range was there before with the same bytes, or is blank. -/
lemma data_of_map {pg : UserPage} (h : m.map prot v n w = some pg) :
    (∃ pg', m w = some pg' ∧ pg.data = pg'.data) ∨ ∀ k, pg.data k = 0 := by
  unfold map at h
  split_ifs at h
  · cases hw : m w with
    | none =>
      rw [hw] at h
      right
      rw [← some_inj.1 h]
      exact fun k => rfl
    | some pg' =>
      rw [hw] at h
      left
      rw [← some_inj.1 h]
      exact ⟨pg', rfl, rfl⟩
  · exact .inl ⟨pg, h, rfl⟩

/-- The invariant after some pages have been mapped and the break has been moved to a place that is
in order. -/
lemma BreakInv.of_map (h : BreakInv u) (howned : OwnedSpace s)
    (hview : s.view = u.space.view.map prot v n)
    (hok : BreakOk { u with space := s, brk := b }) : BreakInv { u with space := s, brk := b } where
  owned := howned
  aligned := h.aligned
  base := h.base
  ok := hok
  clean := by
    intro w pg hlow hhigh hstored hpg k hk
    rw [hview] at hpg
    rcases data_of_map hpg with ⟨pg', hpg', hdata⟩ | hzero
    · rw [hdata]
      exact h.clean w pg' hlow hhigh hstored hpg' k hk
    · exact hzero k

lemma BreakOk.of_map (h : BreakOk u)
    (hview : s.view = u.space.view.map prot v n) : BreakOk { u with space := s } where
  low := h.low
  high := h.high
  pages := by
    intro w hlow hhigh
    obtain ⟨pg, hpg, huser, hwrite⟩ := h.pages w hlow hhigh
    obtain ⟨pg', hpg', huser', hwrite', -⟩ := map_of_some prot v n hpg
    refine ⟨pg', ?_, huser' huser, hwrite' hwrite⟩
    rw [hview]
    exact hpg'

/-- What `sys_brk` can do: nothing, map some pages and fail, move the break down, or map all pages
and move it up. -/
lemma sysBrk_cases (h : BreakInv u) (addr : ℕ) :
    (u.sysBrk addr).2 = u ∨
    (∃ s k, OwnedSpace s ∧ s.view = u.space.view.map protReadWrite (u.brk / 4096) k ∧
      (u.sysBrk addr).2 = { u with space := s }) ∨
    (u.brkStart ≤ addr ∧ addr ≤ u.brk ∧ (u.sysBrk addr).2 = { u with brk := addr }) ∨
    (u.brk < addr ∧ addr ≤ brkLimit ∧ ∃ s, OwnedSpace s ∧
      s.view = u.space.view.map protReadWrite (u.brk / 4096) ((addr + 4095) / 4096 - u.brk / 4096) ∧
      (u.sysBrk addr).2 = { u with space := s, brk := addr }) := by
  unfold sysBrk
  split_ifs with hstart hlimit hgrow
  · exact .inl rfl
  · exact .inl rfl
  · have hhigh : addr ≤ brkLimit := not_lt.1 hlimit
    obtain ⟨m₀, p₀, hp, ho⟩ := h.owned
    rcases halloc : u.space.alloc u.brk (addr - u.brk) protReadWrite with ⟨ok, s⟩
    obtain ⟨k, -, hmaps, hall⟩ := ho.alloc_spec hp (inUser_brk h hgrow hhigh) halloc
    cases ok with
    | false => exact .inr (.inl ⟨s, k, ⟨m₀, p₀, hp, hmaps.owns⟩, hmaps.view, rfl⟩)
    | true =>
      refine .inr (.inr (.inr ⟨hgrow, hhigh, s, ⟨m₀, p₀, hp, hmaps.owns⟩, ?_, rfl⟩))
      rw [hmaps.view, hall rfl, pagesOf_brk (le_of_lt hgrow)]
  · exact .inr (.inr (.inl ⟨by omega, by omega, rfl⟩))

lemma BreakInv.breakOk_grow (h : BreakInv u) {addr : ℕ} (hlow : u.brk < addr)
    (hhigh : addr ≤ brkLimit) (hview : s.view = u.space.view.map protReadWrite (u.brk / 4096)
      ((addr + 4095) / 4096 - u.brk / 4096)) : BreakOk { u with space := s, brk := addr } where
  low := le_of_lt (lt_of_le_of_lt h.ok.low hlow)
  high := hhigh
  pages := by
    intro v hstart hend
    change v * 4096 < (addr + 4095) / 4096 * 4096 at hend
    rw [hview]
    by_cases hnew : u.brk / 4096 ≤ v
    · exact map_of_mem ⟨hnew, by omega⟩
    · obtain ⟨pg, hpg, huser, hwrite⟩ := h.ok.pages v hstart (lt_roundUp_of_lt hnew)
      obtain ⟨pg', hpg', huser', hwrite', -⟩ := map_of_some protReadWrite
        (u.brk / 4096) ((addr + 4095) / 4096 - u.brk / 4096) hpg
      exact ⟨pg', hpg', huser' huser, hwrite' hwrite⟩

lemma put_of_outside {l : List UInt8}
    (h : ∀ k < 4096, ¬ (a ≤ v * 4096 + k ∧ v * 4096 + k < a + l.length)) : m.put a l v = m v := by
  cases hv : m v with
  | none => rw [UserMemory.put, hv, Option.map_none]
  | some pg =>
    rw [UserMemory.put, hv, Option.map_some, Option.some_inj]
    refine UserPage.ext rfl rfl (funext fun k => if_neg ?_)
    rintro ⟨hk, hin⟩
    exact h k hk hin

lemma exists_page_of_writable (ho : Owns m₀ p₀ s)
    (hv : IsUserPage v) (h : pageWritable s (v * 4096) = true) : ∃ pg, s.view v = some pg := by
  unfold pageWritable at h
  rw [ho.walk_false hv] at h
  cases ht : s.node (tables v) with
  | none =>
    rw [ht] at h
    exact nomatch h
  | some t =>
    rw [ht] at h
    simp only [map_some, Bool.and_eq_true] at h
    exact ⟨_, by rw [view_of_node hv ht, pageOf, if_pos h.1.1]⟩

lemma BreakInv.store (h : BreakInv u) (ha : IsUserPage (a / 4096)) (b : UInt8) :
    BreakInv (u.store a b) := by
  unfold Uproc.store
  split_ifs with hwritable
  · obtain ⟨m₀, p₀, hp, ho⟩ := h.owned
    obtain ⟨pg, hpg⟩ := exists_page_of_writable ho ha hwritable
    have haddr : a / 4096 * 4096 + a % 4096 = a := Nat.div_add_mod' a 4096
    have hoff : a % 4096 < 4096 := Nat.mod_lt _ (by decide)
    obtain ⟨-, hput⟩ := ho.put_page (l := [b]) hoff hoff hpg u.space.touched
    rw [haddr] at hput
    refine ⟨⟨m₀, p₀, hp, hput.owns⟩, h.aligned, h.base, ⟨h.ok.low, h.ok.high, ?_⟩, ?_⟩
    · intro v hlow hhigh
      obtain ⟨pg', hpg', hrights⟩ := h.ok.pages v hlow hhigh
      refine ⟨pg'.put v a [b], ?_, hrights⟩
      exact (congrFun hput.view v).trans (UserMemory.put_eq_some.2 ⟨pg', hpg', rfl⟩)
    · intro v pg' hlow hhigh hstored hpg'
      have hne : v ≠ a / 4096 ∧ v ∉ u.stored := by
        rw [List.mem_cons, not_or] at hstored
        exact hstored
      have hother : u.space.view.put a [b] v = u.space.view v := by
        refine put_of_outside fun k hk hin => hne.1 ?_
        rw [List.length_singleton] at hin
        omega
      refine h.clean v pg' hlow hhigh hne.2 ?_
      rw [← hother]
      exact (congrFun hput.view v).symm.trans hpg'
  · exact h

/-- **Every call keeps the break in order.** -/
theorem BreakInv.call (h : BreakInv u) {c : Call} (hc : Steady u c) : BreakInv (u.call c) := by
  cases c with
  | brk addr =>
    rcases sysBrk_cases h addr with heq | ⟨s, k, howned, hview, heq⟩ | ⟨hlow, hhigh, heq⟩ |
        ⟨hlow, hhigh, s, howned, hview, heq⟩
    · rw [Uproc.call, heq]
      exact h
    · rw [Uproc.call, heq]
      exact h.of_map howned hview (h.ok.of_map hview)
    · rw [Uproc.call, heq]
      refine ⟨h.owned, h.aligned, h.base, ⟨hlow, Nat.le_trans hhigh h.ok.high, ?_⟩, h.clean⟩
      intro v hstart hend
      exact h.ok.pages v hstart (lt_roundUp_of_le hend hhigh)
    · rw [Uproc.call, heq]
      exact h.of_map howned hview (h.breakOk_grow hlow hhigh hview)
  | store a b =>
    obtain ⟨hlow, hhigh⟩ := hc
    rw [userBase] at hlow
    rw [userLimit] at hhigh
    exact h.store ⟨by omega, by omega⟩ b
  | kernel mem pmm =>
    obtain ⟨howned, hview⟩ := hc
    refine ⟨howned, h.aligned, h.base, ⟨h.ok.low, h.ok.high, fun v hlow hhigh => ?_⟩, ?_⟩
    · obtain ⟨pg, hpg, hrights⟩ := h.ok.pages v hlow hhigh
      exact ⟨pg, (congrFun hview v).trans hpg, hrights⟩
    · intro v pg hlow hhigh hstored hpg
      exact h.clean v pg hlow hhigh hstored ((congrFun hview v).symm.trans hpg)
  | read buf count data | copyToUser udst src => exact hc.elim

/-- **A call that raises the break adds zeros.** -/
theorem BreakInv.raisedZero (h : BreakInv u) {c : Call} (hc : Steady u c) : RaisedZero u c := by
  intro hraise v hv k hk
  cases c with
  | brk addr =>
    rw [Uproc.call] at hraise hv ⊢
    rcases sysBrk_cases h addr with heq | ⟨s, n, -, -, heq⟩ | ⟨-, hhigh, heq⟩ |
        ⟨hlow, hhigh, s, -, hview, heq⟩
    · rw [heq] at hraise
      exact absurd hraise (Nat.lt_irrefl _)
    · rw [heq] at hraise
      exact absurd hraise (Nat.lt_irrefl _)
    · rw [heq] at hraise
      exact absurd hraise (Nat.not_lt.2 hhigh)
    · rw [heq] at hv ⊢
      obtain ⟨hpage, habove⟩ := hv.page
      have hstored : v ∉ u.stored := fun hmem => hc ⟨v, hmem, hv⟩
      have hstart : u.brkStart ≤ v * 4096 := Nat.le_trans h.ok.low habove
      have hend : v * 4096 < brkLimit := lt_roundUp_of_le hv.2 hhigh
      obtain ⟨pg, hpg, -, -⟩ := map_of_mem hpage
      have hzero : pg.data k = 0 := by
        rcases data_of_map hpg with ⟨pg', hpg', hdata⟩ | hblank
        · rw [hdata]
          exact h.clean v pg' hstart hend hstored hpg' k hk
        · exact hblank k
      have hdiv : (v * 4096 + k) / vmPageSize = v := by
        rw [vmPageSize]
        omega
      have hmod : (v * 4096 + k) % vmPageSize = k := by
        rw [vmPageSize]
        omega
      rw [UserMemory.byte, hdiv, hmod, hview, hpg, Option.map_some, hzero]
  | store a b =>
    have hsame : (u.call (.store a b)).brk = u.brk := by
      simp only [Uproc.call, Uproc.store]
      split_ifs <;> rfl
    rw [hsame] at hraise
    exact absurd hraise (Nat.lt_irrefl _)
  | kernel mem pmm => exact absurd hraise (Nat.lt_irrefl _)
  | read buf count data | copyToUser udst src => exact hc.elim

end Calls

/-! ## The start of a process -/

/-- The stack is above the heap: building it leaves the pages below it as they are. -/
lemma setupUserStack_spec {s' : Space} {name : List UInt8} {rsp : ℕ} (hp : p₀.Reserved)
    (ho : Owns m₀ p₀ s) (hname : name.length ≤ 31) (h : setupUserStack s name = (some rsp, s')) :
    Owns m₀ p₀ s' ∧ ∀ v, v * 4096 < brkLimit → s'.view v = s.view v := by
  have hlimit : brkLimit = 2 ^ 39 + 0x08000000 - 16 * 4096 := rfl
  have htop : userStackTop = 2 ^ 39 + 0x08000000 := rfl
  unfold setupUserStack at h
  dsimp only at h
  rcases halloc : s.alloc (userStackTop - userStackPages * vmPageSize)
    (userStackPages * vmPageSize) protReadWrite with ⟨_ | _, s₁⟩
  · rw [halloc] at h
    exact nomatch (Prod.mk.inj h).1
  rw [halloc] at h
  obtain ⟨k, -, hmaps, -⟩ := ho.alloc_spec hp ⟨by decide, by decide⟩ halloc
  obtain ⟨argv0, hargv0⟩ : ∃ argv0, argv0 = (userStackTop - (name.length + 1)) / 16 * 16 := ⟨_, rfl⟩
  dsimp only at h
  rw [← hargv0] at h
  rcases hwrite : s₁.write argv0 (name ++ [0]) with ⟨_ | _, s₂⟩
  · rw [hwrite] at h
    exact nomatch (Prod.mk.inj h).1
  rw [hwrite] at h
  have hlen : (name ++ [0]).length = name.length + 1 := List.length_append
  obtain ⟨k₁, hk₁, hput₁, -⟩ := hmaps.owns.write_spec
    ⟨by rw [userBase]; omega, by rw [hlen, userLimit]; omega⟩ hwrite
  obtain ⟨frame, hframe⟩ : ∃ frame,
      frame = leBytes 8 1 ++ leBytes 8 argv0 ++ leBytes 8 0 ++ leBytes 8 0 := ⟨_, rfl⟩
  have hframeLen : frame.length = 32 := by
    rw [hframe]
    rfl
  dsimp only at h
  rw [← hframe, hframeLen] at h
  rcases hwrite₂ : s₂.write ((argv0 - 32) / 16 * 16) frame with ⟨_ | _, s₃⟩
  · rw [hwrite₂] at h
    exact nomatch (Prod.mk.inj h).1
  rw [hwrite₂] at h
  obtain ⟨k₂, hk₂, hput₂, -⟩ := hput₁.owns.write_spec
    ⟨by rw [userBase]; omega, by rw [hframeLen, userLimit]; omega⟩ hwrite₂
  obtain ⟨-, rfl⟩ := Prod.mk.inj h
  refine ⟨hput₂.owns, fun v hv => ?_⟩
  have hlow : ¬ (userStackTop - userStackPages * vmPageSize) / 4096 ≤ v := by
    rw [htop, userStackPages, vmPageSize]
    omega
  rw [hput₂.view, put_of_outside (fun k hk hin => by omega), hput₁.view,
    put_of_outside (fun k hk hin => by omega), hmaps.view, map,
    if_neg (fun hin => hlow hin.1)]

/-- **A process whose image ends below the stack** starts with its break in order. -/
theorem execUserImage_breakInv {name image : List UInt8} {u : Uproc}
    (hp : p₀.Reserved) (hend : ∀ p ∈ segmentsOf image, p.vaddr + p.memsz ≤ brkLimit)
    (hexec : execUserImage m₀ p₀ name image = some u) : BreakInv u := by
  have hlimit : brkLimit = 2 ^ 39 + 0x08000000 - 16 * 4096 := rfl
  unfold execUserImage at hexec
  cases hcreate : (create m₀ p₀).1 with
  | none =>
    rw [hcreate] at hexec
    cases hexec
  | some s =>
    rw [hcreate] at hexec
    dsimp only at hexec
    rcases hload : elfLoad image s with ⟨_ | _ | _, s₁⟩
    · rename_i entry brk
      rw [hload] at hexec
      dsimp only at hexec
      rcases hstack : setupUserStack s₁ (name.take 31) with ⟨_ | rsp, s₂⟩
      · rw [hstack] at hexec
        cases hexec
      rw [hstack, some_inj] at hexec
      subst hexec
      have hhigh : ∀ p ∈ segmentsOf image, p.vaddr + p.memsz ≤ userLimit := fun p hp' =>
        le_trans (hend p hp') (by decide)
      obtain ⟨ho, hplaced⟩ := elfLoad_placed hp (Prod.ext hcreate rfl) hhigh hload
      obtain ⟨ho', hbelow⟩ := setupUserStack_spec hp ho (List.length_take_le 31 name) hstack
      obtain ⟨top, ⟨q, hq, htop⟩, hmax, hbrk⟩ := hplaced.brk
      have hqend := hend q hq
      have hqbase := (check_eq_none (hplaced.fits q hq)).2.2.1
      rw [userBase] at hqbase
      -- no page between image and stack is there
      have hnone : ∀ v, brk ≤ v * 4096 → v * 4096 < brkLimit → s₂.view v = none := by
        intro v hlow hv
        rw [hbelow v hv, hplaced.view]
        by_contra hthere
        rcases page_of_foldl_place _ hthere with hcon | ⟨p, hp', -, hin⟩
        · exact hcon rfl
        · have := hmax p hp'
          omega
      refine ⟨⟨m₀, p₀, hp, ho'⟩, ?_, ?_, ⟨le_refl _, ?_, ?_⟩, ?_⟩
      · show brk % 4096 = 0
        omega
      · show userBase ≤ brk
        rw [userBase]
        omega
      · show brk ≤ brkLimit
        omega
      · intro v hlow hhigh'
        change brk ≤ v * 4096 at hlow
        change v * 4096 < (brk + 4095) / 4096 * 4096 at hhigh'
        omega
      · intro v pg hlow hv _ hpg
        cases (hnone v hlow hv).symm.trans hpg
    · rw [hload] at hexec
      cases hexec
    · rw [hload] at hexec
      cases hexec

/-- **The break of a process** whose image ends below the stack is in order in every state that is
reached without getting back a page that the process has stored to, and every call there that raises
it adds zeros. -/
theorem break_run {m₀ : ByteMemory} {p₀ : Pmm} {name image : List UInt8} {u : Uproc}
    (hp : p₀.Reserved) (hend : ∀ p ∈ segmentsOf image, p.vaddr + p.memsz ≤ brkLimit)
    (hexec : execUserImage m₀ p₀ name image = some u) (cs : List Call)
    (hcs : Along Uproc.call Steady u cs) :
    BreakOk (run Uproc.call u cs) ∧
      ∀ c, Steady (run Uproc.call u cs) c →
        RaisedZero (run Uproc.call u cs) c := by
  have hstep : ∀ (u : Uproc) (c : Call), BreakInv u → Steady u c → BreakInv (u.call c) :=
    fun u c h hc => h.call hc
  have hinv := run_invariant_of_along hstep (execUserImage_breakInv hp hend hexec) hcs
  exact ⟨hinv.ok, fun c hc => hinv.raisedZero hc⟩

/-- A process with two segments raises its break by a page, and the page is there. -/
theorem break_run_grown : ∃ u, execUserImage bootMemory bootPmm [0x61] twoSegments = some u ∧
    u.brk < (u.call (.brk (userBase + 0x4000))).brk ∧
    BreakOk (run Uproc.call u [.brk (userBase + 0x4000)]) ∧
    RaisedZero u (.brk (userBase + 0x4000)) := by
  have hsome : (execUserImage bootMemory bootPmm [0x61] twoSegments).any (fun u =>
      decide (u.stored = []) && decide (u.brk < (u.call (.brk (userBase + 0x4000))).brk)) =
        true := by
    decide +kernel
  have hend : ∀ p ∈ segmentsOf twoSegments, p.vaddr + p.memsz ≤ brkLimit := by decide +kernel
  have hp : bootPmm.Reserved := ⟨by decide, by decide⟩
  obtain ⟨u, hu, hfacts⟩ := (any_eq_true _ _).1 hsome
  rw [Bool.and_eq_true, decide_eq_true_iff, decide_eq_true_iff] at hfacts
  have hsteady : Steady u (.brk (userBase + 0x4000)) := by
    rintro ⟨v, hv, -⟩
    rw [hfacts.1] at hv
    exact nomatch hv
  exact ⟨u, hu, hfacts.2, (break_run hp hend hu [.brk (userBase + 0x4000)] ⟨hsteady, trivial⟩).1,
    (break_run hp hend hu [] trivial).2 _ hsteady⟩

/-- The calls that raise the break by a page, store to the new page and give it back. -/
def growStoreShrink : List Call :=
  [.brk (userBase + 0x4000), .store (userBase + 0x3000) 9, .brk (userBase + 0x3000)]

/-- When the break is raised again, the page comes back with the byte that the process has left. -/
theorem regrown_dirty : ∃ u, execUserImage bootMemory bootPmm [0x61] twoSegments = some u ∧
    ((run Uproc.call u growStoreShrink).call
      (.brk (userBase + 0x4000))).space.view.byte (userBase + 0x3000) = some 9 ∧
    ¬ RaisedZero (run Uproc.call u growStoreShrink) (.brk (userBase + 0x4000)) := by
  have hsome : (execUserImage bootMemory bootPmm [0x61] twoSegments).any (fun u =>
      decide ((run call u growStoreShrink).brk = userBase + 0x3000) &&
      (decide (((run call u growStoreShrink).call
        (.brk (userBase + 0x4000))).brk = userBase + 0x4000) &&
      decide (((run call u growStoreShrink).call
        (.brk (userBase + 0x4000))).space.view.byte (userBase + 0x3000) = some 9))) = true := by
    decide +kernel
  obtain ⟨u, hu, hfacts⟩ := (any_eq_true _ _).1 hsome
  simp only [Bool.and_eq_true, decide_eq_true_iff] at hfacts
  obtain ⟨hold, hnew, hbyte⟩ := hfacts
  refine ⟨u, hu, hbyte, fun hzero => ?_⟩
  have hpage := hzero (by rw [hold, hnew]; decide) (userBase / 4096 + 3)
    (by rw [hold, hnew]; exact ⟨by decide, by decide⟩) 0 (by decide)
  have haddr : (userBase / 4096 + 3) * 4096 + 0 = userBase + 0x3000 := by decide
  rw [haddr, hbyte] at hpage
  exact nomatch hpage

end SubOS.Kernel
