import Mathlib.Data.List.GetD
import SubOS.Mm.VmTree

set_option autoImplicit false

/-!
# User memory, as a process sees it

Some of the pages of the user range are there, with rights and contents. The tables of an address
space show them: a page for every entry of the last level that is present, with the rights of the
entry and the bytes of its frame. This module says what each kind of change to the tables and frames
is as a change of user memory.

## Main definitions

* `UserMemory`, `UserMemory.map`, `UserMemory.put` — user memory, and how it changes.
* `Space.view` — the user memory that the tables show.

## Main results

* `Space.Installed.view_table`, `Space.Installed.view_page` — a new table shows nothing, a new page
  is blank.
* `Space.Widens.view_eq`, `Space.Pokes.view_eq` — widening rights and writing bytes.
-/

namespace SubOS.Mm

open Function Option Nat List ByteMemory

/-- A page that is mapped. Only the first 4096 bytes of `data` count; the others are 0. -/
@[ext] structure UserPage where
  writable : Bool
  user : Bool
  data : ℕ → UInt8

namespace UserPage

/-- A page that was just mapped. -/
def blank (prot : Prot) : UserPage := ⟨prot.write, prot.user, fun _ => 0⟩

/-- A page that is mapped again. -/
def widen (pg : UserPage) (prot : Prot) : UserPage :=
  { pg with writable := pg.writable || prot.write, user := pg.user || prot.user }

/-- Write the bytes of `l` that fall on page number `v` when `l` is written from address `a` on. -/
def put (pg : UserPage) (v a : ℕ) (l : List UInt8) : UserPage :=
  { pg with data := fun k =>
      if k < vmPageSize ∧ a ≤ v * vmPageSize + k ∧ v * vmPageSize + k < a + l.length then
        l.getD (v * vmPageSize + k - a) 0
      else pg.data k }

end UserPage

/-- The pages that are mapped, by number. -/
abbrev UserMemory := ℕ → Option UserPage

namespace UserMemory

/-- Map the `n` pages from page `v` on. -/
def map (u : UserMemory) (prot : Prot) (v n : ℕ) : UserMemory := fun w =>
  if v ≤ w ∧ w < v + n then some ((u w).elim (.blank prot) (·.widen prot)) else u w

/-- The byte at an address. -/
def byte (u : UserMemory) (a : ℕ) : Option UInt8 :=
  (u (a / vmPageSize)).map fun pg => pg.data (a % vmPageSize)

/-- Write a list of bytes from address `a` on. -/
def put (u : UserMemory) (a : ℕ) (l : List UInt8) : UserMemory := fun w =>
  (u w).map (·.put w a l)

/-- The number of pages that are mapped. -/
noncomputable def size (u : UserMemory) : ℕ := {v | u v ≠ none}.ncard

variable {u : UserMemory} {prot : Prot} {v w n k a : ℕ}

/-- Mapping no pages changes nothing. -/
@[simp] lemma map_zero : u.map prot v 0 = u := by
  funext w
  exact if_neg (by omega)

/-- Mapping one page. -/
lemma map_one : u.map prot v 1 =
    update u v (some ((u v).elim (.blank prot) (·.widen prot))) := by
  funext w
  by_cases hw : w = v
  · subst hw
    rw [update_self]
    exact if_pos (by omega)
  · rw [update_of_ne hw]
    exact if_neg (by omega)

/-- Mapping pages one after the other. -/
lemma map_succ : u.map prot v (n + 1) = (u.map prot v 1).map prot (v + 1) n := by
  funext w
  by_cases hfirst : w = v
  · simp only [map]
    rw [if_pos (by omega), if_neg (by omega), if_pos (by omega)]
  · by_cases hin : v + 1 ≤ w ∧ w < v + 1 + n
    · simp only [map]
      rw [if_pos (by omega), if_pos hin, if_neg (by omega)]
    · simp only [map]
      rw [if_neg (by omega), if_neg hin, if_neg (by omega)]

/-- A page that is mapped again is not counted again. -/
lemma size_map_one_of_some (h : (u v).isSome) : (u.map prot v 1).size = u.size := by
  refine congrArg Set.ncard (Set.ext fun w => ?_)
  show u.map prot v 1 w ≠ none ↔ u w ≠ none
  rw [map_one]
  by_cases hw : w = v
  · subst hw
    rw [update_self]
    exact iff_of_true (some_ne_none _) (isSome_iff_ne_none.1 h)
  · rw [update_of_ne hw]

/-- A new page is counted. -/
lemma size_map_one_of_none (hfin : {w | u w ≠ none}.Finite) (h : u v = none) :
    (u.map prot v 1).size = u.size + 1 := by
  have hset : {w | u.map prot v 1 w ≠ none} = insert v {w | u w ≠ none} := by
    refine Set.ext fun w => ?_
    show u.map prot v 1 w ≠ none ↔ w = v ∨ u w ≠ none
    rw [map_one]
    by_cases hw : w = v
    · subst hw
      rw [update_self]
      exact iff_of_true (some_ne_none _) (.inl rfl)
    · rw [update_of_ne hw]
      exact ⟨.inr, fun hor => hor.resolve_left hw⟩
  rw [size, hset]
  exact Set.ncard_insert_of_notMem (fun hmem => hmem h) hfin

/-- Mapping leaves the bytes that are there. -/
lemma byte_map_of_some {c : UInt8} (h : u.byte a = some c) : (u.map prot v n).byte a = some c := by
  unfold byte map at *
  split_ifs
  · cases hu : u (a / vmPageSize) with
    | none =>
      rw [hu] at h
      exact nomatch h
    | some pg =>
      rw [hu] at h
      exact h
  · exact h

/-- The bytes of a new page are zero. -/
lemma byte_map_of_none (h : u (a / vmPageSize) = none) (hin : v ≤ a / vmPageSize)
    (hlt : a / vmPageSize < v + n) : (u.map prot v n).byte a = some 0 := by
  unfold byte map
  rw [if_pos ⟨hin, hlt⟩, h]
  rfl

/-- Mapping leaves the other pages. -/
lemma byte_map_outside (h : ¬ (v ≤ a / vmPageSize ∧ a / vmPageSize < v + n)) :
    (u.map prot v n).byte a = u.byte a := by
  unfold byte map
  rw [if_neg h]

/-- The bytes after a write. -/
lemma byte_put (l : List UInt8) (b : ℕ) :
    (u.put a l).byte b =
      (u.byte b).map fun c => if a ≤ b ∧ b < a + l.length then l.getD (b - a) 0 else c := by
  unfold byte put
  rw [Option.map_map, Option.map_map]
  refine congrArg (fun f => Option.map f (u (b / vmPageSize))) (funext fun pg => ?_)
  have hlt : b % vmPageSize < vmPageSize := mod_lt _ (by decide)
  have hsum : b / vmPageSize * vmPageSize + b % vmPageSize = b := div_add_mod' ..
  simp only [comp_apply, UserPage.put, hsum, hlt, true_and]

/-- Writing no bytes changes nothing. -/
@[simp] lemma put_nil : u.put a [] = u := by
  funext w
  cases hw : u w with
  | none => rw [put, hw, map_none]
  | some pg =>
    rw [put, hw, map_some, some_inj]
    refine UserPage.ext rfl rfl (funext fun k => if_neg ?_)
    rw [length_nil]
    omega

/-- Writing bytes one part after the other. -/
lemma put_append (l l' : List UInt8) : (u.put a l).put (a + l.length) l' = u.put a (l ++ l') := by
  funext w
  simp only [put, Option.map_map]
  refine congrArg (fun f => Option.map f (u w)) (funext fun pg => ?_)
  refine UserPage.ext rfl rfl (funext fun k => ?_)
  simp only [comp_apply, UserPage.put, length_append]
  generalize w * vmPageSize + k = x
  by_cases hlater : k < vmPageSize ∧ a + l.length ≤ x ∧ x < a + l.length + l'.length
  · have hidx : x - a - l.length = x - (a + l.length) := by omega
    rw [if_pos hlater, if_pos (by omega), getD_append_right _ _ _ _ (by omega), hidx]
  · rw [if_neg hlater]
    by_cases hfirst : k < vmPageSize ∧ a ≤ x ∧ x < a + l.length
    · rw [if_pos hfirst, if_pos (by omega), getD_append _ _ _ _ (by omega)]
    · rw [if_neg hfirst, if_neg (by omega)]

/-- Writing maps no page. -/
lemma put_eq_some {l : List UInt8} {pg : UserPage} :
    u.put a l v = some pg ↔ ∃ pg', u v = some pg' ∧ pg'.put v a l = pg := map_eq_some_iff

end UserMemory

/-! ## Page numbers and indices -/

/-- A page number of the user range. -/
def IsUserPage (v : ℕ) : Prop := 2 ^ 27 ≤ v ∧ v < 2 ^ 28
  deriving Decidable

/-- The path of the page table of a page. -/
def tables (v : ℕ) : List ℕ :=
  [tableIndex (v * 4096) 0, tableIndex (v * 4096) 1, tableIndex (v * 4096) 2]

/-- The index of a page in its page table. -/
def leafIndex (v : ℕ) : ℕ := tableIndex (v * 4096) 3

section Indices

variable {v w virt level : ℕ}

/-- The page tables are at paths of three indices. -/
lemma length_tables_lt (v : ℕ) : (tables v).length < 4 := lt_succ_self 3

lemma length_tables_le (v : ℕ) : (tables v).length ≤ 4 := le_of_lt (length_tables_lt v)

/-- The pages are at paths of four. -/
lemma length_leaf_le (v : ℕ) : (tables v ++ [leafIndex v]).length ≤ 4 := le_refl 4

/-- Indices are below the number of entries. -/
lemma tableIndex_lt (virt level : ℕ) : tableIndex virt level < entriesPerTable :=
  mod_lt _ (by decide)

lemma leafIndex_lt (v : ℕ) : leafIndex v < entriesPerTable := tableIndex_lt _ 3

/-- The pages of the user range are in the user slot of the root. -/
lemma tableIndex_root (h : IsUserPage v) : tableIndex (v * 4096) 0 = userPml4Slot := by
  obtain ⟨hlow, hhigh⟩ := h
  simp only [tableIndex, userPml4Slot]
  omega

/-- The path of a page tells its number. -/
lemma page_eq_of_path (hv : IsUserPage v) (hw : IsUserPage w)
    (h : tables v ++ [leafIndex v] = tables w ++ [leafIndex w]) : v = w := by
  obtain ⟨hv1, hv2⟩ := hv
  obtain ⟨hw1, hw2⟩ := hw
  simp only [tables, leafIndex, tableIndex, cons_append, nil_append, cons.injEq, and_true] at h
  omega

/-- Different pages have different entries. -/
lemma indices_ne_of_ne (hv : IsUserPage v) (hw : IsUserPage w) (hne : v ≠ w) :
    tables v ≠ tables w ∨ leafIndex v ≠ leafIndex w :=
  not_and_or.1 fun h => hne (page_eq_of_path hv hw (by rw [h.1, h.2]))

end Indices

namespace Space

variable {m₀ : ByteMemory} {p₀ : Pmm} {s s' : Space} {p : List ℕ} {t i j fl v : ℕ}

/-- The page that a page-table entry shows. -/
def pageOf (s : Space) (e : ℕ) : Option UserPage :=
  if isPresent e then
    some ⟨isWritable e, isUser e, fun k => if k < vmPageSize then s.mem (pageDown e + k) else 0⟩
  else none

/-- The user pages that the tables show. -/
def view (s : Space) : UserMemory := fun v =>
  if IsUserPage v then
    (s.node (tables v)).bind fun t => s.pageOf (s.entryAt (t + 8 * leafIndex v))
  else none

/-- Only the user range is shown. -/
lemma view_of_not_user (h : ¬ IsUserPage v) : s.view v = none := if_neg h

/-- A page that is shown is in the user range. -/
lemma isUserPage_of_view (h : s.view v ≠ none) : IsUserPage v := by
  by_contra hcon
  exact h (view_of_not_user hcon)

/-- A page is shown by its entry. -/
lemma view_of_node (hv : IsUserPage v) (ht : s.node (tables v) = some t) :
    s.view v = s.pageOf (s.entryAt (t + 8 * leafIndex v)) := by
  rw [view, if_pos hv, ht]
  rfl

/-- Without a page table no page is shown. -/
lemma view_of_no_table (ht : s.node (tables v) = none) : s.view v = none := by
  rw [view, ht]
  exact ite_self _

/-- A page is shown as before if it is so with a page table and without. -/
lemma view_congr (hnone : s.node (tables v) = none → s'.view v = none)
    (hsome : ∀ t, IsUserPage v → s.node (tables v) = some t → s'.view v = s.view v) :
    s'.view v = s.view v := by
  by_cases hv : IsUserPage v
  · cases ht : s.node (tables v) with
    | none => rw [view_of_no_table ht, hnone ht]
    | some t => exact hsome t hv ht
  · rw [view_of_not_user hv, view_of_not_user hv]

/-- An absent entry shows no page. -/
lemma pageOf_of_absent {e : ℕ} (h : isPresent e = false) : s.pageOf e = none := by
  simp [pageOf, h]

/-- The frame of a page that is present is in the tree. -/
lemma Owns.node_leaf (ho : Owns m₀ p₀ s) (ht : s.node (tables v) = some t)
    (hpres : isPresent (s.entryAt (t + 8 * leafIndex v)) = true) :
    s.node (tables v ++ [leafIndex v]) = some (pageDown (s.entryAt (t + 8 * leafIndex v))) := by
  have hroot : t = s.pml4Phys → leafIndex v = userPml4Slot :=
    fun heq => absurd heq (ho.ne_root (length_tables_le v) (by simp [tables]) ht)
  have hidx := leafIndex_lt v
  obtain ⟨hhuge, -⟩ := ho.plain _ t _ (length_tables_lt v) ht hidx hroot hpres
  rw [node_concat, ht]
  exact child_of_present hidx hroot hpres hhuge

/-- The frame of a page is no table. -/
lemma Owns.leaf_ne (ho : Owns m₀ p₀ s) {f b : ℕ} {q : List ℕ}
    (hf : s.node (tables v ++ [leafIndex v]) = some f) (hq : q.length < 4)
    (hb : s.node q = some b) : f ≠ b := by
  rintro rfl
  have hpath := ho.distinct _ q f (length_leaf_le v) (le_of_lt hq) hf hb
  rw [← hpath] at hq
  exact absurd hq (lt_irrefl 4)

/-- What an entry shows depends on the bytes of the frame. -/
lemma pageOf_congr {e : ℕ} (h : isPresent e = true →
    ∀ k < vmPageSize, s'.mem (pageDown e + k) = s.mem (pageDown e + k)) :
    s'.pageOf e = s.pageOf e := by
  unfold pageOf
  split
  · rename_i hpres
    congr 2
    funext k
    split
    · rename_i hk
      exact h hpres k hk
    · rfl
  · rfl

/-- The page of an address in a frame. -/
lemma pageDown_add {a k : ℕ} (h : a % 4096 = 0) (hk : k < vmPageSize) : pageDown (a + k) = a := by
  rw [vmPageSize] at hk
  unfold pageDown
  omega

section Install

variable (ho : Owns m₀ p₀ s)
include ho

section

variable (hc : Installable s p t i j fl)
include hc

/-- A new frame leaves the pages at other entries. -/
lemma Installed.view_other (h : Installed s s' t i j fl) (hv : IsUserPage v) {t' : ℕ}
    (ht' : s.node (tables v) = some t') (hne : tables v ≠ p ∨ leafIndex v ≠ i) :
    s'.view v = s.view v := by
  have he := h.entryAt_other ho hc (length_tables_le v) ht' (leafIndex_lt v) hne
  rw [view_of_node hv ht', view_of_node hv (h.node_of_node ho hc (length_tables_le v) ht'), he]
  refine pageOf_congr fun hpres k hk => ?_
  have hleaf := ho.node_leaf ht' hpres
  have hpage := pageDown_add (ho.frame _ _ (length_leaf_le v) hleaf).aligned hk
  refine h.mem_outside ho hc ?_ ?_
  · rw [hpage]
    exact hc.ne_of_node ho (length_leaf_le v) hleaf
  · rw [hpage]
    exact ho.leaf_ne hleaf hc.short hc.node

/-- **A new table shows no page.** -/
lemma Installed.view_table
    (h : Installed s s' t i j fl) (hp : p.length < 3) : s'.view = s.view := by
  refine funext fun v => view_congr (fun ht => ?_) fun t' hv ht =>
    h.view_other ho hc hv ht (.inl ?_)
  · have hnode := h.node_eq ho hc (length_tables_le v)
    split_ifs at hnode with hnew
    · by_cases hv : IsUserPage v
      · rw [view_of_node hv hnode]
        refine pageOf_of_absent ?_
        rw [h.entryAt_new ho hc (leafIndex_lt v)]
        rfl
      · exact view_of_not_user hv
    · exact view_of_no_table (hnode.trans ht)
  · rintro rfl
    exact absurd hp (lt_irrefl 3)

/-- A new frame has been cleared. -/
lemma Installed.mem_new
    (h : Installed s s' t i j fl) {k : ℕ} (hk : k < vmPageSize) : s'.mem (j * 4096 + k) = 0 := by
  have htf := (ho.frame p t (le_of_lt hc.short) hc.node).aligned
  have hne := hc.ne_of_node ho (le_of_lt hc.short) hc.node
  have hi := hc.index
  have hk' := hk
  rw [entriesPerTable] at hi
  rw [vmPageSize] at hk'
  rw [h.mem, store_of_outside (by omega), fill, if_pos (by omega)]

end

/-- A new page leaves the other pages. -/
lemma Installed.view_of_ne (hv : IsUserPage v) (hc : Installable s (tables v) t (leafIndex v) j fl)
    (h : Installed s s' t (leafIndex v) j fl) {w : ℕ} (hw : w ≠ v) : s'.view w = s.view w := by
  refine view_congr (fun ht => ?_) fun t' hu ht =>
    h.view_other ho hc hu ht (indices_ne_of_ne hu hv hw)
  have hnode := h.node_eq ho hc (length_tables_le w)
  rw [if_neg, ht] at hnode
  · exact view_of_no_table hnode
  · intro heq
    exact absurd (congrArg length heq) (by simp [tables])

/-- **A new page is blank.** -/
lemma Installed.view_page {prot : Prot} (hv : IsUserPage v)
    (hc : Installable s (tables v) t (leafIndex v) j (archFlagsOf prot))
    (h : Installed s s' t (leafIndex v) j (archFlagsOf prot)) :
    s'.view = update s.view v (some (.blank prot)) := by
  funext w
  by_cases hw : w = v
  · subst hw
    have hmod := hc.frame.aligned
    have hwritable : isWritable (j * 4096) = false := testBit_of_mod hmod (by decide)
    have huser : isUser (j * 4096) = false := testBit_of_mod hmod (by decide)
    rw [update_self, view_of_node hv (h.node_of_node ho hc (length_tables_le w) hc.node),
      h.entryAt_self hc, pageOf, pageDown_or hc.small, pageDown_of_mod hmod,
      if_pos (by rw [isPresent_or, isPresent_archFlagsOf, Bool.or_true]), some_inj]
    refine UserPage.ext ?_ ?_ (funext fun k => ?_)
    · rw [isWritable_or, hwritable, isWritable_archFlagsOf]
      rfl
    · rw [isUser_or, huser, isUser_archFlagsOf]
      rfl
    · dsimp only [UserPage.blank]
      split
      · rename_i hk
        exact h.mem_new ho hc hk
      · rfl
  · rw [update_of_ne hw]
    exact h.view_of_ne ho hv hc hw

end Install

/-! ## Changes of an entry and of bytes -/

section Change

variable {e : ℕ} {prot : Prot}

/-- The rights of a page are widened. -/
structure Widens (s s' : Space) (t v : ℕ) (prot : Prot) : Prop where
  root : s'.pml4Phys = s.pml4Phys
  pmm : s'.pmm = s.pmm
  mem : s'.mem = s.mem.store (t + 8 * leafIndex v) 8
    (s.entryAt (t + 8 * leafIndex v) ||| archFlagsOf prot)

/-- The entry that is written. -/
lemma Widens.entryAt_self (h : Widens s s' t v prot) :
    s'.entryAt (t + 8 * leafIndex v) =
      s.entryAt (t + 8 * leafIndex v) ||| archFlagsOf prot := by
  have hlt : s.entryAt (t + 8 * leafIndex v) < 2 ^ 64 := load_lt s.mem _ 8
  have hfl := archFlagsOf_lt prot
  rw [entryAt, h.mem, load_store_entry_self]
  exact or_lt_two_pow hlt (by omega)

section

variable (ho : Owns m₀ p₀ s)
include ho

section

variable (ht : s.node (tables v) = some t)
include ht

/-- The other entries stay. -/
lemma Widens.entryAt_other (h : Widens s s' t v prot) {q : List ℕ} {b k : ℕ} (hq : q.length ≤ 4)
    (hb : s.node q = some b) (hk : k < entriesPerTable) (hne : q ≠ tables v ∨ k ≠ leafIndex v) :
    s'.entryAt (b + 8 * k) = s.entryAt (b + 8 * k) := by
  have hapart := ho.apart hq (length_tables_le v) hb ht hne
  rw [entryAt, h.mem]
  exact load_store_entry (ho.frame _ t (length_tables_le v) ht).aligned (ho.frame q b hq hb).aligned
    (leafIndex_lt v) hk hapart

/-- The entries lead where they led. -/
lemma Widens.sameTree (hpres : isPresent (s.entryAt (t + 8 * leafIndex v)) = true)
    (h : Widens s s' t v prot) : SameTree s s' where
  root := h.root
  pmm := h.pmm
  child := by
    intro q b k hq hb
    by_cases hself : q = tables v ∧ k = leafIndex v
    · obtain ⟨rfl, rfl⟩ := hself
      have hbt : b = t := some_inj.1 (hb.symm.trans ht)
      rw [hbt]
      unfold Space.child
      simp only [h.entryAt_self, h.root, isPresent_or, isHuge_or, isHuge_archFlagsOf, hpres,
        Bool.true_or, Bool.or_false, pageDown_or (archFlagsOf_lt prot)]
    · exact child_congr h.root fun hk =>
        h.entryAt_other ho ht (le_of_lt hq) hb hk (not_and_or.1 hself)

/-- The bytes outside the page table stay. -/
lemma Widens.mem_outside
    (h : Widens s s' t v prot) {x : ℕ} (hx : pageDown x ≠ t) : s'.mem x = s.mem x := by
  have htf := (ho.frame _ t (length_tables_le v) ht).aligned
  have hi := leafIndex_lt v
  rw [entriesPerTable] at hi
  unfold pageDown at hx
  rw [h.mem]
  exact store_of_outside (by omega)

/-- **Widening the rights of a page** keeps the address space in order. -/
lemma Owns.widen (hpres : isPresent (s.entryAt (t + 8 * leafIndex v)) = true)
    (h : Widens s s' t v prot) : Owns m₀ p₀ s' := by
  refine ho.of_sameTree (h.sameTree ho ht hpres) ?_ ?_ ?_
  · exact h.entryAt_other ho ht (q := []) (zero_le 4) s.node_nil
      (by decide) (.inl (by simp [tables]))
  · intro q b k hq hb hk hroot hpres'
    by_cases hself : q = tables v ∧ k = leafIndex v
    · obtain ⟨rfl, rfl⟩ := hself
      have hbt : b = t := some_inj.1 (hb.symm.trans ht)
      subst hbt
      rw [h.entryAt_self, isHuge_or, isHuge_archFlagsOf, Bool.or_false]
      exact ⟨(ho.plain _ b _ hq hb hk hroot hpres).1, fun hshort => absurd hshort (lt_irrefl 3)⟩
    · have hother := h.entryAt_other ho ht (le_of_lt hq) hb hk (not_and_or.1 hself)
      rw [hother] at hpres' ⊢
      exact ho.plain q b k hq hb hk hroot hpres'
  · intro x hx
    refine h.mem_outside ho ht fun heq => ?_
    exact hx _ (length_tables_le v) (heq ▸ ht)

end

/-- **Widening the rights of a page** is mapping it again. -/
lemma Widens.view_eq (hv : IsUserPage v) (ht : s.node (tables v) = some t)
    (hpres : isPresent (s.entryAt (t + 8 * leafIndex v)) = true) (h : Widens s s' t v prot) :
    s'.view = s.view.map prot v 1 := by
  have htree := h.sameTree ho ht hpres
  have hdata : ∀ w t', s.node (tables w) = some t' →
      isPresent (s.entryAt (t' + 8 * leafIndex w)) = true → ∀ k < vmPageSize,
        s'.mem (pageDown (s.entryAt (t' + 8 * leafIndex w)) + k) =
          s.mem (pageDown (s.entryAt (t' + 8 * leafIndex w)) + k) := by
    intro w t' ht' hp k hk
    have hleaf := ho.node_leaf ht' hp
    refine h.mem_outside ho ht ?_
    rw [pageDown_add (ho.frame _ _ (length_leaf_le w) hleaf).aligned hk]
    exact ho.leaf_ne hleaf (length_tables_lt v) ht
  rw [UserMemory.map_one]
  funext w
  by_cases hw : w = v
  · subst hw
    rw [update_self, view_of_node hv ht,
      view_of_node hv ((htree.node_eq (length_tables_le w)).trans ht), h.entryAt_self]
    unfold pageOf
    rw [isPresent_or, hpres, Bool.true_or, if_pos rfl, if_pos rfl,
      pageDown_or (archFlagsOf_lt prot)]
    simp only [elim_some, UserPage.widen, isWritable_or, isWritable_archFlagsOf, isUser_or,
      isUser_archFlagsOf, some_inj, UserPage.mk.injEq, true_and]
    funext k
    split
    · rename_i hk
      exact hdata w t ht hpres k hk
    · rfl
  · rw [update_of_ne hw]
    refine view_congr (fun ht' => ?_) fun t' hu ht' => ?_
    · exact view_of_no_table ((htree.node_eq (length_tables_le w)).trans ht')
    · have he := h.entryAt_other ho ht (length_tables_le w) ht' (leafIndex_lt w)
        (indices_ne_of_ne hu hv hw)
      rw [view_of_node hu ht', view_of_node hu ((htree.node_eq (length_tables_le w)).trans ht'), he]
      exact pageOf_congr fun hp => hdata w t' ht' hp

end

/-- Bytes are written into the frame of a page, from offset `o` on. -/
structure Pokes (s s' : Space) (f o : ℕ) (l : List UInt8) : Prop where
  root : s'.pml4Phys = s.pml4Phys
  pmm : s'.pmm = s.pmm
  mem : s'.mem = s.mem.put (f + o) l

variable {f o : ℕ} {l : List UInt8}

/-- The bytes outside the frame stay. -/
lemma Pokes.mem_outside (h : Pokes s s' f o l) (hf : f % 4096 = 0)
    (hfit : o + l.length ≤ vmPageSize) {x : ℕ} (hx : pageDown x ≠ f) : s'.mem x = s.mem x := by
  rw [vmPageSize] at hfit
  unfold pageDown at hx
  rw [h.mem, put, if_neg (by omega)]

/-- The entries stay, since the frame of a page is no table. -/
lemma Pokes.entryAt_eq (ho : Owns m₀ p₀ s) (h : Pokes s s' f o l)
    (hf : s.node (tables v ++ [leafIndex v]) = some f) (hfit : o + l.length ≤ vmPageSize)
    {q : List ℕ} {b k : ℕ} (hq : q.length < 4) (hb : s.node q = some b)
    (hk : k < entriesPerTable) : s'.entryAt (b + 8 * k) = s.entryAt (b + 8 * k) := by
  have hbf := (ho.frame q b (le_of_lt hq) hb).aligned
  have hff := (ho.frame _ f (length_leaf_le v) hf).aligned
  have hne := ho.leaf_ne hf hq hb
  rw [entriesPerTable] at hk
  refine load_congr fun x hx hx' => h.mem_outside hff hfit ?_
  unfold pageDown
  omega

/-- **Writing bytes of a page** keeps the address space in order. -/
lemma Owns.poke (ho : Owns m₀ p₀ s) (h : Pokes s s' f o l)
    (hf : s.node (tables v ++ [leafIndex v]) = some f) (hfit : o + l.length ≤ vmPageSize) :
    SameTree s s' ∧ Owns m₀ p₀ s' := by
  have hff := (ho.frame _ f (length_leaf_le v) hf).aligned
  have hsame : SameTree s s' := ⟨h.root, h.pmm, fun q b k hq hb =>
    child_congr h.root fun hk => h.entryAt_eq ho hf hfit hq hb hk⟩
  refine ⟨hsame, ho.of_sameTree hsame ?_ ?_ ?_⟩
  · exact h.entryAt_eq ho hf hfit (by decide) s.node_nil (by decide)
  · intro q b k hq hb hk hroot hpres
    rw [h.entryAt_eq ho hf hfit hq hb hk] at hpres ⊢
    exact ho.plain q b k hq hb hk hroot hpres
  · intro x hx
    refine h.mem_outside hff hfit fun heq => ?_
    exact hx _ (length_leaf_le v) (heq ▸ hf)

/-- **Writing bytes of a page** is writing them to user memory. -/
lemma Pokes.view_eq (ho : Owns m₀ p₀ s) (hv : IsUserPage v) (ht : s.node (tables v) = some t)
    (hpres : isPresent (s.entryAt (t + 8 * leafIndex v)) = true)
    (h : Pokes s s' (pageDown (s.entryAt (t + 8 * leafIndex v))) o l)
    (hfit : o + l.length ≤ vmPageSize) : s'.view = s.view.put (v * vmPageSize + o) l := by
  have hf := ho.node_leaf ht hpres
  have hff := (ho.frame _ _ (length_leaf_le v) hf).aligned
  obtain ⟨hsame, -⟩ := ho.poke h hf hfit
  have hfit' := hfit
  rw [vmPageSize] at hfit'
  funext w
  rw [UserMemory.put]
  by_cases hu : IsUserPage w
  · cases ht' : s.node (tables w) with
    | none =>
      rw [view_of_no_table ht', view_of_no_table ((hsame.node_eq (length_tables_le w)).trans ht')]
      rfl
    | some t' =>
      have he := h.entryAt_eq ho hf hfit (length_tables_lt w) ht' (leafIndex_lt w)
      rw [view_of_node hu ht', view_of_node hu ((hsame.node_eq (length_tables_le w)).trans ht'), he]
      unfold pageOf
      split
      · rename_i hp
        rw [map_some, some_inj]
        refine UserPage.ext rfl rfl (funext fun k => ?_)
        have hfw := ho.node_leaf ht' hp
        have hfwf := (ho.frame _ _ (length_leaf_le w) hfw).aligned
        change (if k < 4096 then s'.mem (pageDown (s.entryAt (t' + 8 * leafIndex w)) + k) else 0) =
          if k < 4096 ∧ v * 4096 + o ≤ w * 4096 + k ∧ w * 4096 + k < v * 4096 + o + l.length then
            l.getD (w * 4096 + k - (v * 4096 + o)) 0
          else if k < 4096 then s.mem (pageDown (s.entryAt (t' + 8 * leafIndex w)) + k) else 0
        by_cases hk : k < 4096
        · by_cases hw : w = v
          · subst hw
            have htt : t' = t := some_inj.1 (ht'.symm.trans ht)
            subst htt
            rw [if_pos hk, h.mem, put, if_pos hk]
            by_cases hin : o ≤ k ∧ k < o + l.length
            · have hidx : pageDown (s.entryAt (t' + 8 * leafIndex w)) + k -
                  (pageDown (s.entryAt (t' + 8 * leafIndex w)) + o) =
                    w * 4096 + k - (w * 4096 + o) := by omega
              rw [if_pos (by omega), if_pos (by omega), hidx]
            · rw [if_neg (by omega), if_neg (by omega)]
          · rw [if_pos hk, if_pos hk, if_neg (by omega)]
            refine h.mem_outside hff hfit ?_
            rw [pageDown_add hfwf hk]
            intro heq
            rw [heq] at hfw
            exact hw (page_eq_of_path hu hv
              (ho.distinct _ _ _ (length_leaf_le w) (length_leaf_le v) hfw hf))
        · rw [if_neg hk, if_neg (by omega), if_neg hk]
      · rfl
  · rw [view_of_not_user hu, view_of_not_user hu]
    rfl

end Change

end Space

end SubOS.Mm
