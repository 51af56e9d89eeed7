import Mathlib.Data.UInt
import SubOS.Lib.ByteMemory
import SubOS.Lib.EventRun
import SubOS.Lib.Table

set_option autoImplicit false

/-!
# The Object Manager

`kernel/nt/ob.c`: typed objects with a reference and a handle count, named in a tree of directories,
and the handle table of the system.

## Main definitions

* `Ob.step`, `Ob.Consistent` — the calls; no handle, child or parent is left dangling.

## Main results

* `Ob.consistent_run` — every sequence of calls on live objects keeps the manager consistent.

## Design

A freed object is an address without an object. `kzalloc` may fail, and otherwise gives any address
that has no object, also one that had one before; the choice is part of a call. Only the handle
count guards the handle table and only the child list guards the parents, so that nothing rests on
the reference count.
-/

namespace SubOS.Nt

open Function Option Table List Finset Int32

open ByteMemory (ascii)

abbrev Addr := ℕ

def obNameMax : ℕ := 48

def obDirMax : ℕ := 32

def obHandleMax : ℕ := 256

/-- The values of `NTSTATUS` that are returned. -/
inductive NtStatus where
  | success
  | unsuccessful
  | invalidHandle
  | insufficientRes
  | objectNameExists
deriving DecidableEq

inductive ObType where
  | directory
  | event
  | semaphore
  | mutant
deriving DecidableEq

/-- The type with a number; from `OB_TYPE_MAX` on there is none. -/
def ObType.ofNumber (n : UInt32) : Option ObType :=
  [ObType.directory, .event, .semaphore, .mutant][n.toNat]?

/-- `ob_object_t`. Only a directory has children. -/
structure ObObject where
  type : ObType
  name : List UInt8
  refCount : Int32
  handleCount : Int32
  permanent : Bool
  parent : Option Addr
  children : List Addr
deriving DecidableEq

/-- An object that `ob_maybe_delete` deletes: it is not permanent and has no reference, handle or
child. -/
def ObObject.deletable (o : ObObject) : Bool :=
  !o.permanent && !(decide (0 < o.refCount) || decide (0 < o.handleCount)) && o.children.isEmpty

/-- The heap of objects, `g_root` and `g_handle_table`. -/
structure Ob where
  heap : Addr → Option ObObject
  root : Option Addr
  handles : Fin obHandleMax → Option Addr

namespace Ob

/-- Changes the object at an address. -/
def modify (s : Ob) (a : Addr) (f : ObObject → ObObject) : Ob :=
  { s with heap := update s.heap a ((s.heap a).map f) }

/-! ## Directories -/

/-- `dir_add_child`; `none` where it returns false. -/
def dirAddChild (s : Ob) (dir child : Addr) : Option Ob :=
  if (s.heap dir).any (fun o => o.type = .directory ∧ o.children.length < obDirMax) then
    some ((s.modify dir fun o => { o with children := o.children ++ [child] }).modify child
      fun o => { o with parent := some dir })
  else none

def dirRemoveChild (s : Ob) (dir child : Addr) : Ob :=
  s.modify dir fun o => { o with children := o.children.erase child }

def dirFindChild (s : Ob) (dir : Addr) (name : List UInt8) : Option Addr :=
  (s.heap dir).bind fun od => od.children.find? fun c => (s.heap c).any fun o => o.name = name

/-! ## Objects -/

/-- A new object, with the reference of its creator. -/
def newObject (type : ObType) (name : List UInt8) : ObObject where
  type := type
  name := name.take (obNameMax - 1)
  refCount := 1
  handleCount := 0
  permanent := false
  parent := none
  children := []

/-- `ob_alloc`: `kzalloc` gives the address that is asked for if it has no object, and otherwise
none. -/
def obAlloc (s : Ob) (type : ObType) (name : List UInt8) (grant : Option Addr) :
    Option (Ob × Addr) :=
  (grant.filter fun a => (s.heap a).isNone).map fun a =>
    ({ s with heap := update s.heap a (some (newObject type name)) }, a)

def obMaybeDelete (s : Ob) (a : Addr) : Ob :=
  match s.heap a with
  | none => s
  | some o =>
    if o.deletable then
      let s := o.parent.elim s fun d => s.dirRemoveChild d a
      { s with heap := update s.heap a none }
    else s

/-- The directory that `ob_create_object` uses; an object without a name is in none. -/
def parentFor (s : Ob) (name : List UInt8) (dir : Option Addr) : Option Addr :=
  if name.isEmpty then none else dir <|> s.root

/-- `ob_create_object`, with the status and the object. A null name is the empty one. -/
def obCreateObject (s : Ob) (type : UInt32) (name : List UInt8) (dir grant : Option Addr) :
    Ob × NtStatus × Option Addr :=
  match ObType.ofNumber type with
  | none => (s, .unsuccessful, none)
  | some type =>
    if ((s.parentFor name dir).bind (s.dirFindChild · name)).isSome
      then (s, .objectNameExists, none)
    else
      match s.obAlloc type name grant with
      | none => (s, .insufficientRes, none)
      | some (s', a) =>
        match s.parentFor name dir with
        | none => (s', .success, some a)
        | some p =>
          match s'.dirAddChild p a with
          -- The object is freed again.
          | none => (s, .insufficientRes, none)
          | some s'' => (s'', .success, some a)

def obReferenceObject (s : Ob) (a : Addr) : Ob :=
  s.modify a fun o => { o with refCount := o.refCount + 1 }

/-- A count goes down, unless it is zero or less. -/
def lower (n : Int32) : Int32 := if 0 < n then n - 1 else n

def obDereferenceObject (s : Ob) (a : Addr) : Ob :=
  (s.modify a fun o => { o with refCount := lower o.refCount }).obMaybeDelete a

def obMakePermanent (s : Ob) (a : Addr) : Ob := s.modify a fun o => { o with permanent := true }

/-- `ob_lookup_path`; the separator is the backslash. -/
def obLookupPath (s : Ob) (path : List UInt8) : Option Addr :=
  if path = [] ∨ path = [92] then s.root
  else
    let buf := path.take 191
    let buf := if buf.head? = some 92 then buf.tail else buf
    (buf.splitOn 92).foldl (fun cur seg => if seg.isEmpty then cur
      else cur.bind (s.dirFindChild · seg))
      s.root

/-! ## Handles -/

def obOpenHandle (s : Ob) (a : Addr) : Ob × Int32 :=
  match Fin.find? fun i => (s.handles i).isNone with
  | none => (s, -1)
  | some i =>
    ({ s.modify a fun o =>
          { o with handleCount := o.handleCount + 1, refCount := o.refCount + 1 } with
        handles := update s.handles i (some a) }, Int32.ofNat ((i + 1) * 4))

def handleToIndex (h : Int32) : Option (Fin obHandleMax) :=
  if h ≤ 0 ∨ h &&& 3 ≠ 0 then none
  else
    let idx := (h / 4 - 1).toInt
    if hlt : 0 ≤ idx ∧ idx.toNat < obHandleMax then some ⟨idx.toNat, hlt.2⟩ else none

/-- The slot and the object of a handle. -/
def slotOf (s : Ob) (h : Int32) : Option (Fin obHandleMax × Addr) :=
  (handleToIndex h).bind fun i => (s.handles i).map fun a => (i, a)

def obReferenceByHandle (s : Ob) (h : Int32) : Ob × Option Addr :=
  match s.slotOf h with
  | none => (s, none)
  | some (_, a) => (s.modify a fun o => { o with refCount := o.refCount + 1 }, some a)

/-- A slot is cleared, and the counts of its object go down. -/
def clearSlot (s : Ob) (i : Fin obHandleMax) (a : Addr) : Ob :=
  { s.modify a fun o =>
      { o with handleCount := lower o.handleCount, refCount := lower o.refCount } with
    handles := update s.handles i none }

def obCloseHandle (s : Ob) (h : Int32) : Ob × NtStatus :=
  match s.slotOf h with
  | none => (s, .invalidHandle)
  | some (i, a) => ((s.clearSlot i a).obMaybeDelete a, .success)

/-! ## Calls -/

inductive Call where
  | obCreateObject (type : UInt32) (name : List UInt8) (dir grant : Option Addr)
  | obReferenceObject (a : Addr)
  | obDereferenceObject (a : Addr)
  | obMakePermanent (a : Addr)
  | obOpenHandle (a : Addr)
  | obReferenceByHandle (h : Int32)
  | obCloseHandle (h : Int32)

def step (s : Ob) : Call → Ob
  | .obCreateObject type name dir grant => (s.obCreateObject type name dir grant).1
  | .obReferenceObject a => s.obReferenceObject a
  | .obDereferenceObject a => s.obDereferenceObject a
  | .obMakePermanent a => s.obMakePermanent a
  | .obOpenHandle a => (s.obOpenHandle a).1
  | .obReferenceByHandle h => (s.obReferenceByHandle h).1
  | .obCloseHandle h => (s.obCloseHandle h).1

/-- There is an object at the address. -/
def Live (s : Ob) (a : Addr) : Prop := (s.heap a).isSome = true
  deriving Decidable

/-- The call is made on live objects. -/
def OnLive (s : Ob) : Call → Prop
  | .obCreateObject _ _ dir _ => ∀ d ∈ dir, s.Live d
  | .obReferenceObject a | .obDereferenceObject a | .obMakePermanent a | .obOpenHandle a => s.Live a
  | .obReferenceByHandle _ | .obCloseHandle _ => True

instance (s : Ob) : DecidablePred s.OnLive := by
  rintro ⟨⟩ <;> dsimp only [OnLive] <;> infer_instance

/-! ## The start -/

/-- The manager with the root directory, if it could be allocated. -/
def rootOnly (root : Option Addr) : Ob where
  heap a := if root = some a then some ⟨.directory, ascii "\\", 1, 0, true, none, []⟩ else none
  root := root
  handles _ := none

/-- An object that `ob_init` creates: it is made permanent, and the creator's reference is dropped.
-/
def seed (s : Ob) (type : UInt32) (name : String) (dir grant : Option Addr) : Ob :=
  match s.obCreateObject type (ascii name) dir grant with
  | (s, _, none) => s
  | (s, _, some a) => (s.obMakePermanent a).obDereferenceObject a

/-- `ob_init`, with what each allocation gets. -/
def obInit (grant : Fin 7 → Option Addr) : Ob :=
  let s := rootOnly (grant 0)
  if s.root = none then s
  else
    let s := s.seed 0 "BaseNamedObjects" s.root (grant 1)
    let s := s.seed 0 "Device" s.root (grant 2)
    let s := s.seed 0 "ObjectTypes" s.root (grant 3)
    let s := s.seed 0 "KernelObjects" s.root (grant 4)
    let bno := s.obLookupPath (ascii "\\BaseNamedObjects")
    let s := s.seed 1 "SubOsBootEvent" bno (grant 5)
    s.seed 2 "SubOsIoSemaphore" bno (grant 6)

/-! ## Consistency -/

structure Consistent (s : Ob) : Prop where
  /-- The root directory is never deleted. -/
  root_live : ∀ r, s.root = some r → ∃ o, s.heap r = some o ∧ o.permanent = true
  /-- No object of the handle table is freed. -/
  handle_live : ∀ i a, s.handles i = some a → s.Live a
  /-- No object of a child list is freed. -/
  child_live : ∀ d od c, s.heap d = some od → c ∈ od.children → s.Live c
  /-- No freed directory is a parent. -/
  parent_live : ∀ c o d, s.heap c = some o → o.parent = some d → s.Live d
  /-- The handle count is the number of slots. -/
  counted : ∀ a o, s.heap a = some o → o.handleCount.toInt = Table.count (· == some a) s.handles
  /-- An object is in a child list once if the directory is its parent, and otherwise not at all. -/
  listed : ∀ c o d od, s.heap c = some o → s.heap d = some od →
    od.children.count c = if o.parent = some d then 1 else 0

variable {s s' : Ob} {a b c d p : Addr} {o : ObObject} {i : Fin obHandleMax} {name : List UInt8}
  {dir grant : Option Addr} {f : ObObject → ObObject}

lemma live_of_eq (h : s.heap a = some o) : s.Live a := isSome_of_eq_some h

lemma not_live_of_eq (h : s.heap a = none) : ¬s.Live a := by
  unfold Live
  rw [h]
  exact nofun

lemma Live.exists (h : s.Live a) : ∃ o, s.heap a = some o := isSome_iff_exists.1 h

lemma modify_heap (s : Ob) (a : Addr) (f : ObObject → ObObject) (b : Addr) :
    (s.modify a f).heap b = (s.heap b).map fun o => if b = a then f o else o := by
  unfold modify
  by_cases hb : b = a
  · subst hb
    simp
  · simp [hb]

lemma live_modify : (s.modify a f).Live b ↔ s.Live b := by
  unfold Live
  rw [modify_heap, isSome_map]

/-! ## Objects that change in place -/

/-- The objects have the same parent and children, and a permanent one stays permanent. -/
def ObObject.Same (o' o : ObObject) : Prop :=
  o'.parent = o.parent ∧ o'.children = o.children ∧ (o.permanent = true → o'.permanent = true)

/-- An object changes in place, and the handle table with it. Consistency is kept if the table and
the handle counts agree afterwards. -/
lemma Consistent.change (hs : Consistent s) (hf : ∀ o, ObObject.Same (f o) o)
    {handles : Fin obHandleMax → Option Addr} (hlive : ∀ i a, handles i = some a → s.Live a)
    (hcounted : ∀ b o, s.heap b = some o →
      (if b = a then f o else o).handleCount.toInt = count (· == some b) handles) :
    Consistent { s.modify a f with handles := handles } := by
  have hsame : ∀ b o, ObObject.Same (if b = a then f o else o) o := by
    intro b o
    split_ifs
    · exact hf o
    · exact ⟨rfl, rfl, id⟩
  have hback : ∀ {b o'}, (s.modify a f).heap b = some o' →
      ∃ o, s.heap b = some o ∧ (if b = a then f o else o) = o' := by
    intro b o' hb
    rw [modify_heap] at hb
    exact map_eq_some_iff.1 hb
  refine ⟨fun r hr => ?_, fun i b hb => live_modify.2 (hlive i b hb), fun d od c hd hc => ?_,
    fun c oc d hc hparent => ?_, fun b ob hb => ?_, fun c oc d od hc hd => ?_⟩
  · obtain ⟨o, ho, hperm⟩ := hs.root_live r hr
    refine ⟨if r = a then f o else o, ?_, (hsame r o).2.2 hperm⟩
    rw [modify_heap, ho]
    rfl
  · obtain ⟨od, hod, rfl⟩ := hback hd
    rw [(hsame d od).2.1] at hc
    exact live_modify.2 (hs.child_live d od c hod hc)
  · obtain ⟨oc, hoc, rfl⟩ := hback hc
    rw [(hsame c oc).1] at hparent
    exact live_modify.2 (hs.parent_live c oc d hoc hparent)
  · obtain ⟨o, ho, rfl⟩ := hback hb
    exact hcounted b o ho
  · obtain ⟨oc, hoc, rfl⟩ := hback hc
    obtain ⟨od, hod, rfl⟩ := hback hd
    rw [(hsame c oc).1, (hsame d od).2.1]
    exact hs.listed c oc d od hoc hod

lemma Consistent.modify (hs : Consistent s) (hf : ∀ o, ObObject.Same (f o) o)
    (hcount : ∀ o, (f o).handleCount = o.handleCount) : Consistent (s.modify a f) := by
  refine hs.change hf hs.handle_live fun b o hb => Eq.trans ?_ (hs.counted b o hb)
  split_ifs
  · rw [hcount]
  · rfl

/-! ## Deletion -/

/-- An object has been freed and taken out of the child lists. -/
structure Removed (s s' : Ob) (a : Addr) : Prop where
  heap : ∀ b, s'.heap b = if b = a then none else
    (s.heap b).map fun o => { o with children := o.children.erase a }
  root : s'.root = s.root
  handles : s'.handles = s.handles

lemma Consistent.not_mem_children (hs : Consistent s) (ha : s.heap a = some o) {od : ObObject}
    (hd : s.heap d = some od) (hne : o.parent ≠ some d) : a ∉ od.children :=
  count_eq_zero.1 ((hs.listed a o d od ha hd).trans (if_neg hne))

/-- Taking the object out of the list of its parent is taking it out of every list. -/
lemma Consistent.removed_obMaybeDelete (hs : Consistent s) (ha : s.heap a = some o)
    (hdel : o.deletable = true) : Removed s (s.obMaybeDelete a) a := by
  have heq : s.obMaybeDelete a = { (o.parent.elim s fun d => s.dirRemoveChild d a) with
      heap := update (o.parent.elim s fun d => s.dirRemoveChild d a).heap a none } := by
    rw [obMaybeDelete, ha]
    exact if_pos hdel
  have hlist : ∀ b, (o.parent.elim s fun d => s.dirRemoveChild d a).heap b =
      (s.heap b).map fun o => { o with children := o.children.erase a } := by
    intro b
    cases hb : s.heap b with
    | none => cases o.parent <;> simp [dirRemoveChild, modify_heap, hb]
    | some ob =>
      -- Where the directory is not the parent, nothing is taken out.
      by_cases hparent : o.parent = some b
      · rw [hparent, elim_some, dirRemoveChild, modify_heap, hb]
        simp
      · rw [map_some, erase_of_not_mem (hs.not_mem_children ha hb hparent)]
        cases hd : o.parent with
        | none => exact hb
        | some d =>
          rw [elim_some, dirRemoveChild, modify_heap, hb, map_some, if_neg]
          rintro rfl
          exact hparent hd
  rw [heq]
  refine ⟨fun b => ?_, by cases o.parent <;> rfl, by cases o.parent <;> rfl⟩
  dsimp only
  rw [update_apply, hlist]

lemma obMaybeDelete_of_not (ha : s.heap a = some o) (hdel : o.deletable = false) :
    s.obMaybeDelete a = s := by
  rw [obMaybeDelete, ha]
  exact if_neg (by rw [hdel]; exact Bool.false_ne_true)

lemma deletable_iff : o.deletable = true ↔
    o.permanent = false ∧ ¬0 < o.refCount ∧ ¬0 < o.handleCount ∧ o.children = [] := by
  simp [ObObject.deletable, and_assoc]

lemma Consistent.handles_ne (hs : Consistent s) (ha : s.heap a = some o) (h0 : ¬0 < o.handleCount)
    (i : Fin obHandleMax) : s.handles i ≠ some a := by
  intro hi
  have hpos : 0 < count (· == some a) s.handles :=
    card_pos.2 ⟨i, Finset.mem_filter.2 ⟨mem_univ i, by simp [hi]⟩⟩
  refine h0 (lt_iff_toInt_lt.2 ?_)
  rw [hs.counted a o ha, toInt_zero]
  exact_mod_cast hpos

lemma Removed.back (h : Removed s s' a) {o' : ObObject} (hb : s'.heap b = some o') :
    b ≠ a ∧ ∃ o, s.heap b = some o ∧ { o with children := o.children.erase a } = o' := by
  rw [h.heap] at hb
  split_ifs at hb with hba
  exact ⟨hba, map_eq_some_iff.1 hb⟩

lemma Removed.live (h : Removed s s' a) (hb : b ≠ a) (hlive : s.Live b) : s'.Live b := by
  unfold Live
  rw [h.heap, if_neg hb, isSome_map]
  exact hlive

/-- **A deletion leaves no trace** of a deletable object. -/
theorem Consistent.removed (hs : Consistent s) (ha : s.heap a = some o) (hdel : o.deletable = true)
    (h : Removed s s' a) : Consistent s' := by
  obtain ⟨hperm, -, hnohandle, hnochild⟩ := deletable_iff.1 hdel
  refine ⟨fun r hr => ?_, fun i b hb => ?_, fun d od c hd hc => ?_, fun c oc d hc hparent => ?_,
    fun b ob hb => ?_, fun c oc d od hc hd => ?_⟩
  · obtain ⟨ro, hro, hperm'⟩ := hs.root_live r (h.root ▸ hr)
    have hne : r ≠ a := by
      rintro rfl
      obtain rfl := some.inj (ha.symm.trans hro)
      exact nomatch hperm.symm.trans hperm'
    refine ⟨{ ro with children := ro.children.erase a }, ?_, hperm'⟩
    rw [h.heap, if_neg hne, hro]
    rfl
  · rw [h.handles] at hb
    refine h.live ?_ (hs.handle_live i b hb)
    rintro rfl
    exact hs.handles_ne ha hnohandle i hb
  · obtain ⟨-, od, hod, rfl⟩ := h.back hd
    refine h.live ?_ (hs.child_live d od c hod (mem_of_mem_erase hc))
    -- The list had the object once at most, so that none is left.
    rintro rfl
    have hcount := hs.listed c o d od ha hod
    have hleft := count_pos_iff.2 hc
    rw [count_erase_self] at hleft
    split_ifs at hcount <;> omega
  · obtain ⟨-, oc, hoc, rfl⟩ := h.back hc
    refine h.live ?_ (hs.parent_live c oc d hoc hparent)
    rintro rfl
    have hcount := hs.listed c oc d o hoc ha
    rw [hnochild, if_pos hparent] at hcount
    exact nomatch hcount
  · obtain ⟨-, ob, hob, rfl⟩ := h.back hb
    rw [h.handles]
    exact hs.counted b ob hob
  · obtain ⟨hca, oc, hoc, rfl⟩ := h.back hc
    obtain ⟨-, od, hod, rfl⟩ := h.back hd
    rw [count_erase_of_ne hca]
    exact hs.listed c oc d od hoc hod

/-! ## Creation -/

/-- An object has been put at an address without one, as the last child of its parent. -/
structure Inserted (s s' : Ob) (a : Addr) (new : ObObject) : Prop where
  fresh : s.heap a = none
  heap : ∀ b, s'.heap b = if b = a then some new else (s.heap b).map fun o =>
    if new.parent = some b then { o with children := o.children ++ [a] } else o
  parent : ∀ d, new.parent = some d → s.Live d
  root : s'.root = s.root
  handles : s'.handles = s.handles

lemma Inserted.ne (h : Inserted s s' a o) (hb : s.Live b) : b ≠ a := by
  rintro rfl
  exact not_live_of_eq h.fresh hb

lemma Inserted.live (h : Inserted s s' a o) (hb : s.Live b) : s'.Live b := by
  unfold Live
  rw [h.heap, if_neg (h.ne hb), isSome_map]
  exact hb

lemma Inserted.self (h : Inserted s s' a o) : s'.heap a = some o := (h.heap a).trans (if_pos rfl)

/-- What is there afterwards is the new object, or was there, with the new child if it is the
parent. -/
lemma Inserted.back {new : ObObject} (h : Inserted s s' a new) {o' : ObObject}
    (hb : s'.heap b = some o') :
    (b = a ∧ o' = new) ∨ (b ≠ a ∧ ∃ o, s.heap b = some o ∧ o' =
      { o with children := if new.parent = some b then o.children ++ [a] else o.children }) := by
  rw [h.heap] at hb
  by_cases hba : b = a
  · rw [if_pos hba] at hb
    exact .inl ⟨hba, (some.inj hb).symm⟩
  · rw [if_neg hba] at hb
    obtain ⟨o, ho, rfl⟩ := map_eq_some_iff.1 hb
    refine .inr ⟨hba, o, ho, ?_⟩
    split_ifs <;> rfl

/-- **A new object** is in no slot, and in the list of its parent once. -/
theorem Consistent.inserted (hs : Consistent s) {new : ObObject} (h : Inserted s s' a new)
    (hnew : new.children = []) (hcount : new.handleCount = 0) : Consistent s' := by
  -- The address was in no list and no slot.
  have hnotlisted : ∀ {d od}, s.heap d = some od → od.children.count a = 0 := fun hd =>
    count_eq_zero.2 fun hmem => h.ne (hs.child_live _ _ _ hd hmem) rfl
  have hnoslot : count (· == some a) s.handles = 0 := by
    unfold Table.count
    rw [card_eq_zero, filter_eq_empty_iff]
    intro i _ hi
    exact h.ne (hs.handle_live i a (by simpa using hi)) rfl
  refine ⟨fun r hr => ?_, fun i b hb => h.live (hs.handle_live i b (h.handles ▸ hb)),
    fun d od c hd hc => ?_, fun c oc d hc hcd => ?_, fun b ob hb => ?_, fun c oc d od hc hd => ?_⟩
  · obtain ⟨o, ho, hperm⟩ := hs.root_live r (h.root ▸ hr)
    obtain ⟨o', ho'⟩ := (h.live (live_of_eq ho)).exists
    refine ⟨o', ho', ?_⟩
    obtain ⟨hra, -⟩ | ⟨-, o₁, ho₁, rfl⟩ := h.back ho'
    · exact absurd hra (h.ne (live_of_eq ho))
    · obtain rfl := some.inj (ho.symm.trans ho₁)
      exact hperm
  · obtain ⟨-, rfl⟩ | ⟨-, o, ho, rfl⟩ := h.back hd
    · rw [hnew] at hc
      exact nomatch hc
    · split_ifs at hc
      · rcases mem_append.1 hc with hc | hc
        · exact h.live (hs.child_live d o c ho hc)
        · rw [List.mem_singleton.1 hc]
          exact live_of_eq h.self
      · exact h.live (hs.child_live d o c ho hc)
  · obtain ⟨-, rfl⟩ | ⟨-, o, ho, rfl⟩ := h.back hc
    · exact h.live (h.parent d hcd)
    · exact h.live (hs.parent_live c o d ho hcd)
  · rw [h.handles]
    obtain ⟨rfl, rfl⟩ | ⟨-, o, ho, rfl⟩ := h.back hb
    · rw [hcount, hnoslot]
      rfl
    · exact hs.counted b o ho
  · obtain ⟨rfl, rfl⟩ | ⟨hca, o, ho, rfl⟩ := h.back hc
    · obtain ⟨rfl, rfl⟩ | ⟨-, o, ho, rfl⟩ := h.back hd
      · rw [hnew, if_neg fun hself => h.ne (h.parent d hself) rfl]
        rfl
      · split_ifs
        · rw [count_append, hnotlisted ho]
          simp
        · exact hnotlisted ho
    · obtain ⟨rfl, rfl⟩ | ⟨-, o', ho', rfl⟩ := h.back hd
      · rw [hnew, if_neg fun hparent => h.ne (hs.parent_live c o d ho hparent) rfl]
        rfl
      · refine Eq.trans ?_ (hs.listed c o d o' ho ho')
        split_ifs
        · rw [count_append, count_singleton, if_neg (by simpa using hca.symm)]
          rfl
        · rfl

lemma Consistent.root_is_live (hs : Consistent s) (h : s.root = some a) : s.Live a := by
  obtain ⟨o, ho, -⟩ := hs.root_live a h
  exact live_of_eq ho

lemma Consistent.parentFor_live (hs : Consistent s) (hdir : ∀ d ∈ dir, s.Live d)
    (h : s.parentFor name dir = some a) : s.Live a := by
  unfold parentFor at h
  split_ifs at h
  cases dir with
  | none => exact hs.root_is_live h
  | some d => exact hdir a h

/-- **What `ob_create_object` can do**: it fails and changes nothing, or it inserts an object. -/
lemma Consistent.obCreateObject_cases (hs : Consistent s) (type : UInt32) (grant : Option Addr)
    (hdir : ∀ d ∈ dir, s.Live d) :
    (∃ status, s.obCreateObject type name dir grant = (s, status, none)) ∨
    ∃ s' a t, s.obCreateObject type name dir grant = (s', .success, some a) ∧
      Inserted s s' a { newObject t name with parent := s.parentFor name dir } := by
  unfold Ob.obCreateObject
  cases ObType.ofNumber type with
  | none => exact .inl ⟨.unsuccessful, rfl⟩
  | some t =>
    split_ifs
    · exact .inl ⟨.objectNameExists, rfl⟩
    unfold obAlloc
    cases hgrant : grant.filter fun a => (s.heap a).isNone with
    | none => exact .inl ⟨.insufficientRes, rfl⟩
    | some a =>
      have ha : s.heap a = none := by simpa using (filter_eq_some_iff.1 hgrant).2
      dsimp only [map_some]
      cases hparent : s.parentFor name dir with
      | none =>
        refine .inr ⟨_, a, t, rfl, ha, fun b => ?_, nofun, rfl, rfl⟩
        dsimp only
        rw [update_apply]
        simp only [reduceCtorEq, if_false, Option.map_id']
        rfl
      | some p =>
        have hlive := hs.parentFor_live hdir hparent
        have hpa : p ≠ a := fun heq => not_live_of_eq ha (heq ▸ hlive)
        dsimp only
        unfold dirAddChild
        split_ifs
        · refine .inr ⟨_, a, t, rfl, ha, fun b => ?_, fun d hd => some.inj hd ▸ hlive, rfl, rfl⟩
          rw [modify_heap, modify_heap]
          by_cases hb : b = a
          · subst hb
            simp [hpa.symm]
          · simp only [hb, if_false, update_of_ne hb, Option.map_id', some.injEq, eq_comm]
        · exact .inl ⟨.insufficientRes, rfl⟩

/-! ## References and handles -/

lemma toInt_add_one {n : Int32} (h0 : 0 ≤ n.toInt) (h : n.toInt ≤ 256) :
    (n + 1).toInt = n.toInt + 1 := by
  rw [toInt_add, toInt_one]
  exact Int.bmod_eq_of_le (by omega) (by omega)

lemma toInt_lower {n : Int32} (h0 : 0 < n.toInt) : (lower n).toInt = n.toInt - 1 := by
  have hle := n.toInt_le
  rw [toInt_maxValue] at hle
  have hpos : 0 < n := lt_iff_toInt_lt.2 h0
  rw [lower, if_pos hpos, toInt_sub, toInt_one]
  exact Int.bmod_eq_of_le (by omega) (by omega)

lemma count_le (f : Fin obHandleMax → Option Addr) : count (· == some a) f ≤ 256 := by
  have hle := card_filter_le univ fun j => (f j == some a) = true
  rwa [card_univ, Fintype.card_fin] at hle

/-- A slot gets another content, and the handle count of one object changes with it. -/
lemma Consistent.setSlot (hs : Consistent s) {x : Option Addr}
    (hf : ∀ o, ObObject.Same (f o) o) (hlive : ∀ b, x = some b → s.Live b)
    (hothers : ∀ b, b ≠ a → s.handles i ≠ some b ∧ x ≠ some b) (hself : ∀ o, s.heap a = some o →
      (f o).handleCount.toInt = count (· == some a) (update s.handles i x)) :
    Consistent { s.modify a f with handles := update s.handles i x } := by
  refine hs.change hf (fun j b hj => ?_) fun b o ho => ?_
  · rw [update_apply] at hj
    split_ifs at hj
    · exact hlive b hj
    · exact hs.handle_live j b hj
  · by_cases hba : b = a
    · subst hba
      rw [if_pos rfl]
      exact hself o ho
    · rw [if_neg hba, hs.counted b o ho]
      obtain ⟨hold, hnew⟩ := hothers b hba
      exact congrArg Nat.cast (count_update_of_eq (by simp [hold, hnew])).symm

lemma Consistent.obOpenHandle (hs : Consistent s) (hlive : s.Live a) :
    Consistent (s.obOpenHandle a).1 := by
  unfold Ob.obOpenHandle
  cases hfree : Fin.find? fun i => (s.handles i).isNone with
  | none => exact hs
  | some i =>
    have hnone : s.handles i = none := by simpa using Fin.eq_true_of_find?_eq_some hfree
    refine hs.setSlot (fun o => ⟨rfl, rfl, id⟩) (fun b hb => some.inj hb ▸ hlive)
      (fun b hb => ⟨by simp [hnone], fun heq => hb (some.inj heq).symm⟩) fun o ho => ?_
    have hcount := hs.counted a o ho
    have hle := count_le (a := a) s.handles
    rw [count_update_enter (by simp [hnone]) (by simp), toInt_add_one (by omega) (by omega), hcount]
    rfl

lemma slotOf_eq_some {h : Int32} (hslot : s.slotOf h = some (i, a)) : s.handles i = some a := by
  obtain ⟨j, -, hj⟩ := bind_eq_some_iff.1 hslot
  obtain ⟨b, hb, heq⟩ := map_eq_some_iff.1 hj
  obtain ⟨rfl, rfl⟩ := Prod.mk.inj heq
  exact hb

lemma Consistent.clearSlot (hs : Consistent s) (hslot : s.handles i = some a) :
    Consistent (s.clearSlot i a) := by
  refine hs.setSlot (fun o => ⟨rfl, rfl, id⟩) nofun (fun b hb => ⟨?_, nofun⟩) fun o ho => ?_
  · rw [hslot]
    exact fun heq => hb (some.inj heq).symm
  · have hcount := hs.counted a o ho
    have hpos : 0 < count (· == some a) s.handles :=
      card_pos.2 ⟨i, Finset.mem_filter.2 ⟨mem_univ i, by simp [hslot]⟩⟩
    rw [count_update_leave (by simp [hslot]) rfl, toInt_lower (by omega), hcount]
    omega

/-! ## Runs -/

lemma Consistent.obMaybeDelete (hs : Consistent s) (hlive : s.Live a) :
    Consistent (s.obMaybeDelete a) := by
  obtain ⟨o, ho⟩ := hlive.exists
  cases hdel : o.deletable with
  | false =>
    rw [obMaybeDelete_of_not ho hdel]
    exact hs
  | true => exact hs.removed ho hdel (hs.removed_obMaybeDelete ho hdel)

/-- **Every call keeps the manager consistent.** -/
theorem Consistent.step (hs : Consistent s) {c : Call} (hc : s.OnLive c) :
    Consistent (s.step c) := by
  cases c with
  | obCreateObject type name dir grant =>
    rw [Ob.step]
    rcases hs.obCreateObject_cases type grant hc with ⟨status, heq⟩ | ⟨s', a, t, heq, h⟩
    · rw [heq]
      exact hs
    · rw [heq]
      exact hs.inserted h rfl rfl
  | obReferenceObject a => exact hs.modify (fun _ => ⟨rfl, rfl, id⟩) fun _ => rfl
  | obMakePermanent a => exact hs.modify (fun _ => ⟨rfl, rfl, fun _ => rfl⟩) fun _ => rfl
  | obDereferenceObject a =>
    refine .obMaybeDelete (hs.modify ?_ fun _ => rfl) (live_modify.2 hc)
    exact fun _ => ⟨rfl, rfl, id⟩
  | obOpenHandle a => exact hs.obOpenHandle hc
  | obReferenceByHandle h =>
    rw [Ob.step, Ob.obReferenceByHandle]
    cases s.slotOf h with
    | none => exact hs
    | some ia => exact hs.modify (fun _ => ⟨rfl, rfl, id⟩) fun _ => rfl
  | obCloseHandle h =>
    rw [Ob.step, Ob.obCloseHandle]
    cases hslot : s.slotOf h with
    | none => exact hs
    | some ia =>
      have hi := slotOf_eq_some hslot
      exact (hs.clearSlot hi).obMaybeDelete (live_modify.2 (hs.handle_live _ _ hi))

/-- The calls of `ob_init`: objects are made permanent before their reference is dropped. -/
def Mild (s : Ob) : Call → Prop
  | .obCreateObject _ _ dir _ => ∀ d ∈ dir, s.Live d
  | .obMakePermanent a => s.Live a
  | .obDereferenceObject a => ∃ o, s.heap a = some o ∧ o.permanent = true
  | _ => False

lemma Mild.onLive {c : Call} (h : s.Mild c) : s.OnLive c := by
  cases c with
  | obCreateObject type name dir grant => exact h
  | obDereferenceObject a =>
    obtain ⟨o, ho, -⟩ := h
    exact live_of_eq ho
  | obMakePermanent a => exact h
  | _ => exact h.elim

lemma consistent_rootOnly (root : Option Addr) : Consistent (rootOnly root) := by
  have hback : ∀ {b o}, (rootOnly root).heap b = some o →
      root = some b ∧ o = ⟨.directory, ascii "\\", 1, 0, true, none, []⟩ := by
    intro b o hb
    unfold rootOnly at hb
    dsimp only at hb
    split_ifs at hb with hroot
    exact ⟨hroot, (some.inj hb).symm⟩
  refine ⟨fun r hr => ⟨_, if_pos hr, rfl⟩, nofun, fun d od c hd hc => ?_,
    fun c o d hc hparent => ?_, fun a o ha => ?_, fun c o d od hc hd => ?_⟩
  · rw [(hback hd).2] at hc
    exact nomatch hc
  · rw [(hback hc).2] at hparent
    exact nomatch hparent
  · have hnone : count (· == some a) (rootOnly root).handles = 0 := by
      unfold Table.count
      rw [card_eq_zero, filter_eq_empty_iff]
      exact fun _ _ => nofun
    rw [(hback ha).2]
    exact (congrArg Nat.cast hnone).symm
  · rw [(hback hc).2, (hback hd).2]
    rfl

lemma Consistent.live_of_obLookupPath (hs : Consistent s) {path : List UInt8}
    (h : s.obLookupPath path = some a) : s.Live a := by
  unfold obLookupPath at h
  split_ifs at h
  · exact hs.root_is_live h
  dsimp only at h
  generalize (if (path.take 191).head? = some 92 then (path.take 191).tail
    else path.take 191).splitOn 92 = segs at h
  -- The walk keeps a live object, segment by segment.
  have hroot : ∀ {r}, s.root = some r → s.Live r := hs.root_is_live
  generalize s.root = cur at h hroot
  induction segs generalizing cur with
  | nil => exact hroot h
  | cons seg segs ih =>
    refine ih _ h fun {r} hr => ?_
    dsimp only at hr
    split_ifs at hr
    · exact hroot hr
    · obtain ⟨d, -, hd⟩ := bind_eq_some_iff.1 hr
      obtain ⟨od, -, hfind⟩ := bind_eq_some_iff.1 hd
      have hname := find?_some hfind
      obtain ⟨o, ho, -⟩ := (any_eq_true _ _).1 hname
      exact live_of_eq ho

section Start

variable {P : Ob → Prop} (hroot : ∀ r, P (rootOnly r))
  (hstep : ∀ s c, Consistent s → P s → s.Mild c → P (s.step c))

include hstep in
lemma seed_rule (hs : Consistent s ∧ P s) (type : UInt32) (text : String) (grant : Option Addr)
    (hdir : ∀ d ∈ dir, s.Live d) :
    (Consistent (s.seed type text dir grant) ∧ P (s.seed type text dir grant)) ∧
      ∀ d, s.Live d → (s.seed type text dir grant).Live d := by
  have hone : ∀ {s : Ob} (c : Call), Consistent s ∧ P s → s.Mild c →
      Consistent (s.step c) ∧ P (s.step c) :=
    fun c hs hc => ⟨hs.1.step hc.onLive, hstep _ c hs.1 hs.2 hc⟩
  have hs' := hone (.obCreateObject type (ascii text) dir grant) hs hdir
  rw [step] at hs'
  unfold seed
  rcases hs.1.obCreateObject_cases type grant hdir with ⟨status, heq⟩ | ⟨s', a, t, heq, h⟩
  · rw [heq]
    exact ⟨hs, fun _ => id⟩
  · rw [heq] at hs' ⊢
    dsimp only at hs' ⊢
    have hperm : (s'.obMakePermanent a).heap a =
        some { newObject t (ascii text) with
          permanent := true, parent := s.parentFor (ascii text) dir } := by
      rw [obMakePermanent, modify_heap, h.self, map_some, if_pos rfl]
    have hs₁ := hone (.obMakePermanent a) hs' (live_of_eq h.self)
    have hs₂ := hone (.obDereferenceObject a) hs₁ ⟨_, hperm, rfl⟩
    have hlower : (s'.obMakePermanent a).obDereferenceObject a =
        (s'.obMakePermanent a).modify a fun o => { o with refCount := lower o.refCount } := by
      refine obMaybeDelete_of_not (o := { newObject t (ascii text) with
        permanent := true, refCount := lower 1, parent := s.parentFor (ascii text) dir }) ?_ rfl
      rw [modify_heap, hperm, map_some, if_pos rfl]
      rfl
    refine ⟨hs₂, fun d hd => ?_⟩
    rw [hlower]
    exact live_modify.2 (live_modify.2 (h.live hd))

include hroot hstep in
/-- **The rule for `ob_init`**: what holds of the root directory alone and is kept by the calls of
`ob_init` holds of the manager that it leaves. -/
theorem obInit_rule (grant : Fin 7 → Option Addr) : Consistent (obInit grant) ∧
    P (obInit grant) := by
  unfold obInit
  dsimp only
  have h₀ : Consistent (rootOnly (grant 0)) ∧ P (rootOnly (grant 0)) :=
    ⟨consistent_rootOnly _, hroot _⟩
  generalize rootOnly (grant 0) = s₀ at h₀
  split_ifs
  · exact h₀
  have hone : ∀ {s : Ob} type text (grant : Option Addr),
      Consistent s ∧ P s → _ := fun type text grant hs =>
    (seed_rule hstep hs type text grant fun d hd => hs.1.root_is_live hd).1
  have h₁ := hone 0 "BaseNamedObjects" (grant 1) h₀
  generalize s₀.seed 0 "BaseNamedObjects" s₀.root (grant 1) = s₁ at h₁
  have h₂ := hone 0 "Device" (grant 2) h₁
  generalize s₁.seed 0 "Device" s₁.root (grant 2) = s₂ at h₂
  have h₃ := hone 0 "ObjectTypes" (grant 3) h₂
  generalize s₂.seed 0 "ObjectTypes" s₂.root (grant 3) = s₃ at h₃
  have h₄ := hone 0 "KernelObjects" (grant 4) h₃
  generalize s₃.seed 0 "KernelObjects" s₃.root (grant 4) = s₄ at h₄
  have hbno := fun d (hd : d ∈ s₄.obLookupPath (ascii "\\BaseNamedObjects")) =>
    h₄.1.live_of_obLookupPath hd
  generalize s₄.obLookupPath (ascii "\\BaseNamedObjects") = bno at hbno
  have h₅ := seed_rule hstep h₄ 1 "SubOsBootEvent" (grant 5) hbno
  exact (seed_rule hstep h₅.1 2 _ (grant 6) fun d hd => h₅.2 d (hbno d hd)).1

end Start

lemma consistent_obInit (grant : Fin 7 → Option Addr) : Consistent (obInit grant) :=
  (obInit_rule (P := fun _ => True) (fun _ => trivial) (fun _ _ _ _ _ => trivial) grant).1

/-- **Every sequence of calls on live objects after `ob_init` keeps the Object Manager consistent**:
no handle, child list or parent names a freed object, the handle counts are right, and an object is
in a child list once if the directory is its parent and otherwise not at all. -/
theorem consistent_run (grant : Fin 7 → Option Addr) (cs : List Call)
    (hlive : EventRun.Along step OnLive (obInit grant) cs) :
    Consistent (EventRun.run step (obInit grant) cs) :=
  EventRun.run_invariant_of_along (fun _ _ hs hc => hs.step hc) (consistent_obInit grant) hlive

/-- The allocations of `ob_init` get the addresses 1 to 7. -/
def sevenGrants : Fin 7 → Option Addr := fun i => some (i + 1)

/-- A directory with an event, to which a handle is opened; both lose the reference of their
creator, the event even twice, and then the handle is closed. -/
def directoryCalls : List Call :=
  [.obCreateObject 0 (ascii "D") none (some 8), .obCreateObject 1 (ascii "E") (some 8) (some 9),
    .obOpenHandle 9, .obDereferenceObject 8, .obDereferenceObject 9, .obDereferenceObject 9,
    .obCloseHandle 4]

theorem consistent_run_directory :
    EventRun.Along step OnLive (obInit sevenGrants) directoryCalls ∧
      Consistent (EventRun.run step (obInit sevenGrants) directoryCalls) := by
  have hlive : EventRun.Along step OnLive (obInit sevenGrants) directoryCalls := by decide +kernel
  exact ⟨hlive, consistent_run sevenGrants directoryCalls hlive⟩

end Ob

end SubOS.Nt
