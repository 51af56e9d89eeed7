import SubOS.Fs.Tree
import SubOS.Lib.EventRun

set_option autoImplicit false

/-!
# Opening and creating

`vfs_open` creates a missing file and truncates an existing one before it looks for a free
descriptor. If it finds none, it returns -1 and the file remains created, or truncated. `vfs_mkdir`
does not look whether the name is taken, and names are cut to 127 bytes after the lookup.

## Main definitions

* `Vfs.Atomic`, `Vfs.OpenSafe` — a call of `vfs_open` that fails changes nothing; when that is so.
* `Vfs.Opened`, `Vfs.Grows` — what the calls do to the tree of names.
* `Vfs.Keeps`, `Vfs.Fresh` — a call leaves names distinct; its name is not taken.

## Main results

* `Vfs.atomic_iff`, `Vfs.failed_open_creates` — which calls of `vfs_open` are atomic.
* `Vfs.names_iff`, `Vfs.same_name_twice` — in which sequences of calls names stay distinct.
* `Vfs.paths_stay`, `Vfs.opened_stays` — a path names the same node for good.
-/

namespace SubOS.Fs

open Option List EventRun

open ByteMemory (ascii)

/-- The calls that create names. -/
inductive NameCall where
  | mkdir (path : Name) (granted : Bool)
  | openFile (path : Name) (flags : UInt32) (granted : Bool)

namespace Vfs

/-! ## Failed opens -/

/-- The call stays inside its buffers, and if it returns -1 the directory tree, the files and the
descriptors are as before. -/
def Atomic (s : Vfs) (path : Name) (flags : UInt32) (granted : Bool) : Prop :=
  ∃ s' r, s.vfsOpen path flags granted = some (s', r) ∧ (r = -1 → s' = s)

/-- The path fits into the buffers. If it names something, there is a free descriptor, or the node
is not truncated, or it is empty. If it does not and a file is created for it, there is a free
descriptor and the name is not cut. -/
def OpenSafe (s : Vfs) (path : Name) (flags : UInt32) (granted : Bool) : Prop :=
  ∃ abs ∈ vfsResolvePath s.cwd path,
    (∀ node ∈ (s.vfsNamei abs).join,
      s.freeFd.isSome = true ∨ flags &&& oTrunc = 0 ∨ (s.entries node).length = 0) ∧
    ((s.vfsNamei abs).join = none → flags &&& oCreat ≠ 0 →
      ∀ parent ∈ (s.vfsNamei (parentPath abs)).join,
        (s.entries parent).isDir = true → (s.entries parent).children.length < maxChildren →
          granted = true → s.freeFd.isSome = true ∧ (lastName abs).length ≤ 127)
  deriving Decidable

variable {s s' : Vfs} {p node : ℕ} {name path : Name} {flags : UInt32} {granted : Bool}
  {st : List Name} {c : NameCall}

/-! ### The end of the call -/

@[simp] lemma truncated_fds : (s.truncated node flags).fds = s.fds := by
  unfold truncated
  split_ifs <;> rfl

@[simp] lemma truncated_next : (s.truncated node flags).next = s.next := by
  unfold truncated
  split_ifs <;> rfl

lemma freeFd_truncated : (s.truncated node flags).freeFd = s.freeFd := by
  unfold freeFd
  rw [truncated_fds]

lemma openNode_of_freeFd {fd : Fin maxOpenFiles} (h : s.freeFd = some fd) :
    (s.openNode node flags).2 = fd.val := by
  unfold openNode
  dsimp only
  rw [freeFd_truncated, h]

lemma openNode_of_full (h : s.freeFd = none) :
    s.openNode node flags = (s.truncated node flags, -1) := by
  unfold openNode
  dsimp only
  rw [freeFd_truncated, h]

lemma truncated_eq_iff :
    s.truncated node flags = s ↔ flags &&& oTrunc = 0 ∨ (s.entries node).length = 0 := by
  unfold truncated
  by_cases htrunc : flags &&& oTrunc = 0
  · simp [htrunc]
  · rw [if_pos htrunc, or_iff_right htrunc]
    constructor
    · intro heq
      have hlen := congrArg (fun s : Vfs => (s.entries node).length) heq
      simpa using hlen.symm
    · intro hlen
      have hsame : { s.entries node with length := 0 } = s.entries node := by
        rw [← hlen]
      rw [hsame]
      simp [setEntry]

lemma openNode_unchanged_iff :
    ((s.openNode node flags).2 = -1 → (s.openNode node flags).1 = s) ↔
      s.freeFd.isSome = true ∨ flags &&& oTrunc = 0 ∨ (s.entries node).length = 0 := by
  cases hfd : s.freeFd with
  | some fd =>
    refine iff_of_true (fun hret => ?_) (.inl rfl)
    rw [openNode_of_freeFd hfd] at hret
    omega
  | none =>
    rw [openNode_of_full hfd]
    simpa using truncated_eq_iff

/-- A call that has created a file does not fail without a trace: there is one entry more. -/
lemma openNode_created_iff (node : ℕ) (flags : UInt32) (hfds : s'.fds = s.fds)
    (hnext : s'.next ≠ s.next) :
    ((s'.openNode node flags).2 = -1 → (s'.openNode node flags).1 = s) ↔
      s.freeFd.isSome = true := by
  have hfree : s'.freeFd = s.freeFd := by
    unfold freeFd
    rw [hfds]
  cases hfd : s.freeFd with
  | some fd =>
    refine iff_of_true (fun hret => ?_) rfl
    rw [openNode_of_freeFd (hfree.trans hfd)] at hret
    omega
  | none =>
    refine iff_of_false (fun hsame => hnext ?_) nofun
    rw [openNode_of_full (hfree.trans hfd)] at hsame
    rw [← congrArg Vfs.next (hsame rfl), truncated_next]

/-! ### What `vfs_open` does -/

/-- The directory that gets a new entry for the path: it is there and has room, and there is
memory. -/
structure Parent (s : Vfs) (st : List Name) (granted : Bool) (p : ℕ) : Prop where
  walk : s.walk s.root st.dropLast = some p
  isDir : (s.entries p).isDir = true
  room : (s.entries p).children.length < maxChildren
  granted : granted = true

/-- The new entry, with its name cut. -/
abbrev entryFor (isDir : Bool) (st : List Name) : RamfsEntry :=
  newEntry isDir ((st.getLastD []).take 127)

/-- **What `vfs_open` does with a path**: it opens what is there, refuses, or creates a file, which
it does not find if the name was cut. -/
inductive Opened (s : Vfs) (st : List Name) (flags : UInt32) (granted : Bool) : Vfs × ℤ → Prop where
  | found {node : ℕ} (h : s.walk s.root st = some node) :
      Opened s st flags granted (s.openNode node flags)
  | refused (h : s.walk s.root st = none)
      (hnot : flags &&& oCreat ≠ 0 → ∀ p, ¬ s.Parent st granted p) :
        Opened s st flags granted (s, -1)
  | created {p : ℕ} (h : s.walk s.root st = none) (hcreat : flags &&& oCreat ≠ 0)
      (hp : s.Parent st granted p) (hlen : (st.getLastD []).length ≤ 127) :
      Opened s st flags granted ((s.append p (entryFor false st)).openNode s.next flags)
  | lost {p : ℕ} (h : s.walk s.root st = none) (hcreat : flags &&& oCreat ≠ 0)
      (hp : s.Parent st granted p) (hlen : ¬ (st.getLastD []).length ≤ 127) :
      Opened s st flags granted (s.append p (entryFor false st), -1)

lemma Parent.of_walk {p q : ℕ} (hq : s.Parent st granted q)
    (hp : s.walk s.root st.dropLast = some p) :
    (s.entries p).isDir = true ∧ (s.entries p).children.length < maxChildren ∧ granted = true := by
  obtain rfl := some.inj (hp.symm.trans hq.walk)
  exact ⟨hq.isDir, hq.room, hq.granted⟩

lemma opened (hwf : s.WellFormed) (h : Resolved st)
    (hres : vfsResolvePath s.cwd path = some (joinPath st)) (flags : UInt32) (granted : Bool) :
    ∃ r, s.vfsOpen path flags granted = some r ∧ s.Opened st flags granted r := by
  unfold vfsOpen
  rw [hres]
  dsimp only
  rw [vfsNamei_joinPath s h, join_some]
  cases hwalk : s.walk s.root st with
  | some node => exact ⟨_, rfl, .found hwalk⟩
  | none =>
    by_cases hcreat : flags &&& oCreat ≠ 0
    · unfold createMissing
      rw [if_pos hcreat, h.parentPath_eq, vfsNamei_joinPath s h.dropLast, h.lastName_eq, join_some]
      cases hp : s.walk s.root st.dropLast with
      | none => exact ⟨_, rfl, .refused hwalk fun _ q hq => nomatch hp.symm.trans hq.walk⟩
      | some p =>
        dsimp only
        split_ifs with hdir
        · rw [ramfsAdd_eq, vfsNamei_joinPath _ h, join_some]
          split_ifs with hroom
          · have hparent : s.Parent st granted p := ⟨hp, hdir, hroom.1, hroom.2⟩
            rw [append_root, walk_created hwf false hwalk hp hdir]
            split_ifs with hlen
            · exact ⟨_, rfl, .created hwalk hcreat hparent hlen⟩
            · exact ⟨_, rfl, .lost hwalk hcreat hparent hlen⟩
          · rw [hwalk]
            exact ⟨_, rfl, .refused hwalk fun _ q hq => hroom (hq.of_walk hp).2⟩
        · exact ⟨_, rfl, .refused hwalk fun _ q hq => hdir (hq.of_walk hp).1⟩
    · dsimp only
      rw [if_neg hcreat]
      exact ⟨_, rfl, .refused hwalk fun h => absurd h hcreat⟩

/-- **A call of `vfs_open` is atomic if and only if it is safe**: for every tree, every descriptor
table, every path and all flags. -/
theorem atomic_iff (h : s.WellFormed) (path : Name) (flags : UInt32) (granted : Bool) :
    s.Atomic path flags granted ↔ s.OpenSafe path flags granted := by
  unfold OpenSafe
  cases hres : vfsResolvePath s.cwd path with
  | none =>
    refine iff_of_false ?_ (by simp)
    rintro ⟨s', r, hopen, -⟩
    unfold vfsOpen at hopen
    rw [hres] at hopen
    exact nomatch hopen
  | some abs =>
    obtain ⟨st, hst, rfl⟩ := exists_resolved h.cwd hres
    obtain ⟨r, hopen, hr⟩ := opened h hst hres flags granted
    have hatomic : s.Atomic path flags granted ↔ (r.2 = -1 → r.1 = s) := by
      unfold Atomic
      rw [hopen]
      constructor
      · rintro ⟨s', r', heq, hsame⟩
        rw [some.injEq] at heq
        rw [heq]
        exact hsame
      · exact fun hsame => ⟨_, _, rfl, hsame⟩
    simp only [hatomic, mem_some_iff, exists_eq_left', vfsNamei_joinPath s hst, join_some,
      hst.parentPath_eq, vfsNamei_joinPath s hst.dropLast, hst.lastName_eq]
    cases hr with
    | found hwalk =>
      rw [openNode_unchanged_iff]
      simp [hwalk]
    | refused hwalk hnot =>
      exact iff_of_true (fun _ => rfl) ⟨by simp [hwalk], fun _ hcreat p hp hdir hroom hgrant =>
        absurd ⟨hp, hdir, hroom, hgrant⟩ (hnot hcreat p)⟩
    | @created p hwalk hcreat hp hlen =>
      rw [openNode_created_iff s.next flags (append_fds s p _) (append_next_ne s p _),
        ← and_iff_left (a := s.freeFd.isSome = true) hlen]
      simp [hwalk, hcreat, hp.walk, hp.isDir, hp.room, hp.granted]
    | @lost p hwalk hcreat hp hlen =>
      refine iff_of_false (fun hsame => ?_) fun hsafe =>
        hlen (hsafe.2 hwalk hcreat p hp.walk hp.isDir hp.room hp.granted).2
      exact append_next_ne s p (entryFor false st) (congrArg Vfs.next (hsame rfl))

/-- A file is created while there are descriptors. -/
theorem atomic_iff_create : ramfsCreateRoot.OpenSafe (ascii "/new") oCreat true ∧
    ramfsCreateRoot.Atomic (ascii "/new") oCreat true := by
  have hsafe : ramfsCreateRoot.OpenSafe (ascii "/new") oCreat true := by decide +kernel
  exact ⟨hsafe, (atomic_iff wellFormed_ramfsCreateRoot _ _ _).2 hsafe⟩

/-- The tree at the start, with all descriptors in use. -/
def allOpen : Vfs := { ramfsCreateRoot with fds := fun _ => ⟨some 0, 0, 0⟩ }

/-- **A failed open leaves its traces.** Without a free descriptor `vfs_open` returns -1: a missing
file has been created, and another one is empty now. -/
theorem failed_open_creates :
    (∃ s', allOpen.vfsOpen (ascii "/new") oCreat true = some (s', -1) ∧
      allOpen.vfsNamei (ascii "/new") = some none ∧ s'.vfsNamei (ascii "/new") = some (some 17)) ∧
    (∃ s', allOpen.vfsOpen (ascii "/etc/hostname") oTrunc true = some (s', -1) ∧
      allOpen.vfsNamei (ascii "/etc/hostname") = some (some 12) ∧
      (allOpen.entries 12).length = 7 ∧ (s'.entries 12).length = 0) := by
  have hcreate : (allOpen.vfsOpen (ascii "/new") oCreat true).any (fun r =>
      decide (r.2 = -1) && decide (r.1.vfsNamei (ascii "/new") = some (some 17))) = true := by
    decide +kernel
  have htrunc : (allOpen.vfsOpen (ascii "/etc/hostname") oTrunc true).any (fun r =>
      decide (r.2 = -1) && decide ((r.1.entries 12).length = 0)) = true := by
    decide +kernel
  obtain ⟨⟨s₁, r₁⟩, hopen₁, hfacts₁⟩ := (any_eq_true _ _).1 hcreate
  obtain ⟨⟨s₂, r₂⟩, hopen₂, hfacts₂⟩ := (any_eq_true _ _).1 htrunc
  simp only [Bool.and_eq_true, decide_eq_true_iff] at hfacts₁ hfacts₂
  obtain ⟨rfl, hnew⟩ := hfacts₁
  obtain ⟨rfl, hlen⟩ := hfacts₂
  exact ⟨⟨s₁, hopen₁, by decide +kernel, hnew⟩,
    ⟨s₂, hopen₂, by decide +kernel, by decide +kernel, hlen⟩⟩

/-! ## Distinct names -/

def nameCall (s : Vfs) : NameCall → Option (Vfs × ℤ)
  | .mkdir path granted => s.vfsMkdir path granted
  | .openFile path flags granted => s.vfsOpen path flags granted

def nameStep (s : Vfs) (c : NameCall) : Vfs := ((s.nameCall c).map Prod.fst).getD s

/-- No two children of a directory have the same name. -/
def NamesDistinct (s : Vfs) : Prop :=
  ∀ d < s.next, ((s.entries d).children.map fun c => (s.entries c).name).Nodup

/-- What the path names after a call that succeeded. A directory was not there before; a file is the
one behind the descriptor, and is new or was there before. -/
def Named (s s' : Vfs) (r : ℤ) : NameCall → Prop
  | .mkdir path _ =>
    r = 0 → s.vfsNamei path = some none ∧ s'.vfsNamei path = some (some s.next)
  | .openFile path _ _ =>
    0 ≤ r → ∃ fd node, s'.descriptor r = some (fd, node) ∧ s'.vfsNamei path = some (some node) ∧
      (s.vfsNamei path = some (some node) ∨ s.vfsNamei path = some none ∧ node = s.next)

/-- The call stays inside its buffers, leaves the names of every directory distinct, and its path
names the node if it succeeded. -/
def Keeps (s : Vfs) (c : NameCall) : Prop :=
  ∃ s' r, s.nameCall c = some (s', r) ∧ s'.NamesDistinct ∧ s.Named s' r c

/-- The path fits into the buffers. If `vfs_mkdir` creates a directory, its name is not empty, is
not cut, and no child of the parent has it; if `vfs_open` creates a file, no child of the parent has
its name, after the cut. -/
def Fresh (s : Vfs) : NameCall → Prop
  | .mkdir path granted => ∃ abs ∈ vfsResolvePath s.cwd path,
    ∀ parent ∈ (s.vfsNamei (parentPath abs)).join, (s.entries parent).isDir = true →
      (s.entries parent).children.length < maxChildren → granted = true →
        lastName abs ≠ [] ∧ (lastName abs).length ≤ 127 ∧
          ∀ c ∈ (s.entries parent).children, (s.entries c).name ≠ lastName abs
  | .openFile path flags granted => ∃ abs ∈ vfsResolvePath s.cwd path,
    (s.vfsNamei abs).join = none → flags &&& oCreat ≠ 0 →
      ∀ parent ∈ (s.vfsNamei (parentPath abs)).join, (s.entries parent).isDir = true →
        (s.entries parent).children.length < maxChildren → granted = true →
          ∀ c ∈ (s.entries parent).children, (s.entries c).name ≠ (lastName abs).take 127

/-! ### States with the same tree -/

/-- The two states have the same tree of names. -/
structure SameTree (s s' : Vfs) : Prop where
  next : s'.next = s.next
  root : s'.root = s.root
  cwd : s'.cwd = s.cwd
  name : ∀ i, (s'.entries i).name = (s.entries i).name
  isDir : ∀ i, (s'.entries i).isDir = (s.entries i).isDir
  mounted : ∀ i, (s'.entries i).mounted = (s.entries i).mounted
  children : ∀ i, (s'.entries i).children = (s.entries i).children

lemma SameTree.walk (h : SameTree s s') (i : ℕ) (st : List Name) : s'.walk i st = s.walk i st := by
  induction st generalizing i with
  | nil => rfl
  | cons c st ih =>
    have hlookup : s'.lookup i c = s.lookup i c := by
      simp only [lookup, ramfsFinddir, h.isDir, h.children, h.name, h.mounted]
    rw [Vfs.walk, Vfs.walk, hlookup]
    exact congrArg _ (funext ih)

lemma SameTree.wellFormed (h : SameTree s s') (hwf : s.WellFormed) : s'.WellFormed where
  children i hi c hc := by
    rw [h.next] at hi ⊢
    exact hwf.children i hi c (h.children i ▸ hc)
  mounted i hi m hm := by
    rw [h.next] at hi ⊢
    exact hwf.mounted i hi m (h.mounted i ▸ hm)
  root := by
    rw [h.root, h.next]
    exact hwf.root
  cwd := by
    rw [h.cwd]
    exact hwf.cwd

lemma SameTree.namesDistinct_iff (h : SameTree s s') : s'.NamesDistinct ↔ s.NamesDistinct := by
  simp only [NamesDistinct, h.next, h.children, h.name]

lemma sameTree_openNode (s : Vfs) (node : ℕ) (flags : UInt32) :
    SameTree s (s.openNode node flags).1 := by
  obtain ⟨fds, hopen⟩ :
    ∃ fds, (s.openNode node flags).1 = { s.truncated node flags with fds := fds } := by
    unfold openNode
    dsimp only
    cases (s.truncated node flags).freeFd with
    | none => exact ⟨_, rfl⟩
    | some fd => exact ⟨_, rfl⟩
  have hfield : ∀ {α : Type} (f : RamfsEntry → α)
    (_ : ∀ e : RamfsEntry, f { e with length := 0 } = f e)
      (i : ℕ), f ((s.truncated node flags).entries i) = f (s.entries i) := by
    intro α f hf i
    unfold truncated
    split_ifs
    · by_cases hi : i = node
      · subst hi
        simpa using hf (s.entries i)
      · simp [hi]
    · rfl
  have hrest : (s.truncated node flags).root = s.root ∧ (s.truncated node flags).cwd = s.cwd := by
    unfold truncated
    split_ifs <;> exact ⟨rfl, rfl⟩
  rw [hopen]
  exact ⟨truncated_next, hrest.1, hrest.2, hfield _ fun _ => rfl, hfield _ fun _ => rfl,
    hfield _ fun _ => rfl, hfield _ fun _ => rfl⟩

/-- The tree of names stays, or gets one new entry. -/
def Grows (s s' : Vfs) : Prop :=
  SameTree s s' ∨ ∃ st granted p isDir, s.Parent st granted p ∧
    SameTree (s.append p (entryFor isDir st)) s'

lemma SameTree.refl (s : Vfs) : SameTree s s :=
  ⟨rfl, rfl, rfl, fun _ => rfl, fun _ => rfl, fun _ => rfl, fun _ => rfl⟩

lemma Grows.refl (s : Vfs) : s.Grows s := .inl (.refl s)

lemma Opened.grows {r : Vfs × ℤ} (h : s.Opened st flags granted r) : s.Grows r.1 := by
  cases h with
  | found => exact .inl (sameTree_openNode ..)
  | refused => exact .refl s
  | created _ _ hp => exact .inr ⟨_, _, _, false, hp, sameTree_openNode ..⟩
  | lost _ _ hp => exact .inr ⟨_, _, _, false, hp, .refl _⟩

lemma descriptor_openNode (hr : 0 ≤ (s.openNode node flags).2) :
    ∃ fd, (s.openNode node flags).1.descriptor (s.openNode node flags).2 = some (fd, node) := by
  cases hfd : s.freeFd with
  | none =>
    rw [openNode_of_full hfd] at hr
    exact absurd (show 0 ≤ -1 from hr) (by decide)
  | some fd =>
    refine ⟨fd, ?_⟩
    rw [openNode_of_freeFd hfd]
    unfold descriptor
    rw [dif_pos ⟨by omega, by omega⟩]
    have hnode : ((s.openNode node flags).1.fds fd).node = some node := by
      unfold openNode
      dsimp only
      rw [freeFd_truncated, hfd]
      simp
    simp only [Int.toNat_natCast, hnode, map_some]

/-! ### A new name -/

/-- **A new entry leaves the names distinct** if and only if no child of its directory has its name.
-/
theorem namesDistinct_append_iff (hwf : s.WellFormed) (h : s.NamesDistinct) (hp : p < s.next)
    {child : RamfsEntry} (hleaf : child.children = []) :
    (s.append p child).NamesDistinct ↔
      ∀ c ∈ (s.entries p).children, (s.entries c).name ≠ child.name := by
  have hnames : ∀ d < s.next, ((s.entries d).children.map fun c =>
      ((s.append p child).entries c).name) = (s.entries d).children.map
        fun c => (s.entries c).name :=
    fun d hd => map_congr_left fun c hc => (append_entries_name (hwf.children d hd c hc)).1
  have hparent : ((s.append p child).entries p).children.map
      (fun c => ((s.append p child).entries c).name) =
      ((s.entries p).children.map fun c => (s.entries c).name) ++ [child.name] := by
    rw [append_entries_parent, map_append, hnames p hp, map_singleton, append_entries_next hp]
  constructor
  · intro hdistinct c hc heq
    have hnodup := hdistinct p (Nat.lt_succ_of_lt hp)
    rw [hparent, nodup_append] at hnodup
    exact hnodup.2.2 _ (mem_map_of_mem hc) _ (mem_singleton_self _) heq
  · intro hfresh d hd
    rcases Nat.lt_succ_iff_lt_or_eq.1 hd with hlt | rfl
    · by_cases hdp : d = p
      · subst hdp
        rw [hparent, nodup_append]
        refine ⟨h d hlt, by simp, ?_⟩
        intro x hx y hy
        obtain ⟨c, hc, rfl⟩ := mem_map.1 hx
        rw [mem_singleton.1 hy]
        exact hfresh c hc
      · rw [append_entries_of_ne hdp hlt, hnames d hlt]
        exact h d hlt
    · rw [append_entries_next hp, hleaf]
      exact nodup_nil

lemma lookup_eq_none_iff (hdir : (s.entries p).isDir = true) :
    s.lookup p name = none ↔ ∀ c ∈ (s.entries p).children, (s.entries c).name ≠ name := by
  unfold lookup ramfsFinddir
  rw [if_pos hdir, map_eq_none_iff, find?_eq_none]
  simp

/-! ### One call -/

lemma keeps_iff_of_call {r : Vfs × ℤ} (hcall : s.nameCall c = some r) :
    s.Keeps c ↔ r.1.NamesDistinct ∧ s.Named r.1 r.2 c := by
  unfold Keeps
  rw [hcall]
  constructor
  · rintro ⟨s', n, heq, hkeeps⟩
    cases heq
    exact hkeeps
  · exact fun hkeeps => ⟨_, _, rfl, hkeeps⟩

lemma keeps_of_refused (h : s.NamesDistinct) (hcall : s.nameCall c = some (s, -1)) : s.Keeps c := by
  refine (keeps_iff_of_call hcall).2 ⟨h, ?_⟩
  show s.Named s (-1) c
  cases c with
  | mkdir path granted | openFile path flags granted => exact fun hr => absurd hr (by decide)

/-- A new directory: it keeps the names if its own is not empty, not cut and not taken. -/
lemma keeps_mkdir_created_iff (hwf : s.WellFormed) (h : s.NamesDistinct) (hst : Resolved st)
    (hres : vfsResolvePath s.cwd path = some (joinPath st)) (hparent : s.Parent st granted p)
    (hcall : s.nameCall (.mkdir path granted) = some (s.append p (entryFor true st), 0)) :
    s.Keeps (.mkdir path granted) ↔ st.getLastD [] ≠ [] ∧ (st.getLastD []).length ≤ 127 ∧
      ∀ c ∈ (s.entries p).children, (s.entries c).name ≠ st.getLastD [] := by
  obtain ⟨hp, hdir, -, -⟩ := hparent
  have hlt := hwf.walk_lt hwf.root hp
  have hres' : vfsResolvePath (s.append p (entryFor true st)).cwd path = some (joinPath st) := hres
  have hkeeps : s.Keeps (.mkdir path granted) ↔ (s.append p (entryFor true st)).NamesDistinct ∧
      s.walk s.root st = none ∧ (s.append p (entryFor true st)).walk s.root st = some s.next := by
    rw [keeps_iff_of_call hcall]
    simp only [Named, vfsNamei_of_resolves hst hres, vfsNamei_of_resolves hst hres', some.injEq,
      forall_const]
    rfl
  rw [hkeeps, namesDistinct_append_iff hwf h hlt rfl]
  cases st using reverseRecOn with
  | nil =>
    -- the root: the new directory has no name, and the path still names the root
    exact iff_of_false (fun hk => nomatch hk.2.1) fun hf => hf.1 rfl
  | append_singleton st c =>
    have hlast : (st ++ [c]).getLastD [] = c := by simp
    rw [dropLast_concat] at hp
    unfold entryFor
    rw [hlast, walk_concat, hp, bind_some, lookup_eq_none_iff hdir]
    have hne := (hst.plain c (by simp)).ne_nil
    constructor
    · rintro ⟨-, hnone, hfound⟩
      rw [walk_new_entry hwf rfl hp hdir ((lookup_eq_none_iff hdir).2 hnone)] at hfound
      refine ⟨hne, ?_, hnone⟩
      by_contra hlong
      rw [if_neg fun heq => hlong (name_newEntry.1 heq)] at hfound
      exact nomatch hfound
    · rintro ⟨-, hlen, hfree⟩
      refine ⟨fun d hd => ?_, hfree, ?_⟩
      · rw [name_newEntry.2 hlen]
        exact hfree d hd
      · rw [walk_new_entry hwf rfl hp hdir ((lookup_eq_none_iff hdir).2 hfree),
          if_pos (name_newEntry.2 hlen)]

/-- **What `vfs_mkdir` does**: it refuses, or creates a directory. -/
lemma mkdir_cases (h : Resolved st) (hres : vfsResolvePath s.cwd path = some (joinPath st))
    (granted : Bool) :
    (s.vfsMkdir path granted = some (s, -1) ∧ ∀ p, ¬ s.Parent st granted p) ∨
      ∃ p, s.Parent st granted p ∧
        s.vfsMkdir path granted = some (s.append p (entryFor true st), 0) := by
  unfold vfsMkdir
  rw [hres]
  dsimp only
  rw [h.parentPath_eq, vfsNamei_joinPath s h.dropLast, h.lastName_eq, join_some]
  cases hp : s.walk s.root st.dropLast with
  | none => exact .inl ⟨rfl, fun q hq => nomatch hp.symm.trans hq.walk⟩
  | some p =>
    dsimp only
    split_ifs with hdir
    · rw [ramfsAdd_eq]
      split_ifs with hroom
      · exact .inr ⟨p, ⟨hp, hdir, hroom.1, hroom.2⟩, rfl⟩
      · exact .inl ⟨rfl, fun q hq => hroom (hq.of_walk hp).2⟩
    · exact .inl ⟨rfl, fun q hq => hdir (hq.of_walk hp).1⟩

lemma keeps_mkdir_iff (hwf : s.WellFormed) (h : s.NamesDistinct) (path : Name) (granted : Bool) :
    s.Keeps (.mkdir path granted) ↔ s.Fresh (.mkdir path granted) := by
  simp only [Fresh]
  cases hres : vfsResolvePath s.cwd path with
  | none =>
    refine iff_of_false ?_ (by simp)
    rintro ⟨s', r, hcall, -⟩
    simp only [nameCall, vfsMkdir, hres, reduceCtorEq] at hcall
  | some abs =>
    obtain ⟨st, hst, rfl⟩ := exists_resolved hwf.cwd hres
    simp only [mem_some_iff, exists_eq_left', hst.parentPath_eq, vfsNamei_joinPath s hst.dropLast,
      join_some, hst.lastName_eq]
    rcases mkdir_cases hst hres granted with ⟨hcall, hnot⟩ | ⟨p, hp, hcall⟩
    · exact iff_of_true (keeps_of_refused h hcall) fun p hp hdir hroom hgrant =>
        absurd ⟨hp, hdir, hroom, hgrant⟩ (hnot p)
    · rw [keeps_mkdir_created_iff hwf h hst hres hp hcall]
      simp [hp.walk, hp.isDir, hp.room, hp.granted]

lemma keeps_openNode_iff (hst : Resolved st) (hres : vfsResolvePath s.cwd path = some (joinPath st))
    (hcwd : s'.cwd = s.cwd) (hwalk : s'.walk s'.root st = some node)
    (hbefore : s.walk s.root st = some node ∨ s.walk s.root st = none ∧ node = s.next)
    (hcall : s.nameCall (.openFile path flags granted) = some (s'.openNode node flags)) :
    s.Keeps (.openFile path flags granted) ↔ s'.NamesDistinct := by
  have htree := sameTree_openNode s' node flags
  have hnamed : s.Named (s'.openNode node flags).1 (s'.openNode node flags).2
      (.openFile path flags granted) := by
    intro hr
    obtain ⟨fd, hfd⟩ := descriptor_openNode hr
    refine ⟨fd, node, hfd, ?_, ?_⟩
    · rw [vfsNamei_of_resolves hst (by rw [htree.cwd, hcwd, hres]), htree.walk, htree.root, hwalk]
    · rw [vfsNamei_of_resolves hst hres]
      simpa using hbefore
  rw [keeps_iff_of_call hcall, htree.namesDistinct_iff]
  exact and_iff_left hnamed

section

variable (hwf : s.WellFormed)
include hwf

lemma keeps_open_iff (h : s.NamesDistinct) (path : Name) (flags : UInt32) (granted : Bool) :
    s.Keeps (.openFile path flags granted) ↔ s.Fresh (.openFile path flags granted) := by
  simp only [Fresh]
  cases hres : vfsResolvePath s.cwd path with
  | none =>
    refine iff_of_false ?_ (by simp)
    rintro ⟨s', r, hcall, -⟩
    simp only [nameCall, vfsOpen, hres, reduceCtorEq] at hcall
  | some abs =>
    obtain ⟨st, hst, rfl⟩ := exists_resolved hwf.cwd hres
    obtain ⟨r, hopen, hr⟩ := opened hwf hst hres flags granted
    have hcall : s.nameCall (.openFile path flags granted) = some r := hopen
    simp only [mem_some_iff, exists_eq_left', vfsNamei_joinPath s hst, hst.parentPath_eq,
      vfsNamei_joinPath s hst.dropLast, join_some, hst.lastName_eq]
    -- the name that a created file has
    have hcut : (entryFor false st).name = (st.getLastD []).take 127 := by
      show ((st.getLastD []).take 127).take 127 = _
      rw [take_take, Nat.min_self]
    have hnew : ∀ {p : ℕ}, s.Parent st granted p → ((s.append p (entryFor false st)).NamesDistinct ↔
        ∀ c ∈ (s.entries p).children, (s.entries c).name ≠ (st.getLastD []).take 127) := fun hp =>
      hcut ▸ namesDistinct_append_iff hwf h (hwf.walk_lt hwf.root hp.walk) rfl
    cases hr with
    | found hwalk =>
      rw [keeps_openNode_iff hst hres rfl hwalk (.inl hwalk) hcall]
      exact iff_of_true h (by simp [hwalk])
    | refused hwalk hnot =>
      exact iff_of_true (keeps_of_refused h hcall) fun _ hcreat p hp hdir hroom hgrant =>
        absurd ⟨hp, hdir, hroom, hgrant⟩ (hnot hcreat p)
    | @created p hwalk hcreat hp hlen =>
      have hfound := walk_created hwf false hwalk hp.walk hp.isDir
      rw [if_pos hlen] at hfound
      have hkeeps : _ ↔ (s.append p (entryFor false st)).NamesDistinct :=
        keeps_openNode_iff hst hres rfl hfound (.inr ⟨hwalk, rfl⟩) hcall
      rw [hkeeps, hnew hp]
      simp [hwalk, hcreat, hp.walk, hp.isDir, hp.room, hp.granted]
    | @lost p hwalk hcreat hp hlen =>
      have hnamed : s.Named (s.append p (entryFor false st)) (-1) (.openFile path flags granted) :=
        fun hr => absurd hr (by decide)
      rw [keeps_iff_of_call hcall, and_iff_left hnamed, hnew hp]
      simp [hwalk, hcreat, hp.walk, hp.isDir, hp.room, hp.granted]

/-- **A call keeps the names if and only if it is fresh.** -/
theorem keeps_iff (h : s.NamesDistinct) (c : NameCall) : s.Keeps c ↔ s.Fresh c := by
  cases c with
  | mkdir path granted => exact keeps_mkdir_iff hwf h path granted
  | openFile path flags granted => exact keeps_open_iff hwf h path flags granted

/-! ### Sequences of calls -/

lemma Parent.wellFormed_append (hp : s.Parent st granted p) (isDir : Bool) :
    (s.append p (entryFor isDir st)).WellFormed :=
  hwf.append (hwf.walk_lt hwf.root hp.walk) rfl rfl

lemma Grows.wellFormed (h : s.Grows s') : s'.WellFormed := by
  rcases h with h | ⟨_, _, _, isDir, hp, h⟩
  · exact h.wellFormed hwf
  · exact h.wellFormed (hp.wellFormed_append hwf isDir)

/-- **A call adds at most one entry to the tree.** -/
lemma grows_nameStep (c : NameCall) : s.Grows (s.nameStep c) := by
  cases c with
  | mkdir path granted =>
    cases hres : vfsResolvePath s.cwd path with
    | none => simpa [nameStep, nameCall, vfsMkdir, hres] using .refl s
    | some abs =>
      obtain ⟨st, hst, rfl⟩ := exists_resolved hwf.cwd hres
      rcases mkdir_cases hst hres granted with ⟨hcall, -⟩ | ⟨p, hp, hcall⟩ <;>
        rw [nameStep, nameCall, hcall]
      · exact .refl s
      · exact .inr ⟨_, _, p, true, hp, .refl _⟩
  | openFile path flags granted =>
    cases hres : vfsResolvePath s.cwd path with
    | none => simpa [nameStep, nameCall, vfsOpen, hres] using .refl s
    | some abs =>
      obtain ⟨st, hst, rfl⟩ := exists_resolved hwf.cwd hres
      obtain ⟨r, hcall, hr⟩ := opened hwf hst hres flags granted
      rw [nameStep, nameCall, hcall]
      exact hr.grows

lemma Keeps.step (h : s.Keeps c) : (s.nameStep c).WellFormed ∧ (s.nameStep c).NamesDistinct := by
  obtain ⟨s', r, hcall, hdistinct, -⟩ := h
  have hstep : s.nameStep c = s' := by simp [nameStep, hcall]
  exact ⟨(grows_nameStep hwf c).wellFormed hwf, hstep ▸ hdistinct⟩

end

lemma namesDistinct_ramfsCreateRoot : ramfsCreateRoot.NamesDistinct := by
  unfold NamesDistinct
  decide +kernel

/-- **Names stay distinct and lead to what was created**, in a sequence of calls from the tree at
the start on, if and only if every call is fresh. -/
theorem names_iff (cs : List NameCall) :
    ramfsCreateRoot.NamesDistinct ∧
    (Along nameStep Keeps ramfsCreateRoot cs ↔
      Along nameStep Fresh ramfsCreateRoot cs) := by
  refine ⟨namesDistinct_ramfsCreateRoot, ?_⟩
  refine along_congr (fun s => s.WellFormed ∧ s.NamesDistinct)
    (fun s c hs => keeps_iff hs.1 hs.2 c) (fun s c hs hfresh => ?_)
    ⟨wellFormed_ramfsCreateRoot, namesDistinct_ramfsCreateRoot⟩ cs
  exact ((keeps_iff hs.1 hs.2 c).2 hfresh).step hs.1

/-- The names of the children of the root, as a test. -/
def rootNamesDistinct (s : Vfs) : Bool :=
  decide ((s.entries 0).children.map fun c => (s.entries c).name).Nodup

/-- **Two directories of one name.** The second `vfs_mkdir` of the path succeeds as well. A
directory with a name of 128 bytes is created and cannot be found. -/
theorem same_name_twice :
    (∃ s₁ s₂, ramfsCreateRoot.vfsMkdir (ascii "/a") true = some (s₁, 0) ∧
      s₁.vfsMkdir (ascii "/a") true = some (s₂, 0) ∧ ¬ s₂.NamesDistinct) ∧
    ∃ s₁, ramfsCreateRoot.vfsMkdir (slash :: List.replicate 128 0x61) true = some (s₁, 0) ∧
      s₁.vfsNamei (slash :: List.replicate 128 0x61) = some none := by
  have htwice : (ramfsCreateRoot.vfsMkdir (ascii "/a") true).any (fun r₁ => decide (r₁.2 = 0) &&
      (r₁.1.vfsMkdir (ascii "/a") true).any fun r₂ => decide (r₂.2 = 0) &&
        (decide (0 < r₂.1.next) && !r₂.1.rootNamesDistinct)) = true := by
    decide +kernel
  have hcut : (ramfsCreateRoot.vfsMkdir (slash :: replicate 128 0x61) true).any (fun r =>
      decide (r.2 = 0) &&
        decide (r.1.vfsNamei (slash :: replicate 128 0x61) = some none)) = true := by
    decide +kernel
  obtain ⟨⟨s₁, r₁⟩, hmkdir₁, hfacts₁⟩ := (any_eq_true _ _).1 htwice
  simp only [Bool.and_eq_true, decide_eq_true_iff] at hfacts₁
  obtain ⟨rfl, hagain⟩ := hfacts₁
  obtain ⟨⟨s₂, r₂⟩, hmkdir₂, hfacts₂⟩ := (any_eq_true _ _).1 hagain
  simp only [Bool.and_eq_true, decide_eq_true_iff, Bool.not_eq_true'] at hfacts₂
  obtain ⟨rfl, hpos, hnames⟩ := hfacts₂
  obtain ⟨⟨s₃, r₃⟩, hmkdir₃, hfacts₃⟩ := (any_eq_true _ _).1 hcut
  simp only [Bool.and_eq_true, decide_eq_true_iff] at hfacts₃
  obtain ⟨rfl, hlost⟩ := hfacts₃
  refine ⟨⟨s₁, s₂, hmkdir₁, hmkdir₂, fun hdistinct => ?_⟩, s₃, hmkdir₃, hlost⟩
  rw [rootNamesDistinct, decide_eq_false_iff_not] at hnames
  exact hnames (hdistinct 0 hpos)

/-! ## Paths stay -/

/-- The path leads to the node. -/
structure Leads (cwd : Name) (st : List Name) (node : ℕ) (s : Vfs) : Prop where
  wellFormed : s.WellFormed
  cwd : s.cwd = cwd
  walk : s.walk s.root st = some node

namespace Leads

variable {cwd : Name} {st' : List Name} (h : Leads cwd st node s)
include h

lemma sameTree (hsame : SameTree s s') : Leads cwd st node s' :=
  ⟨hsame.wellFormed h.wellFormed, hsame.cwd.trans h.cwd, by rw [hsame.root, hsame.walk, h.walk]⟩

lemma append (hp : s.Parent st' granted p) (isDir : Bool) :
    Leads cwd st node (s.append p (entryFor isDir st')) := by
  have hroot := h.wellFormed.root
  exact ⟨hp.wellFormed_append h.wellFormed isDir, h.cwd,
    walk_append_entry h.wellFormed (h.wellFormed.walk_lt hroot hp.walk) rfl hroot h.walk⟩

/-- No call of `vfs_mkdir` or `vfs_open` makes a path lead elsewhere. -/
lemma step (c : NameCall) : Leads cwd st node (s.nameStep c) := by
  rcases grows_nameStep h.wellFormed c with hsame | ⟨_, _, _, isDir, hp, hsame⟩
  · exact h.sameTree hsame
  · exact (h.append hp isDir).sameTree hsame

lemma vfsNamei_run (hst : Resolved st) (hres : vfsResolvePath cwd path = some (joinPath st))
    (ds : List NameCall) : (run nameStep s ds).vfsNamei path = some (some node) := by
  have hstep : ∀ t c, Leads cwd st node t → Leads cwd st node (t.nameStep c) :=
    fun _ c ht => step ht c
  have hrun := run_invariant hstep h ds
  rw [vfsNamei_of_resolves hst (hrun.cwd.symm ▸ hres), hrun.walk]

end Leads

lemma wellFormed_calls (cs : List NameCall) : (run nameStep ramfsCreateRoot cs).WellFormed := by
  have hroot : Leads _ [] _ ramfsCreateRoot := ⟨wellFormed_ramfsCreateRoot, rfl, rfl⟩
  exact (run_invariant (fun _ c ht => ht.step c) hroot cs).wellFormed

/-- **Paths stay.** What a path names after some calls of `vfs_mkdir` and `vfs_open`, it names after
any further calls, also where a name is given twice or cut and where a call fails. -/
theorem paths_stay (cs ds : List NameCall)
    (h : (run nameStep ramfsCreateRoot cs).vfsNamei path = some (some node)) :
    (run nameStep ramfsCreateRoot (cs ++ ds)).vfsNamei path = some (some node) := by
  have hwf := wellFormed_calls cs
  rw [run_append]
  generalize run nameStep ramfsCreateRoot cs = s at h hwf ⊢
  cases hres : vfsResolvePath s.cwd path with
  | none => simp [vfsNamei, hres] at h
  | some abs =>
    obtain ⟨st, hst, rfl⟩ := exists_resolved hwf.cwd hres
    rw [vfsNamei_of_resolves hst hres, some.injEq] at h
    exact Leads.vfsNamei_run ⟨hwf, rfl, h⟩ hst hres ds

/-- A directory made twice, with a file in it, is still the first one. -/
theorem paths_stay_twice :
    (run nameStep ramfsCreateRoot ([.mkdir (ascii "/a") true] ++
      [.mkdir (ascii "/a") true, .openFile (ascii "/a/b") oCreat true])).vfsNamei (ascii "/a") =
        some (some 17) :=
  paths_stay _ _ (by decide +kernel)

/-- **A descriptor and its path.** When a `vfs_open` after any calls succeeds, whether it found the
file or created it, its path names the file behind the descriptor, then and after any further calls.
-/
theorem opened_stays (cs ds : List NameCall) {r : ℤ} (hr : 0 ≤ r)
    (hopen : (run nameStep ramfsCreateRoot cs).vfsOpen path flags granted = some (s', r)) :
    ∃ fd node, s'.descriptor r = some (fd, node) ∧
      (run nameStep s' ds).vfsNamei path = some (some node) := by
  have hwf := wellFormed_calls cs
  generalize run nameStep ramfsCreateRoot cs = s at hopen hwf
  cases hres : vfsResolvePath s.cwd path with
  | none => simp [vfsOpen, hres] at hopen
  | some abs =>
    obtain ⟨st, hst, rfl⟩ := exists_resolved hwf.cwd hres
    obtain ⟨r', hcall, hcase⟩ := opened hwf hst hres flags granted
    have hsame : r' = (s', r) := some.inj (hcall.symm.trans hopen)
    obtain ⟨t, node, ht, heq⟩ : ∃ t node, Leads s.cwd st node t ∧
      t.openNode node flags = (s', r) := by
      cases hcase with
      | found hwalk => exact ⟨s, _, ⟨hwf, rfl, hwalk⟩, hsame⟩
      | created hwalk _ hp hlen =>
        refine ⟨_, _, ⟨hp.wellFormed_append hwf false, rfl, ?_⟩, hsame⟩
        exact (walk_created hwf false hwalk hp.walk hp.isDir).trans (if_pos hlen)
      | refused | lost =>
        cases hsame
        cases hr
    have htree := sameTree_openNode t node flags
    have hfd := @descriptor_openNode t node flags
    rw [heq] at htree hfd
    obtain ⟨fd, hfd⟩ := hfd hr
    exact ⟨fd, node, hfd, (ht.sameTree htree).vfsNamei_run hst hres ds⟩

/-- The file `/a` is created, and then a directory of the same name. -/
theorem opened_stays_created :
    ∃ s', ramfsCreateRoot.vfsOpen (ascii "/a") oCreat true = some (s', 3) ∧ ∃ fd node,
      s'.descriptor 3 = some (fd, node) ∧
        (run nameStep s' [.mkdir (ascii "/a") true]).vfsNamei (ascii "/a") = some (some node) := by
  have hopen : (ramfsCreateRoot.vfsOpen (ascii "/a") oCreat true).map Prod.snd = some 3 := by
    decide +kernel
  obtain ⟨⟨s', r⟩, hcall, rfl⟩ := map_eq_some_iff.1 hopen
  exact ⟨s', hcall, opened_stays [] _ (by decide) hcall⟩

end Vfs

end SubOS.Fs
