import SubOS.Fs.Vfs

set_option autoImplicit false

/-!
# Resolved paths

`vfs_resolve_path` turns a path into a list of components and writes them out again, each behind a
slash. A path of this form resolves to itself, and looking it up is a walk from the root along its
components. A new entry changes no walk that found something before.

## Main definitions

* `Resolved`, `WellFormed` — the components of a resolved path; the pointers lead to entries.

## Main results

* `vfsNamei_joinPath`, `walk_append_entry`, `walk_new_entry` — paths are walks.
-/

namespace SubOS.Fs

open List Option

/-- A component that a resolved path may have. -/
structure PlainName (c : Name) : Prop where
  ne_nil : c ≠ []
  noSlash : slash ∉ c
  ne_dot : c ≠ dot
  ne_dotDot : c ≠ dotDot

/-- The components of a resolved path. -/
structure Resolved (st : List Name) : Prop where
  plain : ∀ c ∈ st, PlainName c
  depth : st.length ≤ 32
  fits : (joinPath st).length < 256

variable {st : List Name} {c cwd path abs : Name}

/-! ## Components -/

lemma components_append (xs ys : Name) :
    components (xs ++ slash :: ys) = components xs ++ components ys := by
  unfold components splitOn
  rw [splitOnP_append_cons _ _ (by simp), filter_append]

lemma components_of_noSlash (hne : c ≠ []) (h : slash ∉ c) : components c = [c] := by
  have hsplit : splitOn slash ([slash].intercalate [c]) = [c] :=
    splitOn_intercalate slash (by simpa using h) (by simp)
  rw [intercalate_singleton] at hsplit
  unfold components
  rw [hsplit]
  simp [hne]

lemma not_mem_of_mem_splitOn {α : Type*} [BEq α] [LawfulBEq α] {a : α} {l part : List α}
    (h : part ∈ l.splitOn a) : a ∉ part := by
  induction l generalizing part with
  | nil =>
    rw [show ([] : List α).splitOn a = [[]] from rfl, mem_singleton] at h
    simp [h]
  | cons x l ih =>
    unfold splitOn at h ih
    rw [splitOnP_cons_eq_if_modifyHead] at h
    split_ifs at h with hx
    · rcases mem_cons.1 h with rfl | h
      · simp
      · exact ih h
    · cases hl : l.splitOnP (· == a) with
      | nil =>
        rw [hl] at h
        exact nomatch h
      | cons head tail =>
        rw [hl] at h ih
        rcases mem_cons.1 h with rfl | h
        · have hne : a ≠ x := fun heq => hx (by simp [heq])
          simpa [hne] using ih (mem_cons_self ..)
        · exact ih (mem_cons_of_mem _ h)

lemma of_mem_components (h : c ∈ components path) : c ≠ [] ∧ slash ∉ c := by
  unfold components at h
  rw [mem_filter] at h
  exact ⟨by simpa using h.2, not_mem_of_mem_splitOn h.1⟩

/-! ## Joining -/

lemma joinPath_concat (st : List Name) (c : Name) :
    joinPath (st ++ [c]) = (st.flatMap fun c => slash :: c) ++ slash :: c := by
  unfold joinPath
  simp

/-- **The components of a joined path** are those that were joined. -/
theorem components_joinPath (h : ∀ c ∈ st, PlainName c) : components (joinPath st) = st := by
  have hflat : components (st.flatMap fun c => slash :: c) = st := by
    induction st using reverseRecOn with
    | nil => rfl
    | append_singleton st c ih =>
      rw [forall_mem_append, forall_mem_singleton] at h
      rw [flatMap_append, flatMap_singleton, components_append, ih h.1,
        components_of_noSlash h.2.ne_nil h.2.noSlash]
  unfold joinPath
  split_ifs with hnil
  · rw [hnil]
    rfl
  · exact hflat

lemma joinPath_head? (st : List Name) : (joinPath st).head? = some slash := by
  cases st <;> rfl

lemma joinPath_ne_nil (st : List Name) : joinPath st ≠ [] := fun h => by
  have := joinPath_head? st
  rw [h] at this
  exact nomatch this

lemma joinPath_eq_slash (h : ∀ c ∈ st, PlainName c) : joinPath st = [slash] ↔ st = [] := by
  constructor
  · intro heq
    rw [← components_joinPath h, heq]
    rfl
  · rintro rfl
    rfl

lemma Resolved.of_concat (h : Resolved (st ++ [c])) : Resolved st := by
  have hlen := h.depth
  have hfits := h.fits
  rw [length_append, length_singleton] at hlen
  refine ⟨fun d hd => h.plain d (mem_append_left _ hd), by omega, ?_⟩
  rw [joinPath_concat, length_append] at hfits
  unfold joinPath
  split_ifs with hnil
  · decide
  · omega

lemma lastName_joinPath_concat (h : slash ∉ c) : lastName (joinPath (st ++ [c])) = c := by
  have hall : ∀ b ∈ c.reverse, decide (b ≠ slash) = true := by
    intro b hb
    rw [mem_reverse] at hb
    exact decide_eq_true fun heq => h (heq ▸ hb)
  unfold lastName rtakeWhile
  rw [joinPath_concat, reverse_append, reverse_cons, append_assoc, takeWhile_append_of_pos hall]
  simp

lemma parentPath_joinPath_concat (h : slash ∉ c) :
    parentPath (joinPath (st ++ [c])) = joinPath st := by
  unfold parentPath
  rw [lastName_joinPath_concat h, joinPath_concat, length_append, length_cons]
  have htake : ((st.flatMap fun c => slash :: c) ++ slash :: c).take
      ((st.flatMap fun c => slash :: c).length + (c.length + 1) - c.length - 1) =
      st.flatMap fun c => slash :: c := by
    rw [show (st.flatMap fun c => slash :: c).length + (c.length + 1) - c.length - 1 =
      (st.flatMap fun c => slash :: c).length by omega, take_left']
    rfl
  rw [htake]
  cases st with
  | nil | cons d st => rfl

lemma Resolved.lastName_eq (h : Resolved st) : lastName (joinPath st) = st.getLastD [] := by
  cases st using reverseRecOn with
  | nil => rfl
  | append_singleton st c =>
    rw [lastName_joinPath_concat (h.plain c (by simp)).noSlash]
    simp

lemma Resolved.parentPath_eq (h : Resolved st) :
    parentPath (joinPath st) = joinPath st.dropLast := by
  cases st using reverseRecOn with
  | nil => rfl
  | append_singleton st c =>
    rw [parentPath_joinPath_concat (h.plain c (by simp)).noSlash, dropLast_concat]

lemma Resolved.dropLast (h : Resolved st) : Resolved st.dropLast := by
  cases st using reverseRecOn with
  | nil => exact h
  | append_singleton st c =>
    rw [dropLast_concat]
    exact h.of_concat

/-! ## Resolving -/

lemma pushComponent_plain (hst : ∀ c ∈ st, PlainName c) (hlen : st.length ≤ 32)
    (hc : c ≠ [] ∧ slash ∉ c) :
    (∀ d ∈ pushComponent st c, PlainName d) ∧ (pushComponent st c).length ≤ 32 := by
  unfold pushComponent
  split_ifs with hdot hdd hroom
  · exact ⟨hst, hlen⟩
  · refine ⟨fun d hd => hst d (dropLast_subset _ hd), ?_⟩
    rw [length_dropLast]
    omega
  · refine ⟨?_, ?_⟩
    · rw [forall_mem_append, forall_mem_singleton]
      exact ⟨hst, hc.1, hc.2, hdot, hdd⟩
    · rw [length_append, length_singleton]
      omega
  · exact ⟨hst, hlen⟩

lemma foldl_pushComponent_plain {cs : List Name} (hcs : ∀ c ∈ cs, c ≠ [] ∧ slash ∉ c)
    (hst : ∀ c ∈ st, PlainName c) (hlen : st.length ≤ 32) :
    (∀ d ∈ cs.foldl pushComponent st, PlainName d) ∧ (cs.foldl pushComponent st).length ≤ 32 := by
  induction cs generalizing st with
  | nil => exact ⟨hst, hlen⟩
  | cons c cs ih =>
    rw [forall_mem_cons] at hcs
    obtain ⟨hplain, hlen'⟩ := pushComponent_plain hst hlen hcs.1
    exact ih hcs.2 hplain hlen'

lemma foldl_pushComponent_of_plain {cs : List Name} (hcs : ∀ c ∈ cs, PlainName c)
    (hlen : st.length + cs.length ≤ 32) : cs.foldl pushComponent st = st ++ cs := by
  induction cs generalizing st with
  | nil => simp
  | cons c cs ih =>
    rw [forall_mem_cons] at hcs
    rw [length_cons] at hlen
    have hpush : pushComponent st c = st ++ [c] := by
      unfold pushComponent
      rw [if_neg hcs.1.ne_dot, if_neg hcs.1.ne_dotDot, if_pos (by omega)]
    rw [foldl_cons, hpush, ih hcs.2 (by simp; omega), append_assoc]
    rfl

/-- **What `vfs_resolve_path` returns is resolved**, if the working directory is. -/
theorem exists_resolved (hcwd : ∃ st, Resolved st ∧ cwd = joinPath st)
    (h : vfsResolvePath cwd path = some abs) : ∃ st, Resolved st ∧ abs = joinPath st := by
  unfold vfsResolvePath at h
  dsimp only at h
  split_ifs at h with hnil hfits
  · obtain ⟨st, hst, rfl⟩ := hcwd
    have hlen := hst.fits
    rw [take_of_length_le (by omega), some.injEq] at h
    exact ⟨st, hst, h.symm⟩
  · rw [some.injEq] at h
    have hcs : ∀ c ∈ components (absolute cwd path), c ≠ [] ∧ slash ∉ c :=
      fun c hc => of_mem_components hc
    have hempty : ∀ c ∈ ([] : List Name), PlainName c := nofun
    obtain ⟨hplain, hlen⟩ := foldl_pushComponent_plain hcs hempty (by decide)
    exact ⟨_, ⟨hplain, hlen, hfits⟩, h.symm⟩

/-- **A resolved path resolves to itself.** -/
theorem vfsResolvePath_joinPath (h : Resolved st) (cwd : Name) :
    vfsResolvePath cwd (joinPath st) = some (joinPath st) := by
  have hfits := h.fits
  have habs : absolute cwd (joinPath st) = joinPath st := by
    unfold absolute
    rw [if_pos (joinPath_head? st), take_of_length_le (by omega)]
  unfold vfsResolvePath
  rw [if_neg (joinPath_ne_nil st)]
  rw [habs, components_joinPath h.plain,
    foldl_pushComponent_of_plain h.plain (by simpa using h.depth), nil_append, if_pos hfits]

namespace Vfs

/-- The pointers lead to entries, and the working directory is a resolved path. -/
structure WellFormed (s : Vfs) : Prop where
  children : ∀ i < s.next, ∀ c ∈ (s.entries i).children, c < s.next
  mounted : ∀ i < s.next, ∀ m ∈ (s.entries i).mounted, m < s.next
  root : s.root < s.next
  cwd : ∃ st, Resolved st ∧ s.cwd = joinPath st

variable {s : Vfs} {i j p : ℕ} {name path : Name} {st : List Name} {child : RamfsEntry}
  {granted : Bool}

/-! ## Walks -/

lemma WellFormed.lookup_lt (h : s.WellFormed) (hi : i < s.next) (hj : s.lookup i name = some j) :
    j < s.next := by
  unfold lookup at hj
  split_ifs at hj
  obtain ⟨c, hc, rfl⟩ := map_eq_some_iff.1 hj
  have hclt := h.children i hi c (mem_of_find?_eq_some hc)
  cases hm : (s.entries c).mounted with
  | none => exact hclt
  | some m => exact h.mounted c hclt m hm

lemma WellFormed.walk_lt (h : s.WellFormed) (hi : i < s.next) (hj : s.walk i st = some j) :
    j < s.next := by
  induction st generalizing i with
  | nil =>
    rw [walk, some.injEq] at hj
    omega
  | cons c st ih =>
    rw [walk, bind_eq_some_iff] at hj
    obtain ⟨k, hk, hj⟩ := hj
    exact ih (h.lookup_lt hi hk) hj

lemma walk_append (s : Vfs) (i : ℕ) (xs ys : List Name) :
    s.walk i (xs ++ ys) = (s.walk i xs).bind fun j => s.walk j ys := by
  induction xs generalizing i with
  | nil => rfl
  | cons c xs ih =>
    rw [cons_append, walk, walk, bind_assoc]
    exact congrArg _ (funext ih)

lemma walk_concat (s : Vfs) (i : ℕ) (xs : List Name) (c : Name) :
    s.walk i (xs ++ [c]) = (s.walk i xs).bind fun j => s.lookup j c := by
  rw [walk_append]
  refine congrArg _ (funext fun j => ?_)
  simp only [walk, bind_fun_some]

/-- **`vfs_namei` of a resolved path is a walk** from the root. -/
theorem vfsNamei_joinPath (s : Vfs) (h : Resolved st) :
    s.vfsNamei (joinPath st) = some (s.walk s.root st) := by
  unfold vfsNamei
  rw [vfsResolvePath_joinPath h, map_some, some.injEq]
  split_ifs with hroot
  · rw [(joinPath_eq_slash h.plain).1 hroot]
    rfl
  · rw [components_joinPath h.plain]

lemma vfsNamei_of_resolves (h : Resolved st)
    (hres : vfsResolvePath s.cwd path = some (joinPath st)) :
    s.vfsNamei path = some (s.walk s.root st) := by
  rw [← vfsNamei_joinPath s h]
  unfold vfsNamei
  rw [hres, vfsResolvePath_joinPath h]

/-! ## A new entry -/

section

variable (s : Vfs) (p : ℕ) (child : RamfsEntry)

@[simp] lemma append_next : (s.append p child).next = s.next + 1 := rfl

lemma append_next_ne : (s.append p child).next ≠ s.next := Nat.succ_ne_self s.next

@[simp] lemma append_root : (s.append p child).root = s.root := rfl

@[simp] lemma append_fds : (s.append p child).fds = s.fds := rfl

end

lemma append_entries_parent :
    (s.append p child).entries p =
      { s.entries p with children := (s.entries p).children ++ [s.next] } := by
  simp [append]

lemma append_entries_next (hp : p < s.next) : (s.append p child).entries s.next = child := by
  have hne : s.next ≠ p := by omega
  simp [append, hne]

lemma append_entries_of_ne (hp : i ≠ p) (hi : i < s.next) :
    (s.append p child).entries i = s.entries i := by
  have hne : i ≠ s.next := by omega
  simp [append, hp, hne]

lemma append_entries_name (hi : i < s.next) :
    ((s.append p child).entries i).name = (s.entries i).name ∧
      ((s.append p child).entries i).isDir = (s.entries i).isDir ∧
      ((s.append p child).entries i).mounted = (s.entries i).mounted := by
  by_cases hip : i = p
  · rw [hip, append_entries_parent]
    exact ⟨rfl, rfl, rfl⟩
  · rw [append_entries_of_ne hip hi]
    exact ⟨rfl, rfl, rfl⟩

lemma find?_append_entry (p : ℕ) (child : RamfsEntry) (name : Name) {l : List ℕ}
    (hl : ∀ c ∈ l, c < s.next) :
    (l.find? fun c => ((s.append p child).entries c).name == name) =
      l.find? fun c => (s.entries c).name == name := by
  induction l with
  | nil => rfl
  | cons c l ih =>
    rw [forall_mem_cons] at hl
    rw [find?_cons, find?_cons, (append_entries_name hl.1).1, ih hl.2]

/-- **Looking up a name** in an entry that there was: the new entry is found in its directory, if
nothing else has the name. -/
lemma lookup_append_entry (h : s.WellFormed) (hp : p < s.next) (hmount : child.mounted = none)
    (hi : i < s.next) :
    (s.append p child).lookup i name =
      (s.lookup i name).or
        (if i = p ∧ (s.entries p).isDir = true ∧ child.name = name then some s.next else none) := by
  have hnew : (s.append p child).entries s.next = child := append_entries_next hp
  unfold lookup
  rw [(append_entries_name hi).2.1]
  by_cases hdir : (s.entries i).isDir = true
  · rw [if_pos hdir, if_pos hdir]
    unfold ramfsFinddir
    have hfind := find?_append_entry p child name (h.children i hi)
    have hold : ((s.entries i).children.find? fun c => (s.entries c).name == name).map
        (fun c => ((s.append p child).entries c).mounted.getD c) =
        ((s.entries i).children.find? fun c => (s.entries c).name == name).map
          fun c => (s.entries c).mounted.getD c := by
      refine map_congr fun c hc => ?_
      rw [(append_entries_name (h.children i hi c (mem_of_find?_eq_some hc))).2.2]
    by_cases hip : i = p
    · subst hip
      rw [append_entries_parent]
      rw [find?_append, hfind, map_or, hold]
      congr 1
      rw [find?_singleton, hnew]
      by_cases hname : child.name = name
      · simp [hname, hdir, hnew, hmount]
      · simp [hname]
    · rw [append_entries_of_ne hip hi, hfind, hold, if_neg fun hand => hip hand.1, or_none]
  · rw [if_neg hdir, if_neg hdir, none_or, if_neg]
    rintro ⟨rfl, hdir', -⟩
    exact hdir hdir'

/-- **A walk is not changed by a new entry.** -/
theorem walk_append_entry (h : s.WellFormed) (hp : p < s.next) (hmount : child.mounted = none)
    (hi : i < s.next) (hj : s.walk i st = some j) : (s.append p child).walk i st = some j := by
  induction st generalizing i with
  | nil => exact hj
  | cons c st ih =>
    rw [walk, bind_eq_some_iff] at hj
    obtain ⟨k, hk, hj⟩ := hj
    rw [walk, lookup_append_entry h hp hmount hi, hk, some_or, bind_some]
    exact ih (h.lookup_lt hi hk) hj

/-- **Where a new entry is found**: by the path of its directory and its name. -/
theorem walk_new_entry (h : s.WellFormed) (hmount : child.mounted = none)
    (hp : s.walk s.root st = some p) (hdir : (s.entries p).isDir = true)
    (hnone : s.lookup p name = none) :
    (s.append p child).walk s.root (st ++ [name]) =
      if child.name = name then some s.next else none := by
  have hlt := h.walk_lt h.root hp
  rw [walk_concat, walk_append_entry h hlt hmount h.root hp, bind_some,
    lookup_append_entry h hlt hmount hlt, hnone, none_or]
  simp only [hdir, true_and]

lemma WellFormed.append (h : s.WellFormed) (hp : p < s.next) (hmount : child.mounted = none)
    (hleaf : child.children = []) : (s.append p child).WellFormed := by
  have hsplit : ∀ i < (s.append p child).next, i = s.next ∨ i < s.next := fun i hi => by
    rw [append_next] at hi
    omega
  refine ⟨fun i hi c hc => ?_, fun i hi m hm => ?_, Nat.lt_succ_of_lt h.root, h.cwd⟩
  · rw [append_next]
    rcases hsplit i hi with rfl | hlt
    · rw [append_entries_next hp, hleaf] at hc
      exact nomatch hc
    · by_cases hip : i = p
      · rw [hip, append_entries_parent, mem_append, mem_singleton] at hc
        rcases hc with hc | hc
        · have := h.children p hp c hc
          omega
        · omega
      · rw [append_entries_of_ne hip hlt] at hc
        have := h.children i hlt c hc
        omega
  · rw [append_next]
    rcases hsplit i hi with rfl | hlt
    · rw [append_entries_next hp, hmount] at hm
      exact nomatch hm
    · rw [(append_entries_name hlt).2.2] at hm
      have := h.mounted i hlt m hm
      omega

/-! ## The calls -/

lemma ramfsAdd_eq (s : Vfs) (p : ℕ) (isDir : Bool) (name : Name) (granted : Bool) :
    s.ramfsAdd p isDir name granted =
      if (s.entries p).children.length < maxChildren ∧ granted = true then
        (s.append p (newEntry isDir name), 0)
      else (s, -1) := by
  unfold ramfsAdd
  cases granted <;> by_cases hroom : (s.entries p).children.length < maxChildren <;>
    simp [hroom, Nat.not_le.2, Nat.not_lt.1]

lemma name_newEntry {isDir : Bool} {c : Name} :
    (newEntry isDir (c.take 127)).name = c ↔ c.length ≤ 127 := by
  show (c.take 127).take 127 = c ↔ _
  rw [take_take, Nat.min_self]
  constructor
  · intro heq
    have hlen := congrArg length heq
    rw [length_take] at hlen
    omega
  · exact take_of_length_le

/-- An entry for a missing path is found by the path if its name has not been cut. -/
lemma walk_created (hwf : s.WellFormed) (isDir : Bool) (hmissing : s.walk s.root st = none)
    (hp : s.walk s.root st.dropLast = some p) (hdir : (s.entries p).isDir = true) :
    (s.append p (newEntry isDir ((st.getLastD []).take 127))).walk s.root st =
      if (st.getLastD []).length ≤ 127 then some s.next else none := by
  cases st using reverseRecOn with
  | nil => exact nomatch hmissing
  | append_singleton st c =>
    have hlast : (st ++ [c]).getLastD [] = c := by simp
    rw [dropLast_concat] at hp
    rw [walk_concat, hp, bind_some] at hmissing
    rw [hlast, walk_new_entry hwf rfl hp hdir hmissing]
    by_cases hlen : c.length ≤ 127
    · rw [if_pos (name_newEntry.2 hlen), if_pos hlen]
    · rw [if_neg fun heq => hlen (name_newEntry.1 heq), if_neg hlen]

/-! ## The tree at the start -/

lemma wellFormed_ramfsCreateRoot : ramfsCreateRoot.WellFormed where
  children := by decide +kernel
  mounted := by decide +kernel
  root := by decide +kernel
  cwd := ⟨[], ⟨nofun, by decide, by decide⟩, rfl⟩

end Vfs

end SubOS.Fs
