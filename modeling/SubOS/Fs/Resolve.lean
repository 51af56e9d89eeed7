import Mathlib.Data.List.Infix
import SubOS.Fs.Tree

set_option autoImplicit false

/-!
# What `vfs_resolve_path` writes

The result of `vfs_resolve_path` for a buffer of any size, against the path that the components of
the working directory and of the argument give. The function joins the two in a local buffer of 512
bytes, keeps at most 32 components, and does not look at `max_len` when it writes them out.

## Main definitions

* `normalPath`, `Uncut` — the normalised path; neither limit cuts the path.

## Main results

* `resolvesTo_iff`, `not_resolvesTo` — when the result is the normalised path.
-/

namespace SubOS.Fs

open List

open ByteMemory (ascii)

/-! ## The calls -/

/-- The bytes that `vfs_resolve_path` writes, from the start of `resolved_out` on. -/
def vfsResolvePathTo (cwd path : Name) (maxLen : ℕ) : List UInt8 :=
  if maxLen = 0 then []
  else if path = [] then
    -- `strncpy` fills the buffer up with zeros
    let name := cwd.take (maxLen - 1)
    name ++ List.replicate (maxLen - name.length) 0
  else joinPath ((components (absolute cwd path)).foldl pushComponent []) ++ [0]

/-- `vfs_chdir`; no result at all if the path overruns the buffer. -/
def Vfs.vfsChdir (s : Vfs) (path : Name) : Option (Vfs × ℤ) :=
  if path = [] then some (s, -1)
  else
    (vfsResolvePath s.cwd path).bind fun abs => (s.vfsNamei abs).map fun
      | none => (s, -1)
      | some node =>
        if (s.entries node).isDir then ({ s with cwd := abs.take 255 }, 0) else (s, -2)

/-- The working directories that `vfs_chdir` reaches, whatever is done to the files in between. -/
inductive ReachableCwd : Name → Prop
  | root : ReachableCwd [slash]
  | chdir {s s' : Vfs} {path : Name} {r : ℤ} (h : ReachableCwd s.cwd)
      (hs : s.vfsChdir path = some (s', r)) : ReachableCwd s'.cwd

/-! ## The path that is meant -/

/-- The components of a path, taken from the working directory if it does not start with a slash. -/
def pathParts (cwd path : Name) : List Name :=
  if path.head? = some slash then components path else components cwd ++ components path

/-- One component: `.` is left out, and `..` cancels the last one that is left. -/
def applyPart (st : List Name) (c : Name) : List Name :=
  if c = dot then st else if c = dotDot then st.dropLast else st ++ [c]

/-- The components that are left. -/
def surviving (cs : List Name) : List Name := cs.foldl applyPart []

/-- The normalised absolute path. -/
def normalPath (cwd path : Name) : Name := joinPath (surviving (pathParts cwd path))

/-- The bytes stay inside the buffer, and they are the normalised path if it fits. -/
def ResolvesTo (cwd path : Name) (maxLen : ℕ) : Prop :=
  (vfsResolvePathTo cwd path maxLen).length ≤ maxLen ∧
    ((normalPath cwd path).length < maxLen →
      normalPath cwd path ++ [0] <+: vfsResolvePathTo cwd path maxLen)

/-- The length of the path in the local buffer. -/
def joinedLength (cwd path : Name) : ℕ :=
  if path.head? = some slash then path.length
  else if cwd = [slash] then path.length + 1
  else cwd.length + 1 + path.length

/-- The path fits in the local buffer, and its components in the stack. -/
def Uncut (cwd path : Name) : Prop :=
  joinedLength cwd path ≤ 511 ∧
    ∀ cs ∈ (pathParts cwd path).inits, (surviving cs).length ≤ 32
  deriving Decidable

variable {cwd path : Name} {cs st : List Name} {maxLen : ℕ}

lemma ReachableCwd.exists_resolved (h : ReachableCwd cwd) :
    ∃ st, Resolved st ∧ cwd = joinPath st := by
  induction h with
  | root => exact ⟨[], ⟨nofun, by decide, by decide⟩, rfl⟩
  | @chdir s s' path r _ hs ih =>
    unfold Vfs.vfsChdir at hs
    split_ifs at hs with hnil
    · obtain ⟨rfl, -⟩ := Prod.mk.inj (Option.some.inj hs)
      exact ih
    obtain ⟨abs, habs, hs⟩ := Option.bind_eq_some_iff.1 hs
    obtain ⟨node, -, hs⟩ := Option.map_eq_some_iff.1 hs
    obtain ⟨st, hst, rfl⟩ := Fs.exists_resolved ih habs
    have hfits := hst.fits
    rw [take_of_length_le (by omega)] at hs
    split at hs
    · obtain ⟨rfl, -⟩ := Prod.mk.inj hs
      exact ih
    · split_ifs at hs <;> obtain ⟨rfl, -⟩ := Prod.mk.inj hs
      · exact ⟨st, hst, rfl⟩
      · exact ih

lemma surviving_concat (cs : List Name) (c : Name) :
    surviving (cs ++ [c]) = applyPart (surviving cs) c := by
  simp [surviving]

lemma surviving_of_plain (h : ∀ c ∈ st, PlainName c) : surviving st = st := by
  induction st using reverseRecOn with
  | nil => rfl
  | append_singleton st c ih =>
    rw [forall_mem_append, forall_mem_singleton] at h
    rw [surviving_concat, ih h.1]
    unfold applyPart
    rw [if_neg h.2.ne_dot, if_neg h.2.ne_dotDot]

/-- The stack of 32 places is enough if never more components are left. -/
lemma foldl_pushComponent_eq (h : ∀ cs', cs' <+: cs → (surviving cs').length ≤ 32) :
    cs.foldl pushComponent [] = surviving cs := by
  induction cs using reverseRecOn with
  | nil => rfl
  | append_singleton cs c ih =>
    have hlast := h (cs ++ [c]) (prefix_refl _)
    rw [surviving_concat] at hlast ⊢
    rw [foldl_append, foldl_cons, foldl_nil,
      ih fun cs' hcs' => h cs' (hcs'.trans (prefix_append _ _))]
    unfold applyPart at hlast ⊢
    unfold pushComponent
    split_ifs at hlast ⊢ with hdot hdd hroom
    · rfl
    · rfl
    · rfl
    · rw [length_append, length_singleton] at hlast
      omega

lemma components_slash_cons (path : Name) : components (slash :: path) = components path :=
  components_append [] path

lemma components_absolute (h : joinedLength cwd path ≤ 511) :
    components (absolute cwd path) = pathParts cwd path := by
  unfold joinedLength at h
  unfold absolute pathParts
  split_ifs at h ⊢ with habs hroot
  · rw [take_of_length_le h]
  · rw [take_of_length_le (by simpa using h), components_slash_cons, hroot]
    rfl
  · rw [take_of_length_le (by rw [length_append, length_cons]; omega), components_append]

/-- The working directory is what an empty path stands for. -/
lemma normalPath_nil (hst : Resolved st) : normalPath (joinPath st) [] = joinPath st := by
  have hparts : pathParts (joinPath st) [] = st := by
    unfold pathParts
    rw [if_neg (by simp), components_joinPath hst.plain]
    exact append_nil st
  rw [normalPath, hparts, surviving_of_plain hst.plain]

lemma resolvesTo_nil (hst : Resolved st) (hmax : 2 ≤ maxLen) :
    ResolvesTo (joinPath st) [] maxLen := by
  unfold ResolvesTo vfsResolvePathTo
  rw [if_neg (by omega), if_pos rfl, normalPath_nil hst]
  dsimp only
  refine ⟨?_, fun hfits => ?_⟩
  · rw [length_append, length_replicate, length_take]
    omega
  · rw [take_of_length_le (by omega)]
    obtain ⟨n, hn⟩ : ∃ n, maxLen - (joinPath st).length = n + 1 :=
      ⟨maxLen - (joinPath st).length - 1, by omega⟩
    rw [hn, replicate_succ]
    exact ⟨replicate n 0, by simp⟩

/-- **`vfs_resolve_path` of a path that is not cut** writes the normalised path, whether it fits or
not: so it does what it should for an empty path, and otherwise if and only if the path and its
terminator fit. -/
theorem resolvesTo_iff (hcwd : ReachableCwd cwd) (hmax : 2 ≤ maxLen)
    (h : path = [] ∨ Uncut cwd path) :
    ResolvesTo cwd path maxLen ↔ path = [] ∨ (normalPath cwd path).length < maxLen := by
  by_cases hnil : path = []
  · obtain ⟨st, hst, rfl⟩ := hcwd.exists_resolved
    subst hnil
    exact iff_of_true (resolvesTo_nil hst hmax) (.inl rfl)
  obtain ⟨hlen, hdepth⟩ := h.resolve_left hnil
  have hwrites : vfsResolvePathTo cwd path maxLen = normalPath cwd path ++ [0] := by
    unfold vfsResolvePathTo normalPath
    rw [if_neg (by omega), if_neg hnil, components_absolute hlen,
      foldl_pushComponent_eq fun cs hcs => hdepth cs ((mem_inits _ _).2 hcs)]
  unfold ResolvesTo
  rw [hwrites, length_append, length_singleton]
  constructor
  · exact fun h => .inr h.1
  · rintro (h | h)
    · exact absurd h hnil
    · exact ⟨h, fun _ => prefix_refl _⟩

theorem resolvesTo_iff_parent : Uncut [slash] (ascii "/usr/./bin/../lib") ∧
    ResolvesTo [slash] (ascii "/usr/./bin/../lib") 9 := by
  have h : Uncut [slash] (ascii "/usr/./bin/../lib") := by decide +kernel
  exact ⟨h, (resolvesTo_iff .root (by decide) (.inr h)).2 (.inr (by decide +kernel))⟩

/-- Five bytes are written to a buffer of four, and the last of 33 components is missing. -/
theorem not_resolvesTo : ¬ ResolvesTo [slash] (ascii "/abc") 4 ∧
    ¬ ResolvesTo [slash] ((List.replicate 33 (ascii "/a")).flatten) 256 := by
  have hlong : (vfsResolvePathTo [slash] (ascii "/abc") 4).length = 5 := by decide +kernel
  have hcut : vfsResolvePathTo [slash] ((replicate 33 (ascii "/a")).flatten) 256 =
      (replicate 32 (ascii "/a")).flatten ++ [0] := by decide +kernel
  have hmeant : normalPath [slash] ((replicate 33 (ascii "/a")).flatten) =
      (replicate 33 (ascii "/a")).flatten := by decide +kernel
  refine ⟨fun h => ?_, fun h => ?_⟩
  · exact absurd (hlong ▸ h.1) (by decide)
  · have hpre := h.2 (by rw [hmeant]; decide +kernel)
    exact absurd hpre.length_le (by decide +kernel)

end SubOS.Fs
