import SubOS.Net.Tls.Handshake

set_option autoImplicit false

/-!
# The messages that `parse_server_hello` accepts

`parse_server_hello` with every read checked: a pointer is what is left of the message behind it, up
to `ext_end` for the extensions, and a read behind its end has no result.

## Main definitions

* `parseServerHelloChecked`, `IsServerHello` — the function, and a well-formed ServerHello.

## Main results

* `parseServerHelloChecked_eq` — there is always a result, the same as without the checks.
* `parseServerHelloChecked_ok_iff` — exactly the well-formed messages are accepted.
-/

namespace SubOS.Tls

open List Option

/-! ## The parser with checked reads -/

/-- `p[0]` and `p[1]`. -/
def readBe16 : Bytes → Option ℕ
  | hi :: lo :: _ => some (hi.toNat * 256 + lo.toNat)
  | _ => none

/-- `memcpy` of 32 bytes. -/
def readBlock32 (p : Bytes) : Option (Block 32) := if 32 ≤ p.length then some (block32 p) else none

def readKeyShare (ext : Bytes) : Option (Except String (Block 32)) :=
  if ext.length < 4 then some (.error "bad key_share")
  else do
    let group ← readBe16 ext
    let klen ← readBe16 (ext.drop 2)
    if group ≠ 0x001d ∨ klen ≠ 32 ∨ ext.length < 4 + 32 then
      some (.error "server key_share is not X25519")
    else (readBlock32 (ext.drop 4)).map .ok

/-- The loop over the extensions. -/
def readExtensions (p : Bytes) (key : Option (Block 32)) :
    Option (Except String (Option (Block 32))) :=
  if _ : p.length < 4 then some (.ok key)
  else do
    let etype ← readBe16 p
    let elen ← readBe16 (p.drop 2)
    if (p.drop 4).length < elen then some (.error "ServerHello ext len")
    else if etype = 51 then
      match ← readKeyShare ((p.drop 4).take elen) with
      | .error e => some (.error e)
      | .ok key => readExtensions ((p.drop 4).drop elen) (some key)
    else readExtensions ((p.drop 4).drop elen) key
termination_by p.length
decreasing_by all_goals simp only [List.length_drop]; omega

/-- ServerHello behind the cipher suite and the compression method. -/
def readExtensionBlock (p : Bytes) : Option (Except String (Block 32)) :=
  if p.length < 2 then some (.error "ServerHello no extensions")
  else do
    let extTotal ← readBe16 p
    if (p.drop 2).length < extTotal then some (.error "ServerHello ext overflow")
    else
      match ← readExtensions ((p.drop 2).take extTotal) none with
      | .error e => some (.error e)
      | .ok none => some (.error "server sent no X25519 key_share (HelloRetry?)")
      | .ok (some key) => some (.ok key)

/-- `parse_server_hello`. There is no result if it reads outside the message. -/
def parseServerHelloChecked (msg : Bytes) : Option (Except String (Block 32)) :=
  if msg.length < 4 then some (.error "expected ServerHello")
  else do
    let type ← msg.head?
    if type ≠ hsServerHello then some (.error "expected ServerHello")
    else if (msg.drop 4).length < 2 + 32 + 1 then some (.error "ServerHello truncated")
    else
      let sidLen := (← ((msg.drop 4).drop (2 + 32)).head?).toNat
      let p := ((msg.drop 4).drop (2 + 32)).drop 1
      if p.length < sidLen + 3 then some (.error "ServerHello truncated")
      else
        let cipher ← readBe16 (p.drop sidLen)
        if cipher ≠ 0x1303 then some (.error "server chose an unsupported cipher")
        else readExtensionBlock ((p.drop sidLen).drop 3)

variable {msg ext p : Bytes} {k : Option (Block 32)} {key : Block 32}

lemma readBe16_eq (h : 2 ≤ p.length) : readBe16 p = some (be16 p) := by
  match p, h with
  | _ :: _ :: _, _ => rfl

lemma head?_eq_getD (h : 0 < p.length) : p.head? = some (p.getD 0 0) := by
  match p, h with
  | _ :: _, _ => rfl

lemma readKeyShare_eq (ext : Bytes) : readKeyShare ext = some (parseKeyShare ext) := by
  unfold readKeyShare parseKeyShare
  by_cases hshort : ext.length < 4
  · rw [if_pos hshort, if_pos hshort]
  rw [if_neg hshort, if_neg hshort, readBe16_eq (by omega),
    readBe16_eq (by rw [length_drop]; omega)]
  dsimp only [bind_eq_bind, bind_some]
  split_ifs with hbad
  · rfl
  unfold readBlock32
  rw [if_pos (by rw [length_drop]; omega)]
  rfl

/-- **The loop reads only the extensions.** -/
theorem readExtensions_eq (p : Bytes) (k : Option (Block 32)) :
    readExtensions p k = some (extensionLoop.exec (p, k)) := by
  induction hn : p.length using Nat.strong_induction_on generalizing p k with
  | _ n ih =>
  subst hn
  rw [readExtensions, Loop.Body.exec_eq]
  simp only [extensionLoop]
  by_cases hshort : p.length < 4
  · rw [dif_pos hshort, if_pos hshort]
  rw [dif_neg hshort, if_neg hshort, readBe16_eq (by omega),
    readBe16_eq (by rw [length_drop]; omega)]
  dsimp only [bind_eq_bind, bind_some]
  have hrest : ((p.drop 4).drop (be16 (p.drop 2))).length < p.length := by
    rw [length_drop, length_drop]
    omega
  rw [readKeyShare_eq, bind_some]
  split_ifs
  · rfl
  · cases parseKeyShare ((p.drop 4).take (be16 (p.drop 2))) with
    | error e => rfl
    | ok key => exact ih _ hrest _ _ rfl
  · exact ih _ hrest _ _ rfl

lemma readExtensionBlock_eq (p : Bytes) : readExtensionBlock p = some (parseExtensions p) := by
  unfold readExtensionBlock parseExtensions
  by_cases hshort : p.length < 2
  · rw [if_pos hshort, if_pos hshort]
  rw [if_neg hshort, if_neg hshort, readBe16_eq (by omega)]
  dsimp only [bind_eq_bind, bind_some]
  rw [readExtensions_eq, bind_some]
  split_ifs
  · rfl
  · rcases extensionLoop.exec _ with e | _ | key <;> rfl

/-- **`parse_server_hello` reads only the message.** -/
theorem parseServerHelloChecked_eq (msg : Bytes) :
    parseServerHelloChecked msg = some (parseServerHello msg) := by
  unfold parseServerHelloChecked parseServerHello
  by_cases hlen : msg.length < 4
  · rw [if_pos hlen, if_pos (.inl hlen)]
  rw [if_neg hlen, head?_eq_getD (by omega)]
  dsimp only [bind_eq_bind, bind_some]
  by_cases htype : msg.getD 0 0 ≠ hsServerHello
  · rw [if_pos htype, if_pos (.inr htype)]
  rw [if_neg htype, if_neg (not_or.2 ⟨hlen, htype⟩)]
  by_cases hfixed : (msg.drop 4).length < 2 + 32 + 1
  · rw [if_pos hfixed, if_pos hfixed]
  rw [if_neg hfixed, if_neg hfixed, head?_eq_getD (by rw [length_drop]; omega), bind_some]
  generalize (((msg.drop 4).drop (2 + 32)).getD 0 0).toNat = sidLen
  generalize ((msg.drop 4).drop (2 + 32)).drop 1 = p
  by_cases hsid : p.length < sidLen + 3
  · rw [if_pos hsid, if_pos hsid]
  rw [if_neg hsid, if_neg hsid, readBe16_eq (by rw [length_drop]; omega), readExtensionBlock_eq,
    bind_some]
  split_ifs <;> rfl

/-! ## The messages that are accepted -/

/-- A block of extensions splits into these types and bodies. At most three bytes are left over. -/
inductive Splits : Bytes → List (ℕ × Bytes) → Prop
  | done {p : Bytes} (h : p.length < 4) : Splits p []
  | next {p : Bytes} {exts : List (ℕ × Bytes)} (h : 4 ≤ p.length)
      (hfits : be16 (p.drop 2) ≤ (p.drop 4).length)
      (hrest : Splits ((p.drop 4).drop (be16 (p.drop 2))) exts) :
      Splits p ((be16 p, (p.drop 4).take (be16 (p.drop 2))) :: exts)

/-- The body of a key_share extension with an X25519 key. -/
structure IsX25519 (body : Bytes) : Prop where
  length : 36 ≤ body.length
  group : be16 body = 0x001d
  klen : be16 (body.drop 2) = 32

/-- The bodies of the key_share extensions. -/
def keyShares (exts : List (ℕ × Bytes)) : List Bytes :=
  (exts.filter fun e => e.1 = 51).map Prod.snd

/-- The last X25519 key. -/
def lastKey (exts : List (ℕ × Bytes)) : Option (Block 32) :=
  (keyShares exts).getLast?.map fun body => block32 (body.drop 4)

/-- The length of the session id. -/
def sidLen (msg : Bytes) : ℕ := (msg.getD 38 0).toNat

lemma sidLen_eq (msg : Bytes) : (((msg.drop 4).drop (2 + 32)).getD 0 0).toNat = sidLen msg := by
  simp [sidLen, getD_eq_getElem?_getD]

/-- The declared length of the extension block. -/
def extTotal (msg : Bytes) : ℕ := be16 (msg.drop (42 + sidLen msg))

/-- A ServerHello with this key. -/
structure IsServerHello (msg : Bytes) (key : Block 32) : Prop where
  type : msg.getD 0 0 = hsServerHello
  fixed : 39 ≤ msg.length
  sid : 42 + sidLen msg ≤ msg.length
  suite : be16 (msg.drop (39 + sidLen msg)) = 0x1303
  block : 44 + sidLen msg + extTotal msg ≤ msg.length
  extensions : ∃ exts, Splits ((msg.drop (44 + sidLen msg)).take (extTotal msg)) exts ∧
    (∀ body ∈ keyShares exts, IsX25519 body) ∧ lastKey exts = some key

lemma parseKeyShare_ok_iff :
    parseKeyShare ext = .ok key ↔ IsX25519 ext ∧ block32 (ext.drop 4) = key := by
  unfold parseKeyShare
  constructor
  · intro h
    split_ifs at h with hshort hbad
    obtain ⟨hgroup, hklen, hlen⟩ : be16 ext = 0x001d ∧ be16 (ext.drop 2) = 32 ∧
      ¬ ext.length < 36 := by
      simpa using hbad
    exact ⟨⟨by omega, hgroup, hklen⟩, Except.ok.inj h⟩
  · rintro ⟨⟨hlen, hgroup, hklen⟩, rfl⟩
    rw [if_neg (by omega), if_neg]
    rintro (h | h | h)
    · exact h hgroup
    · exact h hklen
    · omega

lemma lastKey_cons (body : Bytes) (exts : List (ℕ × Bytes)) :
    lastKey ((51, body) :: exts) = (lastKey exts).or (some (block32 (body.drop 4))) := by
  simp only [lastKey, keyShares, filter_cons, decide_true, if_true, map_cons, getLast?_cons]
  cases ((exts.filter fun e => e.1 = 51).map Prod.snd).getLast? <;> rfl

/-- **What the loop over the extensions accepts.** -/
lemma extensionLoop_ok_iff {k' : Option (Block 32)} :
    extensionLoop.exec (p, k) = .ok k' ↔
      ∃ exts, Splits p exts ∧ (∀ body ∈ keyShares exts, IsX25519 body) ∧
        (lastKey exts).or k = k' := by
  induction hn : p.length using Nat.strong_induction_on generalizing p k with
  | _ n ih =>
  subst hn
  rw [Loop.Body.exec_eq]
  simp only [extensionLoop]
  by_cases hshort : p.length < 4
  · rw [if_pos hshort]
    constructor
    · rintro ⟨⟩
      exact ⟨[], .done hshort, by rintro _ ⟨⟩, rfl⟩
    · rintro ⟨exts, hsplit, -, hlast⟩
      cases hsplit with
      | done => exact congrArg _ hlast
      | next h => omega
  rw [if_neg hshort]
  by_cases hover : (p.drop 4).length < be16 (p.drop 2)
  · rw [if_pos hover]
    refine iff_of_false (by rintro ⟨⟩) ?_
    rintro ⟨exts, hsplit, -⟩
    cases hsplit <;> omega
  rw [if_neg hover]
  have hrest : ((p.drop 4).drop (be16 (p.drop 2))).length < p.length := by
    rw [length_drop, length_drop]
    omega
  have hsplits : ∀ P : List (ℕ × Bytes) → Prop, (∃ exts, Splits p exts ∧ P exts) ↔
      ∃ exts, Splits ((p.drop 4).drop (be16 (p.drop 2))) exts ∧
        P ((be16 p, (p.drop 4).take (be16 (p.drop 2))) :: exts) := by
    intro P
    constructor
    · rintro ⟨_, hsplit, hP⟩
      cases hsplit with
      | done h => exact absurd h hshort
      | next _ _ hsplit => exact ⟨_, hsplit, hP⟩
    · rintro ⟨exts, hsplit, hP⟩
      exact ⟨_, .next (by omega) (by omega) hsplit, hP⟩
  rw [hsplits]
  by_cases htype : be16 p = 51
  · rw [if_pos htype, htype]
    have hshares : ∀ exts, keyShares ((51, (p.drop 4).take (be16 (p.drop 2))) :: exts) =
        (p.drop 4).take (be16 (p.drop 2)) :: keyShares exts := fun exts => by simp [keyShares]
    simp only [hshares, forall_mem_cons, lastKey_cons, Option.or_assoc, some_or]
    cases hkey : parseKeyShare ((p.drop 4).take (be16 (p.drop 2))) with
    | error e =>
      refine iff_of_false (by rintro ⟨⟩) ?_
      rintro ⟨exts, -, ⟨hx, -⟩, -⟩
      rw [parseKeyShare_ok_iff.2 ⟨hx, rfl⟩] at hkey
      cases hkey
    | ok key =>
      obtain ⟨hx, rfl⟩ := parseKeyShare_ok_iff.1 hkey
      simp only [hx, true_and]
      exact ih _ hrest rfl
  · have hshares : ∀ exts, keyShares ((be16 p, (p.drop 4).take (be16 (p.drop 2))) :: exts) =
        keyShares exts := fun exts => by simp [keyShares, htype]
    have hlast : ∀ exts, lastKey ((be16 p, (p.drop 4).take (be16 (p.drop 2))) :: exts) =
        lastKey exts := fun exts => by rw [lastKey, hshares, lastKey]
    rw [if_neg htype]
    simp only [hshares, hlast]
    exact ih _ hrest rfl

lemma parseExtensions_ok_iff :
    parseExtensions p = .ok key ↔ 2 + be16 p ≤ p.length ∧
      ∃ exts, Splits ((p.drop 2).take (be16 p)) exts ∧ (∀ body ∈ keyShares exts, IsX25519 body) ∧
        lastKey exts = some key := by
  unfold parseExtensions
  dsimp only
  rw [length_drop]
  by_cases hshort : p.length < 2
  · rw [if_pos hshort]
    exact iff_of_false nofun fun h => by omega
  rw [if_neg hshort]
  by_cases hover : p.length - 2 < be16 p
  · rw [if_pos hover]
    exact iff_of_false nofun fun h => by omega
  rw [if_neg hover, and_iff_right (by omega)]
  have hloop : extensionLoop.exec ((p.drop 2).take (be16 p), none) = .ok (some key) ↔ _ :=
    extensionLoop_ok_iff
  simp only [or_none] at hloop
  rw [← hloop]
  rcases extensionLoop.exec _ with e | _ | key' <;> simp

/-- **`parse_server_hello` reads only the message, and accepts exactly the well-formed ServerHello
messages with an X25519 key.** -/
theorem parseServerHelloChecked_ok_iff (msg : Bytes) :
    (parseServerHelloChecked msg).isSome = true ∧
      ∀ key, parseServerHelloChecked msg = some (.ok key) ↔ IsServerHello msg key := by
  rw [parseServerHelloChecked_eq]
  refine ⟨rfl, fun key => ?_⟩
  rw [some.injEq]
  have hbehind : 4 + (2 + 32) + 1 + sidLen msg + 3 = 42 + sidLen msg := by omega
  unfold parseServerHello
  simp only [sidLen_eq]
  simp only [drop_drop, length_drop, hbehind]
  constructor
  · intro h
    split_ifs at h with htype hfixed hsid hsuite
    obtain ⟨-, htype⟩ := not_or.1 htype
    obtain ⟨hblock, hexts⟩ := parseExtensions_ok_iff.1 h
    rw [length_drop] at hblock
    rw [drop_drop, show 42 + sidLen msg + 2 = 44 + sidLen msg by omega] at hexts
    exact ⟨not_not.1 htype, by omega, by omega, not_not.1 hsuite, by unfold extTotal; omega, hexts⟩
  · rintro ⟨htype, hfixed, hsid, hsuite, hblock, hexts⟩
    unfold extTotal at hblock
    rw [if_neg (not_or.2 ⟨by omega, not_not.2 htype⟩), if_neg (by omega), if_neg (by omega),
      if_neg (not_not.2 hsuite), parseExtensions_ok_iff, length_drop, drop_drop,
      show 42 + sidLen msg + 2 = 44 + sidLen msg by omega]
    exact ⟨by omega, hexts⟩

end SubOS.Tls
