import SubOS.Net.Tls.Record

set_option autoImplicit false

/-!
# What reading records does to a connection

Reading changes a connection in one way only: records are taken from the stream, some of them
are opened, and the sequence number counts those.

## Main definitions

* `Reads` — these records were taken and opened between two states.

## Main results

* `readRecord_spec` — the specification of `read_record`.
-/

open SubOS.Tls.Frame

namespace SubOS.Tls

open UInt64 List

/-! ## Opened records -/

/-- The record in the stream that was opened: the associated data in front of the ciphertext and
the tag. -/
def Opened.frame (o : Opened) : Frame := ⟨o.aad, o.ct ++ o.tag⟩

/-- The records `os` were opened under `keys`, with consecutive sequence numbers from `seq`. -/
def OpensFrom (C : Crypto) (keys : TrafficKeys) : UInt64 → List Opened → Prop
  | _, [] => True
  | seq, o :: os =>
    (o.key = keys.key ∧ o.nonce = buildNonce keys.iv seq ∧ o.seq = seq ∧ o.Valid C) ∧
      OpensFrom C keys (seq + 1) os

section

variable {C : Crypto} {keys : TrafficKeys}

lemma seq_add_succ (seq : UInt64) (n : ℕ) : seq + ofNat (n + 1) = seq + 1 + ofNat n := by
  rw [ofNat_add, UInt64.add_assoc, UInt64.add_comm (ofNat n)]
  rfl

lemma OpensFrom.append {seq : UInt64} {os os' : List Opened} (h : OpensFrom C keys seq os)
    (h' : OpensFrom C keys (seq + ofNat os.length) os') : OpensFrom C keys seq (os ++ os') := by
  induction os generalizing seq with
  | nil => simpa using h'
  | cons o os ih =>
    refine ⟨h.1, ih h.2 ?_⟩
    rw [length_cons, seq_add_succ] at h'
    exact h'

lemma OpensFrom.get {seq : UInt64} {os : List Opened} (h : OpensFrom C keys seq os) {k : ℕ}
    {o : Opened} (hk : os[k]? = some o) :
    o.key = keys.key ∧ o.nonce = buildNonce keys.iv (seq + ofNat k) ∧
      o.seq = seq + ofNat k ∧ o.Valid C := by
  induction os generalizing seq k with
  | nil => simp at hk
  | cons a os ih =>
    cases k with
    | zero =>
      simp only [getElem?_cons_zero, Option.some.injEq] at hk
      subst hk
      simpa using h.1
    | succ k =>
      rw [seq_add_succ]
      exact ih h.2 (by simpa using hk)

end

/-! ## The relation -/

def Frame.isEncrypted (f : Frame) : Bool := f.type == ctApplicationData

/-- The record is a cleartext handshake record that a caller with a buffer of `outcap` bytes is
given. -/
def Frame.isClear (outcap : ℕ) (f : Frame) : Bool :=
  f.type == ctHandshake && decide (f.body.length ≤ outcap)

/-- Between `t` and `t'` the records `fs` were taken from the stream and, of these, the records
`os` were opened. With `ok` every encrypted record was opened and nothing else was taken from
the stream; without it the last record may have been refused, or taken in part. -/
structure Reads (C : Crypto) (ok : Bool) (t : TlsConn) (fs : List Frame) (os : List Opened)
    (t' : TlsConn) : Prop where
  frames : t'.frames = t.frames ++ fs
  opens : t'.opens = t.opens ++ os
  recvSeq : t'.recvSeq = t.recvSeq + UInt64.ofNat os.length
  openKeys : t'.openKeys = t.openKeys
  wellFormed : ∀ f ∈ fs, f.WellFormed
  inOrder : OpensFrom C t.openKeys t.recvSeq os
  encrypted : os.map Opened.frame <+: fs.filter Frame.isEncrypted
  took : ∃ tail, t.tcp.Took (fs.flatMap Frame.bytes ++ tail) t'.tcp
  encrypted_eq : ok = true → os.map Opened.frame = fs.filter Frame.isEncrypted
  took_eq : ok = true → t.tcp.Took (fs.flatMap Frame.bytes) t'.tcp

variable {f : Frame}

namespace Reads

variable {C : Crypto} {ok : Bool} {t t' t'' : TlsConn} {fs fs' : List Frame} {os os' : List Opened}

lemma refl (C : Crypto) (ok : Bool) (t : TlsConn) : Reads C ok t [] [] t where
  frames := by simp
  opens := by simp
  recvSeq := by simp
  openKeys := rfl
  wellFormed := by simp
  inOrder := trivial
  encrypted := by simp
  took := ⟨[], .refl t.tcp⟩
  encrypted_eq := by simp
  took_eq := fun _ => .refl t.tcp

lemma trans (h : Reads C true t fs os t') (h' : Reads C ok t' fs' os' t'') :
    Reads C ok t (fs ++ fs') (os ++ os') t'' where
  frames := by rw [h'.frames, h.frames, append_assoc]
  opens := by rw [h'.opens, h.opens, append_assoc]
  recvSeq := by rw [h'.recvSeq, h.recvSeq, length_append, ofNat_add, UInt64.add_assoc]
  openKeys := h'.openKeys.trans h.openKeys
  wellFormed := by
    intro f hf
    rcases mem_append.1 hf with hf | hf
    · exact h.wellFormed f hf
    · exact h'.wellFormed f hf
  inOrder := by
    refine h.inOrder.append ?_
    have := h'.inOrder
    rwa [h.openKeys, h.recvSeq] at this
  encrypted := by
    rw [map_append, filter_append, h.encrypted_eq rfl]
    exact (prefix_append_right_inj _).2 h'.encrypted
  took := by
    obtain ⟨tail, htook⟩ := h'.took
    refine ⟨tail, ?_⟩
    rw [flatMap_append, append_assoc]
    exact (h.took_eq rfl).trans htook
  encrypted_eq := by
    intro hok
    rw [map_append, filter_append, h.encrypted_eq rfl, h'.encrypted_eq hok]
  took_eq := by
    intro hok
    rw [flatMap_append]
    exact (h.took_eq rfl).trans (h'.took_eq hok)

lemma mono (h : Reads C ok t fs os t') : Reads C false t fs os t' :=
  ⟨h.frames, h.opens, h.recvSeq, h.openKeys, h.wellFormed, h.inOrder, h.encrypted, h.took, nofun,
    nofun⟩

lemma congr (h : Reads C ok t fs os t') (htcp : t''.tcp = t'.tcp) (hframes : t''.frames = t'.frames)
    (hopens : t''.opens = t'.opens) (hseq : t''.recvSeq = t'.recvSeq)
    (hkeys : t''.openKeys = t'.openKeys) : Reads C ok t fs os t'' :=
  ⟨hframes.trans h.frames, hopens.trans h.opens, hseq.trans h.recvSeq, hkeys.trans h.openKeys,
    h.wellFormed, h.inOrder, h.encrypted, htcp ▸ h.took, h.encrypted_eq, htcp ▸ h.took_eq⟩

lemma reads_le (h : Reads C ok t fs os t') : t'.tcp.reads.length ≤ t.tcp.reads.length := by
  obtain ⟨_, htook⟩ := h.took
  exact htook.reads

lemma of_frame (h : t.readFrame = (t', .ok f)) : Reads C (!f.isEncrypted) t [f] [] t' := by
  have hspec := readFrame_spec t
  rw [h] at hspec
  obtain ⟨tcp, rfl, htook, hwf, -⟩ := hspec
  refine ⟨rfl, by simp, by simp, rfl, by simpa using hwf, trivial, by simp,
    ⟨[], by simpa using htook⟩, fun hf => ?_, fun _ => by simpa using htook⟩
  rw [Bool.not_eq_true'] at hf
  simp [hf]

lemma of_error {e : String} (h : t.readFrame = (t', .error e)) : Reads C false t [] [] t' := by
  have hspec := readFrame_spec t
  rw [h] at hspec
  obtain ⟨tcp, bs, rfl, htook⟩ := hspec
  exact ⟨by simp, by simp, by simp, rfl, by simp, trivial, by simp, ⟨bs, by simpa using htook⟩,
    nofun, nofun⟩

lemma of_opening (h : t.readFrame = (t', .ok f)) (hf : f.type = ctApplicationData)
    {pt : Bytes} (hvalid : (t'.opening f pt).Valid C) :
    Reads C true t [f] [t'.opening f pt] (t'.addOpening (t'.opening f pt)) := by
  have hspec := readFrame_spec t
  rw [h] at hspec
  obtain ⟨tcp, rfl, htook, hwf, -⟩ := hspec
  have hframe : [({ t with tcp := tcp, frames := t.frames ++ [f] }.opening f pt)].map
      Opened.frame = [f].filter isEncrypted := by
    simp [Opened.frame, TlsConn.opening, isEncrypted, hf]
  have hall : t.tcp.Took ([f].flatMap bytes) tcp := by simpa using htook
  refine ⟨rfl, rfl, rfl, rfl, by simpa using hwf, ⟨⟨rfl, rfl, rfl, hvalid⟩, trivial⟩, ?_,
    ⟨[], ?_⟩, fun _ => hframe, fun _ => hall⟩
  · exact hframe ▸ prefix_rfl
  · rw [append_nil]
    exact hall

end Reads

/-! ## Reading one record -/

/-- Where the result of `read_record` comes from, of the records `fs` it took from the stream
and the records `os` it opened: one cleartext handshake record, one opened record, or none. -/
inductive RecordFrom (outcap : ℕ) : List Frame → List Opened → Except String Rec → Prop
  | clear {fs : List Frame} {f : Frame} (hclear : fs.filter (Frame.isClear outcap) = [f]) :
    RecordFrom outcap fs [] (.ok ⟨ctHandshake, f.body, .clear⟩)
  | opened {fs : List Frame} {o : Opened} {type : UInt8} {body : Bytes}
    (hclear : fs.filter (Frame.isClear outcap) = [])
    (hinner : innerPlaintext o.pt = some (type, body)) :
    RecordFrom outcap fs [o] (.ok ⟨type, body, .opened o.seq⟩)
  | error {fs : List Frame} {os : List Opened} {e : String}
    (hclear : fs.filter (Frame.isClear outcap) = []) : RecordFrom outcap fs os (.error e)

/-- Only the fields that reading changes differ. -/
def TlsConn.RestKept (t t' : TlsConn) : Prop :=
  t' = { t with
    tcp := t'.tcp, recvSeq := t'.recvSeq, frames := t'.frames, opens := t'.opens }

variable {t' t : TlsConn}

lemma TlsConn.RestKept.trans {t'' : TlsConn} (h : t.RestKept t') (h' : t'.RestKept t'') :
    t.RestKept t'' := by
  unfold TlsConn.RestKept
  rw [h', h]

lemma TlsConn.RestKept.taken (h : t.RestKept t') : t'.taken = t.taken := by
  rw [h]

lemma readFrame_restKept {r : Except String Frame} (h : t.readFrame = (t', r)) : t.RestKept t' := by
  have hspec := readFrame_spec t
  rw [h] at hspec
  cases r with
  | ok f =>
    obtain ⟨tcp, rfl, -⟩ := hspec
    rfl
  | error e =>
    obtain ⟨tcp, bs, rfl, -⟩ := hspec
    rfl

/-- What `read_record` has done when it returns. -/
structure ReadRecordPost (C : Crypto) (outcap : ℕ) (t : TlsConn)
    (r : TlsConn × Except String Rec) : Prop where
  reads : ∃ fs os, Reads C r.2.isOk t fs os r.1 ∧ RecordFrom outcap fs os r.2
  lt : r.2.isOk = true → r.1.tcp.reads.length < t.tcp.reads.length
  rest : t.RestKept r.1

lemma Frame.not_isClear {outcap : ℕ}
    (h : ¬ (f.type = ctHandshake ∧ f.body.length ≤ outcap)) : f.isClear outcap = false := by
  simpa [isClear] using h

attribute [local simp] ctApplicationData ctHandshake

lemma acceptFrame_spec {C : Crypto} {outcap : ℕ} {t₀ : TlsConn} {fs : List Frame}
    (hreads : Reads C true t₀ fs [] t) (hclear : fs.filter (isClear outcap) = [])
    (hrest : t₀.RestKept t) (hread : t.readFrame = (t', .ok f)) :
    ReadRecordPost C outcap t₀ (acceptFrame C outcap t' f) := by
  have hlt : t'.tcp.reads.length < t₀.tcp.reads.length := by
    have hspec := readFrame_spec t
    rw [hread] at hspec
    obtain ⟨tcp, rfl, -, -, hlt⟩ := hspec
    exact hlt.trans_le hreads.reads_le
  have hrest' : t₀.RestKept t' := hrest.trans (readFrame_restKept hread)
  have hcase := acceptFrame_cases C outcap t' f
  generalize acceptFrame C outcap t' f = r at hcase ⊢
  cases hcase with
  | refused e h =>
    refine ⟨⟨fs ++ [f], [], hreads.trans (Reads.of_frame hread).mono, .error ?_⟩, nofun, hrest'⟩
    simp [hclear, not_isClear h]
  | clear htype hlen =>
    have hf : (!f.isEncrypted) = true := by
      simp [isEncrypted, htype]
    have hone := Reads.of_frame (C := C) hread
    rw [hf] at hone
    refine ⟨⟨fs ++ [f], [], hreads.trans hone, .clear ?_⟩, fun _ => hlt, hrest'⟩
    simp [hclear, isClear, htype, hlen]
  | opened pt htype hlen hvalid type body hinner =>
    refine ⟨⟨fs ++ [f], [t'.opening f pt], hreads.trans (.of_opening hread htype hvalid),
      .opened ?_ hinner⟩, fun _ => hlt, hrest'.trans rfl⟩
    simp [hclear, isClear, htype]
  | openedRefused pt htype hlen hvalid e =>
    refine ⟨⟨fs ++ [f], [t'.opening f pt],
      hreads.trans (Reads.of_opening hread htype hvalid).mono, .error ?_⟩, nofun, hrest'.trans rfl⟩
    simp [hclear, isClear, htype]

/-- **`read_record` takes whole records from the stream and opens the encrypted ones**, each with
the next sequence number; what it returns is the content of the last record.

**Proof sketch.** The records skipped before it are ChangeCipherSpec records, which are neither
encrypted nor handshake records. -/
theorem readRecord_spec (C : Crypto) (outcap : ℕ) (t : TlsConn) :
    ReadRecordPost C outcap t (readRecord C outcap t) := by
  refine (readRecordLoop C outcap).exec_rule
    (fun t' => (∃ fs, Reads C true t fs [] t' ∧ fs.filter (isClear outcap) = []) ∧
      t.RestKept t')
    (ReadRecordPost C outcap t) ?_ ⟨⟨[], .refl C true t, rfl⟩, rfl⟩
  rintro t₁ ⟨⟨fs, hreads, hclear⟩, hrest⟩
  simp only [readRecordLoop]
  split
  · next hread =>
    exact ⟨⟨fs ++ [], [] ++ [], hreads.trans (.of_error hread), .error (by simp [hclear])⟩, nofun,
      hrest.trans (readFrame_restKept hread)⟩
  · next f hread =>
    split
    · next htype =>
      have hf : (!f.isEncrypted) = true := by
        simp [isEncrypted, htype, ctChangeCipherSpec]
      have hone := Reads.of_frame (C := C) hread
      rw [hf] at hone
      refine ⟨⟨fs ++ [f], hreads.trans hone, ?_⟩, hrest.trans (readFrame_restKept hread)⟩
      simp [hclear, isClear, htype, ctChangeCipherSpec]
    · exact acceptFrame_spec hreads hclear hrest hread

end SubOS.Tls
