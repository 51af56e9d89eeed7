import SubOS.Lib.ByteMemory
import SubOS.Net.Receive

set_option autoImplicit false

/-!
# The DNS resolver

The wire query of `dns_resolve` in `dns.c`, and `dns_udp_cb`, which runs for every datagram on the
resolver's port, between any two steps of the resolver. The callback stores the identifier of the
datagram and the address of an A record; the resolver compares the identifier later, and reads the
reply fields one by one. The fields count from the time they are cleared until the identifier has
been compared, and the address counts until it has been read.

## Main definitions

* `Resolver.step`, `Resolver.Tolerates` — a step; a foreign datagram does no harm.

## Main results

* `Resolver.answers_own_query`, `Resolver.foreign_address_returned` — whose replies count.

## Design

The run begins when the port is bound, after the lookup in the cache. A call of `dns_cache_insert`
is recorded with its arguments. `arrived` lists the datagrams that came; no function reads it.
-/

namespace SubOS.Net

open EventRun List

open ByteMemory (ascii)

/-- `sizeof(dns_header_t)`. -/
def dnsHeaderSize : ℕ := 12

def dnsMaxMsg : ℕ := 512

/-- `DNS_TIMEOUT_MS / 10`. -/
def dnsWaitTicks : ℕ := 200

/-! ## Encoding the name -/

/-- The loop of `dns_encode_name`: each label with its length in front. Every round takes at least
one byte of the name, so that there are fewer rounds than bytes. -/
def encodeLabels (max : ℕ) : ℕ → List UInt8 → List UInt8 → Option (List UInt8)
  | 0, _, out => some out
  | rounds + 1, seg, out =>
    if seg = [] then some out
    else
      let label := seg.takeWhile (· != 0x2E)
      let rest := seg.dropWhile (· != 0x2E)
      if label.length = 0 ∨ 63 < label.length ∨ max ≤ out.length + label.length + 1 then none
      else encodeLabels max rounds (rest.drop 1) (out ++ UInt8.ofNat label.length :: label)

/-- `dns_encode_name`, with the root label at the end. -/
def dnsEncodeName (host : List UInt8) (max : ℕ) : Option (List UInt8) :=
  match encodeLabels max (host.length + 1) host [] with
  | none => none
  | some out => if max ≤ out.length + 1 then none else some (out ++ [0])

/-! ## Reading a datagram -/

/-- The loop of `dns_skip_name`. Every round moves on, so that there are no more rounds than bytes
left. -/
def skipLabels (msg : List UInt8) : ℕ → ℕ → ℕ
  | 0, off => off
  | rounds + 1, off =>
    if off < msg.length then
      let b := msg.getD off 0
      if b = 0 then off + 1
      else if b &&& 0xC0 = 0xC0 then off + 2
      else skipLabels msg rounds (off + b.toNat + 1)
    else off

def dnsSkipName (msg : List UInt8) (off : ℕ) : ℕ := skipLabels msg (msg.length - off) off

/-- A 32-bit field in host order. -/
def field32 (data : List UInt8) (off : ℕ) : UInt32 :=
  UInt32.ofNat ((field16 data off).toNat * 65536 + (field16 data (off + 2)).toNat)

/-- The offset behind the echoed questions. -/
def skipQuestions (data : List UInt8) : ℕ → ℕ → ℕ
  | 0, off => off
  | q + 1, off => skipQuestions data q (dnsSkipName data off + 4)

/-- The loop over the answers: the address and the TTL of the first A record. -/
def scanAnswers (data : List UInt8) : ℕ → ℕ → Option (UInt32 × UInt32)
  | 0, _ => none
  | a + 1, off =>
    if data.length < off + 12 then none
    else
      let off := dnsSkipName data off
      if data.length < off + 10 then none
      else
        let rdlen := (field16 data (off + 8)).toNat
        if data.length < off + 10 + rdlen then none
        else if field16 data off = 1 ∧ rdlen = 4 then
          some (word32 data (off + 10), field32 data (off + 4))
        else scanAnswers data a (off + 10 + rdlen)

/-- The A record that `dns_udp_cb` takes from a datagram with a header. -/
def answerOf (data : List UInt8) : Option (UInt32 × UInt32) :=
  scanAnswers data (field16 data 6).toNat
    (skipQuestions data (field16 data 4).toNat dnsHeaderSize)

/-- An A record with this address stands behind the name that ends at `off`. -/
structure ARecordAt (data : List UInt8) (off : ℕ) (ip : UInt32) : Prop where
  inside : dnsHeaderSize ≤ off ∧ off + 14 ≤ data.length
  type : field16 data off = 1
  rdlen : field16 data (off + 8) = 4
  address : word32 data (off + 10) = ip

lemma le_skipLabels (msg : List UInt8) (rounds off : ℕ) : off ≤ skipLabels msg rounds off := by
  induction rounds generalizing off with
  | zero => exact le_rfl
  | succ rounds ih =>
    simp only [skipLabels]
    split_ifs
    · omega
    · omega
    · have := ih (off + (msg.getD off 0).toNat + 1)
      omega
    · exact le_rfl

lemma le_dnsSkipName (msg : List UInt8) (off : ℕ) : off ≤ dnsSkipName msg off :=
  le_skipLabels msg _ off

lemma le_skipQuestions (data : List UInt8) (q off : ℕ) : off ≤ skipQuestions data q off := by
  induction q generalizing off with
  | zero => exact le_rfl
  | succ q ih =>
    have := le_dnsSkipName data off
    have := ih (dnsSkipName data off + 4)
    rw [skipQuestions]
    omega

lemma exists_aRecordAt_of_scan {data : List UInt8} {a off : ℕ} {ip ttl : UInt32}
    (hoff : dnsHeaderSize ≤ off) (h : scanAnswers data a off = some (ip, ttl)) :
    ∃ off, ARecordAt data off ip := by
  induction a generalizing off with
  | zero => cases h
  | succ a ih =>
    have hle := le_dnsSkipName data off
    simp only [scanAnswers] at h
    split_ifs at h with h₁ h₂ h₃ h₄
    · obtain ⟨htype, hrdlen⟩ := h₄
      rw [Option.some.injEq, Prod.mk.injEq] at h
      refine ⟨dnsSkipName data off, ⟨by omega, by omega⟩, htype, ?_, h.1⟩
      exact UInt16.toNat_inj.1 hrdlen
    · exact ih (by omega) h

/-- **An answer is the data of an A record** of the datagram. -/
lemma exists_aRecordAt {data : List UInt8} {ip ttl : UInt32} (h : answerOf data = some (ip, ttl)) :
    ∃ off, ARecordAt data off ip :=
  exists_aRecordAt_of_scan (le_skipQuestions data _ _) h

/-! ## Built-in hosts -/

/-- An address in network byte order, as `ip_parse` builds it from four numbers. -/
def ipOf (a b c d : ℕ) : UInt32 := UInt32.ofNat (a + b * 2 ^ 8 + c * 2 ^ 16 + d * 2 ^ 24)

def dnsStaticHost (host : List UInt8) : UInt32 :=
  if host = ascii "localhost" then ipOf 127 0 0 1
  else if host = ascii "gateway" then ipOf 10 0 2 2
  else if host = ascii "dns.google" then 0x08080808
  else if host = ascii "google.com" then ipOf 142 250 190 46
  else if host = ascii "github.com" then ipOf 140 82 121 4
  else 0

/-! ## The resolver -/

/-- Where `dns_resolve` stands, from the binding of the port on. -/
inductive ResolvePc where
  /-- About to clear `dns_reply_ready`. -/
  | resetReady
  /-- About to clear `dns_reply_ip`. -/
  | resetIp
  /-- About to read the clock and send the query. -/
  | send
  /-- At the head of the loop that began to wait at `t0`. -/
  | wait (t0 : ℕ)
  /-- About to read `dns_reply_ready` behind the loop. -/
  | testReady
  /-- About to compare `dns_reply_id`. -/
  | testId
  /-- About to compare `dns_reply_ip` with 0. -/
  | testIp
  /-- About to read `dns_reply_ip`. -/
  | takeIp
  /-- About to unbind the port, with this address. -/
  | unbind (ip : UInt32)
  /-- About to store the address in the cache. -/
  | insert (ip : UInt32)
  /-- About to unbind the port, without an address. -/
  | giveUp
  /-- About to look up the built-in hosts. -/
  | fallback
  /-- `dns_resolve` has returned this address, from the network or not. -/
  | done (ret : UInt32) (net : Bool)
  deriving DecidableEq, Repr

/-- The state of a resolution. -/
structure Resolver where
  /-- `dns_reply_ready`. -/
  ready : Bool
  /-- `dns_reply_id`. -/
  replyId : UInt16
  /-- `dns_reply_ip`. -/
  replyIp : UInt32
  /-- `dns_reply_ttl`. -/
  replyTtl : UInt32
  /-- `pit_get_ticks()`. -/
  now : ℕ
  /-- `dns_udp_cb` is bound to the port. -/
  bound : Bool
  pc : ResolvePc
  /-- The address and the TTL given to `dns_cache_insert`. -/
  inserted : Option (UInt32 × UInt32)
  /-- The datagrams that the callback was given. -/
  arrived : List (List UInt8)

/-- What can happen during a resolution. -/
inductive DnsEvent where
  | datagram (data : List UInt8)
  | tick (n : ℕ)
  /-- The resolver goes on. -/
  | main

namespace Resolver

/-- The port has been bound, with the reply fields as the last resolution left them. -/
def start (host : List UInt8) (ready : Bool) (replyId : UInt16) (replyIp replyTtl : UInt32)
    (now : ℕ) : Resolver where
  ready := ready
  replyId := replyId
  replyIp := replyIp
  replyTtl := replyTtl
  now := now
  bound := true
  pc := if (dnsEncodeName host (dnsMaxMsg - dnsHeaderSize - 4)).isSome then .resetReady else .giveUp
  inserted := none
  arrived := []

def dnsUdpCb (s : Resolver) (data : List UInt8) : Resolver :=
  if data.length < dnsHeaderSize then s
  else
    let replyId := field16 data 0
    match answerOf data with
    | some (ip, ttl) =>
      { s with replyIp := ip, replyTtl := if ttl = 0 then 300 else ttl, replyId, ready := true }
    | none => { s with replyId, ready := true }

/-- One step of `dns_resolve`. -/
def main (qid : UInt16) (host : List UInt8) (s : Resolver) : Resolver :=
  match s.pc with
  | .resetReady => { s with ready := false, pc := .resetIp }
  | .resetIp => { s with replyIp := 0, pc := .send }
  | .send => { s with pc := .wait s.now }
  | .wait t0 => if s.ready = false ∧ s.now - t0 < dnsWaitTicks then s
    else { s with pc := .testReady }
  | .testReady => { s with pc := if s.ready then .testId else .giveUp }
  | .testId => { s with pc := if s.replyId = qid then .testIp else .giveUp }
  | .testIp => { s with pc := if s.replyIp ≠ 0 then .takeIp else .giveUp }
  | .takeIp => { s with pc := .unbind s.replyIp }
  | .unbind ip => { s with bound := false, pc := .insert ip }
  | .insert ip => { s with inserted := some (ip, s.replyTtl), pc := .done ip true }
  | .giveUp => { s with bound := false, pc := .fallback }
  | .fallback =>
    let st := dnsStaticHost host
    if st ≠ 0 then { s with inserted := some (st, 300), pc := .done st false }
    else { s with pc := .done 0 false }
  | .done _ _ => s

def step (qid : UInt16) (host : List UInt8) (s : Resolver) : DnsEvent → Resolver
  | .datagram data =>
    if s.bound then { s.dnsUdpCb data with arrived := data :: s.arrived } else s
  | .tick n => { s with now := s.now + n }
  | .main => s.main qid host

end Resolver

/-- The datagram has a header, with the identifier of another query. -/
def foreign (qid : UInt16) (data : List UInt8) : Bool :=
  decide (dnsHeaderSize ≤ data.length) && field16 data 0 != qid

/-- The event is not the arrival of a foreign datagram. -/
def DnsEvent.isOwn (qid : UInt16) : DnsEvent → Bool
  | .datagram data => !foreign qid data
  | _ => true

/-- At this place a foreign datagram does no harm: before the reply fields are cleared, or after the
identifier has been compared, and then without an A record until the address has been read. -/
def ResolvePc.unharmed (data : List UInt8) : ResolvePc → Bool
  | .resetIp | .send | .wait _ | .testReady | .testId => false
  | .testIp | .takeIp => answerOf data == none
  | _ => true

namespace Resolver

/-- While the port is bound, foreign datagrams arrive only where they do no harm. -/
def Tolerates (qid : UInt16) (s : Resolver) : DnsEvent → Prop
  | .datagram data => s.bound = true → foreign qid data = true → s.pc.unharmed data = true
  | _ => True

instance (qid : UInt16) (s : Resolver) : DecidablePred (s.Tolerates qid) := by
  rintro ⟨⟩ <;> dsimp only [Tolerates] <;> infer_instance

variable {qid : UInt16} {host : List UInt8} {s s' : Resolver} {data : List UInt8}

/-! ## What the callback stores -/

lemma dnsUdpCb_cases (s : Resolver) (data : List UInt8) :
    data.length < dnsHeaderSize ∧ s.dnsUdpCb data = s ∨
    dnsHeaderSize ≤ data.length ∧
      ((∃ ip ttl ttl', answerOf data = some (ip, ttl) ∧ s.dnsUdpCb data =
        { s with replyIp := ip, replyTtl := ttl', replyId := field16 data 0, ready := true }) ∨
      answerOf data = none ∧
        s.dnsUdpCb data = { s with replyId := field16 data 0, ready := true }) := by
  unfold dnsUdpCb
  split_ifs with hlen
  · exact .inl ⟨hlen, rfl⟩
  · refine .inr ⟨Nat.not_lt.1 hlen, ?_⟩
    cases hans : answerOf data with
    | none => exact .inr ⟨rfl, rfl⟩
    | some a => exact .inl ⟨a.1, a.2, _, rfl, rfl⟩

lemma foreign_eq_false_iff : foreign qid data = false ↔
    (dnsHeaderSize ≤ data.length → field16 data 0 = qid) := by
  simp [foreign]

/-! ## Provenance -/

/-- The address is that of an A record of a datagram with the identifier of the query. -/
def Supplied (qid : UInt16) (s : Resolver) (ip : UInt32) : Prop :=
  ∃ data ∈ s.arrived, dnsHeaderSize ≤ data.length ∧ field16 data 0 = qid ∧
    ∃ ttl, answerOf data = some (ip, ttl)

/-- From the time the fields are cleared, the address is 0 or supplied; behind the test it is
supplied. -/
def Sound (qid : UInt16) (s : Resolver) : Prop :=
  match s.pc with
  | .send | .wait _ | .testReady | .testId | .testIp => s.replyIp = 0 ∨ s.Supplied qid s.replyIp
  | .takeIp => s.Supplied qid s.replyIp
  | .unbind ip | .insert ip | .done ip true => s.Supplied qid ip
  | _ => True

lemma Supplied.arrive {ip : UInt32} (h : s.Supplied qid ip) (data : List UInt8) :
    Supplied qid { s.dnsUdpCb data with arrived := data :: s.arrived } ip := by
  obtain ⟨d, hd, hrest⟩ := h
  exact ⟨d, mem_cons_of_mem _ hd, hrest⟩

lemma supplied_or_same (htol : s.bound = true → foreign qid data = true → answerOf data = none)
    (hbound : s.bound = true) :
    Supplied qid { s.dnsUdpCb data with arrived := data :: s.arrived } (s.dnsUdpCb data).replyIp ∨
      (s.dnsUdpCb data).replyIp = s.replyIp := by
  rcases dnsUdpCb_cases s data with ⟨-, heq⟩ | ⟨hlen, ⟨ip, ttl, ttl', hans, heq⟩ | ⟨-, heq⟩⟩
  · rw [heq]
    exact .inr rfl
  · rw [heq]
    refine .inl ⟨data, mem_cons_self, hlen, ?_, ttl, hans⟩
    have hown : foreign qid data = false := by
      by_contra hfor
      rw [htol hbound (by simpa using hfor)] at hans
      cases hans
    exact foreign_eq_false_iff.1 hown hlen
  · rw [heq]
    exact .inr rfl

lemma dnsUdpCb_pc (s : Resolver) (data : List UInt8) : (s.dnsUdpCb data).pc = s.pc := by
  rcases dnsUdpCb_cases s data with ⟨-, h⟩ | ⟨-, ⟨_, _, _, -, h⟩ | ⟨-, h⟩⟩ <;> rw [h]

lemma Sound.datagram (h : s.Sound qid) (htol : s.Tolerates qid (.datagram data))
    (hbound : s.bound = true) :
    Sound qid { s.dnsUdpCb data with arrived := data :: s.arrived } := by
  have hkeep : (s.replyIp = 0 ∨ s.Supplied qid s.replyIp) →
      (s.bound = true → foreign qid data = true → answerOf data = none) →
      (s.dnsUdpCb data).replyIp = 0 ∨
        Supplied qid { s.dnsUdpCb data with arrived := data :: s.arrived }
          (s.dnsUdpCb data).replyIp := by
    intro hold htol'
    rcases supplied_or_same htol' hbound with hnew | hsame
    · exact .inr hnew
    · rw [hsame]
      exact hold.imp_right fun hsup => hsup.arrive data
  unfold Sound at h ⊢
  simp only [Tolerates] at htol
  simp only [dnsUdpCb_pc]
  cases hpc : s.pc with
  | resetReady | resetIp | giveUp | fallback => trivial
  | send | wait _ | testReady | testId =>
    simp only [hpc] at h htol ⊢
    exact hkeep h fun hb hf => absurd (htol hb hf) Bool.false_ne_true
  | testIp =>
    simp only [hpc, ResolvePc.unharmed, beq_iff_eq] at h htol ⊢
    exact hkeep h htol
  | takeIp =>
    simp only [hpc, ResolvePc.unharmed, beq_iff_eq] at h htol ⊢
    rcases supplied_or_same htol hbound with hnew | hsame
    · exact hnew
    · rw [hsame]
      exact h.arrive data
  | unbind ip | insert ip =>
    simp only [hpc] at h ⊢
    exact h.arrive data
  | done ip net =>
    cases net with
    | false => trivial
    | true =>
      simp only [hpc] at h ⊢
      exact h.arrive data

lemma Sound.main (h : s.Sound qid) : (s.main qid host).Sound qid := by
  unfold Sound at h
  unfold Resolver.main
  cases hpc : s.pc with simp only [hpc] at h ⊢
  | resetReady | giveUp => trivial
  | resetIp => exact .inl rfl
  | send | takeIp | unbind ip | insert ip => exact h
  | wait t0 =>
    split_ifs
    · unfold Sound
      simp only [hpc]
      exact h
    · exact h
  | testReady =>
    cases s.ready with
    | true => exact h
    | false => trivial
  | testId =>
    by_cases hid : s.replyId = qid
    · rw [if_pos hid]
      exact h
    · rw [if_neg hid]
      trivial
  | testIp =>
    by_cases hip : s.replyIp ≠ 0
    · rw [if_pos hip]
      exact h.resolve_left hip
    · rw [if_neg hip]
      trivial
  | fallback => split_ifs <;> trivial
  | done ip net =>
    unfold Sound
    simp only [hpc]
    exact h

/-- **One event keeps the address sound.** -/
lemma Sound.step (h : s.Sound qid) {e : DnsEvent} (htol : s.Tolerates qid e) :
    (s.step qid host e).Sound qid := by
  cases e with
  | datagram data =>
    simp only [Resolver.step]
    split_ifs with hbound
    · exact h.datagram htol hbound
    · exact h
  | tick n => exact h
  | main => exact h.main

/-! ## Non-interference -/

/-- Two resolutions agree about everything that is still to be read. -/
structure Agree (s s' : Resolver) : Prop where
  pc : s'.pc = s.pc
  now : s'.now = s.now
  bound : s'.bound = s.bound
  inserted : s'.inserted.map Prod.fst = s.inserted.map Prod.fst
  fields : match s.pc with
    | .resetIp => s'.ready = s.ready ∧ (s.ready = true → s'.replyId = s.replyId)
    | .send | .wait _ | .testReady =>
      s'.ready = s.ready ∧ (s.ready = true → s'.replyId = s.replyId) ∧ s'.replyIp = s.replyIp
    | .testId => s'.replyId = s.replyId ∧ s'.replyIp = s.replyIp
    | .testIp | .takeIp => s'.replyIp = s.replyIp
    | _ => True

lemma Agree.refl (s : Resolver) : Agree s s := by
  refine ⟨rfl, rfl, rfl, rfl, ?_⟩
  split <;> simp

lemma Agree.main (h : Agree s s') : Agree (s.main qid host) (s'.main qid host) := by
  obtain ⟨hpc', hnow, hbound, hins, hfields⟩ := h
  unfold Resolver.main
  rw [hpc']
  cases hpc : s.pc with simp only [hpc] at hfields ⊢
  | resetReady => exact ⟨rfl, hnow, hbound, hins, rfl, nofun⟩
  | resetIp => exact ⟨rfl, hnow, hbound, hins, hfields.1, hfields.2, rfl⟩
  | send =>
    rw [hnow]
    exact ⟨rfl, rfl, hbound, hins, hfields⟩
  | wait t0 =>
    rw [hnow, hfields.1]
    split_ifs
    · exact ⟨hpc', hnow, hbound, hins, by simp only [hpc]; exact hfields⟩
    · exact ⟨rfl, rfl, hbound, hins, rfl, hfields.2⟩
  | testReady =>
    rw [hfields.1]
    cases hready : s.ready with
    | true => exact ⟨rfl, hnow, hbound, hins, hfields.2.1 hready, hfields.2.2⟩
    | false => exact ⟨rfl, hnow, hbound, hins, trivial⟩
  | testId =>
    rw [hfields.1]
    split_ifs
    · exact ⟨rfl, hnow, hbound, hins, hfields.2⟩
    · exact ⟨rfl, hnow, hbound, hins, trivial⟩
  | testIp =>
    rw [hfields]
    split_ifs
    · exact ⟨rfl, hnow, hbound, hins, rfl⟩
    · exact ⟨rfl, hnow, hbound, hins, trivial⟩
  | takeIp =>
    rw [hfields]
    exact ⟨rfl, hnow, hbound, hins, trivial⟩
  | unbind ip | giveUp => exact ⟨rfl, hnow, rfl, hins, trivial⟩
  | insert ip => exact ⟨rfl, hnow, hbound, rfl, trivial⟩
  | fallback =>
    split_ifs
    · exact ⟨rfl, hnow, hbound, rfl, trivial⟩
    · exact ⟨rfl, hnow, hbound, hins, trivial⟩
  | done ip net => exact ⟨hpc', hnow, hbound, hins, by simp only [hpc]⟩

lemma Agree.same_datagram (h : Agree s s') (data : List UInt8) :
    Agree (s.step qid host (.datagram data)) (s'.step qid host (.datagram data)) := by
  obtain ⟨hpc', hnow, hbound, hins, hfields⟩ := h
  simp only [Resolver.step, hbound]
  split_ifs
  · rcases dnsUdpCb_cases s data with ⟨hlen, heq⟩
      | ⟨hlen, ⟨ip, ttl, ttl', hans, heq⟩ | ⟨hans, heq⟩⟩ <;>
      rcases dnsUdpCb_cases s' data with ⟨hlen', heq'⟩ | ⟨hlen', ⟨ip', ttl'', ttl''', hans', heq'⟩ |
        ⟨hans', heq'⟩⟩
    all_goals first
      | omega
      | (rw [hans] at hans'; cases hans')
      | skip
    all_goals
      rw [heq, heq']
      refine ⟨hpc', hnow, hbound, hins, ?_⟩
      revert hfields
      cases s.pc <;> simp_all
  · exact ⟨hpc', hnow, hbound, hins, hfields⟩

lemma Agree.foreign_datagram (h : Agree s s') (hfor : foreign qid data = true)
    (htol : s.Tolerates qid (.datagram data)) : Agree (s.step qid host (.datagram data)) s' := by
  obtain ⟨hpc', hnow, hbound, hins, hfields⟩ := h
  simp only [Resolver.step]
  split_ifs with hb
  · have htol' := htol hb hfor
    rcases dnsUdpCb_cases s data with ⟨hlen, heq⟩ | ⟨hlen, ⟨ip, ttl, ttl', hans, heq⟩ | ⟨hans, heq⟩⟩
    all_goals
      rw [heq]
      refine ⟨hpc', hnow, hbound, hins, ?_⟩
      revert hfields htol'
      cases s.pc <;> simp_all [ResolvePc.unharmed]
  · exact ⟨hpc', hnow, hbound, hins, hfields⟩

/-- **Foreign datagrams can be left out** of a run that tolerates them. -/
lemma Agree.run (h : Agree s s') {es : List DnsEvent}
    (hes : Along (.step qid host) (Tolerates qid) s es) :
    Agree (run (.step qid host) s es)
      (run (.step qid host) s' (es.filter (DnsEvent.isOwn qid))) := by
  induction es generalizing s s' with
  | nil => exact h
  | cons e es ih =>
    obtain ⟨htol, hrest⟩ := hes
    cases e with
    | datagram data =>
      cases hfor : foreign qid data with
      | true =>
        rw [filter_cons_of_neg (by simp [DnsEvent.isOwn, hfor])]
        exact ih (h.foreign_datagram hfor htol) hrest
      | false =>
        rw [filter_cons_of_pos (by simp [DnsEvent.isOwn, hfor])]
        exact ih (h.same_datagram data) hrest
    | tick n =>
      refine ih ⟨h.pc, ?_, h.bound, h.inserted, h.fields⟩ hrest
      show s'.now + n = s.now + n
      rw [h.now]
    | main =>
      exact ih h.main hrest

/-! ## Every resolution -/

/-- **Only replies to the query count**, in every run in which foreign datagrams arrive while they
do no harm: an address from the network is the data of an A record of one datagram with the
identifier of the query, and without the foreign datagrams the resolution stands at the same place,
with the same answer, and has stored the same address. -/
theorem answers_own_query (qid : UInt16) (host : List UInt8) (ready : Bool) (replyId : UInt16)
    (replyIp replyTtl : UInt32) (now : ℕ) {es : List DnsEvent} {s₀ s : Resolver}
    (hs₀ : s₀ = start host ready replyId replyIp replyTtl now) (hs : s = run (step qid host) s₀ es)
    (hes : Along (step qid host) (Tolerates qid) s₀ es) :
    (∀ ip, s.pc = .done ip true → ∃ data ∈ s.arrived,
      field16 data 0 = qid ∧ ∃ off, ARecordAt data off ip) ∧
    (run (step qid host) s₀ (es.filter (DnsEvent.isOwn qid))).pc = s.pc ∧
    (run (step qid host) s₀ (es.filter (DnsEvent.isOwn qid))).inserted.map Prod.fst =
      s.inserted.map Prod.fst := by
  have hstart : s₀.Sound qid := by
    rw [hs₀]
    unfold Sound start
    split_ifs <;> trivial
  have hstep : ∀ (s : Resolver) (e : DnsEvent), s.Sound qid → s.Tolerates qid e →
      (s.step qid host e).Sound qid := fun s e h he => h.step he
  have hsound := run_invariant_of_along hstep hstart hes
  have hagree := (Agree.refl s₀).run hes
  rw [← hs] at hsound hagree
  refine ⟨fun ip hdone => ?_, hagree.pc, hagree.inserted⟩
  unfold Sound at hsound
  simp only [hdone] at hsound
  obtain ⟨data, hdata, -, hid, ttl, hans⟩ := hsound
  exact ⟨data, hdata, hid, exists_aRecordAt hans⟩

/-! ## Replies and other datagrams -/

/-- A reply with this identifier: one question for the name `a`, and an A record `10.0.2.n`. -/
def replyWith (id n : UInt8) : List UInt8 :=
  [0x53, id, 0x81, 0x80, 0, 1, 0, 1, 0, 0, 0, 0] ++ [1, 0x61, 0, 0, 1, 0, 1] ++
    [0xC0, 0x0C, 0, 1, 0, 1, 0, 0, 0, 60, 0, 4, 10, 0, 2, n]

/-- A reply with this identifier and without answers. -/
def emptyReply (id : UInt8) : List UInt8 := [0x53, id, 0x81, 0x83, 0, 1, 0, 0, 0, 0, 0, 0] ++
  [1, 0x61, 0, 0, 1, 0, 1]

/-- The resolver goes on `n` times. -/
def steps (n : ℕ) : List DnsEvent := List.replicate n .main

/-- The resolution of the name `a`, with the identifier `0x5300`. -/
def resolving : Resolver := start (ascii "a") false 0 0 0 0

/-- The reply arrives, and a foreign datagram after the address has been read. -/
def lateForeign : List DnsEvent :=
  steps 4 ++ [.datagram (replyWith 0 9)] ++ steps 5 ++ [.datagram (replyWith 1 66)] ++ steps 2

/-- A foreign datagram after the address has been read changes nothing. -/
theorem answers_own_query_late :
    Along (step 0x5300 (ascii "a")) (Tolerates 0x5300) resolving lateForeign ∧
    (run (step 0x5300 (ascii "a")) resolving lateForeign).pc = .done (ipOf 10 0 2 9) true ∧
    ∃ data ∈ (run (step 0x5300 (ascii "a")) resolving lateForeign).arrived,
      field16 data 0 = 0x5300 ∧ ∃ off, ARecordAt data off (ipOf 10 0 2 9) := by
  have halong : Along (step 0x5300 (ascii "a")) (Tolerates 0x5300) resolving lateForeign := by
    decide +kernel
  have hdone : (run (step 0x5300 (ascii "a")) resolving lateForeign).pc =
      .done (ipOf 10 0 2 9) true := by decide +kernel
  exact ⟨halong, hdone,
    (answers_own_query 0x5300 (ascii "a") false 0 0 0 0 rfl rfl halong).1 _ hdone⟩

/-- A foreign datagram with an address, then an empty reply to the query, before the resolver looks.
-/
def mixedReplies : List DnsEvent :=
  steps 4 ++ [.datagram (replyWith 1 66), .datagram (emptyReply 0)] ++ steps 7

/-- A foreign datagram, and the reply later. -/
def earlyForeign : List DnsEvent :=
  steps 4 ++ [.datagram (emptyReply 1)] ++ steps 3 ++ [.datagram (replyWith 0 9)] ++ steps 7

/-- **A foreign datagram decides.** In the first run its address is returned, with the identifier of
another datagram, and no datagram with the identifier of the query holds an A record; in the second
it ends the wait, and the reply, which is the answer otherwise, is not used. -/
theorem foreign_address_returned :
    (run (step 0x5300 (ascii "a")) resolving mixedReplies).pc =
      .done (ipOf 10 0 2 66) true ∧
    (∀ data ∈ (run (step 0x5300 (ascii "a")) resolving mixedReplies).arrived,
      field16 data 0 = 0x5300 → ∀ off, ¬ ARecordAt data off (ipOf 10 0 2 66)) ∧
    (run (step 0x5300 (ascii "a")) resolving earlyForeign).pc = .done 0 false ∧
    (run (step 0x5300 (ascii "a")) resolving
      (earlyForeign.filter (DnsEvent.isOwn 0x5300))).pc = .done (ipOf 10 0 2 9) true := by
  refine ⟨by decide +kernel, fun data hdata hid off hrec =>
    ?_, by decide +kernel, by decide +kernel⟩
  have harrived : (run (step 0x5300 (ascii "a")) resolving mixedReplies).arrived =
      [emptyReply 0, replyWith 1 66] := by decide +kernel
  rw [harrived, mem_pair] at hdata
  rcases hdata with rfl | rfl
  · -- the reply to the query is too short for a record
    have hinside := hrec.inside
    have hlen : (emptyReply 0).length = 19 := rfl
    have hheader : dnsHeaderSize = 12 := rfl
    omega
  · exact absurd hid (by decide)

end Resolver

end SubOS.Net
