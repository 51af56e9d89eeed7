import SubOS.Lib.EventRun
import SubOS.Net.Tcp.Defs

set_option autoImplicit false

/-!
# The packet filter and the receive path

`filter.c` and `net_receive`. `filter_add_rule` takes the first slot that is not in use and
`filter_evaluate` decides by the first slot that matches; a rule that takes the slot of a deleted
one comes before every rule that was added in between. The call in `net_receive` gives 0 for both
ports, which only rules for any port match.

## Main definitions

* `Filter.filterAddRule`, `Filter.filterEvaluate`, `netReceive` — the filter and the receive path.

## Main results

* `evaluate_earliest`, `reused_slot_first` — whether the rule added first decides.
* `enforced_iff`, `telnet_not_dropped` — whether rules about ports are enforced.
* `deliversData_iff`, `not_deliversData` — whether the data of a datagram are delivered.

## Design

The order of the additions is kept beside the table, as a list of slots: identifiers do not give
it, since `next_rule_id` wraps. Addresses, masks, the source port and the comment of a rule are read
by no function here. The handlers are recorded as calls, with the data they are given.
-/

namespace SubOS.Net

open Function EventRun List Option

def filterMaxRules : ℕ := 32

inductive FilterAction where
  | accept
  | drop
  | reject
  | log
  deriving DecidableEq, Repr

inductive FilterHook where
  | preRouting
  | localIn
  | forward
  | localOut
  | postRouting
  deriving DecidableEq, Repr

structure FilterRule where
  id : UInt32
  hook : FilterHook
  protocol : UInt8
  dstPort : UInt16
  action : FilterAction
  packetCount : UInt64
  byteCount : UInt64
  inUse : Bool
  deriving DecidableEq, Repr

/-- A rule cleared by `memset`. -/
def FilterRule.zero : FilterRule := ⟨0, .preRouting, 0, 0, .accept, 0, 0, false⟩

/-- The rule is in use at this hook, and protocol and destination port are the packet's or any. -/
def FilterRule.matches (r : FilterRule) (hook : FilterHook) (proto : UInt8) (dstPort : UInt16) :
    Bool :=
  r.inUse && r.hook == hook && (r.protocol == 0 || r.protocol == proto) &&
    (r.dstPort == 0 || r.dstPort == dstPort)

/-- The state of `filter.c`. -/
structure Filter where
  /-- `rules_table`. -/
  rulesTable : Fin filterMaxRules → FilterRule
  /-- `next_rule_id`. -/
  nextRuleId : UInt32

namespace Filter

/-- The state after the `memset` of `filter_init`. -/
def cleared : Filter := ⟨fun _ => FilterRule.zero, 1⟩

/-- Overwrite a slot of the table. -/
@[simps -fullyApplied] def setRule (f : Filter) (i : Fin filterMaxRules)
    (r : FilterRule) : Filter :=
  { f with rulesTable := update f.rulesTable i r }

/-- The first slot that is not in use. -/
def freeSlot (f : Filter) : Option (Fin filterMaxRules) :=
  Fin.find? fun i => !(f.rulesTable i).inUse

def filterAddRule (f : Filter) (hook : FilterHook) (proto : UInt8) (dstPort : UInt16)
    (action : FilterAction) : Filter × ℤ :=
  match f.freeSlot with
  | none => (f, -1)
  | some i =>
    ({ f.setRule i ⟨f.nextRuleId, hook, proto, dstPort, action, 0, 0, true⟩ with
        nextRuleId := f.nextRuleId + 1 }, f.nextRuleId.toInt32.toInt)

/-- The slot that `filter_delete_rule` clears. -/
def ruleSlot (f : Filter) (ruleId : UInt32) : Option (Fin filterMaxRules) :=
  Fin.find? fun i => (f.rulesTable i).inUse && (f.rulesTable i).id == ruleId

def filterDeleteRule (f : Filter) (ruleId : UInt32) : Filter × ℤ :=
  match f.ruleSlot ruleId with
  | none => (f, -1)
  | some i => (f.setRule i { f.rulesTable i with inUse := false }, 0)

/-- The slot that decides in `filter_evaluate`. -/
def decider (f : Filter) (hook : FilterHook) (proto : UInt8) (dstPort : UInt16) :
    Option (Fin filterMaxRules) :=
  Fin.find? fun i => (f.rulesTable i).matches hook proto dstPort

def filterEvaluate (f : Filter) (hook : FilterHook) (proto : UInt8) (_srcIp _dstIp : UInt32)
    (_srcPort dstPort : UInt16) (len : ℕ) : Filter × FilterAction :=
  match f.decider hook proto dstPort with
  | none => (f, .accept)
  | some i =>
    let r := f.rulesTable i
    let packetCount := r.packetCount + 1
    let byteCount := r.byteCount + UInt64.ofNat len
    (f.setRule i { r with packetCount, byteCount }, r.action)

/-- `filter_init`, with its baseline rules. -/
def filterInit : Filter :=
  let f := (cleared.filterAddRule .localIn 1 0 .accept).1
  let f := (f.filterAddRule .localIn 6 80 .accept).1
  (f.filterAddRule .localIn 17 53 .accept).1

variable {f : Filter} {hook : FilterHook} {proto : UInt8} {dstPort : UInt16}
    {i : Fin filterMaxRules}

lemma filterEvaluate_action (srcIp dstIp : UInt32) (srcPort : UInt16) (len : ℕ) :
    (f.filterEvaluate hook proto srcIp dstIp srcPort dstPort len).2 =
      ((f.decider hook proto dstPort).map fun i => (f.rulesTable i).action).getD .accept := by
  unfold filterEvaluate
  cases f.decider hook proto dstPort <;> rfl

lemma decider_eq_some_iff : f.decider hook proto dstPort = some i ↔
    (f.rulesTable i).matches hook proto dstPort = true ∧
      ∀ j < i, (f.rulesTable j).matches hook proto dstPort = false :=
  Fin.find?_eq_some_iff

lemma decider_eq_none_iff : f.decider hook proto dstPort = none ↔
    ∀ i, (f.rulesTable i).matches hook proto dstPort = false :=
  Fin.find?_eq_none_iff

end Filter

/-! ## The order of the additions -/

/-- The table, and the slots in use in the order in which their rules were added. -/
structure Ledger where
  filter : Filter
  order : List (Fin filterMaxRules)

/-- A call of the packet filter. -/
inductive FilterCall where
  | add (hook : FilterHook) (proto : UInt8) (dstPort : UInt16) (action : FilterAction)
  | delete (ruleId : UInt32)
  | evaluate (hook : FilterHook) (proto : UInt8) (srcIp dstIp : UInt32) (srcPort dstPort : UInt16)
      (len : ℕ)
  deriving DecidableEq, Repr

namespace Ledger

/-- No rule has been added yet. -/
def start : Ledger := ⟨.cleared, []⟩

/-- One call: a rule that is added comes last, a rule that is deleted leaves the order. -/
def call (l : Ledger) : FilterCall → Ledger
  | .add hook proto dstPort action =>
    ⟨(l.filter.filterAddRule hook proto dstPort action).1, l.order ++ l.filter.freeSlot.toList⟩
  | .delete ruleId =>
    ⟨(l.filter.filterDeleteRule ruleId).1, (l.filter.ruleSlot ruleId).elim l.order l.order.erase⟩
  | .evaluate hook proto srcIp dstIp srcPort dstPort len =>
    ⟨(l.filter.filterEvaluate hook proto srcIp dstIp srcPort dstPort len).1, l.order⟩

/-- The action of the matching rule that was added first, `FILTER_ACTION_ACCEPT` if none matches. -/
def earliest (l : Ledger) (hook : FilterHook) (proto : UInt8) (dstPort : UInt16) : FilterAction :=
  ((l.order.find? fun i => (l.filter.rulesTable i).matches hook proto dstPort).map
    fun i => (l.filter.rulesTable i).action).getD .accept

end Ledger

/-! ## Rules that decide differently about one packet -/

/-- Some packet matches both rules, and their actions differ. -/
def FilterRule.Conflicts (r r' : FilterRule) : Prop :=
  r.hook = r'.hook ∧ (r.protocol = 0 ∨ r'.protocol = 0 ∨ r.protocol = r'.protocol) ∧
    (r.dstPort = 0 ∨ r'.dstPort = 0 ∨ r.dstPort = r'.dstPort) ∧ r.action ≠ r'.action
  deriving Decidable

lemma FilterRule.action_eq_of_matches {r r' : FilterRule} {hook : FilterHook} {proto : UInt8}
    {dstPort : UInt16} (hr : r.matches hook proto dstPort = true)
    (hr' : r'.matches hook proto dstPort = true) (h : ¬ r.Conflicts r') : r.action = r'.action := by
  simp only [FilterRule.matches, Bool.and_eq_true, Bool.or_eq_true, beq_iff_eq] at hr hr'
  obtain ⟨⟨⟨-, hhook⟩, hproto⟩, hport⟩ := hr
  obtain ⟨⟨⟨-, hhook'⟩, hproto'⟩, hport'⟩ := hr'
  by_contra hne
  refine h ⟨hhook.trans hhook'.symm, ?_, ?_, hne⟩
  · rcases hproto with h0 | hp
    · exact .inl h0
    · rcases hproto' with h0 | hp'
      · exact .inr (.inl h0)
      · exact .inr (.inr (hp.trans hp'.symm))
  · rcases hport with h0 | hp
    · exact .inl h0
    · rcases hport' with h0 | hp'
      · exact .inr (.inl h0)
      · exact .inr (.inr (hp.trans hp'.symm))

/-- The counters of a rule apart, two entries of the table are the same. -/
structure FilterRule.SameRule (r r' : FilterRule) : Prop where
  hook : r'.hook = r.hook
  protocol : r'.protocol = r.protocol
  dstPort : r'.dstPort = r.dstPort
  action : r'.action = r.action
  inUse : r'.inUse = r.inUse

lemma FilterRule.SameRule.refl (r : FilterRule) : r.SameRule r := ⟨rfl, rfl, rfl, rfl, rfl⟩

lemma Filter.filterEvaluate_sameRule (f : Filter) (hook : FilterHook) (proto : UInt8)
    (srcIp dstIp : UInt32) (srcPort dstPort : UInt16) (len : ℕ) (j : Fin filterMaxRules) :
    (f.rulesTable j).SameRule
      ((f.filterEvaluate hook proto srcIp dstIp srcPort dstPort len).1.rulesTable j) := by
  unfold filterEvaluate
  cases hslot : f.decider hook proto dstPort with
  | none => exact FilterRule.SameRule.refl _
  | some i =>
    by_cases hj : j = i
    · subst hj
      simp only [setRule_rulesTable, update_self]
      exact ⟨rfl, rfl, rfl, rfl, rfl⟩
    · simp only [setRule_rulesTable, update_of_ne hj]
      exact FilterRule.SameRule.refl _

namespace Ledger

/-- A rule is not added into a slot below one whose rule it conflicts with. -/
def KeepsPrecedence (l : Ledger) : FilterCall → Prop
  | .add hook proto dstPort action =>
    ∀ i ∈ l.filter.freeSlot, ∀ j, i < j → (l.filter.rulesTable j).inUse = true →
      ¬ (l.filter.rulesTable j).Conflicts
        ⟨l.filter.nextRuleId, hook, proto, dstPort, action, 0, 0, true⟩
  | _ => True

instance (l : Ledger) : DecidablePred l.KeepsPrecedence := by
  rintro ⟨⟩ <;> dsimp only [KeepsPrecedence] <;> infer_instance

/-- The order lists the slots in use, and where it disagrees with the table the rules agree. -/
structure Ordered (l : Ledger) : Prop where
  nodup : l.order.Nodup
  mem : ∀ i, i ∈ l.order ↔ (l.filter.rulesTable i).inUse = true
  agree : l.order.Pairwise fun a b => b < a →
    ¬ (l.filter.rulesTable a).Conflicts (l.filter.rulesTable b)

variable {l : Ledger}

section

variable (h : Ordered l)
include h

/-- **By either order the decision is the same.** The slot that decides and the rule that was added
first both match, and they conflict only if the table and the order agree about them.

**Proof sketch.** Let `e` be the first slot of the order that matches and `s` the first slot of the
table that does. If they differ then `s < e`, and `s` comes behind `e` in the order, so the two
rules take the same action. -/
lemma Ordered.decision (hook : FilterHook) (proto : UInt8) (dstPort : UInt16) :
    ((l.filter.decider hook proto dstPort).map fun i => (l.filter.rulesTable i).action).getD
      .accept = l.earliest hook proto dstPort := by
  unfold earliest
  have hused : ∀ i, (l.filter.rulesTable i).matches hook proto dstPort = true → i ∈ l.order := by
    intro i hi
    rw [h.mem]
    simp only [FilterRule.matches, Bool.and_eq_true] at hi
    exact hi.1.1.1
  cases hslot : l.filter.decider hook proto dstPort with
  | none =>
    have hnone : l.order.find? (fun i => (l.filter.rulesTable i).matches hook proto dstPort) =
        none := by
      rw [find?_eq_none]
      intro i _
      simp [Filter.decider_eq_none_iff.1 hslot i]
    rw [hnone, map_none]
  | some s =>
    obtain ⟨hs, hfirst⟩ := Filter.decider_eq_some_iff.1 hslot
    cases hfind : l.order.find? fun i => (l.filter.rulesTable i).matches hook proto dstPort with
    | none => exact absurd hs (find?_eq_none.1 hfind s (hused s hs))
    | some e =>
      obtain ⟨he, before, after, horder, hbefore⟩ := find?_eq_some_iff_append.1 hfind
      by_cases hse : s = e
      · rw [hse]
      · have hlt : s < e := by
          by_contra hle
          have hes : e < s := lt_of_le_of_ne (not_lt.1 hle) (.symm hse)
          rw [hfirst e hes] at he
          exact Bool.false_ne_true he
        have hsmem : s ∈ after := by
          have hmem := hused s hs
          rw [horder, mem_append, mem_cons] at hmem
          rcases hmem with hb | heq | ha
          · have := hbefore s hb
            rw [hs] at this
            exact absurd this (by decide)
          · exact absurd heq hse
          · exact ha
        have hagree := h.agree
        rw [horder, pairwise_append, pairwise_cons] at hagree
        have hno := hagree.2.1.1 s hsmem hlt
        exact (FilterRule.action_eq_of_matches he hs hno).symm

/-- Adding a rule keeps the order, as long as the rule is not put below one it conflicts with. -/
lemma Ordered.add {hook : FilterHook} {proto : UInt8} {dstPort : UInt16}
    {action : FilterAction} (hok : l.KeepsPrecedence (.add hook proto dstPort action)) :
    Ordered (l.call (.add hook proto dstPort action)) := by
  unfold call Filter.filterAddRule
  cases hfree : l.filter.freeSlot with
  | none =>
    simp only [toList_none, append_nil]
    exact h
  | some i =>
    have hunused : (l.filter.rulesTable i).inUse = false := by
      simpa using Fin.eq_true_of_find?_eq_some hfree
    have hnot : i ∉ l.order := by
      rw [h.mem, hunused]
      exact Bool.false_ne_true
    have hold : ∀ a ∈ l.order, a ≠ i := fun a ha hai => hnot (hai ▸ ha)
    simp only [toList_some]
    refine ⟨?_, fun k => ?_, ?_⟩
    · exact h.nodup.append (nodup_singleton i) (disjoint_singleton.2 hnot)
    · by_cases hk : k = i
      · simp [hk]
      · simp [hk, h.mem k]
    · rw [pairwise_append]
      refine ⟨?_, pairwise_singleton _ _, ?_⟩
      · refine h.agree.imp_of_mem fun ha hb hab hlt => ?_
        simp only [Filter.setRule_rulesTable, update_of_ne (hold _ ha), update_of_ne (hold _ hb)]
        exact hab hlt
      · intro a ha b hb hlt
        rw [mem_singleton] at hb
        subst hb
        simp only [Filter.setRule_rulesTable, update_of_ne (hold a ha), update_self]
        exact hok b hfree a hlt ((h.mem a).1 ha)

lemma Ordered.delete (ruleId : UInt32) : Ordered (l.call (.delete ruleId)) := by
  show Ordered ⟨(l.filter.filterDeleteRule ruleId).1,
    (l.filter.ruleSlot ruleId).elim l.order l.order.erase⟩
  unfold Filter.filterDeleteRule
  cases l.filter.ruleSlot ruleId with
  | none => exact h
  | some i =>
    have hrest : ∀ a ∈ l.order.erase i, a ≠ i := fun a ha => (h.nodup.mem_erase_iff.1 ha).1
    rw [elim_some]
    refine ⟨h.nodup.erase i, fun k => ?_, ?_⟩
    · rw [h.nodup.mem_erase_iff]
      by_cases hk : k = i
      · simp [hk]
      · simp [hk, h.mem k]
    · refine (h.agree.sublist erase_sublist).imp_of_mem fun ha hb hab hlt => ?_
      simp only [Filter.setRule_rulesTable, update_of_ne (hrest _ ha), update_of_ne (hrest _ hb)]
      exact hab hlt

lemma Ordered.evaluate (hook : FilterHook) (proto : UInt8) (srcIp dstIp : UInt32)
    (srcPort dstPort : UInt16) (len : ℕ) :
    Ordered (l.call (.evaluate hook proto srcIp dstIp srcPort dstPort len)) := by
  have hsame := l.filter.filterEvaluate_sameRule hook proto srcIp dstIp srcPort dstPort len
  refine ⟨h.nodup, fun i => ?_, h.agree.imp fun {a b} hab hlt hconf => hab hlt ?_⟩
  · exact (h.mem i).trans (by rw [call, (hsame i).inUse])
  · rw [call] at hconf
    unfold FilterRule.Conflicts at hconf ⊢
    rwa [(hsame a).hook, (hsame a).protocol, (hsame a).dstPort, (hsame a).action, (hsame b).hook,
      (hsame b).protocol, (hsame b).dstPort, (hsame b).action] at hconf

lemma Ordered.call {c : FilterCall} (hok : l.KeepsPrecedence c) : Ordered (l.call c) := by
  cases c with
  | add => exact h.add hok
  | delete ruleId => exact h.delete ruleId
  | evaluate hook proto srcIp dstIp srcPort dstPort len =>
    exact h.evaluate hook proto srcIp dstIp srcPort dstPort len

end

lemma ordered_start : Ordered start :=
  ⟨nodup_nil, fun i => by simp [start, Filter.cleared, FilterRule.zero], .nil⟩

/-- **The rule added first decides**, in every run in which no rule is added into a slot below one
whose rule it conflicts with. -/
theorem evaluate_earliest {cs : List FilterCall}
    (hcs : Along call KeepsPrecedence start cs) (hook : FilterHook) (proto : UInt8)
    (srcIp dstIp : UInt32) (srcPort dstPort : UInt16) (len : ℕ) :
    ((run call start cs).filter.filterEvaluate hook proto srcIp dstIp srcPort dstPort
      len).2 = (run call start cs).earliest hook proto dstPort := by
  have hstep : ∀ (l : Ledger) (c : FilterCall), Ordered l → l.KeepsPrecedence c →
      Ordered (l.call c) := fun l c h hc => h.call hc
  have hinv := run_invariant_of_along hstep ordered_start hcs
  rw [Filter.filterEvaluate_action]
  exact hinv.decision hook proto dstPort

/-- Telnet is allowed, then the web is dropped, then the first rule makes room for a rule about
another port. -/
def reuseApart : List FilterCall :=
  [.add .localIn 6 23 .accept, .add .localIn 6 80 .drop, .delete 1, .add .localIn 6 443 .accept]

/-- A slot that is reused by a rule about another port changes no decision. -/
theorem evaluate_earliest_reuseApart : Along call KeepsPrecedence start reuseApart ∧
    ((run call start reuseApart).filter.filterEvaluate .localIn 6 0 0 0 80 60).2 =
      (run call start reuseApart).earliest .localIn 6 80 :=
  have hruns : Along call KeepsPrecedence start reuseApart := by decide +kernel
  ⟨hruns, evaluate_earliest hruns .localIn 6 0 0 0 80 60⟩

/-- Port 80 is dropped. A rule in a lower slot is deleted, and a rule that accepts port 80 is
added. -/
def reuseBelow : List FilterCall :=
  [.add .localIn 6 23 .accept, .add .localIn 6 80 .drop, .delete 1, .add .localIn 6 80 .accept]

/-- **The rule added last decides.** The new rule takes the slot of the deleted one, below the rule
that drops the port, and packets to the port are accepted. -/
theorem reused_slot_first :
    ((run call start reuseBelow).filter.filterEvaluate .localIn 6 0 0 0 80 60).2 = .accept ∧
    (run call start reuseBelow).earliest .localIn 6 80 = .drop := by
  decide +kernel

end Ledger

open Tcp (ntohs)

/-- `sizeof(eth_header_t)`. -/
def ethHeaderSize : ℕ := 14

/-- `sizeof(ip_header_t)`. -/
def ipHeaderSize : ℕ := 20

def ethertypeArp : UInt16 := 0x0806

def ethertypeIpv4 : UInt16 := 0x0800

def ipProtoIcmp : UInt8 := 1

def ipProtoTcp : UInt8 := 6

def ipProtoUdp : UInt8 := 17

/-! ## The ARP cache -/

def maxArpEntries : ℕ := 16

structure ArpEntry where
  ip : UInt32
  mac : List UInt8
  valid : Bool
  deriving DecidableEq, Repr

/-- `arp_cache` and `arp_cache_count`. -/
structure ArpCache where
  entries : Fin maxArpEntries → ArpEntry
  count : ℕ

/-- `arp_cache_insert`: the entry of this address, else the next free one, else the first. -/
def ArpCache.arpCacheInsert (c : ArpCache) (ip : UInt32) (mac : List UInt8) : ArpCache :=
  let entry : ArpEntry := ⟨ip, mac, true⟩
  match Fin.find? fun i => decide (i.val < c.count) && (c.entries i).ip == ip with
  | some i => { c with entries := update c.entries i entry }
  | none =>
    if h : c.count < maxArpEntries then
      ⟨update c.entries ⟨c.count, h⟩ entry, c.count + 1⟩
    else { c with entries := update c.entries ⟨0, by decide⟩ entry }

/-! ## `net_receive` -/

/-- A call of a protocol handler. -/
inductive Upcall where
  | arp (payload : List UInt8)
  | icmp (srcIp : UInt32) (data : List UInt8)
  | tcp (data : List UInt8) (srcIp : UInt32)
  | udp (data : List UInt8) (srcIp : UInt32)
  deriving DecidableEq, Repr

/-- The handler is `tcp_receive` or `udp_receive`. -/
def Upcall.isTransport : Upcall → Bool
  | .tcp _ _ | .udp _ _ => true
  | _ => false

/-- What `net_receive` reads and changes. -/
structure Inet where
  filter : Filter
  arpCache : ArpCache

/-- A 32-bit field of a packed header, in the byte order of the machine. -/
def word32 (data : List UInt8) (off : ℕ) : UInt32 :=
  UInt32.ofNat (((data.getD (off + 3) 0).toNat * 256 + (data.getD (off + 2) 0).toNat) * 65536 +
    (data.getD (off + 1) 0).toNat * 256 + (data.getD off 0).toNat)

/-- The 16-bit field of a header at this offset, in host order. -/
def field16 (data : List UInt8) (off : ℕ) : UInt16 :=
  ntohs (data.getD off 0) (data.getD (off + 1) 0)

/-- `ihl`: the length of an IP header in bytes. -/
def ihlOf (ip : List UInt8) : ℕ := (ip.getD 0 0 &&& 0x0F).toNat * 4

/-- The datagram without the padding of the frame: `total_length` bytes, where that is less. -/
def datagramOf (ip : List UInt8) : List UInt8 :=
  let ipTotal := (field16 ip 2).toNat
  if ihlOf ip ≤ ipTotal ∧ ipTotal < ip.length then ip.take ipTotal else ip

/-- The data that the protocol handler is given. -/
def segmentOf (ip : List UInt8) : List UInt8 := (datagramOf ip).drop (ihlOf ip)

/-- The handler of a protocol, with its arguments. -/
def upcallOf (protocol : UInt8) (srcIp : UInt32) (data : List UInt8) : Option Upcall :=
  if protocol = ipProtoIcmp then some (.icmp srcIp data)
  else if protocol = ipProtoTcp then some (.tcp data srcIp)
  else if protocol = ipProtoUdp then some (.udp data srcIp)
  else none

namespace Inet

/-- The part of `net_receive` for IPv4, once the header is known to be there. -/
def ipv4Receive (s : Inet) (srcMac ip : List UInt8) : Inet × Option Upcall :=
  if (datagramOf ip).length < ihlOf ip then (s, none)
  else
    let srcIp := word32 ip 12
    let protocol := ip.getD 9 0
    let arpCache := s.arpCache.arpCacheInsert srcIp srcMac
    let judged := s.filter.filterEvaluate .localIn protocol srcIp (word32 ip 16) 0 0
      (datagramOf ip).length
    (⟨judged.1, arpCache⟩, if judged.2 = .drop then none
      else upcallOf protocol srcIp (segmentOf ip))

def netReceive (s : Inet) (packet : List UInt8) : Inet × Option Upcall :=
  if packet.length < ethHeaderSize then (s, none)
  else
    let payload := packet.drop ethHeaderSize
    if field16 packet 12 = ethertypeArp then (s, some (.arp payload))
    else if field16 packet 12 = ethertypeIpv4 ∧ ipHeaderSize ≤ payload.length then
      s.ipv4Receive ((packet.drop 6).take 6) payload
    else (s, none)

end Inet

/-! ## Packets with a destination port -/

/-- The frame carries an IPv4 packet of this protocol, TCP or UDP, to this port. -/
structure Carries (packet : List UInt8) (proto : UInt8) (p : UInt16) : Prop where
  length : ethHeaderSize + ipHeaderSize ≤ packet.length
  ethertype : field16 packet 12 = ethertypeIpv4
  header : ihlOf (packet.drop ethHeaderSize) ≤ (datagramOf (packet.drop ethHeaderSize)).length
  protocol : (packet.drop ethHeaderSize).getD 9 0 = proto
  transport : proto = ipProtoTcp ∨ proto = ipProtoUdp
  ports : 4 ≤ (segmentOf (packet.drop ethHeaderSize)).length
  port : field16 (segmentOf (packet.drop ethHeaderSize)) 2 = p

/-- If the packet is handed to `tcp_receive` or `udp_receive`, then the first `LOCAL_IN` rule in use
that matches its protocol and its destination port is not a DROP rule, or there is none. -/
def Enforced (s : Inet) (packet : List UInt8) (proto : UInt8) (p : UInt16) : Prop :=
  (∃ u ∈ (s.netReceive packet).2, u.isTransport = true) →
    ∀ i ∈ s.filter.decider .localIn proto p, (s.filter.rulesTable i).action ≠ .drop

/-- The rule is for any port, and is in use for this protocol at `LOCAL_IN`. -/
def FilterRule.isPortless (r : FilterRule) (proto : UInt8) : Bool :=
  r.inUse && r.hook == .localIn && (r.protocol == 0 || r.protocol == proto) && r.dstPort == 0

/-- The first rule for any port that is in use for this protocol is a DROP rule. -/
def PortlessDrop (f : Filter) (proto : UInt8) : Prop :=
  ∃ i, (f.rulesTable i).isPortless proto = true ∧ (f.rulesTable i).action = .drop ∧
    ∀ j < i, (f.rulesTable j).isPortless proto = false

variable {s : Inet} {f : Filter} {packet : List UInt8} {proto : UInt8} {p : UInt16}

lemma FilterRule.matches_zero (r : FilterRule) (proto : UInt8) :
    r.matches .localIn proto 0 = r.isPortless proto := by
  simp [FilterRule.matches, FilterRule.isPortless]

lemma FilterRule.matches_of_isPortless {r : FilterRule} (h : r.isPortless proto = true)
    (p : UInt16) : r.matches .localIn proto p = true := by
  simp only [FilterRule.isPortless, Bool.and_eq_true, beq_iff_eq] at h
  simp only [FilterRule.matches, Bool.and_eq_true, Bool.or_eq_true, beq_iff_eq]
  exact ⟨⟨h.1.1, by simpa using h.1.2⟩, .inl h.2⟩

/-- The filter drops a packet whose port it is not told exactly by a rule for any port. -/
lemma evaluate_zero_eq_drop_iff (srcIp dstIp : UInt32) (len : ℕ) :
    (f.filterEvaluate .localIn proto srcIp dstIp 0 0 len).2 = .drop ↔ PortlessDrop f proto := by
  rw [Filter.filterEvaluate_action]
  cases hslot : f.decider .localIn proto 0 with
  | none =>
    rw [Filter.decider_eq_none_iff] at hslot
    refine iff_of_false (by simp) ?_
    rintro ⟨i, hi, -⟩
    rw [← FilterRule.matches_zero, hslot i] at hi
    exact Bool.false_ne_true hi
  | some i =>
    rw [Filter.decider_eq_some_iff] at hslot
    simp only [FilterRule.matches_zero] at hslot
    obtain ⟨hi, hfirst⟩ := hslot
    constructor
    · intro hdrop
      exact ⟨i, hi, hdrop, hfirst⟩
    · rintro ⟨k, hk, hdrop, hfirst'⟩
      -- both are the first rule for any port
      rcases lt_trichotomy i k with hlt | rfl | hlt
      · rw [hfirst' i hlt] at hi
        exact absurd hi Bool.false_ne_true
      · exact hdrop
      · rw [hfirst k hlt] at hk
        exact absurd hk Bool.false_ne_true

lemma exists_transport_upcall (h : proto = ipProtoTcp ∨ proto = ipProtoUdp) (srcIp : UInt32)
    (data : List UInt8) : ∃ u ∈ upcallOf proto srcIp data, u.isTransport = true := by
  rcases h with rfl | rfl
  · exact ⟨.tcp data srcIp, rfl, rfl⟩
  · exact ⟨.udp data srcIp, rfl, rfl⟩

/-- What `net_receive` does with a TCP or UDP packet: the handler is called unless the first rule
for any port drops. -/
lemma Inet.netReceive_of_carries (h : Carries packet proto p) (s : Inet) :
    (∃ u ∈ (s.netReceive packet).2, u.isTransport = true) ↔ ¬ PortlessDrop s.filter proto := by
  have hlong : ¬ packet.length < ethHeaderSize := by
    have := h.length
    omega
  have harp : ¬ field16 packet 12 = ethertypeArp := by
    rw [h.ethertype]
    decide
  have hheader : ipHeaderSize ≤ (packet.drop ethHeaderSize).length := by
    rw [length_drop]
    have := h.length
    omega
  have hcover : ¬ (datagramOf (packet.drop ethHeaderSize)).length <
      ihlOf (packet.drop ethHeaderSize) := Nat.not_lt.2 h.header
  rw [netReceive, if_neg hlong, if_neg harp, if_pos ⟨h.ethertype, hheader⟩, ipv4Receive,
    if_neg hcover]
  simp only [h.protocol]
  by_cases hdrop : PortlessDrop s.filter proto
  · rw [if_pos ((evaluate_zero_eq_drop_iff _ _ _).2 hdrop)]
    simp [hdrop]
  · rw [if_neg (mt (evaluate_zero_eq_drop_iff _ _ _).1 hdrop)]
    exact iff_of_true (exists_transport_upcall h.transport _ _) hdrop

/-- **The port is enforced** for a packet exactly if the rule that decides about its protocol and
port is no DROP rule for one port, or the first rule for any port is a DROP rule as well.

**Proof sketch.** The packet is handed up unless the first rule for any port drops
(`Inet.netReceive_of_carries`). A rule for any port that decides about the packet's own port is also
the first rule for any port, since the rules for any port match every port. -/
theorem enforced_iff (h : Carries packet proto p) (s : Inet) :
    Enforced s packet proto p ↔
      ∀ i ∈ s.filter.decider .localIn proto p, (s.filter.rulesTable i).action = .drop →
        (s.filter.rulesTable i).dstPort ≠ 0 → PortlessDrop s.filter proto := by
  unfold Enforced
  rw [Inet.netReceive_of_carries h s]
  constructor
  · intro henf i hi hdrop _
    by_contra hnot
    exact henf hnot i hi hdrop
  · intro hcond hnot i hi hdrop
    by_cases hport : (s.filter.rulesTable i).dstPort = 0
    · obtain ⟨hmatch, hfirst⟩ := Filter.decider_eq_some_iff.1 hi
      refine hnot ⟨i, ?_, hdrop, fun j hj => ?_⟩
      · simp only [FilterRule.matches, Bool.and_eq_true] at hmatch
        simp only [FilterRule.isPortless, Bool.and_eq_true, beq_iff_eq]
        exact ⟨⟨by simpa using hmatch.1.1, by simpa using hmatch.1.2⟩, hport⟩
      · by_contra hless
        rw [Bool.not_eq_false] at hless
        have hearlier := hfirst j hj
        rw [FilterRule.matches_of_isPortless hless p] at hearlier
        exact Bool.false_ne_true hearlier.symm
    · exact hnot (hcond i hi hdrop hport)

/-! ## A rule for one port -/

/-- The start-up rules, and a rule that drops TCP packets to port 23. -/
def telnetBlocked : Inet where
  filter := (Filter.filterInit.filterAddRule .localIn 6 23 .drop).1
  arpCache := ⟨fun _ => ⟨0, [], false⟩, 0⟩

/-- A frame of 60 bytes with an empty TCP segment to this port. -/
def tcpFrame (port : UInt8) : List UInt8 :=
  [2, 0, 0, 0, 0, 1] ++ [2, 0, 0, 0, 0, 2] ++ [0x08, 0x00] ++
  [0x45, 0, 0, 40, 0, 0, 0x40, 0, 64, 6, 0, 0, 10, 0, 2, 2, 10, 0, 2, 15] ++
  [0xC3, 0x50, 0, port, 0, 0, 0, 1, 0, 0, 0, 0, 0x50, 2, 0x10, 0, 0, 0, 0, 0] ++
  [0, 0, 0, 0, 0, 0]

/-- The rule for port 80 accepts, and nothing is left to enforce. -/
theorem enforced_iff_web : Carries (tcpFrame 80) 6 80 ∧
    Enforced telnetBlocked (tcpFrame 80) 6 80 := by
  have hcarries : Carries (tcpFrame 80) 6 80 := by constructor <;> decide
  have hslot : telnetBlocked.filter.decider .localIn 6 80 = some ⟨1, by decide⟩ := by
    decide +kernel
  refine ⟨hcarries, (enforced_iff hcarries telnetBlocked).2 fun i hi hdrop => ?_⟩
  rw [hslot, mem_some_iff] at hi
  subst hi
  exact absurd hdrop (by decide +kernel)

lemma carries_tcpFrame_telnet : Carries (tcpFrame 23) 6 23 := by
  constructor <;> decide

/-- **A blocked port stays open.** The rule that decides about TCP port 23 is a DROP rule, and the
packet is handed to `tcp_receive`. -/
theorem telnet_not_dropped : Carries (tcpFrame 23) 6 23 ∧
    ¬ Enforced telnetBlocked (tcpFrame 23) 6 23 := by
  refine ⟨carries_tcpFrame_telnet, fun henf => ?_⟩
  have hslot : telnetBlocked.filter.decider .localIn 6 23 = some ⟨3, by decide⟩ := by
    decide +kernel
  refine henf ?_ _ hslot (by decide +kernel)
  exact ⟨.tcp ((tcpFrame 23).drop 34 |>.take 20) (word32 (tcpFrame 23) 26), by decide +kernel, rfl⟩

/-! ## The bytes that a handler gets -/

/-- The bytes that the handler is given. -/
def Upcall.data : Upcall → List UInt8
  | .arp data | .icmp _ data | .tcp data _ | .udp data _ => data

/-- The header is one of version 4, and its two lengths fit in the payload of the frame. -/
structure HeaderOk (ip : List UInt8) : Prop where
  version : ip.getD 0 0 >>> 4 = 4
  header : ipHeaderSize ≤ ihlOf ip
  total : ihlOf ip ≤ (field16 ip 2).toNat
  payload : (field16 ip 2).toNat ≤ ip.length

/-- A handler is called for a valid header only, and with the data of the datagram. -/
def DeliversData (s : Inet) (packet : List UInt8) : Prop :=
  ∀ u ∈ (s.netReceive packet).2, HeaderOk (packet.drop ethHeaderSize) ∧
    u.data = ((packet.drop ethHeaderSize).take (field16 (packet.drop ethHeaderSize) 2).toNat).drop
      (ihlOf (packet.drop ethHeaderSize))

lemma length_datagramOf_lt_iff (ip : List UInt8) :
    (datagramOf ip).length < ihlOf ip ↔ ip.length < ihlOf ip := by
  unfold datagramOf
  dsimp only
  split
  · rw [length_take]
    omega
  · rfl

lemma HeaderOk.segmentOf_eq {ip : List UInt8} (h : HeaderOk ip) :
    segmentOf ip = (ip.take (field16 ip 2).toNat).drop (ihlOf ip) := by
  have htotal := h.total
  unfold segmentOf datagramOf
  dsimp only
  split
  · rfl
  · rw [take_of_length_le (by omega)]

/-- The handler of a protocol gets the data. -/
lemma upcallOf_cases (protocol : UInt8) (srcIp : UInt32) (data : List UInt8) :
    (protocol ∉ [ipProtoIcmp, ipProtoTcp, ipProtoUdp] ∧ upcallOf protocol srcIp data = none) ∨
      protocol ∈ [ipProtoIcmp, ipProtoTcp, ipProtoUdp] ∧
        ∃ u, upcallOf protocol srcIp data = some u ∧ u.data = data := by
  unfold upcallOf
  split_ifs with hicmp htcp hudp
  · exact .inr ⟨by simp [hicmp], _, rfl, rfl⟩
  · exact .inr ⟨by simp [htcp], _, rfl, rfl⟩
  · exact .inr ⟨by simp [hudp], _, rfl, rfl⟩
  · exact .inl ⟨by simp [hicmp, htcp, hudp], rfl⟩

/-- **The data of a datagram are delivered** exactly if the header is valid or no handler is called:
the payload is too short for the header, the filter drops, or the protocol has no handler. -/
theorem deliversData_iff (hlen : ethHeaderSize ≤ packet.length)
    (htype : field16 packet 12 = ethertypeIpv4) (s : Inet) :
    DeliversData s packet ↔ HeaderOk (packet.drop ethHeaderSize) ∨
      (packet.drop ethHeaderSize).length < ipHeaderSize ∨
      (packet.drop ethHeaderSize).length < ihlOf (packet.drop ethHeaderSize) ∨
      PortlessDrop s.filter ((packet.drop ethHeaderSize).getD 9 0) ∨
      (packet.drop ethHeaderSize).getD 9 0 ∉ [ipProtoIcmp, ipProtoTcp, ipProtoUdp] := by
  have harp : ¬ field16 packet 12 = ethertypeArp := by
    rw [htype]
    decide
  unfold DeliversData Inet.netReceive
  rw [if_neg (Nat.not_lt.2 hlen), if_neg harp]
  generalize packet.drop ethHeaderSize = ip
  by_cases hshort : ip.length < ipHeaderSize
  · simp [hshort, Nat.not_le.2 hshort]
  rw [if_pos ⟨htype, Nat.not_lt.1 hshort⟩, Inet.ipv4Receive]
  by_cases hcover : ip.length < ihlOf ip
  · rw [if_pos ((length_datagramOf_lt_iff ip).2 hcover)]
    simp [hcover]
  rw [if_neg (mt (length_datagramOf_lt_iff ip).1 hcover)]
  dsimp only
  by_cases hdrop : PortlessDrop s.filter (ip.getD 9 0)
  · rw [if_pos ((evaluate_zero_eq_drop_iff _ _ _).2 hdrop)]
    exact iff_of_true (by simp) (.inr (.inr (.inr (.inl hdrop))))
  rw [if_neg (mt (evaluate_zero_eq_drop_iff _ _ _).1 hdrop)]
  rcases upcallOf_cases (ip.getD 9 0) (word32 ip 12) (segmentOf ip) with ⟨hproto, hnone⟩ |
    ⟨hproto, u, hu, hdata⟩
  · rw [hnone]
    exact iff_of_true (by simp) (.inr (.inr (.inr (.inr hproto))))
  · rw [hu]
    simp only [mem_some_iff, forall_eq', hdata, hshort, hcover, hdrop, hproto, not_true, or_false]
    exact ⟨And.left, fun h => ⟨h, h.segmentOf_eq⟩⟩

/-- The padding of a frame is not delivered. -/
theorem deliversData_iff_web : field16 (tcpFrame 80) 12 = ethertypeIpv4 ∧
    DeliversData telnetBlocked (tcpFrame 80) := by
  have hheader : HeaderOk ((tcpFrame 80).drop ethHeaderSize) := by constructor <;> decide
  exact ⟨by decide, (deliversData_iff (by decide) (by decide) telnetBlocked).2 (.inl hheader)⟩

/-- A frame of 60 bytes with these fields `ihl_version` and `total_length`. -/
def oddFrame (ihlVersion total : UInt8) : List UInt8 :=
  List.replicate 12 0 ++ [0x08, 0x00] ++
    [ihlVersion, 0, 0, total, 0, 0, 0x40, 0, 64, 6, 0, 0, 10, 0, 2, 2, 10, 0, 2, 15] ++
    List.replicate 26 0

/-- **Header bytes and padding are delivered.** With a header length of 0 the handler gets the
header, and with a `total_length` of 0 it gets the padding. -/
theorem not_deliversData : ¬ DeliversData telnetBlocked (oddFrame 0x40 40) ∧
    ¬ DeliversData telnetBlocked (oddFrame 0x45 0) := by
  have hheader : (telnetBlocked.netReceive (oddFrame 0x40 40)).2 =
      some (.tcp ((oddFrame 0x40 40).drop 14 |>.take 40) (word32 (oddFrame 0x40 40) 26)) := by
    decide +kernel
  have hpadding : (telnetBlocked.netReceive (oddFrame 0x45 0)).2 =
      some (.tcp ((oddFrame 0x45 0).drop 34) (word32 (oddFrame 0x45 0) 26)) := by decide +kernel
  exact ⟨fun h => absurd (h _ hheader).1.header (by decide),
    fun h => absurd (h _ hpadding).1.total (by decide)⟩

end SubOS.Net
