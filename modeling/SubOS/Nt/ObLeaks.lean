import SubOS.Nt.Ob

set_option autoImplicit false

/-!
# Objects that nobody can delete

`ob_maybe_delete` of `kernel/nt/ob.c` is called for an object when a reference or a handle of it
goes. When its last child goes, which happens inside the deletion of the child, it is not called.

## Main definitions

* `NoLeak`, `Spares` — no object is left over; the condition on a call.

## Main results

* `noLeak_iff`, `directory_left_over` — in which runs no object is left over.
-/

namespace SubOS.Nt

open EventRun ObObject List Option

open ByteMemory (ascii)

/-- Nothing keeps the object: it is not permanent and has no reference, no handle and no child. -/
def ObObject.Leaked (o : ObObject) : Prop :=
  o.permanent = false ∧ o.refCount = 0 ∧ o.handleCount = 0 ∧ o.children = []
  deriving Decidable

/-- Something keeps the directory when a child goes: it is permanent, or has a reference, a handle
or another child. -/
def ObObject.Kept (od : ObObject) (child : Addr) : Prop :=
  od.permanent = true ∨ od.refCount ≠ 0 ∨ od.handleCount ≠ 0 ∨ ∃ c ∈ od.children, c ≠ child
  deriving Decidable

namespace Ob

/-- No object is allocated that nothing keeps. -/
def NoLeak (s : Ob) : Prop := ∀ a o, s.heap a = some o → ¬o.Leaked

/-- The directory of an object that is to be deleted is kept by something else. -/
def SparesParent (s : Ob) (a : Addr) (o : ObObject) : Prop :=
  o.deletable = true → ∀ d ∈ o.parent, ∀ od ∈ s.heap d, od.Kept a
  deriving Decidable

/-- The condition on a call: where it deletes an object, something else keeps the directory of the
object. A reference count must not wrap around to zero. -/
def Spares (s : Ob) : Call → Prop
  | .obReferenceObject a => ∀ o ∈ s.heap a,
    o.refCount ≠ -1 ∨ o.permanent = true ∨ o.handleCount ≠ 0 ∨ o.children ≠ []
  | .obDereferenceObject a => ∀ o ∈ s.heap a,
    s.SparesParent a { o with refCount := lower o.refCount }
  | .obCloseHandle h => ∀ ia ∈ s.slotOf h, ∀ o ∈ s.heap ia.2,
    s.SparesParent ia.2 { o with handleCount := lower o.handleCount, refCount := lower o.refCount }
  | _ => True

instance (s : Ob) : DecidablePred s.Spares := by
  rintro ⟨⟩ <;> dsimp only [Spares] <;> infer_instance

variable {s s' : Ob} {a b d : Addr} {o : ObObject} {i : Fin obHandleMax}

/-! ## Deletion -/

lemma deletable_of_leaked (h : o.Leaked) : o.deletable = true := by
  obtain ⟨hperm, href, hhandle, hnone⟩ := h
  refine deletable_iff.2 ⟨hperm, ?_, ?_, hnone⟩
  · rw [href]
    decide
  · rw [hhandle]
    decide

lemma Consistent.parent_ne_self (hs : Consistent s) (ha : s.heap a = some o)
    (hnone : o.children = []) : o.parent ≠ some a := by
  intro hself
  have hcount := hs.listed a o a o ha ha
  rw [hnone, if_pos hself] at hcount
  exact nomatch hcount

/-- A directory that loses a child is left with nothing unless something keeps it. -/
lemma leaked_erase_iff {od : ObObject} (hcount : od.children.count a = 1) :
    Leaked { od with children := od.children.erase a } ↔ ¬od.Kept a := by
  have hnil : od.children.erase a = [] ↔ ¬∃ c ∈ od.children, c ≠ a := by
    rw [eq_nil_iff_forall_not_mem]
    constructor
    · rintro hnone ⟨c, hc, hne⟩
      exact hnone c ((mem_erase_of_ne hne).2 hc)
    · intro hall c hc
      by_cases hca : c = a
      · have hpos := count_pos_iff.2 hc
        rw [hca, count_erase_self, hcount] at hpos
        exact absurd hpos (by decide)
      · exact hall ⟨c, mem_of_mem_erase hc, hca⟩
  unfold Leaked Kept
  rw [hnil]
  simp only [not_or, not_not, Bool.not_eq_true]

/-- **What `ob_maybe_delete` can leave over** is the directory of the object. -/
theorem noLeak_obMaybeDelete_iff (hs : Consistent s) (ha : s.heap a = some o)
    (hothers : ∀ b ob, b ≠ a → s.heap b = some ob → ¬ob.Leaked) :
    NoLeak (s.obMaybeDelete a) ↔ s.SparesParent a o := by
  cases hdel : o.deletable with
  | false =>
    rw [obMaybeDelete_of_not ha hdel]
    refine iff_of_true (fun b ob hb hleaked => ?_) fun hdel' => absurd (hdel.symm.trans hdel') nofun
    by_cases hba : b = a
    · subst hba
      obtain rfl := some.inj (ha.symm.trans hb)
      cases hdel.symm.trans (deletable_of_leaked hleaked)
    · exact hothers b ob hba hb hleaked
  | true =>
    have hrem := hs.removed_obMaybeDelete ha hdel
    have hself := hs.parent_ne_self ha (deletable_iff.1 hdel).2.2.2
    constructor
    · intro hno _ d hd od hod
      have hda : d ≠ a := by
        rintro rfl
        exact hself hd
      have hcount := (hs.listed a o d od ha hod).trans (if_pos hd)
      have hleft : (s.obMaybeDelete a).heap d =
          some { od with children := od.children.erase a } := by
        rw [hrem.heap, if_neg hda, hod]
        rfl
      by_contra hkept
      exact hno d _ hleft ((leaked_erase_iff hcount).2 hkept)
    · intro hspares b ob hb hleaked
      obtain ⟨hba, ob, hob, rfl⟩ := hrem.back hb
      by_cases hparent : o.parent = some b
      · have hcount := hs.listed a o b ob ha hob
        rw [if_pos hparent] at hcount
        exact (leaked_erase_iff hcount).1 hleaked (hspares hdel b hparent ob hob)
      · rw [erase_of_not_mem (hs.not_mem_children ha hob hparent)] at hleaked
        exact hothers b ob hba hob hleaked

lemma noLeak_release_iff (hs : Consistent s) (hno : NoLeak s) (ha : s.heap a = some o)
    {f : ObObject → ObObject} (hs' : Consistent s')
    (hheap : ∀ b, s'.heap b = (s.heap b).map fun o => if b = a then f o else o)
    (hchildren : (f o).children = o.children) (hparent : (f o).parent = o.parent) :
    NoLeak (s'.obMaybeDelete a) ↔ s.SparesParent a (f o) := by
  have ha' : s'.heap a = some (f o) := by
    rw [hheap, ha, map_some, if_pos rfl]
  have hsame : ∀ {b}, b ≠ a → s'.heap b = s.heap b := by
    intro b hb
    rw [hheap]
    simp only [if_neg hb, Option.map_id']
  rw [noLeak_obMaybeDelete_iff hs' ha' fun b ob hb hob => hno b ob ((hsame hb).symm.trans hob)]
  refine imp_congr_right fun hdel => forall₂_congr fun d hd => ?_
  have hda : d ≠ a := by
    rintro rfl
    rw [hparent] at hd
    exact hs.parent_ne_self ha (hchildren.symm.trans (deletable_iff.1 hdel).2.2.2) hd
  rw [hsame hda]

/-! ## One call -/

lemma NoLeak.modify (hno : NoLeak s) {f : ObObject → ObObject}
    (hf : ∀ o, s.heap a = some o → ¬(f o).Leaked) : NoLeak (s.modify a f) := by
  intro b ob hb hleaked
  rw [modify_heap] at hb
  obtain ⟨o, ho, rfl⟩ := map_eq_some_iff.1 hb
  split_ifs at hleaked with hba
  · subst hba
    exact hf o ho hleaked
  · exact hno b o ho hleaked

lemma Consistent.handleCount_ne (hs : Consistent s) (hslot : s.handles i = some a)
    (ha : s.heap a = some o) : o.handleCount ≠ 0 := by
  intro h0
  exact hs.handles_ne ha (by rw [h0]; decide) i hslot

/-- **One call leaves nothing over if and only if it meets the condition.** -/
lemma NoLeak.step_iff (hs : Consistent s) (hno : NoLeak s) {c : Call} (hc : s.OnLive c) :
    NoLeak (s.step c) ↔ s.Spares c := by
  cases c with
  | obCreateObject type name dir grant =>
    refine iff_of_true ?_ trivial
    rw [step]
    rcases hs.obCreateObject_cases type grant hc with ⟨status, heq⟩ | ⟨s', a, t, heq, h⟩
    · rw [heq]
      exact hno
    · rw [heq]
      intro b ob hb hleaked
      obtain ⟨-, rfl⟩ | ⟨-, o, ho, rfl⟩ := h.back hb
      · exact absurd hleaked.2.1 (show 1 ≠ 0 by decide)
      · -- The directory has a child.
        split_ifs at hleaked
        · exact append_ne_nil_of_right_ne_nil _ (cons_ne_nil a []) hleaked.2.2.2
        · exact hno b o ho hleaked
  | obReferenceObject a =>
    obtain ⟨o, ho⟩ := Live.exists hc
    have hleaked : Leaked { o with refCount := o.refCount + 1 } ↔
        ¬(o.refCount ≠ -1 ∨ o.permanent = true ∨ o.handleCount ≠ 0 ∨ o.children ≠ []) := by
      have hwrap : o.refCount + 1 = 0 ↔ o.refCount = -1 := by
        constructor
        · intro h
          rw [← Int32.add_sub_cancel o.refCount 1, h]
          rfl
        · intro h
          rw [h]
          rfl
      unfold Leaked
      simp only [not_or, not_not, Bool.not_eq_true]
      tauto
    constructor
    · intro hno' o' ho'
      obtain rfl := some.inj (ho.symm.trans ho')
      have hself : (s.obReferenceObject a).heap a = some { o with refCount := o.refCount + 1 } := by
        rw [obReferenceObject, modify_heap, ho, map_some, if_pos rfl]
      exact not_not.1 fun h => hno' a _ hself (hleaked.2 h)
    · intro hspares
      refine hno.modify fun o' ho' => ?_
      obtain rfl := some.inj (ho.symm.trans ho')
      rw [hleaked, not_not]
      exact hspares o ho
  | obDereferenceObject a =>
    obtain ⟨o, ho⟩ := Live.exists hc
    have hs' : Consistent (s.modify a fun o => { o with refCount := lower o.refCount }) :=
      hs.modify (fun _ => ⟨rfl, rfl, id⟩) fun _ => rfl
    refine (noLeak_release_iff hs hno ho hs' (modify_heap s a _) rfl rfl).trans ?_
    refine ⟨fun hspares o' ho' => ?_, fun hspares => hspares o ho⟩
    rwa [← some.inj (ho.symm.trans ho')]
  | obMakePermanent a =>
    exact iff_of_true (hno.modify fun o _ hleaked => by cases hleaked.1) trivial
  | obOpenHandle a =>
    refine iff_of_true ?_ trivial
    change NoLeak (s.obOpenHandle a).1
    have hs' := hs.obOpenHandle hc
    unfold Ob.obOpenHandle at hs' ⊢
    cases hfree : Fin.find? fun i => (s.handles i).isNone with
    | none => exact hno
    | some i =>
      rw [hfree] at hs'
      intro b ob hb hleaked
      by_cases hba : b = a
      · subst hba
        exact hs'.handleCount_ne (Function.update_self i _ s.handles) hb hleaked.2.2.1
      · have hsame := (modify_heap s a _ b).symm.trans hb
        simp only [if_neg hba, Option.map_id'] at hsame
        exact hno b ob hsame hleaked
  | obReferenceByHandle h =>
    refine iff_of_true ?_ trivial
    change NoLeak (s.obReferenceByHandle h).1
    unfold obReferenceByHandle
    cases hslot : s.slotOf h with
    | none => exact hno
    | some ia =>
      refine hno.modify fun o ho hleaked => ?_
      exact hs.handleCount_ne (slotOf_eq_some hslot) ho hleaked.2.2.1
  | obCloseHandle h =>
    change NoLeak (s.obCloseHandle h).1 ↔ _
    unfold Ob.obCloseHandle
    cases hslot : s.slotOf h with
    | none =>
      refine iff_of_true hno fun ia hia => ?_
      cases hslot.symm.trans hia
    | some ia =>
      have hi := slotOf_eq_some hslot
      obtain ⟨o, ho⟩ := (hs.handle_live _ _ hi).exists
      refine (noLeak_release_iff hs hno ho (hs.clearSlot hi) (modify_heap _ ia.2 _) rfl
        rfl).trans ?_
      refine ⟨fun hspares ia' hia' o' ho' => ?_, fun hspares => hspares ia hslot o ho⟩
      obtain rfl := some.inj (hslot.symm.trans hia')
      rwa [← some.inj (ho.symm.trans ho')]

/-! ## Runs -/

lemma noLeak_obInit (grant : Fin 7 → Option Addr) : NoLeak (obInit grant) := by
  refine (obInit_rule (fun r b o hb hleaked => ?_) (fun s c hs hno hc => ?_) grant).2
  · unfold rootOnly at hb
    dsimp only at hb
    split_ifs at hb
    rw [← some.inj hb] at hleaked
    exact nomatch hleaked.1
  · refine (NoLeak.step_iff hs hno hc.onLive).2 ?_
    cases c with
    | obDereferenceObject a =>
      -- The object is permanent.
      intro o ho hdel
      obtain ⟨o', ho', hperm⟩ := hc
      obtain rfl := some.inj (ho'.symm.trans ho)
      exact nomatch hperm.symm.trans (deletable_iff.1 hdel).1
    | obCreateObject _ _ _ _ | obMakePermanent _ => trivial
    | _ => exact hc.elim

/-- **In a run of calls on live objects after `ob_init`, no object is left over after any call if
and only if every call meets the condition** in the state before it. -/
theorem noLeak_iff (grant : Fin 7 → Option Addr) (cs : List Call)
    (hlive : Along step OnLive (obInit grant) cs) :
    Along step (fun s c => NoLeak (s.step c)) (obInit grant) cs ↔
      Along step Spares (obInit grant) cs := by
  have hcongr : Along step (fun s c => s.OnLive c ∧ NoLeak (s.step c)) (obInit grant) cs ↔
      Along step (fun s c => s.OnLive c ∧ s.Spares c) (obInit grant) cs :=
    along_congr (fun s => Consistent s ∧ NoLeak s)
      (fun s c hs => and_congr_right fun hc => NoLeak.step_iff hs.1 hs.2 hc)
      (fun s c hs hok => ⟨hs.1.step hok.1, (NoLeak.step_iff hs.1 hs.2 hok.1).2 hok.2⟩)
      ⟨consistent_obInit grant, noLeak_obInit grant⟩ cs
  constructor
  · intro hno
    exact (hcongr.1 (hlive.and hno)).mono fun _ _ h => h.2
  · intro hspares
    exact (hcongr.2 (hlive.and hspares)).mono fun _ _ h => h.2

/-- A directory and an event in it are created, and the reference to the event is dropped first. -/
def eventFirst : List Call :=
  [.obCreateObject 0 (ascii "D") none (some 8), .obCreateObject 1 (ascii "E") (some 8) (some 9),
    .obDereferenceObject 9, .obDereferenceObject 8]

theorem noLeak_iff_eventFirst :
    Along step OnLive (obInit sevenGrants) eventFirst ∧
      Along step (fun s c => NoLeak (s.step c)) (obInit sevenGrants) eventFirst := by
  have hlive : Along step OnLive (obInit sevenGrants) eventFirst := by decide +kernel
  exact ⟨hlive, (noLeak_iff sevenGrants eventFirst hlive).2 (by decide +kernel)⟩

/-- The same, with the reference to the directory dropped first. -/
def directoryFirst : List Call :=
  [.obCreateObject 0 (ascii "D") none (some 8), .obCreateObject 1 (ascii "E") (some 8) (some 9),
    .obDereferenceObject 8, .obDereferenceObject 9]

/-- **A directory that is released before its only child is left over**, without reference, handle
and child. -/
theorem directory_left_over :
    Along step OnLive (obInit sevenGrants) directoryFirst ∧
      ∃ o, (run step (obInit sevenGrants) directoryFirst).heap 8 = some o ∧ o.Leaked := by
  refine ⟨by decide +kernel, ?_⟩
  have hleft : ((run step (obInit sevenGrants) directoryFirst).heap 8).any
      (fun o => decide o.Leaked) = true := by decide +kernel
  obtain ⟨o, ho, hleaked⟩ := (any_eq_true _ _).1 hleft
  exact ⟨o, ho, of_decide_eq_true hleaked⟩

end Ob

end SubOS.Nt
