import CeloBlockchain.Proxy.ProxySet
import CeloBlockchain.Lib.Run

/-!
# Proxy assignments track the ring and the validator set

The two maps of `valAssignments` stay each other's inverse (`Consistent`):
a validator is in the set of a proxy exactly when it is assigned to it, with
no set empty. Every reassignment puts each validator where the ring locates
it, so the assignment is always the abstract one, `LocateKey` on the current
ring (`Located`). With the ring's members known proxies, these make the
invariant `Inv` of the proxy set, kept by every call (`inv_step`) and so by
every run (`inv_run`, and `inv_runEvents` for the run loop). From it:

* every proxy with validators is in `proxiesByID`, so
  `getValidatorAssignments` never dereferences `nil`
  (`Inv.mem_proxiesByID_of_mem_proxyToVals`, `Inv.getValidatorAssignments_isSome`);
* while the ring has a member, every validator has a proxy
  (`Inv.proxyOf_ne_none`).

`updateValidatorAssignments` adds the validators the retrieval found and
removes those it did not, but the removal is the right operand of `||` and
the addition always reports a change (`assignRemoteValidators_snd`): the
removal runs only when nothing is added
(`getValidators_updateValidatorAssignments`, and
`update_keeps_removed_validator` for one epoch change under any hasher).
On an empty ring the flag of a reassignment is true for any validator, moved
or not (`reassignValidators_snd`).
-/

namespace CeloBlockchain.Proxied

open Ibft (Address)

namespace ValAssignments

variable {va va' : ValAssignments} {v w : Address} {p q : NodeID}

/-! ## The two maps -/

theorem proxyOf_eq_some_iff : va.proxyOf v = some p ↔ va.valToProxy.lookup v = some (some p) :=
  Option.join_eq_some_iff

theorem mem_valToProxy_of_proxyOf_eq_some (h : va.proxyOf v = some p) : v ∈ va.valToProxy :=
  AList.lookup_isSome.mp (by rw [proxyOf_eq_some_iff.mp h]; rfl)

theorem proxyOf_eq_none_of_not_mem (h : v ∉ va.valToProxy) : va.proxyOf v = none := by
  simp [proxyOf, AList.lookup_eq_none.mpr h]

/-- The maps are each other's inverse, with no empty set of validators. -/
structure Consistent (va : ValAssignments) : Prop where
  mem_valsOf_iff : ∀ v p, v ∈ va.valsOf p ↔ va.proxyOf v = some p
  nodup_valsOf : ∀ p, (va.valsOf p).Nodup
  ne_nil : ∀ p vals, va.proxyToVals.lookup p = some vals → vals ≠ []

theorem consistent_new : ValAssignments.new.Consistent where
  mem_valsOf_iff v p := by simp [new, valsOf, proxyOf]
  nodup_valsOf p := by simp [new, valsOf]
  ne_nil p vals h := by simp [new] at h

/-- Changing `valToProxy` without changing any assignment keeps the maps
consistent. -/
theorem Consistent.of_proxyOf (hc : va.Consistent) (h : ∀ w, va'.proxyOf w = va.proxyOf w)
    (hp : va'.proxyToVals = va.proxyToVals) : va'.Consistent where
  mem_valsOf_iff v p := by
    rw [h, ← hc.mem_valsOf_iff]
    simp only [valsOf, hp]
  nodup_valsOf p := by
    simpa only [valsOf, hp] using hc.nodup_valsOf p
  ne_nil p vals hl := hc.ne_nil p vals (hp ▸ hl)

/-- Writing `x` for `v` in `valToProxy`. -/
theorem proxyOf_insert (x : Option NodeID) :
    ({ va with valToProxy := va.valToProxy.insert v x } : ValAssignments).proxyOf w =
      if w = v then x else va.proxyOf w := by
  by_cases hw : w = v
  · subst hw
    simp [proxyOf]
  · simp [proxyOf, hw, AList.lookup_insert_ne hw]

theorem proxyOf_erase :
    ({ va with valToProxy := va.valToProxy.erase v } : ValAssignments).proxyOf w =
      if w = v then none else va.proxyOf w := by
  by_cases hw : w = v
  · subst hw
    simp [proxyOf]
  · simp [proxyOf, hw, AList.lookup_erase_ne hw]

/-! ## Assigning and unassigning one validator -/

@[simp] theorem proxyOf_assignValidator :
    (va.assignValidator v p).proxyOf w = if w = v then some p else va.proxyOf w :=
  proxyOf_insert (some p)

@[simp] theorem valsOf_assignValidator :
    (va.assignValidator v p).valsOf q = if q = p then (va.valsOf p).insert v else va.valsOf q := by
  by_cases hq : q = p
  · subst hq
    simp [assignValidator, valsOf]
  · simp [assignValidator, valsOf, hq, AList.lookup_insert_ne hq]

@[simp] theorem mem_valToProxy_assignValidator :
    w ∈ (va.assignValidator v p).valToProxy ↔ w = v ∨ w ∈ va.valToProxy :=
  AList.mem_insert _

/-- Assigning an unassigned validator keeps the maps consistent. -/
theorem Consistent.assignValidator (hc : va.Consistent) (hv : va.proxyOf v = none) :
    (va.assignValidator v p).Consistent where
  mem_valsOf_iff w q := by
    rw [valsOf_assignValidator, proxyOf_assignValidator]
    by_cases hq : q = p <;> by_cases hw : w = v
    · subst hq hw
      simp
    · subst hq
      simp [List.mem_insert_iff, hw, hc.mem_valsOf_iff]
    · subst hw
      simp [hq, hc.mem_valsOf_iff, hv, Ne.symm hq]
    · simp [hq, hw, hc.mem_valsOf_iff]
  nodup_valsOf q := by
    rw [valsOf_assignValidator]
    split_ifs
    · exact (hc.nodup_valsOf p).insert
    · exact hc.nodup_valsOf q
  ne_nil q vals hl := by
    by_cases hq : q = p
    · subst hq
      simp only [ValAssignments.assignValidator, AList.lookup_insert, Option.some.injEq] at hl
      rw [← hl]
      exact List.ne_nil_of_mem List.mem_insert_self
    · simp only [ValAssignments.assignValidator, AList.lookup_insert_ne hq] at hl
      exact hc.ne_nil q vals hl

@[simp] theorem proxyOf_unassignValidator :
    (va.unassignValidator v).proxyOf w = if w = v then none else va.proxyOf w := by
  unfold unassignValidator
  cases h : va.proxyOf v with
  | none =>
    dsimp only
    split_ifs with hw
    · rw [hw, h]
    · rfl
  | some p =>
    exact proxyOf_insert none

@[simp] theorem valsOf_unassignValidator :
    (va.unassignValidator v).valsOf q =
      if va.proxyOf v = some q then (va.valsOf q).erase v else va.valsOf q := by
  unfold unassignValidator
  cases h : va.proxyOf v with
  | none => simp
  | some p =>
    by_cases hq : q = p
    · subst hq
      rw [if_pos rfl]
      dsimp only
      split_ifs with hlen
      · -- the emptied set is deleted, which reads back as the empty set
        show ((va.proxyToVals.erase q).lookup q).getD [] = _
        rw [AList.lookup_erase, List.eq_nil_of_length_eq_zero hlen]
        rfl
      · show ((va.proxyToVals.insert q _).lookup q).getD [] = _
        rw [AList.lookup_insert]
        rfl
    · rw [if_neg fun h' => hq (Option.some.inj h').symm]
      dsimp only
      split_ifs
      · show ((va.proxyToVals.erase p).lookup q).getD [] = _
        rw [AList.lookup_erase_ne hq]
        rfl
      · show ((va.proxyToVals.insert p _).lookup q).getD [] = _
        rw [AList.lookup_insert_ne hq]
        rfl

@[simp] theorem mem_valToProxy_unassignValidator :
    w ∈ (va.unassignValidator v).valToProxy ↔ w ∈ va.valToProxy := by
  unfold unassignValidator
  cases h : va.proxyOf v with
  | none => rfl
  | some p =>
    show w ∈ va.valToProxy.insert v none ↔ _
    rw [AList.mem_insert]
    constructor
    · rintro (rfl | hw)
      · exact mem_valToProxy_of_proxyOf_eq_some h
      · exact hw
    · exact Or.inr

/-- Unassigning keeps the maps consistent. -/
theorem Consistent.unassignValidator (hc : va.Consistent) : (va.unassignValidator v).Consistent where
  mem_valsOf_iff w q := by
    rw [valsOf_unassignValidator, proxyOf_unassignValidator]
    by_cases hw : w = v
    · subst hw
      rw [if_pos rfl]
      split_ifs with hq
      · simp [(hc.nodup_valsOf q).mem_erase_iff]
      · simp [hc.mem_valsOf_iff, hq]
    · rw [if_neg hw]
      split_ifs with hq
      · simp [(hc.nodup_valsOf q).mem_erase_iff, hw, hc.mem_valsOf_iff]
      · exact hc.mem_valsOf_iff w q
  nodup_valsOf q := by
    rw [valsOf_unassignValidator]
    split_ifs
    · exact (hc.nodup_valsOf q).erase v
    · exact hc.nodup_valsOf q
  ne_nil q vals hl := by
    unfold ValAssignments.unassignValidator at hl
    cases h : va.proxyOf v with
    | none =>
      simp only [h] at hl
      exact hc.ne_nil q vals hl
    | some p =>
      simp only [h] at hl
      by_cases hq : q = p
      · subst hq
        split_ifs at hl with hlen
        · simp at hl
        · simp only [AList.lookup_insert, Option.some.injEq] at hl
          rw [← hl]
          exact fun hnil => hlen (by rw [hnil]; rfl)
      · split_ifs at hl
        · rw [AList.lookup_erase_ne hq] at hl
          exact hc.ne_nil q vals hl
        · rw [AList.lookup_insert_ne hq] at hl
          exact hc.ne_nil q vals hl

/-! ## Adding and removing validators -/

theorem addValidators_proxyToVals (vals : List Address) :
    (va.addValidators vals).proxyToVals = va.proxyToVals := by
  induction vals generalizing va with
  | nil => rfl
  | cons val vals ih => exact ih

@[simp] theorem proxyOf_addValidators (vals : List Address) :
    (va.addValidators vals).proxyOf w = if w ∈ vals then none else va.proxyOf w := by
  induction vals generalizing va with
  | nil => simp [addValidators]
  | cons val vals ih =>
    rw [addValidators, List.foldl_cons, ← addValidators, ih, proxyOf_insert]
    by_cases hw : w = val <;> by_cases hmem : w ∈ vals <;> simp [hw, hmem]

@[simp] theorem mem_valToProxy_addValidators (vals : List Address) :
    w ∈ (va.addValidators vals).valToProxy ↔ w ∈ vals ∨ w ∈ va.valToProxy := by
  induction vals generalizing va with
  | nil => simp [addValidators]
  | cons val vals ih =>
    rw [addValidators, List.foldl_cons, ← addValidators, ih]
    simp only [AList.mem_insert, List.mem_cons]
    tauto

/-- Adding unassigned validators keeps the maps consistent. -/
theorem Consistent.addValidators (hc : va.Consistent) {vals : List Address}
    (hvals : ∀ v ∈ vals, va.proxyOf v = none) : (va.addValidators vals).Consistent :=
  hc.of_proxyOf (fun w => by
      rw [proxyOf_addValidators]
      split_ifs with hw
      · exact (hvals w hw).symm
      · rfl)
    (addValidators_proxyToVals vals)

@[simp] theorem proxyOf_removeValidators (vals : List Address) :
    (va.removeValidators vals).proxyOf w = if w ∈ vals then none else va.proxyOf w := by
  induction vals generalizing va with
  | nil => simp [removeValidators]
  | cons val vals ih =>
    rw [removeValidators, List.foldl_cons, ← removeValidators, ih, proxyOf_erase,
      proxyOf_unassignValidator]
    by_cases hw : w = val <;> by_cases hmem : w ∈ vals <;> simp [hw, hmem]

@[simp] theorem mem_valToProxy_removeValidators (vals : List Address) :
    w ∈ (va.removeValidators vals).valToProxy ↔ w ∉ vals ∧ w ∈ va.valToProxy := by
  induction vals generalizing va with
  | nil => simp [removeValidators]
  | cons val vals ih =>
    rw [removeValidators, List.foldl_cons, ← removeValidators, ih]
    simp only [AList.mem_erase, mem_valToProxy_unassignValidator, List.mem_cons]
    tauto

/-- Removing validators keeps the maps consistent: each is unassigned first,
so deleting its entry changes no assignment. -/
theorem Consistent.removeValidators (hc : va.Consistent) (vals : List Address) :
    (va.removeValidators vals).Consistent := by
  induction vals generalizing va with
  | nil => exact hc
  | cons val vals ih =>
    rw [ValAssignments.removeValidators, List.foldl_cons, ← ValAssignments.removeValidators]
    apply ih
    refine hc.unassignValidator.of_proxyOf (fun w => ?_) rfl
    rw [proxyOf_erase, proxyOf_unassignValidator]
    split_ifs <;> rfl

/-- The validators sit where `LocateKey` on the ring `c` puts them. -/
def Located (loc : Locator) (c : List NodeID) (va : ValAssignments) : Prop :=
  ∀ w ∈ va.valToProxy, va.proxyOf w = loc.locateKey c w

end ValAssignments

/-! ## Reassignment -/

namespace ConsistentHashingPolicy

variable (loc : Locator) (ch : ConsistentHashingPolicy) {va : ValAssignments} {val w : Address}

theorem locateKey_ne_none {c : List NodeID} (hc : c ≠ []) (key : Address) : loc.locateKey c key ≠ none :=
  fun h => hc ((loc.locateKey_eq_none_iff c key).mp h)

/-- A ring of one member takes every key. -/
theorem locateKey_singleton (p : NodeID) (key : Address) : loc.locateKey [p] key = some p := by
  cases h : loc.locateKey [p] key with
  | none => exact absurd ((loc.locateKey_eq_none_iff _ _).mp h) (List.cons_ne_nil _ _)
  | some q => rw [List.mem_singleton.mp (loc.mem_of_locateKey _ _ _ h)]

/-- A round that does not move its validator found it where it is located. -/
theorem proxyOf_of_not_moved {va : ValAssignments} {p : NodeID}
    (h : ¬((va.proxyOf val).isNone || va.proxyOf val != some p) = true) : va.proxyOf val = some p := by
  have h' : ¬va.proxyOf val = none ∧ va.proxyOf val = some p := by simpa using h
  exact h'.2

theorem proxyOf_reassignStep (acc : ValAssignments × Bool) :
    (ch.reassignStep loc acc val).1.proxyOf w =
      if w = val then loc.locateKey ch.c val else acc.1.proxyOf w := by
  obtain ⟨va, b⟩ := acc
  unfold reassignStep
  cases hl : loc.locateKey ch.c val with
  | none => simp
  | some p =>
    dsimp only
    split_ifs with hmove hw hw
    · simp [hw]
    · simp [hw]
    · rw [hw]
      exact proxyOf_of_not_moved hmove
    · rfl

theorem consistent_reassignStep (acc : ValAssignments × Bool) (hc : acc.1.Consistent) :
    (ch.reassignStep loc acc val).1.Consistent := by
  obtain ⟨va, b⟩ := acc
  unfold reassignStep
  cases loc.locateKey ch.c val with
  | none => exact hc.unassignValidator
  | some p =>
    dsimp only
    split_ifs
    · exact hc.unassignValidator.assignValidator (by simp)
    · exact hc

theorem mem_reassignStep (acc : ValAssignments × Bool) (hval : val ∈ acc.1.valToProxy) :
    w ∈ (ch.reassignStep loc acc val).1.valToProxy ↔ w ∈ acc.1.valToProxy := by
  obtain ⟨va, b⟩ := acc
  unfold reassignStep
  cases loc.locateKey ch.c val with
  | none => exact ValAssignments.mem_valToProxy_unassignValidator
  | some p =>
    dsimp only
    split_ifs
    · rw [ValAssignments.mem_valToProxy_assignValidator,
        ValAssignments.mem_valToProxy_unassignValidator]
      constructor
      · rintro (rfl | hw)
        · exact hval
        · exact hw
      · exact Or.inr
    · rfl

/-- A round reports a change when the ring is empty or its validator is not
where the ring locates it. -/
theorem reassignStep_snd (acc : ValAssignments × Bool) :
    (ch.reassignStep loc acc val).2 =
      (acc.2 || decide (ch.c = [] ∨ acc.1.proxyOf val ≠ loc.locateKey ch.c val)) := by
  obtain ⟨va, b⟩ := acc
  unfold reassignStep
  cases hl : loc.locateKey ch.c val with
  | none =>
    have hc : ch.c = [] := (loc.locateKey_eq_none_iff _ _).mp hl
    simp [hc]
  | some p =>
    have hc : ch.c ≠ [] := fun h => by
      rw [(loc.locateKey_eq_none_iff _ _).mpr h] at hl
      cases hl
    dsimp only
    split_ifs with hmove
    · simp only [Bool.or_eq_true, Option.isNone_iff_eq_none, bne_iff_ne, ne_eq] at hmove
      rcases hmove with hnone | hne
      · simp [hc, hnone]
      · simp [hc, hne]
    · simp [hc, proxyOf_of_not_moved hmove]

/-! The loop, by induction over the validators it visits. -/

theorem proxyOf_foldl_reassignStep (ks : List Address) (acc : ValAssignments × Bool) :
    (ks.foldl (ch.reassignStep loc) acc).1.proxyOf w =
      if w ∈ ks then loc.locateKey ch.c w else acc.1.proxyOf w := by
  induction ks generalizing acc with
  | nil => simp
  | cons k ks ih =>
    rw [List.foldl_cons, ih, proxyOf_reassignStep]
    by_cases hk : w ∈ ks <;> by_cases hw : w = k
    · simp [hk]
    · simp [hk]
    · subst hw
      simp
    · simp [hk, hw]

theorem mem_foldl_reassignStep (ks : List Address) (acc : ValAssignments × Bool)
    (hks : ∀ k ∈ ks, k ∈ acc.1.valToProxy) :
    w ∈ (ks.foldl (ch.reassignStep loc) acc).1.valToProxy ↔ w ∈ acc.1.valToProxy := by
  induction ks generalizing acc with
  | nil => rfl
  | cons k ks ih =>
    have hk := hks k List.mem_cons_self
    rw [List.foldl_cons, ih, mem_reassignStep loc ch acc hk]
    intro k' hk'
    exact (mem_reassignStep loc ch acc hk).mpr (hks k' (List.mem_cons_of_mem k hk'))

theorem consistent_foldl_reassignStep (ks : List Address) (acc : ValAssignments × Bool)
    (hc : acc.1.Consistent) (hks : ∀ k ∈ ks, k ∈ acc.1.valToProxy) :
    (ks.foldl (ch.reassignStep loc) acc).1.Consistent := by
  induction ks generalizing acc with
  | nil => exact hc
  | cons k ks ih =>
    have hk := hks k List.mem_cons_self
    rw [List.foldl_cons]
    refine ih _ (consistent_reassignStep loc ch acc hc) fun k' hk' => ?_
    exact (mem_reassignStep loc ch acc hk).mpr (hks k' (List.mem_cons_of_mem k hk'))

theorem foldl_reassignStep_snd (ks : List Address) (acc : ValAssignments × Bool) :
    (ks.foldl (ch.reassignStep loc) acc).2 = true ↔
      acc.2 = true ∨ ∃ w ∈ ks, ch.c = [] ∨ acc.1.proxyOf w ≠ loc.locateKey ch.c w := by
  induction ks generalizing acc with
  | nil => simp
  | cons k ks ih =>
    rw [List.foldl_cons, ih, reassignStep_snd]
    simp only [proxyOf_reassignStep, Bool.or_eq_true, decide_eq_true_eq, List.mem_cons, or_and_right,
      exists_or, exists_eq_left]
    -- a validator visited twice is where the ring locates it the second time
    constructor
    · rintro ((hb | hk) | ⟨w, hw, hc | hne⟩)
      · exact .inl hb
      · exact .inr (.inl hk)
      · exact .inr (.inr ⟨w, hw, .inl hc⟩)
      · split_ifs at hne with hwk
        · exact absurd (hwk ▸ rfl) hne
        · exact .inr (.inr ⟨w, hw, .inr hne⟩)
    · rintro (hb | hk | ⟨w, hw, hc | hne⟩)
      · exact .inl (.inl hb)
      · exact .inl (.inr hk)
      · exact .inr ⟨w, hw, .inl hc⟩
      · by_cases hwk : w = k
        · subst hwk
          exact .inl (.inr (.inr hne))
        · exact .inr ⟨w, hw, .inr (by rwa [if_neg hwk])⟩

/-! `reassignValidators` -/

theorem mem_reassignValidators :
    w ∈ (ch.reassignValidators loc va).1.valToProxy ↔ w ∈ va.valToProxy :=
  mem_foldl_reassignStep loc ch _ _ fun _ hk => AList.mem_keys.mpr hk

theorem consistent_reassignValidators (hc : va.Consistent) :
    (ch.reassignValidators loc va).1.Consistent :=
  consistent_foldl_reassignStep loc ch _ _ hc fun _ hk => AList.mem_keys.mpr hk

/-- **Reassignment refines `LocateKey`.** Afterwards every validator sits
where the ring locates it. -/
theorem located_reassignValidators : (ch.reassignValidators loc va).1.Located loc ch.c := by
  intro w hw
  rw [mem_reassignValidators] at hw
  rw [reassignValidators, proxyOf_foldl_reassignStep]
  exact if_pos (AList.mem_keys.mp hw)

/-- **What the flag of a reassignment says.** Some validator was not where
the ring locates it, or the ring is empty and there is a validator: on an
empty ring every validator is reported changed, even one that stays
unassigned. -/
theorem reassignValidators_snd :
    (ch.reassignValidators loc va).2 = true ↔
      ∃ w ∈ va.valToProxy, ch.c = [] ∨ va.proxyOf w ≠ loc.locateKey ch.c w := by
  rw [reassignValidators, foldl_reassignStep_snd]
  simp [AList.mem_keys]

/-- Adding validators always reports a change: a new validator is not
assigned, and on an empty ring every validator counts as changed. -/
theorem assignRemoteValidators_snd {vals : List Address} (hvals : vals ≠ []) :
    (ch.assignRemoteValidators loc vals va).2 = true := by
  obtain ⟨val, hval⟩ := List.exists_mem_of_ne_nil vals hvals
  refine (reassignValidators_snd loc ch).mpr ⟨val, by simp [hval], ?_⟩
  by_cases hc : ch.c = []
  · exact .inl hc
  · refine .inr ?_
    rw [ValAssignments.proxyOf_addValidators, if_pos hval]
    exact (locateKey_ne_none loc hc val).symm

end ConsistentHashingPolicy

/-! ## The connection set diff -/

theorem foldl_diffStep {vs : List Address} (hnd : vs.Nodup) (rm set : List Address) :
    vs.foldl diffStep (rm, set) = (rm ++ vs.filter (fun v => v ∉ set), set.filter fun v => v ∉ vs) := by
  induction vs generalizing rm set with
  | nil => simp
  | cons a vs ih =>
    rw [List.nodup_cons] at hnd
    have hne : ∀ v ∈ vs, v ≠ a := fun v hv h => hnd.1 (h ▸ hv)
    by_cases ha : a ∈ set
    · -- `a` is kept: it leaves the set, which no later validator notices
      have hstep : diffStep (rm, set) a = (rm, set.filter (· != a)) := by simp [diffStep, ha]
      rw [List.foldl_cons, hstep, ih hnd.2, List.filter_cons_of_neg (by simpa using ha)]
      congr 1
      · congr 1
        apply List.filter_congr
        intro v hv
        simp [List.mem_filter, hne v hv]
      · rw [List.filter_filter]
        apply List.filter_congr
        intro v _
        by_cases hva : v = a <;> simp [hva]
    · -- `a` is to be removed; the set stays
      have hstep : diffStep (rm, set) a = (rm ++ [a], set) := by simp [diffStep, ha]
      rw [List.foldl_cons, hstep, ih hnd.2, List.filter_cons_of_pos (by simpa using ha)]
      congr 1
      · simp
      · apply List.filter_congr
        intro v hv
        have hva : v ≠ a := fun h => ha (h ▸ hv)
        simp [hva]

/-- `getValidatorConnSetDiff` on validators without repeats: the retrieved
validators other than this node and not known, and the known ones not
among them. -/
theorem getValidatorConnSetDiff_some (conn : List Address) (self : Address)
    {validators : List Address} (hnd : validators.Nodup) :
    getValidatorConnSetDiff (some conn) self validators =
      some ((conn.filter (· != self)).filter (fun v => v ∉ validators),
        validators.filter fun v => v ∉ conn.filter (· != self)) := by
  simp only [getValidatorConnSetDiff, foldl_diffStep hnd, List.nil_append]
  rfl

/-! ## The proxy set -/

namespace ProxySet

variable (loc : Locator) {ps : ProxySet}

/-- The invariant of the proxy set: consistent maps, every validator where
the ring locates it, and every member of the ring a known proxy. -/
structure Inv (ps : ProxySet) : Prop where
  consistent : ps.valAssignments.Consistent
  located : ps.valAssignments.Located loc ps.valAssigner.c
  known : ∀ p ∈ ps.valAssigner.c, p ∈ ps.proxiesByID

theorem inv_new : Inv loc ProxySet.new where
  consistent := ValAssignments.consistent_new
  located w hw := by cases hw
  known p hp := by cases hp

/-- A reassignment on a ring of known proxies gives the invariant. -/
theorem inv_reassign {proxiesByID : AList fun _ : NodeID => Proxy} {va : ValAssignments}
    {c : List NodeID} (hc : va.Consistent) (hknown : ∀ p ∈ c, p ∈ proxiesByID) :
    Inv loc ⟨proxiesByID, ((⟨c⟩ : ConsistentHashingPolicy).reassignValidators loc va).1, ⟨c⟩⟩ :=
  ⟨ConsistentHashingPolicy.consistent_reassignValidators loc _ hc,
    ConsistentHashingPolicy.located_reassignValidators loc _, hknown⟩

/-! Each call keeps the invariant. -/

theorem inv_addProxy (hi : Inv loc ps) (internalID : NodeID) (now : Nat) :
    Inv loc (ps.addProxy internalID now) := by
  unfold addProxy
  split
  · exact ⟨hi.consistent, hi.located, fun p hp => (AList.mem_insert _).mpr (.inr (hi.known p hp))⟩
  · exact hi

theorem inv_removeProxyPeer (hi : Inv loc ps) (proxyID : NodeID) (now : Nat) :
    Inv loc (ps.removeProxyPeer proxyID now) := by
  unfold removeProxyPeer
  split
  · exact hi
  · exact ⟨hi.consistent, hi.located, fun p hp => (AList.mem_insert _).mpr (.inr (hi.known p hp))⟩

theorem inv_setProxyPeer (hi : Inv loc ps) (proxyID : NodeID) :
    Inv loc (ps.setProxyPeer loc proxyID).1 := by
  unfold setProxyPeer
  split
  · exact hi
  · -- the peered proxy joins the ring, and it is known
    apply inv_reassign loc hi.consistent
    intro p hp
    rw [AList.mem_insert]
    rcases List.mem_insert_iff.mp hp with rfl | hp
    · exact .inl rfl
    · exact .inr (hi.known p hp)

theorem inv_removeProxy (hi : Inv loc ps) (proxyID : NodeID) :
    Inv loc (ps.removeProxy loc proxyID).1 := by
  unfold removeProxy
  split
  · exact hi
  · -- the proxy leaves the ring before it leaves the set
    apply inv_reassign loc hi.consistent
    intro p hp
    rw [List.mem_filter, bne_iff_ne] at hp
    exact AList.mem_erase.mpr ⟨hp.2, hi.known p hp.1⟩

theorem inv_unassignStep (minAge now : Nat) (acc : ProxySet × Bool) (hi : Inv loc acc.1)
    (proxyID : NodeID) : Inv loc (unassignStep loc minAge now acc proxyID).1 := by
  obtain ⟨ps, b⟩ := acc
  unfold unassignStep
  dsimp only
  split_ifs with hmem
  · split
    · split_ifs
      · apply inv_reassign loc hi.consistent
        intro p hp
        exact hi.known p (List.mem_filter.mp hp).1
      · exact hi
    · exact hi
  · exact hi

theorem inv_unassignDisconnectedProxies (hi : Inv loc ps) (minAge now : Nat) (visits : List NodeID) :
    Inv loc (ps.unassignDisconnectedProxies loc minAge now visits).1 :=
  Run.run_invariant (unassignStep loc minAge now) (fun acc => Inv loc acc.1)
    (fun acc proxyID hacc => inv_unassignStep loc minAge now acc hacc proxyID) visits (ps, false) hi

/-- Adding validators that are not known keeps the invariant. -/
theorem inv_addRemoteValidators (hi : Inv loc ps) {vals : List Address}
    (hvals : ∀ v ∈ vals, v ∉ ps.getValidators) : Inv loc (ps.addRemoteValidators loc vals).1 :=
  inv_reassign loc (hi.consistent.addValidators fun v hv =>
    ValAssignments.proxyOf_eq_none_of_not_mem fun h => hvals v hv (AList.mem_keys.mp h)) hi.known

theorem inv_removeRemoteValidators (hi : Inv loc ps) (vals : List Address) :
    Inv loc (ps.removeRemoteValidators loc vals).1 :=
  inv_reassign loc (hi.consistent.removeValidators vals) hi.known

/-! ## `updateValidatorAssignments` -/

/-- The validators `updateValidatorAssignments` adds: retrieved, not this
node, and not known. -/
def additions (ps : ProxySet) (conn : List Address) (self : Address) : List Address :=
  (conn.filter (· != self)).filter fun v => v ∉ ps.getValidators

/-- The validators it removes: known, and not retrieved or this node. -/
def removals (ps : ProxySet) (conn : List Address) (self : Address) : List Address :=
  ps.getValidators.filter fun v => v ∉ conn.filter (· != self)

theorem mem_additions {conn : List Address} {self v : Address} :
    v ∈ ps.additions conn self ↔ (v ∈ conn ∧ v ≠ self) ∧ v ∉ ps.getValidators := by
  simp only [additions, List.mem_filter, bne_iff_ne, decide_eq_true_eq]

theorem mem_removals {conn : List Address} {self v : Address} :
    v ∈ ps.removals conn self ↔ v ∈ ps.getValidators ∧ ¬(v ∈ conn ∧ v ≠ self) := by
  simp only [removals, List.mem_filter, bne_iff_ne, decide_eq_true_eq]

theorem getValidatorConnSetDiff_getValidators (conn : List Address) (self : Address) :
    getValidatorConnSetDiff (some conn) self ps.getValidators =
      some (ps.additions conn self, ps.removals conn self) :=
  getValidatorConnSetDiff_some conn self ps.valAssignments.valToProxy.keys_nodup

theorem mem_getValidators_addRemoteValidators {vals : List Address} {v : Address} :
    v ∈ (ps.addRemoteValidators loc vals).1.getValidators ↔ v ∈ vals ∨ v ∈ ps.getValidators := by
  show v ∈ (ps.valAssigner.reassignValidators loc
    (ps.valAssignments.addValidators vals)).1.valToProxy.keys ↔ v ∈ vals ∨ v ∈ ps.valAssignments.valToProxy.keys
  rw [← AList.mem_keys, ConsistentHashingPolicy.mem_reassignValidators,
    ValAssignments.mem_valToProxy_addValidators, AList.mem_keys]

theorem mem_getValidators_removeRemoteValidators {vals : List Address} {v : Address} :
    v ∈ (ps.removeRemoteValidators loc vals).1.getValidators ↔ v ∉ vals ∧ v ∈ ps.getValidators := by
  show v ∈ (ps.valAssigner.reassignValidators loc
    (ps.valAssignments.removeValidators vals)).1.valToProxy.keys ↔ v ∉ vals ∧ v ∈ ps.valAssignments.valToProxy.keys
  rw [← AList.mem_keys, ConsistentHashingPolicy.mem_reassignValidators,
    ValAssignments.mem_valToProxy_removeValidators, AList.mem_keys]

/-- **What `updateValidatorAssignments` does** after a successful retrieval.
The addition reports a change whenever it adds anything, so the removal, the
right operand of `||`, runs only when nothing is added. -/
theorem updateValidatorAssignments_some (ps : ProxySet) (conn : List Address) (self : Address) :
    updateValidatorAssignments loc ps (some conn) self =
      if ps.additions conn self ≠ [] then
        ((ps.addRemoteValidators loc (ps.additions conn self)).1, some true)
      else if ps.removals conn self ≠ [] then
        ((ps.removeRemoteValidators loc (ps.removals conn self)).1,
          some (ps.removeRemoteValidators loc (ps.removals conn self)).2)
      else (ps, some false) := by
  unfold updateValidatorAssignments
  rw [getValidatorConnSetDiff_getValidators]
  dsimp only
  by_cases hN : ps.additions conn self = []
  · -- nothing to add: the first step leaves the set and reports no change
    have hadd : (if (ps.additions conn self).length > 0 then
        orElseRun false (·.addRemoteValidators loc (ps.additions conn self)) ps else (ps, false)) =
        (ps, false) := if_neg (by simp [hN])
    rw [hadd, if_neg (not_not.mpr hN)]
    by_cases hR : ps.removals conn self = []
    · rw [if_neg (by simp [hR]), if_neg (not_not.mpr hR)]
    · have hRlen : (ps.removals conn self).length > 0 := List.length_pos_iff.mpr hR
      rw [if_pos hRlen, if_pos hR]
      rfl
  · -- the addition runs and reports a change, which skips the removal
    have hNlen : (ps.additions conn self).length > 0 := List.length_pos_iff.mpr hN
    have hadd : (if (ps.additions conn self).length > 0 then
        orElseRun false (·.addRemoteValidators loc (ps.additions conn self)) ps else (ps, false)) =
        ps.addRemoteValidators loc (ps.additions conn self) := if_pos hNlen
    have hflag : (ps.addRemoteValidators loc (ps.additions conn self)).2 = true :=
      ConsistentHashingPolicy.assignRemoteValidators_snd loc ps.valAssigner hN
    rw [hadd, if_pos hN]
    rcases hps₁ : ps.addRemoteValidators loc (ps.additions conn self) with ⟨ps₁, b₁⟩
    have hb₁ : b₁ = true := by
      rw [← hflag]
      exact (congrArg Prod.snd hps₁).symm
    subst hb₁
    dsimp only
    split_ifs <;> rfl

/-- **The validators after `updateValidatorAssignments`.** The retrieved ones
other than this node, and, when some of those were not known, also every
validator known before: the removal is skipped. -/
theorem getValidators_updateValidatorAssignments (conn : List Address) (self v : Address) :
    v ∈ (updateValidatorAssignments loc ps (some conn) self).1.getValidators ↔
      (v ∈ conn ∧ v ≠ self) ∨ (v ∈ ps.getValidators ∧ ∃ w ∈ conn, w ≠ self ∧ w ∉ ps.getValidators) := by
  rw [updateValidatorAssignments_some]
  by_cases hN : ps.additions conn self = []
  · -- nothing added: every retrieved validator is known, and the removal runs
    have hknown : ∀ w ∈ conn, w ≠ self → w ∈ ps.getValidators := fun w hw hws => by
      by_contra hwk
      exact List.ne_nil_of_mem (mem_additions.mpr ⟨⟨hw, hws⟩, hwk⟩) hN
    have hnone : ¬∃ w ∈ conn, w ≠ self ∧ w ∉ ps.getValidators :=
      fun ⟨w, hw, hws, hwk⟩ => hwk (hknown w hw hws)
    rw [if_neg (not_not.mpr hN)]
    simp only [hnone, and_false, or_false]
    split_ifs with hR
    · rw [mem_getValidators_removeRemoteValidators, mem_removals]
      constructor
      · rintro ⟨hnot, hv⟩
        by_contra hc
        exact hnot ⟨hv, hc⟩
      · intro hc
        exact ⟨fun h => h.2 hc, hknown v hc.1 hc.2⟩
    · -- nothing removed either: the known validators are the retrieved ones
      constructor
      · intro hv
        by_contra hc
        exact hR (List.ne_nil_of_mem (mem_removals.mpr ⟨hv, hc⟩))
      · intro hc
        exact hknown v hc.1 hc.2
  · obtain ⟨w, hw⟩ := List.exists_mem_of_ne_nil _ hN
    obtain ⟨⟨hwc, hws⟩, hwk⟩ := mem_additions.mp hw
    rw [if_pos hN, mem_getValidators_addRemoteValidators, mem_additions]
    constructor
    · rintro (⟨hc, -⟩ | hv)
      · exact .inl hc
      · exact .inr ⟨hv, w, hwc, hws, hwk⟩
    · rintro (hc | ⟨hv, -⟩)
      · by_cases hv : v ∈ ps.getValidators
        · exact .inr hv
        · exact .inl ⟨hc, hv⟩
      · exact .inr hv

theorem inv_updateValidatorAssignments (hi : Inv loc ps) (valConnSet : Option (List Address))
    (self : Address) : Inv loc (updateValidatorAssignments loc ps valConnSet self).1 := by
  cases valConnSet with
  | none => exact hi
  | some conn =>
    rw [updateValidatorAssignments_some]
    split_ifs
    · exact inv_addRemoteValidators loc hi fun v hv => (mem_additions.mp hv).2
    · exact inv_removeRemoteValidators loc hi _
    · exact hi

/-! ## Runs -/

/-- **Step lemma.** Every call keeps the invariant. -/
theorem inv_step (self : Address) (hi : Inv loc ps) (op : Op) : Inv loc (step loc self ps op) := by
  cases op with
  | addProxy internalID now => exact inv_addProxy loc hi internalID now
  | removeProxy proxyID => exact inv_removeProxy loc hi proxyID
  | setProxyPeer proxyID => exact inv_setProxyPeer loc hi proxyID
  | removeProxyPeer proxyID now => exact inv_removeProxyPeer loc hi proxyID now
  | unassignDisconnectedProxies minAge now visits =>
    exact inv_unassignDisconnectedProxies loc hi minAge now visits
  | updateValidatorAssignments valConnSet => exact inv_updateValidatorAssignments loc hi valConnSet self

/-- **Run lemma.** Every sequence of calls from a new proxy set keeps it. -/
theorem inv_run (self : Address) (ops : List Op) : Inv loc (Run.run (step loc self) ProxySet.new ops) :=
  Run.run_invariant (step loc self) (Inv loc) (fun _ op hi => inv_step loc self hi op) ops _
    (inv_new loc)

theorem inv_handleEvent (self : Address) (hi : Inv loc ps) (e : Event) :
    Inv loc (handleEvent loc self ps e) :=
  Run.run_invariant (step loc self) (Inv loc) (fun _ op hi => inv_step loc self hi op) (e.ops ps) ps hi

/-- Every run of the proxied validator's loop keeps it. -/
theorem inv_runEvents (self : Address) (es : List Event) :
    Inv loc (Run.run (handleEvent loc self) ProxySet.new es) :=
  Run.run_invariant (handleEvent loc self) (Inv loc) (fun _ e hi => inv_handleEvent loc self hi e)
    es _ (inv_new loc)

theorem valAssigner_updateValidatorAssignments (valConnSet : Option (List Address))
    (self : Address) : (updateValidatorAssignments loc ps valConnSet self).1.valAssigner = ps.valAssigner := by
  cases valConnSet with
  | none => rfl
  | some conn =>
    rw [updateValidatorAssignments_some]
    split_ifs <;> rfl

/-! ## What the invariant gives -/

section Consequences

variable {loc}

theorem Inv.mem_ring_of_proxyOf (hi : Inv loc ps) {v : Address} {p : NodeID}
    (h : ps.valAssignments.proxyOf v = some p) : p ∈ ps.valAssigner.c := by
  have hv := ValAssignments.mem_valToProxy_of_proxyOf_eq_some h
  rw [hi.located v hv] at h
  exact loc.mem_of_locateKey _ _ _ h

theorem Inv.mem_proxiesByID_of_proxyOf (hi : Inv loc ps) {v : Address} {p : NodeID}
    (h : ps.valAssignments.proxyOf v = some p) : p ∈ ps.proxiesByID :=
  hi.known p (hi.mem_ring_of_proxyOf h)

/-- **Every proxy with validators is known.** A key of `proxyToVals` has a
validator, which sits on the ring, whose members are known proxies. -/
theorem Inv.mem_proxiesByID_of_mem_proxyToVals (hi : Inv loc ps) {p : NodeID}
    (hp : p ∈ ps.valAssignments.proxyToVals) : p ∈ ps.proxiesByID := by
  obtain ⟨vals, hvals⟩ := Option.isSome_iff_exists.mp (AList.lookup_isSome.mpr hp)
  obtain ⟨v, hv⟩ := List.exists_mem_of_ne_nil vals (hi.consistent.ne_nil p vals hvals)
  have hvp : v ∈ ps.valAssignments.valsOf p := by simp [ValAssignments.valsOf, hvals, hv]
  exact hi.mem_proxiesByID_of_proxyOf ((hi.consistent.mem_valsOf_iff v p).mp hvp)

/-- **Every validator has a proxy while the ring has a member**: the one the
ring locates. -/
theorem Inv.proxyOf_ne_none (hi : Inv loc ps) (hc : ps.valAssigner.c ≠ []) {v : Address}
    (hv : v ∈ ps.getValidators) : ps.valAssignments.proxyOf v ≠ none := by
  rw [hi.located v (AList.mem_keys.mpr hv)]
  exact ConsistentHashingPolicy.locateKey_ne_none loc hc v

/-- The validators filter of `getValidatorAssignments` holds each validator's
own assignment. -/
theorem lookup_assignmentsFromValidators {va : ValAssignments} (validators : Option (List Address))
    {w : Address} {p : NodeID} (h : (assignmentsFromValidators va validators).lookup w = some (some p)) :
    va.proxyOf w = some p := by
  cases validators with
  | none => exact ValAssignments.proxyOf_eq_some_iff.mpr h
  | some vs =>
    -- the loop adds only entries that are their validator's assignment
    refine Run.run_invariant (addAssigned va)
      (fun m => ∀ w p, m.lookup w = some (some p) → va.proxyOf w = some p) ?_ vs ∅
      (fun w p h => by cases h) w p h
    intro m valAddress hm w' p' hw'
    unfold addAssigned at hw'
    split at hw'
    · rename_i enodeID henode
      by_cases hwv : w' = valAddress
      · subst hwv
        rw [AList.lookup_insert] at hw'
        rw [← Option.some.inj hw']
        exact ValAssignments.proxyOf_eq_some_iff.mpr henode
      · rw [AList.lookup_insert_ne hwv] at hw'
        exact hm w' p' hw'
    · exact hm w' p' hw'

/-- A round of the intersection dereferences only known proxies. -/
theorem Inv.intersectStep_isSome (hi : Inv loc ps) {m : AList fun _ : Address => Option NodeID}
    (hm : ∀ w p, m.lookup w = some (some p) → ps.valAssignments.proxyOf w = some p)
    (acc : AList fun _ : Address => Option NodeID) (w : Address) :
    (ps.intersectStep m acc w).isSome := by
  unfold intersectStep
  split
  · rename_i p hp
    obtain ⟨proxy, hproxy⟩ :=
      Option.isSome_iff_exists.mp (AList.lookup_isSome.mpr (hi.mem_proxiesByID_of_proxyOf (hm w p hp)))
    rw [getProxy, hproxy]
    dsimp only
    split_ifs <;> rfl
  · rfl
  · rfl

/-- A loop in `Option` whose every round succeeds succeeds. -/
theorem foldlM_isSome {α β : Type} {f : β → α → Option β} (hf : ∀ b a, (f b a).isSome) :
    ∀ (l : List α) (init : β), (l.foldlM f init).isSome := by
  intro l
  induction l with
  | nil => intro init; rfl
  | cons a l ih =>
    intro init
    obtain ⟨b, hb⟩ := Option.isSome_iff_exists.mp (hf init a)
    rw [List.foldlM_cons, hb]
    exact ih b

/-- **`getValidatorAssignments` never dereferences `nil`.** -/
theorem Inv.getValidatorAssignments_isSome (hi : Inv loc ps) (validators : Option (List Address))
    (proxyIDs : Option (List NodeID)) : (ps.getValidatorAssignments validators proxyIDs).isSome :=
  foldlM_isSome (hi.intersectStep_isSome fun _ _ h => lookup_assignmentsFromValidators validators h) _ _

end Consequences

/-! ## The skipped removal -/

/-- A proxied validator with one peered proxy, after an epoch whose
validators were `{5}`. -/
def epochOneSet (loc : Locator) : ProxySet :=
  Run.run (step loc 0) ProxySet.new
    [.addProxy 1 0, .setProxyPeer 1, .updateValidatorAssignments (some [5])]

/-- **`updateValidatorAssignments` keeps a validator it should remove.** With
any consistent hasher: the validators are `{5}`, all served by proxy 1. The
next epoch's set is `{6}`. The call succeeds and reports a change, but 5 is
still a validator of the set, and still assigned to proxy 1. -/
theorem update_keeps_removed_validator (loc : Locator) :
    (∀ v, v ∈ (epochOneSet loc).getValidators ↔ v = 5) ∧
      (updateValidatorAssignments loc (epochOneSet loc) (some [6]) 0).2 = some true ∧
      5 ∈ (updateValidatorAssignments loc (epochOneSet loc) (some [6]) 0).1.getValidators ∧
      (updateValidatorAssignments loc (epochOneSet loc) (some [6]) 0).1.valAssignments.proxyOf 5 =
        some 1 := by
  have hset : epochOneSet loc = (updateValidatorAssignments loc
      ((ProxySet.new.addProxy 1 0).setProxyPeer loc 1).1 (some [5]) 0).1 := rfl
  have hvals : ∀ v, v ∈ (epochOneSet loc).getValidators ↔ v = 5 := by
    intro v
    rw [hset, getValidators_updateValidatorAssignments]
    have hnone : ((ProxySet.new.addProxy 1 0).setProxyPeer loc 1).1.getValidators = [] := rfl
    rw [hnone]
    constructor
    · rintro (⟨hv, -⟩ | ⟨hv, -⟩)
      · exact List.mem_singleton.mp hv
      · cases hv
    · rintro rfl
      exact .inl ⟨List.mem_singleton_self 5, by decide⟩
  have h6 : 6 ∉ (epochOneSet loc).getValidators := fun h => by cases (hvals 6).mp h
  have hadd : (epochOneSet loc).additions [6] 0 ≠ [] :=
    List.ne_nil_of_mem (mem_additions.mpr ⟨⟨List.mem_singleton_self 6, by decide⟩, h6⟩)
  have h5 : 5 ∈ (updateValidatorAssignments loc (epochOneSet loc) (some [6]) 0).1.getValidators :=
    (getValidators_updateValidatorAssignments loc [6] 0 5).mpr
      (.inr ⟨(hvals 5).mpr rfl, 6, List.mem_singleton_self 6, by decide, h6⟩)
  refine ⟨hvals, ?_, h5, ?_⟩
  · rw [updateValidatorAssignments_some, if_pos hadd]
  · -- 5 sits where the one-member ring puts every validator
    have hi₀ : Inv loc (epochOneSet loc) := inv_run loc 0 _
    have hi : Inv loc (updateValidatorAssignments loc (epochOneSet loc) (some [6]) 0).1 :=
      inv_updateValidatorAssignments loc hi₀ (some [6]) 0
    have hring : (updateValidatorAssignments loc (epochOneSet loc) (some [6]) 0).1.valAssigner.c = [1] := by
      rw [valAssigner_updateValidatorAssignments, hset, valAssigner_updateValidatorAssignments]
      rfl
    rw [hi.located 5 (AList.mem_keys.mpr h5), hring]
    exact ConsistentHashingPolicy.locateKey_singleton loc 1 5

end ProxySet

end CeloBlockchain.Proxied
