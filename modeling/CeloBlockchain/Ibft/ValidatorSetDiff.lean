import CeloBlockchain.Ibft.Types
import CeloBlockchain.Lib.Bitmap
import Mathlib.Data.List.Induction
import Mathlib.Data.List.Nodup

/-!
# Validator-set diffs

This module models `istanbul.ValidatorSetDiff` (`consensus/istanbul/utils.go`)
and `defaultSet.RemoveValidators` and `defaultSet.AddValidators`
(`consensus/istanbul/validator/default.go`). `Snapshot.apply` takes these two
steps on the diff that `writeValidatorSetDiff` writes into a header.

`ValidatorData` is `Validator`: an address and a BLS key. A `*big.Int`
bitmap is a natural number (`Lib.Bitmap`). The map `valSetMap` is kept as
the list of its keys. `ValidatorSetDiff` only iterates it to set bits, so its
order is immaterial.

The main result is `validatorSetDiff_apply`. Take two lists of validators,
each with distinct non-zero addresses. Removing the diff's bitmap from the
old list succeeds, and so does adding the diff's validators. The result is
the old validators that `new` keeps, in their old order, followed by the
other validators of `new`. It is a permutation of `new`.
-/

namespace CeloBlockchain.Ibft

open Bitmap

/-! ## The diff -/

/-- `oldValSetIndices` as the first loop of `ValidatorSetDiff` fills it: the
last index of each non-zero address. -/
def oldValSetIndices (oldValSet : List Validator) : Address → Option Nat :=
  oldValSet.zipIdx.foldl
    (fun m p => if p.1.address ≠ 0 then Function.update m p.1.address (some p.2) else m)
    fun _ => none

/-- The keys `valSetMap` starts with: the non-zero addresses of the old set. -/
def valSetMapKeys (oldValSet : List Validator) : List Address :=
  oldValSet.foldl (fun m v => if v.address ≠ 0 ∧ v.address ∉ m then m ++ [v.address] else m) []

/-- A new validator found in the old set under the same BLS key. -/
def isCommonValidator (oldValSet : List Validator) (newVal : Validator) : Bool :=
  match oldValSetIndices oldValSet newVal.address with
  | some index => oldValSet[index]?.map (·.blsPublicKey) == some newVal.blsPublicKey
  | none => false

/-- `ValidatorSetDiff`: the new validators not found in the old set under
the same key, and the bitmap of the old indices of the others. -/
def validatorSetDiff (oldValSet newValSet : List Validator) : List Validator × Nat :=
  let addedValidators := newValSet.filter fun newVal => !isCommonValidator oldValSet newVal
  -- the common validators are popped from `valSetMap`
  let valSetMap := newValSet.foldl
    (fun m newVal => if isCommonValidator oldValSet newVal then m.erase newVal.address else m)
    (valSetMapKeys oldValSet)
  let removedValidatorsBitmap :=
    setBits 0 (valSetMap.map fun rmVal => (oldValSetIndices oldValSet rmVal).getD 0)
  (addedValidators, removedValidatorsBitmap)

/-! ## Removing and adding -/

namespace ValidatorSet

/-- `RemoveValidators`: refused when the bitmap is longer than the list. -/
def removeValidators (vs : ValidatorSet) (removedValidators : Nat) : Bool × ValidatorSet :=
  if removedValidators.size = 0 then (true, vs)
  else if removedValidators.size > vs.list.length then (false, vs)
  else
    (true, { vs with list := (vs.list.zipIdx.filter fun p => !removedValidators.testBit p.2).map Prod.fst })

/-- `AddValidators`: refused when a validator of the set has the address of
one to add. -/
def addValidators (vs : ValidatorSet) (validators : List Validator) : Bool × ValidatorSet :=
  if vs.list.any fun v => validators.any (·.address == v.address) then (false, vs)
  else (true, { vs with list := vs.list ++ validators })

end ValidatorSet

/-! ## The indices and keys of the old set -/

/-- Pairwise distinct, non-zero addresses. -/
structure DistinctAddresses (l : List Validator) : Prop where
  nodup : (l.map (·.address)).Nodup
  ne_zero : ∀ v ∈ l, v.address ≠ 0

instance (l : List Validator) : Decidable (DistinctAddresses l) :=
  decidable_of_iff ((l.map (·.address)).Nodup ∧ ∀ v ∈ l, v.address ≠ 0)
    ⟨fun h => ⟨h.1, h.2⟩, fun h => ⟨h.1, h.2⟩⟩

theorem DistinctAddresses.eq_of_address_eq {l : List Validator} (h : DistinctAddresses l)
    {v w : Validator} (hv : v ∈ l) (hw : w ∈ l) (haddr : v.address = w.address) : v = w :=
  List.inj_on_of_nodup_map h.nodup hv hw haddr

theorem DistinctAddresses.of_append_left {l l' : List Validator} (h : DistinctAddresses (l ++ l')) :
    DistinctAddresses l :=
  ⟨(List.nodup_append.mp (List.map_append ▸ h.nodup)).1,
    fun v hv => h.ne_zero v (List.mem_append_left _ hv)⟩

/-- One more step of the first loop. -/
theorem oldValSetIndices_concat (l : List Validator) (x : Validator) (a : Address) :
    oldValSetIndices (l ++ [x]) a =
      if x.address ≠ 0 ∧ x.address = a then some l.length else oldValSetIndices l a := by
  unfold oldValSetIndices
  rw [List.zipIdx_append, List.foldl_append]
  simp only [List.zipIdx_cons, List.zipIdx_nil, Nat.zero_add, List.foldl_cons, List.foldl_nil]
  by_cases hx : x.address ≠ 0
  · by_cases ha : x.address = a
    · subst ha
      simp [hx]
    · simp [hx, ha, Function.update_of_ne (Ne.symm ha)]
  · simp [hx]

/-- An index the loop stores is an index of the address. -/
theorem getElem_of_oldValSetIndices {l : List Validator} {a : Address} {i : Nat}
    (h : oldValSetIndices l a = some i) : ∃ hi : i < l.length, l[i].address = a := by
  induction l using List.reverseRecOn generalizing i with
  | nil => simp [oldValSetIndices] at h
  | append_singleton l x ih =>
    rw [oldValSetIndices_concat] at h
    split at h
    · rename_i hx
      cases h
      exact ⟨by simp, by simp [hx.2]⟩
    · obtain ⟨hi, hai⟩ := ih h
      exact ⟨by simp; omega, by rw [List.getElem_append_left hi]; exact hai⟩

/-- With distinct non-zero addresses, the loop stores each validator's own
index. -/
theorem oldValSetIndices_getElem {l : List Validator} (h : DistinctAddresses l) {i : Nat}
    (hi : i < l.length) : oldValSetIndices l l[i].address = some i := by
  induction l using List.reverseRecOn generalizing i with
  | nil => simp at hi
  | append_singleton l x ih =>
    rw [oldValSetIndices_concat]
    by_cases hil : i < l.length
    · -- an earlier validator: the last one has another address
      have hne : x.address ≠ l[i].address := by
        intro heq
        have hmem : l[i] ∈ l ++ [x] := List.mem_append_left _ (List.getElem_mem hil)
        have hxl : l[i] = x := h.eq_of_address_eq hmem (by simp) heq.symm
        have hnd := List.nodup_append.mp (List.map_append ▸ h.nodup)
        exact hnd.2.2 l[i].address (List.mem_map_of_mem (List.getElem_mem hil)) x.address
          (by simp) (by rw [hxl])
      rw [List.getElem_append_left hil, if_neg (fun hx => hne hx.2)]
      exact ih h.of_append_left hil
    · have hil' : i = l.length := by simp at hi; omega
      subst hil'
      simp [h.ne_zero x (by simp)]

/-- A new validator is common exactly when it is in the old set. -/
theorem isCommonValidator_iff {old : List Validator} (h : DistinctAddresses old) (v : Validator) :
    isCommonValidator old v = true ↔ v ∈ old := by
  unfold isCommonValidator
  constructor
  · intro hc
    split at hc
    · rename_i i hidx
      obtain ⟨hi, haddr⟩ := getElem_of_oldValSetIndices hidx
      rw [List.getElem?_eq_getElem hi] at hc
      have hkey : old[i].blsPublicKey = v.blsPublicKey := by simpa using hc
      have hv : old[i] = v := by
        cases hold : old[i]
        cases v
        simp_all
      exact hv ▸ List.getElem_mem hi
    · cases hc
  · intro hv
    obtain ⟨i, hi, rfl⟩ := List.mem_iff_getElem.mp hv
    rw [oldValSetIndices_getElem h hi]
    dsimp only
    rw [List.getElem?_eq_getElem hi]
    simp

/-- `valSetMap` starts with every address of the old set. -/
theorem valSetMapKeys_eq {old : List Validator} (h : DistinctAddresses old) :
    valSetMapKeys old = old.map (·.address) := by
  -- the loop appends each address to the keys of the validators before it
  have hloop : ∀ (acc : List Address) (l : List Validator), DistinctAddresses l →
      (∀ v ∈ l, v.address ∉ acc) →
      l.foldl (fun m v => if v.address ≠ 0 ∧ v.address ∉ m then m ++ [v.address] else m) acc =
        acc ++ l.map (·.address) := by
    intro acc l hl hacc
    induction l generalizing acc with
    | nil => simp
    | cons v l ih =>
      have hv : v.address ≠ 0 ∧ v.address ∉ acc := ⟨hl.ne_zero v (by simp), hacc v (by simp)⟩
      have hvl : v.address ∉ l.map (·.address) := (List.nodup_cons.mp hl.nodup).1
      have hl' : DistinctAddresses l :=
        ⟨(List.nodup_cons.mp hl.nodup).2, fun w hw => hl.ne_zero w (List.mem_cons_of_mem _ hw)⟩
      rw [List.foldl_cons, if_pos hv, ih (acc ++ [v.address]) hl', List.append_assoc]
      · rfl
      · intro w hw hmem
        rcases List.mem_append.mp hmem with hacc' | hsingle
        · exact hacc w (List.mem_cons_of_mem _ hw) hacc'
        · rw [List.mem_singleton] at hsingle
          exact hvl (hsingle ▸ List.mem_map_of_mem hw)
  exact hloop [] old h (fun _ _ => List.not_mem_nil)

/-- Erasing keys from a list without duplicates filters them out. -/
theorem foldl_erase_eq_filter (p : Validator → Bool) (xs : List Validator) (keys : List Address)
    (hk : keys.Nodup) :
    xs.foldl (fun m x => if p x then m.erase x.address else m) keys =
      keys.filter fun a => !(xs.any fun x => p x && x.address == a) := by
  induction xs generalizing keys with
  | nil => simp
  | cons x xs ih =>
    rw [List.foldl_cons]
    cases hp : p x
    · rw [if_neg Bool.false_ne_true, ih keys hk]
      simp [hp]
    · rw [if_pos rfl, hk.erase_eq_filter, ih _ (hk.filter _), List.filter_filter]
      apply List.filter_congr
      intro a _
      by_cases hax : a = x.address
      · simp [hax, hp]
      · have hne : (a != x.address) = true := bne_iff_ne.mpr hax
        have hbeq : (x.address == a) = false := beq_eq_false_iff_ne.mpr (Ne.symm hax)
        rw [hne, List.any_cons, hp, hbeq]
        simp

/-! ## What the diff holds -/

section Diff

variable {old : List Validator} (hold : DistinctAddresses old) (new : List Validator)
include hold

/-- `valSetMap` ends with the addresses of the old validators that `new`
drops. -/
theorem valSetMap_popped :
    new.foldl (fun m newVal => if isCommonValidator old newVal then m.erase newVal.address else m)
      (valSetMapKeys old) = (old.filter (· ∉ new)).map (·.address) := by
  rw [valSetMapKeys_eq hold, foldl_erase_eq_filter _ _ _ hold.nodup, List.filter_map]
  congr 1
  apply List.filter_congr
  intro v hv
  -- a common validator with `v`'s address is `v` itself
  have hany : (new.any fun x => isCommonValidator old x && x.address == v.address) = true ↔ v ∈ new := by
    simp only [List.any_eq_true, Bool.and_eq_true, beq_iff_eq, isCommonValidator_iff hold]
    constructor
    · rintro ⟨x, hx, hxold, haddr⟩
      exact hold.eq_of_address_eq hxold hv haddr ▸ hx
    · intro hvnew
      exact ⟨v, hvnew, hv, rfl⟩
  simp only [Function.comp, decide_not]
  rw [Bool.eq_iff_iff, Bool.not_eq_true', Bool.not_eq_true', Bool.eq_false_iff, Bool.eq_false_iff,
    ne_eq, ne_eq, hany, decide_eq_true_iff]

/-- Bit `i` of the removed bitmap is set exactly for the old validators
`new` drops. -/
theorem testBit_validatorSetDiff (i : Nat) :
    (validatorSetDiff old new).2.testBit i = true ↔ ∃ hi : i < old.length, old[i] ∉ new := by
  simp only [validatorSetDiff]
  rw [valSetMap_popped hold, testBit_setBits_zero, decide_eq_true_iff, List.map_map, List.mem_map]
  constructor
  · rintro ⟨v, hv, hidx⟩
    obtain ⟨hvold, hvnew⟩ := List.mem_filter.mp hv
    obtain ⟨j, hj, rfl⟩ := List.mem_iff_getElem.mp hvold
    simp only [Function.comp, oldValSetIndices_getElem hold hj, Option.getD_some] at hidx
    subst hidx
    exact ⟨hj, by simpa using hvnew⟩
  · rintro ⟨hi, hinew⟩
    refine ⟨old[i], List.mem_filter.mpr ⟨List.getElem_mem hi, by simpa using hinew⟩, ?_⟩
    simp [Function.comp, oldValSetIndices_getElem hold hi]

/-- The diff's validators are those of `new` that are not old. -/
theorem validatorSetDiff_added : (validatorSetDiff old new).1 = new.filter (· ∉ old) := by
  simp only [validatorSetDiff]
  apply List.filter_congr
  intro v _
  rw [Bool.eq_iff_iff, Bool.not_eq_true', Bool.eq_false_iff, decide_eq_true_iff, ne_eq,
    isCommonValidator_iff hold]

/-- `RemoveValidators` on the diff's bitmap succeeds and keeps the old
validators that are in `new`. -/
theorem removeValidators_validatorSetDiff (vs : ValidatorSet) (hvs : vs.list = old) :
    vs.removeValidators (validatorSetDiff old new).2 = (true, { vs with list := old.filter (· ∈ new) }) := by
  have hbits := testBit_validatorSetDiff hold new
  have hsize : (validatorSetDiff old new).2.size ≤ old.length := by
    apply Nat.size_le.mpr
    apply Nat.lt_pow_two_of_testBit
    intro i hi
    rw [Bool.eq_false_iff]
    intro hset
    obtain ⟨hlt, -⟩ := (hbits i).mp hset
    omega
  unfold ValidatorSet.removeValidators
  split_ifs with h0 hgt
  · -- nothing is removed: every old validator is in `new`
    have hall : old.filter (· ∈ new) = old := by
      apply List.filter_eq_self.mpr
      intro v hv
      obtain ⟨j, hj, rfl⟩ := List.mem_iff_getElem.mp hv
      by_contra hnot
      have hset := (hbits j).mpr ⟨hj, by simpa using hnot⟩
      rw [Nat.size_eq_zero.mp h0, Nat.zero_testBit] at hset
      cases hset
    rw [hall, ← hvs]
  · rw [hvs] at hgt
    omega
  · congr
    rw [hvs]
    apply map_fst_filter_zipIdx
    intro i hi
    rw [Nat.zero_add]
    by_cases hin : old[i] ∈ new
    · rw [decide_eq_true hin, Bool.not_true, Bool.eq_false_iff]
      intro hset
      exact ((hbits i).mp hset).2 hin
    · rw [decide_eq_false hin, Bool.not_false]
      exact (hbits i).mpr ⟨hi, hin⟩

/-- The validators `new` keeps from the old set have no address among the
diff's validators, so `AddValidators` succeeds. -/
theorem addValidators_validatorSetDiff {new : List Validator} (hnew : DistinctAddresses new)
    (vs : ValidatorSet) :
    ({ vs with list := old.filter (· ∈ new) } : ValidatorSet).addValidators (validatorSetDiff old new).1 =
      (true, { vs with list := old.filter (· ∈ new) ++ new.filter (· ∉ old) }) := by
  rw [validatorSetDiff_added hold]
  unfold ValidatorSet.addValidators
  rw [if_neg]
  simp only [List.any_eq_true, beq_iff_eq, not_exists, not_and]
  intro v hv a ha haddr
  obtain ⟨hvold, hvnew⟩ := List.mem_filter.mp hv
  obtain ⟨hanew, haold⟩ := List.mem_filter.mp ha
  -- one address in `new` is one validator, which would be both old and not
  have hav : a = v := hnew.eq_of_address_eq hanew (of_decide_eq_true hvnew) haddr
  exact of_decide_eq_true haold (hav ▸ hvold)

/-- The kept old validators followed by the new ones are `new` reordered. -/
theorem filter_append_filter_perm {new : List Validator} (hnew : DistinctAddresses new) :
    (old.filter (· ∈ new) ++ new.filter (· ∉ old)).Perm new := by
  have hkept : (old.filter (· ∈ new)).Perm (new.filter (· ∈ old)) := by
    rw [List.perm_ext_iff_of_nodup ((hold.nodup.of_map _).filter _) ((hnew.nodup.of_map _).filter _)]
    intro v
    simp only [List.mem_filter, decide_eq_true_eq]
    exact And.comm
  have hsplit := List.filter_append_perm (· ∈ old) new
  simp only [decide_not] at hsplit ⊢
  exact (hkept.append_right _).trans hsplit

/-- **Validator-set diff round trip.** On a validator set whose list is
`old`, removing the diff's bitmap and then adding its validators both
succeed. They give the old validators `new` keeps, in their old order,
followed by the other validators of `new`: exactly the validators of `new`,
each once. -/
theorem validatorSetDiff_round_trip {new : List Validator} (hnew : DistinctAddresses new)
    (vs : ValidatorSet) (hvs : vs.list = old) :
    (vs.removeValidators (validatorSetDiff old new).2).1 = true ∧
      ((vs.removeValidators (validatorSetDiff old new).2).2.addValidators
        (validatorSetDiff old new).1).1 = true ∧
      ((vs.removeValidators (validatorSetDiff old new).2).2.addValidators
        (validatorSetDiff old new).1).2.list = old.filter (· ∈ new) ++ new.filter (· ∉ old) ∧
      ((vs.removeValidators (validatorSetDiff old new).2).2.addValidators
        (validatorSetDiff old new).1).2.list.Perm new := by
  rw [removeValidators_validatorSetDiff hold new vs hvs]
  dsimp only
  rw [addValidators_validatorSetDiff hold hnew vs]
  exact ⟨rfl, rfl, rfl, filter_append_filter_perm hold hnew⟩

end Diff

/-- Validators 1, 2 and 3. -/
def epochOld : List Validator := [⟨1, 11⟩, ⟨2, 22⟩, ⟨3, 33⟩]

/-- Validator 1 leaves, validator 2 changes its key, validator 4 joins. -/
def epochNew : List Validator := [⟨3, 33⟩, ⟨2, 99⟩, ⟨4, 44⟩]

theorem validatorSetDiff_round_trip_epoch :
    DistinctAddresses epochOld ∧ DistinctAddresses epochNew ∧
      ((⟨epochOld, 0⟩ : ValidatorSet).removeValidators (validatorSetDiff epochOld epochNew).2).1 = true ∧
      (((⟨epochOld, 0⟩ : ValidatorSet).removeValidators (validatorSetDiff epochOld epochNew).2).2.addValidators
        (validatorSetDiff epochOld epochNew).1).1 = true ∧
      (((⟨epochOld, 0⟩ : ValidatorSet).removeValidators (validatorSetDiff epochOld epochNew).2).2.addValidators
        (validatorSetDiff epochOld epochNew).1).2.list =
          epochOld.filter (· ∈ epochNew) ++ epochNew.filter (· ∉ epochOld) ∧
      (((⟨epochOld, 0⟩ : ValidatorSet).removeValidators (validatorSetDiff epochOld epochNew).2).2.addValidators
        (validatorSetDiff epochOld epochNew).1).2.list.Perm epochNew :=
  ⟨by decide, by decide, validatorSetDiff_round_trip (by decide) (by decide) ⟨epochOld, 0⟩ rfl⟩

end CeloBlockchain.Ibft
