import Mathlib.Data.Nat.Size
import Mathlib.Data.Nat.Bitwise

/-!
# Bitmaps

A natural number read as a set of indices: index `i` is in the set when bit
`i` is. Setting bits one index after another (`setBits`) gives the set of
those indices (`testBit_setBits`). A bitmap of indices below `n` is below
`2 ^ n` (`setBits_lt`), so its bit length is at most `n` (`size_setBits_le`).
`ones bm n` lists the set indices below `n` in increasing order; its length
is the count of set bits below `n`, and setting distinct clear bits below
`n` adds one to it for each (`length_ones_setBits`).
-/

namespace Bitmap

/-- Set bit `i`. -/
def setBit (bm i : Nat) : Nat := bm ||| 1 <<< i

/-- Set the bits of `is`, in order. -/
def setBits (bm : Nat) (is : List Nat) : Nat := is.foldl setBit bm

/-- The set indices below `n`, in increasing order. -/
def ones (bm n : Nat) : List Nat := (List.range n).filter bm.testBit

@[simp] theorem testBit_setBit (bm i j : Nat) : (setBit bm i).testBit j = (bm.testBit j || decide (i = j)) := by
  rw [setBit, Nat.testBit_or, Nat.one_shiftLeft, Nat.testBit_two_pow]

@[simp] theorem setBits_nil (bm : Nat) : setBits bm [] = bm := rfl

@[simp] theorem setBits_cons (bm i : Nat) (is : List Nat) :
    setBits bm (i :: is) = setBits (setBit bm i) is := rfl

theorem setBits_append (bm : Nat) (is js : List Nat) :
    setBits bm (is ++ js) = setBits (setBits bm is) js := List.foldl_append

/-- Bit `j` of the result is set when it was, or when `j` was set. -/
theorem testBit_setBits (bm : Nat) (is : List Nat) (j : Nat) :
    (setBits bm is).testBit j = (bm.testBit j || decide (j ∈ is)) := by
  induction is generalizing bm with
  | nil => simp
  | cons i is ih =>
    rw [setBits_cons, ih, testBit_setBit]
    by_cases h : i = j
    · subst h
      simp
    · simp [h, Ne.symm h, List.mem_cons]

theorem testBit_setBits_zero (is : List Nat) (j : Nat) :
    (setBits 0 is).testBit j = decide (j ∈ is) := by
  rw [testBit_setBits, Nat.zero_testBit, Bool.false_or]

theorem setBit_lt {bm i n : Nat} (hbm : bm < 2 ^ n) (hi : i < n) : setBit bm i < 2 ^ n := by
  rw [setBit, Nat.one_shiftLeft]
  exact Nat.or_lt_two_pow hbm (Nat.pow_lt_pow_right Nat.one_lt_two hi)

theorem setBits_lt {bm n : Nat} {is : List Nat} (hbm : bm < 2 ^ n) (his : ∀ i ∈ is, i < n) :
    setBits bm is < 2 ^ n := by
  induction is generalizing bm with
  | nil => exact hbm
  | cons i is ih =>
    rw [setBits_cons]
    exact ih (setBit_lt hbm (his i (List.mem_cons_self ..)))
      (fun j hj => his j (List.mem_cons_of_mem _ hj))

/-- The bit length (`big.Int.BitLen`) of a bitmap of indices below `n`. -/
theorem size_setBits_le {n : Nat} {is : List Nat} (his : ∀ i ∈ is, i < n) :
    (setBits 0 is).size ≤ n :=
  Nat.size_le.mpr (setBits_lt (Nat.two_pow_pos n) his)

theorem mem_ones {bm n i : Nat} : i ∈ ones bm n ↔ i < n ∧ bm.testBit i = true := by
  simp [ones]

theorem ones_nodup (bm n : Nat) : (ones bm n).Nodup := List.nodup_range.filter _

/-- Setting a bit that is set changes nothing. -/
theorem setBit_of_testBit {bm i : Nat} (h : bm.testBit i = true) : setBit bm i = bm := by
  apply Nat.eq_of_testBit_eq
  intro j
  rw [testBit_setBit]
  by_cases hij : i = j
  · subst hij
    simp [h]
  · simp [hij]

/-- Setting bits is an `OR` with the bitmap of those bits. -/
theorem setBits_eq_or (bm : Nat) (is : List Nat) : setBits bm is = bm ||| setBits 0 is := by
  apply Nat.eq_of_testBit_eq
  intro j
  rw [Nat.testBit_or, testBit_setBits, testBit_setBits_zero]

/-- Only the indices whose bit is clear change a bitmap. -/
theorem setBits_filter (bm : Nat) (is : List Nat) :
    setBits bm (is.filter fun i => !bm.testBit i) = setBits bm is := by
  apply Nat.eq_of_testBit_eq
  intro j
  rw [testBit_setBits, testBit_setBits]
  by_cases hj : bm.testBit j = true
  · simp [hj]
  · simp [hj]

@[simp] theorem ones_zero (n : Nat) : ones 0 n = [] := by
  simp [ones]

/-- A clear bit below `n`, once set, adds one index to the set ones. -/
theorem ones_setBit_perm {bm i n : Nat} (hi : i < n) (hbit : bm.testBit i = false) :
    (ones (setBit bm i) n).Perm (i :: ones bm n) := by
  have hnotin : i ∉ ones bm n := by simp [mem_ones, hbit]
  refine (List.perm_ext_iff_of_nodup (ones_nodup _ _)
    (List.nodup_cons.mpr ⟨hnotin, ones_nodup _ _⟩)).mpr fun j => ?_
  rw [mem_ones, testBit_setBit, List.mem_cons, mem_ones]
  by_cases hij : i = j
  · subst hij
    simp [hi]
  · simp [hij, Ne.symm hij]

/-- Setting distinct clear bits below `n` adds that many set ones. -/
theorem length_ones_setBits {bm n : Nat} {is : List Nat} (his : ∀ i ∈ is, i < n) (hnd : is.Nodup)
    (hclear : ∀ i ∈ is, bm.testBit i = false) :
    (ones (setBits bm is) n).length = (ones bm n).length + is.length := by
  induction is generalizing bm with
  | nil => simp
  | cons i is ih =>
    obtain ⟨hi, hnd⟩ := List.nodup_cons.mp hnd
    -- the later indices are still clear after setting `i`
    have hclear' : ∀ j ∈ is, (setBit bm i).testBit j = false := by
      intro j hj
      have hij : i ≠ j := fun h => hi (h ▸ hj)
      simp [hij, hclear j (List.mem_cons_of_mem _ hj)]
    rw [setBits_cons, ih (fun j hj => his j (List.mem_cons_of_mem _ hj)) hnd hclear',
      (ones_setBit_perm (his i List.mem_cons_self) (hclear i List.mem_cons_self)).length_eq]
    simp only [List.length_cons]
    omega

/-- Keeping the entries whose index bit is clear filters the entries, when
each index's bit says whether its entry goes. -/
theorem map_fst_filter_zipIdx {α : Type} (bm : Nat) (l : List α) (q : α → Bool) (n : Nat)
    (h : ∀ i (hi : i < l.length), bm.testBit (n + i) = !q l[i]) :
    ((l.zipIdx n).filter fun p => !bm.testBit p.2).map Prod.fst = l.filter q := by
  induction l generalizing n with
  | nil => rfl
  | cons a l ih =>
    have ha : bm.testBit n = !q a := h 0 (Nat.zero_lt_succ _)
    have hl : ∀ i (hi : i < l.length), bm.testBit (n + 1 + i) = !q l[i] := fun i hi => by
      have := h (i + 1) (Nat.succ_lt_succ hi)
      rwa [← Nat.add_assoc, Nat.add_right_comm] at this
    rw [List.zipIdx_cons, List.filter_cons, List.filter_cons, ha, Bool.not_not]
    cases q a
    · exact ih (n + 1) hl
    · rw [if_pos rfl, if_pos rfl, List.map_cons, ih (n + 1) hl]

end Bitmap
