import Mathlib

/-!
# Scans of a strictly descending list

A list of keys in strictly descending order, each with a weight, is read
from the top.  Two scans stop at the first key that passes a test:

* `firstReach f num`, which keeps a running total of the weights, stops at
  the first key where the total reaches `num`.  When the scan starts below
  `num`, that key is the greatest `x` whose keys `≥ x` weigh at least `num`
  (`firstReach_eq_some_iff`); it finds none exactly when no `x` does
  (`firstReach_eq_none_iff`);
* `List.find? p` stops at the greatest key satisfying `p`
  (`find?_eq_some_iff_isGreatest`).

So a descending scan computes a maximum over the whole order, not only over
the keys it visits.
-/

namespace DescendingScan

variable {α : Type} [LinearOrder α]

/-- The total weight of the keys `≥ x`. -/
def sumFrom (f : α → Nat) (rs : List α) (x : α) : Nat :=
  ((rs.filter fun r => x ≤ r).map f).sum

/-- The first key at which the running total of the weights, started at
`acc`, reaches `num`. -/
def firstReach (f : α → Nat) (num : Int) : List α → Int → Option α
  | [], _ => none
  | r :: rs, acc => if acc + f r ≥ num then some r else firstReach f num rs (acc + f r)

variable (f : α → Nat)

@[simp] theorem sumFrom_nil (x : α) : sumFrom f [] x = 0 := rfl

theorem sumFrom_cons_of_le {r x : α} (rs : List α) (h : x ≤ r) :
    sumFrom f (r :: rs) x = f r + sumFrom f rs x := by
  simp [sumFrom, h]

theorem sumFrom_cons_of_lt {r x : α} (rs : List α) (h : r < x) :
    sumFrom f (r :: rs) x = sumFrom f rs x := by
  simp [sumFrom, not_le.mpr h]

theorem sumFrom_eq_zero {rs : List α} {x : α} (h : ∀ r ∈ rs, r < x) : sumFrom f rs x = 0 := by
  have hnil : rs.filter (fun r => x ≤ r) = [] :=
    List.filter_eq_nil_iff.mpr fun r hr => by simpa using h r hr
  simp [sumFrom, hnil]

/-- Past a top key whose weight does not reach `num`, the scan's test at `x`
is the test of the rest of the list with that weight added to the total. -/
theorem reach_cons_iff {r₀ : α} {rs : List α} (hr₀ : ∀ r ∈ rs, r < r₀) {num acc : Int}
    (hacc : acc + f r₀ < num) (x : α) :
    num ≤ acc + sumFrom f (r₀ :: rs) x ↔ num ≤ acc + f r₀ + sumFrom f rs x := by
  by_cases hx : x ≤ r₀
  · rw [sumFrom_cons_of_le f rs hx]
    push_cast
    omega
  · -- above the top key nothing is left to count on either side
    have hlt : r₀ < x := lt_of_not_ge hx
    rw [sumFrom_cons_of_lt f rs hlt, sumFrom_eq_zero f fun r hr => (hr₀ r hr).trans hlt]
    push_cast
    omega

/-- At a top key whose weight reaches `num`, no `x` above it reaches `num`. -/
theorem isGreatest_reach_cons {r₀ : α} {rs : List α} (hr₀ : ∀ r ∈ rs, r < r₀) {num acc : Int}
    (hnum : acc < num) (hreach : acc + f r₀ ≥ num) :
    IsGreatest {x | num ≤ acc + sumFrom f (r₀ :: rs) x} r₀ := by
  constructor
  · show num ≤ acc + sumFrom f (r₀ :: rs) r₀
    rw [sumFrom_cons_of_le f rs le_rfl, sumFrom_eq_zero f hr₀]
    push_cast
    omega
  · intro x hx
    by_contra hlt
    have hzero : sumFrom f (r₀ :: rs) x = 0 := by
      rw [sumFrom_cons_of_lt f rs (lt_of_not_ge hlt)]
      exact sumFrom_eq_zero f fun r hr => (hr₀ r hr).trans (lt_of_not_ge hlt)
    have : num ≤ acc + sumFrom f (r₀ :: rs) x := hx
    rw [hzero] at this
    push_cast at this
    omega

theorem firstReach_eq_some_iff {rs : List α} (hrs : rs.Pairwise (· > ·)) {num acc : Int}
    (hacc : acc < num) (r : α) :
    firstReach f num rs acc = some r ↔ IsGreatest {x | num ≤ acc + sumFrom f rs x} r := by
  induction rs generalizing acc with
  | nil =>
    simp only [firstReach, reduceCtorEq, sumFrom_nil, false_iff]
    intro h
    have : num ≤ acc + 0 := h.1
    omega
  | cons r₀ rs ih =>
    obtain ⟨hr₀, hrs⟩ := List.pairwise_cons.mp hrs
    rw [firstReach]
    split_ifs with hreach
    · -- the scan stops at the top key
      have hg := isGreatest_reach_cons f hr₀ hacc hreach
      exact ⟨fun h => Option.some_inj.mp h ▸ hg, fun h => congrArg some (hg.unique h)⟩
    · have hlt : acc + f r₀ < num := lt_of_not_ge hreach
      rw [ih hrs hlt]
      have hset : {x | num ≤ acc + sumFrom f (r₀ :: rs) x} = {x | num ≤ acc + f r₀ + sumFrom f rs x} :=
        Set.ext (reach_cons_iff f hr₀ hlt)
      rw [hset]

theorem firstReach_eq_none_iff {rs : List α} (hrs : rs.Pairwise (· > ·)) {num acc : Int}
    (hacc : acc < num) : firstReach f num rs acc = none ↔ ∀ x, acc + sumFrom f rs x < num := by
  induction rs generalizing acc with
  | nil => exact ⟨fun _ _ => by simpa using hacc, fun _ => rfl⟩
  | cons r₀ rs ih =>
    obtain ⟨hr₀, hrs⟩ := List.pairwise_cons.mp hrs
    rw [firstReach]
    split_ifs with hreach
    · simp only [false_iff, not_forall, not_lt]
      exact ⟨r₀, (isGreatest_reach_cons f hr₀ hacc hreach).1⟩
    · have hlt : acc + f r₀ < num := lt_of_not_ge hreach
      rw [ih hrs hlt]
      exact forall_congr' fun x =>
        (not_le.symm.trans ((reach_cons_iff f hr₀ hlt x).not.trans not_le)).symm

/-- `find?` on a strictly descending list returns its greatest key
satisfying the test. -/
theorem find?_eq_some_iff_isGreatest {rs : List α} (hrs : rs.Pairwise (· > ·)) (p : α → Bool)
    (r : α) : rs.find? p = some r ↔ IsGreatest {x | x ∈ rs ∧ p x} r := by
  induction rs with
  | nil => simp [IsGreatest]
  | cons r₀ rs ih =>
    obtain ⟨hr₀, hrs⟩ := List.pairwise_cons.mp hrs
    by_cases hp : p r₀
    · -- the top key passes: it bounds every other key
      have hg : IsGreatest {x | x ∈ r₀ :: rs ∧ p x} r₀ := by
        refine ⟨⟨List.mem_cons_self, hp⟩, ?_⟩
        rintro x ⟨hx, -⟩
        rcases List.mem_cons.mp hx with rfl | hx
        · exact le_rfl
        · exact (hr₀ x hx).le
      rw [List.find?_cons_of_pos hp]
      exact ⟨fun h => Option.some_inj.mp h ▸ hg, fun h => congrArg some (hg.unique h)⟩
    · have hset : {x | x ∈ r₀ :: rs ∧ p x} = {x | x ∈ rs ∧ p x} := by
        ext x
        simp only [Set.mem_ofPred_eq, List.mem_cons]
        constructor
        · rintro ⟨rfl | hx, hpx⟩
          · exact absurd hpx hp
          · exact ⟨hx, hpx⟩
        · rintro ⟨hx, hpx⟩
          exact ⟨Or.inr hx, hpx⟩
      rw [List.find?_cons_of_neg hp, hset]
      exact ih hrs

end DescendingScan
