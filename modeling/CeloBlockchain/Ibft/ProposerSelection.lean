import CeloBlockchain.Ibft.ValidatorSetDiff
import CeloBlockchain.Lib.BigEndian

/-!
# Proposer selection

This module models `random.Permutation` and `uniform`
(`consensus/istanbul/validator/random/random.go`) and
`ShuffledRoundRobinProposer` (`validator/selectors.go`). `RoundRobinProposer`
and `StickyProposer` are `roundRobinProposer` and `stickyProposer` of
`Ibft.Types`.

The SHAKE256 stream of a seed is a parameter: a function from the seed and
a position to a byte. `uniform` draws words until one is accepted. The Go
loop may run forever on a stream that never gives one, so the model allows
`fuel` rejections per draw and returns `none` past them. A shuffled
proposer is `none` as well when the draw does not end (`nil` is `none` for
an empty set).

For a validator set with distinct non-zero addresses and a round `r` with
`r + 2n < 2^64`, so that no index sum wraps at `2^64`:
* the selector of the previous proposer at round 0 is the selector at
  round `r + 1` for the round-robin policies
  (`roundRobinProposer_next`, `shuffledRoundRobinProposer_next`), and the
  same proposer for the sticky one (`stickyProposer_again`);
* `n` consecutive rounds give every validator once
  (`roundRobinProposer_rounds_perm`, `shuffledRoundRobinProposer_rounds_perm`),
  since `Permutation` returns a permutation of `[0, n)` whenever it returns
  (`permutation_perm`).

`proposerSelectors_stable_rotation` collects these. Both premises are
needed (`proposerSelectors_rotation_breaks`). The zero address stands for
"no previous proposer", so a validator at the zero address is followed by
the start of the rotation. The index is a `uint64` sum, so with only
`r + n < 2^64` the rotation can wrap back to the first validator early.
-/

namespace CeloBlockchain.Ibft

open BigEndian

/-! ## `random` -/

/-- `randUint64`: the next 8 bytes of the stream, big-endian, and the
position after them. -/
def randUint64 (randomness : Nat → UInt8) (pos : Nat) : Nat × Nat :=
  (ofBytes ((List.range 8).map fun i => randomness (pos + i)), pos + 8)

/-- The loop of `uniform` on a drawn word `x`: `x` is accepted unless
`x - r > -k` in `uint64` arithmetic; each rejection draws again, at most
`fuel` times. -/
def uniformLoop (randomness : Nat → UInt8) (k : Nat) : Nat → Nat → Nat → Option (Nat × Nat)
  | 0, x, pos => if x - x % k > uint64 (2 ^ 64 - k) then none else some (x % k, pos)
  | fuel + 1, x, pos =>
    if x - x % k > uint64 (2 ^ 64 - k) then
      uniformLoop randomness k fuel (randUint64 randomness pos).1 (randUint64 randomness pos).2
    else some (x % k, pos)

/-- `uniform`: an integer in `[0, k)` and the position after the words
drawn. -/
def uniform (randomness : Nat → UInt8) (k fuel pos : Nat) : Option (Nat × Nat) :=
  uniformLoop randomness k fuel (randUint64 randomness pos).1 (randUint64 randomness pos).2

/-- Swap the entries at `i` and `j`. -/
def swapAt (array : List Nat) (i j : Nat) : List Nat :=
  (array.set i (array.getD j 0)).set j (array.getD i 0)

/-- `Permutation`: the Fisher-Yates shuffle of `[0, n)`, swapping entry `i`
with an entry drawn from `[i, n)`, for `i < n - 1`. -/
def permutation (randomness : Nat → UInt8) (n fuel : Nat) : Option (List Nat) :=
  if n = 0 then some []
  else
    ((List.range (n - 1)).foldlM (fun (state : List Nat × Nat) i => do
        let (r, pos) ← uniform randomness (n - i) fuel state.2
        pure (swapAt state.1 i (i + r), pos))
      (List.range n, 0)).map Prod.fst

/-! ## The shuffled selector -/

/-- The `reverse` array of `ShuffledRoundRobinProposer`: `reverse[n] = i`
for each entry `n` at index `i` of the shuffle. -/
def reverseOf (shuffle : List Nat) : List Nat :=
  shuffle.zipIdx.foldl (fun reverse p => reverse.set p.1 p.2) (List.replicate shuffle.length 0)

/-- `ShuffledRoundRobinProposer`: round robin in the order of the shuffle
drawn from the set's randomness. -/
def shuffledRoundRobinProposer (shake256 : Nat → Nat → UInt8) (fuel : Nat) (vs : ValidatorSet)
    (proposer : Address) (round : Nat) : Option Validator :=
  if vs.size = 0 then none
  else do
    let shuffle ← permutation (shake256 vs.randomness) vs.size fuel
    let reverse := reverseOf shuffle
    let idx := uint64 (round +
      if proposer ≠ 0 then (reverse.getD (proposerIndex vs proposer) 0) + 1 else 0)
    vs.list[shuffle.getD (idx % vs.size) 0]?

/-! ## `uniform` and `Permutation` -/

section Random

variable (randomness : Nat → UInt8)

/-- `uniform(k) < k`, whatever the stream. -/
theorem uniformLoop_lt {k : Nat} (hk : 0 < k) :
    ∀ {fuel x pos r pos'}, uniformLoop randomness k fuel x pos = some (r, pos') → r < k := by
  intro fuel
  induction fuel with
  | zero =>
    intro x pos r pos' h
    simp only [uniformLoop] at h
    split at h
    · cases h
    · cases h
      exact Nat.mod_lt _ hk
  | succ fuel ih =>
    intro x pos r pos' h
    simp only [uniformLoop] at h
    split at h
    · exact ih h
    · cases h
      exact Nat.mod_lt _ hk

theorem uniform_lt {k fuel pos r pos' : Nat} (hk : 0 < k)
    (h : uniform randomness k fuel pos = some (r, pos')) : r < k :=
  uniformLoop_lt randomness hk h

theorem swapAt_perm {array : List Nat} {i j : Nat} (hi : i < array.length) (hj : j < array.length) :
    (swapAt array i j).Perm array := by
  rw [swapAt, List.getD_eq_getElem _ _ hj, List.getD_eq_getElem _ _ hi]
  exact List.set_set_perm hi hj

/-- Each step of the shuffle swaps two entries of `[0, n)`, so the array
stays a permutation of `[0, n)`. -/
theorem foldlM_shuffle_perm {n fuel : Nat} :
    ∀ (is : List Nat) (state : List Nat × Nat) (result : List Nat × Nat),
      (∀ i ∈ is, i < n) → state.1.Perm (List.range n) →
      is.foldlM (fun (state : List Nat × Nat) i => do
          let (r, pos) ← uniform randomness (n - i) fuel state.2
          pure (swapAt state.1 i (i + r), pos)) state = some result →
      result.1.Perm (List.range n) := by
  intro is
  induction is with
  | nil =>
    intro state result _ hperm h
    cases h
    exact hperm
  | cons i is ih =>
    intro state result his hperm h
    rw [List.foldlM_cons] at h
    -- the draw of step `i`
    cases hu : uniform randomness (n - i) fuel state.2 with
    | none => simp [hu] at h
    | some draw =>
      obtain ⟨r, pos⟩ := draw
      simp only [hu, Option.bind_eq_bind, Option.bind_some, Option.pure_def] at h
      have hi : i < n := his i (List.mem_cons_self ..)
      have hr : r < n - i := uniform_lt randomness (by omega) hu
      have hlen : state.1.length = n := by simpa using hperm.length_eq
      have hswap : (swapAt state.1 i (i + r)).Perm (List.range n) :=
        (swapAt_perm (by omega) (by omega)).trans hperm
      exact ih _ result (fun j hj => his j (List.mem_cons_of_mem _ hj)) hswap h

/-- `Permutation` returns a permutation of `[0, n)` whenever it returns. -/
theorem permutation_perm {n fuel : Nat} {shuffle : List Nat}
    (h : permutation randomness n fuel = some shuffle) : shuffle.Perm (List.range n) := by
  unfold permutation at h
  split at h
  · rename_i hn
    cases h
    simp [hn]
  · obtain ⟨result, hfold, rfl⟩ := Option.map_eq_some_iff.mp h
    exact foldlM_shuffle_perm randomness _ _ result
      (fun i hi => by simp at hi; omega) (List.Perm.refl _) hfold

end Random

/-! ## The inverse of the shuffle -/

theorem getElem?_foldl_set_of_not_mem (ps : List (Nat × Nat)) (b : List Nat) {v : Nat}
    (hv : v ∉ ps.map Prod.fst) : (ps.foldl (fun r p => r.set p.1 p.2) b)[v]? = b[v]? := by
  induction ps generalizing b with
  | nil => rfl
  | cons q qs ih =>
    rw [List.foldl_cons, ih _ (fun h => hv (List.mem_cons_of_mem _ h)), List.getElem?_set_ne]
    exact fun h => hv (h ▸ List.mem_map_of_mem (List.mem_cons_self ..))

/-- Setting entries at distinct positions leaves each set value in place. -/
theorem getElem?_foldl_set (ps : List (Nat × Nat)) (b : List Nat) (hnd : (ps.map Prod.fst).Nodup)
    (hlt : ∀ p ∈ ps, p.1 < b.length) :
    ∀ p ∈ ps, (ps.foldl (fun r p => r.set p.1 p.2) b)[p.1]? = some p.2 := by
  induction ps generalizing b with
  | nil => intro p hp; cases hp
  | cons q qs ih =>
    intro p hp
    have hnd' := List.nodup_cons.mp hnd
    rw [List.foldl_cons]
    rcases List.mem_cons.mp hp with rfl | hp
    · rw [getElem?_foldl_set_of_not_mem _ _ hnd'.1,
        List.getElem?_set_self (hlt p (List.mem_cons_self ..))]
    · exact ih _ hnd'.2 (fun p' hp' => by rw [List.length_set]; exact hlt p' (List.mem_cons_of_mem _ hp'))
        p hp

theorem map_fst_zipIdx (l : List Nat) : l.zipIdx.map Prod.fst = l := by
  apply List.ext_getElem (by simp)
  intro i h₁ h₂
  simp

/-- `reverse` inverts the shuffle. -/
theorem getD_reverseOf {shuffle : List Nat} {n : Nat} (h : shuffle.Perm (List.range n)) {i : Nat}
    (hi : i < n) : (reverseOf shuffle).getD (shuffle.getD i 0) 0 = i := by
  have hlen : shuffle.length = n := by simpa using h.length_eq
  have hi' : i < shuffle.length := hlen ▸ hi
  have hmem : (shuffle[i], i) ∈ shuffle.zipIdx := by
    have hz : i < shuffle.zipIdx.length := by simp [hlen, hi]
    have := List.getElem_mem hz
    rwa [List.getElem_zipIdx, Nat.zero_add] at this
  have hset := getElem?_foldl_set shuffle.zipIdx (List.replicate shuffle.length 0)
    (by rw [map_fst_zipIdx]; exact h.nodup_iff.mpr List.nodup_range)
    (fun p hp => by
      obtain ⟨-, hpi, hp1⟩ := List.mem_zipIdx hp
      rw [List.length_replicate, hp1, hlen]
      exact List.mem_range.mp (h.subset (List.getElem_mem _)))
    _ hmem
  rw [reverseOf, List.getD_eq_getElem?_getD, List.getD_eq_getElem _ _ (hlen ▸ hi), hset]
  rfl

/-- Every entry of `reverse` at an index below `n` is below `n`. -/
theorem getD_reverseOf_lt {shuffle : List Nat} {n : Nat} (h : shuffle.Perm (List.range n)) {j : Nat}
    (hj : j < n) : (reverseOf shuffle).getD j 0 < n := by
  have hjmem : j ∈ shuffle := h.symm.subset (List.mem_range.mpr hj)
  obtain ⟨i, hi, rfl⟩ := List.mem_iff_getElem.mp hjmem
  have hlen : shuffle.length = n := by simpa using h.length_eq
  have := getD_reverseOf h (hlen ▸ hi)
  rw [List.getD_eq_getElem _ _ hi] at this
  rw [this]
  omega

/-- An entry of a permutation of `[0, n)` at an index below `n` is below `n`. -/
theorem getD_lt_of_perm {shuffle : List Nat} {n : Nat} (h : shuffle.Perm (List.range n)) {m : Nat}
    (hm : m < n) : shuffle.getD m 0 < n := by
  have hlen : shuffle.length = n := by simpa using h.length_eq
  rw [List.getD_eq_getElem _ _ (hlen ▸ hm)]
  exact List.mem_range.mp (h.subset (List.getElem_mem _))

/-! ## Indices and rotations -/

theorem proposerIndex_getElem {vs : ValidatorSet} (h : DistinctAddresses vs.list) {i : Nat}
    (hi : i < vs.list.length) : proposerIndex vs vs.list[i].address = i := by
  have hnd : vs.list.Nodup := h.nodup.of_map _
  have hfind : vs.list.findIdx? (·.address == vs.list[i].address) = some i := by
    rw [List.findIdx?_eq_some_iff_getElem]
    refine ⟨hi, by simp, fun j hji => ?_⟩
    have hj : j < vs.list.length := by omega
    simp only [beq_iff_eq]
    intro heq
    -- an earlier validator with the same address is the same validator
    have hsame : vs.list[j] = vs.list[i] :=
      h.eq_of_address_eq (List.getElem_mem hj) (List.getElem_mem hi) heq
    have := (hnd.getElem_inj_iff).mp hsame
    omega
  rw [proposerIndex, hfind]

theorem proposerIndex_lt {vs : ValidatorSet} (hpos : 0 < vs.size) (p : Address) :
    proposerIndex vs p < vs.size := by
  unfold proposerIndex
  split
  · rename_i i hi
    obtain ⟨hlt, -⟩ := List.findIdx?_eq_some_iff_getElem.mp hi
    exact hlt
  · exact hpos

/-- Consecutive indices modulo `n`, from any start, are `[0, n)` rotated. -/
theorem range_map_add_mod_perm (c n : Nat) :
    ((List.range n).map fun j => (c + j) % n).Perm (List.range n) := by
  rcases Nat.eq_zero_or_pos n with rfl | hn
  · simp
  apply List.Subperm.perm_of_length_le _ (by simp)
  apply List.subperm_of_subset
  · -- distinct offsets give distinct residues
    rw [List.nodup_map_iff_inj_on List.nodup_range]
    intro a ha b hb hab
    have hmod : a % n = b % n := Nat.ModEq.add_left_cancel' c hab
    rw [List.mem_range] at ha hb
    rwa [Nat.mod_eq_of_lt ha, Nat.mod_eq_of_lt hb] at hmod
  · intro x hx
    obtain ⟨j, -, rfl⟩ := List.mem_map.mp hx
    exact List.mem_range.mpr (Nat.mod_lt _ hn)

theorem map_getElem?_range (l : List Validator) :
    (List.range l.length).map (fun i => l[i]?) = l.map some := by
  apply List.ext_getElem (by simp)
  intro i h₁ h₂
  simp

theorem map_getD_range (l : List Nat) (f : Nat → Option Validator) :
    (List.range l.length).map (fun m => f (l.getD m 0)) = l.map f := by
  apply List.ext_getElem (by simp)
  intro i h₁ h₂
  simp only [List.getElem_map, List.getElem_range]
  rw [List.getD_eq_getElem _ _ (by simpa using h₁)]

/-! ## The selectors away from `uint64` wrap-around -/

section Selectors

variable {vs : ValidatorSet} (hpos : 0 < vs.size)
include hpos

theorem roundRobinProposer_eq (p : Address) {r : Nat} (hr : r + vs.size < 2 ^ 64) :
    roundRobinProposer vs p r =
      vs.list[(r + if p ≠ 0 then proposerIndex vs p + 1 else 0) % vs.size]? := by
  have hoff : (if p ≠ 0 then proposerIndex vs p + 1 else 0) ≤ vs.size := by
    split
    · exact proposerIndex_lt hpos p
    · exact Nat.zero_le _
  have hlt : (r + if p ≠ 0 then proposerIndex vs p + 1 else 0) < 2 ^ 64 := by omega
  rw [roundRobinProposer, if_neg (Nat.pos_iff_ne_zero.mp hpos)]
  dsimp only
  rw [uint64, Nat.mod_eq_of_lt hlt]

theorem stickyProposer_eq (p : Address) {r : Nat} (hr : r + vs.size < 2 ^ 64) :
    stickyProposer vs p r = vs.list[(r + if p ≠ 0 then proposerIndex vs p else 0) % vs.size]? := by
  have hoff : (if p ≠ 0 then proposerIndex vs p else 0) ≤ vs.size := by
    split
    · exact (proposerIndex_lt hpos p).le
    · exact Nat.zero_le _
  have hlt : (r + if p ≠ 0 then proposerIndex vs p else 0) < 2 ^ 64 := by omega
  rw [stickyProposer, if_neg (Nat.pos_iff_ne_zero.mp hpos)]
  dsimp only
  rw [uint64, Nat.mod_eq_of_lt hlt]

theorem shuffledRoundRobinProposer_eq (shake256 : Nat → Nat → UInt8) (fuel : Nat) {shuffle : List Nat}
    (hshuffle : permutation (shake256 vs.randomness) vs.size fuel = some shuffle) (p : Address) {r : Nat}
    (hr : r + vs.size < 2 ^ 64) :
    shuffledRoundRobinProposer shake256 fuel vs p r =
      vs.list[shuffle.getD ((r + if p ≠ 0 then (reverseOf shuffle).getD (proposerIndex vs p) 0 + 1 else 0) %
        vs.size) 0]? := by
  have hperm := permutation_perm _ hshuffle
  have hoff : (if p ≠ 0 then (reverseOf shuffle).getD (proposerIndex vs p) 0 + 1 else 0) ≤ vs.size := by
    split
    · exact getD_reverseOf_lt hperm (proposerIndex_lt hpos p)
    · exact Nat.zero_le _
  have hlt : (r + if p ≠ 0 then (reverseOf shuffle).getD (proposerIndex vs p) 0 + 1 else 0) < 2 ^ 64 := by
    omega
  rw [shuffledRoundRobinProposer, if_neg (Nat.pos_iff_ne_zero.mp hpos), hshuffle]
  simp only [Option.bind_eq_bind, Option.bind_some]
  rw [uint64, Nat.mod_eq_of_lt hlt]

theorem roundRobinProposer_isSome (p : Address) {r : Nat} (hr : r + vs.size < 2 ^ 64) :
    ∃ q, roundRobinProposer vs p r = some q := by
  rw [roundRobinProposer_eq hpos p hr]
  exact ⟨_, List.getElem?_eq_getElem (Nat.mod_lt _ hpos)⟩

theorem stickyProposer_isSome (p : Address) {r : Nat} (hr : r + vs.size < 2 ^ 64) :
    ∃ q, stickyProposer vs p r = some q := by
  rw [stickyProposer_eq hpos p hr]
  exact ⟨_, List.getElem?_eq_getElem (Nat.mod_lt _ hpos)⟩

/-- Once the shuffle is drawn, the shuffled selector names a validator. -/
theorem shuffledRoundRobinProposer_isSome (shake256 : Nat → Nat → UInt8) (fuel : Nat)
    {shuffle : List Nat} (hshuffle : permutation (shake256 vs.randomness) vs.size fuel = some shuffle)
    (p : Address) {r : Nat} (hr : r + vs.size < 2 ^ 64) :
    ∃ q, shuffledRoundRobinProposer shake256 fuel vs p r = some q := by
  rw [shuffledRoundRobinProposer_eq hpos shake256 fuel hshuffle p hr]
  exact ⟨_, List.getElem?_eq_getElem
    (getD_lt_of_perm (permutation_perm _ hshuffle) (Nat.mod_lt _ hpos))⟩

theorem shuffledRoundRobinProposer_drawn {shake256 : Nat → Nat → UInt8} {fuel : Nat} {p : Address}
    {r : Nat} {q : Validator} (hq : shuffledRoundRobinProposer shake256 fuel vs p r = some q) :
    ∃ shuffle, permutation (shake256 vs.randomness) vs.size fuel = some shuffle := by
  cases hshuffle : permutation (shake256 vs.randomness) vs.size fuel with
  | none =>
    rw [shuffledRoundRobinProposer, if_neg (Nat.pos_iff_ne_zero.mp hpos), hshuffle] at hq
    cases hq
  | some shuffle => exact ⟨shuffle, rfl⟩

/-- `n` consecutive rounds of round robin give every validator once. -/
theorem roundRobinProposer_rounds_perm (p : Address) {r : Nat} (hr : r + 2 * vs.size < 2 ^ 64) :
    ((List.range vs.size).map fun j => roundRobinProposer vs p (r + j)).Perm (vs.list.map some) := by
  have hsize : vs.size = vs.list.length := rfl
  have hrounds : (List.range vs.size).map (fun j => roundRobinProposer vs p (r + j)) =
      ((List.range vs.size).map fun j =>
        ((r + if p ≠ 0 then proposerIndex vs p + 1 else 0) + j) % vs.size).map (fun i => vs.list[i]?) := by
    rw [List.map_map]
    apply List.map_congr_left
    intro j hj
    rw [List.mem_range] at hj
    rw [roundRobinProposer_eq hpos p (by omega), Function.comp_apply, Nat.add_right_comm]
  rw [hrounds, ← map_getElem?_range, ← hsize]
  exact (range_map_add_mod_perm _ _).map _

/-- When the shuffle is drawn, `n` consecutive rounds of shuffled round
robin give every validator once. -/
theorem shuffledRoundRobinProposer_rounds_perm (shake256 : Nat → Nat → UInt8) (fuel : Nat)
    {shuffle : List Nat} (hshuffle : permutation (shake256 vs.randomness) vs.size fuel = some shuffle)
    (p : Address) {r : Nat} (hr : r + 2 * vs.size < 2 ^ 64) :
    ((List.range vs.size).map fun j => shuffledRoundRobinProposer shake256 fuel vs p (r + j)).Perm
      (vs.list.map some) := by
  have hperm := permutation_perm _ hshuffle
  have hlen : shuffle.length = vs.size := by simpa using hperm.length_eq
  have hsize : vs.size = vs.list.length := rfl
  have hrounds : (List.range vs.size).map (fun j => shuffledRoundRobinProposer shake256 fuel vs p (r + j)) =
      ((List.range vs.size).map fun j =>
        ((r + if p ≠ 0 then (reverseOf shuffle).getD (proposerIndex vs p) 0 + 1 else 0) + j) %
          vs.size).map (fun m => vs.list[shuffle.getD m 0]?) := by
    rw [List.map_map]
    apply List.map_congr_left
    intro j hj
    rw [List.mem_range] at hj
    rw [shuffledRoundRobinProposer_eq hpos shake256 fuel hshuffle p (by omega), Function.comp_apply,
      Nat.add_right_comm]
  -- rotate, then undo the shuffle
  have hshuffled : ((List.range vs.size).map fun m => vs.list[shuffle.getD m 0]?).Perm
      ((List.range vs.size).map fun i => vs.list[i]?) := by
    rw [← hlen, map_getD_range shuffle (fun i => vs.list[i]?), hlen]
    exact hperm.map _
  rw [hrounds]
  refine ((range_map_add_mod_perm _ _).map _).trans (hshuffled.trans ?_)
  rw [hsize, map_getElem?_range]

variable (hvs : DistinctAddresses vs.list)
include hvs

/-- **Round robin.** The proposer after `q` at round 0 is the proposer of
the next round. -/
theorem roundRobinProposer_next {p : Address} {r : Nat} (hr : r + vs.size + 1 < 2 ^ 64) {q : Validator}
    (hq : roundRobinProposer vs p r = some q) :
    roundRobinProposer vs q.address 0 = roundRobinProposer vs p (r + 1) := by
  rw [roundRobinProposer_eq hpos p (by omega)] at hq
  obtain ⟨hk, hqk⟩ := List.getElem?_eq_some_iff.mp hq
  have hq0 : q.address ≠ 0 := hvs.ne_zero q (hqk ▸ List.getElem_mem hk)
  rw [roundRobinProposer_eq hpos _ (by omega), roundRobinProposer_eq hpos p (by omega), if_pos hq0,
    ← hqk, proposerIndex_getElem hvs hk, Nat.zero_add, Nat.mod_add_mod, Nat.add_right_comm r 1]

/-- **Sticky.** The proposer after `q` at round 0 is `q` again. -/
theorem stickyProposer_again {p : Address} {r : Nat} (hr : r + vs.size < 2 ^ 64) {q : Validator}
    (hq : stickyProposer vs p r = some q) : stickyProposer vs q.address 0 = some q := by
  rw [stickyProposer_eq hpos p hr] at hq
  obtain ⟨hk, hqk⟩ := List.getElem?_eq_some_iff.mp hq
  have hq0 : q.address ≠ 0 := hvs.ne_zero q (hqk ▸ List.getElem_mem hk)
  rw [stickyProposer_eq hpos _ (by omega), if_pos hq0, ← hqk, proposerIndex_getElem hvs hk,
    Nat.zero_add, Nat.mod_mod, List.getElem?_eq_getElem hk]

/-- **Shuffled round robin.** The proposer after `q` at round 0 is the
proposer of the next round. -/
theorem shuffledRoundRobinProposer_next (shake256 : Nat → Nat → UInt8) (fuel : Nat) {p : Address}
    {r : Nat} (hr : r + vs.size + 1 < 2 ^ 64) {q : Validator}
    (hq : shuffledRoundRobinProposer shake256 fuel vs p r = some q) :
    shuffledRoundRobinProposer shake256 fuel vs q.address 0 =
      shuffledRoundRobinProposer shake256 fuel vs p (r + 1) := by
  obtain ⟨shuffle, hshuffle⟩ := shuffledRoundRobinProposer_drawn hpos hq
  have hperm := permutation_perm _ hshuffle
  have hlen : shuffle.length = vs.size := by simpa using hperm.length_eq
  rw [shuffledRoundRobinProposer_eq hpos shake256 fuel hshuffle p (by omega)] at hq
  -- `q` is the validator at the shuffled index of position `m`
  generalize hm : (r + if p ≠ 0 then (reverseOf shuffle).getD (proposerIndex vs p) 0 + 1 else 0) %
    vs.size = m at hq
  have hmlt : m < vs.size := hm ▸ Nat.mod_lt _ hpos
  obtain ⟨ht, hqt⟩ := List.getElem?_eq_some_iff.mp hq
  have hq0 : q.address ≠ 0 := hvs.ne_zero q (hqt ▸ List.getElem_mem ht)
  rw [shuffledRoundRobinProposer_eq hpos shake256 fuel hshuffle _ (by omega),
    shuffledRoundRobinProposer_eq hpos shake256 fuel hshuffle p (by omega), if_pos hq0,
    ← hqt, proposerIndex_getElem hvs ht, getD_reverseOf hperm hmlt, Nat.zero_add, ← hm, Nat.mod_add_mod,
    Nat.add_right_comm r 1]

end Selectors

/-! ## The rotation laws -/

/-- With distinct non-zero addresses and rounds far enough below `2^64`:
round robin and shuffled round robin advance by one position per round,
and `n` rounds name every validator once; sticky keeps the proposer; and
the shuffle behind the shuffled selector is a permutation drawn with
`uniform(k) < k`. -/
theorem proposerSelectors_stable_rotation (vs : ValidatorSet) (hpos : 0 < vs.size)
    (hvs : DistinctAddresses vs.list) (shake256 : Nat → Nat → UInt8) (fuel : Nat) (p : Address)
    (r : Nat) (hr : r + 2 * vs.size < 2 ^ 64) :
    (∃ q, roundRobinProposer vs p r = some q ∧
      roundRobinProposer vs q.address 0 = roundRobinProposer vs p (r + 1)) ∧
    ((List.range vs.size).map fun j => roundRobinProposer vs p (r + j)).Perm (vs.list.map some) ∧
    (∀ shuffle, permutation (shake256 vs.randomness) vs.size fuel = some shuffle →
      (∃ q, shuffledRoundRobinProposer shake256 fuel vs p r = some q ∧
        shuffledRoundRobinProposer shake256 fuel vs q.address 0 =
          shuffledRoundRobinProposer shake256 fuel vs p (r + 1)) ∧
      ((List.range vs.size).map fun j => shuffledRoundRobinProposer shake256 fuel vs p (r + j)).Perm
        (vs.list.map some)) ∧
    (∃ q, stickyProposer vs p r = some q ∧ stickyProposer vs q.address 0 = some q) ∧
    (∀ seed n shuffle, permutation (shake256 seed) n fuel = some shuffle →
      shuffle.Perm (List.range n)) ∧
    (∀ seed k pos x pos', 0 < k → uniform (shake256 seed) k fuel pos = some (x, pos') → x < k) := by
  have hr₁ : r + vs.size < 2 ^ 64 := by omega
  have hr₂ : r + vs.size + 1 < 2 ^ 64 := by omega
  refine ⟨?_, roundRobinProposer_rounds_perm hpos p hr, fun shuffle hshuffle => ⟨?_,
    shuffledRoundRobinProposer_rounds_perm hpos shake256 fuel hshuffle p hr⟩, ?_,
    fun seed _ _ h => permutation_perm _ h, fun seed _ _ _ _ hk h => uniform_lt _ hk h⟩
  · obtain ⟨q, hq⟩ := roundRobinProposer_isSome hpos p hr₁
    exact ⟨q, hq, roundRobinProposer_next hpos hvs hr₂ hq⟩
  · obtain ⟨q, hq⟩ := shuffledRoundRobinProposer_isSome hpos shake256 fuel hshuffle p hr₁
    exact ⟨q, hq, shuffledRoundRobinProposer_next hpos hvs shake256 fuel hr₂ hq⟩
  · obtain ⟨q, hq⟩ := stickyProposer_isSome hpos p hr₁
    exact ⟨q, hq, stickyProposer_again hpos hvs hr₁ hq⟩

/-- Three validators with addresses `1, 2, 3`. -/
def rotationSet : ValidatorSet := ⟨[⟨1, 11⟩, ⟨2, 22⟩, ⟨3, 33⟩], 0⟩

/-- A byte stream of zeros: every draw is accepted at once. -/
def zeroStream : Nat → Nat → UInt8 := fun _ _ => 0

/-- The laws at `rotationSet`, with the zero stream, after proposer `1`
at round `0`. -/
theorem proposerSelectors_stable_rotation_three :
    0 < rotationSet.size ∧ DistinctAddresses rotationSet.list ∧ 0 + 2 * rotationSet.size < 2 ^ 64 ∧
    ((∃ q, roundRobinProposer rotationSet 1 0 = some q ∧
      roundRobinProposer rotationSet q.address 0 = roundRobinProposer rotationSet 1 (0 + 1)) ∧
    ((List.range rotationSet.size).map fun j => roundRobinProposer rotationSet 1 (0 + j)).Perm
      (rotationSet.list.map some) ∧
    (∀ shuffle, permutation (zeroStream rotationSet.randomness) rotationSet.size 1 = some shuffle →
      (∃ q, shuffledRoundRobinProposer zeroStream 1 rotationSet 1 0 = some q ∧
        shuffledRoundRobinProposer zeroStream 1 rotationSet q.address 0 =
          shuffledRoundRobinProposer zeroStream 1 rotationSet 1 (0 + 1)) ∧
      ((List.range rotationSet.size).map fun j =>
        shuffledRoundRobinProposer zeroStream 1 rotationSet 1 (0 + j)).Perm
        (rotationSet.list.map some)) ∧
    (∃ q, stickyProposer rotationSet 1 0 = some q ∧ stickyProposer rotationSet q.address 0 = some q) ∧
    (∀ seed n shuffle, permutation (zeroStream seed) n 1 = some shuffle →
      shuffle.Perm (List.range n)) ∧
    (∀ seed k pos x pos', 0 < k → uniform (zeroStream seed) k 1 pos = some (x, pos') → x < k)) :=
  ⟨by decide, by decide, by decide,
    proposerSelectors_stable_rotation rotationSet (by decide) (by decide) zeroStream 1 1 0 (by decide)⟩

/-- Two validators, the first at the zero address. -/
def zeroFirstSet : ValidatorSet := ⟨[⟨0, 10⟩, ⟨1, 11⟩], 0⟩

/-- Two validators, the second at the zero address. -/
def zeroSecondSet : ValidatorSet := ⟨[⟨1, 11⟩, ⟨0, 10⟩], 0⟩

/-- Where the laws fail. A validator at the zero address is read as "no
previous proposer", so advancing from it restarts the rotation (round robin)
or moves it (sticky). And with only `r + n < 2^64`, the index sum wraps at
`2^64`: after proposer `3` at round `2^64 - 4`, round robin names `1` twice
in three rounds. -/
theorem proposerSelectors_rotation_breaks :
    roundRobinProposer zeroFirstSet 0 0 = some ⟨0, 10⟩ ∧
      roundRobinProposer zeroFirstSet 0 0 ≠ roundRobinProposer zeroFirstSet 0 (0 + 1) ∧
    stickyProposer zeroSecondSet 0 1 = some ⟨0, 10⟩ ∧
      stickyProposer zeroSecondSet 0 0 ≠ some ⟨0, 10⟩ ∧
    (2 ^ 64 - 4) + rotationSet.size < 2 ^ 64 ∧
      roundRobinProposer rotationSet 3 (2 ^ 64 - 4) = some ⟨1, 11⟩ ∧
      roundRobinProposer rotationSet 1 0 ≠ roundRobinProposer rotationSet 3 (2 ^ 64 - 4 + 1) ∧
      (List.range rotationSet.size).map (fun j => roundRobinProposer rotationSet 3 (2 ^ 64 - 4 + j)) =
        [some ⟨1, 11⟩, some ⟨1, 11⟩, some ⟨2, 22⟩] := by
  refine ⟨by decide, by decide, by decide, by decide, by decide, by decide, by decide, by decide⟩

end CeloBlockchain.Ibft
