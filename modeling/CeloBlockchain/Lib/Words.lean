import Mathlib.Data.Nat.Digits.Lemmas

/-!
# Reading a number bit by bit from its words

A number is held as its base-`2^w` digits, least significant word first
(`Nat.digits (2 ^ w)`).  A loop over `i = 0, 1, …` reads bit `i` as the low
bit of word `i / w` and then shifts that word right by one.  Before step `i`
word `k` has lost its `min w (i - w k)` low bits (`shiftedWords`), so the
loop reads bit `i % w` of the original word `i / w`: bit `i` of the number
(`wordBit_digits`).

* `getElem?_shiftedWords_self`, `set_shiftedWords`, `shiftedWords_succ_of_le`:
  one step of the loop, with a word to read and past the last word.
* `wordBit_digits`: the bit read from the words is `Nat.testBit`.
-/

namespace Words

variable (w : Nat)

/-- Bit `n` of the number whose base-`2^w` digits are `ws`. -/
def wordBit (ws : List Nat) (n : Nat) : Bool := ws.getD (n / w) 0 / 2 ^ (n % w) % 2 = 1

/-- The words before step `i` of the loop: word `k` has lost the bits `w k`
to `i - 1`. -/
def shiftedWords (ws : List Nat) (i : Nat) : List Nat :=
  ws.mapIdx fun k x => x / 2 ^ min w (i - w * k)

theorem shiftedWords_zero (ws : List Nat) : shiftedWords w ws 0 = ws := by
  apply List.ext_getElem?
  intro k
  simp [shiftedWords, List.getElem?_mapIdx]

variable {w}

/-- Word `i / w` has lost exactly the `i % w` bits below bit `i`. -/
theorem min_sub_mul_div (hw : 0 < w) (i : Nat) : min w (i - w * (i / w)) = i % w := by
  have hmod := Nat.mod_lt i hw
  rw [← Nat.mod_eq_sub_mul_div]
  omega

/-- Step `i` shifts no word but word `i / w`. -/
theorem min_sub_mul_succ (hw : 0 < w) {i k : Nat} (hk : k ≠ i / w) :
    min w (i + 1 - w * k) = min w (i - w * k) := by
  have hle := Nat.mul_div_le i w
  have hlt : i < w * (i / w + 1) := Nat.lt_mul_div_succ i hw
  rcases Nat.lt_or_gt_of_ne hk with h | h
  · -- an earlier word has lost all its bits already
    have := Nat.mul_le_mul_left w (Nat.succ_le_of_lt h)
    rw [Nat.mul_succ] at this
    omega
  · -- a later word is not reached yet
    have := Nat.mul_le_mul_left w (show i / w + 1 ≤ k from h)
    omega

/-- The word step `i` reads has lost exactly its `i % w` low bits. -/
theorem getElem?_shiftedWords_self (hw : 0 < w) (ws : List Nat) (i : Nat) :
    (shiftedWords w ws i)[i / w]? = ws[i / w]?.map (· / 2 ^ (i % w)) := by
  simp only [shiftedWords, List.getElem?_mapIdx, min_sub_mul_div hw]

/-- Reading a bit and shifting its word right moves the loop on by one. -/
theorem set_shiftedWords (hw : 0 < w) {ws : List Nat} {i x : Nat} (hx : ws[i / w]? = some x) :
    (shiftedWords w ws i).set (i / w) (x / 2 ^ (i % w) / 2) = shiftedWords w ws (i + 1) := by
  apply List.ext_getElem?
  intro k
  rw [List.getElem?_set]
  by_cases hk : i / w = k
  · subst hk
    have hlen : i / w < (shiftedWords w ws i).length := by
      simp only [shiftedWords, List.length_mapIdx]
      exact (List.getElem?_eq_some_iff.mp hx).1
    have hmin : min w (i + 1 - w * (i / w)) = i % w + 1 := by
      have := Nat.mod_lt i hw
      have := Nat.mul_div_le i w
      rw [Nat.mod_eq_sub_mul_div] at *
      omega
    rw [if_pos rfl, if_pos hlen]
    simp only [shiftedWords, List.getElem?_mapIdx, hx, Option.map_some, hmin,
      Nat.div_div_eq_div_mul, Nat.pow_succ]
  · simp only [hk, if_false, shiftedWords, List.getElem?_mapIdx,
      min_sub_mul_succ hw (Ne.symm hk)]

/-- Past the last word the loop reads nothing and changes nothing. -/
theorem shiftedWords_succ_of_le (hw : 0 < w) {ws : List Nat} {i : Nat} (h : ws.length ≤ i / w) :
    shiftedWords w ws (i + 1) = shiftedWords w ws i := by
  apply List.ext_getElem?
  intro k
  simp only [shiftedWords, List.getElem?_mapIdx]
  cases hk : ws[k]? with
  | none => rfl
  | some x =>
    have hlt : k < ws.length := (List.getElem?_eq_some_iff.mp hk).1
    simp only [Option.map_some, min_sub_mul_succ hw (show k ≠ i / w by omega)]

/-- Read word by word, the base-`2^w` digits of `x` give the bits of `x`. -/
theorem wordBit_digits (hw : 0 < w) (x n : Nat) : wordBit w (Nat.digits (2 ^ w) x) n = x.testBit n := by
  have hdigit : (Nat.digits (2 ^ w) x).getD (n / w) 0 = x / (2 ^ w) ^ (n / w) % 2 ^ w :=
    Nat.getD_digits _ _ (Nat.one_lt_two_pow (Nat.pos_iff_ne_zero.mp hw))
  have hpow : (2 ^ w) ^ (n / w) = 2 ^ (n / w * w) := by rw [← Nat.pow_mul, Nat.mul_comm]
  have hn : n % w + n / w * w = n := by rw [Nat.mul_comm]; exact Nat.mod_add_div n w
  rw [wordBit, hdigit, hpow, ← Nat.testBit_eq_decide_div_mod_eq, Nat.testBit_mod_two_pow,
    Nat.testBit_div_two_pow, hn]
  simp [Nat.mod_lt n hw]

end Words
