import CeloBlockchain.Vm.FractionMulExp
import Mathlib.Algebra.Order.Floor.Semifield
import Mathlib.Data.Rat.Floor

/-!
# What `fractionMulExp` computes

On an input of 192 bytes the six arguments always parse, and the
zero-denominator guard never fires (`run_of_length`).

* `zero_denominator_panics`: a zero denominator reaches `big.Int.Div` by zero,
  a Go panic, where an error was meant.
* `run_returns_fractionResult`: otherwise `Run` succeeds. Its output is two
  32-byte words exactly when the scaled fraction
  `⌊aNumerator / aDenominator * (bNumerator / bDenominator) ^ exponent *
  10 ^ decimals⌋` and `10 ^ decimals` are below `2 ^ 256` (`fractionResult`),
  and the words are then those two numbers. When one is not, the output is
  wider, not an error.
-/

namespace CeloBlockchain.Vm

open BigEndian

/-- Argument `k` of the input: the big-endian word `input[32k : 32k + 32]`. -/
def word (input : List UInt8) (k : Nat) : Nat := ofBytes (slice input (32 * k) (32 * k + 32))

theorem length_slice {input : List UInt8} {a b : Nat} (hb : b ≤ input.length) :
    (slice input a b).length = b - a := by
  simp [slice]
  omega

/-- A 32-byte slice always parses. -/
theorem parseBig256_of_length {bytes : List UInt8} (h : bytes.length = 32) :
    parseBig256 bytes = some (ofBytes bytes) := by
  have hlt := ofBytes_lt bytes
  rw [h] at hlt
  have hne : bytes ≠ [] := by rintro rfl; simp at h
  rw [parseBig256, if_neg hne, if_neg (by norm_num at hlt ⊢; omega)]

theorem parseBig256_word {input : List UInt8} (hlen : input.length = 192) {k : Nat} (hk : k < 6) :
    parseBig256 (slice input (32 * k) (32 * k + 32)) = some (word input k) :=
  parseBig256_of_length (by rw [length_slice (by omega)]; omega)

/-- `Run` on an input of the right length: the arguments always parse, and
the zero-denominator guard never fires. -/
theorem run_of_length (isGingerbread : Bool) {input : List UInt8} (hlen : input.length = 192) :
    run isGingerbread input =
      if !isInt64 (word input 5) || !isInt64 (word input 4) ||
          max (word input 5) (word input 4) > 100000 then .error .tooLarge
      else if word input 1 * word input 3 ^ word input 4 = 0 then .error .panic
      else .ok (leftPadBytes (toBytes (word input 0 * word input 2 ^ word input 4 *
          10 ^ word input 5 / (word input 1 * word input 3 ^ word input 4))) 32 ++
        leftPadBytes (toBytes (10 ^ word input 5)) 32) := by
  have h0 := parseBig256_word hlen (k := 0) (by omega)
  have h1 := parseBig256_word hlen (k := 1) (by omega)
  have h2 := parseBig256_word hlen (k := 2) (by omega)
  have h3 := parseBig256_word hlen (k := 3) (by omega)
  have h4 := parseBig256_word hlen (k := 4) (by omega)
  have h5 := parseBig256_word hlen (k := 5) (by omega)
  simp only [Nat.mul_zero, Nat.zero_add, Nat.mul_one] at h0 h1 h2 h3 h4 h5
  -- the length guard and the pointer comparison are false
  simp only [run, hlen, h0, h1, h2, h3, h4, h5, bigIntPointerEq, bne_self_eq_false,
    Bool.and_false, Nat.lt_irrefl, decide_false, Bool.or_false, Bool.false_eq_true, if_false]
  split_ifs <;> rfl

theorem gasLoop_of_le {gas numbers : Nat} (h : numbers ≤ 10) : gasLoop gas numbers = gas := by
  rw [gasLoop, dif_neg (by omega)]

/-- The denominator `aDenominator · bDenominator ^ exponent` is zero exactly
when the claim's guard should fire. -/
theorem denominator_eq_zero_iff (aDenominator bDenominator exponent : Nat) :
    aDenominator * bDenominator ^ exponent = 0 ↔
      aDenominator = 0 ∨ (bDenominator = 0 ∧ 0 < exponent) := by
  rw [Nat.mul_eq_zero, pow_eq_zero_iff', Nat.pos_iff_ne_zero]

/-- A zero denominator (`aDenominator = 0`, or `bDenominator = 0` with a
positive exponent) is not caught by the guard: with enough gas, the call
reaches `big.Int.Div` by zero and panics. -/
theorem zero_denominator_panics (isGingerbread : Bool) (input : List UInt8) (suppliedGas : Nat)
    (hlen : input.length = 192)
    (hzero : word input 1 = 0 ∨ (word input 3 = 0 ∧ 0 < word input 4))
    (hexp : word input 4 ≤ 100000) (hdec : word input 5 ≤ 100000)
    (hgas : requiredGas input ≤ suppliedGas) :
    runPrecompiledContract isGingerbread input suppliedGas =
      (.error .panic, suppliedGas - requiredGas input) := by
  have hden := (denominator_eq_zero_iff _ _ _).mpr hzero
  unfold runPrecompiledContract
  rw [if_neg (by omega), run_of_length isGingerbread hlen, if_neg, if_pos hden]
  -- decimals and exponent are small enough
  simp only [isInt64, Bool.or_eq_true, Bool.not_eq_true', decide_eq_false_iff_not,
    decide_eq_true_eq, not_or, not_lt]
  omega

/-- All-zero arguments: both denominators are zero. -/
theorem zero_input_panics :
    (List.replicate 192 (0 : UInt8)).length = 192 ∧
      (word (List.replicate 192 0) 1 = 0 ∨
        (word (List.replicate 192 0) 3 = 0 ∧ 0 < word (List.replicate 192 0) 4)) ∧
      word (List.replicate 192 0) 4 ≤ 100000 ∧ word (List.replicate 192 0) 5 ≤ 100000 ∧
      requiredGas (List.replicate 192 0) ≤ fractionMulExpGas ∧
      runPrecompiledContract false (List.replicate 192 0) fractionMulExpGas =
        (.error .panic, fractionMulExpGas - requiredGas (List.replicate 192 0)) := by
  have hlen : (List.replicate 192 (0 : UInt8)).length = 192 := List.length_replicate
  have hw : ∀ k, word (List.replicate 192 0) k = 0 := by
    intro k
    rw [word, slice, List.drop_replicate, List.take_replicate, ofBytes_replicate_zero]
  have hgas : requiredGas (List.replicate 192 0) = fractionMulExpGas := by
    have h4 := parseBig256_word hlen (k := 4) (by omega)
    have h5 := parseBig256_word hlen (k := 5) (by omega)
    rw [hw] at h4 h5
    rw [requiredGas, if_neg (by rw [hlen]; omega), h4, h5]
    simp [isInt64, gasLoop_of_le]
  refine ⟨hlen, .inl (hw 1), by rw [hw]; omega, by rw [hw]; omega, hgas.le, ?_⟩
  exact zero_denominator_panics false _ _ hlen (.inl (hw 1)) (by rw [hw]; omega)
    (by rw [hw]; omega) hgas.le

theorem length_leftPadBytes (bytes : List UInt8) (l : Nat) :
    (leftPadBytes bytes l).length = max l bytes.length := by
  unfold leftPadBytes
  split_ifs with h
  · omega
  · simp only [List.length_append, List.length_replicate]
    omega

/-- A non-zero denominator and exponent and decimals up to 100000: `Run`
returns the quotient and `10 ^ decimals`, each left-padded to 32 bytes. -/
theorem run_ok (isGingerbread : Bool) {input : List UInt8} (hlen : input.length = 192)
    (hden : word input 1 * word input 3 ^ word input 4 ≠ 0)
    (hexp : word input 4 ≤ 100000) (hdec : word input 5 ≤ 100000) :
    run isGingerbread input =
      .ok (leftPadBytes (toBytes (word input 0 * word input 2 ^ word input 4 *
          10 ^ word input 5 / (word input 1 * word input 3 ^ word input 4))) 32 ++
        leftPadBytes (toBytes (10 ^ word input 5)) 32) := by
  rw [run_of_length isGingerbread hlen, if_neg, if_neg hden]
  simp only [isInt64, Bool.or_eq_true, Bool.not_eq_true', decide_eq_false_iff_not,
    decide_eq_true_eq, not_or, not_lt]
  omega

/-- Six words: `3/2 * (5/4) ^ 2` to 2 decimals. -/
def sampleInput : List UInt8 :=
  [3, 2, 5, 4, 2, 2].flatMap fun (b : UInt8) => List.replicate 31 0 ++ [b]

/-- The output is two 32-byte words exactly when both numbers are below
`2 ^ 256`; a larger one makes the output wider (`LeftPadBytes` returns a
longer slice as it is), with no error. -/
theorem length_output_eq_iff (q d : Nat) :
    (leftPadBytes (toBytes q) 32 ++ leftPadBytes (toBytes d) 32).length = 64 ↔
      q < 2 ^ 256 ∧ d < 2 ^ 256 := by
  have hq := length_toBytes_le_iff q 32
  have hd := length_toBytes_le_iff d 32
  rw [show (256 : Nat) ^ 32 = 2 ^ 256 by norm_num] at hq hd
  rw [List.length_append, length_leftPadBytes, length_leftPadBytes, ← hq, ← hd]
  omega

/-- A number left-padded to 32 bytes reads back; a longer encoding is left
as it is. -/
theorem ofBytes_leftPadBytes_toBytes (q : Nat) :
    ofBytes (leftPadBytes (toBytes q) 32) = q := by
  unfold leftPadBytes
  split_ifs
  · exact ofBytes_toBytes q
  · rw [ofBytes_replicate_append, ofBytes_toBytes]

/-! ## The result as a fraction -/

/-- What `fractionMulExp` is to compute: `aNumerator / aDenominator` times
`(bNumerator / bDenominator) ^ exponent`, scaled by `10 ^ decimals` and
rounded down, and the scale. -/
def fractionResult (input : List UInt8) : Nat × Nat :=
  (⌊(word input 0 / word input 1 : ℚ) * (word input 2 / word input 3 : ℚ) ^ word input 4 *
    10 ^ word input 5⌋₊, 10 ^ word input 5)

/-- The floor is the integer quotient `Run` computes. -/
theorem fractionResult_fst (input : List UInt8) :
    (fractionResult input).1 =
      word input 0 * word input 2 ^ word input 4 * 10 ^ word input 5 /
        (word input 1 * word input 3 ^ word input 4) := by
  have hq : (word input 0 / word input 1 : ℚ) * (word input 2 / word input 3 : ℚ) ^ word input 4 *
      10 ^ word input 5 =
      ((word input 0 * word input 2 ^ word input 4 * 10 ^ word input 5 : ℕ) : ℚ) /
        ((word input 1 * word input 3 ^ word input 4 : ℕ) : ℚ) := by
    push_cast
    rw [div_pow, div_mul_div_comm, div_mul_eq_mul_div]
  rw [fractionResult, hq, Nat.floor_div_eq_div]

theorem take_leftPadBytes_append {q : Nat} (hq : q < 2 ^ 256) (rest : List UInt8) :
    (leftPadBytes (toBytes q) 32 ++ rest).take 32 = leftPadBytes (toBytes q) 32 ∧
      (leftPadBytes (toBytes q) 32 ++ rest).drop 32 = rest := by
  have hl : (leftPadBytes (toBytes q) 32).length = 32 := by
    have := (length_toBytes_le_iff q 32).mpr (by norm_num; exact hq)
    rw [length_leftPadBytes]
    omega
  exact ⟨List.take_left' hl, List.drop_left' hl⟩

/-- **The two words of the result.** On a 192-byte input with a non-zero
denominator and an exponent and decimals up to 100000, `Run` succeeds. Its
output is two 32-byte words exactly when both numbers of `fractionResult`
are below `2 ^ 256`, and the words are then those numbers. -/
theorem run_returns_fractionResult (isGingerbread : Bool) {input : List UInt8}
    (hlen : input.length = 192) (hden : word input 1 * word input 3 ^ word input 4 ≠ 0)
    (hexp : word input 4 ≤ 100000) (hdec : word input 5 ≤ 100000) :
    ∃ out, run isGingerbread input = .ok out ∧
      (out.length = 64 ↔ (fractionResult input).1 < 2 ^ 256 ∧ (fractionResult input).2 < 2 ^ 256) ∧
      (out.length = 64 → ofBytes (out.take 32) = (fractionResult input).1 ∧
        ofBytes (out.drop 32) = (fractionResult input).2) := by
  refine ⟨_, run_ok isGingerbread hlen hden hexp hdec, ?_, ?_⟩
  · rw [fractionResult_fst input]
    exact length_output_eq_iff _ _
  · intro h64
    -- a 64-byte output has a first word of exactly 32 bytes
    obtain ⟨hq, -⟩ := (length_output_eq_iff _ _).mp h64
    obtain ⟨htake, hdrop⟩ :=
      take_leftPadBytes_append hq (leftPadBytes (toBytes (10 ^ word input 5)) 32)
    rw [htake, hdrop, ofBytes_leftPadBytes_toBytes, ofBytes_leftPadBytes_toBytes,
      fractionResult_fst input]
    exact ⟨rfl, rfl⟩

theorem run_returns_fractionResult_sampleInput :
    sampleInput.length = 192 ∧
      word sampleInput 1 * word sampleInput 3 ^ word sampleInput 4 ≠ 0 ∧
      word sampleInput 4 ≤ 100000 ∧ word sampleInput 5 ≤ 100000 ∧
      ∃ out, run false sampleInput = .ok out ∧
        (out.length = 64 ↔
          (fractionResult sampleInput).1 < 2 ^ 256 ∧ (fractionResult sampleInput).2 < 2 ^ 256) ∧
        (out.length = 64 → ofBytes (out.take 32) = (fractionResult sampleInput).1 ∧
          ofBytes (out.drop 32) = (fractionResult sampleInput).2) := by
  have hlen : sampleInput.length = 192 := by decide +kernel
  have hden : word sampleInput 1 * word sampleInput 3 ^ word sampleInput 4 ≠ 0 := by decide +kernel
  have hexp : word sampleInput 4 ≤ 100000 := by decide +kernel
  have hdec : word sampleInput 5 ≤ 100000 := by decide +kernel
  exact ⟨hlen, hden, hexp, hdec, run_returns_fractionResult false hlen hden hexp hdec⟩

end CeloBlockchain.Vm
