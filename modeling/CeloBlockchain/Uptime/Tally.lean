import CeloBlockchain.Uptime.Monitor
import CeloBlockchain.Lib.Words

/-!
# What `updateUptime` counts

`updateUptime` reads the signature bitmap word by word; `updateUptime_entries`
says that it gives validator `i` bit `i` of the bitmap (through
`Words.wordBit_digits`), so one block is one `tallyEntry` per validator.

Over the blocks `lo, lo + 1, …` a validator's entry is `tallyBlocks`.  The
monitor keeps only the last block the validator signed, not which blocks it
signed; `tallyBlocks_upBlocks` shows that this is enough: once every monitored
block has its whole lookback window in the run, the up blocks are the
monitored blocks at which the validator signed some block of the lookback
window (`upCount`).
-/

namespace CeloBlockchain.Uptime

open Words

/-! ## One block -/

/-- One validator's turn in `updateUptime`, given whether it signed the block. -/
def tallyEntry (signed : Bool) (blockNumber lookbackWindowSize : Nat) (monitoringWindow : Window)
    (entry : UptimeEntry) : UptimeEntry :=
  let entry := if signed then { entry with lastSignedBlock := blockNumber } else entry
  if monitoringWindow.contains blockNumber &&
      (newWindowEndingAt blockNumber lookbackWindowSize).contains entry.lastSignedBlock then
    { entry with upBlocks := entry.upBlocks + 1 }
  else entry

@[simp] theorem tallyEntry_lastSignedBlock (signed : Bool) (blockNumber lookbackWindowSize : Nat)
    (monitoringWindow : Window) (entry : UptimeEntry) :
    (tallyEntry signed blockNumber lookbackWindowSize monitoringWindow entry).lastSignedBlock =
      if signed then blockNumber else entry.lastSignedBlock := by
  cases signed <;> simp only [tallyEntry, Bool.false_eq_true, if_true, if_false] <;> split <;> rfl

@[simp] theorem tallyEntry_upBlocks (signed : Bool) (blockNumber lookbackWindowSize : Nat)
    (monitoringWindow : Window) (entry : UptimeEntry) :
    (tallyEntry signed blockNumber lookbackWindowSize monitoringWindow entry).upBlocks =
      entry.upBlocks + if monitoringWindow.contains blockNumber &&
        (newWindowEndingAt blockNumber lookbackWindowSize).contains
          (if signed then blockNumber else entry.lastSignedBlock) then 1 else 0 := by
  cases signed <;> simp only [tallyEntry, Bool.false_eq_true, if_true, if_false] <;>
    split <;> simp_all

/-- The loop of `updateUptime` gives validator `i + j` its bit of the words. -/
theorem updateUptime_loop (blockNumber lookbackWindowSize : Nat) (monitoringWindow : Window)
    (ws : List Nat) (entries : List UptimeEntry) (i : Nat) :
    updateUptime.loop blockNumber lookbackWindowSize monitoringWindow i (shiftedWords 64 ws i)
        entries =
      entries.mapIdx fun j entry =>
        tallyEntry (wordBit 64 ws (i + j)) blockNumber lookbackWindowSize monitoringWindow entry := by
  induction entries generalizing i with
  | nil => rfl
  | cons entry entries ih =>
    rw [List.mapIdx_cons, updateUptime.loop, getElem?_shiftedWords_self (by norm_num)]
    -- validators `i + 1` onward, from the words the loop goes on with
    have htail : ∀ ws', ws' = shiftedWords 64 ws (i + 1) →
        updateUptime.loop blockNumber lookbackWindowSize monitoringWindow (i + 1) ws' entries =
          entries.mapIdx fun j entry => tallyEntry (wordBit 64 ws (i + (j + 1))) blockNumber
            lookbackWindowSize monitoringWindow entry := by
      rintro _ rfl
      rw [ih (i + 1)]
      simp only [Nat.add_assoc, Nat.add_comm 1]
    cases hw : ws[i / 64]? with
    | some w =>
      dsimp only [Option.map_some]
      rw [htail _ (set_shiftedWords (by norm_num) hw)]
      simp [tallyEntry, wordBit, List.getD_eq_getElem?_getD, hw]
    | none =>
      dsimp only [Option.map_none]
      rw [htail _ (shiftedWords_succ_of_le (by norm_num) (List.getElem?_eq_none_iff.mp hw)).symm]
      simp [tallyEntry, wordBit, List.getD_eq_getElem?_getD, hw]

/-- `updateUptime` tallies validator `i` with bit `i` of the bitmap. -/
theorem updateUptime_entries (uptime : AccumulatedUptime) (blockNumber bitmap lookbackWindowSize : Nat)
    (monitoringWindow : Window) :
    (updateUptime uptime blockNumber bitmap lookbackWindowSize monitoringWindow).entries =
      uptime.entries.mapIdx fun i entry =>
        tallyEntry (bitmap.testBit i) blockNumber lookbackWindowSize monitoringWindow entry := by
  rw [updateUptime, ← shiftedWords_zero 64 (bitmapWords bitmap), updateUptime_loop]
  simp only [Nat.zero_add, bitmapWords, wordBit_digits (by norm_num : 0 < 64)]

/-! ## One validator over a run of blocks -/

section Tally

variable (signed : Nat → Bool) (lookbackWindowSize : Nat) (monitoringWindow : Window) (lo : Nat)

/-- A validator's entry after the blocks `lo` to `lo + k - 1` are tallied in
order, `signed b` saying whether it signed block `b`. -/
def tallyBlocks : Nat → UptimeEntry → UptimeEntry
  | 0, entry => entry
  | k + 1, entry => tallyEntry (signed (lo + k)) (lo + k) lookbackWindowSize monitoringWindow
      (tallyBlocks k entry)

/-- The last block signed among `lo` to `lo + k - 1`, or `0`. -/
def lastSigned : Nat → Nat
  | 0 => 0
  | k + 1 => if signed (lo + k) then lo + k else lastSigned k

/-- Whether the validator signed a block of the lookback window ending at `b`. -/
def upAt (b : Nat) : Bool :=
  (List.range' (b + 1 - lookbackWindowSize) lookbackWindowSize).any signed

/-- The monitored blocks among `lo` to `lo + k - 1` at which the validator is
up. -/
def upCount (k : Nat) : Nat :=
  ((List.range' lo k).filter fun b =>
    monitoringWindow.contains b && upAt signed lookbackWindowSize b).length

theorem tallyBlocks_lastSignedBlock (k : Nat) :
    (tallyBlocks signed lookbackWindowSize monitoringWindow lo k ⟨0, 0⟩).lastSignedBlock =
      lastSigned signed lo k := by
  induction k with
  | zero => rfl
  | succ k ih => simp only [tallyBlocks, lastSigned, tallyEntry_lastSignedBlock, ih]

/-- `lastSigned` is `0` or a signed block of the run. -/
theorem lastSigned_spec (k : Nat) :
    lastSigned signed lo k = 0 ∨
      lo ≤ lastSigned signed lo k ∧ lastSigned signed lo k < lo + k ∧
        signed (lastSigned signed lo k) := by
  induction k with
  | zero => exact .inl rfl
  | succ k ih =>
    simp only [lastSigned]
    split_ifs with hs
    · exact .inr ⟨by omega, by omega, hs⟩
    · rcases ih with h | ⟨h₁, h₂, h₃⟩
      · exact .inl h
      · exact .inr ⟨h₁, by omega, h₃⟩

/-- No block of the run signed after `lastSigned`. -/
theorem le_lastSigned {k s : Nat} (hs : lo ≤ s) (hsk : s < lo + k) (hsig : signed s) :
    s ≤ lastSigned signed lo k := by
  induction k with
  | zero => omega
  | succ k ih =>
    simp only [lastSigned]
    split_ifs with h
    · omega
    · have hne : s ≠ lo + k := fun heq => h (heq ▸ hsig)
      exact ih (by omega)

/-- The lookback window ending at `b`, when it starts at or after block 1. -/
theorem newWindowEndingAt_contains {b n : Nat} (hL : lookbackWindowSize ≤ b + 1)
    (h64 : b + 1 < 2 ^ 64) :
    (newWindowEndingAt b lookbackWindowSize).contains n =
      decide (n ≤ b ∧ b + 1 - lookbackWindowSize ≤ n) := by
  have hstart : (b + 2 ^ 64 + 1 - lookbackWindowSize) % 2 ^ 64 = b + 1 - lookbackWindowSize := by
    rw [show b + 2 ^ 64 + 1 - lookbackWindowSize = (b + 1 - lookbackWindowSize) + 2 ^ 64 by omega,
      Nat.add_mod_right, Nat.mod_eq_of_lt (by omega)]
  simp only [newWindowEndingAt, Window.contains, hstart, ge_iff_le, Bool.decide_and]

/-- At a block whose lookback window lies in the run, the window holds the
last signed block exactly when the validator signed one of its blocks. -/
theorem contains_lastSigned {k : Nat} (hlo : 1 ≤ lo)
    (hL : lo + lookbackWindowSize ≤ lo + k + 1) (h64 : lo + k + 1 < 2 ^ 64) :
    (newWindowEndingAt (lo + k) lookbackWindowSize).contains (lastSigned signed lo (k + 1)) =
      upAt signed lookbackWindowSize (lo + k) := by
  rw [newWindowEndingAt_contains lookbackWindowSize (by omega) h64, upAt, Bool.eq_iff_iff,
    decide_eq_true_iff, List.any_eq_true]
  constructor
  · rintro ⟨hle, hge⟩
    rcases lastSigned_spec signed lo (k + 1) with h0 | ⟨-, -, hsig⟩
    · omega
    · exact ⟨_, List.mem_range'_1.mpr ⟨hge, by omega⟩, hsig⟩
  · rintro ⟨s, hs, hsig⟩
    rw [List.mem_range'_1] at hs
    have hsle := le_lastSigned signed lo (k := k + 1) (by omega) (by omega) hsig
    rcases lastSigned_spec signed lo (k + 1) with h0 | ⟨-, hlt, -⟩
    · omega
    · exact ⟨by omega, by omega⟩

/-- The up blocks the monitor counts are those of `upCount`, when every
monitored block has its lookback window in the run. -/
theorem tallyBlocks_upBlocks (hlo : 1 ≤ lo)
    (hmon : ∀ b, monitoringWindow.contains b → lo + lookbackWindowSize ≤ b + 1) (k : Nat)
    (h64 : lo + k < 2 ^ 64) :
    (tallyBlocks signed lookbackWindowSize monitoringWindow lo k ⟨0, 0⟩).upBlocks =
      upCount signed lookbackWindowSize monitoringWindow lo k := by
  induction k with
  | zero => rfl
  | succ k ih =>
    have hlast : (if signed (lo + k) then lo + k else
        (tallyBlocks signed lookbackWindowSize monitoringWindow lo k ⟨0, 0⟩).lastSignedBlock) =
          lastSigned signed lo (k + 1) := by
      rw [tallyBlocks_lastSignedBlock]
      rfl
    simp only [tallyBlocks, tallyEntry_upBlocks, hlast, ih (by omega), upCount,
      List.range'_concat, List.filter_append, List.length_append]
    by_cases hw : monitoringWindow.contains (lo + k)
    · rw [contains_lastSigned signed lookbackWindowSize lo hlo (hmon _ hw) (by omega)]
      by_cases hu : upAt signed lookbackWindowSize (lo + k) <;> simp [hw, hu]
    · simp [hw]

end Tally

end CeloBlockchain.Uptime
