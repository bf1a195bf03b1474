import Mathlib.Data.Nat.Digits.Defs

/-!
# The uptime monitor

`consensus/istanbul/uptime` (`config.go`, `window.go`, `monitor.go`) with the
epoch arithmetic of `consensus/istanbul/utils.go`.  A validator is up at a
monitored block `b` when it signed some block of the lookback window ending
at `b`; the signatures of block `b` are the `ParentAggregatedSeal` bitmap of
header `b + 1`.  The monitor keeps, per validator, the number of blocks it
was up and the last block it signed.

Block numbers are `uint64` in the source.  They are `Nat` here; the
subtractions that may go below zero (`newWindowEndingAt`,
`newWindowStartingAt`, `Size`, `MonitoringWindowUntil`) wrap modulo `2^64`
as in Go.  A header is what the monitor reads of it: its number, its hash,
its parent's hash and the bitmap of its decoded Istanbul extra (`none` when
the extra does not decode).
-/

namespace CeloBlockchain.Uptime

/-! ## Epochs -/

/-- `GetNumberWithinEpoch`: the position of a block in its epoch, `1` to
`epochSize`. -/
def getNumberWithinEpoch (number epochSize : Nat) : Nat :=
  if number % epochSize = 0 then epochSize else number % epochSize

/-- `IsLastBlockOfEpoch`. -/
def isLastBlockOfEpoch (number epochSize : Nat) : Bool :=
  getNumberWithinEpoch number epochSize == epochSize

/-- `GetEpochNumber`: epoch 0 is the genesis block; epoch 1 starts at block 1. -/
def getEpochNumber (number epochSize : Nat) : Nat :=
  if isLastBlockOfEpoch number epochSize then number / epochSize else number / epochSize + 1

/-- `GetEpochFirstBlockNumber` (an error for epoch 0). -/
def getEpochFirstBlockNumber (epochNumber epochSize : Nat) : Option Nat :=
  if epochNumber = 0 then none else some ((epochNumber - 1) * epochSize + 1)

/-- `GetEpochLastBlockNumber`. -/
def getEpochLastBlockNumber (epochNumber epochSize : Nat) : Nat :=
  if epochNumber = 0 then 0 else epochNumber * epochSize

/-- `istanbul.MinEpochSize`. -/
def minEpochSize : Nat := 3

/-- `BlocksToSkipAtEpochEnd`: the last two blocks of an epoch are not
monitored. -/
def blocksToSkipAtEpochEnd : Nat := 2

/-- `params.Fixidity1`, the fixed-point one of the scores. -/
def fixidity1 : Nat := 10 ^ 24

/-! ## Errors -/

/-- The errors of `uptime` and of the headers provider. -/
inductive Err
  | noMonitoringWindowForEpoch0
  | invalidEpoch
  | lookbackWindowTooBig
  | headerOlderThanEpochStart
  | wrongEpoch
  | unpreparedCompute
  | missingPreviousHeaders
  | headerNumberAlreadyUsed
  /-- "could not extract block header extra". -/
  | extraUndecodable
  /-- An error of `GetEpochHeadersUpToLimit`. -/
  | provider
  /-- A Go panic (a `nil` dereference). -/
  | crash
deriving DecidableEq, Repr

/-! ## Windows -/

/-- `Window`: the blocks `Start` to `End`, both included. -/
structure Window where
  start : Nat
  stop : Nat
deriving DecidableEq, Repr

/-- `newWindowEndingAt`: `Start = end - size + 1` in `uint64`. -/
def newWindowEndingAt (stop size : Nat) : Window :=
  ⟨(stop + 2 ^ 64 + 1 - size) % 2 ^ 64, stop⟩

/-- `newWindowStartingAt`: `End = start + size - 1` in `uint64`. -/
def newWindowStartingAt (start size : Nat) : Window :=
  ⟨start, (start + size + 2 ^ 64 - 1) % 2 ^ 64⟩

namespace Window

/-- `Size`: `End - Start + 1` in `uint64`. -/
def size (w : Window) : Nat := (w.stop + 2 ^ 64 + 1 - w.start) % 2 ^ 64

/-- `Contains`. -/
def contains (w : Window) (n : Nat) : Bool := n ≤ w.stop && n ≥ w.start

end Window

/-- `MonitoringWindow`: from the end of the first lookback window of the
epoch to two blocks before its end. -/
def monitoringWindow (epochNumber epochSize lookbackWindowSize : Nat) : Except Err Window :=
  if epochNumber = 0 then .error .noMonitoringWindowForEpoch0
  else if epochSize < minEpochSize then .error .invalidEpoch
  else if epochSize < lookbackWindowSize + blocksToSkipAtEpochEnd then
    .error .lookbackWindowTooBig
  else
    let epochFirstBlock := (getEpochFirstBlockNumber epochNumber epochSize).getD 0
    let epochLastBlock := getEpochLastBlockNumber epochNumber epochSize
    -- `epochLastBlock ≥ 3` here, so the subtraction does not wrap
    .ok ⟨(newWindowStartingAt epochFirstBlock lookbackWindowSize).stop,
      epochLastBlock - blocksToSkipAtEpochEnd⟩

/-- `MonitoringWindowUntil`: the monitoring window cut at the block before
`untilBlockNumber` when it ends after `untilBlockNumber`. -/
def monitoringWindowUntil (epochNumber epochSize lookbackWindowSize untilBlockNumber : Nat) :
    Except Err Window :=
  match monitoringWindow epochNumber epochSize lookbackWindowSize with
  | .error e => .error e
  | .ok w =>
    if w.start > untilBlockNumber then .error .headerOlderThanEpochStart
    else if w.stop > untilBlockNumber then .ok { w with stop := (untilBlockNumber + 2 ^ 64 - 1) % 2 ^ 64 }
    else .ok w

/-! ## The monitor -/

/-- What the monitor reads of a header. -/
structure Header where
  number : Nat
  hash : Nat
  parentHash : Nat
  /-- The `ParentAggregatedSeal` bitmap of the Istanbul extra, if it decodes. -/
  parentBitmap : Option Nat
deriving DecidableEq, Repr

/-- `UptimeEntry`. -/
structure UptimeEntry where
  upBlocks : Nat
  lastSignedBlock : Nat
deriving DecidableEq, Repr

/-- `Uptime`, the type of the monitor's `accumulatedUptime`: the last header
accounted for and an entry per validator. -/
structure AccumulatedUptime where
  latestHeader : Option Header
  entries : List UptimeEntry
deriving DecidableEq, Repr

/-- `Monitor`. -/
structure Monitor where
  epoch : Nat
  epochSize : Nat
  firstEpochBlock : Nat
  lastEpochBlock : Nat
  lookbackWindow : Nat
  valSetSize : Nat
  window : Window
  accumulatedUptime : AccumulatedUptime
deriving DecidableEq, Repr

/-- The words of `bitmap.Bits()`: the base-`2^64` digits, least significant
first, without high zero words. -/
def bitmapWords (bitmap : Nat) : List Nat := Nat.digits (2 ^ 64) bitmap

/-- `updateUptime`: block `blockNumber` was signed by the validators whose
bit is set.  The loop reads the bit of validator `i` as the low bit of word
`i / 64`, which it then shifts right; a monitored block counts for a
validator whose last signed block is in the lookback window ending there. -/
def updateUptime (uptime : AccumulatedUptime) (blockNumber : Nat) (bitmap : Nat) (lookbackWindowSize : Nat)
    (monitoringWindow : Window) : AccumulatedUptime :=
  { uptime with entries := loop 0 (bitmapWords bitmap) uptime.entries }
where
  loop (i : Nat) (byteWords : List Nat) : List UptimeEntry → List UptimeEntry
    | [] => []
    | entry :: entries =>
      let byteNumber := i / 64
      let (entry, byteWords) :=
        match byteWords[byteNumber]? with
        | some word =>
          (if word % 2 = 1 then { entry with lastSignedBlock := blockNumber } else entry,
            byteWords.set byteNumber (word / 2))
        | none => (entry, byteWords)
      let currentLookbackWindow := newWindowEndingAt blockNumber lookbackWindowSize
      let entry :=
        if monitoringWindow.contains blockNumber &&
            currentLookbackWindow.contains entry.lastSignedBlock then
          { entry with upBlocks := entry.upBlocks + 1 }
        else entry
      entry :: loop (i + 1) byteWords entries

namespace Monitor

/-- `NewMonitor`; `none` when `MustMonitoringWindow` panics. -/
def new (epochSize epoch lookbackWindow valSetSize : Nat) : Option Monitor :=
  match monitoringWindow epoch epochSize lookbackWindow with
  | .error _ => none
  | .ok window =>
    some { epoch := epoch, epochSize := epochSize,
           firstEpochBlock := (getEpochFirstBlockNumber epoch epochSize).getD 0,
           lastEpochBlock := getEpochLastBlockNumber epoch epochSize,
           lookbackWindow := lookbackWindow, valSetSize := valSetSize, window := window,
           accumulatedUptime := ⟨none, List.replicate valSetSize ⟨0, 0⟩⟩ }

/-- `ProcessHeader`: the header's bitmap says who signed its parent block. -/
def processHeader (um : Monitor) (header : Header) : Monitor × Option Err :=
  let headerNumber := header.number
  if headerNumber < um.firstEpochBlock ∨ headerNumber > um.lastEpochBlock then
    (um, some .wrongEpoch)
  -- the first block's parent signatures are of the previous epoch's validators
  else if headerNumber = um.firstEpochBlock ∧ um.accumulatedUptime.latestHeader = none then
    ({ um with accumulatedUptime := { um.accumulatedUptime with latestHeader := some header } },
      none)
  else
    match um.accumulatedUptime.latestHeader with
    | none => (um, some .missingPreviousHeaders)
    | some latest =>
      if latest.number ≥ headerNumber then (um, some .headerNumberAlreadyUsed)
      else if latest.hash ≠ header.parentHash then (um, some .missingPreviousHeaders)
      else
        match header.parentBitmap with
        | none => (um, some .extraUndecodable)
        | some bitmap =>
          let uptime := updateUptime um.accumulatedUptime (headerNumber - 1) bitmap
            um.lookbackWindow um.window
          ({ um with accumulatedUptime := { uptime with latestHeader := some header } }, none)

/-- `ComputeUptime`: each validator's up blocks over the blocks monitored
until `header`, as a `Fixidity1` fraction.  Its logger reads the latest
header's number, a `nil` dereference on a monitor that processed nothing. -/
def computeUptime (um : Monitor) (header : Header) : Except Err (List Nat) :=
  match um.accumulatedUptime.latestHeader with
  | none => .error .crash
  | some _ =>
    let headerNumber := header.number
    if headerNumber < um.firstEpochBlock ∨ headerNumber > um.lastEpochBlock then
      .error .wrongEpoch
    else if headerNumber < um.firstEpochBlock + um.lookbackWindow then .error .unpreparedCompute
    else
      match monitoringWindowUntil um.epoch um.epochSize um.lookbackWindow headerNumber with
      | .error e => .error e
      | .ok window =>
        let totalMonitoredBlocks := window.size
        .ok (um.accumulatedUptime.entries.map fun entry =>
          entry.upBlocks * fixidity1 / totalMonitoredBlocks)

/-- `Clear`. -/
def clear (um : Monitor) : Monitor :=
  { um with accumulatedUptime := ⟨none, List.replicate um.valSetSize ⟨0, 0⟩⟩ }

end Monitor

end CeloBlockchain.Uptime
