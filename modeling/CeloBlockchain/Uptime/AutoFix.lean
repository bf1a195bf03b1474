import CeloBlockchain.Uptime.Monitor
import CeloBlockchain.Lib.Run

/-!
# The auto-fixing uptime builder

`consensus/istanbul/uptime/autofix.go`.  The builder keeps a monitor up to
date with the header it is given.  It fetches the missing headers from the
headers provider, and it rebuilds from the epoch's first block after a
rewind or a fork.  The provider's `GetEpochHeadersUpToLimit` is a parameter.

The monitor is a value here.  `ComputeUptime` therefore returns no builder,
which is what its copy (`Monitor.Copy` copies the entries) achieves in the
source.
-/

namespace CeloBlockchain.Uptime

/-- `EpochHeadersProvider.GetEpochHeadersUpToLimit(epochSize, upToHeader, limit)`. -/
abbrev HeadersProvider := Nat → Header → Nat → Except Err (List Header)

namespace AutoFix

variable (provider : HeadersProvider)

/-- `addAll`: the headers in order, up to the first error. -/
def addAll (um : Monitor) : List Header → Monitor × Option Err
  | [] => (um, none)
  | h :: headers =>
    match um.processHeader h with
    | (um, some err) => (um, some err)
    | (um, none) => addAll um headers

/-- `cleanBuild`: build up to `upTo`, the monitor being empty. -/
def cleanBuild (um : Monitor) (upTo : Header) : Monitor × Option Err :=
  let epochSize := um.epochSize
  let numberWithinEpoch := getNumberWithinEpoch upTo.number epochSize
  -- the epoch's first header needs no other header
  if numberWithinEpoch = 1 then um.processHeader upTo
  else
    match provider epochSize upTo numberWithinEpoch with
    | .error err => (um, some err)
    | .ok headers => addAll um headers

/-- `advance`: from the last processed header `fromHeader` to `upTo`,
fetching the headers in between; a rebuild when they do not start at
`fromHeader`. -/
def advance (um : Monitor) (fromHeader upTo : Header) : Monitor × Option Err :=
  let limit := upTo.number - fromHeader.number + 1
  match provider um.epochSize upTo limit with
  | .error err => (um, some err)
  -- `headers[0]` of an empty slice panics
  | .ok [] => (um, some .crash)
  | .ok (first :: rest) =>
    if first.hash ≠ fromHeader.hash then cleanBuild provider um.clear upTo
    else addAll um rest

/-- `ProcessHeader`: the five cases of the source (empty builder, rewind,
next header, gap, same height). -/
def processHeader (um : Monitor) (header : Header) : Monitor × Option Err :=
  let number := header.number
  let epoch := getEpochNumber number um.epochSize
  if um.epoch ≠ epoch then (um, some .wrongEpoch)
  else
    match um.accumulatedUptime.latestHeader with
    | none => cleanBuild provider um header
    | some lastHeader =>
      let lastHeaderNumber := lastHeader.number
      if number < lastHeaderNumber then cleanBuild provider um.clear header
      else if number = lastHeaderNumber + 1 then
        if header.parentHash = lastHeader.hash then um.processHeader header
        -- a fork at the next height
        else cleanBuild provider um.clear header
      else if number > lastHeaderNumber + 1 then advance provider um lastHeader header
      -- the same height: nothing to do, or a fork
      else if lastHeader.hash = header.hash then (um, none)
      else cleanBuild provider um.clear header

/-- `ComputeUptime`: a copy of the builder brought up to `epochLastHeader`
computes the scores. -/
def computeUptime (um : Monitor) (epochLastHeader : Header) : Except Err (List Nat) :=
  match processHeader provider um epochLastHeader with
  | (_, some err) => .error err
  | (b, none) => b.computeUptime epochLastHeader

/-- The builder after `ProcessHeader` of each header in order, whatever each
call returned. -/
def run (um : Monitor) (headers : List Header) : Monitor :=
  Run.run (fun um header => (processHeader provider um header).1) um headers

end AutoFix

end CeloBlockchain.Uptime
