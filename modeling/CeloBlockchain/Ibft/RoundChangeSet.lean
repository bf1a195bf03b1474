import CeloBlockchain.Ibft.RoundState
import CeloBlockchain.Lib.Run
import Mathlib.Data.List.Sort

/-!
# The round-change set

`roundChangeSetV2` (`core/roundchangeset_v2.go`): the latest ROUND CHANGE of
each validator, grouped by round.  Rounds are the `uint64` of the request's
round, as in the source.  The messages are kept as the sender's address with
its `RoundChangeV2`.
-/

namespace CeloBlockchain.Ibft

/-- `roundChangeSetV2`. -/
structure RoundChangeSetV2 where
  validatorSet : ValidatorSet
  msgsForRound : AList (fun _ : Nat => MessageSet RoundChangeV2)
  latestRoundForVal : AList (fun _ : Address => Nat)

namespace RoundChangeSetV2

/-- `newRoundChangeSetV2`. -/
def new (vs : ValidatorSet) : RoundChangeSetV2 := ⟨vs, ∅, ∅⟩

/-- The rounds holding messages, largest first (the `sort.Slice` of the
source; the keys are distinct, so the order is determined). -/
def sortedRounds (rcs : RoundChangeSetV2) : List Nat :=
  rcs.msgsForRound.keys.insertionSort (· ≥ ·)

/-- The message set of a round (`nil` when absent). -/
def msgs (rcs : RoundChangeSetV2) (r : Nat) : Option (MessageSet RoundChangeV2) :=
  rcs.msgsForRound.lookup r

/-- The number of messages held for a round. -/
def sizeAt (rcs : RoundChangeSetV2) (r : Nat) : Nat :=
  ((rcs.msgs r).map (·.size)).getD 0

/-- The part of `Add` before the message is stored: drop the sender's
message of an earlier round (and that round when it empties), then record
the new round as the sender's latest. -/
def moveSender (rcs : RoundChangeSetV2) (src : Address) (round : Nat) : RoundChangeSetV2 :=
  let rcs := match rcs.latestRoundForVal.lookup src with
    | some prev =>
      if prev < round then
        match rcs.msgsForRound.lookup prev with
        | some ms =>
          let ms := ms.remove src
          if ms.size = 0 then { rcs with msgsForRound := rcs.msgsForRound.erase prev }
          else { rcs with msgsForRound := rcs.msgsForRound.insert prev ms }
        | none => rcs
      else rcs
    | none => rcs
  { rcs with latestRoundForVal := rcs.latestRoundForVal.insert src round }

/-- `Add(r, msg)`: refuses a round older than the sender's latest; otherwise
moves the sender to `r` and adds the message to that round's set.  As in the
source, the bookkeeping is updated before the set's own `Add` may refuse the
sender, and the failed call still leaves the new (possibly empty) set. -/
def add (rcs : RoundChangeSetV2) (r : Nat) (src : Address) (rc : RoundChangeV2) :
    RoundChangeSetV2 × Option Err :=
  let round := uint64 r
  match rcs.latestRoundForVal.lookup src with
  | some prev =>
    if prev > round then (rcs, some .oldMessage) else addAt (rcs.moveSender src round) round
  | none => addAt (rcs.moveSender src round) round
where
  addAt (rcs : RoundChangeSetV2) (round : Nat) : RoundChangeSetV2 × Option Err :=
    let ms := ((rcs.msgsForRound.lookup round).getD (MessageSet.empty rcs.validatorSet))
    match ms.add src rc with
    | .ok ms' => ({ rcs with msgsForRound := rcs.msgsForRound.insert round ms' }, none)
    | .error e => ({ rcs with msgsForRound := rcs.msgsForRound.insert round ms }, some e)

/-- `Clear(round)`: drops every round below `round` and every empty round,
and forgets the latest round of the senders they held.  The map is read as
it was when the loop started, as deleting during a Go `range` allows. -/
def clear (rcs : RoundChangeSetV2) (round : Nat) : RoundChangeSetV2 :=
  rcs.msgsForRound.entries.foldl (fun acc e =>
    if e.2.size = 0 ∨ e.1 < uint64 round then
      { acc with
        latestRoundForVal := e.2.addresses.foldl (fun l a => l.erase a) acc.latestRoundForVal
        msgsForRound := acc.msgsForRound.erase e.1 }
    else acc) rcs

/-- The scan of `MaxRound`: the first round, going down, at which the running
total of messages reaches `num`. -/
def maxRoundFrom (rcs : RoundChangeSetV2) (num : Int) : List Nat → Int → Option Nat
  | [], _ => none
  | r :: rs, acc =>
    let acc := acc + rcs.sizeAt r
    if acc ≥ num then some r else maxRoundFrom rcs num rs acc

/-- `MaxRound(num)`: the largest round `r` such that at least `num`
messages are held for rounds `≥ r`. -/
def maxRound (rcs : RoundChangeSetV2) (num : Int) : Option Nat :=
  rcs.maxRoundFrom num rcs.sortedRounds 0

/-- `MaxOnOneRound(num)`: the largest round holding at least `num`
messages. -/
def maxOnOneRound (rcs : RoundChangeSetV2) (num : Nat) : Option Nat :=
  rcs.sortedRounds.find? fun r => rcs.sizeAt r ≥ num

/-- The round-change messages `getCertificate` walks through: those of the
rounds `≥ minRound`, largest round first (the loop breaks at the first
smaller round). -/
def candidates (rcs : RoundChangeSetV2) (minRound : Nat) : List RoundChangeV2 :=
  (rcs.sortedRounds.takeWhile (· ≥ minRound)).flatMap fun r =>
    ((rcs.msgs r).map (·.values)).getD []

/-- The scan of `getCertificate`: requests are collected until `quorumSize`
are held; the proposals of their certificates are recorded by hash. -/
def collect (quorumSize : Nat) : List RoundChangeV2 → List RoundChangeRequest →
    List (Hash × Proposal) → Except Err (List RoundChangeRequest × List (Hash × Proposal))
  | [], _, _ => .error .failedCreateRoundChangeCertificate
  | rv2 :: more, reqs, props =>
    if rv2.request.hasPreparedCertificate &&
        rv2.request.preparedCertificateV2.proposalHash != rv2.preparedProposal.hash then
      .error .roundChangeProposalHashMismatch
    else
      let props := if rv2.request.hasPreparedCertificate then
        (rv2.request.preparedCertificateV2.proposalHash, rv2.preparedProposal) :: props
        else props
      let reqs := reqs ++ [rv2.request]
      if reqs.length ≥ quorumSize then .ok (reqs, props)
      else collect quorumSize more reqs props

/-- `getCertificate(minRound, quorumSize)`: a round-change certificate of
`quorumSize` requests and the proposals it names (the map of the source, as
a list whose first entry for a hash is the latest written). -/
def getCertificate (rcs : RoundChangeSetV2) (minRound quorumSize : Nat) :
    Except Err (RoundChangeCertificateV2 × List (Hash × Proposal)) :=
  (collect quorumSize (rcs.candidates (uint64 minRound)) [] []).map
    fun (reqs, props) => (⟨reqs⟩, props)

/-- A call on the set: `Add(r, msg)` from the message's sender, or
`Clear(round)`. -/
inductive Call where
  | add (r : Nat) (src : Address) (rc : RoundChangeV2)
  | clear (round : Nat)

/-- One call; the state `Add` leaves is kept whether or not it returned an
error. -/
def call (rcs : RoundChangeSetV2) : Call → RoundChangeSetV2
  | .add r src rc => (rcs.add r src rc).1
  | .clear round => rcs.clear round

/-- The set after a sequence of calls. -/
def runCalls (rcs : RoundChangeSetV2) (calls : List Call) : RoundChangeSetV2 :=
  Run.run call rcs calls

end RoundChangeSetV2

end CeloBlockchain.Ibft
