import CeloBlockchain.Ibft.RoundState
import CeloBlockchain.Lib.BigEndian
import CeloBlockchain.Lib.Codec

/-!
# The round-state database and the saving decorator

This module models three pieces of the source:
* `roundStateDBImpl` (`core/roundstate_db.go`);
* the RLP layout of `roundStateImpl`, `EncodeRLP` and `DecodeRLP`
  (`core/roundstate.go`);
* `rsSaveDecorator` (`core/roundstate_save_decorator.go`);
* `createRoundState` (`core/core.go`), which a starting core uses to take up
  the stored round state.

The database maps byte keys to byte values, and leveldb iterates it in
bytewise key order. The serializations are codecs given as parameters
(`Codecs`), each decoding what it encodes. They stand for `rlp.EncodeToBytes`
of each record and for the custom `Serialize` of validator sets and message
sets. The pending request and the preprepare may be absent; an absent one is
written as `rlp.EmptyList`. No encoding of a request or a preprepare equals
it, since RLP encodes a struct as a non-empty list.

The source's errors of serialization and of leveldb writes are not
modelled: encoding and writing always succeed. Nor are leveldb's read errors
other than `ErrNotFound`.
-/

namespace CeloBlockchain.Ibft

open Serialization BigEndian

/-! ## Keys -/

/-- `rsKey`, "rs". -/
def rsKey : List UInt8 := [0x72, 0x73]

/-- `rcvdKey`, "rcvd". -/
def rcvdKey : List UInt8 := [0x72, 0x63, 0x76, 0x64]

/-- `lastViewKey`, "lastView". -/
def lastViewKey : List UInt8 := [0x6c, 0x61, 0x73, 0x74, 0x56, 0x69, 0x65, 0x77]

/-- `dbVersionKey`, "version", which a persistent database also holds. -/
def dbVersionKey : List UInt8 := [0x76, 0x65, 0x72, 0x73, 0x69, 0x6f, 0x6e]

/-- `prefixView2Key`: the prefix, then `Sequence.Uint64()` and `Round.Uint64()`
as big-endian 8-byte words. -/
def prefixView2Key (pre : List UInt8) (view : View) : List UInt8 :=
  pre ++ toBytesFixed 8 (uint64 view.sequence) ++ toBytesFixed 8 (uint64 view.round)

/-- `view2Key`. -/
def view2Key (view : View) : List UInt8 := prefixView2Key rsKey view

/-- `rcvdView2Key`. -/
def rcvdView2Key (view : View) : List UInt8 := prefixView2Key rcvdKey view

/-- `key2View`: the two big-endian words after the length of `rsKey`. -/
def key2View (key : List UInt8) : View :=
  let prefixLen := rsKey.length
  ⟨ofBytes ((key.drop prefixLen).take 8), ofBytes ((key.drop (prefixLen + 8)).take 8)⟩

/-! ## The database -/

/-- The leveldb database: a value for each key. -/
abbrev Db := AList (fun _ : List UInt8 => List UInt8)

/-- `deleteIteratorEntries`: deletes the keys in `[start, limit)`, in
bytewise order, and counts them. -/
def deleteIteratorEntries (db : Db) (start limit : List UInt8) : Db × Nat :=
  let keys := db.keys.filter fun k => decide (start ≤ k) && decide (k < limit)
  (keys.foldl (fun db k => db.erase k) db, keys.length)

/-- `deleteEntriesOlderThan`: the round-state entries, then the received
messages, of the views below `lastView`. -/
def deleteEntriesOlderThan (db : Db) (lastView : View) : Db × Nat :=
  let rs := deleteIteratorEntries db (view2Key ⟨0, 0⟩) (view2Key lastView)
  let rcvd := deleteIteratorEntries rs.1 (rcvdView2Key ⟨0, 0⟩) (rcvdView2Key lastView)
  (rcvd.1, rs.2 + rcvd.2)

/-- `GetLastView`; `none` is `ErrNotFound`. -/
def getLastView (db : Db) : Option View := (db.lookup lastViewKey).map key2View

/-- `GetOldestValidView`: `sequencesToSave` sequences before the last view,
clamped at zero. -/
def getOldestValidView (db : Db) (sequencesToSave : Nat) : View :=
  match getLastView db with
  | none => ⟨0, 0⟩
  | some lastView => ⟨lastView.sequence - sequencesToSave, 0⟩

/-- `garbageCollectEntries`. -/
def garbageCollectEntries (db : Db) (sequencesToSave : Nat) : Db :=
  (deleteEntriesOlderThan db (getOldestValidView db sequencesToSave)).1

/-! ## Serialization -/

/-- `roundStateRLP`. -/
structure RoundStateRLP where
  state : State
  round : Nat
  desiredRound : Nat
  sequence : Nat
  preparedCertificate : PreparedCertificate
  serializedValSet : List UInt8
  serializedProposer : List UInt8
  serializedParentCommits : List UInt8
  serializedPrepares : List UInt8
  serializedCommits : List UInt8
  serializedPreprepare : List UInt8
  serializedPendingRequest : List UInt8

/-- `rcvdRLP`. -/
structure RcvdRLP where
  prep : List UInt8
  comm : List UInt8
  parc : List UInt8

/-- `rlp.EmptyList`, the encoding of an empty list. -/
def emptyList : List UInt8 := [0xc0]

/-- The serializations the database relies on. -/
structure Codecs where
  roundState : Codec RoundStateRLP
  rcvd : Codec RcvdRLP
  validatorSet : Codec ValidatorSet
  validator : Codec Validator
  messageSet : Codec (MessageSet Vote)
  preprepare : Codec PreprepareV2
  request : Codec Proposal
  /-- RLP encodes a `PreprepareV2` as a non-empty list. -/
  preprepare_ne_emptyList : ∀ pp, preprepare.encode pp ≠ emptyList
  /-- RLP encodes a `Request` as a non-empty list. -/
  request_ne_emptyList : ∀ r, request.encode r ≠ emptyList

variable (c : Codecs)

/-- `roundStateImpl.EncodeRLP`. The proposal verification cache is not
written. -/
def encodeRoundState (rs : RoundState) : RoundStateRLP where
  state := rs.state
  round := rs.round
  desiredRound := rs.desiredRound
  sequence := rs.sequence
  preparedCertificate := rs.preparedCertificate
  serializedValSet := c.validatorSet.encode rs.validatorSet
  serializedProposer := c.validator.encode rs.proposer
  serializedParentCommits := c.messageSet.encode rs.parentCommits
  serializedPrepares := c.messageSet.encode rs.prepares
  serializedCommits := c.messageSet.encode rs.commits
  serializedPreprepare := encodeNullable c.preprepare emptyList rs.preprepareV2
  serializedPendingRequest := encodeNullable c.request emptyList rs.pendingRequest

/-- `roundStateImpl.DecodeRLP`, failing when a field does not decode. -/
def decodeRoundState (data : RoundStateRLP) : Option RoundState := do
  let prepares ← c.messageSet.decode data.serializedPrepares
  let parentCommits ← c.messageSet.decode data.serializedParentCommits
  let commits ← c.messageSet.decode data.serializedCommits
  let validatorSet ← c.validatorSet.decode data.serializedValSet
  let proposer ← c.validator.decode data.serializedProposer
  let pendingRequest ← decodeNullable c.request emptyList data.serializedPendingRequest
  let preprepareV2 ← decodeNullable c.preprepare emptyList data.serializedPreprepare
  pure
    { state := data.state
      round := data.round
      desiredRound := data.desiredRound
      sequence := data.sequence
      preprepareV2
      prepares
      commits
      proposer
      validatorSet
      parentCommits
      pendingRequest
      preparedCertificate := data.preparedCertificate
      proposalVerificationStatus := ∅ }

/-- `rcvd`: the received messages saved apart from the round state. -/
structure Rcvd where
  prepares : MessageSet Vote
  commits : MessageSet Vote
  parentCommits : MessageSet Vote

/-- `rcvdFromRoundState`. -/
def rcvdFromRoundState (rs : RoundState) : Rcvd := ⟨rs.prepares, rs.commits, rs.parentCommits⟩

/-- `rcvd.ToRLP`. -/
def Rcvd.toRLP (r : Rcvd) : RcvdRLP :=
  ⟨c.messageSet.encode r.prepares, c.messageSet.encode r.commits,
    c.messageSet.encode r.parentCommits⟩

/-- `rcvd.FromRLP`. -/
def Rcvd.fromRLP (r2 : RcvdRLP) : Option Rcvd := do
  let prepares ← c.messageSet.decode r2.prep
  let parentCommits ← c.messageSet.decode r2.parc
  let commits ← c.messageSet.decode r2.comm
  pure ⟨prepares, commits, parentCommits⟩

/-! ## Saving and loading -/

/-- `UpdateLastRcvd`: the received messages under the view's `rcvd` key. -/
def updateLastRcvd (db : Db) (rs : RoundState) : Db :=
  db.insert (rcvdView2Key rs.view) (c.rcvd.encode ((rcvdFromRoundState rs).toRLP c))

/-- `UpdateLastRoundState`: one batch that points `lastView` at the view and
stores the round state under the view's `rs` key. -/
def updateLastRoundState (db : Db) (rs : RoundState) : Db :=
  let viewKey := view2Key rs.view
  (db.insert lastViewKey viewKey).insert viewKey (c.roundState.encode (encodeRoundState c rs))

/-- `(MessageSet).Values()` as `AddAll` reads them: each message with its
`Address`. -/
def votesOf (ms : MessageSet Vote) : List (Address × Vote) := ms.values.map fun m => (m.address, m)

/-- `merged`: the saved message sets with the received messages added by
`AddAll`, which never overwrites a sender's message. -/
def merged (rs : RoundState) (r : Rcvd) : RoundState :=
  { rs with
    prepares := (rs.prepares.addAll (votesOf r.prepares)).1
    commits := (rs.commits.addAll (votesOf r.commits)).1
    parentCommits := (rs.parentCommits.addAll (votesOf r.parentCommits)).1 }

/-- How `GetRoundStateFor` fails. -/
inductive DbError
  /-- `leveldb.ErrNotFound`. -/
  | notFound
  /-- An RLP or serialization decoding error. -/
  | decode
deriving DecidableEq, Repr

/-- `GetRoundStateFor`: the round state saved for the view, merged with the
received messages saved for it when there are any. -/
def getRoundStateFor (db : Db) (view : View) : Except DbError RoundState :=
  match db.lookup (view2Key view) with
  | none => .error .notFound
  | some rawEntry =>
    match (c.roundState.decode rawEntry).bind (decodeRoundState c) with
    | none => .error .decode
    | some entry =>
      match db.lookup (rcvdView2Key view) with
      -- no rcvd: the round state as found
      | none => .ok entry
      | some rawRcvd =>
        match (c.rcvd.decode rawRcvd).bind (Rcvd.fromRLP c) with
        | none => .error .decode
        | some res => .ok (merged entry res)

/-! ## The saving decorator -/

/-- The mutations that `rsSaveDecorator` saves, with their arguments. -/
inductive Mutation
  | startNewRound (nextRound : Nat) (validatorSet : ValidatorSet) (nextProposer : Validator)
  | startNewSequence (nextSequence : Nat) (validatorSet : ValidatorSet) (nextProposer : Validator)
      (parentCommits : MessageSet Vote)
  | transitionToPrepreparedV2 (preprepareV2 : PreprepareV2)
  | transitionToWaitingForNewRound (r : Nat) (nextProposer : Validator)
  | transitionToCommitted
  | transitionToPrepared (quorumSize : Nat)
  | addCommit (msg : Vote)
  | addPrepare (msg : Vote)
  | addParentCommit (msg : Vote)
  | setPendingRequest (pendingRequest : Option Proposal)

namespace Mutation

/-- The mutation on the round state itself. -/
def apply (emptyBlockHash : Hash) (rs : RoundState) : Mutation → Except Err RoundState
  | startNewRound r vs p => .ok (rs.startNewRound r vs p)
  | startNewSequence n vs p pc => .ok (rs.startNewSequence n vs p pc emptyBlockHash)
  | transitionToPrepreparedV2 pp => .ok (rs.transitionToPrepreparedV2 pp)
  | transitionToWaitingForNewRound r p => rs.transitionToWaitingForNewRound r p
  | transitionToCommitted => .ok rs.transitionToCommitted
  | transitionToPrepared q => rs.transitionToPrepared q
  | addCommit m => rs.addCommit m
  | addPrepare m => rs.addPrepare m
  | addParentCommit m => rs.addParentCommit m
  | setPendingRequest r => .ok (rs.setPendingRequest r)

/-- The mutations saved with `persistRcvdOnNoError` (the received messages
only); the others are saved with `persistOnNoError`. -/
def savesRcvd : Mutation → Bool
  | addCommit _ | addPrepare _ | addParentCommit _ => true
  | _ => false

end Mutation

/-- `rsSaveDecorator`: the round state and the database it saves to
(`withSavingDecorator`). -/
structure RsSaveDecorator where
  db : Db
  rs : RoundState

namespace RsSaveDecorator

/-- A decorated mutation: the mutation, then on success `UpdateLastRcvd` or
`UpdateLastRoundState`. A failed mutation leaves the round state as it was
and saves nothing. -/
def mutate (emptyBlockHash : Hash) (d : RsSaveDecorator) (m : Mutation) :
    Except Err RsSaveDecorator :=
  match m.apply emptyBlockHash d.rs with
  | .error err => .error err
  | .ok rs =>
    .ok ⟨if m.savesRcvd then updateLastRcvd c d.db rs else updateLastRoundState c d.db rs, rs⟩

/-- Decorated mutations in order, up to the first error. -/
def mutateAll (emptyBlockHash : Hash) (d : RsSaveDecorator) : List Mutation → Except Err RsSaveDecorator
  | [] => .ok d
  | m :: ms =>
    match d.mutate c emptyBlockHash m with
    | .error err => .error err
    | .ok d => mutateAll emptyBlockHash d ms

end RsSaveDecorator

/-! ## Restarting -/

/-- `createRoundState`: the round state a starting core takes up, behind the
saving decorator. With no stored view, or one of a sequence below the block
after the head, it is `newRoundState` at round 0 of that block, with the
backend's validators and the proposer `selectProposer` picks for them;
otherwise it is the round state stored for the last view. -/
def createRoundState (emptyBlockHash : Hash) (db : Db) (headNumber : Nat) (valSet : ValidatorSet)
    (proposer : Validator) : Except DbError RsSaveDecorator :=
  let nextSequence := headNumber + 1
  match getLastView db with
  | some lastStoredView =>
    if lastStoredView.sequence < nextSequence then
      .ok ⟨db, RoundState.new ⟨nextSequence, 0⟩ valSet proposer emptyBlockHash⟩
    else (getRoundStateFor c db lastStoredView).map fun roundState => ⟨db, roundState⟩
  | none => .ok ⟨db, RoundState.new ⟨nextSequence, 0⟩ valSet proposer emptyBlockHash⟩

end CeloBlockchain.Ibft
