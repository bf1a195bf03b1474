import CeloBlockchain.Backend.Extra
import CeloBlockchain.Uptime.Monitor
import Mathlib.Data.List.AList
import Mathlib.Data.List.Chain

/-!
# Validator-set snapshots

This module models `Backend.snapshot` (`consensus/istanbul/backend/engine.go`)
with `Snapshot`, `loadSnapshot`, `store` and `apply`
(`consensus/istanbul/backend/snapshot.go`). `snapshot` finds the validator
set that signs off the block after `number`. It walks back by epochs from the
last epoch block not after `number` to a snapshot it already has: one in the
`recentSnapshots` cache, which is keyed by block number, or one in the
database, which is keyed by block hash. Below the last of them is the genesis
block. It then applies the validator-set diffs of the epoch blocks from there
up to `number`.

* A header is what `snapshot` and `apply` read of it: its number, its hash,
  its decoded Istanbul extra (`none` when it does not decode) and the address
  that `ecrecover` recovers from its seal (`none` on an error).
* The chain is `GetHeaderByNumber`. A header stands at its own number, and
  distinct blocks have distinct hashes.
* The `recentSnapshots` ARC cache is a map from block numbers. Which entry it
  drops when it is full is left out: the `evict` call drops any entry at any
  time.
* The database maps a hash to the JSON form of a snapshot, whose validators
  lose the set's randomness. The BLS key cache, and its rewrite in
  `loadSnapshot`, are left out, and so are database errors. `copy` is the
  identity on values.
* Block numbers are `Nat`. The search subtracts the epoch only from a
  non-zero multiple of it, so the subtraction never wraps as a `uint64`
  would. The model keeps Go's check for a wrap all the same.
* The two panics of `snapshot` are the errors `numberIterUnderflowed` and
  `numberIterShouldBeZero`.
-/

namespace CeloBlockchain.Backend

open Ibft (Address Hash Validator ValidatorSet)

/-- The part of `istanbul.Config` that `snapshot` reads.
`ApplyParamsChainConfigToConfig` refuses an epoch below `MinEpochSize`, and
the default is 30000. -/
structure Config where
  epoch : Nat
  epoch_pos : 0 < epoch

/-- What `snapshot` and `Snapshot.apply` read of a header. -/
structure HeaderView where
  number : Nat
  hash : Hash
  /-- `header.IstanbulExtra()`, `none` on an error. -/
  istanbulExtra : Option IstanbulExtra
  /-- `ecrecover(header)`, `none` on an error. -/
  signer : Option Address
  deriving DecidableEq, Repr

/-- `ChainHeaderReader.GetHeaderByNumber` on one chain. -/
structure Chain where
  getHeaderByNumber : Nat → Option HeaderView
  number_eq : ∀ n header, getHeaderByNumber n = some header → header.number = n
  hash_injective : ∀ n n' header header', getHeaderByNumber n = some header →
    getHeaderByNumber n' = some header' → header.hash = header'.hash → n = n'

/-- `Snapshot`. -/
structure Snapshot where
  epoch : Nat
  number : Nat
  hash : Hash
  valSet : ValidatorSet
  deriving DecidableEq, Repr

/-- `snapshotJSON`: what the database holds of a snapshot. -/
structure SnapshotJSON where
  epoch : Nat
  number : Nat
  hash : Hash
  validators : List Validator
  deriving DecidableEq, Repr

abbrev SnapshotDB := AList fun _ : Hash => SnapshotJSON

abbrev RecentSnapshots := AList fun _ : Nat => Snapshot

/-- The snapshot state of the backend: `recentSnapshots` and the database. -/
structure SnapshotStore where
  recentSnapshots : RecentSnapshots
  db : SnapshotDB

/-- The errors of `snapshot`, and its two panics. -/
inductive SnapshotError
  /-- "Cannot load genesis". -/
  | cannotLoadGenesis
  /-- An error of `header.IstanbulExtra()`. -/
  | invalidExtra
  | invalidValidatorSetDiff
  | unknownBlock
  | invalidVotingChain
  /-- An error of `ecrecover`. -/
  | invalidSignature
  | unauthorized
  /-- The panic "NumberIter underflowed". -/
  | numberIterUnderflowed
  /-- The panic "NumberIter should be 0". -/
  | numberIterShouldBeZero
  deriving DecidableEq, Repr

/-- The two panics. -/
def SnapshotError.IsPanic (e : SnapshotError) : Prop :=
  e = .numberIterUnderflowed ∨ e = .numberIterShouldBeZero

instance (e : SnapshotError) : Decidable e.IsPanic :=
  inferInstanceAs (Decidable (_ ∨ _))

/-! ## Validator sets -/

/-- `CombineIstanbulExtraToValidatorData`. -/
def combineIstanbulExtraToValidatorData (addrs : List Address) (blsPublicKeys : List Nat) :
    Option (List Validator) :=
  if addrs.length ≠ blsPublicKeys.length then none
  else some (List.zipWith Validator.mk addrs blsPublicKeys)

/-- `validator.NewSet`. -/
def newSet (validators : List Validator) : ValidatorSet := { list := validators }

/-- What `apply` does to the validator set for one header's extra: remove
its `RemovedValidators`, then add its `AddedValidators`. -/
def applyValidatorSetDiff (valSet : ValidatorSet) (istExtra : IstanbulExtra) :
    Option ValidatorSet := do
  let validators ← combineIstanbulExtraToValidatorData istExtra.addedValidators
    istExtra.addedValidatorsPublicKeys
  let (removed, valSet) := valSet.removeValidators istExtra.removedValidators
  if !removed then none
  let (added, valSet) := valSet.addValidators validators
  if !added then none
  pure valSet

/-! ## Storing and loading -/

/-- `newSnapshot`. -/
def newSnapshot (epoch number : Nat) (hash : Hash) (valSet : ValidatorSet) : Snapshot :=
  ⟨epoch, number, hash, valSet⟩

/-- `toJSONStruct`. -/
def Snapshot.toJSONStruct (s : Snapshot) : SnapshotJSON :=
  ⟨s.epoch, s.number, s.hash, s.valSet.list⟩

/-- `UnmarshalJSON`: the set is rebuilt from its validators. -/
def SnapshotJSON.unmarshal (j : SnapshotJSON) : Snapshot :=
  ⟨j.epoch, j.number, j.hash, { list := j.validators }⟩

/-- `store`: the snapshot goes under its own hash. -/
def Snapshot.store (s : Snapshot) (db : SnapshotDB) : SnapshotDB :=
  db.insert s.hash s.toJSONStruct

/-- `loadSnapshot`. -/
def loadSnapshot (epoch : Nat) (db : SnapshotDB) (hash : Hash) : Option Snapshot :=
  (db.lookup hash).map fun j => { j.unmarshal with epoch }

/-! ## `apply` -/

/-- One header of `apply`'s loop. -/
def Snapshot.applyHeader (epoch : Nat) (snap : Snapshot) (header : HeaderView) :
    Except SnapshotError Snapshot := do
  let some validator := header.signer | throw .invalidSignature
  if snap.valSet.getByAddress validator = none then throw .unauthorized
  let some istExtra := header.istanbulExtra | throw .invalidExtra
  let some valSet := applyValidatorSetDiff snap.valSet istExtra
    | throw .invalidValidatorSetDiff
  pure ⟨epoch, snap.number + epoch, header.hash, valSet⟩

/-- The loop of `apply`. Each header's snapshot is stored once it is made, so
an error keeps the snapshots stored before it. -/
def Snapshot.applyHeaders (epoch : Nat) :
    Snapshot → List HeaderView → SnapshotDB → SnapshotDB × Except SnapshotError Snapshot
  | snap, [], db => (db, .ok snap)
  | snap, header :: headers, db =>
    match snap.applyHeader epoch header with
    | .error e => (db, .error e)
    | .ok snap => applyHeaders epoch snap headers (snap.store db)

/-- `Snapshot.apply`: the headers must follow each other by an epoch from the
snapshot's block. -/
def Snapshot.apply (s : Snapshot) (headers : List HeaderView) (db : SnapshotDB) :
    SnapshotDB × Except SnapshotError Snapshot :=
  match headers with
  | [] => (db, .ok s)
  | header :: _ =>
    if ¬headers.IsChain (fun h h' => h'.number = h.number + s.epoch) then
      (db, .error .invalidVotingChain)
    else if header.number ≠ s.number + s.epoch then (db, .error .invalidVotingChain)
    else applyHeaders s.epoch s headers db

/-! ## `snapshot` -/

/-- Where the search starts: `number` if it is the last block of its epoch,
else the last block of the epoch before. -/
def startNumberIter (epoch number : Nat) : Nat :=
  if !Uptime.isLastBlockOfEpoch number epoch then
    Uptime.getEpochLastBlockNumber (Uptime.getEpochNumber number epoch - 1) epoch
  else number

/-- The hash the search looks up on disk at `numberIter`: the `hash` argument
at `number`, else the chain's (zero when the chain has no header there). -/
def searchHash (chain : Chain) (number : Nat) (hash : Hash) (numberIter : Nat) : Hash :=
  if numberIter = number ∧ hash ≠ 0 then hash
  else ((chain.getHeaderByNumber numberIter).map HeaderView.hash).getD 0

/-- The search loop of `snapshot`, from `numberIter` back by epochs. It
returns the cache after it, the `numberIter` it stopped at and the snapshot
it found (none when it reached block 0 without one). -/
def searchSnapshot (cfg : Config) (chain : Chain) (db : SnapshotDB) (number : Nat)
    (hash : Hash) (recentSnapshots : RecentSnapshots) (numberIter : Nat) :
    Except SnapshotError (RecentSnapshots × Nat × Option Snapshot) :=
  match recentSnapshots.lookup numberIter with
  | some s => .ok (recentSnapshots, numberIter, some s)
  | none =>
    let blockHash := searchHash chain number hash numberIter
    match (if blockHash ≠ 0 then loadSnapshot cfg.epoch db blockHash else none) with
    | some s => .ok (recentSnapshots.insert numberIter s, numberIter, some s)
    | none =>
      if numberIter = 0 then .ok (recentSnapshots, numberIter, none)
      else if number < numberIter then .error .numberIterUnderflowed
      else searchSnapshot cfg chain db number hash recentSnapshots (numberIter - cfg.epoch)
termination_by numberIter
decreasing_by
  have hpos := cfg.epoch_pos
  omega

/-- The snapshot of the genesis block, made and stored when the search found
none. -/
def genesisSnapshot (cfg : Config) (chain : Chain) (db : SnapshotDB) (numberIter : Nat) :
    Except SnapshotError (SnapshotDB × Snapshot) := do
  if numberIter ≠ 0 then throw .numberIterShouldBeZero
  let some genesis := chain.getHeaderByNumber 0 | throw .cannotLoadGenesis
  let some istanbulExtra := genesis.istanbulExtra | throw .invalidExtra
  if istanbulExtra.removedValidators ≠ 0 then throw .invalidValidatorSetDiff
  let some validators := combineIstanbulExtraToValidatorData istanbulExtra.addedValidators
    istanbulExtra.addedValidatorsPublicKeys | throw .invalidValidatorSetDiff
  let snap := newSnapshot cfg.epoch 0 genesis.hash (newSet validators)
  pure (snap.store db, snap)

/-- The header of block `numberIter`: the last of `parents` with that number,
else the chain's. -/
def ancestorHeader (chain : Chain) (parents : List HeaderView) (numberIter : Nat) :
    Option HeaderView :=
  (parents.reverse.find? (·.number = numberIter)).or (chain.getHeaderByNumber numberIter)

/-- The roll-forward loop of `snapshot`: the headers of the epoch blocks after
`numberIter`, up to `number`, appended to `headers`. It returns the last
`numberIter` with them. -/
def collectHeaders (cfg : Config) (chain : Chain) (parents : List HeaderView) (number : Nat)
    (numberIter : Nat) (headers : List HeaderView) :
    Except SnapshotError (Nat × List HeaderView) :=
  if numberIter + cfg.epoch ≤ number then
    match ancestorHeader chain parents (numberIter + cfg.epoch) with
    | none => .error .unknownBlock
    | some header =>
      collectHeaders cfg chain parents number (numberIter + cfg.epoch) (headers ++ [header])
  else .ok (numberIter, headers)
termination_by number - numberIter
decreasing_by
  have hpos := cfg.epoch_pos
  omega

/-- The end of `snapshot`: apply the headers after `numberIter` to `snap`,
and cache the result when there were any. -/
def rollForward (cfg : Config) (chain : Chain) (parents : List HeaderView) (number : Nat)
    (numberIter : Nat) (st : SnapshotStore) (snap : Snapshot) :
    SnapshotStore × Except SnapshotError Snapshot :=
  match collectHeaders cfg chain parents number numberIter [] with
  | .error e => (st, .error e)
  | .ok (numberIter, headers) =>
    if headers = [] then (st, .ok snap)
    else match snap.apply headers st.db with
      | (db, .error e) => ({ st with db }, .error e)
      | (db, .ok snap) => (⟨st.recentSnapshots.insert numberIter snap, db⟩, .ok snap)

/-- `Backend.snapshot`. The snapshot returned is a copy that carries `number`
and `hash`. -/
def snapshot (cfg : Config) (chain : Chain) (st : SnapshotStore) (number : Nat) (hash : Hash)
    (parents : List HeaderView) : SnapshotStore × Except SnapshotError Snapshot :=
  match searchSnapshot cfg chain st.db number hash st.recentSnapshots
      (startNumberIter cfg.epoch number) with
  | .error e => (st, .error e)
  | .ok (recentSnapshots, numberIter, found) =>
    let found : Except SnapshotError (SnapshotDB × Snapshot) :=
      match found with
      | some snap => .ok (st.db, snap)
      | none => genesisSnapshot cfg chain st.db numberIter
    match found with
    | .error e => ({ st with recentSnapshots }, .error e)
    | .ok (db, snap) =>
      let (st, result) := rollForward cfg chain parents number numberIter ⟨recentSnapshots, db⟩ snap
      (st, result.map fun snap => { snap with number, hash })

/-! ## Runs -/

/-- What happens to the snapshot state: `snapshot` calls, and the ARC cache
dropping an entry. -/
inductive SnapshotCall
  | snapshot (number : Nat) (hash : Hash) (parents : List HeaderView)
  | evict (number : Nat)

def SnapshotStore.empty : SnapshotStore := ⟨∅, ∅⟩

def snapshotStep (cfg : Config) (chain : Chain) (st : SnapshotStore) : SnapshotCall → SnapshotStore
  | .snapshot number hash parents => (snapshot cfg chain st number hash parents).1
  | .evict number => { st with recentSnapshots := st.recentSnapshots.erase number }

end CeloBlockchain.Backend
