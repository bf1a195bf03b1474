import CeloBlockchain.Lib.Run
import CeloBlockchain.Lib.Rlp

/-!
# The replica state

`consensus/istanbul/backend/internal/replica/state.go`, with the write of
`state_db.go`. A validator is a primary, which runs the consensus core, or a
replica, which follows the chain. `SetStartValidatingBlock` and
`SetStopValidatingBlock` schedule a switch at the ends of a range
`[start, stop)` of blocks, and `NewChainHead` makes it when the chain gets
there.

The node (`Node`) is the `replicaStateImpl` record, whether the core runs, and
what the replica-state database holds. Each method is given the environment's
answers (`Answers`): whether `startFn`, `stopFn` and `StoreReplicaState`
succeed, if the method calls them. A start that succeeds makes the core run
and a stop that succeeds stops it. A write that succeeds leaves `EncodeRLP` of
the state in the database; one that fails leaves the database as it was.

Block numbers are `Nat`: a negative `*big.Int` fails the same `> 0` check as
zero. A nil bound is `none`. Comparing a block number with a nil bound panics
in `big.Int.Cmp`, and those results are `none`. `logger.Crit` exits the
process; `NewChainHead` returns the error `crit` where it calls it.
-/

namespace CeloBlockchain.Replica

open Rlp

/-- `state`. -/
inductive State where
  | primaryPermanent
  | primaryInRange
  | replicaPermanent
  | replicaWaiting
  deriving DecidableEq, Repr

/-- The `uint64` value of each constant (`iota`). -/
def State.code : State → Nat
  | .primaryPermanent => 0
  | .primaryInRange => 1
  | .replicaPermanent => 2
  | .replicaWaiting => 3

/-- The constant a decoded `uint64` names; `none` for the values no constant
has, which the source would keep as a state of no name. -/
def State.ofCode : Nat → Option State
  | 0 => some .primaryPermanent
  | 1 => some .primaryInRange
  | 2 => some .replicaPermanent
  | 3 => some .replicaWaiting
  | _ => none

/-- `replicaStateImpl`: the fields the methods read and write. -/
structure ReplicaState where
  state : State
  startValidatingBlock : Option Nat
  stopValidatingBlock : Option Nat
  deriving DecidableEq, Repr

/-- The errors the methods return. -/
inductive Error where
  /-- "blockNumber must be > 0". -/
  | notPositive
  /-- "Start block number should be less than the stop block number". -/
  | startNotBeforeStop
  /-- "Can't change set start validating block when primary (%v)". -/
  | startWhenPrimary (state : State)
  /-- "Stop block number should be greater than the start block number". -/
  | stopNotAfterStart
  /-- "Can't change stop validating block when permanent replica". -/
  | stopWhenPermanentReplica
  /-- The error of `startFn` or `stopFn`, returned as it is. -/
  | core
  /-- "Error when saving rsdb in <method>. err: %v". -/
  | saving (method : String)
  /-- "Error when saving rsdb in <method>: %v. Tried to restart core, but
  failed with: %v." (`MakeReplica`), "... Tried to stop core, ..."
  (`MakePrimary`). -/
  | savingAndCore (method : String)
  /-- `logger.Crit` in `NewChainHead` after a failed write: the process exits. -/
  | crit
  deriving DecidableEq, Repr

/-- What the environment answers during one method: whether `startFn`,
`stopFn` and `StoreReplicaState` succeed, if the method calls them. -/
structure Answers where
  startOk : Bool
  stopOk : Bool
  storeOk : Bool
  deriving DecidableEq, Repr

/-- The validator node: its replica state, whether its core runs, and the
value the replica-state database holds under `replicaStateKey`. -/
structure Node where
  rs : ReplicaState
  running : Bool
  db : Option (List UInt8)
  deriving DecidableEq, Repr

/-! ## The stored form -/

/-- `replicaStateRLP` as an item. A nil bound is written as a nil `*big.Int`,
which RLP encodes as zero. -/
def ReplicaState.toItem (rs : ReplicaState) : Item :=
  .list [encodeUint rs.state.code, encodeUint (rs.startValidatingBlock.getD 0),
    encodeUint (rs.stopValidatingBlock.getD 0)]

/-- `EncodeRLP`. -/
def ReplicaState.encodeRLP (rs : ReplicaState) : List UInt8 := encode rs.toItem

/-- A bound as `DecodeRLP` keeps it: zero is read back as nil. -/
def boundOfBig (n : Nat) : Option Nat := if n = 0 then none else some n

/-- `DecodeRLP`, through `rlp.DecodeBytes` (which rejects trailing bytes). -/
def decodeRLP (raw : List UInt8) : Option ReplicaState :=
  match decode raw with
  | some (.list [state, start, stop]) => do
    let state ← (decodeUint state).bind State.ofCode
    let start ← decodeBigInt start
    let stop ← decodeBigInt stop
    pure ⟨state, boundOfBig start, boundOfBig stop⟩
  | _ => none

/-- `NewState`: the replica state read from the database, or on first
startup (`ErrNotFound`) a permanent replica or primary; `none` when the stored
value does not decode. -/
def newState (isReplica : Bool) (db : Option (List UInt8)) : Option ReplicaState :=
  match db with
  | none => some ⟨if isReplica then .replicaPermanent else .primaryPermanent, none, none⟩
  | some raw => decodeRLP raw

/-! ## The methods -/

/-- `IsPrimary`. -/
def ReplicaState.isPrimary (rs : ReplicaState) : Bool :=
  rs.state == .primaryPermanent || rs.state == .primaryInRange

/-- `IsPrimaryForSeq`. -/
def ReplicaState.isPrimaryForSeq (rs : ReplicaState) (seq : Nat) : Option Bool :=
  match rs.state with
  | .primaryPermanent => some true
  | .replicaPermanent => some false
  | .replicaWaiting => rs.startValidatingBlock.map fun start => decide (start ≤ seq)
  | .primaryInRange => rs.stopValidatingBlock.map fun stop => decide (seq < stop)

/-- The write at the end of a setter: the node takes `rs` and the database its
encoding when the write succeeds; when it fails the node is rolled back and
the setter returns its error. -/
def Node.save (n : Node) (storeOk : Bool) (method : String) (rs : ReplicaState) :
    Node × Option Error :=
  if storeOk then ({ n with rs, db := some rs.encodeRLP }, none)
  else (n, some (.saving method))

/-- `SetStartValidatingBlock`. -/
def setStartValidatingBlock (n : Node) (ans : Answers) (blockNumber : Nat) :
    Node × Option Error :=
  if blockNumber = 0 then (n, some .notPositive)
  else if n.rs.stopValidatingBlock.any (fun stop => stop ≤ blockNumber) then
    (n, some .startNotBeforeStop)
  else
    match n.rs.state with
    | .replicaPermanent =>
      n.save ans.storeOk "SetStartValidatingBlock"
        { n.rs with state := .replicaWaiting, startValidatingBlock := some blockNumber }
    -- a new start block while waiting to start
    | .replicaWaiting =>
      n.save ans.storeOk "SetStartValidatingBlock"
        { n.rs with startValidatingBlock := some blockNumber }
    | state => (n, some (.startWhenPrimary state))

/-- `SetStopValidatingBlock`. -/
def setStopValidatingBlock (n : Node) (ans : Answers) (blockNumber : Nat) :
    Node × Option Error :=
  if blockNumber = 0 then (n, some .notPositive)
  else if n.rs.startValidatingBlock.any (fun start => !(start < blockNumber)) then
    (n, some .stopNotAfterStart)
  else
    match n.rs.state with
    | .primaryPermanent =>
      n.save ans.storeOk "SetStopValidatingBlock"
        { n.rs with state := .primaryInRange, stopValidatingBlock := some blockNumber }
    -- a new stop block while waiting to stop
    | .primaryInRange =>
      n.save ans.storeOk "SetStopValidatingBlock"
        { n.rs with stopValidatingBlock := some blockNumber }
    | .replicaPermanent => (n, some .stopWhenPermanentReplica)
    -- a stop block while waiting to start
    | .replicaWaiting =>
      n.save ans.storeOk "SetStopValidatingBlock"
        { n.rs with stopValidatingBlock := some blockNumber }

/-- `MakeReplica`: the core of a primary is stopped, then a permanent replica
is written. When the write fails the core is started again, whatever the node
was, and the state is rolled back if that start succeeds. -/
def makeReplica (n : Node) (ans : Answers) : Node × Option Error :=
  let replica : ReplicaState := ⟨.replicaPermanent, none, none⟩
  let primary := n.rs.state == .primaryPermanent || n.rs.state == .primaryInRange
  if primary && !ans.stopOk then (n, some .core)
  else
    let running := if primary then false else n.running
    if ans.storeOk then (⟨replica, running, some replica.encodeRLP⟩, none)
    else if ans.startOk then ({ n with running := true }, some (.saving "MakeReplica"))
    -- stopped, but could not restart
    else (⟨replica, running, n.db⟩, some (.savingAndCore "MakeReplica"))

/-- `MakePrimary`: the core of a replica is started, then a permanent primary
is written. When the write fails the core is stopped again, whatever the node
was, and the state is rolled back if that stop succeeds. -/
def makePrimary (n : Node) (ans : Answers) : Node × Option Error :=
  let primary : ReplicaState := ⟨.primaryPermanent, none, none⟩
  let replica := n.rs.state == .replicaPermanent || n.rs.state == .replicaWaiting
  if replica && !ans.startOk then (n, some .core)
  else
    let running := if replica then true else n.running
    if ans.storeOk then (⟨primary, running, some primary.encodeRLP⟩, none)
    else if ans.stopOk then ({ n with running := false }, some (.saving "MakePrimary"))
    -- started, but could not stop
    else (⟨primary, running, n.db⟩, some (.savingAndCore "MakePrimary"))

/-- `NewChainHead`: a primary in range stops at its stop block and a waiting
replica starts at its start block. A failed write switches the core back,
rolls the state back if that succeeds, and exits the process either way. -/
def newChainHead (n : Node) (ans : Answers) (blockNumber : Nat) :
    Option (Node × Option Error) :=
  match n.rs.state with
  | .primaryInRange =>
    n.rs.stopValidatingBlock.map fun stop =>
      if stop ≤ blockNumber then
        -- "Error stopping core": nothing changes
        if !ans.stopOk then (n, none)
        else
          let replica : ReplicaState := ⟨.replicaPermanent, none, none⟩
          if ans.storeOk then (⟨replica, false, some replica.encodeRLP⟩, none)
          else if ans.startOk then ({ n with running := true }, some .crit)
          else (⟨replica, false, n.db⟩, some .crit)
      else (n, none)
  | .replicaWaiting =>
    n.rs.startValidatingBlock.map fun start =>
      if start ≤ blockNumber then
        -- "Error starting core": nothing changes
        if !ans.startOk then (n, none)
        else
          -- the start block is kept when there is a stop block
          let primary : ReplicaState := match n.rs.stopValidatingBlock with
            | none => ⟨.primaryPermanent, none, none⟩
            | some _ => { n.rs with state := .primaryInRange }
          if ans.storeOk then (⟨primary, true, some primary.encodeRLP⟩, none)
          else if ans.stopOk then ({ n with running := false }, some .crit)
          else (⟨primary, true, n.db⟩, some .crit)
      else (n, none)
  | _ => some (n, none)

/-! ## Runs -/

/-- A call of the management RPC, or of the chain-head loop. -/
inductive Call where
  | setStartValidatingBlock (blockNumber : Nat)
  | setStopValidatingBlock (blockNumber : Nat)
  | makeReplica
  | makePrimary
  | newChainHead (blockNumber : Nat)
  deriving DecidableEq, Repr

/-- One call with the environment's answers; `none` when it panics. -/
def Node.call (n : Node) (ans : Answers) : Call → Option (Node × Option Error)
  | .setStartValidatingBlock b => some (setStartValidatingBlock n ans b)
  | .setStopValidatingBlock b => some (setStopValidatingBlock n ans b)
  | .makeReplica => some (makeReplica n ans)
  | .makePrimary => some (makePrimary n ans)
  | .newChainHead b => newChainHead n ans b

/-- The step of a run. A call that panics would leave the node as it was;
`StateSpec` shows that no call panics from a valid state. -/
def step (n : Node) (e : Call × Answers) : Node :=
  ((n.call e.2 e.1).map Prod.fst).getD n

/-- The node after its first startup: `NewState` wrote the fresh state, and the
miner started the core of a primary (`worker.go`). -/
def Node.init (isReplica : Bool) : Node :=
  let rs : ReplicaState :=
    ⟨if isReplica then .replicaPermanent else .primaryPermanent, none, none⟩
  ⟨rs, rs.isPrimary, some rs.encodeRLP⟩

end CeloBlockchain.Replica
