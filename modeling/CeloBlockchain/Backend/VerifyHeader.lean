import CeloBlockchain.Backend.EpochTransition
import CeloBlockchain.Ibft.AggregatedSeal

/-!
# Header verification

`verifyHeader` and the checks it runs (`consensus/istanbul/backend/engine.go`):
the L2 migration and future-block guards, the extra-data format, then
`verifyCascadingFields`. On a node with the full chain that checks the parent
link and timestamp, the signer (`verifySigner`), the fields the Gingerbread
fork fixes, and the seals (`verifyAggregatedSeals`). A lightest-mode node checks
only that the epoch block exists, and then the block's own seal.
`VerifyHeaders` runs `verifyHeader` over a batch, each header with the ones
before it as parents, and reports `ErrUnknownAncestor` for every header after
the first error.

* A header here is what these functions read of `types.Header`: the
  `HeaderView` that `snapshot` reads, and the parent hash, time, gas and fork
  fields. `header.Number` is never nil.
* `ChainHeaderReader` is one chain: `GetHeader(hash, number)` finds the
  chain's header at `number` when it has that hash. Side chains are not
  represented.
* The BLS library is a parameter: the byte length of its signatures
  (`blscrypto.SIGNATUREBYTES`) and the core's `Bls`, which reads a signature
  of that length as the number its bytes encode.
* `now()` is read once for a batch.
-/

namespace CeloBlockchain.Backend

open Ibft (Address Hash Validator ValidatorSet)

/-! ## Headers and chain readers -/

/-- What header verification reads of a `types.Header`. -/
structure ChainHeader where
  view : HeaderView
  parentHash : Hash
  time : Nat
  gasLimit : Nat
  gasUsed : Nat
  baseFee : Option Nat
  difficulty : Option Nat
  /-- `header.Nonce.Uint64()`. -/
  nonce : Nat
  uncleHash : Hash
  mixDigest : Hash
  deriving DecidableEq, Repr

/-- `ChainHeaderReader.GetHeaderByNumber` on one chain. -/
structure HeaderReader where
  getHeaderByNumber : Nat → Option ChainHeader
  number_eq : ∀ n header, getHeaderByNumber n = some header → header.view.number = n
  hash_injective : ∀ n n' header header', getHeaderByNumber n = some header →
    getHeaderByNumber n' = some header' → header.view.hash = header'.view.hash → n = n'

/-- The chain `snapshot` reads: the views of the reader's headers. -/
def HeaderReader.toChain (reader : HeaderReader) : Chain where
  getHeaderByNumber n := (reader.getHeaderByNumber n).map ChainHeader.view
  number_eq n header h := by
    obtain ⟨h', hh', rfl⟩ := Option.map_eq_some_iff.mp h
    exact reader.number_eq n h' hh'
  hash_injective n n' header header' h h' hhash := by
    obtain ⟨g, hg, rfl⟩ := Option.map_eq_some_iff.mp h
    obtain ⟨g', hg', rfl⟩ := Option.map_eq_some_iff.mp h'
    exact reader.hash_injective n n' g g' hg hg' hhash

/-- `GetHeader(hash, number)`. -/
def HeaderReader.getHeader (reader : HeaderReader) (hash : Hash) (number : Nat) :
    Option ChainHeader :=
  (reader.getHeaderByNumber number).filter fun header => header.view.hash == hash

/-! ## Configuration -/

/-- What header verification reads of `params.ChainConfig` and
`istanbul.Config` besides the epoch. -/
structure VerifyConfig where
  blockPeriod : Nat
  fullHeaderChainAvailable : Bool
  gingerbreadBlock : Option Nat
  l2MigrationBlock : Option Nat

/-- `isForked(s, head)`: a fork block is set and reached. -/
def isForked (s : Option Nat) (head : Nat) : Bool :=
  match s with
  | some s => decide (s ≤ head)
  | none => false

/-- `IsGingerbread`. -/
def VerifyConfig.isGingerbread (vcfg : VerifyConfig) (number : Nat) : Bool :=
  isForked vcfg.gingerbreadBlock number

/-- `IsL2Migration`: false when the migration block is nil or 0. -/
def VerifyConfig.isL2Migration (vcfg : VerifyConfig) (number : Nat) : Bool :=
  isForked vcfg.l2MigrationBlock number &&
    match vcfg.l2MigrationBlock with
    | some b => decide (0 < b)
    | none => false

/-- `mobileAllowedClockSkew`, in seconds. -/
def mobileAllowedClockSkew : Nat := 5

/-- `types.EmptyUncleHash`, the hash of the RLP of an empty list of headers. -/
def emptyUncleHash : Hash := 0x1dcc4de8dec75d7aab85b567b6ccd41ad312451b948a7413f0a142fd40d49347

/-- `types.EmptyMixDigest`. -/
def emptyMixDigest : Hash := 0

/-- The BLS library as `verifyAggregatedSeal` uses it. -/
structure BlsVerifier where
  signatureBytes : Nat
  bls : Ibft.Bls

/-! ## Errors -/

/-- The errors of header verification. -/
inductive VerifyError
  /-- "Block number %d is after the L2 migration." -/
  | afterL2Migration (number : Nat)
  /-- `consensus.ErrFutureBlock`. -/
  | futureBlock
  /-- `errInvalidExtraDataFormat`. -/
  | invalidExtraDataFormat
  /-- `consensus.ErrUnknownAncestor`. -/
  | unknownAncestor
  /-- `errInvalidTimestamp`. -/
  | invalidTimestamp
  /-- "invalid gasUsed: have %d, gasLimit %d". -/
  | invalidGasUsed (gasUsed gasLimit : Nat)
  /-- "invalid BaseFee: must be different than <nil>". -/
  | nilBaseFee
  /-- "invalid Difficulty: must be different than <nil>". -/
  | nilDifficulty
  /-- "invalid Difficulty: have %d, want 0". -/
  | invalidDifficulty (difficulty : Nat)
  /-- "invalid Nonce: have %d, want 0". -/
  | invalidNonce (nonce : Nat)
  /-- "invalid UncleHash: have %v, want %v". -/
  | invalidUncleHash (uncleHash : Hash)
  /-- "invalid MixDigest: have %v, want %v". -/
  | invalidMixDigest (mixDigest : Hash)
  /-- "invalid baseFee before fork: have %s, want <nil>". -/
  | baseFeeBeforeFork (baseFee : Nat)
  /-- "invalid gasLimit before fork: have %d, want <nil>". -/
  | gasLimitBeforeFork (gasLimit : Nat)
  /-- "invalid Difficulty before fork: have %d, want <nil>". -/
  | difficultyBeforeFork (difficulty : Nat)
  /-- An error of `snapshot`, of `verifySigner` or of `header.IstanbulExtra()`,
  returned as it is. -/
  | snapshot (e : SnapshotError)
  /-- `errNonEmptyAggregatedSeal`. -/
  | nonEmptyAggregatedSeal
  /-- `errEmptyAggregatedSeal`. -/
  | emptyAggregatedSeal
  /-- `errInvalidAggregatedSeal`. -/
  | invalidAggregatedSeal
  /-- `errInsufficientSeals` or `errInvalidSignature` of the quorum and
  signature check. -/
  | seal (e : Ibft.SealErr)
  deriving DecidableEq, Repr

/-! ## The checks -/

/-- The seal as the core's `verifyAggregatedSeal` reads it. -/
def IstanbulAggregatedSeal.toCore (s : IstanbulAggregatedSeal) : Ibft.IstanbulAggregatedSeal :=
  ⟨s.bitmap, BigEndian.ofBytes s.signature, s.round⟩

/-- `verifyAggregatedSeal`: a signature of the library's length, then the
quorum of signers and the signature. -/
def verifyAggregatedSeal (bls : BlsVerifier) (headerHash : Hash) (validators : ValidatorSet)
    (aggregatedSeal : IstanbulAggregatedSeal) : Option VerifyError :=
  if aggregatedSeal.signature.length ≠ bls.signatureBytes then some .invalidAggregatedSeal
  else
    match Ibft.verifyAggregatedSeal bls.bls headerHash validators aggregatedSeal.toCore with
    | .ok () => none
    | .error e => some (.seal e)

/-- The fields `verifyCascadingFields` checks against the fork rules: from
Gingerbread the gas used within the limit, a base fee, a zero difficulty and
nonce, and the empty uncle hash and mix digest; before it no base fee, gas
limit or difficulty. -/
def verifyForkFields (vcfg : VerifyConfig) (header : ChainHeader) : Option VerifyError :=
  if vcfg.isGingerbread header.view.number then
    if header.gasUsed > header.gasLimit then some (.invalidGasUsed header.gasUsed header.gasLimit)
    else if header.baseFee = none then some .nilBaseFee
    else
      match header.difficulty with
      | none => some .nilDifficulty
      | some difficulty =>
        if difficulty ≠ 0 then some (.invalidDifficulty difficulty)
        else if header.nonce ≠ 0 then some (.invalidNonce header.nonce)
        else if header.uncleHash ≠ emptyUncleHash then some (.invalidUncleHash header.uncleHash)
        else if header.mixDigest ≠ emptyMixDigest then some (.invalidMixDigest header.mixDigest)
        else none
  else
    match header.baseFee with
    | some baseFee => some (.baseFeeBeforeFork baseFee)
    | none =>
      if header.gasLimit > 0 then some (.gasLimitBeforeFork header.gasLimit)
      else
        match header.difficulty with
        | some difficulty => some (.difficultyBeforeFork difficulty)
        | none => none

/-- `checkEpochBlockExists`: the last block of the previous epoch is among the
parents or on the chain. -/
def checkEpochBlockExists (cfg : Config) (reader : HeaderReader) (header : ChainHeader)
    (parents : List ChainHeader) : Option VerifyError :=
  let number := header.view.number
  let epoch := Uptime.getEpochNumber number cfg.epoch
  let epochBlockNumber :=
    if number = Uptime.getEpochLastBlockNumber (epoch - 1) cfg.epoch then
      Uptime.getEpochLastBlockNumber (epoch - 2) cfg.epoch
    else Uptime.getEpochLastBlockNumber (epoch - 1) cfg.epoch
  if parents.any (fun hdr => hdr.view.number == epochBlockNumber) then none
  else
    match reader.getHeaderByNumber epochBlockNumber with
    | none => some .unknownAncestor
    | some parent => if parent.view.number ≠ epochBlockNumber then some .unknownAncestor else none

/-- The check of the block's own seal: empty for a proposal, otherwise not
empty and accepted by `verifyAggregatedSeal`. -/
def checkAggregatedSeal (bls : BlsVerifier) (emptyAggregatedSeal : Bool) (headerHash : Hash)
    (validators : ValidatorSet) (aggregatedSeal : IstanbulAggregatedSeal) : Option VerifyError :=
  if emptyAggregatedSeal then
    if aggregatedSeal.signature.length ≠ 0 then some .nonEmptyAggregatedSeal else none
  else if aggregatedSeal.signature.length = 0 then some .emptyAggregatedSeal
  else verifyAggregatedSeal bls headerHash validators aggregatedSeal

/-- The check of the parent's seal, on a node with the full chain above block
1. At the first block of an epoch the parent's validators are those of the
snapshot two blocks back; otherwise they are `validators`, the set of the
snapshot at the parent. -/
def verifyParentAggregatedSeal (cfg : Config) (vcfg : VerifyConfig) (bls : BlsVerifier)
    (reader : HeaderReader) (st : SnapshotStore) (header : ChainHeader) (extra : IstanbulExtra)
    (validators : ValidatorSet) : SnapshotStore × Option VerifyError :=
  let number := header.view.number
  if number > 1 ∧ vcfg.fullHeaderChainAvailable then
    if number % cfg.epoch = 1 then
      match snapshot cfg reader.toChain st (number - 2) 0 [] with
      | (st, .error e) => (st, some (.snapshot e))
      | (st, .ok snap) =>
        (st, verifyAggregatedSeal bls header.parentHash snap.valSet extra.parentAggregatedSeal)
    else (st, verifyAggregatedSeal bls header.parentHash validators extra.parentAggregatedSeal)
  else (st, none)

/-- `verifyAggregatedSeals`: the block's seal by the validators of the
snapshot at its parent, then the parent's seal. -/
def verifyAggregatedSeals (cfg : Config) (vcfg : VerifyConfig) (bls : BlsVerifier)
    (reader : HeaderReader) (st : SnapshotStore) (header : ChainHeader) (emptyAggregatedSeal : Bool)
    (parents : List ChainHeader) : SnapshotStore × Option VerifyError :=
  let number := header.view.number
  if number = 0 then (st, none)
  else
    match header.view.istanbulExtra with
    | none => (st, some (.snapshot .invalidExtra))
    | some extra =>
      match snapshot cfg reader.toChain st (number - 1) header.parentHash
          (parents.map ChainHeader.view) with
      | (st, .error e) => (st, some (.snapshot e))
      | (st, .ok snap) =>
        match checkAggregatedSeal bls emptyAggregatedSeal header.view.hash snap.valSet
            extra.aggregatedSeal with
        | some e => (st, some e)
        | none => verifyParentAggregatedSeal cfg vcfg bls reader st header extra snap.valSet

/-- The parent `verifyCascadingFields` checks the header against: the last of
`parents`, or the chain's header at `number - 1` with the header's parent
hash. -/
def cascadingParent (reader : HeaderReader) (header : ChainHeader) (parents : List ChainHeader) :
    Option ChainHeader :=
  match parents.getLast? with
  | some parent => some parent
  | none => reader.getHeader header.parentHash (header.view.number - 1)

/-- `verifyCascadingFields`: the checks against the parent and the
snapshots. -/
def verifyCascadingFields (cfg : Config) (vcfg : VerifyConfig) (bls : BlsVerifier)
    (reader : HeaderReader) (st : SnapshotStore) (header : ChainHeader) (emptyAggregatedSeal : Bool)
    (parents : List ChainHeader) : SnapshotStore × Option VerifyError :=
  let number := header.view.number
  if number = 0 then (st, none)
  else
    if vcfg.fullHeaderChainAvailable then
      match cascadingParent reader header parents with
      | none => (st, some .unknownAncestor)
      | some parent =>
        if parent.view.number ≠ number - 1 ∨ parent.view.hash ≠ header.parentHash then
          (st, some .unknownAncestor)
        else if parent.time + vcfg.blockPeriod > header.time then (st, some .invalidTimestamp)
        else
          match verifySigner cfg reader.toChain st header.view header.parentHash
              (parents.map ChainHeader.view) with
          | (st, some e) => (st, some (.snapshot e))
          | (st, none) =>
            match verifyForkFields vcfg header with
            | some e => (st, some e)
            | none => verifyAggregatedSeals cfg vcfg bls reader st header emptyAggregatedSeal parents
    else
      match checkEpochBlockExists cfg reader header parents with
      | some e => (st, some e)
      | none => verifyAggregatedSeals cfg vcfg bls reader st header emptyAggregatedSeal parents

/-- `verifyHeader` at time `now`. -/
def verifyHeader (cfg : Config) (vcfg : VerifyConfig) (bls : BlsVerifier) (reader : HeaderReader)
    (st : SnapshotStore) (now : Nat) (header : ChainHeader) (emptyAggregatedSeal : Bool)
    (parents : List ChainHeader) : SnapshotStore × Option VerifyError :=
  if vcfg.isL2Migration header.view.number then (st, some (.afterL2Migration header.view.number))
  else
    let allowedFutureBlockTime :=
      if !vcfg.fullHeaderChainAvailable then now + mobileAllowedClockSkew else now
    if header.time > allowedFutureBlockTime then (st, some .futureBlock)
    else if header.view.istanbulExtra = none then (st, some .invalidExtraDataFormat)
    else verifyCascadingFields cfg vcfg bls reader st header emptyAggregatedSeal parents

/-- The loop of `VerifyHeaders` from a header on: `parents` are the headers
before it, and `errored` whether one of them failed. -/
def verifyHeadersFrom (cfg : Config) (vcfg : VerifyConfig) (bls : BlsVerifier)
    (reader : HeaderReader) (now : Nat) :
    SnapshotStore → Bool → List ChainHeader → List ChainHeader →
      SnapshotStore × List (Option VerifyError)
  | st, _, _, [] => (st, [])
  | st, errored, parents, header :: headers =>
    let (st, err) :=
      if errored then (st, some .unknownAncestor)
      else verifyHeader cfg vcfg bls reader st now header false parents
    let (st, errs) :=
      verifyHeadersFrom cfg vcfg bls reader now st (errored || err.isSome) (parents ++ [header]) headers
    (st, err :: errs)

/-- `VerifyHeaders`: the results in the order of the headers. -/
def verifyHeaders (cfg : Config) (vcfg : VerifyConfig) (bls : BlsVerifier) (reader : HeaderReader)
    (st : SnapshotStore) (now : Nat) (headers : List ChainHeader) :
    SnapshotStore × List (Option VerifyError) :=
  verifyHeadersFrom cfg vcfg bls reader now st false [] headers

end CeloBlockchain.Backend
