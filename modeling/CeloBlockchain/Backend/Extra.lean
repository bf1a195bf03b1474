import CeloBlockchain.Ibft.ValidatorSetDiff
import CeloBlockchain.Lib.Rlp

/-!
# The Istanbul extra of a header, and the engine's writers

This module models `types.IstanbulExtra` with its `EncodeRLP` and
`DecodeRLP`, `extractIstanbulExtra` and `IstanbulFilteredHeader`
(`core/types/istanbul.go`), `Header.Hash` (`block.go`) and the cached decode
`Header.IstanbulExtra` (`celo_additions.go`). From the engine
(`consensus/istanbul/backend/engine.go`) it models `sigHash`, `ecrecover`,
`writeEmptyIstanbulExtra`, `writeValidatorSetDiff`, `writeSeal` and
`writeAggregatedSeal`.

A header is its other fields (of any type `F`, which `rlpHash` reads with the
extra), the `Extra` bytes, and the cache of `IstanbulExtra()`. The cache is
not yet computed, or holds what `extractIstanbulExtra` gave: a value, or an
error. The writers change the cached struct in place and write it back
encoded. Each returns the header it leaves, with its error if any.

* A `*big.Int` field is a number. A nil pointer encodes as zero and decodes
  as zero, and nil and empty slices are one list, so a value is what its
  encoding means.
* Addresses and BLS public keys are `[20]byte` and `[96]byte`: numbers below
  `256 ^ 20` and `256 ^ 96`.
* `rlpHash` (Keccak-256 of a header's RLP) and signature recovery are
  parameters.
* `append(Extra[:32], ...)` on a shorter `Extra` is a panic, `none`. Go would
  read into the slice's capacity, which the model does not have.
-/

namespace CeloBlockchain.Backend

open Rlp
open Ibft (Address Hash Validator validatorSetDiff)

/-- `IstanbulExtraVanity`: the bytes before the encoded extra. -/
def istanbulExtraVanity : Nat := 32

/-- `types.IstanbulAggregatedSeal`. -/
structure IstanbulAggregatedSeal where
  bitmap : Nat
  signature : List UInt8
  round : Nat
  deriving DecidableEq, Repr

/-- The zero value `IstanbulAggregatedSeal{}`. -/
def IstanbulAggregatedSeal.empty : IstanbulAggregatedSeal := ⟨0, [], 0⟩

/-- `types.IstanbulExtra`. -/
structure IstanbulExtra where
  addedValidators : List Address
  addedValidatorsPublicKeys : List Nat
  removedValidators : Nat
  /-- `Seal`: the proposer's ECDSA signature. -/
  proposerSeal : List UInt8
  aggregatedSeal : IstanbulAggregatedSeal
  parentAggregatedSeal : IstanbulAggregatedSeal
  deriving DecidableEq, Repr

/-! ## Encoding and decoding -/

/-- `IstanbulAggregatedSeal.EncodeRLP`. -/
def IstanbulAggregatedSeal.toItem (s : IstanbulAggregatedSeal) : Item :=
  .list [encodeUint s.bitmap, .str s.signature, encodeUint s.round]

/-- `IstanbulExtra.EncodeRLP`. -/
def IstanbulExtra.toItem (e : IstanbulExtra) : Item :=
  .list [.list (e.addedValidators.map (encodeByteArray 20)),
    .list (e.addedValidatorsPublicKeys.map (encodeByteArray 96)), encodeUint e.removedValidators,
    .str e.proposerSeal, e.aggregatedSeal.toItem, e.parentAggregatedSeal.toItem]

/-- `rlp.EncodeToBytes` of an extra. -/
def IstanbulExtra.payload (e : IstanbulExtra) : List UInt8 :=
  encode e.toItem

/-- `IstanbulAggregatedSeal.DecodeRLP`. -/
def decodeIstanbulAggregatedSeal : Item → Option IstanbulAggregatedSeal
  | .list [bitmap, signature, round] => do
    let bitmap ← decodeBigInt bitmap
    let signature ← decodeByteSlice signature
    let round ← decodeBigInt round
    pure ⟨bitmap, signature, round⟩
  | _ => none

/-- `IstanbulExtra.DecodeRLP`: exactly the six fields. -/
def decodeIstanbulExtra : Item → Option IstanbulExtra
  | .list [addedValidators, addedValidatorsPublicKeys, removedValidators, proposerSeal, aggregatedSeal,
      parentAggregatedSeal] => do
    let addedValidators ← decodeListSlice (decodeByteArray 20) addedValidators
    let addedValidatorsPublicKeys ← decodeListSlice (decodeByteArray 96) addedValidatorsPublicKeys
    let removedValidators ← decodeBigInt removedValidators
    let proposerSeal ← decodeByteSlice proposerSeal
    let aggregatedSeal ← decodeIstanbulAggregatedSeal aggregatedSeal
    let parentAggregatedSeal ← decodeIstanbulAggregatedSeal parentAggregatedSeal
    pure ⟨addedValidators, addedValidatorsPublicKeys, removedValidators, proposerSeal, aggregatedSeal,
      parentAggregatedSeal⟩
  | _ => none

/-- `extractIstanbulExtra`: the bytes after the vanity decode as one extra;
`none` is an error. -/
def extractIstanbulExtra (extra : List UInt8) : Option IstanbulExtra :=
  if extra.length < istanbulExtraVanity then none
  else (decode (extra.drop istanbulExtraVanity)).bind decodeIstanbulExtra

/-! ## Headers -/

/-- `types.Header`: the fields other than `Extra`, the `Extra` bytes, and the
cache of `IstanbulExtra()`. The cache is `none` until computed, then what
`extractIstanbulExtra` gave. -/
structure Header (F : Type) where
  fields : F
  extra : List UInt8
  extraCache : Option (Option IstanbulExtra)

/-- Keccak-256 of a header's RLP encoding, which reads its fields and extra,
and of the encoding of a nil header. -/
structure Hasher (F : Type) where
  rlpHash : F → List UInt8 → Hash
  nilHeaderHash : Hash

variable {F : Type}

/-- `CopyHeader`: the fields and the extra; the cache is not copied. -/
def Header.copy (h : Header F) : Header F :=
  ⟨h.fields, h.extra, none⟩

/-- `Header.IstanbulExtra`: the cached decode, computed on first use. -/
def Header.istanbulExtra (h : Header F) : Option IstanbulExtra × Header F :=
  match h.extraCache with
  | some cached => (cached, h)
  | none => (extractIstanbulExtra h.extra, { h with extraCache := some (extractIstanbulExtra h.extra) })

/-- The extra `IstanbulFilteredHeader` writes: no aggregated seal, and no
seal unless it is kept. -/
def IstanbulExtra.filtered (keepSeal : Bool) (e : IstanbulExtra) : IstanbulExtra :=
  let e := if keepSeal then e else { e with proposerSeal := [] }
  { e with aggregatedSeal := .empty }

/-- `IstanbulFilteredHeader`: a copy whose extra is filtered; `none` when
the extra does not decode. -/
def istanbulFilteredHeader (h : Header F) (keepSeal : Bool) : Option (Header F) :=
  let newHeader := h.copy
  (extractIstanbulExtra newHeader.extra).map fun istanbulExtra =>
    { newHeader with
      extra := newHeader.extra.take istanbulExtraVanity ++ (istanbulExtra.filtered keepSeal).payload }

/-- `Header.Hash`: the hash of the header filtered with its seal kept, when
that can be made. -/
def Header.hash (H : Hasher F) (h : Header F) : Hash :=
  if h.extra.length ≥ istanbulExtraVanity then
    match istanbulFilteredHeader h true with
    | some istanbulHeader => H.rlpHash istanbulHeader.fields istanbulHeader.extra
    | none => H.rlpHash h.fields h.extra
  else H.rlpHash h.fields h.extra

/-- The errors of the writers. -/
inductive WriteError
  /-- `errInvalidSignature`: a seal of the wrong length. -/
  | invalidSignature
  /-- `errInvalidAggregatedSeal`: an aggregated signature of the wrong length. -/
  | invalidAggregatedSeal
  /-- The error of `IstanbulExtra()`. -/
  | invalidExtra
  deriving DecidableEq, Repr

/-- The extra padded with zero bytes to the vanity's length. -/
def padVanity (extra : List UInt8) : List UInt8 :=
  if extra.length < istanbulExtraVanity then
    extra ++ List.replicate (istanbulExtraVanity - extra.length) 0
  else extra

/-- The extra `writeEmptyIstanbulExtra` writes. -/
def emptyIstanbulExtra : IstanbulExtra :=
  ⟨[], [], 0, [], IstanbulAggregatedSeal.empty, IstanbulAggregatedSeal.empty⟩

/-- `SeparateValidatorDataIntoIstanbulExtra`. -/
def separateValidatorDataIntoIstanbulExtra (validators : List Validator) :
    List Address × List Nat :=
  (validators.map (·.address), validators.map (·.blsPublicKey))

/-- The extra `writeValidatorSetDiff` writes. -/
def IstanbulExtra.withValidatorSetDiff (oldValSet newValSet : List Validator)
    (e : IstanbulExtra) : IstanbulExtra :=
  let (addedValidators, removedValidators) := validatorSetDiff oldValSet newValSet
  let (addedValidatorsAddresses, addedValidatorsPublicKeys) :=
    separateValidatorDataIntoIstanbulExtra addedValidators
  { e with
    addedValidators := addedValidatorsAddresses, addedValidatorsPublicKeys := addedValidatorsPublicKeys,
    removedValidators := removedValidators }

/-- `writeValidatorSetDiff`. An extra that does not decode is left, and no
error is returned. -/
def writeValidatorSetDiff (h : Header F) (oldValSet newValSet : List Validator) :
    Header F × Option WriteError :=
  let h := { h with extra := padVanity h.extra }
  match h.istanbulExtra with
  | (some extra, h) =>
    let extra := extra.withValidatorSetDiff oldValSet newValSet
    -- the cached struct is the one changed
    ({ h with
      extra := h.extra.take istanbulExtraVanity ++ extra.payload, extraCache := some (some extra) },
      none)
  | (none, h) => (h, none)

end CeloBlockchain.Backend
