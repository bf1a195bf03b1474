import CeloBlockchain.Backend.ExtraSpec
import CeloBlockchain.Backend.SnapshotComplete

/-!
# Validator-set transitions at epoch blocks

This module models the two ends of a validator-set change
(`consensus/istanbul/backend/engine.go`, `backend.go`). The proposer of the
last block of an epoch writes into its header the diff from the set of the
epoch to the elected set (`UpdateValSetDiff`). Every validator checks that
diff against its own snapshot before it accepts the block (`verifyValSetDiff`).
`verifySigner` checks that a header's signer is in the set of its parent.
`NextBlockValidators` gives the set after a proposal, for the epoch
validator-set seal: the parent's set, with the proposal's diff applied when
it has one.

* `getNewValidatorSet` asks the election contract through the EVM. Its result
  is a parameter: the elected validators, or `none` on an error.
* `getOrderedValidators` also sets the set's randomness, which
  `verifyValSetDiff` does not read: `getValidators` stands for it. The
  results about `NextBlockValidators` are about its list.
* The blocks these functions see are mined blocks, above genesis, so
  `number - 1` does not wrap. `verifySigner` checks this itself.

The main results:

* `verifyValSetDiff_accepts_updateValSetDiff`: on a valid chain, the header
  one node writes passes the check of any other node, whatever each has
  cached.
* `epochValSet_perm_elected`: on a chain whose epoch blocks passed that
  check against the elected sets, the validator set of every epoch is the
  elected one, up to order.
* `verifySigner_iff`: `verifySigner` accepts a header exactly when its
  signer is in the validator set of its epoch.
* `nextBlockValidators_eq_epochValSet`: on a valid chain, the set
  `NextBlockValidators` computes from the parent's snapshot and the diff is
  the one `snapshot` gives at the block.
-/

namespace CeloBlockchain.Backend

open Ibft (Address Hash Validator ValidatorSet validatorSetDiff DistinctAddresses)

variable {F : Type}

/-! ## The model -/

/-- `Snapshot.validators`. -/
def Snapshot.validators (s : Snapshot) : List Validator := s.valSet.list

/-- `getValidators`: the set of the snapshot at `number`, or the empty set
when `snapshot` fails. -/
def getValidators (cfg : Config) (chain : Chain) (st : SnapshotStore) (number : Nat) (hash : Hash) :
    SnapshotStore × ValidatorSet :=
  match snapshot cfg chain st number hash [] with
  | (st, .ok snap) => (st, snap.valSet)
  | (st, .error _) => (st, newSet [])

/-- `UpdateValSetDiff` on the header of block `number`: at the last block of
an epoch with an election result, the diff from the snapshot's validators to
the elected ones; otherwise an empty diff. -/
def updateValSetDiff (cfg : Config) (chain : Chain) (st : SnapshotStore) (h : Header F)
    (number : Nat) (parentHash : Hash) (newValSet : Option (List Validator)) :
    SnapshotStore × Except SnapshotError (Header F × Option WriteError) :=
  if Uptime.isLastBlockOfEpoch number cfg.epoch then
    match newValSet with
    | some newValSet =>
      match snapshot cfg chain st (number - 1) parentHash [] with
      | (st, .error e) => (st, .error e)
      | (st, .ok snap) => (st, .ok (writeValidatorSetDiff h snap.validators newValSet))
    | none => (st, .ok (writeValidatorSetDiff h [] []))
  else (st, .ok (writeValidatorSetDiff h [] []))

/-- `verifyValSetDiff` on the last block of an epoch, whose header's
`IstanbulExtra()` is `istExtra`. Without an election result the diff must be
empty; with one it must be the diff from the parent block's validators.
`CompareValidatorSlices` and `CompareValidatorPublicKeySlices` are equality
of lists. -/
def verifyValSetDiff (cfg : Config) (chain : Chain) (st : SnapshotStore)
    (istExtra : Option IstanbulExtra) (number : Nat) (parentHash : Hash)
    (newValSet : Option (List Validator)) : SnapshotStore × Option SnapshotError :=
  match istExtra with
  | none => (st, some .invalidExtra)
  | some istExtra =>
    match newValSet with
    | none =>
      if istExtra.addedValidators.length ≠ 0 ∨ istExtra.removedValidators.size ≠ 0 then
        (st, some .invalidValidatorSetDiff)
      else (st, none)
    | some newValSet =>
      let (st, parentValidators) := getValidators cfg chain st (number - 1) parentHash
      let (addedValidators, removedValidators) := validatorSetDiff parentValidators.list newValSet
      let (addedValidatorsAddresses, addedValidatorsPublicKeys) :=
        separateValidatorDataIntoIstanbulExtra addedValidators
      if addedValidatorsAddresses ≠ istExtra.addedValidators ∨
          removedValidators ≠ istExtra.removedValidators ∨
          addedValidatorsPublicKeys ≠ istExtra.addedValidatorsPublicKeys then
        (st, some .invalidValidatorSetDiff)
      else (st, none)

/-- The errors of `NextBlockValidators`. -/
inductive NextBlockValidatorsError
  /-- An error of `header.IstanbulExtra()`. -/
  | invalidExtra
  | snapshot (e : SnapshotError)
  /-- `errInvalidValidatorSetDiffSize` of `CombineIstanbulExtraToValidatorData`. -/
  | invalidValidatorSetDiffSize
  /-- "could not obtain next block validators: failed at remove validators". -/
  | removeValidatorsFailed
  /-- "could not obtain next block validators: failed at add validators". -/
  | addValidatorsFailed
  deriving DecidableEq, Repr

/-- `NextBlockValidators` for a proposal of block `number`, whose header's
`IstanbulExtra()` is `istExtra`: the parent block's validators when the diff
is empty, else the snapshot at the parent with the diff applied. -/
def nextBlockValidators (cfg : Config) (chain : Chain) (st : SnapshotStore)
    (istExtra : Option IstanbulExtra) (number : Nat) (parentHash : Hash) :
    SnapshotStore × Except NextBlockValidatorsError ValidatorSet :=
  match istExtra with
  | none => (st, .error .invalidExtra)
  | some istExtra =>
    if istExtra.addedValidators.length = 0 ∧ istExtra.removedValidators.size = 0 then
      let (st, parentValidators) := getValidators cfg chain st (number - 1) parentHash
      (st, .ok parentValidators)
    else
      match snapshot cfg chain st (number - 1) 0 [] with
      | (st, .error e) => (st, .error (.snapshot e))
      | (st, .ok snap) =>
        match combineIstanbulExtraToValidatorData istExtra.addedValidators
            istExtra.addedValidatorsPublicKeys with
        | none => (st, .error .invalidValidatorSetDiffSize)
        | some addedValidators =>
          let (removed, valSet) := snap.valSet.removeValidators istExtra.removedValidators
          if !removed then (st, .error .removeValidatorsFailed)
          else
            let (added, valSet) := valSet.addValidators addedValidators
            if !added then (st, .error .addValidatorsFailed) else (st, .ok valSet)

/-- `verifySigner`: the header's signer must be in the validator set of the
snapshot at its parent. -/
def verifySigner (cfg : Config) (chain : Chain) (st : SnapshotStore) (header : HeaderView)
    (parentHash : Hash) (parents : List HeaderView) : SnapshotStore × Option SnapshotError :=
  if header.number = 0 then (st, some .unknownBlock)
  else
    match snapshot cfg chain st (header.number - 1) parentHash parents with
    | (st, .error e) => (st, some e)
    | (st, .ok snap) =>
      match header.signer with
      | none => (st, some .invalidSignature)
      | some signer =>
        if snap.valSet.getByAddress signer = none then (st, some .unauthorized) else (st, none)

/-! ## Epoch blocks -/

/-- The block before epoch block `(k + 1) * epoch` is in epoch `k`. -/
theorem epochBlock_pred_div {epoch : Nat} (hpos : 0 < epoch) (k : Nat) :
    ((k + 1) * epoch - 1) / epoch = k := by
  have hsplit : (k + 1) * epoch - 1 = epoch - 1 + k * epoch := by
    rw [Nat.succ_mul]
    omega
  rw [hsplit, Nat.add_mul_div_right _ _ hpos, Nat.div_eq_of_lt (by omega), Nat.zero_add]

theorem isLastBlockOfEpoch_epochBlock {epoch : Nat} (hpos : 0 < epoch) (k : Nat) :
    Uptime.isLastBlockOfEpoch ((k + 1) * epoch) epoch = true :=
  (isLastBlockOfEpoch_iff hpos _).mpr (Nat.mul_mod_left _ _)

/-- A block inside an epoch is in the epoch of its parent. -/
theorem pred_div_of_mod_ne_zero {epoch : Nat} (hpos : 0 < epoch) {number : Nat}
    (hmod : number % epoch ≠ 0) : (number - 1) / epoch = number / epoch := by
  have hsplit : number - 1 = number % epoch - 1 + number / epoch * epoch := by
    have := Nat.mod_add_div' number epoch
    omega
  rw [hsplit, Nat.add_mul_div_right _ _ hpos,
    Nat.div_eq_of_lt (by have := Nat.mod_lt number hpos; omega), Nat.zero_add]

/-- A non-zero multiple of the epoch is an epoch block `(k + 1) * epoch`. -/
theorem exists_epochBlock {epoch : Nat} {number : Nat} (hnumber : number ≠ 0)
    (hmod : number % epoch = 0) : ∃ k, number = (k + 1) * epoch := by
  have hmul : number / epoch * epoch = number := Nat.div_mul_cancel (Nat.dvd_of_mod_eq_zero hmod)
  refine ⟨number / epoch - 1, ?_⟩
  have hdiv : number / epoch ≠ 0 := by
    intro h
    rw [h, Nat.zero_mul] at hmul
    exact hnumber hmul.symm
  rw [Nat.sub_add_cancel (Nat.pos_of_ne_zero hdiv), hmul]

theorem ValidUpTo.mono {cfg : Config} {chain : Chain} {n : Nat} (hvalid : ValidUpTo cfg chain n)
    {k : Nat} (hk : k ≤ n) : ValidUpTo cfg chain k :=
  ⟨hvalid.genesis_removed, epochValSet_ne_none_of_le hvalid.valSet_ne_none k hk,
    fun j hj => hvalid.signed j (by omega)⟩

/-! ## Validator lists -/

/-- `CombineIstanbulExtraToValidatorData` undoes
`SeparateValidatorDataIntoIstanbulExtra`. -/
theorem combineIstanbulExtraToValidatorData_separate (validators : List Validator) :
    combineIstanbulExtraToValidatorData (separateValidatorDataIntoIstanbulExtra validators).1
      (separateValidatorDataIntoIstanbulExtra validators).2 = some validators := by
  unfold combineIstanbulExtraToValidatorData separateValidatorDataIntoIstanbulExtra
  rw [if_neg (by simp)]
  congr 1
  induction validators with
  | nil => rfl
  | cons v validators ih =>
    rw [List.map_cons, List.map_cons, List.zipWith_cons_cons, ih]

theorem DistinctAddresses.of_perm {l l' : List Validator} (hperm : l.Perm l')
    (h : DistinctAddresses l') : DistinctAddresses l :=
  ⟨(hperm.map _).nodup_iff.mpr h.nodup, fun v hv => h.ne_zero v (hperm.subset hv)⟩

/-- An extra that carries the diff from a set to `new` takes the set to `new`,
reordered. -/
theorem applyValidatorSetDiff_validatorSetDiff {valSet : ValidatorSet}
    (hold : DistinctAddresses valSet.list) {new : List Validator} (hnew : DistinctAddresses new)
    {istExtra : IstanbulExtra}
    (hadded : separateValidatorDataIntoIstanbulExtra (validatorSetDiff valSet.list new).1 =
      (istExtra.addedValidators, istExtra.addedValidatorsPublicKeys))
    (hremoved : (validatorSetDiff valSet.list new).2 = istExtra.removedValidators) :
    ∃ valSet', applyValidatorSetDiff valSet istExtra = some valSet' ∧ valSet'.list.Perm new := by
  have hcombine : combineIstanbulExtraToValidatorData istExtra.addedValidators
      istExtra.addedValidatorsPublicKeys = some (validatorSetDiff valSet.list new).1 := by
    rw [← combineIstanbulExtraToValidatorData_separate, hadded]
  have hremove := Ibft.removeValidators_validatorSetDiff hold new valSet rfl
  rw [hremoved] at hremove
  refine ⟨{ valSet with list := valSet.list.filter (· ∈ new) ++ new.filter (· ∉ valSet.list) }, ?_,
    Ibft.filter_append_filter_perm hold hnew⟩
  rw [applyValidatorSetDiff_eq_some]
  refine ⟨_, hcombine, by rw [hremove], ?_⟩
  rw [hremove]
  exact Ibft.addValidators_validatorSetDiff hold hnew valSet

/-- An extra with no added and no removed validators leaves the set as it
is. -/
theorem applyValidatorSetDiff_of_empty {valSet valSet' : ValidatorSet} {istExtra : IstanbulExtra}
    (hadded : istExtra.addedValidators = []) (hremoved : istExtra.removedValidators = 0)
    (h : applyValidatorSetDiff valSet istExtra = some valSet') : valSet' = valSet := by
  obtain ⟨validators, hcombine, -, hadd⟩ := applyValidatorSetDiff_eq_some.mp h
  have hnil : validators = [] := by
    unfold combineIstanbulExtraToValidatorData at hcombine
    rw [hadded] at hcombine
    split at hcombine
    · cases hcombine
    · rw [Option.some.injEq] at hcombine
      rw [← hcombine, List.zipWith_nil_left]
  rw [hnil, hremoved] at hadd
  have hremove : valSet.removeValidators 0 = (true, valSet) := rfl
  rw [hremove] at hadd
  -- adding no validator appends nothing
  have hadd' : valSet.addValidators [] = (true, { valSet with list := valSet.list ++ [] }) := by
    unfold ValidatorSet.addValidators
    rw [if_neg (by simp)]
  rw [hadd', Prod.mk.injEq] at hadd
  rw [← hadd.2, List.append_nil]

/-! ## The set of the parent block -/

section Parent

variable {cfg : Config} {chain : Chain}

theorem forall_mem_nil_onChain (chain : Chain) :
    ∀ p ∈ ([] : List HeaderView), chain.getHeaderByNumber p.number = some p :=
  fun _ hp => absurd hp List.not_mem_nil

/-- On a valid chain, `getValidators` gives the set of the epoch block. -/
theorem getValidators_spec {st : SnapshotStore} (hst : Sound cfg chain st) {number : Nat}
    {hash : Hash} (hhash : hash ≠ 0 → (chain.getHeaderByNumber number).map HeaderView.hash = some hash)
    (hvalid : ValidUpTo cfg chain (number / cfg.epoch)) :
    epochValSet cfg chain (number / cfg.epoch) = some (getValidators cfg chain st number hash).2 := by
  obtain ⟨valSet, hvalSet, hsnap⟩ :=
    snapshot_eq_ok_of_valid hst hhash (forall_mem_nil_onChain chain) hvalid
  unfold getValidators
  cases hres : snapshot cfg chain st number hash [] with
  | mk st' r =>
    rw [hres] at hsnap
    dsimp only at hsnap ⊢
    subst hsnap
    exact hvalSet

/-- **The proposer's diff.** At epoch block `(k + 1) * epoch` of a chain valid
up to epoch `k`, `UpdateValSetDiff` writes the diff from the set of epoch `k`
to the elected set. -/
theorem updateValSetDiff_eq {st : SnapshotStore} (hst : Sound cfg chain st) {k : Nat}
    (hvalid : ValidUpTo cfg chain k) {parentHash : Hash}
    (hparent : parentHash ≠ 0 →
      (chain.getHeaderByNumber ((k + 1) * cfg.epoch - 1)).map HeaderView.hash = some parentHash)
    {h : Header F} {e : IstanbulExtra} (hc : h.Consistent) (hext : extractIstanbulExtra h.extra = some e)
    (newValSet : List Validator) :
    ∃ valSet, epochValSet cfg chain k = some valSet ∧
      (updateValSetDiff cfg chain st h ((k + 1) * cfg.epoch) parentHash (some newValSet)).2 =
        .ok (h.written (e.withValidatorSetDiff valSet.list newValSet), none) := by
  have hdiv := epochBlock_pred_div cfg.epoch_pos k
  obtain ⟨valSet, hvalSet, hsnap⟩ :=
    snapshot_eq_ok_of_valid hst hparent (forall_mem_nil_onChain chain) (by rw [hdiv]; exact hvalid)
  rw [hdiv] at hvalSet
  refine ⟨valSet, hvalSet, ?_⟩
  unfold updateValSetDiff
  rw [if_pos (isLastBlockOfEpoch_epochBlock cfg.epoch_pos k)]
  cases hres : snapshot cfg chain st ((k + 1) * cfg.epoch - 1) parentHash [] with
  | mk st' r =>
    rw [hres] at hsnap
    dsimp only at hsnap ⊢
    subst hsnap
    exact congrArg Except.ok (writeValidatorSetDiff_eq hc hext _ _)

/-- **The validators' check.** At epoch block `(k + 1) * epoch` of a chain
valid up to epoch `k`, `verifyValSetDiff` accepts an extra exactly when it
carries the diff from the set of epoch `k` to the elected set. -/
theorem verifyValSetDiff_eq_none_iff {st : SnapshotStore} (hst : Sound cfg chain st) {k : Nat}
    (hvalid : ValidUpTo cfg chain k) {parentHash : Hash}
    (hparent : parentHash ≠ 0 →
      (chain.getHeaderByNumber ((k + 1) * cfg.epoch - 1)).map HeaderView.hash = some parentHash)
    (istExtra : IstanbulExtra) (newValSet : List Validator) :
    ∃ valSet, epochValSet cfg chain k = some valSet ∧
      ((verifyValSetDiff cfg chain st (some istExtra) ((k + 1) * cfg.epoch) parentHash
          (some newValSet)).2 = none ↔
        separateValidatorDataIntoIstanbulExtra (validatorSetDiff valSet.list newValSet).1 =
            (istExtra.addedValidators, istExtra.addedValidatorsPublicKeys) ∧
          (validatorSetDiff valSet.list newValSet).2 = istExtra.removedValidators) := by
  have hdiv := epochBlock_pred_div cfg.epoch_pos k
  have hvalSet := getValidators_spec hst hparent (by rw [hdiv]; exact hvalid)
  rw [hdiv] at hvalSet
  refine ⟨_, hvalSet, ?_⟩
  unfold verifyValSetDiff separateValidatorDataIntoIstanbulExtra
  dsimp only
  split_ifs with hne
  · simp only [false_iff, Prod.mk.injEq]
    tauto
  · simp only [Prod.mk.injEq, true_iff]
    tauto

end Parent

/-! ## The proposer and the validators agree -/

/-- **Agreement.** At epoch block `(k + 1) * epoch` of a chain valid up to
epoch `k`, the header a proposer writes with `UpdateValSetDiff` passes
`verifyValSetDiff` at any validator, whatever either has cached. The
validator reads the extra from the header's bytes, as `block.Header()` is a
copy without the cache. -/
theorem verifyValSetDiff_accepts_updateValSetDiff {cfg : Config} {chain : Chain}
    {st st' : SnapshotStore} (hst : Sound cfg chain st) (hst' : Sound cfg chain st') {k : Nat}
    (hvalid : ValidUpTo cfg chain k) {parentHash : Hash}
    (hparent : parentHash ≠ 0 →
      (chain.getHeaderByNumber ((k + 1) * cfg.epoch - 1)).map HeaderView.hash = some parentHash)
    {h : Header F} {e : IstanbulExtra} (hc : h.Consistent) (hext : extractIstanbulExtra h.extra = some e)
    {newValSet : List Validator}
    (hnew : ∀ v ∈ newValSet, v.address < 256 ^ 20 ∧ v.blsPublicKey < 256 ^ 96)
    (hfits : ∀ valSet, epochValSet cfg chain k = some valSet →
      (e.withValidatorSetDiff valSet.list newValSet).Fits) :
    ∃ h', (updateValSetDiff cfg chain st h ((k + 1) * cfg.epoch) parentHash (some newValSet)).2 =
        .ok (h', none) ∧
      (verifyValSetDiff cfg chain st' h'.copy.istanbulExtra.1 ((k + 1) * cfg.epoch) parentHash
        (some newValSet)).2 = none := by
  obtain ⟨valSet, hvalSet, hupdate⟩ := updateValSetDiff_eq hst hvalid hparent hc hext newValSet
  obtain ⟨valSet', hvalSet', hverify⟩ :=
    verifyValSetDiff_eq_none_iff hst' hvalid hparent (e.withValidatorSetDiff valSet.list newValSet)
      newValSet
  obtain rfl : valSet' = valSet := Option.some.inj (hvalSet'.symm.trans hvalSet)
  -- the bytes the proposer wrote decode to the extra it wrote
  have hread : (h.written (e.withValidatorSetDiff valSet'.list newValSet)).copy.istanbulExtra.1 =
      some (e.withValidatorSetDiff valSet'.list newValSet) :=
    (written_spec hext (IstanbulExtra.WellFormed.withValidatorSetDiff e valSet'.list hnew)
      (hfits valSet' hvalSet)).1
  refine ⟨_, hupdate, ?_⟩
  rw [hread]
  exact hverify.mpr ⟨rfl, rfl⟩

/-- The sets elected for epochs `0`, `1` and `2` of `changingChain`. -/
def changingElected (k : Nat) : List Validator :=
  if k = 0 then [⟨1, 7⟩] else if k = 1 then [⟨1, 7⟩, ⟨2, 8⟩] else [⟨2, 8⟩, ⟨3, 9⟩]

theorem verifyValSetDiff_accepts_updateValSetDiff_changingChain :
    Sound sampleConfig changingChain SnapshotStore.empty ∧
    Sound sampleConfig changingChain
      (Run.run (snapshotStep sampleConfig changingChain) SnapshotStore.empty changingCalls) ∧
    ValidUpTo sampleConfig changingChain 1 ∧
    ((4 : Hash) ≠ 0 → (changingChain.getHeaderByNumber ((1 + 1) * sampleConfig.epoch - 1)).map
      HeaderView.hash = some 4) ∧
    sealedHeader.Consistent ∧ extractIstanbulExtra sealedHeader.extra = some sealedExtra ∧
    (∀ v ∈ changingElected 2, v.address < 256 ^ 20 ∧ v.blsPublicKey < 256 ^ 96) ∧
    (∀ valSet, epochValSet sampleConfig changingChain 1 = some valSet →
      (sealedExtra.withValidatorSetDiff valSet.list (changingElected 2)).Fits) ∧
    epochValSet sampleConfig changingChain 1 = some ⟨changingElected 1, 0⟩ ∧
    ∃ h', (updateValSetDiff sampleConfig changingChain SnapshotStore.empty sealedHeader
        ((1 + 1) * sampleConfig.epoch) 4 (some (changingElected 2))).2 = .ok (h', none) ∧
      (verifyValSetDiff sampleConfig changingChain
        (Run.run (snapshotStep sampleConfig changingChain) SnapshotStore.empty changingCalls)
        h'.copy.istanbulExtra.1 ((1 + 1) * sampleConfig.epoch) 4 (some (changingElected 2))).2 =
          none := by
  have hst' := sound_changingCalls
  have hvalid : ValidUpTo sampleConfig changingChain 1 := changingChain_validUpTo.mono (by decide)
  have hparent : (4 : Hash) ≠ 0 → (changingChain.getHeaderByNumber
      ((1 + 1) * sampleConfig.epoch - 1)).map HeaderView.hash = some 4 := fun _ => rfl
  have hext : extractIstanbulExtra sealedHeader.extra = some sealedExtra := by decide +kernel
  have hnew : ∀ v ∈ changingElected 2, v.address < 256 ^ 20 ∧ v.blsPublicKey < 256 ^ 96 := by
    decide
  have hset : epochValSet sampleConfig changingChain 1 = some ⟨changingElected 1, 0⟩ := by decide
  have hfits : ∀ valSet, epochValSet sampleConfig changingChain 1 = some valSet →
      (sealedExtra.withValidatorSetDiff valSet.list (changingElected 2)).Fits := by
    intro valSet hvalSet
    obtain rfl : valSet = ⟨changingElected 1, 0⟩ := Option.some.inj (hvalSet.symm.trans hset)
    decide +kernel
  exact ⟨sound_empty, hst', hvalid, hparent, Header.consistent_copy sealedHeader, hext, hnew, hfits,
    hset, verifyValSetDiff_accepts_updateValSetDiff sound_empty hst' hvalid hparent
      (Header.consistent_copy sealedHeader) hext hnew hfits⟩

/-! ## The validator sets follow the elections -/

section Elected

variable (cfg : Config) (chain : Chain)

/-- Each epoch block up to `n * epoch` is on the chain and passed
`verifyValSetDiff` against the elected set, at some node in a sound state. -/
def VerifiedUpTo (elected : Nat → List Validator) (n : Nat) : Prop :=
  ∀ k < n, ∃ st header parentHash, Sound cfg chain st ∧
    chain.getHeaderByNumber ((k + 1) * cfg.epoch) = some header ∧
    (parentHash ≠ 0 →
      (chain.getHeaderByNumber ((k + 1) * cfg.epoch - 1)).map HeaderView.hash = some parentHash) ∧
    (verifyValSetDiff cfg chain st header.istanbulExtra ((k + 1) * cfg.epoch) parentHash
      (some (elected (k + 1)))).2 = none

end Elected

section Elected

variable {cfg : Config} {chain : Chain}

/-- The genesis set is the genesis block's validators, in order. -/
theorem epochValSet_zero_of_genesis {validators : List Validator}
    (hgenesis : ∀ genesis istanbulExtra, chain.getHeaderByNumber 0 = some genesis →
      genesis.istanbulExtra = some istanbulExtra →
      (istanbulExtra.addedValidators, istanbulExtra.addedValidatorsPublicKeys) =
        separateValidatorDataIntoIstanbulExtra validators)
    {valSet : ValidatorSet} (h : epochValSet cfg chain 0 = some valSet) : valSet.list = validators := by
  simp only [epochValSet, genesisValSet, Option.bind_eq_bind, Option.bind_eq_some_iff,
    Option.pure_def, Option.some.injEq] at h
  obtain ⟨genesis, hheader, istanbulExtra, hextra, validators', hcombine, rfl⟩ := h
  have hfields := hgenesis genesis istanbulExtra hheader hextra
  rw [Prod.mk.injEq] at hfields
  rw [hfields.1, hfields.2, combineIstanbulExtraToValidatorData_separate, Option.some.injEq] at hcombine
  rw [← hcombine]
  rfl

/-- One epoch on: a set that is the elected one reordered is followed by the
next elected one reordered, when the epoch block passed the check. -/
theorem epochValSet_succ_perm_elected {elected : Nat → List Validator} {n : Nat}
    (hvalid : ValidUpTo cfg chain n) (hverified : VerifiedUpTo cfg chain elected n) {k : Nat}
    (hk : k < n) (hold : DistinctAddresses (elected k)) (hnew : DistinctAddresses (elected (k + 1)))
    {valSet : ValidatorSet} (hvalSet : epochValSet cfg chain k = some valSet)
    (hperm : valSet.list.Perm (elected k)) :
    ∃ valSet', epochValSet cfg chain (k + 1) = some valSet' ∧ valSet'.list.Perm (elected (k + 1)) := by
  obtain ⟨st, header, parentHash, hst, hheader, hparent, hcheck⟩ := hverified k hk
  cases hextra : header.istanbulExtra with
  | none =>
    rw [hextra] at hcheck
    cases hcheck
  | some istExtra =>
    rw [hextra] at hcheck
    obtain ⟨valSet', hvalSet', hiff⟩ :=
      verifyValSetDiff_eq_none_iff hst (hvalid.mono (Nat.le_of_lt hk)) hparent istExtra (elected (k + 1))
    obtain rfl : valSet' = valSet := Option.some.inj (hvalSet'.symm.trans hvalSet)
    obtain ⟨hadded, hremoved⟩ := hiff.mp hcheck
    obtain ⟨valSet'', hdiff, hperm'⟩ :=
      applyValidatorSetDiff_validatorSetDiff (DistinctAddresses.of_perm hperm hold) hnew hadded hremoved
    refine ⟨valSet'', ?_, hperm'⟩
    rw [epochValSet_succ_eq_some hvalSet hheader hextra]
    exact hdiff

/-- **The validator sets follow the elections.** On a chain valid up to
epoch `n`, whose genesis block holds the first elected set and whose epoch
blocks passed `verifyValSetDiff` against the elected sets, the validator set
of each epoch up to `n` is its elected set, up to order. -/
theorem epochValSet_perm_elected (elected : Nat → List Validator) {n : Nat}
    (hvalid : ValidUpTo cfg chain n) (hdistinct : ∀ k ≤ n, DistinctAddresses (elected k))
    (hgenesis : ∀ genesis istanbulExtra, chain.getHeaderByNumber 0 = some genesis →
      genesis.istanbulExtra = some istanbulExtra →
      (istanbulExtra.addedValidators, istanbulExtra.addedValidatorsPublicKeys) =
        separateValidatorDataIntoIstanbulExtra (elected 0))
    (hverified : VerifiedUpTo cfg chain elected n) :
    ∀ k ≤ n, ∃ valSet, epochValSet cfg chain k = some valSet ∧ valSet.list.Perm (elected k) := by
  intro k
  induction k with
  | zero =>
    intro _
    obtain ⟨valSet, hvalSet⟩ := Option.ne_none_iff_exists'.mp
      (epochValSet_ne_none_of_le hvalid.valSet_ne_none 0 (Nat.zero_le n))
    refine ⟨valSet, hvalSet, ?_⟩
    rw [epochValSet_zero_of_genesis hgenesis hvalSet]
  | succ k ih =>
    intro hk
    obtain ⟨valSet, hvalSet, hperm⟩ := ih (by omega)
    exact epochValSet_succ_perm_elected hvalid hverified (by omega) (hdistinct k (by omega))
      (hdistinct (k + 1) hk) hvalSet hperm

end Elected

/-- The epoch blocks of the chain pass the check against the sets elected for
them. -/
theorem changingChain_verifiedUpTo : VerifiedUpTo sampleConfig changingChain changingElected 2 := by
  intro k hk
  refine ⟨SnapshotStore.empty, _, (k + 1) * sampleConfig.epoch, sound_empty, rfl, fun _ => rfl, ?_⟩
  obtain ⟨valSet, hvalSet, hiff⟩ := verifyValSetDiff_eq_none_iff sound_empty
    (changingChain_validUpTo.mono (Nat.le_of_lt hk)) (fun _ => rfl)
    (changingExtra ((k + 1) * sampleConfig.epoch)) (changingElected (k + 1))
  interval_cases k
  · obtain rfl : valSet = ⟨changingElected 0, 0⟩ := Option.some.inj (hvalSet.symm.trans rfl)
    exact hiff.mpr (by decide)
  · obtain rfl : valSet = ⟨changingElected 1, 0⟩ := Option.some.inj (hvalSet.symm.trans (by decide))
    exact hiff.mpr (by decide)

theorem epochValSet_perm_elected_changingChain :
    ValidUpTo sampleConfig changingChain 2 ∧ (∀ k ≤ 2, DistinctAddresses (changingElected k)) ∧
    (∀ genesis istanbulExtra, changingChain.getHeaderByNumber 0 = some genesis →
      genesis.istanbulExtra = some istanbulExtra →
      (istanbulExtra.addedValidators, istanbulExtra.addedValidatorsPublicKeys) =
        separateValidatorDataIntoIstanbulExtra (changingElected 0)) ∧
    VerifiedUpTo sampleConfig changingChain changingElected 2 ∧
    ∀ k ≤ 2, ∃ valSet, epochValSet sampleConfig changingChain k = some valSet ∧
      valSet.list.Perm (changingElected k) := by
  have hdistinct : ∀ k ≤ 2, DistinctAddresses (changingElected k) := by decide
  have hgenesis : ∀ genesis istanbulExtra, changingChain.getHeaderByNumber 0 = some genesis →
      genesis.istanbulExtra = some istanbulExtra →
      (istanbulExtra.addedValidators, istanbulExtra.addedValidatorsPublicKeys) =
        separateValidatorDataIntoIstanbulExtra (changingElected 0) := by
    intro genesis istanbulExtra hheader hextra
    cases hheader
    cases hextra
    rfl
  exact ⟨changingChain_validUpTo, hdistinct, hgenesis, changingChain_verifiedUpTo,
    epochValSet_perm_elected changingElected changingChain_validUpTo hdistinct hgenesis
      changingChain_verifiedUpTo⟩

/-! ## `NextBlockValidators` -/

section Next

variable {cfg : Config} {chain : Chain}

/-- **`NextBlockValidators` agrees with `snapshot`.** For a block of a valid
chain above genesis whose extra decodes, with an empty diff unless it is an
epoch block, the set `NextBlockValidators` computes from its parent is the
one `snapshot` gives at the block, whatever is cached. -/
theorem nextBlockValidators_eq_epochValSet {st : SnapshotStore} (hst : Sound cfg chain st)
    {number : Nat} (hnumber : number ≠ 0) {header : HeaderView}
    (hheader : chain.getHeaderByNumber number = some header) {parentHash : Hash}
    (hparent : parentHash ≠ 0 →
      (chain.getHeaderByNumber (number - 1)).map HeaderView.hash = some parentHash)
    (hvalid : ValidUpTo cfg chain (number / cfg.epoch))
    (hextra : ∃ istExtra, header.istanbulExtra = some istExtra ∧
      (number % cfg.epoch ≠ 0 → istExtra.addedValidators = [] ∧ istExtra.removedValidators = 0)) :
    ∃ valSet, epochValSet cfg chain (number / cfg.epoch) = some valSet ∧
      (nextBlockValidators cfg chain st header.istanbulExtra number parentHash).2 = .ok valSet := by
  obtain ⟨istExtra, hist, hempty⟩ := hextra
  have hpos := cfg.epoch_pos
  rw [hist]
  unfold nextBlockValidators
  dsimp only
  by_cases hdiff : istExtra.addedValidators.length = 0 ∧ istExtra.removedValidators.size = 0
  · -- the parent's set, which the empty diff keeps
    rw [if_pos hdiff]
    have hprev := getValidators_spec hst hparent
      (hvalid.mono (Nat.div_le_div_right (Nat.sub_le number 1)))
    refine ⟨_, ?_, rfl⟩
    by_cases hmod : number % cfg.epoch = 0
    · obtain ⟨k, rfl⟩ := exists_epochBlock hnumber hmod
      rw [epochBlock_pred_div hpos k] at hprev
      rw [Nat.mul_div_cancel _ hpos] at hvalid ⊢
      obtain ⟨valSet', hvalSet'⟩ := Option.ne_none_iff_exists'.mp hvalid.valSet_ne_none
      rw [epochValSet_succ_eq_some hprev hheader hist] at hvalSet'
      rw [epochValSet_succ_eq_some hprev hheader hist, hvalSet',
        applyValidatorSetDiff_of_empty (List.length_eq_zero_iff.mp hdiff.1)
          (Nat.size_eq_zero.mp hdiff.2) hvalSet']
    · rw [← pred_div_of_mod_ne_zero hpos hmod]
      exact hprev
  · -- an epoch block: the snapshot at the parent, with the diff applied
    rw [if_neg hdiff]
    have hmod : number % cfg.epoch = 0 := by
      by_contra hmod
      obtain ⟨hadded, hremoved⟩ := hempty hmod
      exact hdiff ⟨by rw [hadded, List.length_nil], by rw [hremoved]; rfl⟩
    obtain ⟨k, rfl⟩ := exists_epochBlock hnumber hmod
    rw [Nat.mul_div_cancel _ hpos] at hvalid ⊢
    have hdiv := epochBlock_pred_div hpos k
    obtain ⟨valSet, hvalSet, hsnap⟩ := snapshot_eq_ok_of_valid hst (fun h => absurd rfl h)
      (forall_mem_nil_onChain chain) (by rw [hdiv]; exact hvalid.mono (Nat.le_succ k))
    rw [hdiv] at hvalSet
    obtain ⟨valSet', hvalSet'⟩ := Option.ne_none_iff_exists'.mp hvalid.valSet_ne_none
    rw [epochValSet_succ_eq_some hvalSet hheader hist] at hvalSet'
    obtain ⟨validators, hcombine, hremove, hadd⟩ := applyValidatorSetDiff_eq_some.mp hvalSet'
    refine ⟨valSet', by rw [epochValSet_succ_eq_some hvalSet hheader hist, hvalSet'], ?_⟩
    cases hres : snapshot cfg chain st ((k + 1) * cfg.epoch - 1) 0 [] with
    | mk st' r =>
      rw [hres] at hsnap
      dsimp only at hsnap ⊢
      subst hsnap
      simp only [hcombine, hremove, hadd, Bool.not_true]
      rfl

theorem nextBlockValidators_eq_epochValSet_changingChain :
    Sound sampleConfig changingChain
      (Run.run (snapshotStep sampleConfig changingChain) SnapshotStore.empty changingCalls) ∧
    (4 : Nat) ≠ 0 ∧ changingChain.getHeaderByNumber 4 = some (changingHeader 4) ∧
    ((4 : Hash) ≠ 0 → (changingChain.getHeaderByNumber (4 - 1)).map HeaderView.hash = some 4) ∧
    ValidUpTo sampleConfig changingChain (4 / sampleConfig.epoch) ∧
    (changingExtra 4).addedValidators ≠ [] ∧
    ∃ valSet, epochValSet sampleConfig changingChain (4 / sampleConfig.epoch) = some valSet ∧
      (nextBlockValidators sampleConfig changingChain
        (Run.run (snapshotStep sampleConfig changingChain) SnapshotStore.empty changingCalls)
        (changingHeader 4).istanbulExtra 4 4).2 = .ok valSet := by
  have hst := sound_changingCalls
  have hparent : (4 : Hash) ≠ 0 → (changingChain.getHeaderByNumber (4 - 1)).map HeaderView.hash =
      some 4 := fun _ => rfl
  have hvalid : ValidUpTo sampleConfig changingChain (4 / sampleConfig.epoch) := changingChain_validUpTo
  have hnumber : (4 : Nat) ≠ 0 := by decide
  have hdiff : (changingExtra 4).addedValidators ≠ [] := by decide
  exact ⟨hst, hnumber, rfl, hparent, hvalid, hdiff,
    nextBlockValidators_eq_epochValSet hst hnumber rfl hparent hvalid
      ⟨_, rfl, fun hmod => absurd rfl hmod⟩⟩

end Next

/-! ## `verifySigner` -/

section Signer

variable {cfg : Config} {chain : Chain}

/-- What `verifySigner` did when it accepted a header: the snapshot at the
parent succeeded, and the signer is in its set. -/
theorem verifySigner_eq_none {st : SnapshotStore} {header : HeaderView} {parentHash : Hash}
    {parents : List HeaderView} (h : (verifySigner cfg chain st header parentHash parents).2 = none) :
    header.number ≠ 0 ∧ ∃ snap signer,
      (snapshot cfg chain st (header.number - 1) parentHash parents).2 = .ok snap ∧
      header.signer = some signer ∧ snap.valSet.getByAddress signer ≠ none := by
  unfold verifySigner at h
  split at h
  · cases h
  rename_i hnumber
  refine ⟨hnumber, ?_⟩
  split at h
  · cases h
  rename_i st' snap hsnap
  split at h
  · cases h
  rename_i signer hsigner
  split at h
  · cases h
  rename_i hauth
  exact ⟨snap, signer, by rw [hsnap], hsigner, hauth⟩

/-- An error of `verifySigner` is `snapshot`'s or its own, never a panic. -/
theorem verifySigner_not_panic {st : SnapshotStore} (hst : Sound cfg chain st) {header : HeaderView}
    {parentHash : Hash}
    (hparent : parentHash ≠ 0 →
      (chain.getHeaderByNumber (header.number - 1)).map HeaderView.hash = some parentHash)
    {parents : List HeaderView}
    (hparents : ∀ p ∈ parents, chain.getHeaderByNumber p.number = some p) {e : SnapshotError}
    (h : (verifySigner cfg chain st header parentHash parents).2 = some e) : ¬e.IsPanic := by
  obtain ⟨-, hpanic, -⟩ := snapshot_spec hst hparent hparents
  unfold verifySigner at h
  split at h
  · cases h
    simp [SnapshotError.IsPanic]
  split at h
  · rename_i hsnap
    cases h
    exact hpanic e (by rw [hsnap])
  · -- the signer checks throw their own errors
    split at h
    · cases h
      simp [SnapshotError.IsPanic]
    · split at h <;> cases h
      simp [SnapshotError.IsPanic]

/-- **`verifySigner` on a valid chain.** On a chain valid up to the epoch of
the parent, `verifySigner` accepts a header above genesis exactly when its
signer is in the validator set of its epoch, whatever is cached. -/
theorem verifySigner_iff {st : SnapshotStore} (hst : Sound cfg chain st) {header : HeaderView}
    (hnumber : header.number ≠ 0) {parentHash : Hash}
    (hparent : parentHash ≠ 0 →
      (chain.getHeaderByNumber (header.number - 1)).map HeaderView.hash = some parentHash)
    {parents : List HeaderView}
    (hparents : ∀ p ∈ parents, chain.getHeaderByNumber p.number = some p)
    (hvalid : ValidUpTo cfg chain ((header.number - 1) / cfg.epoch)) :
    ∃ valSet, epochValSet cfg chain ((header.number - 1) / cfg.epoch) = some valSet ∧
      ((verifySigner cfg chain st header parentHash parents).2 = none ↔
        ∃ signer, header.signer = some signer ∧ valSet.getByAddress signer ≠ none) := by
  obtain ⟨valSet, hvalSet, hsnap⟩ := snapshot_eq_ok_of_valid hst hparent hparents hvalid
  refine ⟨valSet, hvalSet, ⟨fun h => ?_, fun ⟨signer, hsigner, hauth⟩ => ?_⟩⟩
  · obtain ⟨-, snap, signer, hsnap', hsigner, hauth⟩ := verifySigner_eq_none h
    rw [hsnap, Except.ok.injEq] at hsnap'
    subst hsnap'
    exact ⟨signer, hsigner, hauth⟩
  · unfold verifySigner
    rw [if_neg hnumber]
    cases hres : snapshot cfg chain st (header.number - 1) parentHash parents with
    | mk st' r =>
      rw [hres] at hsnap
      dsimp only at hsnap ⊢
      subst hsnap
      simp only [hsigner]
      rw [if_neg hauth]

theorem verifySigner_iff_changingChain :
    Sound sampleConfig changingChain
      (Run.run (snapshotStep sampleConfig changingChain) SnapshotStore.empty changingCalls) ∧
    (changingHeader 5).number ≠ 0 ∧
    ((5 : Hash) ≠ 0 → (changingChain.getHeaderByNumber ((changingHeader 5).number - 1)).map
      HeaderView.hash = some 5) ∧
    (∀ p ∈ [changingHeader 3, changingHeader 4], changingChain.getHeaderByNumber p.number = some p) ∧
    ValidUpTo sampleConfig changingChain (((changingHeader 5).number - 1) / sampleConfig.epoch) ∧
    ∃ valSet, epochValSet sampleConfig changingChain
        (((changingHeader 5).number - 1) / sampleConfig.epoch) = some valSet ∧
      ((verifySigner sampleConfig changingChain
          (Run.run (snapshotStep sampleConfig changingChain) SnapshotStore.empty changingCalls)
          (changingHeader 5) 5 [changingHeader 3, changingHeader 4]).2 = none ↔
        ∃ signer, (changingHeader 5).signer = some signer ∧ valSet.getByAddress signer ≠ none) := by
  have hst := sound_changingCalls
  have hnumber : (changingHeader 5).number ≠ 0 := by decide
  have hparent : (5 : Hash) ≠ 0 → (changingChain.getHeaderByNumber ((changingHeader 5).number - 1)).map
      HeaderView.hash = some 5 := fun _ => rfl
  have hparents : ∀ p ∈ [changingHeader 3, changingHeader 4],
      changingChain.getHeaderByNumber p.number = some p := by
    simp [changingChain, changingHeader]
  have hvalid : ValidUpTo sampleConfig changingChain (((changingHeader 5).number - 1) / sampleConfig.epoch) :=
    changingChain_validUpTo
  exact ⟨hst, hnumber, hparent, hparents, hvalid, verifySigner_iff hst hnumber hparent hparents hvalid⟩

end Signer

/-- **`verifySigner` is sound.** After any earlier calls on the chain, with a
parent hash and parents of the chain, `verifySigner` never panics. It
accepts a header only when its signer is in the validator set of its epoch,
whatever is cached. -/
theorem verifySigner_accepts_only_validators (cfg : Config) (chain : Chain)
    (calls : List SnapshotCall) (hcalls : ∀ c ∈ calls, c.OnChain chain) (header : HeaderView)
    (parentHash : Hash)
    (hparent : parentHash ≠ 0 →
      (chain.getHeaderByNumber (header.number - 1)).map HeaderView.hash = some parentHash)
    (parents : List HeaderView)
    (hparents : ∀ p ∈ parents, chain.getHeaderByNumber p.number = some p) :
    (∀ e, (verifySigner cfg chain (Run.run (snapshotStep cfg chain) SnapshotStore.empty calls)
        header parentHash parents).2 = some e → ¬e.IsPanic) ∧
    ((verifySigner cfg chain (Run.run (snapshotStep cfg chain) SnapshotStore.empty calls)
        header parentHash parents).2 = none →
      ∃ signer valSet, header.signer = some signer ∧
        epochValSet cfg chain ((header.number - 1) / cfg.epoch) = some valSet ∧
        valSet.getByAddress signer ≠ none) := by
  have hst : Sound cfg chain (Run.run (snapshotStep cfg chain) SnapshotStore.empty calls) :=
    sound_run calls hcalls
  refine ⟨fun e he => verifySigner_not_panic hst hparent hparents he, fun h => ?_⟩
  obtain ⟨-, snap, signer, hsnap, hsigner, hauth⟩ := verifySigner_eq_none h
  obtain ⟨-, -, hok⟩ := snapshot_spec hst hparent hparents
  exact ⟨signer, snap.valSet, hsigner, (hok snap hsnap).1, hauth⟩

theorem verifySigner_accepts_only_validators_changingChain :
    (∀ c ∈ changingCalls, c.OnChain changingChain) ∧
    ((5 : Hash) ≠ 0 → (changingChain.getHeaderByNumber ((changingHeader 5).number - 1)).map
      HeaderView.hash = some 5) ∧
    (∀ p ∈ [changingHeader 3, changingHeader 4], changingChain.getHeaderByNumber p.number = some p) ∧
    (∀ e, (verifySigner sampleConfig changingChain (Run.run (snapshotStep sampleConfig changingChain)
        SnapshotStore.empty changingCalls) (changingHeader 5) 5
          [changingHeader 3, changingHeader 4]).2 = some e → ¬e.IsPanic) ∧
    ((verifySigner sampleConfig changingChain (Run.run (snapshotStep sampleConfig changingChain)
        SnapshotStore.empty changingCalls) (changingHeader 5) 5
          [changingHeader 3, changingHeader 4]).2 = none →
      ∃ signer valSet, (changingHeader 5).signer = some signer ∧
        epochValSet sampleConfig changingChain (((changingHeader 5).number - 1) / sampleConfig.epoch) =
          some valSet ∧
        valSet.getByAddress signer ≠ none) := by
  have hparent : (5 : Hash) ≠ 0 → (changingChain.getHeaderByNumber ((changingHeader 5).number - 1)).map
      HeaderView.hash = some 5 := fun _ => rfl
  have hparents : ∀ p ∈ [changingHeader 3, changingHeader 4],
      changingChain.getHeaderByNumber p.number = some p := by
    simp [changingChain, changingHeader]
  exact ⟨changingCalls_onChain, hparent, hparents,
    verifySigner_accepts_only_validators sampleConfig changingChain changingCalls
      changingCalls_onChain (changingHeader 5) 5 hparent _ hparents⟩

end CeloBlockchain.Backend
