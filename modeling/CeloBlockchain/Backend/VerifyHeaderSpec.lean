import CeloBlockchain.Backend.VerifyHeader

/-!
# What header verification accepts

`HeaderAccepted` states what `verifyHeader` checks of a header above genesis
on a node with the full chain, with the validator sets of `epochValSet` and no
cache: no L2 migration, a time not in the future, a parent on the chain with
the header's parent hash and a time at least the block period earlier, a
signer in the validator set of the parent's epoch, the fork fields, the
block's seal by a quorum of that set, and the parent's seal by a quorum of the
set that validated the parent.

* `verifyHeader_spec`: whatever the snapshot cache holds (`Sound`), a header
  `verifyHeader` accepts is `HeaderAccepted`, and the cache stays sound.
* `verifyHeader_eq_none_iff`: on a valid chain the converse holds too.
* `verifyHeaders_sound`: the results of a batch are acceptances, then at
  most one error, then `ErrUnknownAncestor` for the rest; every header
  accepted is `HeaderAccepted`.

The parent's seal is checked against the snapshot two blocks back at the
first block of an epoch, and against the parent's snapshot elsewhere. Both are
the set of epoch `(number - 2) / epoch` once epochs are longer than one block,
which the configuration guarantees (`MinEpochSize` is 3).
-/

namespace CeloBlockchain.Backend

open Ibft (Address Hash Validator ValidatorSet)

/-! ## The conditions -/

/-- A seal `verifyAggregatedSeal` accepts: a signature of the library's
length, at least `MinQuorumSize` signers of `validators`, and a signature the
library verifies against their keys. -/
structure SealValid (bls : BlsVerifier) (hash : Hash) (validators : ValidatorSet)
    (s : IstanbulAggregatedSeal) : Prop where
  length : s.signature.length = bls.signatureBytes
  quorum : validators.minQuorumSize ≤ (Ibft.signerPublicKeys validators s.bitmap).length
  verified : bls.bls.verifyAggregatedSignature (Ibft.signerPublicKeys validators s.bitmap) hash
    s.round (BigEndian.ofBytes s.signature) = true

/-- The block's own seal as `checkAggregatedSeal` wants it: empty for a
proposal, otherwise not empty and valid. -/
def AggregatedSealOk (bls : BlsVerifier) (hash : Hash) (validators : ValidatorSet)
    (s : IstanbulAggregatedSeal) : Bool → Prop
  | true => s.signature = []
  | false => s.signature ≠ [] ∧ SealValid bls hash validators s

/-- The fork fields `verifyForkFields` accepts. -/
def ForkFieldsValid (vcfg : VerifyConfig) (header : ChainHeader) : Prop :=
  if vcfg.isGingerbread header.view.number then
    header.gasUsed ≤ header.gasLimit ∧ header.baseFee ≠ none ∧ header.difficulty = some 0 ∧
      header.nonce = 0 ∧ header.uncleHash = emptyUncleHash ∧ header.mixDigest = emptyMixDigest
  else header.baseFee = none ∧ header.gasLimit = 0 ∧ header.difficulty = none

/-- Parents read from the chain. -/
def ParentsOnChain (reader : HeaderReader) (parents : List ChainHeader) : Prop :=
  ∀ p ∈ parents, reader.getHeaderByNumber p.view.number = some p

/-- The seals `verifyAggregatedSeals` accepts, with the sets of `epochValSet`. -/
structure SealsAccepted (cfg : Config) (vcfg : VerifyConfig) (bls : BlsVerifier)
    (reader : HeaderReader) (header : ChainHeader) (emptyAggregatedSeal : Bool) : Prop where
  aggregatedSeal : ∃ extra valSet, header.view.istanbulExtra = some extra ∧
    epochValSet cfg reader.toChain ((header.view.number - 1) / cfg.epoch) = some valSet ∧
    AggregatedSealOk bls header.view.hash valSet extra.aggregatedSeal emptyAggregatedSeal
  parentSeal : 1 < header.view.number → vcfg.fullHeaderChainAvailable = true →
    ∃ extra parentValSet, header.view.istanbulExtra = some extra ∧
      epochValSet cfg reader.toChain ((header.view.number - 2) / cfg.epoch) = some parentValSet ∧
      SealValid bls header.parentHash parentValSet extra.parentAggregatedSeal

/-- What `verifyHeader` checks of a header above genesis on a node with the
full chain, with the sets of `epochValSet`. -/
structure HeaderAccepted (cfg : Config) (vcfg : VerifyConfig) (bls : BlsVerifier)
    (reader : HeaderReader) (now : Nat) (header : ChainHeader) (emptyAggregatedSeal : Bool) :
    Prop where
  notMigrated : vcfg.isL2Migration header.view.number = false
  notFuture : header.time ≤ now
  parent : ∃ parent, reader.getHeaderByNumber (header.view.number - 1) = some parent ∧
    parent.view.hash = header.parentHash ∧ parent.time + vcfg.blockPeriod ≤ header.time
  signer : ∃ signer valSet, header.view.signer = some signer ∧
    epochValSet cfg reader.toChain ((header.view.number - 1) / cfg.epoch) = some valSet ∧
    valSet.getByAddress signer ≠ none
  forkFields : ForkFieldsValid vcfg header
  seals : SealsAccepted cfg vcfg bls reader header emptyAggregatedSeal

/-! ## The seal checks -/

theorem verifyAggregatedSeal_core_eq_ok_iff (bls : Ibft.Bls) (hash : Hash)
    (validators : ValidatorSet) (s : Ibft.IstanbulAggregatedSeal) :
    Ibft.verifyAggregatedSeal bls hash validators s = .ok () ↔
      validators.minQuorumSize ≤ (Ibft.signerPublicKeys validators s.bitmap).length ∧
        bls.verifyAggregatedSignature (Ibft.signerPublicKeys validators s.bitmap) hash s.round
          s.signature = true := by
  unfold Ibft.verifyAggregatedSeal
  dsimp only
  split_ifs with hquorum hverify
  · simp only [false_iff, not_and, Nat.not_le.mpr hquorum, false_imp_iff]
  · simp [Nat.not_lt.mp hquorum, hverify]
  · simp [hverify]

theorem verifyAggregatedSeal_eq_none_iff (bls : BlsVerifier) (hash : Hash)
    (validators : ValidatorSet) (s : IstanbulAggregatedSeal) :
    verifyAggregatedSeal bls hash validators s = none ↔ SealValid bls hash validators s := by
  have hcore := verifyAggregatedSeal_core_eq_ok_iff bls.bls hash validators s.toCore
  unfold verifyAggregatedSeal
  by_cases hlen : s.signature.length = bls.signatureBytes
  · rw [if_neg (not_not.mpr hlen)]
    cases hv : Ibft.verifyAggregatedSeal bls.bls hash validators s.toCore with
    | error e =>
      rw [hv] at hcore
      simp only [reduceCtorEq, false_iff] at hcore ⊢
      exact fun hvalid => hcore ⟨hvalid.quorum, hvalid.verified⟩
    | ok u =>
      rw [hv] at hcore
      obtain ⟨hquorum, hverified⟩ := hcore.mp rfl
      exact iff_of_true rfl ⟨hlen, hquorum, hverified⟩
  · rw [if_pos hlen]
    simp only [reduceCtorEq, false_iff]
    exact fun hvalid => hlen hvalid.length

theorem checkAggregatedSeal_eq_none_iff (bls : BlsVerifier) (emptyAggregatedSeal : Bool)
    (hash : Hash) (validators : ValidatorSet) (s : IstanbulAggregatedSeal) :
    checkAggregatedSeal bls emptyAggregatedSeal hash validators s = none ↔
      AggregatedSealOk bls hash validators s emptyAggregatedSeal := by
  unfold checkAggregatedSeal
  cases emptyAggregatedSeal with
  | true => simp [AggregatedSealOk]
  | false =>
    by_cases hempty : s.signature = []
    · simp [AggregatedSealOk, hempty]
    · rw [if_neg Bool.false_ne_true, if_neg (by simpa using hempty),
        verifyAggregatedSeal_eq_none_iff]
      exact ⟨fun h => ⟨hempty, h⟩, fun h => h.2⟩

theorem verifyForkFields_eq_none_iff (vcfg : VerifyConfig) (header : ChainHeader) :
    verifyForkFields vcfg header = none ↔ ForkFieldsValid vcfg header := by
  unfold verifyForkFields ForkFieldsValid
  by_cases hgingerbread : vcfg.isGingerbread header.view.number = true
  · rw [if_pos hgingerbread, if_pos hgingerbread]
    cases hdifficulty : header.difficulty with
    | none => simp [ite_eq_iff]
    | some difficulty =>
      by_cases hgas : header.gasUsed ≤ header.gasLimit
      · simp [hgas, Nat.not_lt.mpr hgas, ite_eq_iff]
      · simp [hgas, Nat.lt_of_not_le hgas]
  · rw [if_neg hgingerbread, if_neg hgingerbread]
    cases hbaseFee : header.baseFee with
    | some baseFee => simp
    | none =>
      cases hdifficulty : header.difficulty with
      | none => simp
      | some difficulty => simp [ite_eq_iff]

/-! ## Epochs of the parent -/

/-- Away from the first block of an epoch, a block and its parent have their
parents in one epoch. -/
theorem pred_div_eq_of_mod_ne_one {epoch : Nat} (hepoch : 1 < epoch) {number : Nat}
    (hnumber : 1 < number) (hmod : number % epoch ≠ 1) :
    (number - 1) / epoch = (number - 2) / epoch := by
  have hpred : (number - 1) % epoch ≠ 0 := by
    intro hzero
    have hsucc : number % epoch = ((number - 1) % epoch + 1 % epoch) % epoch := by
      rw [← Nat.add_mod, Nat.sub_add_cancel (by omega)]
    rw [hzero, Nat.zero_add, Nat.mod_mod, Nat.mod_eq_of_lt hepoch] at hsucc
    exact hmod hsucc
  have h := pred_div_of_mod_ne_zero (by omega) hpred
  rw [show number - 1 - 1 = number - 2 by omega] at h
  exact h.symm

/-! ## Parents -/

section Parents

variable {reader : HeaderReader}

theorem ParentsOnChain.views {parents : List ChainHeader} (h : ParentsOnChain reader parents) :
    ∀ p ∈ parents.map ChainHeader.view, reader.toChain.getHeaderByNumber p.number = some p := by
  intro p hp
  obtain ⟨q, hq, rfl⟩ := List.mem_map.mp hp
  simp [HeaderReader.toChain, h q hq]

theorem toChain_hash {number : Nat} {parent : ChainHeader}
    (hp : reader.getHeaderByNumber number = some parent) :
    (reader.toChain.getHeaderByNumber number).map HeaderView.hash = some parent.view.hash := by
  simp [HeaderReader.toChain, hp]

/-- The parent `verifyCascadingFields` finds, once its number is checked, is the
chain's header at `number - 1`. -/
theorem cascadingParent_onChain {header : ChainHeader} {parents : List ChainHeader}
    (hparents : ParentsOnChain reader parents) {parent : ChainHeader}
    (hp : cascadingParent reader header parents = some parent)
    (hnumber : parent.view.number = header.view.number - 1) :
    reader.getHeaderByNumber (header.view.number - 1) = some parent := by
  unfold cascadingParent at hp
  cases hlast : parents.getLast? with
  | some q =>
    rw [hlast] at hp
    cases hp
    rw [← hnumber]
    exact hparents _ (List.mem_of_getLast? hlast)
  | none =>
    rw [hlast] at hp
    exact (Option.filter_eq_some_iff.mp hp).1

/-- When the last of `parents` is at `number - 1`, `verifyCascadingFields`
finds the chain's header there whenever it has the header's parent hash. -/
theorem cascadingParent_eq {header : ChainHeader} {parents : List ChainHeader}
    (hparents : ParentsOnChain reader parents)
    (hlast : ∀ q ∈ parents.getLast?, q.view.number = header.view.number - 1) {parent : ChainHeader}
    (hp : reader.getHeaderByNumber (header.view.number - 1) = some parent)
    (hhash : parent.view.hash = header.parentHash) :
    cascadingParent reader header parents = some parent := by
  unfold cascadingParent
  cases hq : parents.getLast? with
  | some q =>
    have hq' := hparents q (List.mem_of_getLast? hq)
    rw [hlast q hq, hp] at hq'
    exact hq'.symm
  | none =>
    exact Option.filter_eq_some_iff.mpr ⟨hp, by simp [hhash]⟩

end Parents

/-! ## The signer -/

section Signer

variable {cfg : Config} {chain : Chain}

/-- `verifySigner` keeps the cache sound, and when it accepts, the signer is
in the set of the parent's epoch. -/
theorem verifySigner_spec {st : SnapshotStore} (hst : Sound cfg chain st) {header : HeaderView}
    (hnumber : header.number ≠ 0) {parentHash : Hash}
    (hhash : parentHash ≠ 0 →
      (chain.getHeaderByNumber (header.number - 1)).map HeaderView.hash = some parentHash)
    {parents : List HeaderView} (hparents : ∀ p ∈ parents, chain.getHeaderByNumber p.number = some p) :
    Sound cfg chain (verifySigner cfg chain st header parentHash parents).1 ∧
      ((verifySigner cfg chain st header parentHash parents).2 = none →
        ∃ signer valSet, header.signer = some signer ∧
          epochValSet cfg chain ((header.number - 1) / cfg.epoch) = some valSet ∧
          valSet.getByAddress signer ≠ none) := by
  obtain ⟨hsound, -, hok⟩ := snapshot_spec hst hhash hparents
  unfold verifySigner
  rw [if_neg hnumber]
  cases hres : snapshot cfg chain st (header.number - 1) parentHash parents with
  | mk st' r =>
    rw [hres] at hsound hok
    cases r with
    | error e => exact ⟨hsound, fun h => by cases h⟩
    | ok snap =>
      dsimp only
      cases hsigner : header.signer with
      | none => exact ⟨hsound, fun h => by cases h⟩
      | some signer =>
        dsimp only
        by_cases hauth : snap.valSet.getByAddress signer = none
        · rw [if_pos hauth]
          exact ⟨hsound, fun h => by cases h⟩
        · rw [if_neg hauth]
          exact ⟨hsound, fun _ => ⟨signer, snap.valSet, rfl, (hok snap rfl).1, hauth⟩⟩

/-- On a valid chain `verifySigner` accepts a signer of the set of the
parent's epoch. -/
theorem verifySigner_accepts {st : SnapshotStore} (hst : Sound cfg chain st) {header : HeaderView}
    (hnumber : header.number ≠ 0) {parentHash : Hash}
    (hhash : parentHash ≠ 0 →
      (chain.getHeaderByNumber (header.number - 1)).map HeaderView.hash = some parentHash)
    {parents : List HeaderView} (hparents : ∀ p ∈ parents, chain.getHeaderByNumber p.number = some p)
    (hvalid : ValidUpTo cfg chain ((header.number - 1) / cfg.epoch)) {signer : Address}
    {valSet : ValidatorSet} (hsigner : header.signer = some signer)
    (hvalSet : epochValSet cfg chain ((header.number - 1) / cfg.epoch) = some valSet)
    (hauth : valSet.getByAddress signer ≠ none) :
    (verifySigner cfg chain st header parentHash parents).2 = none := by
  obtain ⟨valSet', hvalSet', hsnap⟩ := snapshot_eq_ok_of_valid hst hhash hparents hvalid
  obtain rfl : valSet' = valSet := Option.some.inj (hvalSet'.symm.trans hvalSet)
  unfold verifySigner
  rw [if_neg hnumber]
  cases hres : snapshot cfg chain st (header.number - 1) parentHash parents with
  | mk st' r =>
    rw [hres] at hsnap
    dsimp only at hsnap
    subst hsnap
    dsimp only
    rw [hsigner]
    dsimp only
    rw [if_neg hauth]

end Signer

section Seals

variable {cfg : Config} {vcfg : VerifyConfig} {bls : BlsVerifier} {reader : HeaderReader}

/-- **The parent's seal.** `verifyParentAggregatedSeal` keeps the cache
sound, and when it accepts on a node with the full chain above block 1, the
parent's seal is valid for the set of the parent's epoch. `validators` is the
set of the block's own epoch. -/
theorem verifyParentAggregatedSeal_spec {st : SnapshotStore} (hst : Sound cfg reader.toChain st)
    (hepoch : 1 < cfg.epoch) {header : ChainHeader} {extra : IstanbulExtra}
    {validators : ValidatorSet}
    (hvalidators :
      epochValSet cfg reader.toChain ((header.view.number - 1) / cfg.epoch) = some validators) :
    Sound cfg reader.toChain (verifyParentAggregatedSeal cfg vcfg bls reader st header extra
        validators).1 ∧
      ((verifyParentAggregatedSeal cfg vcfg bls reader st header extra validators).2 = none →
        1 < header.view.number → vcfg.fullHeaderChainAvailable = true →
        ∃ parentValSet,
          epochValSet cfg reader.toChain ((header.view.number - 2) / cfg.epoch) = some parentValSet ∧
          SealValid bls header.parentHash parentValSet extra.parentAggregatedSeal) := by
  unfold verifyParentAggregatedSeal
  dsimp only
  by_cases hcheck : header.view.number > 1 ∧ vcfg.fullHeaderChainAvailable = true
  · rw [if_pos hcheck]
    by_cases hfirst : header.view.number % cfg.epoch = 1
    · -- the first block of an epoch: the snapshot two blocks back
      rw [if_pos hfirst]
      obtain ⟨hsound, -, hok⟩ := @snapshot_spec cfg reader.toChain st hst
        (header.view.number - 2) 0 (fun h => absurd rfl h) [] (fun _ hp => absurd hp List.not_mem_nil)
      cases hres : snapshot cfg reader.toChain st (header.view.number - 2) 0 [] with
      | mk st' r =>
        rw [hres] at hsound hok
        cases r with
        | error e => exact ⟨hsound, fun h => by cases h⟩
        | ok snap =>
          refine ⟨hsound, fun h _ _ => ⟨snap.valSet, (hok snap rfl).1, ?_⟩⟩
          exact (verifyAggregatedSeal_eq_none_iff _ _ _ _).mp h
    · rw [if_neg hfirst]
      refine ⟨hst, fun h _ _ => ⟨validators, ?_, (verifyAggregatedSeal_eq_none_iff _ _ _ _).mp h⟩⟩
      rw [← pred_div_eq_of_mod_ne_one hepoch hcheck.1 hfirst]
      exact hvalidators
  · rw [if_neg hcheck]
    exact ⟨hst, fun _ hnumber hfull => absurd ⟨hnumber, hfull⟩ hcheck⟩

/-- **The seals.** `verifyAggregatedSeals` keeps the cache sound, and when it
accepts, the seals are those of `SealsAccepted`. The parent hash must be the
chain's at `number - 1`, as the parent check has made sure. -/
theorem verifyAggregatedSeals_spec {st : SnapshotStore} (hst : Sound cfg reader.toChain st)
    (hepoch : 1 < cfg.epoch) {header : ChainHeader} (hnumber : header.view.number ≠ 0)
    (hhash : header.parentHash ≠ 0 →
      (reader.toChain.getHeaderByNumber (header.view.number - 1)).map HeaderView.hash =
        some header.parentHash)
    {parents : List ChainHeader} (hparents : ParentsOnChain reader parents)
    (emptyAggregatedSeal : Bool) :
    Sound cfg reader.toChain
        (verifyAggregatedSeals cfg vcfg bls reader st header emptyAggregatedSeal parents).1 ∧
      ((verifyAggregatedSeals cfg vcfg bls reader st header emptyAggregatedSeal parents).2 = none →
        SealsAccepted cfg vcfg bls reader header emptyAggregatedSeal) := by
  unfold verifyAggregatedSeals
  dsimp only
  rw [if_neg hnumber]
  cases hextra : header.view.istanbulExtra with
  | none => exact ⟨hst, fun h => by cases h⟩
  | some extra =>
    dsimp only
    obtain ⟨hsound, -, hok⟩ := snapshot_spec hst hhash hparents.views
    cases hres : snapshot cfg reader.toChain st (header.view.number - 1) header.parentHash
        (parents.map ChainHeader.view) with
    | mk st' r =>
      rw [hres] at hsound hok
      cases r with
      | error e => exact ⟨hsound, fun h => by cases h⟩
      | ok snap =>
        dsimp only
        have hvalSet := (hok snap rfl).1
        cases hcheck : checkAggregatedSeal bls emptyAggregatedSeal header.view.hash snap.valSet
            extra.aggregatedSeal with
        | some e => exact ⟨hsound, fun h => by cases h⟩
        | none =>
          dsimp only
          obtain ⟨hsound', hparent⟩ :=
            @verifyParentAggregatedSeal_spec cfg vcfg bls reader st' hsound hepoch header extra
              snap.valSet hvalSet
          refine ⟨hsound', fun h => ⟨⟨extra, snap.valSet, hextra, hvalSet,
            (checkAggregatedSeal_eq_none_iff _ _ _ _ _).mp hcheck⟩, fun hn hfull => ?_⟩⟩
          obtain ⟨parentValSet, hparentValSet, hseal⟩ := hparent h hn hfull
          exact ⟨extra, parentValSet, hextra, hparentValSet, hseal⟩

/-- On a valid chain `verifyParentAggregatedSeal` accepts a parent seal
valid for the set of the parent's epoch. -/
theorem verifyParentAggregatedSeal_accepts {st : SnapshotStore}
    (hst : Sound cfg reader.toChain st) (hepoch : 1 < cfg.epoch) {header : ChainHeader}
    {extra : IstanbulExtra} {validators : ValidatorSet}
    (hvalid : ValidUpTo cfg reader.toChain ((header.view.number - 1) / cfg.epoch))
    (hvalidators :
      epochValSet cfg reader.toChain ((header.view.number - 1) / cfg.epoch) = some validators)
    (hseal : 1 < header.view.number → vcfg.fullHeaderChainAvailable = true →
      ∃ parentValSet,
        epochValSet cfg reader.toChain ((header.view.number - 2) / cfg.epoch) = some parentValSet ∧
        SealValid bls header.parentHash parentValSet extra.parentAggregatedSeal) :
    (verifyParentAggregatedSeal cfg vcfg bls reader st header extra validators).2 = none := by
  unfold verifyParentAggregatedSeal
  dsimp only
  by_cases hcheck : header.view.number > 1 ∧ vcfg.fullHeaderChainAvailable = true
  · rw [if_pos hcheck]
    obtain ⟨parentValSet, hparentValSet, hvalidSeal⟩ := hseal hcheck.1 hcheck.2
    by_cases hfirst : header.view.number % cfg.epoch = 1
    · -- the snapshot two blocks back is the set of the parent's epoch
      rw [if_pos hfirst]
      have hle : (header.view.number - 2) / cfg.epoch ≤ (header.view.number - 1) / cfg.epoch :=
        Nat.div_le_div_right (by omega)
      obtain ⟨valSet, hvalSet, hsnap⟩ := @snapshot_eq_ok_of_valid cfg reader.toChain st hst
        (header.view.number - 2) 0 (fun h => absurd rfl h) [] (fun _ hp => absurd hp List.not_mem_nil)
        (hvalid.mono hle)
      obtain rfl : valSet = parentValSet := Option.some.inj (hvalSet.symm.trans hparentValSet)
      cases hres : snapshot cfg reader.toChain st (header.view.number - 2) 0 [] with
      | mk st' r =>
        rw [hres] at hsnap
        dsimp only at hsnap
        subst hsnap
        exact (verifyAggregatedSeal_eq_none_iff _ _ _ _).mpr hvalidSeal
    · rw [if_neg hfirst]
      rw [pred_div_eq_of_mod_ne_one hepoch hcheck.1 hfirst] at hvalidators
      obtain rfl : validators = parentValSet :=
        Option.some.inj (hvalidators.symm.trans hparentValSet)
      exact (verifyAggregatedSeal_eq_none_iff _ _ _ _).mpr hvalidSeal
  · rw [if_neg hcheck]

/-- On a valid chain `verifyAggregatedSeals` accepts the seals of
`SealsAccepted`. -/
theorem verifyAggregatedSeals_accepts {st : SnapshotStore} (hst : Sound cfg reader.toChain st)
    (hepoch : 1 < cfg.epoch) {header : ChainHeader} (hnumber : header.view.number ≠ 0)
    (hhash : header.parentHash ≠ 0 →
      (reader.toChain.getHeaderByNumber (header.view.number - 1)).map HeaderView.hash =
        some header.parentHash)
    {parents : List ChainHeader} (hparents : ParentsOnChain reader parents)
    (hvalid : ValidUpTo cfg reader.toChain ((header.view.number - 1) / cfg.epoch))
    {emptyAggregatedSeal : Bool} (hseals : SealsAccepted cfg vcfg bls reader header emptyAggregatedSeal) :
    (verifyAggregatedSeals cfg vcfg bls reader st header emptyAggregatedSeal parents).2 = none := by
  obtain ⟨extra, valSet, hextra, hvalSet, hok⟩ := hseals.aggregatedSeal
  obtain ⟨valSet', hvalSet', hsnap⟩ := snapshot_eq_ok_of_valid hst hhash hparents.views hvalid
  obtain rfl : valSet' = valSet := Option.some.inj (hvalSet'.symm.trans hvalSet)
  obtain ⟨hsound, -, -⟩ := snapshot_spec hst hhash hparents.views
  unfold verifyAggregatedSeals
  dsimp only
  rw [if_neg hnumber, hextra]
  dsimp only
  cases hres : snapshot cfg reader.toChain st (header.view.number - 1) header.parentHash
      (parents.map ChainHeader.view) with
  | mk st' r =>
    rw [hres] at hsnap hsound
    dsimp only at hsnap hsound
    subst hsnap
    dsimp only
    rw [(checkAggregatedSeal_eq_none_iff _ _ _ _ _).mpr hok]
    dsimp only
    refine verifyParentAggregatedSeal_accepts hsound hepoch hvalid hvalSet (fun hn hfull => ?_)
    obtain ⟨extra', parentValSet, hextra', hparentValSet, hseal⟩ := hseals.parentSeal hn hfull
    obtain rfl : extra' = extra := Option.some.inj (hextra'.symm.trans hextra)
    exact ⟨parentValSet, hparentValSet, hseal⟩

end Seals

/-! ## One header -/

section Header

variable {cfg : Config} {vcfg : VerifyConfig} {bls : BlsVerifier} {reader : HeaderReader}

/-- The checks `verifyCascadingFields` makes on a node with the full chain:
it keeps the cache sound, and when it accepts, the parent, the signer, the
fork fields and the seals are as `HeaderAccepted` states them. -/
theorem verifyCascadingFields_spec {st : SnapshotStore} (hst : Sound cfg reader.toChain st)
    (hepoch : 1 < cfg.epoch) (hfull : vcfg.fullHeaderChainAvailable = true) {header : ChainHeader}
    (hnumber : header.view.number ≠ 0) {parents : List ChainHeader}
    (hparents : ParentsOnChain reader parents) (emptyAggregatedSeal : Bool) :
    Sound cfg reader.toChain
        (verifyCascadingFields cfg vcfg bls reader st header emptyAggregatedSeal parents).1 ∧
      ((verifyCascadingFields cfg vcfg bls reader st header emptyAggregatedSeal parents).2 = none →
        (∃ parent, reader.getHeaderByNumber (header.view.number - 1) = some parent ∧
          parent.view.hash = header.parentHash ∧ parent.time + vcfg.blockPeriod ≤ header.time) ∧
        (∃ signer valSet, header.view.signer = some signer ∧
          epochValSet cfg reader.toChain ((header.view.number - 1) / cfg.epoch) = some valSet ∧
          valSet.getByAddress signer ≠ none) ∧
        ForkFieldsValid vcfg header ∧ SealsAccepted cfg vcfg bls reader header emptyAggregatedSeal) := by
  unfold verifyCascadingFields
  dsimp only
  rw [if_neg hnumber, if_pos hfull]
  cases hp : cascadingParent reader header parents with
  | none => exact ⟨hst, fun h => by cases h⟩
  | some parent =>
    dsimp only
    by_cases hlink : parent.view.number ≠ header.view.number - 1 ∨ parent.view.hash ≠ header.parentHash
    · rw [if_pos hlink]
      exact ⟨hst, fun h => by cases h⟩
    rw [if_neg hlink]
    obtain ⟨hnum, hphash⟩ : parent.view.number = header.view.number - 1 ∧
        parent.view.hash = header.parentHash := by
      simpa only [not_or, not_not] using hlink
    have hon := cascadingParent_onChain hparents hp hnum
    have hhash : header.parentHash ≠ 0 →
        (reader.toChain.getHeaderByNumber (header.view.number - 1)).map HeaderView.hash =
          some header.parentHash := fun _ => hphash ▸ toChain_hash hon
    by_cases htime : parent.time + vcfg.blockPeriod > header.time
    · rw [if_pos htime]
      exact ⟨hst, fun h => by cases h⟩
    rw [if_neg htime]
    obtain ⟨hsound, hsigner⟩ := verifySigner_spec hst hnumber hhash hparents.views
    cases hs : verifySigner cfg reader.toChain st header.view header.parentHash
        (parents.map ChainHeader.view) with
    | mk st' r =>
      rw [hs] at hsound hsigner
      cases r with
      | some e => exact ⟨hsound, fun h => by cases h⟩
      | none =>
        dsimp only
        cases hfork : verifyForkFields vcfg header with
        | some e => exact ⟨hsound, fun h => by cases h⟩
        | none =>
          dsimp only
          obtain ⟨hsound', hseals⟩ := @verifyAggregatedSeals_spec cfg vcfg bls reader st' hsound
            hepoch header hnumber hhash parents hparents emptyAggregatedSeal
          exact ⟨hsound', fun h => ⟨⟨parent, hon, hphash, by omega⟩, hsigner rfl,
            (verifyForkFields_eq_none_iff _ _).mp hfork, hseals h⟩⟩

/-- **What `verifyHeader` accepts.** On a node with the full chain and epochs
longer than one block, whatever the snapshot cache holds (as long as it is
sound), `verifyHeader` keeps it sound, and a header above genesis it accepts
is `HeaderAccepted`. -/
theorem verifyHeader_spec {st : SnapshotStore} (hst : Sound cfg reader.toChain st)
    (hepoch : 1 < cfg.epoch) (hfull : vcfg.fullHeaderChainAvailable = true) (now : Nat)
    {header : ChainHeader} (hnumber : header.view.number ≠ 0) {parents : List ChainHeader}
    (hparents : ParentsOnChain reader parents) (emptyAggregatedSeal : Bool) :
    Sound cfg reader.toChain
        (verifyHeader cfg vcfg bls reader st now header emptyAggregatedSeal parents).1 ∧
      ((verifyHeader cfg vcfg bls reader st now header emptyAggregatedSeal parents).2 = none →
        HeaderAccepted cfg vcfg bls reader now header emptyAggregatedSeal) := by
  unfold verifyHeader
  by_cases hmigrated : vcfg.isL2Migration header.view.number = true
  · rw [if_pos hmigrated]
    exact ⟨hst, fun h => by cases h⟩
  rw [if_neg hmigrated]
  simp only [hfull, Bool.not_true, Bool.false_eq_true, if_false]
  by_cases hfuture : header.time > now
  · rw [if_pos hfuture]
    exact ⟨hst, fun h => by cases h⟩
  rw [if_neg hfuture]
  by_cases hextra : header.view.istanbulExtra = none
  · rw [if_pos hextra]
    exact ⟨hst, fun h => by cases h⟩
  rw [if_neg hextra]
  obtain ⟨hsound, hok⟩ := @verifyCascadingFields_spec cfg vcfg bls reader st hst hepoch hfull header
    hnumber parents hparents emptyAggregatedSeal
  refine ⟨hsound, fun h => ?_⟩
  obtain ⟨hparent, hsigner, hfork, hseals⟩ := hok h
  exact ⟨Bool.eq_false_iff.mpr hmigrated, by omega, hparent, hsigner, hfork, hseals⟩

/-- On a valid chain `verifyCascadingFields` accepts a header whose parent,
signer, fork fields and seals are as `HeaderAccepted` states them, when the
last of `parents` is the block before it. -/
theorem verifyCascadingFields_accepts {st : SnapshotStore} (hst : Sound cfg reader.toChain st)
    (hepoch : 1 < cfg.epoch) (hfull : vcfg.fullHeaderChainAvailable = true) {header : ChainHeader}
    (hnumber : header.view.number ≠ 0) {parents : List ChainHeader}
    (hparents : ParentsOnChain reader parents)
    (hlast : ∀ q ∈ parents.getLast?, q.view.number = header.view.number - 1)
    (hvalid : ValidUpTo cfg reader.toChain ((header.view.number - 1) / cfg.epoch))
    {emptyAggregatedSeal : Bool}
    (hparent : ∃ parent, reader.getHeaderByNumber (header.view.number - 1) = some parent ∧
      parent.view.hash = header.parentHash ∧ parent.time + vcfg.blockPeriod ≤ header.time)
    (hsigner : ∃ signer valSet, header.view.signer = some signer ∧
      epochValSet cfg reader.toChain ((header.view.number - 1) / cfg.epoch) = some valSet ∧
      valSet.getByAddress signer ≠ none)
    (hfork : ForkFieldsValid vcfg header)
    (hseals : SealsAccepted cfg vcfg bls reader header emptyAggregatedSeal) :
    (verifyCascadingFields cfg vcfg bls reader st header emptyAggregatedSeal parents).2 = none := by
  obtain ⟨parent, hon, hphash, htime⟩ := hparent
  obtain ⟨signer, valSet, hsigner, hvalSet, hauth⟩ := hsigner
  have hhash : header.parentHash ≠ 0 →
      (reader.toChain.getHeaderByNumber (header.view.number - 1)).map HeaderView.hash =
        some header.parentHash := fun _ => hphash ▸ toChain_hash hon
  have hnum : parent.view.number = header.view.number - 1 := reader.number_eq _ _ hon
  unfold verifyCascadingFields
  dsimp only
  rw [if_neg hnumber, if_pos hfull, cascadingParent_eq hparents hlast hon hphash]
  dsimp only
  rw [if_neg (by simp [hnum, hphash]), if_neg (by omega)]
  have hsigned := verifySigner_accepts hst hnumber hhash hparents.views hvalid hsigner hvalSet hauth
  obtain ⟨hsound, -⟩ := verifySigner_spec hst hnumber hhash hparents.views
  cases hs : verifySigner cfg reader.toChain st header.view header.parentHash
      (parents.map ChainHeader.view) with
  | mk st' r =>
    rw [hs] at hsigned hsound
    dsimp only at hsigned hsound
    subst hsigned
    dsimp only
    rw [(verifyForkFields_eq_none_iff _ _).mpr hfork]
    exact verifyAggregatedSeals_accepts hsound hepoch hnumber hhash hparents hvalid hseals

/-- **The converse.** On a valid chain, `verifyHeader` accepts every
`HeaderAccepted` header above genesis whose batch ends with its parent. -/
theorem verifyHeader_accepts {st : SnapshotStore} (hst : Sound cfg reader.toChain st)
    (hepoch : 1 < cfg.epoch) (hfull : vcfg.fullHeaderChainAvailable = true) {now : Nat}
    {header : ChainHeader} (hnumber : header.view.number ≠ 0) {parents : List ChainHeader}
    (hparents : ParentsOnChain reader parents)
    (hlast : ∀ q ∈ parents.getLast?, q.view.number = header.view.number - 1)
    (hvalid : ValidUpTo cfg reader.toChain ((header.view.number - 1) / cfg.epoch))
    {emptyAggregatedSeal : Bool} (h : HeaderAccepted cfg vcfg bls reader now header emptyAggregatedSeal) :
    (verifyHeader cfg vcfg bls reader st now header emptyAggregatedSeal parents).2 = none := by
  obtain ⟨extra, -, hextra, -⟩ := h.seals.aggregatedSeal
  unfold verifyHeader
  rw [if_neg (by simp [h.notMigrated])]
  simp only [hfull, Bool.not_true, Bool.false_eq_true, if_false]
  rw [if_neg (Nat.not_lt.mpr h.notFuture), if_neg (by simp [hextra])]
  exact verifyCascadingFields_accepts hst hepoch hfull hnumber hparents hlast hvalid h.parent h.signer
    h.forkFields h.seals

/-- **`verifyHeader` decides `HeaderAccepted`.** On a node with the full chain,
epochs longer than one block and a chain valid up to the parent's epoch, a
header above genesis whose batch of parents is on the chain and ends with its
parent passes `verifyHeader` exactly when it is `HeaderAccepted`, whatever
the sound snapshot cache holds. -/
theorem verifyHeader_eq_none_iff {st : SnapshotStore} (hst : Sound cfg reader.toChain st)
    (hepoch : 1 < cfg.epoch) (hfull : vcfg.fullHeaderChainAvailable = true) (now : Nat)
    {header : ChainHeader} (hnumber : header.view.number ≠ 0) {parents : List ChainHeader}
    (hparents : ParentsOnChain reader parents)
    (hlast : ∀ q ∈ parents.getLast?, q.view.number = header.view.number - 1)
    (hvalid : ValidUpTo cfg reader.toChain ((header.view.number - 1) / cfg.epoch))
    (emptyAggregatedSeal : Bool) :
    (verifyHeader cfg vcfg bls reader st now header emptyAggregatedSeal parents).2 = none ↔
      HeaderAccepted cfg vcfg bls reader now header emptyAggregatedSeal :=
  ⟨(verifyHeader_spec hst hepoch hfull now hnumber hparents emptyAggregatedSeal).2,
    verifyHeader_accepts hst hepoch hfull hnumber hparents hlast hvalid⟩

end Header

/-- A BLS library with one-byte signatures whose aggregate over a hash is the
sum of the signers' keys and the hash. -/
def keySumBls : BlsVerifier :=
  ⟨1, ⟨fun sigs => some sigs.sum, fun keys hash _ signature => signature == keys.sum + hash⟩⟩

/-- The headers of `changingChain` with their parent hashes, a block every
five seconds, before Gingerbread. -/
def changingReader : HeaderReader where
  getHeaderByNumber n := some ⟨changingHeader n, n, 5 * n, 0, 0, none, none, 0, 0, 0⟩
  number_eq := by
    intro n header h
    cases h
    rfl
  hash_injective := by
    intro n n' header header' h h' hhash
    cases h
    cases h'
    simpa [changingHeader] using hhash

/-- A node with the full chain, a block period of five seconds and neither
fork set. -/
def fullNodeConfig : VerifyConfig := ⟨5, true, none, none⟩

/-- Block 5 as the reader has it. -/
def sealedBlock : ChainHeader := ⟨changingHeader 5, 5, 25, 0, 0, none, none, 0, 0, 0⟩

/-- Block 4, the parent of `sealedBlock`. -/
def sealedParent : ChainHeader := ⟨changingHeader 4, 4, 20, 0, 0, none, none, 0, 0, 0⟩

theorem verifyHeader_eq_none_iff_sealedBlock :
    Sound sampleConfig changingReader.toChain
      (Run.run (snapshotStep sampleConfig changingReader.toChain) SnapshotStore.empty changingCalls) ∧
    1 < sampleConfig.epoch ∧ fullNodeConfig.fullHeaderChainAvailable = true ∧
    sealedBlock.view.number ≠ 0 ∧
    ParentsOnChain changingReader [sealedParent] ∧
    (∀ q ∈ [sealedParent].getLast?,
      q.view.number = sealedBlock.view.number - 1) ∧
    ValidUpTo sampleConfig changingReader.toChain ((sealedBlock.view.number - 1) / sampleConfig.epoch) ∧
    HeaderAccepted sampleConfig fullNodeConfig keySumBls changingReader 100 sealedBlock false ∧
    ((verifyHeader sampleConfig fullNodeConfig keySumBls changingReader
        (Run.run (snapshotStep sampleConfig changingReader.toChain) SnapshotStore.empty changingCalls)
        100 sealedBlock false [sealedParent]).2 = none ↔
      HeaderAccepted sampleConfig fullNodeConfig keySumBls changingReader 100 sealedBlock false) := by
  have hst : Sound sampleConfig changingReader.toChain
      (Run.run (snapshotStep sampleConfig changingReader.toChain) SnapshotStore.empty changingCalls) :=
    sound_changingCalls
  have hepoch : 1 < sampleConfig.epoch := by decide
  have hnumber : sealedBlock.view.number ≠ 0 := by decide
  have hparents : ParentsOnChain changingReader [sealedParent] := by
    intro p hp
    rw [List.mem_singleton.mp hp]
    rfl
  have hlast : ∀ q ∈ [sealedParent].getLast?,
      q.view.number = sealedBlock.view.number - 1 := by
    intro q hq
    cases hq
    rfl
  have hvalid : ValidUpTo sampleConfig changingReader.toChain
      ((sealedBlock.view.number - 1) / sampleConfig.epoch) := changingChain_validUpTo
  -- block 5 passes every check: the parent link, the signer and both seals
  have haccepted : HeaderAccepted sampleConfig fullNodeConfig keySumBls changingReader 100
      sealedBlock false :=
    { notMigrated := rfl
      notFuture := by decide
      parent := ⟨_, rfl, rfl, by decide⟩
      signer := ⟨2, ⟨[⟨2, 8⟩, ⟨3, 9⟩], 0⟩, rfl, by decide, by decide⟩
      forkFields := ⟨rfl, rfl, rfl⟩
      seals :=
        { aggregatedSeal := ⟨_, ⟨[⟨2, 8⟩, ⟨3, 9⟩], 0⟩, rfl, by decide,
            ⟨by decide, rfl, by decide, by decide⟩⟩
          parentSeal := fun _ _ => ⟨_, ⟨[⟨1, 7⟩, ⟨2, 8⟩], 0⟩, rfl, by decide,
            ⟨rfl, by decide, by decide⟩⟩ } }
  exact ⟨hst, hepoch, rfl, hnumber, hparents, hlast, hvalid, haccepted,
    verifyHeader_eq_none_iff hst hepoch rfl 100 hnumber hparents hlast hvalid false⟩

/-! ## Batches -/

section Batch

variable {cfg : Config} {vcfg : VerifyConfig} {bls : BlsVerifier} {reader : HeaderReader}

/-- After an error, every later header of the batch gets `ErrUnknownAncestor`
and the cache is not touched. -/
theorem verifyHeadersFrom_errored (now : Nat) (st : SnapshotStore) (parents headers : List ChainHeader) :
    verifyHeadersFrom cfg vcfg bls reader now st true parents headers =
      (st, List.replicate headers.length (some .unknownAncestor)) := by
  induction headers generalizing parents with
  | nil => rfl
  | cons header headers ih =>
    simp only [verifyHeadersFrom, if_true, Bool.true_or, ih, List.length_cons,
      List.replicate_succ]

theorem verifyHeadersFrom_cons (now : Nat) (st : SnapshotStore) (parents : List ChainHeader)
    (header : ChainHeader) (headers : List ChainHeader) :
    verifyHeadersFrom cfg vcfg bls reader now st false parents (header :: headers) =
      ((verifyHeadersFrom cfg vcfg bls reader now
          (verifyHeader cfg vcfg bls reader st now header false parents).1
          (verifyHeader cfg vcfg bls reader st now header false parents).2.isSome
          (parents ++ [header]) headers).1,
        (verifyHeader cfg vcfg bls reader st now header false parents).2 ::
          (verifyHeadersFrom cfg vcfg bls reader now
            (verifyHeader cfg vcfg bls reader st now header false parents).1
            (verifyHeader cfg vcfg bls reader st now header false parents).2.isSome
            (parents ++ [header]) headers).2) := by
  simp only [verifyHeadersFrom, Bool.false_eq_true, if_false, Bool.false_or]

/-- The loop of `VerifyHeaders` before any error: a run of acceptances, each
header `HeaderAccepted`, then at most one error, after which every header is
an unknown ancestor. -/
theorem verifyHeadersFrom_sound {st : SnapshotStore} (hst : Sound cfg reader.toChain st)
    (hepoch : 1 < cfg.epoch) (hfull : vcfg.fullHeaderChainAvailable = true) (now : Nat)
    {parents headers : List ChainHeader} (hparents : ParentsOnChain reader parents)
    (hheaders : ParentsOnChain reader headers)
    (hnumbers : ∀ header ∈ headers, header.view.number ≠ 0) :
    ∃ k ≤ headers.length,
      (∀ header ∈ headers.take k, HeaderAccepted cfg vcfg bls reader now header false) ∧
      ((k = headers.length ∧
          (verifyHeadersFrom cfg vcfg bls reader now st false parents headers).2 =
            List.replicate k none) ∨
        ∃ e, (verifyHeadersFrom cfg vcfg bls reader now st false parents headers).2 =
          List.replicate k none ++
            some e :: List.replicate (headers.length - k - 1) (some .unknownAncestor)) := by
  induction headers generalizing st parents with
  | nil => exact ⟨0, le_rfl, fun _ h => absurd h List.not_mem_nil, .inl ⟨rfl, rfl⟩⟩
  | cons header headers ih =>
    have hon : reader.getHeaderByNumber header.view.number = some header :=
      hheaders header List.mem_cons_self
    have hrest : ParentsOnChain reader headers := fun p hp => hheaders p (List.mem_cons_of_mem _ hp)
    obtain ⟨hsound, haccepted⟩ := @verifyHeader_spec cfg vcfg bls reader st hst hepoch hfull now
      header (hnumbers header List.mem_cons_self) parents hparents false
    rw [verifyHeadersFrom_cons]
    cases hv : verifyHeader cfg vcfg bls reader st now header false parents with
    | mk st' err =>
      rw [hv] at hsound haccepted
      dsimp only at hsound haccepted ⊢
      cases err with
      | some e =>
        -- the first error: the rest of the batch is reported as unknown ancestors
        refine ⟨0, Nat.zero_le _, fun _ h => absurd h List.not_mem_nil, .inr ⟨e, ?_⟩⟩
        rw [Option.isSome_some, verifyHeadersFrom_errored]
        simp
      | none =>
        have hparents' : ParentsOnChain reader (parents ++ [header]) := by
          intro p hp
          rcases List.mem_append.mp hp with hp | hp
          · exact hparents p hp
          · rw [List.mem_singleton.mp hp]
            exact hon
        obtain ⟨k, hk, hacc, hshape⟩ :=
          ih hsound hparents' hrest (fun h hh => hnumbers h (List.mem_cons_of_mem _ hh))
        refine ⟨k + 1, by simpa using hk, ?_, ?_⟩
        · intro h hh
          rw [List.take_succ_cons, List.mem_cons] at hh
          rcases hh with rfl | hh
          · exact haccepted rfl
          · exact hacc h hh
        · rw [Option.isSome_none]
          rcases hshape with ⟨rfl, hres⟩ | ⟨e, hres⟩
          · exact .inl ⟨rfl, by rw [hres]; rfl⟩
          · refine .inr ⟨e, ?_⟩
            rw [hres, List.length_cons, Nat.add_sub_add_right, List.replicate_succ, List.cons_append]

/-- **A batch of headers.** On a node with the full chain and epochs longer
than one block, the results `VerifyHeaders` reports for a batch of headers on
the chain are, in order, acceptances, then at most one error, then
`ErrUnknownAncestor` for the rest; and every header it accepts is
`HeaderAccepted`, whatever the sound snapshot cache holds. -/
theorem verifyHeaders_sound {st : SnapshotStore} (hst : Sound cfg reader.toChain st)
    (hepoch : 1 < cfg.epoch) (hfull : vcfg.fullHeaderChainAvailable = true) (now : Nat)
    {headers : List ChainHeader} (hheaders : ParentsOnChain reader headers)
    (hnumbers : ∀ header ∈ headers, header.view.number ≠ 0) :
    ∃ k ≤ headers.length,
      (∀ header ∈ headers.take k, HeaderAccepted cfg vcfg bls reader now header false) ∧
      ((k = headers.length ∧ (verifyHeaders cfg vcfg bls reader st now headers).2 =
          List.replicate k none) ∨
        ∃ e, (verifyHeaders cfg vcfg bls reader st now headers).2 =
          List.replicate k none ++
            some e :: List.replicate (headers.length - k - 1) (some .unknownAncestor)) :=
  verifyHeadersFrom_sound hst hepoch hfull now (fun _ h => absurd h List.not_mem_nil) hheaders
    hnumbers

/-- Blocks 5 to 7 as the reader has them: block 5 is sealed, the later ones are
not. -/
def sealedThenUnsealed : List ChainHeader :=
  [sealedBlock, ⟨changingHeader 6, 6, 30, 0, 0, none, none, 0, 0, 0⟩,
    ⟨changingHeader 7, 7, 35, 0, 0, none, none, 0, 0, 0⟩]

theorem verifyHeaders_sound_sealedThenUnsealed :
    Sound sampleConfig changingReader.toChain SnapshotStore.empty ∧ 1 < sampleConfig.epoch ∧
    fullNodeConfig.fullHeaderChainAvailable = true ∧
    ParentsOnChain changingReader sealedThenUnsealed ∧
    (∀ header ∈ sealedThenUnsealed, header.view.number ≠ 0) ∧
    ∃ k ≤ sealedThenUnsealed.length,
      (∀ header ∈ sealedThenUnsealed.take k,
        HeaderAccepted sampleConfig fullNodeConfig keySumBls changingReader 100 header false) ∧
      ((k = sealedThenUnsealed.length ∧
          (verifyHeaders sampleConfig fullNodeConfig keySumBls changingReader SnapshotStore.empty 100
            sealedThenUnsealed).2 = List.replicate k none) ∨
        ∃ e, (verifyHeaders sampleConfig fullNodeConfig keySumBls changingReader SnapshotStore.empty
          100 sealedThenUnsealed).2 =
          List.replicate k none ++
            some e :: List.replicate (sealedThenUnsealed.length - k - 1) (some .unknownAncestor)) := by
  have hheaders : ParentsOnChain changingReader sealedThenUnsealed := by
    intro p hp
    simp only [sealedThenUnsealed, List.mem_cons, List.not_mem_nil, or_false] at hp
    rcases hp with rfl | rfl | rfl <;> rfl
  have hnumbers : ∀ header ∈ sealedThenUnsealed, header.view.number ≠ 0 := by decide
  have hepoch : 1 < sampleConfig.epoch := by decide
  exact ⟨sound_empty, hepoch, rfl, hheaders, hnumbers,
    verifyHeaders_sound sound_empty hepoch rfl 100 hheaders hnumbers⟩

end Batch

end CeloBlockchain.Backend
