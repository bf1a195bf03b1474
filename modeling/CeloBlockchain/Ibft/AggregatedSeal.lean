import CeloBlockchain.Ibft.RoundState
import CeloBlockchain.Lib.Bitmap

/-!
# Aggregated seals

`GetAggregatedSeal` and `UnionOfSeals` (`core/core.go`) turn a message set
of COMMITs into an `IstanbulAggregatedSeal`: a bitmap of the signers'
validator-set indices and the BLS aggregate of their committed seals.
`verifyAggregatedSeal` (`backend/engine.go`) counts the set bits below the
set's size against the quorum.  The BLS library is a parameter: aggregation
may fail, and verification is a test on public keys, the seal's hash and
round, and the signature.

For a set of COMMITs from distinct members of its validator set
(`FromMembers`):
* `getAggregatedSeal_eq`: the bitmap has exactly the senders' indices set,
  and the senders' seals are aggregated;
* `unionOfSeals_eq`: the bitmap is the old one `OR` the senders' indices,
  and the old signature is aggregated with the seals of exactly the senders
  whose bit was clear, each once;
* `length_signerPublicKeys`, `length_ones_union`: so the count
  `verifyAggregatedSeal` compares with the quorum is the number of signers
  aggregated.

`aggregatedSeals_count_each_signer_once` collects these.  The check of the
signature's byte length in `verifyAggregatedSeal` is left out: signatures
are opaque values here.
-/

namespace CeloBlockchain.Ibft

open Bitmap

/-- `types.IstanbulAggregatedSeal`. -/
structure IstanbulAggregatedSeal where
  bitmap : Nat
  signature : Nat
  round : Nat
deriving DecidableEq, Repr

/-- The errors of the seal functions. -/
inductive SealErr
  /-- `istanbul.ErrUnauthorizedAddress`, from `GetAddressIndex`. -/
  | unauthorizedAddress
  /-- An error of `blscrypto.AggregateSignatures`. -/
  | bls
  | insufficientSeals
  | invalidSignature
deriving DecidableEq, Repr

/-- The BLS library: `AggregateSignatures`, which may fail, and
`VerifyAggregatedSignature` of a signature by public keys over the committed
seal of a hash and round. -/
structure Bls where
  aggregateSignatures : List Nat → Option Nat
  verifyAggregatedSignature : List Nat → Hash → Nat → Nat → Bool

namespace MessageSet

variable {α : Type}

/-- `GetAddressIndex`: the sender's index in the set's validators. -/
def getAddressIndex (ms : MessageSet α) (addr : Address) : Except SealErr Nat :=
  let i := ms.valSet.getIndex addr
  if i = -1 then .error .unauthorizedAddress else .ok i.toNat

end MessageSet

/-- The body of `GetAggregatedSeal`'s loop: set the sender's bit. -/
def markSigner (seals : MessageSet Vote) (bitmap : Nat) (v : Vote) : Except SealErr Nat := do
  let j ← seals.getAddressIndex v.address
  pure (setBit bitmap j)

/-- `GetAggregatedSeal(seals, round)`: the bitmap of the senders' indices and
the aggregate of their committed seals. -/
def getAggregatedSeal (bls : Bls) (seals : MessageSet Vote) (round : Nat) :
    Except SealErr IstanbulAggregatedSeal := do
  let bitmap ← seals.values.foldlM (markSigner seals) 0
  match bls.aggregateSignatures (seals.values.map (·.committedSeal)) with
  | none => .error .bls
  | some asig => pure ⟨bitmap, asig, round⟩

/-- The body of `UnionOfSeals`'s loop: a sender whose bit is clear gets it
set, and its seal joins the batch. -/
def addNewSigner (seals : MessageSet Vote) (acc : Nat × List Nat) (v : Vote) :
    Except SealErr (Nat × List Nat) := do
  let valIndex ← seals.getAddressIndex v.address
  if acc.1.testBit valIndex = false then pure (setBit acc.1 valIndex, acc.2 ++ [v.committedSeal])
  else pure acc

/-- `UnionOfSeals(aggregatedSignature, seals)`: a sender's seal joins the
aggregate only when its bit is not yet set. -/
def unionOfSeals (bls : Bls) (aggregatedSignature : IstanbulAggregatedSeal) (seals : MessageSet Vote) :
    Except SealErr IstanbulAggregatedSeal := do
  let (newBitmap, committedSeals) ← seals.values.foldlM (addNewSigner seals)
    (aggregatedSignature.bitmap, [aggregatedSignature.signature])
  match bls.aggregateSignatures committedSeals with
  | none => .error .bls
  | some asig => pure ⟨newBitmap, asig, aggregatedSignature.round⟩

/-- The BLS keys `verifyAggregatedSeal` collects: those of the validators,
by index below the set's size, whose bit is set. -/
def signerPublicKeys (validators : ValidatorSet) (bitmap : Nat) : List Nat :=
  (List.range validators.size).filterMap fun i =>
    if bitmap.testBit i then validators.list[i]?.map (·.blsPublicKey) else none

/-- `verifyAggregatedSeal(headerHash, validators, aggregatedSeal)`: at least
`MinQuorumSize` signers, and a signature that verifies against their keys. -/
def verifyAggregatedSeal (bls : Bls) (headerHash : Hash) (validators : ValidatorSet)
    (aggregatedSeal : IstanbulAggregatedSeal) : Except SealErr Unit :=
  let publicKeys := signerPublicKeys validators aggregatedSeal.bitmap
  if publicKeys.length < validators.minQuorumSize then .error .insufficientSeals
  else if bls.verifyAggregatedSignature publicKeys headerHash aggregatedSeal.round
      aggregatedSeal.signature then .ok ()
  else .error .invalidSignature

/-! ## Indices of members -/

/-- The index `GetAddressIndex` gives an address: its first position in the
validators. -/
def senderIndex (vs : ValidatorSet) (a : Address) : Nat := (vs.getIndex a).toNat

theorem findIdx?_of_contains {vs : ValidatorSet} {a : Address} (h : vs.containsByAddress a = true) :
    ∃ i, vs.list.findIdx? (·.address == a) = some i :=
  Option.isSome_iff_exists.mp (List.findIdx?_isSome.trans h)

/-- A member's index is a position of the member. -/
theorem senderIndex_spec {vs : ValidatorSet} {a : Address} (h : vs.containsByAddress a = true) :
    ∃ hi : senderIndex vs a < vs.list.length, vs.list[senderIndex vs a].address = a := by
  obtain ⟨i, hi⟩ := findIdx?_of_contains h
  have hidx : senderIndex vs a = i := by
    simp [senderIndex, ValidatorSet.getIndex, hi]
  obtain ⟨hlt, hp, -⟩ := List.findIdx?_eq_some_iff_getElem.mp hi
  subst hidx
  exact ⟨hlt, by simpa using hp⟩

theorem senderIndex_lt {vs : ValidatorSet} {a : Address} (h : vs.containsByAddress a = true) :
    senderIndex vs a < vs.size :=
  (senderIndex_spec h).1

/-- Members with the same index are the same address. -/
theorem senderIndex_inj {vs : ValidatorSet} {a b : Address} (ha : vs.containsByAddress a = true)
    (hb : vs.containsByAddress b = true) (heq : senderIndex vs a = senderIndex vs b) : a = b := by
  obtain ⟨hia, hra⟩ := senderIndex_spec ha
  obtain ⟨hib, hrb⟩ := senderIndex_spec hb
  rw [← hra, ← hrb]
  simp only [heq]

theorem getAddressIndex_of_contains {α : Type} {ms : MessageSet α} {a : Address}
    (h : ms.valSet.containsByAddress a = true) :
    ms.getAddressIndex a = .ok (senderIndex ms.valSet a) := by
  obtain ⟨i, hi⟩ := findIdx?_of_contains h
  simp [MessageSet.getAddressIndex, senderIndex, ValidatorSet.getIndex, hi]

/-! ## Sets of COMMITs from members -/

/-- A set of COMMITs as `Add` builds it: each message is stored under its
sender, and every sender is a member of the set's validators. -/
structure FromMembers (ms : MessageSet Vote) : Prop where
  keyed : ∀ a v, ms.get a = some v → v.address = a
  members : ∀ a ∈ ms.messages, ms.valSet.containsByAddress a = true

/-- `FromMembers` restated over the entries and keys of the set, which is how it is decided. -/
theorem fromMembers_iff (ms : MessageSet Vote) :
    FromMembers ms ↔ (∀ e ∈ ms.messages.entries, e.2.address = e.1) ∧
      ∀ a ∈ ms.messages.keys, ms.valSet.containsByAddress a = true := by
  constructor
  · rintro ⟨hkeyed, hmem⟩
    exact ⟨fun e he => hkeyed e.1 e.2 (AList.mem_lookup_iff.mpr he),
      fun a ha => hmem a (AList.mem_keys.mpr ha)⟩
  · rintro ⟨hkeyed, hmem⟩
    exact ⟨fun a v hv => hkeyed ⟨a, v⟩ (AList.mem_lookup_iff.mp hv),
      fun a ha => hmem a (AList.mem_keys.mp ha)⟩

instance (ms : MessageSet Vote) : Decidable (FromMembers ms) :=
  decidable_of_iff _ (fromMembers_iff ms).symm

/-- The senders' indices, in the order of the set's values. -/
def senderIndices (ms : MessageSet Vote) : List Nat :=
  ms.values.map fun v => senderIndex ms.valSet v.address

variable {ms : MessageSet Vote}

theorem FromMembers.contains (h : FromMembers ms) {v : Vote} (hv : v ∈ ms.values) :
    ms.valSet.containsByAddress v.address = true := by
  obtain ⟨a, ha⟩ := (MessageSet.mem_values_iff ms v).mp hv
  rw [h.keyed a v ha]
  exact h.members a (MessageSet.mem_iff_get.mpr ⟨v, ha⟩)

theorem FromMembers.nodup_address (h : FromMembers ms) : (ms.values.map (·.address)).Nodup := by
  rw [MessageSet.values_map_eq_addresses h.keyed]
  exact ms.messages.keys_nodup

/-- Distinct members have distinct indices. -/
theorem FromMembers.nodup_indices (h : FromMembers ms) : (senderIndices ms).Nodup := by
  have hvals : ms.values.Nodup := h.nodup_address.of_map _
  refine hvals.map_on fun v hv w hw heq => ?_
  have haddr := senderIndex_inj (h.contains hv) (h.contains hw) heq
  exact (List.inj_on_of_nodup_map h.nodup_address hv hw haddr)

theorem FromMembers.indices_lt (h : FromMembers ms) {i : Nat} (hi : i ∈ senderIndices ms) :
    i < ms.valSet.size := by
  obtain ⟨v, hv, rfl⟩ := List.mem_map.mp hi
  exact senderIndex_lt (h.contains hv)

/-! ## The loops -/

/-- `GetAggregatedSeal`'s loop over members sets their indices. -/
theorem foldlM_markSigner (ms : MessageSet Vote) :
    ∀ (l : List Vote) (bm : Nat), (∀ v ∈ l, ms.valSet.containsByAddress v.address = true) →
      l.foldlM (markSigner ms) bm = .ok (setBits bm (l.map fun v => senderIndex ms.valSet v.address))
  | [], _, _ => rfl
  | v :: l, bm, hl => by
    have hv : markSigner ms bm v = .ok (setBit bm (senderIndex ms.valSet v.address)) := by
      simp [markSigner, getAddressIndex_of_contains (hl v List.mem_cons_self), pure, Except.pure,
        bind, Except.bind]
    rw [List.foldlM_cons, hv]
    exact foldlM_markSigner ms l _ fun w hw => hl w (List.mem_cons_of_mem _ hw)

/-- `UnionOfSeals`'s loop over members with distinct indices sets their
indices and adds the seals of those whose bit was clear in the starting
bitmap: the bits it sets itself belong to other senders. -/
theorem foldlM_addNewSigner (ms : MessageSet Vote) :
    ∀ (l : List Vote) (bm : Nat) (cs : List Nat),
      (∀ v ∈ l, ms.valSet.containsByAddress v.address = true) →
      (l.map fun v => senderIndex ms.valSet v.address).Nodup →
      l.foldlM (addNewSigner ms) (bm, cs) =
        .ok (setBits bm (l.map fun v => senderIndex ms.valSet v.address),
          cs ++ ((l.filter fun v => !bm.testBit (senderIndex ms.valSet v.address)).map (·.committedSeal)))
  | [], _, _, _, _ => by simp [pure, Except.pure]
  | v :: l, bm, cs, hl, hnd => by
    obtain ⟨hvl, hnd⟩ := List.nodup_cons.mp hnd
    have hl' : ∀ w ∈ l, ms.valSet.containsByAddress w.address = true :=
      fun w hw => hl w (List.mem_cons_of_mem _ hw)
    have hidx := getAddressIndex_of_contains (hl v List.mem_cons_self)
    rw [List.foldlM_cons]
    by_cases hbit : bm.testBit (senderIndex ms.valSet v.address) = true
    · -- already signed: nothing changes, and setting the bit again is a no-op
      have hv : addNewSigner ms (bm, cs) v = .ok (bm, cs) := by
        simp [addNewSigner, hidx, hbit, pure, Except.pure, bind, Except.bind]
      rw [hv]
      show l.foldlM (addNewSigner ms) (bm, cs) = _
      rw [foldlM_addNewSigner ms l bm cs hl' hnd, List.map_cons, setBits_cons,
        setBit_of_testBit hbit, List.filter_cons_of_neg (by simp [hbit])]
    · -- a new signer: its bit is set and its seal added; the others' bits are untouched
      have hclear : bm.testBit (senderIndex ms.valSet v.address) = false := by simpa using hbit
      have hv : addNewSigner ms (bm, cs) v =
          .ok (setBit bm (senderIndex ms.valSet v.address), cs ++ [v.committedSeal]) := by
        simp [addNewSigner, hidx, hclear, pure, Except.pure, bind, Except.bind]
      have hfilter : (l.filter fun w => !(setBit bm (senderIndex ms.valSet v.address)).testBit
            (senderIndex ms.valSet w.address)) =
          l.filter fun w => !bm.testBit (senderIndex ms.valSet w.address) := by
        apply List.filter_congr
        intro w hw
        have hne : senderIndex ms.valSet v.address ≠ senderIndex ms.valSet w.address :=
          fun h => hvl (List.mem_map.mpr ⟨w, hw, h.symm⟩)
        simp [hne]
      rw [hv]
      show l.foldlM (addNewSigner ms) (setBit bm _, cs ++ [v.committedSeal]) = _
      rw [foldlM_addNewSigner ms l _ _ hl' hnd, hfilter, List.map_cons, setBits_cons,
        List.filter_cons_of_pos (by simp [hclear]), List.map_cons, List.append_assoc,
        List.singleton_append]

/-- The values whose seal `UnionOfSeals` adds: the senders whose bit is
clear in the starting bitmap. -/
def newSigners (bitmap : Nat) (ms : MessageSet Vote) : List Vote :=
  ms.values.filter fun v => !bitmap.testBit (senderIndex ms.valSet v.address)

/-! ## The seals -/

section Seals

variable (bls : Bls) (h : FromMembers ms)
include h

/-- **`GetAggregatedSeal`.** The bitmap is that of the senders' indices, and
the senders' seals are aggregated. -/
theorem getAggregatedSeal_eq (round : Nat) :
    getAggregatedSeal bls ms round =
      match bls.aggregateSignatures (ms.values.map (·.committedSeal)) with
      | none => .error .bls
      | some asig => .ok ⟨setBits 0 (senderIndices ms), asig, round⟩ := by
  unfold getAggregatedSeal
  rw [foldlM_markSigner ms ms.values 0 fun v hv => h.contains hv]
  rfl

/-- **`UnionOfSeals`.** The bitmap is the old one `OR` the senders', and the
old signature is aggregated with the seals of the new signers. -/
theorem unionOfSeals_eq (S : IstanbulAggregatedSeal) :
    unionOfSeals bls S ms =
      match bls.aggregateSignatures (S.signature :: (newSigners S.bitmap ms).map (·.committedSeal)) with
      | none => .error .bls
      | some asig => .ok ⟨S.bitmap ||| setBits 0 (senderIndices ms), asig, S.round⟩ := by
  unfold unionOfSeals
  rw [foldlM_addNewSigner ms ms.values S.bitmap [S.signature] (fun v hv => h.contains hv)
    h.nodup_indices, ← setBits_eq_or]
  rfl

/-- The new signers are distinct senders: each seal is added once. -/
theorem nodup_newSigners_address (S : IstanbulAggregatedSeal) :
    ((newSigners S.bitmap ms).map (·.address)).Nodup :=
  h.nodup_address.sublist (List.filter_sublist.map _)

/-- The count `verifyAggregatedSeal` makes after `UnionOfSeals`: the old
signers below the set's size, and one more for each new signer. -/
theorem length_ones_union (S : IstanbulAggregatedSeal) :
    (ones (S.bitmap ||| setBits 0 (senderIndices ms)) ms.valSet.size).length =
      (ones S.bitmap ms.valSet.size).length + (newSigners S.bitmap ms).length := by
  -- only the clear indices change the bitmap, and they are distinct and in range
  have hnew : (senderIndices ms).filter (fun i => !S.bitmap.testBit i) =
      (newSigners S.bitmap ms).map fun v => senderIndex ms.valSet v.address := by
    rw [senderIndices, List.filter_map]
    rfl
  rw [← setBits_eq_or, ← setBits_filter,
    length_ones_setBits (fun i hi => h.indices_lt (List.mem_of_mem_filter hi))
      (h.nodup_indices.filter _) (fun i hi => by simpa using (List.mem_filter.mp hi).2),
    hnew, List.length_map]

end Seals

/-! ## What `verifyAggregatedSeal` counts -/

/-- The keys collected are one per set bit below the set's size. -/
theorem length_signerPublicKeys (vs : ValidatorSet) (bitmap : Nat) :
    (signerPublicKeys vs bitmap).length = (ones bitmap vs.size).length := by
  rw [signerPublicKeys, List.length_filterMap_eq_countP, ones, ← List.countP_eq_length_filter]
  apply List.countP_congr
  intro i hi
  have hlt : i < vs.list.length := List.mem_range.mp hi
  by_cases hbit : bitmap.testBit i = true
  · simp [hbit, List.getElem?_eq_getElem hlt]
  · simp [hbit]

/-- **Each signer once.** For a set of COMMITs from distinct members:
`GetAggregatedSeal`'s bitmap has exactly the senders' indices set, their
seals are aggregated, and `verifyAggregatedSeal` counts as many signers as
there are messages; `UnionOfSeals`'s bitmap is the old one `OR` the
senders', the old signature is aggregated with the seals of the senders
whose bit was clear, each once, and the count grows by their number. -/
theorem aggregatedSeals_count_each_signer_once (bls : Bls) (ms : MessageSet Vote) (h : FromMembers ms) :
    (∀ round S, getAggregatedSeal bls ms round = .ok S →
      (∀ i, S.bitmap.testBit i = true ↔ ∃ v ∈ ms.values, senderIndex ms.valSet v.address = i) ∧
      bls.aggregateSignatures (ms.values.map (·.committedSeal)) = some S.signature ∧
      (signerPublicKeys ms.valSet S.bitmap).length = ms.size) ∧
    (∀ S S', unionOfSeals bls S ms = .ok S' →
      S'.bitmap = S.bitmap ||| setBits 0 (senderIndices ms) ∧
      bls.aggregateSignatures (S.signature :: (newSigners S.bitmap ms).map (·.committedSeal)) =
        some S'.signature ∧
      ((newSigners S.bitmap ms).map (·.address)).Nodup ∧
      (signerPublicKeys ms.valSet S'.bitmap).length =
        (signerPublicKeys ms.valSet S.bitmap).length + (newSigners S.bitmap ms).length) := by
  refine ⟨fun round S hS => ?_, fun S S' hS => ?_⟩
  · rw [getAggregatedSeal_eq bls h round] at hS
    cases hagg : bls.aggregateSignatures (ms.values.map (·.committedSeal)) with
    | none =>
      rw [hagg] at hS
      cases hS
    | some asig =>
      rw [hagg] at hS
      cases hS
      refine ⟨fun i => ?_, rfl, ?_⟩
      · rw [testBit_setBits_zero, decide_eq_true_iff, senderIndices, List.mem_map]
      · -- the bits are distinct, in range, and set on an empty bitmap
        rw [length_signerPublicKeys, length_ones_setBits (fun i hi => h.indices_lt hi) h.nodup_indices
          (fun i _ => Nat.zero_testBit i), ones_zero, senderIndices, List.length_map,
          MessageSet.length_values, List.length_nil, Nat.zero_add]
  · rw [unionOfSeals_eq bls h S] at hS
    cases hagg : bls.aggregateSignatures (S.signature :: (newSigners S.bitmap ms).map (·.committedSeal)) with
    | none =>
      rw [hagg] at hS
      cases hS
    | some asig =>
      rw [hagg] at hS
      cases hS
      refine ⟨rfl, rfl, nodup_newSigners_address h S, ?_⟩
      rw [length_signerPublicKeys, length_signerPublicKeys, length_ones_union h S]

/-- Three validators, with addresses `1`, `2` and `3`. -/
def sealValidators : ValidatorSet := ⟨[⟨1, 11⟩, ⟨2, 22⟩, ⟨3, 33⟩], 0⟩

/-- A COMMIT of validator `a` whose seal is `100 + a`. -/
def commitOf (a : Address) : Vote := ⟨.commit, a, a, ⟨⟨1, 0⟩, 7⟩, 100 + a, 0⟩

/-- The COMMITs of validators `1` and `3`. -/
def twoCommits : MessageSet Vote :=
  ⟨sealValidators, ((∅ : AList fun _ : Address => Vote).insert 1 (commitOf 1)).insert 3 (commitOf 3)⟩

/-- A BLS library whose aggregate is the sum of the signatures. -/
def sumBls : Bls := ⟨fun sigs => some sigs.sum, fun _ _ _ _ => true⟩

/-- The laws on `twoCommits`: indices 0 and 2 are set, and a seal already
signed by validator 1 gains only validator 3's. -/
theorem aggregatedSeals_count_each_signer_once_two :
    FromMembers twoCommits ∧
    getAggregatedSeal sumBls twoCommits 0 = .ok ⟨5, 204, 0⟩ ∧
    (signerPublicKeys twoCommits.valSet 5).length = twoCommits.size ∧
    unionOfSeals sumBls ⟨1, 50, 0⟩ twoCommits = .ok ⟨5, 153, 0⟩ ∧
    (signerPublicKeys twoCommits.valSet 5).length =
      (signerPublicKeys twoCommits.valSet 1).length + (newSigners 1 twoCommits).length := by
  have hm : FromMembers twoCommits := by decide
  have hS : getAggregatedSeal sumBls twoCommits 0 = .ok ⟨5, 204, 0⟩ := rfl
  have hU : unionOfSeals sumBls ⟨1, 50, 0⟩ twoCommits = .ok ⟨5, 153, 0⟩ := rfl
  obtain ⟨hget, hunion⟩ := aggregatedSeals_count_each_signer_once sumBls twoCommits hm
  exact ⟨hm, hS, (hget 0 _ hS).2.2, hU, (hunion _ _ hU).2.2.2⟩

end CeloBlockchain.Ibft
