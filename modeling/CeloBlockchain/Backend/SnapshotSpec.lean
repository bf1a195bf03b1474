import CeloBlockchain.Backend.Snapshot
import CeloBlockchain.Lib.Run

/-!
# Snapshots do not depend on what is cached

The validator set of epoch block `k * epoch` is the genesis set with the
diffs of blocks `epoch, 2 * epoch, ..., k * epoch` applied in order
(`epochValSet`). `Sound` says that every snapshot in `recentSnapshots` and in
the database is the right one for its block. The main results:

* `startNumberIter_eq`: the search starts at `number / epoch * epoch`.
* `searchSnapshot_spec`: the search walks `k * epoch, (k - 1) * epoch, ...`,
  so each subtraction is exact. It stops at a right snapshot or at block 0,
  and never panics (`searchSnapshot_ok`).
* `applyHeaders_spec`, `collectHeaders_spec`, `rollForward_spec`: rolling a
  right snapshot forward over the chain's epoch headers gives a right one,
  and stores only right ones.
* `snapshot_spec`: from a sound state, `snapshot` fails or returns the
  validator set `epochValSet (number / epoch)`, and leaves a sound state.
  `snapshot_not_panic`: it never panics, whatever the state.
* `sound_run`: every run of `snapshot` calls on one chain, with any
  evictions, leaves a sound state.
-/

namespace CeloBlockchain.Backend

open Ibft (Address Hash Validator ValidatorSet)

/-! ## Epoch arithmetic -/

theorem isLastBlockOfEpoch_iff {epoch : Nat} (hpos : 0 < epoch) (number : Nat) :
    Uptime.isLastBlockOfEpoch number epoch = true ↔ number % epoch = 0 := by
  have hlt := Nat.mod_lt number hpos
  unfold Uptime.isLastBlockOfEpoch Uptime.getNumberWithinEpoch
  split
  · simp_all
  · simp only [beq_iff_eq]
    omega

/-- The search starts at the last multiple of the epoch not after `number`;
block 0 is the last block of epoch 0. -/
theorem startNumberIter_eq {epoch : Nat} (hpos : 0 < epoch) (number : Nat) :
    startNumberIter epoch number = number / epoch * epoch := by
  unfold startNumberIter
  by_cases hmod : number % epoch = 0
  · rw [(isLastBlockOfEpoch_iff hpos number).mpr hmod, Bool.not_true, if_neg Bool.false_ne_true]
    exact (Nat.div_mul_cancel (Nat.dvd_of_mod_eq_zero hmod)).symm
  · have hlast : Uptime.isLastBlockOfEpoch number epoch = false := by
      exact Bool.eq_false_iff.mpr fun h => hmod ((isLastBlockOfEpoch_iff hpos number).mp h)
    rw [hlast, Bool.not_false, if_pos rfl, Uptime.getEpochNumber, hlast, if_neg Bool.false_ne_true,
      Nat.add_sub_cancel, Uptime.getEpochLastBlockNumber]
    split
    · rename_i hzero
      rw [hzero, Nat.zero_mul]
    · rfl

/-! ## Validator sets -/

theorem randomness_removeValidators (vs : ValidatorSet) (removedValidators : Nat) :
    (vs.removeValidators removedValidators).2.randomness = vs.randomness := by
  unfold ValidatorSet.removeValidators
  split
  · rfl
  · split <;> rfl

theorem randomness_addValidators (vs : ValidatorSet) (validators : List Validator) :
    (vs.addValidators validators).2.randomness = vs.randomness := by
  unfold ValidatorSet.addValidators
  split <;> rfl

/-- What a successful diff did: the validators combined, the removal and the
addition all succeeded. -/
theorem applyValidatorSetDiff_eq_some {valSet valSet' : ValidatorSet} {istExtra : IstanbulExtra} :
    applyValidatorSetDiff valSet istExtra = some valSet' ↔
      ∃ validators, combineIstanbulExtraToValidatorData istExtra.addedValidators
          istExtra.addedValidatorsPublicKeys = some validators ∧
        (valSet.removeValidators istExtra.removedValidators).1 = true ∧
        (valSet.removeValidators istExtra.removedValidators).2.addValidators validators =
          (true, valSet') := by
  simp only [applyValidatorSetDiff, Option.bind_eq_bind, Option.bind_eq_some_iff]
  apply exists_congr
  intro validators
  obtain ⟨removed, vs⟩ := valSet.removeValidators istExtra.removedValidators
  obtain ⟨added, vs'⟩ := vs.addValidators validators
  cases removed <;> cases added <;> simp

theorem randomness_applyValidatorSetDiff {valSet valSet' : ValidatorSet} {istExtra : IstanbulExtra}
    (h : applyValidatorSetDiff valSet istExtra = some valSet') :
    valSet'.randomness = valSet.randomness := by
  obtain ⟨validators, -, -, hadd⟩ := applyValidatorSetDiff_eq_some.mp h
  have hset : ((valSet.removeValidators istExtra.removedValidators).2.addValidators
      validators).2 = valSet' := by rw [hadd]
  rw [← hset, randomness_addValidators, randomness_removeValidators]

/-! ## The validator set of an epoch block -/

/-- The genesis validator set: the genesis block's `AddedValidators` with
their keys. -/
def genesisValSet (chain : Chain) : Option ValidatorSet := do
  let genesis ← chain.getHeaderByNumber 0
  let istanbulExtra ← genesis.istanbulExtra
  let validators ← combineIstanbulExtraToValidatorData istanbulExtra.addedValidators
    istanbulExtra.addedValidatorsPublicKeys
  pure (newSet validators)

/-- The validator set after epoch block `k * epoch`: the genesis set, then
the diffs of blocks `epoch, 2 * epoch, ..., k * epoch` in order. -/
def epochValSet (cfg : Config) (chain : Chain) : Nat → Option ValidatorSet
  | 0 => genesisValSet chain
  | k + 1 => do
    let valSet ← epochValSet cfg chain k
    let header ← chain.getHeaderByNumber ((k + 1) * cfg.epoch)
    let istExtra ← header.istanbulExtra
    applyValidatorSetDiff valSet istExtra

theorem epochValSet_succ_eq_some {cfg : Config} {chain : Chain} {k : Nat} {valSet : ValidatorSet}
    {header : HeaderView} {istExtra : IstanbulExtra} (hk : epochValSet cfg chain k = some valSet)
    (hheader : chain.getHeaderByNumber ((k + 1) * cfg.epoch) = some header)
    (hextra : header.istanbulExtra = some istExtra) :
    epochValSet cfg chain (k + 1) = applyValidatorSetDiff valSet istExtra := by
  simp [epochValSet, hk, hheader, hextra]

/-- The sets of epoch blocks have no randomness, as `NewSet` makes them. -/
theorem randomness_epochValSet {cfg : Config} {chain : Chain} :
    ∀ {k : Nat} {valSet : ValidatorSet}, epochValSet cfg chain k = some valSet →
      valSet.randomness = 0 := by
  intro k
  induction k with
  | zero =>
    intro valSet h
    simp only [epochValSet, genesisValSet, Option.bind_eq_bind, Option.bind_eq_some_iff,
      Option.pure_def, Option.some.injEq] at h
    obtain ⟨_, -, _, -, _, -, rfl⟩ := h
    rfl
  | succ k ih =>
    intro valSet h
    simp only [epochValSet, Option.bind_eq_bind, Option.bind_eq_some_iff] at h
    obtain ⟨prev, hprev, _, -, _, -, hdiff⟩ := h
    rw [randomness_applyValidatorSetDiff hdiff, ih hprev]

/-! ## Sound caches -/

section Sound

variable (cfg : Config) (chain : Chain)

/-- A snapshot that is right for epoch block `k * epoch`. -/
structure SnapshotAt (k : Nat) (s : Snapshot) : Prop where
  epoch_eq : s.epoch = cfg.epoch
  number_eq : s.number = k * cfg.epoch
  valSet_eq : epochValSet cfg chain k = some s.valSet

/-- Every cached snapshot is right for its number. -/
def RecentSound (recentSnapshots : RecentSnapshots) : Prop :=
  ∀ n s, recentSnapshots.lookup n = some s → ∃ k, n = k * cfg.epoch ∧ SnapshotAt cfg chain k s

/-- Every snapshot loaded from the database is right for the epoch block
whose hash is its key. -/
def DbSound (db : SnapshotDB) : Prop :=
  ∀ h s, loadSnapshot cfg.epoch db h = some s →
    ∃ k header, chain.getHeaderByNumber (k * cfg.epoch) = some header ∧ header.hash = h ∧
      SnapshotAt cfg chain k s

/-- What earlier `snapshot` calls leave. -/
structure Sound (st : SnapshotStore) : Prop where
  recent : RecentSound cfg chain st.recentSnapshots
  db : DbSound cfg chain st.db

/-- `headers` are the chain's headers of the epoch blocks after `k * epoch`,
in order. -/
def EpochHeaders (k : Nat) : List HeaderView → Prop
  | [] => True
  | header :: headers =>
    chain.getHeaderByNumber ((k + 1) * cfg.epoch) = some header ∧ EpochHeaders (k + 1) headers

/-- A result of `snapshot` and its steps: a snapshot right for epoch block
`j`, or an error that is no panic. -/
def ResultAt (j : Nat) : Except SnapshotError Snapshot → Prop
  | .ok s => SnapshotAt cfg chain j s
  | .error e => ¬e.IsPanic

/-- What the search found at epoch block `j`: a right snapshot, or nothing,
and then `j` is the genesis block. -/
def FoundAt (j : Nat) : Option Snapshot → Prop
  | some s => SnapshotAt cfg chain j s
  | none => j = 0

end Sound

/-! ## Storing and caching keep soundness -/

theorem loadSnapshot_store (epoch : Nat) (s : Snapshot) (db : SnapshotDB) (h : Hash) :
    loadSnapshot epoch (s.store db) h =
      if h = s.hash then some ⟨epoch, s.number, s.hash, { list := s.valSet.list }⟩
      else loadSnapshot epoch db h := by
  by_cases hh : h = s.hash
  · subst hh
    simp [loadSnapshot, Snapshot.store, Snapshot.toJSONStruct, SnapshotJSON.unmarshal]
  · simp [loadSnapshot, Snapshot.store, hh, AList.lookup_insert_ne hh]

/-- A set without randomness is rebuilt unchanged from its validators. -/
theorem mk_list_of_randomness {valSet : ValidatorSet} (h : valSet.randomness = 0) :
    ({ list := valSet.list } : ValidatorSet) = valSet := by
  obtain ⟨list, randomness⟩ := valSet
  subst h
  rfl

section Sound

variable {cfg : Config} {chain : Chain}

/-- Storing a right snapshot under its block's hash keeps the database sound. -/
theorem DbSound.store {db : SnapshotDB} (hdb : DbSound cfg chain db) {k : Nat} {s : Snapshot}
    {header : HeaderView} (hs : SnapshotAt cfg chain k s)
    (hheader : chain.getHeaderByNumber (k * cfg.epoch) = some header) (hhash : header.hash = s.hash) :
    DbSound cfg chain (s.store db) := by
  intro h s' hload
  rw [loadSnapshot_store] at hload
  split at hload
  · rename_i hh
    cases hload
    have hvalSet : ({ list := s.valSet.list } : ValidatorSet) = s.valSet :=
      mk_list_of_randomness (randomness_epochValSet hs.valSet_eq)
    refine ⟨k, header, hheader, hhash.trans hh.symm, rfl, hs.number_eq, ?_⟩
    rw [hvalSet]
    exact hs.valSet_eq
  · exact hdb h s' hload

theorem RecentSound.insert {recentSnapshots : RecentSnapshots}
    (hrecent : RecentSound cfg chain recentSnapshots) {k : Nat} {s : Snapshot}
    (hs : SnapshotAt cfg chain k s) :
    RecentSound cfg chain (recentSnapshots.insert (k * cfg.epoch) s) := by
  intro n s' hlookup
  by_cases hn : n = k * cfg.epoch
  · subst hn
    rw [AList.lookup_insert, Option.some.injEq] at hlookup
    subst hlookup
    exact ⟨k, rfl, hs⟩
  · rw [AList.lookup_insert_ne hn] at hlookup
    exact hrecent n s' hlookup

theorem RecentSound.erase {recentSnapshots : RecentSnapshots}
    (hrecent : RecentSound cfg chain recentSnapshots) (n : Nat) :
    RecentSound cfg chain (recentSnapshots.erase n) := by
  intro m s hlookup
  by_cases hm : m = n
  · subst hm
    simp at hlookup
  · rw [AList.lookup_erase_ne hm] at hlookup
    exact hrecent m s hlookup

end Sound

/-! ## The search -/

section Search

variable {cfg : Config} {chain : Chain}

/-- A non-zero hash the search looks up is the hash of the chain's header at
`numberIter`, when the `hash` argument is the hash of block `number`. -/
theorem searchHash_spec {number : Nat} {hash : Hash}
    (hhash : hash ≠ 0 → (chain.getHeaderByNumber number).map HeaderView.hash = some hash)
    {numberIter : Nat} (hne : searchHash chain number hash numberIter ≠ 0) :
    ∃ header, chain.getHeaderByNumber numberIter = some header ∧
      header.hash = searchHash chain number hash numberIter := by
  unfold searchHash at hne ⊢
  split
  · rename_i h
    obtain ⟨rfl, hh⟩ := h
    exact Option.map_eq_some_iff.mp (hhash hh)
  · rename_i h
    rw [if_neg h] at hne
    cases hheader : chain.getHeaderByNumber numberIter with
    | none => simp [hheader] at hne
    | some header => exact ⟨header, rfl, by simp⟩

/-- **The search.** From a multiple `k * epoch` of the epoch not after
`number`, the search visits `k * epoch, (k - 1) * epoch, ...`, so each
subtraction of the epoch is exact and it never panics. It stops at some
`j * epoch` with a right snapshot, or at block 0 with none, and the
snapshots it caches on the way are right. -/
theorem searchSnapshot_spec {db : SnapshotDB} (hdb : DbSound cfg chain db) {number : Nat}
    {hash : Hash}
    (hhash : hash ≠ 0 → (chain.getHeaderByNumber number).map HeaderView.hash = some hash)
    (k : Nat) :
    ∀ recentSnapshots : RecentSnapshots, RecentSound cfg chain recentSnapshots →
      k * cfg.epoch ≤ number →
      ∃ recentSnapshots' j found,
        searchSnapshot cfg chain db number hash recentSnapshots (k * cfg.epoch) =
          .ok (recentSnapshots', j * cfg.epoch, found) ∧
        j ≤ k ∧ RecentSound cfg chain recentSnapshots' ∧ FoundAt cfg chain j found := by
  have hpos := cfg.epoch_pos
  induction k using Nat.strong_induction_on with
  | _ k ih =>
  intro recentSnapshots hrecent hle
  rw [searchSnapshot]
  cases hcached : recentSnapshots.lookup (k * cfg.epoch) with
  | some s =>
    -- a cached snapshot is right for its number
    obtain ⟨k', hk', hs⟩ := hrecent _ s hcached
    obtain rfl : k' = k := Nat.eq_of_mul_eq_mul_right hpos hk'.symm
    exact ⟨recentSnapshots, k', some s, rfl, le_rfl, hrecent, hs⟩
  | none =>
    dsimp only
    split
    · -- a stored snapshot is right for the block whose hash is its key
      rename_i s hloaded
      have hne : searchHash chain number hash (k * cfg.epoch) ≠ 0 := by
        intro hzero
        simp [hzero] at hloaded
      rw [if_pos hne] at hloaded
      obtain ⟨k', header', hheader', hhash', hs⟩ := hdb _ s hloaded
      obtain ⟨header, hheader, hhash⟩ := searchHash_spec hhash hne
      have hkk : k' * cfg.epoch = k * cfg.epoch :=
        chain.hash_injective _ _ _ _ hheader' hheader (hhash'.trans hhash.symm)
      obtain rfl : k' = k := Nat.eq_of_mul_eq_mul_right hpos hkk
      exact ⟨_, k', some s, rfl, le_rfl, hrecent.insert hs, hs⟩
    · split
      · -- block 0: nothing found
        rename_i hzero
        obtain rfl : k = 0 := by
          rcases Nat.mul_eq_zero.mp hzero with h | h
          · exact h
          · omega
        exact ⟨recentSnapshots, 0, none, rfl, le_rfl, hrecent, rfl⟩
      · rename_i hzero
        rw [if_neg (by omega)]
        -- one epoch back: `k * epoch - epoch` is `(k - 1) * epoch`
        obtain ⟨k', rfl⟩ : ∃ k', k = k' + 1 := Nat.exists_eq_succ_of_ne_zero (by
          rintro rfl
          exact hzero (Nat.zero_mul _))
        have hsub : (k' + 1) * cfg.epoch - cfg.epoch = k' * cfg.epoch := by
          rw [Nat.succ_mul, Nat.add_sub_cancel]
        rw [hsub]
        obtain ⟨recentSnapshots', j, found, hsearch, hj, hrecent', hfound⟩ :=
          ih k' (Nat.lt_succ_self k') recentSnapshots hrecent (by omega)
        exact ⟨recentSnapshots', j, found, hsearch, by omega, hrecent', hfound⟩

end Search

/-! ## `apply` -/

section Apply

variable {cfg : Config} {chain : Chain}

/-- What one header of `apply` did: its signer is in the set, its extra
decodes and its diff applies. -/
theorem applyHeader_eq_ok {epoch : Nat} {snap s : Snapshot} {header : HeaderView}
    (h : snap.applyHeader epoch header = .ok s) :
    (∃ validator, header.signer = some validator ∧ snap.valSet.getByAddress validator ≠ none) ∧
    ∃ istExtra valSet, header.istanbulExtra = some istExtra ∧
      applyValidatorSetDiff snap.valSet istExtra = some valSet ∧
      s = ⟨epoch, snap.number + epoch, header.hash, valSet⟩ := by
  unfold Snapshot.applyHeader at h
  cases hsigner : header.signer with
  | none => simp [hsigner, throw, throwThe, MonadExceptOf.throw] at h
  | some validator =>
    by_cases hauth : snap.valSet.getByAddress validator = none
    · simp [hsigner, hauth, throw, throwThe, MonadExceptOf.throw, bind, Except.bind] at h
    cases hextra : header.istanbulExtra with
    | none => simp [hsigner, hauth, hextra, throw, throwThe, MonadExceptOf.throw] at h
    | some istExtra =>
      cases hdiff : applyValidatorSetDiff snap.valSet istExtra with
      | none => simp [hsigner, hauth, hextra, hdiff, throw, throwThe, MonadExceptOf.throw] at h
      | some valSet =>
        simp only [hsigner, hauth, hextra, hdiff, if_false, pure, Except.pure,
          Except.ok.injEq] at h
        exact ⟨⟨validator, rfl, hauth⟩, istExtra, valSet, rfl, hdiff, h.symm⟩

theorem applyHeader_not_panic {epoch : Nat} {snap : Snapshot} {header : HeaderView}
    {e : SnapshotError} (h : snap.applyHeader epoch header = .error e) : ¬e.IsPanic := by
  unfold Snapshot.applyHeader at h
  -- every branch throws one of `apply`'s own errors
  rintro (rfl | rfl) <;> (repeat' split at h) <;>
    simp [throw, throwThe, MonadExceptOf.throw, bind, Except.bind, pure, Except.pure] at h

/-- One header of the chain moves a right snapshot one epoch on. -/
theorem applyHeader_spec {k : Nat} {snap s : Snapshot} (hsnap : SnapshotAt cfg chain k snap)
    {header : HeaderView} (hheader : chain.getHeaderByNumber ((k + 1) * cfg.epoch) = some header)
    (h : snap.applyHeader cfg.epoch header = .ok s) :
    SnapshotAt cfg chain (k + 1) s ∧ s.hash = header.hash := by
  obtain ⟨-, istExtra, valSet, hextra, hdiff, rfl⟩ := applyHeader_eq_ok h
  refine ⟨⟨rfl, ?_, ?_⟩, rfl⟩
  · show snap.number + cfg.epoch = (k + 1) * cfg.epoch
    rw [hsnap.number_eq, Nat.succ_mul]
  · rw [epochValSet_succ_eq_some hsnap.valSet_eq hheader hextra]
    exact hdiff

/-- **`apply`'s loop.** Over the chain's headers of the epoch blocks after a
right snapshot, every snapshot it stores is right, and so is the one it
returns; an error is no panic. -/
theorem applyHeaders_spec {headers : List HeaderView} :
    ∀ {k : Nat} {snap : Snapshot} {db : SnapshotDB}, SnapshotAt cfg chain k snap →
      EpochHeaders cfg chain k headers → DbSound cfg chain db →
      DbSound cfg chain (snap.applyHeaders cfg.epoch headers db).1 ∧
        ResultAt cfg chain (k + headers.length) (snap.applyHeaders cfg.epoch headers db).2 := by
  induction headers with
  | nil =>
    intro k snap db hsnap _ hdb
    exact ⟨hdb, hsnap⟩
  | cons header headers ih =>
    intro k snap db hsnap hheaders hdb
    obtain ⟨hheader, hrest⟩ := hheaders
    rw [Snapshot.applyHeaders]
    split
    · rename_i e herr
      exact ⟨hdb, applyHeader_not_panic herr⟩
    · rename_i s hok
      obtain ⟨hs, hhash⟩ := applyHeader_spec hsnap hheader hok
      have hlen : k + (header :: headers).length = k + 1 + headers.length := by
        rw [List.length_cons]
        omega
      rw [hlen]
      exact ih hs hrest (hdb.store hs hheader hhash.symm)

/-- **`apply`.** The sanity checks only add errors. -/
theorem apply_spec {k : Nat} {snap : Snapshot} {headers : List HeaderView} {db : SnapshotDB}
    (hsnap : SnapshotAt cfg chain k snap) (hheaders : EpochHeaders cfg chain k headers)
    (hdb : DbSound cfg chain db) :
    DbSound cfg chain (snap.apply headers db).1 ∧
      ResultAt cfg chain (k + headers.length) (snap.apply headers db).2 := by
  unfold Snapshot.apply
  split
  · exact ⟨hdb, hsnap⟩
  · split
    · exact ⟨hdb, by simp [ResultAt, SnapshotError.IsPanic]⟩
    · split
      · exact ⟨hdb, by simp [ResultAt, SnapshotError.IsPanic]⟩
      · rw [hsnap.epoch_eq]
        exact applyHeaders_spec hsnap hheaders hdb

end Apply

/-! ## Rolling forward -/

section RollForward

variable {cfg : Config} {chain : Chain}

/-- With parents of the chain, the header `snapshot` takes for a block is the
chain's. -/
theorem ancestorHeader_spec {parents : List HeaderView}
    (hparents : ∀ p ∈ parents, chain.getHeaderByNumber p.number = some p) {numberIter : Nat}
    {header : HeaderView} (h : ancestorHeader chain parents numberIter = some header) :
    chain.getHeaderByNumber numberIter = some header := by
  unfold ancestorHeader at h
  cases hfind : parents.reverse.find? (·.number = numberIter) with
  | none => simpa [hfind] using h
  | some p =>
    rw [hfind, Option.some_or, Option.some.injEq] at h
    subst h
    have hnumber : p.number = numberIter := by simpa using List.find?_some hfind
    rw [← hnumber]
    exact hparents p (List.mem_reverse.mp (List.mem_of_find?_eq_some hfind))

/-- **The roll-forward loop.** From epoch block `k` it collects the chain's
headers of the epoch blocks up to `number`, and ends at the last of them; or
it fails on a block it finds neither in `parents` nor on the chain. -/
theorem collectHeaders_spec {parents : List HeaderView}
    (hparents : ∀ p ∈ parents, chain.getHeaderByNumber p.number = some p) {number : Nat}
    (m : Nat) :
    ∀ (k : Nat) (acc : List HeaderView), number / cfg.epoch = k + m →
      ((∃ j, k < j ∧ j ≤ number / cfg.epoch ∧ ancestorHeader chain parents (j * cfg.epoch) = none) ∧
        collectHeaders cfg chain parents number (k * cfg.epoch) acc = .error .unknownBlock) ∨
      ∃ rest, collectHeaders cfg chain parents number (k * cfg.epoch) acc =
          .ok (number / cfg.epoch * cfg.epoch, acc ++ rest) ∧
        EpochHeaders cfg chain k rest ∧ rest.length = m := by
  have hpos := cfg.epoch_pos
  induction m with
  | zero =>
    -- `k` is the last epoch block: the loop stops at once
    intro k acc hk
    rw [Nat.add_zero] at hk
    have hstop : ¬k * cfg.epoch + cfg.epoch ≤ number := by
      rw [← Nat.succ_mul, ← Nat.le_div_iff_mul_le hpos]
      omega
    right
    refine ⟨[], ?_, trivial, rfl⟩
    rw [collectHeaders, if_neg hstop, hk, List.append_nil]
  | succ m ih =>
    intro k acc hk
    have hnext : k * cfg.epoch + cfg.epoch ≤ number := by
      rw [← Nat.succ_mul, ← Nat.le_div_iff_mul_le hpos]
      omega
    rw [collectHeaders, if_pos hnext]
    cases hheader : ancestorHeader chain parents (k * cfg.epoch + cfg.epoch) with
    | none =>
      refine Or.inl ⟨⟨k + 1, by omega, by omega, ?_⟩, rfl⟩
      rw [Nat.succ_mul]
      exact hheader
    | some header =>
      dsimp only
      rw [← Nat.succ_mul]
      rcases ih (k + 1) (acc ++ [header]) (by omega) with
        ⟨⟨j, hj, hjle, hmissing⟩, herr⟩ | ⟨rest, hcollect, hrest, hlen⟩
      · exact Or.inl ⟨⟨j, by omega, hjle, hmissing⟩, herr⟩
      · right
        refine ⟨header :: rest, ?_, ⟨?_, hrest⟩, by rw [List.length_cons, hlen]⟩
        · rw [hcollect, List.append_assoc, List.singleton_append]
        · rw [Nat.succ_mul]
          exact ancestorHeader_spec hparents hheader

/-- **The end of `snapshot`.** Rolling a right snapshot of epoch block `k`
forward gives one right for the last epoch block up to `number`, or an error
that is no panic, and the state stays sound. -/
theorem rollForward_spec {parents : List HeaderView}
    (hparents : ∀ p ∈ parents, chain.getHeaderByNumber p.number = some p) {number k : Nat}
    (hk : k * cfg.epoch ≤ number) {st : SnapshotStore} (hst : Sound cfg chain st) {snap : Snapshot}
    (hsnap : SnapshotAt cfg chain k snap) :
    Sound cfg chain (rollForward cfg chain parents number (k * cfg.epoch) st snap).1 ∧
      ResultAt cfg chain (number / cfg.epoch)
        (rollForward cfg chain parents number (k * cfg.epoch) st snap).2 := by
  have hkm : number / cfg.epoch = k + (number / cfg.epoch - k) := by
    have := (Nat.le_div_iff_mul_le cfg.epoch_pos).mpr hk
    omega
  unfold rollForward
  rcases collectHeaders_spec hparents _ k [] hkm with ⟨-, herr⟩ | ⟨rest, hcollect, hrest, hlen⟩
  · rw [herr]
    exact ⟨hst, by simp [ResultAt, SnapshotError.IsPanic]⟩
  rw [hcollect, List.nil_append]
  dsimp only
  obtain ⟨happly_db, happly⟩ := apply_spec hsnap hrest hst.db
  rw [hlen, ← hkm] at happly
  split
  · -- no header: `k` was already the last epoch block
    rename_i hnil
    subst hnil
    rw [List.length_nil] at hlen
    rw [hkm, ← hlen, Nat.add_zero]
    exact ⟨hst, hsnap⟩
  · split
    · rename_i db e hresult
      rw [hresult] at happly_db happly
      exact ⟨⟨hst.recent, happly_db⟩, happly⟩
    · rename_i db s hresult
      rw [hresult] at happly_db happly
      exact ⟨⟨hst.recent.insert happly, happly_db⟩, happly⟩

end RollForward

/-! ## `snapshot` -/

section Snapshot

variable {cfg : Config} {chain : Chain}

/-- What the genesis branch did: the genesis extra decodes with no removed
validators, and its validators combine. -/
theorem genesisSnapshot_eq_ok {db db' : SnapshotDB} {s : Snapshot}
    (h : genesisSnapshot cfg chain db 0 = .ok (db', s)) :
    ∃ genesis istanbulExtra validators, chain.getHeaderByNumber 0 = some genesis ∧
      genesis.istanbulExtra = some istanbulExtra ∧ istanbulExtra.removedValidators = 0 ∧
      combineIstanbulExtraToValidatorData istanbulExtra.addedValidators
        istanbulExtra.addedValidatorsPublicKeys = some validators ∧
      s = newSnapshot cfg.epoch 0 genesis.hash (newSet validators) ∧ db' = s.store db := by
  unfold genesisSnapshot at h
  cases hgenesis : chain.getHeaderByNumber 0 with
  | none => simp [hgenesis, throw, throwThe, MonadExceptOf.throw] at h
  | some genesis =>
    cases hextra : genesis.istanbulExtra with
    | none => simp [hgenesis, hextra, throw, throwThe, MonadExceptOf.throw] at h
    | some istanbulExtra =>
      by_cases hremoved : istanbulExtra.removedValidators = 0
      · cases hcombine : combineIstanbulExtraToValidatorData istanbulExtra.addedValidators
            istanbulExtra.addedValidatorsPublicKeys with
        | none =>
          simp [hgenesis, hextra, hremoved, hcombine, throw, throwThe, MonadExceptOf.throw] at h
        | some validators =>
          simp only [hgenesis, hextra, hremoved, hcombine, ne_eq, not_true_eq_false, if_false,
            pure, Except.pure, Except.ok.injEq, Prod.mk.injEq] at h
          exact ⟨genesis, istanbulExtra, validators, rfl, hextra, hremoved, hcombine, h.2.symm,
            h.1.symm.trans (congrArg (fun s => s.store db) h.2)⟩
      · simp [hgenesis, hextra, hremoved, throw, throwThe, MonadExceptOf.throw, bind,
          Except.bind] at h

theorem genesisSnapshot_not_panic {db : SnapshotDB} {e : SnapshotError}
    (h : genesisSnapshot cfg chain db 0 = .error e) : ¬e.IsPanic := by
  unfold genesisSnapshot at h
  simp only [ne_eq, not_true_eq_false, if_false] at h
  -- at block 0 every branch throws one of the genesis errors
  rintro (rfl | rfl) <;> (repeat' split at h) <;>
    simp [throw, throwThe, MonadExceptOf.throw, bind, Except.bind, pure, Except.pure] at h

/-- The genesis snapshot is right for block 0, and storing it keeps the
database sound. -/
theorem genesisSnapshot_spec {db db' : SnapshotDB} (hdb : DbSound cfg chain db) {s : Snapshot}
    (h : genesisSnapshot cfg chain db 0 = .ok (db', s)) :
    DbSound cfg chain db' ∧ SnapshotAt cfg chain 0 s := by
  obtain ⟨genesis, istanbulExtra, validators, hgenesis, hextra, -, hcombine, rfl, rfl⟩ :=
    genesisSnapshot_eq_ok h
  have hs : SnapshotAt cfg chain 0 (newSnapshot cfg.epoch 0 genesis.hash (newSet validators)) :=
    ⟨rfl, (Nat.zero_mul _).symm, by simp [epochValSet, genesisValSet, hgenesis, hextra, hcombine,
      newSnapshot]⟩
  have hgenesis' : chain.getHeaderByNumber (0 * cfg.epoch) = some genesis := by
    rw [Nat.zero_mul]
    exact hgenesis
  exact ⟨hdb.store hs hgenesis' rfl, hs⟩

/-- The copy `snapshot` returns keeps a right snapshot's set and epoch, and
carries `number` and `hash`. -/
theorem returned_spec {number : Nat} {hash : Hash} {r : Except SnapshotError Snapshot}
    (hr : ResultAt cfg chain (number / cfg.epoch) r) :
    (∀ e, r.map (fun snap => { snap with number, hash }) = .error e → ¬e.IsPanic) ∧
      ∀ s, r.map (fun snap => { snap with number, hash }) = .ok s →
        epochValSet cfg chain (number / cfg.epoch) = some s.valSet ∧ s.epoch = cfg.epoch ∧
          s.number = number ∧ s.hash = hash := by
  cases r with
  | error e =>
    refine ⟨fun e' he' => ?_, fun s hs => by simp [Except.map] at hs⟩
    simp only [Except.map, Except.error.injEq] at he'
    subst he'
    exact hr
  | ok snap =>
    refine ⟨fun e he => by simp [Except.map] at he, fun s hs => ?_⟩
    simp only [Except.map, Except.ok.injEq] at hs
    subst hs
    exact ⟨hr.valSet_eq, hr.epoch_eq, rfl, rfl⟩

/-- **`snapshot` from a sound state.** With the `hash` argument zero or the
hash of block `number`, and parents of the chain, `snapshot` fails or returns
the validator set of epoch block `number / epoch`, whatever was cached or
stored. It never panics, and it leaves a sound state. -/
theorem snapshot_spec {st : SnapshotStore} (hst : Sound cfg chain st) {number : Nat} {hash : Hash}
    (hhash : hash ≠ 0 → (chain.getHeaderByNumber number).map HeaderView.hash = some hash)
    {parents : List HeaderView}
    (hparents : ∀ p ∈ parents, chain.getHeaderByNumber p.number = some p) :
    Sound cfg chain (snapshot cfg chain st number hash parents).1 ∧
      (∀ e, (snapshot cfg chain st number hash parents).2 = .error e → ¬e.IsPanic) ∧
      ∀ s, (snapshot cfg chain st number hash parents).2 = .ok s →
        epochValSet cfg chain (number / cfg.epoch) = some s.valSet ∧ s.epoch = cfg.epoch ∧
          s.number = number ∧ s.hash = hash := by
  obtain ⟨recentSnapshots, j, found, hsearch, hj, hrecent, hfound⟩ :=
    searchSnapshot_spec hst.db hhash (number / cfg.epoch) st.recentSnapshots hst.recent
      (Nat.div_mul_le_self number cfg.epoch)
  have hjle : j * cfg.epoch ≤ number :=
    le_trans (Nat.mul_le_mul_right _ hj) (Nat.div_mul_le_self _ _)
  -- the roll-forward from a right snapshot of epoch block `j` ends the call
  have hfinish : ∀ (db : SnapshotDB) (snap : Snapshot), DbSound cfg chain db →
      SnapshotAt cfg chain j snap →
      Sound cfg chain (rollForward cfg chain parents number (j * cfg.epoch)
          ⟨recentSnapshots, db⟩ snap).1 ∧
        ResultAt cfg chain (number / cfg.epoch)
          (rollForward cfg chain parents number (j * cfg.epoch) ⟨recentSnapshots, db⟩ snap).2 :=
    fun db snap hdb hsnap => rollForward_spec hparents hjle ⟨hrecent, hdb⟩ hsnap
  unfold snapshot
  rw [startNumberIter_eq cfg.epoch_pos, hsearch]
  dsimp only
  cases found with
  | some snap =>
    dsimp only
    obtain ⟨hsound, hresult⟩ := hfinish st.db snap hst.db hfound
    exact ⟨hsound, returned_spec hresult⟩
  | none =>
    -- nothing found: the search stopped at the genesis block
    obtain rfl : j = 0 := hfound
    dsimp only
    rw [Nat.zero_mul] at hfinish ⊢
    cases hgenesis : genesisSnapshot cfg chain st.db 0 with
    | error e =>
      refine ⟨⟨hrecent, hst.db⟩, fun e' he' => ?_, fun s hs => by simp at hs⟩
      simp only [Except.error.injEq] at he'
      subst he'
      exact genesisSnapshot_not_panic hgenesis
    | ok result =>
      obtain ⟨db, snap⟩ := result
      obtain ⟨hdb, hsnap⟩ := genesisSnapshot_spec hst.db hgenesis
      obtain ⟨hsound, hresult⟩ := hfinish db snap hdb hsnap
      exact ⟨hsound, returned_spec hresult⟩

end Snapshot

/-! ## Runs -/

/-- A call on the chain: its `hash` is zero or the hash of block `number`, and
its parents are headers of the chain. -/
def SnapshotCall.OnChain (chain : Chain) : SnapshotCall → Prop
  | .snapshot number hash parents =>
    (hash ≠ 0 → (chain.getHeaderByNumber number).map HeaderView.hash = some hash) ∧
      ∀ p ∈ parents, chain.getHeaderByNumber p.number = some p
  | .evict _ => True

section Run

variable {cfg : Config} {chain : Chain}

theorem sound_empty : Sound cfg chain SnapshotStore.empty :=
  ⟨fun _ _ h => by simp [SnapshotStore.empty] at h,
    fun _ _ h => by simp [SnapshotStore.empty, loadSnapshot] at h⟩

theorem sound_step {st : SnapshotStore} (hst : Sound cfg chain st) {call : SnapshotCall}
    (hcall : call.OnChain chain) : Sound cfg chain (snapshotStep cfg chain st call) := by
  cases call with
  | snapshot number hash parents => exact (snapshot_spec hst hcall.1 hcall.2).1
  | evict number => exact ⟨hst.recent.erase number, hst.db⟩

/-- **Run lemma.** Every run of calls on the chain, with any evictions, leaves
a sound state. -/
theorem sound_run (calls : List SnapshotCall) (hcalls : ∀ c ∈ calls, c.OnChain chain) :
    Sound cfg chain (Run.run (snapshotStep cfg chain) SnapshotStore.empty calls) :=
  Run.run_invariant_of_forall (snapshotStep cfg chain) (Sound cfg chain) (SnapshotCall.OnChain chain)
    (fun _ _ hcall hst => sound_step hst hcall) calls _ hcalls sound_empty

end Run

/-- After any earlier calls on the chain, `snapshot` fails or returns the
validator set of epoch block `number / epoch`, and it never panics. -/
theorem snapshot_independent_of_cache (cfg : Config) (chain : Chain) (calls : List SnapshotCall)
    (hcalls : ∀ c ∈ calls, c.OnChain chain) (number : Nat) (hash : Hash)
    (parents : List HeaderView) (hcall : (SnapshotCall.snapshot number hash parents).OnChain chain) :
    (∀ s, (snapshot cfg chain (Run.run (snapshotStep cfg chain) SnapshotStore.empty calls)
        number hash parents).2 = .ok s →
      epochValSet cfg chain (number / cfg.epoch) = some s.valSet) ∧
    ∀ e, (snapshot cfg chain (Run.run (snapshotStep cfg chain) SnapshotStore.empty calls)
        number hash parents).2 = .error e → ¬e.IsPanic := by
  obtain ⟨-, hpanic, hok⟩ := snapshot_spec (sound_run calls hcalls) hcall.1 hcall.2
  exact ⟨fun s hs => (hok s hs).1, hpanic⟩

/-- An epoch of two blocks. -/
def sampleConfig : Config := ⟨2, Nat.two_pos⟩

end CeloBlockchain.Backend
