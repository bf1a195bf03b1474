import CeloBlockchain.Backend.SnapshotSpec

/-!
# `snapshot` succeeds on a valid chain

`SnapshotSpec` shows that what `snapshot` returns is right. Here it returns
at all: on a chain valid up to `number` (`ValidUpTo`: the genesis extra
removes no validator, each epoch block up to it is signed by a validator of
the set before it, and each diff applies), `snapshot` succeeds from any sound
state. So after any run of calls, it returns exactly the set
`epochValSet (number / epoch)` (`snapshot_returns_epochValSet`).

The roll-forward finds every epoch block (`ancestorHeader_of_chain`), and
`apply`'s sanity checks pass on the chain's epoch headers
(`EpochHeaders.isChain`).
-/

namespace CeloBlockchain.Backend

open Ibft (Address Hash Validator ValidatorSet)

section Valid

variable (cfg : Config) (chain : Chain)

/-- The chain is valid up to epoch block `n * epoch`: the genesis extra
removes no validator, every diff up to block `n * epoch` applies, and each
epoch block up to it is signed by a validator of the set before it. -/
structure ValidUpTo (n : Nat) : Prop where
  genesis_removed : ∀ genesis istanbulExtra, chain.getHeaderByNumber 0 = some genesis →
    genesis.istanbulExtra = some istanbulExtra → istanbulExtra.removedValidators = 0
  valSet_ne_none : epochValSet cfg chain n ≠ none
  signed : ∀ k < n, ∃ header validator valSet,
    chain.getHeaderByNumber ((k + 1) * cfg.epoch) = some header ∧
      header.signer = some validator ∧ epochValSet cfg chain k = some valSet ∧
      valSet.getByAddress validator ≠ none

end Valid

section Valid

variable {cfg : Config} {chain : Chain}

theorem epochValSet_succ_inv {k : Nat} {valSet' : ValidatorSet}
    (h : epochValSet cfg chain (k + 1) = some valSet') :
    ∃ valSet header istExtra, epochValSet cfg chain k = some valSet ∧
      chain.getHeaderByNumber ((k + 1) * cfg.epoch) = some header ∧
      header.istanbulExtra = some istExtra ∧ applyValidatorSetDiff valSet istExtra = some valSet' := by
  simp only [epochValSet, Option.bind_eq_bind, Option.bind_eq_some_iff] at h
  obtain ⟨valSet, hk, header, hheader, istExtra, hextra, hdiff⟩ := h
  exact ⟨valSet, header, istExtra, hk, hheader, hextra, hdiff⟩

/-- A set of an epoch block exists only if those of the blocks before do. -/
theorem epochValSet_ne_none_of_le {n : Nat} (hn : epochValSet cfg chain n ≠ none) :
    ∀ k ≤ n, epochValSet cfg chain k ≠ none := by
  induction n with
  | zero =>
    intro k hk
    obtain rfl : k = 0 := Nat.le_zero.mp hk
    exact hn
  | succ n ih =>
    intro k hk
    obtain ⟨valSet', hvalSet'⟩ := Option.ne_none_iff_exists'.mp hn
    obtain ⟨valSet, -, -, hprev, -⟩ := epochValSet_succ_inv hvalSet'
    rcases Nat.lt_or_eq_of_le hk with hlt | rfl
    · exact ih (by simp [hprev]) k (Nat.le_of_lt_succ hlt)
    · exact hn

/-- A header of the chain is the one `snapshot` takes, whatever `parents`
hold of the chain. -/
theorem ancestorHeader_of_chain {parents : List HeaderView}
    (hparents : ∀ p ∈ parents, chain.getHeaderByNumber p.number = some p) {numberIter : Nat}
    {header : HeaderView} (h : chain.getHeaderByNumber numberIter = some header) :
    ancestorHeader chain parents numberIter = some header := by
  unfold ancestorHeader
  cases hfind : parents.reverse.find? (·.number = numberIter) with
  | none => rw [Option.none_or, h]
  | some p =>
    have hnumber : p.number = numberIter := by simpa using List.find?_some hfind
    have hp := hparents p (List.mem_reverse.mp (List.mem_of_find?_eq_some hfind))
    rw [hnumber, h] at hp
    rw [Option.some_or, hp]

theorem ValidUpTo.header {n : Nat} (hvalid : ValidUpTo cfg chain n) {j : Nat} (hj : 0 < j)
    (hjn : j ≤ n) : ∃ header, chain.getHeaderByNumber (j * cfg.epoch) = some header := by
  obtain ⟨k, rfl⟩ : ∃ k, j = k + 1 := Nat.exists_eq_succ_of_ne_zero (Nat.pos_iff_ne_zero.mp hj)
  obtain ⟨header, -, -, hheader, -⟩ := hvalid.signed k hjn
  exact ⟨header, hheader⟩

/-- The headers of consecutive epoch blocks follow each other by an epoch. -/
theorem EpochHeaders.isChain : ∀ {k : Nat} {headers : List HeaderView},
    EpochHeaders cfg chain k headers →
      headers.IsChain (fun h h' => h'.number = h.number + cfg.epoch)
  | _, [], _ => List.isChain_nil
  | _, [_], _ => List.isChain_singleton _
  | k, header :: header' :: headers, ⟨hheader, hheader', hrest⟩ => by
    refine List.isChain_cons_cons.mpr ⟨?_, EpochHeaders.isChain ⟨hheader', hrest⟩⟩
    rw [chain.number_eq _ _ hheader, chain.number_eq _ _ hheader', Nat.succ_mul]

theorem EpochHeaders.number_eq {k : Nat} {header : HeaderView} {headers : List HeaderView}
    (h : EpochHeaders cfg chain k (header :: headers)) : header.number = (k + 1) * cfg.epoch :=
  chain.number_eq _ _ h.1

/-- On a valid chain, the header of epoch block `k + 1` moves a right
snapshot of block `k` on. -/
theorem applyHeader_ok {n : Nat} (hvalid : ValidUpTo cfg chain n) {k : Nat} (hk : k < n)
    {snap : Snapshot} (hsnap : SnapshotAt cfg chain k snap) {header : HeaderView}
    (hheader : chain.getHeaderByNumber ((k + 1) * cfg.epoch) = some header) :
    ∃ s, snap.applyHeader cfg.epoch header = .ok s := by
  obtain ⟨header', validator, valSet, hheader', hsigner, hvalSet, hauth⟩ := hvalid.signed k hk
  obtain rfl : header = header' := Option.some.inj (hheader.symm.trans hheader')
  obtain rfl : snap.valSet = valSet := Option.some.inj (hsnap.valSet_eq.symm.trans hvalSet)
  obtain ⟨valSet', hvalSet'⟩ := Option.ne_none_iff_exists'.mp
    (epochValSet_ne_none_of_le hvalid.valSet_ne_none (k + 1) hk)
  obtain ⟨valSet'', header'', istExtra, hprev, hheader'', hextra, hdiff⟩ :=
    epochValSet_succ_inv hvalSet'
  obtain rfl : header = header'' := Option.some.inj (hheader.symm.trans hheader'')
  obtain rfl : valSet'' = snap.valSet := Option.some.inj (hprev.symm.trans hvalSet)
  refine ⟨⟨cfg.epoch, snap.number + cfg.epoch, header.hash, valSet'⟩, ?_⟩
  simp [Snapshot.applyHeader, hsigner, hauth, hextra, hdiff]
  rfl

/-- On a valid chain, `apply`'s loop over the chain's epoch headers after a
right snapshot succeeds. -/
theorem applyHeaders_ok {n : Nat} (hvalid : ValidUpTo cfg chain n) {headers : List HeaderView} :
    ∀ {k : Nat} {snap : Snapshot} {db : SnapshotDB}, SnapshotAt cfg chain k snap →
      EpochHeaders cfg chain k headers → k + headers.length ≤ n →
      ∃ s, (snap.applyHeaders cfg.epoch headers db).2 = .ok s := by
  induction headers with
  | nil =>
    intro k snap db _ _ _
    exact ⟨snap, rfl⟩
  | cons header headers ih =>
    intro k snap db hsnap hheaders hlen
    obtain ⟨hheader, hrest⟩ := hheaders
    rw [List.length_cons] at hlen
    obtain ⟨s, hs⟩ := applyHeader_ok hvalid (by omega) hsnap hheader
    rw [Snapshot.applyHeaders, hs]
    exact ih (applyHeader_spec hsnap hheader hs).1 hrest (by omega)

/-- On a valid chain the genesis branch succeeds. -/
theorem genesisSnapshot_ok {n : Nat} (hvalid : ValidUpTo cfg chain n) (db : SnapshotDB) :
    ∃ s, genesisSnapshot cfg chain db 0 = .ok (s.store db, s) := by
  obtain ⟨valSet, hvalSet⟩ := Option.ne_none_iff_exists'.mp
    (epochValSet_ne_none_of_le hvalid.valSet_ne_none 0 (Nat.zero_le n))
  simp only [epochValSet, genesisValSet, Option.bind_eq_bind, Option.bind_eq_some_iff] at hvalSet
  obtain ⟨genesis, hgenesis, istanbulExtra, hextra, validators, hcombine, -⟩ := hvalSet
  have hremoved := hvalid.genesis_removed genesis istanbulExtra hgenesis hextra
  refine ⟨newSnapshot cfg.epoch 0 genesis.hash (newSet validators), ?_⟩
  simp [genesisSnapshot, hgenesis, hextra, hremoved, hcombine]
  rfl

/-- On a valid chain, rolling a right snapshot forward succeeds. -/
theorem rollForward_ok {parents : List HeaderView}
    (hparents : ∀ p ∈ parents, chain.getHeaderByNumber p.number = some p) {number k : Nat}
    (hvalid : ValidUpTo cfg chain (number / cfg.epoch)) (hk : k * cfg.epoch ≤ number)
    (st : SnapshotStore) {snap : Snapshot} (hsnap : SnapshotAt cfg chain k snap) :
    ∃ st' s, rollForward cfg chain parents number (k * cfg.epoch) st snap = (st', .ok s) := by
  have hkm : number / cfg.epoch = k + (number / cfg.epoch - k) := by
    have := (Nat.le_div_iff_mul_le cfg.epoch_pos).mpr hk
    omega
  unfold rollForward
  rcases collectHeaders_spec hparents _ k [] hkm with
    ⟨⟨j, hkj, hjn, hmissing⟩, -⟩ | ⟨rest, hcollect, hrest, hlen⟩
  · -- every epoch block up to `number` is on the chain
    obtain ⟨header, hheader⟩ := hvalid.header (by omega) hjn
    rw [ancestorHeader_of_chain hparents hheader] at hmissing
    cases hmissing
  rw [hcollect, List.nil_append]
  dsimp only
  split
  · exact ⟨st, snap, rfl⟩
  · rename_i hne
    obtain ⟨header, headers, rfl⟩ := List.exists_cons_of_ne_nil hne
    -- the sanity checks of `apply` pass on the chain's epoch headers
    have hnumber : header.number = snap.number + snap.epoch := by
      rw [hrest.number_eq, hsnap.number_eq, hsnap.epoch_eq, Nat.succ_mul]
    have happly : snap.apply (header :: headers) st.db =
        snap.applyHeaders cfg.epoch (header :: headers) st.db := by
      simp only [Snapshot.apply]
      rw [if_neg (not_not.mpr (hsnap.epoch_eq ▸ hrest.isChain)), if_neg (not_not.mpr hnumber),
        hsnap.epoch_eq]
    obtain ⟨s, hs⟩ : ∃ s, (snap.applyHeaders cfg.epoch (header :: headers) st.db).2 = .ok s :=
      applyHeaders_ok hvalid hsnap hrest (by omega)
    rw [happly]
    cases hresult : snap.applyHeaders cfg.epoch (header :: headers) st.db with
    | mk db r =>
      rw [hresult] at hs
      subst hs
      exact ⟨_, s, rfl⟩

/-- **`snapshot` on a valid chain.** From a sound state, with the `hash`
argument zero or the hash of block `number` and parents of the chain,
`snapshot` succeeds. -/
theorem snapshot_ok {st : SnapshotStore} (hst : Sound cfg chain st) {number : Nat} {hash : Hash}
    (hhash : hash ≠ 0 → (chain.getHeaderByNumber number).map HeaderView.hash = some hash)
    {parents : List HeaderView}
    (hparents : ∀ p ∈ parents, chain.getHeaderByNumber p.number = some p)
    (hvalid : ValidUpTo cfg chain (number / cfg.epoch)) :
    ∃ s, (snapshot cfg chain st number hash parents).2 = .ok s := by
  obtain ⟨recentSnapshots, j, found, hsearch, hj, -, hfound⟩ :=
    searchSnapshot_spec hst.db hhash (number / cfg.epoch) st.recentSnapshots hst.recent
      (Nat.div_mul_le_self number cfg.epoch)
  have hjle : j * cfg.epoch ≤ number :=
    le_trans (Nat.mul_le_mul_right _ hj) (Nat.div_mul_le_self _ _)
  unfold snapshot
  rw [startNumberIter_eq cfg.epoch_pos, hsearch]
  dsimp only
  cases found with
  | some snap =>
    dsimp only
    obtain ⟨st', s, hroll⟩ := rollForward_ok hparents hvalid hjle ⟨recentSnapshots, st.db⟩ hfound
    rw [hroll]
    exact ⟨_, rfl⟩
  | none =>
    -- the search stopped at the genesis block, whose snapshot is made anew
    obtain rfl : j = 0 := hfound
    dsimp only
    obtain ⟨snap, hgenesis⟩ := genesisSnapshot_ok hvalid st.db
    have hsnap := (genesisSnapshot_spec hst.db hgenesis).2
    obtain ⟨st', s, hroll⟩ := rollForward_ok hparents hvalid hjle ⟨recentSnapshots, snap.store st.db⟩ hsnap
    rw [Nat.zero_mul] at hroll ⊢
    rw [hgenesis]
    dsimp only
    rw [hroll]
    exact ⟨_, rfl⟩

/-- From a sound state, `snapshot` on a chain valid up to `number` returns
the validator set of epoch block `number / epoch`, with `number` and `hash`. -/
theorem snapshot_eq_ok_of_valid {st : SnapshotStore} (hst : Sound cfg chain st) {number : Nat}
    {hash : Hash}
    (hhash : hash ≠ 0 → (chain.getHeaderByNumber number).map HeaderView.hash = some hash)
    {parents : List HeaderView}
    (hparents : ∀ p ∈ parents, chain.getHeaderByNumber p.number = some p)
    (hvalid : ValidUpTo cfg chain (number / cfg.epoch)) :
    ∃ valSet, epochValSet cfg chain (number / cfg.epoch) = some valSet ∧
      (snapshot cfg chain st number hash parents).2 = .ok ⟨cfg.epoch, number, hash, valSet⟩ := by
  obtain ⟨s, hs⟩ := snapshot_ok hst hhash hparents hvalid
  obtain ⟨-, -, hok⟩ := snapshot_spec hst hhash hparents
  obtain ⟨hvalSet, hepoch, hnumber, hhash⟩ := hok s hs
  refine ⟨s.valSet, hvalSet, ?_⟩
  rw [hs, ← hepoch, ← hnumber, ← hhash]

/-- After any earlier calls on the chain, `snapshot` on a chain valid up to
`number` returns the validator set of epoch block `number / epoch`, with
`number` and `hash`. -/
theorem snapshot_returns_epochValSet (cfg : Config) (chain : Chain) (calls : List SnapshotCall)
    (hcalls : ∀ c ∈ calls, c.OnChain chain) (number : Nat) (hash : Hash)
    (parents : List HeaderView) (hcall : (SnapshotCall.snapshot number hash parents).OnChain chain)
    (hvalid : ValidUpTo cfg chain (number / cfg.epoch)) :
    ∃ valSet, epochValSet cfg chain (number / cfg.epoch) = some valSet ∧
      (snapshot cfg chain (Run.run (snapshotStep cfg chain) SnapshotStore.empty calls)
        number hash parents).2 = .ok ⟨cfg.epoch, number, hash, valSet⟩ :=
  snapshot_eq_ok_of_valid (sound_run calls hcalls) hcall.1 hcall.2 hvalid

end Valid

/-- A chain whose genesis block brings in validator `1` with key `7`; it signs
every block, and no later block changes the set. -/
def validChain : Chain where
  getHeaderByNumber n := some ⟨n, n + 1,
    some ⟨if n = 0 then [1] else [], if n = 0 then [7] else [], 0, [],
      IstanbulAggregatedSeal.empty, IstanbulAggregatedSeal.empty⟩, some 1⟩
  number_eq := by
    intro n header h
    cases h
    rfl
  hash_injective := by
    intro n n' header header' h h' hhash
    cases h
    cases h'
    simpa using hhash

/-- The chain is valid up to epoch block `4`, with the set of validator `1`
throughout. -/
theorem validChain_validUpTo : ValidUpTo sampleConfig validChain 2 := by
  refine ⟨?_, by decide, ?_⟩
  · intro genesis istanbulExtra hgenesis hextra
    cases hgenesis
    cases hextra
    rfl
  · intro k hk
    refine ⟨_, 1, ⟨[⟨1, 7⟩], 0⟩, rfl, rfl, ?_, by decide⟩
    interval_cases k <;> rfl

theorem snapshot_returns_epochValSet_validChain :
    (∀ c ∈ [SnapshotCall.snapshot 4 5 [], .evict 4], c.OnChain validChain) ∧
    (SnapshotCall.snapshot 5 0 []).OnChain validChain ∧
    ValidUpTo sampleConfig validChain (5 / sampleConfig.epoch) ∧
    ∃ valSet, epochValSet sampleConfig validChain (5 / sampleConfig.epoch) = some valSet ∧
      (snapshot sampleConfig validChain (Run.run (snapshotStep sampleConfig validChain)
        SnapshotStore.empty [.snapshot 4 5 [], .evict 4]) 5 0 []).2 =
          .ok ⟨sampleConfig.epoch, 5, 0, valSet⟩ := by
  have hcalls : ∀ c ∈ [SnapshotCall.snapshot 4 5 [], .evict 4], c.OnChain validChain := by
    simp [SnapshotCall.OnChain, validChain]
  have hcall : (SnapshotCall.snapshot 5 0 []).OnChain validChain := by
    simp [SnapshotCall.OnChain]
  have hvalid : ValidUpTo sampleConfig validChain (5 / sampleConfig.epoch) := validChain_validUpTo
  exact ⟨hcalls, hcall, hvalid,
    snapshot_returns_epochValSet sampleConfig validChain _ hcalls 5 0 [] hcall hvalid⟩

/-- The extra of block `n` of `changingChain`: the genesis block brings in
validator `1` (key `7`), epoch block `2` adds validator `2` (key `8`), and
epoch block `4` removes validator `1` and adds validator `3` (key `9`).
Block `5` carries a seal by both validators of its epoch and its parent's
seal by both of the epoch before, each a one-byte signature: the sum of the
keys and the sealed hash. -/
def changingExtra (n : Nat) : IstanbulExtra :=
  if n = 0 then ⟨[1], [7], 0, [], IstanbulAggregatedSeal.empty, IstanbulAggregatedSeal.empty⟩
  else if n = 2 then ⟨[2], [8], 0, [], IstanbulAggregatedSeal.empty, IstanbulAggregatedSeal.empty⟩
  else if n = 4 then ⟨[3], [9], 1, [], IstanbulAggregatedSeal.empty, IstanbulAggregatedSeal.empty⟩
  else if n = 5 then ⟨[], [], 0, [], ⟨3, [23], 0⟩, ⟨3, [20], 0⟩⟩
  else emptyIstanbulExtra

/-- Block `n` of `changingChain`, with hash `n + 1`: validator `1` signs up to
block `2`, validator `2` after. -/
def changingHeader (n : Nat) : HeaderView :=
  ⟨n, n + 1, some (changingExtra n), some (if n ≤ 2 then 1 else 2)⟩

def changingChain : Chain where
  getHeaderByNumber n := some (changingHeader n)
  number_eq := by
    intro n header h
    cases h
    rfl
  hash_injective := by
    intro n n' header header' h h' hhash
    cases h
    cases h'
    simpa [changingHeader] using hhash

/-- The chain is valid up to epoch block `4`, with the sets `{1}`, `{1, 2}`
and `{2, 3}`. -/
theorem changingChain_validUpTo : ValidUpTo sampleConfig changingChain 2 := by
  refine ⟨?_, by decide, ?_⟩
  · intro genesis istanbulExtra hgenesis hextra
    cases hgenesis
    cases hextra
    rfl
  · intro k hk
    interval_cases k
    · exact ⟨_, 1, ⟨[⟨1, 7⟩], 0⟩, rfl, rfl, rfl, by decide⟩
    · exact ⟨_, 2, ⟨[⟨1, 7⟩, ⟨2, 8⟩], 0⟩, rfl, rfl, rfl, by decide⟩

/-- Earlier calls: two snapshots are stored, and the later one is evicted
from memory. -/
def changingCalls : List SnapshotCall := [.snapshot 2 3 [], .snapshot 4 5 [], .evict 4]

theorem changingCalls_onChain : ∀ c ∈ changingCalls, c.OnChain changingChain := by
  simp [changingCalls, SnapshotCall.OnChain, changingChain, changingHeader]

/-- The store `changingCalls` leaves is sound. -/
theorem sound_changingCalls :
    Sound sampleConfig changingChain
      (Run.run (snapshotStep sampleConfig changingChain) SnapshotStore.empty changingCalls) :=
  sound_run changingCalls changingCalls_onChain

theorem snapshot_independent_of_cache_changingChain :
    (∀ c ∈ changingCalls, c.OnChain changingChain) ∧
    (SnapshotCall.snapshot 5 6 [changingHeader 3, changingHeader 4]).OnChain changingChain ∧
    epochValSet sampleConfig changingChain (5 / sampleConfig.epoch) = some ⟨[⟨2, 8⟩, ⟨3, 9⟩], 0⟩ ∧
    (∃ s, (snapshot sampleConfig changingChain (Run.run (snapshotStep sampleConfig changingChain)
        SnapshotStore.empty changingCalls) 5 6 [changingHeader 3, changingHeader 4]).2 = .ok s) ∧
    (∀ s, (snapshot sampleConfig changingChain (Run.run (snapshotStep sampleConfig changingChain)
        SnapshotStore.empty changingCalls) 5 6 [changingHeader 3, changingHeader 4]).2 = .ok s →
      epochValSet sampleConfig changingChain (5 / sampleConfig.epoch) = some s.valSet) ∧
    ∀ e, (snapshot sampleConfig changingChain (Run.run (snapshotStep sampleConfig changingChain)
        SnapshotStore.empty changingCalls) 5 6 [changingHeader 3, changingHeader 4]).2 =
          .error e → ¬e.IsPanic := by
  have hcall : (SnapshotCall.snapshot 5 6 [changingHeader 3, changingHeader 4]).OnChain
      changingChain := by
    simp [SnapshotCall.OnChain, changingChain, changingHeader]
  have hset : epochValSet sampleConfig changingChain (5 / sampleConfig.epoch) =
      some ⟨[⟨2, 8⟩, ⟨3, 9⟩], 0⟩ := by decide
  -- the snapshot succeeds, so the equation below is not vacuous
  obtain ⟨valSet, -, hok⟩ := snapshot_eq_ok_of_valid sound_changingCalls
    hcall.1 hcall.2 changingChain_validUpTo
  exact ⟨changingCalls_onChain, hcall, hset, ⟨_, hok⟩,
    snapshot_independent_of_cache sampleConfig changingChain _ changingCalls_onChain 5 6 _ hcall⟩

end CeloBlockchain.Backend
