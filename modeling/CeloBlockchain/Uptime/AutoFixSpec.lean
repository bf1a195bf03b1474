import CeloBlockchain.Uptime.AutoFix
import CeloBlockchain.Uptime.MonitorSpec
import CeloBlockchain.Lib.HashChain

/-!
# The auto-fixing builder is path independent

The headers the builder is given come from a chain database, forks
included (`ChainDB`, a `HashChain.Store` of headers by hash).  The
provider is assumed to return a header's ancestors back to the epoch's first
block (`EpochDB.provider_eq`).  That chain of a header is unique
(`HashChain.Store.ancestors_eq_of_isChain`), so one hash comparison tells an
ancestor from a fork.

* `processHeader_feedHeaders`, `addAll_feedHeaders`: the monitor takes a chain
  from the epoch's first block one header after the other, without error.
* `processHeader_built` (step lemma): from a monitor that is fresh or was fed
  the chain of some header, each of the five cases of `ProcessHeader` (empty,
  rewind, next, gap, same height) ends with the monitor fed the chain of the
  new header.
* `run_built` (run lemma) and `autoFix_computeUptime_path_independent`: after
  any headers in any order, `ComputeUptime` at `H` is that of a fresh monitor
  fed the provider's headers up to `H`.
-/

namespace CeloBlockchain.Uptime

open HashChain

/-! ## Blocks of an epoch -/

namespace ValidConfig

variable {epochSize epoch lookbackWindow : Nat}

/-- A block of epoch `epoch` (by `GetEpochNumber`) lies between its first and
last blocks. -/
theorem bounds_of_getEpochNumber (hcfg : ValidConfig epochSize epoch lookbackWindow) {n : Nat}
    (hn : getEpochNumber n epochSize = epoch) :
    (epoch - 1) * epochSize + 1 ≤ n ∧ n ≤ epoch * epochSize := by
  have hpos : 0 < epochSize := by have := hcfg.min_size; unfold minEpochSize at this; omega
  have he := hcfg.epoch_pos
  have hlast := hcfg.last_eq
  have hdiv := Nat.div_add_mod n epochSize
  have hmod := Nat.mod_lt n hpos
  unfold getEpochNumber isLastBlockOfEpoch getNumberWithinEpoch at hn
  by_cases h0 : n % epochSize = 0
  · -- the last block of an epoch: `n = epoch * epochSize`
    simp only [h0, if_true, beq_self_eq_true] at hn
    subst hn
    have hc : n / epochSize * epochSize = n := by rw [Nat.mul_comm]; omega
    omega
  · have hne : (n % epochSize == epochSize) = false := by simp; omega
    simp only [h0, if_false, hne, Bool.false_eq_true] at hn
    subst hn
    rw [Nat.add_sub_cancel, Nat.succ_mul, Nat.mul_comm (n / epochSize)]
    omega

/-- The position of a block of the epoch within it. -/
theorem getNumberWithinEpoch_eq (hcfg : ValidConfig epochSize epoch lookbackWindow) {n : Nat}
    (hfirst : (epoch - 1) * epochSize + 1 ≤ n) (hlast : n ≤ epoch * epochSize) :
    getNumberWithinEpoch n epochSize = n - (epoch - 1) * epochSize := by
  have hl := hcfg.last_eq
  have hmod : n % epochSize = (n - (epoch - 1) * epochSize) % epochSize := by
    conv_lhs => rw [show n = n - (epoch - 1) * epochSize + (epoch - 1) * epochSize by omega]
    exact Nat.add_mul_mod_self_right _ _ _
  unfold getNumberWithinEpoch
  rw [hmod]
  by_cases hs : n - (epoch - 1) * epochSize = epochSize
  · rw [hs, Nat.mod_self, if_pos rfl]
  · rw [Nat.mod_eq_of_lt (by omega), if_neg (by omega)]

end ValidConfig

/-! ## The chain database -/

/-- The chain database the headers provider reads, forks included:
`GetHeader` by hash, each header stored under its own hash. -/
structure ChainDB where
  getHeader : Nat → Option Header
  getHeader_hash : ∀ x h, getHeader x = some h → h.hash = x

namespace ChainDB

variable (db : ChainDB)

/-- The database as a store of hash-linked blocks. -/
def store : Store Header Nat :=
  ⟨Header.hash, Header.parentHash, Header.number, db.getHeader, db.getHeader_hash⟩

@[simp] theorem store_hash : db.store.hash = Header.hash := rfl
@[simp] theorem store_parentHash : db.store.parentHash = Header.parentHash := rfl
@[simp] theorem store_number : db.store.number = Header.number := rfl
@[simp] theorem store_get : db.store.get = db.getHeader := rfl

/-- The headers from block `first` to `h`, following parent hashes. -/
def epochChain (first : Nat) (h : Header) : List Header :=
  db.store.ancestors h (h.number - first)

variable {db}

/-- The chain of a stored header of the epoch, in a database that holds the
parent of every header above the epoch's first block. -/
theorem isChain_epochChain {first : Nat} (hclosed : db.store.Closed first) {h : Header}
    (hh : db.store.Stored h) (hfirst : first ≤ h.number) :
    db.store.IsChain first (db.epochChain first h) ∧
      (db.epochChain first h).length = h.number + 1 - first := by
  obtain ⟨hchain, hlen⟩ := Store.isChain_ancestors hclosed (h.number - first) h hh
    (show h.number = first + (h.number - first) by omega)
  exact ⟨hchain, by rw [epochChain, hlen]; omega⟩

theorem getLast?_epochChain (first : Nat) (h : Header) :
    (db.epochChain first h).getLast? = some h :=
  Store.getLast?_ancestors h _

/-- A chain from the epoch's first block is the chain of its last header. -/
theorem epochChain_eq_of_isChain {first : Nat} {l : List Header} {h : Header}
    (hchain : db.store.IsChain first (l ++ [h])) : db.epochChain first h = l ++ [h] := by
  have hnum : h.number = first + l.length := by
    simpa using hchain.number l.length (by simp)
  rw [epochChain, show h.number - first = l.length by omega]
  exact Store.ancestors_eq_of_isChain l h hchain

end ChainDB

/-! ## Feeding a monitor a chain of the database -/

/-- `ProcessHeader` changes nothing but the accumulated uptime. -/
theorem processHeader_frame (um : Monitor) (header : Header) :
    ∃ uptime, (um.processHeader header).1 = { um with accumulatedUptime := uptime } := by
  unfold Monitor.processHeader
  dsimp only
  repeat' split
  all_goals exact ⟨_, rfl⟩

theorem feedHeaders_frame (l : List Header) :
    ∀ um : Monitor, ∃ uptime, feedHeaders um l = { um with accumulatedUptime := uptime } := by
  induction l with
  | nil => exact fun um => ⟨um.accumulatedUptime, rfl⟩
  | cons h l ih =>
    intro um
    obtain ⟨uptime, hstep⟩ := processHeader_frame um h
    obtain ⟨uptime', hrun⟩ := ih (um.processHeader h).1
    refine ⟨uptime', ?_⟩
    rw [feedHeaders, Run.run_cons, ← feedHeaders, Monitor.processHeaderStep, hrun, hstep]

theorem feedHeaders_concat (um : Monitor) (l : List Header) (x : Header) :
    feedHeaders um (l ++ [x]) = ((feedHeaders um l).processHeader x).1 :=
  Run.run_concat _ _ _ _

section Feeding

variable {db : ChainDB} {um : Monitor}
  (hdec : ∀ h, db.store.Stored h → um.firstEpochBlock < h.number → h.number ≤ um.lastEpochBlock →
    h.parentBitmap.isSome)
include hdec

/-- One header of a chain from the epoch's first block, processed by a
monitor that holds the headers before it. -/
theorem processHeader_isChain {l : List Header} {x : Header} {entries : List UptimeEntry}
    (hchain : db.store.IsChain um.firstEpochBlock (l ++ [x])) (hx : x.number ≤ um.lastEpochBlock) :
    ∃ entries', ({ um with accumulatedUptime := ⟨l.getLast?, entries⟩ } : Monitor).processHeader x =
      ({ um with accumulatedUptime := ⟨some x, entries'⟩ }, none) := by
  have hxnum : x.number = um.firstEpochBlock + l.length := by
    simpa using hchain.number l.length (by simp)
  rcases List.eq_nil_or_concat' l with rfl | ⟨l', p, rfl⟩
  · -- the epoch's first header
    exact ⟨entries, processHeader_first (by simpa using hxnum) (by simp at hxnum ⊢; omega) rfl⟩
  · -- a child of the last header
    have hpnum : p.number = um.firstEpochBlock + l'.length := by
      simpa using hchain.number l'.length (by simp)
    obtain ⟨bitmap, hbitmap⟩ := Option.isSome_iff_exists.mp
      (hdec x (hchain.stored x (by simp)) (by simp at hxnum; omega) hx)
    refine ⟨_, @processHeader_next _ p x bitmap (by simp) (by simp at hxnum ⊢; omega) hx
      (by simp at hxnum; omega) (by simpa using hchain.parentHash_last) hbitmap⟩

/-- **Run lemma.** A monitor that had processed nothing, fed a chain from
the epoch's first block, holds its last header. -/
theorem feedHeaders_isChain (hnone : um.accumulatedUptime.latestHeader = none) :
    ∀ l : List Header, db.store.IsChain um.firstEpochBlock l →
      um.firstEpochBlock + l.length ≤ um.lastEpochBlock + 1 →
      ∃ entries, feedHeaders um l = { um with accumulatedUptime := ⟨l.getLast?, entries⟩ } := by
  intro l
  induction l using List.reverseRecOn with
  | nil =>
    intro _ _
    refine ⟨um.accumulatedUptime.entries, ?_⟩
    rw [List.getLast?_nil, ← hnone]
    rfl
  | append_singleton l x ih =>
    intro hchain hlen
    simp only [List.length_append, List.length_singleton] at hlen
    obtain ⟨entries, hfeed⟩ := ih hchain.of_append (by omega)
    have hx : x.number = um.firstEpochBlock + l.length := by
      simpa using hchain.number l.length (by simp)
    obtain ⟨entries', hstep⟩ := @processHeader_isChain db um hdec l x entries hchain (by omega)
    refine ⟨entries', ?_⟩
    rw [feedHeaders_concat, hfeed, hstep, List.getLast?_concat]

/-- **Step lemma.** The next header of a chain is processed without error. -/
theorem processHeader_feedHeaders (hnone : um.accumulatedUptime.latestHeader = none)
    {l : List Header} {x : Header} (hchain : db.store.IsChain um.firstEpochBlock (l ++ [x]))
    (hx : x.number ≤ um.lastEpochBlock) :
    (feedHeaders um l).processHeader x = (feedHeaders um (l ++ [x]), none) := by
  have hxnum : x.number = um.firstEpochBlock + l.length := by
    simpa using hchain.number l.length (by simp)
  obtain ⟨entries, hfeed⟩ := feedHeaders_isChain hdec hnone l hchain.of_append (by omega)
  obtain ⟨entries', hstep⟩ := @processHeader_isChain db um hdec l x entries hchain hx
  rw [feedHeaders_concat, hfeed, hstep]

/-- `addAll` of the rest of a chain, from the monitor fed its beginning. -/
theorem addAll_feedHeaders (hnone : um.accumulatedUptime.latestHeader = none) :
    ∀ (rest pre : List Header), db.store.IsChain um.firstEpochBlock (pre ++ rest) →
      um.firstEpochBlock + (pre ++ rest).length ≤ um.lastEpochBlock + 1 →
      AutoFix.addAll (feedHeaders um pre) rest = (feedHeaders um (pre ++ rest), none) := by
  intro rest
  induction rest with
  | nil => intro pre _ _; simp [AutoFix.addAll]
  | cons x rest ih =>
    intro pre hchain hlen
    rw [show pre ++ x :: rest = pre ++ [x] ++ rest by simp] at hchain hlen ⊢
    have hx : x.number = um.firstEpochBlock + pre.length := by
      simpa using hchain.of_append.number pre.length (by simp)
    simp only [List.length_append, List.length_singleton] at hlen
    rw [AutoFix.addAll, processHeader_feedHeaders hdec hnone hchain.of_append (by omega)]
    exact ih (pre ++ [x]) hchain (by simp; omega)

end Feeding

/-! ## The builder over the database -/

/-- What path independence assumes of the database and of the provider, for
the epoch's blocks `first` to `last`: the database holds the parent of every
header above `first`, its headers' extras decode, and the provider returns
the last `limit` headers of a header's chain from `first`. -/
structure EpochDB (db : ChainDB) (provider : HeadersProvider) (epochSize epoch : Nat) : Prop where
  closed : db.store.Closed ((epoch - 1) * epochSize + 1)
  decodes : ∀ h, db.store.Stored h → (epoch - 1) * epochSize + 1 < h.number →
    h.number ≤ epoch * epochSize → h.parentBitmap.isSome
  provider_eq : ∀ h, db.store.Stored h → (epoch - 1) * epochSize + 1 ≤ h.number →
    h.number ≤ epoch * epochSize → ∀ limit, provider epochSize h limit =
      .ok ((db.epochChain ((epoch - 1) * epochSize + 1) h).drop
        (h.number + 1 - ((epoch - 1) * epochSize + 1) - limit))

/-- The builder's monitor is the fresh one, or the fresh one fed the chain of
a stored header of the epoch. -/
def Built (db : ChainDB) (fresh um : Monitor) : Prop :=
  um = fresh ∨ ∃ L, db.store.Stored L ∧ fresh.firstEpochBlock ≤ L.number ∧
    L.number ≤ fresh.lastEpochBlock ∧ um = feedHeaders fresh (db.epochChain fresh.firstEpochBlock L)

section Builder

variable {epochSize epoch lookbackWindow n : Nat} {db : ChainDB} {provider : HeadersProvider}
  (hdb : EpochDB db provider epochSize epoch)
include hdb

/-- The fresh monitor fed the chain of a stored header holds that header;
the rest of the monitor is the fresh one's. -/
theorem feedHeaders_epochChain {L : Header} (hL : db.store.Stored L)
    (hLf : (epoch - 1) * epochSize + 1 ≤ L.number) (hLl : L.number ≤ epoch * epochSize) :
    ∃ entries, feedHeaders (freshMonitor epochSize epoch lookbackWindow n)
        (db.epochChain ((epoch - 1) * epochSize + 1) L) =
      { freshMonitor epochSize epoch lookbackWindow n with
        accumulatedUptime := ⟨some L, entries⟩ } := by
  obtain ⟨hchain, hlen⟩ := ChainDB.isChain_epochChain hdb.closed hL hLf
  have := @feedHeaders_isChain db (freshMonitor epochSize epoch lookbackWindow n) hdb.decodes rfl
    _ hchain (by simp only [freshMonitor]; omega)
  rwa [ChainDB.getLast?_epochChain] at this

/-- `cleanBuild` from the fresh monitor builds the chain of the header. -/
theorem cleanBuild_fresh (hcfg : ValidConfig epochSize epoch lookbackWindow) {h : Header}
    (hh : db.store.Stored h) (hf : (epoch - 1) * epochSize + 1 ≤ h.number)
    (hl : h.number ≤ epoch * epochSize) :
    AutoFix.cleanBuild provider (freshMonitor epochSize epoch lookbackWindow n) h =
      (feedHeaders (freshMonitor epochSize epoch lookbackWindow n)
        (db.epochChain ((epoch - 1) * epochSize + 1) h), none) := by
  obtain ⟨hchain, hlen⟩ := ChainDB.isChain_epochChain hdb.closed hh hf
  have hnwe := hcfg.getNumberWithinEpoch_eq hf hl
  unfold AutoFix.cleanBuild
  simp only [freshMonitor_epochSize, hnwe]
  split_ifs with h1
  · -- the epoch's first header
    have hsingle : db.epochChain ((epoch - 1) * epochSize + 1) h = [] ++ [h] :=
      ChainDB.epochChain_eq_of_isChain (Store.isChain_singleton (by simp; omega) hh)
    rw [hsingle]
    exact @processHeader_feedHeaders db (freshMonitor epochSize epoch lookbackWindow n)
      hdb.decodes rfl [] h (by rw [← hsingle]; exact hchain) hl
  · rw [hdb.provider_eq h hh hf hl, show h.number + 1 - ((epoch - 1) * epochSize + 1) -
      (h.number - (epoch - 1) * epochSize) = 0 by omega, List.drop_zero]
    exact @addAll_feedHeaders db (freshMonitor epochSize epoch lookbackWindow n) hdb.decodes rfl
      _ [] hchain (by simp only [freshMonitor_firstEpochBlock, freshMonitor_lastEpochBlock,
        List.nil_append]; omega)

/-- `advance` from the monitor fed the chain of `L` to a later header `h`:
the headers the provider returns start at `L` when `L` is an ancestor of
`h`, and the builder adds the rest; otherwise it rebuilds. -/
theorem advance_feedHeaders (hcfg : ValidConfig epochSize epoch lookbackWindow) {L h : Header}
    (hL : db.store.Stored L) (hLf : (epoch - 1) * epochSize + 1 ≤ L.number)
    (hh : db.store.Stored h) (hlt : L.number + 1 < h.number) (hl : h.number ≤ epoch * epochSize) :
    AutoFix.advance provider (feedHeaders (freshMonitor epochSize epoch lookbackWindow n)
        (db.epochChain ((epoch - 1) * epochSize + 1) L)) L h =
      (feedHeaders (freshMonitor epochSize epoch lookbackWindow n)
        (db.epochChain ((epoch - 1) * epochSize + 1) h), none) := by
  obtain ⟨hchain, hlen⟩ := ChainDB.isChain_epochChain hdb.closed hh (by omega)
  obtain ⟨uptime, hframe⟩ := feedHeaders_frame (db.epochChain ((epoch - 1) * epochSize + 1) L)
    (freshMonitor epochSize epoch lookbackWindow n)
  set chain := db.epochChain ((epoch - 1) * epochSize + 1) h with hc
  -- the provider's headers: the chain of `h` from the height of `L`
  have hj : L.number - ((epoch - 1) * epochSize + 1) < chain.length := by omega
  have hdrop : chain.drop (h.number + 1 - ((epoch - 1) * epochSize + 1) - (h.number - L.number + 1)) =
      chain[L.number - ((epoch - 1) * epochSize + 1)] ::
        chain.drop (L.number - ((epoch - 1) * epochSize + 1) + 1) := by
    rw [show h.number + 1 - ((epoch - 1) * epochSize + 1) - (h.number - L.number + 1) =
      L.number - ((epoch - 1) * epochSize + 1) by omega, List.drop_eq_getElem_cons hj]
  unfold AutoFix.advance
  rw [show (feedHeaders (freshMonitor epochSize epoch lookbackWindow n)
    (db.epochChain ((epoch - 1) * epochSize + 1) L)).epochSize = epochSize by rw [hframe]; rfl]
  dsimp only
  rw [hdb.provider_eq h hh (by omega) hl, ← hc, hdrop]
  dsimp only
  split_ifs with hne
  · -- not an ancestor of `h`: rebuild
    rw [show (feedHeaders (freshMonitor epochSize epoch lookbackWindow n)
      (db.epochChain ((epoch - 1) * epochSize + 1) L)).clear =
        freshMonitor epochSize epoch lookbackWindow n by rw [hframe]; rfl]
    exact cleanBuild_fresh hdb hcfg hh (by omega) hl
  · -- the ancestor of `h` at the height of `L` is `L`
    have hstored : db.store.Stored chain[L.number - ((epoch - 1) * epochSize + 1)] :=
      hchain.stored _ (List.getElem_mem hj)
    have hanc : chain[L.number - ((epoch - 1) * epochSize + 1)] = L :=
      Store.eq_of_hash_eq hstored hL (by simpa using hne)
    have hpre : db.store.IsChain ((epoch - 1) * epochSize + 1)
        (chain.take (L.number - ((epoch - 1) * epochSize + 1)) ++
          [chain[L.number - ((epoch - 1) * epochSize + 1)]]) := by
      rw [List.take_append_getElem hj]
      exact (List.take_append_drop (L.number - ((epoch - 1) * epochSize + 1) + 1) chain ▸ hchain).of_append
    have htake : db.epochChain ((epoch - 1) * epochSize + 1) L =
        chain.take (L.number - ((epoch - 1) * epochSize + 1) + 1) := by
      have := ChainDB.epochChain_eq_of_isChain hpre
      rw [hanc] at this
      rw [this, List.take_succ_eq_append_getElem hj, hanc]
    rw [htake]
    have := @addAll_feedHeaders db (freshMonitor epochSize epoch lookbackWindow n) hdb.decodes rfl
      (chain.drop (L.number - ((epoch - 1) * epochSize + 1) + 1))
      (chain.take (L.number - ((epoch - 1) * epochSize + 1) + 1))
    rw [List.take_append_drop] at this
    exact this hchain (by simp only [freshMonitor_firstEpochBlock, freshMonitor_lastEpochBlock]; omega)

/-- **Step lemma.** From a built monitor, `ProcessHeader` of a stored header
of the epoch builds that header's chain, without error, in each of the five
cases of the source. -/
theorem processHeader_built (hcfg : ValidConfig epochSize epoch lookbackWindow) {um : Monitor}
    {h : Header} (hum : Built db (freshMonitor epochSize epoch lookbackWindow n) um)
    (hh : db.store.Stored h) (hep : getEpochNumber h.number epochSize = epoch) :
    AutoFix.processHeader provider um h =
      (feedHeaders (freshMonitor epochSize epoch lookbackWindow n)
        (db.epochChain ((epoch - 1) * epochSize + 1) h), none) := by
  obtain ⟨hf, hl⟩ := hcfg.bounds_of_getEpochNumber hep
  rcases hum with rfl | ⟨L, hL, hLf, hLl, rfl⟩
  · -- an empty builder
    unfold AutoFix.processHeader
    rw [if_neg (by simp [hep])]
    exact cleanBuild_fresh hdb hcfg hh hf hl
  simp only [freshMonitor_firstEpochBlock, freshMonitor_lastEpochBlock] at hLf hLl ⊢
  obtain ⟨uptime, hframe⟩ := feedHeaders_frame (db.epochChain ((epoch - 1) * epochSize + 1) L)
    (freshMonitor epochSize epoch lookbackWindow n)
  obtain ⟨entries, hfeed⟩ := feedHeaders_epochChain (n := n) hdb hL hLf hLl
  obtain ⟨hchainL, hlenL⟩ := ChainDB.isChain_epochChain hdb.closed hL hLf
  have hclear : (feedHeaders (freshMonitor epochSize epoch lookbackWindow n)
      (db.epochChain ((epoch - 1) * epochSize + 1) L)).clear =
        freshMonitor epochSize epoch lookbackWindow n := by
    rw [hframe]
    rfl
  unfold AutoFix.processHeader
  rw [if_neg (by rw [hframe]; simp [hep]), hfeed]
  dsimp only
  rw [← hfeed]
  split_ifs with hlt hnext hparent hgap hsame
  · -- a rewind: rebuild
    rw [hclear]
    exact cleanBuild_fresh hdb hcfg hh hf hl
  · -- the next header, a child of `L`
    obtain ⟨l', hl'⟩ : ∃ l', db.epochChain ((epoch - 1) * epochSize + 1) L = l' ++ [L] :=
      ⟨_, (List.dropLast_append_getLast? L (ChainDB.getLast?_epochChain _ L)).symm⟩
    have hLnum : L.number = (epoch - 1) * epochSize + 1 + l'.length := by
      rw [hl'] at hchainL
      simpa using hchainL.number l'.length (by simp)
    have hchain : db.store.IsChain ((epoch - 1) * epochSize + 1)
        (db.epochChain ((epoch - 1) * epochSize + 1) L ++ [h]) := by
      rw [hl'] at hchainL ⊢
      exact hchainL.concat (by simp; omega) (by simpa using hparent) hh
    rw [ChainDB.epochChain_eq_of_isChain hchain]
    exact @processHeader_feedHeaders db (freshMonitor epochSize epoch lookbackWindow n)
      hdb.decodes rfl _ h hchain hl
  · -- a fork at the next height: rebuild
    rw [hclear]
    exact cleanBuild_fresh hdb hcfg hh hf hl
  · -- headers are missing
    exact advance_feedHeaders hdb hcfg hL hLf hh hgap hl
  · -- the same header again
    rw [Store.eq_of_hash_eq hL hh hsame]
  · -- a fork at the same height: rebuild
    rw [hclear]
    exact cleanBuild_fresh hdb hcfg hh hf hl

/-- **Run lemma.** After `ProcessHeader` of any stored headers of the epoch,
in any order, the builder's monitor is built. -/
theorem run_built (hcfg : ValidConfig epochSize epoch lookbackWindow) (headers : List Header)
    (hheaders : ∀ h ∈ headers, db.store.Stored h ∧ getEpochNumber h.number epochSize = epoch) :
    Built db (freshMonitor epochSize epoch lookbackWindow n)
      (AutoFix.run provider (freshMonitor epochSize epoch lookbackWindow n) headers) := by
  refine Run.run_invariant_of_forall _ (Built db (freshMonitor epochSize epoch lookbackWindow n))
    (fun h => db.store.Stored h ∧ getEpochNumber h.number epochSize = epoch) ?_ headers _
    hheaders (.inl rfl)
  rintro um h ⟨hh, hep⟩ hum
  obtain ⟨hf, hl⟩ := hcfg.bounds_of_getEpochNumber hep
  rw [processHeader_built hdb hcfg hum hh hep]
  exact .inr ⟨h, hh, hf, hl, rfl⟩

end Builder

/-- **Path independence.** Whatever stored headers of the epoch the builder
was given, in any order (rewinds, gaps, repeats, forks), `ComputeUptime` at
a stored header `H` of the epoch is that of a fresh monitor fed the headers
the provider returns from the epoch's first block to `H`. -/
theorem autoFix_computeUptime_path_independent {epochSize epoch lookbackWindow : Nat}
    (hcfg : ValidConfig epochSize epoch lookbackWindow) (n : Nat) (db : ChainDB)
    (provider : HeadersProvider) (hdb : EpochDB db provider epochSize epoch)
    (headers : List Header)
    (hheaders : ∀ h ∈ headers, db.store.Stored h ∧ getEpochNumber h.number epochSize = epoch)
    (H : Header) (hH : db.store.Stored H) (hHep : getEpochNumber H.number epochSize = epoch) :
    (Monitor.new epochSize epoch lookbackWindow n).map (fun um =>
        AutoFix.computeUptime provider (AutoFix.run provider um headers) H) =
      (Monitor.new epochSize epoch lookbackWindow n).map (fun um =>
        match provider epochSize H (getNumberWithinEpoch H.number epochSize) with
        | .ok epochHeaders => (feedHeaders um epochHeaders).computeUptime H
        | .error err => .error err) := by
  obtain ⟨hf, hl⟩ := hcfg.bounds_of_getEpochNumber hHep
  rw [hcfg.new_eq, Option.map_some, Option.map_some, hdb.provider_eq H hH hf hl,
    hcfg.getNumberWithinEpoch_eq hf hl,
    show H.number + 1 - ((epoch - 1) * epochSize + 1) - (H.number - (epoch - 1) * epochSize) = 0
      by omega, List.drop_zero]
  unfold AutoFix.computeUptime
  rw [processHeader_built hdb hcfg (run_built hdb hcfg headers hheaders) hH hHep]

/-- The database of the chain `fullySigned 1, …, fullySigned last`. -/
def fullySignedDB (last : Nat) : ChainDB where
  getHeader x := if 1 ≤ x ∧ x ≤ last then some (fullySigned x) else none
  getHeader_hash x h hx := by
    split_ifs at hx
    · obtain rfl := Option.some.inj hx
      rfl

/-- The provider of `fullySignedDB last` for epoch 1: the last `limit`
headers of the chain from block 1. -/
def fullySignedProvider (last : Nat) : HeadersProvider := fun _ h limit =>
  .ok (((fullySignedDB last).epochChain 1 h).drop (h.number + 1 - 1 - limit))

theorem stored_fullySignedDB {last : Nat} {b : Header} (hb : (fullySignedDB last).store.Stored b) :
    b = fullySigned b.hash ∧ 1 ≤ b.hash ∧ b.hash ≤ last := by
  simp only [HashChain.Store.Stored, ChainDB.store_hash, ChainDB.store_get, fullySignedDB] at hb
  split_ifs at hb with hin
  exact ⟨(Option.some.inj hb).symm, hin⟩

theorem epochDB_fullySigned (epochSize : Nat) :
    EpochDB (fullySignedDB epochSize) (fullySignedProvider epochSize) epochSize 1 where
  closed b hb hfirst := by
    obtain ⟨hbeq, h1, hl⟩ := stored_fullySignedDB hb
    rw [hbeq] at hfirst ⊢
    refine ⟨fullySigned (b.hash - 1), ?_, ?_⟩
    · simp only [ChainDB.store_get, ChainDB.store_parentHash, fullySignedDB, fullySigned]
      rw [if_pos (by simp [fullySigned] at hfirst; omega)]
    · simp [fullySigned] at hfirst ⊢
      omega
  decodes b hb _ _ := by
    rw [(stored_fullySignedDB hb).1]
    rfl
  provider_eq _ _ _ _ _ := by
    simp only [fullySignedProvider, Nat.sub_self, Nat.zero_mul, Nat.zero_add]

/-- Epoch 1 of size 10: the builder given headers 5, 3 (a rewind), 3 again
and 9 (a gap) computes at header 10 what a fresh monitor fed headers 1 to 10
computes. -/
theorem autoFix_fullySigned_path_independent :
    ValidConfig 10 1 3 ∧ EpochDB (fullySignedDB 10) (fullySignedProvider 10) 10 1 ∧
      (∀ h ∈ [fullySigned 5, fullySigned 3, fullySigned 3, fullySigned 9],
        (fullySignedDB 10).store.Stored h ∧ getEpochNumber h.number 10 = 1) ∧
      (fullySignedDB 10).store.Stored (fullySigned 10) ∧
      getEpochNumber (fullySigned 10).number 10 = 1 ∧
      (Monitor.new 10 1 3 1).map (fun um =>
          AutoFix.computeUptime (fullySignedProvider 10)
            (AutoFix.run (fullySignedProvider 10) um
              [fullySigned 5, fullySigned 3, fullySigned 3, fullySigned 9]) (fullySigned 10)) =
        (Monitor.new 10 1 3 1).map (fun um =>
          match fullySignedProvider 10 10 (fullySigned 10)
              (getNumberWithinEpoch (fullySigned 10).number 10) with
          | .ok epochHeaders => (feedHeaders um epochHeaders).computeUptime (fullySigned 10)
          | .error err => .error err) := by
  have hcfg : ValidConfig 10 1 3 := ⟨le_rfl, by decide, by decide, by decide, by decide⟩
  have hheaders : ∀ h ∈ [fullySigned 5, fullySigned 3, fullySigned 3, fullySigned 9],
      (fullySignedDB 10).store.Stored h ∧ getEpochNumber h.number 10 = 1 := by decide
  have hH : (fullySignedDB 10).store.Stored (fullySigned 10) := by decide
  have hHep : getEpochNumber (fullySigned 10).number 10 = 1 := by decide
  exact ⟨hcfg, epochDB_fullySigned 10, hheaders, hH, hHep,
    autoFix_computeUptime_path_independent hcfg 1 _ _ (epochDB_fullySigned 10) _ hheaders _
      hH hHep⟩

end CeloBlockchain.Uptime
