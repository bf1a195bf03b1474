import CeloBlockchain.Uptime.Tally
import CeloBlockchain.Lib.Run

/-!
# Uptime scores over a chain

A fresh monitor (`NewMonitor` of a valid configuration) is fed the headers
`first` to `H` of a chain of epoch `epoch`, in order (`feedHeaders`), and asked
for `ComputeUptime` at `H`.

* `feedHeaders_chain` (run lemma, from `processHeader_first` and
  `processHeader_next`): the monitor then holds header `H` and has tallied
  every validator over the blocks `first` to `H - 1`.
* `computeUptime_headerChain`: the scores are the up blocks of the direct
  definition (`directUpBlocks`, through `tallyBlocks_upBlocks`) over the size
  of the window `MonitoringWindowUntil` returns.
* `computeUptime_eq_directUptime`: that size is the direct one, and so the
  scores are the direct ones, except two blocks before the epoch's end, where
  the window keeps block `H` (`perfect_signer_scores_below_fixidity1`).
-/

namespace CeloBlockchain.Uptime

/-! ## Configurations -/

/-- The configurations `MustMonitoringWindow` accepts, with a lookback window
of at least one block and the epoch's blocks in `uint64`. -/
structure ValidConfig (epochSize epoch lookbackWindow : Nat) : Prop where
  epoch_pos : 1 ≤ epoch
  min_size : minEpochSize ≤ epochSize
  lookback_pos : 1 ≤ lookbackWindow
  lookback_le : lookbackWindow + blocksToSkipAtEpochEnd ≤ epochSize
  last_lt : epoch * epochSize < 2 ^ 64

theorem getEpochFirstBlockNumber_of_pos {epoch : Nat} (epochSize : Nat) (he : 1 ≤ epoch) :
    getEpochFirstBlockNumber epoch epochSize = some ((epoch - 1) * epochSize + 1) := by
  rw [getEpochFirstBlockNumber, if_neg (by omega)]

theorem getEpochLastBlockNumber_of_pos {epoch : Nat} (epochSize : Nat) (he : 1 ≤ epoch) :
    getEpochLastBlockNumber epoch epochSize = epoch * epochSize := by
  rw [getEpochLastBlockNumber, if_neg (by omega)]

/-- The monitor `NewMonitor` builds for a valid configuration. -/
def freshMonitor (epochSize epoch lookbackWindow valSetSize : Nat) : Monitor where
  epoch := epoch
  epochSize := epochSize
  firstEpochBlock := (epoch - 1) * epochSize + 1
  lastEpochBlock := epoch * epochSize
  lookbackWindow := lookbackWindow
  valSetSize := valSetSize
  window := ⟨(epoch - 1) * epochSize + lookbackWindow, epoch * epochSize - 2⟩
  accumulatedUptime := ⟨none, List.replicate valSetSize ⟨0, 0⟩⟩

section FreshMonitor

variable (epochSize epoch lookbackWindow valSetSize : Nat)

@[simp] theorem freshMonitor_epoch :
    (freshMonitor epochSize epoch lookbackWindow valSetSize).epoch = epoch := rfl
@[simp] theorem freshMonitor_epochSize :
    (freshMonitor epochSize epoch lookbackWindow valSetSize).epochSize = epochSize := rfl
@[simp] theorem freshMonitor_firstEpochBlock :
    (freshMonitor epochSize epoch lookbackWindow valSetSize).firstEpochBlock =
      (epoch - 1) * epochSize + 1 := rfl
@[simp] theorem freshMonitor_lastEpochBlock :
    (freshMonitor epochSize epoch lookbackWindow valSetSize).lastEpochBlock =
      epoch * epochSize := rfl
@[simp] theorem freshMonitor_latestHeader :
    (freshMonitor epochSize epoch lookbackWindow valSetSize).accumulatedUptime.latestHeader =
      none := rfl

end FreshMonitor

namespace ValidConfig

variable {epochSize epoch lookbackWindow : Nat}

/-- The epoch ends `epochSize - 1` blocks after its first block. -/
theorem last_eq (hcfg : ValidConfig epochSize epoch lookbackWindow) :
    epoch * epochSize = (epoch - 1) * epochSize + epochSize := by
  obtain ⟨e, rfl⟩ : ∃ e, epoch = e + 1 := ⟨epoch - 1, by have := hcfg.epoch_pos; omega⟩
  simp [Nat.succ_mul]

theorem lookback_add_two (hcfg : ValidConfig epochSize epoch lookbackWindow) :
    lookbackWindow + 2 ≤ epochSize := hcfg.lookback_le

/-- `MonitoringWindow`: from the last block of the first lookback window to
two blocks before the epoch's end. -/
theorem monitoringWindow_eq (hcfg : ValidConfig epochSize epoch lookbackWindow) :
    monitoringWindow epoch epochSize lookbackWindow =
      .ok ⟨(epoch - 1) * epochSize + lookbackWindow, epoch * epochSize - 2⟩ := by
  have hlast := hcfg.last_eq
  have hL := hcfg.lookback_add_two
  have h64 := hcfg.last_lt
  have hmin : 3 ≤ epochSize := hcfg.min_size
  have hstop : ((epoch - 1) * epochSize + 1 + lookbackWindow + 2 ^ 64 - 1) % 2 ^ 64 =
      (epoch - 1) * epochSize + lookbackWindow := by
    rw [show (epoch - 1) * epochSize + 1 + lookbackWindow + 2 ^ 64 - 1 =
      (epoch - 1) * epochSize + lookbackWindow + 2 ^ 64 by omega, Nat.add_mod_right,
      Nat.mod_eq_of_lt (by omega)]
  have he := hcfg.epoch_pos
  rw [monitoringWindow, if_neg (by omega), if_neg (by unfold minEpochSize; omega),
    if_neg (by unfold blocksToSkipAtEpochEnd; omega)]
  simp only [getEpochFirstBlockNumber_of_pos epochSize he, getEpochLastBlockNumber_of_pos epochSize he,
    Option.getD_some, newWindowStartingAt, hstop, blocksToSkipAtEpochEnd]

/-- `MonitoringWindowUntil` at a header `H` past the first lookback window:
the window ends at `H - 1` while `H` is before its end. -/
theorem monitoringWindowUntil_eq (hcfg : ValidConfig epochSize epoch lookbackWindow) {H : Nat}
    (hH : (epoch - 1) * epochSize + 1 + lookbackWindow ≤ H) :
    monitoringWindowUntil epoch epochSize lookbackWindow H =
      .ok ⟨(epoch - 1) * epochSize + lookbackWindow,
        if epoch * epochSize - 2 > H then H - 1 else epoch * epochSize - 2⟩ := by
  have hH1 : (H + 2 ^ 64 - 1) % 2 ^ 64 = H - 1 ∨ 2 ^ 64 ≤ H := by
    by_cases h : H < 2 ^ 64
    · left
      rw [show H + 2 ^ 64 - 1 = H - 1 + 2 ^ 64 by omega, Nat.add_mod_right,
        Nat.mod_eq_of_lt (by omega)]
    · exact .inr (by omega)
  rw [monitoringWindowUntil, hcfg.monitoringWindow_eq]
  dsimp only
  rw [if_neg (by omega)]
  split_ifs with hlt
  · rcases hH1 with h | h
    · rw [h]
    · have := hcfg.last_lt
      omega
  · rfl

/-- `NewMonitor` of a valid configuration. -/
theorem new_eq (hcfg : ValidConfig epochSize epoch lookbackWindow) (valSetSize : Nat) :
    Monitor.new epochSize epoch lookbackWindow valSetSize =
      some (freshMonitor epochSize epoch lookbackWindow valSetSize) := by
  rw [Monitor.new, hcfg.monitoringWindow_eq]
  simp only [getEpochFirstBlockNumber_of_pos epochSize hcfg.epoch_pos,
    getEpochLastBlockNumber_of_pos epochSize hcfg.epoch_pos, Option.getD_some, freshMonitor]

end ValidConfig

/-- `Size` of a window that does not wrap. -/
theorem Window.size_eq {w : Window} (hle : w.start ≤ w.stop + 1) (h64 : w.stop + 1 < 2 ^ 64) :
    w.size = w.stop + 1 - w.start := by
  rw [Window.size, show w.stop + 2 ^ 64 + 1 - w.start = w.stop + 1 - w.start + 2 ^ 64 by omega,
    Nat.add_mod_right, Nat.mod_eq_of_lt (by omega)]

/-! ## Feeding a chain to the monitor -/

/-- `ProcessHeader` as a step of a run; a header it refuses leaves the
monitor as it was. -/
def Monitor.processHeaderStep (um : Monitor) (header : Header) : Monitor :=
  (um.processHeader header).1

/-- The monitor after `ProcessHeader` of each header in order. -/
def feedHeaders (um : Monitor) (headers : List Header) : Monitor :=
  Run.run Monitor.processHeaderStep um headers

/-- Headers `first` to `last` of a chain: `chain k` is numbered `k`, is the
parent of `chain (k + 1)`, and, past the first, has an Istanbul extra that
decodes. -/
structure HeaderChain (chain : Nat → Header) (first last : Nat) : Prop where
  number : ∀ k, first ≤ k → k ≤ last → (chain k).number = k
  parent : ∀ k, first ≤ k → k < last → (chain (k + 1)).parentHash = (chain k).hash
  decodes : ∀ k, first < k → k ≤ last → (chain k).parentBitmap.isSome

/-- The headers `first` to `H` of a chain. -/
def headersUpTo (chain : Nat → Header) (first H : Nat) : List Header :=
  (List.range' first (H + 1 - first)).map chain

/-- Whether validator `i` signed block `b`: bit `i` of the bitmap in header
`b + 1`. -/
def signedBy (chain : Nat → Header) (i b : Nat) : Bool :=
  ((chain (b + 1)).parentBitmap.getD 0).testBit i

theorem headersUpTo_succ (chain : Nat → Header) {first H : Nat} (h : first ≤ H) :
    headersUpTo chain first (H + 1) = headersUpTo chain first H ++ [chain (H + 1)] := by
  rw [headersUpTo, headersUpTo, show H + 1 + 1 - first = H + 1 - first + 1 by omega,
    List.range'_concat, List.map_append, show first + 1 * (H + 1 - first) = H + 1 by omega]
  rfl

/-- The epoch's first header is recorded without tallying: its bitmap holds
the previous epoch's signatures. -/
theorem processHeader_first {um : Monitor} {header : Header}
    (hnum : header.number = um.firstEpochBlock) (hle : um.firstEpochBlock ≤ um.lastEpochBlock)
    (hnone : um.accumulatedUptime.latestHeader = none) :
    um.processHeader header =
      ({ um with accumulatedUptime := { um.accumulatedUptime with latestHeader := some header } },
        none) := by
  unfold Monitor.processHeader
  dsimp only
  rw [if_neg (by omega), if_pos ⟨hnum, hnone⟩]

/-- A child of the last header tallies its parent block. -/
theorem processHeader_next {um : Monitor} {latest header : Header} {bitmap : Nat}
    (hlatest : um.accumulatedUptime.latestHeader = some latest)
    (hfirst : um.firstEpochBlock ≤ header.number) (hlast : header.number ≤ um.lastEpochBlock)
    (hlt : latest.number < header.number) (hparent : header.parentHash = latest.hash)
    (hbitmap : header.parentBitmap = some bitmap) :
    um.processHeader header =
      ({ um with accumulatedUptime :=
          { updateUptime um.accumulatedUptime (header.number - 1) bitmap um.lookbackWindow
              um.window with latestHeader := some header } }, none) := by
  unfold Monitor.processHeader
  dsimp only
  rw [if_neg (by omega), if_neg (by simp [hlatest]), hlatest]
  dsimp only
  rw [if_neg (by omega), if_neg (by simp [hparent]), hbitmap]

/-- **Run lemma.** After the headers `first` to `first + j` of a chain, a
monitor that had processed nothing holds the last of them and has tallied
each validator over the blocks `first` to `first + j - 1`. -/
theorem feedHeaders_chain {um : Monitor} {chain : Nat → Header} {H : Nat}
    (hnone : um.accumulatedUptime.latestHeader = none)
    (hchain : HeaderChain chain um.firstEpochBlock H) (hH : H ≤ um.lastEpochBlock) (j : Nat)
    (hj : um.firstEpochBlock + j ≤ H) :
    feedHeaders um (headersUpTo chain um.firstEpochBlock (um.firstEpochBlock + j)) =
      { um with accumulatedUptime := ⟨some (chain (um.firstEpochBlock + j)),
          um.accumulatedUptime.entries.mapIdx fun i entry =>
            tallyBlocks (signedBy chain i) um.lookbackWindow um.window um.firstEpochBlock j
              entry⟩ } := by
  induction j with
  | zero =>
    have hone : headersUpTo chain um.firstEpochBlock um.firstEpochBlock =
        [chain um.firstEpochBlock] := by
      simp [headersUpTo]
    rw [Nat.add_zero, hone, feedHeaders, Run.run_cons, Run.run_nil, Monitor.processHeaderStep,
      processHeader_first (hchain.number _ le_rfl (by omega)) (by omega) hnone]
    simp only [tallyBlocks, Monitor.mk.injEq, true_and, AccumulatedUptime.mk.injEq]
    apply List.ext_getElem <;> simp
  | succ j ih =>
    obtain ⟨bitmap, hbitmap⟩ := Option.isSome_iff_exists.mp
      (hchain.decodes (um.firstEpochBlock + j + 1) (by omega) (by omega))
    rw [← Nat.add_assoc, headersUpTo_succ chain (by omega), feedHeaders, Run.run_concat,
      ← feedHeaders, ih (by omega), Monitor.processHeaderStep]
    have hnum := hchain.number (um.firstEpochBlock + j + 1) (by omega) (by omega)
    rw [processHeader_next rfl (by simp only [hnum]; omega) (by simp only [hnum]; omega)
      (by rw [hnum, hchain.number _ (by omega) (by omega)]; omega)
      (hchain.parent _ (by omega) (by omega)) hbitmap]
    simp only [updateUptime_entries, List.mapIdx_mapIdx, hnum, Nat.add_sub_cancel]
    congr
    funext i entry
    simp only [Function.comp_apply, tallyBlocks, signedBy, hbitmap, Option.getD_some]

/-- The run lemma at the last header `H` of the chain. -/
theorem feedHeaders_headerChain {um : Monitor} {chain : Nat → Header} {H : Nat}
    (hnone : um.accumulatedUptime.latestHeader = none)
    (hchain : HeaderChain chain um.firstEpochBlock H) (hfirst : um.firstEpochBlock ≤ H)
    (hH : H ≤ um.lastEpochBlock) :
    feedHeaders um (headersUpTo chain um.firstEpochBlock H) =
      { um with accumulatedUptime := ⟨some (chain H),
          um.accumulatedUptime.entries.mapIdx fun i entry =>
            tallyBlocks (signedBy chain i) um.lookbackWindow um.window um.firstEpochBlock
              (H - um.firstEpochBlock) entry⟩ } := by
  have := feedHeaders_chain hnone hchain hH (H - um.firstEpochBlock) (by omega)
  rwa [Nat.add_sub_cancel' hfirst] at this

/-- `ComputeUptime` past the first lookback window: each entry's up blocks
as a fraction of the size of the window monitored until the header. -/
theorem computeUptime_ok {um : Monitor} {latest header : Header} {w : Window}
    (hlatest : um.accumulatedUptime.latestHeader = some latest)
    (hfirst : um.firstEpochBlock + um.lookbackWindow ≤ header.number)
    (hlast : header.number ≤ um.lastEpochBlock)
    (hw : monitoringWindowUntil um.epoch um.epochSize um.lookbackWindow header.number = .ok w) :
    um.computeUptime header =
      .ok (um.accumulatedUptime.entries.map fun entry => entry.upBlocks * fixidity1 / w.size) := by
  unfold Monitor.computeUptime
  rw [hlatest]
  dsimp only
  rw [if_neg (by omega), if_neg (by omega), hw]

/-! ## The direct definition of the scores

A validator's score stated without the monitor: over the monitored blocks
whose signatures the headers up to `H` hold (block `b`'s signatures are in
header `b + 1`, so the blocks up to `H - 1`), the fraction of those at which
the validator signed some block of the lookback window. -/

/-- The monitored blocks of the epoch whose signatures the headers up to `H`
hold. -/
def directWindow (first last lookbackWindow H : Nat) : Window :=
  ⟨first + lookbackWindow - 1, min (last - blocksToSkipAtEpochEnd) (H - 1)⟩

/-- The blocks `b` of `w` such that some header `k` from `first` to `H`, with
`k - 1` in the lookback window ending at `b`, has bit `i` set. -/
def directUpBlocks (chain : Nat → Header) (first lookbackWindow H i : Nat) (w : Window) : Nat :=
  ((List.range' w.start (w.stop + 1 - w.start)).filter fun b =>
    (List.range' first (H + 1 - first)).any fun k =>
      decide (b + 1 - lookbackWindow ≤ k - 1 ∧ k - 1 ≤ b) &&
        ((chain k).parentBitmap.getD 0).testBit i).length

/-- The scores `⌊Fixidity1 · U_i / |W|⌋` of `n` validators at header `H`. -/
def directUptime (epochSize epoch lookbackWindow n : Nat) (chain : Nat → Header) (H : Nat) :
    List Nat :=
  let first := (epoch - 1) * epochSize + 1
  let w := directWindow first (epoch * epochSize) lookbackWindow H
  (List.range n).map fun i =>
    fixidity1 * directUpBlocks chain first lookbackWindow H i w / (w.stop + 1 - w.start)

/-- Counting over `[a, a + m)` the points of `[s, s + n)` that satisfy `P`
is counting over `[s, s + n)`, when the second interval lies in the first. -/
theorem filter_range'_subinterval {a m s n : Nat} (P Q : Nat → Bool) (has : a ≤ s)
    (hsn : s + n ≤ a + m) (hQ : ∀ b, a ≤ b → b < a + m → Q b = decide (s ≤ b ∧ b < s + n)) :
    (List.range' a m).filter (fun b => Q b && P b) = (List.range' s n).filter P := by
  have hsplit : List.range' a m = List.range' a (s - a) ++
      (List.range' s n ++ List.range' (s + n) (a + m - (s + n))) := by
    have h₁ := @List.range'_append_1 s n (a + m - (s + n))
    have h₂ := @List.range'_append_1 a (s - a) (n + (a + m - (s + n)))
    rw [Nat.add_sub_cancel' has] at h₂
    rw [h₁, h₂, show s - a + (n + (a + m - (s + n))) = m by omega]
  -- outside `[s, s + n)` nothing is counted; inside, `Q` holds
  have hout : ∀ l : List Nat, (∀ b ∈ l, a ≤ b ∧ b < a + m ∧ (b < s ∨ s + n ≤ b)) →
      l.filter (fun b => Q b && P b) = [] := by
    intro l hl
    rw [List.filter_eq_nil_iff]
    intro b hb
    obtain ⟨hb₁, hb₂, hb₃⟩ := hl b hb
    rw [hQ b hb₁ hb₂]
    simp only [Bool.and_eq_true, decide_eq_true_eq]
    rintro ⟨⟨_, _⟩, -⟩
    omega
  have hmid : (List.range' s n).filter (fun b => Q b && P b) = (List.range' s n).filter P := by
    apply List.filter_congr
    intro b hb
    rw [List.mem_range'_1] at hb
    rw [hQ b (by omega) (by omega), decide_eq_true hb, Bool.true_and]
  rw [hsplit, List.filter_append, List.filter_append, hmid,
    hout (List.range' a (s - a)) (fun b hb => by rw [List.mem_range'_1] at hb; omega),
    hout (List.range' (s + n) (a + m - (s + n))) (fun b hb => by rw [List.mem_range'_1] at hb; omega),
    List.nil_append, List.append_nil]

/-- At a monitored block whose signatures are known, the monitor's reading of
"up" is the direct one. -/
theorem upAt_signedBy (chain : Nat → Header) {first lookbackWindow H i b : Nat}
    (hfirst : 1 ≤ first) (hb : first + lookbackWindow ≤ b + 1) (hbH : b + 1 ≤ H) :
    upAt (signedBy chain i) lookbackWindow b =
      (List.range' first (H + 1 - first)).any fun k =>
        decide (b + 1 - lookbackWindow ≤ k - 1 ∧ k - 1 ≤ b) &&
          ((chain k).parentBitmap.getD 0).testBit i := by
  rw [Bool.eq_iff_iff]
  simp only [upAt, List.any_eq_true, List.mem_range'_1, Bool.and_eq_true, decide_eq_true_eq,
    signedBy]
  constructor
  · rintro ⟨s, ⟨hs₁, hs₂⟩, hsig⟩
    refine ⟨s + 1, ⟨by omega, by omega⟩, ⟨by omega, by omega⟩, hsig⟩
  · rintro ⟨k, ⟨hk₁, hk₂⟩, ⟨hk₃, hk₄⟩, hsig⟩
    refine ⟨k - 1, ⟨by omega, by omega⟩, ?_⟩
    rwa [show k - 1 + 1 = k by omega]

/-- The up blocks the monitor counts over the blocks `first` to `H - 1` are
those of the direct definition. -/
theorem upCount_eq_directUpBlocks (chain : Nat → Header) {first last lookbackWindow H : Nat}
    (i : Nat) (hfirst : 1 ≤ first) (hL : 1 ≤ lookbackWindow)
    (hH : first + lookbackWindow ≤ H) (hlast : first + lookbackWindow + 1 ≤ last) :
    upCount (signedBy chain i) lookbackWindow ⟨first + lookbackWindow - 1, last - 2⟩ first
        (H - first) =
      directUpBlocks chain first lookbackWindow H i (directWindow first last lookbackWindow H) := by
  unfold upCount directUpBlocks directWindow blocksToSkipAtEpochEnd
  dsimp only
  rw [@filter_range'_subinterval first (H - first) (first + lookbackWindow - 1)
    (min (last - 2) (H - 1) + 1 - (first + lookbackWindow - 1))
    (upAt (signedBy chain i) lookbackWindow)
    (fun b => (⟨first + lookbackWindow - 1, last - 2⟩ : Window).contains b) (by omega) (by omega)]
  · congr 1
    apply List.filter_congr
    intro b hb
    rw [List.mem_range'_1] at hb
    exact upAt_signedBy chain hfirst (by omega) (by omega)
  · intro b hb₁ hb₂
    rw [Bool.eq_iff_iff]
    simp only [Window.contains, Bool.and_eq_true, decide_eq_true_eq, ge_iff_le]
    omega

theorem mapIdx_replicate {α β : Type} (f : Nat → α → β) (n : Nat) (a : α) :
    (List.replicate n a).mapIdx f = (List.range n).map fun i => f i a := by
  apply List.ext_getElem <;> simp

/-! ## The scores of the monitor -/

section Scores

variable {epochSize epoch lookbackWindow : Nat}

/-- **The monitor's scores.** A fresh monitor fed the headers `first` to `H`
of a chain scores each validator by the up blocks of the direct definition
over the size of the window monitored until `H`; that window holds block `H`
itself when `H` is two blocks before the epoch's end. -/
theorem computeUptime_headerChain (hcfg : ValidConfig epochSize epoch lookbackWindow) (n : Nat)
    {chain : Nat → Header} {H : Nat} (hchain : HeaderChain chain ((epoch - 1) * epochSize + 1) H)
    (hH : (epoch - 1) * epochSize + 1 + lookbackWindow ≤ H) (hHl : H ≤ epoch * epochSize) :
    let first := (epoch - 1) * epochSize + 1
    let w := directWindow first (epoch * epochSize) lookbackWindow H
    (Monitor.new epochSize epoch lookbackWindow n).map (fun um =>
        (feedHeaders um (headersUpTo chain um.firstEpochBlock H)).computeUptime (chain H)) =
      some (.ok ((List.range n).map fun i =>
        directUpBlocks chain first lookbackWindow H i w * fixidity1 /
          (w.stop + 1 - w.start + if H = epoch * epochSize - 2 then 1 else 0))) := by
  dsimp only
  have hlast := hcfg.last_eq
  have hL := hcfg.lookback_add_two
  have hL1 := hcfg.lookback_pos
  have h64 := hcfg.last_lt
  have hnum := hchain.number H (by omega) le_rfl
  rw [hcfg.new_eq, Option.map_some,
    @feedHeaders_headerChain (freshMonitor epochSize epoch lookbackWindow n) chain H rfl hchain
      (by simp only [freshMonitor]; omega) hHl,
    computeUptime_ok rfl (by simp only [hnum, freshMonitor]; omega)
      (by simp only [hnum, freshMonitor]; omega)
      (by simp only [hnum]; exact hcfg.monitoringWindowUntil_eq hH)]
  simp only [freshMonitor, mapIdx_replicate, List.map_map]
  -- the window the monitor tallies, and its size until `H`
  have hwin : (⟨(epoch - 1) * epochSize + lookbackWindow, epoch * epochSize - 2⟩ : Window) =
      ⟨(epoch - 1) * epochSize + 1 + lookbackWindow - 1, epoch * epochSize - 2⟩ := by
    congr 1
    omega
  have hsize : (⟨(epoch - 1) * epochSize + lookbackWindow,
      if epoch * epochSize - 2 > H then H - 1 else epoch * epochSize - 2⟩ : Window).size =
        (directWindow ((epoch - 1) * epochSize + 1) (epoch * epochSize) lookbackWindow H).stop + 1 -
          (directWindow ((epoch - 1) * epochSize + 1) (epoch * epochSize) lookbackWindow H).start +
          if H = epoch * epochSize - 2 then 1 else 0 := by
    rw [Window.size_eq (by dsimp only; split_ifs <;> omega) (by dsimp only; split_ifs <;> omega)]
    simp only [directWindow, blocksToSkipAtEpochEnd]
    split_ifs <;> omega
  refine congrArg (fun l => some (Except.ok l)) (List.map_congr_left fun i _ => ?_)
  rw [Function.comp_apply, tallyBlocks_upBlocks _ _ _ _ (by omega)
      (fun b hb => by simp only [Window.contains, Bool.and_eq_true, decide_eq_true_eq] at hb; omega)
      _ (by omega),
    hwin, upCount_eq_directUpBlocks chain i (by omega) hL1 hH (by omega), hsize]

/-- **Refinement.** Away from two blocks before the epoch's end, the
monitor's scores are the direct ones. -/
theorem computeUptime_eq_directUptime (hcfg : ValidConfig epochSize epoch lookbackWindow)
    (n : Nat) {chain : Nat → Header} {H : Nat}
    (hchain : HeaderChain chain ((epoch - 1) * epochSize + 1) H)
    (hH : (epoch - 1) * epochSize + 1 + lookbackWindow ≤ H) (hHl : H ≤ epoch * epochSize)
    (hne : H ≠ epoch * epochSize - 2) :
    (Monitor.new epochSize epoch lookbackWindow n).map (fun um =>
        (feedHeaders um (headersUpTo chain um.firstEpochBlock H)).computeUptime (chain H)) =
      some (.ok (directUptime epochSize epoch lookbackWindow n chain H)) := by
  have h := computeUptime_headerChain hcfg n hchain hH hHl
  dsimp only at h
  rw [h, directUptime]
  simp only [if_neg hne, Nat.add_zero]
  exact congrArg (fun l => some (Except.ok l))
    (List.map_congr_left fun i _ => by rw [Nat.mul_comm])

theorem directUpBlocks_le (chain : Nat → Header) (first lookbackWindow H i : Nat) (w : Window) :
    directUpBlocks chain first lookbackWindow H i w ≤ w.stop + 1 - w.start :=
  (List.length_filter_le _ _).trans_eq List.length_range'

/-- Every score the monitor computes over a chain is at most `Fixidity1`,
one per validator. -/
theorem computeUptime_le_fixidity1 (hcfg : ValidConfig epochSize epoch lookbackWindow)
    (n : Nat) {chain : Nat → Header} {H : Nat}
    (hchain : HeaderChain chain ((epoch - 1) * epochSize + 1) H)
    (hH : (epoch - 1) * epochSize + 1 + lookbackWindow ≤ H) (hHl : H ≤ epoch * epochSize) :
    ∃ scores, (Monitor.new epochSize epoch lookbackWindow n).map (fun um =>
        (feedHeaders um (headersUpTo chain um.firstEpochBlock H)).computeUptime (chain H)) =
      some (.ok scores) ∧ scores.length = n ∧ ∀ s ∈ scores, s ≤ fixidity1 := by
  have h := computeUptime_headerChain hcfg n hchain hH hHl
  dsimp only at h
  refine ⟨_, h, by simp, ?_⟩
  intro s hs
  obtain ⟨i, -, rfl⟩ := List.mem_map.mp hs
  apply Nat.div_le_of_le_mul
  have hle := directUpBlocks_le chain ((epoch - 1) * epochSize + 1) lookbackWindow H i
    (directWindow ((epoch - 1) * epochSize + 1) (epoch * epochSize) lookbackWindow H)
  exact (Nat.mul_le_mul_right _ hle).trans (Nat.mul_le_mul_right _ (Nat.le_add_right _ _))

/-- A validator whose bit is set in every header after the first is up at
every block of the window. -/
theorem directUpBlocks_of_signed (chain : Nat → Header) {first last lookbackWindow H i : Nat}
    (hfirst : 1 ≤ first) (hL : 1 ≤ lookbackWindow) (hH : first + lookbackWindow ≤ H)
    (hsig : ∀ k, first < k → k ≤ H → ((chain k).parentBitmap.getD 0).testBit i) :
    directUpBlocks chain first lookbackWindow H i (directWindow first last lookbackWindow H) =
      (directWindow first last lookbackWindow H).stop + 1 -
        (directWindow first last lookbackWindow H).start := by
  unfold directUpBlocks
  rw [List.filter_eq_self.mpr, List.length_range']
  intro b hb
  simp only [directWindow, blocksToSkipAtEpochEnd, List.mem_range'_1] at hb
  rw [List.any_eq_true]
  -- block `b` itself, signed in header `b + 1`
  refine ⟨b + 1, List.mem_range'_1.mpr ⟨by omega, by omega⟩, ?_⟩
  rw [Bool.and_eq_true, decide_eq_true_eq]
  exact ⟨⟨by omega, by omega⟩, hsig (b + 1) (by omega) (by omega)⟩

/-- A validator whose bit is set in every header scores `Fixidity1` at every
`H` but two blocks before the epoch's end. -/
theorem computeUptime_of_signed (hcfg : ValidConfig epochSize epoch lookbackWindow)
    (n : Nat) {chain : Nat → Header} {H i : Nat}
    (hchain : HeaderChain chain ((epoch - 1) * epochSize + 1) H)
    (hH : (epoch - 1) * epochSize + 1 + lookbackWindow ≤ H) (hHl : H ≤ epoch * epochSize)
    (hne : H ≠ epoch * epochSize - 2) (hi : i < n)
    (hsig : ∀ k, (epoch - 1) * epochSize + 1 < k → k ≤ H →
      ((chain k).parentBitmap.getD 0).testBit i) :
    ∃ scores, (Monitor.new epochSize epoch lookbackWindow n).map (fun um =>
        (feedHeaders um (headersUpTo chain um.firstEpochBlock H)).computeUptime (chain H)) =
      some (.ok scores) ∧ scores[i]? = some fixidity1 := by
  have hlast := hcfg.last_eq
  have hL := hcfg.lookback_add_two
  refine ⟨_, computeUptime_eq_directUptime hcfg n hchain hH hHl hne, ?_⟩
  rw [directUptime, List.getElem?_map, List.getElem?_range hi, Option.map_some,
    directUpBlocks_of_signed chain (by omega) hcfg.lookback_pos hH hsig]
  -- the window holds at least its first block
  have hpos : 0 < (directWindow ((epoch - 1) * epochSize + 1) (epoch * epochSize)
      lookbackWindow H).stop + 1 - (directWindow ((epoch - 1) * epochSize + 1)
        (epoch * epochSize) lookbackWindow H).start := by
    simp only [directWindow, blocksToSkipAtEpochEnd]
    omega
  rw [Nat.mul_div_cancel _ hpos]

end Scores

/-! ## Two blocks before the epoch's end

`MonitoringWindowUntil` cuts the window at `H - 1` only when the window ends
after `H`.  When it ends at `H`, two blocks before the epoch's end, block `H`
stays in it although its signatures come with header `H + 1`: the size
counts a block no validator can be up at. -/

/-- Headers numbered `k`, each the parent of the next, all with the bit of
validator `0` set. -/
def fullySigned (k : Nat) : Header := ⟨k, k, k - 1, some 1⟩

theorem headerChain_fullySigned (first last : Nat) : HeaderChain fullySigned first last :=
  ⟨fun _ _ _ => rfl, fun k _ _ => by simp [fullySigned], fun _ _ _ => rfl⟩

theorem computeUptime_le_fixidity1_fullySigned :
    ValidConfig 10 1 3 ∧ HeaderChain fullySigned 1 8 ∧
      ∃ scores, (Monitor.new 10 1 3 1).map (fun um =>
          (feedHeaders um (headersUpTo fullySigned um.firstEpochBlock 8)).computeUptime
            (fullySigned 8)) = some (.ok scores) ∧ scores.length = 1 ∧ ∀ s ∈ scores, s ≤ fixidity1 := by
  have hcfg : ValidConfig 10 1 3 := ⟨le_rfl, by decide, by decide, by decide, by decide⟩
  exact ⟨hcfg, headerChain_fullySigned 1 8,
    computeUptime_le_fixidity1 hcfg 1 (headerChain_fullySigned 1 8) (by decide) (by decide)⟩

theorem computeUptime_of_signed_fullySigned :
    ValidConfig 10 1 3 ∧ HeaderChain fullySigned 1 7 ∧
      (∀ k, 1 < k → k ≤ 7 → ((fullySigned k).parentBitmap.getD 0).testBit 0) ∧
      ∃ scores, (Monitor.new 10 1 3 1).map (fun um =>
          (feedHeaders um (headersUpTo fullySigned um.firstEpochBlock 7)).computeUptime
            (fullySigned 7)) = some (.ok scores) ∧ scores[0]? = some fixidity1 := by
  have hcfg : ValidConfig 10 1 3 := ⟨le_rfl, by decide, by decide, by decide, by decide⟩
  have hsig : ∀ k, 1 < k → k ≤ 7 → ((fullySigned k).parentBitmap.getD 0).testBit 0 :=
    fun k _ _ => by simp [fullySigned]
  exact ⟨hcfg, headerChain_fullySigned 1 7, hsig,
    computeUptime_of_signed hcfg 1 (headerChain_fullySigned 1 7) (by decide) (by decide) (by decide)
      (by decide) hsig⟩

/-- Epoch 1 of size 10 with a lookback window of 3 blocks and one validator
that signs every block: at header 8 the direct score is `Fixidity1`, the
monitor's `5/6` of it. -/
theorem perfect_signer_scores_below_fixidity1 :
    ValidConfig 10 1 3 ∧ HeaderChain fullySigned 1 8 ∧
      (Monitor.new 10 1 3 1).map (fun um =>
          (feedHeaders um (headersUpTo fullySigned um.firstEpochBlock 8)).computeUptime
            (fullySigned 8)) = some (.ok [fixidity1 * 5 / 6]) ∧
      directUptime 10 1 3 1 fullySigned 8 = [fixidity1] ∧ fixidity1 * 5 / 6 < fixidity1 := by
  have hcfg : ValidConfig 10 1 3 := ⟨le_rfl, by decide, by decide, by decide, by decide⟩
  have h := computeUptime_headerChain hcfg 1 (headerChain_fullySigned 1 8) (by decide) (by decide)
  dsimp only at h
  refine ⟨hcfg, headerChain_fullySigned 1 8, ?_, by decide +kernel, by decide +kernel⟩
  rw [h]
  decide +kernel

end CeloBlockchain.Uptime
