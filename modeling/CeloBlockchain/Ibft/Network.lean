import CeloBlockchain.Ibft.Core
import CeloBlockchain.Lib.Run

/-!
# A network of IBFT cores

Validators run one core each.  Every message a core sends stays in flight:
the network may deliver it to any core, any number of times, in any order,
or never (loss, duplication and reordering).  Timeouts, resend timers, new
requests and committed blocks arrive at a core as local events at any time.

With no Byzantine member this is the whole system; a message in flight was
then signed by the core whose address it names (`inFlight_sent_by_signer`),
which is the unforgeability the agreement property assumes.

`Agreement` states that no two cores hand proposals of different hashes to
`backend.Commit` for one sequence.
-/

namespace CeloBlockchain.Ibft

/-- The cores of the network, one per validator. -/
structure Network where
  cores : List Core

/-- A step of the network. -/
inductive NetEvent
  /-- Core `i` receives message `m`, if some core has sent it; its backend
  answers as `b`. -/
  | deliver (b : Backend) (i : Nat) (m : Message)
  /-- Core `i` handles a local event (a request, a timer, a committed block). -/
  | handle (b : Backend) (i : Nat) (e : Event)

namespace Network

/-- The messages in flight: all messages sent so far. -/
def inFlight (n : Network) : List Message := n.cores.flatMap (·.sent)

/-- Core `i` after handling an event with backend `b`. -/
def updateCore (cfg : Config) (b : Backend) (n : Network) (i : Nat) (e : Event) : Network :=
  ⟨n.cores.modify i fun c => c.handleEvent cfg b e⟩

/-- One network step; a delivery of a message nobody sent is no step. -/
def step (cfg : Config) (n : Network) : NetEvent → Network
  | .deliver b i m => if m ∈ n.inFlight then n.updateCore cfg b i (.message m) else n
  | .handle b i e => n.updateCore cfg b i e

/-- Whether a network state is reached from `n₀` by some run. -/
def Reachable (cfg : Config) (n₀ n : Network) : Prop :=
  ∃ es : List NetEvent, Run.run (step cfg) n₀ es = n

/-- **Agreement**: two cores never commit proposals of different hashes for
the same sequence (block number). -/
def Agreement (n : Network) : Prop :=
  ∀ c ∈ n.cores, ∀ c' ∈ n.cores, ∀ p ∈ c.committed, ∀ p' ∈ c'.committed,
    p.number = p'.number → p.hash = p'.hash

end Network

/-! ## Two commits at one height in a network with no faulty member

Four validators `1..4` (quorum 3, `F = 1`), round-robin proposers after the
genesis block: rounds 0, 1, 2 are proposed by `1`, `2`, `3`.

* Round 0: `1` proposes block `W`; all four prepare it, but only `4` receives
  the PREPAREs, so only `4` holds a prepared certificate for `W` (round 0).
  Everybody times out.
* Round 1: `1`, `2`, `3` exchange round changes without certificates; `2`
  proposes block `V`; the three prepare and commit it, and `1` receives the
  three COMMITs and commits `V`.  All time out again; `4`, which never left
  round 0, times out twice and asks for round 3 with its certificate for `W`.
* Round 2: `3` collects the round change of `4` for round 3 and those of
  `1`, `2`, `3` for round 2 (certificates for `V`, round 1).  The request of
  the highest round carrying a certificate is that of `4`, so `3` proposes
  `W`, and `1`, `2`, `3` accept: `2` commits `W`.

No message is forged: every delivered message was sent by its signer, and
only loss and timing separate this run from a synchronous one. -/

namespace SplitCommit

/-- The four validators. -/
def fourValidators : ValidatorSet := ⟨[⟨1, 11⟩, ⟨2, 12⟩, ⟨3, 13⟩, ⟨4, 14⟩], 0⟩

/-- Round-robin proposer selection; the empty block's hash is `999`. -/
def roundRobinConfig : Config := ⟨roundRobinProposer, 999⟩

/-- The competing blocks for sequence 1. -/
def blockW : Proposal := ⟨1, 100⟩
def blockV : Proposal := ⟨1, 200⟩

/-- A backend at the genesis head (author: the zero address) under which
every block verifies and every signature and seal checks. -/
def genesisBackend : Backend where
  verify := fun _ => .ok
  headBlock := ⟨0, 500⟩
  headAuthor := 0
  authorForBlock := fun _ => 0
  validators := fun _ => fourValidators
  parentBlockValidators := fun _ => fourValidators
  nextBlockValidators := fun _ => some fourValidators
  lastSubject := none
  hasBlock := fun _ _ => false
  isPrimaryForSeq := fun _ => true
  verifyCommittedSeal := fun _ _ => true
  verifyEpochValidatorSetSeal := fun _ _ _ _ => true
  commitSeals := fun _ => some (1, 1)
  aggregateOk := true
  commitOk := fun _ => true

/-- A core started at sequence 1 (`createRoundState` with no stored view). -/
def initialCore (a : Address) : Core := .new a ⟨1, 0⟩ fourValidators ⟨1, 11⟩ 999

/-- Core `i` has address `i + 1`. -/
def initialNetwork : Network := ⟨[initialCore 1, initialCore 2, initialCore 3, initialCore 4]⟩

def prepareOf (a : Address) (r : Nat) (h : Hash) : Message :=
  .vote ⟨.prepare, a, a, ⟨⟨1, r⟩, h⟩, 0, 0⟩

def commitOf (a : Address) (r : Nat) (h : Hash) : Message :=
  .vote ⟨.commit, a, a, ⟨⟨1, r⟩, h⟩, 1, 1⟩

/-- The certificate `TransitionToPrepared` builds from the PREPAREs of `1`,
`2`, `3` for round `r` (in the order the message set holds them). -/
def certificateOf (r : Nat) (h : Hash) : PreparedCertificateV2 :=
  ⟨h, [3, 2, 1].map fun a => ⟨.prepare, a, a, ⟨⟨1, r⟩, h⟩, 0, 0⟩⟩

def requestOf (a r : Nat) (pc : PreparedCertificateV2) : RoundChangeRequest := ⟨a, ⟨1, r⟩, pc, a⟩

def roundChangeOf (a r : Nat) (pc : PreparedCertificateV2) (p : Proposal) : Message :=
  .roundChangeV2 a a ⟨requestOf a r pc, p⟩

def deliver (i : Nat) (m : Message) : NetEvent := .deliver genesisBackend i m
def timeout (i r : Nat) : NetEvent := .handle genesisBackend i (.timeoutAndMoveToNextRound ⟨1, r⟩)

/-- Round 0: only core 3 (address 4) prepares `W`. -/
def round0 : List NetEvent :=
  [.handle genesisBackend 1 (.request blockV), .handle genesisBackend 0 (.request blockW)] ++
  ([0, 1, 2, 3].map fun i => deliver i (.preprepareV2 1 1 ⟨⟨1, 0⟩, blockW, ⟨[]⟩⟩)) ++
  ([1, 2, 3].map fun a => deliver 3 (prepareOf a 0 100)) ++
  ([0, 1, 2, 3].map fun i => timeout i 0)

/-- Round 1: `V` is proposed, prepared by three and committed by core 0. -/
def round1 : List NetEvent :=
  ([0, 1, 2].flatMap fun i => [1, 2, 3].map fun a => deliver i (roundChangeOf a 1 ⟨999, []⟩ ⟨0, 999⟩)) ++
  ([0, 1, 2].map fun i => deliver i (.preprepareV2 2 2 ⟨⟨1, 1⟩, blockV,
    ⟨[requestOf 3 1 ⟨999, []⟩, requestOf 2 1 ⟨999, []⟩, requestOf 1 1 ⟨999, []⟩]⟩⟩)) ++
  ([0, 1, 2].flatMap fun i => [1, 2, 3].map fun a => deliver i (prepareOf a 1 200)) ++
  ([1, 2, 3].map fun a => deliver 0 (commitOf a 1 200)) ++
  ([0, 1, 2].map fun i => timeout i 1) ++ [timeout 3 1, timeout 3 2]

/-- The round-change certificate core 2 builds for round 2: the request of
`4` for round 3 (certificate for `W`, prepared in round 0) and those of `3`
and `2` for round 2 (certificates for `V`, prepared in round 1). -/
def splitCertificate : RoundChangeCertificateV2 :=
  ⟨[requestOf 4 3 (certificateOf 0 100), requestOf 3 2 (certificateOf 1 200),
    requestOf 2 2 (certificateOf 1 200)]⟩

/-- Round 2, first part: core 2 collects four round changes and moves to
round 2, whose proposer it is. -/
def round2RoundChanges : List NetEvent :=
  [deliver 2 (roundChangeOf 4 3 (certificateOf 0 100) blockW)] ++
  ([1, 2, 3].map fun a => deliver 2 (roundChangeOf a 2 (certificateOf 1 200) blockV))

/-- Round 2: `W` is proposed again on the strength of core 3's old
certificate, and core 1 commits it. -/
def round2 : List NetEvent :=
  round2RoundChanges ++
  ([0, 1, 2].map fun i => deliver i (.preprepareV2 3 3 ⟨⟨1, 2⟩, blockW, splitCertificate⟩)) ++
  ([0, 1, 2].flatMap fun i => [1, 2, 3].map fun a => deliver i (prepareOf a 2 100)) ++
  ([1, 2, 3].map fun a => deliver 1 (commitOf a 2 100))

/-- The whole run. -/
def splitCommitRun : List NetEvent := round0 ++ round1 ++ round2

theorem splitCommitRun_committed :
    (Run.run (Network.step roundRobinConfig) initialNetwork splitCommitRun).cores.map
      (·.committed) = [[blockV], [blockW], [], []] := by
  decide +kernel

theorem agreement_fails_without_faults :
    ∃ n, Network.Reachable roundRobinConfig initialNetwork n ∧ ¬ Network.Agreement n := by
  refine ⟨_, ⟨splitCommitRun, rfl⟩, ?_⟩
  intro hagree
  have hc := splitCommitRun_committed
  -- the two cores whose committed lists are `[V]` and `[W]`
  obtain ⟨c, hc_mem, hcV⟩ : ∃ c ∈ (Run.run (Network.step roundRobinConfig) initialNetwork
      splitCommitRun).cores, c.committed = [blockV] := by
    rw [← List.mem_map, hc]; simp
  obtain ⟨c', hc'_mem, hc'W⟩ : ∃ c' ∈ (Run.run (Network.step roundRobinConfig) initialNetwork
      splitCommitRun).cores, c'.committed = [blockW] := by
    rw [← List.mem_map, hc]; simp
  have := hagree c hc_mem c' hc'_mem blockV (by simp [hcV]) blockW (by simp [hc'W]) rfl
  simp [blockV, blockW] at this

/-- The certificate of the run: the check of a PREPREPARE for round 2
accepts it for `W`, although the certificates for `V` were prepared in a
later round than the one for `W`; and core 2, after the four round changes,
chooses `W` to propose. -/
theorem rcc_check_accepts_lower_prepared_round :
    (Core.handleRoundChangeCertificateV2 roundRobinConfig genesisBackend (initialCore 2)
        ⟨1, 2⟩ splitCertificate blockW).2 = none ∧
      ¬ splitCertificate.ProposesHighestPrepared blockW.hash ∧
      ((Run.run (Network.step roundRobinConfig) initialNetwork
          (round0 ++ round1 ++ round2RoundChanges)).cores[2]?).map
        (fun c => c.getPreprepareWithRoundChangeCertificateV2 2) =
        some (.ok (some blockW, splitCertificate)) := by
  refine ⟨?_, ?_, ?_⟩ <;> decide +kernel

end SplitCommit

end CeloBlockchain.Ibft
