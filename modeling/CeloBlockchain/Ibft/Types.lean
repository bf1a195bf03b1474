import Mathlib

/-!
# IBFT data: views, proposals, messages, validator sets

The values the Istanbul core exchanges and keeps, after
`consensus/istanbul/types.go`, `types_v2.go`, `validator/default.go`,
`validator/selectors.go` and the core states of `core/types.go`.

Addresses and hashes are `Nat`.  A signature is modelled by the address of the
key that produced it (`signer`): `CheckSignedBy` recovers that address and
compares it with the claimed one.  Unforgeability is then a statement about
who may create a value with a given `signer`, made where the network is.
BLS seal checks call into the external BLS library and are oracles of the
backend (`Ibft.Core`).

Go maps become `AList`s.  Go randomises map iteration; a model function that
iterates a map uses the `AList`'s order, one of the orders Go may produce.
-/

namespace CeloBlockchain.Ibft

abbrev Address := Nat
abbrev Hash := Nat

/-- `uint64(x)` of a non-negative `*big.Int`: the low 64 bits. -/
def uint64 (x : Nat) : Nat := x % 2 ^ 64

/-- `x.Uint64() - 1` in `uint64` arithmetic: wraps below zero. -/
def uint64Pred (x : Nat) : Nat := uint64 (uint64 x + (2 ^ 64 - 1))

/-! ## Views and states -/

/-- `istanbul.View`: a sequence (block number) and a round. -/
structure View where
  sequence : Nat
  round : Nat
deriving DecidableEq, Repr

/-- `View.Cmp`: sequences first, then rounds. -/
def View.cmp (v y : View) : Ordering :=
  match compare v.sequence y.sequence with
  | .eq => compare v.round y.round
  | o => o

theorem View.cmp_eq_iff (v y : View) : v.cmp y = .eq ↔ v = y := by
  obtain ⟨s, r⟩ := v
  obtain ⟨s', r'⟩ := y
  unfold View.cmp
  rcases Nat.lt_trichotomy s s' with h | rfl | h
  · simp [compare_lt_iff_lt.mpr h, Nat.ne_of_lt h]
  · simp
  · simp [compare_gt_iff_gt.mpr h, Nat.ne_of_gt h]

/-- Views in the order `View.Cmp` compares them: lexicographically. -/
instance : LinearOrder View :=
  LinearOrder.lift' (fun v => toLex (v.sequence, v.round)) (by
    rintro ⟨s, r⟩ ⟨s', r'⟩ h
    simp only [toLex_inj, Prod.mk.injEq] at h
    rw [h.1, h.2])

theorem View.le_iff (v w : View) :
    v ≤ w ↔ v.sequence < w.sequence ∨ v.sequence = w.sequence ∧ v.round ≤ w.round :=
  Prod.Lex.toLex_le_toLex

theorem View.lt_iff (v w : View) :
    v < w ↔ v.sequence < w.sequence ∨ v.sequence = w.sequence ∧ v.round < w.round :=
  Prod.Lex.toLex_lt_toLex

/-- The IBFT core states; `Cmp` compares their `iota` numbers. -/
inductive State
  | acceptRequest
  | preprepared
  | prepared
  | committed
  | waitingForNewRound
deriving DecidableEq, Repr

def State.toNat : State → Nat
  | .acceptRequest => 0
  | .preprepared => 1
  | .prepared => 2
  | .committed => 3
  | .waitingForNewRound => 4

/-- `State.Cmp`: the order of the underlying `uint64`s, so that
`waitingForNewRound` is above `committed`. -/
def State.cmp (s y : State) : Ordering := compare s.toNat y.toNat

/-! ## Proposals and messages -/

/-- What the core reads of an `istanbul.Proposal` (a block): `Number()` and
`Hash()`. -/
structure Proposal where
  number : Nat
  hash : Hash
deriving DecidableEq, Repr

/-- `istanbul.Subject`: the view and the digest a PREPARE or COMMIT votes for. -/
structure Subject where
  view : View
  digest : Hash
deriving DecidableEq, Repr

/-- The message codes of `istanbul` (`MsgPreprepareV2` .. `MsgRoundChangeV2`). -/
inductive MsgCode
  | preprepareV2
  | prepare
  | commit
  | roundChangeV2
deriving DecidableEq, Repr

/-- A PREPARE or COMMIT `istanbul.Message` with its decoded subject.  For a
COMMIT the two BLS seals of its `CommittedSubject` are kept; a prepared
certificate may carry messages of any code, which its check rejects. -/
structure Vote where
  code : MsgCode
  address : Address
  signer : Address
  subject : Subject
  committedSeal : Nat
  epochValidatorSetSeal : Nat
deriving DecidableEq, Repr

/-- `istanbul.PreparedCertificateV2`. -/
structure PreparedCertificateV2 where
  proposalHash : Hash
  prepareOrCommitMessages : List Vote
deriving DecidableEq, Repr

/-- `IsEmpty`: no messages. -/
def PreparedCertificateV2.isEmpty (pc : PreparedCertificateV2) : Bool :=
  pc.prepareOrCommitMessages.isEmpty

/-- `PCRound`: the round of the view of the certificate's first message. -/
def PreparedCertificateV2.preparedRound (pc : PreparedCertificateV2) : Nat :=
  match pc.prepareOrCommitMessages with
  | [] => 0
  | m :: _ => m.subject.view.round

/-- `istanbul.PreparedCertificate` (V1, held in the round state). -/
structure PreparedCertificate where
  proposal : Proposal
  prepareOrCommitMessages : List Vote
deriving DecidableEq, Repr

def PreparedCertificate.isEmpty (pc : PreparedCertificate) : Bool :=
  pc.prepareOrCommitMessages.isEmpty

/-- `PCV2FromPCV1`. -/
def pcv2FromPCV1 (pc : PreparedCertificate) : PreparedCertificateV2 :=
  { proposalHash := pc.proposal.hash, prepareOrCommitMessages := pc.prepareOrCommitMessages }

/-- `istanbul.RoundChangeRequest`, signed by `signer`. -/
structure RoundChangeRequest where
  address : Address
  view : View
  preparedCertificateV2 : PreparedCertificateV2
  signer : Address
deriving DecidableEq, Repr

def RoundChangeRequest.hasPreparedCertificate (r : RoundChangeRequest) : Bool :=
  !r.preparedCertificateV2.isEmpty

/-- `istanbul.RoundChangeV2`: a request and the proposal its certificate is for. -/
structure RoundChangeV2 where
  request : RoundChangeRequest
  preparedProposal : Proposal
deriving DecidableEq, Repr

/-- `ProposalMatch`. -/
def RoundChangeV2.proposalMatch (rc : RoundChangeV2) : Bool :=
  rc.preparedProposal.hash == rc.request.preparedCertificateV2.proposalHash

/-- `istanbul.RoundChangeCertificateV2`. -/
structure RoundChangeCertificateV2 where
  requests : List RoundChangeRequest
deriving DecidableEq, Repr

def RoundChangeCertificateV2.isEmpty (rcc : RoundChangeCertificateV2) : Bool :=
  rcc.requests.isEmpty

namespace RoundChangeCertificateV2

/-- `HighestRoundWithPreparedCertificate`: the largest request round
(`View.Round`) among the requests that carry a prepared certificate. -/
def highestRoundWithPreparedCertificate (rcc : RoundChangeCertificateV2) : Option Nat :=
  rcc.requests.foldl (fun maxRound req =>
    if !req.hasPreparedCertificate then maxRound
    else match maxRound with
      | none => some req.view.round
      | some m => if req.view.round > m then some req.view.round else maxRound) none

/-- `getAnyPreparedCertificateForRound`: the first certificate carried by a
request of that round. -/
def getAnyPreparedCertificateForRound (rcc : RoundChangeCertificateV2) (round : Nat) :
    Option PreparedCertificateV2 :=
  (rcc.requests.find? fun req => req.view.round == round && req.hasPreparedCertificate).map
    (·.preparedCertificateV2)

/-- `AnyHighestPreparedCertificate`. -/
def anyHighestPreparedCertificate (rcc : RoundChangeCertificateV2) :
    Option PreparedCertificateV2 :=
  rcc.highestRoundWithPreparedCertificate.bind rcc.getAnyPreparedCertificateForRound

/-- `GetPreparedCertificateFor`: the first certificate for `proposalHash`
carried by a request of that round. -/
def getPreparedCertificateFor (rcc : RoundChangeCertificateV2) (round : Nat)
    (proposalHash : Hash) : Option PreparedCertificateV2 :=
  (rcc.requests.find? fun req => req.view.round == round && req.hasPreparedCertificate &&
    req.preparedCertificateV2.proposalHash == proposalHash).map (·.preparedCertificateV2)

/-! ### The specification's choice of proposal

`validRCC` of `celo-ibft-spec.md` orders prepared certificates by their
prepared round (`PCRound`), the round their messages vote for, which is the
view `verifyPCV2WithProposal` returns: that of the first message. -/

/-- The prepared certificates carried by the requests. -/
def preparedCertificates (rcc : RoundChangeCertificateV2) : List PreparedCertificateV2 :=
  (rcc.requests.filter (·.hasPreparedCertificate)).map (·.preparedCertificateV2)

/-- The condition `validRCC` puts on the proposal's hash `h`: when some
request carries a prepared certificate, one of them is for `h` and has a
prepared round at least that of every other. -/
def ProposesHighestPrepared (rcc : RoundChangeCertificateV2) (h : Hash) : Prop :=
  rcc.preparedCertificates ≠ [] →
    ∃ pc ∈ rcc.preparedCertificates, pc.proposalHash = h ∧
      ∀ pc' ∈ rcc.preparedCertificates, pc'.preparedRound ≤ pc.preparedRound

instance (rcc : RoundChangeCertificateV2) (h : Hash) : Decidable (rcc.ProposesHighestPrepared h) :=
  inferInstanceAs (Decidable (_ → _))

end RoundChangeCertificateV2

/-- `istanbul.PreprepareV2`. -/
structure PreprepareV2 where
  view : View
  proposal : Proposal
  roundChangeCertificateV2 : RoundChangeCertificateV2
deriving DecidableEq, Repr

/-- An `istanbul.Message` with its payload decoded according to its code. -/
inductive Message
  | vote (v : Vote)
  | preprepareV2 (address signer : Address) (pp : PreprepareV2)
  | roundChangeV2 (address signer : Address) (rc : RoundChangeV2)
deriving DecidableEq, Repr

def Message.address : Message → Address
  | .vote v => v.address
  | .preprepareV2 a _ _ => a
  | .roundChangeV2 a _ _ => a

def Message.signer : Message → Address
  | .vote v => v.signer
  | .preprepareV2 _ s _ => s
  | .roundChangeV2 _ s _ => s

/-- The error values of `core/errors.go` and `istanbul/errors.go` that the
modelled handlers return. -/
inductive Err
  | inconsistentSubject
  | notFromProposer
  | futureMessage
  | oldMessage
  | invalidMessage
  | invalidPreparedCertificateProposal
  | invalidPreparedCertificateNumMsgs
  | invalidPreparedCertificateMsgSignature
  | invalidPreparedCertificateDuplicate
  | invalidPreparedCertificateMsgCode
  | invalidPreparedCertificateMsgView
  | invalidPreparedCertificateDigestMismatch
  | invalidRoundChangeViewMismatch
  | invalidRoundChangeRequestSignature
  | roundChangeRequestAddressMismatch
  | invalidPreparedCertificateInconsistentViews
  | roundChangeProposalHashMismatch
  | invalidRoundChangeCertificateNumMsgs
  | invalidRoundChangeCertificateMsgSignature
  | invalidRoundChangeCertificateDuplicate
  | invalidRoundChangeCertificateMsgView
  | invalidCommittedSeal
  | invalidEpochValidatorSetSeal
  | missingRoundChangeCertificate
  | failedCreateRoundChangeCertificate
  | failedCreatePreparedCertificate
  | invalidProposal
  | invalidValidatorAddress
  | invalidState
  | unauthorizedAddress
  | invalidSigner
  /-- An error of the backend (`Verify`, `NextBlockValidators`, `Commit`). -/
  | backend
  /-- `log.Crit` or a nil dereference: the node stops. -/
  | crash
deriving DecidableEq, Repr

/-! ## Validator sets -/

/-- An `istanbul.Validator`: its address and BLS public key. -/
structure Validator where
  address : Address
  blsPublicKey : Nat
deriving DecidableEq, Repr

/-- `validator.defaultSet`: the validators in order and the shuffling seed. -/
structure ValidatorSet where
  list : List Validator
  randomness : Nat := 0
deriving DecidableEq, Repr

namespace ValidatorSet

def size (vs : ValidatorSet) : Nat := vs.list.length

/-- `F() = ceil(n / 3) - 1`, the faults tolerated (as an `int`, so `-1` when
empty). -/
def f (vs : ValidatorSet) : Int := ((vs.size + 2) / 3 : Nat) - 1

/-- `MinQuorumSize() = ceil(2n / 3)`. -/
def minQuorumSize (vs : ValidatorSet) : Nat := (2 * vs.size + 2) / 3

/-- `GetIndex`: the position of the address, `-1` when absent. -/
def getIndex (vs : ValidatorSet) (a : Address) : Int :=
  match vs.list.findIdx? (·.address == a) with
  | some i => i
  | none => -1

def containsByAddress (vs : ValidatorSet) (a : Address) : Bool :=
  vs.list.any (·.address == a)

/-- `GetByAddress`'s validator (`nil` when absent). -/
def getByAddress (vs : ValidatorSet) (a : Address) : Option Validator :=
  vs.list.find? (·.address == a)

end ValidatorSet

/-- `validator.proposerIndex`: the index of the previous proposer, `0` when
it is not in the set. -/
def proposerIndex (vs : ValidatorSet) (proposer : Address) : Nat :=
  match vs.list.findIdx? (·.address == proposer) with
  | some i => i
  | none => 0

/-- `validator.RoundRobinProposer`; the zero address stands for "no previous
proposer". -/
def roundRobinProposer (vs : ValidatorSet) (proposer : Address) (round : Nat) :
    Option Validator :=
  if vs.size = 0 then none
  else
    let idx := uint64 (round + (if proposer ≠ 0 then proposerIndex vs proposer + 1 else 0))
    vs.list[idx % vs.size]?

/-- `validator.StickyProposer`. -/
def stickyProposer (vs : ValidatorSet) (proposer : Address) (round : Nat) :
    Option Validator :=
  if vs.size = 0 then none
  else
    let idx := uint64 (round + (if proposer ≠ 0 then proposerIndex vs proposer else 0))
    vs.list[idx % vs.size]?

end CeloBlockchain.Ibft
