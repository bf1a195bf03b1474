import CeloBlockchain.Ibft.RoundChangeSet

/-!
# The IBFT core: message handlers and state transitions

The event handlers of `core` (`core.go`, `handler.go`, `preprepare_v2.go`,
`prepare.go`, `commit.go`, `roundchange_v2.go`, `request.go`,
`final_committed.go`).  Each handler takes the backend's answers for the
moment it runs (`Backend`) and returns the new core with the error it
reports; as in Go, a handler that fails half-way keeps what it changed.

Every message the core signs (`finalizeMessage`) is appended to `sent`, and
every proposal it hands to `backend.Commit` to `committed`.  Timers, the
backlog and the pending-request queue only post events later; they are not
state here, since a timeout or a re-delivered message may be any later event.
-/

namespace CeloBlockchain.Ibft

/-- What `backend.Verify` reports. -/
inductive VerifyResult
  | ok
  | futureBlock
  | invalid
deriving DecidableEq, Repr

/-- The answers of the core's backend (`CoreBackend`) and of the BLS library
at the moment an event is handled. -/
structure Backend where
  verify : Proposal → VerifyResult
  /-- `GetCurrentHeadBlockAndAuthor`. -/
  headBlock : Proposal
  headAuthor : Address
  authorForBlock : Nat → Address
  validators : Proposal → ValidatorSet
  parentBlockValidators : Proposal → ValidatorSet
  /-- `NextBlockValidators`; `none` is an error. -/
  nextBlockValidators : Proposal → Option ValidatorSet
  /-- `LastSubject`; `none` is an error. -/
  lastSubject : Option Subject
  hasBlock : Hash → Nat → Bool
  isPrimaryForSeq : Nat → Bool
  /-- `verifyCommittedSeal`: the BLS check of a COMMIT's seal against a key. -/
  verifyCommittedSeal : Vote → Validator → Bool
  /-- `verifyEpochValidatorSetSeal` for a block number above zero. -/
  verifyEpochValidatorSetSeal : Vote → Nat → ValidatorSet → Validator → Bool
  /-- The seals `broadcastCommit` signs for a subject; `none` when signing or
  the epoch data fails (the COMMIT is then not sent). -/
  commitSeals : Subject → Option (Nat × Nat)
  /-- Whether `GetAggregatedSeal` and `GetAggregatedEpochValidatorSetSeal`
  succeed. -/
  aggregateOk : Bool
  /-- Whether `backend.Commit` succeeds. -/
  commitOk : Proposal → Bool

/-- Node configuration: the proposer policy and the hash of the empty block
that empty prepared certificates name. -/
structure Config where
  selectProposer : ValidatorSet → Address → Nat → Option Validator
  emptyBlockHash : Hash

/-- `core`: its address, round state, round-change set, and the records of
what it sent and committed.  `subscribed` turns false when a replica stops
handling events (`unsubscribeEvents`). -/
structure Core where
  address : Address
  current : RoundState
  roundChangeSetV2 : RoundChangeSetV2
  subscribed : Bool
  sent : List Message
  committed : List Proposal

/-- A core started by `Start` from `newRoundState` (`createRoundState` when
no view is stored): nothing sent or committed yet. -/
def Core.new (address : Address) (view : View) (vs : ValidatorSet) (proposer : Validator)
    (emptyBlockHash : Hash) : Core :=
  ⟨address, RoundState.new view vs proposer emptyBlockHash, .new vs, true, [], []⟩

/-- The events `handleEvents` dispatches. -/
inductive Event
  | message (m : Message)
  | request (p : Proposal)
  | timeoutAndMoveToNextRound (v : View)
  | resendRoundChange (v : View)
  | finalCommitted

section Handlers

variable (cfg : Config) (b : Backend)

namespace Core

/-- Updates the round state. -/
def setCurrent (c : Core) (rs : RoundState) : Core := { c with current := rs }

/-- `broadcast` and `unicast`: the message is signed by the core and sent. -/
def send (c : Core) (m : Message) : Core := { c with sent := c.sent ++ [m] }

@[simp] theorem setCurrent_current (c : Core) (rs) : (c.setCurrent rs).current = rs := rfl
@[simp] theorem setCurrent_sent (c : Core) (rs) : (c.setCurrent rs).sent = c.sent := rfl
@[simp] theorem setCurrent_committed (c : Core) (rs) :
    (c.setCurrent rs).committed = c.committed := rfl
@[simp] theorem setCurrent_address (c : Core) (rs) : (c.setCurrent rs).address = c.address := rfl
@[simp] theorem send_current (c : Core) (m) : (c.send m).current = c.current := rfl
@[simp] theorem send_sent (c : Core) (m) : (c.send m).sent = c.sent ++ [m] := rfl
@[simp] theorem send_committed (c : Core) (m) : (c.send m).committed = c.committed := rfl
@[simp] theorem send_address (c : Core) (m) : (c.send m).address = c.address := rfl

/-- `isProposer`. -/
def isProposer (c : Core) : Bool := c.current.proposer.address == c.address

/-! ## Checks -/

/-- `checkMessage`: whether a message of `code` for `view` can be handled
now, is old, or belongs to the future.  The current round above the desired
round is a `panic` in the source. -/
def checkMessage (c : Core) (code : MsgCode) (view : View) : Option Err :=
  if view.sequence < c.current.sequence then some .oldMessage
  else if view.sequence > c.current.sequence then some .futureMessage
  else if c.current.round > c.current.desiredRound then some .crash
  else if view.round < c.current.desiredRound then some .oldMessage
  else if code = .roundChangeV2 then none
  else if (c.current.state = .waitingForNewRound ∨ c.current.state = .acceptRequest) ∧
      code ≠ .preprepareV2 then some .futureMessage
  else if view.round > c.current.desiredRound then some .futureMessage
  else none

/-- `CheckSignedBy` with `validateFn = checkValidatorSignature`: the signer
must be a validator of the current set and the claimed sender. -/
def checkSignedBy (c : Core) (signer claimed : Address) (wrong : Err) : Option Err :=
  if !c.current.validatorSet.containsByAddress signer then some .unauthorizedAddress
  else if signer ≠ claimed then some wrong
  else none

/-- `verifyProposal`: the cached verdict for the proposal's hash, or the
backend's, cached unless the block is in the future. -/
def verifyProposal (c : Core) (p : Proposal) : Core × VerifyResult :=
  match c.current.proposalVerificationStatus.lookup p.hash with
  | some true => (c, .ok)
  | some false => (c, .invalid)
  | none =>
    match b.verify p with
    | .ok => (c.setCurrent (c.current.setProposalVerificationStatus p.hash true), .ok)
    | .invalid => (c.setCurrent (c.current.setProposalVerificationStatus p.hash false), .invalid)
    | .futureBlock => (c, .futureBlock)

/-- `verifyEpochValidatorSetSeal`: nothing to check for block 0. -/
def verifyEpochValidatorSetSeal (v : Vote) (blockNumber : Nat) (newValSet : ValidatorSet)
    (src : Validator) : Bool :=
  blockNumber == 0 || b.verifyEpochValidatorSetSeal v blockNumber newValSet src

/-- `verifyProposalPrepareOrCommitMessage` (with
`verifySignedPrepareOrCommitMessage`): a message of a prepared certificate,
with the senders seen so far; returns the view it votes for. -/
def verifyProposalPrepareOrCommitMessage (c : Core) (p : Proposal) (m : Vote)
    (seen : List Address) : Except Err (View × List Address) :=
  match c.checkSignedBy m.signer m.address .invalidPreparedCertificateMsgSignature with
  | some e => .error e
  | none =>
    if m.address ∈ seen then .error .invalidPreparedCertificateDuplicate
    else if m.code ≠ .prepare ∧ m.code ≠ .commit then .error .invalidPreparedCertificateMsgCode
    else
      let commitChecks : Option Err :=
        if m.code = .commit then
          match c.current.validatorSet.getByAddress m.address with
          | none => some .crash
          | some src =>
            if !b.verifyCommittedSeal m src then some .invalidCommittedSeal
            else match b.nextBlockValidators p with
              | none => some .backend
              | some nv =>
                if !verifyEpochValidatorSetSeal b m (uint64 p.number) nv src then
                  some .invalidEpochValidatorSetSeal
                else none
        else none
      match commitChecks with
      | some e => .error e
      | none =>
        if m.subject.view.sequence ≠ c.current.sequence then
          .error .invalidPreparedCertificateMsgView
        else if m.subject.digest ≠ p.hash then .error .invalidPreparedCertificateDigestMismatch
        else .ok (m.subject.view, m.address :: seen)

/-- The loop of `verifyProposalAndPCMessages`: every message verifies, and
all vote for one view. -/
def verifyPCMessages (c : Core) (p : Proposal) :
    List Vote → List Address → Option View → Except Err (Option View)
  | [], _, view => .ok view
  | m :: ms, seen, view =>
    match verifyProposalPrepareOrCommitMessage b c p m seen with
    | .error e => .error e
    | .ok (mv, seen) =>
      match view with
      | none => verifyPCMessages c p ms seen (some mv)
      | some v => if v.cmp mv ≠ .eq then .error .invalidPreparedCertificateInconsistentViews
                  else verifyPCMessages c p ms seen view

/-- `verifyProposalAndPCMessages` (`verifyPCV2WithProposal`): the proposal
verifies, the certificate holds between `MinQuorumSize` and `Size` messages,
and they vote for one view, which is returned. -/
def verifyProposalAndPCMessages (c : Core) (p : Proposal) (msgs : List Vote) :
    Core × Except Err (Option View) :=
  let (c, vr) := verifyProposal b c p
  if vr ≠ .ok then (c, .error .invalidPreparedCertificateProposal)
  else if msgs.length > c.current.validatorSet.size ∨
      msgs.length < c.current.validatorSet.minQuorumSize then
    (c, .error .invalidPreparedCertificateNumMsgs)
  else (c, verifyPCMessages b c p msgs [] none)

/-- `getViewFromVerifiedPreparedCertificateMessages`: the view of the first
message of a certificate already verified. -/
def getViewFromVerifiedPreparedCertificateV2 (c : Core) (pc : PreparedCertificateV2) :
    Except Err View :=
  match pc.prepareOrCommitMessages with
  | [] => .error .invalidPreparedCertificateNumMsgs
  | m :: _ =>
    if pc.prepareOrCommitMessages.length < c.current.validatorSet.minQuorumSize then
      .error .invalidPreparedCertificateNumMsgs
    else .ok m.subject.view

/-! ## Sending -/

/-- `sendPreprepareV2`: only the proposer, only for the current sequence. -/
def sendPreprepareV2 (c : Core) (request : Proposal) (rcc : RoundChangeCertificateV2) : Core :=
  if c.current.sequence = request.number ∧ c.isProposer then
    c.send (.preprepareV2 c.address c.address ⟨c.current.view, request, rcc⟩)
  else c

/-- `sendPrepare`: a PREPARE for the current subject. -/
def sendPrepare (c : Core) : Core :=
  match c.current.subject with
  | some sub => c.send (.vote ⟨.prepare, c.address, c.address, sub, 0, 0⟩)
  | none => c

/-- `sendCommit` (`broadcastCommit`): a COMMIT for the current subject with
its seals, unless signing fails. -/
def sendCommit (c : Core) : Core :=
  match c.current.subject with
  | some sub =>
    match b.commitSeals sub with
    | some (committedSeal, epochSeal) =>
      c.send (.vote ⟨.commit, c.address, c.address, sub, committedSeal, epochSeal⟩)
    | none => c
  | none => c

/-- `buildSignedRoundChangeMsgV2(round)`: a ROUND CHANGE for `round` of the
current sequence, carrying the core's prepared certificate if it has one. -/
def buildSignedRoundChangeMsgV2 (c : Core) (round : Nat) : Message :=
  let pc := c.current.preparedCertificate
  let empty := emptyPreparedCertificate cfg.emptyBlockHash
  let (pcv2, proposal) :=
    if !pc.isEmpty then (pcv2FromPCV1 pc, pc.proposal) else (pcv2FromPCV1 empty, empty.proposal)
  .roundChangeV2 c.address c.address
    ⟨⟨c.address, ⟨c.current.sequence, round⟩, pcv2, c.address⟩, proposal⟩

/-- `sendRoundChange`: for the desired round. -/
def sendRoundChange (c : Core) : Core :=
  c.send (buildSignedRoundChangeMsgV2 cfg c c.current.desiredRound)

/-! ## Round and sequence changes -/

/-- `getPreprepareWithRoundChangeCertificateV2`: a certificate of
`MinQuorumSize` round changes for rounds `≥ round`, and the proposal to
send: the one of the certificate's `AnyHighestPreparedCertificate`, or the
pending request. -/
def getPreprepareWithRoundChangeCertificateV2 (c : Core) (round : Nat) :
    Except Err (Option Proposal × RoundChangeCertificateV2) :=
  match c.roundChangeSetV2.getCertificate round c.current.validatorSet.minQuorumSize with
  | .error e => .error e
  | .ok (rcc, proposals) =>
    if rcc.requests.any fun req =>
        req.hasPreparedCertificate &&
          (getViewFromVerifiedPreparedCertificateV2 c req.preparedCertificateV2).toBool == false then
      .error .invalidPreparedCertificateNumMsgs
    else
      match rcc.anyHighestPreparedCertificate with
      | none => .ok (c.current.pendingRequest, rcc)
      | some maxPC =>
        match proposals.find? (·.1 == maxPC.proposalHash) with
        | some (_, p) => .ok (some p, rcc)
        | none => .ok (c.current.pendingRequest, rcc)

/-- `startNewRound(round, propose)`: moves to a higher round; the proposer
of that round, when asked to propose, sends a PREPREPARE with a round-change
certificate. -/
def startNewRound (c : Core) (round : Nat) (propose : Bool) : Core × Option Err :=
  if round ≤ c.current.round then (c, none)
  else
    let valSet := c.current.validatorSet
    let blockAuthor := b.authorForBlock (uint64Pred c.current.sequence)
    match cfg.selectProposer valSet blockAuthor (uint64 round) with
    | none => (c, some .crash)
    | some nextProposer =>
      let prepared :=
        if c.address = nextProposer.address ∧ propose then
          getPreprepareWithRoundChangeCertificateV2 c round
        else .ok (none, ⟨[]⟩)
      match prepared with
      | .error _ => (c, none)
      | .ok (request, rcc) =>
        let c := c.setCurrent (c.current.startNewRound round valSet nextProposer)
        match request with
        | some r => if c.isProposer then (sendPreprepareV2 c r rcc, none) else (c, none)
        | none => (c, none)

/-- `waitForDesiredRound(r)`: raises the desired round to `r` and sends a
ROUND CHANGE for it. -/
def waitForDesiredRound (c : Core) (r : Nat) : Core × Option Err :=
  if c.current.desiredRound ≥ r then (c, none)
  else
    match cfg.selectProposer c.current.validatorSet b.headAuthor (uint64 r) with
    | none =>
      -- `TransitionToWaitingForNewRound` checks the round before the proposer
      if c.current.round > r then (c, some .invalidState) else (c, some .crash)
    | some nextProposer =>
      match c.current.transitionToWaitingForNewRound r nextProposer with
      | .error e => (c, some e)
      | .ok rs => (sendRoundChange cfg (c.setCurrent rs), none)

/-- `commit`: the COMMIT quorum is reached; the proposal is handed to
`backend.Commit`, and on any failure the core waits for the next round. -/
def commit (c : Core) : Core × Option Err :=
  let c := c.setCurrent c.current.transitionToCommitted
  match c.current.proposal with
  | none => (c, none)
  | some p =>
    -- on a failure the error of `waitForDesiredRound` is dropped
    if !b.aggregateOk then ((waitForDesiredRound cfg b c (c.current.round + 1)).1, none)
    else
      let c := { c with committed := c.committed ++ [p] }
      if !b.commitOk p then ((waitForDesiredRound cfg b c (c.current.round + 1)).1, none)
      else (c, none)

/-- `startNewSequence`: after a block was committed, moves to the sequence
after the head block, or stops handling events on a replica. -/
def startNewSequence (c : Core) : Core × Option Err :=
  let head := b.headBlock
  if head.number < c.current.sequence then (c, none)
  else
    let seq := head.number + 1
    let valSet := b.validators head
    let c := { c with roundChangeSetV2 := .new valSet }
    if !b.isPrimaryForSeq seq then ({ c with subscribed := false }, none)
    else
      match cfg.selectProposer valSet b.headAuthor 0 with
      | none => (c, some .crash)
      | some nextProposer =>
        -- `resetRoundState`: the commits of the round that produced the head
        -- block become the parent commits
        let parentCommits :=
          match b.lastSubject, c.current.proposal with
          | some ls, some p =>
            if p.hash = ls.digest ∧ c.current.round = ls.view.round then c.current.commits
            else .empty (b.parentBlockValidators head)
          | _, _ => .empty (b.parentBlockValidators head)
        (c.setCurrent (c.current.startNewSequence seq valSet nextProposer parentCommits
          cfg.emptyBlockHash), none)

/-! ## Handlers -/

/-- `handleRoundChangeCertificateV2`: the certificate of a PREPREPARE for
`view`; if accepted the core moves to `view.round`. -/
def handleRoundChangeCertificateV2 (c : Core) (view : View) (rcc : RoundChangeCertificateV2)
    (p : Proposal) : Core × Option Err :=
  let vs := c.current.validatorSet
  if rcc.requests.length > vs.size ∨ rcc.requests.length < vs.minQuorumSize then
    (c, some .invalidRoundChangeCertificateNumMsgs)
  else
    match checkRequests c rcc.requests [] with
    | some e => (c, some e)
    | none =>
      match rcc.highestRoundWithPreparedCertificate with
      | none => startNewRound cfg b c view.round false
      | some maxRound =>
        match rcc.getPreparedCertificateFor maxRound p.hash with
        | none => (c, some .invalidPreparedCertificateDigestMismatch)
        | some pc =>
          match verifyProposalAndPCMessages b c p pc.prepareOrCommitMessages with
          | (c, .error e) => (c, some e)
          | (c, .ok none) => (c, some .invalidRoundChangeViewMismatch)
          | (c, .ok (some preparedView)) =>
            if preparedView.round > view.round then (c, some .invalidRoundChangeViewMismatch)
            else startNewRound cfg b c view.round false
where
  /-- Each request is signed by its sender, senders are distinct, and each is
  for this sequence and a round at least the certificate's. -/
  checkRequests (c : Core) : List RoundChangeRequest → List Address → Option Err
    | [], _ => none
    | req :: reqs, seen =>
      match c.checkSignedBy req.signer req.address .invalidRoundChangeCertificateMsgSignature with
      | some e => some e
      | none =>
        if req.address ∈ seen then some .invalidRoundChangeCertificateDuplicate
        else if req.view.sequence ≠ view.sequence ∨ req.view.round < view.round then
          some .invalidRoundChangeCertificateMsgView
        else checkRequests c reqs (req.address :: seen)

/-- `handlePreprepareV2`. -/
def handlePreprepareV2 (c : Core) (sender : Address) (pp : PreprepareV2) : Core × Option Err :=
  if pp.view.sequence ≠ pp.proposal.number then (c, some .invalidProposal)
  else
    match c.checkMessage .preprepareV2 pp.view with
    | some .oldMessage =>
      -- an old PREPREPARE of a block already held is answered by nothing
      let valSet := b.parentBlockValidators pp.proposal
      let prevAuthor := b.authorForBlock (uint64Pred pp.proposal.number)
      match cfg.selectProposer valSet prevAuthor (uint64 pp.view.round) with
      | none => (c, some .crash)
      | some proposer =>
        if proposer.address = sender ∧ b.hasBlock pp.proposal.hash pp.proposal.number then
          (c, none)
        else (c, some .oldMessage)
    | some e => (c, some e)
    | none =>
      match cfg.selectProposer c.current.validatorSet b.headAuthor (uint64 pp.view.round) with
      | none => (c, some .crash)
      | some proposerForMsgRound =>
        if proposerForMsgRound.address ≠ sender then (c, some .notFromProposer)
        else
          let checked : Core × Option Err :=
            if pp.view.round > 0 then
              if pp.roundChangeCertificateV2.isEmpty then (c, some .missingRoundChangeCertificate)
              else handleRoundChangeCertificateV2 cfg b c pp.view pp.roundChangeCertificateV2
                pp.proposal
            else if !pp.roundChangeCertificateV2.isEmpty then (c, some .invalidProposal)
            else (c, none)
          match checked with
          | (c, some e) => (c, some e)
          | (c, none) =>
            match verifyProposal b c pp.proposal with
            | (c, .ok) =>
              if c.current.state = .acceptRequest then
                (sendPrepare (c.setCurrent (c.current.transitionToPrepreparedV2 pp)), none)
              else (c, none)
            | (c, _) => (c, some .backend)

/-- `handlePrepare`: a PREPARE for the current subject is recorded; at a
quorum of PREPAREs or COMMITs the core prepares and sends its COMMIT. -/
def handlePrepare (c : Core) (v : Vote) : Core × Option Err :=
  match c.checkMessage .prepare v.subject.view with
  | some e => (c, some e)
  | none =>
    if some v.subject ≠ c.current.subject then (c, some .inconsistentSubject)
    else
      match c.current.addPrepare v with
      | .error e => (c, some e)
      | .ok rs =>
        let c := c.setCurrent rs
        let q := c.current.validatorSet.minQuorumSize
        if c.current.getPrepareOrCommitSize ≥ q ∧ c.current.state.cmp .prepared = .lt then
          match c.current.transitionToPrepared q with
          | .error e => (c, some e)
          | .ok rs => (sendCommit b (c.setCurrent rs), none)
        else (c, none)

/-- `handleCheckedCommitForPreviousSequence`: a COMMIT for the head block
becomes a parent commit. -/
def handleCheckedCommitForPreviousSequence (c : Core) (v : Vote) : Core × Option Err :=
  let head := b.headBlock
  match (b.parentBlockValidators head).getByAddress v.address with
  | none => (c, some .invalidValidatorAddress)
  | some validator =>
    if !b.verifyCommittedSeal v validator then (c, some .invalidCommittedSeal)
    else if uint64 head.number > 0 ∧
        !b.verifyEpochValidatorSetSeal v (uint64 head.number) c.current.validatorSet validator then
      (c, some .invalidEpochValidatorSetSeal)
    else if uint64 head.number > 0 ∧ v.subject.digest ≠ head.hash then
      (c, some .inconsistentSubject)
    else
      match c.current.addParentCommit v with
      | .error e => (c, some e)
      | .ok rs => (c.setCurrent rs, none)

/-- `handleCheckedCommitForCurrentSequence`: a COMMIT for the current
subject is recorded; a quorum of COMMITs commits, a quorum of PREPAREs or
COMMITs prepares. -/
def handleCheckedCommitForCurrentSequence (c : Core) (v : Vote) : Core × Option Err :=
  match c.current.validatorSet.getByAddress v.address with
  | none => (c, some .invalidValidatorAddress)
  | some validator =>
    if !b.verifyCommittedSeal v validator then (c, some .invalidCommittedSeal)
    else
      match c.current.proposal with
      | none => (c, some .crash)
      | some p =>
        match b.nextBlockValidators p with
        | none => (c, some .backend)
        | some nv =>
          if !verifyEpochValidatorSetSeal b v (uint64 p.number) nv validator then
            (c, some .invalidEpochValidatorSetSeal)
          else if some v.subject ≠ c.current.subject then (c, some .inconsistentSubject)
          else
            match c.current.addCommit v with
            | .error e => (c, some e)
            | .ok rs =>
              let c := c.setCurrent rs
              let q := c.current.validatorSet.minQuorumSize
              if c.current.commits.size ≥ q ∧ c.current.state.cmp .committed = .lt then
                commit cfg b c
              else if c.current.getPrepareOrCommitSize ≥ q ∧
                  c.current.state.cmp .prepared = .lt then
                match c.current.transitionToPrepared q with
                | .error e => (c, some e)
                | .ok rs => (sendCommit b (c.setCurrent rs), none)
              else (c, none)

/-- `handleCommit`. -/
def handleCommit (c : Core) (v : Vote) : Core × Option Err :=
  match c.checkMessage .commit v.subject.view with
  | some .oldMessage =>
    match b.lastSubject with
    | none => (c, some .backend)
    | some ls =>
      if v.subject.view.cmp ls.view ≠ .eq then (c, some .oldMessage)
      else if ls.view.sequence = 0 then (c, some .oldMessage)
      else handleCheckedCommitForPreviousSequence b c v
  | some e => (c, some e)
  | none => handleCheckedCommitForCurrentSequence cfg b c v

/-- `handleRoundChangeV2`: a valid ROUND CHANGE is recorded; a quorum on one
round at or above the desired round starts that round, `F + 1` messages at
or above a round make it the desired round. -/
def handleRoundChangeV2 (c : Core) (sender : Address) (rc : RoundChangeV2) :
    Core × Option Err :=
  match c.checkSignedBy rc.request.signer rc.request.address .invalidRoundChangeRequestSignature with
  | some e => (c, some e)
  | none =>
    if sender ≠ rc.request.address then (c, some .roundChangeRequestAddressMismatch)
    else
      match c.checkMessage .roundChangeV2 rc.request.view with
      | some .oldMessage =>
        if rc.request.view.sequence = c.current.sequence then
          -- `sendRoundChangeAgain`: the sender is behind; answer it
          (c.send (buildSignedRoundChangeMsgV2 cfg c c.current.desiredRound), none)
        else (c, some .oldMessage)
      | some e => (c, some e)
      | none =>
        if !rc.proposalMatch then (c, some .roundChangeProposalHashMismatch)
        else
          let checked : Core × Option Err :=
            if rc.request.hasPreparedCertificate then
              match verifyProposalAndPCMessages b c rc.preparedProposal
                  rc.request.preparedCertificateV2.prepareOrCommitMessages with
              | (c, .error e) => (c, some e)
              | (c, .ok none) => (c, some .invalidRoundChangeViewMismatch)
              | (c, .ok (some pv)) =>
                if pv.round > rc.request.view.round then (c, some .invalidRoundChangeViewMismatch)
                else (c, none)
            else (c, none)
          match checked with
          | (c, some e) => (c, some e)
          | (c, none) =>
            match c.roundChangeSetV2.add rc.request.view.round sender rc with
            | (rcs, some e) => ({ c with roundChangeSetV2 := rcs }, some e)
            | (rcs, none) =>
              let c := { c with roundChangeSetV2 := rcs }
              let vs := c.current.validatorSet
              let ffRound := c.roundChangeSetV2.maxRound (vs.f + 1)
              let quorumRound := c.roundChangeSetV2.maxOnOneRound vs.minQuorumSize
              match quorumRound with
              | some qr =>
                if qr ≥ c.current.desiredRound then startNewRound cfg b c qr true
                else match ffRound with
                  | some fr => ((waitForDesiredRound cfg b c fr).1, none)
                  | none => (c, none)
              | none =>
                match ffRound with
                | some fr => ((waitForDesiredRound cfg b c fr).1, none)
                | none => (c, none)

/-- `handleMsg`: `FromPayload` checks the signer, which must be a validator;
then `handleCheckedMsg` dispatches on the code. -/
def handleMsg (c : Core) (m : Message) : Core × Option Err :=
  match c.checkSignedBy m.signer m.address .invalidSigner with
  | some e => (c, some e)
  | none =>
    match m with
    | .preprepareV2 a _ pp => handlePreprepareV2 cfg b c a pp
    | .vote v =>
      match v.code with
      | .prepare => handlePrepare b c v
      | .commit => handleCommit cfg b c v
      | _ => (c, some .invalidMessage)
    | .roundChangeV2 a _ rc => handleRoundChangeV2 cfg b c a rc

/-- `handleRequest`: a proposal for the current sequence becomes the pending
request; in round 0 the proposer sends its PREPREPARE. -/
def handleRequest (c : Core) (p : Proposal) : Core × Option Err :=
  if c.current.sequence > p.number then (c, some .oldMessage)
  else if c.current.sequence < p.number then (c, some .futureMessage)
  else
    let c := c.setCurrent (c.current.setPendingRequest (some p))
    if c.current.state = .acceptRequest ∧ c.current.round = 0 then
      (sendPreprepareV2 c p ⟨[]⟩, none)
    else (c, none)

/-- `handleTimeoutAndMoveToNextRound`: a timeout of the current view raises
the desired round by one. -/
def handleTimeoutAndMoveToNextRound (c : Core) (v : View) : Core × Option Err :=
  if c.current.sequence ≠ v.sequence ∨ c.current.desiredRound ≠ v.round then (c, none)
  else waitForDesiredRound cfg b c (v.round + 1)

/-- `handleResendRoundChangeEvent`: resends the ROUND CHANGE while waiting. -/
def handleResendRoundChangeEvent (c : Core) (v : View) : Core × Option Err :=
  if c.current.sequence ≠ v.sequence ∨ c.current.desiredRound ≠ v.round then (c, none)
  else if c.current.state = .waitingForNewRound then (sendRoundChange cfg c, none)
  else (c, none)

/-- One turn of `handleEvents`. -/
def handleEvent (c : Core) : Event → Core
  | .message m => if c.subscribed then (handleMsg cfg b c m).1 else c
  | .request p => if c.subscribed then (handleRequest c p).1 else c
  | .timeoutAndMoveToNextRound v =>
    if c.subscribed then (handleTimeoutAndMoveToNextRound cfg b c v).1 else c
  | .resendRoundChange v => if c.subscribed then (handleResendRoundChangeEvent cfg c v).1 else c
  | .finalCommitted => if c.subscribed then (startNewSequence cfg b c).1 else c

/-- One event handled with the backend's answers of that moment: the step
of a single core. -/
def step (c : Core) (be : Backend × Event) : Core := c.handleEvent cfg be.1 be.2

end Core

end Handlers

end CeloBlockchain.Ibft
