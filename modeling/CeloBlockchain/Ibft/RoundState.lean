import CeloBlockchain.Ibft.Types

/-!
# Message sets and the round state

`messageSetImpl` (`core/message_set.go`) and `roundStateImpl`
(`core/roundstate.go`).  The round state's mutators are pure functions
here; the ones that cannot fail return the new state, the others an
`Except Err`.  Locks, loggers and gauges have no counterpart.
-/

namespace CeloBlockchain.Ibft

/-! ## Message sets -/

/-- `messageSetImpl`: at most one message per sender, senders drawn from a
validator set. -/
structure MessageSet (α : Type) where
  valSet : ValidatorSet
  messages : AList (fun _ : Address => α)

namespace MessageSet

variable {α : Type}

/-- `newMessageSet`. -/
def empty (vs : ValidatorSet) : MessageSet α := ⟨vs, ∅⟩

/-- `Add`: a sender outside the validator set is refused, otherwise its
message is stored (replacing an earlier one). -/
def add (ms : MessageSet α) (sender : Address) (m : α) : Except Err (MessageSet α) :=
  if ms.valSet.containsByAddress sender then .ok ⟨ms.valSet, ms.messages.insert sender m⟩
  else .error .unauthorizedAddress

/-- `Remove`. -/
def remove (ms : MessageSet α) (sender : Address) : MessageSet α :=
  ⟨ms.valSet, ms.messages.erase sender⟩

/-- `Get`. -/
def get (ms : MessageSet α) (sender : Address) : Option α := ms.messages.lookup sender

/-- `Values`, in the map's iteration order. -/
def values (ms : MessageSet α) : List α := ms.messages.entries.map (·.2)

/-- `Addresses`. -/
def addresses (ms : MessageSet α) : List Address := ms.messages.keys

/-- `Size`. -/
def size (ms : MessageSet α) : Nat := ms.messages.keys.length

/-- `AddAll`: adds, in order, the messages of validators that have none yet;
returns the set and how many were added. -/
def addAll (ms : MessageSet α) : List (Address × α) → MessageSet α × Nat
  | [] => (ms, 0)
  | (a, m) :: rest =>
    if ms.valSet.containsByAddress a && (ms.messages.lookup a).isNone then
      let r := addAll ⟨ms.valSet, ms.messages.insert a m⟩ rest
      (r.1, r.2 + 1)
    else addAll ms rest

@[simp] theorem values_empty (vs : ValidatorSet) : (empty vs : MessageSet α).values = [] := rfl

@[simp] theorem size_empty (vs : ValidatorSet) : (empty vs : MessageSet α).size = 0 := rfl

@[simp] theorem get_empty (vs : ValidatorSet) (a : Address) :
    (empty vs : MessageSet α).get a = none := rfl

@[simp] theorem valSet_empty (vs : ValidatorSet) : (empty vs : MessageSet α).valSet = vs := rfl

theorem add_ok_iff (ms ms' : MessageSet α) (a : Address) (m : α) :
    ms.add a m = .ok ms' ↔
      ms.valSet.containsByAddress a ∧ ms' = ⟨ms.valSet, ms.messages.insert a m⟩ := by
  unfold add
  by_cases h : ms.valSet.containsByAddress a = true
  · simp only [h, if_true, Except.ok.injEq, true_and]
    exact eq_comm
  · simp [h]

theorem mem_values_iff (ms : MessageSet α) (m : α) :
    m ∈ ms.values ↔ ∃ a, ms.get a = some m := by
  unfold values get
  rw [List.mem_map]
  constructor
  · rintro ⟨⟨a, b⟩, h, rfl⟩
    exact ⟨a, AList.mem_lookup_iff.mpr h⟩
  · rintro ⟨a, h⟩
    exact ⟨⟨a, m⟩, AList.mem_lookup_iff.mp h, rfl⟩

theorem mem_remove {ms : MessageSet α} {a src : Address} :
    a ∈ (ms.remove src).messages ↔ a ≠ src ∧ a ∈ ms.messages :=
  AList.mem_erase

theorem get_remove_of_ne {ms : MessageSet α} {a src : Address} (h : a ≠ src) :
    (ms.remove src).get a = ms.get a :=
  AList.lookup_erase_ne h

theorem mem_iff_get {ms : MessageSet α} {a : Address} : a ∈ ms.messages ↔ ∃ m, ms.get a = some m :=
  AList.lookup_isSome.symm.trans Option.isSome_iff_exists

/-- When every message names its sender, the senders of the values are the
set's addresses. -/
theorem values_map_eq_addresses {ms : MessageSet α} {f : α → Address}
    (h : ∀ a m, ms.get a = some m → f m = a) : ms.values.map f = ms.addresses := by
  unfold values addresses AList.keys List.keys
  rw [List.map_map]
  apply List.map_congr_left
  intro e he
  exact h e.1 e.2 (AList.mem_lookup_iff.mpr he)

theorem length_values (ms : MessageSet α) : ms.values.length = ms.size := by
  simp [values, size, AList.keys, List.keys]

end MessageSet

/-! ## The round state -/

/-- `roundStateImpl`.  The verification cache keeps, per proposal hash,
whether `Verify` succeeded; the state-process-result cache is not modelled
(only `backend.Commit` reads it). -/
structure RoundState where
  state : State
  round : Nat
  desiredRound : Nat
  sequence : Nat
  preprepareV2 : Option PreprepareV2
  prepares : MessageSet Vote
  commits : MessageSet Vote
  proposer : Validator
  validatorSet : ValidatorSet
  parentCommits : MessageSet Vote
  pendingRequest : Option Proposal
  preparedCertificate : PreparedCertificate
  proposalVerificationStatus : AList (fun _ : Hash => Bool)

/-- `EmptyPreparedCertificate`: no messages, for the empty block (number 0);
its hash is a parameter of the chain. -/
def emptyPreparedCertificate (emptyBlockHash : Hash) : PreparedCertificate :=
  { proposal := { number := 0, hash := emptyBlockHash }, prepareOrCommitMessages := [] }

namespace RoundState

/-- `newRoundState`. -/
def new (view : View) (vs : ValidatorSet) (proposer : Validator) (emptyBlockHash : Hash) :
    RoundState where
  state := .acceptRequest
  round := view.round
  desiredRound := view.round
  sequence := view.sequence
  preprepareV2 := none
  prepares := .empty vs
  commits := .empty vs
  proposer := proposer
  validatorSet := vs
  parentCommits := .empty vs
  pendingRequest := none
  preparedCertificate := emptyPreparedCertificate emptyBlockHash
  proposalVerificationStatus := ∅

/-- `View()`. -/
def view (rs : RoundState) : View := ⟨rs.sequence, rs.round⟩

/-- The sequence with the desired round. -/
def desiredView (rs : RoundState) : View := ⟨rs.sequence, rs.desiredRound⟩

/-- `Proposal()`: the preprepared proposal, if any. -/
def proposal (rs : RoundState) : Option Proposal := rs.preprepareV2.map (·.proposal)

/-- `Subject()`: the current view and the preprepared proposal's hash. -/
def subject (rs : RoundState) : Option Subject :=
  rs.preprepareV2.map fun pp => ⟨rs.view, pp.proposal.hash⟩

/-- `GetPrepareOrCommitSize`: the senders of prepares or commits, each once. -/
def getPrepareOrCommitSize (rs : RoundState) : Nat :=
  rs.prepares.size + rs.commits.size -
    (rs.prepares.values.filter fun m => (rs.commits.get m.address).isSome).length

/-- `changeRound`: a fresh round `nextRound`, desired round alike. -/
def changeRound (rs : RoundState) (nextRound : Nat) (vs : ValidatorSet)
    (nextProposer : Validator) : RoundState :=
  { rs with
    state := .acceptRequest
    round := nextRound
    desiredRound := nextRound
    prepares := .empty vs
    commits := .empty vs
    proposer := nextProposer
    preprepareV2 := none }

/-- `StartNewRound`. -/
def startNewRound (rs : RoundState) (nextRound : Nat) (vs : ValidatorSet)
    (nextProposer : Validator) : RoundState :=
  rs.changeRound nextRound vs nextProposer

/-- `StartNewSequence`: round 0 of `nextSequence`, with what the previous
sequence kept (certificate, pending request, caches) reset. -/
def startNewSequence (rs : RoundState) (nextSequence : Nat) (vs : ValidatorSet)
    (nextProposer : Validator) (parentCommits : MessageSet Vote) (emptyBlockHash : Hash) :
    RoundState :=
  { ({ rs with validatorSet := vs }.changeRound 0 vs nextProposer) with
    sequence := nextSequence
    preparedCertificate := emptyPreparedCertificate emptyBlockHash
    pendingRequest := none
    parentCommits := parentCommits
    proposalVerificationStatus := ∅ }

/-- `TransitionToCommitted`. -/
def transitionToCommitted (rs : RoundState) : RoundState := { rs with state := .committed }

/-- `TransitionToPrepreparedV2`. -/
def transitionToPrepreparedV2 (rs : RoundState) (pp : PreprepareV2) : RoundState :=
  { rs with preprepareV2 := some pp, state := .preprepared }

/-- `TransitionToWaitingForNewRound`: refused when the current round is above
the requested desired round. -/
def transitionToWaitingForNewRound (rs : RoundState) (desiredRound : Nat)
    (nextProposer : Validator) : Except Err RoundState :=
  if rs.round > desiredRound then .error .invalidState
  else .ok { rs with desiredRound := desiredRound, proposer := nextProposer,
                     state := .waitingForNewRound }

/-- The messages `TransitionToPrepared` puts in the certificate: prepares
first, then commits of validators without a prepare, until `quorumSize`. -/
def pcMessages (rs : RoundState) (quorumSize : Nat) : List Vote :=
  let fromPrepares := rs.prepares.values.take quorumSize
  let fromCommits := (rs.commits.values.filter fun m => (rs.prepares.get m.address).isNone).take
    (quorumSize - fromPrepares.length)
  fromPrepares ++ fromCommits

/-- `TransitionToPrepared`: builds the prepared certificate for the
preprepared proposal, or fails when fewer than `quorumSize` messages are
held.  Without a preprepared proposal Go dereferences `nil` (a crash). -/
def transitionToPrepared (rs : RoundState) (quorumSize : Nat) : Except Err RoundState :=
  if (rs.pcMessages quorumSize).length ≠ quorumSize then .error .failedCreatePreparedCertificate
  else match rs.proposal with
    | none => .error .crash
    | some p =>
      .ok { rs with preparedCertificate := ⟨p, rs.pcMessages quorumSize⟩, state := .prepared }

/-- `AddCommit`. -/
def addCommit (rs : RoundState) (m : Vote) : Except Err RoundState :=
  (rs.commits.add m.address m).map fun c => { rs with commits := c }

/-- `AddPrepare`. -/
def addPrepare (rs : RoundState) (m : Vote) : Except Err RoundState :=
  (rs.prepares.add m.address m).map fun p => { rs with prepares := p }

/-- `AddParentCommit`. -/
def addParentCommit (rs : RoundState) (m : Vote) : Except Err RoundState :=
  (rs.parentCommits.add m.address m).map fun p => { rs with parentCommits := p }

/-- `SetPendingRequest`. -/
def setPendingRequest (rs : RoundState) (r : Option Proposal) : RoundState :=
  { rs with pendingRequest := r }

/-- `SetProposalVerificationStatus`. -/
def setProposalVerificationStatus (rs : RoundState) (h : Hash) (ok : Bool) : RoundState :=
  { rs with proposalVerificationStatus := rs.proposalVerificationStatus.insert h ok }

/-! ### What each mutator changes -/

section Frame

variable (rs : RoundState)

@[simp] theorem startNewRound_state (r vs p) : (rs.startNewRound r vs p).state = .acceptRequest := rfl
@[simp] theorem startNewRound_round (r vs p) : (rs.startNewRound r vs p).round = r := rfl
@[simp] theorem startNewRound_desiredRound (r vs p) :
    (rs.startNewRound r vs p).desiredRound = r := rfl
@[simp] theorem startNewRound_sequence (r vs p) :
    (rs.startNewRound r vs p).sequence = rs.sequence := rfl
@[simp] theorem startNewRound_preprepareV2 (r vs p) :
    (rs.startNewRound r vs p).preprepareV2 = none := rfl
@[simp] theorem startNewRound_validatorSet (r vs p) :
    (rs.startNewRound r vs p).validatorSet = rs.validatorSet := rfl

@[simp] theorem startNewSequence_state (n vs p pc e) :
    (rs.startNewSequence n vs p pc e).state = .acceptRequest := rfl
@[simp] theorem startNewSequence_round (n vs p pc e) :
    (rs.startNewSequence n vs p pc e).round = 0 := rfl
@[simp] theorem startNewSequence_desiredRound (n vs p pc e) :
    (rs.startNewSequence n vs p pc e).desiredRound = 0 := rfl
@[simp] theorem startNewSequence_sequence (n vs p pc e) :
    (rs.startNewSequence n vs p pc e).sequence = n := rfl
@[simp] theorem startNewSequence_preprepareV2 (n vs p pc e) :
    (rs.startNewSequence n vs p pc e).preprepareV2 = none := rfl

@[simp] theorem transitionToCommitted_state : rs.transitionToCommitted.state = .committed := rfl
@[simp] theorem transitionToCommitted_round : rs.transitionToCommitted.round = rs.round := rfl
@[simp] theorem transitionToCommitted_desiredRound :
    rs.transitionToCommitted.desiredRound = rs.desiredRound := rfl
@[simp] theorem transitionToCommitted_sequence :
    rs.transitionToCommitted.sequence = rs.sequence := rfl
@[simp] theorem transitionToCommitted_preprepareV2 :
    rs.transitionToCommitted.preprepareV2 = rs.preprepareV2 := rfl

@[simp] theorem transitionToPrepreparedV2_state (pp) :
    (rs.transitionToPrepreparedV2 pp).state = .preprepared := rfl
@[simp] theorem transitionToPrepreparedV2_round (pp) :
    (rs.transitionToPrepreparedV2 pp).round = rs.round := rfl
@[simp] theorem transitionToPrepreparedV2_desiredRound (pp) :
    (rs.transitionToPrepreparedV2 pp).desiredRound = rs.desiredRound := rfl
@[simp] theorem transitionToPrepreparedV2_sequence (pp) :
    (rs.transitionToPrepreparedV2 pp).sequence = rs.sequence := rfl
@[simp] theorem transitionToPrepreparedV2_preprepareV2 (pp) :
    (rs.transitionToPrepreparedV2 pp).preprepareV2 = some pp := rfl

@[simp] theorem setPendingRequest_state (r) : (rs.setPendingRequest r).state = rs.state := rfl
@[simp] theorem setPendingRequest_round (r) : (rs.setPendingRequest r).round = rs.round := rfl
@[simp] theorem setPendingRequest_desiredRound (r) :
    (rs.setPendingRequest r).desiredRound = rs.desiredRound := rfl
@[simp] theorem setPendingRequest_sequence (r) :
    (rs.setPendingRequest r).sequence = rs.sequence := rfl
@[simp] theorem setPendingRequest_preprepareV2 (r) :
    (rs.setPendingRequest r).preprepareV2 = rs.preprepareV2 := rfl

@[simp] theorem setProposalVerificationStatus_state (h ok) :
    (rs.setProposalVerificationStatus h ok).state = rs.state := rfl
@[simp] theorem setProposalVerificationStatus_round (h ok) :
    (rs.setProposalVerificationStatus h ok).round = rs.round := rfl
@[simp] theorem setProposalVerificationStatus_desiredRound (h ok) :
    (rs.setProposalVerificationStatus h ok).desiredRound = rs.desiredRound := rfl
@[simp] theorem setProposalVerificationStatus_sequence (h ok) :
    (rs.setProposalVerificationStatus h ok).sequence = rs.sequence := rfl
@[simp] theorem setProposalVerificationStatus_preprepareV2 (h ok) :
    (rs.setProposalVerificationStatus h ok).preprepareV2 = rs.preprepareV2 := rfl

end Frame

/-- The fields the round invariant reads, unchanged by `AddPrepare`,
`AddCommit` and `AddParentCommit`. -/
theorem addPrepare_frame {rs rs' : RoundState} {m : Vote} (h : rs.addPrepare m = .ok rs') :
    rs'.state = rs.state ∧ rs'.round = rs.round ∧ rs'.desiredRound = rs.desiredRound ∧
      rs'.sequence = rs.sequence ∧ rs'.preprepareV2 = rs.preprepareV2 := by
  unfold addPrepare at h
  cases hp : rs.prepares.add m.address m with
  | error e => simp [hp, Except.map] at h
  | ok p =>
    simp only [hp, Except.map, Except.ok.injEq] at h
    subst h
    exact ⟨rfl, rfl, rfl, rfl, rfl⟩

theorem addCommit_frame {rs rs' : RoundState} {m : Vote} (h : rs.addCommit m = .ok rs') :
    rs'.state = rs.state ∧ rs'.round = rs.round ∧ rs'.desiredRound = rs.desiredRound ∧
      rs'.sequence = rs.sequence ∧ rs'.preprepareV2 = rs.preprepareV2 := by
  unfold addCommit at h
  cases hp : rs.commits.add m.address m with
  | error e => simp [hp, Except.map] at h
  | ok p =>
    simp only [hp, Except.map, Except.ok.injEq] at h
    subst h
    exact ⟨rfl, rfl, rfl, rfl, rfl⟩

theorem addParentCommit_frame {rs rs' : RoundState} {m : Vote}
    (h : rs.addParentCommit m = .ok rs') :
    rs'.state = rs.state ∧ rs'.round = rs.round ∧ rs'.desiredRound = rs.desiredRound ∧
      rs'.sequence = rs.sequence ∧ rs'.preprepareV2 = rs.preprepareV2 := by
  unfold addParentCommit at h
  cases hp : rs.parentCommits.add m.address m with
  | error e => simp [hp, Except.map] at h
  | ok p =>
    simp only [hp, Except.map, Except.ok.injEq] at h
    subst h
    exact ⟨rfl, rfl, rfl, rfl, rfl⟩

/-- `TransitionToWaitingForNewRound` succeeds exactly when the round is not
above the new desired round, and then changes desired round, proposer and
state only. -/
theorem transitionToWaitingForNewRound_ok {rs rs' : RoundState} {r : Nat} {p : Validator}
    (h : rs.transitionToWaitingForNewRound r p = .ok rs') :
    rs.round ≤ r ∧ rs' = { rs with desiredRound := r, proposer := p,
                                   state := .waitingForNewRound } := by
  unfold transitionToWaitingForNewRound at h
  split at h
  · cases h
  · exact ⟨by omega, (Except.ok.inj h).symm⟩

/-- `TransitionToPrepared` succeeds only from a preprepared proposal, and
then changes the certificate and the state only. -/
theorem transitionToPrepared_ok {rs rs' : RoundState} {q : Nat}
    (h : rs.transitionToPrepared q = .ok rs') :
    ∃ p, rs.proposal = some p ∧ (rs.pcMessages q).length = q ∧
      rs' = { rs with preparedCertificate := ⟨p, rs.pcMessages q⟩, state := .prepared } := by
  unfold transitionToPrepared at h
  by_cases hl : (rs.pcMessages q).length = q
  · rw [if_neg (not_not.mpr hl)] at h
    cases hp : rs.proposal with
    | none => rw [hp] at h; cases h
    | some p =>
      rw [hp] at h
      exact ⟨p, rfl, hl, (Except.ok.inj h).symm⟩
  · rw [if_pos hl] at h
    cases h

end RoundState

end CeloBlockchain.Ibft
