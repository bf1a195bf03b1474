import CeloBlockchain.Ibft.Quorum
import CeloBlockchain.Lib.Run

/-!
# The invariant of an honest core

`CoreInv` is what every reachable state of one honest core satisfies: the
round-state invariant of `roundstate.go` (round and desired round, the
accepted PREPREPARE and the view), the vote sets of the round, and what the
core has broadcast (one PREPARE and one COMMIT per view at most, a COMMIT
only after a quorum).

The proof follows the handlers' structure.  Each mutation is a move with its
guard: `Frame` (nothing the invariant reads changes), `Quiet` (the invariant
is kept, the view and desired view do not decrease, no vote is sent) and
`Step` (as `Quiet`, ending with at most one vote, for the view reached).  Each
function of `core` is shown to be such a move by following its branches and
citing the lemmas of the functions it calls; `handleEvent_step` covers every
event, and `Run.run_invariant` every run.
-/

namespace CeloBlockchain.Ibft

/-! ## The invariant -/

/-- The invariant of an honest core: the round-state invariant, the vote
sets of the round, and what the core has broadcast. -/
structure CoreInv (c : Core) : Prop where
  round_le_desired : c.current.round ≤ c.current.desiredRound
  round_eq_desired : c.current.state ≠ .waitingForNewRound →
    c.current.round = c.current.desiredRound
  preprepare_held : c.current.state = .preprepared ∨ c.current.state = .prepared ∨
    c.current.state = .committed → ∃ pp, c.current.preprepareV2 = some pp
  preprepare_view : ∀ pp, c.current.preprepareV2 = some pp → pp.view = c.current.view
  /-- `AcceptRequest` is entered only with a fresh round. -/
  accept_fresh : c.current.state = .acceptRequest → c.current.preprepareV2 = none
  prepares : VotesFor c.current.prepares c.current.validatorSet c.current.subject
  commits : VotesFor c.current.commits c.current.validatorSet c.current.subject
  /-- PREPAREs and COMMITs are broadcast for increasing views, none beyond
  the current one. -/
  prepares_sorted : (sentVotes .prepare c.sent).Pairwise (·.view < ·.view)
  commits_sorted : (sentVotes .commit c.sent).Pairwise (·.view < ·.view)
  prepares_le : ∀ s ∈ sentVotes .prepare c.sent, s.view ≤ c.current.view
  commits_le : ∀ s ∈ sentVotes .commit c.sent, s.view ≤ c.current.view
  prepare_current : ∀ s ∈ sentVotes .prepare c.sent, s.view = c.current.view →
    c.current.subject = some s
  /-- A COMMIT of the current view was sent once prepared, and a quorum
  backs it. -/
  commit_current : ∀ s ∈ sentVotes .commit c.sent, s.view = c.current.view →
    c.current.state ≠ .preprepared ∧ c.current.subject = some s ∧ c.current.QuorumFor s
  subject_prepared : ∀ s, c.current.subject = some s → s ∈ sentVotes .prepare c.sent
  commits_prepared : ∀ s ∈ sentVotes .commit c.sent, s ∈ sentVotes .prepare c.sent

/-- A move that changes nothing the invariant reads and sends no vote. -/
structure Frame (c c' : Core) : Prop where
  address_eq : c'.address = c.address
  sent_eq : ∃ d, c'.sent = c.sent ++ d ∧ ∀ code, sentVotes code d = []
  state_eq : c'.current.state = c.current.state
  round_eq : c'.current.round = c.current.round
  desiredRound_eq : c'.current.desiredRound = c.current.desiredRound
  sequence_eq : c'.current.sequence = c.current.sequence
  preprepareV2_eq : c'.current.preprepareV2 = c.current.preprepareV2
  prepares_eq : c'.current.prepares = c.current.prepares
  commits_eq : c'.current.commits = c.current.commits
  validatorSet_eq : c'.current.validatorSet = c.current.validatorSet

namespace Frame

variable {c c' c'' : Core}

theorem refl (c : Core) : Frame c c :=
  ⟨rfl, ⟨[], by simp, fun _ => rfl⟩, rfl, rfl, rfl, rfl, rfl, rfl, rfl, rfl⟩

theorem trans (h : Frame c c') (h' : Frame c' c'') : Frame c c'' := by
  obtain ⟨d, hd, hdv⟩ := h.sent_eq
  obtain ⟨d', hd', hdv'⟩ := h'.sent_eq
  refine ⟨h'.address_eq.trans h.address_eq, ⟨d ++ d', by rw [hd', hd, List.append_assoc], ?_⟩,
    h'.state_eq.trans h.state_eq, h'.round_eq.trans h.round_eq,
    h'.desiredRound_eq.trans h.desiredRound_eq, h'.sequence_eq.trans h.sequence_eq,
    h'.preprepareV2_eq.trans h.preprepareV2_eq, h'.prepares_eq.trans h.prepares_eq,
    h'.commits_eq.trans h.commits_eq, h'.validatorSet_eq.trans h.validatorSet_eq⟩
  intro code
  rw [sentVotes_append, hdv, hdv', List.append_nil]

theorem sentVotes_eq (h : Frame c c') (code : MsgCode) :
    sentVotes code c'.sent = sentVotes code c.sent := by
  obtain ⟨d, hd, hdv⟩ := h.sent_eq
  rw [hd, sentVotes_append, hdv, List.append_nil]

theorem view_eq (h : Frame c c') : c'.current.view = c.current.view := by
  simp only [RoundState.view, h.sequence_eq, h.round_eq]

theorem desiredView_eq (h : Frame c c') : c'.current.desiredView = c.current.desiredView := by
  simp only [RoundState.desiredView, h.sequence_eq, h.desiredRound_eq]

theorem subject_eq (h : Frame c c') : c'.current.subject = c.current.subject := by
  simp only [RoundState.subject, h.preprepareV2_eq, h.view_eq]

theorem quorumFor_iff (h : Frame c c') (t : Subject) :
    c'.current.QuorumFor t ↔ c.current.QuorumFor t := by
  simp only [RoundState.QuorumFor, RoundState.votersFor, h.prepares_eq, h.commits_eq,
    h.validatorSet_eq]

end Frame

/-- The invariant reads only what a frame keeps. -/
theorem CoreInv.frame {c c' : Core} (h : CoreInv c) (hf : Frame c c') : CoreInv c' where
  round_le_desired := by rw [hf.round_eq, hf.desiredRound_eq]; exact h.round_le_desired
  round_eq_desired := by
    rw [hf.state_eq, hf.round_eq, hf.desiredRound_eq]; exact h.round_eq_desired
  preprepare_held := by rw [hf.state_eq, hf.preprepareV2_eq]; exact h.preprepare_held
  preprepare_view := by rw [hf.preprepareV2_eq, hf.view_eq]; exact h.preprepare_view
  accept_fresh := by rw [hf.state_eq, hf.preprepareV2_eq]; exact h.accept_fresh
  prepares := by rw [hf.prepares_eq, hf.validatorSet_eq, hf.subject_eq]; exact h.prepares
  commits := by rw [hf.commits_eq, hf.validatorSet_eq, hf.subject_eq]; exact h.commits
  prepares_sorted := by rw [hf.sentVotes_eq]; exact h.prepares_sorted
  commits_sorted := by rw [hf.sentVotes_eq]; exact h.commits_sorted
  prepares_le := by rw [hf.sentVotes_eq, hf.view_eq]; exact h.prepares_le
  commits_le := by rw [hf.sentVotes_eq, hf.view_eq]; exact h.commits_le
  prepare_current := by rw [hf.sentVotes_eq, hf.view_eq, hf.subject_eq]; exact h.prepare_current
  commit_current := by
    simp only [hf.sentVotes_eq, hf.view_eq, hf.state_eq, hf.subject_eq, hf.quorumFor_iff]
    exact h.commit_current
  subject_prepared := by rw [hf.subject_eq, hf.sentVotes_eq]; exact h.subject_prepared
  commits_prepared := by rw [hf.sentVotes_eq, hf.sentVotes_eq]; exact h.commits_prepared

/-! ## Moves of an honest core -/

/-- A move from `c` to `c'` that sends no vote: the invariant holds after it,
the address is kept, messages are only appended, and neither the view nor
the desired view goes back. -/
structure Quiet (c c' : Core) : Prop where
  inv : CoreInv c'
  address_eq : c'.address = c.address
  sent_eq : ∃ d, c'.sent = c.sent ++ d ∧ ∀ code, sentVotes code d = []
  view_le : c.current.view ≤ c'.current.view
  desiredView_le : c.current.desiredView ≤ c'.current.desiredView

/-- A move that may end by voting: as `Quiet`, with the votes it sends for
the view it ends in. -/
structure Step (c c' : Core) : Prop where
  inv : CoreInv c'
  address_eq : c'.address = c.address
  sent_eq : ∃ d, c'.sent = c.sent ++ d ∧ ∀ code, ∀ s ∈ sentVotes code d, s.view = c'.current.view
  view_le : c.current.view ≤ c'.current.view
  desiredView_le : c.current.desiredView ≤ c'.current.desiredView

namespace Quiet

variable {c c' c'' : Core}

theorem refl (h : CoreInv c) : Quiet c c :=
  ⟨h, rfl, ⟨[], by simp, fun _ => rfl⟩, le_rfl, le_rfl⟩

theorem of_frame (h : CoreInv c) (hf : Frame c c') : Quiet c c' :=
  ⟨h.frame hf, hf.address_eq, hf.sent_eq, hf.view_eq.ge, hf.desiredView_eq.ge⟩

theorem trans (h : Quiet c c') (h' : Quiet c' c'') : Quiet c c'' := by
  obtain ⟨d, hd, hdv⟩ := h.sent_eq
  obtain ⟨d', hd', hdv'⟩ := h'.sent_eq
  refine ⟨h'.inv, h'.address_eq.trans h.address_eq,
    ⟨d ++ d', by rw [hd', hd, List.append_assoc], ?_⟩,
    h.view_le.trans h'.view_le, h.desiredView_le.trans h'.desiredView_le⟩
  intro code
  rw [sentVotes_append, hdv, hdv', List.append_nil]

/-- A quiet move followed by a frame. -/
theorem trans_frame (h : Quiet c c') (hf : Frame c' c'') : Quiet c c'' :=
  h.trans (of_frame h.inv hf)

theorem toStep (h : Quiet c c') : Step c c' := by
  obtain ⟨d, hd, hdv⟩ := h.sent_eq
  exact ⟨h.inv, h.address_eq, ⟨d, hd, fun code s hs => by simp [hdv] at hs⟩,
    h.view_le, h.desiredView_le⟩

theorem trans_step (h : Quiet c c') (h' : Step c' c'') : Step c c'' := by
  obtain ⟨d, hd, hdv⟩ := h.sent_eq
  obtain ⟨d', hd', hdv'⟩ := h'.sent_eq
  refine ⟨h'.inv, h'.address_eq.trans h.address_eq,
    ⟨d ++ d', by rw [hd', hd, List.append_assoc], ?_⟩,
    h.view_le.trans h'.view_le, h.desiredView_le.trans h'.desiredView_le⟩
  intro code s hs
  rw [sentVotes_append, hdv, List.nil_append] at hs
  exact hdv' code s hs

end Quiet

/-! ### Moves that change nothing the invariant reads -/

namespace Core

variable {cfg : Config} {b : Backend} {c : Core}

/-- Sending a message that is no vote. -/
theorem frame_send (c : Core) {m : Message} (hm : ∀ code, sentVotes code [m] = []) :
    Frame c (c.send m) :=
  ⟨rfl, ⟨[m], rfl, hm⟩, rfl, rfl, rfl, rfl, rfl, rfl, rfl, rfl⟩

theorem frame_setProposalVerificationStatus (c : Core) (h : Hash) (ok : Bool) :
    Frame c (c.setCurrent (c.current.setProposalVerificationStatus h ok)) :=
  ⟨rfl, ⟨[], by simp, fun _ => rfl⟩, rfl, rfl, rfl, rfl, rfl, rfl, rfl, rfl⟩

theorem frame_setPendingRequest (c : Core) (r : Option Proposal) :
    Frame c (c.setCurrent (c.current.setPendingRequest r)) :=
  ⟨rfl, ⟨[], by simp, fun _ => rfl⟩, rfl, rfl, rfl, rfl, rfl, rfl, rfl, rfl⟩

theorem frame_roundChangeSetV2 (c : Core) (rcs : RoundChangeSetV2) :
    Frame c { c with roundChangeSetV2 := rcs } :=
  ⟨rfl, ⟨[], by simp, fun _ => rfl⟩, rfl, rfl, rfl, rfl, rfl, rfl, rfl, rfl⟩

theorem frame_committed (c : Core) (ps : List Proposal) : Frame c { c with committed := ps } :=
  ⟨rfl, ⟨[], by simp, fun _ => rfl⟩, rfl, rfl, rfl, rfl, rfl, rfl, rfl, rfl⟩

theorem frame_unsubscribe (c : Core) : Frame c { c with subscribed := false } :=
  ⟨rfl, ⟨[], by simp, fun _ => rfl⟩, rfl, rfl, rfl, rfl, rfl, rfl, rfl, rfl⟩

theorem frame_addParentCommit {rs : RoundState} {v : Vote}
    (h : c.current.addParentCommit v = .ok rs) : Frame c (c.setCurrent rs) := by
  obtain ⟨hst, hr, hdr, hseq, hpp⟩ := RoundState.addParentCommit_frame h
  unfold RoundState.addParentCommit at h
  cases hp : c.current.parentCommits.add v.address v with
  | error e => simp [hp, Except.map] at h
  | ok p =>
    simp only [hp, Except.map, Except.ok.injEq] at h
    subst h
    exact ⟨rfl, ⟨[], by simp, fun _ => rfl⟩, rfl, rfl, rfl, rfl, rfl, rfl, rfl, rfl⟩

theorem verifyProposal_frame (p : Proposal) : Frame c (verifyProposal b c p).1 := by
  unfold verifyProposal
  split
  · exact Frame.refl c
  · exact Frame.refl c
  · split
    · exact frame_setProposalVerificationStatus c _ _
    · exact frame_setProposalVerificationStatus c _ _
    · exact Frame.refl c

/-- The certificate check changes the core only by verifying the proposal. -/
theorem verifyProposalAndPCMessages_fst (p : Proposal) (ms : List Vote) :
    (verifyProposalAndPCMessages b c p ms).1 = (verifyProposal b c p).1 := by
  unfold verifyProposalAndPCMessages
  split
  next c' vr heq =>
    rw [heq]
    split_ifs <;> rfl

theorem verifyProposalAndPCMessages_frame {p : Proposal} {ms : List Vote} {c' : Core}
    {r : Except Err (Option View)} (heq : verifyProposalAndPCMessages b c p ms = (c', r)) :
    Frame c c' := by
  have hf := @verifyProposal_frame b c p
  rw [← verifyProposalAndPCMessages_fst p ms, heq] at hf
  exact hf

theorem sendPreprepareV2_frame (r : Proposal) (rcc : RoundChangeCertificateV2) :
    Frame c (sendPreprepareV2 c r rcc) := by
  unfold sendPreprepareV2
  split
  · exact frame_send c (fun _ => rfl)
  · exact Frame.refl c

theorem sendRoundChange_frame : Frame c (sendRoundChange cfg c) :=
  frame_send c (fun _ => rfl)

/-! ### Moves of the round -/

/-- `StartNewRound` to a higher round, not below the desired one. -/
theorem quiet_startNewRound (h : CoreInv c) {r : Nat} (hr : c.current.round < r)
    (hd : c.current.desiredRound ≤ r) (vp : Validator) :
    Quiet c (c.setCurrent (c.current.startNewRound r c.current.validatorSet vp)) := by
  have hview : c.current.view < (c.current.startNewRound r c.current.validatorSet vp).view := by
    rw [View.lt_iff]
    exact .inr ⟨rfl, hr⟩
  -- every vote sent so far is for an earlier view
  have hprep : ∀ s ∈ sentVotes .prepare c.sent,
      s.view < (c.current.startNewRound r c.current.validatorSet vp).view :=
    fun s hs => lt_of_le_of_lt (h.prepares_le s hs) hview
  have hcomm : ∀ s ∈ sentVotes .commit c.sent,
      s.view < (c.current.startNewRound r c.current.validatorSet vp).view :=
    fun s hs => lt_of_le_of_lt (h.commits_le s hs) hview
  refine ⟨⟨by simp, by simp, by simp, by simp, by simp, VotesFor.empty _ _, VotesFor.empty _ _,
    h.prepares_sorted, h.commits_sorted, fun s hs => (hprep s hs).le, fun s hs => (hcomm s hs).le,
    fun s hs heq => absurd heq (hprep s hs).ne, fun s hs heq => absurd heq (hcomm s hs).ne,
    fun s hs => by simp [RoundState.subject] at hs, h.commits_prepared⟩,
    rfl, ⟨[], by simp, fun _ => rfl⟩, hview.le, ?_⟩
  rw [View.le_iff]
  exact .inr ⟨rfl, hd⟩

/-- `TransitionToWaitingForNewRound` to a higher desired round. -/
theorem quiet_waitingForNewRound (h : CoreInv c) {r : Nat} (hr : c.current.round ≤ r)
    (hd : c.current.desiredRound < r) (vp : Validator) :
    Quiet c (c.setCurrent { c.current with desiredRound := r, proposer := vp,
                                            state := .waitingForNewRound }) := by
  refine ⟨⟨hr, fun hs => absurd rfl hs, fun hs => by simp at hs, h.preprepare_view,
    fun hs => by simp at hs, h.prepares, h.commits, h.prepares_sorted, h.commits_sorted, h.prepares_le, h.commits_le,
    h.prepare_current, ?_, h.subject_prepared, h.commits_prepared⟩,
    rfl, ⟨[], by simp, fun _ => rfl⟩, le_rfl, ?_⟩
  · intro s hs hv
    obtain ⟨-, hsub, hq⟩ := h.commit_current s hs hv
    exact ⟨by simp, hsub, hq⟩
  · rw [View.le_iff]
    exact .inr ⟨rfl, hd.le⟩

/-- `TransitionToCommitted` from `Preprepared` or `Prepared`. -/
theorem quiet_transitionToCommitted (h : CoreInv c)
    (hs : c.current.state = .preprepared ∨ c.current.state = .prepared) :
    Quiet c (c.setCurrent c.current.transitionToCommitted) := by
  have hnw : c.current.state ≠ .waitingForNewRound := by rcases hs with hs | hs <;> simp [hs]
  refine ⟨⟨h.round_le_desired, fun _ => h.round_eq_desired hnw,
    fun _ => h.preprepare_held (by rcases hs with hs | hs <;> simp [hs]), h.preprepare_view,
    fun ha => by simp at ha,
    h.prepares, h.commits, h.prepares_sorted, h.commits_sorted, h.prepares_le, h.commits_le,
    h.prepare_current, ?_, h.subject_prepared, h.commits_prepared⟩,
    rfl, ⟨[], by simp, fun _ => rfl⟩, le_rfl, le_rfl⟩
  intro s hs' hv
  obtain ⟨-, hsub, hq⟩ := h.commit_current s hs' hv
  exact ⟨by simp, hsub, hq⟩

/-- `StartNewSequence` to a higher sequence. -/
theorem quiet_startNewSequence (h : CoreInv c) {n : Nat} (hn : c.current.sequence < n)
    (vs : ValidatorSet) (vp : Validator) (pc : MessageSet Vote) (e : Hash) :
    Quiet c (c.setCurrent (c.current.startNewSequence n vs vp pc e)) := by
  have hview : c.current.view < (c.current.startNewSequence n vs vp pc e).view := by
    rw [View.lt_iff]
    exact .inl hn
  have hprep : ∀ s ∈ sentVotes .prepare c.sent,
      s.view < (c.current.startNewSequence n vs vp pc e).view :=
    fun s hs => lt_of_le_of_lt (h.prepares_le s hs) hview
  have hcomm : ∀ s ∈ sentVotes .commit c.sent,
      s.view < (c.current.startNewSequence n vs vp pc e).view :=
    fun s hs => lt_of_le_of_lt (h.commits_le s hs) hview
  refine ⟨⟨by simp, by simp, by simp, by simp, by simp, VotesFor.empty _ _, VotesFor.empty _ _,
    h.prepares_sorted, h.commits_sorted, fun s hs => (hprep s hs).le, fun s hs => (hcomm s hs).le,
    fun s hs heq => absurd heq (hprep s hs).ne, fun s hs heq => absurd heq (hcomm s hs).ne,
    fun s hs => by simp [RoundState.subject] at hs, h.commits_prepared⟩,
    rfl, ⟨[], by simp, fun _ => rfl⟩, hview.le, ?_⟩
  rw [View.le_iff]
  exact .inl hn

/-! ### Votes received and sent -/

/-- A PREPARE for the current subject is recorded. -/
theorem quiet_addPrepare (h : CoreInv c) {v : Vote} {rs : RoundState}
    (hv : some v.subject = c.current.subject) (hadd : c.current.addPrepare v = .ok rs) :
    Quiet c (c.setCurrent rs) := by
  obtain ⟨p, hp, rfl⟩ := RoundState.addPrepare_ok hadd
  have hP : VotesFor p c.current.validatorSet c.current.subject := h.prepares.add hp hv
  obtain ⟨hvmem, hkept⟩ := h.prepares.values_add hp
  -- a sender's earlier vote is replaced by one for the same subject
  have hvoters : ∀ t, some t = c.current.subject →
      c.current.votersFor t ⊆ ({ c.current with prepares := p } : RoundState).votersFor t := by
    intro t ht
    apply RoundState.votersFor_subset
    intro w hw hwt
    rcases List.mem_append.mp hw with hw | hw
    · rcases hkept w hw with hw' | hwa
      · exact ⟨w, List.mem_append_left _ hw', hwt, rfl⟩
      · exact ⟨v, List.mem_append_left _ hvmem, Option.some.inj (hv.trans ht.symm), hwa.symm⟩
    · exact ⟨w, List.mem_append_right _ hw, hwt, rfl⟩
  refine ⟨⟨h.round_le_desired, h.round_eq_desired, h.preprepare_held, h.preprepare_view,
    h.accept_fresh, hP,
    h.commits, h.prepares_sorted, h.commits_sorted, h.prepares_le, h.commits_le,
    h.prepare_current, ?_, h.subject_prepared, h.commits_prepared⟩,
    rfl, ⟨[], by simp, fun _ => rfl⟩, le_rfl, le_rfl⟩
  intro s hs heq
  obtain ⟨hst, hsub, hcard, -⟩ := h.commit_current s hs heq
  exact ⟨hst, hsub, hcard.trans (Finset.card_le_card (hvoters s hsub.symm)),
    RoundState.votersFor_valid hP h.commits⟩

/-- A COMMIT for the current subject is recorded. -/
theorem quiet_addCommit (h : CoreInv c) {v : Vote} {rs : RoundState}
    (hv : some v.subject = c.current.subject) (hadd : c.current.addCommit v = .ok rs) :
    Quiet c (c.setCurrent rs) := by
  obtain ⟨p, hp, rfl⟩ := RoundState.addCommit_ok hadd
  have hC : VotesFor p c.current.validatorSet c.current.subject := h.commits.add hp hv
  obtain ⟨hvmem, hkept⟩ := h.commits.values_add hp
  have hvoters : ∀ t, some t = c.current.subject →
      c.current.votersFor t ⊆ ({ c.current with commits := p } : RoundState).votersFor t := by
    intro t ht
    apply RoundState.votersFor_subset
    intro w hw hwt
    rcases List.mem_append.mp hw with hw | hw
    · exact ⟨w, List.mem_append_left _ hw, hwt, rfl⟩
    · rcases hkept w hw with hw' | hwa
      · exact ⟨w, List.mem_append_right _ hw', hwt, rfl⟩
      · exact ⟨v, List.mem_append_right _ hvmem, Option.some.inj (hv.trans ht.symm), hwa.symm⟩
  refine ⟨⟨h.round_le_desired, h.round_eq_desired, h.preprepare_held, h.preprepare_view,
    h.accept_fresh, h.prepares, hC, h.prepares_sorted, h.commits_sorted, h.prepares_le, h.commits_le,
    h.prepare_current, ?_, h.subject_prepared, h.commits_prepared⟩,
    rfl, ⟨[], by simp, fun _ => rfl⟩, le_rfl, le_rfl⟩
  intro s hs heq
  obtain ⟨hst, hsub, hcard, -⟩ := h.commit_current s hs heq
  exact ⟨hst, hsub, hcard.trans (Finset.card_le_card (hvoters s hsub.symm)),
    RoundState.votersFor_valid h.prepares hC⟩

/-- `TransitionToPrepreparedV2` from `AcceptRequest` for a PREPREPARE of the
current view, and the PREPARE for it. -/
theorem step_preprepared (h : CoreInv c) {pp : PreprepareV2}
    (hs : c.current.state = .acceptRequest) (hv : pp.view = c.current.view) :
    Step c (sendPrepare (c.setCurrent (c.current.transitionToPrepreparedV2 pp))) := by
  have hnone : c.current.subject = none := by simp [RoundState.subject, h.accept_fresh hs]
  have hsend : sendPrepare (c.setCurrent (c.current.transitionToPrepreparedV2 pp)) =
      (c.setCurrent (c.current.transitionToPrepreparedV2 pp)).send
        (.vote ⟨.prepare, c.address, c.address, ⟨c.current.view, pp.proposal.hash⟩, 0, 0⟩) :=
    rfl
  rw [hsend]
  -- nothing has been voted for in this view yet
  have hprep_lt : ∀ s ∈ sentVotes .prepare c.sent, s.view < c.current.view :=
    fun s hs' => lt_of_le_of_ne (h.prepares_le s hs')
      (fun heq => by simp [h.prepare_current s hs' heq] at hnone)
  have hcomm_ne : ∀ s ∈ sentVotes .commit c.sent, s.view ≠ c.current.view :=
    fun s hs' heq => by simp [(h.commit_current s hs' heq).2.1] at hnone
  have hP : VotesFor c.current.prepares c.current.validatorSet none := hnone ▸ h.prepares
  have hC : VotesFor c.current.commits c.current.validatorSet none := hnone ▸ h.commits
  set s₀ : Subject := ⟨c.current.view, pp.proposal.hash⟩
  set c' := (c.setCurrent (c.current.transitionToPrepreparedV2 pp)).send
    (.vote ⟨.prepare, c.address, c.address, s₀, 0, 0⟩)
  have hPs : sentVotes .prepare c'.sent = sentVotes .prepare c.sent ++ [s₀] := by
    simp [c', sentVotes_vote]
  have hCs : sentVotes .commit c'.sent = sentVotes .commit c.sent := by
    simp [c', sentVotes_vote]
  have hview : c'.current.view = c.current.view := rfl
  refine ⟨⟨h.round_le_desired, fun _ => h.round_eq_desired (by simp [hs]), fun _ => ⟨pp, rfl⟩,
    fun pp' hpp' => Option.some.inj hpp' ▸ hv, fun ha => by simp [c'] at ha, hP.retarget _, hC.retarget _, ?_, ?_, ?_, ?_, ?_, ?_, ?_, ?_⟩,
    rfl, ⟨_, rfl, ?_⟩, le_rfl, le_rfl⟩
  · rw [hPs]
    refine List.pairwise_append.mpr ⟨h.prepares_sorted, List.pairwise_singleton _ _, ?_⟩
    intro a ha b hb
    rw [List.mem_singleton] at hb
    subst hb
    exact hprep_lt a ha
  · rw [hCs]
    exact h.commits_sorted
  · rw [hPs, hview]
    intro s hs'
    rcases List.mem_append.mp hs' with hs' | hs'
    · exact h.prepares_le s hs'
    · rw [List.mem_singleton.mp hs']
  · rw [hCs, hview]
    exact h.commits_le
  · rw [hPs, hview]
    intro s hs' heq
    rcases List.mem_append.mp hs' with hs' | hs'
    · exact absurd heq (hprep_lt s hs').ne
    · rw [List.mem_singleton.mp hs']
      rfl
  · rw [hCs, hview]
    intro s hs' heq
    exact absurd heq (hcomm_ne s hs')
  · intro s hs'
    rw [hPs]
    exact List.mem_append_right _ (List.mem_singleton.mpr (Option.some.inj hs'.symm))
  · rw [hPs, hCs]
    exact fun s hs' => List.mem_append_left _ (h.commits_prepared s hs')
  · intro code s hs'
    rw [sentVotes_vote] at hs'
    split at hs'
    · rw [List.mem_singleton] at hs'
      subst hs'
      rfl
    · simp at hs'

/-- `TransitionToPrepared` from `Preprepared` once `MinQuorumSize` validators
have voted, and the COMMIT for the subject. -/
theorem step_prepared (h : CoreInv c) {rs : RoundState} (hs : c.current.state = .preprepared)
    (hq : c.current.validatorSet.minQuorumSize ≤ c.current.getPrepareOrCommitSize)
    (ht : c.current.transitionToPrepared c.current.validatorSet.minQuorumSize = .ok rs) :
    Step c (sendCommit b (c.setCurrent rs)) := by
  obtain ⟨p, -, -, rfl⟩ := RoundState.transitionToPrepared_ok ht
  obtain ⟨pp, hpp⟩ := h.preprepare_held (.inl hs)
  set s₀ : Subject := ⟨c.current.view, pp.proposal.hash⟩
  have hsub : c.current.subject = some s₀ := by simp [RoundState.subject, hpp, s₀]
  have hP : VotesFor c.current.prepares c.current.validatorSet (some s₀) := hsub ▸ h.prepares
  have hC : VotesFor c.current.commits c.current.validatorSet (some s₀) := hsub ▸ h.commits
  -- the quorum `GetPrepareOrCommitSize` counted is one of validators voting for `s₀`
  have hquorum : c.current.QuorumFor s₀ := by
    refine ⟨?_, RoundState.votersFor_valid hP hC⟩
    rw [← RoundState.getPrepareOrCommitSize_eq_card hP hC]
    exact hq
  -- a COMMIT of this view would have left `Preprepared`
  have hcomm_lt : ∀ s ∈ sentVotes .commit c.sent, s.view < c.current.view :=
    fun s hs' => lt_of_le_of_ne (h.commits_le s hs') (fun heq => (h.commit_current s hs' heq).1 hs)
  set c₁ := c.setCurrent { c.current with preparedCertificate :=
    ⟨p, c.current.pcMessages c.current.validatorSet.minQuorumSize⟩, state := .prepared }
  have hinv₁ : CoreInv c₁ :=
    ⟨h.round_le_desired, fun _ => h.round_eq_desired (by simp [hs]),
      fun _ => h.preprepare_held (.inl hs), h.preprepare_view, fun ha => by simp [c₁] at ha,
      h.prepares, h.commits,
      h.prepares_sorted, h.commits_sorted, h.prepares_le, h.commits_le, h.prepare_current,
      fun s hs' heq => absurd heq (hcomm_lt s hs').ne, h.subject_prepared, h.commits_prepared⟩
  have hsub₁ : c₁.current.subject = some s₀ := hsub
  cases hseals : b.commitSeals s₀ with
  | some seals =>
    obtain ⟨cs, es⟩ := seals
    have hsend : sendCommit b c₁ = c₁.send (.vote ⟨.commit, c.address, c.address, s₀, cs, es⟩) := by
      simp only [sendCommit, hsub₁, hseals]
      -- `setCurrent` keeps the address
      rfl
    rw [hsend]
    set c' := c₁.send (.vote ⟨.commit, c.address, c.address, s₀, cs, es⟩)
    have hPs : sentVotes .prepare c'.sent = sentVotes .prepare c.sent := by
      simp [c', c₁, sentVotes_vote]
    have hCs : sentVotes .commit c'.sent = sentVotes .commit c.sent ++ [s₀] := by
      simp [c', c₁, sentVotes_vote]
    have hview : c'.current.view = c.current.view := rfl
    refine ⟨⟨hinv₁.round_le_desired, hinv₁.round_eq_desired, hinv₁.preprepare_held,
      hinv₁.preprepare_view,
      hinv₁.accept_fresh, hinv₁.prepares, hinv₁.commits, ?_, ?_, ?_, ?_, ?_, ?_, ?_, ?_⟩,
      rfl, ⟨_, rfl, ?_⟩, le_rfl, le_rfl⟩
    · rw [hPs]
      exact h.prepares_sorted
    · rw [hCs]
      refine List.pairwise_append.mpr ⟨h.commits_sorted, List.pairwise_singleton _ _, ?_⟩
      intro a ha b hb
      rw [List.mem_singleton] at hb
      subst hb
      exact hcomm_lt a ha
    · rw [hPs, hview]
      exact h.prepares_le
    · rw [hCs, hview]
      intro s hs'
      rcases List.mem_append.mp hs' with hs' | hs'
      · exact h.commits_le s hs'
      · rw [List.mem_singleton.mp hs']
    · rw [hPs, hview]
      exact h.prepare_current
    · rw [hCs, hview]
      intro s hs' heq
      rcases List.mem_append.mp hs' with hs' | hs'
      · exact absurd heq (hcomm_lt s hs').ne
      · rw [List.mem_singleton.mp hs']
        exact ⟨by simp [c', c₁], hsub, hquorum⟩
    · rw [hPs]
      exact h.subject_prepared
    · rw [hPs, hCs]
      intro s hs'
      rcases List.mem_append.mp hs' with hs' | hs'
      · exact h.commits_prepared s hs'
      · rw [List.mem_singleton.mp hs']
        exact h.subject_prepared s₀ hsub
    · intro code s hs'
      rw [sentVotes_vote] at hs'
      split at hs'
      · rw [List.mem_singleton] at hs'
        subst hs'
        rfl
      · simp at hs'
  | none =>
    have hsend : sendCommit b c₁ = c₁ := by
      simp only [sendCommit, hsub₁, hseals]
    rw [hsend]
    exact ⟨hinv₁, rfl, ⟨[], by simp [c₁], fun _ _ hs' => by simp at hs'⟩, le_rfl, le_rfl⟩

/-! ### The core's functions -/

/-- What `checkMessage` lets through: a message of the current sequence for
a round at least the desired one; other than a ROUND CHANGE, for the desired
round; other than a PREPREPARE, only once a PREPREPARE is accepted. -/
theorem checkMessage_eq_none {code : MsgCode} {v : View} (hcm : c.checkMessage code v = none) :
    v.sequence = c.current.sequence ∧ c.current.desiredRound ≤ v.round ∧
      (code ≠ .roundChangeV2 → v.round = c.current.desiredRound ∧
        (code ≠ .preprepareV2 →
          c.current.state ≠ .waitingForNewRound ∧ c.current.state ≠ .acceptRequest)) := by
  unfold checkMessage at hcm
  split_ifs at hcm with h₁ h₂ h₃ h₄ h₅ h₆ h₇
  · exact ⟨by omega, by omega, fun h => absurd h₅ h⟩
  · refine ⟨by omega, by omega, fun _ => ⟨by omega, fun hpp => ?_⟩⟩
    simp only [not_and, not_not] at h₆
    by_contra hst
    exact hpp (h₆ (by tauto))

/-- What `startNewRound` does: nothing, or it moves to the higher round `r`
and then, as its proposer, may send a PREPREPARE. -/
theorem startNewRound_cases (r : Nat) (propose : Bool) :
    (startNewRound cfg b c r propose).1 = c ∨
      c.current.round < r ∧ ∃ vp, Frame (c.setCurrent (c.current.startNewRound r
        c.current.validatorSet vp)) (startNewRound cfg b c r propose).1 := by
  unfold startNewRound
  dsimp only
  split
  · exact .inl rfl
  · rename_i hr
    split
    · exact .inl rfl
    · rename_i vp _
      split
      · exact .inl rfl
      · refine .inr ⟨by omega, vp, ?_⟩
        split
        · split
          · exact sendPreprepareV2_frame _ _
          · exact Frame.refl _
        · exact Frame.refl _

theorem startNewRound_quiet (h : CoreInv c) {r : Nat} (hd : c.current.desiredRound ≤ r)
    (propose : Bool) : Quiet c (startNewRound cfg b c r propose).1 := by
  rcases @startNewRound_cases cfg b c r propose with heq | ⟨hr, vp, hf⟩
  · rw [heq]
    exact Quiet.refl h
  · exact (quiet_startNewRound h hr hd vp).trans_frame hf

/-- Started at the desired round, `startNewRound` keeps the desired view. -/
theorem startNewRound_desiredView {r : Nat} (hd : c.current.desiredRound = r) (propose : Bool) :
    (startNewRound cfg b c r propose).1.current.desiredView = c.current.desiredView := by
  rcases @startNewRound_cases cfg b c r propose with heq | ⟨-, vp, hf⟩
  · rw [heq]
  · rw [hf.desiredView_eq]
    simp [RoundState.desiredView, hd]

/-- What `handleRoundChangeCertificateV2` does: it may verify the proposal,
and if it accepts, starts the PREPREPARE's round. -/
theorem handleRoundChangeCertificateV2_cases (view : View) (rcc : RoundChangeCertificateV2)
    (p : Proposal) :
    ∃ c', Frame c c' ∧ ((handleRoundChangeCertificateV2 cfg b c view rcc p).1 = c' ∨
      (handleRoundChangeCertificateV2 cfg b c view rcc p).1 =
        (startNewRound cfg b c' view.round false).1) := by
  unfold handleRoundChangeCertificateV2
  dsimp only
  split
  · exact ⟨c, Frame.refl c, .inl rfl⟩
  · split
    · exact ⟨c, Frame.refl c, .inl rfl⟩
    · split
      · exact ⟨c, Frame.refl c, .inr rfl⟩
      · split
        · exact ⟨c, Frame.refl c, .inl rfl⟩
        · split
          · exact ⟨_, verifyProposalAndPCMessages_frame ‹_›, .inl rfl⟩
          · exact ⟨_, verifyProposalAndPCMessages_frame ‹_›, .inl rfl⟩
          · rename_i heq
            split
            · exact ⟨_, verifyProposalAndPCMessages_frame heq, .inl rfl⟩
            · exact ⟨_, verifyProposalAndPCMessages_frame heq, .inr rfl⟩

theorem handleRoundChangeCertificateV2_quiet (h : CoreInv c) {view : View}
    (hd : c.current.desiredRound ≤ view.round) (rcc : RoundChangeCertificateV2) (p : Proposal) :
    Quiet c (handleRoundChangeCertificateV2 cfg b c view rcc p).1 := by
  obtain ⟨c', hf, heq | heq⟩ := @handleRoundChangeCertificateV2_cases cfg b c view rcc p <;> rw [heq]
  · exact Quiet.of_frame h hf
  · exact (Quiet.of_frame h hf).trans
      (startNewRound_quiet (h.frame hf) (by rw [hf.desiredRound_eq]; exact hd) false)

theorem handleRoundChangeCertificateV2_desiredView {view : View}
    (hd : c.current.desiredRound = view.round) (rcc : RoundChangeCertificateV2) (p : Proposal) :
    (handleRoundChangeCertificateV2 cfg b c view rcc p).1.current.desiredView =
      c.current.desiredView := by
  obtain ⟨c', hf, heq | heq⟩ := @handleRoundChangeCertificateV2_cases cfg b c view rcc p <;> rw [heq]
  · exact hf.desiredView_eq
  · rw [startNewRound_desiredView (by rw [hf.desiredRound_eq]; exact hd), hf.desiredView_eq]

theorem handlePreprepareV2_step (h : CoreInv c) (sender : Address) (pp : PreprepareV2) :
    Step c (handlePreprepareV2 cfg b c sender pp).1 := by
  unfold handlePreprepareV2
  dsimp only
  split
  · exact (Quiet.refl h).toStep
  split
  · -- an old PREPREPARE is answered by nothing
    split
    · exact (Quiet.refl h).toStep
    · split <;> exact (Quiet.refl h).toStep
  · exact (Quiet.refl h).toStep
  rename_i hcm
  obtain ⟨hseq, -, hround⟩ := checkMessage_eq_none hcm
  obtain ⟨hround, -⟩ := hround (by simp)
  split
  · exact (Quiet.refl h).toStep
  split
  · exact (Quiet.refl h).toStep
  -- the round-change certificate of a PREPREPARE for a later round
  have hchecked : ∀ c₁ e, (if pp.view.round > 0 then
      if pp.roundChangeCertificateV2.isEmpty = true then (c, some Err.missingRoundChangeCertificate)
      else handleRoundChangeCertificateV2 cfg b c pp.view pp.roundChangeCertificateV2 pp.proposal
    else if (!pp.roundChangeCertificateV2.isEmpty) = true then (c, some Err.invalidProposal)
    else (c, none)) = (c₁, e) →
      Quiet c c₁ ∧ c₁.current.desiredView = c.current.desiredView := by
    intro c₁ e heq
    split at heq
    · split at heq
      · cases heq
        exact ⟨Quiet.refl h, rfl⟩
      · rw [← show (handleRoundChangeCertificateV2 cfg b c pp.view pp.roundChangeCertificateV2
            pp.proposal).1 = c₁ by rw [heq]]
        exact ⟨handleRoundChangeCertificateV2_quiet h hround.ge _ _,
          handleRoundChangeCertificateV2_desiredView hround.symm _ _⟩
    · split at heq <;>
      · cases heq
        exact ⟨Quiet.refl h, rfl⟩
  split
  · rename_i c₁ e heq
    exact (hchecked c₁ _ heq).1.toStep
  rename_i c₁ heq
  obtain ⟨hq₁, hdv₁⟩ := hchecked c₁ none heq
  split
  · rename_i c₂ heq₂
    have hf₂ : Frame c₁ c₂ := by
      have := @verifyProposal_frame b c₁ pp.proposal
      rwa [heq₂] at this
    have hq₂ := hq₁.trans_frame hf₂
    split
    · rename_i hacc
      -- accepting: the PREPREPARE is for the view the core is in
      have hv : pp.view = c₂.current.view := by
        have hrd := hq₂.inv.round_eq_desired (by rw [hacc]; simp)
        have hdv : c₂.current.desiredView = c.current.desiredView := by
          rw [hf₂.desiredView_eq, hdv₁]
        simp only [RoundState.desiredView, View.mk.injEq] at hdv
        simp only [RoundState.view, hrd, hdv.1, hdv.2, ← hseq, ← hround]
      exact hq₂.trans_step (step_preprepared hq₂.inv hacc hv)
    · exact hq₂.toStep
  · rename_i c₂ _ _ heq₂
    have hf₂ : Frame c₁ c₂ := by
      have := @verifyProposal_frame b c₁ pp.proposal
      rwa [heq₂] at this
    exact (hq₁.trans_frame hf₂).toStep

theorem waitForDesiredRound_quiet (h : CoreInv c) (r : Nat) :
    Quiet c (waitForDesiredRound cfg b c r).1 := by
  unfold waitForDesiredRound
  split
  · exact Quiet.refl h
  rename_i hd
  split
  · split <;> exact Quiet.refl h
  rename_i vp _
  split
  · exact Quiet.refl h
  rename_i rs ht
  obtain ⟨hr, rfl⟩ := RoundState.transitionToWaitingForNewRound_ok ht
  exact (quiet_waitingForNewRound h hr (by omega) vp).trans_frame sendRoundChange_frame

theorem commit_quiet (h : CoreInv c)
    (hs : c.current.state = .preprepared ∨ c.current.state = .prepared) :
    Quiet c (commit cfg b c).1 := by
  have hq₁ := quiet_transitionToCommitted h hs
  unfold commit
  dsimp only
  split
  · exact hq₁
  rename_i p _
  split
  · exact hq₁.trans (waitForDesiredRound_quiet hq₁.inv _)
  have hq₂ := hq₁.trans_frame (frame_committed _ ((c.setCurrent c.current.transitionToCommitted).committed ++ [p]))
  split
  · exact hq₂.trans (waitForDesiredRound_quiet hq₂.inv _)
  · exact hq₂

theorem startNewSequence_quiet (h : CoreInv c) : Quiet c (startNewSequence cfg b c).1 := by
  unfold startNewSequence
  dsimp only
  split
  · exact Quiet.refl h
  rename_i hhead
  have hf := frame_roundChangeSetV2 c (.new (b.validators b.headBlock))
  split
  · exact Quiet.of_frame h (hf.trans (frame_unsubscribe _))
  split
  · exact Quiet.of_frame h hf
  rename_i vp _
  exact (Quiet.of_frame h hf).trans
    (quiet_startNewSequence (h.frame hf) (by show c.current.sequence < _; omega) _ vp _ _)

theorem handlePrepare_step (h : CoreInv c) (v : Vote) : Step c (handlePrepare b c v).1 := by
  unfold handlePrepare
  dsimp only
  split
  · exact (Quiet.refl h).toStep
  rename_i hcm
  obtain ⟨-, -, hround⟩ := checkMessage_eq_none hcm
  obtain ⟨hnw, hna⟩ := (hround (by simp)).2 (by simp)
  split
  · exact (Quiet.refl h).toStep
  rename_i hsub
  split
  · exact (Quiet.refl h).toStep
  rename_i rs hadd
  have hq₁ := quiet_addPrepare h (not_not.mp hsub) hadd
  split
  · rename_i hcond
    split
    · exact hq₁.toStep
    rename_i rs' ht
    -- below `Prepared` and past `AcceptRequest`: `Preprepared`
    have hpp : (c.setCurrent rs).current.state = .preprepared := by
      have hst := (RoundState.addPrepare_frame hadd).1
      have hlt := hcond.2
      simp only [setCurrent_current, hst] at hlt ⊢
      revert hlt hna
      cases c.current.state <;> decide
    exact hq₁.trans_step (step_prepared hq₁.inv hpp hcond.1 ht)
  · exact hq₁.toStep

theorem handleCheckedCommitForPreviousSequence_quiet (h : CoreInv c) (v : Vote) :
    Quiet c (handleCheckedCommitForPreviousSequence b c v).1 := by
  unfold handleCheckedCommitForPreviousSequence
  dsimp only
  split
  · exact Quiet.refl h
  split_ifs
  · exact Quiet.refl h
  · exact Quiet.refl h
  · exact Quiet.refl h
  split
  · exact Quiet.refl h
  · exact Quiet.of_frame h (frame_addParentCommit ‹_›)

theorem handleCheckedCommitForCurrentSequence_step (h : CoreInv c)
    (hnw : c.current.state ≠ .waitingForNewRound) (hna : c.current.state ≠ .acceptRequest)
    (v : Vote) : Step c (handleCheckedCommitForCurrentSequence cfg b c v).1 := by
  unfold handleCheckedCommitForCurrentSequence
  dsimp only
  split
  · exact (Quiet.refl h).toStep
  split
  · exact (Quiet.refl h).toStep
  split
  · exact (Quiet.refl h).toStep
  split
  · exact (Quiet.refl h).toStep
  split
  · exact (Quiet.refl h).toStep
  split
  · exact (Quiet.refl h).toStep
  rename_i hsub
  split
  · exact (Quiet.refl h).toStep
  rename_i rs hadd
  have hq₁ := quiet_addCommit h (not_not.mp hsub) hadd
  have hst : (c.setCurrent rs).current.state = c.current.state := (RoundState.addCommit_frame hadd).1
  split
  · rename_i hcond
    -- below `Committed` and past `AcceptRequest`: `Preprepared` or `Prepared`
    have hs : (c.setCurrent rs).current.state = .preprepared ∨
        (c.setCurrent rs).current.state = .prepared := by
      have hlt := hcond.2
      rw [hst] at hlt ⊢
      revert hlt hna hnw
      cases c.current.state <;> decide
    exact (hq₁.trans (commit_quiet hq₁.inv hs)).toStep
  split
  · rename_i hcond
    split
    · exact hq₁.toStep
    rename_i rs' ht
    have hpp : (c.setCurrent rs).current.state = .preprepared := by
      have hlt := hcond.2
      rw [hst] at hlt ⊢
      revert hlt hna
      cases c.current.state <;> decide
    exact hq₁.trans_step (step_prepared hq₁.inv hpp hcond.1 ht)
  · exact hq₁.toStep

theorem handleCommit_step (h : CoreInv c) (v : Vote) : Step c (handleCommit cfg b c v).1 := by
  unfold handleCommit
  split
  · -- a COMMIT of the previous sequence may become a parent commit
    split
    · exact (Quiet.refl h).toStep
    split_ifs
    · exact (Quiet.refl h).toStep
    · exact (Quiet.refl h).toStep
    · exact (handleCheckedCommitForPreviousSequence_quiet h v).toStep
  · exact (Quiet.refl h).toStep
  · rename_i hcm
    obtain ⟨-, -, hround⟩ := checkMessage_eq_none hcm
    obtain ⟨hnw, hna⟩ := (hround (by simp)).2 (by simp)
    exact handleCheckedCommitForCurrentSequence_step h hnw hna v

/-- The check of a ROUND CHANGE's prepared certificate in
`handleRoundChangeV2` only verifies its proposal and messages. -/
theorem frame_roundChangeV2Checked (rc : RoundChangeV2) {c₁ : Core} {e : Option Err}
    (heq : (if rc.request.hasPreparedCertificate = true then
      match verifyProposalAndPCMessages b c rc.preparedProposal
          rc.request.preparedCertificateV2.prepareOrCommitMessages with
      | (c, .error e) => (c, some e)
      | (c, .ok none) => (c, some Err.invalidRoundChangeViewMismatch)
      | (c, .ok (some pv)) =>
        if pv.round > rc.request.view.round then (c, some Err.invalidRoundChangeViewMismatch)
        else (c, none)
    else (c, none)) = (c₁, e)) : Frame c c₁ := by
  split at heq
  · split at heq
    · cases heq
      exact verifyProposalAndPCMessages_frame ‹_›
    · cases heq
      exact verifyProposalAndPCMessages_frame ‹_›
    · rename_i hv
      split at heq <;>
      · cases heq
        exact verifyProposalAndPCMessages_frame hv
  · cases heq
    exact Frame.refl c

theorem handleRoundChangeV2_quiet (h : CoreInv c) (sender : Address) (rc : RoundChangeV2) :
    Quiet c (handleRoundChangeV2 cfg b c sender rc).1 := by
  unfold handleRoundChangeV2
  dsimp only
  split
  · exact Quiet.refl h
  split
  · exact Quiet.refl h
  split
  · -- `sendRoundChangeAgain`
    split
    · exact Quiet.of_frame h (frame_send c (fun _ => rfl))
    · exact Quiet.refl h
  · exact Quiet.refl h
  split
  · exact Quiet.refl h
  split
  · exact Quiet.of_frame h (frame_roundChangeV2Checked rc ‹_›)
  rename_i c₁ heq
  have hq₁ := Quiet.of_frame h (frame_roundChangeV2Checked rc heq)
  split
  · exact hq₁.trans_frame (frame_roundChangeSetV2 _ _)
  rename_i rcs _
  have hq₂ := hq₁.trans_frame (frame_roundChangeSetV2 c₁ rcs)
  split
  · split
    · exact hq₂.trans (startNewRound_quiet hq₂.inv ‹_› true)
    · split
      · exact hq₂.trans (waitForDesiredRound_quiet hq₂.inv _)
      · exact hq₂
  · split
    · exact hq₂.trans (waitForDesiredRound_quiet hq₂.inv _)
    · exact hq₂

theorem handleMsg_step (h : CoreInv c) (m : Message) : Step c (handleMsg cfg b c m).1 := by
  unfold handleMsg
  split
  · exact (Quiet.refl h).toStep
  split
  · exact handlePreprepareV2_step h _ _
  · split
    · exact handlePrepare_step h _
    · exact handleCommit_step h _
    · exact (Quiet.refl h).toStep
  · exact (handleRoundChangeV2_quiet h _ _).toStep

theorem handleRequest_quiet (h : CoreInv c) (p : Proposal) : Quiet c (handleRequest c p).1 := by
  unfold handleRequest
  dsimp only
  split_ifs
  · exact Quiet.refl h
  · exact Quiet.refl h
  · exact Quiet.of_frame h ((frame_setPendingRequest c _).trans (sendPreprepareV2_frame _ _))
  · exact Quiet.of_frame h (frame_setPendingRequest c _)

theorem handleTimeoutAndMoveToNextRound_quiet (h : CoreInv c) (v : View) :
    Quiet c (handleTimeoutAndMoveToNextRound cfg b c v).1 := by
  unfold handleTimeoutAndMoveToNextRound
  split_ifs
  · exact Quiet.refl h
  · exact waitForDesiredRound_quiet h _

theorem handleResendRoundChangeEvent_quiet (h : CoreInv c) (v : View) :
    Quiet c (handleResendRoundChangeEvent cfg c v).1 := by
  unfold handleResendRoundChangeEvent
  split_ifs
  · exact Quiet.refl h
  · exact Quiet.of_frame h sendRoundChange_frame
  · exact Quiet.refl h

/-- **One step of an honest core** keeps the invariant and moves forward. -/
theorem handleEvent_step (h : CoreInv c) (e : Event) : Step c (c.handleEvent cfg b e) := by
  cases e with
  | message m =>
    unfold handleEvent
    split_ifs
    · exact handleMsg_step h m
    · exact (Quiet.refl h).toStep
  | request p =>
    unfold handleEvent
    split_ifs
    · exact (handleRequest_quiet h p).toStep
    · exact (Quiet.refl h).toStep
  | timeoutAndMoveToNextRound v =>
    unfold handleEvent
    split_ifs
    · exact (handleTimeoutAndMoveToNextRound_quiet h v).toStep
    · exact (Quiet.refl h).toStep
  | resendRoundChange v =>
    unfold handleEvent
    split_ifs
    · exact (handleResendRoundChangeEvent_quiet h v).toStep
    · exact (Quiet.refl h).toStep
  | finalCommitted =>
    unfold handleEvent
    split_ifs
    · exact (startNewSequence_quiet h).toStep
    · exact (Quiet.refl h).toStep

/-- With the round never above the desired round, the `panic` of
`checkMessage` is not reached. -/
theorem checkMessage_ne_crash (h : CoreInv c) (code : MsgCode) (view : View) :
    c.checkMessage code view ≠ some .crash := by
  have hle := h.round_le_desired
  unfold checkMessage
  split_ifs <;> first | omega | simp

end Core

/-- The votes a move adds are for the view it ends in. -/
theorem Step.view_of_new {c c' : Core} (hs : Step c c') {code : MsgCode} {s : Subject}
    (hs' : s ∈ sentVotes code c'.sent) (hn : s ∉ sentVotes code c.sent) :
    s.view = c'.current.view := by
  obtain ⟨d, hd, hdv⟩ := hs.sent_eq
  rw [hd, sentVotes_append, List.mem_append] at hs'
  exact hdv code s (hs'.resolve_left hn)

/-! ## Runs of an honest core -/

theorem CoreInv.new (a : Address) (v : View) (vs : ValidatorSet) (vp : Validator) (e : Hash) :
    CoreInv (Core.new a v vs vp e) :=
  ⟨le_rfl, fun _ => rfl, fun hs => by simp [Core.new, RoundState.new] at hs,
    fun pp hpp => by simp [Core.new, RoundState.new] at hpp, fun _ => rfl,
    VotesFor.empty _ _, VotesFor.empty _ _, .nil, .nil,
    fun _ hs => by simp [Core.new] at hs, fun _ hs => by simp [Core.new] at hs,
    fun _ hs => by simp [Core.new] at hs, fun _ hs => by simp [Core.new] at hs,
    fun _ hs => by simp [Core.new, RoundState.new, RoundState.subject] at hs,
    fun _ hs => by simp [Core.new] at hs⟩

section Runs

variable (cfg : Config) (a : Address) (v : View) (vs : ValidatorSet) (vp : Validator) (e : Hash)

/-- The invariant holds after every run of a core started by `newRoundState`,
whatever the events and the backend's answers. -/
theorem coreInv_run (es : List (Backend × Event)) :
    CoreInv (Run.run (Core.step cfg) (Core.new a v vs vp e) es) :=
  Run.run_invariant (Core.step cfg) CoreInv (fun _ be h => (Core.handleEvent_step h be.2).inv) es _
    (CoreInv.new a v vs vp e)

/-- `(sequence, desiredRound)` never decreases along a run. -/
theorem desiredView_run_le (es es' : List (Backend × Event)) :
    (Run.run (Core.step cfg) (Core.new a v vs vp e) es).current.desiredView ≤
      (Run.run (Core.step cfg) (Core.new a v vs vp e) (es ++ es')).current.desiredView := by
  rw [Run.run_append]
  exact Run.run_monotone (Core.step cfg) CoreInv (fun c => c.current.desiredView)
    (fun _ be h => (Core.handleEvent_step h be.2).inv)
    (fun _ be h => (Core.handleEvent_step h be.2).desiredView_le) es' _
    (coreInv_run cfg a v vs vp e es)

theorem round_state_invariant (es : List (Backend × Event)) :
    let c := Run.run (Core.step cfg) (Core.new a v vs vp e) es
    c.current.round ≤ c.current.desiredRound ∧
      (c.current.state ≠ .waitingForNewRound → c.current.round = c.current.desiredRound) ∧
      (c.current.state = .preprepared ∨ c.current.state = .prepared ∨
          c.current.state = .committed →
        ∃ pp, c.current.preprepareV2 = some pp ∧ pp.view = c.current.view) ∧
      (∀ es', c.current.desiredView ≤
        (Run.run (Core.step cfg) (Core.new a v vs vp e) (es ++ es')).current.desiredView) ∧
      ∀ code view, c.checkMessage code view ≠ some .crash := by
  intro c
  have h := coreInv_run cfg a v vs vp e es
  refine ⟨h.round_le_desired, h.round_eq_desired, fun hs => ?_,
    desiredView_run_le cfg a v vs vp e es, Core.checkMessage_ne_crash h⟩
  obtain ⟨pp, hpp⟩ := h.preprepare_held hs
  exact ⟨pp, hpp, h.preprepare_view pp hpp⟩

theorem no_equivocation (es : List (Backend × Event)) (be : Backend × Event) :
    let c := Run.run (Core.step cfg) (Core.new a v vs vp e) es
    let c' := Core.step cfg c be
    (sentVotes .prepare c.sent).Pairwise (·.view ≠ ·.view) ∧
      (sentVotes .commit c.sent).Pairwise (·.view ≠ ·.view) ∧
      (∀ s ∈ sentVotes .commit c.sent, s ∈ sentVotes .prepare c.sent) ∧
      (∀ pp, c.current.preprepareV2 = some pp →
        ⟨pp.view, pp.proposal.hash⟩ ∈ sentVotes .prepare c.sent) ∧
      (∀ s ∈ sentVotes .prepare c'.sent, s ∉ sentVotes .prepare c.sent →
        ∃ pp, c'.current.preprepareV2 = some pp ∧ pp.view = s.view ∧
          pp.proposal.hash = s.digest) ∧
      (∀ s ∈ sentVotes .commit c'.sent, s ∉ sentVotes .commit c.sent →
        s.view = c'.current.view ∧ c'.current.QuorumFor s) := by
  intro c c'
  have h := coreInv_run cfg a v vs vp e es
  have hs : Step c c' := Core.handleEvent_step h be.2
  refine ⟨h.prepares_sorted.imp ne_of_lt, h.commits_sorted.imp ne_of_lt, h.commits_prepared,
    fun pp hpp => ?_, fun s hs' hn => ?_, fun s hs' hn => ?_⟩
  · -- the accepted PREPREPARE is the subject, which was prepared
    have hsub : c.current.subject = some ⟨pp.view, pp.proposal.hash⟩ := by
      rw [RoundState.subject, hpp, Option.map_some, h.preprepare_view pp hpp]
    exact h.subject_prepared _ hsub
  · have hsub := hs.inv.prepare_current s hs' (hs.view_of_new hs' hn)
    cases hpp : c'.current.preprepareV2 with
    | none => simp [RoundState.subject, hpp] at hsub
    | some pp =>
      simp only [RoundState.subject, hpp, Option.map_some, Option.some.injEq] at hsub
      refine ⟨pp, rfl, ?_, by rw [← hsub]⟩
      rw [← hsub, hs.inv.preprepare_view pp hpp]
  · have hview := hs.view_of_new hs' hn
    exact ⟨hview, (hs.inv.commit_current s hs' hview).2.2⟩

end Runs

end CeloBlockchain.Ibft
