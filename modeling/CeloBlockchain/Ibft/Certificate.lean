import CeloBlockchain.Ibft.Invariant
import CeloBlockchain.Ibft.Network

/-!
# Prepared certificates, built and checked

`TransitionToPrepared` builds a `PreparedCertificate` from the round's
PREPAREs and COMMITs (`RoundState.pcMessages`); a round change carries it as
`PCV2FromPCV1`, and `handleRoundChangeV2` checks it with
`verifyProposalAndPCMessages`.  The two agree along every run of a core:

* the vote sets hold votes of their own code (`HeldVotes`, kept by every
  handler, `heldVotes_run`), besides `CoreInv`'s `VotesFor` shape;
* under both, the certificate's senders are distinct validators and each
  message votes for the preprepared proposal in the round's view
  (`nodup_pcMessages`, `mem_pcMessages`);
* such messages pass the check message by message
  (`verifyPCMessages_ok`), so the whole certificate passes once its size
  lies between `MinQuorumSize` and `Size` (`verifyProposalAndPCMessages_ok`).

The signatures and seals are the backend's: the check is stated for a
verifier whose backend accepts them.
-/

namespace CeloBlockchain.Ibft

namespace ValidatorSet

theorem size_pos_of_contains {vs : ValidatorSet} {a : Address} (h : vs.containsByAddress a = true) :
    0 < vs.size := by
  obtain ⟨v, hv, -⟩ := List.any_eq_true.mp h
  exact List.length_pos_of_mem hv

theorem getByAddress_of_contains {vs : ValidatorSet} {a : Address}
    (h : vs.containsByAddress a = true) : ∃ v, vs.getByAddress a = some v ∧ v.address = a := by
  obtain ⟨v, hv, hva⟩ := List.any_eq_true.mp h
  have hsome : (vs.list.find? (·.address == a)).isSome := List.find?_isSome.mpr ⟨v, hv, hva⟩
  obtain ⟨w, hw⟩ := Option.isSome_iff_exists.mp hsome
  exact ⟨w, hw, by simpa using List.find?_some hw⟩

/-- Distinct addresses of validators are at most as many as the validators. -/
theorem length_le_size {vs : ValidatorSet} {l : List Address} (hnd : l.Nodup)
    (hl : ∀ a ∈ l, vs.containsByAddress a = true) : l.length ≤ vs.size := by
  have hsub : l ⊆ vs.list.map (·.address) := by
    intro a ha
    obtain ⟨v, hv, hva⟩ := List.any_eq_true.mp (hl a ha)
    exact List.mem_map.mpr ⟨v, hv, by simpa using hva⟩
  calc l.length ≤ (vs.list.map (·.address)).length := (List.subperm_of_subset hnd hsub).length_le
    _ = vs.size := List.length_map _

end ValidatorSet

/-! ## Vote sets of one code -/

/-- Every vote a set holds has code `code`. -/
def CodesOf (ms : MessageSet Vote) (code : MsgCode) : Prop :=
  ∀ a v, ms.get a = some v → v.code = code

theorem codesOf_empty (vs : ValidatorSet) (code : MsgCode) : CodesOf (.empty vs) code :=
  fun a v h => by simp at h

theorem CodesOf.add {ms ms' : MessageSet Vote} {code : MsgCode} (h : CodesOf ms code) {a : Address}
    {v : Vote} (hadd : ms.add a v = .ok ms') (hv : v.code = code) : CodesOf ms' code := by
  obtain ⟨-, rfl⟩ := (MessageSet.add_ok_iff ms ms' a v).mp hadd
  intro k w hw
  simp only [MessageSet.get] at hw
  by_cases hk : k = a
  · subst hk
    rw [AList.lookup_insert, Option.some_inj] at hw
    exact hw ▸ hv
  · rw [AList.lookup_insert_ne hk] at hw
    exact h k w hw

theorem CodesOf.mem {ms : MessageSet Vote} {code : MsgCode} (h : CodesOf ms code) {v : Vote}
    (hv : v ∈ ms.values) : v.code = code := by
  obtain ⟨a, ha⟩ := (MessageSet.mem_values_iff ms v).mp hv
  exact h a v ha

/-- The PREPAREs of the round are PREPAREs and its COMMITs are COMMITs, and
a PREPREPARE is held only with a validator set that is not empty. -/
structure HeldVotes (c : Core) : Prop where
  prepares : CodesOf c.current.prepares .prepare
  commits : CodesOf c.current.commits .commit
  valSet_pos : c.current.preprepareV2.isSome → 0 < c.current.validatorSet.size

/-- A move within a sequence: its validator set stays, and the held votes
keep their codes. -/
structure KeepsVotes (c c' : Core) : Prop where
  held : HeldVotes c'
  valSet_eq : c'.current.validatorSet = c.current.validatorSet

namespace HeldVotes

variable {c c' : Core}

theorem of_eq (h : HeldVotes c) (hp : c'.current.prepares = c.current.prepares)
    (hc : c'.current.commits = c.current.commits)
    (hpp : c'.current.preprepareV2 = c.current.preprepareV2)
    (hvs : c'.current.validatorSet = c.current.validatorSet) : HeldVotes c' :=
  ⟨hp ▸ h.prepares, hc ▸ h.commits, fun hs => hvs ▸ h.valSet_pos (hpp ▸ hs)⟩

theorem frame (h : HeldVotes c) (hf : Frame c c') : HeldVotes c' :=
  h.of_eq hf.prepares_eq hf.commits_eq hf.preprepareV2_eq hf.validatorSet_eq

/-- A fresh round holds no votes and no PREPREPARE. -/
theorem changeRound (c : Core) (r : Nat) (vs : ValidatorSet) (vp : Validator) :
    HeldVotes (c.setCurrent (c.current.changeRound r vs vp)) :=
  ⟨codesOf_empty _ _, codesOf_empty _ _, fun hs => by simp [RoundState.changeRound] at hs⟩

end HeldVotes

namespace KeepsVotes

variable {c c' c'' : Core}

theorem refl (h : HeldVotes c) : KeepsVotes c c := ⟨h, rfl⟩

theorem of_frame (h : HeldVotes c) (hf : Frame c c') : KeepsVotes c c' :=
  ⟨h.frame hf, hf.validatorSet_eq⟩

theorem trans (h : KeepsVotes c c') (h' : KeepsVotes c' c'') : KeepsVotes c c'' :=
  ⟨h'.held, h'.valSet_eq.trans h.valSet_eq⟩

theorem trans_frame (h : KeepsVotes c c') (hf : Frame c' c'') : KeepsVotes c c'' :=
  h.trans (of_frame h.held hf)

/-- A new round state with the votes, PREPREPARE and validator set of the old. -/
theorem setCurrent (h : HeldVotes c) {rs : RoundState} (hp : rs.prepares = c.current.prepares)
    (hc : rs.commits = c.current.commits) (hpp : rs.preprepareV2 = c.current.preprepareV2)
    (hvs : rs.validatorSet = c.current.validatorSet) : KeepsVotes c (c.setCurrent rs) :=
  ⟨h.of_eq hp hc hpp hvs, hvs⟩

end KeepsVotes

namespace Core

variable {cfg : Config} {b : Backend} {c : Core}

/-! ### The moves of the round -/

theorem keepsVotes_startNewRound (h : HeldVotes c) (r : Nat) (propose : Bool) :
    KeepsVotes c (startNewRound cfg b c r propose).1 := by
  rcases @startNewRound_cases cfg b c r propose with heq | ⟨-, vp, hf⟩
  · rw [heq]
    exact KeepsVotes.refl h
  · -- the round starts afresh under the same validator set
    have hk : KeepsVotes c (c.setCurrent (c.current.startNewRound r c.current.validatorSet vp)) :=
      ⟨HeldVotes.changeRound c r _ vp, rfl⟩
    exact hk.trans_frame hf

theorem keepsVotes_waitForDesiredRound (h : HeldVotes c) (r : Nat) :
    KeepsVotes c (waitForDesiredRound cfg b c r).1 := by
  unfold waitForDesiredRound
  split
  · exact KeepsVotes.refl h
  split
  · split <;> exact KeepsVotes.refl h
  split
  · exact KeepsVotes.refl h
  rename_i rs ht
  obtain ⟨-, hrs⟩ := RoundState.transitionToWaitingForNewRound_ok ht
  exact (KeepsVotes.setCurrent h (by rw [hrs]) (by rw [hrs]) (by rw [hrs]) (by rw [hrs])).trans_frame
    sendRoundChange_frame

theorem keepsVotes_commit (h : HeldVotes c) : KeepsVotes c (commit cfg b c).1 := by
  have hk₁ : KeepsVotes c (c.setCurrent c.current.transitionToCommitted) :=
    KeepsVotes.setCurrent h rfl rfl rfl rfl
  unfold commit
  dsimp only
  split
  · exact hk₁
  rename_i p _
  split
  · exact hk₁.trans (keepsVotes_waitForDesiredRound hk₁.held _)
  have hk₂ := hk₁.trans_frame
    (frame_committed _ ((c.setCurrent c.current.transitionToCommitted).committed ++ [p]))
  split
  · exact hk₂.trans (keepsVotes_waitForDesiredRound hk₂.held _)
  · exact hk₂

/-- A new sequence starts with no votes and no PREPREPARE. -/
theorem heldVotes_startNewSequence (h : HeldVotes c) : HeldVotes (startNewSequence cfg b c).1 := by
  unfold startNewSequence
  dsimp only
  split
  · exact h
  have hf := frame_roundChangeSetV2 c (.new (b.validators b.headBlock))
  split
  · exact h.frame (hf.trans (frame_unsubscribe _))
  split
  · exact h.frame hf
  exact ⟨codesOf_empty _ _, codesOf_empty _ _, fun hs => by
    simp [RoundState.startNewSequence, RoundState.changeRound] at hs⟩

theorem keepsVotes_handleRoundChangeCertificateV2 (h : HeldVotes c) (view : View)
    (rcc : RoundChangeCertificateV2) (p : Proposal) :
    KeepsVotes c (handleRoundChangeCertificateV2 cfg b c view rcc p).1 := by
  obtain ⟨c', hf, heq | heq⟩ := @handleRoundChangeCertificateV2_cases cfg b c view rcc p <;> rw [heq]
  · exact KeepsVotes.of_frame h hf
  · exact (KeepsVotes.of_frame h hf).trans (keepsVotes_startNewRound (h.frame hf) _ false)

theorem keepsVotes_send (h : HeldVotes c) (m : Message) : KeepsVotes c (c.send m) :=
  ⟨h.of_eq rfl rfl rfl rfl, rfl⟩

theorem keepsVotes_sendPrepare (h : HeldVotes c) : KeepsVotes c (sendPrepare c) := by
  unfold sendPrepare
  split
  · exact keepsVotes_send h _
  · exact KeepsVotes.refl h

theorem keepsVotes_sendCommit (h : HeldVotes c) : KeepsVotes c (sendCommit b c) := by
  unfold sendCommit
  split
  · split
    · exact keepsVotes_send h _
    · exact KeepsVotes.refl h
  · exact KeepsVotes.refl h

/-- `TransitionToPrepared`, then the COMMIT. -/
theorem keepsVotes_prepared (h : HeldVotes c) {q : Nat} {rs : RoundState}
    (ht : c.current.transitionToPrepared q = .ok rs) : KeepsVotes c (sendCommit b (c.setCurrent rs)) := by
  obtain ⟨p, -, -, rfl⟩ := RoundState.transitionToPrepared_ok ht
  have hk : KeepsVotes c (c.setCurrent { c.current with
      preparedCertificate := ⟨p, c.current.pcMessages q⟩, state := .prepared }) :=
    KeepsVotes.setCurrent h rfl rfl rfl rfl
  exact hk.trans (keepsVotes_sendCommit hk.held)

/-! ### Handlers -/

theorem keepsVotes_handlePreprepareV2 (h : HeldVotes c) (hvs : 0 < c.current.validatorSet.size)
    (sender : Address) (pp : PreprepareV2) :
    KeepsVotes c (handlePreprepareV2 cfg b c sender pp).1 := by
  unfold handlePreprepareV2
  dsimp only
  split
  · exact KeepsVotes.refl h
  split
  · split
    · exact KeepsVotes.refl h
    · split <;> exact KeepsVotes.refl h
  · exact KeepsVotes.refl h
  split
  · exact KeepsVotes.refl h
  split
  · exact KeepsVotes.refl h
  have hchecked : ∀ c₁ e, (if pp.view.round > 0 then
      if pp.roundChangeCertificateV2.isEmpty = true then (c, some Err.missingRoundChangeCertificate)
      else handleRoundChangeCertificateV2 cfg b c pp.view pp.roundChangeCertificateV2 pp.proposal
    else if (!pp.roundChangeCertificateV2.isEmpty) = true then (c, some Err.invalidProposal)
    else (c, none)) = (c₁, e) → KeepsVotes c c₁ := by
    intro c₁ e heq
    split at heq
    · split at heq
      · cases heq
        exact KeepsVotes.refl h
      · rw [← show (handleRoundChangeCertificateV2 cfg b c pp.view pp.roundChangeCertificateV2
            pp.proposal).1 = c₁ by rw [heq]]
        exact keepsVotes_handleRoundChangeCertificateV2 h _ _ _
    · split at heq <;>
      · cases heq
        exact KeepsVotes.refl h
  split
  · rename_i c₁ e heq
    exact hchecked c₁ _ heq
  rename_i c₁ heq
  have hk₁ := hchecked c₁ none heq
  split
  · rename_i c₂ heq₂
    have hf₂ : Frame c₁ c₂ := by
      have := @verifyProposal_frame b c₁ pp.proposal
      rwa [heq₂] at this
    have hk₂ := hk₁.trans_frame hf₂
    split
    · -- the PREPREPARE is held with the validator set the handler started with
      have hk₃ : KeepsVotes c₂ (c₂.setCurrent (c₂.current.transitionToPrepreparedV2 pp)) :=
        ⟨⟨hk₂.held.prepares, hk₂.held.commits, fun _ => hk₂.valSet_eq ▸ hvs⟩, rfl⟩
      exact hk₂.trans (hk₃.trans (keepsVotes_sendPrepare hk₃.held))
    · exact hk₂
  · rename_i c₂ _ _ heq₂
    have hf₂ : Frame c₁ c₂ := by
      have := @verifyProposal_frame b c₁ pp.proposal
      rwa [heq₂] at this
    exact hk₁.trans_frame hf₂

theorem keepsVotes_handlePrepare (h : HeldVotes c) {v : Vote} (hcode : v.code = .prepare) :
    KeepsVotes c (handlePrepare b c v).1 := by
  unfold handlePrepare
  dsimp only
  split
  · exact KeepsVotes.refl h
  split
  · exact KeepsVotes.refl h
  split
  · exact KeepsVotes.refl h
  rename_i rs hadd
  obtain ⟨p, hp, rfl⟩ := RoundState.addPrepare_ok hadd
  -- the PREPARE joins the PREPAREs
  have hk₁ : KeepsVotes c (c.setCurrent { c.current with prepares := p }) :=
    ⟨⟨h.prepares.add hp hcode, h.commits, h.valSet_pos⟩, rfl⟩
  split
  · split
    · exact hk₁
    · exact hk₁.trans (keepsVotes_prepared hk₁.held ‹_›)
  · exact hk₁

theorem keepsVotes_handleCheckedCommitForPreviousSequence (h : HeldVotes c) (v : Vote) :
    KeepsVotes c (handleCheckedCommitForPreviousSequence b c v).1 := by
  unfold handleCheckedCommitForPreviousSequence
  dsimp only
  split
  · exact KeepsVotes.refl h
  split_ifs
  · exact KeepsVotes.refl h
  · exact KeepsVotes.refl h
  · exact KeepsVotes.refl h
  split
  · exact KeepsVotes.refl h
  · exact KeepsVotes.of_frame h (frame_addParentCommit ‹_›)

theorem keepsVotes_handleCheckedCommitForCurrentSequence (h : HeldVotes c) {v : Vote}
    (hcode : v.code = .commit) : KeepsVotes c (handleCheckedCommitForCurrentSequence cfg b c v).1 := by
  unfold handleCheckedCommitForCurrentSequence
  dsimp only
  split
  · exact KeepsVotes.refl h
  split
  · exact KeepsVotes.refl h
  split
  · exact KeepsVotes.refl h
  split
  · exact KeepsVotes.refl h
  split
  · exact KeepsVotes.refl h
  split
  · exact KeepsVotes.refl h
  split
  · exact KeepsVotes.refl h
  rename_i rs hadd
  obtain ⟨p, hp, rfl⟩ := RoundState.addCommit_ok hadd
  -- the COMMIT joins the COMMITs
  have hk₁ : KeepsVotes c (c.setCurrent { c.current with commits := p }) :=
    ⟨⟨h.prepares, h.commits.add hp hcode, h.valSet_pos⟩, rfl⟩
  split
  · exact hk₁.trans (keepsVotes_commit hk₁.held)
  split
  · split
    · exact hk₁
    · exact hk₁.trans (keepsVotes_prepared hk₁.held ‹_›)
  · exact hk₁

theorem keepsVotes_handleCommit (h : HeldVotes c) {v : Vote} (hcode : v.code = .commit) :
    KeepsVotes c (handleCommit cfg b c v).1 := by
  unfold handleCommit
  split
  · split
    · exact KeepsVotes.refl h
    split_ifs
    · exact KeepsVotes.refl h
    · exact KeepsVotes.refl h
    · exact keepsVotes_handleCheckedCommitForPreviousSequence h v
  · exact KeepsVotes.refl h
  · exact keepsVotes_handleCheckedCommitForCurrentSequence h hcode

theorem keepsVotes_handleRoundChangeV2 (h : HeldVotes c) (sender : Address) (rc : RoundChangeV2) :
    KeepsVotes c (handleRoundChangeV2 cfg b c sender rc).1 := by
  unfold handleRoundChangeV2
  dsimp only
  split
  · exact KeepsVotes.refl h
  split
  · exact KeepsVotes.refl h
  split
  · split
    · exact KeepsVotes.of_frame h (frame_send c (fun _ => rfl))
    · exact KeepsVotes.refl h
  · exact KeepsVotes.refl h
  split
  · exact KeepsVotes.refl h
  split
  · exact KeepsVotes.of_frame h (frame_roundChangeV2Checked rc ‹_›)
  rename_i c₁ heq
  have hk₁ := KeepsVotes.of_frame h (frame_roundChangeV2Checked rc heq)
  split
  · exact hk₁.trans_frame (frame_roundChangeSetV2 _ _)
  rename_i rcs _
  have hk₂ := hk₁.trans_frame (frame_roundChangeSetV2 c₁ rcs)
  split
  · split
    · exact hk₂.trans (keepsVotes_startNewRound hk₂.held _ true)
    · split
      · exact hk₂.trans (keepsVotes_waitForDesiredRound hk₂.held _)
      · exact hk₂
  · split
    · exact hk₂.trans (keepsVotes_waitForDesiredRound hk₂.held _)
    · exact hk₂

/-- `FromPayload` accepted the signer, so the validator set is not empty. -/
theorem size_pos_of_checkSignedBy {signer claimed : Address} {wrong : Err}
    (hs : c.checkSignedBy signer claimed wrong = none) : 0 < c.current.validatorSet.size := by
  unfold checkSignedBy at hs
  split_ifs at hs with hc
  exact ValidatorSet.size_pos_of_contains (by simpa using hc)

theorem keepsVotes_handleMsg (h : HeldVotes c) (m : Message) :
    KeepsVotes c (handleMsg cfg b c m).1 := by
  unfold handleMsg
  split
  · exact KeepsVotes.refl h
  rename_i hsig
  split
  · exact keepsVotes_handlePreprepareV2 h (size_pos_of_checkSignedBy hsig) _ _
  · split
    · exact keepsVotes_handlePrepare h ‹_›
    · exact keepsVotes_handleCommit h ‹_›
    · exact KeepsVotes.refl h
  · exact keepsVotes_handleRoundChangeV2 h _ _

theorem keepsVotes_handleRequest (h : HeldVotes c) (p : Proposal) :
    KeepsVotes c (handleRequest c p).1 := by
  unfold handleRequest
  dsimp only
  split_ifs
  · exact KeepsVotes.refl h
  · exact KeepsVotes.refl h
  · exact KeepsVotes.of_frame h ((frame_setPendingRequest c _).trans (sendPreprepareV2_frame _ _))
  · exact KeepsVotes.of_frame h (frame_setPendingRequest c _)

theorem keepsVotes_handleTimeoutAndMoveToNextRound (h : HeldVotes c) (v : View) :
    KeepsVotes c (handleTimeoutAndMoveToNextRound cfg b c v).1 := by
  unfold handleTimeoutAndMoveToNextRound
  split_ifs
  · exact KeepsVotes.refl h
  · exact keepsVotes_waitForDesiredRound h _

theorem keepsVotes_handleResendRoundChangeEvent (h : HeldVotes c) (v : View) :
    KeepsVotes c (handleResendRoundChangeEvent cfg c v).1 := by
  unfold handleResendRoundChangeEvent
  split_ifs
  · exact KeepsVotes.refl h
  · exact KeepsVotes.of_frame h sendRoundChange_frame
  · exact KeepsVotes.refl h

theorem heldVotes_handleEvent (h : HeldVotes c) (e : Event) : HeldVotes (c.handleEvent cfg b e) := by
  cases e with
  | message m =>
    unfold handleEvent
    split_ifs
    · exact (keepsVotes_handleMsg h m).held
    · exact h
  | request p =>
    unfold handleEvent
    split_ifs
    · exact (keepsVotes_handleRequest h p).held
    · exact h
  | timeoutAndMoveToNextRound v =>
    unfold handleEvent
    split_ifs
    · exact (keepsVotes_handleTimeoutAndMoveToNextRound h v).held
    · exact h
  | resendRoundChange v =>
    unfold handleEvent
    split_ifs
    · exact (keepsVotes_handleResendRoundChangeEvent h v).held
    · exact h
  | finalCommitted =>
    unfold handleEvent
    split_ifs
    · exact heldVotes_startNewSequence h
    · exact h

end Core

theorem HeldVotes.new (a : Address) (v : View) (vs : ValidatorSet) (vp : Validator) (e : Hash) :
    HeldVotes (Core.new a v vs vp e) :=
  ⟨codesOf_empty _ _, codesOf_empty _ _, fun hs => by simp [Core.new, RoundState.new] at hs⟩

/-- Along every run the vote sets hold votes of their own code. -/
theorem heldVotes_run (cfg : Config) (a : Address) (v : View) (vs : ValidatorSet) (vp : Validator)
    (e : Hash) (es : List (Backend × Event)) :
    HeldVotes (Run.run (Core.step cfg) (Core.new a v vs vp e) es) :=
  Run.run_invariant (Core.step cfg) HeldVotes (fun _ be h => Core.heldVotes_handleEvent h be.2) es _
    (HeldVotes.new a v vs vp e)

/-! ## The certificate `TransitionToPrepared` builds -/

namespace RoundState

variable {rs : RoundState} {vs : ValidatorSet} {t : Subject}

/-- The certificate's senders are distinct: the PREPAREs' are the keys of
their set, and a COMMIT is taken only from a validator without a PREPARE. -/
theorem nodup_pcMessages (hp : VotesFor rs.prepares vs (some t)) (hc : VotesFor rs.commits vs (some t))
    (q : Nat) : ((rs.pcMessages q).map (·.address)).Nodup := by
  have hpn : (rs.prepares.values.map (·.address)).Nodup := by
    rw [hp.map_address]
    exact rs.prepares.messages.keys_nodup
  have hcn : (rs.commits.values.map (·.address)).Nodup := by
    rw [hc.map_address]
    exact rs.commits.messages.keys_nodup
  unfold pcMessages
  dsimp only
  rw [List.map_append, List.nodup_append]
  refine ⟨?_, ?_, ?_⟩
  · rw [List.map_take]
    exact hpn.sublist (List.take_sublist _ _)
  · rw [List.map_take]
    exact (hcn.sublist (List.filter_sublist.map _)).sublist (List.take_sublist _ _)
  · -- a sender among the PREPAREs is no sender of a COMMIT taken
    intro a ha a' ha' heq
    subst heq
    obtain ⟨m, hm, rfl⟩ := List.mem_map.mp ha
    obtain ⟨m', hm', hmm'⟩ := List.mem_map.mp ha'
    have hfree := (List.mem_filter.mp (List.mem_of_mem_take hm')).2
    obtain ⟨k, hk⟩ := (MessageSet.mem_values_iff _ m).mp (List.mem_of_mem_take hm)
    have hkm : m.address = k := (hp.keyed k m hk).1
    rw [hmm', hkm, hk] at hfree
    cases hfree

/-- Every message of the certificate is a PREPARE or COMMIT from a validator,
for the round's subject. -/
theorem mem_pcMessages (hp : VotesFor rs.prepares vs (some t)) (hc : VotesFor rs.commits vs (some t))
    (hcp : CodesOf rs.prepares .prepare) (hcc : CodesOf rs.commits .commit) {q : Nat} {m : Vote}
    (hm : m ∈ rs.pcMessages q) :
    (m.code = .prepare ∨ m.code = .commit) ∧ m.subject = t ∧ vs.containsByAddress m.address := by
  unfold pcMessages at hm
  dsimp only at hm
  rcases List.mem_append.mp hm with hm | hm
  · have hmv := List.mem_of_mem_take hm
    obtain ⟨k, hk⟩ := (MessageSet.mem_values_iff _ m).mp hmv
    obtain ⟨rfl, hcont, -⟩ := hp.keyed k m hk
    exact ⟨.inl (hcp.mem hmv), hp.subject_eq hmv, hcont⟩
  · have hmv := (List.mem_filter.mp (List.mem_of_mem_take hm)).1
    obtain ⟨k, hk⟩ := (MessageSet.mem_values_iff _ m).mp hmv
    obtain ⟨rfl, hcont, -⟩ := hc.keyed k m hk
    exact ⟨.inr (hcc.mem hmv), hc.subject_eq hmv, hcont⟩

end RoundState

/-! ## The certificate check -/

/-- The BLS checks of a COMMIT of a certificate for `p`, against the
validators `vs`: its committed seal, and its epoch seal against the validators
after `p`. -/
def SealsVerify (b : Backend) (vs : ValidatorSet) (p : Proposal) (m : Vote) : Prop :=
  ∀ src, vs.getByAddress m.address = some src →
    b.verifyCommittedSeal m src = true ∧
      ∃ nv, b.nextBlockValidators p = some nv ∧
        Core.verifyEpochValidatorSetSeal b m (uint64 p.number) nv src = true

/-- What one message of a prepared certificate needs to pass
`verifyProposalPrepareOrCommitMessage` at `c` for `view` and `p`: signed by
its sender, a validator; a PREPARE or COMMIT, a COMMIT with valid seals; and
it votes for `p` in `view`. -/
structure ValidPCMessage (b : Backend) (c : Core) (p : Proposal) (view : View) (m : Vote) : Prop where
  signed : m.signer = m.address
  member : c.current.validatorSet.containsByAddress m.address
  code : m.code = .prepare ∨ m.code = .commit
  seals : m.code = .commit → SealsVerify b c.current.validatorSet p m
  subject : m.subject = ⟨view, p.hash⟩

namespace Core

variable {b : Backend} {c : Core} {p : Proposal} {view : View}

theorem verifyProposalPrepareOrCommitMessage_ok {m : Vote} (hm : ValidPCMessage b c p view m)
    (hseq : view.sequence = c.current.sequence) {seen : List Address} (hseen : m.address ∉ seen) :
    verifyProposalPrepareOrCommitMessage b c p m seen = .ok (view, m.address :: seen) := by
  have hsig : c.checkSignedBy m.signer m.address .invalidPreparedCertificateMsgSignature = none := by
    simp [checkSignedBy, hm.signed, hm.member]
  unfold verifyProposalPrepareOrCommitMessage
  rw [hsig]
  dsimp only
  rw [if_neg hseen, if_neg (by rcases hm.code with h | h <;> simp [h])]
  rcases hm.code with hcode | hcode
  · simp [hcode, hm.subject, hseq]
  · -- a COMMIT also passes the seal checks
    obtain ⟨src, hsrc, -⟩ := ValidatorSet.getByAddress_of_contains hm.member
    obtain ⟨hseal, nv, hnv, hep⟩ := hm.seals hcode src hsrc
    simp [hcode, hsrc, hseal, hnv, hep, hm.subject, hseq]

/-- Valid messages from distinct senders, all for `view`, pass the loop of
`verifyProposalAndPCMessages`, which returns `view` once it has seen one. -/
theorem verifyPCMessages_ok (hseq : view.sequence = c.current.sequence) :
    ∀ (ms : List Vote) (seen : List Address) (acc : Option View),
      (∀ m ∈ ms, ValidPCMessage b c p view m) → (ms.map (·.address)).Nodup →
      (∀ m ∈ ms, m.address ∉ seen) → (acc = none ∨ acc = some view) →
      verifyPCMessages b c p ms seen acc = .ok (if ms = [] then acc else some view)
  | [], _, _, _, _, _, _ => rfl
  | m :: ms, seen, acc, hvalid, hnd, hseen, hacc => by
    obtain ⟨hm, hnd⟩ := List.nodup_cons.mp hnd
    have hseen' : ∀ m' ∈ ms, m'.address ∉ m.address :: seen := by
      intro m' hm' hin
      rcases List.mem_cons.mp hin with heq | hin
      · apply hm
        show m.address ∈ ms.map (·.address)
        rw [← heq]
        exact List.mem_map_of_mem hm'
      · exact hseen m' (List.mem_cons_of_mem m hm') hin
    have ih := verifyPCMessages_ok hseq ms (m.address :: seen) (some view)
      (fun m' hm' => hvalid m' (List.mem_cons_of_mem m hm')) hnd hseen' (.inr rfl)
    rw [verifyPCMessages,
      verifyProposalPrepareOrCommitMessage_ok (hvalid m List.mem_cons_self) hseq
        (hseen m List.mem_cons_self)]
    rcases hacc with rfl | rfl
    · dsimp only
      rw [ih, if_neg (List.cons_ne_nil m ms), ite_self]
    · dsimp only
      rw [if_neg (by rw [ne_eq, View.cmp_eq_iff]; exact not_not.mpr rfl), ih,
        if_neg (List.cons_ne_nil m ms), ite_self]

end Core

/-- `verifyProposalAndPCMessages` accepts a certificate of valid messages
from distinct senders, all for `view`, between `MinQuorumSize` and `Size` of
them, once the proposal verifies; it returns `view`. -/
theorem verifyProposalAndPCMessages_ok {b : Backend} {c : Core} {p : Proposal} {view : View}
    {ms : List Vote} (hver : (Core.verifyProposal b c p).2 = .ok)
    (hseq : view.sequence = c.current.sequence)
    (hlen : c.current.validatorSet.minQuorumSize ≤ ms.length ∧ ms.length ≤ c.current.validatorSet.size)
    (hne : ms ≠ []) (hnd : (ms.map (·.address)).Nodup)
    (hvalid : ∀ m ∈ ms, ValidPCMessage b c p view m) :
    Core.verifyProposalAndPCMessages b c p ms = ((Core.verifyProposal b c p).1, .ok (some view)) := by
  have hf := @Core.verifyProposal_frame b c p
  rcases hvp : Core.verifyProposal b c p with ⟨c'', vr⟩
  rw [hvp] at hver hf
  simp only at hver hf
  subst hver
  -- the proposal's verification changes nothing the messages are checked against
  have hvalid' : ∀ m ∈ ms, ValidPCMessage b c'' p view m := fun m hm =>
    let hm := hvalid m hm
    ⟨hm.signed, hf.validatorSet_eq ▸ hm.member, hm.code, hf.validatorSet_eq ▸ hm.seals, hm.subject⟩
  unfold Core.verifyProposalAndPCMessages
  rw [hvp]
  dsimp only
  rw [if_neg (not_not.mpr rfl), if_neg (by rw [hf.validatorSet_eq]; omega),
    Core.verifyPCMessages_ok (hf.sequence_eq ▸ hseq) ms [] none hvalid' hnd (fun _ _ => List.not_mem_nil)
      (.inl rfl), if_neg hne]

/-! ## Along a run -/

/-- **Prepared certificates built and checked agree.**  Along every run, the
certificate `TransitionToPrepared` builds has `quorumSize` messages from as
many validators, each a PREPARE or COMMIT for the round's view and the
preprepared proposal.  Once `quorumSize` reaches `MinQuorumSize`, a core of
the same sequence and validator set, for which the proposal and the
messages' signatures verify, accepts the certificate for the round's view;
so does its check of the round change `buildSignedRoundChangeMsgV2` sends
with it for any round from the certificate's on. -/
theorem preparedCertificate_passes_checks (cfg : Config) (a : Address) (v : View) (vs : ValidatorSet)
    (vp : Validator) (e : Hash) (es : List (Backend × Event)) (q : Nat) (rs : RoundState)
    (ht : (Run.run (Core.step cfg) (Core.new a v vs vp e) es).current.transitionToPrepared q = .ok rs) :
    let c := Run.run (Core.step cfg) (Core.new a v vs vp e) es
    let pc := rs.preparedCertificate
    some pc.proposal = c.current.proposal ∧
    pc.prepareOrCommitMessages.length = q ∧
    (pc.prepareOrCommitMessages.map (·.address)).Nodup ∧
    (∀ m ∈ pc.prepareOrCommitMessages, (m.code = .prepare ∨ m.code = .commit) ∧
      m.subject = ⟨c.current.view, pc.proposal.hash⟩ ∧
      c.current.validatorSet.containsByAddress m.address) ∧
    (c.current.validatorSet.minQuorumSize ≤ q →
      ∀ (b' : Backend) (c' : Core), c'.current.validatorSet = c.current.validatorSet →
        c'.current.sequence = c.current.sequence →
        (Core.verifyProposal b' c' pc.proposal).2 = .ok →
        (∀ m ∈ pc.prepareOrCommitMessages, m.signer = m.address ∧
          (m.code = .commit → SealsVerify b' c.current.validatorSet pc.proposal m)) →
        Core.verifyProposalAndPCMessages b' c' pc.proposal pc.prepareOrCommitMessages =
            ((Core.verifyProposal b' c' pc.proposal).1, .ok (some c.current.view)) ∧
          ∀ (c₁ : Core), c₁.current.preparedCertificate = pc → ∀ d, c.current.round ≤ d →
            ∃ rc, Core.buildSignedRoundChangeMsgV2 cfg c₁ d = .roundChangeV2 c₁.address c₁.address rc ∧
              rc.request.view = ⟨c₁.current.sequence, d⟩ ∧
              rc.proposalMatch = true ∧ rc.request.hasPreparedCertificate = true ∧
              Core.verifyProposalAndPCMessages b' c' rc.preparedProposal
                  rc.request.preparedCertificateV2.prepareOrCommitMessages =
                ((Core.verifyProposal b' c' pc.proposal).1, .ok (some c.current.view)) ∧
              ¬ c.current.view.round > rc.request.view.round) := by
  obtain ⟨p, hp, hlen, rfl⟩ := RoundState.transitionToPrepared_ok ht
  intro c pc
  have hinv := coreInv_run cfg a v vs vp e es
  have hheld := heldVotes_run cfg a v vs vp e es
  obtain ⟨pp, hpp, rfl⟩ : ∃ pp, c.current.preprepareV2 = some pp ∧ pp.proposal = p := by
    simpa [RoundState.proposal] using hp
  -- both vote sets hold votes for the preprepared proposal in the current view
  have hsubj : c.current.subject = some ⟨c.current.view, pp.proposal.hash⟩ := by
    simp [RoundState.subject, hpp]
  have hP := hinv.prepares
  have hC := hinv.commits
  rw [hsubj] at hP hC
  have hmem : ∀ m ∈ c.current.pcMessages q, (m.code = .prepare ∨ m.code = .commit) ∧
      m.subject = ⟨c.current.view, pp.proposal.hash⟩ ∧
      c.current.validatorSet.containsByAddress m.address :=
    fun m hm => RoundState.mem_pcMessages hP hC hheld.prepares hheld.commits hm
  have hnd := RoundState.nodup_pcMessages hP hC q
  refine ⟨hp.symm, hlen, hnd, hmem, ?_⟩
  intro hq b' c' hvs' hseq' hver hsigned
  -- a held preprepare means validators, so the quorum and the certificate are not empty
  have hpos : 0 < c.current.validatorSet.size := hheld.valSet_pos (by rw [hpp]; rfl)
  have hne : c.current.pcMessages q ≠ [] := by
    intro h
    rw [h, List.length_nil] at hlen
    unfold ValidatorSet.minQuorumSize at hq
    omega
  have hle : q ≤ c.current.validatorSet.size := by
    have := ValidatorSet.length_le_size hnd fun a ha => by
      obtain ⟨m, hm, rfl⟩ := List.mem_map.mp ha
      exact (hmem m hm).2.2
    rwa [List.length_map, hlen] at this
  have hverify : Core.verifyProposalAndPCMessages b' c' pp.proposal (c.current.pcMessages q) =
      ((Core.verifyProposal b' c' pp.proposal).1, .ok (some c.current.view)) := by
    refine verifyProposalAndPCMessages_ok hver hseq'.symm ?_ hne hnd fun m hm => ?_
    · rw [hvs', hlen]
      exact ⟨hq, hle⟩
    · obtain ⟨hcode, hsub, hcont⟩ := hmem m hm
      exact ⟨(hsigned m hm).1, hvs' ▸ hcont, hcode, hvs' ▸ (hsigned m hm).2, hsub⟩
  refine ⟨hverify, fun c₁ hc₁ d hd => ?_⟩
  have hpc : (!c₁.current.preparedCertificate.isEmpty) = true := by
    simpa [hc₁, pc, PreparedCertificate.isEmpty] using hne
  refine ⟨⟨⟨c₁.address, ⟨c₁.current.sequence, d⟩, pcv2FromPCV1 pc, c₁.address⟩, pc.proposal⟩,
    ?_, rfl, ?_, ?_, hverify, ?_⟩
  · unfold Core.buildSignedRoundChangeMsgV2
    dsimp only
    rw [if_pos hpc, hc₁]
  · simp [RoundChangeV2.proposalMatch, pcv2FromPCV1]
  · simpa [RoundChangeRequest.hasPreparedCertificate, PreparedCertificateV2.isEmpty, pcv2FromPCV1, pc]
      using hne
  · show ¬ c.current.round > d
    omega

/-- The PREPREPARE of round 0 and the PREPAREs of `1`, `2`, `3` for it,
delivered to validator `4` of the four-validator network. -/
def round0Prepares : List (Backend × Event) :=
  (SplitCommit.genesisBackend, .message (.preprepareV2 1 1 ⟨⟨1, 0⟩, SplitCommit.blockW, ⟨[]⟩⟩)) ::
    [1, 2, 3].map fun a => (SplitCommit.genesisBackend, .message (SplitCommit.prepareOf a 0 100))

/-- Validator `4` after them: prepared, with a certificate of three PREPAREs. -/
def round0Core : Core :=
  Run.run (Core.step SplitCommit.roundRobinConfig) (SplitCommit.initialCore 4) round0Prepares

theorem preparedCertificate_passes_checks_round0 :
    round0Core.current.transitionToPrepared 3 = .ok round0Core.current ∧
    let c := round0Core
    let pc := round0Core.current.preparedCertificate
    some pc.proposal = c.current.proposal ∧
    pc.prepareOrCommitMessages.length = 3 ∧
    (pc.prepareOrCommitMessages.map (·.address)).Nodup ∧
    (∀ m ∈ pc.prepareOrCommitMessages, (m.code = .prepare ∨ m.code = .commit) ∧
      m.subject = ⟨c.current.view, pc.proposal.hash⟩ ∧
      c.current.validatorSet.containsByAddress m.address) ∧
    (c.current.validatorSet.minQuorumSize ≤ 3 →
      ∀ (b' : Backend) (c' : Core), c'.current.validatorSet = c.current.validatorSet →
        c'.current.sequence = c.current.sequence →
        (Core.verifyProposal b' c' pc.proposal).2 = .ok →
        (∀ m ∈ pc.prepareOrCommitMessages, m.signer = m.address ∧
          (m.code = .commit → SealsVerify b' c.current.validatorSet pc.proposal m)) →
        Core.verifyProposalAndPCMessages b' c' pc.proposal pc.prepareOrCommitMessages =
            ((Core.verifyProposal b' c' pc.proposal).1, .ok (some c.current.view)) ∧
          ∀ (c₁ : Core), c₁.current.preparedCertificate = pc → ∀ d, c.current.round ≤ d →
            ∃ rc, Core.buildSignedRoundChangeMsgV2 SplitCommit.roundRobinConfig c₁ d =
                .roundChangeV2 c₁.address c₁.address rc ∧
              rc.request.view = ⟨c₁.current.sequence, d⟩ ∧
              rc.proposalMatch = true ∧ rc.request.hasPreparedCertificate = true ∧
              Core.verifyProposalAndPCMessages b' c' rc.preparedProposal
                  rc.request.preparedCertificateV2.prepareOrCommitMessages =
                ((Core.verifyProposal b' c' pc.proposal).1, .ok (some c.current.view)) ∧
              ¬ c.current.view.round > rc.request.view.round) :=
  ⟨by rfl, preparedCertificate_passes_checks SplitCommit.roundRobinConfig 4 ⟨1, 0⟩
    SplitCommit.fourValidators ⟨1, 11⟩ 999 round0Prepares 3 round0Core.current (by rfl)⟩

end CeloBlockchain.Ibft
