import CeloBlockchain.Ibft.Core
import Mathlib.Data.Finset.Card

/-!
# Votes sent and quorums held

What the agreement argument reads of a core: the PREPAREs and COMMITs among
the messages it has sent (`sentVotes`), and the validators whose votes for a
subject its round state holds (`RoundState.votersFor`).  `VotesFor` is the
shape of a vote set of the round: keyed by sender, senders validators, all
for one subject.  Under it, `GetPrepareOrCommitSize` counts exactly the
distinct validators that voted (`getPrepareOrCommitSize_eq_card`).
-/

namespace CeloBlockchain.Ibft


/-! ## Votes among sent messages -/

/-- The subject of a message if it is a vote of code `code`. -/
def Message.voteSubject (code : MsgCode) : Message → Option Subject
  | .vote v => if v.code = code then some v.subject else none
  | _ => none

/-- The subjects of the votes of code `code` among `ms`, in order. -/
def sentVotes (code : MsgCode) (ms : List Message) : List Subject :=
  ms.filterMap (Message.voteSubject code)

@[simp] theorem sentVotes_nil (code : MsgCode) : sentVotes code [] = [] := rfl

@[simp] theorem sentVotes_append (code : MsgCode) (ms ms' : List Message) :
    sentVotes code (ms ++ ms') = sentVotes code ms ++ sentVotes code ms' :=
  List.filterMap_append

@[simp] theorem sentVotes_preprepareV2 (code : MsgCode) (a s : Address) (pp : PreprepareV2) :
    sentVotes code [.preprepareV2 a s pp] = [] := rfl

@[simp] theorem sentVotes_roundChangeV2 (code : MsgCode) (a s : Address) (rc : RoundChangeV2) :
    sentVotes code [.roundChangeV2 a s rc] = [] := rfl

theorem sentVotes_vote (code : MsgCode) (v : Vote) :
    sentVotes code [.vote v] = if v.code = code then [v.subject] else [] := by
  by_cases h : v.code = code <;> simp [sentVotes, Message.voteSubject, h]

/-! ## Quorums -/

/-- The validators from which the round state holds a PREPARE or a COMMIT
for `s`. -/
def RoundState.votersFor (rs : RoundState) (s : Subject) : Finset Address :=
  (((rs.prepares.values ++ rs.commits.values).filter (·.subject = s)).map (·.address)).toFinset

/-- PREPAREs or COMMITs for `s` from at least `MinQuorumSize` distinct
validators of the round's set. -/
def RoundState.QuorumFor (rs : RoundState) (s : Subject) : Prop :=
  rs.validatorSet.minQuorumSize ≤ (rs.votersFor s).card ∧
    ∀ a ∈ rs.votersFor s, rs.validatorSet.containsByAddress a

/-- A vote set of the round: its messages are keyed by their sender, a
validator of `vs`, and vote for `s`. -/
structure VotesFor (ms : MessageSet Vote) (vs : ValidatorSet) (s : Option Subject) : Prop where
  valSet_eq : ms.valSet = vs
  keyed : ∀ a v, ms.get a = some v → v.address = a ∧ vs.containsByAddress a ∧ some v.subject = s

namespace VotesFor

variable {ms ms' : MessageSet Vote} {vs : ValidatorSet} {s : Option Subject}

theorem empty (vs : ValidatorSet) (s : Option Subject) : VotesFor (.empty vs) vs s :=
  ⟨rfl, fun a v h => by simp at h⟩

theorem add {v : Vote} (h : VotesFor ms vs s) (hadd : ms.add v.address v = .ok ms')
    (hs : some v.subject = s) : VotesFor ms' vs s := by
  obtain ⟨hcont, rfl⟩ := (MessageSet.add_ok_iff ms ms' v.address v).mp hadd
  refine ⟨h.valSet_eq, fun a w hw => ?_⟩
  simp only [MessageSet.get] at hw
  by_cases ha : a = v.address
  · subst ha
    rw [AList.lookup_insert, Option.some.injEq] at hw
    subst hw
    exact ⟨rfl, h.valSet_eq ▸ hcont, hs⟩
  · rw [AList.lookup_insert_ne ha] at hw
    exact h.keyed a w hw

/-- The senders of the votes are the keys of the set. -/
theorem map_address (h : VotesFor ms vs s) : ms.values.map (·.address) = ms.addresses := by
  unfold MessageSet.values MessageSet.addresses AList.keys List.keys
  rw [List.map_map]
  apply List.map_congr_left
  intro ⟨a, v⟩ hmem
  exact (h.keyed a v (AList.mem_lookup_iff.mpr hmem)).1

theorem subject_eq {v : Vote} {t : Subject} (h : VotesFor ms vs (some t)) (hv : v ∈ ms.values) :
    v.subject = t := by
  obtain ⟨a, ha⟩ := (MessageSet.mem_values_iff ms v).mp hv
  exact Option.some.inj (h.keyed a v ha).2.2

/-- Adding a vote keeps every held vote, except the sender's earlier one. -/
theorem values_add {v : Vote} (h : VotesFor ms vs s) (hadd : ms.add v.address v = .ok ms') :
    v ∈ ms'.values ∧ ∀ w ∈ ms.values, w ∈ ms'.values ∨ w.address = v.address := by
  obtain ⟨_, rfl⟩ := (MessageSet.add_ok_iff ms ms' v.address v).mp hadd
  constructor
  · rw [MessageSet.mem_values_iff]
    exact ⟨v.address, by simp [MessageSet.get]⟩
  · intro w hw
    obtain ⟨a, ha⟩ := (MessageSet.mem_values_iff ms w).mp hw
    by_cases hav : a = v.address
    · right
      rw [← hav]
      exact (h.keyed a w ha).1
    · left
      rw [MessageSet.mem_values_iff]
      refine ⟨a, ?_⟩
      simp only [MessageSet.get, AList.lookup_insert_ne hav]
      exact ha

end VotesFor

/-- Distinct elements of two duplicate-free lists. -/
theorem card_toFinset_append {α : Type} [DecidableEq α] {l₁ l₂ : List α} (h₁ : l₁.Nodup)
    (h₂ : l₂.Nodup) :
    (l₁ ++ l₂).toFinset.card = l₁.length + l₂.length - (l₁.filter (· ∈ l₂)).length := by
  have hinter : l₁.toFinset ∩ l₂.toFinset = (l₁.filter (· ∈ l₂)).toFinset := by
    ext a
    simp
  have hunion := Finset.card_union_add_card_inter l₁.toFinset l₂.toFinset
  rw [hinter, List.toFinset_card_of_nodup (h₁.filter _), List.toFinset_card_of_nodup h₁,
    List.toFinset_card_of_nodup h₂, ← List.toFinset_append] at hunion
  omega

/-- When both vote sets vote for `t`, `GetPrepareOrCommitSize` counts the
validators that voted for `t`. -/
theorem RoundState.getPrepareOrCommitSize_eq_card {rs : RoundState} {vs : ValidatorSet}
    {t : Subject} (hp : VotesFor rs.prepares vs (some t)) (hc : VotesFor rs.commits vs (some t)) :
    rs.getPrepareOrCommitSize = (rs.votersFor t).card := by
  have hfilter : (rs.prepares.values ++ rs.commits.values).filter (·.subject = t) =
      rs.prepares.values ++ rs.commits.values := by
    apply List.filter_eq_self.mpr
    intro v hv
    rcases List.mem_append.mp hv with hv | hv
    · simp [hp.subject_eq hv]
    · simp [hc.subject_eq hv]
  have hvoters : rs.votersFor t = (rs.prepares.addresses ++ rs.commits.addresses).toFinset := by
    rw [RoundState.votersFor, hfilter, List.map_append, hp.map_address, hc.map_address]
  have hboth : (rs.prepares.values.filter fun m => (rs.commits.get m.address).isSome).length =
      (rs.prepares.addresses.filter (· ∈ rs.commits.addresses)).length := by
    rw [← hp.map_address, List.filter_map, List.length_map]
    congr 1
    apply List.filter_congr
    intro m _
    rw [Bool.eq_iff_iff, Function.comp_apply, decide_eq_true_iff]
    exact AList.lookup_isSome
  have hp_nodup : rs.prepares.addresses.Nodup := rs.prepares.messages.keys_nodup
  have hc_nodup : rs.commits.addresses.Nodup := rs.commits.messages.keys_nodup
  rw [RoundState.getPrepareOrCommitSize, hvoters, card_toFinset_append hp_nodup hc_nodup, hboth]
  rfl

namespace RoundState

variable {rs rs' : RoundState} {t : Subject}

theorem mem_votersFor {a : Address} :
    a ∈ rs.votersFor t ↔ (∃ w ∈ rs.prepares.values, w.subject = t ∧ w.address = a) ∨
      ∃ w ∈ rs.commits.values, w.subject = t ∧ w.address = a := by
  simp [votersFor, List.mem_filter, and_assoc]

/-- The voters of the round are validators of its set. -/
theorem votersFor_valid {vs : ValidatorSet} {s : Option Subject}
    (hp : VotesFor rs.prepares vs s) (hc : VotesFor rs.commits vs s) :
    ∀ a ∈ rs.votersFor t, vs.containsByAddress a := by
  intro a ha
  rcases mem_votersFor.mp ha with ⟨w, hw, -, rfl⟩ | ⟨w, hw, -, rfl⟩
  · obtain ⟨k, hk⟩ := (MessageSet.mem_values_iff _ w).mp hw
    obtain ⟨rfl, hcont, -⟩ := hp.keyed k w hk
    exact hcont
  · obtain ⟨k, hk⟩ := (MessageSet.mem_values_iff _ w).mp hw
    obtain ⟨rfl, hcont, -⟩ := hc.keyed k w hk
    exact hcont

/-- `AddPrepare` stores the vote in the PREPAREs and changes nothing else. -/
theorem addPrepare_ok {m : Vote} (h : rs.addPrepare m = .ok rs') :
    ∃ p, rs.prepares.add m.address m = .ok p ∧ rs' = { rs with prepares := p } := by
  unfold addPrepare at h
  cases hp : rs.prepares.add m.address m with
  | error e => simp [hp, Except.map] at h
  | ok p =>
    simp only [hp, Except.map, Except.ok.injEq] at h
    exact ⟨p, rfl, h.symm⟩

/-- `AddCommit` stores the vote in the COMMITs and changes nothing else. -/
theorem addCommit_ok {m : Vote} (h : rs.addCommit m = .ok rs') :
    ∃ p, rs.commits.add m.address m = .ok p ∧ rs' = { rs with commits := p } := by
  unfold addCommit at h
  cases hp : rs.commits.add m.address m with
  | error e => simp [hp, Except.map] at h
  | ok p =>
    simp only [hp, Except.map, Except.ok.injEq] at h
    exact ⟨p, rfl, h.symm⟩

/-- The voters for `t` are kept when every held vote for `t` is kept, or
replaced by another vote for `t` of its sender. -/
theorem votersFor_subset
    (hkeep : ∀ w ∈ rs.prepares.values ++ rs.commits.values, w.subject = t →
      ∃ w' ∈ rs'.prepares.values ++ rs'.commits.values, w'.subject = t ∧ w'.address = w.address) :
    rs.votersFor t ⊆ rs'.votersFor t := by
  intro a ha
  simp only [votersFor, List.mem_toFinset, List.mem_map, List.mem_filter,
    decide_eq_true_eq] at ha ⊢
  obtain ⟨w, ⟨hw, hwt⟩, rfl⟩ := ha
  obtain ⟨w', hw', hw't, hwa⟩ := hkeep w hw hwt
  exact ⟨w', ⟨hw', hw't⟩, hwa⟩

end RoundState

/-- A vote set held while no PREPREPARE is accepted is empty, so it votes
for any subject. -/
theorem VotesFor.retarget {ms : MessageSet Vote} {vs : ValidatorSet} (h : VotesFor ms vs none)
    (s : Option Subject) : VotesFor ms vs s :=
  ⟨h.valSet_eq, fun a v hv => absurd (h.keyed a v hv).2.2 (by simp)⟩

end CeloBlockchain.Ibft
