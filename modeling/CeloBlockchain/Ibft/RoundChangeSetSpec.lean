import CeloBlockchain.Ibft.RoundChangeSet
import CeloBlockchain.Lib.AssocMap
import CeloBlockchain.Lib.DescendingScan
import Mathlib.Algebra.BigOperators.Group.Finset.Basic
import Mathlib.Data.List.TakeWhile

/-!
# The round-change set: invariant and counts

`roundChangeSetV2` keeps the latest ROUND CHANGE of each validator in the
message set of its round, and records that round in `latestRoundForVal`.
Every run of `Add` and `Clear` calls, failed ones included, keeps the record
right: a validator held at round `r` has `r` recorded (`Inv.latest`), so no
validator is held at two rounds (`Inv.unique`).  The step lemmas are
`inv_add` and `inv_clear`, and the run lemma is `inv_runCalls`.

Then the counts of `handleRoundChangeV2` count validators:
* `MaxRound(k)` is the greatest `r` with at least `k` validators held at
  rounds `≥ r` (`maxRound_eq_some_iff`, via `DescendingScan`);
* `MaxOnOneRound(k)` is the greatest `r` with at least `k` validators held
  at `r` (`maxOnOneRound_eq_some_iff`);
* when `Add` is called as `handleRoundChangeV2` calls it, under the
  request's round and for the request's signer (`Call.FromHandler`),
  `getCertificate(minRound, q)` returns `q` requests of `q` distinct
  validators, all for rounds `≥ minRound`, with the proposals of their
  prepared certificates (`getCertificate_spec`).

All three need `k, q ≥ 1`, and the certificate needs `minRound < 2^64`
(`roundChangeSet_counts_degenerate`).
-/

namespace CeloBlockchain.Ibft

namespace RoundChangeSetV2

open DescendingScan

/-- The message sets by round. -/
abbrev Rounds := AList (fun _ : Nat => MessageSet RoundChangeV2)

/-! ## Who is held where -/

/-- `a` has a message in the set of round `r`. -/
def HoldsIn (m : Rounds) (r : Nat) (a : Address) : Prop :=
  ∃ ms, m.lookup r = some ms ∧ a ∈ ms.messages

theorem holdsIn_erase {m : Rounds} {k r : Nat} {a : Address} :
    HoldsIn (m.erase k) r a ↔ r ≠ k ∧ HoldsIn m r a := by
  by_cases hrk : r = k
  · subst hrk
    simp [HoldsIn, AList.lookup_erase]
  · simp [HoldsIn, AList.lookup_erase_ne hrk, hrk]

theorem holdsIn_insert {m : Rounds} {k r : Nat} {ms : MessageSet RoundChangeV2} {a : Address} :
    HoldsIn (m.insert k ms) r a ↔ (r = k ∧ a ∈ ms.messages) ∨ (r ≠ k ∧ HoldsIn m r a) := by
  by_cases hrk : r = k
  · subst hrk
    simp [HoldsIn, AList.lookup_insert]
  · simp [HoldsIn, AList.lookup_insert_ne hrk, hrk]

/-- `m'` keeps, of each message set of `m`, some of the messages: what
removing senders and dropping rounds do. -/
def Shrinks (m' m : Rounds) : Prop :=
  ∀ r ms', m'.lookup r = some ms' → ∃ ms, m.lookup r = some ms ∧ ms'.valSet = ms.valSet ∧
    ∀ a rc, ms'.get a = some rc → ms.get a = some rc

theorem shrinks_refl (m : Rounds) : Shrinks m m :=
  fun _ ms' h => ⟨ms', h, rfl, fun _ _ h => h⟩

theorem Shrinks.trans {m'' m' m : Rounds} (h₁ : Shrinks m'' m') (h₂ : Shrinks m' m) : Shrinks m'' m := by
  intro r ms'' hl
  obtain ⟨ms', hl', hvs', hget'⟩ := h₁ r ms'' hl
  obtain ⟨ms, hl, hvs, hget⟩ := h₂ r ms' hl'
  exact ⟨ms, hl, hvs'.trans hvs, fun a rc h => hget a rc (hget' a rc h)⟩

theorem shrinks_erase (m : Rounds) (k : Nat) : Shrinks (m.erase k) m := by
  intro r ms' hl
  by_cases hrk : r = k
  · subst hrk
    rw [AList.lookup_erase] at hl
    cases hl
  · rw [AList.lookup_erase_ne hrk] at hl
    exact shrinks_refl m r ms' hl

theorem shrinks_insert_remove {m : Rounds} {k : Nat} {ms : MessageSet RoundChangeV2}
    (hk : m.lookup k = some ms) (src : Address) : Shrinks (m.insert k (ms.remove src)) m := by
  intro r ms' hl
  by_cases hrk : r = k
  · subst hrk
    rw [AList.lookup_insert] at hl
    cases hl
    refine ⟨ms, hk, rfl, fun a rc h => ?_⟩
    by_cases ha : a = src
    · subst ha
      simp [MessageSet.remove, MessageSet.get, AList.lookup_erase] at h
    · rwa [MessageSet.get_remove_of_ne ha] at h
  · rw [AList.lookup_insert_ne hrk] at hl
    exact shrinks_refl m r ms' hl

theorem Shrinks.holdsIn {m' m : Rounds} (h : Shrinks m' m) {r : Nat} {a : Address}
    (hh : HoldsIn m' r a) : HoldsIn m r a := by
  obtain ⟨ms', hl', ha⟩ := hh
  obtain ⟨ms, hl, -, hget⟩ := h r ms' hl'
  obtain ⟨rc, hrc⟩ := MessageSet.mem_iff_get.mp ha
  exact ⟨ms, hl, MessageSet.mem_iff_get.mpr ⟨rc, hget a rc hrc⟩⟩

/-! ## The invariant -/

/-- The invariant of the set: a validator held at a round has that round
recorded as its latest, and every message set admits the validators of the
set's own validator set only. -/
structure Inv (rcs : RoundChangeSetV2) : Prop where
  latest : ∀ r a, HoldsIn rcs.msgsForRound r a → rcs.latestRoundForVal.lookup a = some r
  members : ∀ r ms, rcs.msgsForRound.lookup r = some ms →
    ms.valSet = rcs.validatorSet ∧ ∀ a ∈ ms.messages, rcs.validatorSet.containsByAddress a = true

/-- No validator is held at two rounds. -/
theorem Inv.unique {rcs : RoundChangeSetV2} (h : rcs.Inv) {r r' : Nat} {a : Address}
    (hr : HoldsIn rcs.msgsForRound r a) (hr' : HoldsIn rcs.msgsForRound r' a) : r = r' :=
  Option.some_inj.mp ((h.latest r a hr).symm.trans (h.latest r' a hr'))

theorem inv_new (vs : ValidatorSet) : (new vs).Inv where
  latest := fun _ _ ⟨_, h, _⟩ => by cases h
  members := fun _ _ h => by cases h

/-- Message sets that shrink keep the membership half of the invariant. -/
theorem members_of_shrinks {rcs : RoundChangeSetV2} (h : rcs.Inv) {m' : Rounds}
    (hs : Shrinks m' rcs.msgsForRound) (r : Nat) (ms' : MessageSet RoundChangeV2)
    (hl : m'.lookup r = some ms') :
    ms'.valSet = rcs.validatorSet ∧ ∀ a ∈ ms'.messages, rcs.validatorSet.containsByAddress a = true := by
  obtain ⟨ms, hl₀, hvs, hget⟩ := hs r ms' hl
  obtain ⟨hvs₀, hmem⟩ := h.members r ms hl₀
  refine ⟨hvs.trans hvs₀, fun a ha => hmem a ?_⟩
  obtain ⟨rc, hrc⟩ := MessageSet.mem_iff_get.mp ha
  exact MessageSet.mem_iff_get.mpr ⟨rc, hget a rc hrc⟩

/-- Shrinking the sets and recording `round` for `src` keeps the invariant,
provided `src` is held at no other round. -/
theorem Inv.insert_latest {rcs : RoundChangeSetV2} (h : rcs.Inv) {m' : Rounds}
    (hs : Shrinks m' rcs.msgsForRound) {src : Address} {round : Nat}
    (hsrc : ∀ r, HoldsIn m' r src → r = round) :
    Inv ⟨rcs.validatorSet, m', rcs.latestRoundForVal.insert src round⟩ where
  latest := by
    intro r a hh
    by_cases ha : a = src
    · subst ha
      rw [AList.lookup_insert, hsrc r hh]
    · rw [AList.lookup_insert_ne ha]
      exact h.latest r a (hs.holdsIn hh)
  members := members_of_shrinks h hs

/-! ## `Add` -/

/-- What `moveSender` does to the rounds: nothing (when the sender has no
earlier round with a set), or it takes the sender out of the set of its
earlier round `prev`, dropping the round when the set empties. -/
theorem moveSender_msgsForRound (rcs : RoundChangeSetV2) (src : Address) (round : Nat) :
    ((∀ prev, rcs.latestRoundForVal.lookup src = some prev → prev < round →
        rcs.msgsForRound.lookup prev = none) ∧
      (rcs.moveSender src round).msgsForRound = rcs.msgsForRound) ∨
    ∃ prev ms, rcs.latestRoundForVal.lookup src = some prev ∧ prev < round ∧
      rcs.msgsForRound.lookup prev = some ms ∧
      (((ms.remove src).size = 0 ∧
          (rcs.moveSender src round).msgsForRound = rcs.msgsForRound.erase prev) ∨
        (rcs.moveSender src round).msgsForRound = rcs.msgsForRound.insert prev (ms.remove src)) := by
  unfold moveSender
  split
  · rename_i prev hprev
    split
    · rename_i hlt
      split
      · rename_i ms hms
        dsimp only
        split
        · exact .inr ⟨prev, ms, hprev, hlt, hms, .inl ⟨by assumption, rfl⟩⟩
        · exact .inr ⟨prev, ms, hprev, hlt, hms, .inr rfl⟩
      · rename_i hms
        refine .inl ⟨fun p hp _ => ?_, rfl⟩
        rw [hprev] at hp
        cases hp
        exact hms
    · rename_i hlt
      refine .inl ⟨fun p hp hp' => ?_, rfl⟩
      rw [hprev] at hp
      cases hp
      exact absurd hp' hlt
  · rename_i hnone
    refine .inl ⟨fun p hp _ => ?_, rfl⟩
    rw [hnone] at hp
    cases hp

theorem moveSender_eq (rcs : RoundChangeSetV2) (src : Address) (round : Nat) :
    rcs.moveSender src round =
      ⟨rcs.validatorSet, (rcs.moveSender src round).msgsForRound,
        rcs.latestRoundForVal.insert src round⟩ := by
  unfold moveSender
  split
  · split
    · split
      · dsimp only
        split <;> rfl
      · rfl
    · rfl
  · rfl

theorem moveSender_shrinks (rcs : RoundChangeSetV2) (src : Address) (round : Nat) :
    Shrinks (rcs.moveSender src round).msgsForRound rcs.msgsForRound := by
  rcases moveSender_msgsForRound rcs src round with ⟨-, heq⟩ | ⟨prev, ms, -, -, hms, ⟨-, heq⟩ | heq⟩
  · rw [heq]
    exact shrinks_refl _
  · rw [heq]
    exact shrinks_erase _ _
  · rw [heq]
    exact shrinks_insert_remove hms src

/-- `moveSender` keeps the invariant when the sender's earlier round, if
any, is not above the new one. -/
theorem inv_moveSender {rcs : RoundChangeSetV2} (h : rcs.Inv) {src : Address} {round : Nat}
    (hprev : ∀ prev, rcs.latestRoundForVal.lookup src = some prev → prev ≤ round) :
    (rcs.moveSender src round).Inv := by
  rw [moveSender_eq]
  refine h.insert_latest (moveSender_shrinks rcs src round) fun r hh => ?_
  -- where `src` is still held, it was held before, at its recorded round
  have hlatest : rcs.latestRoundForVal.lookup src = some r :=
    h.latest r src ((moveSender_shrinks rcs src round).holdsIn hh)
  rcases moveSender_msgsForRound rcs src round with ⟨hnone, heq⟩ | ⟨prev, ms, hp, hlt, -, hcase⟩
  · rw [heq] at hh
    have hle := hprev r hlatest
    by_contra hne
    obtain ⟨_, hl, _⟩ := hh
    rw [hnone r hlatest (lt_of_le_of_ne hle hne)] at hl
    cases hl
  · have hrp : r = prev := Option.some_inj.mp (hlatest.symm.trans hp)
    subst hrp
    rcases hcase with ⟨-, heq⟩ | heq
    · rw [heq, holdsIn_erase] at hh
      exact absurd rfl hh.1
    · rw [heq, holdsIn_insert] at hh
      rcases hh with ⟨-, hmem⟩ | ⟨hne, -⟩
      · exact absurd rfl (MessageSet.mem_remove.mp hmem).1
      · exact absurd rfl hne

theorem moveSender_latest_src (rcs : RoundChangeSetV2) (src : Address) (round : Nat) :
    (rcs.moveSender src round).latestRoundForVal.lookup src = some round := by
  rw [moveSender_eq]
  exact AList.lookup_insert _

/-- The set `addAt` writes at `round`: the round's set (a new one when there
is none), with the message added when the sender is a validator. -/
def addedSet (rcs : RoundChangeSetV2) (round : Nat) (src : Address) (rc : RoundChangeV2) :
    MessageSet RoundChangeV2 :=
  let ms := (rcs.msgsForRound.lookup round).getD (MessageSet.empty rcs.validatorSet)
  if ms.valSet.containsByAddress src then ⟨ms.valSet, ms.messages.insert src rc⟩ else ms

theorem addAt_fst (src : Address) (rc : RoundChangeV2) (rcs : RoundChangeSetV2) (round : Nat) :
    (add.addAt src rc rcs round).1 =
      { rcs with msgsForRound := rcs.msgsForRound.insert round (rcs.addedSet round src rc) } := by
  simp only [add.addAt, MessageSet.add, addedSet]
  split_ifs <;> rfl

theorem mem_getD_lookup {rcs : RoundChangeSetV2} {round : Nat} {a : Address}
    (ha : a ∈ ((rcs.msgsForRound.lookup round).getD (MessageSet.empty rcs.validatorSet)).messages) :
    HoldsIn rcs.msgsForRound round a := by
  cases hl : rcs.msgsForRound.lookup round with
  | none =>
    rw [hl] at ha
    exact absurd ha (AList.notMem_empty a)
  | some ms =>
    rw [hl] at ha
    exact ⟨ms, hl, ha⟩

theorem valSet_getD_lookup {rcs : RoundChangeSetV2} (h : rcs.Inv) (round : Nat) :
    ((rcs.msgsForRound.lookup round).getD (MessageSet.empty rcs.validatorSet)).valSet =
      rcs.validatorSet := by
  cases hl : rcs.msgsForRound.lookup round with
  | none => rfl
  | some ms => exact (h.members round ms hl).1

/-- A member of the written set is the sender or was held at `round`. -/
theorem mem_addedSet {rcs : RoundChangeSetV2} {round : Nat} {src a : Address} {rc : RoundChangeV2}
    (ha : a ∈ (rcs.addedSet round src rc).messages) :
    a = src ∨ HoldsIn rcs.msgsForRound round a := by
  unfold addedSet at ha
  dsimp only at ha
  split_ifs at ha
  · rcases (AList.mem_insert _).mp ha with rfl | ha
    · exact .inl rfl
    · exact .inr (mem_getD_lookup ha)
  · exact .inr (mem_getD_lookup ha)

theorem inv_addAt {rcs : RoundChangeSetV2} (h : rcs.Inv) {src : Address} {round : Nat}
    (hsrc : rcs.latestRoundForVal.lookup src = some round) (rc : RoundChangeV2) :
    (add.addAt src rc rcs round).1.Inv := by
  rw [addAt_fst]
  constructor <;> dsimp only
  · intro r a hh
    rcases holdsIn_insert.mp hh with ⟨rfl, ha⟩ | ⟨-, hh⟩
    · rcases mem_addedSet ha with rfl | hheld
      · exact hsrc
      · exact h.latest r a hheld
    · exact h.latest r a hh
  · intro r ms hl
    by_cases hrk : r = round
    · subst hrk
      rw [AList.lookup_insert] at hl
      cases hl
      have hvs := valSet_getD_lookup h r
      refine ⟨?_, fun a ha => ?_⟩
      · unfold addedSet
        dsimp only
        split_ifs <;> exact hvs
      · unfold addedSet at ha
        dsimp only at ha
        split_ifs at ha with hcont
        · rcases (AList.mem_insert _).mp ha with rfl | ha
          · rwa [hvs] at hcont
          · obtain ⟨ms₀, hl₀, ha₀⟩ := mem_getD_lookup ha
            exact (h.members r ms₀ hl₀).2 a ha₀
        · obtain ⟨ms₀, hl₀, ha₀⟩ := mem_getD_lookup ha
          exact (h.members r ms₀ hl₀).2 a ha₀
    · rw [AList.lookup_insert_ne hrk] at hl
      exact h.members r ms hl

/-- **Step lemma for `Add`.** Every call keeps the invariant, whether it
stores the message, refuses an old round or fails in the inner `Add`. -/
theorem inv_add {rcs : RoundChangeSetV2} (h : rcs.Inv) (r : Nat) (src : Address) (rc : RoundChangeV2) :
    (rcs.add r src rc).1.Inv := by
  unfold add
  dsimp only
  split
  · rename_i prev hprev
    split_ifs with hgt
    · exact h
    · have hmove := @inv_moveSender rcs h src (uint64 r) fun p hp => by
        rw [hprev] at hp
        cases hp
        exact not_lt.mp hgt
      exact inv_addAt hmove (moveSender_latest_src rcs src _) rc
  · rename_i hnone
    have hmove := @inv_moveSender rcs h src (uint64 r) fun p hp => by
      rw [hnone] at hp
      cases hp
    exact inv_addAt hmove (moveSender_latest_src rcs src _) rc

/-! ## `Clear` -/

/-- The loop of `Clear` reads the original map: it keeps the validator set,
shrinks the rounds, and forgets the latest round only of validators held in
a dropped round. -/
theorem clear_spec {rcs : RoundChangeSetV2} (h : rcs.Inv) (round : Nat) :
    (rcs.clear round).validatorSet = rcs.validatorSet ∧
      Shrinks (rcs.clear round).msgsForRound rcs.msgsForRound ∧
      ∀ r a, HoldsIn (rcs.clear round).msgsForRound r a →
        (rcs.clear round).latestRoundForVal.lookup a = some r := by
  unfold clear
  refine Run.run_invariant_of_forall _
    (fun acc => acc.validatorSet = rcs.validatorSet ∧ Shrinks acc.msgsForRound rcs.msgsForRound ∧
      ∀ r a, HoldsIn acc.msgsForRound r a → acc.latestRoundForVal.lookup a = some r)
    (· ∈ rcs.msgsForRound.entries) ?_ rcs.msgsForRound.entries rcs (fun _ he => he)
    ⟨rfl, shrinks_refl _, h.latest⟩
  rintro acc e he ⟨hvs, hs, hlat⟩
  split_ifs
  · refine ⟨hvs, (shrinks_erase _ _).trans hs, fun r a hh => ?_⟩
    obtain ⟨hne, hh⟩ := holdsIn_erase.mp hh
    rw [AssocMap.lookup_foldl_erase, if_neg, hlat r a hh]
    -- a validator of the dropped round is held nowhere else
    intro ha
    have hk : HoldsIn rcs.msgsForRound e.1 a :=
      ⟨e.2, AList.mem_lookup_iff.mpr he, AList.mem_keys.mpr ha⟩
    exact hne (h.unique (hs.holdsIn hh) hk)
  · exact ⟨hvs, hs, hlat⟩

/-- **Step lemma for `Clear`.** -/
theorem inv_clear {rcs : RoundChangeSetV2} (h : rcs.Inv) (round : Nat) : (rcs.clear round).Inv := by
  obtain ⟨hvs, hs, hlat⟩ := clear_spec h round
  refine ⟨hlat, fun r ms hl => ?_⟩
  rw [hvs]
  exact members_of_shrinks h hs r ms hl

/-! ## Runs -/

theorem inv_call {rcs : RoundChangeSetV2} (h : rcs.Inv) : ∀ c : Call, (rcs.call c).Inv
  | .add r src rc => inv_add h r src rc
  | .clear round => inv_clear h round

/-- **Run lemma.** Every sequence of calls keeps the invariant. -/
theorem inv_runCalls {rcs : RoundChangeSetV2} (h : rcs.Inv) (calls : List Call) :
    (rcs.runCalls calls).Inv :=
  Run.run_invariant call Inv (fun _ c hs => inv_call hs c) calls rcs h

theorem validatorSet_add (rcs : RoundChangeSetV2) (r : Nat) (src : Address) (rc : RoundChangeV2) :
    (rcs.add r src rc).1.validatorSet = rcs.validatorSet := by
  unfold add
  dsimp only
  split
  · split_ifs
    · rfl
    · rw [addAt_fst]
      show (rcs.moveSender src (uint64 r)).validatorSet = rcs.validatorSet
      rw [moveSender_eq]
  · rw [addAt_fst]
    show (rcs.moveSender src (uint64 r)).validatorSet = rcs.validatorSet
    rw [moveSender_eq]

/-- No call changes the validator set the messages are checked against. -/
theorem validatorSet_runCalls {rcs : RoundChangeSetV2} (h : rcs.Inv) (calls : List Call) :
    (rcs.runCalls calls).validatorSet = rcs.validatorSet := by
  refine (Run.run_invariant call (fun s => s.Inv ∧ s.validatorSet = rcs.validatorSet)
    (fun s c hs => ⟨inv_call hs.1 c, ?_⟩) calls rcs ⟨h, rfl⟩).2
  cases c with
  | add r src rc => exact (validatorSet_add s r src rc).trans hs.2
  | clear round => exact (clear_spec hs.1 round).1.trans hs.2

/-! ## Counting validators -/

/-- The validators held at round `r`. -/
def holdersAt (rcs : RoundChangeSetV2) (r : Nat) : Finset Address :=
  (((rcs.msgs r).map (·.addresses)).getD []).toFinset

/-- The validators held at some round `≥ r`. -/
def holdersFrom (rcs : RoundChangeSetV2) (r : Nat) : Finset Address :=
  (rcs.msgsForRound.keys.filter (r ≤ ·)).toFinset.biUnion rcs.holdersAt

theorem mem_holdersAt {rcs : RoundChangeSetV2} {r : Nat} {a : Address} :
    a ∈ rcs.holdersAt r ↔ HoldsIn rcs.msgsForRound r a := by
  unfold holdersAt msgs HoldsIn MessageSet.addresses
  cases rcs.msgsForRound.lookup r with
  | none => simp
  | some ms => simp [AList.mem_keys]

theorem card_holdersAt (rcs : RoundChangeSetV2) (r : Nat) : (rcs.holdersAt r).card = rcs.sizeAt r := by
  unfold holdersAt sizeAt msgs
  cases rcs.msgsForRound.lookup r with
  | none => rfl
  | some ms => exact List.toFinset_card_of_nodup ms.messages.keys_nodup

theorem sortedRounds_perm (rcs : RoundChangeSetV2) : rcs.sortedRounds.Perm rcs.msgsForRound.keys :=
  List.perm_insertionSort _ _

/-- The rounds are visited from the largest down, each once. -/
theorem sortedRounds_pairwise (rcs : RoundChangeSetV2) : rcs.sortedRounds.Pairwise (· > ·) := by
  have hsorted : rcs.sortedRounds.Pairwise (· ≥ ·) := List.pairwise_insertionSort _ _
  have hnodup : rcs.sortedRounds.Nodup := (sortedRounds_perm rcs).nodup_iff.mpr rcs.msgsForRound.keys_nodup
  exact (hsorted.and hnodup).imp fun h => lt_of_le_of_ne h.1 (Ne.symm h.2)

/-- By the invariant, the messages held at rounds `≥ r` come from as many
validators. -/
theorem card_holdersFrom {rcs : RoundChangeSetV2} (h : rcs.Inv) (r : Nat) :
    (rcs.holdersFrom r).card = sumFrom rcs.sizeAt rcs.sortedRounds r := by
  have hnodup : (rcs.msgsForRound.keys.filter (r ≤ ·)).Nodup := rcs.msgsForRound.keys_nodup.filter _
  have hdisj : (↑(rcs.msgsForRound.keys.filter (r ≤ ·)).toFinset : Set Nat).PairwiseDisjoint
      rcs.holdersAt := by
    intro x _ y _ hxy
    refine Finset.disjoint_left.mpr fun a hx hy => hxy ?_
    exact h.unique (mem_holdersAt.mp hx) (mem_holdersAt.mp hy)
  rw [holdersFrom, Finset.card_biUnion hdisj, List.sum_toFinset _ hnodup, sumFrom]
  simp only [card_holdersAt]
  exact (((sortedRounds_perm rcs).filter _).map _).sum_eq.symm

theorem maxRoundFrom_eq_firstReach (rcs : RoundChangeSetV2) (num : Int) (rs : List Nat) (acc : Int) :
    rcs.maxRoundFrom num rs acc = firstReach rcs.sizeAt num rs acc := by
  induction rs generalizing acc with
  | nil => rfl
  | cons r rs ih =>
    simp only [maxRoundFrom, firstReach, ih]

/-- **`MaxRound`.** For `k ≥ 1`, `MaxRound(k)` is the greatest round `r`
such that at least `k` validators are held at rounds `≥ r`. -/
theorem maxRound_eq_some_iff {rcs : RoundChangeSetV2} (h : rcs.Inv) {num : Int} (hnum : 1 ≤ num)
    (r : Nat) :
    rcs.maxRound num = some r ↔ IsGreatest {x | num ≤ ((rcs.holdersFrom x).card : Int)} r := by
  rw [maxRound, maxRoundFrom_eq_firstReach,
    firstReach_eq_some_iff _ (sortedRounds_pairwise rcs) (by omega : (0 : Int) < num)]
  simp only [card_holdersFrom h, zero_add]

theorem maxRound_eq_none_iff {rcs : RoundChangeSetV2} (h : rcs.Inv) {num : Int} (hnum : 1 ≤ num) :
    rcs.maxRound num = none ↔ ∀ x, ((rcs.holdersFrom x).card : Int) < num := by
  rw [maxRound, maxRoundFrom_eq_firstReach,
    firstReach_eq_none_iff _ (sortedRounds_pairwise rcs) (by omega : (0 : Int) < num)]
  simp only [card_holdersFrom h, zero_add]

/-- A round with messages is a key of the map. -/
theorem mem_sortedRounds_of_sizeAt_pos {rcs : RoundChangeSetV2} {r : Nat} (h : 0 < rcs.sizeAt r) :
    r ∈ rcs.sortedRounds := by
  refine (sortedRounds_perm rcs).symm.subset (AList.mem_keys.mp (AList.lookup_isSome.mp ?_))
  unfold sizeAt msgs at h
  cases hl : rcs.msgsForRound.lookup r with
  | none => rw [hl] at h; exact absurd h (Nat.lt_irrefl 0)
  | some _ => rfl

/-- **`MaxOnOneRound`.** For `k ≥ 1`, `MaxOnOneRound(k)` is the greatest
round `r` at which at least `k` validators are held. -/
theorem maxOnOneRound_eq_some_iff (rcs : RoundChangeSetV2) {num : Nat} (hnum : 1 ≤ num) (r : Nat) :
    rcs.maxOnOneRound num = some r ↔ IsGreatest {x | num ≤ (rcs.holdersAt x).card} r := by
  rw [maxOnOneRound, find?_eq_some_iff_isGreatest (sortedRounds_pairwise rcs)]
  have hset : {x | x ∈ rcs.sortedRounds ∧ decide (rcs.sizeAt x ≥ num) = true} =
      {x | num ≤ (rcs.holdersAt x).card} := by
    ext x
    simp only [Set.mem_ofPred_eq, decide_eq_true_eq, card_holdersAt]
    exact ⟨And.right, fun hx => ⟨mem_sortedRounds_of_sizeAt_pos (by omega), hx⟩⟩
  rw [hset]

theorem maxOnOneRound_eq_none_iff (rcs : RoundChangeSetV2) {num : Nat} (hnum : 1 ≤ num) :
    rcs.maxOnOneRound num = none ↔ ∀ x, (rcs.holdersAt x).card < num := by
  rw [maxOnOneRound, List.find?_eq_none]
  simp only [card_holdersAt, decide_eq_true_eq, not_le]
  constructor
  · intro hall x
    by_contra hge
    exact absurd (hall x (mem_sortedRounds_of_sizeAt_pos (by omega))) hge
  · intro hall x _
    exact hall x

/-! ## The stored messages -/

/-- Every stored message is its sender's request, kept under the `uint64` of
the request's round. -/
def Keyed (m : Rounds) : Prop :=
  ∀ r ms, m.lookup r = some ms → ∀ a rc, ms.get a = some rc →
    rc.request.address = a ∧ uint64 rc.request.view.round = r

/-- How `handleRoundChangeV2` calls `Add`: under the request's round, for the
request's signer (it checks the two addresses agree first). -/
def Call.FromHandler : Call → Prop
  | .add r src rc => r = rc.request.view.round ∧ src = rc.request.address
  | .clear _ => True

theorem keyed_of_shrinks {m' m : Rounds} (hs : Shrinks m' m) (hk : Keyed m) : Keyed m' := by
  intro r ms' hl a rc hget
  obtain ⟨ms, hl₀, -, hget₀⟩ := hs r ms' hl
  exact hk r ms hl₀ a rc (hget₀ a rc hget)

theorem get_getD_lookup {rcs : RoundChangeSetV2} {round : Nat} {a : Address} {rc : RoundChangeV2}
    (h : ((rcs.msgsForRound.lookup round).getD (MessageSet.empty rcs.validatorSet)).get a = some rc) :
    ∃ ms, rcs.msgsForRound.lookup round = some ms ∧ ms.get a = some rc := by
  cases hl : rcs.msgsForRound.lookup round with
  | none =>
    rw [hl] at h
    cases h
  | some ms =>
    rw [hl] at h
    exact ⟨ms, rfl, h⟩

/-- A message of the written set is the new one or was stored at `round`. -/
theorem get_addedSet {rcs : RoundChangeSetV2} {round : Nat} {src a : Address}
    {rc rc' : RoundChangeV2} (h : (rcs.addedSet round src rc).get a = some rc') :
    (a = src ∧ rc' = rc) ∨ ∃ ms, rcs.msgsForRound.lookup round = some ms ∧ ms.get a = some rc' := by
  unfold addedSet at h
  dsimp only at h
  split_ifs at h
  · by_cases ha : a = src
    · subst ha
      simp only [MessageSet.get, AList.lookup_insert, Option.some_inj] at h
      exact .inl ⟨rfl, h.symm⟩
    · simp only [MessageSet.get, AList.lookup_insert_ne ha] at h
      exact .inr (get_getD_lookup h)
  · exact .inr (get_getD_lookup h)

theorem keyed_addAt {rcs : RoundChangeSetV2} (hk : Keyed rcs.msgsForRound) {src : Address}
    {rc : RoundChangeV2} (hsrc : rc.request.address = src) :
    Keyed (add.addAt src rc rcs (uint64 rc.request.view.round)).1.msgsForRound := by
  rw [addAt_fst]
  intro r ms hl a rc' hget
  by_cases hrk : r = uint64 rc.request.view.round
  · subst hrk
    rw [AList.lookup_insert] at hl
    cases hl
    rcases get_addedSet hget with ⟨rfl, rfl⟩ | ⟨ms₀, hl₀, hget₀⟩
    · exact ⟨hsrc, rfl⟩
    · exact hk _ ms₀ hl₀ a rc' hget₀
  · rw [AList.lookup_insert_ne hrk] at hl
    exact hk r ms hl a rc' hget

/-- An `Add` made as `handleRoundChangeV2` makes it stores its message under
the request's round. -/
theorem keyed_add {rcs : RoundChangeSetV2} (hk : Keyed rcs.msgsForRound) (rc : RoundChangeV2) :
    Keyed (rcs.add rc.request.view.round rc.request.address rc).1.msgsForRound := by
  unfold add
  dsimp only
  split
  · split_ifs
    · exact hk
    · exact keyed_addAt (keyed_of_shrinks (moveSender_shrinks _ _ _) hk) rfl
  · exact keyed_addAt (keyed_of_shrinks (moveSender_shrinks _ _ _) hk) rfl

theorem keyed_call {rcs : RoundChangeSetV2} (h : rcs.Inv) (hk : Keyed rcs.msgsForRound) :
    ∀ c : Call, c.FromHandler → Keyed (rcs.call c).msgsForRound
  | .add r src rc, ⟨hr, hsrc⟩ => by
    subst hr hsrc
    exact keyed_add hk rc
  | .clear round, _ => keyed_of_shrinks (clear_spec h round).2.1 hk

/-- **Run lemma** for calls made as `handleRoundChangeV2` makes them. -/
theorem keyed_runCalls {rcs : RoundChangeSetV2} (h : rcs.Inv) (hk : Keyed rcs.msgsForRound)
    (calls : List Call) (hcalls : ∀ c ∈ calls, c.FromHandler) :
    Keyed (rcs.runCalls calls).msgsForRound :=
  (Run.run_invariant_of_forall call (fun s => s.Inv ∧ Keyed s.msgsForRound) Call.FromHandler
    (fun _ c hc hs => ⟨inv_call hs.1 c, keyed_call hs.1 hs.2 c hc⟩) calls rcs hcalls ⟨h, hk⟩).2

theorem keyed_new (vs : ValidatorSet) : Keyed (new vs).msgsForRound :=
  fun _ _ h => by cases h

/-! ## `getCertificate` -/

/-- What `collect` returns after taking the first `n` candidates. -/
structure Collected (cands : List RoundChangeV2) (reqs : List RoundChangeRequest)
    (props : List (Hash × Proposal)) (n : Nat) (reqs' : List RoundChangeRequest)
    (props' : List (Hash × Proposal)) : Prop where
  reqs_eq : reqs' = reqs ++ (cands.take n).map (·.request)
  length_take : (cands.take n).length = n
  props_sub : ∀ e ∈ props, e ∈ props'
  props_hash : ∀ e ∈ props', e ∈ props ∨ e.2.hash = e.1
  props_mem : ∀ rv ∈ cands.take n, rv.request.hasPreparedCertificate = true →
    (rv.request.preparedCertificateV2.proposalHash, rv.preparedProposal) ∈ props'

/-- The proposals `collect` holds after recording a candidate's. -/
def recordedProposals (rv : RoundChangeV2) (props : List (Hash × Proposal)) :
    List (Hash × Proposal) :=
  if rv.request.hasPreparedCertificate then
    (rv.request.preparedCertificateV2.proposalHash, rv.preparedProposal) :: props
  else props

theorem collect_cons (q : Nat) (rv : RoundChangeV2) (more : List RoundChangeV2)
    (reqs : List RoundChangeRequest) (props : List (Hash × Proposal)) :
    collect q (rv :: more) reqs props =
      if rv.request.hasPreparedCertificate &&
          rv.request.preparedCertificateV2.proposalHash != rv.preparedProposal.hash then
        .error .roundChangeProposalHashMismatch
      else if (reqs ++ [rv.request]).length ≥ q then .ok (reqs ++ [rv.request], recordedProposals rv props)
      else collect q more (reqs ++ [rv.request]) (recordedProposals rv props) := rfl

/-- Past the hash check, every recorded proposal has the hash it is
recorded under. -/
theorem recordedProposals_spec {rv : RoundChangeV2} {props : List (Hash × Proposal)}
    (hmatch : ¬(rv.request.hasPreparedCertificate &&
      rv.request.preparedCertificateV2.proposalHash != rv.preparedProposal.hash) = true) :
    (∀ e ∈ props, e ∈ recordedProposals rv props) ∧
      (∀ e ∈ recordedProposals rv props, e ∈ props ∨ e.2.hash = e.1) ∧
      (rv.request.hasPreparedCertificate = true →
        (rv.request.preparedCertificateV2.proposalHash, rv.preparedProposal) ∈
          recordedProposals rv props) := by
  unfold recordedProposals
  by_cases hpc : rv.request.hasPreparedCertificate = true
  · have hhash : rv.request.preparedCertificateV2.proposalHash = rv.preparedProposal.hash := by
      simpa [hpc] using hmatch
    rw [if_pos hpc]
    refine ⟨fun e he => List.mem_cons_of_mem _ he, ?_, fun _ => List.mem_cons_self⟩
    intro e he
    rcases List.mem_cons.mp he with rfl | he
    · exact .inr hhash.symm
    · exact .inl he
  · rw [if_neg hpc]
    exact ⟨fun e he => he, fun e he => .inl he, fun h => absurd h hpc⟩

theorem collect_ok {q : Nat} :
    ∀ {cands : List RoundChangeV2} {reqs props reqs' props'}, reqs.length < q →
      collect q cands reqs props = .ok (reqs', props') →
      Collected cands reqs props (q - reqs.length) reqs' props'
  | [], _, _, _, _, _, h => by cases h
  | rv :: more, reqs, props, reqs', props', hlt, h => by
    rw [collect_cons] at h
    by_cases hmatch : (rv.request.hasPreparedCertificate &&
      rv.request.preparedCertificateV2.proposalHash != rv.preparedProposal.hash) = true
    · rw [if_pos hmatch] at h
      cases h
    rw [if_neg hmatch] at h
    obtain ⟨hsub, hhash, hmem⟩ := @recordedProposals_spec rv props hmatch
    split_ifs at h with hdone
    · -- the candidate completes the certificate
      cases h
      have hone : q - reqs.length = 1 := by
        simp only [List.length_append, List.length_singleton] at hdone
        omega
      rw [hone]
      refine ⟨by simp, by simp, hsub, hhash, fun x hx hpc => ?_⟩
      simp only [List.take_succ_cons, List.take_zero, List.mem_singleton] at hx
      subst hx
      exact hmem hpc
    · -- more candidates are needed
      have hlt' : (reqs ++ [rv.request]).length < q := lt_of_not_ge hdone
      have htake : (rv :: more).take (q - reqs.length) = rv :: more.take (q - (reqs.length + 1)) := by
        rw [show q - reqs.length = q - (reqs.length + 1) + 1 by omega, List.take_succ_cons]
      have ih := collect_ok hlt' h
      simp only [List.length_append, List.length_singleton] at ih
      refine ⟨?_, ?_, fun e he => ih.props_sub e (hsub e he), fun e he => ?_, ?_⟩
      · rw [htake, ih.reqs_eq]
        simp
      · rw [htake, List.length_cons, ih.length_take]
        simp only [List.length_append, List.length_singleton] at hlt'
        omega
      · rcases ih.props_hash e he with he | he
        · exact hhash e he
        · exact .inr he
      · intro x hx hpc
        rw [htake] at hx
        rcases List.mem_cons.mp hx with rfl | hx
        · exact ih.props_sub _ (hmem hpc)
        · exact ih.props_mem x hx hpc

theorem mem_candidates {rcs : RoundChangeSetV2} {minRound : Nat} {rv : RoundChangeV2}
    (h : rv ∈ rcs.candidates minRound) :
    ∃ r ms a, minRound ≤ r ∧ rcs.msgsForRound.lookup r = some ms ∧ ms.get a = some rv := by
  obtain ⟨r, hr, hrv⟩ := List.mem_flatMap.mp h
  have hge : minRound ≤ r := by simpa using List.mem_takeWhile_imp hr
  unfold msgs at hrv
  cases hl : rcs.msgsForRound.lookup r with
  | none =>
    rw [hl] at hrv
    cases hrv
  | some ms =>
    rw [hl] at hrv
    obtain ⟨a, ha⟩ := (MessageSet.mem_values_iff ms rv).mp hrv
    exact ⟨r, ms, a, hge, hl, ha⟩

/-- Under `Keyed`, the senders of a round's messages are the set's keys. -/
theorem values_map_address {ms : MessageSet RoundChangeV2} {m : Rounds} {r : Nat}
    (hk : Keyed m) (hl : m.lookup r = some ms) :
    ms.values.map (·.request.address) = ms.addresses :=
  MessageSet.values_map_eq_addresses fun a rc hget => (hk r ms hl a rc hget).1

/-- The candidates come from distinct validators. -/
theorem nodup_candidates_address {rcs : RoundChangeSetV2} (h : rcs.Inv)
    (hk : Keyed rcs.msgsForRound) (minRound : Nat) :
    ((rcs.candidates minRound).map (·.request.address)).Nodup := by
  unfold candidates
  rw [List.map_flatMap]
  have hrounds := (sortedRounds_pairwise rcs).sublist
    (List.takeWhile_sublist (fun x => decide (x ≥ minRound)))
  refine List.nodup_flatMap.mpr ⟨fun r _ => ?_, hrounds.imp fun {r r'} hrr' => ?_⟩
  · unfold msgs
    cases hl : rcs.msgsForRound.lookup r with
    | none => exact List.nodup_nil
    | some ms =>
      rw [Option.map_some, Option.getD_some, values_map_address hk hl]
      exact ms.messages.keys_nodup
  · -- two rounds share no validator
    intro a ha ha'
    dsimp only [msgs] at ha ha'
    cases hl : rcs.msgsForRound.lookup r with
    | none => rw [hl] at ha; cases ha
    | some ms =>
      cases hl' : rcs.msgsForRound.lookup r' with
      | none => rw [hl'] at ha'; cases ha'
      | some ms' =>
        rw [hl, Option.map_some, Option.getD_some, values_map_address hk hl] at ha
        rw [hl', Option.map_some, Option.getD_some, values_map_address hk hl'] at ha'
        exact absurd (h.unique ⟨ms, hl, AList.mem_keys.mpr ha⟩ ⟨ms', hl', AList.mem_keys.mpr ha'⟩)
          (Nat.ne_of_gt hrr')

/-- **`getCertificate`.** On a set whose messages are keyed by the
request's round and signer, a certificate of `q ≥ 1` requests for
`minRound < 2^64` has `q` requests of distinct validators of the set, all
for rounds `≥ minRound`, and the proposal map holds, under the hash of each
prepared certificate, a proposal with that hash. -/
theorem getCertificate_spec {rcs : RoundChangeSetV2} (h : rcs.Inv) (hk : Keyed rcs.msgsForRound)
    {minRound q : Nat} (hq : 1 ≤ q) (hmin : minRound < 2 ^ 64) {rcc : RoundChangeCertificateV2}
    {props : List (Hash × Proposal)} (hcert : rcs.getCertificate minRound q = .ok (rcc, props)) :
    rcc.requests.length = q ∧ (rcc.requests.map (·.address)).Nodup ∧
    (∀ req ∈ rcc.requests,
      rcs.validatorSet.containsByAddress req.address = true ∧ minRound ≤ req.view.round) ∧
    ∀ req ∈ rcc.requests, req.hasPreparedCertificate = true →
      ∃ p, props.find? (·.1 == req.preparedCertificateV2.proposalHash) =
        some (req.preparedCertificateV2.proposalHash, p) ∧
        p.hash = req.preparedCertificateV2.proposalHash := by
  unfold getCertificate at hcert
  cases hc : collect q (rcs.candidates (uint64 minRound)) [] [] with
  | error e =>
    rw [hc] at hcert
    cases hcert
  | ok res =>
    rw [hc] at hcert
    cases hcert
    have hcol := collect_ok (show [].length < q from hq) hc
    set taken := (rcs.candidates (uint64 minRound)).take q
    -- `collect` started from no requests, so `q - [].length` is `q`
    have hreqs : res.1 = taken.map (·.request) := by
      rw [hcol.reqs_eq, List.nil_append]
      rfl
    have hmem : ∀ rv ∈ taken, rv ∈ rcs.candidates (uint64 minRound) :=
      fun rv hrv => List.mem_of_mem_take hrv
    refine ⟨?_, ?_, ?_, ?_⟩
    · show res.1.length = q
      rw [hreqs, List.length_map]
      exact hcol.length_take
    · show (res.1.map (·.address)).Nodup
      rw [hreqs, List.map_map, List.map_take]
      exact (nodup_candidates_address h hk _).sublist (List.take_sublist _ _)
    · intro req hreq
      change req ∈ res.1 at hreq
      rw [hreqs] at hreq
      obtain ⟨rv, hrv, rfl⟩ := List.mem_map.mp hreq
      obtain ⟨r, ms, a, hge, hl, hget⟩ := mem_candidates (hmem rv hrv)
      obtain ⟨haddr, hround⟩ := hk r ms hl a rv hget
      refine ⟨?_, ?_⟩
      · rw [haddr]
        exact (h.members r ms hl).2 a (MessageSet.mem_iff_get.mpr ⟨rv, hget⟩)
      · rw [uint64, Nat.mod_eq_of_lt hmin] at hge
        calc minRound ≤ r := hge
          _ = rv.request.view.round % 2 ^ 64 := hround.symm
          _ ≤ rv.request.view.round := Nat.mod_le _ _
    · intro req hreq hpc
      change req ∈ res.1 at hreq
      rw [hreqs] at hreq
      obtain ⟨rv, hrv, rfl⟩ := List.mem_map.mp hreq
      have hin := hcol.props_mem rv hrv hpc
      -- the first entry for the hash is a recorded pair, so its proposal has that hash
      have hsome : (res.2.find? (·.1 == rv.request.preparedCertificateV2.proposalHash)).isSome :=
        List.find?_isSome.mpr ⟨_, hin, by simp⟩
      obtain ⟨e, he⟩ := Option.isSome_iff_exists.mp hsome
      have hkey : e.1 = rv.request.preparedCertificateV2.proposalHash := by
        simpa using List.find?_some he
      have hehash : e.2.hash = e.1 := by
        rcases hcol.props_hash e (List.mem_of_find?_eq_some he) with he' | he'
        · cases he'
        · exact he'
      refine ⟨e.2, ?_, hehash.trans hkey⟩
      rw [he, ← hkey]

/-! ## Runs of the set -/

/-- **The round-change set over runs.** After any sequence of `Add` and
`Clear` calls on a new set, failed calls included: no validator is held at
two rounds, a held validator has its round recorded, and for `k ≥ 1`
`MaxRound(k)` and `MaxOnOneRound(k)` are the greatest rounds with `k`
validators at or above, and at, the round.  When the adds are made as
`handleRoundChangeV2` makes them, a certificate of `q ≥ 1` requests for
`minRound < 2^64` holds `q` requests of distinct validators of the set, for
rounds `≥ minRound`, with a proposal of the right hash for each prepared
certificate. -/
theorem roundChangeSet_runs_count_validators (vs : ValidatorSet) (calls : List Call) :
    let rcs := (new vs).runCalls calls
    (∀ r r' a, HoldsIn rcs.msgsForRound r a → HoldsIn rcs.msgsForRound r' a → r = r') ∧
    (∀ r a, HoldsIn rcs.msgsForRound r a → rcs.latestRoundForVal.lookup a = some r) ∧
    (∀ num : Int, 1 ≤ num →
      (∀ r, rcs.maxRound num = some r ↔
        IsGreatest {x | num ≤ ((rcs.holdersFrom x).card : Int)} r) ∧
      (rcs.maxRound num = none ↔ ∀ x, ((rcs.holdersFrom x).card : Int) < num)) ∧
    (∀ num : Nat, 1 ≤ num →
      (∀ r, rcs.maxOnOneRound num = some r ↔ IsGreatest {x | num ≤ (rcs.holdersAt x).card} r) ∧
      (rcs.maxOnOneRound num = none ↔ ∀ x, (rcs.holdersAt x).card < num)) ∧
    ((∀ c ∈ calls, c.FromHandler) → ∀ minRound q rcc props, 1 ≤ q → minRound < 2 ^ 64 →
      rcs.getCertificate minRound q = .ok (rcc, props) →
      rcc.requests.length = q ∧ (rcc.requests.map (·.address)).Nodup ∧
      (∀ req ∈ rcc.requests, vs.containsByAddress req.address = true ∧ minRound ≤ req.view.round) ∧
      ∀ req ∈ rcc.requests, req.hasPreparedCertificate = true →
        ∃ p, props.find? (·.1 == req.preparedCertificateV2.proposalHash) =
          some (req.preparedCertificateV2.proposalHash, p) ∧
          p.hash = req.preparedCertificateV2.proposalHash) := by
  intro rcs
  have h : rcs.Inv := inv_runCalls (inv_new vs) calls
  have hvs : rcs.validatorSet = vs := validatorSet_runCalls (inv_new vs) calls
  refine ⟨fun _ _ _ => h.unique, h.latest,
    fun num hnum => ⟨maxRound_eq_some_iff h hnum, maxRound_eq_none_iff h hnum⟩,
    fun num hnum => ⟨rcs.maxOnOneRound_eq_some_iff hnum, rcs.maxOnOneRound_eq_none_iff hnum⟩, ?_⟩
  intro hcalls minRound q rcc props hq hmin hcert
  have hk := keyed_runCalls (inv_new vs) (keyed_new vs) calls hcalls
  rw [← hvs]
  exact getCertificate_spec h hk hq hmin hcert

/-- Two validators, with addresses `1` and `2`. -/
def pairValidators : ValidatorSet := ⟨[⟨1, 11⟩, ⟨2, 22⟩], 0⟩

/-- A round change of validator `a` for round `r` of sequence 0, without a
prepared certificate. -/
def roundChangeOf (a r : Nat) : RoundChangeV2 := ⟨⟨a, ⟨0, r⟩, ⟨0, []⟩, a⟩, ⟨0, 0⟩⟩

/-- The run of the handler's two round changes, for rounds 1 and 2. -/
def twoRoundChanges : List Call := [.add 1 1 (roundChangeOf 1 1), .add 2 2 (roundChangeOf 2 2)]

/-- The laws on that run: the certificate of two requests from round 1 has
two distinct signers. -/
theorem roundChangeSet_runs_count_validators_pair :
    (∀ c ∈ twoRoundChanges, c.FromHandler) ∧
    ((new pairValidators).runCalls twoRoundChanges).getCertificate 1 2 =
      .ok (⟨[(roundChangeOf 2 2).request, (roundChangeOf 1 1).request]⟩, []) ∧
    [(roundChangeOf 2 2).request, (roundChangeOf 1 1).request].length = 2 ∧
    ([(roundChangeOf 2 2).request, (roundChangeOf 1 1).request].map (·.address)).Nodup := by
  have hcalls : ∀ c ∈ twoRoundChanges, c.FromHandler := by
    simp [twoRoundChanges, Call.FromHandler, roundChangeOf]
  have hcert : ((new pairValidators).runCalls twoRoundChanges).getCertificate 1 2 =
      .ok (⟨[(roundChangeOf 2 2).request, (roundChangeOf 1 1).request]⟩, []) := rfl
  obtain ⟨hlen, hnodup, -⟩ := (roundChangeSet_runs_count_validators pairValidators twoRoundChanges).2.2.2.2
    hcalls 1 2 _ _ (by decide) (by decide) hcert
  exact ⟨hcalls, hcert, hlen, hnodup⟩

/-- Where the counts stop counting. With `k = 0`, `MaxRound` names the top
round although every round has `0` validators above it, and a certificate of
`0` requests holds one.  An `Add` under a round other than the request's
puts a round-1 request into a certificate for rounds `≥ 3`.  And a
`minRound` of `2^64` is cut to `0`. -/
theorem roundChangeSet_counts_degenerate :
    let rcs := (new pairValidators).runCalls [.add 1 1 (roundChangeOf 1 1)]
    rcs.maxRound 0 = some 1 ∧ ¬IsGreatest {x | (0 : Int) ≤ ((rcs.holdersFrom x).card : Int)} 1 ∧
    rcs.getCertificate 0 0 = .ok (⟨[(roundChangeOf 1 1).request]⟩, []) ∧
    ((new pairValidators).runCalls [.add 5 1 (roundChangeOf 1 1)]).getCertificate 3 1 =
      .ok (⟨[(roundChangeOf 1 1).request]⟩, []) ∧ (roundChangeOf 1 1).request.view.round < 3 ∧
    rcs.getCertificate (2 ^ 64) 1 = .ok (⟨[(roundChangeOf 1 1).request]⟩, []) ∧
      (roundChangeOf 1 1).request.view.round < 2 ^ 64 := by
  intro rcs
  refine ⟨rfl, fun hg => ?_, rfl, rfl, by decide, rfl, by decide⟩
  -- round 2 also has at least zero validators at or above it
  have h2 := hg.2 (show (2 : Nat) ∈ {x | (0 : Int) ≤ ((rcs.holdersFrom x).card : Int)} from
    Int.natCast_nonneg _)
  omega

end RoundChangeSetV2

end CeloBlockchain.Ibft
