import CeloBlockchain.Ibft.BacklogInvariant
import CeloBlockchain.Ibft.Core

/-!
# Processing the backlog

What `updateState` does with the backlog once the core's view moves
(`core/backlog.go`, `processBacklog`):

* `toPriority` is exact below `maxRoundForPriorityQueue`, and pops round
  changes first, then by ascending round, and within a round PREPREPARE,
  COMMIT, PREPARE (`toPriority_of_lt`, `toPriority_lt_iff`);
* `checkMessage`'s future is closed in that order among the messages of one
  sequence (`Core.checkMessage_future_closed`), so the loop that stops at the
  first future message leaves only future ones (`PopOrder.forall_dropWhile`);
* `processBacklog` clears every key below the current one, processes the
  current one and leaves the rest (`lookup_processBacklog`), and hands over
  exactly the taken messages `checkMessage` accepts (`delivered_processBacklog`).

Keys are `Sequence.Uint64()`, so keys stand for sequences only below `2^64`:
`SeqsBelow` holds along runs whose views stay `acceptMaxFutureSequence`
below it.  Past it the keys wrap (`updateState_keeps_wrapped_old_message`).
-/

namespace CeloBlockchain.Ibft

/-! ## Priorities -/

theorem msgPriority_bounds {code : MsgCode} (hc : code ≠ .roundChangeV2) :
    1 ≤ msgPriority code ∧ msgPriority code ≤ 3 := by
  cases code <;> simp [msgPriority] at hc ⊢

theorem msgPriority_eq_one_iff {code : MsgCode} (hc : code ≠ .roundChangeV2) :
    msgPriority code = 1 ↔ code = .preprepareV2 := by
  cases code <;> simp [msgPriority] at hc ⊢

@[simp] theorem toPriority_roundChange (view : View) : toPriority .roundChangeV2 view = 0 := rfl

/-- Below `maxRoundForPriorityQueue` the fixed-width arithmetic of
`toPriority` is exact. -/
theorem toPriority_of_lt {code : MsgCode} (hc : code ≠ .roundChangeV2) {view : View}
    (hr : view.round < maxRoundForPriorityQueue) :
    toPriority code view = -((10 * view.round + msgPriority code : Nat) : Int) := by
  have hw := msgPriority_bounds hc
  have hmax : maxRoundForPriorityQueue = 2 ^ 58 := rfl
  have h₁ : uint64 view.round = view.round := Nat.mod_eq_of_lt (by omega)
  have h₂ : uint64 (view.round * 10) = view.round * 10 := Nat.mod_eq_of_lt (by omega)
  have h₃ : uint64 (view.round * 10 + msgPriority code) = view.round * 10 + msgPriority code :=
    Nat.mod_eq_of_lt (by omega)
  have h₄ : int64OfUint64 (view.round * 10 + msgPriority code) = ((view.round * 10 + msgPriority code : Nat) : Int) :=
    if_pos (by omega)
  rw [toPriority, if_neg hc, h₁, h₂, h₃, h₄, int64Neg, if_neg (by omega)]
  congr 2
  omega

theorem toPriority_neg {code : MsgCode} (hc : code ≠ .roundChangeV2) {view : View}
    (hr : view.round < maxRoundForPriorityQueue) : toPriority code view < 0 := by
  have hw := msgPriority_bounds hc
  rw [toPriority_of_lt hc hr]
  omega

/-- **Pop order.**  Below `maxRoundForPriorityQueue` a message other than a
round change pops before another exactly when its round is smaller, or the
rounds agree and its code comes first among PREPREPARE, COMMIT, PREPARE.
Round changes, at priority `0`, pop before all of them (`toPriority_neg`). -/
theorem toPriority_lt_iff {code₁ code₂ : MsgCode} (hc₁ : code₁ ≠ .roundChangeV2)
    (hc₂ : code₂ ≠ .roundChangeV2) {v₁ v₂ : View} (hr₁ : v₁.round < maxRoundForPriorityQueue)
    (hr₂ : v₂.round < maxRoundForPriorityQueue) :
    toPriority code₂ v₂ < toPriority code₁ v₁ ↔
      v₁.round < v₂.round ∨ v₁.round = v₂.round ∧ msgPriority code₁ < msgPriority code₂ := by
  have hw₁ := msgPriority_bounds hc₁
  have hw₂ := msgPriority_bounds hc₂
  rw [toPriority_of_lt hc₁ hr₁, toPriority_of_lt hc₂ hr₂]
  omega

namespace Core

/-- What `checkMessage` calls future, once the current round is at most the
desired round (the source panics otherwise). -/
theorem checkMessage_eq_future_iff (c : Core) (hround : c.current.round ≤ c.current.desiredRound)
    (code : MsgCode) (view : View) :
    c.checkMessage code view = some .futureMessage ↔
      c.current.sequence < view.sequence ∨
      view.sequence = c.current.sequence ∧ code ≠ .roundChangeV2 ∧
        c.current.desiredRound ≤ view.round ∧
        ((c.current.state = .waitingForNewRound ∨ c.current.state = .acceptRequest) ∧
            code ≠ .preprepareV2 ∨ c.current.desiredRound < view.round) := by
  unfold checkMessage
  split_ifs <;> simp_all <;> omega

/-- **Future is closed in pop order.**  Among messages of one sequence below
`maxRoundForPriorityQueue`, whatever pops after a future message is future:
a later round, or a COMMIT or PREPARE behind a future PREPREPARE's round. -/
theorem checkMessage_future_closed (c : Core) (hround : c.current.round ≤ c.current.desiredRound)
    {code₁ code₂ : MsgCode} {v₁ v₂ : View} (hseq : v₁.sequence = v₂.sequence)
    (hr₁ : v₁.round < maxRoundForPriorityQueue) (hr₂ : v₂.round < maxRoundForPriorityQueue)
    (hle : toPriority code₂ v₂ ≤ toPriority code₁ v₁)
    (hf : c.checkMessage code₁ v₁ = some .futureMessage) :
    c.checkMessage code₂ v₂ = some .futureMessage := by
  rw [checkMessage_eq_future_iff c hround] at hf ⊢
  rcases hf with hlt | ⟨hs, hc₁, hd₁, hcase⟩
  · exact .inl (hseq ▸ hlt)
  · -- a future message of the current sequence has a negative priority, so
    -- what pops after it is no round change
    have hneg := toPriority_neg hc₁ hr₁
    have hc₂ : code₂ ≠ .roundChangeV2 := by
      rintro rfl
      rw [toPriority_roundChange] at hle
      omega
    have hw₁ := msgPriority_bounds hc₁
    have hw₂ := msgPriority_bounds hc₂
    rw [toPriority_of_lt hc₁ hr₁, toPriority_of_lt hc₂ hr₂] at hle
    refine .inr ⟨hseq ▸ hs, hc₂, by omega, ?_⟩
    rcases hcase with ⟨hst, hpp₁⟩ | hgt
    · by_cases hpp₂ : code₂ = .preprepareV2
      · -- a PREPREPARE pops before the COMMITs and PREPAREs of its round
        have h₂ : msgPriority code₂ = 1 := (msgPriority_eq_one_iff hc₂).mpr hpp₂
        have h₁ : msgPriority code₁ ≠ 1 := fun h => hpp₁ ((msgPriority_eq_one_iff hc₁).mp h)
        exact .inr (by omega)
      · exact .inl ⟨hst, hpp₂⟩
    · exact .inr (by omega)

end Core

namespace MsgBacklog

/-! ### What `processBacklog` leaves and hands over -/

/-- The queue `processBacklog` leaves under key `seq`, from the one `o` it
finds there, when the current sequence's key is `K`: earlier sequences are
cleared, the current one is processed, later ones stay. -/
def afterProcessing (checkMessage : MsgCode → View → Option Err) (K seq : Nat)
    (o : Option (List (Message × Int))) : Option (List (Message × Int)) :=
  if seq < K then none else if seq = K then o.bind (keptQueue (isFuture checkMessage)) else o

/-- The messages `processBacklog` hands to `msgProcessor` from the current
sequence's queue `q`. -/
def delivered (checkMessage : MsgCode → View → Option Err) (q : List (Message × Int)) :
    List Message :=
  ((popped (isFuture checkMessage) q).map Prod.fst).filter (isDeliverable checkMessage)

@[simp] theorem afterProcessing_none (checkMessage : MsgCode → View → Option Err) (K seq : Nat) :
    afterProcessing checkMessage K seq none = none := by
  unfold afterProcessing
  split_ifs <;> rfl

/-- Clearing keeps nothing of a queue. -/
theorem keptQueue_false (q : List (Message × Int)) : keptQueue (fun _ => false) q = none := by
  simp [keptQueue, remaining, List.dropWhile_eq_nil_iff]

theorem mem_getSortedBacklogSeqs (c : MsgBacklog) (k : Nat) :
    k ∈ c.getSortedBacklogSeqs ↔ k ∈ c.backlogBySeq.keys :=
  (List.perm_insertionSort _ _).mem_iff

theorem nodup_getSortedBacklogSeqs (c : MsgBacklog) : c.getSortedBacklogSeqs.Nodup :=
  (List.perm_insertionSort _ _).nodup_iff.mpr c.backlogBySeq.keys_nodup

section ProcessBacklogStep

variable (checkMessage : MsgCode → View → Option Err) {acc : MsgBacklog × List Message}
  (h : Inv acc.1) (seq : Nat)
include h

theorem processBacklogStep_currentView :
    (processBacklogStep checkMessage acc seq).1.currentView = acc.1.currentView := by
  unfold processBacklogStep
  split_ifs
  · exact processBacklogForSeq_currentView h seq _
  · exact processBacklogForSeq_currentView h seq _
  · rfl

/-- One step of the loop changes only the queue under its own key. -/
theorem lookup_processBacklogStep (k : Nat) :
    (processBacklogStep checkMessage acc seq).1.backlogBySeq.lookup k =
      if k = seq then
        afterProcessing checkMessage (uint64 acc.1.currentView.sequence) seq (acc.1.backlogBySeq.lookup seq)
      else acc.1.backlogBySeq.lookup k := by
  unfold processBacklogStep
  by_cases hlt : seq < uint64 acc.1.currentView.sequence
  · -- an earlier sequence is cleared
    rw [if_pos hlt, clearBacklogForSeq, lookup_processBacklogForSeq h]
    by_cases hk : k = seq
    · simp only [if_pos hk]
      cases acc.1.backlogBySeq.lookup seq <;> simp [afterProcessing, hlt, keptQueue_false]
    · simp only [if_neg hk]
  · rw [if_neg hlt]
    by_cases heq : seq = uint64 acc.1.currentView.sequence
    · -- the current sequence is processed
      rw [if_pos heq]
      dsimp only
      rw [lookup_processBacklogForSeq h]
      by_cases hk : k = seq
      · simp only [if_pos hk, afterProcessing, if_neg hlt, if_pos heq]
      · simp only [if_neg hk]
    · rw [if_neg heq]
      by_cases hk : k = seq
      · rw [if_pos hk, afterProcessing, if_neg hlt, if_neg heq, hk]
      · rw [if_neg hk]

/-- Only the step at the current sequence's key hands messages over. -/
theorem delivered_processBacklogStep :
    (processBacklogStep checkMessage acc seq).2 = acc.2 ++
      if seq = uint64 acc.1.currentView.sequence then
        delivered checkMessage ((acc.1.backlogBySeq.lookup seq).getD [])
      else [] := by
  unfold processBacklogStep
  by_cases hlt : seq < uint64 acc.1.currentView.sequence
  · rw [if_pos hlt, if_neg (Nat.ne_of_lt hlt), List.append_nil]
  · rw [if_neg hlt]
    by_cases heq : seq = uint64 acc.1.currentView.sequence
    · rw [if_pos heq, if_pos heq]
      dsimp only
      cases hq : acc.1.backlogBySeq.lookup seq with
      | none => rw [processBacklogForSeq_of_none hq]; rfl
      | some q => rw [processBacklogForSeq_of_some hq (h.queues seq q hq).sorted]; rfl
    · rw [if_neg heq, if_neg heq, List.append_nil]

end ProcessBacklogStep

/-- **The loop of `processBacklog`.**  Over distinct keys whose queues are
still those of `c`, each key's queue becomes `afterProcessing` of `c`'s, and
only the current sequence's key hands messages over. -/
theorem foldl_processBacklogStep (checkMessage : MsgCode → View → Option Err) (c : MsgBacklog) :
    ∀ (ks : List Nat) (acc : MsgBacklog × List Message), ks.Nodup → Inv acc.1 →
      acc.1.currentView = c.currentView →
      (∀ k ∈ ks, acc.1.backlogBySeq.lookup k = c.backlogBySeq.lookup k) →
      (∀ k, (ks.foldl (processBacklogStep checkMessage) acc).1.backlogBySeq.lookup k =
        if k ∈ ks then afterProcessing checkMessage (uint64 c.currentView.sequence) k (c.backlogBySeq.lookup k)
        else acc.1.backlogBySeq.lookup k) ∧
      (ks.foldl (processBacklogStep checkMessage) acc).2 = acc.2 ++
        if uint64 c.currentView.sequence ∈ ks then
          delivered checkMessage ((c.backlogBySeq.lookup (uint64 c.currentView.sequence)).getD [])
        else [] := by
  intro ks
  induction ks with
  | nil => intro acc _ _ _ _; simp
  | cons seq ks ih =>
    intro acc hnd h hview hfresh
    obtain ⟨hseq, hnd⟩ := List.nodup_cons.mp hnd
    have hview' := processBacklogStep_currentView checkMessage h seq
    have hlook := lookup_processBacklogStep checkMessage h seq
    have hfresh' : ∀ k ∈ ks, (processBacklogStep checkMessage acc seq).1.backlogBySeq.lookup k =
        c.backlogBySeq.lookup k := by
      intro k hk
      rw [hlook k, if_neg (fun he : k = seq => hseq (he ▸ hk)), hfresh k (List.mem_cons_of_mem _ hk)]
    obtain ⟨ihl, ihd⟩ := ih _ hnd (inv_processBacklogStep checkMessage h seq)
      (hview'.trans hview) hfresh'
    rw [List.foldl_cons]
    refine ⟨fun k => ?_, ?_⟩
    · rw [ihl k, hlook k, hview, hfresh seq List.mem_cons_self]
      by_cases hk : k ∈ ks
      · rw [if_pos hk, if_pos (List.mem_cons_of_mem _ hk)]
      · by_cases hks : k = seq
        · subst hks
          simp [hk]
        · simp [hk, hks]
    · rw [ihd, delivered_processBacklogStep checkMessage h seq, hview, hfresh seq List.mem_cons_self]
      by_cases hK : uint64 c.currentView.sequence = seq
      · -- the current key is this one, so not among the rest
        subst hK
        simp [hseq]
      · simp [Ne.symm hK, List.mem_cons, hK]

section ProcessBacklog

variable {c : MsgBacklog} (h : Inv c) (checkMessage : MsgCode → View → Option Err)
include h

theorem lookup_processBacklog (k : Nat) :
    (c.processBacklog checkMessage).1.backlogBySeq.lookup k =
      afterProcessing checkMessage (uint64 c.currentView.sequence) k (c.backlogBySeq.lookup k) := by
  have hl := (foldl_processBacklogStep checkMessage c c.getSortedBacklogSeqs (c, [])
    (nodup_getSortedBacklogSeqs c) h rfl fun _ _ => rfl).1 k
  rw [processBacklog, hl]
  split_ifs with hk
  · rfl
  · -- a key with no queue stays without one
    have hnone : c.backlogBySeq.lookup k = none :=
      AList.lookup_eq_none.mpr fun hm => hk ((mem_getSortedBacklogSeqs c k).mpr (AList.mem_keys.mp hm))
    rw [hnone, afterProcessing_none]

theorem delivered_processBacklog :
    (c.processBacklog checkMessage).2 =
      delivered checkMessage ((c.backlogBySeq.lookup (uint64 c.currentView.sequence)).getD []) := by
  have hd := (foldl_processBacklogStep checkMessage c c.getSortedBacklogSeqs (c, [])
    (nodup_getSortedBacklogSeqs c) h rfl fun _ _ => rfl).2
  rw [processBacklog, hd, List.nil_append]
  split_ifs with hK
  · rfl
  · have hnone : c.backlogBySeq.lookup (uint64 c.currentView.sequence) = none :=
      AList.lookup_eq_none.mpr fun hm => hK ((mem_getSortedBacklogSeqs c _).mpr (AList.mem_keys.mp hm))
    rw [hnone]
    rfl

end ProcessBacklog

/-! ### Sequences that fit in a `uint64`

Queues are keyed by `Sequence.Uint64()`, so keys stand for sequences only
while these fit in 64 bits.  A run whose views stay
`acceptMaxFutureSequence` below `2^64` never stores a sequence beyond. -/

/-- The view `updateState` is given stays `acceptMaxFutureSequence` below `2^64`. -/
def Call.SeqBounded : Call → Prop
  | .updateState view _ _ => view.sequence + acceptMaxFutureSequence < 2 ^ 64
  | _ => True

/-- The backlog's view and every sequence it holds fit in a `uint64`. -/
structure SeqsBelow (c : MsgBacklog) : Prop where
  current : c.currentView.sequence + acceptMaxFutureSequence < 2 ^ 64
  entries : ∀ e ∈ held c, (extractMessageView e.1).sequence < 2 ^ 64

theorem SeqsBelow.of_subset {c c' : MsgBacklog} (h : SeqsBelow c)
    (hview : c'.currentView = c.currentView) (hsub : ∀ e ∈ held c', e ∈ held c) : SeqsBelow c' :=
  ⟨hview ▸ h.current, fun e he => h.entries e (hsub e he)⟩

theorem seqsBelow_processBacklogForSeq {c : MsgBacklog} (hi : Inv c) (h : SeqsBelow c) (seq : Nat)
    (process : Message → Bool) : SeqsBelow (c.processBacklogForSeq seq process).1 := by
  obtain ⟨T, -, hperm⟩ := perm_held_processBacklogForSeq hi seq process
  exact h.of_subset (processBacklogForSeq_currentView hi seq process)
    fun e he => hperm.symm.subset (List.mem_append_right T he)

theorem seqsBelow_pruneLoop {c : MsgBacklog} (hi : Inv c) (h : SeqsBelow c) (seqs : List Nat) :
    SeqsBelow (pruneLoop c seqs) := by
  induction seqs generalizing c with
  | nil => exact h
  | cons seq seqs ih =>
    rw [pruneLoop]
    split_ifs
    · exact h
    · exact ih (inv_clearBacklogForSeq hi seq) (seqsBelow_processBacklogForSeq hi h seq _)

theorem seqsBelow_removeMessagesOverflow {c : MsgBacklog} (hi : Inv c) (h : SeqsBelow c) :
    SeqsBelow c.removeMessagesOverflow := by
  unfold removeMessagesOverflow
  split_ifs
  · exact seqsBelow_pruneLoop hi h _
  · exact h

theorem seqsBelow_store {c : MsgBacklog} (hi : Inv c) (h : SeqsBelow c) (msg : Message) :
    SeqsBelow (c.store msg) := by
  by_cases hacc : (extractMessageView msg).sequence ≤ c.currentView.sequence + acceptMaxFutureSequence ∧
      (extractMessageView msg).round < maxRoundForPriorityQueue ∧
      (c.msgCountBySrc.lookup msg.address).getD 0 ≤ acceptMaxFutureMsgsFromOneValidator
  · obtain ⟨hseq, hround, hcap⟩ := hacc
    rw [store_of_accept hseq hround hcap]
    -- the new entry is at most `acceptMaxFutureSequence` ahead of the view
    refine seqsBelow_removeMessagesOverflow (inv_accept hi hround hcap) ⟨h.current, fun e he => ?_⟩
    rcases List.mem_cons.mp ((perm_held_accept c msg).subset he) with rfl | he
    · have := h.current
      exact lt_of_le_of_lt hseq (by omega)
    · exact h.entries e he
  · rw [store_of_not_accept hacc]
    exact h

theorem seqsBelow_processBacklog {c : MsgBacklog} (hi : Inv c) (h : SeqsBelow c)
    (checkMessage : MsgCode → View → Option Err) : SeqsBelow (c.processBacklog checkMessage).1 :=
  (Run.run_invariant (processBacklogStep checkMessage) (fun acc => Inv acc.1 ∧ SeqsBelow acc.1)
    (fun _ seq hacc => ⟨inv_processBacklogStep checkMessage hacc.1 seq, by
      unfold processBacklogStep
      split_ifs
      · exact seqsBelow_processBacklogForSeq hacc.1 hacc.2 seq _
      · exact seqsBelow_processBacklogForSeq hacc.1 hacc.2 seq _
      · exact hacc.2⟩) _ (c, []) ⟨hi, h⟩).2

theorem seqsBelow_call {c : MsgBacklog} (hi : Inv c) (h : SeqsBelow c) :
    ∀ x : Call, x.SeqBounded → SeqsBelow (c.call x)
  | .store msg, _ => seqsBelow_store hi h msg
  | .updateState view state checkMessage, hview =>
    seqsBelow_processBacklog (hi.setView view state) ⟨hview, h.entries⟩ checkMessage
  | .removeMessagesOverflow, _ => seqsBelow_removeMessagesOverflow hi h
  | .clearBacklogForSeq seq, _ => seqsBelow_processBacklogForSeq hi h seq _

theorem seqsBelow_runCalls (calls : List Call) (hcalls : ∀ x ∈ calls, x.SeqBounded) :
    SeqsBelow (newMsgBacklog.runCalls calls) :=
  (Run.run_invariant_of_forall call (fun c => Inv c ∧ SeqsBelow c) Call.SeqBounded
    (fun _ x hx h => ⟨inv_call h.1 x, seqsBelow_call h.1 h.2 x hx⟩) calls _ hcalls
    ⟨inv_new, ⟨by decide, fun e he => by simp [held, newMsgBacklog] at he⟩⟩).2

/-- Under the bound a queue's key is its entries' sequence. -/
theorem sequence_eq_key {c : MsgBacklog} (hi : Inv c) (h : SeqsBelow c) {k : Nat}
    {q : List (Message × Int)} (hq : c.backlogBySeq.lookup k = some q) {e : Message × Int}
    (he : e ∈ q) : (extractMessageView e.1).sequence = k := by
  have hkey := ((hi.queues k q hq).stored e he).key
  have hlt := h.entries e (AssocMap.mem_allValues.mpr ⟨k, q, hq, he⟩)
  rwa [uint64, Nat.mod_eq_of_lt hlt] at hkey

/-! ### Processing the current sequence -/

theorem bind_keptQueue (process : Message → Bool) (o : Option (List (Message × Int))) :
    o.bind (keptQueue process) = keptQueue process (o.getD []) := by
  cases o with
  | none => simp [keptQueue, remaining]
  | some q => rfl

/-- A queue `processBacklog` leaves under key `k` is at or above the current
key `K` and comes from the queue found there; at `K` it is what `process`
stopped at. -/
theorem afterProcessing_eq_some {checkMessage : MsgCode → View → Option Err} {K k : Nat}
    {o : Option (List (Message × Int))} {q' : List (Message × Int)}
    (h : afterProcessing checkMessage K k o = some q') :
    K ≤ k ∧ ∃ q, o = some q ∧ (k = K → q' = remaining (isFuture checkMessage) q) := by
  unfold afterProcessing at h
  by_cases hlt : k < K
  · rw [if_pos hlt] at h
    cases h
  · rw [if_neg hlt] at h
    by_cases heq : k = K
    · subst heq
      rw [if_pos rfl] at h
      cases o with
      | none => cases h
      | some q =>
        refine ⟨le_rfl, q, rfl, fun _ => ?_⟩
        rw [Option.bind_some, keptQueue] at h
        split_ifs at h
        exact (Option.some_inj.mp h).symm
    · rw [if_neg heq] at h
      exact ⟨by omega, q', h, fun hk => absurd hk heq⟩

/-- Within one stored queue, what pops after a future message is future. -/
theorem isFuture_closed_in_queue {c : MsgBacklog} (hi : Inv c) (hs : SeqsBelow c) {k : Nat}
    {q : List (Message × Int)} (hq : c.backlogBySeq.lookup k = some q) (core : Core)
    (hround : core.current.round ≤ core.current.desiredRound) :
    ∀ a ∈ q, ∀ b ∈ q, PopOrder.Before Prod.snd a b →
      isFuture core.checkMessage a.1 = true → isFuture core.checkMessage b.1 = true := by
  intro a ha b hb hab hfa
  have sa := (hi.queues k q hq).stored a ha
  have sb := (hi.queues k q hq).stored b hb
  have hle : toPriority b.1.code (extractMessageView b.1) ≤ toPriority a.1.code (extractMessageView a.1) := by
    rw [← sa.priority, ← sb.priority]
    exact hab
  have hseq : (extractMessageView a.1).sequence = (extractMessageView b.1).sequence := by
    rw [sequence_eq_key hi hs hq ha, sequence_eq_key hi hs hq hb]
  have hfb := Core.checkMessage_future_closed core hround hseq sa.round sb.round hle
    (by simpa [isFuture] using hfa)
  simpa [isFuture] using hfb

/-- `updateState` with the core's own view and state: nothing below the
current sequence is left; of the current sequence only future messages are
left, behind the messages taken out in pop order, of which exactly those
`checkMessage` accepts go to `msgProcessor`.  This rests on every entry
carrying its exact priority (no `int64` overflow below
`maxRoundForPriorityQueue`), on the pop order that priority gives, and on
future being closed in that order. -/
theorem updateState_keeps_only_future (calls : List Call) (hcalls : ∀ x ∈ calls, x.SeqBounded)
    (core : Core) (hround : core.current.round ≤ core.current.desiredRound)
    (hseq : core.current.sequence + acceptMaxFutureSequence < 2 ^ 64) :
    let c := newMsgBacklog.runCalls calls
    let r := c.updateState core.current.view core.current.state core.checkMessage
    let q := (c.backlogBySeq.lookup core.current.sequence).getD []
    (∀ k q' e, r.1.backlogBySeq.lookup k = some q' → e ∈ q' →
      core.current.sequence ≤ (extractMessageView e.1).sequence) ∧
    (∀ k q' e, r.1.backlogBySeq.lookup k = some q' → e ∈ q' →
      (extractMessageView e.1).sequence = core.current.sequence →
      core.checkMessage e.1.code (extractMessageView e.1) = some .futureMessage) ∧
    r.1.backlogBySeq.lookup core.current.sequence = keptQueue (isFuture core.checkMessage) q ∧
    r.2 = ((popped (isFuture core.checkMessage) q).map Prod.fst).filter
      (fun m => core.checkMessage m.code (extractMessageView m) = none) ∧
    (∀ m ∈ (popped (isFuture core.checkMessage) q).map Prod.fst,
      core.checkMessage m.code (extractMessageView m) ≠ some .futureMessage) ∧
    (∀ k q' e, c.backlogBySeq.lookup k = some q' → e ∈ q' →
      (extractMessageView e.1).round < maxRoundForPriorityQueue ∧
      e.2 = toPriority e.1.code (extractMessageView e.1) ∧
      (e.1.code ≠ .roundChangeV2 →
        e.2 = -((10 * (extractMessageView e.1).round + msgPriority e.1.code : Nat) : Int))) ∧
    (∀ (code₁ code₂ : MsgCode) (v₁ v₂ : View), code₁ ≠ .roundChangeV2 → code₂ ≠ .roundChangeV2 →
      v₁.round < maxRoundForPriorityQueue → v₂.round < maxRoundForPriorityQueue →
      toPriority code₁ v₁ < toPriority .roundChangeV2 v₂ ∧
      (toPriority code₂ v₂ < toPriority code₁ v₁ ↔
        v₁.round < v₂.round ∨ v₁.round = v₂.round ∧ msgPriority code₁ < msgPriority code₂)) ∧
    (∀ (code₁ code₂ : MsgCode) (v₁ v₂ : View), v₁.sequence = v₂.sequence →
      v₁.round < maxRoundForPriorityQueue → v₂.round < maxRoundForPriorityQueue →
      toPriority code₂ v₂ ≤ toPriority code₁ v₁ →
      core.checkMessage code₁ v₁ = some .futureMessage →
      core.checkMessage code₂ v₂ = some .futureMessage) := by
  intro c r q
  have hi := inv_runCalls calls
  have hs := seqsBelow_runCalls calls hcalls
  have hi' := hi.setView core.current.view core.current.state
  have hK : uint64 core.current.sequence = core.current.sequence := Nat.mod_eq_of_lt (by omega)
  have hlook : ∀ k, r.1.backlogBySeq.lookup k =
      afterProcessing core.checkMessage core.current.sequence k (c.backlogBySeq.lookup k) := by
    intro k
    have hk := lookup_processBacklog hi' core.checkMessage k
    rwa [show uint64 core.current.view.sequence = core.current.sequence from hK] at hk
  -- what is left under a key comes from the queue found there
  have hleft : ∀ k q' e, r.1.backlogBySeq.lookup k = some q' → e ∈ q' →
      ∃ q₀, c.backlogBySeq.lookup k = some q₀ ∧ e ∈ q₀ ∧ core.current.sequence ≤ k ∧
        (k = core.current.sequence → q' = remaining (isFuture core.checkMessage) q₀) := by
    intro k q' e hk he
    rw [hlook k] at hk
    obtain ⟨hle, q₀, hq₀, hcur⟩ := afterProcessing_eq_some hk
    have he₀ : e ∈ q₀ := by
      by_cases hkK : k = core.current.sequence
      · exact (List.dropWhile_suffix _).subset ((hcur hkK) ▸ he)
      · have : afterProcessing core.checkMessage core.current.sequence k (some q₀) = some q₀ := by
          simp [afterProcessing, hkK, not_lt.mpr hle]
        rw [hq₀, this, Option.some_inj] at hk
        exact hk ▸ he
    exact ⟨q₀, hq₀, he₀, hle, hcur⟩
  refine ⟨?_, ?_, ?_, ?_, ?_, ?_, ?_, ?_⟩
  · -- (a) nothing below the current sequence is left
    intro k q' e hk he
    obtain ⟨q₀, hq₀, he₀, hle, -⟩ := hleft k q' e hk he
    rw [sequence_eq_key hi hs hq₀ he₀]
    exact hle
  · -- (b) what is left of the current sequence is future
    intro k q' e hk he hse
    obtain ⟨q₀, hq₀, he₀, -, hcur⟩ := hleft k q' e hk he
    have hkK : k = core.current.sequence := (sequence_eq_key hi hs hq₀ he₀).symm.trans hse
    have he' : e ∈ remaining (isFuture core.checkMessage) q₀ := hcur hkK ▸ he
    have hfut := PopOrder.forall_dropWhile (hi.queues k q₀ hq₀).sorted
      (isFuture_closed_in_queue hi hs hq₀ core hround) e he'
    simpa [isFuture] using hfut
  · -- (c) the current sequence keeps what `process` stopped at
    rw [hlook, afterProcessing, if_neg (lt_irrefl _), if_pos rfl, bind_keptQueue]
  · have hd := delivered_processBacklog hi' core.checkMessage
    rw [show uint64 core.current.view.sequence = core.current.sequence from hK] at hd
    refine hd.trans ?_
    rw [delivered]
    exact List.filter_congr fun m _ => by
      unfold isDeliverable
      cases core.checkMessage m.code (extractMessageView m) <;> rfl
  · intro m hm
    obtain ⟨e, he, rfl⟩ := List.mem_map.mp hm
    have hnf := List.mem_takeWhile_imp he
    simpa [isFuture] using hnf
  · -- every entry carries its exact priority
    intro k q' e hk he
    have hst := (hi.queues k q' hk).stored e he
    refine ⟨hst.round, hst.priority, fun hc => ?_⟩
    rw [hst.priority, toPriority_of_lt hc hst.round]
  · intro code₁ code₂ v₁ v₂ hc₁ hc₂ hr₁ hr₂
    exact ⟨by rw [toPriority_roundChange]; exact toPriority_neg hc₁ hr₁,
      toPriority_lt_iff hc₁ hc₂ hr₁ hr₂⟩
  · intro code₁ code₂ v₁ v₂ hseq' hr₁ hr₂ hle hf
    exact Core.checkMessage_future_closed core hround hseq' hr₁ hr₂ hle hf

/-- A core at sequence `s`, round `0`, before any proposal. -/
def coreAt (s : Nat) : Core := Core.new 0 ⟨s, 0⟩ ⟨[], 0⟩ ⟨0, 0⟩ 0

/-- A COMMIT and a PREPARE for round `1` of the first sequence, and a
PREPREPARE for round `0`. -/
def earlyCalls : List Call :=
  [.store (.vote ⟨.commit, 2, 2, ⟨⟨1, 1⟩, 5⟩, 0, 0⟩),
   .store (.vote ⟨.prepare, 3, 3, ⟨⟨1, 1⟩, 5⟩, 0, 0⟩),
   .store (.preprepareV2 1 1 ⟨⟨1, 0⟩, ⟨1, 5⟩, ⟨[]⟩⟩)]

theorem updateState_keeps_only_future_early :
    (∀ x ∈ earlyCalls, x.SeqBounded) ∧
    (coreAt 1).current.round ≤ (coreAt 1).current.desiredRound ∧
    (coreAt 1).current.sequence + acceptMaxFutureSequence < 2 ^ 64 ∧
    let c := newMsgBacklog.runCalls earlyCalls
    let r := c.updateState (coreAt 1).current.view (coreAt 1).current.state (coreAt 1).checkMessage
    let q := (c.backlogBySeq.lookup (coreAt 1).current.sequence).getD []
    (∀ k q' e, r.1.backlogBySeq.lookup k = some q' → e ∈ q' →
      (coreAt 1).current.sequence ≤ (extractMessageView e.1).sequence) ∧
    (∀ k q' e, r.1.backlogBySeq.lookup k = some q' → e ∈ q' →
      (extractMessageView e.1).sequence = (coreAt 1).current.sequence →
      (coreAt 1).checkMessage e.1.code (extractMessageView e.1) = some .futureMessage) ∧
    r.1.backlogBySeq.lookup (coreAt 1).current.sequence =
      keptQueue (isFuture (coreAt 1).checkMessage) q ∧
    r.2 = ((popped (isFuture (coreAt 1).checkMessage) q).map Prod.fst).filter
      (fun m => (coreAt 1).checkMessage m.code (extractMessageView m) = none) ∧
    (∀ m ∈ (popped (isFuture (coreAt 1).checkMessage) q).map Prod.fst,
      (coreAt 1).checkMessage m.code (extractMessageView m) ≠ some .futureMessage) ∧
    (∀ k q' e, c.backlogBySeq.lookup k = some q' → e ∈ q' →
      (extractMessageView e.1).round < maxRoundForPriorityQueue ∧
      e.2 = toPriority e.1.code (extractMessageView e.1) ∧
      (e.1.code ≠ .roundChangeV2 →
        e.2 = -((10 * (extractMessageView e.1).round + msgPriority e.1.code : Nat) : Int))) ∧
    (∀ (code₁ code₂ : MsgCode) (v₁ v₂ : View), code₁ ≠ .roundChangeV2 → code₂ ≠ .roundChangeV2 →
      v₁.round < maxRoundForPriorityQueue → v₂.round < maxRoundForPriorityQueue →
      toPriority code₁ v₁ < toPriority .roundChangeV2 v₂ ∧
      (toPriority code₂ v₂ < toPriority code₁ v₁ ↔
        v₁.round < v₂.round ∨ v₁.round = v₂.round ∧ msgPriority code₁ < msgPriority code₂)) ∧
    (∀ (code₁ code₂ : MsgCode) (v₁ v₂ : View), v₁.sequence = v₂.sequence →
      v₁.round < maxRoundForPriorityQueue → v₂.round < maxRoundForPriorityQueue →
      toPriority code₂ v₂ ≤ toPriority code₁ v₁ →
      (coreAt 1).checkMessage code₁ v₁ = some .futureMessage →
      (coreAt 1).checkMessage code₂ v₂ = some .futureMessage) := by
  have hcalls : ∀ x ∈ earlyCalls, x.SeqBounded := by
    intro x hx
    simp only [earlyCalls, List.mem_cons, List.not_mem_nil, or_false] at hx
    rcases hx with rfl | rfl | rfl <;> trivial
  exact ⟨hcalls, by decide, by decide,
    updateState_keeps_only_future earlyCalls hcalls (coreAt 1) (by decide) (by decide)⟩

/-- A PREPARE for sequence `2^64 - 1`. -/
def wrapMessage : Message := .vote ⟨.prepare, 7, 7, ⟨⟨2 ^ 64 - 1, 0⟩, 0⟩, 0, 0⟩

/-- The core reaches sequence `2^64 - 5`; then `wrapMessage`, within
`acceptMaxFutureSequence` of it, arrives. -/
def wrapCalls : List Call :=
  [.updateState (coreAt (2 ^ 64 - 5)).current.view (coreAt (2 ^ 64 - 5)).current.state
    (coreAt (2 ^ 64 - 5)).checkMessage, .store wrapMessage]

/-- Past `2^64` the queues' `Uint64()` keys wrap: once the core is at
sequence `2^64 + 1` (key `1`), the message for `2^64 - 1` sits under a key
above the current one and is neither cleared nor processed. -/
theorem updateState_keeps_wrapped_old_message :
    let c := newMsgBacklog.runCalls wrapCalls
    let r := c.updateState (coreAt (2 ^ 64 + 1)).current.view (coreAt (2 ^ 64 + 1)).current.state
      (coreAt (2 ^ 64 + 1)).checkMessage
    (coreAt (2 ^ 64 + 1)).current.round ≤ (coreAt (2 ^ 64 + 1)).current.desiredRound ∧
    r.1.backlogBySeq.lookup (2 ^ 64 - 1) = some [entryOf wrapMessage] ∧
    (extractMessageView wrapMessage).sequence < (coreAt (2 ^ 64 + 1)).current.sequence := by
  decide

/-! ### Bookkeeping -/

theorem removeMessagesOverflow_of_le {c : MsgBacklog} (h : c.msgCount ≤ acceptMaxFutureMessages) :
    c.removeMessagesOverflow = c :=
  if_neg (not_lt.mpr h)

/-- Storing one acceptable message `n ≤ 1001` times into a fresh backlog
counts it `n` times: the cap test `> acceptMaxFutureMsgsFromOneValidator`
passes up to a count of `1000`, and nothing is pruned. -/
theorem runCalls_replicate_store {msg : Message}
    (hseq : (extractMessageView msg).sequence ≤ newMsgBacklog.currentView.sequence + acceptMaxFutureSequence)
    (hround : (extractMessageView msg).round < maxRoundForPriorityQueue) :
    ∀ n : Nat, n ≤ 1001 →
      (newMsgBacklog.runCalls (List.replicate n (.store msg))).currentView = newMsgBacklog.currentView ∧
      (newMsgBacklog.runCalls (List.replicate n (.store msg))).msgCount = n ∧
      ((newMsgBacklog.runCalls (List.replicate n (.store msg))).msgCountBySrc.lookup msg.address).getD 0 = n
  | 0, _ => ⟨rfl, rfl, rfl⟩
  | n + 1, hn => by
    obtain ⟨hv, hc, hs⟩ := runCalls_replicate_store hseq hround n (by omega)
    rw [List.replicate_succ', runCalls, Run.run_concat, ← runCalls]
    set c := newMsgBacklog.runCalls (List.replicate n (.store msg))
    have hcap : (c.msgCountBySrc.lookup msg.address).getD 0 ≤ acceptMaxFutureMsgsFromOneValidator := by
      rw [hs, acceptMaxFutureMsgsFromOneValidator]
      omega
    show (c.store msg).currentView = _ ∧ (c.store msg).msgCount = _ ∧
      ((c.store msg).msgCountBySrc.lookup msg.address).getD 0 = _
    rw [store_of_accept (hv ▸ hseq) hround hcap, removeMessagesOverflow_of_le (by
      show c.msgCount + 1 ≤ acceptMaxFutureMessages
      rw [hc, acceptMaxFutureMessages]
      omega)]
    refine ⟨hv, ?_, ?_⟩
    · show c.msgCount + 1 = _
      rw [hc]
      push_cast
      rfl
    · show (AList.lookup msg.address (c.msgCountBySrc.insert _ _)).getD 0 = _
      rw [AList.lookup_insert, Option.getD_some, hs]
      push_cast
      rfl

/-- The three counters agree over every run: `msgCount` is the number of
messages queued and the sum of `msgCountBySrc`, which counts them by sender
and holds no entry at zero or below; no queue is left empty; `store` drops
what is more than `acceptMaxFutureSequence` ahead; and no sender has more
than one message over `acceptMaxFutureMsgsFromOneValidator` queued. -/
theorem backlog_counters_agree (calls : List Call) :
    let c := newMsgBacklog.runCalls calls
    c.msgCount = (c.backlogBySeq.entries.map fun e => e.2.length).sum ∧
    (c.msgCountBySrc.entries.map (·.2)).sum = c.msgCount ∧
    (∀ a, (c.msgCountBySrc.lookup a).getD 0 = ((held c).countP fun e => e.1.address = a : Nat)) ∧
    (∀ a n, c.msgCountBySrc.lookup a = some n → 0 < n) ∧
    (∀ k q, c.backlogBySeq.lookup k = some q → q ≠ []) ∧
    (∀ (b : MsgBacklog) (msg : Message),
      b.currentView.sequence + acceptMaxFutureSequence < (extractMessageView msg).sequence →
      b.store msg = b) ∧
    (∀ a, ((held c).countP fun e => e.1.address = a : Nat) ≤ acceptMaxFutureMsgsFromOneValidator + 1) := by
  intro c
  have hi := inv_runCalls calls
  have hlen : (held c).length = (c.backlogBySeq.entries.map fun e => e.2.length).sum :=
    List.length_flatMap
  refine ⟨?_, ?_, hi.counts.count_eq, hi.counts.pos, fun k q hk => (hi.queues k q hk).ne_nil, ?_, ?_⟩
  · rw [hi.total, hlen]
  · rw [hi.counts.sum_eq, hi.total]
  · intro b msg hfar
    exact store_of_not_accept fun h => absurd h.1 (not_le.mpr hfar)
  · intro a
    rw [← hi.counts.count_eq]
    exact hi.capped a

/-- A PREPARE from validator `7` for the first sequence. -/
def capMessage : Message := .vote ⟨.prepare, 7, 7, ⟨⟨1, 0⟩, 0⟩, 0, 0⟩

/-- The per-sender cap is tested with `>` before the increment, so a sender
can have `acceptMaxFutureMsgsFromOneValidator + 1` messages queued. -/
theorem backlog_holds_one_over_cap :
    ((held (newMsgBacklog.runCalls (List.replicate 1001 (.store capMessage)))).countP
      fun e => e.1.address = capMessage.address : Nat) = acceptMaxFutureMsgsFromOneValidator + 1 := by
  have hrun := @runCalls_replicate_store capMessage (by decide) (by decide) 1001 le_rfl
  rw [← (inv_runCalls _).counts.count_eq, hrun.2.2]
  rfl

end MsgBacklog

end CeloBlockchain.Ibft
