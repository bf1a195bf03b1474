import CeloBlockchain.Ibft.Backlog
import CeloBlockchain.Lib.AssocMap
import Mathlib.Data.List.TakeWhile

/-!
# The invariant of the backlog

The backlog's bookkeeping (`core/backlog.go`) is kept by hand across push,
pop, push-back, clearing and pruning.  `Inv` states what every reachable
backlog satisfies:

* every queue is non-empty, in pop order, and holds entries stored under
  its key, each with the priority `store` gave it (`GoodQueue`, `Stored`);
* `msgCountBySrc` counts the held messages by sender, with no entry at zero
  or below (`Counts`), and `msgCount` counts them all;
* no sender has more than `acceptMaxFutureMsgsFromOneValidator + 1`
  messages held.

Each call keeps it (`inv_store`, `inv_processBacklogForSeq`,
`inv_removeMessagesOverflow`, `inv_updateState`), so every run does
(`inv_runCalls`).  `processLoop_eq` reads the loop of
`processBacklogForSeq` on a queue in pop order as a split at the first entry
`process` keeps, and `perm_held_processBacklogForSeq` says what it takes out.
-/

namespace CeloBlockchain.Ibft

namespace MsgBacklog

/-- The messages held, over all sequences. -/
def held (c : MsgBacklog) : List (Message × Int) := AssocMap.allValues c.backlogBySeq

/-- What `processBacklogForSeq` leaves of a queue in pop order. -/
def remaining (process : Message → Bool) (q : List (Message × Int)) : List (Message × Int) :=
  q.dropWhile fun e => !process e.1

/-- What `processBacklogForSeq` takes out of a queue in pop order. -/
def popped (process : Message → Bool) (q : List (Message × Int)) : List (Message × Int) :=
  q.takeWhile fun e => !process e.1

theorem popped_append_remaining (process : Message → Bool) (q : List (Message × Int)) :
    popped process q ++ remaining process q = q :=
  List.takeWhile_append_dropWhile

/-- The counters after counting out `T` one entry at a time. -/
def countOut (msgCountBySrc : AList fun _ : Address => Int) (T : List (Message × Int)) :
    AList fun _ : Address => Int :=
  T.foldl (fun m e => decrementSrc m e.1.address) msgCountBySrc

/-! ### The loop of `processBacklogForSeq` -/

/-- On a queue in pop order the loop takes the entries before the first one
`process` keeps, and leaves the rest. -/
theorem processLoop_eq (process : Message → Bool) {q : List (Message × Int)}
    (hq : PopOrder.Sorted Prod.snd q) (m : AList fun _ : Address => Int) (n : Int) :
    processLoop process q m n =
      (remaining process q, countOut m (popped process q), n - (popped process q).length,
        (popped process q).map Prod.fst) := by
  induction q generalizing m n with
  | nil => simp [processLoop, remaining, popped, countOut]
  | cons e q ih =>
    obtain ⟨msg, priority⟩ := e
    by_cases hp : process msg
    · -- the entry `process` keeps goes back at the front
      simp [processLoop, hp, remaining, popped, countOut, PopOrder.push_of_head hq]
    · rw [processLoop, if_neg hp, ih hq.tail]
      simp only [remaining, popped, countOut, hp, List.dropWhile_cons, List.takeWhile_cons,
        Bool.not_false, ite_true, List.foldl_cons, List.length_cons, List.map_cons, Prod.mk.injEq,
        true_and, and_true]
      omega

theorem processBacklogForSeq_of_none {c : MsgBacklog} {seq : Nat}
    (h : c.backlogBySeq.lookup seq = none) (process : Message → Bool) :
    c.processBacklogForSeq seq process = (c, []) := by
  simp [processBacklogForSeq, h]

theorem processBacklogForSeq_of_some {c : MsgBacklog} {seq : Nat} {q : List (Message × Int)}
    (h : c.backlogBySeq.lookup seq = some q) (hq : PopOrder.Sorted Prod.snd q)
    (process : Message → Bool) :
    c.processBacklogForSeq seq process =
      ({ c with
          backlogBySeq := if remaining process q = [] then c.backlogBySeq.erase seq
            else c.backlogBySeq.insert seq (remaining process q)
          msgCountBySrc := countOut c.msgCountBySrc (popped process q)
          msgCount := c.msgCount - (popped process q).length },
        (popped process q).map Prod.fst) := by
  simp only [processBacklogForSeq, h, processLoop_eq process hq, List.length_eq_zero_iff]

/-! ### The per-sender counter -/

/-- `msgCountBySrc` counts the entries of `L` by sender and holds no entry at
zero or below. -/
structure Counts (msgCountBySrc : AList fun _ : Address => Int) (L : List (Message × Int)) :
    Prop where
  count_eq : ∀ a, (msgCountBySrc.lookup a).getD 0 = (L.countP fun e => e.1.address = a : Nat)
  pos : ∀ a n, msgCountBySrc.lookup a = some n → 0 < n

theorem counts_empty : Counts ∅ [] :=
  ⟨fun _ => rfl, fun _ _ h => by simp at h⟩

theorem Counts.perm {m : AList fun _ : Address => Int} {L L' : List (Message × Int)}
    (h : Counts m L) (hp : L.Perm L') : Counts m L' :=
  ⟨fun a => by rw [h.count_eq a, hp.countP_eq], h.pos⟩

/-- The sum of the counter's values is the number of entries counted. -/
theorem Counts.sum_eq {m : AList fun _ : Address => Int} {L : List (Message × Int)}
    (h : Counts m L) : (m.entries.map (·.2)).sum = L.length :=
  AssocMap.sum_values_of_counts h.count_eq

/-- Storing `e` adds one to its sender's count. -/
theorem Counts.increment {m : AList fun _ : Address => Int} {L : List (Message × Int)}
    (h : Counts m L) (e : Message × Int) :
    Counts (m.insert e.1.address ((m.lookup e.1.address).getD 0 + 1)) (e :: L) := by
  constructor
  · intro a
    by_cases ha : a = e.1.address
    · subst ha
      rw [AList.lookup_insert, Option.getD_some, h.count_eq, List.countP_cons_of_pos (by simp)]
      push_cast
      rfl
    · rw [AList.lookup_insert_ne ha, h.count_eq,
        List.countP_cons_of_neg (by simpa using Ne.symm ha)]
  · intro a n hn
    by_cases ha : a = e.1.address
    · subst ha
      rw [AList.lookup_insert, Option.some_inj] at hn
      rw [← hn, h.count_eq]
      omega
    · exact h.pos a n (by rwa [AList.lookup_insert_ne ha] at hn)

/-- Counting out the front entry `e` takes one from its sender's count and
deletes the count that reaches zero. -/
theorem Counts.decrementSrc {m : AList fun _ : Address => Int} {e : Message × Int}
    {L : List (Message × Int)} (h : Counts m (e :: L)) :
    Counts (MsgBacklog.decrementSrc m e.1.address) L := by
  have hc := h.count_eq e.1.address
  rw [List.countP_cons_of_pos (by simp)] at hc
  push_cast at hc
  have hne : ∀ a, a ≠ e.1.address →
      (m.lookup a).getD 0 = (L.countP fun e => e.1.address = a : Nat) := by
    intro a ha
    rw [h.count_eq, List.countP_cons_of_neg (by simpa using Ne.symm ha)]
  unfold MsgBacklog.decrementSrc
  dsimp only
  split_ifs with hz
  · constructor
    · intro a
      by_cases ha : a = e.1.address
      · subst ha
        rw [AList.lookup_erase, Option.getD_none]
        omega
      · rw [AList.lookup_erase_ne ha, hne a ha]
    · intro a n hn
      by_cases ha : a = e.1.address
      · subst ha
        rw [AList.lookup_erase] at hn
        cases hn
      · exact h.pos a n (by rwa [AList.lookup_erase_ne ha] at hn)
  · constructor
    · intro a
      by_cases ha : a = e.1.address
      · subst ha
        rw [AList.lookup_insert, Option.getD_some]
        omega
      · rw [AList.lookup_insert_ne ha, hne a ha]
    · intro a n hn
      by_cases ha : a = e.1.address
      · subst ha
        rw [AList.lookup_insert, Option.some_inj] at hn
        omega
      · exact h.pos a n (by rwa [AList.lookup_insert_ne ha] at hn)

theorem Counts.countOut {m : AList fun _ : Address => Int} {T R : List (Message × Int)}
    (h : Counts m (T ++ R)) : Counts (countOut m T) R := by
  induction T generalizing m with
  | nil => exact h
  | cons e T ih => exact ih h.decrementSrc

/-! ### The invariant -/

/-- An entry kept under key `k`: it carries the priority `store` gives its
message, its sequence's `Uint64()` is `k`, and its round is below
`maxRoundForPriorityQueue`. -/
structure Stored (k : Nat) (e : Message × Int) : Prop where
  entry : e = entryOf e.1
  key : uint64 (extractMessageView e.1).sequence = k
  round : (extractMessageView e.1).round < maxRoundForPriorityQueue

theorem Stored.priority {k : Nat} {e : Message × Int} (h : Stored k e) :
    e.2 = toPriority e.1.code (extractMessageView e.1) :=
  congrArg Prod.snd h.entry

/-- A queue kept under key `k`: non-empty, in pop order, of entries stored
under `k`. -/
structure GoodQueue (k : Nat) (q : List (Message × Int)) : Prop where
  ne_nil : q ≠ []
  sorted : PopOrder.Sorted Prod.snd q
  stored : ∀ e ∈ q, Stored k e

/-- The invariant of `msgBacklogImpl`: every queue is good, `msgCountBySrc`
counts the held messages by sender, `msgCount` counts them all, and no
sender has more than one message over `acceptMaxFutureMsgsFromOneValidator`. -/
structure Inv (c : MsgBacklog) : Prop where
  queues : ∀ k q, c.backlogBySeq.lookup k = some q → GoodQueue k q
  counts : Counts c.msgCountBySrc (held c)
  total : c.msgCount = (held c).length
  capped : ∀ a, (c.msgCountBySrc.lookup a).getD 0 ≤ acceptMaxFutureMsgsFromOneValidator + 1

theorem inv_new : Inv newMsgBacklog where
  queues := fun _ _ h => by simp [newMsgBacklog] at h
  counts := counts_empty
  total := rfl
  capped := fun _ => by simp [newMsgBacklog, acceptMaxFutureMsgsFromOneValidator]

/-- The good queues of a map stay good when one key is set to a good queue. -/
theorem queues_insert {m : AList fun _ : Nat => List (Message × Int)}
    (hm : ∀ k q, m.lookup k = some q → GoodQueue k q) {seq : Nat} {q : List (Message × Int)}
    (hq : GoodQueue seq q) : ∀ k q', (m.insert seq q).lookup k = some q' → GoodQueue k q' := by
  intro k q' hk
  by_cases hks : k = seq
  · subst hks
    rw [AList.lookup_insert, Option.some_inj] at hk
    exact hk ▸ hq
  · exact hm k q' (by rwa [AList.lookup_insert_ne hks] at hk)

theorem queues_erase {m : AList fun _ : Nat => List (Message × Int)}
    (hm : ∀ k q, m.lookup k = some q → GoodQueue k q) (seq : Nat) :
    ∀ k q', (m.erase seq).lookup k = some q' → GoodQueue k q' := by
  intro k q' hk
  by_cases hks : k = seq
  · subst hks
    rw [AList.lookup_erase] at hk
    cases hk
  · exact hm k q' (by rwa [AList.lookup_erase_ne hks] at hk)

/-- A sender's count only falls when the entries counted shrink. -/
theorem capped_of_subperm {m m' : AList fun _ : Address => Int} {L L' : List (Message × Int)}
    (hc : Counts m L) (hc' : Counts m' L') (hsub : L'.Subperm L)
    (hcap : ∀ a, (m.lookup a).getD 0 ≤ acceptMaxFutureMsgsFromOneValidator + 1) :
    ∀ a, (m'.lookup a).getD 0 ≤ acceptMaxFutureMsgsFromOneValidator + 1 := by
  intro a
  have hle := hsub.countP_le fun e : Message × Int => decide (e.1.address = a)
  have := hcap a
  rw [hc.count_eq] at this
  rw [hc'.count_eq]
  omega

/-! ### `processBacklogForSeq` -/

/-- What is left of a queue: nothing, or what `process` stopped at. -/
def keptQueue (process : Message → Bool) (q : List (Message × Int)) :
    Option (List (Message × Int)) :=
  if remaining process q = [] then none else some (remaining process q)

theorem allValues_update (m : AList fun _ : Nat => List (Message × Int)) (seq : Nat)
    (r : List (Message × Int)) :
    AssocMap.allValues (if r = [] then m.erase seq else m.insert seq r) =
      r ++ AssocMap.allValues (m.erase seq) := by
  split_ifs with hr
  · rw [hr, List.nil_append]
  · exact AssocMap.allValues_insert m seq r

theorem GoodQueue.remaining {k : Nat} {q : List (Message × Int)} (hq : GoodQueue k q)
    {process : Message → Bool} (hne : MsgBacklog.remaining process q ≠ []) :
    GoodQueue k (MsgBacklog.remaining process q) :=
  ⟨hne, hq.sorted.dropWhile _, fun e he => hq.stored e ((List.dropWhile_suffix _).subset he)⟩

section ProcessBacklogForSeq

variable {c : MsgBacklog} (h : Inv c) (seq : Nat) (process : Message → Bool)

/-- Held before are the entries `process` passes, what it stops at, and the
other sequences' entries. -/
theorem perm_held_of_lookup {q : List (Message × Int)} (hq : c.backlogBySeq.lookup seq = some q) :
    (held c).Perm
      (popped process q ++ (remaining process q ++ AssocMap.allValues (c.backlogBySeq.erase seq))) := by
  have hperm := AssocMap.perm_allValues_erase c.backlogBySeq seq
  rwa [hq, Option.getD_some, ← popped_append_remaining process q, List.append_assoc] at hperm

include h

/-- The entries taken out are those of the messages returned, and the rest
are still held. -/
theorem perm_held_processBacklogForSeq :
    ∃ T : List (Message × Int), T.map Prod.fst = (c.processBacklogForSeq seq process).2 ∧
      (held c).Perm (T ++ held (c.processBacklogForSeq seq process).1) := by
  cases hq : c.backlogBySeq.lookup seq with
  | none =>
    rw [processBacklogForSeq_of_none hq]
    exact ⟨[], rfl, List.Perm.refl _⟩
  | some q =>
    rw [processBacklogForSeq_of_some hq (h.queues seq q hq).sorted]
    refine ⟨popped process q, rfl, ?_⟩
    show (held c).Perm (popped process q ++ AssocMap.allValues _)
    rw [allValues_update]
    exact perm_held_of_lookup seq process hq

theorem lookup_processBacklogForSeq (k : Nat) :
    (c.processBacklogForSeq seq process).1.backlogBySeq.lookup k =
      if k = seq then (c.backlogBySeq.lookup seq).bind (keptQueue process)
      else c.backlogBySeq.lookup k := by
  cases hq : c.backlogBySeq.lookup seq with
  | none =>
    rw [processBacklogForSeq_of_none hq]
    split_ifs with hk
    · rw [hk, hq]
      rfl
    · rfl
  | some q =>
    rw [processBacklogForSeq_of_some hq (h.queues seq q hq).sorted]
    show (if remaining process q = [] then _ else _ : AList _).lookup k = _
    by_cases hk : k = seq
    · subst hk
      by_cases hr : remaining process q = []
      · simp [hr, keptQueue, AList.lookup_erase]
      · simp [hr, keptQueue, AList.lookup_insert]
    · split_ifs <;> simp [AList.lookup_erase_ne hk, AList.lookup_insert_ne hk]

@[simp] theorem processBacklogForSeq_currentView :
    (c.processBacklogForSeq seq process).1.currentView = c.currentView := by
  cases hq : c.backlogBySeq.lookup seq with
  | none => rw [processBacklogForSeq_of_none hq]
  | some q => rw [processBacklogForSeq_of_some hq (h.queues seq q hq).sorted]

theorem inv_processBacklogForSeq : Inv (c.processBacklogForSeq seq process).1 := by
  cases hq : c.backlogBySeq.lookup seq with
  | none =>
    rw [processBacklogForSeq_of_none hq]
    exact h
  | some q =>
    have hgood := h.queues seq q hq
    have hperm := perm_held_of_lookup seq process hq
    have hcounts := (h.counts.perm hperm).countOut
    rw [processBacklogForSeq_of_some hq hgood.sorted]
    refine ⟨?_, ?_, ?_, ?_⟩
    · -- only the queue at `seq` changes, to what `process` stopped at
      intro k q' hk
      change (if remaining process q = [] then _ else _ :
        AList fun _ : Nat => List (Message × Int)).lookup k = some q' at hk
      split_ifs at hk with hr
      · exact queues_erase h.queues seq k q' hk
      · exact queues_insert h.queues (hgood.remaining hr) k q' hk
    · show Counts _ (AssocMap.allValues _)
      rw [allValues_update]
      exact hcounts
    · show c.msgCount - _ = (AssocMap.allValues _).length
      rw [allValues_update, h.total, hperm.length_eq, List.length_append, List.length_append]
      omega
    · -- what is still held is part of what was
      exact capped_of_subperm h.counts hcounts
        ((List.sublist_append_right _ _).subperm.trans hperm.symm.subperm) h.capped

end ProcessBacklogForSeq

/-! ### The other calls -/

theorem inv_clearBacklogForSeq {c : MsgBacklog} (h : Inv c) (seq : Nat) :
    Inv (c.clearBacklogForSeq seq) :=
  inv_processBacklogForSeq h seq _

theorem inv_pruneLoop {c : MsgBacklog} (h : Inv c) (seqs : List Nat) : Inv (pruneLoop c seqs) := by
  induction seqs generalizing c with
  | nil => exact h
  | cons seq seqs ih =>
    rw [pruneLoop]
    split_ifs
    · exact h
    · exact ih (inv_clearBacklogForSeq h seq)

theorem inv_removeMessagesOverflow {c : MsgBacklog} (h : Inv c) : Inv c.removeMessagesOverflow := by
  unfold removeMessagesOverflow
  split_ifs
  · exact inv_pruneLoop h _
  · exact h

/-- The backlog once `store` has counted and queued `msg`, before pruning. -/
def accept (c : MsgBacklog) (msg : Message) : MsgBacklog :=
  let view := extractMessageView msg
  let backlogForSeq := (c.backlogBySeq.lookup (uint64 view.sequence)).getD []
  { c with
    msgCountBySrc :=
      c.msgCountBySrc.insert msg.address ((c.msgCountBySrc.lookup msg.address).getD 0 + 1)
    msgCount := c.msgCount + 1
    backlogBySeq := c.backlogBySeq.insert (uint64 view.sequence)
      (PopOrder.push Prod.snd (entryOf msg) backlogForSeq) }

theorem store_of_accept {c : MsgBacklog} {msg : Message}
    (hseq : (extractMessageView msg).sequence ≤ c.currentView.sequence + acceptMaxFutureSequence)
    (hround : (extractMessageView msg).round < maxRoundForPriorityQueue)
    (hcap : (c.msgCountBySrc.lookup msg.address).getD 0 ≤ acceptMaxFutureMsgsFromOneValidator) :
    c.store msg = (c.accept msg).removeMessagesOverflow := by
  simp only [store, if_neg (not_lt.mpr hseq), if_neg (not_le.mpr hround), if_neg (not_lt.mpr hcap)]
  rfl

/-- A message `store` drops leaves the backlog as it was. -/
theorem store_of_not_accept {c : MsgBacklog} {msg : Message}
    (h : ¬((extractMessageView msg).sequence ≤ c.currentView.sequence + acceptMaxFutureSequence ∧
      (extractMessageView msg).round < maxRoundForPriorityQueue ∧
      (c.msgCountBySrc.lookup msg.address).getD 0 ≤ acceptMaxFutureMsgsFromOneValidator)) :
    c.store msg = c := by
  unfold store
  dsimp only
  split_ifs with h₁ h₂ h₃
  · rfl
  · rfl
  · rfl
  · exact absurd ⟨not_lt.mp h₁, not_le.mp h₂, not_lt.mp h₃⟩ h

/-- What is held after `accept` is what was held and the new entry. -/
theorem perm_held_accept (c : MsgBacklog) (msg : Message) :
    (held (c.accept msg)).Perm (entryOf msg :: held c) := by
  have hold := AssocMap.perm_allValues_erase c.backlogBySeq (uint64 (extractMessageView msg).sequence)
  show (AssocMap.allValues (c.backlogBySeq.insert _ _)).Perm _
  rw [AssocMap.allValues_insert]
  exact ((PopOrder.perm_push _ _).append_right _).trans (hold.symm.cons _)

section Accept

variable {c : MsgBacklog} (h : Inv c) {msg : Message}
include h

theorem inv_accept (hround : (extractMessageView msg).round < maxRoundForPriorityQueue)
    (hcap : (c.msgCountBySrc.lookup msg.address).getD 0 ≤ acceptMaxFutureMsgsFromOneValidator) :
    Inv (c.accept msg) := by
  have hperm := perm_held_accept c msg
  have hcounts := (h.counts.increment (entryOf msg)).perm hperm.symm
  -- the queue `msg` joins is good before and after
  have hold : PopOrder.Sorted Prod.snd ((c.backlogBySeq.lookup (uint64 (extractMessageView msg).sequence)).getD []) ∧
      ∀ e ∈ (c.backlogBySeq.lookup (uint64 (extractMessageView msg).sequence)).getD [],
        Stored (uint64 (extractMessageView msg).sequence) e := by
    cases hq : c.backlogBySeq.lookup (uint64 (extractMessageView msg).sequence) with
    | none => exact ⟨List.Pairwise.nil, fun e he => by simp at he⟩
    | some q => exact ⟨(h.queues _ q hq).sorted, (h.queues _ q hq).stored⟩
  have hgood : GoodQueue (uint64 (extractMessageView msg).sequence)
      (PopOrder.push Prod.snd (entryOf msg)
        ((c.backlogBySeq.lookup (uint64 (extractMessageView msg).sequence)).getD [])) := by
    refine ⟨List.ne_nil_of_mem (PopOrder.mem_push.mpr (.inl rfl)), PopOrder.sorted_push hold.1 _, ?_⟩
    intro e he
    rcases PopOrder.mem_push.mp he with rfl | he
    · exact ⟨rfl, rfl, hround⟩
    · exact hold.2 e he
  refine ⟨queues_insert h.queues hgood, hcounts, ?_, ?_⟩
  · show c.msgCount + 1 = _
    rw [hperm.length_eq, List.length_cons, h.total]
    push_cast
    rfl
  · intro a
    show (AList.lookup a (c.msgCountBySrc.insert _ _)).getD 0 ≤ _
    by_cases ha : a = msg.address
    · subst ha
      rw [AList.lookup_insert, Option.getD_some]
      omega
    · rw [AList.lookup_insert_ne ha]
      exact h.capped a

end Accept

theorem inv_store {c : MsgBacklog} (h : Inv c) (msg : Message) : Inv (c.store msg) := by
  by_cases hacc : (extractMessageView msg).sequence ≤ c.currentView.sequence + acceptMaxFutureSequence ∧
      (extractMessageView msg).round < maxRoundForPriorityQueue ∧
      (c.msgCountBySrc.lookup msg.address).getD 0 ≤ acceptMaxFutureMsgsFromOneValidator
  · obtain ⟨hseq, hround, hcap⟩ := hacc
    rw [store_of_accept hseq hround hcap]
    exact inv_removeMessagesOverflow (inv_accept h hround hcap)
  · rw [store_of_not_accept hacc]
    exact h

theorem inv_processBacklogStep (checkMessage : MsgCode → View → Option Err)
    {acc : MsgBacklog × List Message} (h : Inv acc.1) (seq : Nat) :
    Inv (processBacklogStep checkMessage acc seq).1 := by
  unfold processBacklogStep
  split_ifs
  · exact inv_clearBacklogForSeq h seq
  · exact inv_processBacklogForSeq h seq _
  · exact h

theorem inv_processBacklog {c : MsgBacklog} (h : Inv c) (checkMessage : MsgCode → View → Option Err) :
    Inv (c.processBacklog checkMessage).1 :=
  Run.run_invariant (processBacklogStep checkMessage) (fun acc => Inv acc.1)
    (fun _ seq hacc => inv_processBacklogStep checkMessage hacc seq) _ (c, []) h

/-- Setting the view and state touches nothing the invariant reads. -/
theorem Inv.setView {c : MsgBacklog} (h : Inv c) (view : View) (state : State) :
    Inv { c with currentState := state, currentView := view } :=
  ⟨h.queues, h.counts, h.total, h.capped⟩

theorem inv_updateState {c : MsgBacklog} (h : Inv c) (view : View) (state : State)
    (checkMessage : MsgCode → View → Option Err) : Inv (c.updateState view state checkMessage).1 :=
  inv_processBacklog (h.setView view state) checkMessage

theorem inv_call {c : MsgBacklog} (h : Inv c) : ∀ x : Call, Inv (c.call x)
  | .store msg => inv_store h msg
  | .updateState view state checkMessage => inv_updateState h view state checkMessage
  | .removeMessagesOverflow => inv_removeMessagesOverflow h
  | .clearBacklogForSeq seq => inv_clearBacklogForSeq h seq

/-- **Run lemma.**  Every run of calls from `newMsgBacklog` keeps the invariant. -/
theorem inv_runCalls (calls : List Call) : Inv (newMsgBacklog.runCalls calls) :=
  Run.run_invariant call Inv (fun _ x h => inv_call h x) calls _ inv_new

end MsgBacklog

end CeloBlockchain.Ibft
