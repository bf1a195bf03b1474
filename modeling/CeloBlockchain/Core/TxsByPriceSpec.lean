import Mathlib.Data.Rat.Floor
import CeloBlockchain.Core.TxsByPrice
import CeloBlockchain.Lib.Run

/-!
# What the miner's transaction set returns

Over every sequence of `Shift` and `Pop` from the set that
`NewTransactionsByPriceAndNonce` builds:

* the set keeps its invariant (`Inv`: heads in `Less` order, each head
  wrapped by the set's own functions, one head for each account, every
  remaining transaction of an account sent by it), by `inv_new`,
  `inv_apply` and `inv_run`;
* each `Peek` returns a head of greatest miner fee (`peek_maximal`);
* the transactions peeked from one account are a prefix of its pending
  list (`peeks_prefix_pending`), so they have consecutive nonces from its
  first one when its list does (`peeks_nonces_consecutive`). The induction
  goes through `rem`, what is still to come from an account, which an
  operation shortens by the peeked transaction for the head's account
  (`rem_apply_self`) and leaves alone for the others (`rem_apply_other`).

With the conversion functions of `createConversionFunctions` and every rate
known, a transaction is dropped exactly when its fee cap is below the gas
price minimum of its fee currency (`newTxWithMinerFee_eq_none_iff`). Its miner
fee is the floor of the exact CELO value of its tip when its caps are in its
fee currency (`minerFee_eq_floor_celoTip`), so `Peek` then returns a head
whose tip is within one unit of the greatest (`peek_celoTip_lt_add_one`).

A CELO-denominated transaction (0x7a) has its caps in CELO, but the code takes
off the gas price minimum of its fee currency and converts the result from
that currency as if it were a token amount. `packing_misvalues_celo_denominated`
shows a set where `Peek` prefers a native transaction to one whose tip is worth
more, and drops a CELO-denominated transaction whose fee cap clears CELO's
minimum.
-/

namespace CeloBlockchain.Core

open TxByPriceAndTime

/-! ## The heap order -/

theorem bigCmp_eq_zero_iff (x y : Int) : bigCmp x y = 0 ↔ x = y := by
  unfold bigCmp
  split_ifs <;> simp <;> omega

theorem bigCmp_pos_iff (x y : Int) : bigCmp x y > 0 ↔ y < x := by
  unfold bigCmp
  split_ifs <;> simp <;> omega

/-- `key` is the order of `Less`. -/
theorem TxByPriceAndTime.less_iff_key_lt (time : Transaction → Nat) (a b : TxWithMinerFee) :
    less time a b = true ↔ key time b < key time a := by
  unfold less key
  rw [Prod.Lex.toLex_lt_toLex]
  by_cases heq : a.minerFee = b.minerFee
  · -- equal fees: the time decides
    rw [if_pos ((bigCmp_eq_zero_iff _ _).mpr heq)]
    simp [heq]
  · rw [if_neg (mt (bigCmp_eq_zero_iff _ _).mp heq)]
    simp [bigCmp_pos_iff, Ne.symm heq]

/-- A head that pops first has at least the miner fee of the other. -/
theorem TxByPriceAndTime.minerFee_le_of_before {time : Transaction → Nat} {a b : TxWithMinerFee}
    (h : PopOrder.Before (key time) a b) : b.minerFee ≤ a.minerFee := by
  unfold PopOrder.Before key at h
  rw [Prod.Lex.toLex_le_toLex] at h
  rcases h with h | ⟨h, -⟩
  · exact h.le
  · exact h.le

/-! ## Wrapping -/

section Wrap

variable {tx : Transaction} {baseFeeFn : Option Address → Nat} {toCELO : ToCELOFn}
  {w : TxWithMinerFee}

theorem newTxWithMinerFee_eq_some :
    newTxWithMinerFee tx baseFeeFn toCELO = some w ↔
      ¬tx.gasFeeCap < baseFeeFn tx.feeCurrency ∧
        ∃ fee, toCELO (tx.effectiveGasTipValue (some (baseFeeFn tx.feeCurrency))) tx.feeCurrency =
          some fee ∧ w = ⟨tx, fee⟩ := by
  unfold newTxWithMinerFee
  dsimp only
  split_ifs with h
  · simp [h]
  · simp only [h, not_false_eq_true, true_and, Option.map_eq_some_iff]
    constructor
    · rintro ⟨fee, hfee, rfl⟩
      exact ⟨fee, hfee, rfl⟩
    · rintro ⟨fee, hfee, rfl⟩
      exact ⟨fee, hfee, rfl⟩

theorem newTxWithMinerFee_tx (h : newTxWithMinerFee tx baseFeeFn toCELO = some w) : w.tx = tx := by
  obtain ⟨-, fee, -, rfl⟩ := newTxWithMinerFee_eq_some.mp h
  rfl

end Wrap

/-! ## The set's invariant -/

/-- In a list whose elements `f` tells apart, the element of a given image
is found in the same place after any permutation. -/
theorem find?_eq_of_perm {α β : Type} [DecidableEq β] {f : α → β} {l₁ l₂ : List α}
    (hp : l₁.Perm l₂) (hd : (l₁.map f).Nodup) (b : β) :
    l₁.find? (fun x => f x = b) = l₂.find? (fun x => f x = b) := by
  rw [← List.head?_filter, ← List.head?_filter]
  have hperm := hp.filter (fun x => f x = b)
  have hnd := (List.Nodup.of_map f hd).filter (fun x => f x = b)
  rcases hf : l₁.filter (fun x => f x = b) with _ | ⟨x, _ | ⟨y, r⟩⟩
  · rw [hf] at hperm
    rw [← hperm.nil_eq]
  · rw [hf] at hperm
    rw [List.perm_singleton.mp hperm.symm]
  · -- two elements of one image: impossible
    have hx : x ∈ l₁.filter (fun x => f x = b) := by rw [hf]; exact List.mem_cons_self
    have hy : y ∈ l₁.filter (fun x => f x = b) := by rw [hf]; simp
    rw [List.mem_filter, decide_eq_true_iff] at hx hy
    have hxy : x = y := List.inj_on_of_nodup_map hd hx.1 hy.1 (hx.2.trans hy.2.symm)
    rw [hf, hxy] at hnd
    simp at hnd

namespace TransactionsByPriceAndNonce

variable {t t' : TransactionsByPriceAndNonce} {w : TxWithMinerFee} {rest : List TxWithMinerFee}
  {op : Op}

/-- What holds of every set a miner works with. -/
structure Inv (t : TransactionsByPriceAndNonce) : Prop where
  sorted : PopOrder.Sorted (key t.time) t.heads
  wrapped : ∀ w ∈ t.heads, newTxWithMinerFee w.tx t.baseFeeFn t.toCELO = some w
  signed : ∀ a l, t.txs.lookup a = some l → ∀ tx ∈ l, senderOf t.signer tx = a
  distinct : (t.heads.map fun w => senderOf t.signer w.tx).Nodup

/-- **What `Shift` and `Pop` can do.** The set has a head; it is dropped,
or replaced by the wrapped next transaction of its account, which the map
then no longer holds. -/
theorem apply_cases (h : t.apply op = some t') :
    ∃ w rest, t.heads = w :: rest ∧
      (t' = { t with heads := rest } ∨
        ∃ tx txs wrapped, t.txs.lookup (senderOf t.signer w.tx) = some (tx :: txs) ∧
          newTxWithMinerFee tx t.baseFeeFn t.toCELO = some wrapped ∧
          t' = { t with heads := PopOrder.push (key t.time) wrapped rest,
                        txs := t.txs.insert (senderOf t.signer w.tx) txs }) := by
  cases hh : t.heads with
  | nil => cases op <;> simp [apply, shift, pop, hh] at h
  | cons w rest =>
    refine ⟨w, rest, rfl, ?_⟩
    cases op with
    | pop =>
      simp only [apply, pop, hh, Option.some.injEq] at h
      exact .inl h.symm
    | shift =>
      simp only [apply, shift, hh] at h
      split at h
      · rename_i tx txs hl
        split at h
        · rename_i wrapped hw
          exact .inr ⟨tx, txs, wrapped, hl, hw, (Option.some.inj h).symm⟩
        · exact .inl (Option.some.inj h).symm
      · exact .inl (Option.some.inj h).symm

theorem apply_isSome (h : t.heads = w :: rest) (op : Op) : (t.apply op).isSome := by
  cases op with
  | pop => simp [apply, pop, h]
  | shift =>
    simp only [apply, shift, h]
    split
    · split <;> rfl
    · rfl

theorem apply_fns (h : t.apply op = some t') :
    t'.signer = t.signer ∧ t'.baseFeeFn = t.baseFeeFn ∧ t'.toCELO = t.toCELO ∧ t'.time = t.time := by
  obtain ⟨w, rest, -, rfl | ⟨tx, txs, wrapped, -, -, rfl⟩⟩ := apply_cases h
  · exact ⟨rfl, rfl, rfl, rfl⟩
  · exact ⟨rfl, rfl, rfl, rfl⟩

/-- The replacing head belongs to the account of the head it replaces. -/
theorem sender_wrapped (hi : t.Inv) {tx : Transaction} {txs : List Transaction}
    {wrapped : TxWithMinerFee} (hl : t.txs.lookup (senderOf t.signer w.tx) = some (tx :: txs))
    (hw : newTxWithMinerFee tx t.baseFeeFn t.toCELO = some wrapped) :
    senderOf t.signer wrapped.tx = senderOf t.signer w.tx := by
  rw [newTxWithMinerFee_tx hw]
  exact hi.signed _ _ hl tx List.mem_cons_self

theorem map_sender_replace (hi : t.Inv) (h : t.heads = w :: rest) {tx : Transaction}
    {txs : List Transaction} {wrapped : TxWithMinerFee}
    (hl : t.txs.lookup (senderOf t.signer w.tx) = some (tx :: txs))
    (hw : newTxWithMinerFee tx t.baseFeeFn t.toCELO = some wrapped) :
    ((wrapped :: rest).map fun u => senderOf t.signer u.tx) = t.heads.map fun u => senderOf t.signer u.tx := by
  rw [h, List.map_cons, List.map_cons, sender_wrapped hi hl hw]

theorem inv_drop (hi : t.Inv) (h : t.heads = w :: rest) : Inv { t with heads := rest } := by
  have hs := hi.sorted
  have hd := hi.distinct
  rw [h] at hs hd
  refine ⟨hs.tail, fun u hu => hi.wrapped u (by rw [h]; exact List.mem_cons_of_mem w hu),
    hi.signed, ?_⟩
  exact (List.nodup_cons.mp hd).2

theorem inv_replace (hi : t.Inv) (h : t.heads = w :: rest) {tx : Transaction}
    {txs : List Transaction} {wrapped : TxWithMinerFee}
    (hl : t.txs.lookup (senderOf t.signer w.tx) = some (tx :: txs))
    (hw : newTxWithMinerFee tx t.baseFeeFn t.toCELO = some wrapped) :
    Inv { t with heads := PopOrder.push (key t.time) wrapped rest,
                 txs := t.txs.insert (senderOf t.signer w.tx) txs } := by
  have hs := hi.sorted
  rw [h] at hs
  refine ⟨PopOrder.sorted_push hs.tail wrapped, ?_, ?_, ?_⟩
  · -- the new head is wrapped here, the others were
    intro u hu
    rcases PopOrder.mem_push.mp hu with rfl | hu
    · rw [newTxWithMinerFee_tx hw]
      exact hw
    · exact hi.wrapped u (by rw [h]; exact List.mem_cons_of_mem w hu)
  · -- the account keeps the tail of a list it sent
    intro a l hal
    by_cases ha : a = senderOf t.signer w.tx
    · subst ha
      rw [AList.lookup_insert, Option.some.injEq] at hal
      subst hal
      exact fun tx' htx' => hi.signed _ _ hl tx' (List.mem_cons_of_mem tx htx')
    · rw [AList.lookup_insert_ne ha] at hal
      exact hi.signed a l hal
  · show ((PopOrder.push (key t.time) wrapped rest).map fun u => senderOf t.signer u.tx).Nodup
    rw [((PopOrder.perm_push wrapped rest).map _).nodup_iff, map_sender_replace hi h hl hw]
    exact hi.distinct

/-- **Step lemma.** `Shift` and `Pop` keep the invariant. -/
theorem inv_apply (hi : t.Inv) (h : t.apply op = some t') : t'.Inv := by
  obtain ⟨w, rest, hh, rfl | ⟨tx, txs, wrapped, hl, hw, rfl⟩⟩ := apply_cases h
  · exact inv_drop hi hh
  · exact inv_replace hi hh hl hw

/-- **Run lemma.** Every set reached by `Shift` and `Pop` keeps the
invariant and the functions it was built with. -/
theorem inv_run (hi : t.Inv) (ops : List Op) :
    ∀ t' ∈ Run.run step (some t) ops,
      t'.Inv ∧ t'.baseFeeFn = t.baseFeeFn ∧ t'.toCELO = t.toCELO := by
  refine Run.run_invariant step
    (fun s => ∀ t' ∈ s, t'.Inv ∧ t'.baseFeeFn = t.baseFeeFn ∧ t'.toCELO = t.toCELO) ?_ ops
    (some t) (fun t' ht' => by cases ht'; exact ⟨hi, rfl, rfl⟩)
  intro s op hs t'' ht''
  obtain ⟨t', ht', hap⟩ := Option.bind_eq_some_iff.mp ht''
  obtain ⟨hi', hbf, htc⟩ := hs t' ht'
  have hfns := apply_fns hap
  exact ⟨inv_apply hi' hap, hfns.2.1.trans hbf, hfns.2.2.1.trans htc⟩

/-- **`Peek` returns a head of greatest miner fee.** -/
theorem peek_maximal (hi : t.Inv) {tx : Transaction} (h : t.peek = some tx) :
    ∃ w ∈ t.heads, w.tx = tx ∧ ∀ u ∈ t.heads, u.minerFee ≤ w.minerFee := by
  cases hh : t.heads with
  | nil => simp [peek, hh] at h
  | cons w rest =>
    simp only [peek, hh, Option.some.injEq] at h
    have hs := hi.sorted
    rw [hh] at hs
    refine ⟨w, List.mem_cons_self, h, ?_⟩
    intro u hu
    rcases List.mem_cons.mp hu with rfl | hu
    · exact le_rfl
    · exact minerFee_le_of_before (List.rel_of_pairwise_cons hs hu)

/-! ## What is still to come from an account -/

/-- What is still to come from account `a`, given the heads and the map:
its head, then what the map keeps for it. An account without a head gives
nothing more. -/
def remOf (signer : Transaction → Option Address) (heads : List TxWithMinerFee)
    (txs : AccountTxs) (a : Address) : List Transaction :=
  match heads.find? (fun w => senderOf signer w.tx = a) with
  | some w => w.tx :: (txs.lookup a).getD []
  | none => []

/-- What is still to come from account `a` in the set. -/
def rem (t : TransactionsByPriceAndNonce) (a : Address) : List Transaction :=
  remOf t.signer t.heads t.txs a

theorem remOf_cons_self (signer : Transaction → Option Address) (txs : AccountTxs) :
    remOf signer (w :: rest) txs (senderOf signer w.tx) =
      w.tx :: (txs.lookup (senderOf signer w.tx)).getD [] := by
  simp [remOf]

theorem remOf_cons_other {signer : Transaction → Option Address} {txs : AccountTxs} {a : Address}
    (ha : senderOf signer w.tx ≠ a) : remOf signer (w :: rest) txs a = remOf signer rest txs a := by
  simp [remOf, ha]

theorem rem_head (h : t.heads = w :: rest) :
    t.rem (senderOf t.signer w.tx) = w.tx :: (t.txs.lookup (senderOf t.signer w.tx)).getD [] := by
  unfold rem
  rw [h]
  exact remOf_cons_self t.signer t.txs

/-- After `Shift` or `Pop` the head's account has left at most what the map
kept for it. -/
theorem rem_apply_self (hi : t.Inv) (h : t.heads = w :: rest) (hap : t.apply op = some t') :
    t'.rem (senderOf t.signer w.tx) <+: (t.txs.lookup (senderOf t.signer w.tx)).getD [] := by
  obtain ⟨w', rest', hh, rfl | ⟨tx, txs, wrapped, hl, hw, rfl⟩⟩ := apply_cases hap
  all_goals
    rw [h, List.cons.injEq] at hh
    obtain ⟨rfl, rfl⟩ := hh
  · -- dropped: no other head belongs to the account
    have hd := hi.distinct
    rw [h, List.map_cons, List.nodup_cons] at hd
    have hnone : rest.find? (fun u => senderOf t.signer u.tx = senderOf t.signer w.tx) = none := by
      rw [List.find?_eq_none]
      intro u hu hsu
      exact hd.1 (List.mem_map.mpr ⟨u, hu, of_decide_eq_true hsu⟩)
    show remOf t.signer rest t.txs (senderOf t.signer w.tx) <+: _
    unfold remOf
    rw [hnone]
    exact List.nil_prefix
  · -- replaced: the new head is the account's next transaction, and the
    -- map keeps the rest
    have hfind : (PopOrder.push (key t.time) wrapped rest).find?
        (fun u => senderOf t.signer u.tx = senderOf t.signer w.tx) = some wrapped := by
      have hd : ((wrapped :: rest).map fun u => senderOf t.signer u.tx).Nodup := by
        rw [map_sender_replace hi h hl hw]
        exact hi.distinct
      rw [← find?_eq_of_perm (PopOrder.perm_push wrapped rest).symm hd]
      simp [sender_wrapped hi hl hw]
    show remOf t.signer (PopOrder.push (key t.time) wrapped rest)
      (t.txs.insert (senderOf t.signer w.tx) txs) (senderOf t.signer w.tx) <+: _
    unfold remOf
    rw [hfind, AList.lookup_insert, hl]
    show wrapped.tx :: txs <+: tx :: txs
    rw [newTxWithMinerFee_tx hw]

/-- `Shift` and `Pop` leave what is to come from the other accounts. -/
theorem rem_apply_other (hi : t.Inv) (h : t.heads = w :: rest) (hap : t.apply op = some t')
    {a : Address} (ha : a ≠ senderOf t.signer w.tx) : t'.rem a = t.rem a := by
  obtain ⟨w', rest', hh, rfl | ⟨tx, txs, wrapped, hl, hw, rfl⟩⟩ := apply_cases hap
  all_goals
    rw [h, List.cons.injEq] at hh
    obtain ⟨rfl, rfl⟩ := hh
  · show remOf t.signer rest t.txs a = remOf t.signer t.heads t.txs a
    rw [h, remOf_cons_other (Ne.symm ha)]
  · have hd : ((wrapped :: rest).map fun u => senderOf t.signer u.tx).Nodup := by
      rw [map_sender_replace hi h hl hw]
      exact hi.distinct
    have hfind : (PopOrder.push (key t.time) wrapped rest).find?
        (fun u => senderOf t.signer u.tx = a) = rest.find? (fun u => senderOf t.signer u.tx = a) := by
      rw [← find?_eq_of_perm (PopOrder.perm_push wrapped rest).symm hd]
      simp [sender_wrapped hi hl hw, Ne.symm ha]
    show remOf t.signer (PopOrder.push (key t.time) wrapped rest)
      (t.txs.insert (senderOf t.signer w.tx) txs) a = remOf t.signer t.heads t.txs a
    rw [h, remOf_cons_other (Ne.symm ha)]
    unfold remOf
    rw [hfind, AList.lookup_insert_ne ha]

/-- **The peeks of one account follow what is to come from it.** Induction
on the operations, with the invariant carried by `inv_apply`. -/
theorem peeks_filter_prefix :
    ∀ (ops : List Op) (t : TransactionsByPriceAndNonce), t.Inv →
      ∀ a, (t.peeks ops).filter (fun tx => senderOf t.signer tx = a) <+: t.rem a
  | [], _, _, _ => List.nil_prefix
  | op :: ops, t, hi, a => by
    cases hh : t.heads with
    | nil => simp [peeks, peek, hh]
    | cons w rest =>
      obtain ⟨t', hap⟩ := Option.isSome_iff_exists.mp (apply_isSome hh op)
      have ih := peeks_filter_prefix ops t' (inv_apply hi hap) a
      rw [(apply_fns hap).1] at ih
      have hpeeks : t.peeks (op :: ops) = w.tx :: t'.peeks ops := by
        simp [peeks, peek, hh, hap]
      rw [hpeeks, List.filter_cons]
      by_cases ha : senderOf t.signer w.tx = a
      · subst ha
        rw [if_pos (decide_eq_true rfl), rem_head hh, List.prefix_cons_inj]
        exact ih.trans (rem_apply_self hi hh hap)
      · rw [if_neg (by simpa using ha), ← rem_apply_other hi hh hap (Ne.symm ha)]
        exact ih

end TransactionsByPriceAndNonce

/-! ## The set a miner builds -/

section New

variable (signer : Transaction → Option Address) (baseFeeFn : Option Address → Nat)
  (toCELO : ToCELOFn)

/-- The head the construction takes for an account: its first transaction,
wrapped, when the account sent it. -/
def keep (e : Sigma fun _ : Address => List Transaction) : Option TxWithMinerFee :=
  match e.2 with
  | [] => none
  | tx :: _ => (newTxWithMinerFee tx baseFeeFn toCELO).filter fun _ => senderOf signer tx = e.1

/-- `newStep` on an account with transactions. -/
def newStep' (acc : AccountTxs × List TxWithMinerFee) (e : Sigma fun _ : Address => List Transaction) :
    AccountTxs × List TxWithMinerFee :=
  match keep signer baseFeeFn toCELO e with
  | some w => (acc.1.insert e.1 e.2.tail, acc.2 ++ [w])
  | none => (acc.1.erase e.1, acc.2)

variable {signer baseFeeFn toCELO}

theorem keep_spec {e : Sigma fun _ : Address => List Transaction} {w : TxWithMinerFee}
    (h : keep signer baseFeeFn toCELO e = some w) :
    ∃ tx rest, e.2 = tx :: rest ∧ w.tx = tx ∧ senderOf signer tx = e.1 ∧
      newTxWithMinerFee tx baseFeeFn toCELO = some w := by
  obtain ⟨a, _ | ⟨tx, rest⟩⟩ := e
  · simp [keep] at h
  · simp only [keep, Option.filter_eq_some_iff, decide_eq_true_eq] at h
    exact ⟨tx, rest, rfl, newTxWithMinerFee_tx h.1, h.2, h.1⟩

theorem newStep_eq {acc : AccountTxs × List TxWithMinerFee}
    {e : Sigma fun _ : Address => List Transaction} (hne : e.2 ≠ []) :
    newStep signer baseFeeFn toCELO acc e = some (newStep' signer baseFeeFn toCELO acc e) := by
  obtain ⟨a, _ | ⟨tx, rest⟩⟩ := e
  · exact absurd rfl hne
  · simp only [newStep, newStep', keep]
    cases newTxWithMinerFee tx baseFeeFn toCELO with
    | none => rfl
    | some w => by_cases hs : senderOf signer tx = a <;> simp [hs, Option.filter]

theorem foldlM_newStep {es : List (Sigma fun _ : Address => List Transaction)}
    (hne : ∀ e ∈ es, e.2 ≠ []) (acc : AccountTxs × List TxWithMinerFee) :
    es.foldlM (newStep signer baseFeeFn toCELO) acc =
      some (es.foldl (newStep' signer baseFeeFn toCELO) acc) := by
  induction es generalizing acc with
  | nil => rfl
  | cons e es ih =>
    rw [List.foldlM_cons, newStep_eq (hne e List.mem_cons_self), List.foldl_cons]
    exact ih (fun e' he' => hne e' (List.mem_cons_of_mem e he')) _

theorem heads_foldl_newStep' (es : List (Sigma fun _ : Address => List Transaction))
    (acc : AccountTxs × List TxWithMinerFee) :
    (es.foldl (newStep' signer baseFeeFn toCELO) acc).2 =
      acc.2 ++ es.filterMap (keep signer baseFeeFn toCELO) := by
  induction es generalizing acc with
  | nil => simp
  | cons e es ih =>
    rw [List.foldl_cons, ih, List.filterMap_cons]
    unfold newStep'
    cases keep signer baseFeeFn toCELO e <;> simp

/-- After the loop, an account of the map keeps the tail of its list exactly
when it got a head. -/
theorem lookup_foldl_newStep' {es : List (Sigma fun _ : Address => List Transaction)}
    (hnd : es.NodupKeys) (a : Address) (acc : AccountTxs × List TxWithMinerFee) :
    (es.foldl (newStep' signer baseFeeFn toCELO) acc).1.lookup a =
      match es.dlookup a with
      | some l => (keep signer baseFeeFn toCELO ⟨a, l⟩).map fun _ => l.tail
      | none => acc.1.lookup a := by
  induction es generalizing acc with
  | nil => rfl
  | cons e es ih =>
    obtain ⟨k, l⟩ := e
    rw [List.nodupKeys_cons] at hnd
    rw [List.foldl_cons, ih hnd.2]
    by_cases hak : a = k
    · -- the entry of `a`: the loop never comes back to it
      subst hak
      rw [List.dlookup_eq_none.mpr hnd.1, List.dlookup_cons_eq]
      unfold newStep'
      cases hk : keep signer baseFeeFn toCELO ⟨a, l⟩ <;> simp [hk]
    · rw [List.dlookup_cons_ne _ _ hak]
      cases es.dlookup a with
      | some l' => rfl
      | none =>
        unfold newStep'
        cases keep signer baseFeeFn toCELO ⟨k, l⟩ with
        | none => exact AList.lookup_erase_ne hak
        | some w => exact AList.lookup_insert_ne hak

theorem senders_filterMap_keep_sublist (es : List (Sigma fun _ : Address => List Transaction)) :
    ((es.filterMap (keep signer baseFeeFn toCELO)).map fun w => senderOf signer w.tx).Sublist
      es.keys := by
  induction es with
  | nil => simp
  | cons e es ih =>
    rw [List.filterMap_cons, List.keys_cons]
    cases hk : keep signer baseFeeFn toCELO e with
    | none => exact ih.cons e.1
    | some w =>
      obtain ⟨tx, -, -, htx, hs, -⟩ := keep_spec hk
      rw [List.map_cons, htx, hs]
      exact ih.cons_cons e.1

/-- The head of an account in the loop's heads is the one `keep` takes. -/
theorem find?_filterMap_keep {es : List (Sigma fun _ : Address => List Transaction)}
    (hnd : es.NodupKeys) (a : Address) :
    (es.filterMap (keep signer baseFeeFn toCELO)).find? (fun w => senderOf signer w.tx = a) =
      (es.dlookup a).bind fun l => keep signer baseFeeFn toCELO ⟨a, l⟩ := by
  induction es with
  | nil => rfl
  | cons e es ih =>
    obtain ⟨k, l⟩ := e
    rw [List.nodupKeys_cons] at hnd
    have ih := ih hnd.2
    rw [List.filterMap_cons]
    by_cases hak : a = k
    · subst hak
      rw [List.dlookup_cons_eq, Option.bind_some]
      cases hk : keep signer baseFeeFn toCELO ⟨a, l⟩ with
      | none => rw [ih, List.dlookup_eq_none.mpr hnd.1, Option.bind_none]
      | some w =>
        obtain ⟨tx, -, -, htx, hs, -⟩ := keep_spec hk
        simp [htx, hs]
    · rw [List.dlookup_cons_ne _ _ hak]
      cases hk : keep signer baseFeeFn toCELO ⟨k, l⟩ with
      | none => exact ih
      | some w =>
        obtain ⟨tx, -, -, htx, hs, -⟩ := keep_spec hk
        simp only at hs
        simp [htx, hs, Ne.symm hak, ih]

variable {M : AccountTxs} {time : Transaction → Nat} {t : TransactionsByPriceAndNonce}

/-- **The set built from a map whose lists are not empty.** -/
theorem newTransactionsByPriceAndNonce_eq (hne : ∀ a l, M.lookup a = some l → l ≠ []) :
    newTransactionsByPriceAndNonce signer M baseFeeFn toCELO time =
      some ⟨(M.entries.foldl (newStep' signer baseFeeFn toCELO) (M, [])).1,
        (M.entries.filterMap (keep signer baseFeeFn toCELO)).insertionSort
          (PopOrder.Before (key time)), signer, baseFeeFn, toCELO, time⟩ := by
  have hne' : ∀ e ∈ M.entries, e.2 ≠ [] := fun e he =>
    hne e.1 e.2 (AList.mem_lookup_iff.mpr he)
  simp only [newTransactionsByPriceAndNonce, foldlM_newStep hne', heads_foldl_newStep',
    List.nil_append, Option.bind_eq_bind, Option.bind_some, Option.pure_def]

theorem lookup_new (hne : ∀ a l, M.lookup a = some l → l ≠ [])
    (h : newTransactionsByPriceAndNonce signer M baseFeeFn toCELO time = some t) (a : Address) :
    t.txs.lookup a = (M.lookup a).bind fun l => (keep signer baseFeeFn toCELO ⟨a, l⟩).map fun _ => l.tail := by
  rw [newTransactionsByPriceAndNonce_eq hne, Option.some.injEq] at h
  subst h
  show (M.entries.foldl _ (M, [])).1.lookup a = _
  rw [lookup_foldl_newStep' M.nodupKeys]
  show _ = (M.entries.dlookup a).bind _
  cases hd : M.entries.dlookup a with
  | some l => rfl
  | none => exact hd

/-- **Initial lemma.** The set a miner builds satisfies the invariant when
each account's list holds transactions it sent. -/
theorem inv_new (hne : ∀ a l, M.lookup a = some l → l ≠ [])
    (hsigned : ∀ a l, M.lookup a = some l → ∀ tx ∈ l, senderOf signer tx = a)
    (h : newTransactionsByPriceAndNonce signer M baseFeeFn toCELO time = some t) : t.Inv := by
  have hlookup := lookup_new hne h
  rw [newTransactionsByPriceAndNonce_eq hne, Option.some.injEq] at h
  subst h
  refine ⟨List.pairwise_insertionSort _ _, ?_, ?_, ?_⟩
  · intro w hw
    rw [List.mem_insertionSort, List.mem_filterMap] at hw
    obtain ⟨e, -, hk⟩ := hw
    obtain ⟨tx, -, -, htx, -, hw⟩ := keep_spec hk
    rw [htx]
    exact hw
  · intro a l' hl'
    rw [hlookup a] at hl'
    obtain ⟨l, hl, hk⟩ := Option.bind_eq_some_iff.mp hl'
    obtain ⟨-, -, rfl⟩ := Option.map_eq_some_iff.mp hk
    exact fun tx htx => hsigned a l hl tx (List.mem_of_mem_tail htx)
  · show (((M.entries.filterMap (keep signer baseFeeFn toCELO)).insertionSort
      (PopOrder.Before (key time))).map fun w => senderOf signer w.tx).Nodup
    rw [((List.perm_insertionSort _ _).map _).nodup_iff]
    exact (senders_filterMap_keep_sublist _).nodup M.nodupKeys

theorem find?_heads_new (hne : ∀ a l, M.lookup a = some l → l ≠ [])
    (h : newTransactionsByPriceAndNonce signer M baseFeeFn toCELO time = some t) (a : Address) :
    t.heads.find? (fun w => senderOf t.signer w.tx = a) =
      (M.lookup a).bind fun l => keep signer baseFeeFn toCELO ⟨a, l⟩ := by
  have hperm := (List.perm_insertionSort (PopOrder.Before (key time))
    (M.entries.filterMap (keep signer baseFeeFn toCELO)))
  have hd : ((M.entries.filterMap (keep signer baseFeeFn toCELO)).map
      fun w => senderOf signer w.tx).Nodup :=
    (senders_filterMap_keep_sublist M.entries).nodup M.nodupKeys
  rw [newTransactionsByPriceAndNonce_eq hne, Option.some.injEq] at h
  subst h
  show ((M.entries.filterMap (keep signer baseFeeFn toCELO)).insertionSort
    (PopOrder.Before (key time))).find? (fun w => senderOf signer w.tx = a) = _
  rw [← find?_eq_of_perm hperm.symm hd, find?_filterMap_keep M.nodupKeys]
  rfl

/-- What is to come from an account of the new set is its whole list, or
nothing when its first transaction was dropped. -/
theorem rem_new (hne : ∀ a l, M.lookup a = some l → l ≠ [])
    (h : newTransactionsByPriceAndNonce signer M baseFeeFn toCELO time = some t) (a : Address) :
    t.rem a = match (M.lookup a).bind fun l => keep signer baseFeeFn toCELO ⟨a, l⟩ with
      | some _ => (M.lookup a).getD []
      | none => [] := by
  have hfind := find?_heads_new hne h a
  have hlookup := lookup_new hne h a
  unfold TransactionsByPriceAndNonce.rem TransactionsByPriceAndNonce.remOf
  rw [hfind, hlookup]
  cases hM : M.lookup a with
  | none => rfl
  | some l =>
    cases hk : keep signer baseFeeFn toCELO ⟨a, l⟩ with
    | none => simp [hk]
    | some w =>
      obtain ⟨tx, rest, hl, htx, -, -⟩ := keep_spec hk
      simp only at hl
      subst hl
      simp [hk, htx]

/-- **The peeks of one account are a prefix of its pending list**, over
every sequence of `Shift` and `Pop`. -/
theorem peeks_prefix_pending (hne : ∀ a l, M.lookup a = some l → l ≠ [])
    (hsigned : ∀ a l, M.lookup a = some l → ∀ tx ∈ l, senderOf signer tx = a)
    (h : newTransactionsByPriceAndNonce signer M baseFeeFn toCELO time = some t)
    (ops : List TransactionsByPriceAndNonce.Op) (a : Address) :
    (t.peeks ops).filter (fun tx => senderOf signer tx = a) <+: (M.lookup a).getD [] := by
  have hsig : t.signer = signer := by
    rw [newTransactionsByPriceAndNonce_eq hne, Option.some.injEq] at h
    rw [← h]
  have hp := TransactionsByPriceAndNonce.peeks_filter_prefix ops t (inv_new hne hsigned h) a
  rw [hsig] at hp
  refine hp.trans ?_
  rw [rem_new hne h a]
  split
  · exact List.prefix_refl _
  · exact List.nil_prefix

/-- **Consecutive nonces.** When an account's pending nonces run from `n`
one by one, the ones peeked from it run from `n` one by one. -/
theorem peeks_nonces_consecutive (hne : ∀ a l, M.lookup a = some l → l ≠ [])
    (hsigned : ∀ a l, M.lookup a = some l → ∀ tx ∈ l, senderOf signer tx = a)
    (h : newTransactionsByPriceAndNonce signer M baseFeeFn toCELO time = some t)
    (ops : List TransactionsByPriceAndNonce.Op) {a : Address} {l : List Transaction}
    (hl : M.lookup a = some l) {n : Nat} (hn : l.map Transaction.nonce = List.range' n l.length) :
    ∃ k ≤ l.length,
      ((t.peeks ops).filter fun tx => senderOf signer tx = a).map Transaction.nonce =
        List.range' n k := by
  have hp := peeks_prefix_pending hne hsigned h ops a
  rw [hl, Option.getD_some] at hp
  set F := (t.peeks ops).filter fun tx => senderOf signer tx = a
  have hk : F.length ≤ l.length := hp.length_le
  refine ⟨F.length, hk, ?_⟩
  have htake : F = l.take F.length := List.prefix_iff_eq_take.mp hp
  calc F.map Transaction.nonce = (l.take F.length).map Transaction.nonce := by rw [← htake]
    _ = (List.range' n l.length).take F.length := by rw [List.map_take, hn]
    _ = List.range' n F.length := List.take_range'_of_length_ge hk

end New

/-! ## Fees under the miner's conversion functions -/

/-- The rate of a currency to CELO, CELO's own being 1:1. -/
def rateOf (rate : Address → ExchangeRate) : Option Address → ExchangeRate
  | none => noopExchangeRate
  | some a => rate a

/-- The tip a miner earns per gas, as packing should value it: the effective
tip under the gas price minimum of the currency the caps are in, valued
exactly in CELO at that currency's rate. -/
def celoTip (gpm : GasPriceMinimums) (rate : Address → ExchangeRate) (tx : Transaction) : ℚ :=
  (rateOf rate tx.denominatedFeeCurrency).celoValue
    (tx.effectiveGasTipValue (some (gpm.getGasPriceMinimum tx.denominatedFeeCurrency)))

/-- `ToBase` is the floor of the exact value. -/
theorem ExchangeRate.toBase_eq_floor (er : ExchangeRate) (x : Int) :
    er.toBase x = ⌊er.celoValue x⌋ := by
  have hcast : er.celoValue x = ((x * er.denominator : Int) : ℚ) / (er.numerator : Nat) := by
    unfold ExchangeRate.celoValue
    push_cast
    ring
  rw [hcast, Rat.floor_intCast_div_natCast]
  rfl

theorem denominatedFeeCurrency_of_ne {tx : Transaction} (h : tx.txType ≠ .celoDenominated) :
    tx.denominatedFeeCurrency = tx.feeCurrency := by
  simp [Transaction.denominatedFeeCurrency, h]

section Conversion

variable (gpm : GasPriceMinimums) (rate : Address → ExchangeRate)

theorem toCELO_createConversionFunctions (amount : Int) (c : Option Address) :
    (createConversionFunctions gpm fun a => some (rate a)).2 amount c =
      some ((rateOf rate c).toBase amount) := by
  cases c <;> rfl

/-- **Dropping.** With every rate known, wrapping fails exactly when the fee
cap is below the gas price minimum of the fee currency. -/
theorem newTxWithMinerFee_eq_none_iff (tx : Transaction) :
    newTxWithMinerFee tx (createConversionFunctions gpm fun a => some (rate a)).1
        (createConversionFunctions gpm fun a => some (rate a)).2 = none ↔
      tx.gasFeeCap < gpm.getGasPriceMinimum tx.feeCurrency := by
  rw [Option.eq_none_iff_forall_ne_some]
  constructor
  · intro h
    by_contra hlt
    exact h _ (newTxWithMinerFee_eq_some.mpr ⟨hlt, _, toCELO_createConversionFunctions gpm rate _ _, rfl⟩)
  · intro hlt w hw
    exact (newTxWithMinerFee_eq_some.mp hw).1 hlt

/-- The miner fee of a transaction whose caps are in its fee currency is the
floor of the exact CELO value of its tip. -/
theorem minerFee_eq_floor_celoTip {tx : Transaction} {w : TxWithMinerFee}
    (hw : newTxWithMinerFee tx (createConversionFunctions gpm fun a => some (rate a)).1
      (createConversionFunctions gpm fun a => some (rate a)).2 = some w)
    (hty : tx.txType ≠ .celoDenominated) : w.minerFee = ⌊celoTip gpm rate tx⌋ := by
  obtain ⟨-, fee, hfee, rfl⟩ := newTxWithMinerFee_eq_some.mp hw
  rw [toCELO_createConversionFunctions, Option.some.injEq] at hfee
  rw [← hfee, celoTip, denominatedFeeCurrency_of_ne hty, ExchangeRate.toBase_eq_floor]
  rfl

/-- **`Peek` follows the CELO value of the tip, up to rounding**, on a set
built with the miner's conversion functions and with no CELO-denominated
head. -/
theorem peek_celoTip_lt_add_one {t : TransactionsByPriceAndNonce} (hi : t.Inv)
    (hbf : t.baseFeeFn = (createConversionFunctions gpm fun a => some (rate a)).1)
    (htc : t.toCELO = (createConversionFunctions gpm fun a => some (rate a)).2)
    (hty : ∀ u ∈ t.heads, u.tx.txType ≠ .celoDenominated) {tx : Transaction}
    (h : t.peek = some tx) : ∀ u ∈ t.heads, celoTip gpm rate u.tx < celoTip gpm rate tx + 1 := by
  obtain ⟨w, hw, rfl, hmax⟩ := TransactionsByPriceAndNonce.peek_maximal hi h
  have hfloor : ∀ v ∈ t.heads, v.minerFee = ⌊celoTip gpm rate v.tx⌋ := by
    intro v hv
    have hwrap := hi.wrapped v hv
    rw [hbf, htc] at hwrap
    exact minerFee_eq_floor_celoTip gpm rate hwrap (hty v hv)
  intro u hu
  have hle : ⌊celoTip gpm rate u.tx⌋ ≤ ⌊celoTip gpm rate w.tx⌋ := by
    rw [← hfloor u hu, ← hfloor w hw]
    exact hmax u hu
  calc celoTip gpm rate u.tx < ⌊celoTip gpm rate u.tx⌋ + 1 := Int.lt_floor_add_one _
    _ ≤ ⌊celoTip gpm rate w.tx⌋ + 1 := by gcongr
    _ ≤ celoTip gpm rate w.tx + 1 := by gcongr; exact Int.floor_le _

end Conversion

/-! ## CELO-denominated transactions -/

/-- A token at address 1 worth half a CELO: one CELO buys two tokens. -/
def halfCeloRate : Address → ExchangeRate := fun _ => ⟨2, 1, Nat.two_pos, Nat.one_pos⟩

/-- A gas price minimum of 20 for the token; CELO's is the fallback, 0. -/
def tokenMinimum : GasPriceMinimums := fun a => if a = 1 then some 20 else none

/-- A CELO-denominated transaction paying its fee in the token. -/
def celoDenominatedTx (feeCap tip : Nat) : Transaction :=
  ⟨.celoDenominated, true, 0, 21000, feeCap, feeCap, tip, 0, some 1, none, none, none, false⟩

/-- A transaction paying in CELO. -/
def celoTx (feeCap tip : Nat) : Transaction :=
  ⟨.celoDynamicFeeV2, true, 0, 21000, feeCap, feeCap, tip, 0, none, none, none, none, false⟩

/-- Three accounts: 10 sends a CELO-denominated tip of 10 CELO, 11 a tip of
7 CELO paid in CELO, and 12 a CELO-denominated transaction with a fee cap of
15 CELO. -/
def mixedPending : AccountTxs :=
  List.toAList ([⟨10, [celoDenominatedTx 100 10]⟩, ⟨11, [celoTx 100 7]⟩,
    ⟨12, [celoDenominatedTx 15 1]⟩] : List (Sigma fun _ : Address => List Transaction))

/-- The sender of each of the three transactions. -/
def mixedSigner (tx : Transaction) : Option Address :=
  if tx = celoDenominatedTx 100 10 then some 10 else if tx = celoTx 100 7 then some 11 else some 12

/-- **The code values CELO-denominated transactions in the wrong currency.**
`Peek` returns the tip of 7 CELO before the head whose tip is 10 CELO,
valued at 5 after the token's minimum and rate are applied to it; and the
transaction with a fee cap of 15 CELO is dropped against the token's minimum
of 20, though CELO's is 0. -/
theorem packing_misvalues_celo_denominated :
    ∃ t, newTransactionsByPriceAndNonce mixedSigner mixedPending
        (createConversionFunctions tokenMinimum fun a => some (halfCeloRate a)).1
        (createConversionFunctions tokenMinimum fun a => some (halfCeloRate a)).2 (fun _ => 0) =
          some t ∧
      t.peek = some (celoTx 100 7) ∧
      (∃ w ∈ t.heads, w.tx = celoDenominatedTx 100 10) ∧
      celoTip tokenMinimum halfCeloRate (celoTx 100 7) + 1 <
        celoTip tokenMinimum halfCeloRate (celoDenominatedTx 100 10) ∧
      t.rem 12 = [] ∧
      tokenMinimum.getGasPriceMinimum (celoDenominatedTx 15 1).denominatedFeeCurrency ≤
        (celoDenominatedTx 15 1).gasFeeCap := by
  refine ⟨_, rfl, by decide, by decide, ?_, by decide, by decide⟩
  -- both tips are valued in CELO at 1:1: 7 and 10
  show noopExchangeRate.celoValue 7 + 1 < noopExchangeRate.celoValue 10
  norm_num [ExchangeRate.celoValue, noopExchangeRate]

/-- A CELO transaction of `sender` with the given nonce and tip. The sender is
kept in the value, for `valueSigner` to read. -/
def nonceTx (sender nonce tip : Nat) : Transaction :=
  ⟨.celoDynamicFeeV2, true, nonce, 21000, 100, 100, tip, sender, none, none, none, none, false⟩

/-- The signer of `nonceTx`. -/
def valueSigner (tx : Transaction) : Option Address := some tx.value

/-- Two accounts with consecutive nonces: 20 with nonces 0 to 2, 21 with
nonces 3 and 4, their tips out of nonce order. -/
def noncePending : AccountTxs :=
  List.toAList ([⟨20, [nonceTx 20 0 5, nonceTx 20 1 9, nonceTx 20 2 1]⟩,
    ⟨21, [nonceTx 21 3 7, nonceTx 21 4 2]⟩] : List (Sigma fun _ : Address => List Transaction))

theorem peeks_nonces_consecutive_noncePending :
    (∀ a l, noncePending.lookup a = some l → l ≠ []) ∧
      (∀ a l, noncePending.lookup a = some l → ∀ tx ∈ l, senderOf valueSigner tx = a) ∧
      noncePending.lookup 20 = some [nonceTx 20 0 5, nonceTx 20 1 9, nonceTx 20 2 1] ∧
      (newTransactionsByPriceAndNonce valueSigner noncePending
          (createConversionFunctions tokenMinimum fun a => some (halfCeloRate a)).1
          (createConversionFunctions tokenMinimum fun a => some (halfCeloRate a)).2 (fun _ => 0)).map
        (fun t => ((t.peeks [.shift, .shift, .pop, .shift]).filter fun tx =>
          senderOf valueSigner tx = 20).map Transaction.nonce) = some [0, 1] ∧
      ∃ t, newTransactionsByPriceAndNonce valueSigner noncePending
          (createConversionFunctions tokenMinimum fun a => some (halfCeloRate a)).1
          (createConversionFunctions tokenMinimum fun a => some (halfCeloRate a)).2 (fun _ => 0) =
            some t ∧
        ∃ k ≤ 3, ((t.peeks [.shift, .shift, .pop, .shift]).filter fun tx =>
          senderOf valueSigner tx = 20).map Transaction.nonce = List.range' 0 k := by
  have hall : ∀ e ∈ noncePending.entries,
      e.2 ≠ [] ∧ ∀ tx ∈ e.2, senderOf valueSigner tx = e.1 := by
    decide
  have hne : ∀ a l, noncePending.lookup a = some l → l ≠ [] :=
    fun a l hl => (hall ⟨a, l⟩ (AList.mem_lookup_iff.mp hl)).1
  have hsigned : ∀ a l, noncePending.lookup a = some l → ∀ tx ∈ l, senderOf valueSigner tx = a :=
    fun a l hl => (hall ⟨a, l⟩ (AList.mem_lookup_iff.mp hl)).2
  have hl : noncePending.lookup 20 = some [nonceTx 20 0 5, nonceTx 20 1 9, nonceTx 20 2 1] := by
    decide
  have hpeeks : (newTransactionsByPriceAndNonce valueSigner noncePending
      (createConversionFunctions tokenMinimum fun a => some (halfCeloRate a)).1
      (createConversionFunctions tokenMinimum fun a => some (halfCeloRate a)).2 (fun _ => 0)).map
        (fun t => ((t.peeks [.shift, .shift, .pop, .shift]).filter fun tx =>
          senderOf valueSigner tx = 20).map Transaction.nonce) = some [0, 1] := by
    decide
  obtain ⟨t, ht⟩ : ∃ t, newTransactionsByPriceAndNonce valueSigner noncePending
      (createConversionFunctions tokenMinimum fun a => some (halfCeloRate a)).1
      (createConversionFunctions tokenMinimum fun a => some (halfCeloRate a)).2 (fun _ => 0) =
        some t := ⟨_, rfl⟩
  exact ⟨hne, hsigned, hl, hpeeks, t, ht,
    peeks_nonces_consecutive hne hsigned ht [.shift, .shift, .pop, .shift] hl rfl⟩

end CeloBlockchain.Core
