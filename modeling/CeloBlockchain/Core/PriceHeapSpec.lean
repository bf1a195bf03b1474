import CeloBlockchain.Core.PriceHeap
import CeloBlockchain.Lib.Run

/-!
# The multi-currency price heap: what `Pop` returns

Over `Core.PriceHeap`:

* `less_iff_key_lt`: `priceHeap.Less` is the order of a lexicographic key,
  so every heap stays in pop order (`heaped_step`) and holds only
  transactions of its own currency (`placed_step`) along any run of `Push`,
  `Add` then `Init`, `Pop`, `Clear` and `UpdateFeesAndCurrencies` then
  `Init`.
* `len_pop`: `Pop` of a heap that is not empty returns a transaction and
  takes exactly one out.
* `pop_returns_cheapest`: when the comparison of currencies values amounts
  exactly, every heap has a base fee or none has, and the native heap holds
  only transactions paying in CELO, `IsCheaper` is a total preorder on the
  heap's contents (`isCheaper_total_preorder`) and `Pop` returns a
  transaction cheaper than every other. The pool's `CmpValues` is exact on
  the currencies its manager can fetch (`CachedManager.exactOn`), and the base
  fees are all set after any run that begins with `UpdateFeesAndCurrencies`
  (`baseFeesSet_run`), as the urgent heap's runs do.
* Mixed base fees break it: `IsCheaper` compares two transactions of a
  currency with a base fee by their effective tips and either of them with a
  native one without a base fee by fee caps. These can disagree, so
  `IsCheaper` has a cycle and `Pop` leaves a cheaper transaction in the heap
  (`pop_leaves_cheaper_tx`).
-/

namespace CeloBlockchain.Core

/-! ## `Less` as a key order -/

/-- `Less` of one comparison result: cheaper, dearer, or the tie-break. -/
def lessOf (c : Int) (tie : Bool) : Bool := if c = -1 then true else if c = 1 then false else tie

theorem lessOf_cmpThen (x y r : Int) (tie : Bool) :
    lessOf (cmpThen (bigCmp x y) r) tie = true ↔ x < y ∨ x = y ∧ lessOf r tie = true := by
  unfold cmpThen bigCmp
  rcases lt_trichotomy x y with h | rfl | h
  · simp [lessOf, h]
  · simp
  · have h1 : ¬ x < y := by omega
    have h2 : x ≠ y := by omega
    simp [lessOf, h1, h2]

theorem lessOf_bigCmp (x y : Int) (tie : Bool) :
    lessOf (bigCmp x y) tie = true ↔ x < y ∨ x = y ∧ tie = true := by
  unfold bigCmp
  rcases lt_trichotomy x y with h | rfl | h
  · simp [lessOf, h]
  · simp [lessOf]
  · have h1 : ¬ x < y := by omega
    have h2 : x ≠ y := by omega
    simp [lessOf, h1, h2]

namespace PriceHeap

theorem less_eq_lessOf (h : PriceHeap) (a b : Transaction) :
    h.less a b = lessOf (h.cmp a b) (decide (b.nonce < a.nonce)) := rfl

/-- **`Less` is a key order.** `Less a b` holds exactly when the key of `a`
is below the key of `b`: the effective tips under a base fee, then the fee
caps, then the tip caps, then the nonces reversed. -/
theorem less_iff_key_lt (h : PriceHeap) (a b : Transaction) :
    h.less a b = true ↔ h.key a < h.key b := by
  rw [less_eq_lessOf]
  -- the fee caps, tip caps and nonces decide alike with or without a base fee
  have hrest : lessOf (cmpThen (a.gasFeeCapCmp b) (a.gasTipCapCmp b))
      (decide (b.nonce < a.nonce)) = true ↔
      (a.gasFeeCap : Int) < b.gasFeeCap ∨ (a.gasFeeCap : Int) = b.gasFeeCap ∧
        ((a.gasTipCap : Int) < b.gasTipCap ∨ (a.gasTipCap : Int) = b.gasTipCap ∧
          -(a.nonce : Int) < -(b.nonce : Int)) := by
    simp only [Transaction.gasFeeCapCmp, Transaction.gasTipCapCmp, lessOf_cmpThen,
      lessOf_bigCmp, decide_eq_true_eq]
    omega
  cases hbf : h.baseFee with
  | none =>
    have hzero : cmpThen 0 (cmpThen (a.gasFeeCapCmp b) (a.gasTipCapCmp b)) =
        cmpThen (a.gasFeeCapCmp b) (a.gasTipCapCmp b) := rfl
    simp only [cmp, key, hbf, hzero, Prod.Lex.toLex_lt_toLex, lt_self_iff_false, true_and,
      false_or]
    exact hrest
  | some bf =>
    simp only [cmp, key, hbf, Transaction.effectiveGasTipCmp, lessOf_cmpThen,
      Prod.Lex.toLex_lt_toLex]
    rw [hrest]

theorem key_le_of_before {h : PriceHeap} {a b : Transaction}
    (hab : PopOrder.Before h.popKey a b) : h.key a ≤ h.key b := hab

/-! ### Pop order -/

/-- The heap is in pop order. -/
def Sorted (h : PriceHeap) : Prop := PopOrder.Sorted h.popKey h.list

theorem sorted_push {h : PriceHeap} (hs : h.Sorted) (tx : Transaction) : (h.push tx).Sorted :=
  PopOrder.sorted_push hs tx

theorem sorted_pop {h : PriceHeap} (hs : h.Sorted) : h.pop.2.Sorted := by
  unfold pop
  split
  · exact hs
  · next tx rest hl =>
    rw [Sorted, hl] at hs
    exact hs.tail

theorem sorted_init (h : PriceHeap) : h.init.Sorted :=
  List.pairwise_insertionSort _ h.list

theorem perm_init (h : PriceHeap) : h.init.list.Perm h.list :=
  List.perm_insertionSort _ h.list

theorem pop_of_cons {h : PriceHeap} {tx : Transaction} {rest : List Transaction}
    (hl : h.list = tx :: rest) : h.pop = (some tx, { h with list := rest }) := by
  unfold pop
  rw [hl]

/-- The first element is before or level with every other. -/
theorem key_head_le {h : PriceHeap} (hs : h.Sorted) {tx : Transaction}
    {rest : List Transaction} (hl : h.list = tx :: rest) :
    ∀ u ∈ h.list, h.key tx ≤ h.key u := by
  intro u hu
  unfold Sorted at hs
  rw [hl] at hu hs
  rcases List.mem_cons.mp hu with rfl | hu
  · exact le_rfl
  · exact key_le_of_before (List.rel_of_pairwise_cons hs hu)

end PriceHeap

namespace MultiCurrencyPriceHeap

/-! ## The heaps under their keys -/

theorem heapAt_of_lookup {h : MultiCurrencyPriceHeap} {fc : Address} {ph : PriceHeap}
    (hl : h.currencyHeaps.lookup fc = some ph) : h.heapAt (some fc) = ph := by
  simp [heapAt, hl]

theorem heapAt_of_mem {h : MultiCurrencyPriceHeap} {e : Sigma fun _ : Address => PriceHeap}
    (he : e ∈ h.currencyHeaps.entries) : h.heapAt (some e.1) = e.2 :=
  heapAt_of_lookup (AList.mem_lookup_iff.mpr he)

/-- The entries after writing under `fc` are the new one and the old ones
under other keys. -/
theorem mem_entries_setHeap {h : MultiCurrencyPriceHeap} {fc : Address} {ph : PriceHeap}
    {e : Sigma fun _ : Address => PriceHeap} (he : e ∈ (h.setHeap (some fc) ph).currencyHeaps.entries) :
    e = ⟨fc, ph⟩ ∨ e ∈ h.currencyHeaps.entries := by
  simp only [setHeap, AList.entries_insert, List.mem_cons] at he
  exact he.imp_right fun he => (List.kerase_sublist _ _).subset he

/-! ## Pop order and placement -/

/-- Every heap is in pop order. -/
def Heaped (h : MultiCurrencyPriceHeap) : Prop :=
  h.nativeCurrencyHeap.Sorted ∧ ∀ e ∈ h.currencyHeaps.entries, e.2.Sorted

/-- Every heap holds only transactions that `getHeapFor` sends to it. -/
def Placed (h : MultiCurrencyPriceHeap) : Prop :=
  (∀ tx ∈ h.nativeCurrencyHeap.list, heapKey tx = none) ∧
    ∀ e ∈ h.currencyHeaps.entries, ∀ tx ∈ e.2.list, heapKey tx = some e.1

theorem sorted_heapAt {h : MultiCurrencyPriceHeap} (hh : h.Heaped) :
    ∀ k, (h.heapAt k).Sorted
  | none => hh.1
  | some fc => by
    cases hl : h.currencyHeaps.lookup fc with
    | none => simp [heapAt, hl, PriceHeap.Sorted, PopOrder.Sorted]
    | some ph =>
      rw [heapAt_of_lookup hl]
      exact hh.2 ⟨fc, ph⟩ (AList.mem_lookup_iff.mp hl)

theorem placed_heapAt {h : MultiCurrencyPriceHeap} (hp : h.Placed) :
    ∀ k, ∀ tx ∈ (h.heapAt k).list, heapKey tx = k
  | none => hp.1
  | some fc => by
    cases hl : h.currencyHeaps.lookup fc with
    | none => simp [heapAt, hl]
    | some ph =>
      rw [heapAt_of_lookup hl]
      exact hp.2 ⟨fc, ph⟩ (AList.mem_lookup_iff.mp hl)

theorem heaped_setHeap {h : MultiCurrencyPriceHeap} (hh : h.Heaped) {ph : PriceHeap}
    (hs : ph.Sorted) : ∀ k, (h.setHeap k ph).Heaped
  | none => ⟨hs, hh.2⟩
  | some fc => by
    refine ⟨hh.1, fun e he => ?_⟩
    rcases mem_entries_setHeap he with rfl | he
    · exact hs
    · exact hh.2 e he

theorem placed_setHeap {h : MultiCurrencyPriceHeap} (hp : h.Placed) {k : Option Address}
    {ph : PriceHeap} (hk : ∀ tx ∈ ph.list, heapKey tx = k) : (h.setHeap k ph).Placed := by
  cases k with
  | none => exact ⟨hk, hp.2⟩
  | some fc =>
    refine ⟨hp.1, fun e he => ?_⟩
    rcases mem_entries_setHeap he with rfl | he
    · exact hk
    · exact hp.2 e he

/-! ## Contents and `Len` -/

theorem len_eq_length_contents (h : MultiCurrencyPriceHeap) : h.len = h.contents.length := by
  simp [len, contents, List.length_flatMap]

/-- **Writing a heap back** replaces its transactions in the contents by the
new heap's. -/
theorem perm_contents_setHeap (h : MultiCurrencyPriceHeap) (k : Option Address) (ph : PriceHeap) :
    (h.contents ++ ph.list).Perm ((h.setHeap k ph).contents ++ (h.heapAt k).list) := by
  cases k with
  | none =>
    simp only [contents, setHeap, heapAt]
    rw [List.perm_iff_count]
    intro tx
    simp only [List.count_append]
    omega
  | some fc =>
    -- the old currency heaps are the one under `fc` and those under other keys
    have hsplit := AssocMap.perm_flatMap_kerase_map (fun ph : PriceHeap => ph.list)
      h.currencyHeaps.entries fc
    have hat : (h.heapAt (some fc)).list =
        ((h.currencyHeaps.entries.dlookup fc).map fun ph : PriceHeap => ph.list).getD [] := by
      cases hl : h.currencyHeaps.lookup fc with
      | none =>
        simp only [AList.lookup] at hl
        simp [heapAt, AList.lookup, hl]
      | some ph' =>
        rw [heapAt_of_lookup hl]
        simp only [AList.lookup] at hl
        simp [hl]
    simp only [contents, setHeap, AList.entries_insert, List.flatMap_cons]
    rw [List.perm_iff_count] at hsplit ⊢
    intro tx
    have := hsplit tx
    simp only [List.count_append] at this ⊢
    rw [hat]
    omega

/-! ## `Pop` -/

/-- Each of `cheapestTxs` is the first transaction of the heap `getHeapFor`
picks for it. -/
theorem head_of_mem_cheapestTxs {h : MultiCurrencyPriceHeap} (hp : h.Placed) {t : Transaction}
    (ht : t ∈ h.cheapestTxs) : ∃ rest, (h.getHeapFor t).list = t :: rest := by
  unfold cheapestTxs at ht
  rcases List.mem_append.mp ht with ht | ht
  · -- the head of the native heap
    have hhead : h.nativeCurrencyHeap.list.head? = some t := by simpa using ht
    obtain ⟨rest, hrest⟩ := List.head?_eq_some_iff.mp hhead
    have hk : heapKey t = none := hp.1 t (by rw [hrest]; exact List.mem_cons_self)
    exact ⟨rest, by rw [getHeapFor, hk]; exact hrest⟩
  · -- the head of a currency heap
    obtain ⟨e, he, hhead⟩ := List.mem_filterMap.mp ht
    obtain ⟨rest, hrest⟩ := List.head?_eq_some_iff.mp hhead
    have hk : heapKey t = some e.1 := hp.2 e he t (by rw [hrest]; exact List.mem_cons_self)
    exact ⟨rest, by rw [getHeapFor, hk, heapAt_of_mem he]; exact hrest⟩

theorem cheapestTxs_eq_nil {h : MultiCurrencyPriceHeap} (hc : h.cheapestTxs = []) : h.len = 0 := by
  simp only [cheapestTxs, List.append_eq_nil_iff, List.filterMap_eq_nil_iff,
    Option.toList_eq_nil_iff, List.head?_eq_none_iff] at hc
  obtain ⟨hnative, hcur⟩ := hc
  have hsum : (h.currencyHeaps.entries.map fun e => e.2.list.length).sum = 0 := by
    apply List.sum_eq_zero
    intro n hn
    obtain ⟨e, he, rfl⟩ := List.mem_map.mp hn
    rw [hcur e he, List.length_nil]
  simp [len, hnative, hsum]

/-- **`Pop` returns the cheapest head**, taken out of its own heap. -/
theorem pop_of_cheapestTx {h : MultiCurrencyPriceHeap} (hp : h.Placed) {t : Transaction}
    (hc : h.cheapestTx = some t) :
    ∃ rest, (h.getHeapFor t).list = t :: rest ∧
      h.pop = (some t, h.setHeap (heapKey t) { h.getHeapFor t with list := rest }) := by
  obtain ⟨rest, hrest⟩ := head_of_mem_cheapestTxs hp (PopOrder.selectMin_mem _ hc)
  refine ⟨rest, hrest, ?_⟩
  simp only [pop, hc, PriceHeap.pop_of_cons hrest]

/-- **`Len` drops by one.** `Pop` of a heap that is not empty returns a
transaction and leaves the others. -/
theorem len_pop {h : MultiCurrencyPriceHeap} (hp : h.Placed) (hlen : 0 < h.len) :
    ∃ t, h.pop.1 = some t ∧ (t :: h.pop.2.contents).Perm h.contents ∧ h.pop.2.len + 1 = h.len := by
  obtain ⟨t, hc⟩ : ∃ t, h.cheapestTx = some t := by
    cases hc : h.cheapestTx with
    | some t => exact ⟨t, rfl⟩
    | none =>
      have := cheapestTxs_eq_nil ((PopOrder.selectMin_eq_none_iff _ _).mp hc)
      omega
  obtain ⟨rest, hrest, hpop⟩ := pop_of_cheapestTx hp hc
  have hperm := perm_contents_setHeap h (heapKey t) { h.getHeapFor t with list := rest }
  -- the popped heap loses exactly its head
  have hcontents : (t :: h.pop.2.contents).Perm h.contents := by
    rw [hpop]
    have hat : (h.heapAt (heapKey t)).list = t :: rest := hrest
    rw [hat] at hperm
    rw [List.perm_iff_count] at hperm ⊢
    intro u
    have := hperm u
    simp only [List.count_append, List.count_cons] at this ⊢
    omega
  refine ⟨t, by rw [hpop], hcontents, ?_⟩
  rw [len_eq_length_contents, len_eq_length_contents, ← hcontents.length_eq, List.length_cons]

/-! ## The invariants along runs -/

theorem pop_snd (h : MultiCurrencyPriceHeap) :
    h.pop.2 = match h.cheapestTx with
      | none => h
      | some t => h.setHeap (heapKey t) (h.getHeapFor t).pop.2 := by
  cases hc : h.cheapestTx with
  | none => simp [pop, hc]
  | some t => simp only [pop, hc]

theorem heaped_new (cc : CurrencyCmpFn) (gpm : GasPriceMinimums) : (new cc gpm).Heaped :=
  ⟨List.Pairwise.nil, fun e he => by simp [new] at he⟩

theorem heaped_init (h : MultiCurrencyPriceHeap) : h.init.Heaped := by
  refine ⟨PriceHeap.sorted_init _, fun e he => ?_⟩
  simp only [init, AssocMap.entries_mapVal, List.mem_map] at he
  obtain ⟨e', -, rfl⟩ := he
  exact PriceHeap.sorted_init _

theorem heaped_clear (h : MultiCurrencyPriceHeap) : h.clear.Heaped := by
  refine ⟨List.Pairwise.nil, fun e he => ?_⟩
  simp only [clear, AssocMap.entries_mapVal, List.mem_map] at he
  obtain ⟨e', -, rfl⟩ := he
  exact List.Pairwise.nil

theorem heaped_push {h : MultiCurrencyPriceHeap} (hh : h.Heaped) (tx : Transaction) :
    (h.push tx).Heaped :=
  heaped_setHeap hh (PriceHeap.sorted_push (sorted_heapAt hh _) tx) _

theorem heaped_pop {h : MultiCurrencyPriceHeap} (hh : h.Heaped) : h.pop.2.Heaped := by
  rw [pop_snd]
  split
  · exact hh
  · exact heaped_setHeap hh (PriceHeap.sorted_pop (sorted_heapAt hh _)) _

/-- **Every heap stays in pop order** under each operation. -/
theorem heaped_step {h : MultiCurrencyPriceHeap} (hh : h.Heaped) : ∀ op, (h.step op).Heaped
  | .push tx => heaped_push hh tx
  | .addAll _ => heaped_init _
  | .pop => heaped_pop hh
  | .clear => heaped_clear h
  | .updateFees _ _ => heaped_init _

theorem placed_new (cc : CurrencyCmpFn) (gpm : GasPriceMinimums) : (new cc gpm).Placed :=
  ⟨fun tx htx => by simp [new] at htx, fun e he => by simp [new] at he⟩

theorem placed_push {h : MultiCurrencyPriceHeap} (hp : h.Placed) (tx : Transaction) :
    (h.push tx).Placed := by
  refine placed_setHeap hp fun u hu => ?_
  rcases PopOrder.mem_push.mp hu with rfl | hu
  · rfl
  · exact placed_heapAt hp _ u hu

theorem placed_add {h : MultiCurrencyPriceHeap} (hp : h.Placed) (tx : Transaction) :
    (h.add tx).Placed := by
  refine placed_setHeap hp fun u hu => ?_
  rcases List.mem_append.mp hu with hu | hu
  · exact placed_heapAt hp _ u hu
  · rw [List.mem_singleton.mp hu]

theorem placed_foldl_add (txs : List Transaction) {h : MultiCurrencyPriceHeap} (hp : h.Placed) :
    (txs.foldl add h).Placed := by
  induction txs generalizing h with
  | nil => exact hp
  | cons tx txs ih => exact ih (placed_add hp tx)

theorem placed_init {h : MultiCurrencyPriceHeap} (hp : h.Placed) : h.init.Placed := by
  refine ⟨fun tx htx => hp.1 tx ((PriceHeap.perm_init _).subset htx), fun e he tx htx => ?_⟩
  simp only [init, AssocMap.entries_mapVal, List.mem_map] at he
  obtain ⟨e', he', rfl⟩ := he
  exact hp.2 e' he' tx ((PriceHeap.perm_init _).subset htx)

theorem placed_pop {h : MultiCurrencyPriceHeap} (hp : h.Placed) : h.pop.2.Placed := by
  rw [pop_snd]
  split
  · exact hp
  · next t _ =>
    refine placed_setHeap hp fun u hu => placed_heapAt hp (heapKey t) u ?_
    -- what is left of a heap after `heap.Pop` is its tail
    unfold PriceHeap.pop at hu
    split at hu
    · exact hu
    · next tx rest hl =>
      show u ∈ (h.getHeapFor t).list
      rw [hl]
      exact List.mem_cons_of_mem tx hu

theorem placed_clear (h : MultiCurrencyPriceHeap) : h.clear.Placed := by
  refine ⟨fun tx htx => by simp [clear] at htx, fun e he tx htx => ?_⟩
  simp only [clear, AssocMap.entries_mapVal, List.mem_map] at he
  obtain ⟨e', -, rfl⟩ := he
  simp at htx

theorem placed_updateFeesAndCurrencies {h : MultiCurrencyPriceHeap} (hp : h.Placed)
    (cc : CurrencyCmpFn) (gpm : GasPriceMinimums) : (h.updateFeesAndCurrencies cc gpm).Placed := by
  refine ⟨hp.1, fun e he tx htx => ?_⟩
  simp only [updateFeesAndCurrencies, AssocMap.entries_mapVal, List.mem_map] at he
  obtain ⟨e', he', rfl⟩ := he
  exact hp.2 e' he' tx htx

/-- **Every heap holds only its own transactions** under each operation. -/
theorem placed_step {h : MultiCurrencyPriceHeap} (hp : h.Placed) : ∀ op, (h.step op).Placed
  | .push tx => placed_push hp tx
  | .addAll txs => placed_init (placed_foldl_add txs hp)
  | .pop => placed_pop hp
  | .clear => placed_clear h
  | .updateFees cc gpm => placed_init (placed_updateFeesAndCurrencies hp cc gpm)

theorem heaped_run (ops : List Op) {h : MultiCurrencyPriceHeap} (hh : h.Heaped) :
    (Run.run step h ops).Heaped :=
  Run.run_invariant step Heaped (fun _ op hh => heaped_step hh op) ops h hh

theorem placed_run (ops : List Op) {h : MultiCurrencyPriceHeap} (hp : h.Placed) :
    (Run.run step h ops).Placed :=
  Run.run_invariant step Placed (fun _ op hp => placed_step hp op) ops h hp

/-! ## Base fees -/

/-- Every heap has a base fee. -/
def BaseFeesSet (h : MultiCurrencyPriceHeap) : Prop :=
  h.nativeCurrencyHeap.baseFee.isSome ∧ ∀ e ∈ h.currencyHeaps.entries, e.2.baseFee.isSome

theorem baseFee_heapAt {h : MultiCurrencyPriceHeap} (hb : h.BaseFeesSet) :
    ∀ k, (h.heapAt k).baseFee.isSome
  | none => hb.1
  | some fc => by
    cases hl : h.currencyHeaps.lookup fc with
    | none => simp [heapAt, hl]
    | some ph =>
      rw [heapAt_of_lookup hl]
      exact hb.2 ⟨fc, ph⟩ (AList.mem_lookup_iff.mp hl)

theorem baseFeesSet_setHeap {h : MultiCurrencyPriceHeap} (hb : h.BaseFeesSet) {ph : PriceHeap}
    (hph : ph.baseFee.isSome) : ∀ k, (h.setHeap k ph).BaseFeesSet
  | none => ⟨hph, hb.2⟩
  | some fc => by
    refine ⟨hb.1, fun e he => ?_⟩
    rcases mem_entries_setHeap he with rfl | he
    · exact hph
    · exact hb.2 e he

theorem baseFeesSet_foldl_add (txs : List Transaction) {h : MultiCurrencyPriceHeap}
    (hb : h.BaseFeesSet) : (txs.foldl add h).BaseFeesSet := by
  induction txs generalizing h with
  | nil => exact hb
  | cons tx txs ih =>
    exact ih (baseFeesSet_setHeap hb
      (show ((h.getHeapFor tx).add tx).baseFee.isSome from baseFee_heapAt hb _) _)

theorem baseFeesSet_init {h : MultiCurrencyPriceHeap} (hb : h.BaseFeesSet) : h.init.BaseFeesSet := by
  refine ⟨hb.1, fun e he => ?_⟩
  simp only [init, AssocMap.entries_mapVal, List.mem_map] at he
  obtain ⟨e', he', rfl⟩ := he
  exact hb.2 e' he'

theorem baseFeesSet_updateFeesAndCurrencies (h : MultiCurrencyPriceHeap) (cc : CurrencyCmpFn)
    (gpm : GasPriceMinimums) : (h.updateFeesAndCurrencies cc gpm).BaseFeesSet := by
  refine ⟨rfl, fun e he => ?_⟩
  simp only [updateFeesAndCurrencies, AssocMap.entries_mapVal, List.mem_map] at he
  obtain ⟨e', -, rfl⟩ := he
  rfl

/-- Once set, the base fees stay set under each operation: a new currency
heap gets its gas price minimum. -/
theorem baseFeesSet_step {h : MultiCurrencyPriceHeap} (hb : h.BaseFeesSet) :
    ∀ op, (h.step op).BaseFeesSet
  | .push tx => baseFeesSet_setHeap hb
      (show ((h.getHeapFor tx).push tx).baseFee.isSome from baseFee_heapAt hb _) _
  | .addAll txs => baseFeesSet_init (baseFeesSet_foldl_add txs hb)
  | .pop => by
    rw [step, pop_snd]
    split
    · exact hb
    · -- `heap.Pop` keeps the base fee
      refine baseFeesSet_setHeap hb ?_ _
      unfold PriceHeap.pop
      split
      · exact baseFee_heapAt hb _
      · exact baseFee_heapAt hb _
  | .clear => by
    show h.clear.BaseFeesSet
    refine ⟨hb.1, fun e he => ?_⟩
    simp only [clear, AssocMap.entries_mapVal, List.mem_map] at he
    obtain ⟨e', he', rfl⟩ := he
    exact hb.2 e' he'
  | .updateFees cc gpm => baseFeesSet_init (baseFeesSet_updateFeesAndCurrencies h cc gpm)

/-- **The urgent heap's base fees are all set** after any run that begins
with new fees, as every `SetBaseFee` gives them. -/
theorem baseFeesSet_run (h : MultiCurrencyPriceHeap) (cc : CurrencyCmpFn) (gpm : GasPriceMinimums)
    (ops : List Op) : (Run.run step h (.updateFees cc gpm :: ops)).BaseFeesSet := by
  rw [Run.run_cons]
  exact Run.run_invariant step BaseFeesSet (fun _ op hb => baseFeesSet_step hb op) ops _
    (baseFeesSet_init (baseFeesSet_updateFeesAndCurrencies h cc gpm))

end MultiCurrencyPriceHeap

/-! ## Exact comparison across currencies -/

/-- A comparison of amounts that values the currencies `S` exactly: each
`value c` is strictly monotone, and `cc` is the sign of the difference of the
two values. -/
structure CurrencyCmpFn.ExactOn (cc : CurrencyCmpFn) (S : Option Address → Prop)
    (value : Option Address → Int → ℚ) : Prop where
  strictMono : ∀ c, S c → StrictMono (value c)
  cmp_eq : ∀ a c₁ b c₂, S c₁ → S c₂ → cc a c₁ b c₂ = SignType.sign (value c₁ a - value c₂ b)

/-- The value a manager gives an amount: its exact CELO value when the
currency is fetched. -/
noncomputable def CachedManager.value (m : CachedManager) (c : Option Address) (x : Int) : ℚ :=
  match (m.toManager.getCurrency c).1 with
  | some cur => cur.toCELORate.celoValue x
  | none => x

theorem ExchangeRate.celoValue_strictMono (er : ExchangeRate) : StrictMono er.celoValue := by
  intro x y hxy
  have hd : (0 : ℚ) < er.denominator := by exact_mod_cast er.denominator_pos
  have hn : (0 : ℚ) < er.numerator := by exact_mod_cast er.numerator_pos
  unfold ExchangeRate.celoValue
  have hxy' : (x : ℚ) < y := by exact_mod_cast hxy
  exact div_lt_div_of_pos_right (mul_lt_mul_of_pos_right hxy' hd) hn

/-- **The pool's comparison is exact** on the currencies its manager can
fetch, the zero address apart (`cmpValues_conflates_zero_address`). -/
theorem CachedManager.exactOn (m : CachedManager) :
    CurrencyCmpFn.ExactOn (fun a c₁ b c₂ => (m.toManager.cmpValues a c₁ b c₂).1)
      (fun c => (m.toManager.getCurrency c).1.isSome ∧ c ≠ some zeroAddress) m.value := by
  constructor
  · rintro c ⟨hc, -⟩
    obtain ⟨cur, hcur⟩ := Option.isSome_iff_exists.mp hc
    unfold CachedManager.value
    rw [hcur]
    exact cur.toCELORate.celoValue_strictMono
  · rintro a c₁ b c₂ ⟨hc₁, hz₁⟩ ⟨hc₂, hz₂⟩
    obtain ⟨cur₁, h₁⟩ := Option.isSome_iff_exists.mp hc₁
    obtain ⟨cur₂, h₂⟩ := Option.isSome_iff_exists.mp hc₂
    unfold CachedManager.value
    rw [h₁, h₂]
    exact m.cmpValues_eq_sign h₁ h₂ hz₁ hz₂ a b

/-- Go's first non-zero comparison of signs is the lexicographic order. -/
theorem cmpThen_sign_nonpos_iff (x y : ℚ) (r : Int) :
    cmpThen (SignType.sign (x - y)) r ≤ 0 ↔ x < y ∨ x = y ∧ r ≤ 0 := by
  unfold cmpThen
  rcases lt_trichotomy x y with h | rfl | h
  · simp [sign_neg (sub_neg.mpr h), h]
  · simp
  · have hs : SignType.sign (x - y) = 1 := sign_pos (sub_pos.mpr h)
    simp [hs, h.ne', h.le]

theorem cmpThen_zero (r : Int) : cmpThen 0 r = r := rfl

theorem sign_sub_nonpos_iff (x y : ℚ) : ((SignType.sign (x - y) : SignType) : Int) ≤ 0 ↔ x ≤ y := by
  rw [CachedManager.sign_cast_nonpos_iff, sub_nonpos]

namespace MultiCurrencyPriceHeap

variable {S : Option Address → Prop} {value : Option Address → Int → ℚ}

/-- What `IsCheaper` compares under exact values, when the base fees of both
heaps are set (`tips`) or both unset. -/
noncomputable def cheapKey (value : Option Address → Int → ℚ) (tips : Bool)
    (h : MultiCurrencyPriceHeap) (tx : Transaction) : ℚ ×ₗ ℚ ×ₗ ℚ :=
  toLex ((if tips then value tx.feeCurrency (tx.effectiveGasTipValue (h.getHeapFor tx).baseFee)
    else 0), toLex (value tx.feeCurrency tx.gasFeeCap, value tx.feeCurrency tx.gasTipCap))

/-- **`IsCheaper` under exact values** is the order of `cheapKey`, when both
heaps have a base fee or neither has. -/
theorem isCheaper_iff_cheapKey_le {h : MultiCurrencyPriceHeap} (hcc : h.currencyCmp.ExactOn S value)
    {tips : Bool} {tx1 tx2 : Transaction} (hS1 : S tx1.feeCurrency) (hS2 : S tx2.feeCurrency)
    (ht1 : (h.getHeapFor tx1).baseFee.isSome = tips)
    (ht2 : (h.getHeapFor tx2).baseFee.isSome = tips) :
    h.isCheaper tx1 tx2 = true ↔ cheapKey value tips h tx1 ≤ cheapKey value tips h tx2 := by
  have hcap := hcc.cmp_eq tx1.gasFeeCap _ tx2.gasFeeCap _ hS1 hS2
  have htip := hcc.cmp_eq tx1.gasTipCap _ tx2.gasTipCap _ hS1 hS2
  simp only [isCheaper, CurrencyCmpFn.cmp, CurrencyCmpFn.gasFeeCapCmp,
    CurrencyCmpFn.gasTipCapCmp, ht1, ht2, cheapKey, decide_eq_true_eq, Prod.Lex.toLex_le_toLex]
  rw [hcap, htip]
  cases tips with
  | false =>
    simp only [Bool.and_false, Bool.false_eq_true, if_false, lt_self_iff_false, true_and,
      false_or]
    rw [cmpThen_zero, cmpThen_sign_nonpos_iff, sign_sub_nonpos_iff]
  | true =>
    simp only [Bool.and_self, if_true, CurrencyCmpFn.effectiveGasTipCmp]
    rw [hcc.cmp_eq _ _ _ _ hS1 hS2, cmpThen_sign_nonpos_iff, cmpThen_sign_nonpos_iff,
      sign_sub_nonpos_iff]

/-- Within one heap, pop order is the order of `cheapKey`: the heap's own key
compares raw amounts of one currency under one base fee. -/
theorem cheapKey_le_of_key_le {h : MultiCurrencyPriceHeap} {c : Option Address}
    (hmono : StrictMono (value c)) {tx1 tx2 : Transaction} (hc1 : tx1.feeCurrency = c)
    (hc2 : tx2.feeCurrency = c) (hheap : h.getHeapFor tx1 = h.getHeapFor tx2)
    (hle : (h.getHeapFor tx1).key tx1 ≤ (h.getHeapFor tx1).key tx2) :
    cheapKey value (h.getHeapFor tx1).baseFee.isSome h tx1 ≤
      cheapKey value (h.getHeapFor tx1).baseFee.isSome h tx2 := by
  have hv : ∀ {x y : Int}, x ≤ y → value c x ≤ value c y := fun hxy => hmono.monotone hxy
  unfold cheapKey
  rw [hc1, hc2, ← hheap]
  unfold PriceHeap.key at hle
  simp only [Prod.Lex.toLex_le_toLex] at hle ⊢
  cases hbf : (h.getHeapFor tx1).baseFee with
  | none =>
    simp only [hbf] at hle
    simp only [Option.isSome_none, Bool.false_eq_true, if_false, lt_self_iff_false, true_and,
      false_or] at hle ⊢
    rcases hle with hf | ⟨hf, ht | ⟨ht, -⟩⟩
    · exact .inl (hmono (by exact_mod_cast hf))
    · exact .inr ⟨by rw [hf], hv (by exact_mod_cast ht.le)⟩
    · exact .inr ⟨by rw [hf], by rw [ht]⟩
  | some bf =>
    simp only [hbf] at hle
    simp only [Option.isSome_some, if_true]
    rcases hle with he | ⟨he, hf | ⟨hf, ht | ⟨ht, -⟩⟩⟩
    · exact .inl (hmono he)
    · exact .inr ⟨by rw [he], .inl (hmono (by exact_mod_cast hf))⟩
    · exact .inr ⟨by rw [he], .inr ⟨by rw [hf], hv (by exact_mod_cast ht.le)⟩⟩
    · exact .inr ⟨by rw [he], .inr ⟨by rw [hf], by rw [ht]⟩⟩

/-! ## `Pop` under uniform base fees -/

theorem mem_getHeapFor_of_mem_contents {h : MultiCurrencyPriceHeap} (hp : h.Placed)
    {u : Transaction} (hu : u ∈ h.contents) : u ∈ (h.getHeapFor u).list := by
  unfold contents at hu
  rcases List.mem_append.mp hu with hu | hu
  · rw [getHeapFor, hp.1 u hu]
    exact hu
  · obtain ⟨e, he, hue⟩ := List.mem_flatMap.mp hu
    rw [getHeapFor, hp.2 e he u hue, heapAt_of_mem he]
    exact hue

theorem head_mem_cheapestTxs {h : MultiCurrencyPriceHeap} (hp : h.Placed) {u hd : Transaction}
    {rest : List Transaction} (hu : u ∈ h.contents) (hl : (h.getHeapFor u).list = hd :: rest) :
    hd ∈ h.cheapestTxs := by
  unfold contents at hu
  unfold cheapestTxs
  rcases List.mem_append.mp hu with hu | hu
  · rw [getHeapFor, hp.1 u hu] at hl
    exact List.mem_append_left _ (by simp [heapAt] at hl; simp [hl])
  · obtain ⟨e, he, hue⟩ := List.mem_flatMap.mp hu
    rw [getHeapFor, hp.2 e he u hue, heapAt_of_mem he] at hl
    exact List.mem_append_right _ (List.mem_filterMap.mpr ⟨e, he, by simp [hl]⟩)

theorem mem_contents_of_mem_cheapestTxs {h : MultiCurrencyPriceHeap} {t : Transaction}
    (ht : t ∈ h.cheapestTxs) : t ∈ h.contents := by
  unfold cheapestTxs at ht
  unfold contents
  rcases List.mem_append.mp ht with ht | ht
  · exact List.mem_append_left _ (List.mem_of_mem_head? (by simpa using ht))
  · obtain ⟨e, he, hhead⟩ := List.mem_filterMap.mp ht
    exact List.mem_append_right _ (List.mem_flatMap.mpr ⟨e, he, List.mem_of_mem_head? hhead⟩)

/-- With the native heap paying in CELO, a transaction's fee currency is the
key of its heap. -/
theorem feeCurrency_eq_heapKey {h : MultiCurrencyPriceHeap} (hp : h.Placed)
    (hnative : ∀ tx ∈ h.nativeCurrencyHeap.list, tx.feeCurrency = none) {u : Transaction}
    (hu : u ∈ h.contents) : u.feeCurrency = heapKey u := by
  cases hk : heapKey u with
  | none =>
    have hmem := mem_getHeapFor_of_mem_contents hp hu
    rw [getHeapFor, hk] at hmem
    exact hnative u hmem
  | some fc =>
    unfold heapKey at hk
    split at hk
    · cases hk
    · next fc' hfc =>
      split at hk
      · cases hk
      · cases hk
        exact hfc

variable {S : Option Address → Prop} {value : Option Address → Int → ℚ}

/-- **`Pop` returns a cheapest transaction.** When the comparison of
currencies is exact on the fee currencies of the contents, every heap has a
base fee or none has, and the native heap holds only transactions paying in
CELO, `Pop` of a heap that is not empty returns a transaction `IsCheaper`
than every transaction of the heap, and takes exactly that one out. -/
theorem pop_returns_cheapest {h : MultiCurrencyPriceHeap} (hcc : h.currencyCmp.ExactOn S value)
    (hh : h.Heaped) (hp : h.Placed) {tips : Bool} (hS : ∀ tx ∈ h.contents, S tx.feeCurrency)
    (htips : ∀ tx ∈ h.contents, (h.getHeapFor tx).baseFee.isSome = tips)
    (hnative : ∀ tx ∈ h.nativeCurrencyHeap.list, tx.feeCurrency = none) (hlen : 0 < h.len) :
    ∃ t, h.pop.1 = some t ∧ (t :: h.pop.2.contents).Perm h.contents ∧ h.pop.2.len + 1 = h.len ∧
      ∀ u ∈ h.contents, h.isCheaper t u = true := by
  have hkey : ∀ a ∈ h.contents, ∀ b ∈ h.contents,
      h.isCheaper a b = true ↔ cheapKey value tips h a ≤ cheapKey value tips h b :=
    fun a ha b hb => isCheaper_iff_cheapKey_le hcc (hS a ha) (hS b hb) (htips a ha) (htips b hb)
  -- the loop over the heads selects one cheaper than every head
  have hne : h.cheapestTxs ≠ [] := fun hnil => by
    have := cheapestTxs_eq_nil hnil
    omega
  have hmem : ∀ x ∈ h.cheapestTxs, x ∈ h.contents := fun x hx => mem_contents_of_mem_cheapestTxs hx
  obtain ⟨m, -, hm, hmin⟩ := PopOrder.selectMin_spec h.isCheaper hne
    (fun x hx y hy => by
      rw [hkey x (hmem x hx) y (hmem y hy), hkey y (hmem y hy) x (hmem x hx)]
      exact le_total _ _)
    (fun x hx y hy z hz hxy hyz => by
      rw [hkey x (hmem x hx) y (hmem y hy)] at hxy
      rw [hkey y (hmem y hy) z (hmem z hz)] at hyz
      rw [hkey x (hmem x hx) z (hmem z hz)]
      exact hxy.trans hyz)
  obtain ⟨t, ht, hperm, hlen'⟩ := len_pop hp hlen
  obtain ⟨rest, -, hpop⟩ := pop_of_cheapestTx hp hm
  have htm : t = m := by
    rw [hpop] at ht
    exact (Option.some.inj ht).symm
  subst htm
  refine ⟨t, ht, hperm, hlen', fun u hu => ?_⟩
  -- `u` is no cheaper than the head of its heap, which is no cheaper than `t`
  have hmemu := mem_getHeapFor_of_mem_contents hp hu
  obtain ⟨hd, rest', hl⟩ := List.exists_cons_of_ne_nil (List.ne_nil_of_mem hmemu)
  have hhd : hd ∈ h.cheapestTxs := head_mem_cheapestTxs hp hu hl
  have hhdc : hd ∈ h.contents := hmem hd hhd
  have hsame : heapKey hd = heapKey u :=
    placed_heapAt hp (heapKey u) hd (by rw [← getHeapFor, hl]; exact List.mem_cons_self)
  have hheap : h.getHeapFor hd = h.getHeapFor u := by rw [getHeapFor, getHeapFor, hsame]
  have hfc : hd.feeCurrency = u.feeCurrency := by
    rw [feeCurrency_eq_heapKey hp hnative hhdc, feeCurrency_eq_heapKey hp hnative hu, hsame]
  have hhead : (h.getHeapFor hd).key hd ≤ (h.getHeapFor hd).key u := by
    rw [hheap]
    exact PriceHeap.key_head_le (sorted_heapAt hh (heapKey u)) hl u hmemu
  have hhu := cheapKey_le_of_key_le (hcc.strictMono _ (hS u hu)) hfc rfl hheap hhead
  rw [htips hd hhdc] at hhu
  rw [hkey t (hmem t (PopOrder.selectMin_mem _ hm)) u hu]
  exact ((hkey t (hmem t (PopOrder.selectMin_mem _ hm)) hd hhdc).mp (hmin hd hhd)).trans hhu

/-- Under the same conditions `IsCheaper` is a total preorder on the heap's
contents. -/
theorem isCheaper_total_preorder {h : MultiCurrencyPriceHeap} (hcc : h.currencyCmp.ExactOn S value)
    {tips : Bool} (hS : ∀ tx ∈ h.contents, S tx.feeCurrency)
    (htips : ∀ tx ∈ h.contents, (h.getHeapFor tx).baseFee.isSome = tips) :
    (∀ a ∈ h.contents, ∀ b ∈ h.contents, h.isCheaper a b = true ∨ h.isCheaper b a = true) ∧
      ∀ a ∈ h.contents, ∀ b ∈ h.contents, ∀ c ∈ h.contents,
        h.isCheaper a b = true → h.isCheaper b c = true → h.isCheaper a c = true := by
  have hkey : ∀ a ∈ h.contents, ∀ b ∈ h.contents,
      h.isCheaper a b = true ↔ cheapKey value tips h a ≤ cheapKey value tips h b :=
    fun a ha b hb => isCheaper_iff_cheapKey_le hcc (hS a ha) (hS b hb) (htips a ha) (htips b hb)
  constructor
  · intro a ha b hb
    rw [hkey a ha b hb, hkey b hb a ha]
    exact le_total _ _
  · intro a ha b hb c hc hab hbc
    rw [hkey a ha b hb] at hab
    rw [hkey b hb c hc] at hbc
    rw [hkey a ha c hc]
    exact hab.trans hbc

/-! ## Mixed base fees -/

/-- The comparison of a manager whose every token trades at par with CELO. -/
def parCurrencyCmp : CurrencyCmpFn := fun a c₁ b c₂ =>
  ((CachedManager.new fun _ => some noopExchangeRate).toManager.cmpValues a c₁ b c₂).1

/-- A gas price minimum of 10 for the token at address 1, the fallback for
the others. -/
def tokenMinimums : GasPriceMinimums := fun a => if a = 1 then some 10 else none

/-- A dynamic-fee transaction paying in `fc`. -/
def feeTx (fc : Option Address) (feeCap tip nonce : Nat) : Transaction :=
  { txType := .celoDynamicFeeV2, isProtected := true, nonce, gas := 21000, gasPrice := feeCap,
    gasFeeCap := feeCap, gasTipCap := tip, value := 0, feeCurrency := fc,
    maxFeeInFeeCurrency := none, gatewayFeeRecipient := none, gatewayFee := none,
    ethCompatible := false }

/-- The urgent heap's run: new fees, then two token transactions and a CELO
one. Every heap has a base fee, the native one included. -/
def urgentOps : List Op :=
  [.updateFees parCurrencyCmp tokenMinimums, .push (feeTx (some 1) 100 1 0),
    .push (feeTx (some 1) 20 5 1), .push (feeTx none 50 1 0)]

def urgentHeap : MultiCurrencyPriceHeap :=
  Run.run step (new parCurrencyCmp tokenMinimums) urgentOps

theorem pop_returns_cheapest_urgentHeap :
    urgentHeap.Heaped ∧ urgentHeap.Placed ∧ 0 < urgentHeap.len ∧
      ∃ t, urgentHeap.pop.1 = some t ∧ (t :: urgentHeap.pop.2.contents).Perm urgentHeap.contents ∧
        urgentHeap.pop.2.len + 1 = urgentHeap.len ∧
        ∀ u ∈ urgentHeap.contents, urgentHeap.isCheaper t u = true := by
  -- the invariants come from the run lemmas, the contents facts by evaluation
  have hh : urgentHeap.Heaped := heaped_run urgentOps (heaped_new _ _)
  have hp : urgentHeap.Placed := placed_run urgentOps (placed_new _ _)
  have hb : urgentHeap.BaseFeesSet := baseFeesSet_run _ _ _ _
  have htips : ∀ tx ∈ urgentHeap.contents, (urgentHeap.getHeapFor tx).baseFee.isSome = true :=
    fun tx _ => baseFee_heapAt hb (heapKey tx)
  have hlen : 0 < urgentHeap.len := by decide
  have hS : ∀ tx ∈ urgentHeap.contents,
      ((CachedManager.new fun _ => some noopExchangeRate).toManager.getCurrency
          tx.feeCurrency).1.isSome ∧ tx.feeCurrency ≠ some zeroAddress := by
    decide
  have hnative : ∀ tx ∈ urgentHeap.nativeCurrencyHeap.list, tx.feeCurrency = none := by decide
  exact ⟨hh, hp, hlen, pop_returns_cheapest (CachedManager.exactOn _) hh hp hS htips hnative hlen⟩

/-- Three transactions pushed on a new heap: two in the token (fee caps 100
and 20, tips 1 and 5), one in CELO (fee cap 50, tip 1). The token's heap has
the base fee 10; the native heap has none, as in the floating heap, whose fees
`SetBaseFee` never updates. Between the token's transactions `IsCheaper`
compares effective tips (1 against 5), against the CELO one fee caps, so it
has the cycle 100-cap < 20-cap < CELO < 100-cap. `Pop` takes the CELO
transaction and leaves the 20-cap one, which is strictly cheaper. -/
def mixedFeeHeap : MultiCurrencyPriceHeap :=
  (((MultiCurrencyPriceHeap.new parCurrencyCmp tokenMinimums).push
    (feeTx (some 1) 100 1 0)).push (feeTx (some 1) 20 5 1)).push (feeTx none 50 1 0)

/-- **`Pop` leaves a cheaper transaction.** On `mixedFeeHeap` `IsCheaper`
is not transitive, and `Pop` returns the CELO transaction while the 20-cap
token transaction, cheaper than it, stays. -/
theorem pop_leaves_cheaper_tx :
    mixedFeeHeap.nativeCurrencyHeap.baseFee = none ∧
      (mixedFeeHeap.getHeapFor (feeTx (some 1) 20 5 1)).baseFee = some 10 ∧
      mixedFeeHeap.pop.1 = some (feeTx none 50 1 0) ∧
      feeTx (some 1) 20 5 1 ∈ mixedFeeHeap.pop.2.contents ∧
      mixedFeeHeap.isCheaper (feeTx none 50 1 0) (feeTx (some 1) 20 5 1) = false ∧
      mixedFeeHeap.isCheaper (feeTx (some 1) 100 1 0) (feeTx (some 1) 20 5 1) = true ∧
      mixedFeeHeap.isCheaper (feeTx (some 1) 20 5 1) (feeTx none 50 1 0) = true ∧
      mixedFeeHeap.isCheaper (feeTx none 50 1 0) (feeTx (some 1) 100 1 0) = true := by
  decide

end MultiCurrencyPriceHeap

end CeloBlockchain.Core
