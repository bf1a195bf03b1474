import CeloBlockchain.Core.TxList
import CeloBlockchain.Lib.Run
import CeloBlockchain.Lib.AssocMap

/-!
# What the caps of a `txList` promise

`Filter` skips its scan when no cap is above its limit. That is sound for the
parts of its test the caps stand for when the caps bound every transaction
of the list (`Bounded`):

* `Add` keeps the caps bounding when the fee of a CELO-denominated
  transaction can be converted (`bounded_add`); `Forward`, `Cap`, `Remove`,
  `Ready` and `FilterOnGasLimit` only take transactions out or lower the gas
  cap to what stays (`bounded_forward` and the rest); `Filter` lowers the caps
  to its limits and keeps only what passes its test (`bounded_filter`). So
  every run of such calls under one context keeps them (`bounded_run`).
* When `Filter` returns early, every transaction costs no more than the native
  limit, has gas no more than the gas limit and a fee no more than its
  currency's limit (`lowerCaps_bail_bounds`). The test removes a fee equal to
  the limit, and a gas price below the floor, which no cap covers.

When the rate of a CELO-denominated transaction's fee currency cannot be
read, `Add` has already stored the transaction and reports it rejected, with
the caps not raised for it (`add_rejects_stored`).
`add_and_filter_break_caps` shows both defects on concrete lists.
-/

namespace CeloBlockchain.Core

namespace TxList

variable {ctx : TxPoolContext} {l l' : TxList} {tx : Transaction}

/-! ## Caps that bound the list -/

/-- The caps of `l` bound `tx`: its gas, and its native cost, or, paying in
a fee currency, its value and its fee there. -/
def Fits (ctx : TxPoolContext) (l : TxList) (tx : Transaction) : Prop :=
  tx.gas ≤ l.gascap ∧
    match tx.feeCurrency with
    | none => (tx.cost : Int) ≤ l.nativecostcap
    | some c => (tx.value : Int) ≤ l.nativecostcap ∧
        ∀ fee, feeInCurrency ctx tx c = some fee → ∃ cap, l.feecaps.lookup c = some cap ∧ fee ≤ cap

/-- The caps bound every transaction of the list. -/
def Bounded (ctx : TxPoolContext) (l : TxList) : Prop :=
  ∀ n tx, l.txs.lookup n = some tx → Fits ctx l tx

/-- Caps no lower than another list's. -/
structure CapsLe (l l' : TxList) : Prop where
  native : l.nativecostcap ≤ l'.nativecostcap
  gas : l.gascap ≤ l'.gascap
  fee : ∀ c cap, l.feecaps.lookup c = some cap → ∃ cap', l'.feecaps.lookup c = some cap' ∧ cap ≤ cap'

theorem Fits.mono (h : Fits ctx l tx) (hle : CapsLe l l') : Fits ctx l' tx := by
  obtain ⟨hgas, hrest⟩ := h
  refine ⟨hgas.trans hle.gas, ?_⟩
  cases hc : tx.feeCurrency with
  | none =>
    simp only [hc] at hrest ⊢
    exact hrest.trans hle.native
  | some c =>
    simp only [hc] at hrest ⊢
    refine ⟨hrest.1.trans hle.native, fun fee hfee => ?_⟩
    obtain ⟨cap, hcap, hfc⟩ := hrest.2 fee hfee
    obtain ⟨cap', hcap', hcc⟩ := hle.fee c cap hcap
    exact ⟨cap', hcap', hfc.trans hcc⟩

/-- A list with fewer transactions and the same caps stays bounded. -/
theorem Bounded.of_lookup (hb : Bounded ctx l) {txs : TxSortedMap}
    (h : ∀ n tx, txs.lookup n = some tx → l.txs.lookup n = some tx) :
    Bounded ctx { l with txs := txs } :=
  fun n tx hl => hb n tx (h n tx hl)

/-! ## Taking transactions out -/

namespace TxSortedMap'

variable {m : TxSortedMap}

theorem lookup_deleteAll {removed : List (Sigma fun _ : Nat => Transaction)} {n : Nat}
    {tx : Transaction} (h : (m.deleteAll removed).lookup n = some tx) :
    m.lookup n = some tx ∧ n ∉ removed.map (·.1) := by
  unfold TxSortedMap.deleteAll at h
  rw [← List.foldl_map (g := fun m k => AList.erase k m), AssocMap.lookup_foldl_erase] at h
  split_ifs at h with hn
  exact ⟨h, hn⟩

/-- What `Filter` leaves was there and fails the test. -/
theorem lookup_filter {p : Transaction → Bool} {n : Nat} {tx : Transaction}
    (h : (m.filter p).2.lookup n = some tx) : m.lookup n = some tx ∧ p tx = false := by
  obtain ⟨hl, hn⟩ := lookup_deleteAll h
  refine ⟨hl, ?_⟩
  by_contra hp
  have hmem : (⟨n, tx⟩ : Sigma fun _ : Nat => Transaction) ∈ m.entries.filter fun e => p e.2 :=
    List.mem_filter.mpr ⟨AList.mem_lookup_iff.mp hl, by simpa using hp⟩
  exact hn (List.mem_map.mpr ⟨_, hmem, rfl⟩)

theorem lookup_forward {threshold n : Nat} {tx : Transaction}
    (h : (m.forward threshold).2.lookup n = some tx) : m.lookup n = some tx :=
  (lookup_deleteAll h).1

theorem lookup_cap {threshold n : Nat} {tx : Transaction}
    (h : (m.cap threshold).2.lookup n = some tx) : m.lookup n = some tx := by
  unfold TxSortedMap.cap at h
  split at h
  · exact h
  · exact (lookup_deleteAll h).1

theorem lookup_ready {start n : Nat} {tx : Transaction}
    (h : (m.ready start).2.lookup n = some tx) : m.lookup n = some tx := by
  unfold TxSortedMap.ready at h
  split at h
  · exact h
  · split at h
    · exact h
    · exact (lookup_deleteAll h).1

theorem lookup_remove {nonce n : Nat} {tx : Transaction}
    (h : (m.remove nonce).2.lookup n = some tx) : m.lookup n = some tx := by
  unfold TxSortedMap.remove at h
  split at h
  · exact h
  · by_cases hn : n = nonce
    · rw [hn, AList.lookup_erase] at h
      cases h
    · rwa [AList.lookup_erase_ne hn] at h

end TxSortedMap'

open TxSortedMap'

theorem bounded_forward (hb : Bounded ctx l) (threshold : Nat) :
    Bounded ctx (l.forward threshold).2 :=
  hb.of_lookup fun _ _ h => lookup_forward h

theorem bounded_cap (hb : Bounded ctx l) (threshold : Nat) : Bounded ctx (l.cap threshold).2 :=
  hb.of_lookup fun _ _ h => lookup_cap h

theorem bounded_ready (hb : Bounded ctx l) (start : Nat) : Bounded ctx (l.ready start).2 :=
  hb.of_lookup fun _ _ h => lookup_ready h

theorem bounded_invalidsAbove (hb : Bounded ctx l) (nonce : Nat) :
    Bounded ctx (l.invalidsAbove nonce).2 :=
  hb.of_lookup fun n tx h =>
    (lookup_filter (show (l.txs.filter fun tx => decide (tx.nonce > nonce)).2.lookup n = some tx
      from h)).1

theorem bounded_remove (hb : Bounded ctx l) (tx : Transaction) : Bounded ctx (l.remove tx).2.2 := by
  have herase : Bounded ctx { l with txs := (l.txs.remove tx.nonce).2 } :=
    hb.of_lookup fun _ _ h => lookup_remove h
  rcases hrm : l.txs.remove tx.nonce with ⟨removed, txs⟩
  rw [hrm] at herase
  simp only [remove, hrm]
  split_ifs
  · exact herase
  · exact bounded_invalidsAbove herase tx.nonce
  · exact herase

/-- `FilterOnGasLimit` lowers the gas cap to the limit and keeps only what
is under it. -/
theorem bounded_filterOnGasLimit (hb : Bounded ctx l) (gasLimit : Nat) :
    Bounded ctx (l.filterOnGasLimit gasLimit).2.2 := by
  rcases hf : l.txs.filter (fun tx => decide (tx.gas > gasLimit)) with ⟨removed, txs⟩
  have hlow : Bounded ctx { l with gascap := gasLimit, txs := txs } := by
    intro n tx h
    obtain ⟨hl, hgas⟩ := lookup_filter (show (l.txs.filter _).2.lookup n = some tx by rw [hf]; exact h)
    obtain ⟨-, hrest⟩ := hb n tx hl
    exact ⟨by simpa using hgas, hrest⟩
  unfold filterOnGasLimit
  split_ifs
  · exact hb
  · simp only [hf]
    split_ifs
    · exact hlow
    · exact bounded_invalidsAbove hlow _
    · exact hlow

/-! ## `Add` -/

/-- The fee of a CELO-denominated transaction cannot be converted. -/
def RateFails (ctx : TxPoolContext) (tx : Transaction) : Prop :=
  ∃ c, tx.feeCurrency = some c ∧ feeInCurrency ctx tx c = none

theorem putAndRaise_of_rateFails {c : Address} (hc : tx.feeCurrency = some c)
    (hf : feeInCurrency ctx tx c = none) :
    l.putAndRaise ctx tx = (false, { l with txs := l.txs.put tx }) := by
  simp [putAndRaise, hc, hf]

/-- With a convertible fee, `putAndRaise` accepts, stores the transaction
and raises the caps to bound it. -/
theorem putAndRaise_of_not_rateFails (hr : ¬RateFails ctx tx) :
    (l.putAndRaise ctx tx).1 = true ∧ (l.putAndRaise ctx tx).2.txs = l.txs.put tx ∧
      CapsLe l (l.putAndRaise ctx tx).2 ∧ Fits ctx (l.putAndRaise ctx tx).2 tx := by
  cases hc : tx.feeCurrency with
  | none =>
    have hput : l.putAndRaise ctx tx =
        (true, { l with txs := l.txs.put tx,
                        nativecostcap := max l.nativecostcap tx.cost,
                        gascap := max l.gascap tx.gas }) := by
      simp only [putAndRaise, hc]
    rw [hput]
    refine ⟨rfl, rfl, ⟨le_max_left _ _, le_max_left _ _, fun c cap h => ⟨cap, h, le_rfl⟩⟩,
      le_max_right _ _, ?_⟩
    simp only [hc]
    exact le_max_right _ _
  | some c =>
    obtain ⟨fee, hfee⟩ := Option.ne_none_iff_exists'.mp fun hf => hr ⟨c, hc, hf⟩
    -- the cap of `c` after the raise: at least the old one and the fee
    obtain ⟨feecap, hle, hfee_le, hput⟩ : ∃ feecap : Int,
        (∀ cap, l.feecaps.lookup c = some cap → cap ≤ feecap) ∧ fee ≤ feecap ∧
        l.putAndRaise ctx tx =
          (true, { l with txs := l.txs.put tx,
                          feecaps := l.feecaps.insert c feecap,
                          nativecostcap := max l.nativecostcap tx.value,
                          gascap := max l.gascap tx.gas }) := by
      cases hlookup : l.feecaps.lookup c with
      | none =>
        refine ⟨fee, fun cap h => absurd h (by simp), le_rfl, ?_⟩
        simp only [putAndRaise, hc, hfee, hlookup]
      | some oldFee =>
        refine ⟨max oldFee fee, fun cap h => ?_, le_max_right _ _, ?_⟩
        · rw [Option.some.injEq] at h
          subst h
          exact le_max_left _ _
        · simp only [putAndRaise, hc, hfee, hlookup]
    rw [hput]
    refine ⟨rfl, rfl, ⟨le_max_left _ _, le_max_left _ _, ?_⟩, le_max_right _ _, ?_⟩
    · intro c' cap h
      by_cases hc' : c' = c
      · subst hc'
        exact ⟨feecap, AList.lookup_insert _, hle cap h⟩
      · exact ⟨cap, by rw [AList.lookup_insert_ne hc']; exact h, le_rfl⟩
    · simp only [hc]
      refine ⟨le_max_right _ _, fun fee' hfee' => ?_⟩
      rw [hfee, Option.some.injEq] at hfee'
      subst hfee'
      exact ⟨feecap, AList.lookup_insert _, hfee_le⟩

theorem bounded_putAndRaise (hb : Bounded ctx l) (hr : ¬RateFails ctx tx) :
    Bounded ctx (l.putAndRaise ctx tx).2 := by
  obtain ⟨-, htxs, hcaps, hfits⟩ := putAndRaise_of_not_rateFails (l := l) hr
  intro n tx' h
  rw [htxs] at h
  by_cases hn : n = tx.nonce
  · rw [hn, TxSortedMap.put, AList.lookup_insert, Option.some.injEq] at h
    subst h
    exact hfits
  · rw [TxSortedMap.put, AList.lookup_insert_ne hn] at h
    exact (hb n tx' h).mono hcaps

/-- **What `Add` can do.** It rejects and leaves the list, or it ends as
`putAndRaise` does. -/
theorem add_cases (ctx : TxPoolContext) (tx : Transaction) (priceBump : Nat) :
    ((l.add ctx tx priceBump).1 = false ∧ (l.add ctx tx priceBump).2.2 = l) ∨
      ((l.add ctx tx priceBump).1 = (l.putAndRaise ctx tx).1 ∧
        (l.add ctx tx priceBump).2.2 = (l.putAndRaise ctx tx).2) := by
  unfold add
  rcases hget : l.txs.get tx.nonce with _ | old
  · -- a new nonce: what `putAndRaise` gives
    rcases l.putAndRaise ctx tx with ⟨accepted, l'⟩
    exact .inr ⟨rfl, rfl⟩
  · dsimp only
    rcases replacementCaps ctx old tx with _ | ⟨oldGasFeeCap, oldGasTipCap, newGasFeeCap, newGasTipCap⟩
    · exact .inl ⟨rfl, rfl⟩
    · dsimp only
      split_ifs with hbump hacc
      · exact .inl ⟨rfl, rfl⟩
      · exact .inr ⟨hacc.symm, rfl⟩
      · exact .inr ⟨(Bool.eq_false_iff.mpr hacc).symm, rfl⟩

/-- `Add` keeps the caps bounding when the fee can be converted. -/
theorem bounded_add (hb : Bounded ctx l) (hr : ¬RateFails ctx tx) (priceBump : Nat) :
    Bounded ctx (l.add ctx tx priceBump).2.2 := by
  rcases add_cases ctx tx priceBump with ⟨-, h⟩ | ⟨-, h⟩
  · rw [h]
    exact hb
  · rw [h]
    exact bounded_putAndRaise hb hr

/-- **`Add` stores a transaction it reports rejected.** When the fee of a
CELO-denominated transaction with a new nonce cannot be converted, `Add`
returns false with the transaction in the list and no cap raised. -/
theorem add_rejects_stored {c : Address} (hc : tx.feeCurrency = some c)
    (hf : feeInCurrency ctx tx c = none) (hnone : l.txs.get tx.nonce = none) (priceBump : Nat) :
    l.add ctx tx priceBump = (false, none, { l with txs := l.txs.put tx }) := by
  simp [add, hnone, putAndRaise_of_rateFails hc hf]

/-! ## `Filter` -/

theorem lowerFeeCap_eq_some {b b₁ : Bool} {l₁ : TxList} {k : Address} {lim : Int}
    (h : lowerFeeCap (b, l) ⟨k, lim⟩ = some (b₁, l₁)) :
    ∃ cap, l.feecaps.lookup k = some cap ∧
      ((lim < cap ∧ b₁ = false ∧ l₁ = { l with feecaps := l.feecaps.insert k lim }) ∨
        (cap ≤ lim ∧ b₁ = b ∧ l₁ = l)) := by
  unfold lowerFeeCap at h
  split at h
  · cases h
  · rename_i cap hcap
    refine ⟨cap, hcap, ?_⟩
    split_ifs at h with hlt
    · simp only [Option.some.injEq, Prod.mk.injEq] at h
      exact .inl ⟨hlt, h.1.symm, h.2.symm⟩
    · simp only [Option.some.injEq, Prod.mk.injEq] at h
      exact .inr ⟨not_lt.mp hlt, h.1.symm, h.2.symm⟩

/-- **The fee limits of `Filter`.** Each currency with a limit gets the
smaller of its cap and the limit; the other fields stay; and the scan is
skipped only if nothing was lowered, with every limited currency capped
within its limit. -/
theorem foldlM_lowerFeeCap {es : List (Sigma fun _ : Address => Int)} (hnd : es.NodupKeys) :
    ∀ (b : Bool) (l : TxList) (b' : Bool) (l' : TxList),
      es.foldlM lowerFeeCap (b, l) = some (b', l') →
      l' = { l with feecaps := l'.feecaps } ∧
      (∀ c cap, l.feecaps.lookup c = some cap →
        l'.feecaps.lookup c = some (match es.dlookup c with
          | some lim => min cap lim
          | none => cap)) ∧
      (b' = true → l' = l ∧ b = true ∧
        ∀ c lim, es.dlookup c = some lim → ∃ cap, l.feecaps.lookup c = some cap ∧ cap ≤ lim) := by
  induction es with
  | nil =>
    intro b l b' l' h
    simp only [List.foldlM_nil, pure, Option.some.injEq, Prod.mk.injEq] at h
    obtain ⟨rfl, rfl⟩ := h
    refine ⟨rfl, fun c cap hcap => ?_, fun hb => ⟨rfl, hb, fun c lim h => by cases h⟩⟩
    simpa using hcap
  | cons e es ih =>
    obtain ⟨k, lim⟩ := e
    rw [List.nodupKeys_cons] at hnd
    intro b l b' l' h
    rw [List.foldlM_cons] at h
    obtain ⟨⟨b₁, l₁⟩, h₁, hrest⟩ := Option.bind_eq_some_iff.mp h
    obtain ⟨hfields, hcaps, hbail⟩ := ih hnd.2 b₁ l₁ b' l' hrest
    obtain ⟨cap, hcap, ⟨hlt, rfl, rfl⟩ | ⟨hle, rfl, rfl⟩⟩ := lowerFeeCap_eq_some h₁
    · -- lowered: `k` now has the limit, and the scan cannot be skipped
      refine ⟨by rw [hfields], fun c cap' hc => ?_, fun hb => ?_⟩
      · by_cases hck : c = k
        · subst hck
          rw [hc, Option.some.injEq] at hcap
          subst hcap
          have := hcaps c lim (AList.lookup_insert _)
          rw [List.dlookup_eq_none.mpr hnd.1] at this
          rw [this, List.dlookup_cons_eq]
          show some lim = some (min cap' lim)
          rw [min_eq_right hlt.le]
        · have := hcaps c cap' (by rw [AList.lookup_insert_ne hck]; exact hc)
          rwa [List.dlookup_cons_ne _ _ hck]
      · cases (hbail hb).2.1
    · -- kept: the rest of the loop decides
      refine ⟨hfields, fun c cap' hc => ?_, fun hb => ?_⟩
      · by_cases hck : c = k
        · subst hck
          rw [hc, Option.some.injEq] at hcap
          subst hcap
          have := hcaps c cap' hc
          rw [List.dlookup_eq_none.mpr hnd.1] at this
          rw [this, List.dlookup_cons_eq]
          show some cap' = some (min cap' lim)
          rw [min_eq_left hle]
        · rw [List.dlookup_cons_ne _ _ hck]
          exact hcaps c cap' hc
      · obtain ⟨heq, hb₁, hlims⟩ := hbail hb
        refine ⟨heq, hb₁, fun c lim' hc => ?_⟩
        by_cases hck : c = k
        · subst hck
          rw [List.dlookup_cons_eq, Option.some.injEq] at hc
          subst hc
          exact ⟨cap, hcap, hle⟩
        · rw [List.dlookup_cons_ne _ _ hck] at hc
          exact hlims c lim' hc

/-- **The first part of `Filter`.** Every cap becomes the smaller of it and
its limit; the transactions stay; and the scan is skipped only when no cap
was above its limit, with every limited currency capped. -/
theorem lowerCaps_spec {nativeCostLimit : Int} {feeLimits : AList fun _ : Address => Int}
    {gasLimit : Nat} {b : Bool} (h : l.lowerCaps nativeCostLimit feeLimits gasLimit = some (b, l')) :
    l'.txs = l.txs ∧ l'.strict = l.strict ∧ l'.nativecostcap = min l.nativecostcap nativeCostLimit ∧
      l'.gascap = min l.gascap gasLimit ∧
      (∀ c cap, l.feecaps.lookup c = some cap →
        l'.feecaps.lookup c = some (match feeLimits.lookup c with
          | some lim => min cap lim
          | none => cap)) ∧
      (b = true → l' = l ∧ l.nativecostcap ≤ nativeCostLimit ∧ l.gascap ≤ gasLimit ∧
        ∀ c lim, feeLimits.lookup c = some lim → ∃ cap, l.feecaps.lookup c = some cap ∧ cap ≤ lim) := by
  unfold lowerCaps at h
  -- the native and the gas caps first, then the loop over the fee limits
  by_cases hn : l.nativecostcap > nativeCostLimit <;> by_cases hg : l.gascap > gasLimit <;>
    simp only [hn, hg, if_true, if_false] at h <;>
    obtain ⟨hfields, hcaps, hbail⟩ := foldlM_lowerFeeCap feeLimits.nodupKeys _ _ _ _ h <;>
    rw [hfields] <;>
    refine ⟨rfl, rfl, by simp; omega, by simp; omega, fun c cap hc => hcaps c cap hc, ?_⟩
  · intro hb
    cases (hbail hb).2.1
  · intro hb
    cases (hbail hb).2.1
  · intro hb
    cases (hbail hb).2.1
  · intro hb
    obtain ⟨heq, -, hlims⟩ := hbail hb
    exact ⟨by rw [← hfields, heq], not_lt.mp hn, not_lt.mp hg, hlims⟩

/-- What passing the test of `Filter` says of a transaction. -/
theorem filterPredicate_eq_some_false {nativeCostLimit : Int}
    {feeLimits : AList fun _ : Address => Int} {gasLimit : Nat}
    (h : filterPredicate ctx nativeCostLimit feeLimits gasLimit tx = some false) :
    tx.gas ≤ gasLimit ∧
      match tx.feeCurrency with
      | none => (tx.cost : Int) ≤ nativeCostLimit
      | some c => (tx.value : Int) ≤ nativeCostLimit ∧
          ∃ lim, feeLimits.lookup c = some lim ∧ ∀ fee, feeInCurrency ctx tx c = some fee → fee < lim := by
  unfold filterPredicate at h
  cases hc : tx.feeCurrency with
  | none =>
    simp only [hc, Option.some.injEq, Bool.or_eq_false_iff, decide_eq_false_iff_not] at h
    exact ⟨by omega, by simp only; omega⟩
  | some c =>
    simp only [hc] at h
    cases hlim : feeLimits.lookup c with
    | none =>
      -- without a limit for the currency the test never passes
      simp only [hlim] at h
      split_ifs at h
      split at h
      · cases h
      · split at h
        · cases h
        · split_ifs at h
          cases h
    | some lim =>
      simp only [hlim] at h
      -- the shared tail: the fee is below the limit
      have htail : ∀ fee : Int, some (decide (fee ≥ lim) || decide ((tx.value : Int) > nativeCostLimit) ||
          decide ((ctx.currencyManager.cmpValues ctx.celoGasPriceMinimumFloor none tx.gasPrice
            tx.denominatedFeeCurrency).1 > 0) || decide (tx.gas > gasLimit)) = some false →
          tx.gas ≤ gasLimit ∧ (tx.value : Int) ≤ nativeCostLimit ∧ fee < lim := by
        intro fee hf
        simp only [Option.some.injEq, Bool.or_eq_false_iff, decide_eq_false_iff_not] at hf
        exact ⟨by omega, by omega, by omega⟩
      unfold feeInCurrency
      split_ifs at h ⊢ with hty
      · cases hconv : ctx.toCurrency tx.fee (some c) with
        | none => simp [hconv] at h
        | some fee =>
          simp only [hconv] at h
          split at h
          · cases h
          · split_ifs at h
            · cases h
            · obtain ⟨hgas, hval, hlt⟩ := htail fee h
              refine ⟨hgas, ?_⟩
              simp only
              refine ⟨hval, lim, hlim, fun fee' hfee' => ?_⟩
              rw [hconv, Option.some.injEq] at hfee'
              exact hfee' ▸ hlt
      · obtain ⟨hgas, hval, hlt⟩ := htail tx.fee h
        refine ⟨hgas, ?_⟩
        simp only
        refine ⟨hval, lim, hlim, fun fee' hfee' => ?_⟩
        rw [Option.some.injEq] at hfee'
        exact hfee' ▸ hlt

/-- `Filter` keeps the caps bounding: they come down to the limits, and what
stays passed the test. -/
theorem bounded_filter (hb : Bounded ctx l) {nativeCostLimit : Int}
    {feeLimits : AList fun _ : Address => Int} {gasLimit : Nat}
    {r : List Transaction × List Transaction × TxList}
    (h : l.filter ctx nativeCostLimit feeLimits gasLimit = some r) : Bounded ctx r.2.2 := by
  unfold filter at h
  obtain ⟨⟨b, l₁⟩, hlow, hrest⟩ := Option.bind_eq_some_iff.mp h
  clear h
  obtain ⟨htxs, -, hnative, hgas, hfee, hbail⟩ := lowerCaps_spec hlow
  cases b with
  | true =>
    -- the early return keeps the list
    obtain ⟨rfl, -⟩ := hbail rfl
    simp only [↓reduceIte, pure, Option.some.injEq] at hrest
    subst hrest
    exact hb
  | false =>
    simp only [Bool.false_eq_true, if_false] at hrest
    -- the scan runs only when the test is defined on every transaction
    by_cases hall : (l₁.txs.entries.all fun e =>
      (filterPredicate ctx nativeCostLimit feeLimits gasLimit e.2).isSome) = true
    swap
    · simp [hall] at hrest
    simp only [hall, if_true] at hrest
    rcases hf : l₁.txs.filter (fun tx =>
      (filterPredicate ctx nativeCostLimit feeLimits gasLimit tx).getD false) with ⟨removed, txs⟩
    -- what the scan keeps fits the lowered caps
    have hkept : Bounded ctx { l₁ with txs := txs } := by
      intro n tx h'
      obtain ⟨hl₁, hpass⟩ := lookup_filter (show (l₁.txs.filter fun tx =>
        (filterPredicate ctx nativeCostLimit feeLimits gasLimit tx).getD false).2.lookup n = some tx
        by rw [hf]; exact h')
      rw [htxs] at hl₁
      have hsome : (filterPredicate ctx nativeCostLimit feeLimits gasLimit tx).isSome := by
        have := List.all_eq_true.mp hall ⟨n, tx⟩ (AList.mem_lookup_iff.mp (htxs ▸ hl₁))
        simpa using this
      have hfalse : filterPredicate ctx nativeCostLimit feeLimits gasLimit tx = some false := by
        obtain ⟨v, hv⟩ := Option.isSome_iff_exists.mp hsome
        rw [hv] at hpass ⊢
        simpa using hpass
      obtain ⟨hgasL, hrestL⟩ := filterPredicate_eq_some_false hfalse
      obtain ⟨hgasC, hrestC⟩ := hb n tx hl₁
      refine ⟨by show tx.gas ≤ l₁.gascap; rw [hgas]; omega, ?_⟩
      show match tx.feeCurrency with
        | none => (tx.cost : Int) ≤ l₁.nativecostcap
        | some c => (tx.value : Int) ≤ l₁.nativecostcap ∧
            ∀ fee, feeInCurrency ctx tx c = some fee → ∃ cap, l₁.feecaps.lookup c = some cap ∧ fee ≤ cap
      cases hc : tx.feeCurrency with
      | none =>
        simp only [hc] at hrestL hrestC ⊢
        rw [hnative]
        exact le_min hrestC hrestL
      | some c =>
        simp only [hc] at hrestL hrestC ⊢
        obtain ⟨hvalL, lim, hlim, hfeeL⟩ := hrestL
        refine ⟨by rw [hnative]; exact le_min hrestC.1 hvalL, fun fee hf => ?_⟩
        obtain ⟨cap, hcap, hfc⟩ := hrestC.2 fee hf
        refine ⟨_, hfee c cap hcap, ?_⟩
        rw [hlim]
        exact le_min hfc (hfeeL fee hf).le
    simp only [hf] at hrest
    split_ifs at hrest
    · simp only [pure, Option.some.injEq] at hrest
      subst hrest
      exact bounded_invalidsAbove hkept _
    · simp only [pure, Option.some.injEq] at hrest
      subst hrest
      exact hkept

/-- **The fast path of `Filter`.** When it returns early, the caps it kept
show every transaction within the limits the caps stand for: its gas, and
its native cost, or its value and its fee in its currency (not above the
limit, where the test removes a fee equal to it). -/
theorem lowerCaps_bail_bounds (hb : Bounded ctx l) {nativeCostLimit : Int}
    {feeLimits : AList fun _ : Address => Int} {gasLimit : Nat}
    (h : l.lowerCaps nativeCostLimit feeLimits gasLimit = some (true, l')) :
    l' = l ∧ ∀ n tx, l.txs.lookup n = some tx →
      tx.gas ≤ gasLimit ∧
        match tx.feeCurrency with
        | none => (tx.cost : Int) ≤ nativeCostLimit
        | some c => (tx.value : Int) ≤ nativeCostLimit ∧
            ∀ fee lim, feeInCurrency ctx tx c = some fee → feeLimits.lookup c = some lim → fee ≤ lim := by
  obtain ⟨-, -, -, -, -, hbail⟩ := lowerCaps_spec h
  obtain ⟨heq, hnative, hgas, hlims⟩ := hbail rfl
  refine ⟨heq, fun n tx hl => ?_⟩
  obtain ⟨hgasC, hrest⟩ := hb n tx hl
  refine ⟨hgasC.trans hgas, ?_⟩
  cases hc : tx.feeCurrency with
  | none =>
    simp only [hc] at hrest ⊢
    exact hrest.trans hnative
  | some c =>
    simp only [hc] at hrest ⊢
    refine ⟨hrest.1.trans hnative, fun fee lim hf hlim => ?_⟩
    obtain ⟨cap, hcap, hfc⟩ := hrest.2 fee hf
    obtain ⟨cap', hcap', hcl⟩ := hlims c lim hlim
    rw [hcap, Option.some.injEq] at hcap'
    subst hcap'
    exact hfc.trans hcl

/-! ## Runs -/

/-- The calls made under the context `ctx`, adding only transactions whose
fee converts. -/
def Op.Admissible (ctx : TxPoolContext) : Op → Prop
  | .add ctx' tx _ => ctx' = ctx ∧ ¬RateFails ctx tx
  | .filter ctx' _ _ _ => ctx' = ctx
  | _ => True

/-- **Step lemma.** Every admissible call keeps the caps bounding. -/
theorem bounded_step (hb : Bounded ctx l) {op : Op} (hop : op.Admissible ctx) :
    ∀ l' ∈ step (some l) op, Bounded ctx l' := by
  intro l' hl'
  cases op with
  | add ctx' tx priceBump =>
    obtain ⟨rfl, hr⟩ := hop
    cases hl'
    exact bounded_add hb hr priceBump
  | forward threshold =>
    cases hl'
    exact bounded_forward hb threshold
  | filter ctx' nativeCostLimit feeLimits gasLimit =>
    subst hop
    obtain ⟨r, hr, rfl⟩ := Option.map_eq_some_iff.mp hl'
    exact bounded_filter hb hr
  | filterOnGasLimit gasLimit =>
    cases hl'
    exact bounded_filterOnGasLimit hb gasLimit
  | cap threshold =>
    cases hl'
    exact bounded_cap hb threshold
  | remove tx =>
    cases hl'
    exact bounded_remove hb tx
  | ready start =>
    cases hl'
    exact bounded_ready hb start

/-- **Run lemma.** From a new list, every run of admissible calls keeps the
caps bounding every transaction. -/
theorem bounded_run (strict : Bool) (ops : List Op) (hops : ∀ op ∈ ops, op.Admissible ctx) :
    ∀ l ∈ Run.run step (some (new strict)) ops, Bounded ctx l := by
  refine Run.run_invariant_of_forall step (fun s => ∀ l ∈ s, Bounded ctx l) (Op.Admissible ctx)
    ?_ ops (some (new strict)) hops ?_
  · intro s op hop hs l' hl'
    cases s with
    | none => cases hl'
    | some l => exact bounded_step (hs l rfl) hop l' hl'
  · intro l hl
    cases hl
    intro n tx h
    cases h

/-! ## The defects -/

/-- A pool context that can fetch no rate, with no gas price floor. -/
def noRates : TxPoolContext := ⟨newManager fun _ => none, 0⟩

/-- A transaction paying in token 1: a fee of 1000. -/
def tokenTx : Transaction :=
  ⟨.celoDynamicFeeV2, true, 0, 100, 10, 10, 1, 0, some 1, none, none, none, false⟩

theorem not_rateFails_tokenTx : ¬RateFails noRates tokenTx := by
  rintro ⟨c, hc, hfee⟩
  simp [tokenTx, feeInCurrency] at hc hfee

/-- The transaction after `tokenTx`. -/
def nextTokenTx : Transaction :=
  ⟨.celoDynamicFeeV2, true, 1, 100, 10, 10, 1, 0, some 1, none, none, none, false⟩

theorem not_rateFails_nextTokenTx : ¬RateFails noRates nextTokenTx := by
  rintro ⟨c, hc, hfee⟩
  simp [nextTokenTx, feeInCurrency] at hc hfee

/-- Two additions; `Cap` keeps the lower nonce, and `FilterOnGasLimit` keeps
it too. -/
def tokenOps : List Op :=
  [.add noRates tokenTx 10, .add noRates nextTokenTx 10, .cap 1, .filterOnGasLimit 1000]

theorem bounded_run_tokenOps :
    (∀ op ∈ tokenOps, op.Admissible noRates) ∧
      (Run.run step (some (new true)) tokenOps).bind (fun l => l.txs.get 0) = some tokenTx ∧
      ∀ l ∈ Run.run step (some (new true)) tokenOps, Bounded noRates l := by
  have hops : ∀ op ∈ tokenOps, op.Admissible noRates := by
    simp [tokenOps, Op.Admissible, not_rateFails_tokenTx, not_rateFails_nextTokenTx]
  have hstored : (Run.run step (some (new true)) tokenOps).bind (fun l => l.txs.get 0) =
      some tokenTx := by
    decide
  exact ⟨hops, hstored, bounded_run true tokenOps hops⟩

/-- A CELO-denominated transaction paying in token 1. -/
def denominatedTx : Transaction :=
  ⟨.celoDenominated, true, 0, 100, 10, 10, 1, 0, some 1, some 2000, none, none, false⟩

/-- A balance of 1000 in token 1. -/
def tokenLimits : AList fun _ : Address => Int :=
  List.toAList ([⟨1, 1000⟩] : List (Sigma fun _ : Address => Int))

/-- `Add` of `denominatedTx` to a new list when no rate can be read. -/
def deniedAdd : Bool × Option Transaction × TxList := (new true).add noRates denominatedTx 10

/-- A new list after `Add` of `tokenTx`. -/
def tokenList : TxList := ((new true).add noRates tokenTx 10).2.2

/-- **The caps do not make the fast path sound.** `Add` reports the
CELO-denominated transaction rejected when its rate cannot be read, but it is
in the list, above the gas cap. And on a list holding one transaction with a
fee of 1000, `Filter` with a balance of 1000 there returns early, though its
test removes that transaction. -/
theorem add_and_filter_break_caps :
    deniedAdd.1 = false ∧ deniedAdd.2.2.txs.get denominatedTx.nonce = some denominatedTx ∧
      deniedAdd.2.2.gascap < denominatedTx.gas ∧
      tokenList.feeCurrencies = [1] ∧ tokenList.txs.get tokenTx.nonce = some tokenTx ∧
      (tokenList.lowerCaps 1000000 tokenLimits 1000000).map Prod.fst = some true ∧
      (tokenList.filter noRates 1000000 tokenLimits 1000000).map (fun r => (r.1, r.2.1)) =
        some ([], []) ∧
      filterPredicate noRates 1000000 tokenLimits 1000000 tokenTx = some true := by
  decide

end TxList

end CeloBlockchain.Core
