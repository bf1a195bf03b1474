import Mathlib.Data.Prod.Lex
import CeloBlockchain.Core.StateTransition
import CeloBlockchain.Lib.PopOrder
import CeloBlockchain.Lib.AssocMap

/-!
# The multi-currency price heap

`core/tx_multicurrency_priceheap.go` with the `priceHeap` of
`core/tx_list.go`, and the comparisons of `core/types/transaction.go` they
use. The transaction pool's priced list keeps two of these heaps, `urgent`
and `floating`, of the remote transactions. It evicts the cheapest one.

A `priceHeap` holds the transactions of one fee currency, ordered by `Less`
under its own base fee. A binary heap built by `container/heap` pops its
elements in `Less` order. It is held here as the list of its elements in that
order (`PriceHeap.list`, sorted by `PriceHeap.popKey`). The layout of the
array is left out. Where `Less` does not separate two transactions, the
order between them is left open, and nothing below depends on it.

The currency heaps are a Go map (`AList`), iterated in the order of its
entries. A base fee is `Option Nat`: `nil` is `none`. `getHeapFor` creates an
empty heap for a new currency, with the currency's gas price minimum. Called
from `IsCheaper`, such a heap is empty and gets the base fee that a later
`Push` would give it, so the model reads the base fee without keeping the
empty heap.
-/

namespace CeloBlockchain.Core

/-! ## Fee comparisons of one currency -/

/-- `EffectiveGasTipValue`: the tip cap, or with a base fee the smaller of
the tip cap and what the fee cap leaves above the base fee, which is negative
when the fee cap is below it. -/
def Transaction.effectiveGasTipValue (tx : Transaction) : Option Nat → Int
  | none => tx.gasTipCap
  | some baseFee => min (tx.gasTipCap : Int) (tx.gasFeeCap - baseFee)

/-- `GasFeeCapCmp`. -/
def Transaction.gasFeeCapCmp (tx other : Transaction) : Int :=
  bigCmp tx.gasFeeCap other.gasFeeCap

/-- `GasTipCapCmp`. -/
def Transaction.gasTipCapCmp (tx other : Transaction) : Int :=
  bigCmp tx.gasTipCap other.gasTipCap

/-- `EffectiveGasTipCmp`. -/
def Transaction.effectiveGasTipCmp (tx other : Transaction) : Option Nat → Int
  | none => tx.gasTipCapCmp other
  | some baseFee =>
    bigCmp (tx.effectiveGasTipValue (some baseFee)) (other.effectiveGasTipValue (some baseFee))

/-- Go's `if c := first; c != 0 { return c }; return next`. -/
def cmpThen (first next : Int) : Int := if first ≠ 0 then first else next

/-! ## Comparisons across currencies -/

/-- `CurrencyCmpFn`: compares two amounts, each in its own fee currency. The
pool passes `CurrencyManager.CmpValues`. -/
abbrev CurrencyCmpFn := Int → Option Address → Int → Option Address → Int

namespace CurrencyCmpFn

/-- `GasTipCapCmp`. -/
def gasTipCapCmp (cc : CurrencyCmpFn) (tx other : Transaction) : Int :=
  cc tx.gasTipCap tx.feeCurrency other.gasTipCap other.feeCurrency

/-- `EffectiveGasTipCmp`: each effective tip under its own base fee. -/
def effectiveGasTipCmp (cc : CurrencyCmpFn) (tx other : Transaction)
    (baseFeeA baseFeeB : Option Nat) : Int :=
  cc (tx.effectiveGasTipValue baseFeeA) tx.feeCurrency (other.effectiveGasTipValue baseFeeB)
    other.feeCurrency

/-- `GasFeeCapCmp`. -/
def gasFeeCapCmp (cc : CurrencyCmpFn) (a b : Transaction) : Int :=
  cc a.gasFeeCap a.feeCurrency b.gasFeeCap b.feeCurrency

/-- `Cmp`: the effective tips when both base fees are set, then the fee
caps, then the tip caps. -/
def cmp (cc : CurrencyCmpFn) (a b : Transaction) (baseFeeA baseFeeB : Option Nat) : Int :=
  let tips := if baseFeeA.isSome && baseFeeB.isSome then
    cc.effectiveGasTipCmp a b baseFeeA baseFeeB else 0
  cmpThen tips (cmpThen (cc.gasFeeCapCmp a b) (cc.gasTipCapCmp a b))

end CurrencyCmpFn

/-! ## One currency's heap -/

/-- `priceHeap`. -/
structure PriceHeap where
  baseFee : Option Nat
  list : List Transaction
  deriving DecidableEq, Repr

namespace PriceHeap

/-- `priceHeap.cmp`: the effective tips when there is a base fee, then the
fee caps, then the tip caps. -/
def cmp (h : PriceHeap) (a b : Transaction) : Int :=
  let tips := match h.baseFee with
    | some _ => a.effectiveGasTipCmp b h.baseFee
    | none => 0
  cmpThen tips (cmpThen (a.gasFeeCapCmp b) (a.gasTipCapCmp b))

/-- `priceHeap.Less`: cheaper, or as cheap with a higher nonce. -/
def less (h : PriceHeap) (a b : Transaction) : Bool :=
  if h.cmp a b = -1 then true
  else if h.cmp a b = 1 then false
  else b.nonce < a.nonce

/-- The order of `Less` as a key: `Less a b` exactly when the key of `a` is
below that of `b` (`less_iff_key_lt`). The effective tip counts only under a
base fee, and the nonce counts reversed. -/
def key (h : PriceHeap) (tx : Transaction) : Int ×ₗ Int ×ₗ Int ×ₗ Int :=
  toLex ((match h.baseFee with
    | some _ => tx.effectiveGasTipValue h.baseFee
    | none => 0), toLex ((tx.gasFeeCap : Int), toLex ((tx.gasTipCap : Int), -(tx.nonce : Int))))

/-- The pop order of a min-heap: the smallest key first. -/
def popKey (h : PriceHeap) (tx : Transaction) : (Int ×ₗ Int ×ₗ Int ×ₗ Int)ᵒᵈ :=
  OrderDual.toDual (h.key tx)

/-- `heap.Push`. -/
def push (h : PriceHeap) (tx : Transaction) : PriceHeap :=
  { h with list := PopOrder.push h.popKey tx h.list }

/-- `heap.Pop`: the first element in pop order, if any. -/
def pop (h : PriceHeap) : Option Transaction × PriceHeap :=
  match h.list with
  | [] => (none, h)
  | tx :: rest => (some tx, { h with list := rest })

/-- `append(ph.list, tx)`, which leaves the heap to be re-sorted. -/
def add (h : PriceHeap) (tx : Transaction) : PriceHeap := { h with list := h.list ++ [tx] }

/-- `heap.Init`. -/
def init (h : PriceHeap) : PriceHeap :=
  { h with list := h.list.insertionSort (PopOrder.Before h.popKey) }

end PriceHeap

/-! ## The multi-currency heap -/

/-- `multiCurrencyPriceHeap`. -/
structure MultiCurrencyPriceHeap where
  currencyCmp : CurrencyCmpFn
  gpm : GasPriceMinimums
  currencyHeaps : AList fun _ : Address => PriceHeap
  nativeCurrencyHeap : PriceHeap

/-- `GetNativeGPM`. -/
def GasPriceMinimums.getNativeGPM (gpm : GasPriceMinimums) : Nat :=
  gpm.valOrDefault zeroAddress

/-- The heap `getHeapFor` picks: the native heap (`none`) for a transaction
that pays in CELO or is denominated in CELO, else the heap of its fee
currency. -/
def heapKey (tx : Transaction) : Option Address :=
  match tx.feeCurrency with
  | none => none
  | some fc => if tx.txType = .celoDenominated then none else some fc

namespace MultiCurrencyPriceHeap

/-- `newMultiCurrencyPriceHeap`: no base fee on the native heap. -/
def new (currencyCmp : CurrencyCmpFn) (gpm : GasPriceMinimums) : MultiCurrencyPriceHeap :=
  ⟨currencyCmp, gpm, ∅, ⟨none, []⟩⟩

/-- The heap under a key: the native heap, a currency's heap, or the empty
heap that `getHeapFor` would create for it. -/
def heapAt (h : MultiCurrencyPriceHeap) : Option Address → PriceHeap
  | none => h.nativeCurrencyHeap
  | some fc => (h.currencyHeaps.lookup fc).getD ⟨some (h.gpm.getGasPriceMinimum (some fc)), []⟩

/-- Writing a heap back under its key. -/
def setHeap (h : MultiCurrencyPriceHeap) : Option Address → PriceHeap → MultiCurrencyPriceHeap
  | none, ph => { h with nativeCurrencyHeap := ph }
  | some fc, ph => { h with currencyHeaps := h.currencyHeaps.insert fc ph }

/-- `getHeapFor`. -/
def getHeapFor (h : MultiCurrencyPriceHeap) (tx : Transaction) : PriceHeap :=
  h.heapAt (heapKey tx)

/-- `Add`. -/
def add (h : MultiCurrencyPriceHeap) (tx : Transaction) : MultiCurrencyPriceHeap :=
  h.setHeap (heapKey tx) ((h.getHeapFor tx).add tx)

/-- `Push`. -/
def push (h : MultiCurrencyPriceHeap) (tx : Transaction) : MultiCurrencyPriceHeap :=
  h.setHeap (heapKey tx) ((h.getHeapFor tx).push tx)

/-- `cheapestTxs`: the first element of each heap, the native heap first. -/
def cheapestTxs (h : MultiCurrencyPriceHeap) : List Transaction :=
  h.nativeCurrencyHeap.list.head?.toList ++ h.currencyHeaps.entries.filterMap fun e => e.2.list.head?

/-- `IsCheaper`: each transaction under the base fee of its own heap. -/
def isCheaper (h : MultiCurrencyPriceHeap) (tx1 tx2 : Transaction) : Bool :=
  decide (h.currencyCmp.cmp tx1 tx2 (h.getHeapFor tx1).baseFee (h.getHeapFor tx2).baseFee ≤ 0)

/-- `cheapestTx`: the loop over `cheapestTxs` keeping the last one cheaper than
what it keeps. -/
def cheapestTx (h : MultiCurrencyPriceHeap) : Option Transaction :=
  PopOrder.selectMin h.isCheaper h.cheapestTxs

/-- `Pop`: the cheapest of the heads, popped from its heap. -/
def pop (h : MultiCurrencyPriceHeap) : Option Transaction × MultiCurrencyPriceHeap :=
  match h.cheapestTx with
  | none => (none, h)
  | some cheapestTx =>
    let (tx, ph) := (h.getHeapFor cheapestTx).pop
    (tx, h.setHeap (heapKey cheapestTx) ph)

/-- The transactions of every heap, the native heap first. -/
def contents (h : MultiCurrencyPriceHeap) : List Transaction :=
  h.nativeCurrencyHeap.list ++ h.currencyHeaps.entries.flatMap fun e => e.2.list

/-- `Len`. -/
def len (h : MultiCurrencyPriceHeap) : Nat :=
  h.nativeCurrencyHeap.list.length + (h.currencyHeaps.entries.map fun e => e.2.list.length).sum

/-- `Init`. -/
def init (h : MultiCurrencyPriceHeap) : MultiCurrencyPriceHeap :=
  { h with
    nativeCurrencyHeap := h.nativeCurrencyHeap.init
    currencyHeaps := AssocMap.mapVal (fun _ ph => ph.init) h.currencyHeaps }

/-- `Clear`: every heap emptied, its base fee kept. -/
def clear (h : MultiCurrencyPriceHeap) : MultiCurrencyPriceHeap :=
  { h with
    nativeCurrencyHeap := { h.nativeCurrencyHeap with list := [] }
    currencyHeaps := AssocMap.mapVal (fun _ ph => { ph with list := [] }) h.currencyHeaps }

/-- `UpdateFeesAndCurrencies`: the new comparison and minimums, and every heap
given its currency's gas price minimum as base fee. -/
def updateFeesAndCurrencies (h : MultiCurrencyPriceHeap) (currencyCmpFn : CurrencyCmpFn)
    (gpm : GasPriceMinimums) : MultiCurrencyPriceHeap :=
  { currencyCmp := currencyCmpFn
    gpm := gpm
    nativeCurrencyHeap := { h.nativeCurrencyHeap with baseFee := some gpm.getNativeGPM }
    currencyHeaps := AssocMap.mapVal
      (fun currencyAddr ph => { ph with baseFee := some (gpm.getGasPriceMinimum (some currencyAddr)) })
      h.currencyHeaps }

/-! ## Runs -/

/-- What the priced list (`txPricedList`) does to one of its heaps: `Put` and
`Discard` push and `Discard` pops; `Reheap` clears, then adds and initialises;
`SetBaseFee` gives the urgent heap new fees, which its `Reheap` initialises. -/
inductive Op where
  | push (tx : Transaction)
  | addAll (txs : List Transaction)
  | pop
  | clear
  | updateFees (currencyCmpFn : CurrencyCmpFn) (gpm : GasPriceMinimums)

/-- One operation. Additions and new fees are followed by `Init`. -/
def step (h : MultiCurrencyPriceHeap) : Op → MultiCurrencyPriceHeap
  | .push tx => h.push tx
  | .addAll txs => (txs.foldl add h).init
  | .pop => h.pop.2
  | .clear => h.clear
  | .updateFees currencyCmpFn gpm => (h.updateFeesAndCurrencies currencyCmpFn gpm).init

end MultiCurrencyPriceHeap

end CeloBlockchain.Core
