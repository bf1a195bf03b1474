import CeloBlockchain.Core.TxsByPrice

/-!
# An account's transactions in the pool

This module models `txSortedMap` and `txList` (`core/tx_list.go`): `Get`,
`Put`, `Forward`, `Filter`, `Cap`, `Remove` and `Ready` of the sorted map,
and `Add`, `Forward`, `Filter`, `FilterOnGasLimit`, `Cap`, `Remove`, `Ready`
and `FeeCurrencies` of the list, with the currency conversions `toCurrency`
and `toCELO` and the `Cost` and `Fee` of a transaction
(`core/types/transaction.go`).

A sorted map is a Go map from nonce to transaction (`AList`). Its heap of
nonces and its sorted cache only order the transactions; they are left out,
and `byNonce` sorts the entries where the code pops the heap.

A list keeps caps so that `Filter` can skip the scan: the highest native cost
(or value), the highest fee in each fee currency and the highest gas of the
transactions `Add` put in. `Filter` lowers them to the limits it is given.
The pool context is the currency manager and the gas price floor of the
moment; the manager's cache is not kept across calls. A panic (`Cmp` on a
`nil` amount) is `none`.
-/

namespace CeloBlockchain.Core

/-- `Transaction.Cost`: gas price times gas, plus the value and the gateway fee. -/
def Transaction.cost (tx : Transaction) : Nat := tx.gasPrice * tx.gas + tx.value + tx.gatewayFee.getD 0

/-- `Transaction.Fee`: gas price times gas, plus the gateway fee. -/
def Transaction.fee (tx : Transaction) : Nat := tx.gasPrice * tx.gas + tx.gatewayFee.getD 0

/-- `txPoolContext`: the currency manager and the floor of the gas price. -/
structure TxPoolContext where
  currencyManager : CurrencyManager
  celoGasPriceMinimumFloor : Nat

namespace TxPoolContext

/-- `toCurrency`: an amount of CELO in the fee currency. -/
def toCurrency (ctx : TxPoolContext) (celoAmount : Int) : Option Address → Option Int
  | none => some celoAmount
  | some feeCurrency =>
    (ctx.currencyManager.getCurrency (some feeCurrency)).1.map fun c => c.fromCELO celoAmount

/-- `toCELO`: an amount in the fee currency, in CELO. -/
def toCELO (ctx : TxPoolContext) (amount : Int) : Option Address → Option Int
  | none => some amount
  | some feeCurrency =>
    (ctx.currencyManager.getCurrency (some feeCurrency)).1.map fun c => c.toCELO amount

end TxPoolContext

/-! ## The sorted map -/

/-- `txSortedMap`: the transactions by nonce. -/
abbrev TxSortedMap := AList fun _ : Nat => Transaction

namespace TxSortedMap

/-- `Get`. -/
def get (m : TxSortedMap) (nonce : Nat) : Option Transaction := m.lookup nonce

/-- `Put`: the transaction under its nonce, over any it replaces. -/
def put (m : TxSortedMap) (tx : Transaction) : TxSortedMap := m.insert tx.nonce tx

/-- The entries in the order of the heap of nonces: the lowest first. -/
def byNonce (m : TxSortedMap) : List (Sigma fun _ : Nat => Transaction) :=
  m.entries.insertionSort fun a b => a.1 ≤ b.1

/-- `delete(m.items, nonce)` for each entry taken out. -/
def deleteAll (m : TxSortedMap) (removed : List (Sigma fun _ : Nat => Transaction)) : TxSortedMap :=
  removed.foldl (fun m e => m.erase e.1) m

/-- `Forward`: the transactions below the threshold, by nonce. -/
def forward (m : TxSortedMap) (threshold : Nat) : List Transaction × TxSortedMap :=
  let removed := m.byNonce.takeWhile fun e => e.1 < threshold
  (removed.map (·.2), m.deleteAll removed)

/-- `Filter`: the transactions the test picks, in the map's order. -/
def filter (m : TxSortedMap) (p : Transaction → Bool) : List Transaction × TxSortedMap :=
  let removed := m.entries.filter fun e => p e.2
  (removed.map (·.2), m.deleteAll removed)

/-- `Cap`: the transactions above the first `threshold` by nonce, the
highest first. -/
def cap (m : TxSortedMap) (threshold : Nat) : List Transaction × TxSortedMap :=
  if m.entries.length ≤ threshold then ([], m)
  else
    let drops := (m.byNonce.drop threshold).reverse
    (drops.map (·.2), m.deleteAll drops)

/-- `Remove`. -/
def remove (m : TxSortedMap) (nonce : Nat) : Bool × TxSortedMap :=
  match m.lookup nonce with
  | none => (false, m)
  | some _ => (true, m.erase nonce)

/-- The entries of a nonce-sorted list that follow `next` without a gap. -/
def consecutive : Nat → List (Sigma fun _ : Nat => Transaction) →
    List (Sigma fun _ : Nat => Transaction)
  | _, [] => []
  | next, e :: rest => if e.1 = next then e :: consecutive (next + 1) rest else []

/-- `Ready`: from the lowest nonce, when it is not above `start`, the
transactions without a gap. -/
def ready (m : TxSortedMap) (start : Nat) : List Transaction × TxSortedMap :=
  match m.byNonce with
  | [] => ([], m)
  | first :: _ =>
    if first.1 > start then ([], m)
    else
      let ready := consecutive first.1 m.byNonce
      (ready.map (·.2), m.deleteAll ready)

end TxSortedMap

/-! ## The list and its caps -/

/-- `txList`. -/
structure TxList where
  strict : Bool
  txs : TxSortedMap
  nativecostcap : Int
  feecaps : AList fun _ : Address => Int
  gascap : Nat

namespace TxList

/-- `newTxList`: nothing in it, every cap zero. -/
def new (strict : Bool) : TxList := ⟨strict, ∅, 0, ∅, 0⟩

/-- `FeeCurrencies`: the currencies with a fee cap. -/
def feeCurrencies (l : TxList) : List Address := l.feecaps.keys

/-- `Overlaps`. -/
def overlaps (l : TxList) (tx : Transaction) : Bool := (l.txs.get tx.nonce).isSome

/-- The fee caps and tip caps `Add` compares a replacement on: the raw caps
when both are denominated in one currency (none when the old one is not
below on both), else both converted to CELO (none when a rate fails). -/
def replacementCaps (ctx : TxPoolContext) (old tx : Transaction) : Option (Int × Int × Int × Int) :=
  if old.denominatedFeeCurrency = tx.denominatedFeeCurrency then
    if old.gasFeeCapCmp tx ≥ 0 || old.gasTipCapCmp tx ≥ 0 then none
    else some (old.gasFeeCap, old.gasTipCap, tx.gasFeeCap, tx.gasTipCap)
  else do
    let oldGasFeeCap ← ctx.toCELO old.gasFeeCap old.denominatedFeeCurrency
    let oldGasTipCap ← ctx.toCELO old.gasTipCap old.denominatedFeeCurrency
    let newGasFeeCap ← ctx.toCELO tx.gasFeeCap tx.denominatedFeeCurrency
    let newGasTipCap ← ctx.toCELO tx.gasTipCap tx.denominatedFeeCurrency
    pure (oldGasFeeCap, oldGasTipCap, newGasFeeCap, newGasTipCap)

/-- The fee of a transaction in its fee currency, as `Add` and `Filter`
compute it: `Fee`, converted from CELO for a CELO-denominated one. -/
def feeInCurrency (ctx : TxPoolContext) (tx : Transaction) (feeCurrency : Address) : Option Int :=
  if tx.txType = .celoDenominated then ctx.toCurrency tx.fee (some feeCurrency) else some tx.fee

/-- The end of `Add`: `Put`, then the caps raised. A CELO-denominated fee is
converted to its fee currency first; when the rate fails, `Add` reports the
transaction rejected, though `Put` has already stored it. -/
def putAndRaise (l : TxList) (ctx : TxPoolContext) (tx : Transaction) : Bool × TxList :=
  let l := { l with txs := l.txs.put tx }
  let raiseGas (l : TxList) : TxList := { l with gascap := max l.gascap tx.gas }
  match tx.feeCurrency with
  | none => (true, raiseGas { l with nativecostcap := max l.nativecostcap tx.cost })
  | some feeCurrency =>
    match feeInCurrency ctx tx feeCurrency with
    | none => (false, l)
    | some fee =>
      let feecap := match l.feecaps.lookup feeCurrency with
        | some oldFee => max oldFee fee
        | none => fee
      (true, raiseGas { l with feecaps := l.feecaps.insert feeCurrency feecap,
                               nativecostcap := max l.nativecostcap tx.value })

/-- `Add`: whether the transaction was accepted, the one it replaced, and the
list. A replacement must raise both caps by `priceBump` percent. -/
def add (l : TxList) (ctx : TxPoolContext) (tx : Transaction) (priceBump : Nat) :
    Bool × Option Transaction × TxList :=
  match l.txs.get tx.nonce with
  | none =>
    let (accepted, l) := l.putAndRaise ctx tx
    (accepted, none, l)
  | some old =>
    match replacementCaps ctx old tx with
    | none => (false, none, l)
    | some (oldGasFeeCap, oldGasTipCap, newGasFeeCap, newGasTipCap) =>
      let a : Int := 100 + priceBump
      let thresholdFeeCap := a * oldGasFeeCap / 100
      let thresholdTip := a * oldGasTipCap / 100
      if newGasFeeCap < thresholdFeeCap || newGasTipCap < thresholdTip then (false, none, l)
      else
        let (accepted, l) := l.putAndRaise ctx tx
        if accepted then (true, some old, l) else (false, none, l)

/-- `Forward`. -/
def forward (l : TxList) (threshold : Nat) : List Transaction × TxList :=
  let (removed, txs) := l.txs.forward threshold
  (removed, { l with txs := txs })

/-- One fee limit of `Filter`: a cap above it is lowered to it. A currency
without a cap panics in `Cmp`. -/
def lowerFeeCap (acc : Bool × TxList) (e : Sigma fun _ : Address => Int) : Option (Bool × TxList) :=
  match acc.2.feecaps.lookup e.1 with
  | none => none
  | some feecap =>
    if feecap > e.2 then some (false, { acc.2 with feecaps := acc.2.feecaps.insert e.1 e.2 })
    else some acc

/-- The first part of `Filter`: every cap above its limit is lowered to it,
and the scan can be skipped (`canBail`) when none was. -/
def lowerCaps (l : TxList) (nativeCostLimit : Int) (feeLimits : AList fun _ : Address => Int)
    (gasLimit : Nat) : Option (Bool × TxList) :=
  let (canBail, l) :=
    if l.nativecostcap > nativeCostLimit then (false, { l with nativecostcap := nativeCostLimit })
    else (true, l)
  let (canBail, l) :=
    if l.gascap > gasLimit then (false, { l with gascap := gasLimit }) else (canBail, l)
  feeLimits.entries.foldlM lowerFeeCap (canBail, l)

/-- The test of `Filter`: whether a transaction is to be removed. A native
one costs more than the balance, needs more gas than the limit or prices its
gas below the floor. One paying in a fee currency has a fee not below its
balance there, a value above the native balance, a gas price below the floor
or too much gas; a CELO-denominated one is also removed when its fee cannot
be converted or exceeds `MaxFeeInFeeCurrency`. `Cmp` on a missing limit
panics. -/
def filterPredicate (ctx : TxPoolContext) (nativeCostLimit : Int)
    (feeLimits : AList fun _ : Address => Int) (gasLimit : Nat) (tx : Transaction) : Option Bool :=
  match tx.feeCurrency with
  | none =>
    some (decide ((tx.cost : Int) > nativeCostLimit) || decide (tx.gas > gasLimit) ||
      decide (ctx.celoGasPriceMinimumFloor > tx.gasPrice))
  | some feeCurrency =>
    let feeLimit := feeLimits.lookup feeCurrency
    let invalid (fee : Int) : Option Bool :=
      match feeLimit with
      | none => none
      | some feeLimit =>
        some (decide (fee ≥ feeLimit) || decide ((tx.value : Int) > nativeCostLimit) ||
          decide ((ctx.currencyManager.cmpValues ctx.celoGasPriceMinimumFloor none tx.gasPrice
            tx.denominatedFeeCurrency).1 > 0) || decide (tx.gas > gasLimit))
    if tx.txType = .celoDenominated then
      match ctx.toCurrency tx.fee (some feeCurrency) with
      | none => some true
      | some fee =>
        match tx.maxFeeInFeeCurrency with
        | none => none
        | some maxFee => if fee > maxFee then some true else invalid fee
    else invalid tx.fee

/-- `lowest` of the removed transactions' nonces, from `math.MaxUint64`. -/
def lowestNonce (removed : List Transaction) : Nat :=
  removed.foldl (fun lowest tx => if lowest > tx.nonce then tx.nonce else lowest) (2 ^ 64 - 1)

/-- The strict-mode tail of `Filter`, `FilterOnGasLimit` and `Remove`: the
transactions above a nonce. -/
def invalidsAbove (l : TxList) (nonce : Nat) : List Transaction × TxList :=
  let (invalids, txs) := l.txs.filter fun tx => tx.nonce > nonce
  (invalids, { l with txs := txs })

/-- `Filter`: the removed transactions and, in strict mode, those above the
lowest removed nonce. -/
def filter (l : TxList) (ctx : TxPoolContext) (nativeCostLimit : Int)
    (feeLimits : AList fun _ : Address => Int) (gasLimit : Nat) :
    Option (List Transaction × List Transaction × TxList) := do
  let (canBail, l) ← l.lowerCaps nativeCostLimit feeLimits gasLimit
  if canBail then pure ([], [], l)
  else
    let test := filterPredicate ctx nativeCostLimit feeLimits gasLimit
    -- a panic on any transaction aborts the scan, whatever the map's order
    if (l.txs.entries.all fun e => (test e.2).isSome) then
      let (removed, txs) := l.txs.filter fun tx => (test tx).getD false
      let l := { l with txs := txs }
      if l.strict && !removed.isEmpty then
        let (invalids, l) := l.invalidsAbove (lowestNonce removed)
        pure (removed, invalids, l)
      else pure (removed, [], l)
    else none

/-- `FilterOnGasLimit`. -/
def filterOnGasLimit (l : TxList) (gasLimit : Nat) : List Transaction × List Transaction × TxList :=
  if l.gascap ≤ gasLimit then ([], [], l)
  else
    let l := { l with gascap := gasLimit }
    let (removed, txs) := l.txs.filter fun tx => tx.gas > gasLimit
    let l := { l with txs := txs }
    if removed.isEmpty then ([], [], l)
    else if l.strict then
      let (invalids, l) := l.invalidsAbove (lowestNonce removed)
      (removed, invalids, l)
    else (removed, [], l)

/-- `Cap`. -/
def cap (l : TxList) (threshold : Nat) : List Transaction × TxList :=
  let (drops, txs) := l.txs.cap threshold
  (drops, { l with txs := txs })

/-- `Remove`: whether the nonce was there, and in strict mode the
transactions above it. -/
def remove (l : TxList) (tx : Transaction) : Bool × List Transaction × TxList :=
  let (removed, txs) := l.txs.remove tx.nonce
  let l := { l with txs := txs }
  if !removed then (false, [], l)
  else if l.strict then
    let (invalids, l) := l.invalidsAbove tx.nonce
    (true, invalids, l)
  else (true, [], l)

/-- `Ready`. -/
def ready (l : TxList) (start : Nat) : List Transaction × TxList :=
  let (ready, txs) := l.txs.ready start
  (ready, { l with txs := txs })

/-- The calls the pool makes on a list, each with its own context. -/
inductive Op
  | add (ctx : TxPoolContext) (tx : Transaction) (priceBump : Nat)
  | forward (threshold : Nat)
  | filter (ctx : TxPoolContext) (nativeCostLimit : Int) (feeLimits : AList fun _ : Address => Int)
      (gasLimit : Nat)
  | filterOnGasLimit (gasLimit : Nat)
  | cap (threshold : Nat)
  | remove (tx : Transaction)
  | ready (start : Nat)

/-- One call on a list that has not panicked. -/
def step : Option TxList → Op → Option TxList
  | none, _ => none
  | some l, .add ctx tx priceBump => some (l.add ctx tx priceBump).2.2
  | some l, .forward threshold => some (l.forward threshold).2
  | some l, .filter ctx nativeCostLimit feeLimits gasLimit =>
    (l.filter ctx nativeCostLimit feeLimits gasLimit).map fun r => r.2.2
  | some l, .filterOnGasLimit gasLimit => some (l.filterOnGasLimit gasLimit).2.2
  | some l, .cap threshold => some (l.cap threshold).2
  | some l, .remove tx => some (l.remove tx).2.2
  | some l, .ready start => some (l.ready start).2

end TxList

end CeloBlockchain.Core
