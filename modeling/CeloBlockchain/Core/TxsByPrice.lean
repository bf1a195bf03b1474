import CeloBlockchain.Core.PriceHeap

/-!
# Transactions in the order a miner packs them

This module models `TxWithMinerFee`, `NewTxWithMinerFee`, `TxByPriceAndTime`
and `TransactionsByPriceAndNonce` with `NewTransactionsByPriceAndNonce`,
`Peek`, `Shift` and `Pop` (`core/types/transaction.go`). It also models the
conversion functions that `createConversionFunctions` builds for it
(`miner/block.go`).

The set keeps one head for each account, in a heap ordered by `Less`: the
greater miner fee first, and among equal fees the one seen first. The heap is
held as the list of its heads in pop order (`Lib.PopOrder`), with the first
element the one `Peek` returns. The accounts' remaining transactions are a Go
map (`AList`).

A transaction's sender, what `Sender(signer, tx)` recovers, is the function
`signer` (`none` is an error, which the code reads as the zero address). The
time a transaction was first seen is the function `time`; the fee model's
`Transaction` does not carry it. A panic (indexing an empty list, `Shift` or
`Pop` with no heads) is `none`.
-/

namespace CeloBlockchain.Core

/-- `DenominatedFeeCurrency`: the currency the fee caps are in. It is CELO
(`nil`) for a CELO-denominated transaction, whose fee is still paid in
`FeeCurrency`. -/
def Transaction.denominatedFeeCurrency (tx : Transaction) : Option Address :=
  if tx.txType = .celoDenominated then none else tx.feeCurrency

/-- `ToCELOFn`: an amount in a fee currency, in CELO; `none` is an error. -/
abbrev ToCELOFn := Int → Option Address → Option Int

/-- `TxWithMinerFee`: a transaction and its miner fee in CELO. -/
structure TxWithMinerFee where
  tx : Transaction
  minerFee : Int
  deriving DecidableEq, Repr

/-- `NewTxWithMinerFee`. `EffectiveGasTip` fails with `ErrGasFeeCapTooLow`
when the fee cap is below the base fee; otherwise the effective tip under the
base fee of `FeeCurrency` is converted to CELO from `FeeCurrency`. -/
def newTxWithMinerFee (tx : Transaction) (baseFeeFn : Option Address → Nat) (toCELO : ToCELOFn) :
    Option TxWithMinerFee :=
  let baseFee := baseFeeFn tx.feeCurrency
  if tx.gasFeeCap < baseFee then none
  else
    let minerFee := tx.effectiveGasTipValue (some baseFee)
    (toCELO minerFee tx.feeCurrency).map fun minerFeeInCelo => ⟨tx, minerFeeInCelo⟩

namespace TxByPriceAndTime

/-- `TxByPriceAndTime.Less`: the greater miner fee, and among equal fees the
transaction seen first. -/
def less (time : Transaction → Nat) (a b : TxWithMinerFee) : Bool :=
  if bigCmp a.minerFee b.minerFee = 0 then time a.tx < time b.tx
  else bigCmp a.minerFee b.minerFee > 0

/-- The priority `Less` orders by: the fee, then the time reversed.
`less_iff_key_lt` says that `Less a b` is `key b < key a`. -/
def key (time : Transaction → Nat) (w : TxWithMinerFee) : Int ×ₗ Int :=
  toLex (w.minerFee, -(time w.tx : Int))

end TxByPriceAndTime

/-- The accounts' transactions: `map[common.Address]Transactions`. -/
abbrev AccountTxs := AList fun _ : Address => List Transaction

/-- `TransactionsByPriceAndNonce`. -/
structure TransactionsByPriceAndNonce where
  txs : AccountTxs
  heads : List TxWithMinerFee
  signer : Transaction → Option Address
  baseFeeFn : Option Address → Nat
  toCELO : ToCELOFn
  time : Transaction → Nat

/-- `acc, _ := Sender(signer, tx)`: the zero address when recovery fails. -/
def senderOf (signer : Transaction → Option Address) (tx : Transaction) : Address :=
  (signer tx).getD zeroAddress

/-- One round of the loop of `NewTransactionsByPriceAndNonce` over the map.
The account's first transaction becomes a head and the account keeps the
rest; the account is deleted when the sender does not match or wrapping
fails. `accTxs[0]` panics on an empty list. -/
def newStep (signer : Transaction → Option Address) (baseFeeFn : Option Address → Nat)
    (toCELO : ToCELOFn) (acc : AccountTxs × List TxWithMinerFee)
    (e : Sigma fun _ : Address => List Transaction) : Option (AccountTxs × List TxWithMinerFee) :=
  match e.2 with
  | [] => none
  | tx :: rest =>
    match newTxWithMinerFee tx baseFeeFn toCELO with
    | some wrapped =>
      if senderOf signer tx = e.1 then some (acc.1.insert e.1 rest, acc.2 ++ [wrapped])
      else some (acc.1.erase e.1, acc.2)
    | none => some (acc.1.erase e.1, acc.2)

/-- `NewTransactionsByPriceAndNonce`: the loop over the map's entries, which
edits the map it iterates, then `heap.Init` on the heads. -/
def newTransactionsByPriceAndNonce (signer : Transaction → Option Address) (txs : AccountTxs)
    (baseFeeFn : Option Address → Nat) (toCELO : ToCELOFn) (time : Transaction → Nat) :
    Option TransactionsByPriceAndNonce := do
  let (txs', heads) ← txs.entries.foldlM (newStep signer baseFeeFn toCELO) (txs, [])
  pure ⟨txs', heads.insertionSort (PopOrder.Before (TxByPriceAndTime.key time)), signer,
    baseFeeFn, toCELO, time⟩

namespace TransactionsByPriceAndNonce

/-- `Peek`. -/
def peek (t : TransactionsByPriceAndNonce) : Option Transaction :=
  match t.heads with
  | [] => none
  | w :: _ => some w.tx

/-- `Shift`: the head is replaced by the next transaction of its account,
followed by `heap.Fix`, or popped when there is none or wrapping it fails.
`t.heads[0]` panics on no heads. -/
def shift (t : TransactionsByPriceAndNonce) : Option TransactionsByPriceAndNonce :=
  match t.heads with
  | [] => none
  | w :: rest =>
    let acc := senderOf t.signer w.tx
    match t.txs.lookup acc with
    | some (tx :: txs) =>
      match newTxWithMinerFee tx t.baseFeeFn t.toCELO with
      | some wrapped =>
        some { t with heads := PopOrder.push (TxByPriceAndTime.key t.time) wrapped rest,
                      txs := t.txs.insert acc txs }
      | none => some { t with heads := rest }
    | _ => some { t with heads := rest }

/-- `Pop`: `heap.Pop`, which panics on no heads. -/
def pop (t : TransactionsByPriceAndNonce) : Option TransactionsByPriceAndNonce :=
  match t.heads with
  | [] => none
  | _ :: rest => some { t with heads := rest }

/-- What the consumer does after a `Peek`. -/
inductive Op
  | shift
  | pop
  deriving DecidableEq, Repr

/-- `Shift` or `Pop`. -/
def apply (t : TransactionsByPriceAndNonce) : Op → Option TransactionsByPriceAndNonce
  | .shift => t.shift
  | .pop => t.pop

/-- One operation on a set that has not panicked. -/
def step (s : Option TransactionsByPriceAndNonce) (op : Op) : Option TransactionsByPriceAndNonce :=
  s.bind fun t => t.apply op

/-- The loop of `commitTransactions`: `Peek`, then `Shift` or `Pop` as the
block decides (`ops`). The transactions peeked, in order, until `Peek` finds
none. -/
def peeks (t : TransactionsByPriceAndNonce) : List Op → List Transaction
  | [] => []
  | op :: ops =>
    match t.peek with
    | none => []
    | some tx =>
      tx :: match t.apply op with
        | some t' => peeks t' ops
        | none => []

end TransactionsByPriceAndNonce

/-! ## The miner's conversion functions -/

/-- `createConversionFunctions`: the base fee of a currency is its gas price
minimum, and the conversion to CELO goes through the currency of a fresh
`CurrencyManager`. In Go the manager caches what it fetches. It caches a
currency only as the fetch of its rate gives it, so the fresh manager answers
every call as the caching one does. -/
def createConversionFunctions (gpm : GasPriceMinimums)
    (getExchangeRate : Address → Option ExchangeRate) : (Option Address → Nat) × ToCELOFn :=
  let currencyManager := newManager getExchangeRate
  (fun feeCurrency => gpm.getGasPriceMinimum feeCurrency,
   fun amount feeCurrency =>
    (currencyManager.getCurrency feeCurrency).1.map fun curr => curr.toCELO amount)

end CeloBlockchain.Core
