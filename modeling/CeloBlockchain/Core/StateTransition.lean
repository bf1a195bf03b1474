import CeloBlockchain.Core.Currency
import CeloBlockchain.Vm.FractionMulExp

/-!
# Fee accounting of a transaction

This module models the following functions:
* `Transaction.AsMessage` (`core/types/transaction.go`);
* the base fee that `StateProcessor.Process` and `ApplyTransaction` pass to
  it (`core/state_processor.go`);
* `NewStateTransition`, `preCheck`, `canPayFee`, `payFees`, `debitFee`,
  `refundGas`, `creditTxFees` and the fee path of `TransitionDb`
  (`core/state_transition.go`).

A `*big.Int` amount is an integer. The fields a transaction carries are
natural numbers. The parts of the fee that `creditTxFees` computes by
subtraction are `Int`. `big.Int.Div` is Euclidean division, which is the `/`
of `Int` for a positive divisor.

The EVM and the system contracts are parameters (`Evm`, `Env`). The model
covers block processing, whose `vm.Config` has `NoBaseFee` and
`SkipDebitCredit` unset. The contract calls that move tokens
(`erc20gas.DebitFees`, `CreditFees`) are taken to succeed. The model records
what they are asked to move: the debit, and the ABI words of the credit
(`creditFeesAmounts`).
-/

namespace CeloBlockchain.Core

open BigEndian

/-- The forks that the fee path reads, each active or not at the block. -/
structure Forks where
  donut : Bool
  espresso : Bool
  gingerbread : Bool
  gingerbreadP2 : Bool
  hFork : Bool
deriving DecidableEq, Repr

/-- `CheckConfigForkOrder`: a fork is active only once the one before it is. -/
structure Forks.Ordered (forks : Forks) : Prop where
  espresso_donut : forks.espresso → forks.donut
  gingerbread_espresso : forks.gingerbread → forks.espresso
  gingerbreadP2_gingerbread : forks.gingerbreadP2 → forks.gingerbread
  hFork_gingerbreadP2 : forks.hFork → forks.gingerbreadP2

/-- `GasPriceMinimums`: the gas price minimum of each whitelisted currency.
CELO's is stored under the zero address. -/
abbrev GasPriceMinimums := Address → Option Nat

/-- `gasprice_minimum.FallbackGasPriceMinimum`. -/
def fallbackGasPriceMinimum : Nat := 0

namespace GasPriceMinimums

/-- `valOrDefault`. -/
def valOrDefault (gpm : GasPriceMinimums) (key : Address) : Nat :=
  (gpm key).getD fallbackGasPriceMinimum

/-- `GetGasPriceMinimum`. CELO (`nil`) is looked up under the zero address. -/
def getGasPriceMinimum (gpm : GasPriceMinimums) (feeCurrency : Option Address) : Nat :=
  valOrDefault gpm (feeCurrency.getD zeroAddress)

end GasPriceMinimums

/-- The transaction types the fee path tells apart. -/
inductive TxType
  | legacy
  | accessList
  | dynamicFee
  | celoDynamicFee
  | celoDynamicFeeV2
  /-- `CeloDenominatedTxType` (0x7a): the fee caps are in CELO and the fee is
  paid in `FeeCurrency`. -/
  | celoDenominated
deriving DecidableEq, Repr

/-- The fields of a transaction that the fee path reads. `gasPrice` is what
the inner transaction's `gasPrice()` returns; for the dynamic-fee types
that is its `GasFeeCap`. -/
structure Transaction where
  txType : TxType
  /-- `Protected()`. -/
  isProtected : Bool
  nonce : Nat
  gas : Nat
  gasPrice : Nat
  gasFeeCap : Nat
  gasTipCap : Nat
  value : Nat
  feeCurrency : Option Address
  maxFeeInFeeCurrency : Option Nat
  gatewayFeeRecipient : Option Address
  gatewayFee : Option Nat
  ethCompatible : Bool
deriving DecidableEq, Repr

/-- `types.Message`. -/
structure Message where
  /-- `From()`. -/
  sender : Address
  nonce : Nat
  gasLimit : Nat
  gasPrice : Nat
  gasFeeCap : Nat
  gasTipCap : Nat
  amount : Nat
  isFake : Bool
  feeCurrency : Option Address
  maxFeeInFeeCurrency : Option Nat
  gatewayFeeRecipient : Option Address
  gatewayFee : Nat
  ethCompatible : Bool
deriving DecidableEq, Repr

/-- `Transaction.AsMessage`, for the sender that `Sender` recovers. When a
base fee is given, the gas price becomes the effective gas price
`min(gasTipCap + baseFee, gasFeeCap)`. -/
def Transaction.asMessage (tx : Transaction) (sender : Address) (baseFee : Option Nat) :
    Message where
  sender := sender
  nonce := tx.nonce
  gasLimit := tx.gas
  gasPrice :=
    match baseFee with
    | some baseFee => min (tx.gasTipCap + baseFee) tx.gasFeeCap
    | none => tx.gasPrice
  gasFeeCap := tx.gasFeeCap
  gasTipCap := tx.gasTipCap
  amount := tx.value
  isFake := false
  feeCurrency := tx.feeCurrency
  maxFeeInFeeCurrency := tx.maxFeeInFeeCurrency
  gatewayFeeRecipient := tx.gatewayFeeRecipient
  gatewayFee := tx.gatewayFee.getD 0
  ethCompatible := tx.ethCompatible

/-- `Message.GatewaySet`. -/
def Message.gatewaySet (m : Message) : Bool :=
  m.gatewayFeeRecipient.isSome || m.gatewayFee != 0

/-- The gateway fee added to a charge. It is ignored when
`GatewayFeeRecipient` is unspecified. -/
def Message.gatewayFeeDue (m : Message) : Nat :=
  if m.gatewayFeeRecipient.isSome then m.gatewayFee else 0

/-- The errors by which the fee path refuses a transaction. -/
inductive TxError
  /-- `ErrUnprotectedTransaction`. -/
  | unprotectedTransaction
  /-- `ErrGatewayFeeDeprecated`. -/
  | gatewayFeeDeprecated
  /-- `ErrTxTypeNotSupported`. -/
  | txTypeNotSupported
  /-- `ErrEthCompatibleTransactionsNotSupported`. -/
  | ethCompatibleTransactionsNotSupported
  /-- `types.ErrEthCompatibleTransactionIsntCompatible`. -/
  | ethCompatibleTransactionIsntCompatible
  /-- `ErrDenominatedNoCurrency`: "CELO denominated tx has no fee currency". -/
  | denominatedNoCurrency
  /-- An error of `currency.GetExchangeRate`. -/
  | exchangeRate
  /-- `ErrNonceTooHigh`. -/
  | nonceTooHigh
  /-- `ErrNonceTooLow`. -/
  | nonceTooLow
  /-- `ErrFeeCapVeryHigh`. -/
  | feeCapVeryHigh
  /-- `ErrTipVeryHigh`. -/
  | tipVeryHigh
  /-- `ErrTipAboveFeeCap`: "max priority fee per gas higher than max fee per gas". -/
  | tipAboveFeeCap
  /-- `ErrFeeCapTooLow`: "max fee per gas less than block base fee". -/
  | feeCapTooLow
  /-- `ErrGasPriceDoesNotExceedMinimum`: "gasprice is less than gas price minimum". -/
  | gasPriceDoesNotExceedMinimum
  /-- `ErrIntrinsicGas`: "intrinsic gas too low". -/
  | intrinsicGas
  /-- `ErrNonWhitelistedFeeCurrency`: "non-whitelisted fee currency address". -/
  | nonWhitelistedFeeCurrency
  /-- `ErrInsufficientFunds`: "insufficient funds for gas * price + value + gatewayFee". -/
  | insufficientFunds
  /-- `ErrDenominatedLowMaxFee`. -/
  | denominatedLowMaxFee
  /-- `ErrGasLimitReached`: "gas limit reached". -/
  | gasLimitReached
  /-- `ErrInsufficientFundsForTransfer`. -/
  | insufficientFundsForTransfer
deriving DecidableEq, Repr

/-- The EVM as the fee path sees it. `gasLeft gas` is the gas left after
running the message with `gas`, never more than `gas`. `refund` is the
state's refund counter after the run. -/
structure Evm where
  gasLeft : Nat → Nat
  gasLeft_le : ∀ gas, gasLeft gas ≤ gas
  refund : Nat

/-- What the fee path reads from the chain state and the system contracts. -/
structure Env where
  /-- The gas price minimums of `SysContractCallCtx`, from Espresso. -/
  gasPriceMinimums : GasPriceMinimums
  /-- `gpm.GetBaseFeeForCurrency`, before Espresso. -/
  baseFeeForCurrency : Option Address → Nat
  /-- `currency.GetExchangeRate`; `none` is an error. -/
  exchangeRate : Option Address → Option ExchangeRate
  /-- The sender's nonce in the state. -/
  stateNonce : Nat
  /-- The sender's balance in CELO (`none`) or in a token. -/
  balance : Option Address → Nat
  /-- `IsWhitelisted` of a fee currency. -/
  isWhitelisted : Option Address → Bool
  /-- The gas left in the block's gas pool. -/
  gasPool : Nat
  /-- The result of `IntrinsicGas`. -/
  intrinsicGas : Nat
  /-- `CanTransfer` of the message's value. -/
  canTransfer : Bool
  evm : Evm
  /-- The registered `FeeHandler` (`GovernanceRegistry` before Gingerbread);
  `none` when it is not deployed. -/
  feeHandler : Option Address

/-- The fields of `StateTransition` that the fee path reads and writes. -/
structure StateTransition where
  msg : Message
  gasPrice : Nat
  gasFeeCap : Nat
  gasTipCap : Nat
  gasPriceMinimum : Nat
  initialGas : Nat
  gas : Nat
  erc20FeeDebited : Int
deriving DecidableEq, Repr

/-- `NewStateTransition`. From Espresso, a CELO-denominated transaction's
gas price minimum is CELO's, and any other transaction's is that of its fee
currency. -/
def newStateTransition (espresso : Bool) (env : Env) (msg : Message) : StateTransition :=
  let gasPriceMinimum :=
    if espresso then
      match msg.maxFeeInFeeCurrency with
      | some _ => env.gasPriceMinimums.getGasPriceMinimum none
      | none => env.gasPriceMinimums.getGasPriceMinimum msg.feeCurrency
    else env.baseFeeForCurrency msg.feeCurrency
  { msg, gasPrice := msg.gasPrice, gasFeeCap := msg.gasFeeCap, gasTipCap := msg.gasTipCap,
    gasPriceMinimum, initialGas := 0, gas := 0, erc20FeeDebited := 0 }

/-- `preCheck`. `london` is `IsLondon`, which Celo activates with Espresso.
`x.BitLen() > 256` is `2 ^ 256 ≤ x` for a non-negative `x`. -/
def StateTransition.preCheck (st : StateTransition) (london : Bool) (env : Env) :
    Except TxError Unit :=
  if st.msg.isFake = false ∧ env.stateNonce < st.msg.nonce then .error .nonceTooHigh
  else if st.msg.isFake = false ∧ st.msg.nonce < env.stateNonce then .error .nonceTooLow
  else if london then
    if 2 ^ 256 ≤ st.gasFeeCap then .error .feeCapVeryHigh
    else if 2 ^ 256 ≤ st.gasTipCap then .error .tipVeryHigh
    else if st.gasFeeCap < st.gasTipCap then .error .tipAboveFeeCap
    else if st.gasFeeCap < st.gasPriceMinimum then .error .feeCapTooLow
    else .ok ()
  else if st.gasPrice < st.gasPriceMinimum then .error .gasPriceDoesNotExceedMinimum
  else .ok ()

/-- `canPayFee`. From Espresso the balance must cover the fee cap; a
CELO-denominated transaction converts it to the fee currency and compares
it with `MaxFeeInFeeCurrency`. -/
def StateTransition.canPayFee (st : StateTransition) (espresso : Bool) (env : Env)
    (denominatedCurrencyRate : ExchangeRate) : Except TxError Unit :=
  match st.msg.feeCurrency with
  | none =>
    let balance := env.balance none
    if espresso then
      let feeGap := st.msg.gasLimit * st.gasFeeCap + st.msg.amount + st.msg.gatewayFeeDue
      if balance < feeGap then .error .insufficientFunds else .ok ()
    else
      let effectiveFee := st.msg.gasLimit * st.gasPrice + st.msg.gatewayFeeDue
      if balance < effectiveFee then .error .insufficientFunds else .ok ()
  | some feeCurrency =>
    let balance : Int := env.balance (some feeCurrency)
    if espresso then
      let feeGap : Int := st.msg.gasLimit * st.gasFeeCap + st.msg.gatewayFeeDue
      match st.msg.maxFeeInFeeCurrency with
      | some maxFeeInFeeCurrency =>
        let feeGap := denominatedCurrencyRate.fromBase feeGap
        if maxFeeInFeeCurrency < feeGap then .error .denominatedLowMaxFee
        else if balance < feeGap then .error .insufficientFunds
        else .ok ()
      | none => if balance < feeGap then .error .insufficientFunds else .ok ()
    else
      let effectiveFee : Int := st.msg.gasLimit * st.gasPrice + st.msg.gatewayFeeDue
      if balance ≤ effectiveFee then .error .insufficientFunds else .ok ()

/-- `debitFee`: the state transition with `erc20FeeDebited` set, and the
amount taken from the sender. That amount is `gas · gasPrice`, plus the
gateway fee when its recipient is set. For a CELO-denominated transaction it
is converted to the fee currency. -/
def StateTransition.debitFee (st : StateTransition) (denominatedCurrencyRate : ExchangeRate) :
    StateTransition × Int :=
  let effectiveFee : Int := st.msg.gasLimit * st.gasPrice + st.msg.gatewayFeeDue
  match st.msg.feeCurrency with
  -- `SubBalance(from, effectiveFee)` in CELO
  | none => (st, effectiveFee)
  | some _ =>
    let erc20FeeDebited :=
      match st.msg.maxFeeInFeeCurrency with
      | some _ => denominatedCurrencyRate.fromBase effectiveFee
      | none => effectiveFee
    ({ st with erc20FeeDebited }, erc20FeeDebited)

/-- `payFees`: it checks the fee currency and the balance, takes the gas
from the block's pool, buys it and debits the fee. -/
def StateTransition.payFees (st : StateTransition) (espresso : Bool) (env : Env)
    (denominatedCurrencyRate : ExchangeRate) : Except TxError (StateTransition × Int) :=
  if env.isWhitelisted st.msg.feeCurrency = false then .error .nonWhitelistedFeeCurrency
  else
    match st.canPayFee espresso env denominatedCurrencyRate with
    | .error err => .error err
    | .ok () =>
      if env.gasPool < st.msg.gasLimit then .error .gasLimitReached
      else
        .ok (StateTransition.debitFee
          { st with initialGas := st.msg.gasLimit, gas := st.gas + st.msg.gasLimit }
          denominatedCurrencyRate)

/-- `gasUsed`. -/
def StateTransition.gasUsed (st : StateTransition) : Nat := st.initialGas - st.gas

/-- `params.RefundQuotient`. -/
def refundQuotient : Nat := 2

/-- `params.RefundQuotientEIP3529`. -/
def refundQuotientEIP3529 : Nat := 5

/-- `refundGas`: the refund counter, capped at `gasUsed / refundQuotient`,
is given back. -/
def StateTransition.refundGas (st : StateTransition) (refundQuotient stateRefund : Nat) :
    StateTransition :=
  { st with gas := st.gas + min (st.gasUsed / refundQuotient) stateRefund }

/-- The three amounts `creditTxFees` pays out besides the gateway fee. -/
structure TxFees where
  refund : Int
  tipTxFee : Int
  baseTxFee : Int
deriving DecidableEq, Repr

/-- The first half of `creditTxFees`: the refund, the tip and the base fee.
For a CELO-denominated transaction the tip and the base fee are converted,
and the refund is what is left of `erc20FeeDebited`. -/
def StateTransition.splitTxFee (st : StateTransition) (denominatedCurrencyRate : ExchangeRate) :
    TxFees :=
  let refund : Int := st.gas * st.gasPrice
  let gasUsed : Int := st.gasUsed
  let totalTxFee : Int := gasUsed * st.gasPrice
  let baseTxFee : Int := gasUsed * st.gasPriceMinimum
  let tipTxFee := totalTxFee - baseTxFee
  match st.msg.maxFeeInFeeCurrency with
  | some _ =>
    let tipTxFee := denominatedCurrencyRate.fromBase tipTxFee
    let baseTxFee := denominatedCurrencyRate.fromBase baseTxFee
    ⟨st.erc20FeeDebited - (tipTxFee + baseTxFee), tipTxFee, baseTxFee⟩
  | none => ⟨refund, tipTxFee, baseTxFee⟩

/-- `creditTxFees`: the amounts to pay out and the fee handler that receives
the base fee. When no fee handler is deployed, the base fee goes back to the
sender. -/
def StateTransition.creditTxFees (st : StateTransition) (env : Env)
    (denominatedCurrencyRate : ExchangeRate) : TxFees × Address :=
  let fees := st.splitTxFee denominatedCurrencyRate
  match env.feeHandler with
  | none => (⟨fees.refund + fees.baseTxFee, fees.tipTxFee, 0⟩, zeroAddress)
  | some feeHandlerAddress => (fees, feeHandlerAddress)

/-- `common.AmountToAbi`: `LeftPadBytes(amount.Bytes(), 32)`. `Bytes` gives the
big-endian bytes of the absolute value. -/
def amountToAbi (amount : Int) : List UInt8 := Vm.leftPadBytes (toBytes amount.natAbs) 32

/-- The amount words of the `creditGasFees` call that `erc20gas.CreditFees`
makes for a token: refund, tip, gateway fee and base fee. -/
def creditFeesAmounts (fees : TxFees) (gatewayFee : Nat) : List (List UInt8) :=
  [amountToAbi fees.refund, amountToAbi fees.tipTxFee, amountToAbi gatewayFee,
    amountToAbi fees.baseTxFee]

/-- The exchange rate of a CELO-denominated transaction. The source leaves it
`nil` for every other transaction, which never reads it. -/
def denominatedCurrencyRate (env : Env) (msg : Message) : Option ExchangeRate :=
  match msg.maxFeeInFeeCurrency with
  | some _ => env.exchangeRate msg.feeCurrency
  | none => some noopExchangeRate

/-- What an accepted transaction leaves behind for fee accounting. -/
structure Outcome where
  /-- The state transition at the end; `UsedGas` is its `gasUsed`. -/
  st : StateTransition
  /-- The amount `debitFee` took from the sender. -/
  debited : Int
  /-- The amounts `creditTxFees` pays out. -/
  fees : TxFees
  feeHandlerAddress : Address
deriving DecidableEq, Repr

/-- The fee path of `TransitionDb`, check by check. -/
def transitionDb (forks : Forks) (env : Env) (st : StateTransition) : Except TxError Outcome :=
  let msg := st.msg
  if msg.ethCompatible ∧ forks.donut = false then .error .ethCompatibleTransactionsNotSupported
  -- `CheckEthCompatibility`
  else if msg.ethCompatible ∧ (msg.feeCurrency.isSome ∨ msg.gatewaySet) then
    .error .ethCompatibleTransactionIsntCompatible
  else if forks.gingerbread ∧ msg.gatewaySet then .error .gatewayFeeDeprecated
  else if forks.hFork = false ∧ msg.maxFeeInFeeCurrency.isSome then .error .txTypeNotSupported
  else if msg.feeCurrency = none ∧ msg.maxFeeInFeeCurrency.isSome then
    .error .denominatedNoCurrency
  else
    match denominatedCurrencyRate env msg with
    | none => .error .exchangeRate
    | some rate =>
      match st.preCheck forks.espresso env with
      | .error err => .error err
      | .ok () =>
        if msg.gasLimit < env.intrinsicGas then .error .intrinsicGas
        else
          match st.payFees forks.espresso env rate with
          | .error err => .error err
          | .ok (st, debited) =>
            let st := { st with gas := st.gas - env.intrinsicGas }
            if 0 < msg.amount ∧ env.canTransfer = false then .error .insufficientFundsForTransfer
            else
              -- `evm.Create` or `evm.Call`
              let st := { st with gas := env.evm.gasLeft st.gas }
              let st := st.refundGas
                (if forks.espresso then refundQuotientEIP3529 else refundQuotient) env.evm.refund
              let credit := st.creditTxFees env rate
              .ok ⟨st, debited, credit.1, credit.2⟩

/-- The base fee that `StateProcessor.Process` and `ApplyTransaction` pass to
`AsMessage`. From Espresso it is the gas price minimum of the transaction's
fee currency; before Espresso it is `nil`. -/
def txBaseFee (forks : Forks) (env : Env) (tx : Transaction) : Option Nat :=
  if forks.espresso then some (env.gasPriceMinimums.getGasPriceMinimum tx.feeCurrency) else none

/-- `ApplyTransaction`, and the loop body of `StateProcessor.Process`. -/
def applyTransaction (forks : Forks) (env : Env) (tx : Transaction) (sender : Address) :
    Except TxError Outcome :=
  let msg := tx.asMessage sender (txBaseFee forks env tx)
  if forks.donut ∧ forks.espresso = false ∧ tx.isProtected = false then
    .error .unprotectedTransaction
  else if forks.gingerbread ∧ msg.gatewaySet then .error .gatewayFeeDeprecated
  else if tx.txType = .celoDynamicFeeV2 ∧ forks.gingerbreadP2 = false then
    .error .txTypeNotSupported
  else if tx.txType = .celoDenominated ∧ forks.hFork = false then .error .txTypeNotSupported
  else transitionDb forks env (newStateTransition forks.espresso env msg)

end CeloBlockchain.Core
