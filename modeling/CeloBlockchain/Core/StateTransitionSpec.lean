import CeloBlockchain.Core.StateTransition
import CeloBlockchain.Vm.FractionMulExpSpec

/-!
# Where the fee of a transaction goes

This module proves what fee accounting keeps for every accepted transaction,
and where it goes wrong.

* `transitionDb_settled`: inversion of `TransitionDb`. An accepted
  transaction passed the checks, bought its gas at the message's gas price,
  and used no more than it bought. Its credit is `creditTxFees` of the final
  state (`Settled`).
* `applyTransaction_conserves`: the refund, the tip, the base fee and the
  gateway fee add up to the debit. The refund and the base fee are never
  negative. This holds for every transaction, CELO-denominated ones
  included.
* `applyTransaction_fees_of_not_denominated`: from Espresso, a transaction
  whose fee caps are in its fee currency pays
  `min(gasTipCap + gasPriceMinimum, gasFeeCap)` per gas. Its tip lies
  between `0` and `gasUsed · gasTipCap`.
* `applyTransaction_gasPrice_of_denominated`: a CELO-denominated
  transaction's gas price is built from its fee currency's gas price
  minimum. It is split against CELO's, so its tip is negative when the first
  minimum is the smaller (`tipTxFee_neg_of_denominated`). `AmountToAbi` then
  credits the absolute value of that tip (`received_creditFeesAmounts`).
-/

namespace CeloBlockchain.Core

open BigEndian

/-! ## The message and the state transition -/

@[simp] theorem asMessage_gasPrice_some (tx : Transaction) (sender baseFee : Nat) :
    (tx.asMessage sender (some baseFee)).gasPrice = min (tx.gasTipCap + baseFee) tx.gasFeeCap :=
  rfl

theorem txBaseFee_of_espresso {forks : Forks} (env : Env) (tx : Transaction)
    (h : forks.espresso = true) :
    txBaseFee forks env tx = some (env.gasPriceMinimums.getGasPriceMinimum tx.feeCurrency) := by
  simp [txBaseFee, h]

@[simp] theorem newStateTransition_msg (espresso : Bool) (env : Env) (msg : Message) :
    (newStateTransition espresso env msg).msg = msg := rfl

@[simp] theorem newStateTransition_gasPrice (espresso : Bool) (env : Env) (msg : Message) :
    (newStateTransition espresso env msg).gasPrice = msg.gasPrice := rfl

@[simp] theorem newStateTransition_gas (espresso : Bool) (env : Env) (msg : Message) :
    (newStateTransition espresso env msg).gas = 0 := rfl

/-- From Espresso the gas price minimum is CELO's for a CELO-denominated
message, and that of its fee currency for any other. -/
theorem newStateTransition_gasPriceMinimum (env : Env) (msg : Message) :
    (newStateTransition true env msg).gasPriceMinimum =
      env.gasPriceMinimums.getGasPriceMinimum
        (if msg.maxFeeInFeeCurrency.isSome then none else msg.feeCurrency) := by
  cases h : msg.maxFeeInFeeCurrency <;> simp [newStateTransition, h]

/-- The gateway fee is never charged once Gingerbread refuses it. -/
theorem gatewayFeeDue_eq_zero {m : Message} (h : m.gatewaySet = false) : m.gatewayFeeDue = 0 := by
  simp only [Message.gatewaySet, Bool.or_eq_false_iff] at h
  simp [Message.gatewayFeeDue, h.1]

/-! ## Inversion of `TransitionDb` -/

/-- What `payFees` does when it succeeds. It passed `canPayFee`, bought
`gasLimit` gas, and debited what `debitFee` computes. -/
theorem payFees_ok {st st' : StateTransition} {espresso : Bool} {env : Env}
    {rate : ExchangeRate} {debited : Int}
    (h : st.payFees espresso env rate = .ok (st', debited)) :
    st.canPayFee espresso env rate = .ok () ∧
      (st', debited) = StateTransition.debitFee
        { st with initialGas := st.msg.gasLimit, gas := st.gas + st.msg.gasLimit } rate := by
  unfold StateTransition.payFees at h
  split at h
  · cases h
  split at h
  · cases h
  rename_i hpay
  split at h
  · cases h
  exact ⟨hpay, (Except.ok.inj h).symm⟩

/-- `debitFee` sets `erc20FeeDebited` and nothing else. -/
theorem debitFee_fst (st : StateTransition) (rate : ExchangeRate) :
    (st.debitFee rate).1 = { st with erc20FeeDebited := (st.debitFee rate).1.erc20FeeDebited } := by
  unfold StateTransition.debitFee
  split <;> rfl

@[simp] theorem debitFee_msg (st : StateTransition) (rate : ExchangeRate) :
    (st.debitFee rate).1.msg = st.msg := by
  rw [debitFee_fst]

@[simp] theorem debitFee_gasPrice (st : StateTransition) (rate : ExchangeRate) :
    (st.debitFee rate).1.gasPrice = st.gasPrice := by
  rw [debitFee_fst]

@[simp] theorem debitFee_gasPriceMinimum (st : StateTransition) (rate : ExchangeRate) :
    (st.debitFee rate).1.gasPriceMinimum = st.gasPriceMinimum := by
  rw [debitFee_fst]

@[simp] theorem debitFee_initialGas (st : StateTransition) (rate : ExchangeRate) :
    (st.debitFee rate).1.initialGas = st.initialGas := by
  rw [debitFee_fst]

@[simp] theorem debitFee_gas (st : StateTransition) (rate : ExchangeRate) :
    (st.debitFee rate).1.gas = st.gas := by
  rw [debitFee_fst]

/-- The debit reads only the message and the gas price. -/
theorem debitFee_snd_eq {st st' : StateTransition} (rate : ExchangeRate) (hmsg : st'.msg = st.msg)
    (hgasPrice : st'.gasPrice = st.gasPrice) : (st'.debitFee rate).2 = (st.debitFee rate).2 := by
  cases hfc : st.msg.feeCurrency <;> simp [StateTransition.debitFee, hmsg, hgasPrice, hfc]

/-- A token debit is recorded in `erc20FeeDebited`. -/
theorem debitFee_erc20FeeDebited {st : StateTransition} (rate : ExchangeRate)
    (h : st.msg.feeCurrency.isSome = true) :
    (st.debitFee rate).1.erc20FeeDebited = (st.debitFee rate).2 := by
  unfold StateTransition.debitFee
  split
  · simp_all
  · rfl

/-- Giving back refunded gas never leaves more than was bought. -/
theorem refundGas_gas_le {st : StateTransition} (q r : Nat) (h : st.gas ≤ st.initialGas) :
    (st.refundGas q r).gas ≤ (st.refundGas q r).initialGas := by
  have hdiv : st.gasUsed / q ≤ st.gasUsed := Nat.div_le_self _ _
  simp only [StateTransition.refundGas, StateTransition.gasUsed] at hdiv ⊢
  omega

/-- What `TransitionDb` establishes about a transaction it accepts, with
`rate` the exchange rate it read (`transitionDb_settled`): the checks it
passed, and how the outcome is made from the state transition it started
from. -/
structure Settled (forks : Forks) (env : Env) (st : StateTransition) (rate : ExchangeRate)
    (out : Outcome) : Prop where
  gatewaySet_eq : forks.gingerbread = true → st.msg.gatewaySet = false
  hFork_eq : st.msg.maxFeeInFeeCurrency.isSome = true → forks.hFork = true
  feeCurrency_isSome : st.msg.maxFeeInFeeCurrency.isSome = true → st.msg.feeCurrency.isSome = true
  rate_eq : denominatedCurrencyRate env st.msg = some rate
  preCheck_ok : st.preCheck forks.espresso env = .ok ()
  msg_eq : out.st.msg = st.msg
  gasPrice_eq : out.st.gasPrice = st.gasPrice
  gasPriceMinimum_eq : out.st.gasPriceMinimum = st.gasPriceMinimum
  initialGas_eq : out.st.initialGas = st.msg.gasLimit
  gas_le : out.st.gas ≤ out.st.initialGas
  debited_eq : out.debited = (st.debitFee rate).2
  erc20FeeDebited_eq : st.msg.feeCurrency.isSome = true → out.st.erc20FeeDebited = out.debited
  credit_eq : (out.fees, out.feeHandlerAddress) = out.st.creditTxFees env rate

/-- **Inversion of `TransitionDb`.** A state transition that starts with no
gas and is accepted is `Settled`. -/
theorem transitionDb_settled {forks : Forks} {env : Env} {st : StateTransition} {out : Outcome}
    (h0 : st.gas = 0) (h : transitionDb forks env st = .ok out) :
    ∃ rate, Settled forks env st rate out := by
  unfold transitionDb at h
  dsimp only at h
  -- each check either refuses, leaving `h : .error _ = .ok out`, or is passed
  split at h
  · cases h
  split at h
  · cases h
  split at h
  · cases h
  rename_i hGw
  split at h
  · cases h
  rename_i hH
  split at h
  · cases h
  rename_i hNone
  split at h
  · cases h
  rename_i rate hrate
  split at h
  · cases h
  rename_i hpre
  split at h
  · cases h
  split at h
  · cases h
  rename_i st₁ debited hpay
  split at h
  · cases h
  cases h
  obtain ⟨-, hst₁⟩ := payFees_ok hpay
  have hst : st₁ = _ := congrArg Prod.fst hst₁
  have hdebited : debited = _ := congrArg Prod.snd hst₁
  subst hst hdebited
  -- the gas left after the call is at most what was bought
  have hgas : env.evm.gasLeft (st.gas + st.msg.gasLimit - env.intrinsicGas) ≤ st.msg.gasLimit := by
    have := env.evm.gasLeft_le (st.gas + st.msg.gasLimit - env.intrinsicGas)
    omega
  refine ⟨rate, ⟨fun hg => Bool.eq_false_iff.mpr fun hs => hGw ⟨hg, hs⟩, fun hs => ?_,
    fun hs => Option.isSome_iff_ne_none.mpr fun hn => hNone ⟨hn, hs⟩, hrate, hpre,
    by simp [StateTransition.refundGas], by simp [StateTransition.refundGas],
    by simp [StateTransition.refundGas], by simp [StateTransition.refundGas],
    refundGas_gas_le _ _ (by simpa using hgas), debitFee_snd_eq rate rfl rfl, fun hfc => ?_, rfl⟩⟩
  · cases hf : forks.hFork
    · exact absurd ⟨hf, hs⟩ hH
    · rfl
  · exact debitFee_erc20FeeDebited rate hfc

/-- **Inversion of `ApplyTransaction`.** An accepted transaction's message is
`AsMessage` at the processor's base fee, and its state transition is
`Settled`. -/
theorem applyTransaction_settled {forks : Forks} {env : Env} {tx : Transaction} {sender : Address}
    {out : Outcome} (h : applyTransaction forks env tx sender = .ok out) :
    ∃ rate, Settled forks env
      (newStateTransition forks.espresso env (tx.asMessage sender (txBaseFee forks env tx))) rate out := by
  unfold applyTransaction at h
  dsimp only at h
  split at h
  · cases h
  split at h
  · cases h
  split at h
  · cases h
  split at h
  · cases h
  exact transitionDb_settled rfl h

/-- From Espresso (`IsLondon`), `preCheck` bounds the tip cap and the gas
price minimum by the fee cap. -/
theorem preCheck_london {st : StateTransition} {env : Env} (h : st.preCheck true env = .ok ()) :
    st.gasTipCap ≤ st.gasFeeCap ∧ st.gasPriceMinimum ≤ st.gasFeeCap := by
  unfold StateTransition.preCheck at h
  split_ifs at h with _ _ hlondon _ _ hTip hMin
  · exact ⟨Nat.le_of_not_lt hTip, Nat.le_of_not_lt hMin⟩
  · exact absurd rfl hlondon

/-! ## The split of the fee -/

/-- What the refund, the tip and the base fee add up to. -/
def TxFees.total (fees : TxFees) : Int := fees.refund + fees.tipTxFee + fees.baseTxFee

/-- The debit of a message whose fee caps are in its fee currency: the gas
bought at the gas price, and the gateway fee. -/
theorem debitFee_snd_of_none {st : StateTransition} (rate : ExchangeRate)
    (h : st.msg.maxFeeInFeeCurrency = none) :
    (st.debitFee rate).2 = st.msg.gasLimit * st.gasPrice + st.msg.gatewayFeeDue := by
  unfold StateTransition.debitFee
  split <;> simp [h]

/-- The debit of a CELO-denominated message, converted to its fee currency. -/
theorem debitFee_snd_of_some {st : StateTransition} (rate : ExchangeRate) {maxFee : Nat}
    (hfc : st.msg.feeCurrency.isSome = true) (h : st.msg.maxFeeInFeeCurrency = some maxFee) :
    (st.debitFee rate).2 = rate.fromBase (st.msg.gasLimit * st.gasPrice + st.msg.gatewayFeeDue) := by
  unfold StateTransition.debitFee
  split
  · simp_all
  · simp [h]

section Split

variable {st : StateTransition} (rate : ExchangeRate)

theorem splitTxFee_of_none (h : st.msg.maxFeeInFeeCurrency = none) :
    st.splitTxFee rate =
      ⟨st.gas * st.gasPrice, st.gasUsed * st.gasPrice - st.gasUsed * st.gasPriceMinimum,
        st.gasUsed * st.gasPriceMinimum⟩ := by
  simp [StateTransition.splitTxFee, h]

theorem splitTxFee_of_some {maxFee : Nat} (h : st.msg.maxFeeInFeeCurrency = some maxFee) :
    st.splitTxFee rate =
      ⟨st.erc20FeeDebited -
          (rate.fromBase (st.gasUsed * st.gasPrice - st.gasUsed * st.gasPriceMinimum) +
            rate.fromBase (st.gasUsed * st.gasPriceMinimum)),
        rate.fromBase (st.gasUsed * st.gasPrice - st.gasUsed * st.gasPriceMinimum),
        rate.fromBase (st.gasUsed * st.gasPriceMinimum)⟩ := by
  simp [StateTransition.splitTxFee, h]

/-- Without conversion the three parts are the gas bought, at the gas price. -/
theorem total_splitTxFee_of_none (h : st.msg.maxFeeInFeeCurrency = none)
    (hgas : st.gas ≤ st.initialGas) :
    (st.splitTxFee rate).total = st.initialGas * st.gasPrice := by
  simp only [splitTxFee_of_none rate h, TxFees.total, StateTransition.gasUsed, Nat.cast_sub hgas]
  ring

/-- With conversion the refund makes the three parts add up to the debit. -/
theorem total_splitTxFee_of_some {maxFee : Nat} (h : st.msg.maxFeeInFeeCurrency = some maxFee) :
    (st.splitTxFee rate).total = st.erc20FeeDebited := by
  simp only [splitTxFee_of_some rate h, TxFees.total]
  omega

theorem baseTxFee_splitTxFee_nonneg : 0 ≤ (st.splitTxFee rate).baseTxFee := by
  have hbase : (0 : Int) ≤ st.gasUsed * st.gasPriceMinimum := Int.natCast_nonneg _
  cases h : st.msg.maxFeeInFeeCurrency with
  | none => rw [splitTxFee_of_none rate h]; exact hbase
  | some maxFee => rw [splitTxFee_of_some rate h]; exact rate.fromBase_nonneg hbase

theorem refund_splitTxFee_nonneg_of_none (h : st.msg.maxFeeInFeeCurrency = none) :
    0 ≤ (st.splitTxFee rate).refund := by
  rw [splitTxFee_of_none rate h]
  exact Int.natCast_nonneg _

/-- With conversion the refund is not negative as long as the debit covers
the gas bought: rounding the tip and the base fee down separately never
takes more than rounding their sum. -/
theorem refund_splitTxFee_nonneg_of_some {maxFee : Nat} (h : st.msg.maxFeeInFeeCurrency = some maxFee)
    (hdebit : rate.fromBase (st.initialGas * st.gasPrice) ≤ st.erc20FeeDebited) :
    0 ≤ (st.splitTxFee rate).refund := by
  rw [splitTxFee_of_some rate h]
  dsimp only
  have hsplit := rate.fromBase_add_le (st.gasUsed * st.gasPrice - st.gasUsed * st.gasPriceMinimum)
    (st.gasUsed * st.gasPriceMinimum)
  have hused : rate.fromBase (st.gasUsed * st.gasPrice) ≤ rate.fromBase (st.initialGas * st.gasPrice) :=
    rate.fromBase_mono (by
      rw [StateTransition.gasUsed]
      exact_mod_cast Nat.mul_le_mul_right _ (Nat.sub_le _ _))
  rw [Int.sub_add_cancel] at hsplit
  omega

end Split

section Credit

variable {st : StateTransition} (env : Env) (rate : ExchangeRate)

/-- Refunding the base fee when no fee handler is deployed keeps the total. -/
theorem total_creditTxFees : (st.creditTxFees env rate).1.total = (st.splitTxFee rate).total := by
  unfold StateTransition.creditTxFees TxFees.total
  split
  · dsimp only
    omega
  · rfl

theorem tipTxFee_creditTxFees :
    (st.creditTxFees env rate).1.tipTxFee = (st.splitTxFee rate).tipTxFee := by
  unfold StateTransition.creditTxFees
  split <;> rfl

theorem baseTxFee_creditTxFees_nonneg : 0 ≤ (st.creditTxFees env rate).1.baseTxFee := by
  unfold StateTransition.creditTxFees
  split
  · exact Int.le_refl 0
  · exact baseTxFee_splitTxFee_nonneg rate

theorem refund_creditTxFees_nonneg (h : 0 ≤ (st.splitTxFee rate).refund) :
    0 ≤ (st.creditTxFees env rate).1.refund := by
  have hbase := @baseTxFee_splitTxFee_nonneg st rate
  unfold StateTransition.creditTxFees
  split
  · dsimp only
    omega
  · exact h

end Credit

/-! ## Accepted transactions -/

section Accepted

variable {forks : Forks} {env : Env} {tx : Transaction} {sender : Address} {out : Outcome}

/-- The fees of an accepted transaction are what `creditTxFees` computes on
its final state. -/
theorem fees_eq {st : StateTransition} {rate : ExchangeRate} (hs : Settled forks env st rate out) :
    out.fees = (out.st.creditTxFees env rate).1 :=
  congrArg Prod.fst hs.credit_eq

theorem Settled.initialGas_eq_final {st : StateTransition} {rate : ExchangeRate}
    (hs : Settled forks env st rate out) : out.st.initialGas = out.st.msg.gasLimit := by
  rw [hs.initialGas_eq, hs.msg_eq]

/-- The debit, read on the final state. -/
theorem debited_eq_final {st : StateTransition} {rate : ExchangeRate}
    (hs : Settled forks env st rate out) : out.debited = (out.st.debitFee rate).2 := by
  rw [hs.debited_eq]
  exact (debitFee_snd_eq rate hs.msg_eq hs.gasPrice_eq).symm

/-- A CELO-denominated transaction that `TransitionDb` accepts pays in a fee
currency, and charges no gateway fee: HFork comes after Gingerbread, which
refuses gateway fees. -/
theorem Settled.denominated {st : StateTransition} {rate : ExchangeRate} {maxFee : Nat}
    (hforks : forks.Ordered) (hs : Settled forks env st rate out)
    (hden : out.st.msg.maxFeeInFeeCurrency = some maxFee) :
    out.st.msg.feeCurrency.isSome = true ∧ out.st.msg.gatewayFeeDue = 0 := by
  rw [hs.msg_eq] at hden ⊢
  have hsome : st.msg.maxFeeInFeeCurrency.isSome = true := by rw [hden]; rfl
  have hgingerbread : forks.gingerbread = true :=
    hforks.gingerbreadP2_gingerbread (hforks.hFork_gingerbreadP2 (hs.hFork_eq hsome))
  exact ⟨hs.feeCurrency_isSome hsome, gatewayFeeDue_eq_zero (hs.gatewaySet_eq hgingerbread)⟩

/-- **Conservation.** For every transaction `ApplyTransaction` accepts, the
refund and the base fee are not negative, and the refund, the tip, the base
fee and the gateway fee add up to the amount debited. -/
theorem applyTransaction_conserves (hforks : forks.Ordered)
    (h : applyTransaction forks env tx sender = .ok out) :
    0 ≤ out.fees.refund ∧ 0 ≤ out.fees.baseTxFee ∧
      out.fees.total + out.st.msg.gatewayFeeDue = out.debited := by
  obtain ⟨rate, hs⟩ := applyTransaction_settled h
  rw [fees_eq hs, total_creditTxFees, debited_eq_final hs]
  cases hden : out.st.msg.maxFeeInFeeCurrency with
  | none =>
    -- fee caps in the fee currency: the gas bought at the gas price, and the gateway fee
    refine ⟨refund_creditTxFees_nonneg env rate (refund_splitTxFee_nonneg_of_none rate hden),
      baseTxFee_creditTxFees_nonneg env rate, ?_⟩
    rw [total_splitTxFee_of_none rate hden hs.gas_le, debitFee_snd_of_none rate hden,
      hs.initialGas_eq_final]
  | some maxFee =>
    -- CELO-denominated: the refund is what is left of the converted debit
    obtain ⟨hfc, hgw⟩ := hs.denominated hforks hden
    have herc : out.st.erc20FeeDebited = (out.st.debitFee rate).2 := by
      rw [hs.erc20FeeDebited_eq (hs.msg_eq ▸ hfc), debited_eq_final hs]
    have hdebit : rate.fromBase (out.st.initialGas * out.st.gasPrice) ≤ out.st.erc20FeeDebited := by
      rw [herc, debitFee_snd_of_some rate hfc hden, hs.initialGas_eq_final, hgw]
      simp
    refine ⟨refund_creditTxFees_nonneg env rate (refund_splitTxFee_nonneg_of_some rate hden hdebit),
      baseTxFee_creditTxFees_nonneg env rate, ?_⟩
    rw [total_splitTxFee_of_some rate hden, herc, hgw]
    simp

/-- From Espresso, `AsMessage` prices the gas at the effective gas price for
the gas price minimum of the transaction's fee currency. -/
theorem applyTransaction_gasPrice (hesp : forks.espresso = true)
    (h : applyTransaction forks env tx sender = .ok out) :
    out.st.gasPrice =
      min (tx.gasTipCap + env.gasPriceMinimums.getGasPriceMinimum tx.feeCurrency) tx.gasFeeCap := by
  obtain ⟨rate, hs⟩ := applyTransaction_settled h
  rw [hs.gasPrice_eq, newStateTransition_gasPrice, txBaseFee_of_espresso env tx hesp,
    asMessage_gasPrice_some]

/-- From Espresso, the gas price minimum that splits the fee is CELO's for a
CELO-denominated transaction, and that of its fee currency for any other. -/
theorem applyTransaction_gasPriceMinimum (hesp : forks.espresso = true)
    (h : applyTransaction forks env tx sender = .ok out) :
    out.st.gasPriceMinimum = env.gasPriceMinimums.getGasPriceMinimum
      (if tx.maxFeeInFeeCurrency.isSome then none else tx.feeCurrency) := by
  obtain ⟨rate, hs⟩ := applyTransaction_settled h
  rw [hs.gasPriceMinimum_eq, hesp, newStateTransition_gasPriceMinimum]
  rfl

/-- The fee split of a transaction whose fee caps are in its fee currency
(`maxFeeInFeeCurrency` unset). From Espresso it pays the effective gas price
`min(gasTipCap + gasPriceMinimum, gasFeeCap)` for the same gas price minimum
that splits its fee. So its tip lies between `0` and `gasUsed · gasTipCap`. -/
theorem applyTransaction_fees_of_not_denominated (hesp : forks.espresso = true)
    (hden : tx.maxFeeInFeeCurrency = none) (h : applyTransaction forks env tx sender = .ok out) :
    out.st.gasPrice = min (tx.gasTipCap + out.st.gasPriceMinimum) tx.gasFeeCap ∧
      0 ≤ out.fees.tipTxFee ∧ out.fees.tipTxFee ≤ out.st.gasUsed * tx.gasTipCap := by
  obtain ⟨rate, hs⟩ := applyTransaction_settled h
  have hgpm : out.st.gasPriceMinimum = env.gasPriceMinimums.getGasPriceMinimum tx.feeCurrency := by
    rw [applyTransaction_gasPriceMinimum hesp h, hden]
    rfl
  have hgp : out.st.gasPrice = min (tx.gasTipCap + out.st.gasPriceMinimum) tx.gasFeeCap := by
    rw [applyTransaction_gasPrice hesp h, hgpm]
  -- `preCheck` at London bounds the gas price minimum by the fee cap
  have hmin : out.st.gasPriceMinimum ≤ tx.gasFeeCap := by
    have hpre := hs.preCheck_ok
    rw [hesp] at hpre
    rw [hs.gasPriceMinimum_eq, hesp]
    exact (preCheck_london hpre).2
  have hlo : out.st.gasPriceMinimum ≤ out.st.gasPrice := by
    rw [hgp]
    omega
  have hhi : out.st.gasPrice ≤ tx.gasTipCap + out.st.gasPriceMinimum := by
    rw [hgp]
    omega
  have hden' : out.st.msg.maxFeeInFeeCurrency = none := by
    rw [hs.msg_eq]
    exact hden
  rw [fees_eq hs, tipTxFee_creditTxFees, splitTxFee_of_none rate hden']
  dsimp only
  have hlo' : (out.st.gasUsed : Int) * out.st.gasPriceMinimum ≤ out.st.gasUsed * out.st.gasPrice := by
    exact_mod_cast Nat.mul_le_mul_left out.st.gasUsed hlo
  have hhi' : (out.st.gasUsed : Int) * out.st.gasPrice ≤
      out.st.gasUsed * tx.gasTipCap + out.st.gasUsed * out.st.gasPriceMinimum := by
    have := Nat.mul_le_mul_left out.st.gasUsed hhi
    rw [Nat.mul_add] at this
    exact_mod_cast this
  exact ⟨hgp, by omega, by omega⟩

/-- A CELO-denominated transaction's tip is negative when it used gas and
its gas price is below CELO's gas price minimum. That gas price is built
from its fee currency's minimum, so this happens when
`gasTipCap` plus that minimum is below CELO's. -/
theorem tipTxFee_neg_of_denominated (hesp : forks.espresso = true) {maxFee : Nat}
    (hden : tx.maxFeeInFeeCurrency = some maxFee) (h : applyTransaction forks env tx sender = .ok out)
    (hused : 0 < out.st.gasUsed)
    (hlow : tx.gasTipCap + env.gasPriceMinimums.getGasPriceMinimum tx.feeCurrency <
      env.gasPriceMinimums.getGasPriceMinimum none) :
    out.fees.tipTxFee < 0 := by
  obtain ⟨rate, hs⟩ := applyTransaction_settled h
  have hgpm : out.st.gasPriceMinimum = env.gasPriceMinimums.getGasPriceMinimum none := by
    rw [applyTransaction_gasPriceMinimum hesp h, hden]
    rfl
  have hbelow : out.st.gasPrice < out.st.gasPriceMinimum := by
    rw [applyTransaction_gasPrice hesp h, hgpm]
    omega
  have hden' : out.st.msg.maxFeeInFeeCurrency = some maxFee := by
    rw [hs.msg_eq]
    exact hden
  rw [fees_eq hs, tipTxFee_creditTxFees, splitTxFee_of_some rate hden']
  apply rate.fromBase_neg
  have : (out.st.gasUsed : Int) * out.st.gasPrice < out.st.gasUsed * out.st.gasPriceMinimum := by
    exact_mod_cast Nat.mul_lt_mul_of_pos_left hbelow hused
  omega

end Accepted

/-! ## What the fee currency is asked to credit -/

/-- `AmountToAbi` keeps the absolute value of an amount. -/
theorem ofBytes_amountToAbi (amount : Int) : ofBytes (amountToAbi amount) = amount.natAbs :=
  Vm.ofBytes_leftPadBytes_toBytes amount.natAbs

/-- The amounts `creditGasFees` reads are the absolute values of the
refund, the tip, the gateway fee and the base fee. A negative tip is
therefore credited as a positive one. -/
theorem received_creditFeesAmounts {fees : TxFees} {gatewayFee : Nat}
    (hr : 0 ≤ fees.refund) (hb : 0 ≤ fees.baseTxFee) :
    (((creditFeesAmounts fees gatewayFee).map ofBytes).sum : Int) =
      fees.refund + fees.tipTxFee.natAbs + gatewayFee + fees.baseTxFee := by
  simp only [creditFeesAmounts, List.map_cons, List.map_nil, List.sum_cons, List.sum_nil,
    ofBytes_amountToAbi]
  push_cast
  rw [abs_of_nonneg hr, abs_of_nonneg hb, Nat.abs_cast]
  ring

/-! ## A CELO-denominated transaction with a negative tip -/

/-- A block after HFork: every fork the fee path reads is active. -/
def hForkForks : Forks := ⟨true, true, true, true, true⟩

theorem hForkForks_ordered : hForkForks.Ordered :=
  ⟨fun _ => rfl, fun _ => rfl, fun _ => rfl, fun _ => rfl⟩

/-- A fee currency worth two CELO: one CELO is half a token. -/
def halfRate : ExchangeRate := ⟨1, 2, Nat.one_pos, Nat.two_pos⟩

/-- The token at address 7 trades at `halfRate`. CELO's gas price minimum is
10 and the token's is 5, the same price in the token. The call uses no gas
beyond the intrinsic 50, and a fee handler is deployed at address 99. -/
def halfRateEnv : Env where
  gasPriceMinimums := fun a => if a = zeroAddress then some 10 else if a = 7 then some 5 else none
  baseFeeForCurrency := fun _ => 0
  exchangeRate := fun feeCurrency => if feeCurrency = some 7 then some halfRate else none
  stateNonce := 0
  balance := fun _ => 1000000
  isWhitelisted := fun _ => true
  gasPool := 1000000
  intrinsicGas := 50
  canTransfer := true
  evm := ⟨id, fun _ => Nat.le_refl _, 0⟩
  feeHandler := some 99

/-- A CELO-denominated transaction with 100 gas, paid in the token. Its fee
cap is CELO's gas price minimum and it offers no tip. -/
def denominatedTx : Transaction where
  txType := .celoDenominated
  isProtected := true
  nonce := 0
  gas := 100
  gasPrice := 10
  gasFeeCap := 10
  gasTipCap := 0
  value := 0
  feeCurrency := some 7
  maxFeeInFeeCurrency := some 1000
  gatewayFeeRecipient := none
  gatewayFee := none
  ethCompatible := false

theorem celo_denominated_tip_negative :
    hForkForks.Ordered ∧
      ∃ out, applyTransaction hForkForks halfRateEnv denominatedTx 1 = .ok out ∧
        out.st.gasPrice ≠ min (denominatedTx.gasTipCap + out.st.gasPriceMinimum) denominatedTx.gasFeeCap ∧
        out.fees.tipTxFee < 0 ∧
        out.debited < (((creditFeesAmounts out.fees out.st.msg.gatewayFee).map ofBytes).sum : Int) := by
  refine ⟨hForkForks_ordered, _, rfl, by decide, by decide, ?_⟩
  rw [received_creditFeesAmounts (by decide) (by decide)]
  decide

/-- The run above: a gas price of 5 is split against a minimum of 10. The
debit is 250 tokens; the fee handler gets 250 and the coinbase a tip of
-125, which `creditGasFees` reads as 125. -/
example :
    (applyTransaction hForkForks halfRateEnv denominatedTx 1).map
        (fun out => (out.st.gasPrice, out.st.gasPriceMinimum, out.debited, out.fees)) =
      .ok (5, 10, 250, ⟨125, -125, 250⟩) := by
  decide

theorem applyTransaction_conserves_denominatedTx :
    hForkForks.Ordered ∧
      ∃ out, applyTransaction hForkForks halfRateEnv denominatedTx 1 = .ok out ∧
        0 ≤ out.fees.refund ∧ 0 ≤ out.fees.baseTxFee ∧
          out.fees.total + out.st.msg.gatewayFeeDue = out.debited := by
  obtain ⟨out, hout⟩ : ∃ out, applyTransaction hForkForks halfRateEnv denominatedTx 1 = .ok out :=
    ⟨_, rfl⟩
  exact ⟨hForkForks_ordered, out, hout, applyTransaction_conserves hForkForks_ordered hout⟩

end CeloBlockchain.Core
