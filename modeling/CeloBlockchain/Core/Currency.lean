import Mathlib

/-!
# Fee currencies and their comparison

This module models `contracts/currency/currency.go`: exchange rates to CELO,
the currencies built on them, and the `CurrencyManager` that fetches each
rate once and caches the currency.

A manager whose cache holds only what `GetCurrency` put there
(`CachedManager`) compares values by their exact CELO values:

* `cmpValues_eq_sign`: `CmpValues(a, c₁, b, c₂)` is the sign of
  `a · den₁ / num₁ - b · den₂ / num₂` when both rates are fetched and neither
  currency is the zero address;
* hence it is a total preorder across currencies (`cmpValues_trans`), and it
  is monotone in the first amount and antitone in the second on every
  manager (`cmpValues_mono_left`, `cmpValues_anti_right`).

The zero address is CELO's own `Currency.Address`, and `CmpToCurrency` deems
two currencies equal when their addresses are. A token registered at the zero
address is therefore compared with CELO without conversion
(`cmpValues_conflates_zero_address`).
-/

namespace CeloBlockchain.Core

/-- `common.Address`. -/
abbrev Address := Nat

/-- `common.ZeroAddress`. -/
def zeroAddress : Address := 0

/-! ## Exchange rates -/

/-- `currency.ExchangeRate`, from the base currency (CELO) to a token: one
unit of CELO is `numerator / denominator` tokens. `NewExchangeRate` refuses
a part that is not positive. -/
structure ExchangeRate where
  numerator : Nat
  denominator : Nat
  numerator_pos : 0 < numerator
  denominator_pos : 0 < denominator

/-- `ExchangeRate.FromBase`: an amount of CELO in the token, rounded down. -/
def ExchangeRate.fromBase (er : ExchangeRate) (goldAmount : Int) : Int :=
  goldAmount * er.numerator / er.denominator

/-- `ExchangeRate.ToBase`: an amount of the token in CELO, rounded down. -/
def ExchangeRate.toBase (er : ExchangeRate) (tokenAmount : Int) : Int :=
  tokenAmount * er.denominator / er.numerator

/-- `currency.NoopExchangeRate`. -/
def noopExchangeRate : ExchangeRate := ⟨1, 1, Nat.one_pos, Nat.one_pos⟩

/-- `big.Int.Cmp`: `-1`, `0` or `+1`. -/
def bigCmp (x y : Int) : Int := if x < y then -1 else if x = y then 0 else 1

/-! ## Currencies -/

/-- `currency.Currency`: an address and its rate to CELO. -/
structure Currency where
  address : Address
  toCELORate : ExchangeRate

/-- `CELOCurrency`: the zero address at the rate 1:1. -/
def celoCurrency : Currency := ⟨zeroAddress, noopExchangeRate⟩

/-- `Currency.ToCELO`. -/
def Currency.toCELO (c : Currency) (tokenAmount : Int) : Int := c.toCELORate.toBase tokenAmount

/-- `Currency.FromCELO`. -/
def Currency.fromCELO (c : Currency) (celoAmount : Int) : Int := c.toCELORate.fromBase celoAmount

/-- `CmpToCurrency`: the raw amounts when the addresses are equal (Go's
pointer test `c == sndCurrency` implies it), otherwise both sides
cross-multiplied by the other's rate. -/
def Currency.cmpToCurrency (c : Currency) (currencyAmount sndCurrencyAmount : Int)
    (sndCurrency : Currency) : Int :=
  if c.address = sndCurrency.address then bigCmp currencyAmount sndCurrencyAmount
  else
    let leftSide :=
      currencyAmount * ((c.toCELORate.denominator * sndCurrency.toCELORate.numerator : Nat) : Int)
    let rightSide :=
      sndCurrencyAmount * ((sndCurrency.toCELORate.denominator * c.toCELORate.numerator : Nat) : Int)
    bigCmp leftSide rightSide

/-! ## The manager -/

/-- `CurrencyManager`: the rate lookup `_getExchangeRate` on the manager's
EVM state (`none` is an error), and the cache of currencies fetched so far. -/
structure CurrencyManager where
  getExchangeRate : Address → Option ExchangeRate
  currencyCache : Address → Option Currency

/-- `newManager`: nothing cached. -/
def newManager (getExchangeRate : Address → Option ExchangeRate) : CurrencyManager :=
  ⟨getExchangeRate, fun _ => none⟩

namespace CurrencyManager

/-- `GetCurrency`: CELO for `nil`, else the cached currency, else the
currency of the fetched rate, which is then cached. -/
def getCurrency (cc : CurrencyManager) : Option Address → Option Currency × CurrencyManager
  | none => (some celoCurrency, cc)
  | some currencyAddress =>
    match cc.currencyCache currencyAddress with
    | some val => (some val, cc)
    | none =>
      match cc.getExchangeRate currencyAddress with
      | none => (none, cc)
      | some currencyExchangeRate =>
        let val : Currency := ⟨currencyAddress, currencyExchangeRate⟩
        (some val, { cc with currencyCache := Function.update cc.currencyCache currencyAddress (some val) })

/-- `CmpValues`. When a rate cannot be fetched the raw values are compared. -/
def cmpValues (cc : CurrencyManager) (val1 : Int) (currencyAddr1 : Option Address) (val2 : Int)
    (currencyAddr2 : Option Address) : Int × CurrencyManager :=
  -- `AreEqualAddresses`: both `nil`, or both set to one address
  if currencyAddr1 = currencyAddr2 then (bigCmp val1 val2, cc)
  else
    let (currency1, cc) := cc.getCurrency currencyAddr1
    let (currency2, cc) := cc.getCurrency currencyAddr2
    match currency1, currency2 with
    | some currency1, some currency2 => (currency1.cmpToCurrency val1 val2 currency2, cc)
    | _, _ => (bigCmp val1 val2, cc)

end CurrencyManager

/-! ## Exact comparison -/

namespace ExchangeRate

variable (er : ExchangeRate)

theorem denominator_cast_pos : (0 : Int) < er.denominator := by
  exact_mod_cast er.denominator_pos

theorem fromBase_nonneg {x : Int} (hx : 0 ≤ x) : 0 ≤ er.fromBase x :=
  Int.ediv_nonneg (Int.mul_nonneg hx (Int.natCast_nonneg _)) (Int.natCast_nonneg _)

theorem fromBase_neg {x : Int} (hx : x < 0) : er.fromBase x < 0 :=
  Int.ediv_neg_of_neg_of_pos
    (Int.mul_neg_of_neg_of_pos hx (by exact_mod_cast er.numerator_pos)) er.denominator_cast_pos

theorem fromBase_mono {x y : Int} (h : x ≤ y) : er.fromBase x ≤ er.fromBase y :=
  Int.ediv_le_ediv er.denominator_cast_pos (Int.mul_le_mul_of_nonneg_right h (Int.natCast_nonneg _))

/-- Rounding down loses at least as much on the parts as on the sum. -/
theorem fromBase_add_le (x y : Int) : er.fromBase x + er.fromBase y ≤ er.fromBase (x + y) := by
  unfold fromBase
  rw [Int.add_mul]
  exact Int.ediv_add_ediv_le_add_ediv er.denominator_cast_pos

theorem numerator_cast_pos : (0 : Int) < er.numerator := by
  exact_mod_cast er.numerator_pos

theorem toBase_mono {x y : Int} (h : x ≤ y) : er.toBase x ≤ er.toBase y :=
  Int.ediv_le_ediv er.numerator_cast_pos (Int.mul_le_mul_of_nonneg_right h (Int.natCast_nonneg _))

/-- Converting to CELO and back never gains: both conversions round down. -/
theorem fromBase_toBase_le (x : Int) : er.fromBase (er.toBase x) ≤ x := by
  have hround : er.toBase x * er.numerator ≤ x * er.denominator :=
    Int.ediv_mul_le _ (ne_of_gt er.numerator_cast_pos)
  exact Int.ediv_le_of_le_mul er.denominator_cast_pos hround

/-- The exact CELO value of an amount of the token. -/
def celoValue (x : Int) : ℚ := x * er.denominator / er.numerator

theorem celoValue_sub (x y : Int) : er.celoValue x - er.celoValue y = (x - y) * er.denominator / er.numerator := by
  unfold celoValue
  ring

/-- `ToBase` is the exact value when the division is exact. -/
theorem toBase_eq_celoValue {x : Int} (h : (er.numerator : Int) ∣ x * er.denominator) :
    (er.toBase x : ℚ) = er.celoValue x := by
  obtain ⟨q, hq⟩ := h
  have hn : (er.numerator : ℚ) ≠ 0 := by exact_mod_cast er.numerator_pos.ne'
  have hdiv : er.toBase x = q := by
    rw [toBase, hq, Int.mul_ediv_cancel_left _ (ne_of_gt er.numerator_cast_pos)]
  rw [hdiv, celoValue, eq_div_iff hn]
  exact_mod_cast (hq.trans (mul_comm _ _)).symm

end ExchangeRate

/-- `Cmp` is the sign of the difference. -/
theorem bigCmp_eq_sign (x y : Int) : bigCmp x y = (SignType.sign ((x : ℚ) - y) : Int) := by
  unfold bigCmp
  split_ifs with hlt heq
  · rw [sign_neg (sub_neg.mpr (by exact_mod_cast hlt))]
    rfl
  · rw [heq, sub_self, sign_zero]
    rfl
  · have hgt : (y : ℚ) < x := by exact_mod_cast lt_of_le_of_ne (not_lt.mp hlt) (Ne.symm heq)
    rw [sign_pos (sub_pos.mpr hgt)]
    rfl

theorem bigCmp_swap (x y : Int) : bigCmp x y = -bigCmp y x := by
  unfold bigCmp
  split_ifs <;> omega

theorem bigCmp_mono_left {x x' : Int} (h : x ≤ x') (y : Int) : bigCmp x y ≤ bigCmp x' y := by
  unfold bigCmp
  split_ifs <;> omega

theorem bigCmp_anti_right (x : Int) {y y' : Int} (h : y ≤ y') : bigCmp x y' ≤ bigCmp x y := by
  unfold bigCmp
  split_ifs <;> omega

/-- Comparing two amounts at one rate is comparing their CELO values. -/
theorem bigCmp_eq_sign_celoValue (er : ExchangeRate) (x y : Int) :
    bigCmp x y = (SignType.sign (er.celoValue x - er.celoValue y) : Int) := by
  have hpos : (0 : ℚ) < er.denominator / er.numerator :=
    div_pos (by exact_mod_cast er.denominator_pos) (by exact_mod_cast er.numerator_pos)
  rw [bigCmp_eq_sign, er.celoValue_sub, mul_div_assoc, sign_mul, sign_pos hpos, mul_one]

namespace Currency

/-- Currencies at different addresses are compared by their exact CELO
values: the cross-multiplied sides are those values times `num₁ · num₂`. -/
theorem cmpToCurrency_of_ne {c d : Currency} (h : c.address ≠ d.address) (a b : Int) :
    c.cmpToCurrency a b d =
      (SignType.sign (c.toCELORate.celoValue a - d.toCELORate.celoValue b) : Int) := by
  have hn₁ : (c.toCELORate.numerator : ℚ) ≠ 0 := by exact_mod_cast c.toCELORate.numerator_pos.ne'
  have hn₂ : (d.toCELORate.numerator : ℚ) ≠ 0 := by exact_mod_cast d.toCELORate.numerator_pos.ne'
  have hpos : (0 : ℚ) < c.toCELORate.numerator * d.toCELORate.numerator := by
    have := c.toCELORate.numerator_pos
    have := d.toCELORate.numerator_pos
    positivity
  have hsides : ((a * ((c.toCELORate.denominator * d.toCELORate.numerator : Nat) : Int) : Int) : ℚ) -
      ((b * ((d.toCELORate.denominator * c.toCELORate.numerator : Nat) : Int) : Int) : ℚ) =
      (c.toCELORate.celoValue a - d.toCELORate.celoValue b) *
        (c.toCELORate.numerator * d.toCELORate.numerator) := by
    unfold ExchangeRate.celoValue
    field_simp
    push_cast
    ring
  rw [cmpToCurrency, if_neg h, bigCmp_eq_sign, hsides, sign_mul, sign_pos hpos, mul_one]

theorem cmpToCurrency_swap (c d : Currency) (a b : Int) :
    c.cmpToCurrency a b d = -d.cmpToCurrency b a c := by
  by_cases h : c.address = d.address
  · rw [cmpToCurrency, if_pos h, cmpToCurrency, if_pos h.symm, bigCmp_swap]
  · rw [cmpToCurrency, if_neg h, cmpToCurrency, if_neg (Ne.symm h), bigCmp_swap]

theorem cmpToCurrency_mono_left (c d : Currency) {a a' : Int} (h : a ≤ a') (b : Int) :
    c.cmpToCurrency a b d ≤ c.cmpToCurrency a' b d := by
  unfold cmpToCurrency
  split
  · exact bigCmp_mono_left h b
  · exact bigCmp_mono_left (Int.mul_le_mul_of_nonneg_right h (Int.natCast_nonneg _)) _

theorem cmpToCurrency_anti_right (c d : Currency) (a : Int) {b b' : Int} (h : b ≤ b') :
    c.cmpToCurrency a b' d ≤ c.cmpToCurrency a b d := by
  unfold cmpToCurrency
  split
  · exact bigCmp_anti_right a h
  · exact bigCmp_anti_right _ (Int.mul_le_mul_of_nonneg_right h (Int.natCast_nonneg _))

end Currency

/-! ## Managers that cache what they fetched -/

namespace CurrencyManager

/-- Every cached currency carries the address it is cached under. -/
def Consistent (cc : CurrencyManager) : Prop :=
  ∀ a v, cc.currencyCache a = some v → v.address = a

theorem newManager_consistent (getExchangeRate : Address → Option ExchangeRate) :
    (newManager getExchangeRate).Consistent := fun _ _ h => by cases h

variable {cc : CurrencyManager}

@[simp] theorem getCurrency_none : cc.getCurrency none = (some celoCurrency, cc) := rfl

theorem getCurrency_of_cached {a : Address} {v : Currency} (h : cc.currencyCache a = some v) :
    cc.getCurrency (some a) = (some v, cc) := by
  simp [getCurrency, h]

theorem getCurrency_of_fetch_none {a : Address} (hc : cc.currencyCache a = none)
    (hr : cc.getExchangeRate a = none) : cc.getCurrency (some a) = (none, cc) := by
  simp [getCurrency, hc, hr]

theorem getCurrency_of_fetch {a : Address} {r : ExchangeRate} (hc : cc.currencyCache a = none)
    (hr : cc.getExchangeRate a = some r) :
    cc.getCurrency (some a) =
      (some ⟨a, r⟩, { cc with currencyCache := Function.update cc.currencyCache a (some ⟨a, r⟩) }) := by
  simp [getCurrency, hc, hr]

theorem getCurrency_consistent (h : cc.Consistent) (c : Option Address) :
    (cc.getCurrency c).2.Consistent := by
  cases c with
  | none => exact h
  | some a =>
    rcases hc : cc.currencyCache a with _ | v
    · rcases hr : cc.getExchangeRate a with _ | r
      · rw [getCurrency_of_fetch_none hc hr]
        exact h
      · rw [getCurrency_of_fetch hc hr]
        -- the new entry is cached under its own address
        intro a' v hv
        by_cases ha : a' = a
        · subst ha
          simp only [Function.update_self, Option.some.injEq] at hv
          rw [← hv]
        · exact h a' v (by simpa [Function.update_of_ne ha] using hv)
    · rw [getCurrency_of_cached hc]
      exact h

/-- A currency `GetCurrency` returns has the address asked for, the zero
address standing for `nil`. -/
theorem getCurrency_address (h : cc.Consistent) {c : Option Address} {cur : Currency}
    (hcur : (cc.getCurrency c).1 = some cur) : cur.address = c.getD zeroAddress := by
  cases c with
  | none =>
    cases hcur
    rfl
  | some a =>
    rcases hc : cc.currencyCache a with _ | v
    · rcases hr : cc.getExchangeRate a with _ | r
      · rw [getCurrency_of_fetch_none hc hr] at hcur
        cases hcur
      · rw [getCurrency_of_fetch hc hr] at hcur
        cases hcur
        rfl
    · rw [getCurrency_of_cached hc] at hcur
      cases hcur
      exact h a _ hc

/-- Fetching one currency does not change what another lookup returns. -/
theorem getCurrency_getCurrency_of_ne {c₁ c₂ : Option Address} (hne : c₁ ≠ c₂) :
    ((cc.getCurrency c₁).2.getCurrency c₂).1 = (cc.getCurrency c₂).1 := by
  cases c₁ with
  | none => rfl
  | some a₁ =>
    rcases hc : cc.currencyCache a₁ with _ | v
    · rcases hr : cc.getExchangeRate a₁ with _ | r
      · rw [getCurrency_of_fetch_none hc hr]
      · rw [getCurrency_of_fetch hc hr]
        cases c₂ with
        | none => rfl
        | some a₂ =>
          have ha : a₂ ≠ a₁ := fun h => hne (h ▸ rfl)
          simp only [getCurrency, Function.update_of_ne ha]
          rcases cc.currencyCache a₂ with _ | v₂ <;> rcases cc.getExchangeRate a₂ with _ | r₂ <;> rfl
    · rw [getCurrency_of_cached hc]

/-- `CmpValues` on two addresses: the two lookups, then `CmpToCurrency`. -/
theorem cmpValues_fst_of_ne {c₁ c₂ : Option Address} (hne : c₁ ≠ c₂) (a b : Int) :
    (cc.cmpValues a c₁ b c₂).1 =
      match (cc.getCurrency c₁).1, (cc.getCurrency c₂).1 with
      | some cur₁, some cur₂ => cur₁.cmpToCurrency a b cur₂
      | _, _ => bigCmp a b := by
  have h₂ : ((cc.getCurrency c₁).2.getCurrency c₂).1 = (cc.getCurrency c₂).1 :=
    getCurrency_getCurrency_of_ne hne
  rw [cmpValues, if_neg hne, ← h₂]
  rcases cc.getCurrency c₁ with ⟨cur₁, cc₁⟩
  dsimp only
  rcases cc₁.getCurrency c₂ with ⟨cur₂, cc₂⟩
  rcases cur₁ with _ | cur₁ <;> rcases cur₂ with _ | cur₂ <;> rfl

theorem cmpValues_consistent (h : cc.Consistent) (a : Int) (c₁ : Option Address) (b : Int)
    (c₂ : Option Address) : (cc.cmpValues a c₁ b c₂).2.Consistent := by
  unfold cmpValues
  split
  · exact h
  · -- the manager after the second lookup
    have h₁ := getCurrency_consistent h c₁
    rcases hg₁ : cc.getCurrency c₁ with ⟨cur₁, cc₁⟩
    rw [hg₁] at h₁
    dsimp only
    have h₂ := getCurrency_consistent h₁ c₂
    rcases hg₂ : cc₁.getCurrency c₂ with ⟨cur₂, cc₂⟩
    rw [hg₂] at h₂
    dsimp only
    rcases cur₁ with _ | cur₁ <;> rcases cur₂ with _ | cur₂ <;> exact h₂

/-! ### Laws on every manager -/

theorem cmpValues_self (a : Int) (c : Option Address) : (cc.cmpValues a c a c).1 = 0 := by
  simp [cmpValues, bigCmp]

theorem cmpValues_swap (a : Int) (c₁ : Option Address) (b : Int) (c₂ : Option Address) :
    (cc.cmpValues a c₁ b c₂).1 = -(cc.cmpValues b c₂ a c₁).1 := by
  by_cases hne : c₁ = c₂
  · subst hne
    simp only [cmpValues, if_true]
    exact bigCmp_swap a b
  · rw [cmpValues_fst_of_ne hne, cmpValues_fst_of_ne (Ne.symm hne)]
    cases (cc.getCurrency c₁).1 <;> cases (cc.getCurrency c₂).1
    all_goals first
      | exact Currency.cmpToCurrency_swap _ _ a b
      | exact bigCmp_swap a b

theorem cmpValues_mono_left {a a' : Int} (h : a ≤ a') (c₁ : Option Address) (b : Int)
    (c₂ : Option Address) : (cc.cmpValues a c₁ b c₂).1 ≤ (cc.cmpValues a' c₁ b c₂).1 := by
  by_cases hne : c₁ = c₂
  · subst hne
    simp only [cmpValues, if_true]
    exact bigCmp_mono_left h b
  · rw [cmpValues_fst_of_ne hne, cmpValues_fst_of_ne hne]
    cases (cc.getCurrency c₁).1 <;> cases (cc.getCurrency c₂).1
    all_goals first
      | exact Currency.cmpToCurrency_mono_left _ _ h b
      | exact bigCmp_mono_left h b

theorem cmpValues_anti_right (a : Int) (c₁ : Option Address) {b b' : Int} (h : b ≤ b')
    (c₂ : Option Address) : (cc.cmpValues a c₁ b' c₂).1 ≤ (cc.cmpValues a c₁ b c₂).1 := by
  by_cases hne : c₁ = c₂
  · subst hne
    simp only [cmpValues, if_true]
    exact bigCmp_anti_right a h
  · rw [cmpValues_fst_of_ne hne, cmpValues_fst_of_ne hne]
    cases (cc.getCurrency c₁).1 <;> cases (cc.getCurrency c₂).1
    all_goals first
      | exact Currency.cmpToCurrency_anti_right _ _ a h
      | exact bigCmp_anti_right a h

end CurrencyManager

/-! ### Exact comparison on managers that cache what they fetched -/

/-- A manager reached from `newManager` by `GetCurrency` and `CmpValues`
calls: its cache holds each currency under its own address. -/
structure CachedManager where
  toManager : CurrencyManager
  consistent : toManager.Consistent

namespace CachedManager

open CurrencyManager

/-- `NewManager`. -/
def new (getExchangeRate : Address → Option ExchangeRate) : CachedManager :=
  ⟨newManager getExchangeRate, newManager_consistent getExchangeRate⟩

/-- `GetCurrency`, which keeps the cache consistent. -/
def getCurrency (m : CachedManager) (c : Option Address) : Option Currency × CachedManager :=
  ((m.toManager.getCurrency c).1, ⟨_, getCurrency_consistent m.consistent c⟩)

/-- `CmpValues`, which keeps the cache consistent. -/
def cmpValues (m : CachedManager) (a : Int) (c₁ : Option Address) (b : Int) (c₂ : Option Address) :
    Int × CachedManager :=
  ((m.toManager.cmpValues a c₁ b c₂).1, ⟨_, cmpValues_consistent m.consistent a c₁ b c₂⟩)

theorem eq_of_getD_eq {c₁ c₂ : Option Address} (hz₁ : c₁ ≠ some zeroAddress)
    (hz₂ : c₂ ≠ some zeroAddress) (h : c₁.getD zeroAddress = c₂.getD zeroAddress) : c₁ = c₂ := by
  cases c₁ <;> cases c₂ <;> simp_all

variable (m : CachedManager)

/-- **Exactness.** Two currencies that are fetched, neither at the zero
address, are compared by their exact CELO values. -/
theorem cmpValues_eq_sign {c₁ c₂ : Option Address} {cur₁ cur₂ : Currency}
    (h₁ : (m.toManager.getCurrency c₁).1 = some cur₁) (h₂ : (m.toManager.getCurrency c₂).1 = some cur₂)
    (hz₁ : c₁ ≠ some zeroAddress) (hz₂ : c₂ ≠ some zeroAddress) (a b : Int) :
    (m.toManager.cmpValues a c₁ b c₂).1 =
      (SignType.sign (cur₁.toCELORate.celoValue a - cur₂.toCELORate.celoValue b) : Int) := by
  by_cases hne : c₁ = c₂
  · -- one currency: the raw amounts, at one rate
    subst hne
    rw [h₁, Option.some.injEq] at h₂
    subst h₂
    simp only [CurrencyManager.cmpValues, if_true]
    exact bigCmp_eq_sign_celoValue _ a b
  · have haddr : cur₁.address ≠ cur₂.address := by
      rw [getCurrency_address m.consistent h₁, getCurrency_address m.consistent h₂]
      exact fun h => hne (eq_of_getD_eq hz₁ hz₂ h)
    rw [cmpValues_fst_of_ne hne, h₁, h₂]
    exact Currency.cmpToCurrency_of_ne haddr a b

theorem sign_cast_nonpos_iff (q : ℚ) : ((SignType.sign q : SignType) : Int) ≤ 0 ↔ q ≤ 0 := by
  rcases lt_trichotomy q 0 with hq | hq | hq
  · simp [sign_neg hq, hq.le]
  · simp [hq]
  · simp [sign_pos hq, not_le.mpr hq]

/-- **Transitivity** across three currencies. -/
theorem cmpValues_trans {c₁ c₂ c₃ : Option Address} {cur₁ cur₂ cur₃ : Currency}
    (h₁ : (m.toManager.getCurrency c₁).1 = some cur₁) (h₂ : (m.toManager.getCurrency c₂).1 = some cur₂)
    (h₃ : (m.toManager.getCurrency c₃).1 = some cur₃) (hz₁ : c₁ ≠ some zeroAddress)
    (hz₂ : c₂ ≠ some zeroAddress) (hz₃ : c₃ ≠ some zeroAddress) {a b x : Int}
    (hab : (m.toManager.cmpValues a c₁ b c₂).1 ≤ 0) (hbx : (m.toManager.cmpValues b c₂ x c₃).1 ≤ 0) :
    (m.toManager.cmpValues a c₁ x c₃).1 ≤ 0 := by
  rw [cmpValues_eq_sign m h₁ h₂ hz₁ hz₂, sign_cast_nonpos_iff, sub_nonpos] at hab
  rw [cmpValues_eq_sign m h₂ h₃ hz₂ hz₃, sign_cast_nonpos_iff, sub_nonpos] at hbx
  rw [cmpValues_eq_sign m h₁ h₃ hz₁ hz₃, sign_cast_nonpos_iff, sub_nonpos]
  exact hab.trans hbx

theorem celoValue_noopExchangeRate (x : Int) : noopExchangeRate.celoValue x = x := by
  simp [ExchangeRate.celoValue, noopExchangeRate]

/-- An amount converted to CELO without rounding compares equal to it. -/
theorem cmpValues_toCELO_of_dvd {c : Option Address} {cur : Currency}
    (h : (m.toManager.getCurrency c).1 = some cur) (hz : c ≠ some zeroAddress) {x : Int}
    (hdvd : (cur.toCELORate.numerator : Int) ∣ x * cur.toCELORate.denominator) :
    (m.toManager.cmpValues (cur.toCELO x) none x c).1 = 0 := by
  have hcelo : (m.toManager.getCurrency none).1 = some celoCurrency := rfl
  rw [cmpValues_eq_sign m hcelo h (by simp) hz, celoCurrency, celoValue_noopExchangeRate,
    Currency.toCELO, cur.toCELORate.toBase_eq_celoValue hdvd, sub_self, sign_zero]
  rfl

/-- **Comparison of values across currencies.** Away from the zero address,
`CmpValues` is the sign of the difference of the exact CELO values. It is
reflexive, antisymmetric and transitive, monotone in the first amount and
antitone in the second. `ToCELO` and `FromCELO` are monotone, a round trip
through CELO never gains, and an exact conversion compares equal. -/
theorem cmpValues_exact_total_preorder :
    (∀ (a b : Int) (c₁ c₂ : Option Address) (cur₁ cur₂ : Currency),
        (m.toManager.getCurrency c₁).1 = some cur₁ → (m.toManager.getCurrency c₂).1 = some cur₂ →
        c₁ ≠ some zeroAddress → c₂ ≠ some zeroAddress →
        (m.toManager.cmpValues a c₁ b c₂).1 =
          (SignType.sign (cur₁.toCELORate.celoValue a - cur₂.toCELORate.celoValue b) : Int)) ∧
    (∀ (a : Int) (c : Option Address), (m.toManager.cmpValues a c a c).1 = 0) ∧
    (∀ (a b : Int) (c₁ c₂ : Option Address),
        (m.toManager.cmpValues a c₁ b c₂).1 = -(m.toManager.cmpValues b c₂ a c₁).1) ∧
    (∀ (a b x : Int) (c₁ c₂ c₃ : Option Address) (cur₁ cur₂ cur₃ : Currency),
        (m.toManager.getCurrency c₁).1 = some cur₁ → (m.toManager.getCurrency c₂).1 = some cur₂ →
        (m.toManager.getCurrency c₃).1 = some cur₃ → c₁ ≠ some zeroAddress →
        c₂ ≠ some zeroAddress → c₃ ≠ some zeroAddress →
        (m.toManager.cmpValues a c₁ b c₂).1 ≤ 0 → (m.toManager.cmpValues b c₂ x c₃).1 ≤ 0 →
        (m.toManager.cmpValues a c₁ x c₃).1 ≤ 0) ∧
    (∀ (a a' b : Int) (c₁ c₂ : Option Address), a ≤ a' →
        (m.toManager.cmpValues a c₁ b c₂).1 ≤ (m.toManager.cmpValues a' c₁ b c₂).1) ∧
    (∀ (a b b' : Int) (c₁ c₂ : Option Address), b ≤ b' →
        (m.toManager.cmpValues a c₁ b' c₂).1 ≤ (m.toManager.cmpValues a c₁ b c₂).1) ∧
    (∀ (cur : Currency) (x y : Int), x ≤ y →
        cur.toCELO x ≤ cur.toCELO y ∧ cur.fromCELO x ≤ cur.fromCELO y) ∧
    (∀ (cur : Currency) (x : Int), cur.fromCELO (cur.toCELO x) ≤ x) ∧
    (∀ (x : Int) (c : Option Address) (cur : Currency), (m.toManager.getCurrency c).1 = some cur →
        c ≠ some zeroAddress → (cur.toCELORate.numerator : Int) ∣ x * cur.toCELORate.denominator →
        (m.toManager.cmpValues (cur.toCELO x) none x c).1 = 0) := by
  refine ⟨fun a b _ _ _ _ h₁ h₂ hz₁ hz₂ => cmpValues_eq_sign m h₁ h₂ hz₁ hz₂ a b,
    fun a c => cmpValues_self a c, fun a b c₁ c₂ => cmpValues_swap a c₁ b c₂,
    fun _ _ _ _ _ _ _ _ _ h₁ h₂ h₃ hz₁ hz₂ hz₃ hab hbx =>
      cmpValues_trans m h₁ h₂ h₃ hz₁ hz₂ hz₃ hab hbx,
    fun _ _ b c₁ c₂ h => cmpValues_mono_left h c₁ b c₂,
    fun a _ _ c₁ c₂ h => cmpValues_anti_right a c₁ h c₂, ?_, ?_,
    fun _ _ _ h hz hdvd => cmpValues_toCELO_of_dvd m h hz hdvd⟩
  · intro cur x y hxy
    exact ⟨cur.toCELORate.toBase_mono hxy, cur.toCELORate.fromBase_mono hxy⟩
  · intro cur x
    exact cur.toCELORate.fromBase_toBase_le x

end CachedManager

/-- Two tokens for one CELO. -/
def twoPerCelo : ExchangeRate := ⟨2, 1, by decide, by decide⟩

/-- A token registered at the zero address has the address of
`CELOCurrency`, so `CmpToCurrency` compares it with CELO without converting:
one CELO and one such token (half a CELO) compare equal. -/
theorem cmpValues_conflates_zero_address :
    ((CachedManager.new fun _ => some twoPerCelo).toManager.getCurrency (some zeroAddress)).1 =
        some ⟨zeroAddress, twoPerCelo⟩ ∧
      ((CachedManager.new fun _ => some twoPerCelo).toManager.cmpValues 1 none 1
        (some zeroAddress)).1 = 0 ∧
      (SignType.sign (noopExchangeRate.celoValue 1 - twoPerCelo.celoValue 1) : Int) = 1 := by
  refine ⟨rfl, by decide, ?_⟩
  have hpos : (0 : ℚ) < noopExchangeRate.celoValue 1 - twoPerCelo.celoValue 1 := by
    norm_num [ExchangeRate.celoValue, noopExchangeRate, twoPerCelo]
  rw [sign_pos hpos]
  rfl

end CeloBlockchain.Core
