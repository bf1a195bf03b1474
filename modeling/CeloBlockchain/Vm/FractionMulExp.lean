import CeloBlockchain.Lib.BigEndian

/-!
# The `fractionMulExp` precompile

`fractionMulExp.RequiredGas` and `Run` (`core/vm/celo_contracts.go`) and
`RunPrecompiledContract` (`core/vm/contracts.go`).  A byte string is a list
of bytes and a `*big.Int` a natural number.  A Go panic is an outcome of its
own (`Fault.panic`), apart from the errors `Run` returns: a precompile runs
inside block processing with no `recover`.

The zero-denominator guard compares `*big.Int` pointers
(`aDenominator == big.NewInt(0)`); `big.NewInt` returns a fresh pointer, so
the guard never holds (`bigIntPointerEq`).
-/

namespace CeloBlockchain.Vm

open BigEndian

/-- How a precompile call ends without output. -/
inductive Fault
  /-- `ErrInputLength`. -/
  | inputLength
  /-- "Error parsing input: unable to parse %s value from %s". -/
  | parse (field : String)
  /-- "Input Error: Denominator of zero provided!". -/
  | zeroDenominator
  /-- "Input Error: Decimals or exponent too large". -/
  | tooLarge
  /-- `ErrOutOfGas`. -/
  | outOfGas
  /-- A Go runtime panic: `big.Int` division by zero. -/
  | panic
deriving DecidableEq, Repr

/-- `input[a:b]`, within the input. -/
def slice (input : List UInt8) (a b : Nat) : List UInt8 := (input.drop a).take (b - a)

/-- `common.LeftPadBytes`: zeros in front up to `l` bytes; a longer slice is
returned as it is. -/
def leftPadBytes (bytes : List UInt8) (l : Nat) : List UInt8 :=
  if l ≤ bytes.length then bytes else List.replicate (l - bytes.length) 0 ++ bytes

/-- `math.ParseBig256(hexutil.Encode(bytes))`: the hex digits of the bytes,
none for an empty slice (`"0x"` alone) or above 256 bits. -/
def parseBig256 (bytes : List UInt8) : Option Nat :=
  if bytes = [] then none
  else if 2 ^ 256 ≤ ofBytes bytes then none
  else some (ofBytes bytes)

/-- `big.Int.IsInt64` of a non-negative number. -/
def isInt64 (n : Nat) : Bool := n < 2 ^ 63

/-- `x == big.NewInt(0)` on `*big.Int`: `big.NewInt` returns a fresh pointer,
equal to no other whatever the values. -/
def bigIntPointerEq (_x _y : Nat) : Bool := false

/-- `params.FractionMulExpGas`. -/
def fractionMulExpGas : Nat := 50

/-- The loop of `RequiredGas`: the gas triples while `numbers` halves down
to 10. -/
def gasLoop (gas numbers : Nat) : Nat :=
  if h : numbers > 10 then gasLoop (gas * 3) (numbers / 2) else gas
termination_by numbers
decreasing_by omega

/-- `fractionMulExp.RequiredGas`. -/
def requiredGas (input : List UInt8) : Nat :=
  if input.length < 192 then fractionMulExpGas
  else
    match parseBig256 (slice input 128 160), parseBig256 (slice input 160 192) with
    | some exponent, some decimals =>
      if !isInt64 decimals || !isInt64 exponent then fractionMulExpGas
      else
        let numbers := max decimals exponent
        if numbers > 100000 then fractionMulExpGas else gasLoop fractionMulExpGas numbers
    | _, _ => fractionMulExpGas

/-- `fractionMulExp.Run`: `aNumerator / aDenominator · (bNumerator /
bDenominator) ^ exponent` to `decimals` places, as two 32-byte words. -/
def run (isGingerbread : Bool) (input : List UInt8) : Except Fault (List UInt8) := do
  if (isGingerbread && input.length != 192) || input.length < 192 then throw .inputLength
  let some aNumerator := parseBig256 (slice input 0 32) | throw (.parse "aNumerator")
  let some aDenominator := parseBig256 (slice input 32 64) | throw (.parse "aDenominator")
  let some bNumerator := parseBig256 (slice input 64 96) | throw (.parse "bNumerator")
  let some bDenominator := parseBig256 (slice input 96 128) | throw (.parse "bDenominator")
  let some exponent := parseBig256 (slice input 128 160) | throw (.parse "exponent")
  let some decimals := parseBig256 (slice input 160 192) | throw (.parse "decimals")
  if bigIntPointerEq aDenominator 0 || bigIntPointerEq bDenominator 0 then
    throw .zeroDenominator
  if !isInt64 decimals || !isInt64 exponent || max decimals exponent > 100000 then
    throw .tooLarge
  let numeratorExp := aNumerator * bNumerator ^ exponent
  let denominatorExp := aDenominator * bDenominator ^ exponent
  let decimalAdjustment := 10 ^ decimals
  -- `big.Int.Div` panics on a zero divisor
  if denominatorExp = 0 then throw .panic
  let numeratorDecimalAdjusted := toBytes (numeratorExp * decimalAdjustment / denominatorExp)
  let denominatorDecimalAdjusted := toBytes decimalAdjustment
  pure (leftPadBytes numeratorDecimalAdjusted 32 ++ leftPadBytes denominatorDecimalAdjusted 32)

/-- `RunPrecompiledContract`: the output or fault, and the gas left. -/
def runPrecompiledContract (isGingerbread : Bool) (input : List UInt8) (suppliedGas : Nat) :
    Except Fault (List UInt8) × Nat :=
  let gasCost := requiredGas input
  if suppliedGas < gasCost then (.error .outOfGas, 0)
  else (run isGingerbread input, suppliedGas - gasCost)

end CeloBlockchain.Vm
