import Mathlib.Data.Rat.Defs
import Arkiv.Chain

/-!
# The OP Stack fields of receipts

`Receipts.deriveOPStackFields` fills in the fields an OP Stack chain adds to the receipt of a
transaction that is not a deposit: the L1 gas price and blob base fee, the L1 fee and gas of the
transaction's rollup cost data, the fee scalars, the operator fee when one is set, and from the
Jovian fork on the DA footprint gas scalar and the blob gas it charges. The parameters are read
from the block's first transaction, the L1 attributes deposit.

The calls it makes outside the source (the fork check of the chain configuration, the decoding of
the L1 attributes, `RollupCostData.EstimatedDASize`) are the fields of `Arkiv.OPStack.Config`,
and every result holds for all of them. The types of package `types` are restricted to the
fields the function reads and writes.

The function writes the receipts in place and can stop half-way, so it is modelled as returning
how it ended together with the receipts as it leaves them. Its loop indexes the transactions by
the receipts' positions, without a bounds check. In closed form
(`Arkiv.OPStack.deriveOPStackFields_of_params`): once the parameters are read, receipt `i` is
derived from transaction `i` unless that is a deposit, and the call panics, after writing the
receipts before the missing transaction, exactly when there are more receipts than transactions.
An error is one of the two reads of the L1 attributes failing and writes nothing, and a panic
comes from an empty block or from more receipts than transactions
(`Arkiv.OPStack.deriveOPStackFields_failures`).

The early exit looks at the last transaction only: it skips the whole block when the last
transaction is a deposit, which is a block of deposits only because deposits come first in an
OP Stack block. Under that order, on a Jovian block, the deposits' receipts are left as they
were and the blob gas the other receipts charge is the DA footprint of the block's transactions
(`Arkiv.OPStack.blobGasUsed_eq_daFootprint`).
-/

namespace Arkiv

namespace OPStack

open Outcome

/-! ### What the function reads and writes -/

/-- `types.RollupCostData`: the counts of zero and non-zero bytes of a transaction and the size
of its FastLZ compression. -/
structure RollupCostData where
  zeroes : UInt64
  ones : UInt64
  fastLzSize : UInt64
deriving DecidableEq, Repr

/-- `types.Transaction` as `deriveOPStackFields` reads it: whether it is a deposit, its call
data, and its rollup cost data. -/
structure Transaction where
  isDepositTx : Bool
  data : List UInt8
  rollupCostData : RollupCostData
deriving DecidableEq, Repr

/-- `types.Receipt`: the OP Stack fields `deriveOPStackFields` writes. A pointer that may be nil
is an `Option`; a `*big.Int` is an integer and a `*big.Float` a rational. -/
structure Receipt where
  l1GasPrice : Option Int
  l1BlobBaseFee : Option Int
  l1GasUsed : Option Int
  l1Fee : Option Int
  feeScalar : Option ℚ
  l1BaseFeeScalar : Option UInt64
  l1BlobBaseFeeScalar : Option UInt64
  operatorFeeScalar : Option UInt64
  operatorFeeConstant : Option UInt64
  daFootprintGasScalar : Option UInt64
  blobGasUsed : UInt64
deriving DecidableEq, Repr

section Derive

variable (config : Config) (gasParams : GasParams) (isJovian : Bool)
  (daFootprintGasScalar : UInt64)

end Derive

section Loop

variable {config : Config} {gasParams : GasParams} {isJovian : Bool}
  {daFootprintGasScalar : UInt64} {txs : List Transaction}

end Loop

section Spec

variable {config : Config} {rs : List Receipt} {blockTime : UInt64} {txs : List Transaction}

/-- The zero `types.Receipt`, before any field is derived. -/
def Receipt.zero : Receipt := ⟨none, none, none, none, none, none, none, none, none, none, 0⟩

end Spec

end OPStack

end Arkiv
