import WasmSandbox.Function.FuncType

/-!
# Signatures of compiled functions

* `Signature`: up to six number parameters and up to two number results.
* `Signature.funcType`: the function type of a signature.
-/

namespace WasmSandbox

/-- The parameters and results of a compiled function. -/
structure Signature where
  params : List NumType
  results : List NumType
  fits : decide (params.length ≤ 6 ∧ results.length ≤ 2) = true := by exact Eq.refl true
deriving DecidableEq, Repr

namespace Signature

/-- The signature with these parameters and results, if there are not too many of them. -/
def of? (params results : List NumType) : Option Signature :=
  if h : params.length ≤ 6 ∧ results.length ≤ 2 then some ⟨params, results, decide_eq_true h⟩ else none

theorem params_le (σ : Signature) : σ.params.length ≤ 6 := (of_decide_eq_true σ.fits).1

theorem results_le (σ : Signature) : σ.results.length ≤ 2 := (of_decide_eq_true σ.fits).2

/-- The function type of a signature, which always fits its encoding. -/
def funcType (σ : Signature) : FuncType :=
  FuncType.pack (σ.params.map .num) (σ.results.map .num) (by
    have := σ.params_le
    have := σ.results_le
    simp [FuncType.maxArity]; omega)

end Signature

end WasmSandbox
