import WasmSandbox.Table.Basic

/-!
# External references

* `ExternRef`: an opaque host reference, which is never zero.
* `ExternRef.ofWord`: the reference with the given word; zero stands for null.
-/

namespace WasmSandbox

structure ExternRef where
  word : BitVec 64
  ne_zero : word ≠ 0
deriving DecidableEq

/-- The reference with the given word, or null. -/
def ExternRef.ofWord (w : BitVec 64) : Option ExternRef := if h : w ≠ 0 then some ⟨w, h⟩ else none

end WasmSandbox
