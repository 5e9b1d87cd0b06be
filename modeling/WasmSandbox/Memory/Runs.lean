import WasmSandbox.Memory.Basic

/-!
# Runs of equal bytes

* `Run`: consecutive bytes of one value.
* `runsOf`: the maximal runs of nonzero bytes of an array, in ascending order.
-/

namespace WasmSandbox

/-- `length` bytes of one value from a host index on. -/
structure Run where
  start : Nat
  length : Nat
  value : Byte
deriving DecidableEq, Repr

namespace Run

/-- Add the byte at an index to the runs before it, the last of which comes first. -/
def extend (runs : List Run) (i : Nat) (b : Byte) : List Run :=
  if b = 0 then runs
  else
    match runs with
    | r :: rest =>
      if r.value = b ∧ r.start + r.length = i then { r with length := r.length + 1 } :: rest
      else ⟨i, 1, b⟩ :: r :: rest
    | [] => [⟨i, 1, b⟩]

end Run

/-- The maximal runs of nonzero bytes, ascending. -/
def runsOf (bytes : Array Byte) : List Run :=
  (bytes.foldl (fun (runs, i) b => (Run.extend runs i b, i + 1)) (([], 0) : List Run × Nat)).1.reverse

/-- The runs of nonzero bytes of the active region, in host order. -/
def Memory.runs {maxPages : Nat} {config : Config} (m : Memory maxPages config) : List Run :=
  runsOf m.hostBytes

end WasmSandbox
