import WasmSandbox.Word.Basic

/-!
# Function types

* `NumType`, `ValueType`: the types of Wasm values with their one-byte codes.
* `FuncType`: the canonical 32-byte encoding of a function type: the number of parameters, the number
  of results, the codes of the parameters, the codes of the results, and zeros.
* `FuncType.pack`: the loops that write it.
* `FuncType.encode`: the encoding of two lists of types that have at most 30 members together.

Function types are compared by their bytes.
-/

namespace WasmSandbox

inductive NumType where
  | i32
  | i64
  | f32
  | f64
deriving DecidableEq, Repr

/-- Value types: numbers and references. -/
inductive ValueType where
  | num (t : NumType)
  | funcref
  | externref
deriving DecidableEq, Repr

instance : Coe NumType ValueType := ⟨ValueType.num⟩

/-- The code of a value type in the binary format. -/
def ValueType.code : ValueType → Byte
  | num .i32 => 0x7f
  | num .i64 => 0x7e
  | num .f32 => 0x7d
  | num .f64 => 0x7c
  | funcref => 0x70
  | externref => 0x6f

/-- The canonical encoding of a function type. -/
@[ext] structure FuncType where
  bytes : Vector Byte 32
deriving DecidableEq

namespace FuncType

/-- The most parameters and results together that an encoding holds. -/
def maxArity : Nat := 30

/-- A function type that has too many parameters and results for its encoding. -/
structure ArityError where
  arity : Nat
deriving DecidableEq, Repr

def ArityError.message (_ : ArityError) : String := "function type has too many params and results"

/-- Write the codes of types to consecutive bytes, one after the other. -/
def writeCodes (types : List ValueType) (start : Nat) (h : start + types.length ≤ 32)
    (bytes : Vector Byte 32) : Vector Byte 32 :=
  types.length.fold (fun i _ bytes => bytes.set (start + i) types[i].code) bytes

/-- The encoding of types that fit: the two counts, the parameters and then the results are written to
bytes that are zero at first. -/
def pack (params results : List ValueType) (h : params.length + results.length ≤ maxArity) : FuncType :=
  have hparams : 2 + params.length ≤ 32 := by
    rw [maxArity] at h
    omega
  have hresults : 2 + params.length + results.length ≤ 32 := by
    rw [maxArity] at h
    omega
  let bytes : Vector Byte 32 := Vector.replicate 32 0
  let bytes := bytes.set 0 (BitVec.ofNat 8 params.length)
  let bytes := bytes.set 1 (BitVec.ofNat 8 results.length)
  let bytes := writeCodes params 2 hparams bytes
  ⟨writeCodes results (2 + params.length) hresults bytes⟩

/-- The encoding of a function type, if it has one. -/
def encode (params results : List ValueType) : Except ArityError FuncType :=
  if h : params.length + results.length ≤ maxArity then .ok (pack params results h)
  else .error ⟨params.length + results.length⟩

def paramCount (t : FuncType) : Nat := (t.bytes[0]).toNat

def resultCount (t : FuncType) : Nat := (t.bytes[1]).toNat

end FuncType

end WasmSandbox
