import WasmSandbox.Table.Basic
import WasmSandbox.TailCall.Basic

/-!
# Function tables

* `FuncRef`: a reference to a compiled function: its type, its erased entry, its tail step if it has
  one, and the instance that it runs for.
* `ElemExpr`: an element of a segment, resolved against an instance base that is known only when the
  module is instantiated; `Table.init` resolves and writes a range of elements.
* `Table.callIndirect`, `Table.returnCallIndirect`: look up the function to call, or to schedule, after
  a check of the index, of null and of the type.
-/

namespace WasmSandbox

/-- A reference to a compiled function. -/
structure FuncRef (m : Type → Type) (ι C : Type) where
  type : FuncType
  entry : Entry m C
  tailStep : Option ι
  owner : C

/-- A function to call, and the instance to call it for. -/
structure Callee (m : Type → Type) (C : Type) (σ : Signature) where
  func : Func m C σ
  owner : C

section References

variable {m : Type → Type} {ι B C : Type}

namespace FuncRef

/-- The reference to a function for an instance, without a tail step of its own. -/
def ofFunc {σ : Signature} (f : Func m C σ) (owner : C) : FuncRef m ι C :=
  ⟨σ.funcType, f.erase, none, owner⟩

def withTailStep (r : FuncRef m ι C) (step : ι) : FuncRef m ι C := { r with tailStep := some step }

end FuncRef

variable (m ι B C) in
/-- A function element: a reference whose instance depends on the instance base. -/
structure FuncDesc where
  type : FuncType
  entry : Entry m C
  tailStep : Option ι
  owner : B → C

namespace FuncDesc

/-- The element for a function whose instance is found by `owner`. -/
def ofFunc {σ : Signature} (f : Func m C σ) (owner : B → C) : FuncDesc m ι B C :=
  ⟨σ.funcType, f.erase, none, owner⟩

def withTailStep (d : FuncDesc m ι B C) (step : ι) : FuncDesc m ι B C :=
  { d with tailStep := some step }

end FuncDesc

variable (m ι B C) in
inductive ElemExpr where
  | refFunc (d : FuncDesc m ι B C)
  | refNull
  /-- The value of a global that holds a function reference. -/
  | globalGet (global : B → Option (FuncRef m ι C))

/-- The reference that an element stands for. -/
def ElemExpr.resolve (base : B) : ElemExpr m ι B C → Option (FuncRef m ι C)
  | refFunc d => some ⟨d.type, d.entry, d.tailStep, d.owner base⟩
  | refNull => none
  | globalGet global => global base

namespace Table

variable {maxSize : Nat}

/-- Initialise a range of slots from a range of elements, slot by slot. -/
def init (t : Table (FuncRef m ι C) maxSize) (base : B) (elems : List (ElemExpr m ι B C))
    (dst src len : BitVec 32) : Outcome Unit × Table (FuncRef m ι C) maxSize :=
  t.patch <| do
    let source ← range src len elems.length
    let start ← range dst len t.activeSize
    let target ← slice t.slots start len.toNat
    let part ← slice elems.toArray source len.toNat
    return ⟨start, List.zipWith (fun _ elem => elem.resolve base) target.toList part.toList⟩

/-- The reference in a slot, which must not be null and must have the expected type. -/
def lookup (t : Table (FuncRef m ι C) maxSize) (i : BitVec 32) (expected : FuncType) :
    Except Trap (FuncRef m ι C) :=
  match t.slots[i.toNat]? with
  | none => .error .tableOutOfBounds
  | some none => .error .undefinedElement
  | some (some r) => if r.type = expected then .ok r else .error .indirectCallTypeMismatch

/-- The function in a slot under an expected signature. -/
def callIndirect (t : Table (FuncRef m ι C) maxSize) (i : BitVec 32) (σ : Signature) :
    Outcome (Callee m C σ) :=
  match t.lookup i σ.funcType with
  | .error e => .error (.trap e)
  | .ok r =>
    match r.entry.restore σ with
    | some f => .ok ⟨f, r.owner⟩
    | none => .error (.breach .entryType)

/-- The function in an entry without any check; the entry must hold a function of the signature. -/
def callIndirectUnchecked (t : Table (FuncRef m ι C) maxSize) (i : BitVec 32) (σ : Signature) :
    Outcome (Callee m C σ) :=
  match t.entries[i.toNat]? with
  | some (some r) =>
    match r.entry.restore σ with
    | some f => .ok ⟨f, r.owner⟩
    | none => .error (.breach .entryType)
  | _ => .error (.breach .unchecked)

/-- Schedule the function in a slot under an expected signature, by its own tail step or the default
step. A failure leaves what was scheduled before. -/
def returnCallIndirect (t : Table (FuncRef m ι C) maxSize) (i : BitVec 32)
    (σ : Signature) (next : Option (TailCall m ι C)) : Except Trap Unit × Option (TailCall m ι C) :=
  match t.lookup i σ.funcType with
  | .error e => (.error e, next)
  | .ok r =>
    let step :=
      match r.tailStep with
      | some label => .own label
      | none => .default σ
    (.ok (), some ⟨step, r.entry, r.owner⟩)

end Table

end References

end WasmSandbox
