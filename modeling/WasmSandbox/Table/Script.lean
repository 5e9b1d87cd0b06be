import WasmSandbox.Table.Func

/-!
# Scripts on tables

* `TableOp`: the operations on one table of references of any kind.
* `TablePair`, `TablePairOp`: two tables, and operations on either and between them.
* `FuncPairOp`: these, and initialising a table of function references from a segment.
-/

namespace WasmSandbox

inductive TableOp (α : Type) where
  | size
  | get (i : BitVec 32)
  | set (i : BitVec 32) (r : Option α)
  | fill (dst : BitVec 32) (r : Option α) (len : BitVec 32)
  | copyWithin (dst src len : BitVec 32)
  | initElements (dst : BitVec 32) (refs : List (Option α))
  | initNull (segmentLen dst src len : BitVec 32)
  | grow (delta : BitVec 32) (r : Option α)

inductive TableAnswer (α : Type) where
  | unit
  | size (n : Nat)
  | ref (r : Option α)
  | grown (previous : BitVec 32)

section Run

variable {α : Type}

def TableAnswer.ofUnit {T : Type} : Outcome Unit × T → Outcome (TableAnswer α) × T
  | (r, t) => (r.map fun _ => unit, t)

def TableOp.exec {maxSize : Nat} (t : Table α maxSize) :
    TableOp α → Outcome (TableAnswer α) × Table α maxSize
  | size => (.ok (.size t.size), t)
  | get i => (((t.get i).map .ref).mapError .trap, t)
  | set i r => TableAnswer.ofUnit (t.set i r)
  | fill dst r len => TableAnswer.ofUnit (t.fill dst r len)
  | copyWithin dst src len => TableAnswer.ofUnit (t.copyWithin dst src len)
  | initElements dst refs => TableAnswer.ofUnit (t.initElements dst refs)
  | initNull segmentLen dst src len => TableAnswer.ofUnit (t.initNull segmentLen dst src len)
  | grow delta r =>
    match t.grow delta r with
    | (n, t) => (n.map .grown, t)

variable (α) in
structure TablePair (max₁ max₂ : Nat) where
  first : Table α max₁
  second : Table α max₂

/-- Two tables of null references, with their initial sizes. -/
def TablePair.create {max₁ max₂ : Nat} (initial₁ initial₂ : Nat) :
    Except SizeError (TablePair α max₁ max₂) := do
  return ⟨← Table.create initial₁, ← Table.create initial₂⟩

variable (α) in
inductive TablePairOp where
  | first (op : TableOp α)
  | second (op : TableOp α)
  /-- Copy into the first table from the second. -/
  | copyFrom (dst src len : BitVec 32)
  /-- Copy into the second table from the first. -/
  | copyTo (dst src len : BitVec 32)

def TablePairOp.exec {max₁ max₂ : Nat} :
    TablePairOp α → TablePair α max₁ max₂ → Outcome (TableAnswer α) × TablePair α max₁ max₂
  | first op, ⟨a, b⟩ =>
    match op.exec a with
    | (r, a) => (r, ⟨a, b⟩)
  | second op, ⟨a, b⟩ =>
    match op.exec b with
    | (r, b) => (r, ⟨a, b⟩)
  | copyFrom dst src len, ⟨a, b⟩ =>
    match TableAnswer.ofUnit (a.copyFrom b dst src len) with
    | (r, a) => (r, ⟨a, b⟩)
  | copyTo dst src len, ⟨a, b⟩ =>
    match TableAnswer.ofUnit (b.copyFrom a dst src len) with
    | (r, b) => (r, ⟨a, b⟩)

end Run

section Segments

variable {m : Type → Type} {ι B C : Type}

variable (m ι B C) in
inductive FuncPairOp where
  | pair (op : TablePairOp (FuncRef m ι C))
  /-- Initialise a range of the first table from a segment. -/
  | initFirst (base : B) (elems : List (ElemExpr m ι B C)) (dst src len : BitVec 32)
  /-- Initialise a range of the second table from a segment. -/
  | initSecond (base : B) (elems : List (ElemExpr m ι B C)) (dst src len : BitVec 32)

def FuncPairOp.exec {max₁ max₂ : Nat} :
    FuncPairOp m ι B C → TablePair (FuncRef m ι C) max₁ max₂ →
      Outcome (TableAnswer (FuncRef m ι C)) × TablePair (FuncRef m ι C) max₁ max₂
  | pair op, p => op.exec p
  | initFirst base elems dst src len, ⟨a, b⟩ =>
    match TableAnswer.ofUnit (a.init base elems dst src len) with
    | (r, a) => (r, ⟨a, b⟩)
  | initSecond base elems dst src len, ⟨a, b⟩ =>
    match TableAnswer.ofUnit (b.init base elems dst src len) with
    | (r, b) => (r, ⟨a, b⟩)

end Segments

end WasmSandbox
