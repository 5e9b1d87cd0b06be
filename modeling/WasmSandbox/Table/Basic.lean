import WasmSandbox.Patch
import WasmSandbox.Trap
import WasmSandbox.Word.Basic

/-!
# Tables

* `Table α max`: a table of nullable references. It has `max` entries, of which the first `activeSize` are
  its slots; the others wait for it to grow.
* `Table.slots`: the slots. `Table.slice`: some of them, or a breach if the range leaves them.
* `Table.get`, `Table.set`, `Table.fill`, `Table.copyWithin`, `Table.copyFrom`, `Table.initElements`,
  `Table.initNull`, `Table.grow`: the Wasm table instructions.

Indices and lengths are unsigned 32-bit words. Every range is checked before the first slot is
written, also when it is empty.
-/

namespace WasmSandbox

/-- A table of nullable references; `none` is the null reference. -/
structure Table (α : Type) (maxSize : Nat) where
  entries : Vector (Option α) maxSize
  activeSize : Nat

namespace Table

variable {α : Type} {maxSize : Nat}

/-- A table of `initial` null references. -/
def create (initial : Nat) : Except SizeError (Table α maxSize) :=
  if initial ≤ maxSize then .ok ⟨Vector.replicate maxSize none, initial⟩
  else .error (.tableSlots initial maxSize)

def size (t : Table α maxSize) : Nat := t.activeSize

/-- The slots. There are none if the table has fewer entries than it should have slots. -/
def slots (t : Table α maxSize) : Array (Option α) :=
  if t.activeSize ≤ maxSize then t.entries.toArray.extract 0 t.activeSize else #[]

/-- The first index of a range that lies within `size` slots. -/
def range (start len : BitVec 32) (size : Nat) : Except Trap Nat :=
  if start.toNat + len.toNat ≤ size then .ok start.toNat else .error .tableOutOfBounds

def slice {β : Type} (items : Array β) (start len : Nat) : Outcome (Array β) :=
  if start + len ≤ items.size then .ok (items.extract start (start + len))
  else .error (.breach .sliceRange)

/-- References to be written over a slice of the slots that is as long. -/
def onto (t : Table α maxSize) (start len : Nat) (refs : Array (Option α)) :
    Outcome (Patch (Option α)) := do
  let target ← slice t.slots start len
  if target.size ≠ refs.size then throw (.breach .sliceLength)
  return ⟨start, refs.toList⟩

/-- Write a patch over the entries, unless computing it failed. -/
def patch (t : Table α maxSize) : Outcome (Patch (Option α)) → Outcome Unit × Table α maxSize
  | .ok p => (.ok (), { t with entries := ⟨p.write t.entries.toArray, by simp⟩ })
  | .error e => (.error e, t)

/-! ## Instructions -/

def get (t : Table α maxSize) (i : BitVec 32) : Except Trap (Option α) :=
  match t.slots[i.toNat]? with
  | some r => .ok r
  | none => .error .tableOutOfBounds

def set (t : Table α maxSize) (i : BitVec 32) (r : Option α) : Outcome Unit × Table α maxSize :=
  t.patch <|
    match t.slots[i.toNat]? with
    | some _ => .ok ⟨i.toNat, [r]⟩
    | none => .error (.trap .tableOutOfBounds)

def fill (t : Table α maxSize) (dst : BitVec 32) (r : Option α) (len : BitVec 32) :
    Outcome Unit × Table α maxSize :=
  t.patch <| do
    let start ← range dst len t.activeSize
    let target ← slice t.slots start len.toNat
    return Patch.fill start target.size r

/-- Copy a range of slots within the table. The ranges may overlap. -/
def copyWithin (t : Table α maxSize) (dst src len : BitVec 32) : Outcome Unit × Table α maxSize :=
  t.patch <| do
    let start ← range dst len t.activeSize
    let source ← range src len t.activeSize
    let refs ← slice t.slots source len.toNat
    t.onto start len.toNat refs

def copyFrom {sourceMax : Nat} (t : Table α maxSize) (other : Table α sourceMax)
    (dst src len : BitVec 32) : Outcome Unit × Table α maxSize :=
  t.patch <| do
    let start ← range dst len t.activeSize
    let source ← range src len other.activeSize
    let refs ← slice other.slots source len.toNat
    t.onto start len.toNat refs

/-- Write references to consecutive slots. -/
def initElements (t : Table α maxSize) (dst : BitVec 32) (refs : List (Option α)) :
    Outcome Unit × Table α maxSize :=
  t.patch <| do
    if UInt32.size ≤ refs.length then throw (.trap .tableOutOfBounds)
    let start ← range dst (BitVec.ofNat 32 refs.length) t.activeSize
    t.onto start (BitVec.ofNat 32 refs.length).toNat refs.toArray

/-- Initialise a range of slots from a segment of `segmentLen` null references. -/
def initNull (t : Table α maxSize) (segmentLen dst src len : BitVec 32) :
    Outcome Unit × Table α maxSize :=
  match range src len segmentLen.toNat with
  | .ok _ => t.fill dst none len
  | .error e => (.error (.trap e), t)

/-- Make entries slots, and put `r` into them. The result is the previous size, or -1 if there are not
that many entries. -/
def grow (t : Table α maxSize) (delta : BitVec 32) (r : Option α) :
    Outcome (BitVec 32) × Table α maxSize :=
  let old := t.activeSize
  let new := old + delta.toNat
  if new ≤ maxSize then
    let added : Outcome (Patch (Option α)) := do
      let target ← slice t.entries.toArray old (new - old)
      return Patch.fill old target.size r
    match t.patch added with
    | (.ok (), t) => (.ok (BitVec.ofNat 32 old), { t with activeSize := new })
    | (.error e, t) => (.error e, t)
  else (.ok (-1), t)

end Table

end WasmSandbox
