import WasmSandbox.Guest.Loop

/-!
# Sorting in memory

* `Sorting.plain`: fill a list from a generator, sort it, and sum its numbers weighted by position.
* `Sorting.fill`, `Sorting.sort`, `Sorting.sum`: the same with words in a memory, by insertion sort.
* `Sorting`: a guest module that runs them in order on its memory of two pages.
-/

namespace WasmSandbox.Guest

namespace Sorting

/-! ## The plain computation -/

/-- The first `n` numbers that follow a state of the generator: fifteen of the upper bits of each next
state. -/
def numbers : (n : Nat) → (state : UInt32) → List Int32
  | 0, _ => []
  | n + 1, state =>
    let next := state * 1103515245 + 12345
    ((next >>> 16).toInt32 &&& 0x7fff) :: numbers n next

/-- The sum of the numbers, each multiplied by its position, the first of which is `i`, and added to
`acc`. -/
def weightedSum : (i : Nat) → List Int32 → (acc : Int32) → Int32
  | _, [], acc => acc
  | i, v :: vs, acc => weightedSum (i + 1) vs (acc + v * Int32.ofNat i)

/-- Fill, sort, and sum. A count that is not positive means an empty list. -/
def plain (n seed : I32) : I32 :=
  let sorted := (numbers n.toInt.toNat (UInt32.ofBitVec seed)).mergeSort fun a b => decide (a ≤ b)
  (weightedSum 0 sorted 0).toBitVec

/-! ## The guest functions -/

/-- The generator: the next state after a state. -/
def nextState (state : I32) : I32 := state * 1103515245 + 12345

/-- The number that a state stands for: fifteen of its upper bits. -/
def number (state : I32) : I32 := (state >>> 16) &&& 0x7fff

/-- The address of the word with index `i`. -/
def wordAddress (i : I32) : Address := I32.address (i * 4#32)

section Functions

variable {M : Type} [LinearMemory M]

/-- Put the number of the next state at index `i`. -/
def put (i state : I32) : Running M I32 := do
  let state := nextState state
  Running.storeWord .w32 (wordAddress i) (number state)
  return state

/-- Fill the first `n` words from a state of the generator. -/
def fill (n seed : I32) : Running M Unit := do
  let _ ← Running.countTo n put 0 seed

/-- Shift the words from index `j` down that exceed the key up by one, and return the index of the first
one that does not, or -1. -/
def shift (key j : I32) : Running M I32 :=
  if 0 ≤ j.toInt then do
    let v : I32 ← Running.loadWord .w32 (wordAddress j)
    if v.toInt ≤ key.toInt then return j
    else do
      let above ← j.next
      Running.storeWord .w32 (wordAddress above) v
      let below ← j.previous
      shift key below
  else return j
termination_by (j.toInt + 1).toNat
decreasing_by
  have := below.property
  omega

/-- Put the word with index `i` in its place among the sorted words below it. -/
def insert (i : I32) : Running M Unit := do
  let key : I32 ← Running.loadWord .w32 (wordAddress i)
  let below ← i.previous
  let j ← shift key below
  let above ← j.next
  Running.storeWord .w32 (wordAddress above) key

def sort (n : I32) : Running M Unit := Running.countTo n (fun i _ => insert i) 1 ()

/-- Add the word with index `i`, multiplied by the index. -/
def weigh (i acc : I32) : Running M I32 := do
  let v : I32 ← Running.loadWord .w32 (wordAddress i)
  return acc + v * i

/-- Sum the first `n` words, each multiplied by its index. -/
def sum (n : I32) : Running M I32 := Running.countTo n weigh 0 0

end Functions

end Sorting

structure Sorting where
  memory : Memory 2 {}

namespace Sorting

def instantiate : Outcome Sorting := do
  return ⟨← (Memory.create 2).mapError SizeError.fault⟩

/-- Fill `n` words, sort them, and sum them. -/
def fillSortSum (s : Sorting) (n seed : I32) : Outcome I32 × Sorting :=
  let program : Running (Memory 2 {}) I32 := do
    fill n seed
    sort n
    sum n
  match program s.memory with
  | (r, memory) => (r, ⟨memory⟩)

end Sorting

end WasmSandbox.Guest
