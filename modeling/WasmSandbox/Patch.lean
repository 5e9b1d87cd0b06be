/-!
# Patches

* `Patch`: consecutive items with the index at which they are to be written.
* `Patch.write`: the storage with the items written over it; `size_write` and `getElem?_write` say
  what is in it afterwards.

Every operation that changes a memory or a table first computes a patch or a failure, and then
writes the patch; so a failing operation has written nothing.
-/

namespace WasmSandbox

/-- Items to be written from index `start` on. -/
structure Patch (α : Type) where
  start : Nat
  items : List α

namespace Patch

section Write

variable {α : Type}

/-- Write consecutive items from an index on. Items that fall outside the storage are dropped. -/
def overwrite (start : Nat) : List α → Array α → Array α
  | [], storage => storage
  | a :: as, storage => overwrite (start + 1) as (storage.setIfInBounds start a)

def write (p : Patch α) (storage : Array α) : Array α := overwrite p.start p.items storage

def fill (start n : Nat) (a : α) : Patch α := ⟨start, List.replicate n a⟩

theorem size_overwrite (start : Nat) (as : List α) (storage : Array α) :
    (overwrite start as storage).size = storage.size := by
  induction as generalizing start storage with
  | nil => rfl
  | cons a as ih => rw [overwrite, ih, Array.size_setIfInBounds]

theorem getElem?_overwrite (start : Nat) (as : List α) (storage : Array α) (i : Nat) :
    (overwrite start as storage)[i]? =
      if start ≤ i ∧ i < start + as.length ∧ i < storage.size then as[i - start]?
      else storage[i]? := by
  induction as generalizing start storage with
  | nil => simp [overwrite]; omega
  | cons a as ih =>
    rw [overwrite, ih, Array.size_setIfInBounds, Array.getElem?_setIfInBounds]
    by_cases h : start = i
    · subst h
      by_cases hi : start < storage.size
      · rw [if_neg (by omega)]; simp [hi]
      · rw [if_neg (by omega)]; simp [hi]
    · by_cases hlt : start < i
      · have : i - start = i - (start + 1) + 1 := by omega
        simp only [List.length_cons, h, if_false, this, List.getElem?_cons_succ]
        split <;> split <;> first | rfl | omega
      · rw [if_neg (by omega), if_neg h, if_neg (by omega)]

@[simp] theorem size_write (p : Patch α) (storage : Array α) :
    (p.write storage).size = storage.size := size_overwrite ..

theorem getElem?_write (p : Patch α) (storage : Array α) (i : Nat) :
    (p.write storage)[i]? =
      if p.start ≤ i ∧ i < p.start + p.items.length ∧ i < storage.size then p.items[i - p.start]?
      else storage[i]? := getElem?_overwrite ..

end Write

end Patch

end WasmSandbox
