import Mathlib.Tactic.Common
import WasmSandbox.Memory.Access
import WasmSandbox.Proofs.Memory.Locate

/-!
# The contents of a memory

* `Memory.Valid`: the storage holds all pages that the memory may ever have, and the active pages are
  among them.
* `Layout.view`: a region in host order as the guest sees it.
* `Memory.contents`: the active bytes in guest order. Byte `x` is the byte at guest address `x`, under
  either layout.
* **`Layout.toList_extract_view`**, **`Layout.view_write`**: reading and writing a guest range of a view
  is reading and writing the host range at `Layout.start`, turned around by `Layout.orient`.
-/

namespace WasmSandbox

/-! ## Patches of a prefix -/

theorem Patch.extract_write {α : Type} (p : Patch α) (storage : Array α) (k : Nat) :
    (p.write storage).extract 0 k = p.write (storage.extract 0 k) := by
  apply Array.ext_getElem?
  intro i
  simp only [Array.getElem?_extract, Patch.getElem?_write, Patch.size_write, Array.size_extract,
    Nat.zero_add, Nat.sub_zero]
  split_ifs <;> first | rfl | omega

theorem Patch.extract_write_self {α : Type} (p : Patch α) {storage : Array α} {k : Nat}
    (hk : p.start + p.items.length = k) (h : k ≤ storage.size) :
    (p.write storage).extract 0 k = storage.extract 0 p.start ++ p.items.toArray := by
  subst hk
  apply Array.ext_getElem?
  intro i
  simp only [Array.getElem?_extract, Patch.getElem?_write, Patch.size_write, Array.getElem?_append,
    Array.size_extract, List.getElem?_toArray, Nat.zero_add, Nat.sub_zero]
  rw [Nat.min_eq_left h, Nat.min_eq_left (by omega : p.start ≤ storage.size)]
  split_ifs <;> first | rfl | omega | skip
  rw [List.getElem?_eq_none (by omega)]

/-! ## Views -/

/-- A region in host order, in the order of guest addresses. -/
def Layout.view : Layout → Array Byte → Array Byte
  | .little, bs => bs
  | .reversed, bs => bs.reverse

@[simp] theorem Layout.size_view (l : Layout) (bs : Array Byte) : (l.view bs).size = bs.size := by
  cases l <;> simp [Layout.view]

@[simp] theorem Layout.orient_orient (l : Layout) (bs : List Byte) : l.orient (l.orient bs) = bs := by
  cases l <;> simp [Layout.orient]

@[simp] theorem Layout.length_orient (l : Layout) (bs : List Byte) :
    (l.orient bs).length = bs.length := by
  cases l <;> simp [Layout.orient]

@[simp] theorem Layout.orient_replicate (l : Layout) (n : Nat) (b : Byte) :
    l.orient (List.replicate n b) = List.replicate n b := by
  cases l <;> simp [Layout.orient]

theorem Layout.toList_extract_view (l : Layout) (bs : Array Byte) {x n : Nat} (h : x + n ≤ bs.size) :
    ((l.view bs).extract x (x + n)).toList =
      l.orient (bs.extract (l.start bs.size x n) (l.start bs.size x n + n)).toList := by
  cases l with
  | little => rfl
  | reversed =>
    simp only [Layout.view, Layout.orient, Layout.start]
    rw [Array.extract_reverse, Array.toList_reverse]
    congr 3 <;> omega

/-- A patch of a view of `size` bytes, as a patch of the region. -/
def Layout.place (l : Layout) (size : Nat) (p : Patch Byte) : Patch Byte :=
  ⟨l.start size p.start p.items.length, l.orient p.items⟩

theorem Layout.view_write (l : Layout) (bs : Array Byte) {p : Patch Byte}
    (h : p.start + p.items.length ≤ bs.size) :
    l.view ((l.place bs.size p).write bs) = p.write (l.view bs) := by
  cases l with
  | little => rfl
  | reversed =>
    apply Array.ext_getElem?
    intro i
    simp only [Layout.view, Layout.place, Layout.orient, Layout.start]
    rcases Nat.lt_or_ge i bs.size with hi | hi
    · rw [Array.getElem?_reverse (by simpa using hi), Patch.getElem?_write, Patch.getElem?_write,
        Array.getElem?_reverse hi]
      simp only [Patch.size_write, Array.size_reverse, List.length_reverse]
      split_ifs with h₁ h₂ h₂
      · rw [List.getElem?_reverse (by omega)]
        congr 1
        omega
      · omega
      · omega
      · rfl
    · rw [Array.getElem?_eq_none (by simpa using hi), Array.getElem?_eq_none (by simpa using hi)]

theorem Layout.getElem?_view (l : Layout) (bs : Array Byte) {x : Nat} (h : x < bs.size) :
    (l.view bs)[x]? = bs[l.start bs.size x 1]? := by
  cases l with
  | little => rfl
  | reversed =>
    rw [Layout.view, Array.getElem?_reverse h, Layout.start]
    congr 1
    omega

/-! ## Contents -/

/-- What a memory holds, in the order of guest addresses. -/
abbrev Contents := Array Byte

namespace Memory

variable {maxPages : Nat} {config : Config}

/-- The storage holds every page that may become active, and the active pages are among them. -/
structure Valid (m : Memory maxPages config) : Prop where
  size_storage : m.storage.size = pageSize * maxPages
  pages_le : m.pages ≤ maxPages

/-- The active bytes in the order of guest addresses. -/
def contents (m : Memory maxPages config) : Contents := config.layout.view m.hostBytes

theorem valid_of_create {initial : Nat} {m : Memory maxPages config} (h : create initial = .ok m) :
    m.Valid := by
  unfold create at h
  split_ifs at h with hi
  obtain rfl := Except.ok.inj h
  exact ⟨Array.size_replicate, hi⟩

theorem contents_of_create {initial : Nat} {m : Memory maxPages config}
    (h : create initial = .ok m) : m.contents = Array.replicate (pageSize * initial) 0 := by
  have hs : m.hostBytes = Array.replicate (pageSize * initial) 0 := by
    unfold create at h
    split_ifs at h with hi
    obtain rfl := Except.ok.inj h
    have hle : pageSize * initial ≤ pageSize * maxPages := Nat.mul_le_mul_left _ hi
    rw [hostBytes, sliceSize, activeSize, Array.size_replicate, if_pos hle, Array.extract_replicate,
      Nat.min_eq_left hle, Nat.sub_zero]
  rw [contents, hs]
  cases config.layout with
  | little => rfl
  | reversed => rw [Layout.view, Array.reverse_replicate]

section Valid

variable {m : Memory maxPages config} (hm : m.Valid)

include hm

theorem Valid.activeSize_le : m.activeSize ≤ m.storage.size := by
  rw [hm.size_storage]
  exact Nat.mul_le_mul_left _ hm.pages_le

theorem Valid.sliceSize_eq : m.sliceSize = m.activeSize := if_pos hm.activeSize_le

theorem Valid.size_hostBytes : m.hostBytes.size = m.activeSize := by
  rw [hostBytes, hm.sliceSize_eq, Array.size_extract]
  have := hm.activeSize_le
  omega

theorem Valid.size_contents : m.contents.size = m.activeSize := by
  rw [contents, Layout.size_view, hm.size_hostBytes]

theorem Valid.size_contents_lt (hmax : pageSize * maxPages < UInt64.size) :
    m.contents.size < UInt64.size := by
  rw [hm.size_contents]
  exact Nat.lt_of_le_of_lt (Nat.mul_le_mul_left _ hm.pages_le) hmax

theorem Valid.patch (x : Outcome (Patch Byte)) : (m.patch x).2.Valid := by
  cases x with
  | error e => exact hm
  | ok p => exact ⟨(Patch.size_write ..).trans hm.size_storage, hm.pages_le⟩

/-- **What a guest range holds** lies in the storage at `Layout.start`. -/
theorem Valid.toList_extract_storage {x n : Nat} (h : x + n ≤ m.activeSize) :
    (m.storage.extract (config.layout.start m.activeSize x n)
        (config.layout.start m.activeSize x n + n)).toList =
      config.layout.orient (m.contents.extract x (x + n)).toList := by
  have hs := config.layout.start_add_le h
  have hv := config.layout.toList_extract_view m.hostBytes (hm.size_hostBytes ▸ h)
  rw [hm.size_hostBytes] at hv
  rw [contents, hv, Layout.orient_orient, hostBytes, hm.sliceSize_eq, Array.extract_extract]
  congr 2 <;> omega

/-- **A patch of the contents** is a patch of the storage. -/
theorem Valid.contents_patch {p : Patch Byte} (h : p.start + p.items.length ≤ m.activeSize) :
    (m.patch (.ok (config.layout.place m.activeSize p))).2.contents = p.write m.contents := by
  have hv := config.layout.view_write m.hostBytes (p := p) (hm.size_hostBytes ▸ h)
  rw [hm.size_hostBytes] at hv
  rw [contents, contents, ← hv, hostBytes, (hm.patch _).sliceSize_eq, hostBytes, hm.sliceSize_eq]
  exact congrArg _ (Patch.extract_write ..)

end Valid

end Memory

end WasmSandbox
