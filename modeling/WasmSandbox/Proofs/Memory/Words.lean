import WasmSandbox.Proofs.Memory.Reference

/-!
# Words of the contents

* `Contents.wordAt`: the little-endian word of some width at an address.
* `Width.ofBytes_toBytes`: a word is read back from its bytes.
* `Contents.wordAt_write`, `Contents.wordAt_congr`: a word that has just been written, and one whose bytes
  are the same as before.
* `Contents.wordAt_eq_ofBytes`: the bytes that a word consists of.
* `Memory.Valid.loadWord_eq_ok`, `Memory.Valid.load_eq_ok`, `Memory.Valid.storeWord_eq_ok`,
  `Memory.Valid.storeWord_eq_error`: loads and stores of words.
-/

namespace WasmSandbox

namespace Width

theorem eight_mul_bytes (w : Width) : 8 * w.bytes = w.bits := by cases w <;> rfl

@[simp] theorem length_toBytes (w : Width) (v : BitVec w.bits) : (w.toBytes v).length = w.bytes := by
  simp [toBytes]

theorem foldr_bytes {n : Nat} (v : BitVec n) (s k : Nat) :
    ((List.range k).map fun j => v.extractLsb' (s + 8 * j) 8).foldr
      (fun b acc => b.toNat + 256 * acc) 0 = (v.extractLsb' s (8 * k)).toNat := by
  induction k generalizing s with
  | zero =>
    rw [BitVec.extractLsb'_toNat, Nat.mul_zero, Nat.pow_zero, Nat.mod_one]
    rfl
  | succ k ih =>
    have hrest := ih (s + 8)
    have hshift : ∀ j, s + 8 * (j + 1) = s + 8 + 8 * j := by omega
    rw [List.range_succ_eq_map, List.map_cons, List.map_map, List.foldr_cons]
    simp only [Function.comp_def, Nat.succ_eq_add_one, hshift, hrest]
    rw [BitVec.extractLsb'_toNat, BitVec.extractLsb'_toNat, BitVec.extractLsb'_toNat, Nat.mul_zero,
      Nat.add_zero, Nat.shiftRight_add, Nat.mul_succ, Nat.add_comm (8 * k), Nat.pow_add, Nat.mod_mul,
      Nat.shiftRight_eq_div_pow _ 8]

/-- **A word is read back from its bytes.** -/
theorem ofBytes_toBytes (w : Width) (v : BitVec w.bits) : w.ofBytes (w.toBytes v) = v := by
  have hbytes := foldr_bytes v 0 w.bytes
  simp only [Nat.zero_add] at hbytes
  rw [ofBytes, toBytes, hbytes, BitVec.extractLsb'_toNat, eight_mul_bytes, Nat.shiftRight_zero,
    Nat.mod_eq_of_lt v.isLt, BitVec.ofNat_toNat, BitVec.setWidth_eq]

end Width

/-! ## Words at an address -/

namespace Contents

/-- The word at an address. -/
def wordAt (bs : Contents) (w : Width) (x : Nat) : BitVec w.bits :=
  w.ofBytes (bs.extract x (x + w.bytes)).toList

variable {bs bs' : Contents} {w : Width} {x : Nat}

theorem getElem?_extract_bytes (bs : Contents) (x n i : Nat) :
    (bs.extract x (x + n))[i]? = if i < n then bs[x + i]? else none := by
  rw [Array.getElem?_extract]
  split_ifs
  · rfl
  · omega
  · rw [Array.getElem?_eq_none (by omega)]
  · rfl

theorem toList_extract_eq_map {byte : Nat → Byte} {n : Nat} (h : ∀ j < n, bs[x + j]? = some (byte j)) :
    (bs.extract x (x + n)).toList = (List.range n).map byte := by
  apply List.ext_getElem?
  intro j
  rw [Array.getElem?_toList, getElem?_extract_bytes, List.getElem?_map]
  split_ifs with hj
  · rw [List.getElem?_range hj, h j hj, Option.map_some]
  · rw [List.getElem?_eq_none (by rw [List.length_range]; omega), Option.map_none]

/-- **A word consists of the bytes from its address on.** -/
theorem wordAt_eq_ofBytes {byte : Nat → Byte} (h : ∀ j < w.bytes, bs[x + j]? = some (byte j)) :
    bs.wordAt w x = w.ofBytes ((List.range w.bytes).map byte) := by
  rw [wordAt, toList_extract_eq_map h]

theorem wordAt_w8 {b : Byte} (h : bs[x]? = some b) : bs.wordAt .w8 x = b := by
  have hbyte : ∀ j < Width.w8.bytes, bs[x + j]? = some b := fun j hj => by
    obtain rfl := Nat.lt_one_iff.mp hj
    exact h
  rw [wordAt_eq_ofBytes hbyte]
  exact (BitVec.ofNat_toNat 8 b).trans (BitVec.setWidth_eq b)

theorem wordAt_congr (h : ∀ y, x ≤ y → y < x + w.bytes → bs[y]? = bs'[y]?) :
    bs.wordAt w x = bs'.wordAt w x := by
  have hbytes : bs.extract x (x + w.bytes) = bs'.extract x (x + w.bytes) := by
    apply Array.ext_getElem?
    intro i
    rw [getElem?_extract_bytes, getElem?_extract_bytes]
    split_ifs with hi
    · exact h (x + i) (Nat.le_add_right ..) (by omega)
    · rfl
  rw [wordAt, hbytes, wordAt]

/-- **A word that has been written is read.** -/
theorem wordAt_write (w : Width) (v : BitVec w.bits) (h : x + w.bytes ≤ bs.size) :
    wordAt (Patch.write ⟨x, w.toBytes v⟩ bs) w x = v := by
  have hbytes : ((Patch.write ⟨x, w.toBytes v⟩ bs).extract x (x + w.bytes)).toList = w.toBytes v := by
    apply List.ext_getElem?
    intro i
    rw [Array.getElem?_toList, getElem?_extract_bytes, Patch.getElem?_write]
    dsimp only
    rw [Width.length_toBytes, Nat.add_sub_cancel_left]
    split_ifs
    · rfl
    · omega
    · rw [List.getElem?_eq_none (by rw [Width.length_toBytes]; omega)]
  rw [wordAt, hbytes, Width.ofBytes_toBytes]

theorem getElem?_write_of_outside (w : Width) (v : BitVec w.bits) {y : Nat}
    (hy : y < x ∨ x + w.bytes ≤ y) :
    (Patch.write ⟨x, w.toBytes v⟩ bs)[y]? = bs[y]? := by
  rw [Patch.getElem?_write, if_neg]
  dsimp only
  rw [Width.length_toBytes]
  omega

end Contents

/-! ## Loads and stores of words -/

namespace Memory.Valid

variable {maxPages : Nat} {config : Config} {m : Memory maxPages config} (hm : m.Valid)
  (hlt : m.activeSize < UInt64.size)

include hm hlt

theorem loadWord_eq_ok {w : Width} {addr : Address} (h : addr.toNat + w.bytes ≤ m.activeSize) :
    m.loadWord w addr = .ok (m.contents.wordAt w addr.toNat) := by
  rw [← hm.size_contents] at h hlt
  rw [hm.loadWord_eq, Contents.loadWord, addressable, if_pos hlt, Outcome.ok_bind, inRange_of_le h]
  rfl

theorem load_eq_ok {k : Load} {addr : Address} (h : addr.toNat + k.width.bytes ≤ m.activeSize) :
    m.load k addr = .ok (k.decode (m.contents.wordAt k.width addr.toNat)) := by
  rw [load, hm.loadWord_eq_ok hlt h]
  rfl

theorem storeWord_eq_ok {w : Width} {addr : Address} (h : addr.toNat + w.bytes ≤ m.activeSize)
    (v : BitVec w.bits) :
    ∃ m', m.storeWord w addr v = (.ok (), m') ∧ m'.Valid ∧
      m'.contents = Patch.write ⟨addr.toNat, w.toBytes v⟩ m.contents := by
  have hr := hm.storeWord_refines w addr v
  rw [← hm.size_contents] at h hlt
  rw [Contents.storeWord, addressable, if_pos hlt, Outcome.ok_bind, inRange_of_le h] at hr
  exact ⟨_, Prod.ext hr.outcome rfl, hr.valid, hr.contents⟩

theorem storeWord_eq_error {w : Width} {addr : Address} (h : ¬ addr.toNat + w.bytes ≤ m.activeSize)
    (v : BitVec w.bits) :
    ∃ m', m.storeWord w addr v = (.error config.policy.miss, m') ∧ m'.Valid ∧
      m'.contents = m.contents := by
  have hr := hm.storeWord_refines w addr v
  rw [← hm.size_contents] at h hlt
  rw [Contents.storeWord, addressable, if_pos hlt, Outcome.ok_bind, inRange_of_not_le h] at hr
  exact ⟨_, Prod.ext hr.outcome rfl, hr.valid, hr.contents⟩

end Memory.Valid

end WasmSandbox
