import Mathlib.Data.Nat.Digits.Lemmas
import Mathlib.Tactic.Common
import WasmSandbox.Proofs.Memory.Invariant
import WasmSandbox.Proofs.Memory.Words

/-!
# Loads and stores, byte by byte

* `Load.valueOf`, `Store.byte`: the value of a load that finds the bytes of a number, and the bytes of
  what a store is given. Both are said of numbers, not of words.
* `Store.overlay`, `Store.leaves`: bytes, with those of a store written over some of them.
* `Memory.ReadsAs`, `Memory.Shows`: what all loads of a memory see, by the bytes that it holds, and what
  loads of single bytes see.
* `Memory.Shows.holds`, `Memory.Holds.readsAs`, `Memory.Holds.store`, `Memory.Holds.storeAll`: what is
  read from the bytes that a memory holds, and what one store and a run of stores leave of them.
* **`Memory.Reaches.access_bytes`**: in every memory that can be reached, loads of all widths see the same
  bytes, and a store replaces those of its range and no others.
-/

namespace WasmSandbox

/-! ## Values of loads -/

/-- A number of `v` bits as a word of `w` bits, its first bit read as a sign or not. -/
def Extension.valueOf (e : Extension) (v w n : Nat) : BitVec w :=
  match e with
  | signed => BitVec.ofInt w (Int.bmod n (2 ^ v))
  | unsigned => BitVec.ofNat w n

theorem Extension.apply_ofNat (e : Extension) {v n : Nat} (w : Nat) (hn : n < 2 ^ v) :
    e.apply w (BitVec.ofNat v n) = e.valueOf v w n := by
  cases e with
  | signed => rw [apply, BitVec.signExtend, BitVec.toInt_ofNat', valueOf]
  | unsigned =>
    apply BitVec.eq_of_toNat_eq
    rw [apply, valueOf, BitVec.toNat_setWidth, BitVec.toNat_ofNat, BitVec.toNat_ofNat,
      Nat.mod_eq_of_lt hn]

/-- The value of a load that finds the bytes of a number. -/
def Load.valueOf : Load → Nat → Scalar
  | i32, n => .i32 (BitVec.ofNat 32 n)
  | i64, n => .i64 (BitVec.ofNat 64 n)
  | f32, n => .f32 ⟨BitVec.ofNat 32 n⟩
  | f64, n => .f64 ⟨BitVec.ofNat 64 n⟩
  | u8, n => .u8 (BitVec.ofNat 8 n)
  | u16, n => .u16 (BitVec.ofNat 16 n)
  | u32, n => .u32 (BitVec.ofNat 32 n)
  | u64, n => .u64 (BitVec.ofNat 64 n)
  | i32From8 e, n => .i32 (e.valueOf 8 32 n)
  | i32From16 e, n => .i32 (e.valueOf 16 32 n)
  | i64From8 e, n => .i64 (e.valueOf 8 64 n)
  | i64From16 e, n => .i64 (e.valueOf 16 64 n)
  | i64From32 e, n => .i64 (e.valueOf 32 64 n)

theorem Load.decode_ofNat (k : Load) {n : Nat} (hn : n < 2 ^ k.width.bits) :
    k.decode (BitVec.ofNat k.width.bits n) = k.valueOf n := by
  cases k with
  | i32From8 e | i32From16 e => exact congrArg Scalar.i32 (e.apply_ofNat 32 hn)
  | i64From8 e | i64From16 e | i64From32 e => exact congrArg Scalar.i64 (e.apply_ofNat 64 hn)
  | i32 | i64 | f32 | f64 | u8 | u16 | u32 | u64 => rfl

theorem Width.ofBytes_eq_ofDigits (w : Width) (bs : List Byte) :
    w.ofBytes bs = BitVec.ofNat w.bits (Nat.ofDigits 256 (bs.map BitVec.toNat)) := by
  rw [ofBytes, Nat.ofDigits_eq_foldr, List.foldr_map]
  rfl

theorem Width.ofDigits_lt (w : Width) {bs : List Byte} (hbs : bs.length = w.bytes) :
    Nat.ofDigits 256 (bs.map BitVec.toNat) < 2 ^ w.bits := by
  have hdigit : ∀ d ∈ bs.map BitVec.toNat, d < 256 := by
    intro d hd
    obtain ⟨b, -, rfl⟩ := List.mem_map.mp hd
    exact b.isLt
  have hlt := Nat.ofDigits_lt_base_pow_length (by decide) hdigit
  rw [List.length_map, hbs] at hlt
  rwa [← w.eight_mul_bytes, Nat.pow_mul]

/-! ## Bytes of stores -/

namespace Store

/-- The bits of the value that a store is given, also of those that it does not store. -/
def number : Store → Nat
  | u8 v => v.toNat
  | u16 v => v.toNat
  | i32 v | u32 v | i32As8 v | i32As16 v => v.toNat
  | i64 v | u64 v | i64As8 v | i64As16 v | i64As32 v => v.toNat
  | f32 v => v.bits.toNat
  | f64 v => v.bits.toNat

/-- Byte `j` of the value that a store is given, from the least significant one on. -/
def byte (k : Store) (j : Nat) : Byte := BitVec.ofNat 8 (k.number / 256 ^ j)

/-- Bytes, with those of a store at `a` written over them. -/
def overlay (k : Store) (a : Nat) (bytes : Nat → Byte) (x : Nat) : Byte :=
  if a ≤ x ∧ x < a + k.width.bytes then k.byte (x - a) else bytes x

/-- What a store leaves of `S` active bytes. -/
def leaves (S : Nat) (bytes : Nat → Byte) : Store × Address → Nat → Byte
  | (k, a) => if a.toNat + k.width.bytes ≤ S then k.overlay a.toNat bytes else bytes

theorem toNat_word (k : Store) : k.word.toNat = k.number % 2 ^ k.width.bits := by
  cases k with
  | i32As8 v | i32As16 v | i64As8 v | i64As16 v | i64As32 v => exact BitVec.toNat_setWidth ..
  | u8 v | u16 v | i32 v | u32 v | i64 v | u64 v => exact (Nat.mod_eq_of_lt v.isLt).symm
  | f32 v | f64 v => exact (Nat.mod_eq_of_lt v.bits.isLt).symm

theorem toBytes_word (k : Store) :
    k.width.toBytes k.word = (List.range k.width.bytes).map k.byte := by
  refine List.map_congr_left fun j hj => ?_
  have hj := List.mem_range.mp hj
  have hbits : k.width.bits = 8 * j + 8 * (k.width.bytes - j) := by
    rw [← Nat.mul_add, Nat.add_sub_of_le (Nat.le_of_lt hj), Width.eight_mul_bytes]
  -- The bits that are not stored lie above all bytes that are.
  have hdvd : 2 ^ 8 ∣ 2 ^ (8 * (k.width.bytes - j)) := Nat.pow_dvd_pow 2 (by omega)
  apply BitVec.eq_of_toNat_eq
  rw [BitVec.extractLsb'_toNat, Nat.shiftRight_eq_div_pow, toNat_word, hbits, Nat.pow_add,
    Nat.mod_mul_right_div_self, Nat.mod_mod_of_dvd _ hdvd, byte, BitVec.toNat_ofNat, Nat.pow_mul]

end Store

/-! ## Bytes of a memory -/

namespace Memory

variable {maxPages : Nat} {policy : Policy} {layout : Layout} {m : Memory maxPages ⟨policy, layout⟩}
  {S : Nat} {bytes : Nat → Byte}

/-- What the loads of a memory of `S` active bytes see: byte by byte what `bytes` says, and under every
other load what those bytes make. -/
structure ReadsAs (m : Memory maxPages ⟨policy, layout⟩) (S : Nat) (bytes : Nat → Byte) : Prop where
  byte : ∀ x : Address, x.toNat < S → m.load .u8 x = .ok (.u8 (bytes x.toNat))
  load : ∀ (k : Load) (a : Address), m.load k a =
    if a.toNat + k.width.bytes ≤ S then
      .ok (k.valueOf (Nat.ofDigits 256
        ((List.range k.width.bytes).map fun j => (bytes (a.toNat + j)).toNat)))
    else .error (.trap .outOfBounds)

/-- `S` bytes are active, and a load of a single byte sees what `bytes` says. -/
structure Shows (m : Memory maxPages ⟨policy, layout⟩) (S : Nat) (bytes : Nat → Byte) : Prop where
  extent : m.extent = .ok S
  byte : ∀ x : Address, x.toNat < S → m.load .u8 x = .ok (.u8 (bytes x.toNat))

structure Holds (m : Memory maxPages ⟨policy, layout⟩) (S : Nat) (bytes : Nat → Byte) : Prop where
  valid : m.Valid
  extent : m.extent = .ok S
  byte : ∀ x < S, m.contents[x]? = some (bytes x)

theorem Valid.exists_holds (hm : m.Valid) (hS : m.extent = .ok S) : ∃ bytes, m.Holds S bytes := by
  refine ⟨fun x => m.contents[x]?.getD 0, hm, hS, fun x hx => ?_⟩
  obtain ⟨rfl, -⟩ := addressable_eq_ok hS
  rw [← hm.size_contents] at hx
  rw [Array.getElem?_eq_getElem hx]
  rfl

theorem Holds.activeSize_eq (h : m.Holds S bytes) : m.activeSize = S :=
  (addressable_eq_ok h.extent).1.symm

theorem Holds.lt_size (h : m.Holds S bytes) : S < UInt64.size := by
  obtain ⟨rfl, hlt⟩ := addressable_eq_ok h.extent
  exact hlt

/-- Loads of single bytes need no policy to be in bounds. -/
theorem Holds.shows (h : m.Holds S bytes) : m.Shows S bytes := by
  refine ⟨h.extent, fun x hx => ?_⟩
  have hin : x.toNat + Load.u8.width.bytes ≤ m.activeSize := h.activeSize_eq.symm ▸ hx
  rw [h.valid.load_eq_ok (h.activeSize_eq ▸ h.lt_size) hin]
  exact congrArg (Except.ok ∘ Scalar.u8) (Contents.wordAt_w8 (h.byte _ hx))

/-- **A memory holds the bytes that loads of single bytes see.** -/
theorem Shows.holds (h : m.Shows S bytes) (hm : m.Valid) : m.Holds S bytes := by
  obtain ⟨bytes', h'⟩ := hm.exists_holds h.extent
  refine ⟨hm, h.extent, fun x hx => ?_⟩
  have haddr : (BitVec.ofNat 64 x).toNat = x := Nat.mod_eq_of_lt (hx.trans h'.lt_size)
  have hseen := h.byte (BitVec.ofNat 64 x) (haddr.symm ▸ hx)
  have hheld := h'.shows.byte (BitVec.ofNat 64 x) (haddr.symm ▸ hx)
  rw [hheld, haddr] at hseen
  rw [h'.byte x hx, Scalar.u8.inj (Except.ok.inj hseen)]

/-- **Loads see the bytes that a memory holds.** -/
theorem Holds.readsAs (h : m.Holds S bytes) (henf : policy.Enforcing) : m.ReadsAs S bytes := by
  refine ⟨h.shows.byte, fun k a => ?_⟩
  split_ifs with hin
  · have hbytes : ∀ j < k.width.bytes, m.contents[a.toNat + j]? = some (bytes (a.toNat + j)) :=
      fun j hj => h.byte _ (by omega)
    have hlen : ((List.range k.width.bytes).map fun j => bytes (a.toNat + j)).length =
        k.width.bytes := by rw [List.length_map, List.length_range]
    rw [h.valid.load_eq_ok (h.activeSize_eq ▸ h.lt_size) (h.activeSize_eq ▸ hin),
      Contents.wordAt_eq_ofBytes hbytes, Width.ofBytes_eq_ofDigits,
      k.decode_ofNat (k.width.ofDigits_lt hlen), List.map_map]
    rfl
  · rw [h.valid.load_eq, Contents.loadWord, h.valid.size_contents, h.activeSize_eq, addressable,
      if_pos h.lt_size, Outcome.ok_bind, inRange_of_not_le hin, henf.miss_eq]
    rfl

theorem ReadsAs.holds (h : m.ReadsAs S bytes) (hm : m.Valid) (hS : m.extent = .ok S) :
    m.Holds S bytes :=
  Shows.holds ⟨hS, h.byte⟩ hm

theorem Holds.store_eq_ok (h : m.Holds S bytes) {k : Store} {a : Address}
    (hin : a.toNat + k.width.bytes ≤ S) :
    ∃ m', m.store k a = (.ok (), m') ∧ m'.Holds S (k.overlay a.toNat bytes) := by
  have hactive := h.activeSize_eq
  have hsize := h.valid.size_contents
  obtain ⟨m', hstore, hvalid, hcontents⟩ :=
    h.valid.storeWord_eq_ok (hactive ▸ h.lt_size) (hactive ▸ hin) k.word
  refine ⟨m', hstore, hvalid, ?_, fun x hx => ?_⟩
  · rw [hvalid.extent_eq, hcontents, Patch.size_write, ← h.valid.extent_eq, h.extent]
  · rw [hcontents, Patch.getElem?_write, Store.overlay]
    dsimp only
    rw [Width.length_toBytes]
    split_ifs with hpatch hin hin
    · rw [Store.toBytes_word, List.getElem?_map, List.getElem?_range (by omega), Option.map_some]
    · omega
    · omega
    · exact h.byte x hx

theorem Holds.store_eq_error (h : m.Holds S bytes) (henf : policy.Enforcing) {k : Store} {a : Address}
    (hout : ¬ a.toNat + k.width.bytes ≤ S) : m.store k a = (.error (.trap .outOfBounds), m) := by
  have hlocate : m.locate a k.width.bytes = .error (.trap .outOfBounds) := by
    rw [h.valid.locate_eq, h.valid.size_contents, h.activeSize_eq, addressable, if_pos h.lt_size,
      Outcome.ok_bind, inRange_of_not_le hout, henf.miss_eq]
    rfl
  rw [store, storeWord, hlocate]
  rfl

theorem Holds.store (h : m.Holds S bytes) (henf : policy.Enforcing) (k : Store) (a : Address) :
    (m.store k a).2.Holds S (Store.leaves S bytes (k, a)) := by
  rw [Store.leaves]
  split_ifs with hin
  · obtain ⟨m', hstore, hholds⟩ := h.store_eq_ok hin
    rwa [hstore]
  · rwa [h.store_eq_error henf hin]

def storeAll (ops : List (Store × Address)) (m : Memory maxPages ⟨policy, layout⟩) :
    List (Outcome Unit) × Memory maxPages ⟨policy, layout⟩ :=
  runAll (fun op m => m.store op.1 op.2) ops m

theorem Holds.storeAll (h : m.Holds S bytes) (henf : policy.Enforcing)
    (ops : List (Store × Address)) :
    (m.storeAll ops).2.Holds S (ops.foldl (Store.leaves S) bytes) := by
  induction ops generalizing m bytes with
  | nil => exact h
  | cons op ops ih => exact ih (h.store henf op.1 op.2)

end Memory

/-! ## Reachable memories -/

/-- **Loads and stores, byte by byte.** All loads of a memory see the same bytes, and a store that
succeeds replaces those of its range and no others. -/
theorem Memory.Reaches.access_bytes {maxPages i : Nat} {policy : Policy} {layout : Layout}
    (henf : policy.Enforcing) {m₀ m : Memory maxPages ⟨policy, layout⟩} (hcreate : create i = .ok m₀)
    (h : m₀.Reaches m) {S : Nat} (hS : m.extent = .ok S) :
    (∃ bytes, m.ReadsAs S bytes) ∧ (∀ k a, (m.perform (.load k a)).2 = m) ∧
      ∀ bytes, m.ReadsAs S bytes →
        (∀ (k : Store) (a : Address),
          if a.toNat + k.width.bytes ≤ S then
            ∃ m', m.store k a = (.ok (), m') ∧ m'.ReadsAs S (k.overlay a.toNat bytes)
          else m.store k a = (.error (.trap .outOfBounds), m)) ∧
        ∀ ops, (m.storeAll ops).2.ReadsAs S (ops.foldl (Store.leaves S) bytes) := by
  have hm := (h.step (intact_of_create hcreate)).1.valid
  refine ⟨?_, fun k a => rfl, fun bytes hbytes => ?_⟩
  · obtain ⟨bytes, hholds⟩ := hm.exists_holds hS
    exact ⟨bytes, hholds.readsAs henf⟩
  · have hholds := hbytes.holds hm hS
    refine ⟨fun k a => ?_, fun ops => (hholds.storeAll henf ops).readsAs henf⟩
    split_ifs with hin
    · obtain ⟨m', hstore, hholds'⟩ := hholds.store_eq_ok hin
      exact ⟨m', hstore, hholds'.readsAs henf⟩
    · exact hholds.store_eq_error henf hin

/-- A byte is stored inside a word, and a load takes that byte and one of the word for a negative number. -/
theorem Memory.Reaches.access_bytes_of_overlap :
    let m₀ : Memory 1 ⟨.guard, .reversed⟩ := ⟨Array.replicate (pageSize * 1) 0, 1⟩
    let m := (m₀.storeAll [(.u32 0x0a0bff80, 8), (.i64As8 0x1fe, 10)]).2
    create 1 = .ok m₀ ∧ m₀.Reaches m₀ ∧ Policy.Enforcing .guard ∧ m₀.extent = .ok 65536 ∧
      m.load (.i32From16 .signed) 9 = .ok (.i32 0xfffffeff) ∧
      m.load .i64 0xffffffffffffffff = .error (.trap .outOfBounds) := by
  intro m₀ m
  have hcreate : create 1 = .ok m₀ := rfl
  have henf : Policy.Enforcing .guard := by decide
  have hS : m₀.extent = .ok 65536 := rfl
  obtain ⟨⟨bytes, hbytes⟩, -, hstores⟩ := access_bytes henf hcreate (.refl m₀) hS
  obtain ⟨-, hrun⟩ := hstores bytes hbytes
  obtain ⟨-, hload⟩ := hrun [(.u32 0x0a0bff80, 8), (.i64As8 0x1fe, 10)]
  refine ⟨hcreate, .refl m₀, henf, hS, ?_, ?_⟩
  · have hdigits : ((List.range 2).map fun j => (Store.overlay (.i64As8 0x1fe) 10
        (Store.overlay (.u32 0x0a0bff80) 8 bytes) (9 + j)).toNat) = [0xff, 0xfe] := rfl
    have hvalue : Load.valueOf (.i32From16 .signed) (Nat.ofDigits 256 [0xff, 0xfe]) =
        .i32 0xfffffeff := by decide
    rw [hload, if_pos (by decide), ← hvalue, ← hdigits]
    rfl
  · rw [hload, if_neg (by decide)]

end WasmSandbox
