import Mathlib.Tactic.Common
import WasmSandbox.Proofs.Memory.Bytes

/-!
# Bulk operations, byte by byte

* `Store.singles`: stores of single bytes, to one address after the other.
* `Memory.spliced`: bytes, with those of a source in place of a range of them.
* `Memory.Transfers`: an operation is refused and changes nothing, or does what such stores do.
* `Memory.Holds.storeAll_singles`: what a run of such stores leaves.
* `Memory.Holds.transfers`: an operation that writes one patch to the contents, or none, transfers.
  `Memory.Holds.fill_transfers`, `Memory.Holds.copy_transfers` and so on: the operations do that.
* **`Memory.Reaches.bulk_bytes`**: in all memories that can be reached, under every policy and layout, a
  bulk operation traps before its first write or is a run of loads and stores of single bytes.
-/

namespace WasmSandbox

/-! ## The reference -/

/-- Stores of single bytes, one after the other from address `dst` on. -/
def Store.singles (dst len : Nat) (source : Nat → Byte) : List (Store × Address) :=
  (List.range len).map fun k => (.u8 (source k), BitVec.ofNat 64 (dst + k))

theorem Store.singles_succ (dst len : Nat) (source : Nat → Byte) :
    singles dst (len + 1) source =
      (.u8 (source 0), BitVec.ofNat 64 dst) :: singles (dst + 1) len fun k => source (k + 1) := by
  rw [singles, List.range_succ_eq_map, List.map_cons, List.map_map, Nat.add_zero]
  refine congrArg _ (List.map_congr_left fun k _ => ?_)
  rw [Function.comp_apply, Nat.succ_eq_add_one, Nat.add_right_comm, Nat.add_assoc]

namespace Memory

/-- Bytes, with those of a source in place of the `len` bytes from `dst` on. -/
def spliced (dst len : Nat) (source bytes : Nat → Byte) (x : Nat) : Byte :=
  if dst ≤ x ∧ x < dst + len then source (x - dst) else bytes x

theorem spliced_zero (dst : Nat) (source bytes : Nat → Byte) : spliced dst 0 source bytes = bytes := by
  funext x
  exact if_neg (by omega)

theorem spliced_succ (dst len : Nat) (source bytes : Nat → Byte) :
    spliced (dst + 1) len (fun k => source (k + 1)) (Store.overlay (.u8 (source 0)) dst bytes) =
      spliced dst (len + 1) source bytes := by
  funext x
  have hbyte : Store.byte (.u8 (source 0)) 0 = source 0 := by simp [Store.byte, Store.number]
  rcases Nat.lt_trichotomy x dst with hx | rfl | hx
  · rw [spliced, if_neg (by omega), Store.overlay, if_neg (by omega), spliced, if_neg (by omega)]
  · rw [spliced, if_neg (by omega), Store.overlay, if_pos ⟨Nat.le_refl _, Nat.lt_succ_self _⟩, spliced,
      if_pos (by omega), Nat.sub_self, hbyte]
  · have hindex : x - (dst + 1) + 1 = x - dst := by omega
    rw [spliced, Store.overlay, if_neg (by omega : ¬ (dst ≤ x ∧ x < dst + 1)), spliced, hindex]
    exact if_congr (by omega) rfl rfl

section Transfers

variable {maxPages : Nat} {policy : Policy} {layout : Layout} {m m' : Memory maxPages ⟨policy, layout⟩}
  {S : Nat} {bytes : Nat → Byte}

/-- An operation transfers `len` bytes of a source to `dst`. Unless they fit, it traps and nothing
changes; else it leaves what storing them one by one leaves. -/
structure Transfers (m : Memory maxPages ⟨policy, layout⟩) (S : Nat) (bytes : Nat → Byte) (fits : Prop)
    (dst len : Nat) (source : Nat → Byte) (x : Outcome Unit × Memory maxPages ⟨policy, layout⟩) :
    Prop where
  refused : ¬ fits → x = (.error (.trap .outOfBounds), m)
  made : fits → ∃ m', x = (.ok (), m') ∧
    m.storeAll (Store.singles dst len source) = (List.replicate len (.ok ()), m') ∧
    m'.Shows S (spliced dst len source bytes)

/-! ## Single stores -/

theorem Holds.size_contents (h : m.Holds S bytes) : m.contents.size = S := by
  rw [h.valid.size_contents, h.activeSize_eq]

theorem Holds.addressable_eq (h : m.Holds S bytes) : addressable m.contents.size = .ok S := by
  rw [← h.valid.extent_eq, h.extent]

/-- **An intact memory is determined by the bytes that it holds.** -/
theorem Holds.eq_of_intact (h : m.Holds S bytes) (h' : m'.Holds S bytes) (hm : m.Intact)
    (hm' : m'.Intact) : m = m' := by
  apply hm.eq_of_contents hm'
  apply Array.ext_getElem?
  intro x
  rcases Nat.lt_or_ge x S with hx | hx
  · rw [h.byte x hx, h'.byte x hx]
  · rw [Array.getElem?_eq_none (h.size_contents ▸ hx), Array.getElem?_eq_none (h'.size_contents ▸ hx)]

/-- **Single stores in bounds** succeed one after the other. -/
theorem Holds.storeAll_singles (h : m.Holds S bytes) (hm : m.Intact) {dst len : Nat}
    (hin : dst + len ≤ S) (source : Nat → Byte) :
    ∃ m', m.storeAll (Store.singles dst len source) = (List.replicate len (.ok ()), m') ∧
      m'.Holds S (spliced dst len source bytes) ∧ m'.Intact := by
  induction len generalizing m bytes dst source with
  | zero => exact ⟨m, rfl, (spliced_zero dst source bytes).symm ▸ h, hm⟩
  | succ len ih =>
    have haddr : (BitVec.ofNat 64 dst).toNat = dst :=
      Nat.mod_eq_of_lt (Nat.lt_of_lt_of_le (by omega) (Nat.le_of_lt h.lt_size))
    have hfirst : (BitVec.ofNat 64 dst).toNat + (Store.u8 (source 0)).width.bytes ≤ S := by
      rw [haddr]
      exact Nat.le_trans (Nat.add_le_add_left (Nat.le_add_left 1 len) dst) hin
    obtain ⟨m₁, hstore, h₁⟩ := h.store_eq_ok hfirst
    have hrest : dst + 1 + len ≤ S := by omega
    obtain ⟨m', hrun, h', hm'⟩ := ih h₁ (hm.of_store hstore) hrest fun k => source (k + 1)
    rw [haddr, spliced_succ] at h'
    refine ⟨m', ?_, h', hm'⟩
    rw [Memory.storeAll] at hrun ⊢
    rw [Store.singles_succ, runAll_cons, hstore, hrun, List.replicate_succ]

/-! ## Patches of the contents -/

/-- **An operation that writes one patch to the contents, or none, transfers** the bytes of the patch. -/
theorem Holds.transfers (h : m.Holds S bytes) (hm : m.Intact) {fits : Prop} {dst len : Nat}
    {source : Nat → Byte} {x : Outcome Unit × Memory maxPages ⟨policy, layout⟩} (hx : x.2.Intact)
    {p : Outcome (Patch Byte)} (hr : Refines x (m.contents.update p))
    (hok : fits → dst + len ≤ S ∧ p = .ok ⟨dst, (List.range len).map source⟩)
    (herror : ¬ fits → p = .error (.trap .outOfBounds)) :
    m.Transfers S bytes fits dst len source x := by
  refine ⟨fun hfits => ?_, fun hfits => ?_⟩
  · obtain rfl := herror hfits
    exact Prod.ext hr.outcome (hx.eq_of_contents hm hr.contents)
  · obtain ⟨hin, rfl⟩ := hok hfits
    have hcontents : x.2.contents = Patch.write ⟨dst, (List.range len).map source⟩ m.contents :=
      hr.contents
    have hholds : x.2.Holds S (spliced dst len source bytes) := by
      refine ⟨hr.valid, ?_, fun y hy => ?_⟩
      · rw [hr.valid.extent_eq, hcontents, Patch.size_write, h.addressable_eq]
      · rw [hcontents, Patch.getElem?_write, spliced]
        dsimp only
        rw [List.length_map, List.length_range, h.size_contents]
        split_ifs
        · rw [List.getElem?_map, List.getElem?_range (by omega), Option.map_some]
        · omega
        · omega
        · exact h.byte y hy
    obtain ⟨m', hrun, hholds', hm'⟩ := h.storeAll_singles hm hin source
    -- Only one intact memory holds these bytes, so both ways end in it.
    obtain rfl := hholds'.eq_of_intact hholds hm' hx
    exact ⟨x.2, Prod.ext hr.outcome rfl, hrun, hholds.shows⟩

end Transfers

/-! ## The operations -/

section Operations

variable {maxPages otherPages : Nat} {policy : Policy} {layout : Layout}
  {m : Memory maxPages ⟨policy, layout⟩} {S : Nat} {bytes : Nat → Byte} (h : m.Holds S bytes)
  (hm : m.Intact) (dst src len : I32)

theorem inRange_bind_inRange {x x' n size size' : Nat} {f : Unit → Outcome (Patch Byte)}
    (hmiss : ¬ (x + n ≤ size ∧ x' + n ≤ size')) :
    (inRange x n size >>= fun _ => inRange x' n size' >>= f) = .error (.trap .outOfBounds) := by
  by_cases hx : x + n ≤ size
  · rw [inRange_of_le hx, Outcome.ok_bind, inRange_of_not_le fun hx' => hmiss ⟨hx, hx'⟩,
      Outcome.error_bind]
  · rw [inRange_of_not_le hx, Outcome.error_bind]

theorem part_eq_map {data : List Byte} {i n : Nat} (hin : i + n ≤ data.length) :
    (data.drop i).take n = (List.range n).map fun k => data.getD (i + k) 0 := by
  apply List.ext_getElem?
  intro k
  rw [List.getElem?_take, List.getElem?_drop, List.getElem?_map]
  split_ifs with hk
  · have hbyte : data[i + k]? = some data[i + k] := List.getElem?_eq_getElem (by omega)
    rw [List.getElem?_range hk, Option.map_some, List.getD_eq_getElem?_getD, hbyte, Option.getD_some]
  · rw [List.getElem?_eq_none (by rw [List.length_range]; omega), Option.map_none]

include h

theorem Holds.toList_extract (hin : src.toNat + len.toNat ≤ S) :
    (m.contents.extract src.toNat (src.toNat + len.toNat)).toList =
      (List.range len.toNat).map fun k => bytes (src.toNat + k) :=
  Contents.toList_extract_eq_map fun k hk => h.byte _ (by omega)

include hm

theorem Holds.fill_transfers (value : Byte) :
    m.Transfers S bytes (dst.toNat + len.toNat ≤ S) dst.toNat len.toNat (fun _ => value)
      (m.fill dst value len) := by
  refine h.transfers hm (hm.fill dst value len) (hm.valid.fill_refines dst value len)
    (fun hd => ⟨hd, ?_⟩) fun hd => ?_
  · rw [h.addressable_eq, Outcome.ok_bind, inRange_of_le hd, Outcome.ok_bind, List.map_const',
      List.length_range]
    rfl
  · rw [h.addressable_eq, Outcome.ok_bind, inRange_of_not_le hd, Outcome.error_bind]

theorem Holds.copy_transfers :
    m.Transfers S bytes (dst.toNat + len.toNat ≤ S ∧ src.toNat + len.toNat ≤ S) dst.toNat len.toNat
      (fun k => bytes (src.toNat + k)) (m.copy dst src len) := by
  refine h.transfers hm (hm.copy dst src len) (hm.valid.copy_refines dst src len)
    (fun hfits => ⟨hfits.1, ?_⟩) fun hmiss => ?_
  · rw [h.addressable_eq, Outcome.ok_bind, inRange_of_le hfits.1, Outcome.ok_bind,
      inRange_of_le hfits.2, Outcome.ok_bind, h.toList_extract src len hfits.2]
    rfl
  · rw [h.addressable_eq, Outcome.ok_bind]
    exact inRange_bind_inRange hmiss

theorem Holds.copyFrom_transfers {o : Memory otherPages ⟨policy, layout⟩} {T : Nat}
    {others : Nat → Byte} (ho : o.Holds T others) :
    m.Transfers S bytes (dst.toNat + len.toNat ≤ S ∧ src.toNat + len.toNat ≤ T) dst.toNat len.toNat
      (fun k => others (src.toNat + k)) (m.copyFrom o dst src len) := by
  refine h.transfers hm (hm.copyFrom o dst src len) (hm.valid.copyFrom_refines ho.valid dst src len)
    (fun hfits => ⟨hfits.1, ?_⟩) fun hmiss => ?_
  · rw [h.addressable_eq, Outcome.ok_bind, ho.addressable_eq, Outcome.ok_bind, inRange_of_le hfits.1,
      Outcome.ok_bind, inRange_of_le hfits.2, Outcome.ok_bind, ho.toList_extract src len hfits.2]
    rfl
  · rw [h.addressable_eq, Outcome.ok_bind, ho.addressable_eq, Outcome.ok_bind]
    exact inRange_bind_inRange hmiss

theorem Holds.init_transfers (data : List Byte) :
    m.Transfers S bytes (dst.toNat + len.toNat ≤ S ∧ src.toNat + len.toNat ≤ data.length) dst.toNat
      len.toNat (fun k => data.getD (src.toNat + k) 0) (m.init data dst src len) := by
  refine h.transfers hm (hm.init data dst src len) (hm.valid.init_refines data dst src len)
    (fun hfits => ⟨hfits.1, ?_⟩) fun hmiss => ?_
  · rw [h.addressable_eq, Outcome.ok_bind, inRange_of_le hfits.2, Outcome.ok_bind,
      inRange_of_le hfits.1, Outcome.ok_bind, part_eq_map hfits.2]
    rfl
  · rw [h.addressable_eq, Outcome.ok_bind]
    exact inRange_bind_inRange fun hfits => hmiss hfits.symm

theorem Holds.initData_transfers (data : List Byte) :
    m.Transfers S bytes (data.length < UInt32.size ∧ dst.toNat + data.length ≤ S) dst.toNat data.length
      (fun k => data.getD k 0) (m.initData dst data) := by
  rw [Memory.initData]
  split_ifs with hlen
  · have hinit := h.init_transfers hm dst 0 (BitVec.ofNat 32 data.length) data
    have hword : (BitVec.ofNat 32 data.length).toNat = data.length := Nat.mod_eq_of_lt hlen
    have hzero : (0 : I32).toNat = 0 := rfl
    simp only [hword, hzero, Nat.zero_add, Nat.le_refl, and_true] at hinit
    simpa only [hlen, true_and] using hinit
  · exact ⟨fun _ => rfl, fun hfits => absurd hfits.1 hlen⟩

end Operations

end Memory

/-! ## Reachable memories -/

/-- **Bulk operations, byte by byte.** Each traps exactly if a range is too long, and otherwise leaves
what single stores of the bytes read before leave. -/
theorem Memory.Reaches.bulk_bytes {maxPages otherPages i j : Nat} {policy : Policy} {layout : Layout}
    {m₀ m : Memory maxPages ⟨policy, layout⟩} {o₀ o : Memory otherPages ⟨policy, layout⟩}
    (hcreate : create i = .ok m₀) (h : m₀.Reaches m) (hcreate' : create j = .ok o₀) (ho : o₀.Reaches o)
    {S T : Nat} (hS : m.extent = .ok S) (hT : o.extent = .ok T) :
    (∃ bytes, m.Shows S bytes) ∧ (∃ others, o.Shows T others) ∧
      ∀ bytes others, m.Shows S bytes → o.Shows T others → ∀ (dst src len : I32) (data : List Byte),
        (∀ value, m.Transfers S bytes (dst.toNat + len.toNat ≤ S) dst.toNat len.toNat (fun _ => value)
          (m.fill dst value len)) ∧
        m.Transfers S bytes (dst.toNat + len.toNat ≤ S ∧ src.toNat + len.toNat ≤ S) dst.toNat len.toNat
          (fun k => bytes (src.toNat + k)) (m.copy dst src len) ∧
        m.Transfers S bytes (dst.toNat + len.toNat ≤ S ∧ src.toNat + len.toNat ≤ T) dst.toNat len.toNat
          (fun k => others (src.toNat + k)) (m.copyFrom o dst src len) ∧
        ((PairOp.copyFrom dst src len).exec .own ⟨m, o⟩).2 = ⟨(m.copyFrom o dst src len).2, o⟩ ∧
        m.Transfers S bytes (dst.toNat + len.toNat ≤ S ∧ src.toNat + len.toNat ≤ data.length) dst.toNat
          len.toNat (fun k => data.getD (src.toNat + k) 0) (m.init data dst src len) ∧
        m.Transfers S bytes (data.length < UInt32.size ∧ dst.toNat + data.length ≤ S) dst.toNat
          data.length (fun k => data.getD k 0) (m.initData dst data) ∧
        (data.length < UInt32.size →
          m.initData dst data = m.init data dst 0 (BitVec.ofNat 32 data.length)) := by
  have hm := (h.step (intact_of_create hcreate)).1
  have hother := (ho.step (intact_of_create hcreate')).1
  refine ⟨?_, ?_, fun bytes others hbytes hothers dst src len data => ?_⟩
  · obtain ⟨bytes, hholds⟩ := hm.valid.exists_holds hS
    exact ⟨bytes, hholds.shows⟩
  · obtain ⟨others, hholds⟩ := hother.valid.exists_holds hT
    exact ⟨others, hholds.shows⟩
  · have hholds := hbytes.holds hm.valid
    have hsource := hothers.holds hother.valid
    exact ⟨hholds.fill_transfers hm dst len, hholds.copy_transfers hm dst src len,
      hholds.copyFrom_transfers hm dst src len hsource, rfl, hholds.init_transfers hm dst src len data,
      hholds.initData_transfers hm dst data, fun hlen => if_pos hlen⟩

/-- Four bytes near the end of a reversed memory are copied over themselves up to the end. One byte
further the copy traps. -/
theorem Memory.Reaches.bulk_bytes_of_overlap :
    let m₀ : Memory 1 ⟨.unchecked, .reversed⟩ := ⟨Array.replicate (pageSize * 1) 0, 1⟩
    let o : Memory 2 ⟨.unchecked, .reversed⟩ := ⟨Array.replicate (pageSize * 2) 0, 2⟩
    let m := (MemoryOp.exec .own m₀ (.guest (.init [1, 2, 3, 4] 65530 0 4))).2
    create 1 = .ok m₀ ∧ m₀.Reaches m ∧ create 2 = .ok o ∧ o.Reaches o ∧ m.extent = .ok 65536 ∧
      o.extent = .ok 131072 ∧
      (∃ m', m.copy 65532 65530 4 = (.ok (), m') ∧ m'.load .u8 65534 = .ok (.u8 3)) ∧
      m.copy 65533 65530 4 = (.error (.trap .outOfBounds), m) ∧
      m.copyFrom o 0 131073 0 = (.error (.trap .outOfBounds), m) := by
  intro m₀ o m
  have hcreate : create 1 = .ok m₀ := rfl
  have hcreate' : create 2 = .ok o := rfl
  have hreach : m₀.Reaches m := (Reaches.refl m₀).exec .own (.inr trivial)
  have hT : o.extent = .ok 131072 := rfl
  obtain ⟨⟨bytes₀, hbytes₀⟩, ⟨others, hothers⟩, hnew⟩ :=
    bulk_bytes hcreate (.refl m₀) hcreate' (.refl o) rfl hT
  obtain ⟨-, -, -, -, hinit, -⟩ := hnew bytes₀ others hbytes₀ hothers 65530 0 4 [1, 2, 3, 4]
  obtain ⟨m₁, hrun, -, hbytes⟩ := hinit.made (by decide)
  have hm : m = m₁ := by
    change (Answer.ofUnit (m₀.init [1, 2, 3, 4] 65530 0 4)).2 = m₁
    rw [hrun, Answer.ofUnit]
  rw [← hm] at hbytes
  have hS := hbytes.extent
  obtain ⟨-, -, hbulk⟩ := bulk_bytes hcreate hreach hcreate' (.refl o) hS hT
  obtain ⟨-, hcopy, -⟩ := hbulk _ others hbytes hothers 65532 65530 4 []
  obtain ⟨-, hmiss, -⟩ := hbulk _ others hbytes hothers 65533 65530 4 []
  obtain ⟨-, -, hempty, -⟩ := hbulk _ others hbytes hothers 0 131073 0 []
  obtain ⟨m', hcopied, -, hbytes'⟩ := hcopy.made (by decide)
  exact ⟨hcreate, hreach, hcreate', .refl o, hS, hT, ⟨m', hcopied, hbytes'.byte 65534 (by decide)⟩,
    hmiss.refused (by decide), hempty.refused (by decide)⟩

end WasmSandbox
