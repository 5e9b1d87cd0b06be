import WasmSandbox.Memory.Script
import WasmSandbox.Proofs.Memory.Contents
import WasmSandbox.Proofs.Memory.Writes

/-!
# The operations on contents

What each operation on a memory does, said of the active bytes in guest order alone: no layout, no
policy but the way it ends a miss, no storage beyond the active region.

* `Contents.loadWord`, `Contents.storeWord`, `Contents.fill`, `Contents.copy`, `Contents.copyFrom`,
  `Contents.init`, `Contents.initData`, `Contents.grow`, `Contents.perform`: the operations.
* `Refines`: an operation on a memory answers as one on contents, and leaves these contents.
* `Placed`: a patch of contents, placed where the layout puts it in the storage.
* **`Memory.Valid.perform_refines`**, **`Memory.Valid.initData_refines`**,
  **`Memory.Valid.copyFrom_refines`**: every operation of a memory refines the operation on its contents,
  under every policy and layout.
-/

namespace WasmSandbox

/-! ## Operations -/

namespace Contents

def update (bs : Contents) : Outcome (Patch Byte) → Outcome Unit × Contents
  | .ok p => (.ok (), p.write bs)
  | .error e => (.error e, bs)

def loadWord (miss : Fault) (bs : Contents) (w : Width) (addr : Address) :
    Outcome (BitVec w.bits) := do
  let size ← addressable bs.size
  inRange addr.toNat w.bytes size miss
  return w.ofBytes (bs.extract addr.toNat (addr.toNat + w.bytes)).toList

def storeWord (miss : Fault) (bs : Contents) (w : Width) (addr : Address) (v : BitVec w.bits) :
    Outcome Unit × Contents :=
  bs.update do
    let size ← addressable bs.size
    inRange addr.toNat w.bytes size miss
    return ⟨addr.toNat, w.toBytes v⟩

def fill (bs : Contents) (dst : I32) (value : Byte) (len : I32) : Outcome Unit × Contents :=
  bs.update do
    let size ← addressable bs.size
    inRange dst.toNat len.toNat size
    return Patch.fill dst.toNat len.toNat value

/-- Copy `len` bytes, as they are before the first is written. -/
def copy (bs : Contents) (dst src len : I32) : Outcome Unit × Contents :=
  bs.update do
    let size ← addressable bs.size
    inRange dst.toNat len.toNat size
    inRange src.toNat len.toNat size
    return ⟨dst.toNat, (bs.extract src.toNat (src.toNat + len.toNat)).toList⟩

def copyFrom (bs other : Contents) (dst src len : I32) : Outcome Unit × Contents :=
  bs.update do
    let size ← addressable bs.size
    let otherSize ← addressable other.size
    inRange dst.toNat len.toNat size
    inRange src.toNat len.toNat otherSize
    return ⟨dst.toNat, (other.extract src.toNat (src.toNat + len.toNat)).toList⟩

def init (bs : Contents) (data : List Byte) (dst src len : I32) : Outcome Unit × Contents :=
  bs.update do
    let size ← addressable bs.size
    inRange src.toNat len.toNat data.length
    inRange dst.toNat len.toNat size
    return ⟨dst.toNat, (data.drop src.toNat).take len.toNat⟩

def initData (bs : Contents) (offset : I32) (data : List Byte) : Outcome Unit × Contents :=
  if data.length < UInt32.size then bs.init data offset 0 (BitVec.ofNat 32 data.length)
  else (.error (.trap .outOfBounds), bs)

def pages (bs : Contents) : Nat := bs.size / pageSize

/-- Append `delta` pages of zeros, if there may be that many pages. -/
def grow (maxPages : Nat) (bs : Contents) (delta : I32) : Outcome I32 × Contents :=
  if bs.pages + delta.toNat ≤ maxPages then
    match addressable (pageSize * (bs.pages + delta.toNat)) with
    | .ok _ => (.ok (BitVec.ofNat 32 bs.pages), bs ++ Array.replicate (pageSize * delta.toNat) 0)
    | .error e => (.error e, bs)
  else (.ok (-1), bs)

def perform (maxPages : Nat) (miss : Fault) (bs : Contents) : GuestOp → Outcome Answer × Contents
  | .load k addr => ((loadWord miss bs k.width addr).map fun v => .scalar (k.decode v), bs)
  | .store k addr => Answer.ofUnit (storeWord miss bs k.width addr k.word)
  | .size => (.ok (.word (BitVec.ofNat 32 bs.pages)), bs)
  | .grow delta => Answer.ofWord (bs.grow maxPages delta)
  | .fill dst value len => Answer.ofUnit (bs.fill dst value len)
  | .copy dst src len => Answer.ofUnit (bs.copy dst src len)
  | .init data dst src len => Answer.ofUnit (bs.init data dst src len)

end Contents

/-! ## Refinement -/

variable {maxPages : Nat} {config : Config}

/-- An operation on a memory answers as one on contents, and leaves these contents. -/
structure Refines {α : Type} (x : Outcome α × Memory maxPages config) (y : Outcome α × Contents) :
    Prop where
  outcome : x.1 = y.1
  contents : x.2.contents = y.2
  valid : x.2.Valid

namespace Refines

theorem ofUnit {x : Outcome Unit × Memory maxPages config} {y : Outcome Unit × Contents}
    (h : Refines x y) : Refines (Answer.ofUnit x) (Answer.ofUnit y) :=
  ⟨congrArg (Except.map fun _ => Answer.unit) h.outcome, h.contents, h.valid⟩

theorem ofWord {x : Outcome I32 × Memory maxPages config} {y : Outcome I32 × Contents}
    (h : Refines x y) : Refines (Answer.ofWord x) (Answer.ofWord y) :=
  ⟨congrArg (Except.map Answer.word) h.outcome, h.contents, h.valid⟩

end Refines

/-- Both patches fail alike, or the first is the second one placed in the storage. -/
inductive Placed (m : Memory maxPages config) : Outcome (Patch Byte) → Outcome (Patch Byte) → Prop where
  | ok {p : Patch Byte} (h : p.start + p.items.length ≤ m.activeSize) :
    Placed m (.ok (config.layout.place m.activeSize p)) (.ok p)
  | error (e : Fault) : Placed m (.error e) (.error e)

variable {m : Memory maxPages config}

theorem Placed.bind {α : Type} {c : Outcome α} {f g : α → Outcome (Patch Byte)}
    (h : ∀ a, c = .ok a → Placed m (f a) (g a)) : Placed m (c >>= f) (c >>= g) := by
  cases c with
  | error e => exact .error e
  | ok a => exact h a rfl

theorem Placed.refines (hm : m.Valid) {x y : Outcome (Patch Byte)} (h : Placed m x y) :
    Refines (m.patch x) (m.contents.update y) := by
  cases h with
  | ok h => exact ⟨rfl, hm.contents_patch h, hm.patch _⟩
  | error e => exact ⟨rfl, rfl, hm⟩

theorem Memory.Valid.extent_eq (hm : m.Valid) : m.extent = addressable m.contents.size := by
  rw [extent, hm.size_contents]

theorem Memory.extent_of_create {initial : Nat} (h : Memory.create initial = .ok m)
    (hlt : pageSize * initial < UInt64.size) : m.extent = .ok (pageSize * initial) := by
  rw [(valid_of_create h).extent_eq, contents_of_create h, Array.size_replicate, addressable, if_pos hlt]

namespace Placed

variable {f g : Nat → Outcome (Patch Byte)} {f' g' : Unit → Outcome (Patch Byte)}

theorem extent (hm : m.Valid)
    (h : m.activeSize < UInt64.size → Placed m (f m.activeSize) (g m.activeSize)) :
    Placed m (m.extent >>= f) (addressable m.contents.size >>= g) := by
  rw [← hm.extent_eq]
  refine .bind fun size hs => ?_
  obtain ⟨rfl, hlt⟩ := addressable_eq_ok hs
  exact h hlt

theorem check {a len : I32} {size : Nat}
    (h : a.toNat + len.toNat ≤ size → Placed m (f' ()) (g' ())) :
    Placed m (liftM (Policy.bounds.check a.address len.address size) >>= f')
      (inRange a.toNat len.toNat size >>= g') := by
  rw [Policy.lift_check, I32.toNat_address, I32.toNat_address]
  exact .bind fun _ hr => h (le_of_inRange hr)

theorem items {x n : Nat} {bs : List Byte} (hn : bs.length = n) (h : x + n ≤ m.activeSize) :
    Placed m (.ok ⟨config.layout.start m.activeSize x n, config.layout.orient bs⟩)
      (.ok ⟨x, bs⟩) := by
  subst hn
  exact .ok (p := ⟨x, bs⟩) h

end Placed

namespace Memory

variable (hm : m.Valid)

include hm

/-! ### Loads and stores -/

theorem Valid.locate_eq (addr : Address) (w : Width) :
    m.locate addr w.bytes = do
      let size ← addressable m.contents.size
      inRange addr.toNat w.bytes size config.policy.miss
      return config.layout.start size addr.toNat w.bytes := by
  rw [locate, hm.extent_eq]
  cases hs : addressable m.contents.size with
  | error e => rfl
  | ok size =>
    obtain ⟨rfl, hlt⟩ := addressable_eq_ok hs
    have hw : (BitVec.ofNat 64 w.bytes).toNat = w.bytes := by cases w <;> rfl
    rw [Outcome.ok_bind, Outcome.ok_bind, hm.sliceSize_eq, ← hm.size_contents,
      Config.locate_eq _ _ _ hlt, hw, inRange]
    split_ifs <;> rfl

theorem Valid.loadWord_eq (w : Width) (addr : Address) :
    m.loadWord w addr = Contents.loadWord config.policy.miss m.contents w addr := by
  rw [loadWord, hm.locate_eq, Contents.loadWord]
  simp only [bind_assoc, Outcome.pure_eq_ok, Outcome.ok_bind]
  cases hs : addressable m.contents.size with
  | error e => rfl
  | ok size =>
    obtain ⟨rfl, -⟩ := addressable_eq_ok hs
    rw [Outcome.ok_bind, Outcome.ok_bind]
    cases hr : inRange addr.toNat w.bytes m.contents.size config.policy.miss with
    | error e => rfl
    | ok u =>
      have hle := hm.size_contents ▸ le_of_inRange hr
      rw [Outcome.ok_bind, Outcome.ok_bind, hm.size_contents, hm.toList_extract_storage hle,
        Layout.orient_orient]

theorem Valid.load_eq (k : Load) (addr : Address) :
    m.load k addr =
      (Contents.loadWord config.policy.miss m.contents k.width addr).map k.decode := by
  rw [load, hm.loadWord_eq]
  cases Contents.loadWord config.policy.miss m.contents k.width addr <;> rfl

theorem Valid.storeWord_refines (w : Width) (addr : Address) (v : BitVec w.bits) :
    Refines (m.storeWord w addr v) (Contents.storeWord config.policy.miss m.contents w addr v) := by
  refine Placed.refines hm ?_
  rw [hm.locate_eq]
  simp only [bind_assoc, Outcome.pure_eq_ok, Outcome.ok_bind]
  refine .bind fun size hs => .bind fun _ hr => ?_
  obtain ⟨rfl, -⟩ := addressable_eq_ok hs
  have hlen : (w.toBytes v).length = w.bytes := by simp [Width.toBytes]
  have hle := le_of_inRange hr
  rw [hm.size_contents] at hle ⊢
  exact .items hlen hle

/-! ### Bulk operations -/

theorem Valid.sliceStart_eq (hlt : m.activeSize < UInt64.size) {a len : I32}
    (h : a.toNat + len.toNat ≤ m.activeSize) :
    sliceStart (config.layout.hostIndex m.activeSize a.address len.address) len.address m.sliceSize =
      .ok (config.layout.start m.activeSize a.toNat len.toNat) := by
  rw [hm.sliceSize_eq, sliceStart_hostIndex _ hlt (by simpa using h), I32.toNat_address,
    I32.toNat_address]

theorem Valid.length_extract {x n : Nat} (h : x + n ≤ m.activeSize) :
    (m.contents.extract x (x + n)).toList.length = n := by
  rw [Array.length_toList, Array.size_extract, hm.size_contents]
  omega

theorem Valid.fill_refines (dst : I32) (value : Byte) (len : I32) :
    Refines (m.fill dst value len) (m.contents.fill dst value len) := by
  refine Placed.refines hm (.extent hm fun hlt => .check fun hd => ?_)
  have := Placed.items (m := m) (List.length_replicate (a := value)) hd
  rw [Layout.orient_replicate] at this
  dsimp only
  rwa [hm.sliceStart_eq hlt hd]

theorem Valid.copy_refines (dst src len : I32) :
    Refines (m.copy dst src len) (m.contents.copy dst src len) := by
  refine Placed.refines hm (.extent hm fun hlt => .check fun hd => .check fun hr => ?_)
  have hd' := config.layout.start_add_le hd
  have hr' := config.layout.start_add_le hr
  dsimp only
  rw [Layout.toNat_hostIndex _ hlt (by simpa using hr),
    Layout.toNat_hostIndex _ hlt (by simpa using hd), hm.sliceSize_eq]
  simp only [I32.toNat_address]
  rw [addressable, if_pos (by omega), Outcome.ok_bind, if_neg (by omega),
    hm.toList_extract_storage hr]
  exact .items (hm.length_extract hr) hd

theorem Valid.copyFrom_refines {sourcePages : Nat} {other : Memory sourcePages config}
    (ho : other.Valid) (dst src len : I32) :
    Refines (m.copyFrom other dst src len) (m.contents.copyFrom other.contents dst src len) := by
  refine Placed.refines hm (.extent hm fun hlt => ?_)
  rw [ho.extent_eq]
  refine .bind fun size hs => ?_
  obtain ⟨rfl, holt⟩ := addressable_eq_ok hs
  rw [ho.size_contents] at holt ⊢
  refine .check fun hd => .check fun hr => ?_
  rw [ho.sliceStart_eq holt hr, Outcome.ok_bind, hm.sliceStart_eq hlt hd, Outcome.ok_bind,
    ho.toList_extract_storage hr]
  exact .items (ho.length_extract hr) hd

theorem Valid.init_refines (data : List Byte) (dst src len : I32) :
    Refines (m.init data dst src len) (m.contents.init data dst src len) := by
  rw [init_eq, initImage, initTarget]
  simp only [bind_assoc]
  refine Placed.refines hm (.extent hm fun hlt => .check fun hr => .check fun hd => ?_)
  have hlen : ((data.drop src.toNat).take len.toNat).length = len.toNat := by
    rw [List.length_take, List.length_drop]
    omega
  have hpart : sliceStart src.address len.address data.length = .ok src.toNat := by
    rw [sliceStart, I32.toNat_address, I32.toNat_address, if_pos hr]
  rw [hpart, Outcome.ok_bind, hm.sliceStart_eq hlt hd]
  simp only [Outcome.ok_bind, Outcome.pure_eq_ok]
  rw [if_neg (not_not_intro hlen)]
  exact .items hlen hd

theorem Valid.initData_refines (offset : I32) (data : List Byte) :
    Refines (m.initData offset data) (m.contents.initData offset data) := by
  unfold initData Contents.initData
  split_ifs with h
  · exact hm.init_refines ..
  · exact ⟨rfl, rfl, hm⟩

/-! ### Growing -/

theorem Valid.pages_contents : m.contents.pages = m.pages := by
  rw [Contents.pages, hm.size_contents, activeSize, Nat.mul_div_cancel_left _ (by decide)]

omit hm in
/-- Writing zeros after the region, or zeros and the region itself over its start, appends zeros to the
view. -/
theorem view_growth (l : Layout) (storage : Array Byte) {old new : Nat} (hle : old ≤ new)
    (hs : new ≤ storage.size) :
    ∃ p : Patch Byte,
      (match l with
        | .little => return ⟨old, List.replicate (new - old) 0⟩
        | .reversed => return ⟨0, List.replicate (new - old) 0 ++ (storage.extract 0 old).toList⟩ :
          Outcome (Patch Byte)) = .ok p ∧
      l.view ((p.write storage).extract 0 new) =
        l.view (storage.extract 0 old) ++ Array.replicate (new - old) 0 := by
  cases l with
  | little =>
    refine ⟨_, rfl, ?_⟩
    rw [Layout.view, Patch.extract_write_self _ (by simp; omega) hs, List.toArray_replicate]
    rfl
  | reversed =>
    refine ⟨_, rfl, ?_⟩
    rw [Layout.view, Patch.extract_write_self _ (by simp; omega) hs]
    simp [Layout.view]

theorem Valid.growthImage_eq_ok {pages' : Nat} (hle : m.pages ≤ pages') (hmax : pages' ≤ maxPages)
    (hlt : pageSize * pages' < UInt64.size) :
    ∃ p, m.growthImage pages' = .ok p ∧
      config.layout.view ((p.write m.storage).extract 0 (pageSize * pages')) =
        m.contents ++ Array.replicate (pageSize * (pages' - m.pages)) 0 := by
  have hold : pageSize * m.pages ≤ pageSize * pages' := Nat.mul_le_mul_left _ hle
  have hnew : pageSize * pages' ≤ m.storage.size := by
    rw [hm.size_storage]
    exact Nat.mul_le_mul_left _ hmax
  rw [growthImage, addressable, if_pos (Nat.lt_of_le_of_lt hold hlt), addressable, if_pos hlt,
    Outcome.ok_bind, Outcome.ok_bind, if_neg (Nat.not_lt.mpr hnew), contents, hostBytes,
    hm.sliceSize_eq, activeSize, Nat.mul_sub]
  exact view_growth _ _ hold hnew

omit hm in
theorem growthImage_eq_error {pages' : Nat} (hge : ¬ pageSize * pages' < UInt64.size) :
    m.growthImage pages' = .error (.breach .arithmetic) := by
  rw [growthImage]
  by_cases hold : pageSize * m.pages < UInt64.size
  · rw [addressable, if_pos hold, addressable, if_neg hge]
    rfl
  · rw [addressable, if_neg hold]
    rfl

theorem Valid.grow_refines (delta : I32) :
    Refines (m.grow delta) (m.contents.grow maxPages delta) := by
  unfold grow Contents.grow
  rw [hm.pages_contents]
  dsimp only
  rw [m.growth_eq (Nat.le_add_right ..)]
  split_ifs with hmax
  · by_cases hlt : pageSize * (m.pages + delta.toNat) < UInt64.size
    · obtain ⟨p, hp, hview⟩ := hm.growthImage_eq_ok (Nat.le_add_right ..) hmax hlt
      rw [hp, addressable, if_pos hlt, Memory.patch]
      have hv : (⟨p.write m.storage, m.pages + delta.toNat⟩ : Memory maxPages config).Valid :=
        ⟨(Patch.size_write ..).trans hm.size_storage, hmax⟩
      refine ⟨rfl, ?_, hv⟩
      rw [Nat.add_sub_cancel_left] at hview
      rw [contents, hostBytes, hv.sliceSize_eq]
      exact hview
    · rw [growthImage_eq_error hlt, addressable, if_neg hlt]
      exact ⟨rfl, rfl, hm⟩
  · exact ⟨rfl, rfl, hm⟩

/-! ### All guest operations -/

/-- **Every guest operation refines the operation on contents**, under every policy and layout. -/
theorem Valid.perform_refines (op : GuestOp) :
    Refines (m.perform op) (m.contents.perform maxPages config.policy.miss op) := by
  cases op with
  | load k addr =>
    refine ⟨?_, rfl, hm⟩
    rw [Contents.perform, perform, hm.load_eq]
    cases Contents.loadWord config.policy.miss m.contents k.width addr <;> rfl
  | store k addr => exact (hm.storeWord_refines ..).ofUnit
  | size =>
    refine ⟨?_, rfl, hm⟩
    rw [Contents.perform, hm.pages_contents]
    rfl
  | grow delta => exact (hm.grow_refines delta).ofWord
  | fill dst value len => exact (hm.fill_refines ..).ofUnit
  | copy dst src len => exact (hm.copy_refines ..).ofUnit
  | init data dst src len => exact (hm.init_refines ..).ofUnit

end Memory

end WasmSandbox
