import WasmSandbox.Proofs.Memory.Paths
import WasmSandbox.Proofs.Memory.Soundness

/-!
# What every memory keeps

* `EndsBy`: a patch lies before an index.
* `Memory.ZeroFrom`: nothing but zeros from an index on.
* `Memory.Intact`: a valid memory whose storage is zero beyond the active region. Growing and every write
  keep it so (`Memory.Intact.exec`, `Memory.Intact.copyFrom`). Such a memory is determined by its contents
  (`Memory.Intact.eq_of_contents`).
* `MemoryOp.Allowed`: what may be asked of a memory: loads and stores that the policy tests or that are in
  bounds, and host writes into the slice that the host has been given.
* `Memory.Reaches`: what operations and copies from other memories make of a memory.
* **`Memory.Reaches.intact`**: in every state that a new memory reaches, its shape is sound, the rest of
  its storage is zero, and no operation breaches.
-/

namespace WasmSandbox

/-! ## Where patches end -/

/-- The patch, if there is one, lies before index `n`. -/
def EndsBy (n : Nat) (x : Outcome (Patch Byte)) : Prop :=
  ∀ p, x = .ok p → p.start + p.items.length ≤ n

namespace EndsBy

variable {n : Nat}

theorem ok {start : Nat} {items : List Byte} (h : start + items.length ≤ n) :
    EndsBy n (.ok ⟨start, items⟩) := by
  rintro _ ⟨⟩
  exact h

theorem error (e : Fault) : EndsBy n (.error e) := by
  rintro _ ⟨⟩

theorem bind {α : Type} {c : Outcome α} {f : α → Outcome (Patch Byte)}
    (h : ∀ a, c = .ok a → EndsBy n (f a)) : EndsBy n (c >>= f) := by
  intro p hp
  obtain ⟨a, ha, hf⟩ := Outcome.bind_eq_ok hp
  exact h a ha p hf

end EndsBy

namespace Memory

variable {maxPages : Nat} {config : Config} {m : Memory maxPages config}

@[simp] theorem patch_pages (x : Outcome (Patch Byte)) : (m.patch x).2.pages = m.pages := by
  cases x <;> rfl

@[simp] theorem patch_activeSize (x : Outcome (Patch Byte)) :
    (m.patch x).2.activeSize = m.activeSize := by
  rw [activeSize, patch_pages, activeSize]

theorem init_pages (data : List Byte) (dst src len : I32) : (m.init data dst src len).2.pages = m.pages := by
  rw [init_eq, patch_pages]

/-! ## Zeros beyond the active region -/

/-- The storage holds zeros from index `n` on. -/
def ZeroFrom (n : Nat) (m : Memory maxPages config) : Prop :=
  ∀ k, n ≤ k → k < m.storage.size → m.storage[k]? = some 0

theorem ZeroFrom.patch {n : Nat} (h : m.ZeroFrom n) {x : Outcome (Patch Byte)} (hx : EndsBy n x) :
    (m.patch x).2.ZeroFrom n := by
  cases x with
  | error e => exact h
  | ok p =>
    intro k hk hlt
    have hend := hx p rfl
    have hsize : k < m.storage.size := by simpa [Memory.patch] using hlt
    rw [Memory.patch, Patch.getElem?_write, if_neg (by omega)]
    exact h k hk hsize

/-- The storage is whole, the active pages are among it, and it is zero beyond them. -/
structure Intact (m : Memory maxPages config) : Prop where
  valid : m.Valid
  zero : m.ZeroFrom m.activeSize

theorem intact_of_create {initial : Nat} (h : create initial = .ok m) : m.Intact := by
  refine ⟨valid_of_create h, ?_⟩
  unfold create at h
  split_ifs at h
  obtain rfl := Except.ok.inj h
  intro k hk hlt
  rw [Array.getElem?_replicate, if_pos (by simpa using hlt)]

theorem Intact.patch (h : m.Intact) {x : Outcome (Patch Byte)} (hx : EndsBy m.activeSize x) :
    (m.patch x).2.Intact := by
  refine ⟨h.valid.patch x, ?_⟩
  rw [patch_activeSize]
  exact h.zero.patch hx

/-- **An intact memory is its contents**: nothing else is in its storage. -/
theorem Intact.eq_of_contents {m' : Memory maxPages config} (h : m.Intact) (h' : m'.Intact)
    (hc : m.contents = m'.contents) : m = m' := by
  have hpages : m.pages = m'.pages := by
    rw [← h.valid.pages_contents, hc, h'.valid.pages_contents]
  have hhost : m.hostBytes = m'.hostBytes := by
    unfold contents at hc
    cases hl : config.layout with
    | little => rwa [hl] at hc
    | reversed =>
      rw [hl] at hc
      exact Array.reverse_inj.mp hc
  have hactive : m.activeSize = m'.activeSize := by rw [activeSize, hpages, activeSize]
  have hsize : m.storage.size = m'.storage.size := by
    rw [h.valid.size_storage, h'.valid.size_storage]
  have hstorage : m.storage = m'.storage := by
    apply Array.ext_getElem?
    intro k
    rcases Nat.lt_or_ge k m.activeSize with hk | hk
    · have hbyte := congrArg (·[k]?) hhost
      simp only [hostBytes, h.valid.sliceSize_eq, h'.valid.sliceSize_eq, Array.getElem?_extract] at hbyte
      rwa [if_pos (by have := h.valid.activeSize_le; omega),
        if_pos (by have := h'.valid.activeSize_le; omega), Nat.zero_add] at hbyte
    · rcases Nat.lt_or_ge k m.storage.size with hlt | hge
      · rw [h.zero k hk hlt, h'.zero k (hactive ▸ hk) (hsize ▸ hlt)]
      · rw [Array.getElem?_eq_none hge, Array.getElem?_eq_none (hsize ▸ hge)]
  cases m
  exact congrArg₂ Memory.mk hstorage hpages

/-! ## What the operations write -/

theorem Valid.locate_add_le (hm : m.Valid) {addr : Address} {w : Width} {k : Nat}
    (h : m.locate addr w.bytes = .ok k) : k + w.bytes ≤ m.activeSize := by
  rw [hm.locate_eq] at h
  obtain ⟨size, hs, h⟩ := Outcome.bind_eq_ok h
  obtain ⟨rfl, -⟩ := addressable_eq_ok hs
  obtain ⟨u, hr, h⟩ := Outcome.bind_eq_ok h
  obtain rfl := Except.ok.inj h
  rw [hm.size_contents] at hr ⊢
  exact config.layout.start_add_le (le_of_inRange hr)

theorem Intact.storeWord (h : m.Intact) (w : Width) (addr : Address) (v : BitVec w.bits) :
    (m.storeWord w addr v).2.Intact := by
  refine h.patch (.bind fun k hk => .ok ?_)
  have hlen : (w.toBytes v).length = w.bytes := by simp [Width.toBytes]
  rw [Layout.length_orient, hlen]
  exact h.valid.locate_add_le hk

theorem Intact.of_store (h : m.Intact) {k : Store} {addr : Address} {r : Outcome Unit}
    {m' : Memory maxPages config} (hstore : m.store k addr = (r, m')) : m'.Intact := by
  have hintact := h.storeWord k.width addr k.word
  rw [store] at hstore
  rwa [hstore] at hintact

theorem Intact.fill (h : m.Intact) (dst : I32) (value : Byte) (len : I32) :
    (m.fill dst value len).2.Intact := by
  refine h.patch (.bind fun active _ => .bind fun _ _ => .bind fun start hs => .ok ?_)
  have hle := sliceStart_add_le hs
  rw [I32.toNat_address] at hle
  rw [List.length_replicate]
  exact Nat.le_trans hle sliceSize_le

theorem Intact.copy (h : m.Intact) (dst src len : I32) : (m.copy dst src len).2.Intact := by
  refine h.patch (.bind fun active _ => .bind fun _ _ => .bind fun _ _ => .bind fun stop hs => ?_)
  obtain ⟨rfl, -⟩ := addressable_eq_ok hs
  split_ifs with hout
  · exact .error _
  · refine .ok ?_
    have hactive := m.sliceSize_le
    rw [Array.length_toList, Array.size_extract]
    omega

theorem Intact.copyFrom (h : m.Intact) {otherPages : Nat} (o : Memory otherPages config)
    (dst src len : I32) : (m.copyFrom o dst src len).2.Intact := by
  refine h.patch (.bind fun active _ => .bind fun otherActive _ => .bind fun _ _ => .bind fun _ _ =>
    .bind fun source _ => .bind fun start hs => .ok ?_)
  have hle := sliceStart_add_le hs
  have hactive := m.sliceSize_le
  rw [I32.toNat_address] at hle
  rw [Array.length_toList, Array.size_extract]
  omega

theorem Intact.init (h : m.Intact) (data : List Byte) (dst src len : I32) :
    (m.init data dst src len).2.Intact := by
  rw [init_eq, initImage, initTarget]
  simp only [bind_assoc, Outcome.pure_eq_ok, Outcome.ok_bind]
  refine h.patch (.bind fun active _ => .bind fun _ _ => .bind fun _ _ => .bind fun _ _ =>
    .bind fun start hs => ?_)
  have hle := sliceStart_add_le hs
  have hactive := m.sliceSize_le
  rw [I32.toNat_address] at hle
  split_ifs with hlen
  · exact .error _
  · refine .ok ?_
    rw [Layout.length_orient, not_not.mp hlen]
    exact Nat.le_trans hle hactive

theorem Intact.initData (h : m.Intact) (offset : I32) (data : List Byte) :
    (m.initData offset data).2.Intact := by
  unfold Memory.initData
  split_ifs
  · exact h.init ..
  · exact h

theorem Intact.hostWrite (h : m.Intact) (start : Nat) (bs : List Byte) :
    (m.hostWrite start bs).2.Intact := by
  refine h.patch ?_
  split_ifs with hin
  · exact .ok (Nat.le_trans hin sliceSize_le)
  · exact .error _

/-! ## Growing -/

theorem growthImage_endsBy {pages' : Nat} (hle : m.pages ≤ pages') :
    EndsBy (pageSize * pages') (m.growthImage pages') := by
  have hactive : pageSize * m.pages ≤ pageSize * pages' := Nat.mul_le_mul_left _ hle
  refine .bind fun old hold => .bind fun new hnew => ?_
  obtain ⟨rfl, -⟩ := addressable_eq_ok hold
  obtain ⟨rfl, -⟩ := addressable_eq_ok hnew
  split_ifs
  · exact .error _
  · cases config.layout with
    | little =>
      refine .ok ?_
      rw [List.length_replicate]
      omega
    | reversed =>
      refine .ok ?_
      rw [List.length_append, List.length_replicate, Array.length_toList, Array.size_extract]
      omega

theorem Intact.grow (h : m.Intact) (delta : I32) :
    (m.grow delta).2.Intact ∧ m.pages ≤ (m.grow delta).2.pages := by
  have hle : m.pages ≤ m.pages + delta.toNat := Nat.le_add_right ..
  have hvalid := (h.valid.grow_refines delta).valid
  unfold Memory.grow at hvalid ⊢
  dsimp only at hvalid ⊢
  rw [m.growth_eq hle] at hvalid ⊢
  split_ifs at hvalid ⊢ with hmax
  · -- The bytes between the old and the new end were zero, and those beyond stay so.
    have hactive : m.activeSize ≤ pageSize * (m.pages + delta.toNat) := Nat.mul_le_mul_left _ hle
    have hzero : m.ZeroFrom (pageSize * (m.pages + delta.toNat)) :=
      fun k hk => h.zero k (Nat.le_trans hactive hk)
    have hnew := hzero.patch (growthImage_endsBy hle)
    cases hg : m.growthImage (m.pages + delta.toNat) with
    | error e => exact ⟨h, Nat.le_refl _⟩
    | ok p =>
      rw [hg] at hvalid hnew
      exact ⟨⟨hvalid, hnew⟩, hle⟩
  · exact ⟨h, Nat.le_refl _⟩

end Memory

/-! ## Steps -/

section Steps

variable {maxPages : Nat} {policy : Policy} {layout : Layout} {m : Memory maxPages ⟨policy, layout⟩}

/-- A load or a store is tested by the policy or in bounds, and the host writes into the slice that it
has been given. -/
def MemoryOp.Allowed (m : Memory maxPages ⟨policy, layout⟩) : MemoryOp → Prop
  | .guest op => policy.Enforcing ∨ op.InBounds m
  | .hostWrite start bs => start + bs.length ≤ m.sliceSize
  | _ => True

namespace Memory

theorem Intact.perform (h : m.Intact) (op : GuestOp) :
    (m.perform op).2.Intact ∧ m.pages ≤ (m.perform op).2.pages := by
  have hpatch : ∀ x : Outcome (Patch Byte), m.pages ≤ (m.patch x).2.pages :=
    fun x => Nat.le_of_eq (patch_pages x).symm
  cases op with
  | load k addr => exact ⟨h, Nat.le_refl _⟩
  | store k addr => exact ⟨h.storeWord .., hpatch _⟩
  | size => exact ⟨h, Nat.le_refl _⟩
  | grow delta => exact h.grow delta
  | fill dst value len => exact ⟨h.fill .., hpatch _⟩
  | copy dst src len => exact ⟨h.copy .., hpatch _⟩
  | init data dst src len => exact ⟨h.init .., Nat.le_of_eq (init_pages ..).symm⟩

/-- **One operation** keeps a memory intact and takes no page away. -/
theorem Intact.exec (h : m.Intact) (path : AccessPath layout) {op : MemoryOp} (hop : op.Allowed m) :
    (op.exec path m).2.Intact ∧ m.pages ≤ (op.exec path m).2.pages := by
  cases op with
  | guest op =>
    rw [MemoryOp.exec, path.perform_eq_own h.valid hop]
    exact h.perform op
  | initData offset data =>
    refine ⟨h.initData offset data, ?_⟩
    rw [MemoryOp.exec, Answer.ofUnit, Memory.initData]
    split_ifs
    · exact Nat.le_of_eq (init_pages ..).symm
    · exact Nat.le_refl _
  | hostWrite start bs => exact ⟨h.hostWrite start bs, Nat.le_of_eq (patch_pages _).symm⟩
  | pageCount | activeSize | runs | hostRead start n => exact ⟨h, Nat.le_refl _⟩

end Memory

theorem GuestOp.perform_sound (hm : m.Valid) (hmax : pageSize * maxPages < UInt64.size) {op : GuestOp}
    (hop : policy.Enforcing ∨ op.InBounds m) : (m.perform op).1.Sound := by
  have hsize := hm.size_contents_lt hmax
  rcases hop with henf | hin
  · have hr := (hm.perform_refines op).outcome
    rw [henf.miss_eq] at hr
    exact hr ▸ Contents.perform_sound hsize hmax op
  · have hchecked : (m.withPolicy .bounds).Valid := ⟨hm.size_storage, hm.pages_le⟩
    have hr := (hchecked.perform_refines op).outcome
    have hs := Contents.perform_sound hsize hmax op
    rw [Memory.withPolicy_perform (.inr hin)] at hr
    exact hr ▸ hs

/-- **No operation that is allowed breaches.** -/
theorem MemoryOp.exec_sound_of_allowed (hm : m.Valid) (hmax : pageSize * maxPages < UInt64.size)
    (path : AccessPath layout) {op : MemoryOp} (hop : op.Allowed m) : (op.exec path m).1.Sound := by
  have hsize := hm.size_contents_lt hmax
  cases op with
  | guest op =>
    rw [MemoryOp.exec, path.perform_eq_own hm hop]
    exact GuestOp.perform_sound hm hmax hop
  | initData offset data =>
    have hr := (hm.initData_refines offset data).ofUnit.outcome
    exact hr ▸ (Contents.initData_sound hsize offset data).map _
  | activeSize =>
    rw [MemoryOp.exec, hm.extent_eq]
    exact (addressable_sound hsize).map _
  | hostWrite start bs =>
    have hin : start + bs.length ≤ m.sliceSize := hop
    rw [MemoryOp.exec, Memory.hostWrite, if_pos hin]
    exact .ok _
  | pageCount | runs | hostRead start n => exact .ok _

end Steps

/-! ## Histories -/

section Histories

variable {policy : Policy} {layout : Layout}

namespace Memory

/-- What operations make of a memory, and copies from other memories that came about in the same way. -/
inductive Reaches : {maxPages : Nat} →
    Memory maxPages ⟨policy, layout⟩ → Memory maxPages ⟨policy, layout⟩ → Prop where
  | refl {maxPages : Nat} (m : Memory maxPages ⟨policy, layout⟩) : Reaches m m
  | exec {maxPages : Nat} {m₀ m : Memory maxPages ⟨policy, layout⟩} (h : Reaches m₀ m)
      (path : AccessPath layout) {op : MemoryOp} (hop : op.Allowed m) : Reaches m₀ (op.exec path m).2
  | copyFrom {maxPages otherPages i : Nat} {m₀ m : Memory maxPages ⟨policy, layout⟩}
      {o₀ o : Memory otherPages ⟨policy, layout⟩} (h : Reaches m₀ m) (hcreate : create i = .ok o₀)
      (ho : Reaches o₀ o) (dst src len : I32) : Reaches m₀ (m.copyFrom o dst src len).2

variable {maxPages : Nat} {m₀ m₁ m : Memory maxPages ⟨policy, layout⟩}

/-- **A whole history** keeps a memory intact and takes no page away. -/
theorem Reaches.step (h : m₀.Reaches m) (h₀ : m₀.Intact) : m.Intact ∧ m₀.pages ≤ m.pages := by
  induction h with
  | refl m => exact ⟨h₀, Nat.le_refl _⟩
  | exec _ path hop ih =>
    obtain ⟨hintact, hpages⟩ := ih h₀
    obtain ⟨hintact', hpages'⟩ := hintact.exec path hop
    exact ⟨hintact', Nat.le_trans hpages hpages'⟩
  | copyFrom _ _ _ dst src len ih _ =>
    obtain ⟨hintact, hpages⟩ := ih h₀
    exact ⟨hintact.copyFrom .., Nat.le_trans hpages (Nat.le_of_eq (patch_pages _).symm)⟩

/-- **What every memory keeps**: its pages, no more than the maximum of them, and zeros beyond them. If
the storage can be addressed, nothing that may follow breaches. -/
theorem Reaches.intact {i : Nat} (hcreate : create i = .ok m₀) (h₁ : m₀.Reaches m₁)
    (h : m₁.Reaches m) :
    m₁.pages ≤ m.pages ∧ m.pages ≤ maxPages ∧ m.storage.size = pageSize * maxPages ∧
      m.sliceSize = pageSize * m.pages ∧ m.hostBytes.size = pageSize * m.pages ∧
      (∀ k, pageSize * m.pages ≤ k → k < m.storage.size → m.storage[k]? = some 0) ∧
      (pageSize * maxPages < UInt64.size →
        (∀ (path : AccessPath layout) (op : MemoryOp), op.Allowed m → (op.exec path m).1.Sound) ∧
        ∀ (otherPages j : Nat) (o₀ o : Memory otherPages ⟨policy, layout⟩),
          pageSize * otherPages < UInt64.size → create j = .ok o₀ → o₀.Reaches o →
          ∀ dst src len : I32, (m.copyFrom o dst src len).1.Sound) := by
  obtain ⟨hintact₁, -⟩ := h₁.step (intact_of_create hcreate)
  obtain ⟨hintact, hpages⟩ := h.step hintact₁
  have hm := hintact.valid
  refine ⟨hpages, hm.pages_le, hm.size_storage, hm.sliceSize_eq, hm.size_hostBytes, hintact.zero,
    fun hmax => ⟨fun path op hop => op.exec_sound_of_allowed hm hmax path hop, ?_⟩⟩
  intro otherPages j o₀ o hmax' hcreate' ho dst src len
  obtain ⟨hother, -⟩ := ho.step (intact_of_create hcreate')
  have hr := (hm.copyFrom_refines hother.valid dst src len).outcome
  have hs := Contents.copyFrom_sound (hm.size_contents_lt hmax) (hother.valid.size_contents_lt hmax')
    dst src len
  exact hr ▸ hs

/-- A reversed memory that nobody checks is stored to, grown and copied into, up to its end. A copy that
is too long may follow. -/
theorem Reaches.intact_after_growth :
    let m₀ : Memory 2 ⟨.unchecked, .reversed⟩ := ⟨Array.replicate (pageSize * 2) 0, 1⟩
    let o : Memory 1 ⟨.unchecked, .reversed⟩ := ⟨Array.replicate (pageSize * 1) 0, 1⟩
    let stored := (MemoryOp.exec .own m₀ (.guest (.store (.u32 7) 65532))).2
    let grown := (MemoryOp.exec .own stored (.guest (.grow 1))).2
    let m := (grown.copyFrom o 131070 65534 2).2
    create 1 = .ok m₀ ∧ m₀.Reaches grown ∧ grown.Reaches m ∧ grown.pages ≤ m.pages ∧
      m.sliceSize = pageSize * m.pages ∧
      (∀ k, pageSize * m.pages ≤ k → k < m.storage.size → m.storage[k]? = some 0) ∧
      (MemoryOp.exec .own m (.guest (.copy 0 1 0xffffffff))).1.Sound ∧
      (m.copyFrom o 0xffffffff 1 0xffffffff).1.Sound := by
  intro m₀ o stored grown m
  have hcreate : create 1 = .ok m₀ := rfl
  have hother : create 1 = .ok o := rfl
  have hsize : m₀.sliceSize = 65536 := (valid_of_create hcreate).sliceSize_eq
  have hstore : MemoryOp.Allowed m₀ (.guest (.store (.u32 7) 65532)) := by
    refine .inr ?_
    change 65532 + 4 ≤ m₀.sliceSize
    exact Nat.le_of_eq hsize.symm
  have hgrown : m₀.Reaches grown := ((Reaches.refl m₀).exec .own hstore).exec .own (.inr trivial)
  have hm : grown.Reaches m := (Reaches.refl grown).copyFrom hother (.refl o) 131070 65534 2
  obtain ⟨hpages, -, -, hslice, -, hzero, hsound⟩ := Reaches.intact hcreate hgrown hm
  obtain ⟨hops, hcopies⟩ := hsound (by decide)
  refine ⟨hcreate, hgrown, hm, hpages, hslice, hzero, ?_, ?_⟩
  · exact hops .own (.guest (.copy 0 1 0xffffffff)) (.inr trivial)
  · exact hcopies 1 1 o o (by decide) hother (.refl o) 0xffffffff 1 0xffffffff

end Memory

end Histories

end WasmSandbox
