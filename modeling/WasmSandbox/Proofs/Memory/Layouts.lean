import WasmSandbox.Proofs.Memory.Growth
import WasmSandbox.Proofs.Memory.Transfer

/-!
# The layout cannot be observed

* `Memory.Alike`, `MemoryPair.Alike`: memories of any two configurations with the same contents. An
  operation that does not show the order of bytes in the host answers alike on both and keeps the
  contents the same (`PairOp.exec_alike`, `PairOp.run_alike`): both memories refine one operation on
  contents.
* `Memory.Mirrored`: the active region of one memory is the mirror image of the other's.
* **`PairOp.run_mirrored`**: every script answers alike under both layouts, and leaves mirror images
  after each of its steps.
-/

namespace WasmSandbox

/-! ## Memories with the same contents -/

section Alike

variable {maxPages max₁ max₂ : Nat} {config config' : Config}

/-- Two memories hold the same, as the guest sees it. -/
structure Memory.Alike (m : Memory maxPages config) (m' : Memory maxPages config') : Prop where
  left : m.Valid
  right : m'.Valid
  contents : m.contents = m'.contents

/-- Two computations answer alike and leave memories that hold the same. -/
structure AnswerAlike {α : Type} (x : Outcome α × Memory maxPages config)
    (x' : Outcome α × Memory maxPages config') : Prop where
  answer : x.1 = x'.1
  alike : x.2.Alike x'.2

theorem Refines.alike {α : Type} {x : Outcome α × Memory maxPages config}
    {x' : Outcome α × Memory maxPages config'} {y : Outcome α × Contents} (h : Refines x y)
    (h' : Refines x' y) : AnswerAlike x x' :=
  ⟨h.outcome.trans h'.outcome.symm, h.valid, h'.valid, h.contents.trans h'.contents.symm⟩

theorem Memory.create_alike {initial : Nat} {m : Memory maxPages config}
    {m' : Memory maxPages config'} (h : create initial = .ok m) (h' : create initial = .ok m') :
    m.Alike m' :=
  ⟨valid_of_create h, valid_of_create h', (contents_of_create h).trans (contents_of_create h').symm⟩

variable {policy policy' : Policy} {layout layout' : Layout}

/-- **An operation answers alike on memories that hold the same**, and keeps them so. -/
theorem MemoryOp.exec_alike (hmiss : policy.miss = policy'.miss)
    {m : Memory maxPages ⟨policy, layout⟩} {m' : Memory maxPages ⟨policy', layout'⟩}
    (h : m.Alike m') {op : MemoryOp} (hop : op.OnGuest) :
    AnswerAlike (op.exec .own m) (op.exec .own m') := by
  obtain ⟨hm, hm', hc⟩ := h
  cases op with
  | guest op =>
    have hr' := hm'.perform_refines op
    rw [← hc, ← hmiss] at hr'
    exact (hm.perform_refines op).alike hr'
  | initData offset data =>
    have hr' := (hm'.initData_refines offset data).ofUnit
    rw [← hc] at hr'
    exact (hm.initData_refines offset data).ofUnit.alike hr'
  | pageCount =>
    refine ⟨?_, hm, hm', hc⟩
    rw [MemoryOp.exec, MemoryOp.exec, ← hm.pages_contents, ← hm'.pages_contents, hc]
  | activeSize =>
    refine ⟨?_, hm, hm', hc⟩
    rw [MemoryOp.exec, MemoryOp.exec, hm.extent_eq, hm'.extent_eq, hc]
  | runs | hostRead start n | hostWrite start bs => exact hop.elim

theorem Memory.copyFrom_alike {m : Memory max₁ config} {m' : Memory max₁ config'}
    {o : Memory max₂ config} {o' : Memory max₂ config'} (h : m.Alike m') (ho : o.Alike o')
    (dst src len : I32) :
    AnswerAlike (Answer.ofUnit (m.copyFrom o dst src len)) (Answer.ofUnit (m'.copyFrom o' dst src len)) := by
  have hr' := (h.right.copyFrom_refines ho.right dst src len).ofUnit
  rw [← h.contents, ← ho.contents] at hr'
  exact (h.left.copyFrom_refines ho.left dst src len).ofUnit.alike hr'

structure MemoryPair.Alike (p : MemoryPair max₁ max₂ config) (p' : MemoryPair max₁ max₂ config') :
    Prop where
  first : p.first.Alike p'.first
  second : p.second.Alike p'.second

theorem MemoryPair.create_alike {i j : Nat} {p : MemoryPair max₁ max₂ config}
    {p' : MemoryPair max₁ max₂ config'} (h : create i j = .ok p) (h' : create i j = .ok p') :
    p.Alike p' := by
  obtain ⟨ha, hb⟩ := create_eq_ok h
  obtain ⟨ha', hb'⟩ := create_eq_ok h'
  exact ⟨Memory.create_alike ha ha', Memory.create_alike hb hb'⟩

theorem PairOp.exec_alike (hmiss : policy.miss = policy'.miss)
    {p : MemoryPair max₁ max₂ ⟨policy, layout⟩} {p' : MemoryPair max₁ max₂ ⟨policy', layout'⟩}
    (h : p.Alike p') (op : PairOp) (hop : op.OnGuest) :
    (op.exec .own p).1 = (op.exec .own p').1 ∧ (op.exec .own p).2.Alike (op.exec .own p').2 := by
  cases op with
  | first op =>
    have := MemoryOp.exec_alike hmiss h.first hop
    exact ⟨this.answer, this.alike, h.second⟩
  | second op =>
    have := MemoryOp.exec_alike hmiss h.second hop
    exact ⟨this.answer, h.first, this.alike⟩
  | copyFrom dst src len =>
    have := Memory.copyFrom_alike h.first h.second dst src len
    exact ⟨this.answer, this.alike, h.second⟩
  | copyTo dst src len =>
    have := Memory.copyFrom_alike h.second h.first dst src len
    exact ⟨this.answer, h.first, this.alike⟩

/-- **A script answers alike on pairs of memories that hold the same**, and keeps them so. -/
theorem PairOp.run_alike (hmiss : policy.miss = policy'.miss) {ops : List PairOp}
    (hops : ∀ op ∈ ops, op.OnGuest) {p : MemoryPair max₁ max₂ ⟨policy, layout⟩}
    {p' : MemoryPair max₁ max₂ ⟨policy', layout'⟩} (h : p.Alike p') :
    (run .own ops p).1 = (run .own ops p').1 ∧ (run .own ops p).2.Alike (run .own ops p').2 := by
  have hguest : RunsWithin (exec .own) (fun op _ => op.OnGuest) ops p :=
    .of_forall_mem fun op ho _ => hops op ho
  have hrun := runAll_related id id MemoryPair.Alike (fun op _ _ hop hp => exec_alike hmiss hp op hop)
    hguest h
  rwa [List.map_id, List.map_id] at hrun

end Alike

/-! ## Mirror images -/

section Mirrored

variable {maxPages max₁ max₂ : Nat} {policy : Policy}

/-- As many pages are active in both memories, and the active region of the second one is the mirror
image of the first one's. -/
structure Memory.Mirrored (m : Memory maxPages ⟨policy, .little⟩)
    (m' : Memory maxPages ⟨policy, .reversed⟩) : Prop where
  pages : m.pages = m'.pages
  bytes : ∀ x < m.activeSize,
    ∃ b, m.hostBytes[x]? = some b ∧ m'.hostBytes[m.activeSize - 1 - x]? = some b

theorem Memory.Alike.mirrored {m : Memory maxPages ⟨policy, .little⟩}
    {m' : Memory maxPages ⟨policy, .reversed⟩} (h : m.Alike m') : m.Mirrored m' := by
  have hpages : m.pages = m'.pages := by
    rw [← h.left.pages_contents, ← h.right.pages_contents, h.contents]
  refine ⟨hpages, fun x hx => ?_⟩
  have hx' : x < m'.hostBytes.size := by rwa [h.right.size_hostBytes, activeSize, ← hpages]
  have hbyte := Layout.getElem?_view .reversed m'.hostBytes hx'
  have hc : m.hostBytes = Layout.view .reversed m'.hostBytes := h.contents
  have hx₀ : x < m.hostBytes.size := by rwa [h.left.size_hostBytes]
  refine ⟨m.hostBytes[x], Array.getElem?_eq_getElem _, ?_⟩
  rw [← Array.getElem?_eq_getElem, hc, hbyte, Layout.start, h.right.size_hostBytes, activeSize,
    activeSize, hpages, Nat.sub_right_comm]

/-- **The layout cannot be observed.** Scripts answer alike under both layouts, and after each step the
active regions are mirror images. -/
theorem PairOp.run_mirrored (hp : policy.Enforcing) {i j : Nat}
    {p : MemoryPair max₁ max₂ ⟨policy, .little⟩} {p' : MemoryPair max₁ max₂ ⟨policy, .reversed⟩}
    (h : MemoryPair.create i j = .ok p) (h' : MemoryPair.create i j = .ok p') {ops : List PairOp}
    (hops : ∀ op ∈ ops, op.OnGuest) (n : Nat) :
    (run .own (ops.take n) p).1 = (run .own (ops.take n) p').1 ∧
      (run .own (ops.take n) p).2.first.Mirrored (run .own (ops.take n) p').2.first ∧
      (run .own (ops.take n) p).2.second.Mirrored (run .own (ops.take n) p').2.second ∧
      (pageSize * max₁ < UInt64.size → pageSize * max₂ < UInt64.size →
        ∀ x ∈ (run .own (ops.take n) p).1, x.Sound) := by
  have hops' : ∀ op ∈ ops.take n, op.OnGuest := fun op ho => hops op (List.mem_of_mem_take ho)
  have hstart := MemoryPair.create_alike h h'
  obtain ⟨hanswers, hend⟩ := run_alike rfl hops' hstart
  exact ⟨hanswers, hend.first.mirrored, hend.second.mirrored, fun h₁ h₂ =>
    run_sound hp h₁ h₂ hops' (MemoryPair.valid_of_create h)⟩

/-- A word that is stored before the region grows, and then copied over itself and into the other
memory, which is read past its end. -/
theorem PairOp.run_mirrored_after_growth :
    let ops : List PairOp := [.first (.guest (.store (.u32 0x01020304) 65532)), .first (.guest (.grow 1)),
      .first (.guest (.copy 65534 65532 4)), .copyTo 0 65532 6, .second (.guest (.load .u64 65529)),
      .second (.guest (.load .u32 2))]
    let answers : List (Outcome Answer) := [.ok .unit, .ok (.word 1), .ok .unit, .ok .unit,
      .error (.trap .outOfBounds), .ok (.scalar (.u32 0x01020304))]
    ∃ (p : MemoryPair 2 1 ⟨.guard, .little⟩) (p' : MemoryPair 2 1 ⟨.guard, .reversed⟩),
      MemoryPair.create 1 1 = .ok p ∧ MemoryPair.create 1 1 = .ok p' ∧
      (run .own (ops.take 6) p).1 = answers ∧ (run .own (ops.take 6) p').1 = answers ∧
      (run .own (ops.take 6) p).2.first.hostBytes[65537]? = some 1 ∧
      (run .own (ops.take 6) p').2.first.hostBytes[65534]? = some 1 ∧
      (run .own (ops.take 6) p).2.first.Mirrored (run .own (ops.take 6) p').2.first ∧
      (run .own (ops.take 6) p).2.second.Mirrored (run .own (ops.take 6) p').2.second ∧
      ∀ x ∈ answers, x.Sound := by
  intro ops answers
  obtain ⟨⟨a₀, b₀⟩, h⟩ : ∃ p : MemoryPair 2 1 ⟨.guard, .little⟩, MemoryPair.create 1 1 = .ok p := ⟨_, rfl⟩
  obtain ⟨p', h'⟩ : ∃ p : MemoryPair 2 1 ⟨.guard, .reversed⟩, MemoryPair.create 1 1 = .ok p := ⟨_, rfl⟩
  have hops : ∀ op ∈ ops, op.OnGuest := by simp [ops, PairOp.OnGuest, MemoryOp.OnGuest]
  obtain ⟨hanswers, hfirst, hsecond, hsound⟩ := run_mirrored (by decide) h h' hops 6
  -- The little-endian run, step by step, with the bytes that each step leaves.
  obtain ⟨hcreate, hcreate'⟩ := MemoryPair.create_eq_ok h
  have ha₀ : a₀.Intact := Memory.intact_of_create hcreate
  have hb₀ : b₀.Intact := Memory.intact_of_create hcreate'
  obtain ⟨bytes, hholds₀⟩ := ha₀.valid.exists_holds (Memory.extent_of_create hcreate (by decide))
  obtain ⟨others, hothers₀⟩ := hb₀.valid.exists_holds (Memory.extent_of_create hcreate' (by decide))
  obtain ⟨a₁, hstore, hholds₁⟩ := hholds₀.store_eq_ok (k := .u32 0x01020304) (a := 65532) (by decide)
  have hpages : a₁.pages = 1 := Nat.eq_of_mul_eq_mul_left (by decide) hholds₁.activeSize_eq
  have hfits : a₁.pages + (1 : I32).toNat ≤ 2 := hpages ▸ Nat.le_refl 2
  obtain ⟨a₂, hgrow, hgrown⟩ := (ha₀.of_store hstore).grow_eq_ok (by decide) hfits
  rw [hpages] at hgrow
  have hholds₂ := hgrown.holds hholds₁ (by decide)
  obtain ⟨a₃, hcopy, -, hshows₃⟩ := (hholds₂.copy_transfers hgrown.intact 65534 65532 4).made (by decide)
  have ha₃ := hgrown.intact.copy 65534 65532 4
  rw [hcopy] at ha₃
  obtain ⟨held, hholds₃, hheld⟩ : ∃ held, a₃.Holds 131072 held ∧
      (List.range 6).map (fun k => held (65532 + k)) = [4, 3, 4, 3, 2, 1] :=
    ⟨_, hshows₃.holds ha₃.valid, rfl⟩
  obtain ⟨b₁, hcopyTo, -, hshows₁⟩ :=
    (hothers₀.copyFrom_transfers hb₀ 0 65532 6 hholds₃).made (by decide)
  have hb₁ := hb₀.copyFrom a₃ 0 65532 6
  rw [hcopyTo] at hb₁
  have hreads := (hshows₁.holds hb₁.valid).readsAs (by decide)
  have hpast : b₁.load .u64 65529 = .error (.trap .outOfBounds) := by
    rw [hreads.load, if_neg (by decide)]
  have hword : b₁.load .u32 2 = .ok (.u32 0x01020304) := by
    have hdigits : ((List.range 4).map fun k => (held (65532 + (2 + k))).toNat) = [4, 3, 2, 1] :=
      congrArg (fun bs => (bs.drop 2).map BitVec.toNat) hheld
    have hvalue : Load.valueOf .u32 (Nat.ofDigits 256 [4, 3, 2, 1]) = .u32 0x01020304 := by decide
    rw [hreads.load, if_pos (by decide), ← hvalue, ← hdigits]
    rfl
  have hrun : run .own (ops.take 6) ⟨a₀, b₀⟩ = (answers, ⟨a₃, b₁⟩) := by
    simp only [run, ops, answers, List.take, runAll, exec, MemoryOp.exec, AccessPath.perform, Memory.perform,
      hstore, hgrow, hcopy, hcopyTo, hpast, hword, Answer.ofUnit, Answer.ofWord, Except.map]
    rfl
  rw [hrun] at hanswers hfirst hsecond hsound
  obtain ⟨b, hb, hb'⟩ := hfirst.bytes 65537 (by rw [hholds₃.activeSize_eq]; decide)
  have hbyte : a₃.hostBytes[65537]? = some 1 :=
    (hholds₃.byte 65537 (by decide)).trans (congrArg (fun bs => bs[5]?) hheld)
  obtain rfl : b = 1 := Option.some.inj (hb.symm.trans hbyte)
  rw [hholds₃.activeSize_eq] at hb'
  refine ⟨⟨a₀, b₀⟩, p', h, h', ?_⟩
  rw [hrun]
  exact ⟨rfl, hanswers.symm, hbyte, hb', hfirst, hsecond, hsound (by decide) (by decide)⟩

end Mirrored

end WasmSandbox
