import WasmSandbox.Proofs.Memory.Reference

/-!
# No operation breaches

* `MemoryOp.OnGuest`, `PairOp.OnGuest`: the operations that do not show the order of bytes in the host.
* `Outcome.Sound`: a computation ends with a value or with a trap.
* `MemoryPair.Valid`: both memories of a pair are valid; every operation keeps them so.
* **`PairOp.run_sound`**: under an enforcing policy no answer of a script is a breach, if the storage can
  be addressed.
-/

namespace WasmSandbox

/-- The operation does not look at the order of bytes in the host. -/
def MemoryOp.OnGuest : MemoryOp → Prop
  | .guest _ | .initData .. | .pageCount | .activeSize => True
  | .runs | .hostRead .. | .hostWrite .. => False

def PairOp.OnGuest : PairOp → Prop
  | .first op | .second op => op.OnGuest
  | .copyFrom .. | .copyTo .. => True

/-! ## Values and traps -/

/-- A computation ends with a value or with a trap. -/
inductive Outcome.Sound {α : Type} : Outcome α → Prop where
  | ok (a : α) : Sound (.ok a)
  | trap (t : Trap) : Sound (.error (.trap t))

namespace Outcome.Sound

variable {α β : Type}

theorem bind {x : Outcome α} {f : α → Outcome β} (hx : x.Sound) (hf : ∀ a, (f a).Sound) :
    Sound (x >>= f) := by
  cases hx with
  | ok a => exact hf a
  | trap t => exact .trap t

theorem map {x : Outcome α} (hx : x.Sound) (f : α → β) : Sound (x.map f) := by
  cases hx with
  | ok a => exact .ok _
  | trap t => exact .trap t

end Outcome.Sound

theorem inRange_sound (x n size : Nat) : (inRange x n size).Sound := by
  unfold inRange
  split_ifs
  · exact .ok _
  · exact .trap _

theorem addressable_sound {n : Nat} (h : n < UInt64.size) : (addressable n).Sound := by
  rw [addressable, if_pos h]
  exact .ok _

namespace Contents

variable {bs : Contents} (hbs : bs.size < UInt64.size)

theorem update_sound {x : Outcome (Patch Byte)} (h : x.Sound) : (bs.update x).1.Sound := by
  cases h with
  | ok p => exact .ok _
  | trap t => exact .trap t

include hbs

theorem loadWord_sound (w : Width) (addr : Address) :
    (loadWord (.trap .outOfBounds) bs w addr).Sound :=
  (addressable_sound hbs).bind fun _ => (inRange_sound ..).bind fun _ => .ok _

theorem storeWord_sound (w : Width) (addr : Address) (v : BitVec w.bits) :
    (storeWord (.trap .outOfBounds) bs w addr v).1.Sound :=
  update_sound <|
    (addressable_sound hbs).bind fun _ => (inRange_sound ..).bind fun _ => .ok _

theorem fill_sound (dst : I32) (value : Byte) (len : I32) : (bs.fill dst value len).1.Sound :=
  update_sound <|
    (addressable_sound hbs).bind fun _ => (inRange_sound ..).bind fun _ => .ok _

theorem copy_sound (dst src len : I32) : (bs.copy dst src len).1.Sound :=
  update_sound <|
    (addressable_sound hbs).bind fun _ => (inRange_sound ..).bind fun _ =>
      (inRange_sound ..).bind fun _ => .ok _

theorem copyFrom_sound {other : Contents} (ho : other.size < UInt64.size) (dst src len : I32) :
    (bs.copyFrom other dst src len).1.Sound :=
  update_sound <|
    (addressable_sound hbs).bind fun _ => (addressable_sound ho).bind fun _ =>
      (inRange_sound ..).bind fun _ => (inRange_sound ..).bind fun _ => .ok _

theorem init_sound (data : List Byte) (dst src len : I32) : (bs.init data dst src len).1.Sound :=
  update_sound <|
    (addressable_sound hbs).bind fun _ => (inRange_sound ..).bind fun _ =>
      (inRange_sound ..).bind fun _ => .ok _

theorem initData_sound (offset : I32) (data : List Byte) : (bs.initData offset data).1.Sound := by
  unfold initData
  split_ifs
  · exact init_sound hbs ..
  · exact .trap _

omit hbs in
theorem grow_sound {maxPages : Nat} (hmax : pageSize * maxPages < UInt64.size) (delta : I32) :
    (bs.grow maxPages delta).1.Sound := by
  unfold grow
  split_ifs with h
  · rw [addressable, if_pos (Nat.lt_of_le_of_lt (Nat.mul_le_mul_left _ h) hmax)]
    exact .ok _
  · exact .ok _

/-- **No guest operation breaches** if the storage can be addressed and misses trap. -/
theorem perform_sound {maxPages : Nat} (hmax : pageSize * maxPages < UInt64.size) (op : GuestOp) :
    (bs.perform maxPages (.trap .outOfBounds) op).1.Sound := by
  cases op with
  | load k addr => exact (loadWord_sound hbs ..).map _
  | store k addr => exact (storeWord_sound hbs ..).map _
  | size => exact .ok _
  | grow delta => exact (grow_sound hmax delta).map _
  | fill dst value len => exact (fill_sound hbs ..).map _
  | copy dst src len => exact (copy_sound hbs ..).map _
  | init data dst src len => exact (init_sound hbs ..).map _

end Contents

/-! ## Valid memories -/

section Valid

variable {maxPages max₁ max₂ : Nat} {config : Config} {policy : Policy} {layout : Layout}

theorem MemoryOp.exec_valid {m : Memory maxPages ⟨policy, layout⟩} (hm : m.Valid) (op : MemoryOp) :
    (op.exec .own m).2.Valid := by
  cases op with
  | guest op => exact (hm.perform_refines op).valid
  | initData offset data => exact (hm.initData_refines offset data).valid
  | hostWrite start bs => exact hm.patch _
  | pageCount | activeSize | runs | hostRead start n => exact hm

structure MemoryPair.Valid (p : MemoryPair max₁ max₂ config) : Prop where
  first : p.first.Valid
  second : p.second.Valid

theorem MemoryPair.create_eq_ok {i j : Nat} {p : MemoryPair max₁ max₂ config}
    (h : create i j = .ok p) :
    Memory.create i = .ok p.first ∧ Memory.create j = .ok p.second := by
  unfold create at h
  cases ha : (Memory.create i : Except SizeError (Memory max₁ config)) with
  | error e => rw [ha] at h; cases h
  | ok a =>
    cases hb : (Memory.create j : Except SizeError (Memory max₂ config)) with
    | error e => rw [ha, hb] at h; cases h
    | ok b => rw [ha, hb] at h; cases h; exact ⟨rfl, rfl⟩

theorem MemoryPair.valid_of_create {i j : Nat} {p : MemoryPair max₁ max₂ config}
    (h : create i j = .ok p) : p.Valid := by
  obtain ⟨ha, hb⟩ := create_eq_ok h
  exact ⟨Memory.valid_of_create ha, Memory.valid_of_create hb⟩

theorem PairOp.exec_valid {p : MemoryPair max₁ max₂ ⟨policy, layout⟩} (hp : p.Valid) (op : PairOp) :
    (op.exec .own p).2.Valid := by
  cases op with
  | first op => exact ⟨op.exec_valid hp.first, hp.second⟩
  | second op => exact ⟨hp.first, op.exec_valid hp.second⟩
  | copyFrom dst src len => exact ⟨(hp.first.copyFrom_refines hp.second ..).valid, hp.second⟩
  | copyTo dst src len => exact ⟨hp.first, (hp.second.copyFrom_refines hp.first ..).valid⟩

end Valid

/-! ## Answers -/

section Sound

variable {maxPages max₁ max₂ : Nat} {config : Config} {policy : Policy} {layout : Layout}

theorem MemoryOp.exec_sound (henf : policy.Enforcing) {m : Memory maxPages ⟨policy, layout⟩}
    (hm : m.Valid) (hmax : pageSize * maxPages < UInt64.size) {op : MemoryOp} (hop : op.OnGuest) :
    (op.exec .own m).1.Sound := by
  have hsize := hm.size_contents_lt hmax
  cases op with
  | guest op =>
    have hr := (hm.perform_refines op).outcome
    rw [henf.miss_eq] at hr
    exact hr ▸ Contents.perform_sound hsize hmax op
  | initData offset data =>
    have hr := (hm.initData_refines offset data).ofUnit.outcome
    exact hr ▸ (Contents.initData_sound hsize offset data).map _
  | pageCount => exact .ok _
  | activeSize =>
    rw [MemoryOp.exec, hm.extent_eq]
    exact (addressable_sound hsize).map _
  | runs | hostRead start n | hostWrite start bs => exact hop.elim

theorem Memory.copyFrom_sound {m : Memory max₁ config} {o : Memory max₂ config} (hm : m.Valid)
    (ho : o.Valid) (hmax₁ : pageSize * max₁ < UInt64.size) (hmax₂ : pageSize * max₂ < UInt64.size)
    (dst src len : I32) : (Answer.ofUnit (m.copyFrom o dst src len)).1.Sound := by
  have hr := (hm.copyFrom_refines ho dst src len).ofUnit.outcome
  have hs := Contents.copyFrom_sound (hm.size_contents_lt hmax₁) (ho.size_contents_lt hmax₂) dst src len
  exact hr ▸ hs.map _

variable (henf : policy.Enforcing) (hmax₁ : pageSize * max₁ < UInt64.size)
  (hmax₂ : pageSize * max₂ < UInt64.size) {p : MemoryPair max₁ max₂ ⟨policy, layout⟩}

include henf hmax₁ hmax₂

theorem PairOp.exec_sound (hp : p.Valid) {op : PairOp} (hop : op.OnGuest) :
    (op.exec .own p).1.Sound := by
  cases op with
  | first op => exact op.exec_sound henf hp.first hmax₁ hop
  | second op => exact op.exec_sound henf hp.second hmax₂ hop
  | copyFrom dst src len => exact Memory.copyFrom_sound hp.first hp.second hmax₁ hmax₂ ..
  | copyTo dst src len => exact Memory.copyFrom_sound hp.second hp.first hmax₂ hmax₁ ..

/-- **No answer of a script is a breach.** -/
theorem PairOp.run_sound {ops : List PairOp} (hops : ∀ op ∈ ops, op.OnGuest) (hp : p.Valid) :
    ∀ x ∈ (run .own ops p).1, x.Sound := by
  induction ops generalizing p with
  | nil => exact fun x hx => absurd hx List.not_mem_nil
  | cons op ops ih =>
    intro x hx
    rcases List.mem_cons.mp hx with rfl | hx
    · exact exec_sound henf hmax₁ hmax₂ hp (hops op List.mem_cons_self)
    · exact ih (fun o ho => hops o (List.mem_cons_of_mem _ ho)) (op.exec_valid hp) x hx

end Sound

end WasmSandbox
