import Mathlib.Tactic.Common
import WasmSandbox.Proofs.Memory.Bytes

/-!
# Growing keeps what a memory holds

* `Memory.GrownBy`: a memory has got some more pages, all of them zero, and is otherwise as it was. There is
  only one such memory (`Memory.GrownBy.unique`), and growing twice is growing once
  (`Memory.GrownBy.trans`).
* `Memory.Intact.grow_eq_ok`, `Memory.grow_eq_refused`: a growth within the maximum does this, and any other
  does nothing.
* `GuestOp.LoadsOrGrows`, `GuestOp.asked`: the operations that leave the bytes of a memory, and how many
  pages they ask for. `Memory.Intact.perform_grownBy`, `Memory.Intact.run_grownBy`: one of them, and a run
  of them, adds these pages unless they are too many.
* **`Memory.Reaches.grow_keeps`**: in every memory that can be reached, growing keeps every byte that loads
  see, and new bytes are zero; a run of successful growths is one growth.
-/

namespace WasmSandbox

/-- The operation is a load or asks for pages. -/
def GuestOp.LoadsOrGrows : GuestOp → Prop
  | .load .. | .grow _ => True
  | .store .. | .size | .fill .. | .copy .. | .init .. => False

/-- The pages that an operation asks for. -/
def GuestOp.asked : GuestOp → Nat
  | .grow delta => delta.toNat
  | _ => 0

namespace Memory

variable {maxPages : Nat} {policy : Policy} {layout : Layout}
  {m m' m'' : Memory maxPages ⟨policy, layout⟩} {n n' : Nat}

/-! ## Growing by some pages -/

/-- An intact memory with the contents of another one and `n` pages of zeros after them. -/
structure GrownBy (n : Nat) (m m' : Memory maxPages ⟨policy, layout⟩) : Prop where
  intact : m'.Intact
  contents : m'.contents = m.contents ++ Array.replicate (pageSize * n) 0

namespace GrownBy

theorem refl (hm : m.Intact) : GrownBy 0 m m :=
  ⟨hm, by rw [Nat.mul_zero, Array.replicate_zero, Array.append_empty]⟩

theorem trans (h : GrownBy n m m') (h' : GrownBy n' m' m'') : GrownBy (n + n') m m'' :=
  ⟨h'.intact, by
    rw [h'.contents, h.contents, Array.append_assoc, Array.replicate_append_replicate, Nat.mul_add]⟩

/-- **Growth leaves nothing open**: the whole storage is determined. -/
theorem unique (h : GrownBy n m m') (h' : GrownBy n m m'') : m' = m'' :=
  h.intact.eq_of_contents h'.intact (h.contents.trans h'.contents.symm)

theorem activeSize_eq (h : GrownBy n m m') (hm : m.Valid) :
    m'.activeSize = m.activeSize + pageSize * n := by
  rw [← h.intact.valid.size_contents, h.contents, Array.size_append, Array.size_replicate,
    hm.size_contents]

theorem pages_eq (h : GrownBy n m m') (hm : m.Valid) : m'.pages = m.pages + n := by
  have hactive := h.activeSize_eq hm
  rw [activeSize, activeSize, ← Nat.mul_add] at hactive
  exact Nat.eq_of_mul_eq_mul_left (by decide) hactive

theorem holds (h : GrownBy n m m') {S : Nat} {bytes : Nat → Byte} (hm : m.Holds S bytes)
    (hmax : pageSize * maxPages < UInt64.size) :
    m'.Holds (S + pageSize * n) fun x => if x < S then bytes x else 0 := by
  have hsize := h.activeSize_eq hm.valid
  rw [hm.activeSize_eq] at hsize
  have hlt : m'.activeSize < UInt64.size :=
    Nat.lt_of_le_of_lt (Nat.mul_le_mul_left _ h.intact.valid.pages_le) hmax
  refine ⟨h.intact.valid, ?_, fun x hx => ?_⟩
  · rw [extent, addressable, if_pos hlt, hsize]
  · rw [h.contents, Array.getElem?_append, hm.valid.size_contents, hm.activeSize_eq]
    split_ifs with hold
    · exact hm.byte x hold
    · rw [Array.getElem?_replicate, if_pos (by omega)]

end GrownBy

/-! ## The operation -/

theorem grow_eq_refused {delta : I32} (h : ¬ m.pages + delta.toNat ≤ maxPages) :
    m.grow delta = (.ok (-1), m) := if_neg h

theorem Intact.grow_eq_ok (hm : m.Intact) (hmax : pageSize * maxPages < UInt64.size) {delta : I32}
    (h : m.pages + delta.toNat ≤ maxPages) :
    ∃ m', m.grow delta = (.ok (BitVec.ofNat 32 m.pages), m') ∧ GrownBy delta.toNat m m' := by
  have hr := hm.valid.grow_refines delta
  have hlt : pageSize * (m.pages + delta.toNat) < UInt64.size :=
    Nat.lt_of_le_of_lt (Nat.mul_le_mul_left _ h) hmax
  rw [Contents.grow, hm.valid.pages_contents, if_pos h, addressable, if_pos hlt] at hr
  exact ⟨_, Prod.ext hr.outcome rfl, (hm.grow delta).1, hr.contents⟩

theorem pageSize_mul_lt (h : maxPages ≤ 65536) : pageSize * maxPages < UInt64.size :=
  Nat.lt_of_le_of_lt (Nat.mul_le_mul_left _ h) (by decide)

theorem Valid.toInt_pages (hm : m.Valid) (h : maxPages ≤ 65536) :
    (BitVec.ofNat 32 m.pages).toInt = m.pages := by
  have hle := hm.pages_le
  rw [BitVec.toInt_ofNat']
  exact Int.bmod_eq_of_le (by omega) (by omega)

/-! ## Runs of loads and growths -/

abbrev refused : Outcome Answer := .ok (.word (-1))

theorem perform_load (path : AccessPath layout) (k : Load) (addr : Address) :
    ∃ x : Outcome Scalar, path.perform m (.load k addr) = (x.map .scalar, m) := by
  cases path <;> exact ⟨_, rfl⟩

theorem perform_grow (hm : m.Valid) (path : AccessPath layout) (delta : I32) :
    path.perform m (.grow delta) = Answer.ofWord (m.grow delta) :=
  path.perform_eq_own hm (.inr trivial)

/-- **One operation** is refused exactly if it asks for too many pages, and adds them otherwise. -/
theorem Intact.perform_grownBy (hm : m.Intact) (hpages : maxPages ≤ 65536) (path : AccessPath layout)
    {op : GuestOp} (hop : op.LoadsOrGrows) :
    ((path.perform m op).1 ≠ refused ↔ m.pages + op.asked ≤ maxPages) ∧
      (m.pages + op.asked ≤ maxPages → GrownBy op.asked m (path.perform m op).2) := by
  have hle := hm.valid.pages_le
  cases op with
  | load k addr =>
    obtain ⟨x, hx⟩ := perform_load (m := m) path k addr
    rw [hx]
    refine ⟨iff_of_true ?_ hle, fun _ => .refl hm⟩
    cases x <;> exact nofun
  | grow delta =>
    rw [perform_grow hm.valid]
    by_cases hfit : m.pages + delta.toNat ≤ maxPages
    · obtain ⟨m', hgrow, hgrown⟩ := hm.grow_eq_ok (pageSize_mul_lt hpages) hfit
      rw [hgrow]
      refine ⟨iff_of_true (fun h => ?_) hfit, fun _ => hgrown⟩
      have hword : BitVec.ofNat 32 m.pages = -1 := Answer.word.inj (Except.ok.inj h)
      have hread := hm.valid.toInt_pages hpages
      have hneg : BitVec.toInt (-1 : I32) = -1 := by decide
      rw [hword, hneg] at hread
      omega
    · rw [grow_eq_refused hfit]
      exact ⟨iff_of_false (fun h => h rfl) hfit, fun h => absurd h hfit⟩
  | store k addr | size | fill dst value len | copy dst src len | init data dst src len =>
    exact hop.elim

/-- **A run** is refused no page exactly if it asks for no more than there may be, and adds them all
then. -/
theorem Intact.run_grownBy (hm : m.Intact) (hpages : maxPages ≤ 65536) (path : AccessPath layout)
    {ops : List GuestOp} (hops : ∀ op ∈ ops, op.LoadsOrGrows) :
    ((∀ r ∈ (path.run ops m).1, r ≠ refused) ↔ m.pages + (ops.map GuestOp.asked).sum ≤ maxPages) ∧
      (m.pages + (ops.map GuestOp.asked).sum ≤ maxPages →
        GrownBy (ops.map GuestOp.asked).sum m (path.run ops m).2) := by
  induction ops generalizing m with
  | nil => exact ⟨iff_of_true nofun hm.valid.pages_le, fun _ => .refl hm⟩
  | cons op ops ih =>
    obtain ⟨hfirst, hstep⟩ := hm.perform_grownBy hpages path (hops op List.mem_cons_self)
    have hanswers : (path.run (op :: ops) m).1 =
      (path.perform m op).1 :: (path.run ops (path.perform m op).2).1 := rfl
    rw [hanswers, List.forall_mem_cons, hfirst, List.map_cons, List.sum_cons]
    by_cases hfit : m.pages + op.asked ≤ maxPages
    · have hgrown := hstep hfit
      have hpages' := hgrown.pages_eq hm.valid
      obtain ⟨hrest, hadds⟩ := ih hgrown.intact fun o ho => hops o (List.mem_cons_of_mem _ ho)
      rw [hpages', Nat.add_assoc] at hrest hadds
      exact ⟨(and_iff_right hfit).trans hrest, fun h => hgrown.trans (hadds h)⟩
    · exact ⟨iff_of_false (fun h => hfit h.1) (by omega), fun h => absurd h (by omega)⟩

/-! ## Reachable memories -/

/-- **Growing keeps what a memory holds**, and new bytes are zero. Beyond the maximum it is refused. A
run of growths that are not refused is one growth. -/
theorem Reaches.grow_keeps {i : Nat} {m₀ : Memory maxPages ⟨policy, layout⟩} (hpages : maxPages ≤ 65536)
    (hcreate : create i = .ok m₀) (h : m₀.Reaches m) :
    (∀ delta : I32,
      if m.pages + delta.toNat ≤ maxPages then
        ∃ r m', m.grow delta = (.ok r, m') ∧ r.toInt = m.pages ∧ m'.pages = m.pages + delta.toNat ∧
          (∀ x : Address, x.toNat < pageSize * m.pages →
            ∃ b, m.load .u8 x = .ok (.u8 b) ∧ m'.load .u8 x = .ok (.u8 b)) ∧
          ∀ x : Address, pageSize * m.pages ≤ x.toNat → x.toNat < pageSize * m'.pages →
            m'.load .u8 x = .ok (.u8 0)
      else m.grow delta = (.ok (-1), m)) ∧
    ∀ (path : AccessPath layout) (ops : List GuestOp), (∀ op ∈ ops, op.LoadsOrGrows) →
      let total := (ops.map GuestOp.asked).sum
      ((∀ r ∈ (path.run ops m).1, r ≠ refused) ↔ m.pages + total ≤ maxPages) ∧
        ((∀ r ∈ (path.run ops m).1, r ≠ refused) →
          m.grow (BitVec.ofNat 32 total) = (.ok (BitVec.ofNat 32 m.pages), (path.run ops m).2)) := by
  have hm := (h.step (intact_of_create hcreate)).1
  have hmax := pageSize_mul_lt hpages
  have hextent : m.extent = .ok (pageSize * m.pages) :=
    if_pos (Nat.lt_of_le_of_lt (Nat.mul_le_mul_left _ hm.valid.pages_le) hmax)
  obtain ⟨bytes, hholds⟩ := hm.valid.exists_holds hextent
  refine ⟨fun delta => ?_, fun path ops hops => ?_⟩
  · split_ifs with hfit
    · obtain ⟨m', hgrow, hgrown⟩ := hm.grow_eq_ok hmax hfit
      have hpages' := hgrown.pages_eq hm.valid
      have hholds' := (hgrown.holds hholds hmax).shows
      refine ⟨_, m', hgrow, hm.valid.toInt_pages hpages, hpages', fun x hx => ⟨bytes x.toNat, ?_, ?_⟩,
        fun x hx hx' => ?_⟩
      · exact hholds.shows.byte x hx
      · rw [hholds'.byte x (by omega), if_pos hx]
      · rw [hpages', Nat.mul_add] at hx'
        rw [hholds'.byte x hx', if_neg (by omega)]
    · exact grow_eq_refused hfit
  · obtain ⟨hrefused, hadds⟩ := hm.run_grownBy hpages path hops
    refine ⟨hrefused, fun hrun => ?_⟩
    have hfit := hrefused.mp hrun
    have hword : (BitVec.ofNat 32 (ops.map GuestOp.asked).sum).toNat = (ops.map GuestOp.asked).sum :=
      Nat.mod_eq_of_lt (by omega)
    obtain ⟨m', hgrow, hgrown⟩ := hm.grow_eq_ok hmax (hword.symm ▸ hfit)
    rw [hword] at hgrown
    exact hgrown.unique (hadds hfit) ▸ hgrow

/-- A reversed memory with a byte at the end of its page grows by nothing, then twice by a page. A fourth
page is refused. -/
theorem Reaches.grow_keeps_at_the_end :
    let m₀ : Memory 3 ⟨.unchecked, .reversed⟩ := ⟨Array.replicate (pageSize * 3) 0, 1⟩
    let m := (MemoryOp.exec .own m₀ (.guest (.store (.u8 7) 65535))).2
    let ops : List GuestOp := [.load .u32 0, .grow 0, .grow 1, .load .u64 65530, .grow 1]
    3 ≤ 65536 ∧ create 1 = .ok m₀ ∧ m₀.Reaches m ∧ (∀ op ∈ ops, op.LoadsOrGrows) ∧
      (∃ m', m.grow 2 = (.ok 1, m') ∧ m'.load .u8 65535 = .ok (.u8 7) ∧ m'.load .u8 65536 = .ok (.u8 0)) ∧
      m.grow 3 = (.ok (-1), m) ∧
      (∀ r ∈ (AccessPath.own.run ops m).1, r ≠ refused) ∧
      m.grow 2 = (.ok 1, (AccessPath.own.run ops m).2) := by
  intro m₀ m ops
  have hcreate : create 1 = .ok m₀ := rfl
  have hsize : m₀.sliceSize = 65536 := (valid_of_create hcreate).sliceSize_eq
  have hallowed : MemoryOp.Allowed m₀ (.guest (.store (.u8 7) 65535)) := by
    refine .inr ?_
    change 65535 + 1 ≤ m₀.sliceSize
    exact Nat.le_of_eq hsize.symm
  have hreach : m₀.Reaches m := (Reaches.refl m₀).exec .own hallowed
  have hops : ∀ op ∈ ops, op.LoadsOrGrows := by simp [ops, GuestOp.LoadsOrGrows]
  obtain ⟨bytes, hholds⟩ := (valid_of_create hcreate).exists_holds (S := 65536) rfl
  obtain ⟨m₁, hstore, hholds₁⟩ := hholds.store_eq_ok (k := .u8 7) (a := 65535) (by decide)
  have hm : m = m₁ := by
    change (Answer.ofUnit (m₀.store (.u8 7) 65535)).2 = m₁
    rw [hstore, Answer.ofUnit]
  have hload : m.load .u8 65535 = .ok (.u8 7) := by
    rw [hm]
    exact hholds₁.shows.byte 65535 (by decide)
  have hpages : m.pages = 1 := by
    rw [hm]
    exact Nat.eq_of_mul_eq_mul_left (by decide) hholds₁.activeSize_eq
  obtain ⟨hgrow, hruns⟩ := Reaches.grow_keeps (by decide) hcreate hreach
  obtain ⟨hrefused, hsum⟩ := hruns .own ops hops
  rw [hpages] at hrefused hsum hgrow
  have htotal : (ops.map GuestOp.asked).sum = 2 := rfl
  rw [htotal] at hrefused hsum
  have hrun := hrefused.mpr (by decide)
  have htwo := hgrow 2
  rw [if_pos (by decide)] at htwo
  obtain ⟨r, m', hgrown, hr, hpages', hold, hnew⟩ := htwo
  obtain ⟨b, hb, hb'⟩ := hold 65535 (by decide)
  rw [hload] at hb
  have hthree := hgrow 3
  rw [if_neg (by decide)] at hthree
  refine ⟨by decide, hcreate, hreach, hops, ⟨m', ?_, ?_, ?_⟩, hthree, hrun, hsum hrun⟩
  · rw [hgrown, show r = 1 from BitVec.toInt_inj.mp hr]
  · rw [hb', ← Scalar.u8.inj (Except.ok.inj hb)]
  · exact hnew 65536 (by decide) (by rw [hpages']; decide)

end Memory

end WasmSandbox
