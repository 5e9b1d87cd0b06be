import Mathlib.Tactic.Common
import WasmSandbox.Proofs.Table.Slots
import WasmSandbox.Table.Script

/-!
# Operations on lists of slots

* `Slots.exec`: the operations of a table on a list of nullable references, with numbers in place of
  words.
* `TableOp.Fits`: every index and every end of a range lies within the list, over the natural numbers.
* **`Slots.exec_strict`**: an operation traps exactly if it does not fit, and then changes nothing.
* `Table.Padded`: the entries of a table that are no slots are null.
* **`Table.Holds.exec_mirrors`**: an operation on a table does what it does on the list of its slots, and no
  slice leaves the slots.
-/

namespace WasmSandbox

inductive SlotsAnswer (α : Type) where
  | unit
  | size (n : Nat)
  | ref (r : Option α)
  | grown (previous : Int)

section Lists

variable {α : Type}

/-- The answer of a table, with its words read as signed numbers. -/
def TableAnswer.read : TableAnswer α → SlotsAnswer α
  | unit => .unit
  | size n => .size n
  | ref r => .ref r
  | grown w => .grown w.toInt

/-! ## Operations on lists -/

namespace Slots

def answer : Except Trap Unit × Slots α → Except Trap (SlotsAnswer α) × Slots α
  | (r, l) => (r.map fun _ => .unit, l)

/-- Run an operation of a table on a list of slots. A copy within the list reads what it held before. -/
def exec (maxSize : Nat) (l : Slots α) : TableOp α → Except Trap (SlotsAnswer α) × Slots α
  | .size => (.ok (.size l.length), l)
  | .get i =>
    match l[i.toNat]? with
    | some r => (.ok (.ref r), l)
    | none => (.error .tableOutOfBounds, l)
  | .set i r => answer (l.put i r)
  | .fill dst r len => answer (l.fill dst r len)
  | .copyWithin dst src len => answer (l.copyFrom l dst src len)
  | .initElements dst rs => answer (l.write dst.toNat (.ok rs))
  | .initNull segmentLen dst src len =>
    answer (l.copyFrom (List.replicate segmentLen.toNat none) dst src len)
  | .grow delta r =>
    if l.length + delta.toNat ≤ maxSize then
      (.ok (.grown l.length), l ++ List.replicate delta.toNat r)
    else (.ok (.grown (-1)), l)

end Slots

def TableOp.Fits (l : Slots α) : TableOp α → Prop
  | get i | set i _ => i.toNat < l.length
  | fill dst _ len => dst.toNat + len.toNat ≤ l.length
  | copyWithin dst src len => src.toNat + len.toNat ≤ l.length ∧ dst.toNat + len.toNat ≤ l.length
  | initElements dst rs => dst.toNat + rs.length ≤ l.length
  | initNull segmentLen dst src len =>
    src.toNat + len.toNat ≤ segmentLen.toNat ∧ dst.toNat + len.toNat ≤ l.length
  | size | grow _ _ => True

end Lists

/-! ## Traps of operations on lists -/

namespace Slots

section Strict

variable {α L L' : Type}

/-- An operation traps exactly if it does not fit, and changes nothing if it traps or may not grow. -/
structure Strict (l : L) (y : Except Trap (SlotsAnswer α) × L) (fits : Prop) : Prop where
  traps : ∀ e, y.1 = .error e ↔ e = .tableOutOfBounds ∧ ¬ fits
  kept : (∃ e, y.1 = .error e) ∨ y.1 = .ok (.grown (-1)) → y.2 = l

theorem Strict.congr {l : L} {y : Except Trap (SlotsAnswer α) × L} {fits fits' : Prop}
    (h : Strict l y fits) (hiff : fits ↔ fits') : Strict l y fits' := by
  rwa [← propext hiff]

theorem Strict.map {l : L} {y : Except Trap (SlotsAnswer α) × L} {fits : Prop}
    (h : Strict l y fits) (g : L → L') : Strict (g l) (Prod.map id g y) fits := by
  refine ⟨h.traps, fun hk => ?_⟩
  rw [Prod.map_snd, h.kept hk]

theorem Strict.of_fits {l : L} {y : Except Trap (SlotsAnswer α) × L} {a : SlotsAnswer α}
    {fits : Prop} (hf : fits) (hy : y.1 = .ok a) (ha : a = .grown (-1) → y.2 = l) :
    Strict l y fits := by
  refine ⟨fun e => ?_, ?_⟩
  · rw [hy]
    simp [hf]
  · rw [hy]
    rintro (⟨e, he⟩ | he)
    · cases he
    · exact ha (Except.ok.inj he)

theorem Strict.of_not_fits {l : L} {fits : Prop} (hf : ¬ fits) :
    Strict l ((.error .tableOutOfBounds : Except Trap (SlotsAnswer α)), l) fits := by
  refine ⟨fun e => ?_, fun _ => rfl⟩
  simp [hf, eq_comm]

variable {l l' : Slots α}

theorem write_strict (dst : Nat) (rs : Slots α) :
    Strict l (answer (l.write dst (.ok rs))) (dst + rs.length ≤ l.length) := by
  rw [write]
  by_cases h : dst + rs.length ≤ l.length
  · rw [if_pos h]
    exact .of_fits h rfl (fun hg => by cases hg)
  · rw [if_neg h]
    exact .of_not_fits h

theorem copyFrom_strict (dst src len : BitVec 32) :
    Strict l (answer (l.copyFrom l' dst src len))
      (src.toNat + len.toNat ≤ l'.length ∧ dst.toNat + len.toNat ≤ l.length) := by
  rw [copyFrom, part]
  by_cases h : src.toNat + len.toNat ≤ l'.length
  · rw [if_pos h]
    have hlen : ((l'.drop src.toNat).take len.toNat).length = len.toNat := by
      rw [List.length_take, List.length_drop]
      omega
    refine (write_strict dst.toNat _).congr ?_
    rw [hlen]
    exact ⟨fun hd => ⟨h, hd⟩, And.right⟩
  · rw [if_neg h]
    exact .of_not_fits fun hf => h hf.1

theorem exec_strict (maxSize : Nat) (op : TableOp α) :
    Strict l (l.exec maxSize op) (op.Fits l) := by
  cases op with
  | size => exact .of_fits trivial rfl (fun hg => by cases hg)
  | get i =>
    rw [exec, TableOp.Fits]
    by_cases h : i.toNat < l.length
    · rw [List.getElem?_eq_getElem h]
      exact .of_fits h rfl (fun hg => by cases hg)
    · rw [List.getElem?_eq_none (Nat.not_lt.mp h)]
      exact .of_not_fits h
  | set i r => exact write_strict i.toNat [r]
  | fill dst r len =>
    refine (write_strict dst.toNat (List.replicate len.toNat r)).congr ?_
    rw [List.length_replicate]
    rfl
  | copyWithin dst src len => exact copyFrom_strict dst src len
  | initElements dst rs => exact write_strict dst.toNat rs
  | initNull segmentLen dst src len =>
    refine (copyFrom_strict dst src len).congr ?_
    rw [List.length_replicate]
    rfl
  | grow delta r =>
    rw [exec]
    by_cases h : l.length + delta.toNat ≤ maxSize
    · rw [if_pos h]
      refine .of_fits trivial rfl fun hg => ?_
      injection hg with hg
      omega
    · rw [if_neg h]
      exact .of_fits trivial rfl fun _ => rfl

end Strict

end Slots

/-! ## Tables -/

namespace Table

variable {α : Type} {maxSize otherMax : Nat} {t : Table α maxSize} {o : Table α otherMax} {l l' : Slots α}

/-- The table has no more slots than entries, and the entries that are no slots are null. -/
structure Padded (t : Table α maxSize) : Prop where
  size_le : t.activeSize ≤ maxSize
  null : ∀ (i : Nat) (h : i < maxSize), t.activeSize ≤ i → t.entries[i] = none

theorem Holds.padded (h : t.Holds id l) : t.Padded where
  size_le := by
    rw [h.size]
    exact h.length_le
  null i hi hwaits := by
    have hslots : (l.map (Option.map id)).length ≤ i := by
      rw [List.length_map, ← h.size]
      exact hwaits
    have hentry : t.entries.toList[i]? = some t.entries[i] := by simp [hi]
    rw [h.entries, List.getElem?_append_right hslots, List.getElem?_replicate] at hentry
    split_ifs at hentry
    exact (Option.some.inj hentry).symm

theorem Padded.size_slots (h : t.Padded) : t.slots.size = t.activeSize := by
  rw [slots, if_pos h.size_le, Array.size_extract, Vector.size_toArray, Nat.min_eq_left h.size_le,
    Nat.sub_zero]

theorem Holds.toList_slots (h : t.Holds id l) : t.slots.toList = l := by
  rw [h.slots_eq, Option.map_id, List.map_id]

/-- An operation on a table answers as on a list, once its words are read as numbers, and leaves the table
holding the list. -/
structure Mirrors (x : Outcome (TableAnswer α) × Table α maxSize)
    (y : Except Trap (SlotsAnswer α) × Slots α) : Prop where
  answer : x.1.map TableAnswer.read = y.1.mapError Fault.trap
  holds : x.2.Holds id y.2

theorem Follows.mirrors {x : Outcome Unit × Table α maxSize} {y : Except Trap Unit × Slots α}
    (h : Follows id x y) : Mirrors (TableAnswer.ofUnit x) (Slots.answer y) := by
  obtain ⟨r, t⟩ := x
  obtain ⟨r', l⟩ := y
  obtain ⟨rfl, hl⟩ := h
  refine ⟨?_, hl⟩
  cases r' <;> rfl

theorem Holds.copyFrom_mirrors (h : t.Holds id l) (h' : o.Holds id l') (dst src len : BitVec 32) :
    Mirrors (TableAnswer.ofUnit (t.copyFrom o dst src len)) (Slots.answer (l.copyFrom l' dst src len)) :=
  (h.copyFrom h' dst src len).mirrors

theorem Holds.init_mirrors {m : Type → Type} {ι B C : Type} {t : Table (FuncRef m ι C) maxSize}
    {l : Slots (FuncRef m ι C)} (h : t.Holds id l) (base : B) (elems : List (ElemExpr m ι B C))
    (dst src len : BitVec 32) :
    Mirrors (TableAnswer.ofUnit (t.init base elems dst src len))
      (Slots.answer (l.copyFrom (elems.map (·.resolve base)) dst src len)) := by
  refine (h.init base ?_ dst src len).mirrors
  rw [Option.map_id, List.map_id]

theorem init_eq_initElements {m : Type → Type} {ι B C : Type} (t : Table (FuncRef m ι C) maxSize)
    (base : B) {elems : List (ElemExpr m ι B C)} (dst : BitVec 32) {src len : BitVec 32}
    (h : src.toNat + len.toNat ≤ elems.length) :
    t.init base elems dst src len =
      t.initElements dst (((elems.map (·.resolve base)).drop src.toNat).take len.toNat) := by
  have hlen : (((elems.map (·.resolve base)).drop src.toNat).take len.toNat).length = len.toNat :=
    length_part (by rwa [List.length_map])
  have hword : ¬ UInt32.size ≤ len.toNat := Nat.not_le.mpr len.isLt
  have hslice : slice elems.toArray src.toNat len.toNat =
      .ok ((elems.drop src.toNat).take len.toNat).toArray := slice_eq_ok h
  rw [init, initElements, range_eq_ok h, Outcome.lift_ok, Outcome.ok_bind, hlen, if_neg hword,
    BitVec.ofNat_toNat, BitVec.setWidth_eq]
  congr 2
  funext start
  rw [onto, hslice]
  cases htarget : slice t.slots start len.toNat with
  | error e => rfl
  | ok target =>
    have hsize : target.size = len.toNat := size_of_slice htarget
    have hcount : ((elems.drop src.toNat).take len.toNat).length ≤ target.toList.length := by
      refine Nat.le_of_eq ?_
      rw [length_part h, Array.length_toList, hsize]
    have hsame : target.size =
        (((elems.map (·.resolve base)).drop src.toNat).take len.toNat).toArray.size := hsize.trans hlen.symm
    rw [Outcome.ok_bind, Outcome.ok_bind, Outcome.ok_bind, zipWith_right hcount,
      if_neg (not_not_intro hsame), List.map_take, List.map_drop]

theorem Holds.initNull_mirrors (h : t.Holds id l) (segmentLen dst src len : BitVec 32) :
    Mirrors (TableAnswer.ofUnit (t.initNull segmentLen dst src len))
      (Slots.answer (l.copyFrom (List.replicate segmentLen.toNat none) dst src len)) := by
  rw [initNull, Slots.copyFrom, Slots.part, List.length_replicate]
  by_cases hsrc : src.toNat + len.toNat ≤ segmentLen.toNat
  · have hpart : ((List.replicate segmentLen.toNat (none : Option α)).drop src.toNat).take len.toNat =
        List.replicate len.toNat none := by
      rw [List.drop_replicate, List.take_replicate]
      congr 1
      omega
    rw [range_eq_ok hsrc, if_pos hsrc, hpart]
    exact (h.fill dst none len).mirrors
  · rw [range_eq_error hsrc, if_neg hsrc]
    exact (h.fails _).mirrors

/-- A list of references that does not fit a word does not fit the table either. -/
theorem Holds.initElements_mirrors (h : t.Holds id l) (hmax : maxSize < twoPow 31) (dst : BitVec 32)
    (rs : Slots α) :
    Mirrors (TableAnswer.ofUnit (t.initElements dst rs)) (Slots.answer (l.write dst.toNat (.ok rs))) := by
  have hinit := (h.initElements dst rs).mirrors
  rw [Option.map_id, List.map_id, Slots.initElements] at hinit
  by_cases hlen : rs.length < UInt32.size
  · rwa [if_pos hlen] at hinit
  · have hbound : maxSize < 2147483648 := hmax
    have hfits := h.length_le
    rw [UInt32.size] at hlen
    rw [if_neg (by rwa [UInt32.size])] at hinit
    rwa [Slots.write, if_neg (by omega)]

theorem Holds.grow_mirrors (h : t.Holds id l) (hmax : maxSize < twoPow 31) (delta : BitVec 32)
    (r : Option α) : Mirrors (TableOp.exec t (.grow delta r)) (l.exec maxSize (.grow delta r)) := by
  have hbound : maxSize < 2147483648 := hmax
  have hlen := h.length_le
  have hgrow := h.grow delta r
  rw [Option.map_id, id] at hgrow
  rw [Slots.exec]
  rw [Slots.grow] at hgrow
  by_cases hfits : l.length + delta.toNat ≤ maxSize
  · rw [if_pos hfits] at hgrow ⊢
    refine ⟨?_, hgrow.2⟩
    have hword : (BitVec.ofNat 32 l.length).toNat = l.length := by
      rw [BitVec.toNat_ofNat]
      omega
    have hsize : (BitVec.ofNat 32 l.length).toInt = l.length := by
      rw [BitVec.toInt_eq_toNat_of_lt (by omega), hword]
    change Except.map TableAnswer.read (Except.map TableAnswer.grown (t.grow delta r).1) = _
    rw [hgrow.1]
    simp [Except.map, Except.mapError, TableAnswer.read, hsize]
  · rw [if_neg hfits] at hgrow ⊢
    refine ⟨?_, hgrow.2⟩
    change Except.map TableAnswer.read (Except.map TableAnswer.grown (t.grow delta r).1) = _
    rw [hgrow.1]
    rfl

/-- **An operation on a table does what it does on the list of its slots.** -/
theorem Holds.exec_mirrors (h : t.Holds id l) (hmax : maxSize < twoPow 31) (op : TableOp α) :
    Mirrors (op.exec t) (l.exec maxSize op) := by
  cases op with
  | size =>
    refine ⟨?_, h⟩
    change Except.ok (SlotsAnswer.size t.activeSize) = _
    rw [h.size]
    rfl
  | get i =>
    rw [TableOp.exec, get, Slots.exec, h.getElem?, Option.map_id, Option.map_id, id]
    cases l[i.toNat]? with
    | none => exact ⟨rfl, h⟩
    | some r => exact ⟨rfl, h⟩
  | set i r =>
    have hset := (h.set i r).mirrors
    rwa [Option.map_id] at hset
  | fill dst r len =>
    have hfill := (h.fill dst r len).mirrors
    rwa [Option.map_id] at hfill
  | copyWithin dst src len => exact (h.copyWithin dst src len).mirrors
  | initElements dst rs => exact h.initElements_mirrors hmax dst rs
  | initNull segmentLen dst src len => exact h.initNull_mirrors segmentLen dst src len
  | grow delta r => exact h.grow_mirrors hmax delta r

end Table

end WasmSandbox
