import Mathlib.Tactic.Common
import WasmSandbox.Iteration
import WasmSandbox.Proofs.Table.Reference
import WasmSandbox.Table.Extern

/-!
# Scripts on tables are scripts on lists

* `TablePairOp.onSlots`, `FuncPairOp.onSlots`: the operations of a script on two lists of slots.
* `TablePairOp.Fits`, `FuncPairOp.Fits`: every index and every end of a range lies within its list.
* `TablePair.HoldsLists`: the tables hold two lists, and null in the entries after them.
* `TablePairOp.exec_mirrors`, `FuncPairOp.exec_mirrors`: an operation on two tables does what it does on the
  lists of their slots.
* `RunsOnLists`: scripts do, and operations that do not fit trap and change nothing.
* **`TablePair.run_lists`**: this holds from any two new tables on.
-/

namespace WasmSandbox

/-! ## Pairs of lists -/

namespace TablePairOp

variable {α : Type}

/-- Run an operation of two tables on two lists. -/
def onSlots (max₁ max₂ : Nat) :
    TablePairOp α → Slots α × Slots α → Except Trap (SlotsAnswer α) × Slots α × Slots α
  | first op, (l, l') => Prod.map id (·, l') (l.exec max₁ op)
  | second op, (l, l') => Prod.map id (l, ·) (l'.exec max₂ op)
  | copyFrom dst src len, (l, l') => Prod.map id (·, l') (Slots.answer (l.copyFrom l' dst src len))
  | copyTo dst src len, (l, l') => Prod.map id (l, ·) (Slots.answer (l'.copyFrom l dst src len))

def Fits : TablePairOp α → Slots α × Slots α → Prop
  | first op, (l, _) => op.Fits l
  | second op, (_, l') => op.Fits l'
  | copyFrom dst src len, (l, l') =>
    src.toNat + len.toNat ≤ l'.length ∧ dst.toNat + len.toNat ≤ l.length
  | copyTo dst src len, (l, l') =>
    src.toNat + len.toNat ≤ l.length ∧ dst.toNat + len.toNat ≤ l'.length

end TablePairOp

namespace FuncPairOp

variable {m : Type → Type} {ι B C : Type}

/-- Run an operation of two tables of function references on two lists. A segment is the list of the
references that its elements resolve to. -/
def onSlots (max₁ max₂ : Nat) :
    FuncPairOp m ι B C → Slots (FuncRef m ι C) × Slots (FuncRef m ι C) →
      Except Trap (SlotsAnswer (FuncRef m ι C)) × Slots (FuncRef m ι C) × Slots (FuncRef m ι C)
  | pair op, ls => op.onSlots max₁ max₂ ls
  | initFirst base elems dst src len, (l, l') =>
    Prod.map id (·, l') (Slots.answer (l.copyFrom (elems.map (·.resolve base)) dst src len))
  | initSecond base elems dst src len, (l, l') =>
    Prod.map id (l, ·) (Slots.answer (l'.copyFrom (elems.map (·.resolve base)) dst src len))

def Fits : FuncPairOp m ι B C → Slots (FuncRef m ι C) × Slots (FuncRef m ι C) → Prop
  | pair op, ls => op.Fits ls
  | initFirst _ elems dst src len, (l, _) =>
    src.toNat + len.toNat ≤ elems.length ∧ dst.toNat + len.toNat ≤ l.length
  | initSecond _ elems dst src len, (_, l') =>
    src.toNat + len.toNat ≤ elems.length ∧ dst.toNat + len.toNat ≤ l'.length

end FuncPairOp

theorem TablePairOp.onSlots_strict {α : Type} (max₁ max₂ : Nat) (op : TablePairOp α)
    (ls : Slots α × Slots α) : Slots.Strict ls (op.onSlots max₁ max₂ ls) (op.Fits ls) := by
  obtain ⟨l, l'⟩ := ls
  cases op with
  | first op => exact (Slots.exec_strict max₁ op).map (·, l')
  | second op => exact (Slots.exec_strict max₂ op).map (l, ·)
  | copyFrom dst src len => exact (Slots.copyFrom_strict dst src len).map (·, l')
  | copyTo dst src len => exact (Slots.copyFrom_strict dst src len).map (l, ·)

theorem FuncPairOp.onSlots_strict {m : Type → Type} {ι B C : Type} (max₁ max₂ : Nat)
    (op : FuncPairOp m ι B C) (ls : Slots (FuncRef m ι C) × Slots (FuncRef m ι C)) :
    Slots.Strict ls (op.onSlots max₁ max₂ ls) (op.Fits ls) := by
  obtain ⟨l, l'⟩ := ls
  cases op with
  | pair op => exact op.onSlots_strict max₁ max₂ (l, l')
  | initFirst base elems dst src len =>
    refine ((Slots.copyFrom_strict dst src len).map (·, l')).congr ?_
    rw [List.length_map]
    rfl
  | initSecond base elems dst src len =>
    refine ((Slots.copyFrom_strict dst src len).map (l, ·)).congr ?_
    rw [List.length_map]
    rfl

/-! ## Pairs of tables -/

namespace TablePair

variable {α : Type} {max₁ max₂ : Nat} {p q : TablePair α max₁ max₂} {ls : Slots α × Slots α}

/-- The lists of the slots of both tables. -/
def lists (p : TablePair α max₁ max₂) : Slots α × Slots α := (p.first.slots.toList, p.second.slots.toList)

/-- Two tables hold two lists, and their other entries are null. -/
structure HoldsLists (p : TablePair α max₁ max₂) (ls : Slots α × Slots α) : Prop where
  first : p.first.Holds id ls.1
  second : p.second.Holds id ls.2

theorem HoldsLists.lists_eq (h : p.HoldsLists ls) : p.lists = ls :=
  Prod.ext h.first.toList_slots h.second.toList_slots

theorem HoldsLists.unique (h : p.HoldsLists ls) (h' : q.HoldsLists ls) : p = q := by
  obtain ⟨a, b⟩ := p
  obtain ⟨a', b'⟩ := q
  obtain rfl : a = a' := h.first.unique h'.first
  obtain rfl : b = b' := h.second.unique h'.second
  rfl

theorem create_holds {i j : Nat} (hi : i ≤ max₁) (hj : j ≤ max₂) :
    ∃ p : TablePair α max₁ max₂, create i j = .ok p ∧
      p.HoldsLists (List.replicate i none, List.replicate j none) := by
  have hfirst : Table.create i = .ok (⟨Vector.replicate max₁ none, i⟩ : Table α max₁) := if_pos hi
  have hsecond : Table.create j = .ok (⟨Vector.replicate max₂ none, j⟩ : Table α max₂) := if_pos hj
  refine ⟨⟨⟨Vector.replicate max₁ none, i⟩, ⟨Vector.replicate max₂ none, j⟩⟩, ?_,
    Table.create_holds hfirst, Table.create_holds hsecond⟩
  rw [create, hfirst, hsecond]
  rfl

/-- An operation on two tables answers as on two lists, once its words are read as numbers, and leaves the
tables holding the lists. -/
structure Mirrors (x : Outcome (TableAnswer α) × TablePair α max₁ max₂)
    (y : Except Trap (SlotsAnswer α) × Slots α × Slots α) : Prop where
  answer : x.1.map TableAnswer.read = y.1.mapError Fault.trap
  holds : x.2.HoldsLists y.2

section Mirrors

variable {x : Outcome (TableAnswer α) × TablePair α max₁ max₂}
  {y : Except Trap (SlotsAnswer α) × Slots α × Slots α}

theorem Mirrors.cases (h : Mirrors x y) :
    (∃ a, x.1 = .ok a ∧ y.1 = .ok a.read) ∨ ∃ t, x.1 = .error (.trap t) ∧ y.1 = .error t := by
  obtain ⟨x, p⟩ := x
  obtain ⟨y, ls⟩ := y
  have hanswer := h.answer
  cases x with
  | ok a =>
    cases y with
    | ok b =>
      cases hanswer
      exact .inl ⟨a, rfl, rfl⟩
    | error t => cases hanswer
  | error e =>
    cases y with
    | ok b => cases hanswer
    | error t =>
      cases hanswer
      exact .inr ⟨t, rfl, rfl⟩

theorem Mirrors.error_iff (h : Mirrors x y) (e : Fault) :
    x.1 = .error e ↔ ∃ t, e = .trap t ∧ y.1 = .error t := by
  obtain ⟨a, hx, hy⟩ | ⟨t, hx, hy⟩ := h.cases
  · simp [hx, hy]
  · simp [hx, hy, eq_comm]

theorem Mirrors.not_grown (h : Mirrors x y) (hx : x.1 = .ok (.grown (-1))) :
    y.1 = .ok (.grown (-1)) := by
  obtain ⟨a, ha, hy⟩ | ⟨t, ht, -⟩ := h.cases
  · rw [hy, ← Except.ok.inj (hx.symm.trans ha)]
    rfl
  · cases hx.symm.trans ht

end Mirrors

theorem Mirrors.onFirst {x : Outcome (TableAnswer α) × Table α max₁} {y : Except Trap (SlotsAnswer α) × Slots α}
    {b : Table α max₂} {l : Slots α} (h : Table.Mirrors x y) (hb : b.Holds id l) :
    Mirrors (x.1, ⟨x.2, b⟩) (Prod.map id (·, l) y) :=
  ⟨h.answer, h.holds, hb⟩

theorem Mirrors.onSecond {x : Outcome (TableAnswer α) × Table α max₂} {y : Except Trap (SlotsAnswer α) × Slots α}
    {a : Table α max₁} {l : Slots α} (h : Table.Mirrors x y) (ha : a.Holds id l) :
    Mirrors (x.1, ⟨a, x.2⟩) (Prod.map id (l, ·) y) :=
  ⟨h.answer, ha, h.holds⟩

end TablePair

section Step

variable {max₁ max₂ : Nat} (hmax₁ : max₁ < twoPow 31) (hmax₂ : max₂ < twoPow 31)

include hmax₁ hmax₂

/-- **An operation on two tables does what it does on the lists of their slots.** -/
theorem TablePairOp.exec_mirrors {α : Type} {p : TablePair α max₁ max₂} {ls : Slots α × Slots α}
    (hp : p.HoldsLists ls) (op : TablePairOp α) :
    TablePair.Mirrors (op.exec p) (op.onSlots max₁ max₂ ls) := by
  cases op with
  | first op => exact .onFirst (hp.first.exec_mirrors hmax₁ op) hp.second
  | second op => exact .onSecond (hp.second.exec_mirrors hmax₂ op) hp.first
  | copyFrom dst src len => exact .onFirst (hp.first.copyFrom_mirrors hp.second dst src len) hp.second
  | copyTo dst src len => exact .onSecond (hp.second.copyFrom_mirrors hp.first dst src len) hp.first

theorem FuncPairOp.exec_mirrors {m : Type → Type} {ι B C : Type}
    {p : TablePair (FuncRef m ι C) max₁ max₂} {ls : Slots (FuncRef m ι C) × Slots (FuncRef m ι C)}
    (hp : p.HoldsLists ls) (op : FuncPairOp m ι B C) :
    TablePair.Mirrors (op.exec p) (op.onSlots max₁ max₂ ls) := by
  cases op with
  | pair op => exact op.exec_mirrors hmax₁ hmax₂ hp
  | initFirst base elems dst src len =>
    exact .onFirst (hp.first.init_mirrors base elems dst src len) hp.second
  | initSecond base elems dst src len =>
    exact .onSecond (hp.second.init_mirrors base elems dst src len) hp.first

end Step

/-! ## Scripts -/

/-- Scripts answer as on the lists of the slots, and leave those lists. The next operation traps exactly
if it does not fit, and then changes nothing. -/
structure RunsOnLists {O α : Type} {max₁ max₂ : Nat}
    (exec : O → TablePair α max₁ max₂ → Outcome (TableAnswer α) × TablePair α max₁ max₂)
    (onSlots : O → Slots α × Slots α → Except Trap (SlotsAnswer α) × Slots α × Slots α)
    (fits : O → Slots α × Slots α → Prop) (p : TablePair α max₁ max₂) : Prop where
  answers : ∀ ops, (runAll exec ops p).1.map (Except.map TableAnswer.read) =
    (runAll onSlots ops p.lists).1.map (Except.mapError Fault.trap)
  lists : ∀ ops, (runAll exec ops p).2.lists = (runAll onSlots ops p.lists).2
  padded : ∀ ops, (runAll exec ops p).2.first.Padded ∧ (runAll exec ops p).2.second.Padded
  traps : ∀ ops op e, (exec op (runAll exec ops p).2).1 = .error e ↔
    e = .trap .tableOutOfBounds ∧ ¬ fits op (runAll exec ops p).2.lists
  kept : ∀ ops op, (∃ e, (exec op (runAll exec ops p).2).1 = .error e) ∨
    (exec op (runAll exec ops p).2).1 = .ok (.grown (-1)) →
      (exec op (runAll exec ops p).2).2 = (runAll exec ops p).2

section Run

variable {O α : Type} {max₁ max₂ : Nat}
  {exec : O → TablePair α max₁ max₂ → Outcome (TableAnswer α) × TablePair α max₁ max₂}
  {onSlots : O → Slots α × Slots α → Except Trap (SlotsAnswer α) × Slots α × Slots α}
  {fits : O → Slots α × Slots α → Prop}

/-- What holds of every step holds of every script. -/
theorem RunsOnLists.of_step
    (hexec : ∀ op p ls, p.HoldsLists ls → TablePair.Mirrors (exec op p) (onSlots op ls))
    (hstrict : ∀ op ls, Slots.Strict ls (onSlots op ls) (fits op ls))
    {p : TablePair α max₁ max₂} {ls : Slots α × Slots α} (hp : p.HoldsLists ls) :
    RunsOnLists exec onSlots fits p := by
  obtain rfl : p.lists = ls := hp.lists_eq
  have hrun (ops : List O) : _ ∧ (runAll exec ops p).2.HoldsLists (runAll onSlots ops p.lists).2 :=
    runAll_related (Except.map TableAnswer.read) (Except.mapError Fault.trap) TablePair.HoldsLists
      (fun op p ls _ h => ⟨(hexec op p ls h).answer, (hexec op p ls h).holds⟩)
      (RunsWithin.of_forall_mem fun _ _ _ => trivial) hp
  have hnext (ops : List O) (op : O) := hexec op _ _ (hrun ops).2
  refine ⟨fun ops => (hrun ops).1, fun ops => (hrun ops).2.lists_eq,
    fun ops => ⟨(hrun ops).2.first.padded, (hrun ops).2.second.padded⟩, fun ops op e => ?_,
    fun ops op hk => ?_⟩
  · rw [(hnext ops op).error_iff, (hrun ops).2.lists_eq]
    simp only [(hstrict op _).traps]
    constructor
    · rintro ⟨t, rfl, rfl, hmiss⟩
      exact ⟨rfl, hmiss⟩
    · rintro ⟨rfl, hmiss⟩
      exact ⟨_, rfl, rfl, hmiss⟩
  · have hsame := (hstrict op (runAll onSlots ops p.lists).2).kept <| hk.imp
      (fun ⟨e, he⟩ => by
        obtain ⟨t, -, ht⟩ := ((hnext ops op).error_iff e).mp he
        exact ⟨t, ht⟩)
      (hnext ops op).not_grown
    have hafter := (hnext ops op).holds
    rw [hsame] at hafter
    exact hafter.unique (hrun ops).2

end Run

/-- **Two tables are two lists of nullable references**, whatever their maxima below `2 ^ 31`, their
initial sizes, and the script that runs on them. -/
theorem TablePair.run_lists {max₁ max₂ i j : Nat} (hmax₁ : max₁ < twoPow 31) (hmax₂ : max₂ < twoPow 31)
    (hi : i ≤ max₁) (hj : j ≤ max₂) :
    (∃ p : TablePair ExternRef max₁ max₂, create i j = .ok p ∧
      p.lists = (List.replicate i none, List.replicate j none) ∧
      RunsOnLists TablePairOp.exec (TablePairOp.onSlots max₁ max₂) TablePairOp.Fits p) ∧
    ∀ (m : Type → Type) (ι B C : Type),
      (∃ p : TablePair (FuncRef m ι C) max₁ max₂, create i j = .ok p ∧
        p.lists = (List.replicate i none, List.replicate j none) ∧
        RunsOnLists (O := FuncPairOp m ι B C) FuncPairOp.exec (FuncPairOp.onSlots max₁ max₂)
          FuncPairOp.Fits p) ∧
      ∀ (maxSize : Nat) (t : Table (FuncRef m ι C) maxSize) (base : B)
        (elems : List (ElemExpr m ι B C)) (dst src len : BitVec 32),
        src.toNat + len.toNat ≤ elems.length →
          t.init base elems dst src len =
            t.initElements dst (((elems.map (·.resolve base)).drop src.toNat).take len.toNat) := by
  refine ⟨?_, fun m ι B C => ⟨?_, fun _ t base elems dst src len hsrc =>
    t.init_eq_initElements base dst hsrc⟩⟩
  · obtain ⟨p, hp, hholds⟩ := create_holds (α := ExternRef) hi hj
    exact ⟨p, hp, hholds.lists_eq, .of_step (fun op _ _ h => op.exec_mirrors hmax₁ hmax₂ h)
      (fun op ls => op.onSlots_strict max₁ max₂ ls) hholds⟩
  · obtain ⟨p, hp, hholds⟩ := create_holds (α := FuncRef m ι C) hi hj
    exact ⟨p, hp, hholds.lists_eq, .of_step (fun op _ _ h => op.exec_mirrors hmax₁ hmax₂ h)
      (fun op ls => op.onSlots_strict max₁ max₂ ls) hholds⟩

/-- A reference is put into the first of two slots, copied up by one slot, over itself, and into a table
that has no room to grow. -/
theorem TablePair.run_lists_of_overlap :
    let r : Option ExternRef := some ⟨7, by decide⟩
    let ops : List (TablePairOp ExternRef) := [.first (.set 0 r), .first (.grow 1 none),
      .first (.copyWithin 1 0 2), .copyTo 0 1 1, .second (.grow 1 r), .second (.fill 1 none 0),
      .second (.copyWithin 0 1 0xffffffff)]
    ∃ p : TablePair ExternRef 4 1, create 2 1 = .ok p ∧
      (runAll TablePairOp.exec ops p).1.map (Except.map TableAnswer.read) =
        [.ok .unit, .ok (.grown 2), .ok .unit, .ok .unit, .ok (.grown (-1)), .ok .unit,
          .error (.trap .tableOutOfBounds)] ∧
      (runAll TablePairOp.exec ops p).2.lists = ([r, r, none], [r]) ∧
      (runAll TablePairOp.exec ops p).2.first.entries[3] = none := by
  intro r ops
  obtain ⟨⟨p, hcreate, hp, hrun⟩, -⟩ :=
    @run_lists 4 1 2 1 (by decide) (by decide) (by decide) (by decide)
  have hlists : (runAll TablePairOp.exec ops p).2.lists = ([r, r, none], [r]) := by
    rw [hrun.lists, hp]
    rfl
  refine ⟨p, hcreate, ?_, hlists, ?_⟩
  · rw [hrun.answers, hp]
    rfl
  · have hpadded := (hrun.padded ops).1
    have hsize : (runAll TablePairOp.exec ops p).2.first.slots.size = 3 :=
      congrArg (fun ls => ls.1.length) hlists
    exact hpadded.null 3 _ (Nat.le_of_eq (hpadded.size_slots.symm.trans hsize))

end WasmSandbox
