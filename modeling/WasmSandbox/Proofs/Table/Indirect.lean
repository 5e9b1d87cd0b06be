import Mathlib.Tactic.Common
import WasmSandbox.Proofs.Function.Encoding
import WasmSandbox.Proofs.Table.Slots

/-!
# Indirect calls are type safe

* `Closure`: a function with the instance it runs for and its own tail step, if it has one;
  `Closure.ref` is the reference to it, and `ClosureElem` an element that resolves to one.
* `Table.Reachable t l`: a table that is made by the table instructions from references to closures,
  with the closure that was last written to each slot.
* `Table.Reachable.holds`: such a table holds the references to the closures last written.
* **`Table.Reachable.calls_last_written`**: an indirect call finds the closure last written to its slot
  under the signature of that closure, and traps under every other.
-/

namespace WasmSandbox

section Indirect

variable {m : Type → Type} {ι B C : Type}

variable (m ι C) in
/-- A function with the instance it runs for, and its own tail step if it has one. -/
structure Closure where
  signature : Signature
  func : Func m C signature
  owner : C
  tailStep : Option ι

/-- The reference to a closure. -/
def Closure.ref (c : Closure m ι C) : FuncRef m ι C :=
  match c.tailStep with
  | none => .ofFunc c.func c.owner
  | some step => (FuncRef.ofFunc c.func c.owner).withTailStep step

variable (m ι B C) in
/-- An element of a segment whose references are references to closures. -/
inductive ClosureElem where
  | func {σ : Signature} (f : Func m C σ) (owner : B → C) (tailStep : Option ι)
  | null
  /-- The value of a global that holds a closure or nothing. -/
  | global (value : B → Option (Closure m ι C))

namespace ClosureElem

/-- The element of the segment. -/
def expr : ClosureElem m ι B C → ElemExpr m ι B C
  | func f owner none => .refFunc (.ofFunc f owner)
  | func f owner (some step) => .refFunc ((FuncDesc.ofFunc f owner).withTailStep step)
  | null => .refNull
  | global value => .globalGet fun base => (value base).map Closure.ref

/-- The closure that the element stands for. -/
def closure (base : B) : ClosureElem m ι B C → Option (Closure m ι C)
  | func f owner step => some ⟨_, f, owner base, step⟩
  | null => none
  | global value => value base

theorem resolve_expr (e : ClosureElem m ι B C) (base : B) :
    e.expr.resolve base = (e.closure base).map Closure.ref := by
  cases e with
  | func f owner step => cases step <;> rfl
  | null => rfl
  | global value => rfl

end ClosureElem

/-! ## References to closures -/

namespace Closure

@[simp] theorem ref_type (c : Closure m ι C) : c.ref.type = c.signature.funcType := by
  unfold ref
  cases c.tailStep <;> rfl

@[simp] theorem ref_entry (c : Closure m ι C) : c.ref.entry = c.func.erase := by
  unfold ref
  cases c.tailStep <;> rfl

@[simp] theorem ref_owner (c : Closure m ι C) : c.ref.owner = c.owner := by
  unfold ref
  cases c.tailStep <;> rfl

@[simp] theorem ref_tailStep (c : Closure m ι C) : c.ref.tailStep = c.tailStep := by
  unfold ref
  cases h : c.tailStep <;> rfl

end Closure

/-! ## Reachable tables -/

namespace Table

/-- A table that is made by the table instructions from references to closures, together with the
closure that was last written to each slot. -/
inductive Reachable : {maxSize : Nat} → Table (FuncRef m ι C) maxSize → Slots (Closure m ι C) → Prop
  | create {maxSize initial : Nat} {t : Table (FuncRef m ι C) maxSize}
    (h : Table.create initial = .ok t) : Reachable t (List.replicate initial none)
  | set {maxSize : Nat} {t : Table (FuncRef m ι C) maxSize} {l : Slots (Closure m ι C)}
    (h : Reachable t l) (i : BitVec 32) (c : Option (Closure m ι C)) :
    Reachable (t.set i (c.map Closure.ref)).2 (l.put i c).2
  | fill {maxSize : Nat} {t : Table (FuncRef m ι C) maxSize} {l : Slots (Closure m ι C)}
    (h : Reachable t l) (dst : BitVec 32) (c : Option (Closure m ι C)) (len : BitVec 32) :
    Reachable (t.fill dst (c.map Closure.ref) len).2 (l.fill dst c len).2
  | copyWithin {maxSize : Nat} {t : Table (FuncRef m ι C) maxSize} {l : Slots (Closure m ι C)}
    (h : Reachable t l) (dst src len : BitVec 32) :
    Reachable (t.copyWithin dst src len).2 (l.copyFrom l dst src len).2
  | copyFrom {maxSize otherMax : Nat} {t : Table (FuncRef m ι C) maxSize}
    {o : Table (FuncRef m ι C) otherMax} {l l' : Slots (Closure m ι C)}
    (h : Reachable t l) (h' : Reachable o l') (dst src len : BitVec 32) :
    Reachable (t.copyFrom o dst src len).2 (l.copyFrom l' dst src len).2
  | grow {maxSize : Nat} {t : Table (FuncRef m ι C) maxSize} {l : Slots (Closure m ι C)}
    (h : Reachable t l) (delta : BitVec 32) (c : Option (Closure m ι C)) :
    Reachable (t.grow delta (c.map Closure.ref)).2 (l.grow maxSize delta c).2
  | initElements {maxSize : Nat} {t : Table (FuncRef m ι C) maxSize} {l : Slots (Closure m ι C)}
    (h : Reachable t l) (dst : BitVec 32) (cs : Slots (Closure m ι C)) :
    Reachable (t.initElements dst (cs.map (Option.map Closure.ref))).2 (l.initElements dst cs).2
  | init {B : Type} {maxSize : Nat} {t : Table (FuncRef m ι C) maxSize}
    {l : Slots (Closure m ι C)} (h : Reachable t l) (base : B) (es : List (ClosureElem m ι B C))
    (dst src len : BitVec 32) :
    Reachable (t.init base (es.map ClosureElem.expr) dst src len).2
      (l.copyFrom (es.map (·.closure base)) dst src len).2

variable {maxSize : Nat} {t : Table (FuncRef m ι C) maxSize} {l : Slots (Closure m ι C)}

/-- **A reachable table holds the references to the closures last written.** -/
theorem Reachable.holds (h : Reachable t l) : t.Holds Closure.ref l := by
  induction h with
  | create h => exact create_holds h
  | set _ i c ih => exact (ih.set i c).holds
  | fill _ dst c len ih => exact (ih.fill dst c len).holds
  | copyWithin _ dst src len ih => exact (ih.copyWithin dst src len).holds
  | copyFrom _ _ dst src len ih ih' => exact (ih.copyFrom ih' dst src len).holds
  | grow _ delta c ih => exact (ih.grow delta c).2
  | initElements _ dst cs ih => exact (ih.initElements dst cs).holds
  | init _ base es dst src len ih =>
    refine (ih.init base ?_ dst src len).holds
    rw [List.map_map, List.map_map]
    exact List.map_congr_left fun e _ => e.resolve_expr base

theorem Reachable.lookup_eq (h : Reachable t l) (i : BitVec 32) (σ : Signature) :
    t.lookup i σ.funcType =
      match l[i.toNat]? with
      | none => .error .tableOutOfBounds
      | some none => .error .undefinedElement
      | some (some c) => if c.signature = σ then .ok c.ref else .error .indirectCallTypeMismatch := by
  rw [lookup, h.holds.getElem?]
  rcases l[i.toNat]? with _ | _ | c
  · rfl
  · rfl
  · simp only [Option.map_some, Closure.ref_type, Signature.funcType_injective.eq_iff]

/-- What an indirect call finds, by the closure last written to the slot. -/
theorem Reachable.callIndirect_eq (h : Reachable t l) (i : BitVec 32) (σ : Signature) :
    t.callIndirect i σ =
      match l[i.toNat]? with
      | none => .error (.trap .tableOutOfBounds)
      | some none => .error (.trap .undefinedElement)
      | some (some c) =>
        if hσ : c.signature = σ then .ok ⟨hσ ▸ c.func, c.owner⟩
        else .error (.trap .indirectCallTypeMismatch) := by
  rw [callIndirect, h.lookup_eq]
  rcases l[i.toNat]? with _ | _ | c
  · rfl
  · rfl
  · by_cases hσ : c.signature = σ
    · subst hσ
      simp only [if_true, dif_pos, Closure.ref_entry, Entry.restore_erase, Closure.ref_owner]
    · simp only [if_neg hσ, dif_neg hσ]

end Table

end Indirect

/-! ## Indirect calls -/

namespace Table

variable {m : Type → Type} {ι C : Type} {maxSize : Nat} {t : Table (FuncRef m ι C) maxSize}
  {l : Slots (Closure m ι C)}

/-- What an indirect tail call schedules, by the closure last written to the slot. -/
theorem Reachable.returnCallIndirect_eq (h : Reachable t l) (i : BitVec 32) (σ : Signature)
    (next : Option (TailCall m ι C)) :
    t.returnCallIndirect i σ next =
      match l[i.toNat]? with
      | none => (.error .tableOutOfBounds, next)
      | some none => (.error .undefinedElement, next)
      | some (some c) =>
        if c.signature = σ then
          (.ok (), some ⟨c.tailStep.elim (.default σ) .own, c.func.erase, c.owner⟩)
        else (.error .indirectCallTypeMismatch, next) := by
  rw [returnCallIndirect, h.lookup_eq]
  rcases l[i.toNat]? with _ | _ | c
  · rfl
  · rfl
  · by_cases hσ : c.signature = σ
    · simp only [if_pos hσ, Closure.ref_entry, Closure.ref_owner, Closure.ref_tailStep]
      cases c.tailStep <;> rfl
    · simp only [if_neg hσ]

/-- **An indirect call finds the closure last written to its slot**, and an indirect tail call schedules
it. Both trap exactly if there is none of that signature. -/
theorem Reachable.calls_last_written (h : Reachable t l) (i : BitVec 32) (σ : Signature) :
    t.size = l.length ∧
    (t.callIndirect i σ = .error (.trap .tableOutOfBounds) ↔ t.size ≤ i.toNat) ∧
    (t.callIndirect i σ = .error (.trap .undefinedElement) ↔ l[i.toNat]? = some none) ∧
    (t.callIndirect i σ = .error (.trap .indirectCallTypeMismatch) ↔
      ∃ c, l[i.toNat]? = some (some c) ∧ c.signature ≠ σ) ∧
    (∀ f owner, t.callIndirect i σ = .ok ⟨f, owner⟩ ↔
      ∃ step, l[i.toNat]? = some (some ⟨σ, f, owner, step⟩)) ∧
    (∀ b, t.callIndirect i σ ≠ .error (.breach b)) ∧
    ∀ next,
      (∀ e, (t.returnCallIndirect i σ next).1 = .error e ↔
        t.callIndirect i σ = .error (.trap e)) ∧
      (∀ e, (t.returnCallIndirect i σ next).1 = .error e →
        (t.returnCallIndirect i σ next).2 = next) ∧
      (∀ f owner step, l[i.toNat]? = some (some ⟨σ, f, owner, step⟩) →
        t.returnCallIndirect i σ next =
          (.ok (), some ⟨step.elim (.default σ) .own, f.erase, owner⟩)) := by
  have hsize : t.size = l.length := h.holds.size
  have hrange : t.size ≤ i.toNat ↔ l[i.toNat]? = none := by
    rw [hsize, List.getElem?_eq_none_iff]
  simp only [hrange, h.callIndirect_eq, h.returnCallIndirect_eq]
  refine ⟨hsize, ?_⟩
  rcases l[i.toNat]? with _ | _ | c
  · simp
  · simp
  · by_cases hσ : c.signature = σ
    · obtain ⟨τ, f, owner, step⟩ := c
      subst hσ
      simp
    · have hne (f : Func m C σ) (owner : C) (step : Option ι) : c ≠ ⟨σ, f, owner, step⟩ := by
        rintro rfl
        exact hσ rfl
      simp [hσ, hne]

/-- Two slots, of which one holds the identity on integers, reached past an index out of range. -/
theorem Reachable.calls_last_written_of_identity :
    let σ : Signature := { params := [.i32], results := [.i32] }
    let identity : Func Outcome Unit σ := fun _ args => .ok args
    ∃ (t : Table (FuncRef Outcome Empty Unit) 3) (l : Slots (Closure Outcome Empty Unit)),
      Reachable t l ∧
      t.callIndirect 0 σ = .ok ⟨identity, ()⟩ ∧
      t.callIndirect 0 { params := [.i32], results := [] } =
        .error (.trap .indirectCallTypeMismatch) ∧
      t.callIndirect 1 σ = .error (.trap .undefinedElement) ∧
      t.callIndirect 2 σ = .error (.trap .tableOutOfBounds) := by
  intro σ identity
  have hcreate : Reachable (⟨Vector.replicate 3 none, 2⟩ : Table (FuncRef Outcome Empty Unit) 3)
      (List.replicate 2 none) := .create rfl
  have h := (hcreate.set 0 (some ⟨σ, identity, (), none⟩)).set 2 (some ⟨σ, identity, (), none⟩)
  obtain ⟨-, -, -, -, hok, -⟩ := h.calls_last_written 0 σ
  obtain ⟨-, -, -, hmismatch, -⟩ := h.calls_last_written 0 { params := [.i32], results := [] }
  obtain ⟨-, -, hnull, -⟩ := h.calls_last_written 1 σ
  obtain ⟨-, hrange, -⟩ := h.calls_last_written 2 σ
  exact ⟨_, _, h, (hok identity ()).mpr ⟨none, rfl⟩, hmismatch.mpr ⟨_, rfl, by decide⟩,
    hnull.mpr rfl, hrange.mpr (by decide)⟩

end Table

end WasmSandbox
