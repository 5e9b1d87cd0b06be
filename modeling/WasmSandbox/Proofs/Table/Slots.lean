import Mathlib.Tactic.Common
import WasmSandbox.Table.Func

/-!
# Tables as lists of slots

* `Slots α`: the slots of a table as a list, with the table instructions on it. Each of them writes a
  range of slots, or nothing where a range does not fit.
* `Table.Holds g t l`: the table holds the references of the list, each represented by `g`, and its other
  entries are null. One table of a size does (`Table.Holds.unique`).
* `Table.Holds.slice_eq`, `Table.Holds.onto_eq`: slices of slots are the parts of the list, and no checked
  range leaves them.
* **`Table.Holds.set`**, **`Table.Holds.copyFrom`** and so on: every instruction answers as on the list,
  and the table holds what the list then holds.
-/

namespace WasmSandbox

/-- The slots of a table, as a list of nullable references. -/
abbrev Slots (α : Type) := List (Option α)

namespace Slots

variable {α : Type}

/-- Put references over the slots from `dst` on. -/
def overwrite (l : Slots α) (dst : Nat) (rs : Slots α) : Slots α :=
  l.take dst ++ rs ++ l.drop (dst + rs.length)

/-- A range of slots, if it lies within the list. -/
def part (l : Slots α) (src len : Nat) : Except Trap (Slots α) :=
  if src + len ≤ l.length then .ok ((l.drop src).take len) else .error .tableOutOfBounds

/-- Put references over the slots from `dst` on, if there are that many slots. -/
def write (l : Slots α) (dst : Nat) : Except Trap (Slots α) → Except Trap Unit × Slots α
  | .ok rs =>
    if dst + rs.length ≤ l.length then (.ok (), l.overwrite dst rs)
    else (.error .tableOutOfBounds, l)
  | .error e => (.error e, l)

def put (l : Slots α) (i : BitVec 32) (r : Option α) : Except Trap Unit × Slots α :=
  l.write i.toNat (.ok [r])

def fill (l : Slots α) (dst : BitVec 32) (r : Option α) (len : BitVec 32) :
    Except Trap Unit × Slots α :=
  l.write dst.toNat (.ok (List.replicate len.toNat r))

/-- Put what a range of slots of `l'` held into a range of slots. -/
def copyFrom (l l' : Slots α) (dst src len : BitVec 32) : Except Trap Unit × Slots α :=
  l.write dst.toNat (l'.part src.toNat len.toNat)

/-- Put references into consecutive slots. There may not be `2 ^ 32` of them. -/
def initElements (l : Slots α) (dst : BitVec 32) (rs : Slots α) : Except Trap Unit × Slots α :=
  l.write dst.toNat (if rs.length < UInt32.size then .ok rs else .error .tableOutOfBounds)

/-- Add slots that hold `r`, up to `maxSize` in all. -/
def grow (l : Slots α) (maxSize : Nat) (delta : BitVec 32) (r : Option α) : BitVec 32 × Slots α :=
  if l.length + delta.toNat ≤ maxSize then
    (BitVec.ofNat 32 l.length, l ++ List.replicate delta.toNat r)
  else (-1, l)

end Slots

theorem Patch.toList_write {α : Type} {p : Patch α} {storage : Array α}
    (h : p.start + p.items.length ≤ storage.size) :
    (p.write storage).toList = storage.toList.take p.start ++ p.items ++
      storage.toList.drop (p.start + p.items.length) := by
  have hstart : (storage.toList.take p.start).length = p.start := by
    rw [List.length_take, Array.length_toList]
    omega
  apply List.ext_getElem?
  intro i
  rw [Array.getElem?_toList, getElem?_write]
  by_cases hlo : i < p.start
  · rw [if_neg (by omega), List.append_assoc, List.getElem?_append_left (by omega),
      List.getElem?_take_of_lt hlo, Array.getElem?_toList]
  · by_cases hhi : i < p.start + p.items.length
    · rw [if_pos (by omega), List.append_assoc, List.getElem?_append_right (by omega), hstart,
        List.getElem?_append_left (by omega)]
    · rw [if_neg (by omega), List.getElem?_append_right (by rw [List.length_append]; omega),
        List.length_append, hstart, List.getElem?_drop, Array.getElem?_toList]
      congr 1
      omega

namespace Table

variable {α β : Type} {maxSize otherMax : Nat} {g : β → α}

/-- The table holds the references of the list, each represented by `g`; the entries that are no slots are
null. -/
structure Holds (g : β → α) (t : Table α maxSize) (l : Slots β) : Prop where
  size : t.activeSize = l.length
  entries : t.entries.toList = l.map (Option.map g) ++ List.replicate (maxSize - l.length) none

/-- An instruction on a table answers as on a list, and leaves the table holding the list. -/
structure Follows (g : β → α) (x : Outcome Unit × Table α maxSize) (y : Except Trap Unit × Slots β) :
    Prop where
  answer : x.1 = y.1.mapError Fault.trap
  holds : x.2.Holds g y.2

variable {t t' : Table α maxSize} {l : Slots β} {o : Table α otherMax} {l' : Slots β}

theorem Holds.length_le (h : t.Holds g l) : l.length ≤ maxSize := by
  have hlen := congrArg List.length h.entries
  rw [Vector.length_toList, List.length_append, List.length_map, List.length_replicate] at hlen
  omega

theorem Holds.unique (h : t.Holds g l) (h' : t'.Holds g l) : t = t' := by
  obtain ⟨entries, size⟩ := t
  obtain ⟨entries', size'⟩ := t'
  obtain rfl : size = size' := h.size.trans h'.size.symm
  obtain rfl : entries = entries' := Vector.toList_inj.mp (h.entries.trans h'.entries.symm)
  rfl

theorem create_holds {initial : Nat} (h : create initial = .ok t) :
    t.Holds g (List.replicate initial none) := by
  unfold create at h
  split_ifs at h with hfits
  cases h
  refine ⟨List.length_replicate.symm, ?_⟩
  rw [Vector.toList_replicate, List.map_replicate, Option.map_none, List.length_replicate,
    List.replicate_append_replicate, Nat.add_sub_cancel' hfits]

/-! ## Slices -/

theorem Holds.slots_eq (h : t.Holds g l) : t.slots = (l.map (Option.map g)).toArray := by
  have hsize : t.activeSize = (l.map (Option.map g)).length := by rw [h.size, List.length_map]
  have hfits : t.activeSize ≤ maxSize := by
    rw [h.size]
    exact h.length_le
  rw [slots, if_pos hfits]
  apply Array.toList_inj.mp
  rw [Array.toList_extract, List.extract_eq_take_drop, Nat.sub_zero, List.drop_zero, hsize]
  exact (congrArg (List.take _) h.entries).trans List.take_left

theorem Holds.size_slots (h : t.Holds g l) : t.slots.size = l.length := by
  rw [h.slots_eq, List.size_toArray, List.length_map]

theorem Holds.getElem? (h : t.Holds g l) (i : Nat) : t.slots[i]? = l[i]?.map (Option.map g) := by
  rw [h.slots_eq, List.getElem?_toArray, List.getElem?_map]

theorem slice_eq_ok {γ : Type} {items : Array γ} {start len : Nat} (h : start + len ≤ items.size) :
    slice items start len = .ok ((items.toList.drop start).take len).toArray := by
  rw [slice, if_pos h]
  congr 1
  apply Array.toList_inj.mp
  rw [Array.toList_extract, List.extract_eq_take_drop, Nat.add_sub_cancel_left]

theorem Holds.slice_eq (h : t.Holds g l) {start len : Nat} (hfits : start + len ≤ l.length) :
    slice t.slots start len = .ok (((l.drop start).take len).map (Option.map g)).toArray := by
  rw [slice_eq_ok (h.size_slots ▸ hfits), h.slots_eq, List.map_take, List.map_drop]

theorem size_of_slice {γ : Type} {items part : Array γ} {start len : Nat}
    (h : slice items start len = .ok part) : part.size = len := by
  unfold slice at h
  split_ifs at h with hfits
  cases h
  rw [Array.size_extract, Nat.min_eq_left hfits, Nat.add_sub_cancel_left]

theorem length_part {γ : Type} {as : List γ} {start len : Nat} (hfits : start + len ≤ as.length) :
    ((as.drop start).take len).length = len := by
  rw [List.length_take, List.length_drop]
  omega

theorem Holds.onto_eq (h : t.Holds g l) {start len : Nat} {refs : Array (Option α)}
    (hfits : start + len ≤ l.length) (hlen : refs.size = len) :
    t.onto start len refs = .ok ⟨start, refs.toList⟩ := by
  have hsize : (((l.drop start).take len).map (Option.map g)).toArray.size = refs.size := by
    rw [List.size_toArray, List.length_map, length_part hfits, hlen]
  rw [onto, h.slice_eq hfits, Outcome.ok_bind, if_neg (not_not_intro hsize)]
  rfl

/-! ## Writing -/

theorem toList_entries_patch (t : Table α maxSize) {p : Patch (Option α)}
    (hfits : p.start + p.items.length ≤ maxSize) :
    (t.patch (.ok p)).2.entries.toList =
      t.entries.toList.take p.start ++ p.items ++ t.entries.toList.drop (p.start + p.items.length) :=
  Patch.toList_write (by rwa [Vector.size_toArray])

theorem Holds.patch (h : t.Holds g l) {start : Nat} {rs : Slots β} (hfits : start + rs.length ≤ l.length) :
    (t.patch (.ok ⟨start, rs.map (Option.map g)⟩)).2.Holds g (l.overwrite start rs) := by
  have hlen : (l.overwrite start rs).length = l.length := by
    simp only [Slots.overwrite, List.length_append, List.length_take, List.length_drop]
    omega
  have hstart : start ≤ (l.map (Option.map g)).length := by
    rw [List.length_map]
    omega
  have hstop : start + rs.length ≤ (l.map (Option.map g)).length := by rwa [List.length_map]
  refine ⟨h.size.trans hlen.symm, ?_⟩
  rw [toList_entries_patch, hlen, h.entries, List.length_map, List.take_append_of_le_length hstart,
    List.drop_append_of_le_length hstop, ← List.append_assoc, Slots.overwrite, List.map_append,
    List.map_append, List.map_take, List.map_drop]
  rw [List.length_map]
  exact Nat.le_trans hfits h.length_le

theorem range_eq_ok {start len : BitVec 32} {n : Nat} (h : start.toNat + len.toNat ≤ n) :
    range start len n = .ok start.toNat := if_pos h

theorem range_eq_error {start len : BitVec 32} {n : Nat} (h : ¬ start.toNat + len.toNat ≤ n) :
    range start len n = .error .tableOutOfBounds := if_neg h

theorem Holds.fails (h : t.Holds g l) (e : Trap) :
    Follows g (.error (.trap e), t) (.error e, l) := ⟨rfl, h⟩

/-- References that are put over a checked range. -/
theorem Holds.write (h : t.Holds g l) {dst len : BitVec 32} {rs : Slots β}
    {f : Nat → Outcome (Patch (Option α))} (hlen : rs.length = len.toNat)
    (hf : dst.toNat + len.toNat ≤ l.length → f dst.toNat = .ok ⟨dst.toNat, rs.map (Option.map g)⟩) :
    Follows g (t.patch (liftM (range dst len t.activeSize) >>= f)) (l.write dst.toNat (.ok rs)) := by
  rw [Slots.write, h.size, hlen]
  by_cases hfits : dst.toNat + len.toNat ≤ l.length
  · rw [range_eq_ok hfits, if_pos hfits, Outcome.lift_ok, Outcome.ok_bind, hf hfits]
    exact ⟨rfl, h.patch (by rwa [hlen])⟩
  · rw [range_eq_error hfits, if_neg hfits]
    exact h.fails _

theorem Holds.misses (h : t.Holds g l) (dst len : BitVec 32) {f : Nat → Outcome (Patch (Option α))}
    (hf : ∀ start, f start = .error (.trap .tableOutOfBounds)) :
    Follows g (t.patch (liftM (range dst len t.activeSize) >>= f))
      (l.write dst.toNat (.error .tableOutOfBounds)) := by
  rw [range]
  split_ifs
  · rw [Outcome.lift_ok, Outcome.ok_bind, hf]
    exact h.fails _
  · exact h.fails _

theorem zipWith_right {γ δ ε : Type} {f : δ → ε} {as : List γ} {bs : List δ}
    (h : bs.length ≤ as.length) : List.zipWith (fun _ b => f b) as bs = bs.map f :=
  calc List.zipWith (fun _ b => f b) as bs = (List.zip as bs).map (fun p => f p.2) :=
        List.map_uncurry_zip_eq_zipWith.symm
    _ = ((List.zip as bs).map Prod.snd).map f := List.map_map.symm
    _ = bs.map f := by rw [List.map_snd_zip h]

/-! ## Instructions -/

theorem Holds.set (h : t.Holds g l) (i : BitVec 32) (r : Option β) :
    Follows g (t.set i (r.map g)) (l.put i r) := by
  rw [Table.set, h.getElem?, Slots.put, Slots.write, List.length_singleton]
  by_cases hi : i.toNat < l.length
  · rw [List.getElem?_eq_getElem hi, if_pos (Nat.succ_le_of_lt hi)]
    have hfits : i.toNat + [r].length ≤ l.length := hi
    exact ⟨rfl, h.patch hfits⟩
  · have hmiss : ¬ i.toNat + 1 ≤ l.length := hi
    rw [List.getElem?_eq_none (Nat.not_lt.mp hi), if_neg hmiss]
    exact h.fails _

theorem Holds.fill (h : t.Holds g l) (dst : BitVec 32) (r : Option β) (len : BitVec 32) :
    Follows g (t.fill dst (r.map g) len) (l.fill dst r len) := by
  refine h.write List.length_replicate fun hfits => ?_
  rw [h.slice_eq hfits, Outcome.ok_bind, List.size_toArray, List.length_map, length_part hfits,
    List.map_replicate]
  rfl

theorem Holds.copyFrom (h : t.Holds g l) (h' : o.Holds g l') (dst src len : BitVec 32) :
    Follows g (t.copyFrom o dst src len) (l.copyFrom l' dst src len) := by
  rw [Table.copyFrom, Slots.copyFrom, Slots.part, h'.size]
  by_cases hsrc : src.toNat + len.toNat ≤ l'.length
  · rw [range_eq_ok hsrc, if_pos hsrc]
    refine h.write (length_part hsrc) fun hfits => ?_
    rw [Outcome.lift_ok, Outcome.ok_bind, h'.slice_eq hsrc, Outcome.ok_bind]
    refine h.onto_eq hfits ?_
    rw [List.size_toArray, List.length_map, length_part hsrc]
  · rw [range_eq_error hsrc, if_neg hsrc]
    exact h.misses dst len fun _ => rfl

theorem Holds.copyWithin (h : t.Holds g l) (dst src len : BitVec 32) :
    Follows g (t.copyWithin dst src len) (l.copyFrom l dst src len) :=
  h.copyFrom h dst src len

theorem Holds.initElements (h : t.Holds g l) (dst : BitVec 32) (rs : Slots β) :
    Follows g (t.initElements dst (rs.map (Option.map g))) (l.initElements dst rs) := by
  rw [Table.initElements, Slots.initElements, List.length_map]
  by_cases hlen : rs.length < UInt32.size
  · have hword : rs.length = (BitVec.ofNat 32 rs.length).toNat := by
      rw [BitVec.toNat_ofNat, Nat.mod_eq_of_lt hlen]
    rw [if_neg (by omega), if_pos hlen]
    refine h.write hword fun hfits => h.onto_eq hfits ?_
    rw [List.size_toArray, List.length_map, ← hword]
  · rw [if_pos (by omega), if_neg hlen]
    exact h.fails _

theorem Holds.grow (h : t.Holds g l) (delta : BitVec 32) (r : Option β) :
    (t.grow delta (r.map g)).1 = .ok (l.grow maxSize delta r).1 ∧
      (t.grow delta (r.map g)).2.Holds g (l.grow maxSize delta r).2 := by
  rw [Slots.grow]
  by_cases hfits : l.length + delta.toNat ≤ maxSize
  · have hslice : slice t.entries.toArray l.length delta.toNat =
        .ok (t.entries.toArray.extract l.length (l.length + delta.toNat)) :=
      if_pos (by rwa [Vector.size_toArray])
    have hsize := size_of_slice hslice
    have hlen : (l ++ List.replicate delta.toNat r).length = l.length + delta.toNat := by
      rw [List.length_append, List.length_replicate]
    have hitems : l.length + (List.replicate delta.toNat (r.map g)).length ≤ maxSize := by
      rwa [List.length_replicate]
    rw [Table.grow, h.size]
    simp only [Nat.add_sub_cancel_left, hslice, Outcome.ok_bind, hsize, if_pos hfits]
    refine ⟨rfl, hlen.symm, (t.toList_entries_patch hitems).trans ?_⟩
    have hwaiting : maxSize - l.length - delta.toNat = maxSize - (l.length + delta.toNat) := by omega
    have hslots : (l.map (Option.map g)).length = l.length := List.length_map _
    simp only [Patch.fill]
    rw [h.entries, List.take_left' hslots, List.length_replicate, ← List.drop_drop,
      List.drop_left' hslots, List.drop_replicate, hlen, List.map_append, List.map_replicate, hwaiting]
  · rw [Table.grow, h.size, if_neg hfits, if_neg hfits]
    exact ⟨rfl, h⟩

theorem Holds.init {m : Type → Type} {ι B C : Type} {g : β → FuncRef m ι C}
    {t : Table (FuncRef m ι C) maxSize} (h : t.Holds g l) (base : B)
    {elems : List (ElemExpr m ι B C)} {rs : Slots β}
    (helems : elems.map (·.resolve base) = rs.map (Option.map g)) (dst src len : BitVec 32) :
    Follows g (t.init base elems dst src len) (l.copyFrom rs dst src len) := by
  have hlen : elems.length = rs.length := by
    rw [← List.length_map, helems, List.length_map]
  rw [Table.init, Slots.copyFrom, Slots.part, hlen]
  by_cases hsrc : src.toNat + len.toNat ≤ rs.length
  · have hslice : src.toNat + len.toNat ≤ elems.toArray.size := by
      rwa [List.size_toArray, hlen]
    rw [range_eq_ok hsrc, if_pos hsrc, Outcome.lift_ok, Outcome.ok_bind]
    refine h.write (length_part hsrc) fun hfits => ?_
    rw [h.slice_eq hfits, Outcome.ok_bind, slice_eq_ok hslice, Outcome.ok_bind]
    have hcount : ((elems.drop src.toNat).take len.toNat).length ≤
        (((l.drop dst.toNat).take len.toNat).map (Option.map g)).length := by
      refine Nat.le_of_eq ?_
      rw [List.length_map, length_part hfits, length_part (by rwa [hlen])]
    rw [zipWith_right hcount, List.map_take, List.map_drop, helems, List.map_take, List.map_drop]
    rfl
  · rw [range_eq_error hsrc, if_neg hsrc]
    exact h.fails _

end Table

end WasmSandbox
