import WasmSandbox.Proofs.Memory.Locate

/-!
# Two writes as one

A reversed memory that grows moves its bytes and then clears the room below them, and one that is
initialised turns the new bytes around where they lie. Each leaves what a single patch leaves.

* `Patch.write_adjacent`, `Patch.write_same`: two patches written one after the other.
* `Memory.growthImage`, `Memory.initImage`: the single patches.
* **`Memory.growth_eq`**, **`Memory.init_eq`**: what growing and initialising leave.
-/

namespace WasmSandbox

/-! ## Patches -/

namespace Patch

variable {α : Type} (start : Nat) (as bs : List α) (storage : Array α)

/-- Writing the items after a range first, and then the items of the range. -/
theorem write_adjacent :
    (⟨start, as⟩ : Patch α).write ((⟨start + as.length, bs⟩ : Patch α).write storage) =
      (⟨start, as ++ bs⟩ : Patch α).write storage := by
  apply Array.ext_getElem?
  intro i
  simp only [getElem?_write, size_write, List.length_append]
  by_cases has : start ≤ i ∧ i < start + as.length ∧ i < storage.size
  · rw [if_pos has, if_pos (by omega), List.getElem?_append_left (by omega)]
  · rw [if_neg has]
    by_cases hbs : start + as.length ≤ i ∧ i < start + as.length + bs.length ∧ i < storage.size
    · rw [if_pos hbs, if_pos (by omega), List.getElem?_append_right (by omega), Nat.sub_sub]
    · rw [if_neg hbs, if_neg (by omega)]

variable {as bs} in
theorem write_same (h : as.length = bs.length) :
    (⟨start, bs⟩ : Patch α).write ((⟨start, as⟩ : Patch α).write storage) =
      (⟨start, bs⟩ : Patch α).write storage := by
  apply Array.ext_getElem?
  intro i
  simp only [getElem?_write, size_write]
  rw [h]
  split_ifs <;> rfl

variable {start as storage} in
theorem toList_extract_write (h : start + as.length ≤ storage.size) :
    (((⟨start, as⟩ : Patch α).write storage).extract start (start + as.length)).toList = as := by
  apply List.ext_getElem?
  intro i
  rw [Array.getElem?_toList, Array.getElem?_extract, getElem?_write, size_write]
  dsimp only
  by_cases hi : i < as.length
  · rw [if_pos (by omega), if_pos (by omega), Nat.add_sub_cancel_left]
  · rw [if_neg (by omega), List.getElem?_eq_none (Nat.not_lt.mp hi)]

end Patch

theorem sliceStart_add_le {start len : Address} {size k : Nat} (h : sliceStart start len size = .ok k) :
    k + len.toNat ≤ size := by
  unfold sliceStart at h
  split_ifs at h with hle
  obtain rfl := Except.ok.inj h
  exact hle

theorem addressable_eq_ok {n k : Nat} (h : addressable n = .ok k) : k = n ∧ n < UInt64.size := by
  unfold addressable at h
  split_ifs at h with hn
  exact ⟨(Except.ok.inj h).symm, hn⟩

namespace Memory

variable {maxPages : Nat} {config : Config} (m : Memory maxPages config)

theorem sliceSize_le_storage : m.sliceSize ≤ m.storage.size := by
  unfold sliceSize
  split_ifs with h
  · exact h
  · exact Nat.zero_le _

theorem patch_patch {p q r : Patch Byte} (h : q.write (p.write m.storage) = r.write m.storage) :
    (m.patch (.ok p)).2.patch (.ok q) = m.patch (.ok r) := by
  change (Except.ok (), (⟨q.write (p.write m.storage), m.pages⟩ : Memory maxPages config)) = _
  rw [h]
  rfl

/-! ## Growing -/

/-- Zeros for the new bytes, and in a reversed memory the old bytes above them. -/
def growthImage (pages' : Nat) : Outcome (Patch Byte) := do
  let old ← addressable (pageSize * m.pages)
  let new ← addressable (pageSize * pages')
  if m.storage.size < new then throw (.breach .sliceRange)
  let zeros := List.replicate (new - old) 0
  match config.layout with
  | .little => return ⟨old, zeros⟩
  | .reversed => return ⟨0, zeros ++ (m.storage.extract 0 old).toList⟩

variable {m} in
theorem zeroSlice_of_fits {start stop : Nat} (hle : start ≤ stop) (h : stop ≤ m.storage.size) :
    zeroSlice start stop m = m.patch (.ok (Patch.fill start (stop - start) 0)) :=
  congrArg m.patch (if_pos ⟨hle, h⟩)

variable {m} in
theorem zeroSlice_of_not_fits {start stop : Nat} (h : ¬ stop ≤ m.storage.size) :
    zeroSlice start stop m = (.error (.breach .sliceRange), m) :=
  congrArg m.patch (if_neg fun hfits => h hfits.2)

variable {m} in
theorem moveUp_of_fits {n distance : Nat} (h : distance + n ≤ m.storage.size) :
    moveUp n distance m = m.patch (.ok ⟨distance, (m.storage.extract 0 n).toList⟩) :=
  congrArg m.patch (if_pos h)

variable {m} in
theorem moveUp_of_not_fits {n distance : Nat} (h : ¬ distance + n ≤ m.storage.size) :
    moveUp n distance m = (.error (.breach .sliceRange), m) :=
  congrArg m.patch (if_neg h)

theorem patch_moved {old new : Nat} (hle : old ≤ new) (h : new ≤ m.storage.size) :
    (do moveUp old (new - old); zeroSlice 0 (new - old) : Effect (Memory maxPages config) Unit) m =
      m.patch (.ok ⟨0, List.replicate (new - old) 0 ++ (m.storage.extract 0 old).toList⟩) := by
  have hmoved := Patch.write_adjacent 0 (List.replicate (new - old) 0) (m.storage.extract 0 old).toList
    m.storage
  rw [List.length_replicate, Nat.zero_add] at hmoved
  refine (Outcome.bind_of_ok (moveUp_of_fits (by omega))).trans ?_
  refine (zeroSlice_of_fits (Nat.zero_le _) ?_).trans (m.patch_patch hmoved)
  rw [Patch.size_write]
  omega

/-- **What growing leaves.** -/
theorem growth_eq {pages' : Nat} (hle : m.pages ≤ pages') : growth pages' m = m.patch (m.growthImage pages') := by
  have hbytes : pageSize * m.pages ≤ pageSize * pages' := Nat.mul_le_mul_left _ hle
  rw [growthImage]
  cases hold : addressable (pageSize * m.pages) with
  | error e =>
    refine (Outcome.bind_of_ok rfl).trans (Outcome.bind_of_error ?_)
    rw [Effect.lift_apply, hold]
  | ok old =>
    refine (Outcome.bind_of_ok rfl).trans ?_
    rw [hold]
    refine (Outcome.lift_ok_bind _).trans ?_
    cases hnew : addressable (pageSize * pages') with
    | error e => rfl
    | ok new =>
      obtain ⟨rfl, -⟩ := addressable_eq_ok hold
      obtain ⟨rfl, -⟩ := addressable_eq_ok hnew
      refine (Outcome.lift_ok_bind _).trans ?_
      rw [Outcome.ok_bind, Outcome.ok_bind]
      by_cases hfits : pageSize * pages' ≤ m.storage.size
      · rw [if_neg (Nat.not_lt.mpr hfits)]
        cases config.layout with
        | little => exact zeroSlice_of_fits hbytes hfits
        | reversed => exact patch_moved m hbytes hfits
      · rw [if_pos (Nat.not_le.mp hfits)]
        cases config.layout with
        | little => exact zeroSlice_of_not_fits hfits
        | reversed =>
          have hmove : ¬ pageSize * pages' - pageSize * m.pages + pageSize * m.pages ≤ m.storage.size := by
            rwa [Nat.sub_add_cancel hbytes]
          exact Outcome.bind_of_error (moveUp_of_not_fits hmove)

/-! ## Initialising -/

/-- The part of the segment, as its bytes lie in the storage. -/
def initImage (data : List Byte) (dst src len : I32) : Outcome (Patch Byte) := do
  let (start, part) ← m.initTarget data dst src len
  if part.length ≠ len.toNat then throw (.breach .sliceLength)
  return ⟨start, config.layout.orient part⟩

theorem storage_fits_of_initTarget {data part : List Byte} {dst src len : I32} {start : Nat}
    (h : m.initTarget data dst src len = .ok (start, part)) : start + len.toNat ≤ m.storage.size := by
  obtain ⟨active, -, h⟩ := Outcome.bind_eq_ok h
  obtain ⟨-, -, h⟩ := Outcome.bind_eq_ok h
  obtain ⟨-, -, h⟩ := Outcome.bind_eq_ok h
  obtain ⟨first, -, h⟩ := Outcome.bind_eq_ok h
  obtain ⟨k, hstart, h⟩ := Outcome.bind_eq_ok h
  cases h
  have hle := sliceStart_add_le hstart
  rw [I32.toNat_address] at hle
  exact Nat.le_trans hle m.sliceSize_le_storage

theorem placePart_of_fits {start : Nat} {part : List Byte} (h : start + part.length ≤ m.storage.size) :
    placePart start part.length part m = m.patch (.ok ⟨start, config.layout.orient part⟩) := by
  have hcopied : write (fun _ => if part.length = part.length then .ok ⟨start, part⟩ else
      .error (.breach .sliceLength)) m = m.patch (.ok ⟨start, part⟩) := congrArg m.patch (if_pos rfl)
  refine (Outcome.bind_of_ok hcopied).trans ?_
  cases config.layout with
  | little => rfl
  | reversed =>
    have hturned : (((⟨start, part⟩ : Patch Byte).write m.storage).extract start
        (start + part.length)).toList.reverse = part.reverse := by
      rw [Patch.toList_extract_write h]
    have hlast := Patch.write_same start m.storage part.length_reverse.symm
    rw [← hturned] at hlast
    exact (m.patch_patch hlast).trans (by rw [hturned]; rfl)

/-- **What initialising leaves.** -/
theorem init_eq (data : List Byte) (dst src len : I32) :
    m.init data dst src len = m.patch (m.initImage data dst src len) := by
  rw [init, initImage]
  cases htarget : m.initTarget data dst src len with
  | error e => rfl
  | ok target =>
    obtain ⟨start, part⟩ := target
    rw [Outcome.ok_bind]
    by_cases hlen : part.length = len.toNat
    · have hfits := m.storage_fits_of_initTarget htarget
      rw [← hlen] at hfits ⊢
      exact (m.placePart_of_fits hfits).trans (congrArg m.patch (if_neg (not_not_intro rfl)).symm)
    · have hbreach : write (fun _ => if part.length = len.toNat then .ok ⟨start, part⟩ else
          .error (.breach .sliceLength)) m = (.error (.breach .sliceLength), m) :=
        congrArg m.patch (if_neg hlen)
      refine (Outcome.bind_of_error hbreach).trans ?_
      dsimp only
      rw [if_pos hlen]
      rfl

end Memory

end WasmSandbox
