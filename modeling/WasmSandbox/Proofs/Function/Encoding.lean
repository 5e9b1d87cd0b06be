import Mathlib.Tactic.Common
import WasmSandbox.Function.Signature

/-!
# Encodings determine their types

* `ValueType.ofCode`, `ValueType.ofCodes`: the value types that codes stand for.
* `FuncType.decode`: the parameters and results that 32 bytes describe: two counts, as many codes, and
  zeros.
* **`FuncType.decode_eq_some_iff`**: reading accepts exactly what encoding produces.
* `FuncType.pack_inj`: so two encodings are equal exactly if their parameters and results are.
* **`Signature.funcType_injective`**: a signature is known by its function type.
* **`FuncType.encode_faithful`**: types that fit are encoded in the stated layout and can be recovered,
  and types that do not fit are refused.
-/

namespace WasmSandbox

/-! ## Codes -/

namespace ValueType

/-- The value type with a code. -/
def ofCode : Byte → Option ValueType
  | 0x7f => some (.num .i32)
  | 0x7e => some (.num .i64)
  | 0x7d => some (.num .f32)
  | 0x7c => some (.num .f64)
  | 0x70 => some .funcref
  | 0x6f => some .externref
  | _ => none

theorem ofCode_eq_some_iff {c : Byte} {t : ValueType} : ofCode c = some t ↔ t.code = c := by
  constructor
  · intro h
    unfold ofCode at h
    split at h <;> cases h <;> rfl
  · rintro rfl
    rcases t with (_ | _ | _ | _) | _ | _ <;> rfl

/-- The value types with the given codes, if all of them are codes. -/
def ofCodes : List Byte → Option (List ValueType)
  | [] => some []
  | c :: cs => do return (← ofCode c) :: (← ofCodes cs)

theorem ofCodes_eq_some_iff {cs : List Byte} {ts : List ValueType} :
    ofCodes cs = some ts ↔ ts.map code = cs := by
  induction cs generalizing ts with
  | nil => cases ts <;> simp [ofCodes]
  | cons c cs ih =>
    cases ts with
    | nil => simp [ofCodes, Option.bind_eq_some_iff]
    | cons t ts => simp [ofCodes, Option.bind_eq_some_iff, ih, ofCode_eq_some_iff]

end ValueType

/-! ## Reading an encoding -/

namespace FuncType

/-- The bytes after the two counts. -/
def body (t : FuncType) : List Byte := t.bytes.toList.drop 2

/-- The parameters and results that the bytes describe. -/
def decode (t : FuncType) : Option (List ValueType × List ValueType) :=
  let arity := t.paramCount + t.resultCount
  if arity ≤ maxArity ∧ t.body.drop arity = List.replicate (maxArity - arity) 0 then do
    let params ← ValueType.ofCodes (t.body.take t.paramCount)
    let results ← ValueType.ofCodes ((t.body.drop t.paramCount).take t.resultCount)
    return (params, results)
  else none

variable {params results : List ValueType} {t : FuncType}

/-- The loop over the types has written the codes of those that it has come to. -/
theorem toList_fold_set {types : List ValueType} {start n : Nat} (h : start + types.length ≤ 32)
    (hn : n ≤ types.length) (bytes : Vector Byte 32) :
    (n.fold (fun i _ bytes => bytes.set (start + i) types[i].code) bytes).toList =
      bytes.toList.take start ++ (types.take n).map ValueType.code ++ bytes.toList.drop (start + n) := by
  induction n with
  | zero => simp
  | succ n ih =>
    have hlen : (bytes.toList.take start ++ (types.take n).map ValueType.code).length = start + n := by
      rw [List.length_append, List.length_take, List.length_map, List.length_take,
        Vector.length_toList]
      omega
    have hdrop : bytes.toList.drop (start + n) =
        bytes[start + n] :: bytes.toList.drop (start + (n + 1)) :=
      List.drop_eq_getElem_cons (by rw [Vector.length_toList]; omega)
    have htake : types.take (n + 1) = types.take n ++ [types[n]] :=
      List.take_succ_eq_append_getElem hn
    rw [Nat.fold_succ, Vector.toList_set, ih (by omega), List.set_append_right _ _ (by omega), hlen,
      Nat.sub_self, hdrop, List.set_cons_zero, htake, List.map_append]
    simp only [List.map_cons, List.map_nil, List.append_assoc, List.cons_append, List.nil_append]

theorem toList_writeCodes {types : List ValueType} {start : Nat} (h : start + types.length ≤ 32)
    (bytes : Vector Byte 32) :
    (writeCodes types start h bytes).toList =
      bytes.toList.take start ++ types.map ValueType.code ++ bytes.toList.drop (start + types.length) := by
  have hfold := toList_fold_set h (Nat.le_refl _) bytes
  rwa [List.take_length] at hfold

/-- The bytes before the padding. -/
def header (params results : List ValueType) : List Byte :=
  BitVec.ofNat 8 params.length :: BitVec.ofNat 8 results.length ::
    (params.map ValueType.code ++ results.map ValueType.code)

/-- **The loops write the canonical layout.** -/
theorem toList_pack (h : params.length + results.length ≤ maxArity) :
    (pack params results h).bytes.toList = header params results ++
      List.replicate (maxArity - (params.length + results.length)) 0 := by
  let counts : List Byte := [BitVec.ofNat 8 params.length, BitVec.ofNat 8 results.length]
  have hlen : counts.length = 2 := rfl
  have hbound : maxArity = 30 := rfl
  have hparams : (writeCodes params 2 (by omega)
      (((Vector.replicate 32 0).set 0 (BitVec.ofNat 8 params.length)).set 1
        (BitVec.ofNat 8 results.length))).toList =
      counts ++ params.map ValueType.code ++ List.replicate (maxArity - params.length) 0 := by
    have hcounts : (((Vector.replicate 32 (0 : Byte)).set 0 (BitVec.ofNat 8 params.length)).set 1
        (BitVec.ofNat 8 results.length)).toList = counts ++ List.replicate maxArity 0 := rfl
    rw [toList_writeCodes, hcounts, ← List.drop_drop, List.take_left' hlen, List.drop_left' hlen,
      List.drop_replicate]
  have hwritten : (counts ++ params.map ValueType.code).length = 2 + params.length := by
    rw [List.length_append, List.length_map, hlen]
  rw [pack, toList_writeCodes, hparams, ← List.drop_drop, List.take_left' hwritten,
    List.drop_left' hwritten, List.drop_replicate, Nat.sub_sub, List.append_assoc counts]
  rfl

theorem toList_eq (t : FuncType) : t.bytes.toList =
    BitVec.ofNat 8 t.paramCount :: BitVec.ofNat 8 t.resultCount :: t.body := by
  rw [paramCount, resultCount, BitVec.ofNat_toNat, BitVec.ofNat_toNat, BitVec.setWidth_eq,
    BitVec.setWidth_eq]
  obtain ⟨⟨⟨_ | ⟨_, _ | ⟨_, _⟩⟩⟩, h⟩⟩ := t
  · cases h
  · cases h
  · rfl

theorem length_body (t : FuncType) : t.body.length = maxArity := by
  rw [body, List.length_drop, Vector.length_toList]
  rfl

/-- The bytes are two counts, as many codes, and zeros. -/
def Describes (t : FuncType) (params results : List ValueType) : Prop :=
  params.length + results.length ≤ maxArity ∧
    t.bytes.toList = header params results ++
      List.replicate (maxArity - (params.length + results.length)) 0

theorem encode_eq_ok_iff : encode params results = .ok t ↔ t.Describes params results := by
  unfold encode Describes
  split_ifs with h
  · rw [← toList_pack h, Except.ok.injEq, FuncType.ext_iff, ← Vector.toList_inj, eq_comm]
    exact ⟨fun heq => ⟨h, heq⟩, fun heq => heq.2⟩
  · exact ⟨nofun, fun heq => absurd heq.1 h⟩

theorem count_inj {m n : Nat} (hm : m < 256) (hn : n ≤ maxArity)
    (h : BitVec.ofNat 8 m = BitVec.ofNat 8 n) : m = n := by
  have hlt : n < 256 := Nat.lt_of_le_of_lt hn (by decide)
  have htoNat := congrArg BitVec.toNat h
  rwa [BitVec.toNat_ofNat, BitVec.toNat_ofNat, Nat.mod_eq_of_lt hm, Nat.mod_eq_of_lt hlt] at htoNat

theorem Describes.paramCount_eq (h : t.Describes params results) : t.paramCount = params.length := by
  obtain ⟨hfits, hbytes⟩ := h
  rw [toList_eq] at hbytes
  exact count_inj (BitVec.isLt _) (by omega) (List.cons.inj hbytes).1

theorem Describes.resultCount_eq (h : t.Describes params results) :
    t.resultCount = results.length := by
  obtain ⟨hfits, hbytes⟩ := h
  rw [toList_eq] at hbytes
  exact count_inj (BitVec.isLt _) (by omega) (List.cons.inj (List.cons.inj hbytes).2).1

theorem Describes.body_eq (h : t.Describes params results) :
    t.body = params.map ValueType.code ++ results.map ValueType.code ++
      List.replicate (maxArity - (params.length + results.length)) 0 := by
  have hbytes := h.2
  rw [toList_eq] at hbytes
  exact (List.cons.inj (List.cons.inj hbytes).2).2

theorem decode_of_describes (h : t.Describes params results) :
    t.decode = some (params, results) := by
  have hparams : t.body.take params.length = params.map ValueType.code := by
    rw [h.body_eq, List.append_assoc, List.take_left' (List.length_map _)]
  have hrest : t.body.drop params.length = results.map ValueType.code ++
      List.replicate (maxArity - (params.length + results.length)) 0 := by
    rw [h.body_eq, List.append_assoc, List.drop_left' (List.length_map _)]
  have hpadding : t.body.drop (params.length + results.length) =
      List.replicate (maxArity - (params.length + results.length)) 0 := by
    rw [← List.drop_drop, hrest, List.drop_left' (List.length_map _)]
  rw [decode, h.paramCount_eq, h.resultCount_eq, hparams, hrest,
    List.take_left' (List.length_map _), if_pos ⟨h.1, hpadding⟩,
    ValueType.ofCodes_eq_some_iff.mpr rfl, ValueType.ofCodes_eq_some_iff.mpr rfl]
  rfl

theorem describes_of_decode (h : t.decode = some (params, results)) :
    t.Describes params results := by
  unfold decode at h
  dsimp only at h
  split_ifs at h with hfits
  obtain ⟨hle, hpadding⟩ := hfits
  obtain ⟨ps, hps, h⟩ := Option.bind_eq_some_iff.mp h
  obtain ⟨rs, hrs, h⟩ := Option.bind_eq_some_iff.mp h
  obtain ⟨rfl, rfl⟩ := Prod.mk.inj (Option.some.inj h)
  have hps := ValueType.ofCodes_eq_some_iff.mp hps
  have hrs := ValueType.ofCodes_eq_some_iff.mp hrs
  have hlen := t.length_body
  have hplen : ps.length = t.paramCount := by
    rw [← List.length_map ValueType.code, hps, List.length_take]
    omega
  have hrlen : rs.length = t.resultCount := by
    rw [← List.length_map ValueType.code, hrs, List.length_take, List.length_drop]
    omega
  refine ⟨by omega, ?_⟩
  rw [toList_eq, header, hplen, hrlen, hps, hrs, ← hpadding, ← List.drop_drop, List.cons_append,
    List.cons_append, List.append_assoc, List.take_append_drop, List.take_append_drop]

/-- **Reading accepts exactly what encoding produces.** -/
theorem decode_eq_some_iff :
    t.decode = some (params, results) ↔ encode params results = .ok t :=
  ⟨fun h => encode_eq_ok_iff.mpr (describes_of_decode h),
    fun h => decode_of_describes (encode_eq_ok_iff.mp h)⟩

/-- Two counts, three codes, and then zeros. -/
example : FuncType.decode (pack [.num .i32, .funcref] [.externref] (by decide)) =
    some ([.num .i32, .funcref], [.externref]) := by decide

/-- **Two encodings are equal exactly if their parameters and results are.** -/
theorem pack_inj {params' results' : List ValueType} (h : params.length + results.length ≤ maxArity)
    (h' : params'.length + results'.length ≤ maxArity) :
    pack params results h = pack params' results' h' ↔ params = params' ∧ results = results' := by
  refine ⟨fun heq => ?_, fun ⟨hp, hr⟩ => by subst hp hr; rfl⟩
  have hread := decode_of_describes (encode_eq_ok_iff.mp (dif_pos h))
  rw [heq, decode_of_describes (encode_eq_ok_iff.mp (dif_pos h'))] at hread
  obtain ⟨hp, hr⟩ := Prod.mk.inj (Option.some.inj hread)
  exact ⟨hp.symm, hr.symm⟩

end FuncType

/-- **A signature is known by its function type.** -/
theorem Signature.funcType_injective : Function.Injective Signature.funcType := by
  intro σ τ h
  obtain ⟨hp, hr⟩ := (FuncType.pack_inj _ _).mp h
  obtain ⟨ps, rs, _⟩ := σ
  obtain ⟨ps', rs', _⟩ := τ
  cases (List.map_inj_right @ValueType.num.inj).mp hp
  cases (List.map_inj_right @ValueType.num.inj).mp hr
  rfl

/-- **A function type is a faithful code** of the types that fit: it is read back as them and as nothing
else. Types that do not fit are refused. -/
theorem FuncType.encode_faithful (params results : List ValueType) :
    ((∃ t, encode params results = .ok t) ↔ params.length + results.length ≤ 30) ∧
    (30 < params.length + results.length → ∃ e, encode params results = .error e ∧
      e.message = "function type has too many params and results") ∧
    (∀ t, encode params results = .ok t →
      t.paramCount = params.length ∧ t.resultCount = results.length ∧
      t.bytes.toList = [BitVec.ofNat 8 params.length, BitVec.ofNat 8 results.length] ++
        params.map ValueType.code ++ results.map ValueType.code ++
        List.replicate (30 - (params.length + results.length)) 0 ∧
      (∀ params' results',
        t.decode = some (params', results') ↔ params' = params ∧ results' = results) ∧
      ∀ params' results' t', encode params' results' = .ok t' →
        (t = t' ↔ params = params' ∧ results = results')) ∧
    ∀ σ τ : Signature,
      encode (σ.params.map .num) (σ.results.map .num) = .ok σ.funcType ∧
      (σ.funcType = τ.funcType ↔ σ.params = τ.params ∧ σ.results = τ.results) := by
  refine ⟨⟨?_, fun h => ⟨pack params results h, dif_pos h⟩⟩, ?_, ?_, ?_⟩
  · rintro ⟨t, ht⟩
    exact (encode_eq_ok_iff.mp ht).1
  · intro h
    exact ⟨_, dif_neg (Nat.not_le.mpr h), rfl⟩
  · intro t ht
    have hdescribes := encode_eq_ok_iff.mp ht
    have hread := decode_eq_some_iff.mpr ht
    refine ⟨hdescribes.paramCount_eq, hdescribes.resultCount_eq, ?_, ?_, ?_⟩
    · simpa [header, maxArity] using hdescribes.2
    · intro params' results'
      rw [hread, Option.some_inj, Prod.mk.injEq, eq_comm, eq_comm (a := results)]
    · intro params' results' t' ht'
      constructor
      · rintro rfl
        rw [decode_eq_some_iff.mpr ht', Option.some_inj, Prod.mk.injEq] at hread
        exact ⟨hread.1.symm, hread.2.symm⟩
      · rintro ⟨rfl, rfl⟩
        exact Except.ok.inj (ht.symm.trans ht')
  · intro σ τ
    refine ⟨dif_pos _, fun h => ?_, fun ⟨hp, hr⟩ => ?_⟩
    · rw [Signature.funcType_injective h]
      exact ⟨rfl, rfl⟩
    · simp only [Signature.funcType, hp, hr]

end WasmSandbox
