import Mathlib
import ScriptCore.Value

set_option relaxedAutoImplicit false
set_option autoImplicit false

/-!
# Values and the objects they refer to

The word of a value has two halves. The upper one tells what kind of value it is, and for a value
that refers to an object, the lower one is the index of the object. So a value is determined by its
upper half and its object, and values made for objects are the same exactly if the objects are, as
long as their indices fit into a half.

## Main definitions

* `ScriptCore.Value.kind` — the upper half of a value.
* `ScriptCore.Object.index`, `ScriptCore.Object.value` — the index of an object, and its value.

## Main results

* `ScriptCore.Value.ext_object` — a value is determined by its upper half and its object.
* `ScriptCore.Object.object?_value` — the object of the value made for an object.
-/

namespace ScriptCore

namespace Value

/-- The upper half of the word. -/
def kind (v : Value) : Nat := v.bits.toNat / payloadLimit

/-- A value is determined by its two halves. -/
lemma ext_halves {v w : Value} (hkind : v.kind = w.kind) (hpayload : v.payload = w.payload) :
    v = w := by
  obtain ⟨v⟩ := v
  obtain ⟨w⟩ := w
  congr
  refine UInt64.toNat_inj.1 ?_
  simp only [kind, payload, payloadLimit] at hkind hpayload
  omega

/-- Whether a value is a number shows in its upper half. -/
lemma isNumber_eq (v : Value) : v.isNumber = decide (v.kind < boxBase / payloadLimit) := by
  refine decide_eq_decide.2 ?_
  simp only [kind, boxBase, payloadLimit]
  omega

/-- The tag of a value shows in its upper half. -/
lemma tag_congr {v w : Value} (hkind : v.kind = w.kind) : v.tag = w.tag := by
  have hbits : v.bits.toNat / payloadLimit = w.bits.toNat / payloadLimit := hkind
  rw [tag, tag, isNumber_eq, isNumber_eq, hkind, hbits]

lemma payload_lt (v : Value) : v.payload < payloadLimit := Nat.mod_lt _ (by decide)

/-- A number is one, also if it is a NaN. -/
lemma isNumber_number (x : Binary64) : (number x).isNumber = true := by
  cases hx : x.isNaN with
  | true =>
    rw [number, if_pos hx]
    decide
  | false =>
    have hsome := number?_number hx
    rw [number?] at hsome
    split at hsome
    · assumption
    · cases hsome

/-- A value with a tag is no number. -/
lemma number?_eq_none {v : Value} (h : v.tag ≠ 0) : v.number? = none := by
  rw [number?, if_neg]
  intro hnumber
  exact h (by rw [tag, if_pos hnumber])

/-- A string is no number, -/
lemma number?_string (i : Nat) : (string i).number? = none :=
  number?_eq_none (by rw [string, tag_box (by decide)]; decide)

/-- and it is its own key. -/
lemma normalizeKey_string (i : Nat) : (string i).normalizeKey = .string i := by
  rw [normalizeKey, number?_string]

end Value

namespace Object

/-- The index of an object in its arena. -/
def index : Object → Nat
  | string i | table i | userdata i | env i => i

/-- The value that refers to an object. -/
def value : Object → Value
  | string i => .string i
  | table i => .table i
  | userdata i => .userdata i
  | env i => .env i

end Object

namespace Value

/-- The payload of a value with an object is the index of the object. -/
lemma index_of_object? {v : Value} {o : Object} (h : v.object? = some o) :
    o.index = v.payload := by
  unfold object? at h
  split_ifs at h <;> cases h <;> rfl

/-- The object of a value fits into its lower half. -/
lemma index_lt_of_object? {v : Value} {o : Object} (h : v.object? = some o) :
    o.index < payloadLimit := by
  rw [index_of_object? h]
  exact v.payload_lt

/-- **A value with an object** is determined by its upper half and the object. -/
theorem ext_object {v w : Value} {o : Object} (hkind : v.kind = w.kind)
    (hv : v.object? = some o) (hw : w.object? = some o) : v = w :=
  ext_halves hkind (by rw [← index_of_object? hv, ← index_of_object? hw])

lemma object?_box {tag payload : Nat} (htag : tag < 0x10000) :
    (box tag payload).object? =
      if tag = stringTag then some (.string (payload % payloadLimit))
      else if tag = tableTag then some (.table (payload % payloadLimit))
      else if tag = userdataTag then some (.userdata (payload % payloadLimit))
      else if tag = envTag then some (.env (payload % payloadLimit))
      else none := by
  rw [object?, tag_box htag, payload_box htag]

variable {i : Nat}

lemma object?_string (h : i < payloadLimit) : (string i).object? = some (.string i) := by
  rw [string, object?_box (by decide), if_pos rfl, Nat.mod_eq_of_lt h]

lemma object?_table (h : i < payloadLimit) : (table i).object? = some (.table i) := by
  rw [table, object?_box (by decide), if_neg (by decide), if_pos rfl, Nat.mod_eq_of_lt h]

lemma object?_userdata (h : i < payloadLimit) : (userdata i).object? = some (.userdata i) := by
  rw [userdata, object?_box (by decide), if_neg (by decide), if_neg (by decide), if_pos rfl,
    Nat.mod_eq_of_lt h]

lemma object?_env (h : i < payloadLimit) : (env i).object? = some (.env i) := by
  rw [env, object?_box (by decide), if_neg (by decide), if_neg (by decide), if_neg (by decide),
    if_pos rfl, Nat.mod_eq_of_lt h]

lemma string?_string (h : i < payloadLimit) : (string i).string? = some i := by
  rw [string?, isString, string, tag_box (by decide), payload_box (by decide), Nat.mod_eq_of_lt h]
  rfl

lemma env?_env (h : i < payloadLimit) : (env i).env? = some i := by
  rw [env?, isEnv, env, tag_box (by decide), payload_box (by decide), Nat.mod_eq_of_lt h]
  rfl

end Value

/-- **The object of the value made for an object** is that object, if its index fits. -/
theorem Object.object?_value {o : Object} (h : o.index < Value.payloadLimit) :
    o.value.object? = some o := by
  cases o with
  | string i => exact Value.object?_string h
  | table i => exact Value.object?_table h
  | userdata i => exact Value.object?_userdata h
  | env i => exact Value.object?_env h

/-- Values made for objects are the same exactly if the objects are. -/
lemma Object.value_inj {o o' : Object} (h : o.index < Value.payloadLimit)
    (h' : o'.index < Value.payloadLimit) : o.value = o'.value ↔ o = o' := by
  refine ⟨fun heq => ?_, congrArg _⟩
  have hobject := object?_value h
  rw [heq, object?_value h', Option.some.injEq] at hobject
  exact hobject.symm

end ScriptCore
