import Mathlib
import ScriptCore.Proofs.Handles

set_option relaxedAutoImplicit false
set_option autoImplicit false

/-!
# Values as words

A value is one word, whatever it is made of: a number, nil, a truth value, or a handle of one of six kinds. The words of
numbers and those with a tag do not overlap, since a NaN has one word however its pattern looks. So it shows in the word
what the value was made of, and values made of different things have different words.

## Main definitions

* `ScriptCore.Value.Contents`, `ScriptCore.Value.Contents.value` — what a value is made of, and the value.
* `ScriptCore.Value.Form`, `ScriptCore.Value.Form.test` — the forms of values, and how they are told apart.
* `ScriptCore.Value.Contents.Same` — contents that are not told apart.

## Main results

* `ScriptCore.Value.isNumber_iff_mask`, `ScriptCore.Value.tag_eq_mask`, `ScriptCore.Value.payload_eq_mask`,
  `ScriptCore.Value.bits_box` — the parts of a word are cut out by masks, and put together.
* `ScriptCore.Value.test_value`, `ScriptCore.Value.value_eq_iff` — the form of a value, and values with the same word.
* `ScriptCore.Value.boxing_faithful` — values tell what they were made of.
-/

namespace ScriptCore.Value

/-! ## Masks -/

section Masks

/-- The bits that all boxed words have. -/
def boxMask : UInt64 := 0xfffc000000000000

lemma boxBase_eq : boxBase = 2 ^ 50 * 0x3fff := rfl

lemma toNat_boxMask : boxMask.toNat = boxBase := rfl

/-- The numbers of 64 bits that have all bits of the mask are the ones from the first boxed word on. -/
lemma and_boxBase_eq_iff {n : ℕ} (hn : n < 2 ^ 64) : n &&& boxBase = boxBase ↔ boxBase ≤ n := by
  constructor
  · intro h
    rw [← h]
    exact Nat.and_le_left
  · intro h
    obtain ⟨r, rfl⟩ := Nat.exists_eq_add_of_le h
    have hr : r < 2 ^ 50 := by
      simp only [boxBase] at hn
      omega
    rw [boxBase_eq, Nat.two_pow_add_eq_or_of_lt hr]
    apply Nat.eq_of_testBit_eq
    intro i
    rw [Nat.testBit_and, Nat.testBit_or]
    cases (2 ^ 50 * 0x3fff).testBit i <;> simp

/-- **A word is a number** unless it has all bits of the mask. -/
theorem isNumber_iff_mask (v : Value) : v.isNumber = true ↔ v.bits &&& boxMask ≠ boxMask := by
  rw [Ne, ← UInt64.toNat_inj, UInt64.toNat_and, toNat_boxMask, and_boxBase_eq_iff v.bits.toNat_lt, isNumber,
    decide_eq_true_eq, not_le]

/-- The tag is the lower half of the upper half. -/
theorem tag_eq_mask (v : Value) (h : v.isNumber = false) : v.tag = (v.bits >>> 32 &&& 0xffff).toNat := by
  have hmask : (0xffff : UInt64).toNat = 2 ^ 16 - 1 := rfl
  have hshift : (32 : UInt64).toNat % 64 = 32 := rfl
  rw [tag, h, if_neg Bool.false_ne_true, UInt64.toNat_and, UInt64.toNat_shiftRight, hshift, hmask,
    Nat.and_two_pow_sub_one_eq_mod, Nat.shiftRight_eq_div_pow]
  rfl

/-- The payload is the lower half. -/
theorem payload_eq_mask (v : Value) : v.payload = (v.bits &&& 0xffffffff).toNat := by
  have hmask : (0xffffffff : UInt64).toNat = 2 ^ 32 - 1 := rfl
  rw [payload, UInt64.toNat_and, hmask, Nat.and_two_pow_sub_one_eq_mod]
  rfl

/-- **A boxed word is put together** from the mask, the tag and the payload. -/
theorem bits_box {tag : ℕ} (htag : tag < 0x10000) (payload : UInt32) :
    (box tag payload.toNat).bits = boxMask ||| UInt64.ofNat tag <<< 32 ||| payload.toUInt64 := by
  have hpayload : payload.toNat < 2 ^ 32 := payload.toNat_lt
  have htag' : (UInt64.ofNat tag <<< 32).toNat = tag * 2 ^ 32 := by
    have hshift : (32 : UInt64).toNat % 64 = 32 := rfl
    rw [UInt64.toNat_shiftLeft, hshift, UInt64.toNat_ofNat', Nat.shiftLeft_eq]
    omega
  have hupper : boxBase ||| tag * 2 ^ 32 = boxBase + tag * 2 ^ 32 := by
    rw [boxBase_eq, Nat.two_pow_add_eq_or_of_lt]
    omega
  have hword : boxBase + tag * 2 ^ 32 = 2 ^ 32 * (0xfffc0000 + tag) := by
    simp only [boxBase]
    ring
  rw [← UInt64.toNat_inj, toNat_box htag, UInt64.toNat_or, UInt64.toNat_or, toNat_boxMask, htag', hupper,
    UInt32.toNat_toUInt64, hword, ← Nat.two_pow_add_eq_or_of_lt hpayload, ← hword]
  have hmod : payload.toNat % payloadLimit = payload.toNat := Nat.mod_eq_of_lt hpayload
  rw [hmod]
  rfl

end Masks

/-! ## What a value is made of -/

/-- The kinds of values with a handle. -/
inductive HandleKind
  | string
  | table
  | function
  | userdata
  | coroutine
  | env
deriving DecidableEq, Repr

/-- The tag of the values of a kind. -/
def HandleKind.tag : HandleKind → Nat
  | string => stringTag
  | table => tableTag
  | function => functionTag
  | userdata => userdataTag
  | coroutine => coroutineTag
  | env => envTag

/-- The value of a kind with a handle. -/
def HandleKind.value : HandleKind → Nat → Value
  | string => Value.string
  | table => Value.table
  | function => Value.function
  | userdata => Value.userdata
  | coroutine => Value.coroutine
  | env => Value.env

/-- The forms of values. -/
inductive Form
  | number
  | nil
  | bool
  | handle (kind : HandleKind)
deriving DecidableEq, Repr

/-- Whether a value has a form. -/
def Form.test : Form → Value → Bool
  | number => isNumber
  | nil => isNil
  | bool => isBool
  | handle .string => isString
  | handle .table => isTable
  | handle .function => isFunction
  | handle .userdata => isUserdata
  | handle .coroutine => isCoroutine
  | handle .env => isEnv

/-- The tags of a form. -/
def Form.tags : Form → List Nat
  | number => [0]
  | nil => [nilTag]
  | bool => [falseTag, trueTag]
  | handle kind => [kind.tag]

/-- The form of a tag. -/
def Form.ofTag : Nat → Form
  | 1 => nil
  | 2 | 3 => bool
  | 4 => handle .string
  | 5 => handle .table
  | 6 => handle .function
  | 7 => handle .userdata
  | 8 => handle .coroutine
  | 9 => handle .env
  | _ => number

/-- What a value is made of. -/
inductive Contents
  | number (x : Binary64)
  | nil
  | bool (b : Bool)
  | handle (kind : HandleKind) (payload : UInt32)

namespace Contents

/-- The value made of some contents. -/
def value : Contents → Value
  | number x => Value.number x
  | nil => Value.nil
  | bool b => Value.bool b
  | handle kind payload => kind.value payload.toNat

/-- The form of the value. -/
def form : Contents → Form
  | number _ => .number
  | nil => .nil
  | bool _ => .bool
  | handle kind _ => .handle kind

/-- The tag of the value. -/
def tag : Contents → Nat
  | number _ => 0
  | nil => nilTag
  | bool b => if b then trueTag else falseTag
  | handle kind _ => kind.tag

/-- The handle, for a kind that has one. -/
def handle? : Contents → Option UInt32
  | handle _ payload => some payload
  | _ => none

/-- The truth value, if it is one. -/
def bool? : Contents → Option Bool
  | bool b => some b
  | _ => none

/-- Contents are the same if they are equal or both a NaN. -/
def Same : Contents → Contents → Prop
  | number x, number y => x = y ∨ x.isNaN = true ∧ y.isNaN = true
  | c, d => c = d

end Contents

section Contents

variable (c d : Contents) (f : Form)

/-- A boxed word is no number. -/
lemma isNumber_box {tag : ℕ} (htag : tag < 0x10000) (payload : ℕ) : (box tag payload).isNumber = false := by
  rw [isNumber, toNat_box htag]
  refine decide_eq_false ?_
  omega

lemma HandleKind.value_eq (kind : HandleKind) (handle : ℕ) : kind.value handle = box kind.tag handle := by
  cases kind <;> rfl

lemma HandleKind.tag_lt (kind : HandleKind) : kind.tag < 0x10000 := by
  cases kind <;> decide

/-- All contents but a number are boxed under their tag. -/
lemma exists_value_eq_box (h : c.form ≠ .number) : ∃ payload, c.value = box c.tag payload ∧ c.tag < 0x10000 := by
  cases c with
  | number x => exact absurd rfl h
  | nil => exact ⟨0, rfl, by decide⟩
  | bool b => exact ⟨0, rfl, by cases b <;> decide⟩
  | handle kind payload => exact ⟨payload.toNat, kind.value_eq _, kind.tag_lt⟩

/-- Numbers are what is not boxed. -/
lemma isNumber_value : c.value.isNumber = decide (c.form = .number) := by
  by_cases h : c.form = .number
  · cases c <;> cases h
    rw [Contents.value, isNumber_number]
    rfl
  · obtain ⟨payload, hvalue, htag⟩ := exists_value_eq_box c h
    rw [hvalue, isNumber_box htag, decide_eq_false h]

/-- The tag of a value is the one of its contents. -/
lemma tag_value : c.value.tag = c.tag := by
  by_cases h : c.form = .number
  · rw [tag, isNumber_value, decide_eq_true h, if_pos rfl]
    cases c <;> cases h
    rfl
  · obtain ⟨payload, hvalue, htag⟩ := exists_value_eq_box c h
    rw [hvalue, tag_box htag]

variable {f} in
/-- No two forms share a tag. -/
lemma Form.ofTag_of_mem_tags {tag : ℕ} (h : tag ∈ f.tags) : Form.ofTag tag = f := by
  revert tag
  rcases f with _ | _ | _ | ⟨_ | _⟩ <;> decide

/-- The form of the contents shows in the tag. -/
lemma Contents.tag_mem_tags_iff : c.tag ∈ f.tags ↔ f = c.form := by
  have hmem : c.tag ∈ c.form.tags := by
    rcases c with x | _ | ⟨_ | _⟩ | ⟨kind, payload⟩
    case bool.true => exact List.mem_cons_of_mem _ List.mem_cons_self
    all_goals exact List.mem_cons_self
  constructor
  · intro h
    rw [← Form.ofTag_of_mem_tags h, Form.ofTag_of_mem_tags hmem]
  · rintro rfl
    exact hmem

/-- **A value has one form**, the one of its contents. -/
theorem test_value : f.test c.value = true ↔ f = c.form := by
  rw [← Contents.tag_mem_tags_iff]
  have htag := tag_value c
  rcases f with _ | _ | _ | ⟨_ | _⟩
  case number => rw [Form.test, isNumber_value, decide_eq_true_eq, eq_comm, Contents.tag_mem_tags_iff]
  all_goals simp [Form.test, isNil, isBool, isString, isTable, isFunction, isUserdata, isCoroutine, isEnv, htag,
    Form.tags, HandleKind.tag]

/-- A number reads back as it is, and any NaN as the one that is stored. -/
lemma number?_number_eq (x : Binary64) : (number x).number? = some (if x.isNaN then Binary64.nan else x) := by
  rw [number?, if_pos (isNumber_number x), number]
  split_ifs <;> rfl

lemma isNaN_nan : Binary64.nan.isNaN = true := by decide

/-- The handle of a value is the one of its contents. -/
theorem handle?_value : c.value.handle? = c.handle?.map UInt32.toNat := by
  rw [handle?, isObject, tag_value]
  rcases c with x | _ | ⟨_ | _⟩ | ⟨kind, payload⟩
  case handle =>
    have hpayload : payload.toNat % payloadLimit = payload.toNat := Nat.mod_eq_of_lt payload.toNat_lt
    have hobject : stringTag ≤ kind.tag := by cases kind <;> decide
    rw [Contents.tag, decide_eq_true hobject, if_pos rfl, Contents.value, kind.value_eq, payload_box kind.tag_lt,
      hpayload]
    rfl
  all_goals rfl

/-- The truth value of a value is the one of its contents. -/
theorem bool?_value : c.value.bool? = c.bool? := by
  rw [bool?, tag_value]
  rcases c with x | _ | ⟨_ | _⟩ | ⟨_ | _, payload⟩ <;> rfl

variable {c d} in
/-- The contents are read back from the value, but for which NaN it was. -/
lemma same_of_value_eq (h : c.value = d.value) : c.Same d := by
  have hform : c.form = d.form := (test_value d c.form).1 (h ▸ (test_value c c.form).2 rfl)
  have hbool : c.bool? = d.bool? := by rw [← bool?_value, h, bool?_value]
  have hhandle : c.handle?.map UInt32.toNat = d.handle?.map UInt32.toNat := by
    rw [← handle?_value, h, handle?_value]
  cases c <;> cases d <;> cases hform
  case number.number.refl x y =>
    have hnumber : (number x).number? = (number y).number? := congrArg number? h
    rw [number?_number_eq, number?_number_eq, Option.some.injEq] at hnumber
    rw [Contents.Same]
    split_ifs at hnumber with hx hy hy
    · exact .inr ⟨hx, hy⟩
    · rw [← hnumber, isNaN_nan] at hy
      exact absurd rfl hy
    · rw [hnumber, isNaN_nan] at hx
      exact absurd rfl hx
    · exact .inl hnumber
  case nil.nil.refl => rfl
  case bool.bool.refl => exact congrArg Contents.bool (Option.some.inj hbool)
  case handle.handle.refl => exact congrArg (Contents.handle _) (UInt32.toNat_inj.1 (Option.some.inj hhandle))

/-- **Values are equal** only if their contents are the same. -/
theorem value_eq_iff : c.value = d.value ↔ c.Same d := by
  refine ⟨same_of_value_eq, fun h => ?_⟩
  unfold Contents.Same at h
  split at h
  · next x y =>
    obtain rfl | ⟨hx, hy⟩ := h
    · rfl
    · rw [Contents.value, Contents.value, number, number, if_pos hx, if_pos hy]
  · rw [h]

/-- **Values tell what they were made of**. A number reads back as itself, or as a NaN if it was any NaN. Every value
has the form of its contents and no other one, and it is no number if it was made of something else. Its handle is the
one it was made with, if it was, and it has the same word as another value only if their contents are the same.

**Proof sketch.** The words of boxed values start where those of numbers end, and NaNs are moved below. So the tag of a
value is the one of its contents (`tag_value`), and the contents are read back piece by piece. -/
theorem boxing_faithful :
    (∀ x : Binary64, (number x).isNumber = true ∧
      ∃ y, (number x).number? = some y ∧ if x.isNaN = true then y.isNaN = true else y = x) ∧
    (∀ (c : Contents) (f : Form), f.test c.value = true ↔ f = c.form) ∧
    (∀ c : Contents, c.form ≠ .number → c.value.isNumber = false ∧ c.value.number? = none) ∧
    (∀ c : Contents, c.value.handle? = c.handle?.map UInt32.toNat) ∧
    ∀ c d : Contents, c.value.bits = d.value.bits ↔ c.Same d := by
  refine ⟨fun x => ⟨isNumber_number x, _, number?_number_eq x, ?_⟩, test_value, fun c h => ?_, handle?_value,
    fun c d => ?_⟩
  · split_ifs with hx
    · exact isNaN_nan
    · rfl
  · have hnumber : c.value.isNumber = false := by
      rw [isNumber_value, decide_eq_false h]
    refine ⟨hnumber, ?_⟩
    rw [number?, hnumber, if_neg Bool.false_ne_true]
  · rw [← value_eq_iff]
    exact ⟨fun h => congrArg Value.mk h, congrArg Value.bits⟩

end Contents

end ScriptCore.Value
