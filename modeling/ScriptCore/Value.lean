import ScriptCore.Numeral.Shortest

set_option autoImplicit false

/-!
# Values

A value is a 64-bit word. Words below `0xfffc` followed by zeros are numbers in their binary form.
The words above are boxed: a tag in the bits from 32 to 47 and a payload in the lower 32 bits.
A NaN is always stored as the same word, so that no number falls into the boxed range.

## Main definitions

* `ScriptCore.Value` — a value as its word, with its constructors.
* `ScriptCore.Value.tag`, `ScriptCore.Value.payload` — the parts of a boxed value.
* `ScriptCore.Value.number?`, `ScriptCore.Value.bool?`, `ScriptCore.Value.handle?` — its contents.
* `ScriptCore.Value.object?` — the object of the heap it refers to.
* `ScriptCore.Value.rawEqual` — equality without handlers.

## Main results

* `ScriptCore.Value.tag_box`, `ScriptCore.Value.payload_box`, `ScriptCore.Value.number?_number` —
  the parts of a value are those it was made of.
-/

namespace ScriptCore

/-- A value as its word. -/
structure Value where
  bits : UInt64
deriving DecidableEq, Hashable, Repr

/-- An object of the heap: the arena it lives in, and its index there. -/
inductive Object
  | string (index : Nat)
  | table (index : Nat)
  | userdata (index : Nat)
  | env (index : Nat)
deriving DecidableEq, Hashable, Repr

namespace Value

/-! ## The boxed range -/

/-- The first boxed word. -/
def boxBase : Nat := 0xfffc000000000000

/-- The number of payloads. -/
def payloadLimit : Nat := 0x100000000

/-- The boxed value of a tag and a payload. -/
def box (tag payload : Nat) : Value :=
  ⟨UInt64.ofNat (boxBase + tag * payloadLimit + payload % payloadLimit)⟩

/-- Whether a value is a number. -/
def isNumber (v : Value) : Bool := v.bits.toNat < boxBase

/-- The tag of a boxed value, `0` for a number. -/
def tag (v : Value) : Nat :=
  if v.isNumber then 0 else v.bits.toNat / payloadLimit % 0x10000

/-- The lower half of the word. -/
def payload (v : Value) : Nat := v.bits.toNat % payloadLimit

/-! ## Reading back a boxed value -/

theorem toNat_box {tag payload : Nat} (htag : tag < 0x10000) :
    (box tag payload).bits.toNat = boxBase + tag * payloadLimit + payload % payloadLimit := by
  have := Nat.mod_lt payload (show 0 < payloadLimit by decide)
  simp only [box, UInt64.toNat_ofNat']
  apply Nat.mod_eq_of_lt
  simp only [boxBase, payloadLimit] at *
  omega

/-- A boxed value has the tag it was made with. -/
theorem tag_box {tag payload : Nat} (htag : tag < 0x10000) : (box tag payload).tag = tag := by
  have hpos := Nat.mod_lt payload (show 0 < payloadLimit by decide)
  have h : (box tag payload).bits.toNat = _ := toNat_box htag
  have hbox : (box tag payload).isNumber = false := by
    simp only [isNumber, h, decide_eq_false_iff_not]
    omega
  simp only [Value.tag, hbox, h, Bool.false_eq_true, if_false]
  simp only [boxBase, payloadLimit] at *
  omega

/-- A boxed value has the payload it was made with, cut to its width. -/
theorem payload_box {tag payload : Nat} (htag : tag < 0x10000) :
    (box tag payload).payload = payload % payloadLimit := by
  simp only [Value.payload, toNat_box htag]
  simp only [boxBase, payloadLimit]
  omega

/-! ## Tags -/

/-- The tag of nil. -/
def nilTag : Nat := 1

/-- The tag of false. -/
def falseTag : Nat := 2

/-- The tag of true. -/
def trueTag : Nat := 3

/-- The tag of strings; tags from here on have a handle as payload. -/
def stringTag : Nat := 4

/-- The tag of tables. -/
def tableTag : Nat := 5

/-- The tag of functions. -/
def functionTag : Nat := 6

/-- The tag of objects of the host. -/
def userdataTag : Nat := 7

/-- The tag of coroutines. -/
def coroutineTag : Nat := 8

/-- The tag of closure environments. -/
def envTag : Nat := 9

/-! ## Constructors -/

/-- A number. All NaNs are stored as one word. -/
def number (x : Binary64) : Value := if x.isNaN then ⟨Binary64.nan.bits⟩ else ⟨x.bits⟩

/-- The value that stands for none. -/
def nil : Value := box nilTag 0

instance : Inhabited Value := ⟨nil⟩

/-- A truth value. -/
def bool (b : Bool) : Value := box (if b then trueTag else falseTag) 0

/-- The string of a handle. -/
def string (handle : Nat) : Value := box stringTag handle

/-- The table of a handle. -/
def table (handle : Nat) : Value := box tableTag handle

/-- The function of a handle. -/
def function (handle : Nat) : Value := box functionTag handle

/-- The host object of a handle. -/
def userdata (handle : Nat) : Value := box userdataTag handle

/-- The coroutine of a handle. -/
def coroutine (handle : Nat) : Value := box coroutineTag handle

/-- The closure environment of a handle. -/
def env (handle : Nat) : Value := box envTag handle

/-! ## Classes -/

/-- Whether a value is nil. -/
def isNil (v : Value) : Bool := v.tag = nilTag

/-- Whether a value is a truth value. -/
def isBool (v : Value) : Bool := v.tag = falseTag || v.tag = trueTag

/-- Whether a value is a string. -/
def isString (v : Value) : Bool := v.tag = stringTag

/-- Whether a value is a table. -/
def isTable (v : Value) : Bool := v.tag = tableTag

/-- Whether a value is a function. -/
def isFunction (v : Value) : Bool := v.tag = functionTag

/-- Whether a value is an object of the host. -/
def isUserdata (v : Value) : Bool := v.tag = userdataTag

/-- Whether a value is a coroutine. -/
def isCoroutine (v : Value) : Bool := v.tag = coroutineTag

/-- Whether a value is a closure environment. -/
def isEnv (v : Value) : Bool := v.tag = envTag

/-- Whether a value has a handle as payload. -/
def isObject (v : Value) : Bool := stringTag ≤ v.tag

/-- Whether a value counts as false in a condition: nil and false do. -/
def isFalsey (v : Value) : Bool := v.tag = nilTag || v.tag = falseTag

/-! ## Contents -/

/-- The number a value is. -/
def number? (v : Value) : Option Binary64 :=
  if v.isNumber then some ⟨v.bits⟩ else none

/-- A number that is no NaN reads back as itself. -/
theorem number?_number {x : Binary64} (h : x.isNaN = false) : (number x).number? = some x := by
  have hx : x.bits.toNat < boxBase := by
    have h2 := x.bits.toNat_lt
    have hm : ¬ Binary64.infiniteMagnitude < x.magnitude := by simpa [Binary64.isNaN] using h
    simp only [Binary64.magnitude, Binary64.infiniteMagnitude, Binary64.specialExponent,
      Binary64.hiddenBit, Binary64.signWeight] at hm
    simp only [boxBase]
    omega
  simp [number, number?, isNumber, h, hx]

/-- The truth value a value is. -/
def bool? (v : Value) : Option Bool :=
  if v.tag = trueTag then some true else if v.tag = falseTag then some false else none

/-- The handle of a value that has one. -/
def handle? (v : Value) : Option Nat :=
  if v.isObject then some v.payload else none

/-- The index of the table a value is. -/
def table? (v : Value) : Option Nat := if v.isTable then some v.payload else none

/-- The index of the string a value is. -/
def string? (v : Value) : Option Nat := if v.isString then some v.payload else none

/-- The index of the function a value is. -/
def function? (v : Value) : Option Nat := if v.isFunction then some v.payload else none

/-- The index of the closure environment a value is. -/
def env? (v : Value) : Option Nat := if v.isEnv then some v.payload else none

/-- The object of the heap a value refers to. Functions and coroutines are not kept there. -/
def object? (v : Value) : Option Object :=
  if v.tag = stringTag then some (.string v.payload)
  else if v.tag = tableTag then some (.table v.payload)
  else if v.tag = userdataTag then some (.userdata v.payload)
  else if v.tag = envTag then some (.env v.payload)
  else none

/-! ## Equality and keys -/

/-- Equality without handlers: numbers by their value, everything else by identity. -/
def rawEqual (v w : Value) : Bool :=
  match v.number?, w.number? with
  | some x, some y => x.eqv y
  | none, none => v = w
  | _, _ => false

/-- The key a value stands for in a table: both zeros are the same key. -/
def normalizeKey (v : Value) : Value :=
  match v.number? with
  | some x => if x.isZero then number Binary64.zero else v
  | none => v

/-! ## Texts -/

/-- The name of the type of a value, as programs see it. -/
def typeName (v : Value) : String :=
  match v.tag with
  | 0 => "number"
  | 1 => "nil"
  | 2 | 3 => "boolean"
  | 4 => "string"
  | 5 => "table"
  | 6 => "function"
  | 7 | 9 => "userdata"
  | 8 => "thread"
  | _ => "unknown"

/-- A value with its handle, for diagnostics. -/
def describe (v : Value) : String :=
  let withPayload (label : String) := label ++ "(" ++ toString v.payload ++ ")"
  match v.tag with
  | 0 => "Number(" ++ (Binary64.mk v.bits).plain ++ ")"
  | 1 => "Nil"
  | 2 => "Bool(false)"
  | 3 => "Bool(true)"
  | 4 => withPayload "String"
  | 5 => withPayload "Table"
  | 6 => withPayload "Function"
  | 7 => withPayload "Handle"
  | 8 => withPayload "Coroutine"
  | 9 => withPayload "Env"
  | _ => "Unknown(Bits: " ++ String.ofList (Nat.toDigits 16 v.bits.toNat) ++ ")"

end Value

end ScriptCore
