import Mathlib
import ScriptCore.Proofs.Correspondence

set_option relaxedAutoImplicit false
set_option autoImplicit false

/-!
# Corresponding states

Two states correspond if all they hold does: their heaps, the slots of their stacks, and the
upvalues of their functions. The frames and the top are the same. So everything an operation reads
of them is the same up to the pairing: indices refer to the same slots, values to corresponding
entries, and what decides whether an operator needs a handler, and which one, has the same outcome.

## Main definitions

* `ScriptCore.State.Corresponds` — states that hold corresponding values.

## Main results

* `ScriptCore.State.Corresponds.operatorHandler?`, `ScriptCore.State.Corresponds.compare?_eq` — what
  operators ask for.
-/

namespace ScriptCore

/-- Two functions correspond: they have the same name, and their upvalues correspond. -/
structure Native.Corresponds (ρ : Pairing) (f g : Native) : Prop where
  name : f.name = g.name
  upvalue : ∀ i, (f.upvalues.getD i .nil).Corresponds ρ (g.upvalues.getD i .nil)

/-- Two stacks correspond slot by slot. -/
def Slots.Corresponds (ρ : Pairing) (s t : Slots) : Prop := ∀ i, (s.get i).Corresponds ρ (t.get i)

namespace State

/-- **Two states correspond**: all they hold does, those slots of the stack included that lie above
the top. -/
structure Corresponds (ρ : Pairing) (s t : State) : Prop where
  heap : s.heap.Corresponds ρ t.heap
  stack : s.stack.Corresponds ρ t.stack
  top : s.top = t.top
  frames : s.frames = t.frames
  natives : ∀ i : Nat, Option.Rel (Native.Corresponds ρ) s.natives[i]? t.natives[i]?
  globals : ρ.Tables s.globals t.globals
  registry : ρ.Tables s.registry t.registry
  broken : s.broken = t.broken

/-- A value that has a metatable and is neither a number nor a string has its handler there. -/
lemma handler?_eq (s : State) (event : String) (v : Value) :
    s.handler? event v =
      match v.number?, v.string?, s.heap.metatableOf v with
      | none, none, some _ =>
        if (s.heap.metafield v event).isNil then none else some (s.heap.metafield v event)
      | _, _, _ => none := by
  unfold handler? classify
  rcases v.number? with _ | x <;> rcases v.string? with _ | i <;>
    rcases s.heap.metatableOf v with _ | mt <;> rfl

/-- Two numbers are compared as such, and so are two strings, by their contents. -/
lemma compare?_eq (s : State) (a b : Value) :
    s.compare? a b =
      match a.number?, b.number?, a.string?, b.string? with
      | some x, some y, _, _ => some (.ok (x.le y))
      | none, none, some i, some j =>
        if i = j then some (.ok true)
        else match s.heap.strings.get? i, s.heap.strings.get? j with
          | some l, some r => some (.ok (bytesLessEqual l r))
          | _, _ => some (.error .compare)
      | _, _, _, _ => none := by
  unfold compare? classify
  rcases a.number? with _ | x <;> rcases b.number? with _ | y <;>
    rcases a.string? with _ | i <;> rcases b.string? with _ | j <;>
    rcases s.heap.metatableOf a with _ | mt <;> rcases s.heap.metatableOf b with _ | mt' <;> rfl

namespace Corresponds

variable {ρ : Pairing} {s t : State} (h : s.Corresponds ρ t)

include h

lemma base_eq : s.base = t.base := by rw [base, base, h.frames]

lemma size_eq : s.size = t.size := by rw [size, size, h.top, h.base_eq]

lemma natives_size : s.natives.size = t.natives.size := size_eq_of_optionRel h.natives

/-! ### The frame -/

lemma slot?_eq (index : Int) : s.slot? index = t.slot? index := by
  rw [slot?, slot?, h.base_eq, h.size_eq, h.top]

lemma valueAt (index : Int) : (s.valueAt index).Corresponds ρ (t.valueAt index) := by
  rw [State.valueAt, State.valueAt, h.slot?_eq]
  split
  · exact h.stack _
  · exact .nil

lemma current? : Option.Rel (Native.Corresponds ρ) s.current? t.current? := by
  rw [State.current?, State.current?, h.frames]
  rcases t.frames.head?.bind (·.native) with _ | i
  · exact .none
  · exact h.natives i

lemma currentName?_eq : s.currentName? = t.currentName? := by
  have hcurrent := h.current?
  rw [currentName?, currentName?]
  revert hcurrent
  rcases s.current? with _ | f <;> rcases t.current? with _ | g <;> intro hcurrent <;>
    cases hcurrent
  · rfl
  · next hfg => exact congrArg some hfg.name

lemma upvalue (i : Nat) : (s.upvalue i).Corresponds ρ (t.upvalue i) := by
  have hcurrent := h.current?
  rw [State.upvalue, State.upvalue]
  revert hcurrent
  rcases s.current? with _ | f <;> rcases t.current? with _ | g <;> intro hcurrent <;>
    cases hcurrent
  · exact .nil
  · next hfg =>
    dsimp only
    split
    · exact .nil
    · exact hfg.upvalue _

lemma raised_eq (message : String) : s.raised message = t.raised message := by
  rw [raised, raised, h.currentName?_eq]

lemma badArgument_eq (index : Int) (message : String) :
    s.badArgument index message = t.badArgument index message := by
  rw [badArgument, badArgument, h.currentName?_eq]

/-! ### Values -/

variable {v w v' w' : Value}

lemma rawGet (hv : v.Corresponds ρ w) (hk : v'.Corresponds ρ w') :
    (s.rawGet v v').Corresponds ρ (t.rawGet w w') := by
  have htable := hv.table?
  rw [State.rawGet, State.rawGet]
  revert htable
  rcases v.table? with _ | i <;> rcases w.table? with _ | j <;> intro htable <;> cases htable
  · exact .nil
  · next hij => exact h.heap.tableGet hij hk

lemma bytes?_eq (hv : v.Corresponds ρ w) : s.bytes? v = t.bytes? w := h.heap.content_eq hv

lemma coerceNumber_eq (hv : v.Corresponds ρ w) : s.coerceNumber v = t.coerceNumber w := by
  rw [coerceNumber, coerceNumber, hv.number?_eq, text?, text?, h.bytes?_eq hv]

/-! ### Operators -/

lemma handler? (event : String) (hv : v.Corresponds ρ w) :
    Option.Rel (Value.Corresponds ρ) (s.handler? event v) (t.handler? event w) := by
  have hstring := hv.string?
  have hmetatable := h.heap.metatableOf hv
  have hfield := h.heap.metafield hv event
  rw [handler?_eq, handler?_eq, hv.number?_eq, hfield.isNil_eq]
  revert hstring hmetatable
  rcases w.number? with _ | x <;> rcases v.string? with _ | i <;> rcases w.string? with _ | j <;>
    rcases s.heap.metatableOf v with _ | mt <;> rcases t.heap.metatableOf w with _ | mt' <;>
    rintro (_ | _) (_ | _)
  all_goals try exact .none
  dsimp only
  split
  · exact .none
  · exact .some hfield

/-- **The handler of an operator** is the corresponding one. -/
theorem operatorHandler? (event : String) {vs ws : List Value}
    (hvs : List.Forall₂ (Value.Corresponds ρ) vs ws) :
    Option.Rel (Value.Corresponds ρ) (s.operatorHandler? event vs)
      (t.operatorHandler? event ws) := by
  rw [State.operatorHandler?, State.operatorHandler?]
  induction hvs with
  | nil => exact .none
  | cons hv hvs ih =>
    have hhandler := h.handler? event hv
    rw [List.findSome?_cons, List.findSome?_cons]
    revert hhandler
    rcases s.handler? event _ with _ | f <;> rcases t.handler? event _ with _ | g <;>
      intro hhandler <;> cases hhandler
    · exact ih
    · next hfg => exact .some hfg

/-- **The comparison** of values that need no handler has the same outcome. -/
theorem compare?_eq (hv : v.Corresponds ρ w) (hv' : v'.Corresponds ρ w') :
    s.compare? v v' = t.compare? w w' := by
  have hstring := hv.string?
  have hstring' := hv'.string?
  rw [State.compare?_eq, State.compare?_eq, hv.number?_eq, hv'.number?_eq]
  revert hstring hstring'
  rcases v.string? with _ | i <;> rcases w.string? with _ | j <;>
    rcases v'.string? with _ | i' <;> rcases w'.string? with _ | j' <;>
    intro hstring hstring' <;> cases hstring <;> cases hstring'
  · rcases w.number? with _ | x <;> rcases w'.number? with _ | y <;> rfl
  · rcases w.number? with _ | x <;> rcases w'.number? with _ | y <;> rfl
  · rcases w.number? with _ | x <;> rcases w'.number? with _ | y <;> rfl
  · next hij hij' =>
    obtain ⟨c, hi, hj⟩ := h.heap.strings hij
    obtain ⟨c', hi', hj'⟩ := h.heap.strings hij'
    have hiff : i = i' ↔ j = j' := by
      constructor
      · rintro rfl
        exact Object.string.inj (h.heap.biUnique.2 hij hij')
      · rintro rfl
        exact Object.string.inj (h.heap.biUnique.1 hij hij')
    rcases w.number? with _ | x <;> rcases w'.number? with _ | y
    · simp only [hi, hj, hi', hj', hiff]
    · rfl
    · rfl
    · rfl

end Corresponds

end State

end ScriptCore
