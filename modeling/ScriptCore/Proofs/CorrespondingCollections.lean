import Mathlib
import ScriptCore.Proofs.CorrespondingChanges
import ScriptCore.Proofs.CorrespondingStates

set_option relaxedAutoImplicit false
set_option autoImplicit false

/-!
# Corresponding states over collections

A collection in the first of two corresponding states leaves the second one alone, and the states
correspond still: the pairs that are left are those of the objects the first state reaches. For what an
object refers to is reached if the object is, so the entries of the pairs that are left correspond under
these; and so does what the state holds, as long as the slots beyond the top hold nothing that only
they refer to.

## Main definitions

* `ScriptCore.Pairing.reached` — the pairs that a collection leaves.

## Main results

* `ScriptCore.State.Corresponds.collect` — a collection in one of two corresponding states.
-/

namespace ScriptCore

/-- The pairs of the objects that the first state reaches. -/
def Pairing.reached (ρ : Pairing) (s : State) : Pairing := fun o o' => ρ o o' ∧ s.Reaches o

variable {ρ : Pairing} {s t : State}

/-- What is rooted keeps its partner. -/
lemma Value.Corresponds.reached {v w : Value} (h : v.Corresponds ρ w) (hr : s.Rooted v) :
    v.Corresponds (ρ.reached s) w := by
  cases h with
  | plain h => exact .plain h
  | object kind hv hw h => exact .object kind hv hw ⟨h, hr _ hv⟩

namespace Heap

/-- A table in use that is rooted keeps its partner. -/
lemma Corresponds.tables_reached (hc : s.heap.Corresponds ρ t.heap) {i j : Nat} (hij : ρ.Tables i j)
    (hr : s.Rooted (.table i)) : (ρ.reached s).Tables i j :=
  ⟨hij, hr _ (Value.object?_table (hc.regular.index_lt (hc.inUse _ _ hij).1))⟩

/-- The metatables of two objects are paired still. -/
lemma Corresponds.metatables_reached (hc : s.heap.Corresponds ρ t.heap) {a b : Option Nat}
    (hab : Option.Rel ρ.Tables a b) (hr : ∀ mt, a = some mt → s.Rooted (.table mt)) :
    Option.Rel (ρ.reached s).Tables a b := by
  cases hab with
  | none => exact .none
  | some h => exact .some (hc.tables_reached h (hr _ rfl))

/-- **The entries of objects that are reached correspond** under the pairs of such objects. -/
theorem Corresponds.entries_reached (hc : s.heap.Corresponds ρ t.heap) {o o' : Object}
    (ho : ρ o o') (hr : s.Reaches o) : s.heap.EntriesCorrespond (ρ.reached s) t.heap o o' := by
  have hrefers : ∀ v, s.heap.Refers o v → s.Rooted v := fun v hv p hp => .step hr hv hp
  cases hc.entries o o' ho with
  | string hi hj => exact .string hi hj
  | table hi hj htu =>
    refine .table hi hj ⟨fun k v hkv => ?_, fun k' v' hkv' => ?_, ?_⟩
    · obtain ⟨k', v', hkv', hk, hv⟩ := htu.embeds k v hkv
      exact ⟨k', v', hkv', hk.reached (hrefers k (.key hi hkv)), hv.reached (hrefers v (.value hi hkv))⟩
    · obtain ⟨k, v, hkv, hk, hv⟩ := htu.embeds' k' v' hkv'
      exact ⟨k, v, hkv, (hk.flip.reached (hrefers k (.key hi hkv))).flip,
        (hv.flip.reached (hrefers v (.value hi hkv))).flip⟩
    · exact hc.metatables_reached htu.metatable fun mt hmt => hrefers _ (.tableMetatable hi hmt)
  | @env i j e f hi hj hef =>
    refine .env hi hj fun l => (hef l).reached ?_
    rw [Env.get, Array.getD_eq_getD_getElem?]
    rcases hv : e.slots[l]? with _ | v
    · exact fun p hp => by cases hp
    · exact hrefers v (.slot hi (Array.mem_of_getElem? hv))
  | userdata hi hj huw =>
    refine .userdata hi hj ⟨?_, huw.payload⟩
    exact hc.metatables_reached huw.metatable fun mt hmt => hrefers _ (.userdataMetatable hi hmt)

end Heap

/-- The bookkeeping stays in order in a collection. -/
lemma Heap.Regular.collect {s : State} (hr : s.heap.Regular) : s.collect.heap.Regular :=
  have hc : s.Collected s.collect := (s.collect_exact hr.wellFormed hr.unmarked).1
  ⟨hc.freeWellFormed, State.interning_collect hr.interning, hc.marks,
    fun o ho => hr.fits o (hc.hasEntry_iff.1 ho)⟩

namespace State.Corresponds

/-- The heap behind a collection corresponds to the second one. -/
lemma heap_collect (h : s.Corresponds ρ t) :
    s.collect.heap.Corresponds (ρ.reached s) t.heap := by
  have hr := h.heap.regular
  have hc : s.Collected s.collect := (s.collect_exact hr.wellFormed hr.unmarked).1
  refine
    { regular := hr.collect
      regular' := h.heap.regular'
      biUnique := ⟨fun _ _ _ hp hq => h.heap.biUnique.1 hp.1 hq.1,
        fun _ _ _ hp hq => h.heap.biUnique.2 hp.1 hq.1⟩
      total := fun o ho => ?_
      inUse := fun o o' ho => ?_
      entries := fun o o' ho => ?_ }
  · obtain ⟨hin, hreached⟩ := hc.inUse_iff.1 ho
    obtain ⟨o', ho'⟩ := h.heap.total o hin
    exact ⟨o', ho', hreached⟩
  · obtain ⟨hin, hin'⟩ := h.heap.inUse o o' ho.1
    exact ⟨hc.inUse_iff.2 ⟨hin, ho.2⟩, hin'⟩
  · have hsame : t.heap.SameEntry t.heap o' := by cases o' <;> rfl
    exact (h.heap.entries_reached ho.1 ho.2).of_sameEntry (fun _ _ hp => hp) (hc.kept o ho.2) hsame

/-- **A collection in the first of two corresponding states** leaves them corresponding, if the slots
beyond the top hold nothing that only they refer to. -/
theorem collect (h : s.Corresponds ρ t) (hbeyond : ∀ i, s.top ≤ i → s.Rooted (s.stack.get i)) :
    s.collect.Corresponds (ρ.reached s) t := by
  have hc : s.Collected s.collect :=
    (s.collect_exact h.heap.regular.wellFormed h.heap.regular.unmarked).1
  have hroot : ∀ v, s.IsRoot v → s.Rooted v := fun v hv o ho => .root hv ho
  have hnative : ∀ i : Nat,
      Option.Rel (Native.Corresponds (ρ.reached s)) s.natives[i]? t.natives[i]? := by
    intro i
    have hrel := h.natives i
    revert hrel
    rcases hf : s.natives[i]? with _ | f <;> rcases t.natives[i]? with _ | g <;> intro hrel <;>
      cases hrel
    · exact .none
    next hfg =>
      refine .some ⟨hfg.name, fun j => (hfg.upvalue j).reached ?_⟩
      rw [Array.getD_eq_getD_getElem?]
      rcases hv : f.upvalues[j]? with _ | v
      · exact fun p hp => by cases hp
      · exact hroot v (.upvalue (Array.mem_of_getElem? hf) (Array.mem_of_getElem? hv))
  exact
    { heap := h.heap_collect
      stack := fun i => by
        rw [hc.stack]
        refine (h.stack i).reached ?_
        rcases Nat.lt_or_ge i s.top with hi | hi
        · exact hroot _ (.stack hi)
        · exact hbeyond i hi
      top := hc.top.trans h.top
      frames := hc.frames.trans h.frames
      natives := fun i => hc.natives ▸ hnative i
      globals := hc.globals ▸ h.heap.tables_reached h.globals (hroot _ .globals)
      registry := hc.registry ▸ h.heap.tables_reached h.registry (hroot _ .registry)
      broken := h.broken }

end State.Corresponds

end ScriptCore
