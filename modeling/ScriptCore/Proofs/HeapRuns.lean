import ScriptCore.Proofs.HandleSafety
import ScriptCore.Proofs.HeapSteps
import ScriptCore.Proofs.Isolation

set_option relaxedAutoImplicit false
set_option autoImplicit false

/-!
# Heaps over whole runs

What a program does to the heap it asks for, request by request. Calls and handlers add nothing to this but the
messages of errors. So what every request keeps of a heap holds on all machines a run comes through, whatever the
program is and whatever it calls. The agreement between the map of interned contents and the strings in use is kept in
this way.

## Main definitions

* `ScriptCore.Heap.Lasting` — properties that every request keeps.
* `ScriptCore.Machine.Arises` — the machines that runs come through.

## Main results

* `ScriptCore.Heap.Lasting.of_arises` — lasting properties hold wherever a run comes through.
* `ScriptCore.Heap.lasting_interning` — the map of interned contents agrees with the strings in use.
-/

namespace ScriptCore

variable {σ : Type}

/-- **A lasting property** of heaps is kept by every request, whatever its answer is. -/
def Heap.Lasting (P : Heap → Prop) : Prop := ∀ (r : Request) (s : State), P s.heap → P (r.answer s).2.heap

/-- **The machines that runs come through**: behind each operation of any program on a new machine, and of the
functions that are called, to any depth. -/
def Machine.Arises (m : Machine σ) : Prop :=
  ∃ host levels p levels' q, Configuration.Visits ⟨levels, p, Machine.new host⟩ ⟨levels', q, m⟩

/-! ## Entering programs -/

section Entering

variable {m k : Machine σ} {body : HostProgram σ}

lemma Machine.heap_of_callEnters? {nargs : Nat} (h : m.callEnters? nargs = some (body, k)) :
    k.state.heap = m.state.heap := by
  obtain ⟨slot, i, -, rfl⟩ := Machine.callEnters?_eq_some_iff.mp h
  rfl

lemma Plan.heap_of_enters? {α : Type} {p : Plan α} (h : p.enters? m = some (body, k)) :
    k.state.heap = m.state.heap := by
  cases p with
  | give r => cases h
  | handle f args finish =>
    simp only [Plan.enters?] at h
    have hpushed := State.heap_pushAll (f :: args) m.state
    rcases hp : State.pushAll (f :: args) m.state with ⟨_ | u, s⟩ <;> rw [hp] at h hpushed
    · cases h
    · exact (Machine.heap_of_callEnters? h).trans hpushed

/-- A program that is entered starts on the heap of the invocation. -/
lemma Invocation.heap_of_enters? {i : Invocation} (h : i.enters? m = some (body, k)) :
    k.state.heap = m.state.heap := by
  cases i with
  | call | protectedCall => exact Machine.heap_of_callEnters? h
  | instruction code word base =>
    simp only [Invocation.enters?] at h
    rcases hv : (State.operands word base m.state).1 with _ | ⟨b, c⟩ <;> rw [hv] at h
    · cases h
    · exact Plan.heap_of_enters? (m := m.withState (m.state.aboveRegisters base)) h
  | _ => exact Plan.heap_of_enters? h

end Entering

/-! ## Properties that every request keeps -/

namespace Heap.Lasting

variable {P : Heap → Prop} (hP : Lasting P) {enter : HostProgram σ → MachineM σ Nat} {m : Machine σ}

include hP

/-- The message of an error is made like any other string. -/
lemma of_interns {h h' : Heap} (hh : h.Interns h') (hh' : P h) : P h' := by
  cases hh with
  | same => exact hh'
  | intern content => exact hP (.intern content) { State.new with heap := h } hh'

/-- An invocation keeps the property if the program it enters does. -/
lemma invoke (i : Invocation) (hm : P m.state.heap)
    (henter : ∀ body k, P k.state.heap → P (enter body k).2.state.heap) :
    P (MachineM.invoke enter i m).2.state.heap :=
  MachineM.keeps_invoke (P := fun n => P n.state.heap) (fun _ _ => hP.of_interns) i hm
    fun body k _ => henter body k

/-- One operation of a program. -/
lemma step {p q : HostProgram σ} {n : Machine σ} (hm : P m.state.heap)
    (henter : ∀ body k, P k.state.heap → P (enter body k).2.state.heap) (h : p.step enter m = some (q, n)) :
    P n.state.heap := by
  cases p with
  | done | fail => cases h
  | ask r next =>
    obtain ⟨rfl, rfl⟩ := Prod.mk.inj (Option.some.inj h)
    exact hP r m.state hm
  | invoke i next =>
    obtain ⟨rfl, rfl⟩ := Prod.mk.inj (Option.some.inj h)
    exact hP.invoke i hm henter
  | define | fetch | update =>
    obtain ⟨rfl, rfl⟩ := Prod.mk.inj (Option.some.inj h)
    exact hm

/-- A run whose calls keep the property keeps it, by induction on the program. -/
lemma run (henter : ∀ body k, P k.state.heap → P (enter body k).2.state.heap) (p : HostProgram σ) (m : Machine σ)
    (hm : P m.state.heap) : P (p.run enter m).2.state.heap := by
  have hrest : ∀ {p q : HostProgram σ} {m n : Machine σ}, P m.state.heap → p.step enter m = some (q, n) →
      (P n.state.heap → P (q.run enter n).2.state.heap) → P (p.run enter m).2.state.heap := by
    intro p q m n hm h hq
    rw [HostProgram.run_of_step h]
    exact hq (hP.step hm henter h)
  induction p generalizing m with
  | done | fail => exact hm
  | ask r next ih => exact hrest hm rfl (ih _ _)
  | invoke i next ih => exact hrest hm rfl (ih _ _)
  | define name body upvalues next _ ih => exact hrest hm rfl (ih _ _)
  | fetch next ih => exact hrest hm rfl (ih _ _)
  | update f next ih => exact hrest hm rfl (ih _)

/-- Runs with calls to any depth, by induction on the levels of calls. -/
lemma runWithin (levels : Nat) (p : HostProgram σ) (m : Machine σ) (hm : P m.state.heap) :
    P (p.runWithin levels m).2.state.heap := by
  induction levels generalizing p m with
  | zero => exact hm
  | succ levels ih => exact hP.run ih p m hm

/-- **A run comes through heaps with the property only**, if it starts from such a one. -/
theorem visits {c d : Configuration σ} (h : Configuration.Visits c d) (hc : P c.machine.state.heap) :
    P d.machine.state.heap := by
  induction h with
  | start => exact hc
  | step h hd ih =>
    obtain ⟨⟨q, n⟩, hstep, rfl⟩ := Option.map_eq_some_iff.mp h
    exact ih (hP.step hc (hP.runWithin _) hstep)
  | enter h hd ih => exact ih (Invocation.heap_of_enters? h ▸ hc)

/-- **A lasting property of the heap of a new machine** holds on all machines that runs come through. -/
theorem of_arises (hnew : P State.new.heap) (hm : m.Arises) : P m.state.heap := by
  obtain ⟨host, levels, p, levels', q, hvisits⟩ := hm
  exact hP.visits hvisits hnew

end Heap.Lasting

/-! ## Interning -/

namespace Heap

/-- What the steps on strings, tables and objects of the host do to the map of interned contents. -/
instance : Steady fun h h' => h.Interning → h'.Interning where
  refl _ := id
  trans h₁ h₂ := h₂ ∘ h₁
  intern _ content hi := hi.intern content
  newTable _ _ hi := hi.of_eq rfl rfl
  newUserdata _ _ _ hi := hi.of_eq rfl rfl
  modifyTable _ _ _ hi := hi.of_eq rfl rfl
  modifyUserdata _ _ _ hi := hi.of_eq rfl rfl

lemma Interning.envSet {h : Heap} (hi : h.Interning) (e level slot : Nat) (v : Value) :
    (h.envSet e level slot v).Interning := by
  obtain ⟨hstrings, hinterned⟩ := h.envSet_strings e level slot v
  exact hi.of_eq hstrings hinterned

lemma Interning.newClosureEnv {s : State} (hi : s.heap.Interning) (index : Int) :
    (State.newClosureEnv index s).2.heap.Interning := by
  rw [State.newClosureEnv_apply, bind_apply, ofExcept_apply]
  rcases State.parentOf (s.valueAt index) with e | parent
  · exact hi
  · rw [andThen_ok, bind_apply, State.newEnv_eq, State.onHeap, andThen_ok, State.heap_push]
    exact hi.of_eq rfl rfl

lemma Interning.storeCaptured {s : State} (hi : s.heap.Interning) (index : Int) (level slot : Nat) :
    (State.storeCaptured index level slot s).2.heap.Interning := by
  rw [State.storeCaptured_apply, bind_apply, ofExcept_apply]
  rcases State.envOf (s.valueAt index) with _ | e
  · exact hi
  · rw [andThen_ok, bind_apply, State.pop_apply]
    split
    · exact hi
    · exact hi.envSet e level slot _

/-- **Every request keeps the map of interned contents in agreement** with the strings in use.

**Proof sketch.** Strings are made by interning and released by sweeps, both of which keep the agreement. All else is
done to the other arenas. -/
theorem lasting_interning : Lasting Interning := by
  intro r s hi
  have hsteps {α : Type} {x : Action α} (hx : State.Keeps (fun h h' => h.Interning → h'.Interning) x) :
      (x s).2.heap.Interning := hx s hi
  open State in
  cases r with
  | newEnv | trace => exact hi.of_eq rfl rfl
  | newClosureEnv index => exact hi.newClosureEnv index
  | envSet e level slot v => exact hi.envSet e level slot v
  | storeCaptured index level slot => exact hi.storeCaptured index level slot
  | collect => exact interning_collect hi
  | maybeCollect =>
    show (State.maybeCollect s).2.heap.Interning
    rw [State.maybeCollect, modifyGet_apply]
    split
    · exact interning_collect hi
    · exact hi
  | sweep => exact hi.sweep
  | push v => exact hsteps (.push v)
  | pop => exact hsteps .pop
  | slotOf index => exact hsteps (.slot index)
  | remove index => exact hsteps (.remove index)
  | replace index => exact hsteps (.replace index)
  | insert index => exact hsteps (.insert index)
  | setTop index => exact hsteps (.setTop index)
  | checkNumber index => exact hsteps (.checkNumber index)
  | checkBytes index => exact hsteps (.checkBytes index)
  | checkString index => exact hsteps (.checkString index)
  | intern content => exact hsteps (.internBytes content)
  | newTable size => exact hsteps (.newTable size)
  | newUserdata payload metatable => exact hsteps (.newUserdata payload metatable)
  | rawSet t key value => exact hsteps (.rawSet t key value)
  | getGlobal name => exact hsteps (.getGlobal name)
  | setGlobal name value => exact hsteps (.setGlobal name value)
  | registryGet name => exact hsteps (.registryGet name)
  | setMetatable v metatable => exact hsteps (.setMetatable v metatable)
  | registerLibrary name size => exact hsteps (.registerLibrary name size)
  | pushCaptured index level slot => exact hsteps (.pushCaptured index level slot)
  | valueAt | frameSize | upvalue | currentName | raise | refuse | coerceNumber | bytes | rawGet
    | metafield | envGet | setStress | setSlot | reset | inspect => exact hi

end Heap

end ScriptCore
