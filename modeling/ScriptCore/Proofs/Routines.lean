import ScriptCore.Proofs.Calls

set_option relaxedAutoImplicit false
set_option autoImplicit false

/-!
# Runs of routines

A routine is a program that waits for what follows it. What it does on a machine is the result it goes on with
and the machine it goes on from, whatever follows. For a sequence this is put together from its parts, so that
a routine can be followed request by request.

## Main definitions

* `ScriptCore.Routine.Ends` — what a routine does on a machine.
* `ScriptCore.Routine.Performs` — routines that do what an action does.

## Main results

* `ScriptCore.Routine.Ends.bind` — sequences.
* `ScriptCore.Routine.Ends.run_program`, `ScriptCore.Routine.Ends.run_program_error` — the program of a routine.
-/

namespace ScriptCore.Routine

variable {σ α β : Type} {enter : HostProgram σ → MachineM σ Nat} {m n k : Machine σ}

/-- **What a routine does on a machine**: whatever follows, it goes on with the result `r` on the machine
`n`. -/
def Ends (enter : HostProgram σ → MachineM σ Nat) (x : Routine σ α) (m : Machine σ)
    (r : Except RuntimeError α) (n : Machine σ) : Prop :=
  ∀ next, HostProgram.run enter (x next) m = HostProgram.run enter (next r) n

lemma ends_pure (a : α) : Ends enter (pure a) m (.ok a) m := fun _ => rfl

/-- A routine that succeeds is followed by the rest of the sequence. -/
lemma Ends.bind {x : Routine σ α} {f : α → Routine σ β} {a : α} {r : Except RuntimeError β}
    (hx : Ends enter x m (.ok a) n) (hf : Ends enter (f a) n r k) : Ends enter (x >>= f) m r k :=
  fun next => (hx _).trans (hf next)

/-- What a sequence does behind a first part that succeeds. -/
lemma Ends.rest {x : Routine σ α} {f : α → Routine σ β} {a : α} {r : Except RuntimeError β}
    (hx : Ends enter x m (.ok a) n) (h : Ends enter (x >>= f) m r k) : Ends enter (f a) n r k :=
  fun next => (hx _).symm.trans (h next)

/-- A routine ends in one way only. -/
lemma Ends.unique {x : Routine σ α} {r r' : Except RuntimeError α} (h : Ends enter x m r n)
    (h' : Ends enter x m r' k) : r = r' ∧ n = k := by
  classical
  -- what follows tells the results apart by the number of values it returns
  have hrun := (h fun q => .done (if q = r then 0 else 1)).symm.trans (h' _)
  obtain ⟨hresult, hmachine⟩ := Prod.mk.inj hrun
  refine ⟨?_, hmachine⟩
  by_contra hne
  rw [if_pos rfl, if_neg (Ne.symm hne), Except.ok.injEq] at hresult
  cases hresult

/-- A routine that fails ends the sequence. -/
lemma Ends.bind_error {x : Routine σ α} {f : α → Routine σ β} {e : RuntimeError}
    (hx : Ends enter x m (.error e) n) : Ends enter (x >>= f) m (.error e) n :=
  fun _ => hx _

lemma ends_invoke {i : Invocation} {reply : Except RuntimeError i.Reply}
    (h : MachineM.invoke enter i m = (reply, n)) : Ends enter (invoke i) m reply n := by
  intro next
  have hrun : HostProgram.run enter (invoke i next) m =
      HostProgram.run enter (next (MachineM.invoke enter i m).1) (MachineM.invoke enter i m).2 := rfl
  rw [hrun, h]

/-- A new function comes behind those there are. -/
lemma ends_define (name : String) (body : HostProgram σ) (upvalues : Array Value) :
    Ends enter (define name body upvalues) m (.ok (.function m.state.natives.size))
      (m.addFunction name body upvalues) := fun _ => rfl

/-- The program of a routine returns as many values as the routine says. -/
theorem Ends.run_program {x : Routine σ Nat} {results : Nat} (h : Ends enter x m (.ok results) n) :
    HostProgram.run enter x.program m = (.ok results, n) :=
  h _

/-- The program of a routine fails with the error of the routine. -/
theorem Ends.run_program_error {x : Routine σ Nat} {e : RuntimeError} (h : Ends enter x m (.error e) n) :
    HostProgram.run enter x.program m = (.error e, n) :=
  h _

/-! ## Routines that end -/

/-- **A routine ends** on every machine, with a result or an error. -/
def Settles (enter : HostProgram σ → MachineM σ Nat) (x : Routine σ α) : Prop :=
  ∀ m : Machine σ, ∃ r n, Ends enter x m r n

lemma settles_pure (a : α) : Settles enter (pure a) := fun m => ⟨.ok a, m, ends_pure a⟩

lemma settles_ask (r : Request) : Settles enter (ask r) := fun _ => ⟨_, _, fun _ => rfl⟩

lemma settles_invoke (i : Invocation) : Settles enter (invoke i) := fun _ => ⟨_, _, ends_invoke rfl⟩

lemma settles_define (name : String) (body : HostProgram σ) (upvalues : Array Value) :
    Settles enter (define name body upvalues) := fun _ => ⟨_, _, ends_define name body upvalues⟩

lemma Settles.bind {x : Routine σ α} {f : α → Routine σ β} (hx : Settles enter x)
    (hf : ∀ a, Settles enter (f a)) : Settles enter (x >>= f) := by
  intro m
  obtain ⟨r, n, hends⟩ := hx m
  cases r with
  | error e => exact ⟨_, _, hends.bind_error⟩
  | ok a =>
    obtain ⟨r, k, hrest⟩ := hf a n
    exact ⟨r, k, hends.bind hrest⟩

/-! ## Routines that only ask the machine -/

/-- **A routine does what an action does** on the state of every machine. -/
def Performs (enter : HostProgram σ → MachineM σ Nat) (x : Routine σ α) (a : Action α) : Prop :=
  ∀ m : Machine σ, Ends enter x m (a m.state).1 (m.withState (a m.state).2)

lemma performs_ask (r : Request) : Performs enter (ask r) r.answer := fun _ _ => rfl

lemma performs_pure (a : α) : Performs enter (pure a) (pure a) := fun _ _ => rfl

/-- A sequence does what the actions of its parts do in sequence. -/
lemma Performs.bind {x : Routine σ α} {f : α → Routine σ β} {a : Action α} {b : α → Action β}
    (hx : Performs enter x a) (hf : ∀ v, Performs enter (f v) (b v)) :
    Performs enter (x >>= f) (a >>= b) := by
  intro m
  have hfirst := hx m
  rw [bind_apply]
  rcases hrun : a m.state with ⟨_ | v, s⟩ <;> rw [hrun] at hfirst
  · exact hfirst.bind_error
  · exact hfirst.bind (hf v (m.withState s))

/-- What a routine does, from what its action does. -/
lemma Performs.ends {x : Routine σ α} {a : Action α} (h : Performs enter x a) {r : Except RuntimeError α}
    {s : State} (ha : a m.state = (r, s)) : Ends enter x m r (m.withState s) := by
  have hends := h m
  rwa [ha] at hends

/-- A request that only reads is answered, and changes nothing. -/
lemma ends_reading {r : Request} {reply : Except RuntimeError r.Reply}
    (h : r.answer m.state = (reply, m.state)) : Ends enter (ask r) m reply m :=
  (performs_ask r).ends h

/-- What is raised is the error of the function that is running. -/
lemma ends_raise (message : String) :
    Ends enter (raise message : Routine σ α) m (.error (m.state.raised message)) m :=
  (ends_reading (r := .raise message) rfl).bind_error

end ScriptCore.Routine
