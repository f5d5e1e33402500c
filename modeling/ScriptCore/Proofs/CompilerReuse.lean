import ScriptCore.Proofs.Emission

set_option relaxedAutoImplicit false
set_option autoImplicit false

/-!
# A compiler can be used again

A compiler keeps the words, the call sites and the register counter of its last run, and a run that
fails leaves them as they are at that point. None of it is seen by the next compilation: of all that
a caller does with a compiler only the options stay, and the rest is written before it is read.

## Main definitions

* `ScriptCore.Compiler.Action` — what a caller does with a compiler.
* `ScriptCore.Compiler.after` — the compiler behind a history of actions.

## Main results

* `ScriptCore.Compiler.options_after` — no history changes the options.
* `ScriptCore.Compiler.compile_after` — a compilation behind any history gives what a new compiler
  gives.
-/

namespace ScriptCore.Compiler

/-- What a caller does with a compiler. -/
inductive Action
  /-- Compile a source text. This may fail, before or in the middle of the lowering. -/
  | compile (source : String)
  /-- Compile a program. This may fail in the middle. -/
  | compileProgram (p : Program)
  /-- Ask how a call is emitted. -/
  | loweringFor (builtin : Builtin) (isMethod : Bool)
  /-- Emit a call. -/
  | emitCall (lowering : Lowering) (func : UInt8) (nargs : Option UInt8) (results : UInt8)

/-- The compiler behind an action, whatever the answer. -/
def act (c : Compiler) : Action → Compiler
  | .compile source => ((Compiler.compile source).outcome c).2
  | .compileProgram p => ((Compiler.compileProgram p).outcome c).2
  | .loweringFor _ _ => c
  | .emitCall lowering func nargs results => c.emitCall lowering func nargs results

/-- The compiler behind a history of actions, the earliest first. -/
def after (c : Compiler) (history : List Action) : Compiler := history.foldl act c

/-- A compilation keeps the options, also when the text is no program and when a call overflows. -/
lemma options_compile (source : String) (c : Compiler) :
    ((compile source).outcome c).2.options = c.options := by
  unfold compile
  rcases parseProgram source with e | p
  · rfl
  · exact (compileProgram_outcome p c).2

/-- No action changes the options. -/
lemma options_act (c : Compiler) (a : Action) : (c.act a).options = c.options := by
  cases a with
  | compile source => exact options_compile source c
  | compileProgram p => exact (compileProgram_outcome p c).2
  | loweringFor builtin isMethod => rfl
  | emitCall lowering func nargs results =>
    rw [act, EmitsTo.emitCall_eq]

/-- **No history changes the options.** -/
theorem options_after (c : Compiler) (history : List Action) :
    (c.after history).options = c.options := by
  induction history generalizing c with
  | nil => rfl
  | cons a history ih => exact (ih (c.act a)).trans (options_act c a)

/-- What a compilation answers depends on the options alone. -/
lemma compile_congr (source : String) {c c' : Compiler} (h : c.options = c'.options) :
    ((compile source).outcome c).1 = ((compile source).outcome c').1 := by
  rw [compile_outcome, compile_outcome, h]

/-- **A compiler can be used again.** Whatever state a compiler is in and whatever is done with it,
compiling a text then gives what a new compiler with the same options gives: the same error, or the
same words and call sites.

**Proof sketch.** Every action keeps the options, so the history does. A compilation clears what was
emitted and frees all registers before it reads them, so its answer is a function of the text and the
options. -/
theorem compile_after (c : Compiler) (history : List Action) (source : String) :
    ((compile source).outcome (c.after history)).1 =
      ((compile source).outcome (new c.options)).1 :=
  compile_congr source (options_after c history)

/-- A call emitted outside of any program stays in the compiler until the next compilation. -/
example : ((new {}).after [.emitCall .generic 0 none 0]).bytecode.size = 1 := rfl

end ScriptCore.Compiler
