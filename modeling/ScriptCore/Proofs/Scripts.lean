import Mathlib
import ScriptCore.Machine.Run
import ScriptCore.Proofs.Calls
import ScriptCore.Proofs.Correspondence

set_option relaxedAutoImplicit false
set_option autoImplicit false

/-!
# Scripts of operations

A script is a sequence of operations of a machine. What an operation works on is a constant without
a handle, or the result of an earlier operation; so a script never gets hold of a handle as a number.
It may go on differently behind different answers, but it sees only of what kind a value is, and
whether two values are the same. Functions are made of scripts as well, and start without results.

A script runs as a program whose host holds on to the values it still uses: those of the results so
far that are named further on. While an operation runs that may call functions, they stay with the
host, together with what its callers hold.

## Main definitions

* `ScriptCore.Answer`, `ScriptCore.Source` — what operations are answered with, and work on.
* `ScriptCore.Script`, `ScriptCore.Script.program` — scripts, and the programs they run as.
* `ScriptCore.Script.withoutCollections` — the same script without its collections.
* `ScriptCore.Moment`, `ScriptCore.HostProgram.momentsWithin` — what a run goes through.
-/

namespace ScriptCore

/-! ## Operations -/

/-- What an operation is answered with. -/
inductive Answer
  | nothing
  | value (v : Value)
  | count (n : Nat)
  | name (text : Option String)
  | number (x : Binary64)
  | numeral (x : Option Binary64)
  | text (s : String)
  | bytes (bs : List UInt8)
  | content (bs : Option (List UInt8))
  | truth (b : Bool)

namespace Value

/-- A value without its handle, if it refers to an object. -/
def blind (v : Value) : Value := if v.object? = none then v else box v.tag 0

end Value

/-- An answer without handles. -/
def Answer.blind : Answer → Answer
  | value v => .value v.blind
  | answer => answer

/-- The result of an operation: the value it is answered with, and nil if there is none. -/
def Answer.result : Except RuntimeError Answer → Value
  | .ok (.value v) => v
  | _ => .nil

namespace Request

/-- What a reply says. -/
def report : (r : Request) → r.Reply → Answer
  | pop, v | valueAt _, v | remove _, v | upvalue _, v | intern _, v | newTable _, v => .value v
  | rawGet .., v | getGlobal _, v | registryGet _, v | metafield .., v | newUserdata .., v =>
    .value v
  | newEnv _, v | envGet .., v | registerLibrary .., v => .value v
  | frameSize, n | slotOf _, n => .count n
  | currentName, name => .name name
  | checkNumber _, x => .number x
  | checkString _, s => .text s
  | checkBytes _, bs => .bytes bs
  | coerceNumber _, x => .numeral x
  | bytes _, bs => .content bs
  | maybeCollect, b => .truth b
  | _, _ => .nothing

/-- The request with other values to work on. -/
def fill : Request → List Value → Request
  | push _, vs => push (vs.getD 0 .nil)
  | coerceNumber _, vs => coerceNumber (vs.getD 0 .nil)
  | bytes _, vs => bytes (vs.getD 0 .nil)
  | rawGet _ _, vs => rawGet (vs.getD 0 .nil) (vs.getD 1 .nil)
  | rawSet _ _ _, vs => rawSet (vs.getD 0 .nil) (vs.getD 1 .nil) (vs.getD 2 .nil)
  | setGlobal name _, vs => setGlobal name (vs.getD 0 .nil)
  | metafield _ event, vs => metafield (vs.getD 0 .nil) event
  | setMetatable _ _, vs => setMetatable (vs.getD 0 .nil) (vs.getD 1 .nil)
  | newUserdata payload _, vs => newUserdata payload (vs.getD 0 .nil)
  | setSlot i _, vs => setSlot i (vs.getD 0 .nil)
  | r, _ => r

/-- The operations of a machine, apart from collections and from what takes or shows a handle as a
number. -/
def IsBlind : Request → Prop
  | collect | maybeCollect | setStress _ | trace _ | sweep | reset | inspect => False
  | newEnv _ | envGet .. | envSet .. => False
  | _ => True

end Request

namespace Invocation

/-- What a reply says. -/
def report : (i : Invocation) → i.Reply → Answer
  | arith .., v | negate _, v => .value v
  | lessEqual .., b | lessEqualAt .., b => .truth b
  | _, _ => .nothing

/-- The invocation with other values to work on. -/
def fill : Invocation → List Value → Invocation
  | arith op _ _, vs => arith op (vs.getD 0 .nil) (vs.getD 1 .nil)
  | negate _, vs => negate (vs.getD 0 .nil)
  | lessEqual _ _, vs => lessEqual (vs.getD 0 .nil) (vs.getD 1 .nil)
  | i, _ => i

end Invocation

/-! ## Scripts -/

/-- Where an operation takes a value from: it is given, or the result of an earlier operation. -/
inductive Source
  | plain (v : Value) (h : v.object? = none)
  | result (i : Nat)

/-- The value of a source, with the results so far. -/
def Source.value (results : List Value) : Source → Value
  | plain v _ => v
  | result i => results.getD i .nil

/-- A sequence of operations. The values in a request or an invocation are those of the sources, in
their order; those it is written with do not count. Every operation has a result, which later ones
refer to by its number; collections have none. -/
inductive Script
  /-- Returns the given number of values on top of the stack. -/
  | done (results : Nat)
  /-- Ends with an error. -/
  | fail (e : RuntimeError)
  | ask (r : Request) (hr : r.IsBlind) (sources : List Source)
      (next : Except RuntimeError Answer → Script)
  | invoke (i : Invocation) (sources : List Source) (next : Except RuntimeError Answer → Script)
  /-- Makes a function. -/
  | define (name : String) (body : Script) (upvalues : List Source) (next : Script)
  /-- Looks whether two values are raw equal. -/
  | compare (a b : Source) (next : Bool → Script)
  | collect (next : Script)

namespace Script

/-- The results a list of sources refers to. -/
def sourced (sources : List Source) : Set Nat := {i | .result i ∈ sources}

/-- The results a script refers to. -/
def mentions : Script → Set Nat
  | done _ | fail _ => ∅
  | ask _ _ sources next => sourced sources ∪ ⋃ a, (next a).mentions
  | invoke _ sources next => sourced sources ∪ ⋃ a, (next a).mentions
  | define _ _ upvalues next => sourced upvalues ∪ next.mentions
  | compare a b next => sourced [a, b] ∪ ⋃ b, (next b).mentions
  | collect next => next.mentions

/-- The values of some of the results. -/
def valuesOf (is : Set Nat) (results : List Value) : Set Value :=
  {v | ∃ i ∈ is, results[i]? = some v}

/-- The program a script runs as, with the results so far. The state of its host are the values that
the running scripts still use. -/
def program : Script → List Value → HostProgram (Set Value)
  | done n, _ => .done n
  | fail e, _ => .fail e
  | ask r _ sources next, results =>
    let r' := r.fill (sources.map (·.value results))
    .ask r' fun reply =>
      let answer := reply.map r'.report
      (next (answer.map Answer.blind)).program (results ++ [Answer.result answer])
  | invoke i sources next, results =>
    let i' := i.fill (sources.map (·.value results))
    .fetch fun held =>
      .update (fun _ => valuesOf (⋃ a, (next a).mentions) results ∪ held) <|
        .invoke i' fun reply =>
          let answer := reply.map i'.report
          .update (fun _ => held) <|
            (next (answer.map Answer.blind)).program (results ++ [Answer.result answer])
  | define name body upvalues next, results =>
    .define name (body.program []) (upvalues.map (·.value results)).toArray fun f =>
      next.program (results ++ [f])
  | compare a b next, results => (next ((a.value results).rawEqual (b.value results))).program results
  | collect next, results =>
    .fetch fun held =>
      .update (fun _ => valuesOf next.mentions results ∪ held) <|
        .ask .collect fun _ => .update (fun _ => held) (next.program results)

/-- The script without its collections, and with functions without theirs. -/
def withoutCollections : Script → Script
  | done n => done n
  | fail e => fail e
  | ask r hr sources next => ask r hr sources fun a => (next a).withoutCollections
  | invoke i sources next => invoke i sources fun a => (next a).withoutCollections
  | define name body upvalues next =>
    define name body.withoutCollections upvalues next.withoutCollections
  | compare a b next => compare a b fun c => (next c).withoutCollections
  | collect next => next.withoutCollections

end Script

/-! ## Runs -/

/-- What a run goes through: the end of an operation with its outcome, or the begin of a collection
with the values the host holds on to. -/
inductive Moment
  | operation (outcome : Except RuntimeError Answer) (s : State)
  | collection (s : State) (held : Set Value)

namespace Moment

/-- Whether a moment is that of an operation. -/
def isOperation : Moment → Bool
  | operation .. => true
  | collection .. => false

/-- What is asked of a moment: no arena has more entries than there are handles, and at a
collection, the values that are still used are rooted. These are the values the host holds on to, and
those in slots beyond the top, which are nil unless registers have been written there. -/
def Careful : Moment → Prop
  | operation _ s => s.heap.Fits
  | collection s held =>
    (∀ v ∈ held, s.Rooted v) ∧ ∀ i, s.top ≤ i → s.Rooted (s.stack.get i)

end Moment

/-- The moment of a request. -/
def Request.moment (m : Machine (Set Value)) : Request → Moment
  | collect => .collection m.state m.host
  | r => .operation ((r.answer m.state).1.map r.report) (r.answer m.state).2

namespace HostProgram

variable (enter : HostProgram (Set Value) → MachineM (Set Value) Nat)
  (inner : HostProgram (Set Value) → Machine (Set Value) → List Moment)

/-- The moments of a program, if programs that are entered are run by `enter` and have the moments
`inner`. -/
def moments : HostProgram (Set Value) → Machine (Set Value) → List Moment
  | done _, _ | fail _, _ => []
  | ask r next, m =>
    let answer := MachineM.lift r.answer m
    r.moment m :: moments (next answer.1) answer.2
  | invoke i next, m =>
    let answer := MachineM.invoke enter i m
    (match i.enters? m with
      | some (body, k) => inner body k
      | none => []) ++
    .operation (answer.1.map i.report) answer.2.state :: moments (next answer.1) answer.2
  | define name body upvalues next, m =>
    let f := (m.state.addNative name upvalues).1
    let m' := m.addFunction name body upvalues
    .operation (.ok (.value f)) m'.state :: moments (next f) m'
  | fetch next, m => moments (next m.host) m
  | update f next, m => moments next (m.withHost (f m.host))

/-- The moments of a program in which calls are nested up to the given number of levels. -/
def momentsWithin : Nat → HostProgram (Set Value) → Machine (Set Value) → List Moment
  | 0, _, _ => []
  | levels + 1, p, m => p.moments (runWithin levels) (momentsWithin levels) m

end HostProgram

/-! ## Runs that correspond -/

/-- Two outcomes agree: both operations failed with the same error, or both gave something, as `post`
says. -/
inductive Outcomes {α β : Type} (post : α → β → Prop) :
    Except RuntimeError α → Except RuntimeError β → Prop
  | error (e : RuntimeError) : Outcomes post (.error e) (.error e)
  | ok {a : α} {b : β} (h : post a b) : Outcomes post (.ok a) (.ok b)

lemma Outcomes.imp {α β : Type} {post post' : α → β → Prop} {r : Except RuntimeError α}
    {r' : Except RuntimeError β} (h : Outcomes post r r') (himp : ∀ a b, post a b → post' a b) :
    Outcomes post' r r' := by
  cases h with
  | error e => exact .error e
  | ok h => exact .ok (himp _ _ h)

/-- Two answers correspond: they are values that do, or they are the same and no values. -/
inductive Answer.Corresponds (ρ : Pairing) : Answer → Answer → Prop
  | value {v w : Value} (h : v.Corresponds ρ w) : Corresponds ρ (.value v) (.value w)
  | same {a : Answer} (h : ∀ v, a ≠ .value v) : Corresponds ρ a a

/-- **A renaming of handles**: objects in use in two states are paired one-to-one, none of the first
state is left out, strings are paired with strings of the same content, and all other objects of the
first state have the handle that `naming` gives to their partner. -/
structure Pairing.Renames (naming : Object → Object → Prop) (s t : State) (ρ : Pairing) :
    Prop where
  biUnique : Relator.BiUnique ρ
  total : ∀ o, s.heap.InUse o → ∃ o', ρ o o'
  inUse : ∀ o o', ρ o o' → s.heap.InUse o ∧ t.heap.InUse o'
  string : ∀ o o', ρ o o' → (o.IsString ∨ o'.IsString) →
    ∃ i j c, o = .string i ∧ o' = .string j ∧ s.heap.HoldsString i c ∧ t.heap.HoldsString j c
  renamed : ∀ o o', ρ o o' → ¬ o'.IsString → naming o o'

/-- Two moments correspond: they are those of operations with the same outcome, up to a renaming. -/
inductive Moment.Corresponds (naming : Object → Object → Prop) : Moment → Moment → Prop
  | operation {r r' : Except RuntimeError Answer} {s t : State} {ρ : Pairing}
    (hρ : ρ.Renames naming s t) (hr : Outcomes (Answer.Corresponds ρ) r r') :
    Corresponds naming (.operation r s) (.operation r' t)

end ScriptCore
