import Mathlib
import ScriptCore.Proofs.Relocation

set_option relaxedAutoImplicit false
set_option autoImplicit false

/-!
# Calls at different places

What a call does to the stack is a matter of the values from the slot of its function on: the
function, its arguments, and later the results. So two calls with the same values there come to the
same result and leave the same values, if the function does not tell its two frames apart and the
results fit.

## Main definitions

* `ScriptCore.Slots.segment` — the values of a run of slots.
* `ScriptCore.State.AlikeFrom` — states with the same values from a slot on.
* `ScriptCore.MachineM.Relocates` — an operation does the same in two machines, seen from two slots.
* `ScriptCore.MachineM.ResultsFit` — there is room for the results of a call.

## Main results

* `ScriptCore.MachineM.relocates_call_from` — calls, seen from the slot of the function.
* `ScriptCore.MachineM.relocates_call`, `ScriptCore.MachineM.relocates_protectedCall` — calls in two
  frames with the same values.
-/

namespace ScriptCore

/-! ## Runs of slots -/

namespace Slots

/-- The values of the slots from `lo` up to `hi`. -/
def segment (s : Slots) (lo hi : Nat) : List Value :=
  (List.range (hi - lo)).map fun i => s.get (lo + i)

variable {s t : Slots} {lo mid hi : Nat}

@[simp]
lemma length_segment (s : Slots) (lo hi : Nat) : (s.segment lo hi).length = hi - lo := by
  rw [segment, List.length_map, List.length_range]

lemma getElem?_segment (s : Slots) (lo hi i : Nat) :
    (s.segment lo hi)[i]? = if lo + i < hi then some (s.get (lo + i)) else none := by
  rw [segment, List.getElem?_map]
  split
  · rw [List.getElem?_range (by omega)]
    rfl
  · rw [List.getElem?_eq_none (by rw [List.length_range]; omega)]
    rfl

/-- Segments are the same if their slots are. -/
lemma segment_congr (h : ∀ i, lo ≤ i → i < hi → t.get i = s.get i) :
    t.segment lo hi = s.segment lo hi := by
  refine List.ext_getElem? fun i => ?_
  rw [getElem?_segment, getElem?_segment]
  split
  · rw [h _ (by omega) ‹_›]
  · rfl

/-- A segment is cut at a slot. -/
lemma segment_append (hlo : lo ≤ mid) (hhi : mid ≤ hi) :
    s.segment lo hi = s.segment lo mid ++ s.segment mid hi := by
  refine List.ext_getElem? fun i => ?_
  rw [List.getElem?_append, getElem?_segment, getElem?_segment, getElem?_segment, length_segment]
  by_cases hi' : i < mid - lo
  · rw [if_pos hi', if_pos (by omega), if_pos (by omega)]
  · rw [if_neg hi']
    have heq : mid + (i - (mid - lo)) = lo + i := by omega
    rw [heq]

lemma segment_eq_take (hlo : lo ≤ mid) (hhi : mid ≤ hi) :
    s.segment lo mid = (s.segment lo hi).take (mid - lo) := by
  rw [segment_append hlo hhi, List.take_left' (length_segment _ _ _)]

lemma segment_eq_drop (hlo : lo ≤ mid) (hhi : mid ≤ hi) :
    s.segment mid hi = (s.segment lo hi).drop (mid - lo) := by
  rw [segment_append hlo hhi, List.drop_left' (length_segment _ _ _)]

end Slots

/-! ## States with the same values from a slot on -/

namespace State

/-- Two states agree and have the same values from a slot of each on. -/
structure AlikeFrom (lo lo' : Nat) (s t : State) : Prop extends Agree s t where
  segment : t.stack.segment lo' t.top = s.stack.segment lo s.top
  floor_le : lo ≤ s.top
  floor_le' : lo' ≤ t.top
  top_le : s.top ≤ stackLimit
  top_le' : t.top ≤ stackLimit

variable {s t s' t' : State} {lo lo' slot slot' : Nat}

/-- The values of the frame are those from its base on. -/
lemma view_eq_segment (s : State) : s.view = s.stack.segment s.base s.top := rfl

lemma Alike.from_base (h : s.Alike t) : AlikeFrom s.base t.base s t :=
  ⟨h.toAgree, h.view, h.bounded.base_le, h.bounded'.base_le, h.bounded.top_le, h.bounded'.top_le⟩

lemma AlikeFrom.alike (h : AlikeFrom s.base t.base s t)
    (hnative : t.frames.head?.bind (·.native) = s.frames.head?.bind (·.native)) : s.Alike t :=
  ⟨h.toAgree, hnative, h.segment, ⟨h.floor_le, h.top_le⟩, ⟨h.floor_le', h.top_le'⟩⟩

namespace Agree

/-- States agree whatever is on their stacks. -/
lemma restack (h : s.Agree t) (stack stack' : Slots) (top top' : Nat) :
    ((s.withStack stack).withTop top).Agree ((t.withStack stack').withTop top') :=
  ((of_stack s stack top).symm.trans h).trans (of_stack t stack' top')

lemma enterFrame (h : s.Agree t) (f g : Frame) : (s.enterFrame f).Agree (t.enterFrame g) :=
  ⟨h.heap, h.natives, h.globals, h.registry, h.stress, h.broken,
    congrArg Nat.succ h.depth⟩

lemma leaveFrame (h : s.Agree t) : s.leaveFrame.Agree t.leaveFrame := by
  refine ⟨h.heap, h.natives, h.globals, h.registry, h.stress, h.broken, ?_⟩
  rw [frames_leaveFrame, frames_leaveFrame, List.length_tail, List.length_tail, h.depth]

lemma withHeap (h : s.Agree t) (heap : Heap) : Agree { s with heap } { t with heap } :=
  ⟨rfl, h.natives, h.globals, h.registry, h.stress, h.broken, h.depth⟩

end Agree

/-- Dropping everything from a slot within the stack on. -/
lemma unwind_of_le (htop : s.top ≤ stackLimit) (hslot : slot ≤ stackLimit) :
    s.unwind slot = (s.withStack (s.stack.fill (max s.top slot - slot) slot)).withTop slot := by
  rw [unwind_eq, clear_of_le _ _ (by omega)]

namespace AlikeFrom

lemma symm (h : AlikeFrom lo lo' s t) : AlikeFrom lo' lo t s :=
  ⟨h.toAgree.symm, h.segment.symm, h.floor_le', h.floor_le, h.top_le', h.top_le⟩

/-- From the tops on, there are no values. -/
lemma of_agree (h : s.Agree t) (hs : s.top ≤ stackLimit) (ht : t.top ≤ stackLimit) :
    AlikeFrom s.top t.top s t := by
  refine ⟨h, ?_, le_rfl, le_rfl, hs, ht⟩
  rw [Slots.segment, Slots.segment, Nat.sub_self, Nat.sub_self]
  rfl

lemma length_eq (h : AlikeFrom lo lo' s t) : t.top - lo' = s.top - lo := by
  have hlength := congrArg List.length h.segment
  rwa [Slots.length_segment, Slots.length_segment] at hlength

lemma get_eq (h : AlikeFrom lo lo' s t) {i : Nat} (hi : lo + i < s.top) :
    t.stack.get (lo' + i) = s.stack.get (lo + i) := by
  have hlength := h.length_eq
  have hvalue := congrArg (·[i]?) h.segment
  simp only [Slots.getElem?_segment] at hvalue
  rwa [if_pos (by omega), if_pos hi, Option.some.injEq] at hvalue

/-- States with the same values from a slot on have so from a higher one on. -/
lemma raise (h : AlikeFrom lo lo' s t) {d : Nat} (hd : lo + d ≤ s.top) :
    AlikeFrom (lo + d) (lo' + d) s t := by
  have hlength := h.length_eq
  have hfloor' := h.floor_le'
  refine ⟨h.toAgree, ?_, hd, by omega, h.top_le, h.top_le'⟩
  rw [Slots.segment_eq_drop (Nat.le_add_right lo d) hd,
    Slots.segment_eq_drop (Nat.le_add_right lo' d) (by omega), h.segment, Nat.add_sub_cancel_left,
    Nat.add_sub_cancel_left]

/-- What is tidy from a slot on keeps the values below it. -/
lemma lower (h : AlikeFrom lo lo' s t) {d : Nat} (hs : Tidy (lo + d) s s')
    (ht : Tidy (lo' + d) t t') (hd : lo + d ≤ s.top) (h' : AlikeFrom (lo + d) (lo' + d) s' t') :
    AlikeFrom lo lo' s' t' := by
  have hlength := h.length_eq
  have hfloor' := h.floor_le'
  have hs' := hs.floor_le
  have ht' := ht.floor_le
  refine ⟨h'.toAgree, ?_, by omega, by omega, hs.top_le, ht.top_le⟩
  rw [Slots.segment_append (Nat.le_add_right lo d) hs',
    Slots.segment_append (Nat.le_add_right lo' d) ht', h'.segment,
    Slots.segment_congr fun i _ hi => hs.below i hi, Slots.segment_congr fun i _ hi => ht.below i hi,
    Slots.segment_eq_take (Nat.le_add_right lo d) hd,
    Slots.segment_eq_take (Nat.le_add_right lo' d) (show lo' + d ≤ t.top by omega), h.segment,
    Nat.add_sub_cancel_left, Nat.add_sub_cancel_left]

/-- The values from a slot on are dropped. -/
lemma unwind_of_agree (h : s.Agree t) (hs : s.top ≤ stackLimit) (ht : t.top ≤ stackLimit)
    (hlo : lo ≤ stackLimit) (hlo' : lo' ≤ stackLimit) :
    AlikeFrom lo lo' (s.unwind lo) (t.unwind lo') := by
  rw [unwind_of_le hs hlo, unwind_of_le ht hlo']
  exact of_agree (h.restack _ _ _ _) hlo hlo'

lemma unwind (h : AlikeFrom lo lo' s t) : AlikeFrom lo lo' (s.unwind lo) (t.unwind lo') :=
  unwind_of_agree h.toAgree h.top_le h.top_le' (h.floor_le.trans h.top_le)
    (h.floor_le'.trans h.top_le')

/-- A value is pushed. -/
lemma push (h : AlikeFrom lo lo' s t) (v : Value) (hs : s.top < stackLimit)
    (ht : t.top < stackLimit) :
    AlikeFrom lo lo' ((s.withStack (s.stack.set s.top v)).withTop (s.top + 1))
      ((t.withStack (t.stack.set t.top v)).withTop (t.top + 1)) := by
  have hlength := h.length_eq
  have hlo := h.floor_le
  have hlo' := h.floor_le'
  refine ⟨h.restack _ _ _ _, ?_, Nat.le_succ_of_le hlo, Nat.le_succ_of_le hlo', hs, ht⟩
  refine List.ext_getElem? fun i => ?_
  rw [Slots.getElem?_segment, Slots.getElem?_segment, top_withTop, top_withTop, stack_withTop,
    stack_withTop, stack_withStack, stack_withStack, Slots.get_set, Slots.get_set]
  by_cases hi : lo + i < s.top
  · rw [if_pos (by omega), if_neg (by omega), if_pos (by omega), if_neg (by omega), h.get_eq hi]
  · by_cases heq : lo + i = s.top
    · rw [if_pos (by omega), if_pos (by omega), if_pos (by omega), if_pos (by omega)]
    · rw [if_neg (by omega), if_neg (by omega)]

/-- Values are pushed. -/
lemma pushAll (h : AlikeFrom lo lo' s t) (vs : List Value) (hs : s.top + vs.length ≤ stackLimit)
    (ht : t.top + vs.length ≤ stackLimit) :
    (State.pushAll vs s).1 = .ok () ∧ (State.pushAll vs t).1 = .ok () ∧
      AlikeFrom lo lo' (State.pushAll vs s).2 (State.pushAll vs t).2 := by
  induction vs generalizing s t with
  | nil => exact ⟨rfl, rfl, h⟩
  | cons v vs ih =>
    rw [List.length_cons] at hs ht
    rw [pushAll_cons, bind_apply, bind_apply, push_apply, push_apply, if_neg (by omega),
      if_neg (by omega)]
    exact ih (h.push v (by omega) (by omega)) (by rw [top_withTop]; omega)
      (by rw [top_withTop]; omega)

/-- The same value is popped. -/
lemma pop (h : AlikeFrom lo lo' s t) (hs : s.base ≤ lo) (ht : t.base ≤ lo') (htop : lo < s.top) :
    (State.pop t).1 = (State.pop s).1 ∧ (State.pop s).2.Agree (State.pop t).2 ∧
      (State.pop s).2.top ≤ stackLimit ∧ (State.pop t).2.top ≤ stackLimit := by
  have hlength := h.length_eq
  have htop_le := h.top_le
  have htop_le' := h.top_le'
  have hvalue := h.get_eq (i := s.top - 1 - lo) (by omega)
  have hs' : lo + (s.top - 1 - lo) = s.top - 1 := by omega
  have ht' : lo' + (s.top - 1 - lo) = t.top - 1 := by omega
  rw [hs', ht'] at hvalue
  rw [pop_apply, pop_apply, if_neg (by omega), if_neg (by omega), hvalue]
  refine ⟨rfl, h.restack _ _ _ _, ?_, ?_⟩ <;> rw [dropped, top_withTop] <;> omega

end AlikeFrom

/-- The results of a function stand in place of it, cut or filled up with nil. The slots below it are
as they were, and those behind the results up to the top are cleared. -/
lemma returnResults_of_fits {produced n : Nat} {nresults : Int} (hslot : slot < s.top)
    (htop : s.top ≤ stackLimit) (hn : min produced (s.top - (slot + 1)) = n)
    (hfits : slot + kept n nresults ≤ stackLimit) :
    ∃ stack, returnResults slot produced nresults s =
        (.ok (), (s.withStack stack).withTop (slot + kept n nresults)) ∧
      stack.segment slot (slot + kept n nresults) =
        ((s.stack.segment slot s.top).drop (s.top - slot - n)).takeD (kept n nresults) .nil ∧
      (∀ j < slot, stack.get j = s.stack.get j) ∧
      ∀ j, slot + kept n nresults ≤ j → j < s.top → stack.get j = .nil := by
  have hmove : ∀ i, (s.stack.moveDown n (s.top - n) slot).get i =
      if slot ≤ i ∧ i < slot + n then s.stack.get (s.top - n + (i - slot)) else s.stack.get i :=
    fun i => Slots.get_moveDown _ _ _ _ _ (by omega) (by omega)
  have hreturn := returnResults_apply slot produced nresults s
  simp only [hn] at hreturn
  generalize kept n nresults = k at hfits hreturn ⊢
  rw [if_neg (by omega), clear_of_le _ _ (by omega)] at hreturn
  refine ⟨_, hreturn, List.ext_getElem? fun i => ?_, fun j hj => ?_, fun j hj hjtop => ?_⟩
  · rw [Slots.getElem?_segment, OnList.getElem?_takeD, List.getElem?_drop, Slots.getElem?_segment,
      stack_withStack, Slots.get_fill, hmove]
    by_cases hi : i < k
    · rw [if_pos (by omega), if_pos hi]
      congr 1
      by_cases hin : i < n
      · rw [if_neg (by omega), if_pos (by omega), if_pos (by omega), Option.getD_some]
        congr 1
        omega
      · rw [if_pos (by omega), if_neg (by omega), Option.getD_none]
    · rw [if_neg (by omega), if_neg hi]
  · rw [stack_withStack, Slots.get_fill, hmove, if_neg (by omega), if_neg (by omega)]
  · rw [stack_withStack, Slots.get_fill, if_pos (by omega)]

/-- The results of two functions with the same values stand in place of these, if they fit. -/
lemma AlikeFrom.returnResults (h : AlikeFrom slot slot' s t) (hslot : slot < s.top) {produced : Nat}
    {nresults : Int} (hfits : slot + kept (min produced (s.top - (slot + 1))) nresults ≤ stackLimit)
    (hfits' : slot' + kept (min produced (t.top - (slot' + 1))) nresults ≤ stackLimit) :
    (returnResults slot' produced nresults t).1 = (returnResults slot produced nresults s).1 ∧
      AlikeFrom slot slot' (returnResults slot produced nresults s).2
        (returnResults slot' produced nresults t).2 := by
  have hlength := h.length_eq
  have hn : min produced (t.top - (slot' + 1)) = min produced (s.top - (slot + 1)) := by omega
  rw [hn] at hfits'
  obtain ⟨stack, hs, hsegment, -⟩ := returnResults_of_fits hslot h.top_le rfl hfits
  obtain ⟨stack', ht, hsegment', -⟩ :=
    returnResults_of_fits (by omega) h.top_le' hn hfits'
  rw [hs, ht]
  refine ⟨rfl, h.restack _ _ _ _, ?_, Nat.le_add_right _ _, Nat.le_add_right _ _, hfits, hfits'⟩
  rw [h.segment, hlength] at hsegment'
  exact hsegment'.trans hsegment.symm

/-- The message of an error stands at the slot of a function. -/
lemma AlikeFrom.reported (h : AlikeFrom slot slot' s t) (hslot : slot < stackLimit)
    (hslot' : slot' < stackLimit) (e : RuntimeError) :
    AlikeFrom slot slot' (s.reported slot e) (t.reported slot' e) := by
  have hunwind := h.unwind
  refine ⟨?_, ?_, Nat.le_succ slot, Nat.le_succ slot', hslot, hslot'⟩
  · rw [State.reported, State.reported, h.heap]
    exact (hunwind.withHeap _).restack _ _ _ _
  · refine List.ext_getElem? fun i => ?_
    rw [Slots.getElem?_segment, Slots.getElem?_segment, State.reported, State.reported, h.heap,
      top_withTop, top_withTop, stack_withTop, stack_withTop, stack_withStack, stack_withStack,
      Slots.get_set, Slots.get_set]
    by_cases hi : i = 0
    · rw [hi, if_pos (by omega), if_pos (by omega), if_pos (by omega), if_pos (by omega)]
    · rw [if_neg (by omega), if_neg (by omega)]

end State

/-! ## Machines -/

variable {σ α : Type}

/-- Two machines have the same functions and the same host, and their states are related. -/
structure Machine.Related (m : Machine σ) (R : State → State → Prop) (n : Machine σ) : Prop where
  state : R m.state n.state
  bodies : n.bodies = m.bodies
  host : n.host = m.host

lemma Machine.Related.imp {R R' : State → State → Prop} {m n : Machine σ} (h : m.Related R n)
    {s t : State} (hs : R' s t) : (m.withState s).Related R' (n.withState t) :=
  ⟨hs, h.bodies, h.host⟩

lemma Machine.Related.symm {R : State → State → Prop} {m n : Machine σ} (h : m.Related R n)
    (hs : R n.state m.state) : n.Related R m := ⟨hs, h.bodies.symm, h.host.symm⟩

namespace MachineM

open State

/-- An operation has the same result in two machines, leaves states that are related, and is tidy,
from one slot on in the one machine and from another slot on in the other. -/
structure Relocates (x : MachineM σ α) (R : State → State → Prop) (floor floor' : Nat)
    (m n : Machine σ) : Prop where
  result : (x n).1 = (x m).1
  related : (x m).2.Related R (x n).2
  tidy : m.state.Tidy floor (x m).2.state
  tidy' : n.state.Tidy floor' (x n).2.state

variable {enter : HostProgram σ → MachineM σ Nat} {m n : Machine σ} {nargs : Nat} {nresults : Int}

/-- Programs that are entered do not tell their frames apart. -/
def Enters (enter : HostProgram σ → MachineM σ Nat) (x y : Option (HostProgram σ × Machine σ)) :
    Prop :=
  ∀ body k k', x = some (body, k) → y = some (body, k') → k.Related Alike k' →
    Relocates (enter body) Alike k.state.base k'.state.base k k'

section Entries

variable {x y : Option (HostProgram σ × Machine σ)} (h : Enters enter x y)

include h

/-- A program that is entered in the one machine and in the other one too is tidy. -/
lemma Enters.tidy
    (hxy : ∀ {body k}, x = some (body, k) → ∃ k', y = some (body, k') ∧ k.Related Alike k')
    {body : HostProgram σ} {k : Machine σ} (hk : x = some (body, k)) :
    k.state.Tidy k.state.base (enter body k).2.state := by
  obtain ⟨k', hk', halike⟩ := hxy hk
  exact (h body k k' hk hk' halike).tidy

lemma Enters.tidy'
    (hyx : ∀ {body k}, y = some (body, k) → ∃ k', x = some (body, k') ∧ k.Related Alike k')
    {body : HostProgram σ} {k : Machine σ} (hk : y = some (body, k)) :
    k.state.Tidy k.state.base (enter body k).2.state := by
  obtain ⟨k', hk', halike⟩ := hyx hk
  exact (h body k' k hk' hk (halike.symm halike.state.symm)).tidy'

end Entries

section Calls

variable {slot slot' : Nat}

/-- Two machines with the same values from that of a function on find the same function. -/
lemma callee_alikeFrom (hsize : nargs < m.state.size) (hsize' : nargs < n.state.size)
    (h : m.Related (AlikeFrom (m.state.top - nargs - 1) (n.state.top - nargs - 1)) n) :
    (callee nargs n).1 =
      (callee nargs m).1.map fun c => (n.state.top - nargs - 1, c.2) := by
  have hm : m.state.size = m.state.top - m.state.base := rfl
  have hvalue : n.state.stack.get (n.state.top - nargs - 1) =
      m.state.stack.get (m.state.top - nargs - 1) := h.state.get_eq (i := 0) (by omega)
  simp only [callee, bind_apply, get_apply, andThen_ok, ite_run, throw_apply]
  rw [if_neg (by omega), if_neg (by omega), hvalue, h.bodies, h.state.depth]
  rcases (m.state.stack.get (m.state.top - nargs - 1)).function?.bind fun i =>
    (m.bodies[i]?).map fun body => (i, body) with _ | ⟨i, body⟩
  · rfl
  · simp only [ite_run, bind_apply, throw_apply, pure_apply]
    split <;> rfl

/-- A function that is entered has the values above its own as its frame. -/
lemma alike_entered (h : m.Related (AlikeFrom slot slot') n) (hslot : slot < m.state.top) (i : Nat) :
    (m.entered slot i).Related Alike (n.entered slot' i) := by
  have hraise := h.state.raise (d := 1) hslot
  refine h.imp (AlikeFrom.alike ?_ rfl)
  exact ⟨h.state.enterFrame _ _, hraise.segment, hraise.floor_le, hraise.floor_le', hraise.top_le,
    hraise.top_le'⟩

/-- Once the frames of two functions are closed that have left the same values in them, there are the
same values from the slots of the functions on. -/
lemma alikeFrom_left (h : m.Related (AlikeFrom slot slot') n) (hslot : slot < m.state.top) {i : Nat}
    {body : HostProgram σ}
    (hbody : Relocates (enter body) Alike (slot + 1) (slot' + 1) (m.entered slot i)
      (n.entered slot' i)) :
    (enter body (m.entered slot i)).2.left.Related (AlikeFrom slot slot')
      (enter body (n.entered slot' i)).2.left := by
  refine hbody.related.imp (h.state.lower (d := 1) (tidy_left hbody.tidy) (tidy_left hbody.tidy')
    hslot ?_)
  have habove := hbody.related.state.from_base
  rw [hbody.tidy.base, hbody.tidy'.base] at habove
  exact ⟨habove.leaveFrame, habove.segment, habove.floor_le, habove.floor_le', habove.top_le,
    habove.top_le'⟩

/-- What a call does with what its function gave is the same in two machines with the same values from
the slot of the function on, if the results fit. -/
lemma alikeFrom_settle (nresults : Int) (h : m.Related (AlikeFrom slot slot') n) (hslot : slot < m.state.top)
    (r : Except RuntimeError Nat)
    (hfits : ∀ produced, r = .ok produced →
      slot + kept (min produced (m.state.top - (slot + 1))) nresults ≤ stackLimit)
    (hfits' : ∀ produced, r = .ok produced →
      slot' + kept (min produced (n.state.top - (slot' + 1))) nresults ≤ stackLimit) :
    (settle slot' nresults r n).1 = (settle slot nresults r m).1 ∧
      (settle slot nresults r m).2.Related (AlikeFrom slot slot') (settle slot' nresults r n).2 := by
  cases r with
  | error e => exact ⟨rfl, h.imp h.state.unwind⟩
  | ok produced =>
    obtain ⟨hresult, hstate⟩ :=
      h.state.returnResults hslot (hfits produced rfl) (hfits' produced rfl)
    exact ⟨hresult, h.imp hstate⟩

end Calls

/-- There is room for the results of the function below `nargs` arguments in place of it, if it
comes back. -/
def ResultsFit (enter : HostProgram σ → MachineM σ Nat) (nargs : Nat) (nresults : Int)
    (m : Machine σ) : Prop :=
  ∀ slot i body produced, (callee nargs m).1 = .ok (slot, i, body) →
    (enter body (m.entered slot i)).1 = .ok produced →
    slot + kept (min produced ((enter body (m.entered slot i)).2.state.top - (slot + 1))) nresults ≤
      stackLimit

/-- There is always room for one result. -/
lemma resultsFit_one (hm : m.state.Bounded) : ResultsFit enter nargs 1 m := by
  intro slot i body produced hc hr
  obtain ⟨hsize, hslot, -⟩ := callee_eq_ok_iff.mp hc
  have hsize' : m.state.size = m.state.top - m.state.base := rfl
  have htop := hm.top_le
  rw [kept, if_neg (by decide), Int.toNat_one]
  omega

/-- **Calls at different places.** In two machines with the same values from that of a function on, a
call of it has the same result and leaves the same values from there on. -/
lemma relocates_call_from (hm : m.state.Bounded) (hn : n.state.Bounded)
    (hsize : nargs < m.state.size) (hsize' : nargs < n.state.size)
    (h : m.Related (AlikeFrom (m.state.top - nargs - 1) (n.state.top - nargs - 1)) n)
    (henter : Enters enter (m.callEnters? nargs) (n.callEnters? nargs))
    (hfits : ResultsFit enter nargs nresults m) (hfits' : ResultsFit enter nargs nresults n) :
    Relocates (call enter nargs nresults)
      (AlikeFrom (m.state.top - nargs - 1) (n.state.top - nargs - 1))
      (m.state.top - nargs - 1) (n.state.top - nargs - 1) m n := by
  have hm' : m.state.size = m.state.top - m.state.base := rfl
  have hcallee := callee_alikeFrom hsize hsize' h
  cases hc : (callee nargs m).1 with
  | error e =>
    rw [hc] at hcallee
    have hcall : call enter nargs nresults m = _ := call_of_error enter hc
    have hcall' : call enter nargs nresults n = _ := call_of_error enter hcallee
    refine ⟨?_, ?_, ?_, ?_⟩ <;> simp only [hcall, hcall']
    · exact h
    · exact .refl h.state.floor_le hm.top_le
    · exact .refl h.state.floor_le' hn.top_le
  | ok c =>
    obtain ⟨slot, i, body⟩ := c
    obtain ⟨-, rfl, -⟩ := callee_eq_ok_iff.mp hc
    rw [hc] at hcallee
    have hcallee : (callee nargs n).1 = .ok (n.state.top - nargs - 1, i, body) := hcallee
    have hcall : call enter nargs nresults m = _ := call_of_ok enter hc
    have hcall' : call enter nargs nresults n = _ := call_of_ok enter hcallee
    have hslot : m.state.top - nargs - 1 < m.state.top := by omega
    have hbody : Relocates (enter body) Alike _ _ (m.entered (m.state.top - nargs - 1) i)
        (n.entered (n.state.top - nargs - 1) i) :=
      henter body _ _ (Machine.callEnters?_of_callee hc)
        (by simp only [Machine.callEnters?, hcallee]) (alike_entered h hslot i)
    have hsettle := alikeFrom_settle nresults (alikeFrom_left h hslot hbody)
      (Nat.lt_of_succ_le hbody.tidy.floor_le)
      (enter body (m.entered (m.state.top - nargs - 1) i)).1
      (fun produced hr => hfits _ i body produced hc hr)
      fun produced hr => hfits' _ i body produced hcallee (hbody.result.trans hr)
    refine ⟨?_, ?_, ?_, ?_⟩ <;> simp only [hcall, hcall', hbody.result]
    · exact hsettle.1
    · exact hsettle.2
    · exact tidy_settle (h.state.floor_le.trans hm.top_le) hbody.tidy
    · exact tidy_settle (h.state.floor_le'.trans hn.top_le) hbody.tidy'

lemma callee_of_size_le (hsize : m.state.size ≤ nargs) :
    (callee nargs m).1 = .error .stackUnderflow := by
  simp only [callee, bind_apply, get_apply, andThen_ok, ite_run, throw_apply]
  rw [if_pos (by omega), andThen_error]

/-- The same for a protected call: the message of an error is a value like others. -/
lemma relocates_protectedCall_from (hm : m.state.Bounded) (hn : n.state.Bounded)
    (hsize : nargs < m.state.size) (hsize' : nargs < n.state.size)
    (h : m.Related (AlikeFrom (m.state.top - nargs - 1) (n.state.top - nargs - 1)) n)
    (henter : Enters enter (m.callEnters? nargs) (n.callEnters? nargs))
    (hfits : ResultsFit enter nargs nresults m) (hfits' : ResultsFit enter nargs nresults n) :
    Relocates (protectedCall enter nargs nresults)
      (AlikeFrom (m.state.top - nargs - 1) (n.state.top - nargs - 1))
      (m.state.top - nargs - 1) (n.state.top - nargs - 1) m n := by
  have hsize₁ : m.state.size = m.state.top - m.state.base := rfl
  have hsize₂ : n.state.size = n.state.top - n.state.base := rfl
  have htop := hm.top_le
  have htop' := hn.top_le
  have hcall := relocates_call_from hm hn hsize hsize' h henter hfits hfits'
  cases hr : (call enter nargs nresults m).1 with
  | ok u =>
    have hok : protectedCall enter nargs nresults m = _ := protectedCall_of_ok enter hsize hr
    have hok' : protectedCall enter nargs nresults n = _ :=
      protectedCall_of_ok enter hsize' (hcall.result.trans hr)
    exact ⟨by rw [hok, hok', hcall.result], by rw [hok, hok']; exact hcall.related,
      by rw [hok]; exact hcall.tidy, by rw [hok']; exact hcall.tidy'⟩
  | error e =>
    have herror : protectedCall enter nargs nresults m = _ :=
      protectedCall_of_tidy hm hsize hr hcall.tidy
    have herror' : protectedCall enter nargs nresults n = _ :=
      protectedCall_of_tidy hn hsize' (hcall.result.trans hr) hcall.tidy'
    have hslot : m.state.top - nargs - 1 < stackLimit := by omega
    have hslot' : n.state.top - nargs - 1 < stackLimit := by omega
    refine ⟨?_, ?_, ?_, ?_⟩ <;> simp only [herror, herror']
    · exact hcall.related.imp (hcall.related.state.reported hslot hslot' e)
    · exact hcall.tidy.reported e hslot
    · exact hcall.tidy'.reported e hslot'

/-- What happens from a slot of two frames with the same values on leaves two frames with the same
values. -/
lemma Relocates.lift {x : MachineM σ α} {slot slot' : Nat} (h : m.Related Alike n)
    (hslot : m.state.base ≤ slot) (hslot' : slot' = n.state.base + (slot - m.state.base))
    (htop : slot ≤ m.state.top)
    (hx : m.Related (AlikeFrom slot slot') n → Relocates x (AlikeFrom slot slot') slot slot' m n) :
    Relocates x Alike m.state.base n.state.base m n := by
  obtain ⟨d, rfl⟩ := Nat.exists_eq_add_of_le hslot
  rw [Nat.add_sub_cancel_left] at hslot'
  subst hslot'
  have hx := hx ⟨h.state.from_base.raise htop, h.bodies, h.host⟩
  have hbase := hx.tidy.base
  have hbase' := hx.tidy'.base
  have hstate := h.state.from_base.lower hx.tidy hx.tidy' htop hx.related.state
  rw [← hbase, ← hbase'] at hstate
  refine ⟨hx.result, ⟨hstate.alike ?_, hx.related.bodies, hx.related.host⟩,
    hx.tidy.mono (Nat.le_add_right _ _), hx.tidy'.mono (Nat.le_add_right _ _)⟩
  rw [hx.tidy.frames, hx.tidy'.frames]
  exact h.state.native

/-- A call that finds too few values on the stack fails in two frames with the same values; otherwise
it is a matter of the values from that of the function on. -/
lemma relocates_of_from {x : MachineM σ α} (h : m.Related Alike n)
    (hunder : ∀ k : Machine σ, k.state.size ≤ nargs → x k = (.error .stackUnderflow, k))
    (hx : nargs < m.state.size → nargs < n.state.size →
      m.Related (AlikeFrom (m.state.top - nargs - 1) (n.state.top - nargs - 1)) n →
      Relocates x (AlikeFrom (m.state.top - nargs - 1) (n.state.top - nargs - 1))
        (m.state.top - nargs - 1) (n.state.top - nargs - 1) m n) :
    Relocates x Alike m.state.base n.state.base m n := by
  have hsize₁ : m.state.size = m.state.top - m.state.base := rfl
  have hsize₂ : n.state.size = n.state.top - n.state.base := rfl
  have hsize := h.state.size_eq
  have hm := h.state.bounded
  have hn := h.state.bounded'
  by_cases hle : m.state.size ≤ nargs
  · refine ⟨?_, ?_, ?_, ?_⟩ <;> simp only [hunder m hle, hunder n (hsize ▸ hle)]
    · exact h
    · exact .refl hm.base_le hm.top_le
    · exact .refl hn.base_le hn.top_le
  · have hbase := hn.base_le
    exact .lift h (by omega) (by omega) (by omega) (hx (by omega) (by omega))

/-- **A call in a frame** has the same result and leaves the same values in two frames with the same
values. -/
lemma relocates_call (h : m.Related Alike n)
    (henter : Enters enter (m.callEnters? nargs) (n.callEnters? nargs))
    (hfits : ResultsFit enter nargs nresults m) (hfits' : ResultsFit enter nargs nresults n) :
    Relocates (call enter nargs nresults) Alike m.state.base n.state.base m n :=
  relocates_of_from h (fun _ hk => call_of_error enter (callee_of_size_le hk))
    fun hsize hsize' h' =>
      relocates_call_from h.state.bounded h.state.bounded' hsize hsize' h' henter hfits hfits'

lemma relocates_protectedCall (h : m.Related Alike n)
    (henter : Enters enter (m.callEnters? nargs) (n.callEnters? nargs))
    (hfits : ResultsFit enter nargs nresults m) (hfits' : ResultsFit enter nargs nresults n) :
    Relocates (protectedCall enter nargs nresults) Alike m.state.base n.state.base m n :=
  relocates_of_from h (fun _ hk => protectedCall_of_size_le enter hk)
    fun hsize hsize' h' =>
      relocates_protectedCall_from h.state.bounded h.state.bounded' hsize hsize' h' henter hfits
        hfits'

end MachineM

end ScriptCore
