import Mathlib
import ScriptCore.Proofs.ErrorBoundaries
import ScriptCore.Proofs.RelocatedCalls

set_option relaxedAutoImplicit false
set_option autoImplicit false

/-!
# The results of a call

A function says how many values of its frame are its results: the topmost ones, or all of them if it
says more than there are. A call puts them in place of the function and its arguments, cut or filled
up with nil to the number of results that is wanted, and clears what is left of the frame. So what a
call does to the values of the caller is told by lists: by the caller's values before, by those that
the function has left, and by the two numbers.

## Main definitions

* `ScriptCore.State.results` — the results that a caller gets out of the values of a frame.
* `ScriptCore.State.KeepsFrame` — a function has left values in its own frame, and nothing else.

## Main results

* `ScriptCore.MachineM.call_returns` — what a call leaves whose function comes back.
-/

namespace ScriptCore

namespace State

/-! ## Results as lists -/

/-- The results that a caller gets who wants `nresults` of them, or all for `-1`, out of the values `w`
of a frame the topmost `produced` of which are results. -/
def results (produced : Nat) (nresults : Int) (w : List Value) : List Value :=
  let last := w.rtake (min produced w.length)
  if nresults = -1 then last else last.takeD nresults.toNat .nil

lemma length_rtake_min (produced : Nat) (w : List Value) :
    (w.rtake (min produced w.length)).length = min produced w.length := by
  rw [List.rtake, List.length_drop]
  omega

/-- Where all results are wanted, nothing is cut or filled up. -/
lemma results_eq_takeD (produced : Nat) (nresults : Int) (w : List Value) :
    results produced nresults w =
      (w.rtake (min produced w.length)).takeD (kept (min produced w.length) nresults) .nil := by
  rw [results, kept]
  split
  · rw [List.takeD_eq_take _ (length_rtake_min produced w).ge,
      List.take_of_length_le (length_rtake_min produced w).le]
  · rfl

@[simp]
lemma length_results (produced : Nat) (nresults : Int) (w : List Value) :
    (results produced nresults w).length = kept (min produced w.length) nresults := by
  rw [results_eq_takeD, List.takeD_length]

/-! ## Frames of functions -/

/-- A function that started in the state `s` and came to the state `t` **keeps its frame**: it has left
values in it, within the stack, and has changed neither the frames nor a slot below its own. -/
structure KeepsFrame (s t : State) : Prop where
  frames : t.frames = s.frames
  bounded : t.Bounded
  below : ∀ i < s.base, t.stack.get i = s.stack.get i

variable {s t : State} {slot produced : Nat}

/-- What is tidy above the base of a frame keeps the frame. -/
lemma Tidy.keepsFrame (h : Tidy s.base s t) : s.KeepsFrame t := ⟨h.frames, h.bounded le_rfl, h.below⟩

lemma KeepsFrame.base (h : s.KeepsFrame t) : t.base = s.base := by
  rw [State.base, h.frames, State.base]

/-- The results of a function, read off the slots from its own on. -/
lemma results_segment (nresults : Int) (hslot : slot < s.top) :
    ((s.stack.segment slot s.top).drop (s.top - slot - min produced (s.top - (slot + 1)))).takeD
        (kept (min produced (s.top - (slot + 1))) nresults) .nil =
      results produced nresults (s.stack.segment (slot + 1) s.top) := by
  rw [results_eq_takeD, Slots.length_segment, List.rtake, Slots.length_segment,
    Slots.segment_eq_drop (Nat.le_add_right slot 1) hslot, List.drop_drop]
  congr 2
  omega

/-- A value that is pushed is the last one of the frame. -/
lemma view_push (hs : s.Bounded) (hroom : s.top < stackLimit) (v : Value) :
    ((s.withStack (s.stack.set s.top v)).withTop (s.top + 1)).view = s.view ++ [v] ∧
      ((s.withStack (s.stack.set s.top v)).withTop (s.top + 1)).Bounded := by
  have hpush := push_apply v s
  rw [if_neg (by omega)] at hpush
  have hview := (refines_push hs.base_le hs.top_le v).view
  have hsize : s.size = s.top - s.base := rfl
  have hbase := hs.base_le
  rw [hpush, OnList.push, length_view, if_neg (by omega)] at hview
  exact ⟨hview, Nat.le_succ_of_le hbase, hroom⟩

/-- **Results in place of a function.** From the state `s`, the function at a slot has started and has
come to the state `t`; then its frame is closed. If there is room for its results, they follow the
values of the caller below the function, and what the function has left behind them is cleared. -/
lemma KeepsFrame.returnResults {native : Option Nat} (nresults : Int)
    (h : (s.enterFrame ⟨slot + 1, native⟩).KeepsFrame t) (hslot : s.base ≤ slot) (htop : slot ≤ s.top)
    {r : List Value} (hr : results produced nresults t.view = r)
    (hfits : slot + r.length ≤ stackLimit) :
    ∃ u, State.returnResults slot produced nresults t.leaveFrame = (.ok (), u) ∧
      u.view = s.view.take (slot - s.base) ++ r ∧ u.top = slot + r.length ∧
      (∀ j, u.top ≤ j → j < t.top → u.stack.get j = .nil) ∧ u.frames = s.frames ∧
      ∀ j < slot, u.stack.get j = s.stack.get j := by
  have hbase : t.base = slot + 1 := h.base
  have hview : t.view = t.stack.segment (slot + 1) t.top := by rw [view_eq_segment, hbase]
  have hlow : slot + 1 ≤ t.top := hbase ▸ h.bounded.base_le
  have hlength : r.length = kept (min produced (t.top - (slot + 1))) nresults := by
    rw [← hr, length_results, hview, Slots.length_segment]
  rw [hlength] at hfits
  obtain ⟨stack, hreturn, hsegment, hbelow, hclears⟩ :=
    returnResults_of_fits (s := t.leaveFrame) hlow h.bounded.top_le rfl hfits
  simp only [top_leaveFrame, stack_leaveFrame] at hreturn hsegment hbelow hclears
  rw [results_segment nresults hlow, ← hview, hr] at hsegment
  rw [← hlength] at hreturn hsegment hclears
  have hsame : ∀ j < slot, stack.get j = s.stack.get j := fun j hj =>
    (hbelow j hj).trans (h.below j (Nat.lt_succ_of_lt hj))
  -- the caller's own values are below the function
  have hcaller : stack.segment s.base slot = s.view.take (slot - s.base) := by
    rw [view_eq_segment, ← Slots.segment_eq_take hslot htop]
    exact Slots.segment_congr fun j _ hj => hsame j hj
  have hframes : t.leaveFrame.frames = s.frames := congrArg List.tail h.frames
  refine ⟨_, hreturn, ?_, rfl, hclears, hframes, hsame⟩
  have hbase' : ((t.leaveFrame.withStack stack).withTop (slot + r.length)).base = s.base := by
    rw [State.base, frames_withTop, frames_withStack, hframes, State.base]
  rw [view_eq_segment, hbase', top_withTop, stack_withTop, stack_withStack,
    Slots.segment_append hslot (Nat.le_add_right _ _), hsegment, hcaller]

end State

/-! ## Calls -/

namespace MachineM

open State

variable {σ : Type} {m k : Machine σ} {body : HostProgram σ} {nargs produced : Nat}

/-- A function keeps its frame if all operations do that a run of it comes through. -/
lemma keepsFrame_run {levels : Nat} (hm : m.state.Bounded) (hk : m.callEnters? nargs = some (body, k))
    (htidy : ∀ c, Configuration.Visits ⟨levels, body, k⟩ c → c.AsksTidily) :
    k.state.KeepsFrame (HostProgram.runWithin (levels + 1) body k).2.state :=
  (Configuration.tidy_run levels body k (Machine.callEnters?_bounded hm hk).1 htidy).2.keepsFrame

/-- **What a call leaves whose function comes back.** Take any machine, and a function that comes
back, says that `produced` values are its results, and has left the values `w` in its own frame. A call
of it succeeds if and only if there is room for the results, `r`, from the slot of the function on. The
values of the caller are then those of before without the function and its arguments, followed by `r`;
the top is right behind `r`, and every slot from there on up to the top that the function has left is
nil. The frames and all slots below the function are as before.

*Proof sketch.* The frame of the function is closed before the results are returned, so its values
`w` are those above the slot of the function. The frame of the caller is cut at that slot: below it
nothing has changed, and from it on there are the results. -/
theorem call_returns (enter : HostProgram σ → MachineM σ Nat) (nresults : Int)
    (hk : m.callEnters? nargs = some (body, k))
    (hr : (enter body k).1 = .ok produced) (hframe : k.state.KeepsFrame (enter body k).2.state) :
    let slot := m.state.top - nargs - 1
    let w := (enter body k).2.state.view
    let r := results produced nresults w
    let after := (call enter nargs nresults m).2.state
    ((call enter nargs nresults m).1 = .ok () ↔ slot + r.length ≤ stackLimit) ∧
    (slot + r.length ≤ stackLimit →
      after.view = m.state.view.rdrop (nargs + 1) ++ r ∧
      after.top = slot + r.length ∧
      (∀ j, after.top ≤ j → j < (enter body k).2.state.top → after.stack.get j = .nil) ∧
      after.frames = m.state.frames ∧
      ∀ j < slot, after.stack.get j = m.state.stack.get j) := by
  intro slot w r after
  obtain ⟨slot', i, hc, rfl⟩ := Machine.callEnters?_eq_some_iff.mp hk
  obtain ⟨hsize, hslot, -⟩ := callee_eq_ok_iff.mp hc
  obtain rfl : slot' = slot := hslot
  have hsize' : m.state.size = m.state.top - m.state.base := rfl
  have hslot_top : slot + (nargs + 1) = m.state.top := by omega
  have hlength : r.length =
      kept (min produced ((enter body (m.entered slot i)).2.state.top - (slot + 1))) nresults := by
    rw [length_results, length_view, size, hframe.base]
    rfl
  have hcall : call enter nargs nresults m = _ := call_of_ok enter hc
  refine ⟨⟨fun hok => ?_, fun hfits => call_of_return hc hr (by omega)⟩, fun hfits => ?_⟩
  · by_contra hover
    have hfail : (call enter nargs nresults m).1 = .error .stackOverflow :=
      (call_of_overflow hc hr (by omega)).1
    rw [hfail] at hok
    cases hok
  · obtain ⟨u, hreturn, hview, hrest⟩ :=
      KeepsFrame.returnResults nresults hframe (by omega) (by omega) rfl hfits
    have hafter : after = u := by
      simp only [after, hcall, hr, settle, lift_apply]
      exact congrArg Prod.snd hreturn
    have hcut : m.state.size - (nargs + 1) = slot - m.state.base := by omega
    rw [hafter, List.rdrop, length_view, hcut]
    exact ⟨hview, hrest⟩

/-- A function that pushes two values and returns one of them. -/
def pushesTwo : HostProgram Unit :=
  .ask (.push (.bool false)) fun _ => .ask (.push (.bool true)) fun _ => .done 1

lemma run_pushesTwo : ∃ n : Machine Unit,
    HostProgram.runWithin (199 + 1) pushesTwo ((oneFunction pushesTwo).entered 1 0) = (.ok 1, n) ∧
      n.state.top = 5 ∧ n.state.view = [.nil, .bool false, .bool true] := by
  have htop : ((oneFunction pushesTwo).entered 1 0).state.top = 3 := rfl
  have hbounded : ((oneFunction pushesTwo).entered 1 0).state.Bounded :=
    bounded_entered (oneFunction_bounded pushesTwo) (callee_oneFunction pushesTwo)
  have hview : ((oneFunction pushesTwo).entered 1 0).state.view = [.nil] := by
    simp only [view, size, Machine.entered, Machine.state_withState, base_enterFrame, top_enterFrame,
      stack_enterFrame, oneFunction_top, oneFunction_stack, Slots.write, Slots.get_set,
      Slots.get_empty]
    decide
  generalize (oneFunction pushesTwo).entered 1 0 = k at *
  have hroom : k.state.top + 1 < stackLimit := by rw [htop]; decide
  obtain ⟨hfirst, hbounded'⟩ := view_push hbounded (Nat.lt_of_succ_lt hroom) (.bool false)
  obtain ⟨hsecond, -⟩ := view_push hbounded' hroom (.bool true)
  have hrun : HostProgram.runWithin (199 + 1) pushesTwo k = _ :=
    (HostProgram.run_of_step (HostProgram.step_push (.bool false) _ (Nat.lt_of_succ_lt hroom))).trans
      (HostProgram.run_of_step (HostProgram.step_push (.bool true) (fun _ => .done 1) hroom))
  refine ⟨_, hrun, congrArg (· + 2) htop, hsecond.trans ?_⟩
  rw [hfirst, hview]
  rfl

/-- A call of `pushesTwo` that asks for two results gets the one there is and nil. Of the other two
values that were in its frame nothing is left. -/
theorem pushesTwo_call_returns :
    let k := (oneFunction pushesTwo).entered 1 0
    let returned := HostProgram.runWithin (199 + 1) pushesTwo k
    let after := (call (HostProgram.runWithin (199 + 1)) 1 2 (oneFunction pushesTwo)).2.state
    (oneFunction pushesTwo).callEnters? 1 = some (pushesTwo, k) ∧
    returned.1 = .ok 1 ∧ k.state.KeepsFrame returned.2.state ∧
    (oneFunction pushesTwo).state.view = [.bool true, .function 0, .nil] ∧
    returned.2.state.view = [.nil, .bool false, .bool true] ∧
    (call (HostProgram.runWithin (199 + 1)) 1 2 (oneFunction pushesTwo)).1 = .ok () ∧
    after.view = [.bool true, .bool true, .nil] ∧ after.top = 3 ∧
    after.stack.get 3 = .nil ∧ after.stack.get 4 = .nil := by
  intro k returned after
  have hk : (oneFunction pushesTwo).callEnters? 1 = some (pushesTwo, k) :=
    Machine.callEnters?_of_callee (callee_oneFunction pushesTwo)
  obtain ⟨n, hrun, htop, hview⟩ := run_pushesTwo
  have hr : returned.1 = .ok 1 := congrArg Prod.fst hrun
  have hn : returned.2 = n := congrArg Prod.snd hrun
  have hlocal : pushesTwo.IsLocal := ⟨trivial, fun _ => ⟨trivial, fun _ => trivial⟩⟩
  have hframe : k.state.KeepsFrame returned.2.state :=
    keepsFrame_run (oneFunction_bounded pushesTwo) hk
      (visits_oneFunction_asksTidily pushesTwo hlocal _ _ hk)
  have hbefore : (oneFunction pushesTwo).state.view = [.bool true, .function 0, .nil] := by
    simp only [view, size, oneFunction_top, oneFunction_base, oneFunction_stack, Slots.write,
      Slots.get_set, Slots.get_empty]
    decide
  rw [← hn] at htop hview
  obtain ⟨hok, hreturns⟩ := call_returns (HostProgram.runWithin (199 + 1)) 2 hk hr hframe
  -- one result is there, so the second one is nil
  have hresults : results 1 2 returned.2.state.view = [.bool true, .nil] :=
    (congrArg (results 1 2) hview).trans (by decide)
  have hfits : (oneFunction pushesTwo).state.top - 1 - 1 +
      (results 1 2 returned.2.state.view).length ≤ stackLimit := by
    rw [hresults, oneFunction_top]
    decide
  obtain ⟨hafter, hafterTop, hclears, -⟩ := hreturns hfits
  rw [hresults, hbefore] at hafter
  rw [hresults, oneFunction_top] at hafterTop
  exact ⟨hk, hr, hframe, hbefore, hview, hok.mpr hfits, hafter, hafterTop,
    hclears 3 hafterTop.le (by rw [htop]; decide),
    hclears 4 (hafterTop.trans_le (by decide)) (by rw [htop]; decide)⟩

end MachineM

end ScriptCore
