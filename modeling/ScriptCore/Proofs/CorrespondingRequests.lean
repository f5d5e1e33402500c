import Mathlib
import ScriptCore.Proofs.CorrespondingActions

set_option relaxedAutoImplicit false
set_option autoImplicit false

/-!
# Corresponding requests

Globals, libraries and captured variables are reached by several actions in a row: a name is interned,
a table is read, a missing one is made. From corresponding states each of these steps corresponds, and
so does the whole. Hence a request of a script with corresponding values has a corresponding answer.

## Main results

* `ScriptCore.State.Corresponds.registerLibrary` — registration of libraries.
* `ScriptCore.State.Corresponds.addNative` — new functions.
* `ScriptCore.Request.mirrors_answer` — requests with corresponding values.
-/

namespace ScriptCore

namespace State

variable {ρ ρ' : Pairing} {s t : State}

namespace Corresponds

variable (h : s.Corresponds ρ t)

include h

/-! ### Globals and libraries -/

lemma getGlobal (name : String) :
    Mirrors (getGlobal name) (getGlobal name) ρ s t Value.Corresponds := by
  refine (h.intern name).bind (fun _ => .get_bind fun _ => .pure _)
    (fun _ => .get_bind fun _ => .pure _) fun key key' ρ' s' t' h' _ hkey => ?_
  exact .get_bind (.pure h' (h'.rawGet (h'.heap.value h'.globals) hkey))

lemma setGlobal (name : String) {v w : Value} (hv : v.Corresponds ρ w) :
    Mirrors (setGlobal name v) (setGlobal name w) ρ s t Silently := by
  refine (h.intern name).bind (fun _ => .get_bind fun _ => .rawSet _ _ _)
    (fun _ => .get_bind fun _ => .rawSet _ _ _) fun key key' ρ' s' t' h' hle hkey => ?_
  exact .get_bind (h'.rawSet (h'.heap.value h'.globals) hkey (hv.mono hle))

lemma registryGet (name : String) :
    Mirrors (registryGet name) (registryGet name) ρ s t Value.Corresponds := by
  refine (h.intern name).bind (fun _ => .get_bind fun _ => .pure _)
    (fun _ => .get_bind fun _ => .pure _) fun key key' ρ' s' t' h' _ hkey => ?_
  exact .get_bind (.pure h' (h'.rawGet (h'.heap.value h'.registry) hkey))

omit h in
/-- Making a new table of libraries. -/
private lemma keepsEntries_loaded (loaded : Value) :
    Keeps Heap.Spans (do
      if loaded.isTable then return loaded
      let loaded ← State.newTable 16
      let key ← State.intern loadedKey
      State.rawSet (.table (← get).registry) key loaded
      return loaded) := by
  split
  · exact .pure _
  · exact (Keeps.newTable _).bind fun _ => (Keeps.intern _).bind fun _ =>
      .get_bind fun _ => (Keeps.rawSet _ _ _).bind fun _ => .pure _

lemma loadedTable : Mirrors loadedTable loadedTable ρ s t Value.Corresponds := by
  refine (h.registryGet loadedKey).bind keepsEntries_loaded keepsEntries_loaded ?_
  intro loaded loaded' ρ₁ s₁ t₁ h₁ _ hloaded
  rw [hloaded.isTable_eq]
  split
  · exact .pure h₁ hloaded
  · refine (h₁.newTable 16).bind
      (fun _ => (Keeps.intern _).bind fun _ => .get_bind fun _ =>
        (Keeps.rawSet _ _ _).bind fun _ => .pure _)
      (fun _ => (Keeps.intern _).bind fun _ => .get_bind fun _ =>
        (Keeps.rawSet _ _ _).bind fun _ => .pure _) ?_
    intro table table' ρ₂ s₂ t₂ h₂ _ htable
    refine (h₂.intern loadedKey).bind
      (fun _ => .get_bind fun _ => (Keeps.rawSet _ _ _).bind fun _ => .pure _)
      (fun _ => .get_bind fun _ => (Keeps.rawSet _ _ _).bind fun _ => .pure _) ?_
    intro key key' ρ₃ s₃ t₃ h₃ hle hkey
    have htable := htable.mono hle
    refine .get_bind ((h₃.rawSet (h₃.heap.value h₃.registry) hkey htable).bind (fun _ => .pure _)
      (fun _ => .pure _) ?_)
    exact fun _ _ ρ₄ s₄ t₄ h₄ hle _ => .pure h₄ (htable.mono hle)

omit h in
lemma findTable (library : String) (size : Nat) (parts : List String) {ρ : Pairing} {s t : State}
    (h : s.Corresponds ρ t) {v w : Value} (hv : v.Corresponds ρ w) :
    Mirrors (findTable library size parts v) (findTable library size parts w) ρ s t
      Value.Corresponds := by
  induction parts generalizing ρ s t v w with
  | nil => exact .pure h hv
  | cons part rest ih =>
    have hkeeps : ∀ (current key : Value), Keeps Heap.Spans (do
        let existing := (← get).rawGet current key
        if existing.isNil then
          let table ← State.newTable (if rest.isEmpty then size else 1)
          State.rawSet current key table
          State.findTable library size rest table
        else if existing.isTable then State.findTable library size rest existing
        else throw (.nameConflict library) : Action Value) := by
      intro current key
      refine .get_bind fun s => ?_
      dsimp only
      split
      · exact (Keeps.newTable _).bind fun _ => (Keeps.rawSet _ _ _).bind fun _ =>
          .findTable _ _ _ _
      · split
        · exact .findTable _ _ _ _
        · exact .throw _
    refine (h.intern part).bind (hkeeps v) (hkeeps w) fun key key' ρ₁ s₁ t₁ h₁ hle hkey => ?_
    have hv := hv.mono hle
    have hexisting := h₁.rawGet hv hkey
    refine .get_bind ?_
    dsimp only
    rw [hexisting.isNil_eq, hexisting.isTable_eq]
    split
    · refine (h₁.newTable _).bind
        (fun _ => (Keeps.rawSet _ _ _).bind fun _ => .findTable _ _ _ _)
        (fun _ => (Keeps.rawSet _ _ _).bind fun _ => .findTable _ _ _ _) ?_
      intro table table' ρ₂ s₂ t₂ h₂ hle htable
      refine (h₂.rawSet (hv.mono hle) (hkey.mono hle) htable).bind (fun _ => .findTable _ _ _ _)
        (fun _ => .findTable _ _ _ _) ?_
      exact fun _ _ ρ₃ s₃ t₃ h₃ hle _ => ih h₃ (htable.mono hle)
    · split
      · exact ih h₁ hexisting
      · exact .throw _ h₁

lemma registerLibrary (name : String) (size : Nat) :
    Mirrors (registerLibrary name size) (registerLibrary name size) ρ s t Value.Corresponds := by
  have hrecord : ∀ loaded key table : Value, Keeps Heap.Spans (do
      State.rawSet loaded key table
      State.push table
      return table : Action Value) := fun loaded key table =>
    (Keeps.rawSet _ _ _).bind fun _ => (Keeps.push _).bind fun _ => .pure _
  have hfind : ∀ loaded key : Value, Keeps Heap.Spans (do
      let existing := (← get).rawGet loaded key
      if existing.isTable then
        State.push existing
        return existing
      let table ← State.findTable name size (nameParts name) (.table (← get).globals)
      State.rawSet loaded key table
      State.push table
      return table : Action Value) := by
    intro loaded key
    refine .get_bind fun s => ?_
    dsimp only
    split
    · exact (Keeps.push _).bind fun _ => .pure _
    · exact .get_bind fun s => (Keeps.findTable _ _ _ _).bind (hrecord loaded key)
  refine h.loadedTable.bind (fun _ => (Keeps.intern _).bind (hfind _))
    (fun _ => (Keeps.intern _).bind (hfind _)) fun loaded loaded' ρ₁ s₁ t₁ h₁ _ hloaded => ?_
  refine (h₁.intern name).bind (hfind loaded) (hfind loaded')
    fun key key' ρ₂ s₂ t₂ h₂ hle hkey => ?_
  have hloaded := hloaded.mono hle
  have hexisting := h₂.rawGet hloaded hkey
  refine .get_bind ?_
  dsimp only
  rw [hexisting.isTable_eq]
  split
  · exact (h₂.push hexisting).bind (fun _ => .pure _) (fun _ => .pure _)
      fun _ _ ρ₃ s₃ t₃ h₃ hle _ => .pure h₃ (hexisting.mono hle)
  · refine .get_bind ((findTable name size (nameParts name) h₂ (h₂.heap.value h₂.globals)).bind
      (hrecord loaded key) (hrecord loaded' key') ?_)
    intro table table' ρ₃ s₃ t₃ h₃ hle htable
    refine (h₃.rawSet (hloaded.mono hle) (hkey.mono hle) htable).bind
      (fun _ => (Keeps.push _).bind fun _ => .pure _)
      (fun _ => (Keeps.push _).bind fun _ => .pure _) fun _ _ ρ₄ s₄ t₄ h₄ hle _ => ?_
    have htable := htable.mono hle
    exact (h₄.push htable).bind (fun _ => .pure _) (fun _ => .pure _)
      fun _ _ ρ₅ s₅ t₅ h₅ hle _ => .pure h₅ (htable.mono hle)

/-! ### Captured variables -/

/-- The environments at an index are paired, or there is none. -/
lemma envOf (index : Int) :
    Outcomes (fun i j => ρ (.env i) (.env j)) (State.envOf (s.valueAt index))
      (State.envOf (t.valueAt index)) := by
  have hv := h.valueAt index
  have henv := hv.env?
  rw [State.envOf, State.envOf, hv.typeName_eq]
  revert henv
  rcases (s.valueAt index).env? with _ | i <;> rcases (t.valueAt index).env? with _ | j <;>
    intro henv <;> cases henv
  · exact .error _
  · next hij => exact .ok hij

/-- What is done with the environment at an index. -/
lemma withEnv {α β : Type} (index : Int) {f : Nat → Action α} {g : Nat → Action β}
    {post : Pairing → α → β → Prop}
    (hfg : ∀ i j, ρ (.env i) (.env j) → Mirrors (f i) (g j) ρ s t post) :
    Mirrors (MonadExcept.ofExcept (State.envOf (s.valueAt index)) >>= f)
      (MonadExcept.ofExcept (State.envOf (t.valueAt index)) >>= g) ρ s t post := by
  have henv := h.envOf index
  revert henv
  generalize State.envOf (s.valueAt index) = r
  generalize State.envOf (t.valueAt index) = r'
  intro henv
  cases henv with
  | error e => exact .congr (by rw [bind_apply]; rfl) (by rw [bind_apply]; rfl) (.throw e h)
  | ok hij => exact .congr (by rw [bind_apply]; rfl) (by rw [bind_apply]; rfl) (hfg _ _ hij)

lemma newClosureEnv (index : Int) :
    Mirrors (newClosureEnv index) (newClosureEnv index) ρ s t Silently := by
  refine .congr (newClosureEnv_apply index s) (newClosureEnv_apply index t) ?_
  have hnew : ∀ {p q : Option Nat}, Option.Rel (fun i j => ρ (.env i) (.env j)) p q →
      Mirrors (State.newEnv p >>= State.push) (State.newEnv q >>= State.push) ρ s t Silently :=
    fun hpq => (h.newEnv hpq).bind (fun _ => .push _) (fun _ => .push _)
      fun _ _ ρ' s' t' h' _ hv => h'.push hv
  unfold parentOf
  rw [(h.valueAt index).isNil_eq]
  split
  · exact .congr (by rw [bind_apply]; rfl) (by rw [bind_apply]; rfl) (hnew .none)
  · have hwith := h.withEnv index (f := fun e => State.newEnv (some e) >>= State.push)
      (g := fun e => State.newEnv (some e) >>= State.push) fun i j hij => hnew (.some hij)
    refine .congr ?_ ?_ hwith <;> rw [bind_apply, bind_apply, ofExcept_apply, ofExcept_apply]
    · cases State.envOf (s.valueAt index) <;> rfl
    · cases State.envOf (t.valueAt index) <;> rfl

lemma pushCaptured (index : Int) (level slot : Nat) :
    Mirrors (pushCaptured index level slot) (pushCaptured index level slot) ρ s t Silently :=
  .congr (pushCaptured_apply index level slot s) (pushCaptured_apply index level slot t)
    (h.withEnv index fun _ _ hij => h.push (h.heap.envGet hij level slot))

lemma storeCaptured (index : Int) (level slot : Nat) :
    Mirrors (storeCaptured index level slot) (storeCaptured index level slot) ρ s t Silently := by
  have hkeeps : ∀ (e : Nat) (v : Value),
      Keeps Heap.Spans (onHeap fun k => (.ok (), k.envSet e level slot v) : Action Unit) := by
    intro e v s
    change s.heap.Spans (s.heap.envSet e level slot v)
    unfold Heap.envSet
    split
    · intro o ho
      cases o with
      | env i => simpa [Heap.HasEntry, Arena.modify] using ho
      | _ => exact ho
    · exact .refl _
  refine .congr (storeCaptured_apply index level slot s) (storeCaptured_apply index level slot t)
    (h.withEnv index fun i j hij => ?_)
  exact h.pop.bind (hkeeps i) (hkeeps j) fun v w ρ' s' t' h' hle hv =>
    h'.envSet (hle _ _ hij) level slot hv

/-! ### Functions -/

omit h in
/-- Two new functions of the same name with corresponding upvalues are the same value. -/
lemma addNative {ρ : Pairing} {s t : State} (h : s.Corresponds ρ t) (name : String)
    {us ws : List Value} (hus : List.Forall₂ (Value.Corresponds ρ) us ws) :
    (s.addNative name us.toArray).1 = (t.addNative name ws.toArray).1 ∧
      (s.addNative name us.toArray).2.Corresponds ρ (t.addNative name ws.toArray).2 := by
  refine ⟨congrArg Value.function h.natives_size, ?_⟩
  refine { h with natives := fun i => ?_ }
  have hnative : Native.Corresponds ρ ⟨name, us.toArray⟩ ⟨name, ws.toArray⟩ := by
    refine ⟨rfl, fun i => ?_⟩
    simp only [Array.getD_eq_getD_getElem?, List.getElem?_toArray]
    exact optionRel_getD (optionRel_getElem? hus i) .nil
  change Option.Rel _ (s.natives.push _)[i]? (t.natives.push _)[i]?
  rw [Array.getElem?_push, Array.getElem?_push, h.natives_size]
  split
  · exact .some hnative
  · exact h.natives i

end Corresponds

end State

/-! ## Requests -/

/-- **A request with corresponding values** has a corresponding answer. -/
theorem Request.mirrors_answer {ρ : Pairing} {s t : State} {r : Request} (hr : r.IsBlind)
    (h : s.Corresponds ρ t) {vs ws : List Value} (hvs : List.Forall₂ (Value.Corresponds ρ) vs ws) :
    State.Mirrors (r.fill vs).answer (r.fill ws).answer ρ s t fun ρ a b =>
      Answer.Corresponds ρ ((r.fill vs).report a) ((r.fill ws).report b) := by
  have hvalue := Value.Corresponds.getD hvs
  cases r with
  | push v => exact (h.push (hvalue 0)).mono fun _ _ _ _ => .same nofun
  | pop => exact h.pop.mono fun _ _ _ hv => .value hv
  | valueAt index => exact .get_bind (.pure h (.value (h.valueAt index)))
  | frameSize =>
    refine .get_bind (.pure h ?_)
    rw [h.size_eq]
    exact .same nofun
  | slotOf index =>
    refine (h.slot index).mono ?_
    rintro _ i _ rfl
    exact .same nofun
  | remove index => exact (h.remove index).mono fun _ _ _ hv => .value hv
  | replace index => exact (h.replace index).mono fun _ _ _ _ => .same nofun
  | insert index => exact (h.insert index).mono fun _ _ _ _ => .same nofun
  | setTop index => exact (h.setTop index).mono fun _ _ _ _ => .same nofun
  | upvalue i => exact .get_bind (.pure h (.value (h.upvalue i)))
  | currentName =>
    refine .get_bind (.pure h ?_)
    rw [h.currentName?_eq]
    exact .same nofun
  | raise message =>
    refine .get_bind ?_
    rw [h.raised_eq]
    exact .throw _ h
  | refuse index message =>
    refine .get_bind ?_
    rw [h.badArgument_eq]
    exact .throw _ h
  | checkNumber index =>
    refine (h.checkNumber index).mono ?_
    rintro _ x _ rfl
    exact .same nofun
  | checkString index =>
    refine (h.checkString index).mono ?_
    rintro _ text _ rfl
    exact .same nofun
  | checkBytes index =>
    refine (h.checkBytes index).mono ?_
    rintro _ bs _ rfl
    exact .same nofun
  | coerceNumber v =>
    refine .get_bind (.pure h ?_)
    rw [h.coerceNumber_eq (hvalue 0)]
    exact .same nofun
  | bytes v =>
    refine .get_bind (.pure h ?_)
    rw [h.bytes?_eq (hvalue 0)]
    exact .same nofun
  | intern content => exact (h.internBytes content).mono fun _ _ _ hv => .value hv
  | newTable size => exact (h.newTable size).mono fun _ _ _ hv => .value hv
  | rawGet t key => exact .get_bind (.pure h (.value (h.rawGet (hvalue 0) (hvalue 1))))
  | rawSet t key value =>
    exact (h.rawSet (hvalue 0) (hvalue 1) (hvalue 2)).mono fun _ _ _ _ => .same nofun
  | getGlobal name => exact (h.getGlobal name).mono fun _ _ _ hv => .value hv
  | setGlobal name value => exact (h.setGlobal name (hvalue 0)).mono fun _ _ _ _ => .same nofun
  | registryGet name => exact (h.registryGet name).mono fun _ _ _ hv => .value hv
  | metafield v event => exact .get_bind (.pure h (.value (h.heap.metafield (hvalue 0) event)))
  | setMetatable v metatable =>
    exact (h.setMetatable (hvalue 0) (hvalue 1)).mono fun _ _ _ _ => .same nofun
  | newUserdata payload metatable =>
    exact (h.newUserdata payload (hvalue 0)).mono fun _ _ _ hv => .value hv
  | newClosureEnv index => exact (h.newClosureEnv index).mono fun _ _ _ _ => .same nofun
  | pushCaptured index level slot =>
    exact (h.pushCaptured index level slot).mono fun _ _ _ _ => .same nofun
  | storeCaptured index level slot =>
    exact (h.storeCaptured index level slot).mono fun _ _ _ _ => .same nofun
  | registerLibrary name size =>
    exact (h.registerLibrary name size).mono fun _ _ _ hv => .value hv
  | setSlot i v =>
    exact .of_corresponds (h.withStack (h.stack.set (hvalue 0) i)) rfl (.ok (.same nofun))
  | newEnv | envGet | envSet | collect | maybeCollect | setStress | trace | sweep | reset | inspect =>
    exact hr.elim

end ScriptCore
