import ScriptCore.Proofs.EnvironmentFrames
import ScriptCore.Proofs.HeapSteps

set_option relaxedAutoImplicit false
set_option autoImplicit false

/-!
# Runs over environments

A machine makes environments, stores variables and collects on request, and does much else in
between. The host keeps to three rules: a parent is in use when a child of it is made, a store goes
through an environment in use along links that exist, and it leaves the link in slot zero alone.
Behind every such run the environments are linked frames which are shared by all that are linked to
them.

## Main definitions

* `ScriptCore.Heap.SparesEnvs` — changes that leave environments alone.
* `ScriptCore.Request.event?` — what a request does to environments.
* `ScriptCore.EnvRun` — runs whose host keeps to the rules, with their history.
* `ScriptCore.State.LinkedFrames` — environments behave as linked frames.

## Main results

* `ScriptCore.Request.recalls_answer` — what one request does.
* `ScriptCore.EnvRun.linkedFrames` — what holds behind every run.
-/

namespace ScriptCore

/-! ## What leaves environments alone -/

/-- A heap that has the same environments as before and bookkeeping no worse. -/
structure Heap.SparesEnvs (h h' : Heap) : Prop where
  envs : h'.envs = h.envs
  wellFormed : h.FreeWellFormed → h'.FreeWellFormed
  marks : h'.marks = h.marks

instance : Heap.Steady Heap.SparesEnvs where
  refl _ := ⟨rfl, id, rfl⟩
  trans h₁ h₂ := ⟨h₂.envs.trans h₁.envs, h₂.wellFormed ∘ h₁.wellFormed, h₂.marks.trans h₁.marks⟩
  intern h content := by
    unfold Heap.intern
    split
    · exact ⟨rfl, id, rfl⟩
    · exact ⟨rfl, fun hwf => ⟨hwf.strings.alloc content, hwf.tables, hwf.envs, hwf.userdata⟩, rfl⟩
  newTable h size :=
    ⟨rfl, fun hwf => ⟨hwf.strings, hwf.tables.alloc .empty, hwf.envs, hwf.userdata⟩, rfl⟩
  newUserdata h payload metatable :=
    ⟨rfl, fun hwf => ⟨hwf.strings, hwf.tables, hwf.envs, hwf.userdata.alloc _⟩, rfl⟩
  modifyTable h i f :=
    ⟨rfl, fun hwf => ⟨hwf.strings, hwf.tables.modify i f, hwf.envs, hwf.userdata⟩, rfl⟩
  modifyUserdata h i f :=
    ⟨rfl, fun hwf => ⟨hwf.strings, hwf.tables, hwf.envs, hwf.userdata.modify i f⟩, rfl⟩

/-- A new machine has no environment. -/
lemma State.envs_new : State.new.heap.envs = .empty := by
  have hspares : Heap.SparesEnvs .empty State.new.heap :=
    Heap.Steady.trans (Heap.Steady.newTable _ 64) <| Heap.Steady.trans (Heap.Steady.newTable _ 4) <|
      Heap.Steady.trans (Heap.Steady.newTable _ 16) <|
        Heap.Steady.trans (Heap.Steady.intern _ _) (Heap.Steady.modifyTable _ _ _)
  exact hspares.envs

/-! ## Requests -/

namespace Request

/-- What a request does to environments. -/
def event? (s : State) : Request → Option EnvEvent
  | newEnv parent => some (.created (s.heap.newEnv parent).1 parent)
  | newClosureEnv index =>
    match State.parentOf (s.valueAt index) with
    | .ok parent => some (.created (s.heap.newEnv parent).1 parent)
    | .error _ => none
  | envSet e level slot v => (s.heap.envAbove? level e).map (.stored · slot v)
  | storeCaptured index level slot =>
    match State.envOf (s.valueAt index) with
    | .ok e =>
      if s.top ≤ s.base then none
      else (s.heap.envAbove? level e).map (.stored · slot (s.stack.get (s.top - 1)))
    | .error _ => none
  | _ => none

/-- **The rules for environments.** A parent is in use, and its handle is a word. A store goes through
an environment in use to a slot of a variable, along links that exist. A collection is not split into
its phases. -/
def RespectsEnvs (s : State) : Request → Prop
  | newEnv parent => ∀ p, parent = some p → p < Value.payloadLimit ∧ s.heap.InUse (.env p)
  | newClosureEnv index => ∀ p, (s.valueAt index).env? = some p → s.heap.InUse (.env p)
  | envSet e level slot _ =>
    s.heap.InUse (.env e) ∧ (∃ f, s.heap.envAbove? level e = some f) ∧ 1 ≤ slot
  | storeCaptured index level slot => ∀ e, (s.valueAt index).env? = some e →
    s.heap.InUse (.env e) ∧ (∃ f, s.heap.envAbove? level e = some f) ∧ 1 ≤ slot
  | trace _ | sweep => False
  | _ => True

variable {past : List EnvEvent} {s : State}

/-- What a machine recalls stays with an action that leaves environments alone. -/
lemma recalls_of_spares {α : Type} {x : Action α} (hx : State.Keeps Heap.SparesEnvs x)
    (hs : s.heap.Recalls past) : (x s).2.heap.Recalls past :=
  hs.of_envs (hx s).envs ((hx s).wellFormed hs.wellFormed) (hx s).marks

/-- The environment a value must be, if it is one. -/
lemma env?_of_envOf {v : Value} {e : Nat} (h : State.envOf v = .ok e) : v.env? = some e := by
  unfold State.envOf at h
  split at h
  · next he => rw [he, Except.ok.inj h]
  · cases h

lemma env?_of_parentOf {v : Value} {p : Nat} (h : State.parentOf v = .ok (some p)) :
    v.env? = some p := by
  unfold State.parentOf at h
  split at h
  · cases h
  · rcases he : State.envOf v with _ | e <;> rw [he] at h
    · cases h
    · cases h
      exact env?_of_envOf he

lemma recalls_newClosureEnv {index : Int} (hs : s.heap.Recalls past)
    (hr : (newClosureEnv index).RespectsEnvs s) :
    (State.newClosureEnv index s).2.heap.Recalls
      (((newClosureEnv index).event? s).toList ++ past) := by
  rw [State.newClosureEnv_apply, bind_apply, ofExcept_apply, event?]
  rcases hparent : State.parentOf (s.valueAt index) with e | parent
  · exact hs
  · have hin : ∀ p, parent = some p → p < Value.payloadLimit ∧ s.heap.InUse (.env p) := fun p hp => by
      have henv := env?_of_parentOf (hp ▸ hparent)
      exact ⟨Value.index_lt_of_object? (Value.object?_of_env? henv), hr p henv⟩
    have hnew := hs.newEnv hin
    show (State.push (.env (s.heap.newEnv parent).1)
      { s with heap := (s.heap.newEnv parent).2 }).2.heap.Recalls _
    exact recalls_of_spares (.push _) hnew

lemma recalls_storeCaptured {index : Int} {level slot : Nat} (hs : s.heap.Recalls past)
    (hr : (storeCaptured index level slot).RespectsEnvs s) :
    (State.storeCaptured index level slot s).2.heap.Recalls
      (((storeCaptured index level slot).event? s).toList ++ past) := by
  rw [State.storeCaptured_apply, bind_apply, ofExcept_apply, event?]
  rcases he : State.envOf (s.valueAt index) with _ | e
  · exact hs
  · obtain ⟨-, ⟨f, hf⟩, hslot⟩ := hr e (env?_of_envOf he)
    rw [andThen_ok, bind_apply, State.pop_apply]
    dsimp only
    rw [hf]
    split
    · exact hs
    · exact hs.envSet hf hslot _

/-- **One request** by the rules: what it does to environments comes to the history.

**Proof sketch.** Requests that create, store or collect are those of the heap. All others leave
environments alone. -/
theorem recalls_answer {r : Request} (hs : s.heap.Recalls past) (hr : r.RespectsEnvs s) :
    (r.answer s).2.heap.Recalls ((r.event? s).toList ++ past) := by
  open State in
  cases r with
  | newEnv parent => exact hs.newEnv hr
  | newClosureEnv index => exact recalls_newClosureEnv hs hr
  | envSet e level slot v =>
    obtain ⟨-, ⟨f, hf⟩, hslot⟩ := hr
    rw [event?, hf]
    exact hs.envSet hf hslot v
  | storeCaptured index level slot => exact recalls_storeCaptured hs hr
  | collect => exact hs.collect
  | maybeCollect =>
    show (State.maybeCollect s).2.heap.Recalls past
    rw [State.maybeCollect, modifyGet_apply]
    split
    · exact hs.collect
    · exact hs
  | trace | sweep => exact hr.elim
  | push v => exact recalls_of_spares (.push v) hs
  | pop => exact recalls_of_spares .pop hs
  | slotOf index => exact recalls_of_spares (.slot index) hs
  | remove index => exact recalls_of_spares (.remove index) hs
  | replace index => exact recalls_of_spares (.replace index) hs
  | insert index => exact recalls_of_spares (.insert index) hs
  | setTop index => exact recalls_of_spares (.setTop index) hs
  | checkNumber index => exact recalls_of_spares (.checkNumber index) hs
  | checkBytes index => exact recalls_of_spares (.checkBytes index) hs
  | checkString index => exact recalls_of_spares (.checkString index) hs
  | intern content => exact recalls_of_spares (.internBytes content) hs
  | newTable size => exact recalls_of_spares (.newTable size) hs
  | newUserdata payload metatable => exact recalls_of_spares (.newUserdata _ _) hs
  | rawSet t key value => exact recalls_of_spares (.rawSet t key value) hs
  | getGlobal name => exact recalls_of_spares (.getGlobal name) hs
  | setGlobal name value => exact recalls_of_spares (.setGlobal name value) hs
  | registryGet name => exact recalls_of_spares (.registryGet name) hs
  | setMetatable v metatable => exact recalls_of_spares (.setMetatable v metatable) hs
  | registerLibrary name size => exact recalls_of_spares (.registerLibrary name size) hs
  | pushCaptured index level slot => exact recalls_of_spares (.pushCaptured _ _ _) hs
  | valueAt | frameSize | upvalue | currentName | raise | refuse | coerceNumber | bytes | rawGet
    | metafield | envGet | setStress | setSlot | reset | inspect => exact hs

end Request

/-! ## Runs -/

/-- **Runs whose host keeps to the rules**, with the history of what they do to environments. Between
requests anything may happen that is not done on the heap: calls, returns, and new functions. -/
inductive EnvRun : List EnvEvent → State → Prop
  | start : EnvRun [] .new
  | request {past : List EnvEvent} {s : State} (hrun : EnvRun past s) (r : Request)
    (hr : r.RespectsEnvs s) : EnvRun ((r.event? s).toList ++ past) (r.answer s).2
  | elsewhere {past : List EnvEvent} {s t : State} (hrun : EnvRun past s) (ht : t.heap = s.heap) :
    EnvRun past t

/-- Behind every run the heap holds what the history says. -/
lemma EnvRun.recalls {past : List EnvEvent} {s : State} (h : EnvRun past s) :
    s.heap.Recalls past := by
  induction h with
  | start =>
    have hsize : State.new.heap.envs.items.size = 0 := by rw [State.envs_new]; rfl
    have hnone : ∀ {e}, ¬State.new.heap.InUse (.env e) := fun {e} he =>
      Nat.not_lt_zero e (hsize ▸ Arena.InUse.lt_size he)
    have hsound := State.sound_new.heap.orderly
    exact ⟨hsound.wellFormed, hsound.unmarked, fun e env he => (hnone he).elim,
      fun e env slot he => (hnone he).elim, fun e p he => (hnone he).elim,
      ⟨fun _ => 0, fun e p he => (hnone he).elim⟩⟩
  | request _ r hr ih => exact Request.recalls_answer ih hr
  | elsewhere _ ht ih =>
    rw [ht]
    exact ih

/-- **Environments behave as linked frames** that are shared by all environments linked to them. -/
structure State.LinkedFrames (past : List EnvEvent) (s : State) : Prop where
  /-- The parent of an environment in use is that with which it was created, and in use. -/
  parent : ∀ e, s.heap.InUse (.env e) → s.heap.envAbove? 1 e = EnvEvent.parentIn past e ∧
    ∀ p, EnvEvent.parentIn past e = some p → s.heap.InUse (.env p)
  /-- No environment is above itself. -/
  acyclic : ∀ e level, s.heap.InUse (.env e) → s.heap.envAbove? (level + 1) e ≠ some e
  /-- The links of every environment come to an end. -/
  ends : ∀ e, s.heap.InUse (.env e) → ∃ level, s.heap.envAbove? level e = none
  /-- Behind a store a variable reads as the value stored if the way to it meets the way of the store
  in the same environment and the slot is the same, and as before otherwise. -/
  store : ∀ e level f slot v, s.heap.InUse (.env e) → s.heap.envAbove? level e = some f → 1 ≤ slot →
    ∀ e' level' slot', (s.heap.envSet e level slot v).envGet e' level' slot' =
      if s.heap.envAbove? level' e' = some f ∧ slot' = slot then v
      else s.heap.envGet e' level' slot'
  /-- A store leaves all links as they are. -/
  links : ∀ e level slot v, 1 ≤ slot → ∀ e' level',
    (s.heap.envSet e level slot v).envAbove? level' e' = s.heap.envAbove? level' e'
  /-- A function stores the value on top in this way, -/
  storeCaptured : ∀ index level slot e, (s.valueAt index).env? = some e → s.base < s.top →
    ∃ t, State.storeCaptured index level slot s = (.ok (), t) ∧
      t.heap = s.heap.envSet e level slot (s.stack.get (s.top - 1))
  /-- and what it reads it finds on top. -/
  pushCaptured : ∀ index level slot e, (s.valueAt index).env? = some e →
    State.pushCaptured index level slot s = State.push (s.heap.envGet e level slot) s
  /-- A variable has the value stored in it last, wherever it is read from. -/
  value : ∀ e level f slot, s.heap.InUse (.env e) → s.heap.envAbove? level e = some f → 1 ≤ slot →
    s.heap.envGet e level slot = EnvEvent.valueIn past f slot
  /-- A variable in which nothing was stored since its environment was created is nil. -/
  unwritten : ∀ e level f slot, s.heap.InUse (.env e) → s.heap.envAbove? level e = some f →
    1 ≤ slot → (∀ v, .stored f slot v ∉ EnvEvent.since past f) → s.heap.envGet e level slot = .nil
  /-- Reading over several levels is reading over the last ones from where the first ones lead. -/
  levels : ∀ e l₁ l₂ f slot, s.heap.envAbove? l₁ e = some f →
    s.heap.envAbove? (l₁ + l₂) e = s.heap.envAbove? l₂ f ∧
      s.heap.envGet e (l₁ + l₂) slot = s.heap.envGet f l₂ slot

/-- **Environments behave as linked frames behind every run** whose host keeps to the rules, however
often it collects and indices are given out again.

**Proof sketch.** Every request of the run keeps the heap such as its history says. There a parent is
in use with its children and older than they are, and a slot holds the value stored last. -/
theorem EnvRun.linkedFrames {past : List EnvEvent} {s : State} (h : EnvRun past s) :
    s.LinkedFrames past := by
  have hr := h.recalls
  refine ⟨fun e he => ⟨?_, fun p => hr.parent e p he⟩, fun e level he => hr.envAbove?_ne_self he,
    fun e he => hr.exists_envAbove?_eq_none he,
    fun e level f slot v he hf hslot => hr.envGet_envSet he hf hslot v,
    fun e level slot v hslot => Heap.Recalls.envAbove?_envSet hslot v e level,
    fun index level slot e he htop => ?_, fun index level slot e he => ?_,
    fun e level f slot he hf hslot => hr.envGet_eq he hf hslot,
    fun e level f slot he hf hslot hnot => ?_,
    fun e l₁ l₂ f slot hf => ⟨?_, s.heap.envGet_add hf l₂ slot⟩⟩
  · rw [Heap.envAbove?_succ, hr.parentIn_eq he]
    cases EnvEvent.parentIn past e <;> rfl
  · have hstore := State.storeCaptured_apply index level slot s
    rw [State.envOf, he, bind_apply, ofExcept_apply, andThen_ok, bind_apply, State.pop_apply,
      if_neg (Nat.not_le.2 htop), andThen_ok] at hstore
    exact ⟨_, hstore, rfl⟩
  · rw [State.pushCaptured_apply, State.envOf, he, bind_apply, ofExcept_apply, andThen_ok]
  · rw [hr.envGet_eq he hf hslot, EnvEvent.valueIn_eq_nil hnot]
  · rw [Heap.envAbove?_add, hf, Option.bind_some]

namespace EnvRun

/-- A history of three environments: two of them are inside of the first, and one of the two has
stored a variable there. -/
def siblings : List EnvEvent :=
  [.stored 0 1 (.bool true), .created 2 (some 0), .created 1 (some 0), .created 0 none]

/-- The other one of `siblings`, which is on the stack, reads the variable behind a collection. -/
theorem linkedFrames_siblings : ∃ s, EnvRun siblings s ∧ s.LinkedFrames siblings ∧
    s.heap.InUse (.env 2) ∧ s.heap.envGet 2 1 1 = .bool true := by
  have hcreate {past : List EnvEvent} {s : State} {i : Nat} (hrun : EnvRun past s) (parent : Option Nat)
      (hp : (Request.newEnv parent).RespectsEnvs s) (hi : (s.heap.envs.alloc (.new parent)).1 = i) :
      EnvRun (.created i parent :: past) ((Request.newEnv parent).answer s).2 :=
    hi ▸ hrun.request (.newEnv parent) hp
  obtain ⟨s₁, hs₁⟩ : ∃ s, s = ((Request.newEnv none).answer .new).2 := ⟨_, rfl⟩
  obtain ⟨s₂, hs₂⟩ : ∃ s, s = ((Request.newEnv (some 0)).answer s₁).2 := ⟨_, rfl⟩
  obtain ⟨s₃, hs₃⟩ : ∃ s, s = ((Request.newEnv (some 0)).answer s₂).2 := ⟨_, rfl⟩
  obtain ⟨s₄, hs₄⟩ : ∃ s, s = ((Request.envSet 1 1 1 (.bool true)).answer s₃).2 := ⟨_, rfl⟩
  have henvs₁ : s₁.heap.envs = ⟨#[.new none], []⟩ := by
    rw [hs₁]
    show (State.new.heap.envs.alloc (.new none)).2 = _
    rw [State.envs_new]
    rfl
  have henvs₂ : s₂.heap.envs = ⟨#[.new none, .new (some 0)], []⟩ := by
    rw [hs₂]
    show (s₁.heap.envs.alloc (.new (some 0))).2 = _
    rw [henvs₁]
    rfl
  have henvs₃ : s₃.heap.envs = ⟨#[.new none, .new (some 0), .new (some 0)], []⟩ := by
    rw [hs₃]
    show (s₂.heap.envs.alloc (.new (some 0))).2 = _
    rw [henvs₂]
    rfl
  have hin {s : State} {a : Arena Env} (hs : s.heap.envs = a) {e : Nat} (he : a.InUse e) :
      s.heap.InUse (.env e) := by
    rw [Heap.InUse, hs]
    exact he
  have hlink : s₃.heap.envAbove? 1 1 = some 0 := by
    rw [Heap.envAbove?_succ, henvs₃]
    rfl
  -- each request keeps to the rules
  have hrun₁ : EnvRun [.created 0 none] s₁ :=
    hs₁ ▸ hcreate .start none (fun _ heq => absurd heq (Option.some_ne_none _).symm) (by rw [State.envs_new]; rfl)
  have hrun₂ : EnvRun [.created 1 (some 0), .created 0 none] s₂ := by
    refine hs₂ ▸ hcreate hrun₁ (some 0) ?_ (by rw [henvs₁]; rfl)
    rintro p ⟨⟩
    exact ⟨by decide, hin henvs₁ ⟨by decide, rfl⟩⟩
  have hrun₃ : EnvRun [.created 2 (some 0), .created 1 (some 0), .created 0 none] s₃ := by
    refine hs₃ ▸ hcreate hrun₂ (some 0) ?_ (by rw [henvs₂]; rfl)
    rintro p ⟨⟩
    exact ⟨by decide, hin henvs₂ ⟨by decide, rfl⟩⟩
  have hrun₄ : EnvRun siblings s₄ := by
    have hrun := hrun₃.request (.envSet 1 1 1 (.bool true))
      ⟨hin henvs₃ ⟨by decide, rfl⟩, ⟨0, hlink⟩, le_rfl⟩
    rw [Request.event?, hlink] at hrun
    exact hs₄ ▸ hrun
  -- the last environment is put on the stack, and a collection finds it there
  obtain ⟨s₅, hs₅⟩ : ∃ s : State, s = { s₄ with stack := s₄.stack.set 0 (.env 2), top := 1 } := ⟨_, rfl⟩
  have hrun₅ : EnvRun siblings s₅ := hrun₄.elsewhere (hs₅ ▸ rfl)
  have henvs₅ : s₅.heap.envs =
      ⟨#[(Env.new none).set 1 (.bool true), .new (some 0), .new (some 0)], []⟩ := by
    rw [hs₅, hs₄]
    show (s₃.heap.envSet 1 1 1 (.bool true)).envs = _
    rw [Heap.envSet, hlink, henvs₃]
    rfl
  have hreached : s₅.Reaches (.env 2) := by
    refine .root (.stack (i := 0) (hs₅ ▸ Nat.one_pos)) ?_
    have hget : s₅.stack.get 0 = .env 2 := by
      rw [hs₅]
      exact (s₄.stack.get_set 0 0 _).trans (if_pos ⟨rfl, by decide⟩)
    rw [hget]
    exact Value.object?_env (by decide)
  have hrecalls := hrun₅.recalls
  have hc := (s₅.collect_exact hrecalls.wellFormed hrecalls.unmarked).1
  have hkept : s₅.collect.heap.InUse (.env 2) :=
    hc.inUse_iff.2 ⟨hin henvs₅ ⟨by decide, rfl⟩, hreached⟩
  have hframes := (hrun₅.request .collect trivial).linkedFrames
  exact ⟨s₅.collect, hrun₅.request .collect trivial, hframes, hkept,
    hframes.value 2 1 0 1 hkept (hframes.parent 2 hkept).1 le_rfl⟩

end EnvRun

end ScriptCore
