import ScriptCore.Proofs.HandleSafety

set_option relaxedAutoImplicit false
set_option autoImplicit false

/-!
# Environments as linked frames

What environments hold is told by their history: an environment has the parent it was created with,
and a slot has the value stored in it last, or nil if none was. A collection does not change this,
although it makes indices free that later environments get. The link of an environment is one of its
slots, so an environment in use keeps its parent in use, and a parent is always older than its
children. So following links comes to an end, and two ways to a variable lead to the same one
exactly if they meet in the same environment.

## Main definitions

* `ScriptCore.EnvEvent` — what happens to environments; `ScriptCore.EnvEvent.parentIn`,
  `ScriptCore.EnvEvent.valueIn` — what a history says about them.
* `ScriptCore.Heap.Recalls` — a heap holds what its history says.

## Main results

* `ScriptCore.Heap.Recalls.newEnv`, `ScriptCore.Heap.Recalls.envSet`,
  `ScriptCore.Heap.Recalls.collect` — creating, storing and collecting.
* `ScriptCore.Heap.Recalls.exists_envAbove?_eq_none` — links come to an end.
* `ScriptCore.Heap.Recalls.envGet_envSet` — reading after storing.
-/

namespace ScriptCore

/-! ## Histories -/

/-- What happens to environments. A history has the latest event first. -/
inductive EnvEvent
  /-- An environment is created under an index. -/
  | created (env : Nat) (parent : Option Nat)
  /-- A value is stored in a slot. -/
  | stored (env slot : Nat) (value : Value)

namespace EnvEvent

/-- Whether an event creates an environment under an index. -/
def creates (e : Nat) : EnvEvent → Bool
  | created i _ => i = e
  | stored .. => false

/-- The parent of an environment: that with which it was created last. -/
def parentIn : List EnvEvent → Nat → Option Nat
  | [], _ => none
  | created i parent :: past, e => if i = e then parent else parentIn past e
  | stored .. :: past, e => parentIn past e

/-- The value of a slot of an environment: that stored last since its creation, or nil. -/
def valueIn : List EnvEvent → Nat → Nat → Value
  | [], _, _ => .nil
  | created i _ :: past, e, slot => if i = e then .nil else valueIn past e slot
  | stored i slot' v :: past, e, slot => if i = e ∧ slot' = slot then v else valueIn past e slot

/-- What has happened since an environment was created under an index. -/
def since (past : List EnvEvent) (e : Nat) : List EnvEvent := past.takeWhile fun ev => !ev.creates e

/-- A slot in which nothing was stored has the value nil. -/
lemma valueIn_eq_nil {e slot : Nat} {past : List EnvEvent} (h : ∀ v, stored e slot v ∉ since past e) :
    valueIn past e slot = .nil := by
  induction past with
  | nil => rfl
  | cons ev past ih =>
    cases ev with
    | created i parent =>
      rw [valueIn]
      split
      · rfl
      · next hne => exact ih fun v hv => h v (by simpa [since, creates, hne] using hv)
    | stored i slot' w =>
      have hcons : since (stored i slot' w :: past) e = stored i slot' w :: since past e := by
        simp [since, creates]
      rw [hcons] at h
      rw [valueIn, if_neg]
      · exact ih fun v hv => h v (List.mem_cons_of_mem _ hv)
      · rintro ⟨rfl, rfl⟩
        exact h w List.mem_cons_self

end EnvEvent

/-! ## New environments -/

namespace Env

/-- Storing a variable does not touch the link. -/
lemma parent?_set (e : Env) {slot : Nat} (hslot : 1 ≤ slot) (v : Value) :
    (e.set slot v).parent? = e.parent? := by
  rw [parent?_eq, parent?_eq, get_set, if_neg (by omega)]

lemma parent?_new {parent : Option Nat} (hp : ∀ p, parent = some p → p < Value.payloadLimit) :
    (new parent).parent? = parent := by
  cases parent with
  | none =>
    have hnil : Value.nil.env? = none := by decide
    exact hnil
  | some p => exact Value.env?_env (hp p rfl)

/-- A new environment has no variable. -/
lemma get_new (parent : Option Nat) {slot : Nat} (hslot : 1 ≤ slot) : (new parent).get slot = .nil := by
  have hsize : (new parent).slots.size = 1 := rfl
  rw [get, Array.getD_eq_getD_getElem?, Array.getElem?_eq_none (by omega)]
  rfl

/-- A link is in the slots. -/
lemma exists_mem_slots {e : Env} {p : Nat} (h : e.parent? = some p) :
    ∃ v ∈ e.slots, v.env? = some p := by
  obtain ⟨v, hv, hp⟩ := Option.bind_eq_some_iff.1 h
  exact ⟨v, Array.mem_of_getElem? hv, hp⟩

end Env

namespace Heap

/-! ## Following links -/

section Links

variable (h : Heap)

lemma envAbove?_succ (level e : Nat) :
    h.envAbove? (level + 1) e =
      ((h.envs.get? e).bind Env.parent?).bind (h.envAbove? level) := by
  rw [envAbove?]
  cases (h.envs.get? e).bind Env.parent? <;> rfl

/-- Links are followed one after another. -/
lemma envAbove?_add (l₁ l₂ e : Nat) :
    h.envAbove? (l₁ + l₂) e = (h.envAbove? l₁ e).bind (h.envAbove? l₂) := by
  induction l₁ generalizing e with
  | zero => rw [Nat.zero_add]; rfl
  | succ l₁ ih =>
    rw [Nat.add_right_comm, envAbove?_succ, envAbove?_succ]
    cases (h.envs.get? e).bind Env.parent? with
    | none => rfl
    | some p => exact ih p

/-- What is read over several levels is read over the last ones from where the first ones lead. -/
lemma envGet_add {l₁ e f : Nat} (hf : h.envAbove? l₁ e = some f) (l₂ slot : Nat) :
    h.envGet e (l₁ + l₂) slot = h.envGet f l₂ slot := by
  rw [envGet, envGet, envAbove?_add, hf]
  rfl

end Links

/-- **A heap holds what a history says** about its environments in use, and its bookkeeping allows to
go on: the environments with their parents, the slots with the values stored last. -/
structure Recalls (past : List EnvEvent) (h : Heap) : Prop where
  wellFormed : h.FreeWellFormed
  unmarked : ∀ o, o ∉ h.marks
  link : ∀ e env, h.InUse (.env e) → h.envs.get? e = some env →
    env.parent? = EnvEvent.parentIn past e
  value : ∀ e env slot, h.InUse (.env e) → h.envs.get? e = some env → 1 ≤ slot →
    env.get slot = EnvEvent.valueIn past e slot
  /-- A parent is in use with its children. -/
  parent : ∀ e p, h.InUse (.env e) → EnvEvent.parentIn past e = some p → h.InUse (.env p)
  /-- A parent is older than its children. -/
  ranked : ∃ rank : Nat → Nat, ∀ e p, h.InUse (.env e) → EnvEvent.parentIn past e = some p →
    rank p < rank e

namespace Recalls

variable {past : List EnvEvent} {h h' : Heap}

/-! ## Creating, storing and collecting -/

/-- What leaves all environments as they are keeps what a heap recalls. -/
lemma of_envs (hr : h.Recalls past) (henvs : h'.envs = h.envs) (hwf : h'.FreeWellFormed)
    (hmarks : h'.marks = h.marks) : h'.Recalls past := by
  have hin : ∀ {e}, h'.InUse (.env e) → h.InUse (.env e) := fun he => by
    rw [InUse, henvs] at he
    exact he
  refine ⟨hwf, hmarks ▸ hr.unmarked, fun e env he henv => ?_, fun e env slot he henv => ?_,
    fun e p he hp => ?_, ?_⟩
  · exact hr.link e env (hin he) (henvs ▸ henv)
  · exact hr.value e env slot (hin he) (henvs ▸ henv)
  · rw [InUse, henvs]
    exact hr.parent e p (hin he) hp
  · obtain ⟨rank, hrank⟩ := hr.ranked
    exact ⟨rank, fun e p he => hrank e p (hin he)⟩

/-- **Creating an environment** with a parent in use.

**Proof sketch.** The index given out was not in use, so it is the parent of no environment in use,
and whatever was known under it before is forgotten. The new environment comes directly above the
rank of its parent. -/
theorem newEnv (hr : h.Recalls past) {parent : Option Nat}
    (hp : ∀ p, parent = some p → p < Value.payloadLimit ∧ h.InUse (.env p)) :
    (h.newEnv parent).2.Recalls (.created (h.newEnv parent).1 parent :: past) := by
  set i := (h.newEnv parent).1 with hi
  have hwf := hr.wellFormed
  have hnew : ¬h.InUse (.env i) := (hwf.envs.alloc_index (.new parent)).1
  have hin : ∀ {e}, (h.newEnv parent).2.InUse (.env e) ↔ e = i ∨ h.InUse (.env e) :=
    hwf.envs.inUse_alloc_iff (.new parent)
  have hne : ∀ {e}, h.InUse (.env e) → i ≠ e := fun he heq => hnew (heq ▸ he)
  have hself := get?_newEnv hwf parent
  have hother : ∀ {e}, h.InUse (.env e) → (h.newEnv parent).2.envs.get? e = h.envs.get? e :=
    fun he => hwf.envs.get?_alloc_of_inUse (.new parent) he
  refine ⟨⟨hwf.strings, hwf.tables, hwf.envs.alloc _, hwf.userdata⟩, hr.unmarked, ?_, ?_, ?_, ?_⟩
  · intro e env he henv
    rw [EnvEvent.parentIn]
    rcases hin.1 he with rfl | he
    · rw [if_pos rfl, ← Option.some.inj (hself.symm.trans henv)]
      exact Env.parent?_new fun p h => (hp p h).1
    · rw [if_neg (hne he)]
      exact hr.link e env he ((hother he).symm.trans henv)
  · intro e env slot he henv hslot
    rw [EnvEvent.valueIn]
    rcases hin.1 he with rfl | he
    · rw [if_pos rfl, ← Option.some.inj (hself.symm.trans henv)]
      exact Env.get_new parent hslot
    · rw [if_neg (hne he)]
      exact hr.value e env slot he ((hother he).symm.trans henv) hslot
  · intro e p he hparent
    rw [EnvEvent.parentIn] at hparent
    rcases hin.1 he with rfl | he
    · rw [if_pos rfl] at hparent
      exact hin.2 (.inr (hp p hparent).2)
    · rw [if_neg (hne he)] at hparent
      exact hin.2 (.inr (hr.parent e p he hparent))
  · obtain ⟨rank, hrank⟩ := hr.ranked
    refine ⟨Function.update rank i (parent.elim 0 (rank · + 1)), fun e p he hparent => ?_⟩
    rw [EnvEvent.parentIn] at hparent
    rcases hin.1 he with rfl | he
    · rw [if_pos rfl] at hparent
      have hpi := (hne (hp p hparent).2).symm
      rw [Function.update_self, Function.update_of_ne hpi, hparent]
      exact Nat.lt_succ_self _
    · rw [if_neg (hne he)] at hparent
      have hpi := (hne (hr.parent e p he hparent)).symm
      rw [Function.update_of_ne hpi, Function.update_of_ne (hne he).symm]
      exact hrank e p he hparent

/-- **Storing a variable** where some links lead. -/
theorem envSet (hr : h.Recalls past) {e level f slot : Nat} (hf : h.envAbove? level e = some f)
    (hslot : 1 ≤ slot) (v : Value) :
    (h.envSet e level slot v).Recalls (.stored f slot v :: past) := by
  have hset : h.envSet e level slot v =
      { h with envs := h.envs.modify f fun env => env.set slot v } := by
    rw [Heap.envSet, hf]
  rw [hset]
  have hin : ∀ {g}, (h.envs.modify f fun env => env.set slot v).InUse g ↔ h.InUse (.env g) :=
    Arena.inUse_modify_iff _ _ _ _
  -- an entry behind the store is one from before, changed if it is that of `f`
  have hentry : ∀ {g env}, (h.envs.modify f fun env => env.set slot v).get? g = some env →
      ∃ env', h.envs.get? g = some env' ∧ env = if f = g then env'.set slot v else env' := by
    intro g env henv
    rw [Arena.get?_modify] at henv
    split at henv
    · next heq =>
      obtain ⟨env', henv', rfl⟩ := Option.map_eq_some_iff.1 henv
      exact ⟨env', henv', by rw [if_pos heq]⟩
    · next hne => exact ⟨env, henv, by rw [if_neg hne]⟩
  refine ⟨⟨hr.wellFormed.strings, hr.wellFormed.tables, hr.wellFormed.envs.modify _ _,
    hr.wellFormed.userdata⟩, hr.unmarked, ?_, ?_, ?_, ?_⟩
  · intro g env hg henv
    obtain ⟨env', henv', rfl⟩ := hentry henv
    rw [EnvEvent.parentIn, ← hr.link g env' (hin.1 hg) henv']
    split
    · exact env'.parent?_set hslot v
    · rfl
  · intro g env slot' hg henv hslot'
    obtain ⟨env', henv', rfl⟩ := hentry henv
    rw [EnvEvent.valueIn, ← hr.value g env' slot' (hin.1 hg) henv' hslot']
    split
    · next heq => rw [Env.get_set]; simp only [heq, true_and]
    · next hne => rw [if_neg fun h => hne h.1]
  · exact fun g p hg hp => hin.2 (hr.parent g p (hin.1 hg) hp)
  · obtain ⟨rank, hrank⟩ := hr.ranked
    exact ⟨rank, fun g p hg => hrank g p (hin.1 hg)⟩

/-- **Collecting.** What is in use afterwards can be reached and is as it was. A parent can be reached
from its children, so it stays with them. -/
theorem collect {s : State} (hr : s.heap.Recalls past) : s.collect.heap.Recalls past := by
  have hc : s.Collected s.collect := (s.collect_exact hr.wellFormed hr.unmarked).1
  have hin : ∀ {e}, s.collect.heap.InUse (.env e) → s.heap.InUse (.env e) ∧ s.Reaches (.env e) :=
    hc.inUse_iff.1
  have hsame : ∀ {e}, s.collect.heap.InUse (.env e) →
      s.collect.heap.envs.get? e = s.heap.envs.get? e := fun he => hc.kept _ (hin he).2
  refine ⟨hc.freeWellFormed, hc.marks, fun e env he henv => ?_, fun e env slot he henv => ?_,
    fun e p he hp => ?_, ?_⟩
  · exact hr.link e env (hin he).1 ((hsame he).symm.trans henv)
  · exact hr.value e env slot (hin he).1 ((hsame he).symm.trans henv)
  · obtain ⟨hbefore, hreached⟩ := hin he
    obtain ⟨env, henv⟩ := Arena.InUse.exists_get? (a := s.heap.envs) hbefore
    obtain ⟨v, hv, hvp⟩ := Env.exists_mem_slots ((hr.link e env hbefore henv).trans hp)
    exact hc.inUse_iff.2 ⟨hr.parent e p hbefore hp,
      .step hreached (.slot henv hv) (Value.object?_of_env? hvp)⟩
  · obtain ⟨rank, hrank⟩ := hr.ranked
    exact ⟨rank, fun e p he => hrank e p (hin he).1⟩

/-! ## What follows -/

variable (hr : h.Recalls past) {e f level : Nat}

include hr

/-- The first link of an environment in use. -/
lemma parentIn_eq (he : h.InUse (.env e)) :
    (h.envs.get? e).bind Env.parent? = EnvEvent.parentIn past e := by
  obtain ⟨env, henv⟩ := Arena.InUse.exists_get? (a := h.envs) he
  rw [henv]
  exact hr.link e env he henv

/-- Links lead to environments in use. -/
lemma inUse_envAbove? (he : h.InUse (.env e)) (hf : h.envAbove? level e = some f) :
    h.InUse (.env f) := by
  induction level generalizing e with
  | zero => exact Option.some.inj hf ▸ he
  | succ level ih =>
    rw [envAbove?_succ, hr.parentIn_eq he] at hf
    obtain ⟨p, hp, hf⟩ := Option.bind_eq_some_iff.1 hf
    exact ih (hr.parent e p he hp) hf

/-- Links lead to older environments. -/
lemma rank_envAbove? {rank : Nat → Nat}
    (hrank : ∀ e p, h.InUse (.env e) → EnvEvent.parentIn past e = some p → rank p < rank e)
    (he : h.InUse (.env e)) (hf : h.envAbove? level e = some f) : rank f + level ≤ rank e := by
  induction level generalizing e with
  | zero => exact (congrArg rank (Option.some.inj hf)).ge
  | succ level ih =>
    rw [envAbove?_succ, hr.parentIn_eq he] at hf
    obtain ⟨p, hp, hf⟩ := Option.bind_eq_some_iff.1 hf
    have hlater := ih (hr.parent e p he hp) hf
    have hlt := hrank e p he hp
    omega

/-- **No environment is above itself.** -/
theorem envAbove?_ne_self (he : h.InUse (.env e)) : h.envAbove? (level + 1) e ≠ some e := by
  obtain ⟨rank, hrank⟩ := hr.ranked
  intro hself
  have := hr.rank_envAbove? hrank he hself
  omega

/-- **Links come to an end.** -/
theorem exists_envAbove?_eq_none (he : h.InUse (.env e)) : ∃ level, h.envAbove? level e = none := by
  obtain ⟨rank, hrank⟩ := hr.ranked
  refine ⟨rank e + 1, Option.eq_none_iff_forall_ne_some.2 fun f hf => ?_⟩
  have := hr.rank_envAbove? hrank he hf
  omega

/-- **A variable has the value stored last**, wherever it is read from. -/
theorem envGet_eq (he : h.InUse (.env e)) (hf : h.envAbove? level e = some f) {slot : Nat}
    (hslot : 1 ≤ slot) : h.envGet e level slot = EnvEvent.valueIn past f slot := by
  have hin := hr.inUse_envAbove? he hf
  obtain ⟨env, henv⟩ := Arena.InUse.exists_get? (a := h.envs) hin
  rw [envGet, hf, Option.bind_some, henv]
  exact hr.value f env slot hin henv hslot

omit hr in
/-- Storing a variable leaves all links as they are. -/
lemma envAbove?_envSet {slot : Nat} (hslot : 1 ≤ slot) (v : Value) (e level e' level' : Nat) :
    (h.envSet e level slot v).envAbove? level' e' = h.envAbove? level' e' := by
  unfold Heap.envSet
  split
  · next f hf =>
    induction level' generalizing e' with
    | zero => rfl
    | succ level' ih =>
      have hparent : ((h.envs.modify f fun env => env.set slot v).get? e').bind Env.parent? =
          (h.envs.get? e').bind Env.parent? := by
        rw [Arena.get?_modify]
        split
        · rw [Option.bind_map]
          exact congrArg _ (funext fun env => env.parent?_set hslot v)
        · rfl
      rw [envAbove?_succ, envAbove?_succ, hparent]
      exact congrArg _ (funext ih)
  · rfl

/-- **Reading after storing.** A variable reads as the value stored if the way to it meets the way of
the store in the same environment and the slot is the same, and as before otherwise. -/
theorem envGet_envSet (he : h.InUse (.env e)) (hf : h.envAbove? level e = some f) {slot : Nat}
    (hslot : 1 ≤ slot) (v : Value) (e' level' slot' : Nat) :
    (h.envSet e level slot v).envGet e' level' slot' =
      if h.envAbove? level' e' = some f ∧ slot' = slot then v else h.envGet e' level' slot' := by
  obtain ⟨env, henv⟩ := Arena.InUse.exists_get? (a := h.envs) (hr.inUse_envAbove? he hf)
  have hset : (h.envSet e level slot v).envs = h.envs.modify f fun env => env.set slot v := by
    rw [Heap.envSet, hf]
  rw [envGet, envGet, envAbove?_envSet hslot, hset]
  rcases h.envAbove? level' e' with _ | g
  · simp
  · rw [Option.bind_some, Option.bind_some, Arena.get?_modify]
    by_cases hg : f = g
    · subst hg
      simp [henv, Env.get_set, eq_comm]
    · rw [if_neg hg, if_neg fun h => hg (Option.some.inj h.1).symm]

end Recalls

end Heap

end ScriptCore
