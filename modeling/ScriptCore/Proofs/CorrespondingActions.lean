import Mathlib
import ScriptCore.Proofs.CorrespondingChanges
import ScriptCore.Proofs.CorrespondingStates
import ScriptCore.Proofs.HeapSteps
import ScriptCore.Proofs.Scripts

set_option relaxedAutoImplicit false
set_option autoImplicit false

/-!
# Corresponding actions

From corresponding states, the same action with corresponding values has the same outcome, up to a
pairing that may have grown, and leaves corresponding states. For a sequence this follows from its
parts, since an action takes no entry away: if there are handles for all entries in the end, there
are so in between.

## Main definitions

* `ScriptCore.Heap.Spans` — every entry of one heap is there in another one.
* `ScriptCore.Heap.HasAtMost` — heaps with a bounded number of entries.
* `ScriptCore.State.Mirrors` — actions that correspond.

## Main results

* `ScriptCore.State.Mirrors.bind` — sequences.
* `ScriptCore.State.Corresponds.rawSet`, `ScriptCore.State.Corresponds.setMetatable` and others — the
  actions on the stack and on the heap.
-/

namespace ScriptCore

/-! ## Entries -/

namespace Heap

/-- Every entry of one heap is there in another one. -/
def Spans (h h' : Heap) : Prop := ∀ o, h.HasEntry o → h'.HasEntry o

variable {h h' h'' : Heap}

lemma Spans.refl (h : Heap) : h.Spans h := fun _ ho => ho

lemma Spans.trans (hs : h.Spans h') (hs' : h'.Spans h'') : h.Spans h'' :=
  fun o ho => hs' o (hs o ho)

lemma Spans.fits (hs : h.Spans h') (hfits : h'.Fits) : h.Fits := fun o ho => hfits o (hs o ho)

instance : Steady Spans where
  refl := .refl
  trans := .trans
  intern h c o ho := by
    unfold intern
    split
    · exact ho
    · cases o with
      | string i => exact Nat.lt_of_lt_of_le ho (Arena.size_le_size_alloc _ _)
      | _ => exact ho
  newTable h size o ho := by
    cases o with
    | table i => exact Nat.lt_of_lt_of_le ho (Arena.size_le_size_alloc _ _)
    | _ => exact ho
  newUserdata h payload metatable o ho := by
    cases o with
    | userdata i => exact Nat.lt_of_lt_of_le ho (Arena.size_le_size_alloc _ _)
    | _ => exact ho
  modifyTable h i f o ho := by
    cases o with
    | table j => simpa [HasEntry, Arena.modify] using ho
    | _ => exact ho
  modifyUserdata h i f o ho := by
    cases o with
    | userdata j => simpa [HasEntry, Arena.modify] using ho
    | _ => exact ho

/-- A heap has at most `n` entries in each arena. -/
def HasAtMost (h : Heap) (n : Nat) : Prop := ∀ o, h.HasEntry o → o.index < n

variable {n : Nat}

lemma HasAtMost.fits (hn : h.HasAtMost n) (hle : n ≤ Value.payloadLimit) : h.Fits :=
  fun o ho => (hn o ho).trans_le hle

lemma hasAtMost_empty (n : Nat) : Heap.empty.HasAtMost n := by
  intro o ho
  cases o <;> exact absurd ho (Nat.not_lt_zero _)

/-- An allocation makes one more entry at most. -/
private lemma lt_succ_of_lt_size_alloc {α : Type} {a : Arena α} (ha : ∀ i < a.items.size, i < n)
    {x : α} {i : Nat} (hi : i < (a.alloc x).2.items.size) : i < n + 1 := by
  have hsize : a.items.size ≤ n := by
    by_cases hzero : a.items.size = 0
    · omega
    · have := ha (a.items.size - 1) (by omega)
      omega
  unfold Arena.alloc at hi
  split at hi
  · rw [Array.size_setIfInBounds] at hi
    omega
  · rw [Array.size_push] at hi
    omega

lemma HasAtMost.newTable (hn : h.HasAtMost n) (size : Nat) :
    (h.newTable size).2.HasAtMost (n + 1) := by
  intro o ho
  cases o with
  | table i => exact lt_succ_of_lt_size_alloc (fun j hj => hn (.table j) hj) ho
  | string i | userdata i | env i => exact Nat.lt_succ_of_lt (hn _ ho)

lemma HasAtMost.intern (hn : h.HasAtMost n) (c : List UInt8) : (h.intern c).2.HasAtMost (n + 1) := by
  intro o ho
  unfold Heap.intern at ho
  split at ho
  · exact Nat.lt_succ_of_lt (hn o ho)
  · cases o with
    | string i => exact lt_succ_of_lt_size_alloc (fun j hj => hn (.string j) hj) ho
    | table i | userdata i | env i => exact Nat.lt_succ_of_lt (hn _ ho)

end Heap

namespace State

lemma hasAtMost_new : State.new.heap.HasAtMost 4 := by
  have hmade := ((((Heap.hasAtMost_empty 0).newTable 64).newTable 4).newTable 16).intern
    (Text.bytes loadedKey)
  intro o ho
  refine hmade o ?_
  cases o with
  | table i =>
    change i < (Array.modify _ _ _).size at ho
    rwa [Array.size_modify] at ho
  | string i | userdata i | env i => exact ho

/-- A collection makes no entry. -/
lemma hasAtMost_collect {s : State} {n : Nat} (hwf : s.heap.FreeWellFormed)
    (hunmarked : ∀ o, o ∉ s.heap.marks) (hn : s.heap.HasAtMost n) : s.collect.heap.HasAtMost n :=
  fun o ho => hn o ((s.collect_exact hwf hunmarked).1.hasEntry_iff.1 ho)

lemma hasAtMost_push {s : State} {n : Nat} (v : Value) (hn : s.heap.HasAtMost n) :
    (State.push v s).2.heap.HasAtMost n := by
  rw [push_apply]
  split <;> exact hn

variable {α β : Type}

/-! ## Actions that correspond -/

/-- From corresponding states, two actions lead to corresponding states under a pairing that has
grown, and their outcomes agree as `post` says, if there are handles for all entries in the end. -/
def Mirrors (x : Action α) (y : Action β) (ρ : Pairing) (s t : State)
    (post : Pairing → α → β → Prop) : Prop :=
  (x s).2.heap.Fits → (y t).2.heap.Fits →
    ∃ ρ', ρ.Extends t.heap ρ' (y t).2.heap ∧ (x s).2.Corresponds ρ' (y t).2 ∧
      Outcomes (post ρ') (x s).1 (y t).1

/-- The actions do the same, with nothing to tell. -/
abbrev Silently : Pairing → Unit → Unit → Prop := fun _ _ _ => True

/-- The results are the same. -/
abbrev Equally {α : Type} : Pairing → α → α → Prop := fun _ => Eq

namespace Mirrors

variable {ρ : Pairing} {s t s' t' : State} {x x' : Action α} {y y' : Action β}
  {post : Pairing → α → β → Prop}

/-- Actions that do not touch the heap keep the pairing. -/
lemma of_corresponds (h : (x s).2.Corresponds ρ (y t).2) (hheap : (y t).2.heap = t.heap)
    (hr : Outcomes (post ρ) (x s).1 (y t).1) : Mirrors x y ρ s t post :=
  fun _ _ => ⟨ρ, hheap ▸ .refl ρ _, h, hr⟩

lemma of_apply {r : Except RuntimeError α} {r' : Except RuntimeError β} (hx : x s = (r, s'))
    (hy : y t = (r', t')) (h : s'.Corresponds ρ t') (hheap : t'.heap = t.heap)
    (hr : Outcomes (post ρ) r r') : Mirrors x y ρ s t post := by
  refine of_corresponds ?_ ?_ ?_ <;> rw [hy]
  · rw [hx]
    exact h
  · exact hheap
  · rw [hx]
    exact hr

lemma pure {a : α} {b : β} (h : s.Corresponds ρ t) (hab : post ρ a b) :
    Mirrors (Pure.pure a) (Pure.pure b) ρ s t post := of_corresponds h rfl (.ok hab)

lemma throw (e : RuntimeError) (h : s.Corresponds ρ t) :
    Mirrors (throw e) (throw e) ρ s t post := of_corresponds h rfl (.error e)

lemma congr (hx : x s = x' s) (hy : y t = y' t) (h : Mirrors x' y' ρ s t post) :
    Mirrors x y ρ s t post := by
  unfold Mirrors
  rw [hx, hy]
  exact h

lemma mono {post' : Pairing → α → β → Prop} (h : Mirrors x y ρ s t post)
    (himp : ∀ ρ' a b, post ρ' a b → post' ρ' a b) : Mirrors x y ρ s t post' := by
  intro hfits hfits'
  obtain ⟨ρ', hext, hcorr, hr⟩ := h hfits hfits'
  exact ⟨ρ', hext, hcorr, hr.imp (himp ρ')⟩

/-- What is done on the states may depend on them. -/
lemma get_bind {f : State → Action α} {g : State → Action β} (h : Mirrors (f s) (g t) ρ s t post) :
    Mirrors (get >>= f) (get >>= g) ρ s t post := by
  have hget : ∀ {γ : Type} (f : State → Action γ) (s : State), (get >>= f) s = f s s := by
    intro γ f s
    rw [bind_apply, get_apply, andThen_ok]
  exact congr (hget f s) (hget g t) h

/-- Sequences correspond if their parts do. -/
theorem bind {γ δ : Type} {f : α → Action γ} {g : β → Action δ} {post' : Pairing → γ → δ → Prop}
    (hxy : Mirrors x y ρ s t post) (hf : ∀ a, Keeps Heap.Spans (f a)) (hg : ∀ b, Keeps Heap.Spans (g b))
    (hfg : ∀ a b ρ' s' t', s'.Corresponds ρ' t' → (∀ o o', ρ o o' → ρ' o o') → post ρ' a b →
      Mirrors (f a) (g b) ρ' s' t' post') :
    Mirrors (x >>= f) (y >>= g) ρ s t post' := by
  unfold Mirrors
  rw [bind_apply, bind_apply]
  unfold Mirrors at hxy
  revert hxy
  rcases x s with ⟨r, s'⟩
  rcases y t with ⟨r', t'⟩
  intro hxy hfits hfits'
  have hspans : ∀ {γ δ : Type} {z : γ → Action δ} (r : Except RuntimeError γ) (u : State),
      (∀ c, Keeps Heap.Spans (z c)) → u.heap.Spans (andThen (r, u) z).2.heap := by
    intro γ δ z r u hz
    cases r with
    | error e => exact .refl _
    | ok c => exact hz c u
  obtain ⟨ρ', hext, hcorr, hr⟩ :=
    hxy ((hspans r s' hf).fits hfits) ((hspans r' t' hg).fits hfits')
  cases hr with
  | error e => exact ⟨ρ', hext, hcorr, .error e⟩
  | ok hab =>
    obtain ⟨ρ'', hext', hcorr', hr'⟩ := hfg _ _ ρ' s' t' hcorr hext.le hab hfits hfits'
    exact ⟨ρ'', hext.trans hext', hcorr', hr'⟩

/-- Reading gives what there is to read. -/
lemma reading {f : State → Except RuntimeError α} {g : State → Except RuntimeError β}
    (h : s.Corresponds ρ t) (hfg : Outcomes (post ρ) (f s) (g t)) :
    Mirrors (State.reading f) (State.reading g) ρ s t post := of_corresponds h rfl hfg

end Mirrors

end State

/-! ## The stack -/

namespace Slots

variable {ρ ρ' : Pairing} {s t : Slots}

lemma Corresponds.mono (hle : ∀ o o', ρ o o' → ρ' o o') (h : s.Corresponds ρ t) :
    s.Corresponds ρ' t := fun i => (h i).mono hle

lemma Corresponds.set (h : s.Corresponds ρ t) {v w : Value} (hv : v.Corresponds ρ w) (i : Nat) :
    (s.set i v).Corresponds ρ (t.set i w) := by
  intro j
  rw [get_set, get_set]
  split
  · exact hv
  · exact h j

lemma Corresponds.fill (h : s.Corresponds ρ t) (n i : Nat) :
    (s.fill n i).Corresponds ρ (t.fill n i) := by
  intro j
  rw [get_fill, get_fill]
  split
  · exact .nil
  · exact h j

lemma Corresponds.moveDown (h : s.Corresponds ρ t) (n src dst : Nat) :
    (s.moveDown n src dst).Corresponds ρ (t.moveDown n src dst) := by
  induction n generalizing src dst s t with
  | zero => exact h
  | succ n ih => exact ih (h.set (h src) dst) (src + 1) (dst + 1)

lemma Corresponds.moveUp (h : s.Corresponds ρ t) (n i : Nat) :
    (s.moveUp n i).Corresponds ρ (t.moveUp n i) := by
  induction n generalizing s t with
  | zero => exact h
  | succ n ih => exact ih (h.set (h (i + n)) (i + n + 1))

end Slots

namespace State

variable {ρ ρ' : Pairing} {s t : State}

namespace Corresponds

variable (h : s.Corresponds ρ t)

include h

/-- The heaps of two states are replaced by corresponding ones. -/
lemma withHeap {k k' : Heap} (hk : k.Corresponds ρ' k') (hle : ∀ o o', ρ o o' → ρ' o o') :
    State.Corresponds ρ' { s with heap := k } { t with heap := k' } where
  heap := hk
  stack := h.stack.mono hle
  top := h.top
  frames := h.frames
  natives i := optionRel_imp (fun _ _ hfg => ⟨hfg.name, fun i => (hfg.upvalue i).mono hle⟩)
    (h.natives i)
  globals := hle _ _ h.globals
  registry := hle _ _ h.registry
  broken := h.broken

lemma withStack {stack stack' : Slots} (hstack : stack.Corresponds ρ stack') :
    (s.withStack stack).Corresponds ρ (t.withStack stack') := { h with stack := hstack }

lemma withTop (n : Nat) : (s.withTop n).Corresponds ρ (t.withTop n) := { h with top := rfl }

lemma clear (lo hi : Nat) : (s.clear lo hi).Corresponds ρ (t.clear lo hi) :=
  { h with
    stack := h.stack.fill _ _
    broken := by
      change (s.broken || _) = (t.broken || _)
      rw [h.broken] }

lemma unwind (slot : Nat) : (s.unwind slot).Corresponds ρ (t.unwind slot) := by
  rw [unwind_eq, unwind_eq, h.top]
  exact (h.clear _ _).withTop _

lemma dropped : s.dropped.Corresponds ρ t.dropped := by
  unfold State.dropped
  rw [h.top]
  exact (h.withStack (h.stack.set .nil _)).withTop _

/-! ### Actions on the stack -/

lemma push {v w : Value} (hv : v.Corresponds ρ w) :
    Mirrors (push v) (push w) ρ s t Silently := by
  have hpush := push_apply v s
  have hpush' := push_apply w t
  rw [← h.top] at hpush'
  by_cases hfull : stackLimit ≤ s.top
  · rw [if_pos hfull] at hpush hpush'
    exact .of_apply hpush hpush' h rfl (.error _)
  · rw [if_neg hfull] at hpush hpush'
    exact .of_apply hpush hpush' ((h.withStack (h.stack.set hv _)).withTop _) rfl (.ok trivial)

lemma pop : Mirrors pop pop ρ s t Value.Corresponds := by
  have hpop := pop_apply s
  have hpop' := pop_apply t
  rw [← h.top, ← h.base_eq] at hpop'
  by_cases hempty : s.top ≤ s.base
  · rw [if_pos hempty] at hpop hpop'
    exact .of_apply hpop hpop' h rfl (.error _)
  · rw [if_neg hempty] at hpop hpop'
    exact .of_apply hpop hpop' h.dropped rfl (.ok (h.stack _))

lemma slot (index : Int) : Mirrors (slot index) (slot index) ρ s t Equally := by
  have hslot := slot_apply index s
  have hslot' := slot_apply index t
  rw [← h.slot?_eq] at hslot'
  cases hi : s.slot? index with
  | none =>
    rw [hi] at hslot hslot'
    exact .of_apply hslot hslot' h rfl (.error _)
  | some i =>
    rw [hi] at hslot hslot'
    exact .of_apply hslot hslot' h rfl (.ok rfl)

lemma remove (index : Int) : Mirrors (remove index) (remove index) ρ s t Value.Corresponds := by
  have hremove := remove_apply index s
  have hremove' := remove_apply index t
  rw [← h.slot?_eq, ← h.top] at hremove'
  cases hi : s.slot? index with
  | none =>
    rw [hi] at hremove hremove'
    exact .of_apply hremove hremove' h rfl (.error _)
  | some i =>
    rw [hi] at hremove hremove'
    refine .of_apply hremove hremove' ?_ rfl (.ok (h.stack i))
    exact (h.withStack ((h.stack.moveDown _ _ _).set .nil _)).withTop _

lemma replace (index : Int) : Mirrors (replace index) (replace index) ρ s t Silently := by
  have hreplace := replace_apply index s
  have hreplace' := replace_apply index t
  rw [← h.slot?_eq, ← h.top, ← h.base_eq] at hreplace'
  cases hi : s.slot? index with
  | none =>
    rw [hi] at hreplace hreplace'
    exact .of_apply hreplace hreplace' h rfl (.error _)
  | some i =>
    simp only [hi] at hreplace hreplace'
    by_cases hempty : s.top ≤ s.base
    · rw [if_pos hempty] at hreplace hreplace'
      exact .of_apply hreplace hreplace' h rfl (.error _)
    · rw [if_neg hempty] at hreplace hreplace'
      by_cases hlt : i < s.top - 1
      · rw [if_pos hlt] at hreplace hreplace'
        refine .of_apply hreplace hreplace' ?_ rfl (.ok trivial)
        exact h.dropped.withStack (h.dropped.stack.set (h.stack _) i)
      · rw [if_neg hlt] at hreplace hreplace'
        exact .of_apply hreplace hreplace' h.dropped rfl (.ok trivial)

lemma insert (index : Int) : Mirrors (insert index) (insert index) ρ s t Silently := by
  have hinsert := insert_apply index s
  have hinsert' := insert_apply index t
  rw [← h.slot?_eq, ← h.top] at hinsert'
  cases hi : s.slot? index with
  | none =>
    rw [hi] at hinsert hinsert'
    exact .of_apply hinsert hinsert' h rfl (.error _)
  | some i =>
    rw [hi] at hinsert hinsert'
    refine .of_apply hinsert hinsert' ?_ rfl (.ok trivial)
    exact h.withStack ((h.stack.moveUp _ _).set (h.stack _) i)

lemma setTop (index : Int) : Mirrors (setTop index) (setTop index) ρ s t Silently := by
  have htop : s.newTop index = t.newTop index := by rw [newTop, newTop, h.base_eq, h.top]
  have hsetTop := setTop_apply index s
  have hsetTop' := setTop_apply index t
  rw [← h.size_eq, ← htop, ← h.top] at hsetTop'
  by_cases hdrop : index < 0 ∧ s.size < index.natAbs - 1
  · rw [if_pos hdrop] at hsetTop hsetTop'
    exact .of_apply hsetTop hsetTop' h rfl (.error _)
  rw [if_neg hdrop] at hsetTop hsetTop'
  by_cases hfull : stackLimit < s.newTop index
  · rw [if_pos hfull] at hsetTop hsetTop'
    exact .of_apply hsetTop hsetTop' h rfl (.error _)
  · rw [if_neg hfull] at hsetTop hsetTop'
    exact .of_apply hsetTop hsetTop' ((h.clear _ _).withTop _) rfl (.ok trivial)

/-! ### Arguments -/

lemma checkNumber (index : Int) :
    Mirrors (checkNumber index) (checkNumber index) ρ s t Equally := by
  rw [checkNumber_eq]
  refine .reading h ?_
  have hv := h.valueAt index
  rw [h.coerceNumber_eq hv, hv.typeName_eq, h.badArgument_eq]
  split
  · exact .ok rfl
  · exact .error _

lemma checkBytes (index : Int) : Mirrors (checkBytes index) (checkBytes index) ρ s t Equally := by
  rw [checkBytes_eq]
  refine .reading h ?_
  have hv := h.valueAt index
  rw [h.bytes?_eq hv, hv.number?_eq, hv.typeName_eq, h.badArgument_eq]
  split
  · exact .ok rfl
  · exact .ok rfl
  · exact .error _

lemma checkString (index : Int) :
    Mirrors (checkString index) (checkString index) ρ s t Equally := by
  refine (h.checkBytes index).bind (fun bs => ?_) (fun bs => ?_) ?_
  iterate 2
    split
    · exact .pure _
    · exact .get_bind fun s => .throw _
  rintro bs _ ρ' s' t' h' - rfl
  cases Text.ofBytes? bs with
  | some text => exact .pure h' rfl
  | none =>
    refine .get_bind ?_
    rw [h'.badArgument_eq]
    exact .throw _ h'

/-! ### The heap -/

/-- The string of a content. -/
lemma internBytes (content : List UInt8) :
    Mirrors (internBytes content) (internBytes content) ρ s t Value.Corresponds := by
  intro hfits hfits'
  obtain ⟨ρ', hext, hcorr, hpaired⟩ := h.heap.intern content hfits hfits'
  exact ⟨ρ', hext, h.withHeap hcorr hext.le, .ok (hcorr.value hpaired)⟩

lemma intern (text : String) :
    Mirrors (intern text) (intern text) ρ s t Value.Corresponds := h.internBytes _

lemma newTable (size : Nat) :
    Mirrors (newTable size) (newTable size) ρ s t Value.Corresponds := by
  intro hfits hfits'
  obtain ⟨ρ', hext, hcorr, hpaired⟩ := h.heap.newTable size hfits hfits'
  exact ⟨ρ', hext, h.withHeap hcorr hext.le, .ok (hcorr.value hpaired)⟩

lemma newEnv {parent parent' : Option Nat}
    (hp : Option.Rel (fun i j => ρ (.env i) (.env j)) parent parent') :
    Mirrors (newEnv parent) (newEnv parent') ρ s t Value.Corresponds := by
  intro hfits hfits'
  obtain ⟨ρ', hext, hcorr, hpaired⟩ := h.heap.newEnv hp hfits hfits'
  exact ⟨ρ', hext, h.withHeap hcorr hext.le, .ok (hcorr.value hpaired)⟩

lemma newUserdata (payload : Nat) {v w : Value} (hv : v.Corresponds ρ w) :
    Mirrors (newUserdata payload v) (newUserdata payload w) ρ s t Value.Corresponds := by
  intro hfits hfits'
  obtain ⟨ρ', hext, hcorr, hpaired⟩ := h.heap.newUserdata payload hv.table? hfits hfits'
  exact ⟨ρ', hext, h.withHeap hcorr hext.le, .ok (hcorr.value hpaired)⟩

lemma rawSet {v w key key' value value' : Value} (hv : v.Corresponds ρ w)
    (hk : key.Corresponds ρ key') (hvalue : value.Corresponds ρ value') :
    Mirrors (rawSet v key value) (rawSet w key' value') ρ s t Silently := by
  have htable := hv.table?
  rw [rawSet_eq, rawSet_eq, hk.isKey_eq, hv.typeName_eq]
  intro hfits hfits'
  unfold onHeap at hfits hfits' ⊢
  revert htable
  by_cases hkey : isKey key' = false
  · simp only [if_pos hkey]
    exact fun _ => ⟨ρ, .refl ρ _, h, .error _⟩
  simp only [if_neg hkey]
  rcases v.table? with _ | i <;> rcases w.table? with _ | j <;> intro htable <;> cases htable
  · exact ⟨ρ, .refl ρ _, h, .error _⟩
  next hij =>
    obtain ⟨hin, hin'⟩ := h.heap.inUse _ _ hij
    have hi : i < s.heap.tables.items.size := hin.lt_size
    have hj : j < t.heap.tables.items.size := hin'.lt_size
    simp only [if_pos hi, if_pos hj]
    obtain ⟨hcorr, hext⟩ := h.heap.setEntry hij hk hvalue
    exact ⟨ρ, hext, h.withHeap hcorr hext.le, .ok trivial⟩

lemma setMetatable {v w mt mt' : Value} (hv : v.Corresponds ρ w) (hmt : mt.Corresponds ρ mt') :
    Mirrors (setMetatable v mt) (setMetatable w mt') ρ s t Silently := by
  have hset := h.heap.setMetatable? hv hmt.table?
  rw [setMetatable_eq, setMetatable_eq, hmt.isNil_eq, hmt.isTable_eq, hv.typeName_eq]
  intro hfits hfits'
  unfold onHeap at hfits hfits' ⊢
  revert hset
  by_cases hbad : mt'.isNil = false ∧ mt'.isTable = false
  · simp only [if_pos hbad]
    exact fun _ => ⟨ρ, .refl ρ _, h, .error _⟩
  simp only [if_neg hbad]
  rcases s.heap.setMetatable? v mt.table? with _ | k <;>
    rcases t.heap.setMetatable? w mt'.table? with _ | k' <;> intro hset <;> cases hset
  · exact ⟨ρ, .refl ρ _, h, .error _⟩
  next hset => exact ⟨ρ, hset.2, h.withHeap hset.1 hset.2.le, .ok trivial⟩

lemma envSet {i j : Nat} (hij : ρ (.env i) (.env j)) (level slot : Nat) {v w : Value}
    (hv : v.Corresponds ρ w) :
    Mirrors (onHeap fun k => (.ok (), k.envSet i level slot v))
      (onHeap fun k => (.ok (), k.envSet j level slot w)) ρ s t Silently := by
  intro _ _
  obtain ⟨hcorr, hext⟩ := h.heap.envSet hij level slot hv
  exact ⟨ρ, hext, h.withHeap hcorr hext.le, .ok trivial⟩

end Corresponds

end State

end ScriptCore
