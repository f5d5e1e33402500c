import Mathlib
import ScriptCore.Proofs.Correspondence

set_option relaxedAutoImplicit false
set_option autoImplicit false

/-!
# Corresponding changes

The same change of two corresponding heaps leaves corresponding heaps, as long as there are handles
for all entries. An object that is made in both comes as a new pair; the others stay. Only strings
can come by a partner late: the first heap may have lost a string that the second one still has, and
makes it again.

## Main definitions

* `ScriptCore.Pairing.Extends` — pairings that have grown by new objects.

## Main results

* `ScriptCore.Heap.Corresponds.change` — a change of one object in each heap.
* `ScriptCore.Heap.Corresponds.intern` and others — the operations on heaps.
-/

namespace ScriptCore

/-- A pairing has grown while the second heap came to be `k'` out of `k`: pairs stay, and objects
that were in use and are no strings have come by no new partner. -/
structure Pairing.Extends (ρ : Pairing) (k : Heap) (ρ' : Pairing) (k' : Heap) : Prop where
  le : ∀ o o', ρ o o' → ρ' o o'
  old : ∀ o o', k.InUse o' → ¬ o'.IsString → ρ' o o' → ρ o o'
  inUse : ∀ o, k.InUse o → k'.InUse o

namespace Pairing.Extends

variable {ρ ρ' ρ'' : Pairing} {k k' k'' : Heap}

lemma refl (ρ : Pairing) (k : Heap) : ρ.Extends k ρ k :=
  ⟨fun _ _ h => h, fun _ _ _ _ h => h, fun _ h => h⟩

lemma trans (h : ρ.Extends k ρ' k') (h' : ρ'.Extends k' ρ'' k'') : ρ.Extends k ρ'' k'' where
  le o o' ho := h'.le o o' (h.le o o' ho)
  old o o' hin hs ho := h.old o o' hin hs (h'.old o o' (h.inUse o' hin) hs ho)
  inUse o ho := h'.inUse o (h.inUse o ho)

end Pairing.Extends

namespace Heap

variable {ρ ρ' : Pairing} {h k h' k' : Heap}

/-- Entries correspond as long as they stay as they are. -/
lemma EntriesCorrespond.of_sameEntry {o o' : Object} (he : h.EntriesCorrespond ρ k o o')
    (hle : ∀ p p', ρ p p' → ρ' p p') (hs : h.SameEntry h' o) (hs' : k.SameEntry k' o') :
    h'.EntriesCorrespond ρ' k' o o' := by
  cases he with
  | string hi hj => exact .string (hs.trans hi) (hs'.trans hj)
  | table hi hj htu => exact .table (hs.trans hi) (hs'.trans hj) (htu.mono hle)
  | env hi hj hef => exact .env (hs.trans hi) (hs'.trans hj) (hef.mono hle)
  | userdata hi hj huw =>
    exact .userdata (hs.trans hi) (hs'.trans hj)
      ⟨optionRel_imp (fun _ _ => hle _ _) huw.metatable, huw.payload⟩

lemma Regular.changesOnly {o : Object} (hr : h.Regular) (hc : h.ChangesOnly h' o)
    (hfits : h'.Fits) : h'.Regular :=
  ⟨hc.wellFormed, hc.interning, hc.marks ▸ hr.unmarked, hfits⟩

namespace Corresponds

/-- **A change of one object in each heap** leaves corresponding heaps if the two objects are paired,
or neither is, and their entries correspond behind it. -/
theorem change {o o' : Object} (hc : h.Corresponds ρ k) (hh : h.ChangesOnly h' o)
    (hk : k.ChangesOnly k' o') (hiff : ∀ p p', ρ p p' → (p = o ↔ p' = o'))
    (hnew : k.InUse o' → ¬ o'.IsString → ρ o o') (hin : h'.InUse o) (hin' : k'.InUse o')
    (hentry : h'.EntriesCorrespond (ρ.add o o') k' o o') (hfits : h'.Fits) (hfits' : k'.Fits) :
    h'.Corresponds (ρ.add o o') k' ∧ ρ.Extends k (ρ.add o o') k' := by
  constructor
  · refine
      { regular := hc.regular.changesOnly hh hfits
        regular' := hc.regular'.changesOnly hk hfits'
        biUnique := Pairing.biUnique_add hc.biUnique hiff
        total := fun p hp => ?_
        inUse := ?_
        entries := ?_ }
    · rcases hh.new p hp with hp | rfl
      · obtain ⟨p', hp'⟩ := hc.total p hp
        exact ⟨p', .inl hp'⟩
      · exact ⟨o', Pairing.add_self⟩
    · rintro p p' (hp | ⟨rfl, rfl⟩)
      · obtain ⟨h1, h2⟩ := hc.inUse p p' hp
        exact ⟨hh.inUse p h1, hk.inUse p' h2⟩
      · exact ⟨hin, hin'⟩
    · rintro p p' (hp | ⟨rfl, rfl⟩)
      · by_cases heq : p = o
        · obtain rfl := heq
          obtain rfl := (hiff _ _ hp).1 rfl
          exact hentry
        · obtain ⟨h1, h2⟩ := hc.inUse p p' hp
          exact (hc.entries p p' hp).of_sameEntry Pairing.le_add (hh.same p h1 heq)
            (hk.same p' h2 fun heq' => heq ((hiff _ _ hp).2 heq'))
      · exact hentry
  · refine ⟨Pairing.le_add, ?_, hk.inUse⟩
    rintro p p' hp' hs (hp | ⟨rfl, rfl⟩)
    · exact hp
    · exact hnew hp' hs

/-- A change of two objects that are paired. -/
lemma change_paired {o o' : Object} (hc : h.Corresponds ρ k) (ho : ρ o o')
    (hh : h.ChangesOnly h' o) (hk : k.ChangesOnly k' o')
    (hentry : h'.EntriesCorrespond ρ k' o o') (hfits : h'.Fits) (hfits' : k'.Fits) :
    h'.Corresponds ρ k' ∧ ρ.Extends k ρ k' := by
  obtain ⟨hin, hin'⟩ := hc.inUse o o' ho
  have hiff : ∀ p p', ρ p p' → (p = o ↔ p' = o') := by
    intro p p' hp
    constructor
    · rintro rfl
      exact hc.biUnique.2 hp ho
    · rintro rfl
      exact hc.biUnique.1 hp ho
  have hchange := hc.change hh hk hiff (fun _ _ => ho) (hh.inUse o hin) (hk.inUse o' hin')
    (by rwa [Pairing.add_of_paired ho]) hfits hfits'
  rwa [Pairing.add_of_paired ho] at hchange

/-- Two new objects come as a new pair. -/
lemma change_fresh {o o' : Object} (hc : h.Corresponds ρ k) (hfresh : ¬ h.InUse o)
    (hfresh' : ¬ k.InUse o') (hh : h.ChangesOnly h' o) (hk : k.ChangesOnly k' o')
    (hin : h'.InUse o) (hin' : k'.InUse o')
    (hentry : h'.EntriesCorrespond (ρ.add o o') k' o o') (hfits : h'.Fits) (hfits' : k'.Fits) :
    h'.Corresponds (ρ.add o o') k' ∧ ρ.Extends k (ρ.add o o') k' := by
  refine hc.change hh hk (fun p p' hp => ?_) (fun hin _ => absurd hin hfresh') hin hin' hentry
    hfits hfits'
  obtain ⟨h1, h2⟩ := hc.inUse p p' hp
  constructor
  · rintro rfl
    exact absurd h1 hfresh
  · rintro rfl
    exact absurd h2 hfresh'

variable (hc : h.Corresponds ρ k)

include hc

/-! ### New objects -/

/-- **Interning a content.** If the first heap has the content, so has the second one, and the two
strings are paired. Otherwise the string of the second heap, new or not, is paired with nothing. -/
theorem intern (c : List UInt8) (hfits : (h.intern c).2.Fits) (hfits' : (k.intern c).2.Fits) :
    ∃ ρ', ρ.Extends k ρ' (k.intern c).2 ∧ (h.intern c).2.Corresponds ρ' (k.intern c).2 ∧
      ρ' (.string (h.intern c).1) (.string (k.intern c).1) := by
  have hi := hc.regular.interning
  have hi' := hc.regular'.interning
  rcases hfound : h.find? c with _ | i
  · have hnew : ∀ i, ¬ h.HoldsString i c := by
      intro i hholds
      rw [find?, (hi.interned_iff c i).2 hholds] at hfound
      cases hfound
    have hunpaired : ∀ p, ¬ ρ p (.string (k.intern c).1) := by
      intro p hp
      rcases hfound' : k.find? c with _ | j
      · have hnew' : ∀ j, ¬ k.HoldsString j c := by
          intro j hholds
          rw [find?, (hi'.interned_iff c j).2 hholds] at hfound'
          cases hfound'
        exact (hi'.intern_of_new hnew').1 (hc.inUse _ _ hp).2
      · rw [hi'.intern_of_holdsString ((hi'.interned_iff c j).1 hfound')] at hp
        exact hc.unpaired hfound hfound' p hp
    have hholds := hi.holdsString_index c
    have hholds' := hi'.holdsString_index c
    obtain ⟨hcorr, hext⟩ := hc.change (changesOnly_intern hc.regular.wellFormed hi c)
      (changesOnly_intern hc.regular'.wellFormed hi' c)
      (fun p p' hp => ⟨fun heq => absurd (hc.inUse _ _ (heq ▸ hp)).1 (hi.intern_of_new hnew).1,
        fun heq => absurd (heq ▸ hp) (hunpaired p)⟩)
      (fun _ hs => absurd ⟨_, rfl⟩ hs) hholds.inUse hholds'.inUse
      (.string hholds.content hholds'.content) hfits hfits'
    exact ⟨_, hext, hcorr, Pairing.add_self⟩
  · obtain ⟨j, hj, hij⟩ := hc.find?_of_find? hfound
    rw [hi.intern_of_holdsString ((hi.interned_iff c i).1 hfound),
      hi'.intern_of_holdsString ((hi'.interned_iff c j).1 hj)]
    exact ⟨ρ, .refl ρ k, hc, hij⟩

lemma newTable (size : Nat) (hfits : (h.newTable size).2.Fits) (hfits' : (k.newTable size).2.Fits) :
    ∃ ρ', ρ.Extends k ρ' (k.newTable size).2 ∧
      (h.newTable size).2.Corresponds ρ' (k.newTable size).2 ∧
      ρ' (.table (h.newTable size).1) (.table (k.newTable size).1) := by
  have hwf := hc.regular.wellFormed
  have hwf' := hc.regular'.wellFormed
  have hfresh : ¬ h.InUse (.table (h.newTable size).1) := (hwf.tables.alloc_index .empty).1
  have hfresh' : ¬ k.InUse (.table (k.newTable size).1) := (hwf'.tables.alloc_index .empty).1
  obtain ⟨hcorr, hext⟩ := hc.change_fresh hfresh hfresh' (changesOnly_newTable hwf hc.regular.interning size)
    (changesOnly_newTable hwf' hc.regular'.interning size) (inUse_newTable hwf size)
    (inUse_newTable hwf' size) (.table (get?_newTable hwf size) (get?_newTable hwf' size) .empty)
    hfits hfits'
  exact ⟨_, hext, hcorr, Pairing.add_self⟩

lemma newEnv {parent parent' : Option Nat}
    (hp : Option.Rel (fun i j => ρ (.env i) (.env j)) parent parent')
    (hfits : (h.newEnv parent).2.Fits) (hfits' : (k.newEnv parent').2.Fits) :
    ∃ ρ', ρ.Extends k ρ' (k.newEnv parent').2 ∧
      (h.newEnv parent).2.Corresponds ρ' (k.newEnv parent').2 ∧
      ρ' (.env (h.newEnv parent).1) (.env (k.newEnv parent').1) := by
  have hwf := hc.regular.wellFormed
  have hwf' := hc.regular'.wellFormed
  have hnew : (Env.new parent).Corresponds ρ (Env.new parent') := by
    intro i
    rcases i with _ | i
    · cases hp with
      | none => exact .nil
      | some hij => exact hc.value hij
    · exact .nil
  have hfresh : ¬ h.InUse (.env (h.newEnv parent).1) := (hwf.envs.alloc_index (.new parent)).1
  have hfresh' : ¬ k.InUse (.env (k.newEnv parent').1) :=
    (hwf'.envs.alloc_index (.new parent')).1
  obtain ⟨hcorr, hext⟩ := hc.change_fresh hfresh hfresh'
    (changesOnly_newEnv hwf hc.regular.interning parent)
    (changesOnly_newEnv hwf' hc.regular'.interning parent') (inUse_newEnv hwf parent)
    (inUse_newEnv hwf' parent')
    (.env (get?_newEnv hwf parent) (get?_newEnv hwf' parent') (hnew.mono Pairing.le_add))
    hfits hfits'
  exact ⟨_, hext, hcorr, Pairing.add_self⟩

lemma newUserdata (payload : Nat) {metatable metatable' : Option Nat}
    (hmt : Option.Rel ρ.Tables metatable metatable')
    (hfits : (h.newUserdata payload metatable).2.Fits)
    (hfits' : (k.newUserdata payload metatable').2.Fits) :
    ∃ ρ', ρ.Extends k ρ' (k.newUserdata payload metatable').2 ∧
      (h.newUserdata payload metatable).2.Corresponds ρ' (k.newUserdata payload metatable').2 ∧
      ρ' (.userdata (h.newUserdata payload metatable).1)
        (.userdata (k.newUserdata payload metatable').1) := by
  have hwf := hc.regular.wellFormed
  have hwf' := hc.regular'.wellFormed
  have hfresh : ¬ h.InUse (.userdata (h.newUserdata payload metatable).1) :=
    (hwf.userdata.alloc_index (some ⟨metatable, payload⟩)).1
  have hfresh' : ¬ k.InUse (.userdata (k.newUserdata payload metatable').1) :=
    (hwf'.userdata.alloc_index (some ⟨metatable', payload⟩)).1
  obtain ⟨hcorr, hext⟩ := hc.change_fresh hfresh hfresh'
    (changesOnly_newUserdata hwf hc.regular.interning payload metatable)
    (changesOnly_newUserdata hwf' hc.regular'.interning payload metatable')
    (inUse_newUserdata hwf payload metatable) (inUse_newUserdata hwf' payload metatable')
    (.userdata (get?_newUserdata hwf payload metatable) (get?_newUserdata hwf' payload metatable')
      ⟨optionRel_imp (fun _ _ => .inl) hmt, rfl⟩)
    hfits hfits'
  exact ⟨_, hext, hcorr, Pairing.add_self⟩

/-! ### Writes -/

omit hc in
/-- A write makes no entry. -/
lemma fits_of_modifyTable (i : Nat) (f : Table → Table) (hfits : h.Fits) :
    Fits { h with tables := h.tables.modify i f } := by
  intro o ho
  refine hfits o ?_
  cases o with
  | table j => simpa [HasEntry, Arena.modify] using ho
  | _ => exact ho

lemma setEntry {i j : Nat} (hij : ρ (.table i) (.table j)) {key key' value value' : Value}
    (hk : key.Corresponds ρ key') (hv : value.Corresponds ρ value') :
    let h' : Heap := { h with tables := h.tables.modify i (·.set key value) }
    let k' : Heap := { k with tables := k.tables.modify j (·.set key' value') }
    h'.Corresponds ρ k' ∧ ρ.Extends k ρ k' := by
  obtain ⟨t, u, hi, hj, htu⟩ := hc.tables hij
  refine hc.change_paired hij
    (changesOnly_modifyTable hc.regular.wellFormed hc.regular.interning i (·.set key value))
    (changesOnly_modifyTable hc.regular'.wellFormed hc.regular'.interning j (·.set key' value'))
    (.table ?_ ?_ (htu.set hc.biUnique hk hv)) (fits_of_modifyTable _ _ hc.regular.fits)
    (fits_of_modifyTable _ _ hc.regular'.fits)
  · rw [Arena.get?_modify, if_pos rfl, hi, Option.map_some]
  · rw [Arena.get?_modify, if_pos rfl, hj, Option.map_some]

lemma envSet {i j : Nat} (hij : ρ (.env i) (.env j)) (level slot : Nat) {v w : Value}
    (hv : v.Corresponds ρ w) :
    (h.envSet i level slot v).Corresponds ρ (k.envSet j level slot w) ∧
      ρ.Extends k ρ (k.envSet j level slot w) := by
  have habove := hc.envAbove? hij level
  unfold Heap.envSet
  revert habove
  rcases h.envAbove? level i with _ | p <;> rcases k.envAbove? level j with _ | q <;>
    intro habove <;> cases habove
  · exact ⟨hc, .refl ρ k⟩
  next hpq =>
  obtain ⟨e, f, hp, hq, hef⟩ := hc.envs hpq
  have hfits : ∀ {l : Heap} (p : Nat) (g : Env → Env), l.Fits →
      Fits { l with envs := l.envs.modify p g } := by
    intro l p g hl o ho
    refine hl o ?_
    cases o with
    | env _ => simpa [HasEntry, Arena.modify] using ho
    | _ => exact ho
  refine hc.change_paired hpq
    (changesOnly_modifyEnv hc.regular.wellFormed hc.regular.interning p (·.set slot v))
    (changesOnly_modifyEnv hc.regular'.wellFormed hc.regular'.interning q (·.set slot w))
    (.env ?_ ?_ (hef.set hv slot)) (hfits p _ hc.regular.fits) (hfits q _ hc.regular'.fits)
  · rw [Arena.get?_modify, if_pos rfl, hp, Option.map_some]
  · rw [Arena.get?_modify, if_pos rfl, hq, Option.map_some]

/-- **Setting a metatable** succeeds in both heaps or in none. -/
theorem setMetatable? {v w : Value} (hv : v.Corresponds ρ w) {metatable metatable' : Option Nat}
    (hmt : Option.Rel ρ.Tables metatable metatable') :
    Option.Rel (fun h' k' => h'.Corresponds ρ k' ∧ ρ.Extends k ρ k')
      (h.setMetatable? v metatable) (k.setMetatable? w metatable') := by
  have hobject := hv.object?
  unfold Heap.setMetatable?
  revert hobject
  rcases v.object? with _ | o <;> rcases w.object? with _ | o' <;> intro hobject <;> cases hobject
  · exact .none
  next ho =>
  cases hc.entries _ _ ho with
  | string | env => exact .none
  | @table i j t u hi hj htu =>
    simp only [hi, hj, Option.map_some]
    refine .some ?_
    rw [Arena.set_eq_modify, Arena.set_eq_modify]
    refine hc.change_paired ho
      (changesOnly_modifyTable hc.regular.wellFormed hc.regular.interning i _)
      (changesOnly_modifyTable hc.regular'.wellFormed hc.regular'.interning j _)
      (.table (t := { t with metatable }) (u := { u with metatable := metatable' }) ?_ ?_
        ⟨htu.embeds, htu.embeds', hmt⟩) (fits_of_modifyTable _ _ hc.regular.fits)
      (fits_of_modifyTable _ _ hc.regular'.fits)
    · rw [Arena.get?_modify, if_pos rfl, hi, Option.map_some]
    · rw [Arena.get?_modify, if_pos rfl, hj, Option.map_some]
  | @userdata i j u w hi hj huw =>
    simp only [userdata?, hi, hj, Option.join_some, Option.map_some]
    refine .some ?_
    rw [Arena.set_eq_modify, Arena.set_eq_modify]
    have hfits : ∀ {l : Heap} (p : Nat) (x : Option Userdata), l.Fits →
        Fits { l with userdata := l.userdata.modify p fun _ => x } := by
      intro l p x hl o ho
      refine hl o ?_
      cases o with
      | userdata _ => simpa [HasEntry, Arena.modify] using ho
      | _ => exact ho
    refine hc.change_paired ho
      (changesOnly_modifyUserdata hc.regular.wellFormed hc.regular.interning i _)
      (changesOnly_modifyUserdata hc.regular'.wellFormed hc.regular'.interning j _)
      (.userdata (u := { u with metatable }) (w := { w with metatable := metatable' }) ?_ ?_
        ⟨hmt, huw.payload⟩) (hfits i _ hc.regular.fits)
      (hfits j _ hc.regular'.fits)
    · rw [Arena.get?_modify, if_pos rfl, hi, Option.map_some]
    · rw [Arena.get?_modify, if_pos rfl, hj, Option.map_some]

end Corresponds

end Heap

end ScriptCore
