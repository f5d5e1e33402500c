import ScriptCore.Proofs.Base64Opening

set_option relaxedAutoImplicit false
set_option autoImplicit false

/-!
# The texts the decoder accepts

The decoder cuts its text into groups of four characters. A group is accepted if all its characters are of the
alphabet and the first two of them are digits, and gives the whole bytes of its digits before the first padding
character. So it is the groups with padding at their end only that are accepted, apart from those with a digit
behind a padding character at the third place. Such a digit is passed over.

## Main definitions

* `ScriptCore.Base64.groups` — the groups of a text.
* `ScriptCore.Base64.contents` — the whole bytes of the groups.
* `ScriptCore.Base64.Readable`, `ScriptCore.Base64.WellPadded` — texts that are accepted, and those that should be.
* `ScriptCore.Base64.SkipsDigit` — groups of which a digit is passed over.

## Main results

* `ScriptCore.Base64.readText_of_readable`, `ScriptCore.Base64.exists_fault` — what is accepted and what is not.
* `ScriptCore.Base64.wellPadded_iff` — texts of which nothing is passed over.
* `ScriptCore.Base64.decodes_of_opened` — the decoder behind an opening of the library.
-/

namespace ScriptCore

namespace Base64

/-! ## Groups -/

/-- The groups of four characters of a text. The last one may be shorter. -/
def groups : List UInt8 → List (List UInt8)
  | [] => []
  | [a] => [[a]]
  | [a, b] => [[a, b]]
  | [a, b, c] => [[a, b, c]]
  | a :: b :: c :: d :: rest => [a, b, c, d] :: groups rest

/-- The digits of a group: its characters before the first padding character. -/
def dataOf (g : List UInt8) : List UInt8 := g.takeWhile (· ≠ paddingByte)

/-- **The whole bytes of `k` digits**, of which there are `k - 1`: the digits are a number of six bits each, from
which the last bits are cut off. -/
def wholeBytes (data : List UInt8) : List UInt8 :=
  let n := data.foldl (fun n c => 64 * n + codes.idxOf c) 0 / 2 ^ (8 - 2 * data.length)
  (List.range (data.length - 1)).map fun i => UInt8.ofNat (n / 256 ^ (data.length - 2 - i))

/-- The whole bytes of the digits of every group. -/
def contents (s : List UInt8) : List UInt8 := (groups s).flatMap fun g => wholeBytes (dataOf g)

/-- A group that is accepted: its characters are of the alphabet, and the first two of them are digits. -/
structure ReadableGroup (g : List UInt8) : Prop where
  characters : ∀ c ∈ g, c ∈ codes
  data : 2 ≤ (dataOf g).length

/-- A text that is accepted. -/
def Readable (s : List UInt8) : Prop := ∀ g ∈ groups s, ReadableGroup g

/-- **A text with padding as it should be**: its characters are of the alphabet, and every group consists of two
digits at least with padding characters behind them. -/
structure WellPadded (s : List UInt8) : Prop where
  characters : ∀ c ∈ s, c ∈ codes
  groups : ∀ g ∈ groups s, ∃ data padding, g = data ++ List.replicate padding paddingByte ∧ 2 ≤ data.length ∧
    ∀ c ∈ data, c ∈ codes.take 64

/-- A group of which the last digit is passed over, since there is a padding character before it. -/
def SkipsDigit (g : List UInt8) : Prop :=
  ∃ a b d, g = [a, b, paddingByte, d] ∧ ∀ c ∈ [a, b, d], c ∈ codes.take 64

/-- What is said of a text that is not accepted. -/
inductive IsFault (s : List UInt8) : String → Prop
  | character {c : UInt8} : c ∈ s → c ∉ codes →
      IsFault s ("invalid character '" ++ (Char.ofNat c.toNat).toString ++ "'")
  | padding : IsFault s "invalid padding"

lemma flatten_groups (s : List UInt8) : (groups s).flatten = s := by
  fun_induction groups s with
  | case1 | case2 | case3 | case4 => rfl
  | case5 a b c d rest ih =>
    rw [List.flatten_cons, ih]
    rfl

lemma length_le_of_mem_groups {s g : List UInt8} (hg : g ∈ groups s) : g.length ≤ 4 := by
  fun_induction groups s with
  | case1 => cases hg
  | case2 | case3 | case4 =>
    rw [List.mem_singleton.1 hg]
    exact Nat.le_of_ble_eq_true rfl
  | case5 a b c d rest ih =>
    rcases List.mem_cons.1 hg with rfl | hg
    · exact le_rfl
    · exact ih hg

lemma IsFault.mono {s s' : List UInt8} {message : String} (h : IsFault s message) (hs : s ⊆ s') :
    IsFault s' message := by
  cases h with
  | character hc hnot => exact .character (hs hc) hnot
  | padding => exact .padding

/-! ## One group -/

lemma mem_digits_iff : ∀ c ∈ codes, c ∈ codes.take 64 ↔ c ≠ paddingByte := by decide +kernel

lemma idxOf_padding : codes.idxOf paddingByte = 64 := by decide +kernel

/-- The position of a digit. -/
lemma idxOf_lt {c : UInt8} (hc : c ∈ codes) (hne : c ≠ paddingByte) : codes.idxOf c < 64 := by
  have hlt : codes.idxOf c < 65 := length_codes ▸ List.idxOf_lt_length_iff.2 hc
  have hpadding : codes.idxOf c ≠ 64 := fun h =>
    hne ((List.idxOf_inj hc).1 (h.trans idxOf_padding.symm))
  omega

lemma padding_notMem : paddingByte ∉ codes.take 64 := by decide +kernel

/-- What is read in a group that is accepted. -/
def readGroupOf (g : List UInt8) : Except String (List UInt8) := readGroup g[0]? g[1]? g[2]? g[3]?

lemma valueOf_of_mem {c : UInt8} (hc : c ∈ codes) : valueOf (some c) = .ok (codes.idxOf c) := if_pos hc

/-- The digits of a list that begins with a padding character, and of one that begins with another character. -/
lemma dataOf_cons (c : UInt8) (g : List UInt8) :
    dataOf (c :: g) = if c = paddingByte then [] else c :: dataOf g := by
  rw [dataOf, List.takeWhile_cons]
  by_cases hc : c = paddingByte
  · simp only [hc, ne_eq, not_true_eq_false, decide_false, Bool.false_eq_true, ↓reduceIte]
  · simp only [hc, ne_eq, not_false_eq_true, decide_true, ↓reduceIte, dataOf]

lemma two_le_dataOf_iff {g : List UInt8} : 2 ≤ (dataOf g).length ↔
    ∃ c₁ c₂ rest, g = c₁ :: c₂ :: rest ∧ c₁ ≠ paddingByte ∧ c₂ ≠ paddingByte := by
  constructor
  · rcases g with _ | ⟨c₁, _ | ⟨c₂, rest⟩⟩
    · exact fun h => absurd h (by decide)
    · rw [dataOf_cons]
      split
      · exact fun h => absurd h (by decide)
      · exact fun h => absurd h (Nat.not_succ_le_self 1)
    · rw [dataOf_cons, dataOf_cons]
      split
      · exact fun h => absurd h (by decide)
      · next h₁ =>
        split
        · exact fun h => absurd h (Nat.not_succ_le_self 1)
        · next h₂ => exact fun _ => ⟨c₁, c₂, rest, rfl, h₁, h₂⟩
  · rintro ⟨c₁, c₂, rest, rfl, h₁, h₂⟩
    rw [dataOf_cons, if_neg h₁, dataOf_cons, if_neg h₂, List.length_cons, List.length_cons]
    omega

section WholeBytes

variable (c₁ c₂ c₃ c₄ : UInt8)

/-- A byte does not depend on what is above its eight bits. -/
lemma ofNat_congr {m n : ℕ} (h : m % 256 = n % 256) : UInt8.ofNat m = UInt8.ofNat n :=
  UInt8.toNat_inj.1 (by rw [UInt8.toNat_ofNat', UInt8.toNat_ofNat']; exact h)

lemma wholeBytes_two :
    wholeBytes [c₁, c₂] = [UInt8.ofNat (codes.idxOf c₁ * 4 + codes.idxOf c₂ / 16)] := by
  refine congrArg (fun b => [b]) (ofNat_congr ?_)
  simp only [List.foldl_cons, List.foldl_nil, List.length_cons, List.length_nil]
  omega

lemma wholeBytes_three (h₃ : codes.idxOf c₃ < 64) :
    wholeBytes [c₁, c₂, c₃] = [UInt8.ofNat (codes.idxOf c₁ * 4 + codes.idxOf c₂ / 16),
      UInt8.ofNat (codes.idxOf c₂ % 16 * 16 + codes.idxOf c₃ / 4)] := by
  refine congrArg₂ (fun b c => [b, c]) (ofNat_congr ?_) (ofNat_congr ?_) <;>
    simp only [List.foldl_cons, List.foldl_nil, List.length_cons, List.length_nil] <;> omega

lemma wholeBytes_four (h₃ : codes.idxOf c₃ < 64) (h₄ : codes.idxOf c₄ < 64) :
    wholeBytes [c₁, c₂, c₃, c₄] = [UInt8.ofNat (codes.idxOf c₁ * 4 + codes.idxOf c₂ / 16),
      UInt8.ofNat (codes.idxOf c₂ % 16 * 16 + codes.idxOf c₃ / 4),
      UInt8.ofNat (codes.idxOf c₃ % 4 * 64 + codes.idxOf c₄)] := by
  refine congrArg₂ List.cons (ofNat_congr ?_) (congrArg₂ (fun b c => [b, c]) (ofNat_congr ?_) (ofNat_congr ?_)) <;>
    simp only [List.foldl_cons, List.foldl_nil, List.length_cons, List.length_nil] <;> omega

end WholeBytes

/-- **An accepted group gives the whole bytes of its digits.** -/
lemma readGroupOf_of_readable {g : List UInt8} (hg : ReadableGroup g) (hlength : g.length ≤ 4) :
    readGroupOf g = .ok (wholeBytes (dataOf g)) := by
  obtain ⟨hmem, hdata⟩ := hg
  obtain ⟨c₁, c₂, rest, rfl, hc₁, hc₂⟩ := two_le_dataOf_iff.1 hdata
  have hvalue {c : UInt8} (hc : c ∈ c₁ :: c₂ :: rest) : valueOf (some c) = .ok (codes.idxOf c) :=
    valueOf_of_mem (hmem c hc)
  have hlt {c : UInt8} (hc : c ∈ c₁ :: c₂ :: rest) (hne : c ≠ paddingByte) : codes.idxOf c < 64 :=
    idxOf_lt (hmem c hc) hne
  have hpadding {c : UInt8} (hc : c = paddingByte) : codes.idxOf c = 64 := by
    rw [hc]
    exact idxOf_padding
  have hmissing : valueOf none = .ok 64 := rfl
  have hread {o₃ o₄ : Option UInt8} {c d : ℕ} (h₃ : valueOf o₃ = .ok c) (h₄ : valueOf o₄ = .ok d) :
      readGroup (some c₁) (some c₂) o₃ o₄ = .ok (groupBytes (codes.idxOf c₁) (codes.idxOf c₂) c d) :=
    readGroup_of_values (hvalue (by simp)) (hvalue (by simp)) h₃ h₄ (hlt (by simp) hc₁).ne (hlt (by simp) hc₂).ne
  rw [dataOf_cons, if_neg hc₁, dataOf_cons, if_neg hc₂]
  rcases rest with _ | ⟨c₃, _ | ⟨c₄, rest⟩⟩
  · rw [dataOf, List.takeWhile_nil, wholeBytes_two]
    exact hread hmissing hmissing
  · refine (hread (hvalue (c := c₃) (by simp)) hmissing).trans ?_
    rw [groupBytes, dataOf_cons]
    by_cases hc₃ : c₃ = paddingByte
    · rw [if_pos hc₃, wholeBytes_two, if_pos (hpadding hc₃)]
    · have hlt₃ := hlt (by simp) hc₃
      rw [if_neg hc₃, dataOf, List.takeWhile_nil, wholeBytes_three c₁ c₂ c₃ hlt₃, if_neg hlt₃.ne, if_pos rfl]
  · obtain rfl : rest = [] := List.eq_nil_of_length_eq_zero (by simp only [List.length_cons] at hlength; omega)
    refine (hread (hvalue (c := c₃) (by simp)) (hvalue (c := c₄) (by simp))).trans ?_
    rw [groupBytes, dataOf_cons]
    by_cases hc₃ : c₃ = paddingByte
    · rw [if_pos hc₃, wholeBytes_two, if_pos (hpadding hc₃)]
    have hlt₃ := hlt (by simp) hc₃
    rw [if_neg hc₃, if_neg hlt₃.ne, dataOf_cons]
    by_cases hc₄ : c₄ = paddingByte
    · rw [if_pos hc₄, wholeBytes_three c₁ c₂ c₃ hlt₃, if_pos (hpadding hc₄)]
    · have hlt₄ := hlt (by simp) hc₄
      rw [if_neg hc₄, if_neg hlt₄.ne, dataOf, List.takeWhile_nil, wholeBytes_four c₁ c₂ c₃ c₄ hlt₃ hlt₄]

/-- A place in a group has a value, or there is something to be said of it. -/
lemma value_or_fault (g : List UInt8) (i : ℕ) :
    (∃ n, valueOf g[i]? = .ok n) ∨ ∃ message, valueOf g[i]? = .error message ∧ IsFault g message := by
  rcases hi : g[i]? with _ | c
  · exact .inl ⟨64, rfl⟩
  · by_cases hc : c ∈ codes
    · exact .inl ⟨_, valueOf_of_mem hc⟩
    · exact .inr ⟨_, if_neg hc, .character (List.mem_of_getElem? hi) hc⟩

/-- If all places in a group have values, its characters are of the alphabet. -/
lemma mem_codes_of_values {g : List UInt8} (hlength : g.length ≤ 4) (h : ∀ i < 4, ∃ n, valueOf g[i]? = .ok n) :
    ∀ c ∈ g, c ∈ codes := by
  intro c hc
  obtain ⟨i, hi, hget⟩ := List.getElem_of_mem hc
  obtain ⟨n, hn⟩ := h i (by omega)
  rw [List.getElem?_eq_some_iff.2 ⟨hi, hget⟩, valueOf] at hn
  split at hn
  · assumption
  · cases hn

/-- If there are not two digits in front of a group, the first or the second value is that of padding. -/
lemma value_eq_padding {g : List UInt8} {a b : ℕ} (ha : valueOf g[0]? = .ok a) (hb : valueOf g[1]? = .ok b)
    (hdata : ¬2 ≤ (dataOf g).length) : a = 64 ∨ b = 64 := by
  have hpadding {c : UInt8} {n : ℕ} (hc : c = paddingByte) (h : valueOf (some c) = .ok n) : n = 64 := by
    rw [hc, valueOf_padding] at h
    exact (Except.ok.inj h).symm
  have hmissing {n : ℕ} (h : valueOf none = .ok n) : n = 64 := (Except.ok.inj h).symm
  rw [two_le_dataOf_iff] at hdata
  rcases g with _ | ⟨c₁, _ | ⟨c₂, rest⟩⟩
  · exact .inl (hmissing ha)
  · exact .inr (hmissing hb)
  · by_cases hc₁ : c₁ = paddingByte
    · exact .inl (hpadding hc₁ ha)
    · by_cases hc₂ : c₂ = paddingByte
      · exact .inr (hpadding hc₂ hb)
      · exact absurd ⟨c₁, c₂, rest, rfl, hc₁, hc₂⟩ hdata

/-- **What is said of a group that is not accepted.** -/
lemma exists_fault_of_group {g : List UInt8} (hg : ¬ReadableGroup g) (hlength : g.length ≤ 4) :
    ∃ message, readGroupOf g = .error message ∧ IsFault g message := by
  rw [readGroupOf, readGroup]
  rcases value_or_fault g 0 with ⟨a, ha⟩ | ⟨message, h, hfault⟩
  case inr => exact ⟨message, by rw [h]; rfl, hfault⟩
  rcases value_or_fault g 1 with ⟨b, hb⟩ | ⟨message, h, hfault⟩
  case inr => exact ⟨message, by rw [ha, h]; rfl, hfault⟩
  rcases value_or_fault g 2 with ⟨c, hc⟩ | ⟨message, h, hfault⟩
  case inr => exact ⟨message, by rw [ha, hb, h]; rfl, hfault⟩
  rcases value_or_fault g 3 with ⟨d, hd⟩ | ⟨message, h, hfault⟩
  case inr => exact ⟨message, by rw [ha, hb, hc, h]; rfl, hfault⟩
  have hmem : ∀ c ∈ g, c ∈ codes := by
    refine mem_codes_of_values hlength fun i hi => ?_
    obtain rfl | rfl | rfl | rfl : i = 0 ∨ i = 1 ∨ i = 2 ∨ i = 3 := by omega
    · exact ⟨a, ha⟩
    · exact ⟨b, hb⟩
    · exact ⟨c, hc⟩
    · exact ⟨d, hd⟩
  have hvalues := value_eq_padding ha hb fun hdata => hg ⟨hmem, hdata⟩
  refine ⟨_, ?_, .padding⟩
  rw [ha, hb, hc, hd]
  simp only [bind, Except.bind, if_pos hvalues]
  rfl

/-! ## Texts -/

/-- **An accepted text gives the whole bytes of its groups.** -/
theorem readText_of_readable {s : List UInt8} (hs : Readable s) : readText s = .ok (contents s) := by
  have hgroup {g : List UInt8} (hg : g ∈ groups s) : readGroupOf g = .ok (wholeBytes (dataOf g)) :=
    readGroupOf_of_readable (hs g hg) (length_le_of_mem_groups hg)
  unfold Readable contents at *
  fun_induction groups s with
  | case1 => rfl
  | case2 | case3 | case4 =>
    refine (hgroup (List.mem_singleton_self _)).trans ?_
    rw [List.flatMap_singleton]
  | case5 a b c d rest ih =>
    obtain ⟨-, hrest⟩ := List.forall_mem_cons.1 hs
    rw [List.flatMap_cons]
    exact readText_cons (hgroup List.mem_cons_self) (ih hrest fun hg => hgroup (List.mem_cons_of_mem _ hg))

/-- **What is said of a text that is not accepted.** -/
theorem exists_fault {s : List UInt8} (hs : ¬Readable s) :
    ∃ message, readText s = .error message ∧ IsFault s message := by
  have hsingle {g : List UInt8} (hg : ¬∀ g' ∈ [g], ReadableGroup g') (hlength : g.length ≤ 4) :
      ∃ message, readGroupOf g = .error message ∧ IsFault g message :=
    exists_fault_of_group (fun h => hg (by simpa only [List.mem_singleton, forall_eq] using h)) hlength
  unfold Readable at hs
  fun_induction groups s with
  | case1 => exact absurd nofun hs
  | case2 | case3 | case4 => exact hsingle hs (Nat.le_of_ble_eq_true rfl)
  | case5 a b c d rest ih =>
    by_cases hg : ReadableGroup [a, b, c, d]
    · have hgroup : readGroup (some a) (some b) (some c) (some d) = _ := readGroupOf_of_readable hg le_rfl
      obtain ⟨message, hmessage, hfault⟩ := ih fun h => hs (List.forall_mem_cons.2 ⟨hg, h⟩)
      refine ⟨message, ?_, hfault.mono fun x hx => ?_⟩
      · rw [readText, hgroup, hmessage]
        rfl
      · simp only [List.mem_cons, hx, or_true]
    · obtain ⟨message, hmessage, hfault⟩ := exists_fault_of_group hg le_rfl
      have hgroup : readGroup (some a) (some b) (some c) (some d) = .error message := hmessage
      refine ⟨message, ?_, hfault.mono (List.subset_append_left [a, b, c, d] rest)⟩
      rw [readText, hgroup]
      rfl

/-! ## Texts with padding as it should be -/

/-- The digits in front of padding characters. -/
lemma dataOf_append {data : List UInt8} (hdata : ∀ c ∈ data, c ∈ codes.take 64) (padding : ℕ) :
    dataOf (data ++ List.replicate padding paddingByte) = data := by
  have hne : ∀ c ∈ data, decide (c ≠ paddingByte) = true := fun c hc =>
    decide_eq_true fun heq => padding_notMem (heq ▸ hdata c hc)
  have hnone : ¬decide (paddingByte ≠ paddingByte) = true := by decide
  rw [dataOf, List.takeWhile_append_of_pos hne, List.takeWhile_replicate, if_neg hnone, List.append_nil]

lemma mem_of_mem_groups {s g : List UInt8} (hg : g ∈ groups s) {c : UInt8} (hc : c ∈ g) : c ∈ s :=
  flatten_groups s ▸ List.mem_flatten.2 ⟨g, hg, hc⟩

/-- The digits of an accepted group of which none is passed over have padding characters behind them only. -/
lemma ReadableGroup.exists_padding {g : List UInt8} (hg : ReadableGroup g) (hlength : g.length ≤ 4)
    (hskip : ¬SkipsDigit g) : ∃ data padding, g = data ++ List.replicate padding paddingByte ∧ 2 ≤ data.length ∧
      ∀ c ∈ data, c ∈ codes.take 64 := by
  obtain ⟨hmem, hdata⟩ := hg
  obtain ⟨c₁, c₂, rest, rfl, hc₁, hc₂⟩ := two_le_dataOf_iff.1 hdata
  have hdigit {c : UInt8} (hc : c ∈ c₁ :: c₂ :: rest) (hne : c ≠ paddingByte) : c ∈ codes.take 64 :=
    (mem_digits_iff c (hmem c hc)).2 hne
  have h₁ := hdigit (by simp) hc₁
  have h₂ := hdigit (by simp) hc₂
  rcases rest with _ | ⟨c₃, _ | ⟨c₄, rest⟩⟩
  · exact ⟨[c₁, c₂], 0, rfl, le_rfl, by simp [h₁, h₂]⟩
  · by_cases hc₃ : c₃ = paddingByte
    · exact ⟨[c₁, c₂], 1, by rw [hc₃]; rfl, le_rfl, by simp [h₁, h₂]⟩
    · exact ⟨[c₁, c₂, c₃], 0, rfl, by simp, by simp [h₁, h₂, hdigit (c := c₃) (by simp) hc₃]⟩
  · obtain rfl : rest = [] := List.eq_nil_of_length_eq_zero (by simp only [List.length_cons] at hlength; omega)
    by_cases hc₃ : c₃ = paddingByte <;> by_cases hc₄ : c₄ = paddingByte
    · exact ⟨[c₁, c₂], 2, by rw [hc₃, hc₄]; rfl, le_rfl, by simp [h₁, h₂]⟩
    · exact absurd ⟨c₁, c₂, c₄, by rw [hc₃], by simp [h₁, h₂, hdigit (c := c₄) (by simp) hc₄]⟩ hskip
    · exact ⟨[c₁, c₂, c₃], 1, by rw [hc₄]; rfl, by simp, by simp [h₁, h₂, hdigit (c := c₃) (by simp) hc₃]⟩
    · exact ⟨[c₁, c₂, c₃, c₄], 0, rfl, by simp,
        by simp [h₁, h₂, hdigit (c := c₃) (by simp) hc₃, hdigit (c := c₄) (by simp) hc₄]⟩

/-- A group of which a digit is passed over does not have its padding as it should be. -/
lemma SkipsDigit.not_wellPadded {s g : List UInt8} (h : SkipsDigit g) (hg : g ∈ groups s) : ¬WellPadded s := by
  rintro ⟨-, hgroups⟩
  obtain ⟨a, b, d, rfl, hdigits⟩ := h
  obtain ⟨data, padding, heq, -, hdata⟩ := hgroups _ hg
  have hne {c : UInt8} (hc : c ∈ [a, b, d]) : c ≠ paddingByte := fun h => padding_notMem (h ▸ hdigits c hc)
  -- the digits are the first two characters, and the last one is no padding
  have hfirst : dataOf [a, b, paddingByte, d] = [a, b] := by
    rw [dataOf_cons, if_neg (hne (by simp)), dataOf_cons, if_neg (hne (by simp)), dataOf_cons, if_pos rfl]
  rw [heq, dataOf_append hdata] at hfirst
  subst hfirst
  have hrest : [paddingByte, d] = List.replicate padding paddingByte := @List.append_cancel_left _ [a, b] _ _ heq
  have hd : d ∈ List.replicate padding paddingByte := by
    rw [← hrest]
    exact List.mem_cons_of_mem _ (List.mem_singleton_self d)
  exact hne (by simp) (List.eq_of_mem_replicate hd)

/-- **Where no digit is passed over**, the texts that are accepted are those with padding as it should be. -/
theorem wellPadded_iff {s : List UInt8} (hskip : ∀ g ∈ groups s, ¬SkipsDigit g) : WellPadded s ↔ Readable s := by
  constructor
  · rintro ⟨hmem, hgroups⟩ g hg
    obtain ⟨data, padding, rfl, hlength, hdata⟩ := hgroups g hg
    exact ⟨fun c hc => hmem c (mem_of_mem_groups hg hc), by rwa [dataOf_append hdata]⟩
  · intro hs
    refine ⟨fun c hc => ?_, fun g hg => (hs g hg).exists_padding (length_le_of_mem_groups hg) (hskip g hg)⟩
    rw [← flatten_groups s] at hc
    obtain ⟨g, hg, hc⟩ := List.mem_flatten.1 hc
    exact (hs g hg).characters c hc

/-! ## The decoder -/

section Decoder

open Routine

variable {σ : Type} {enter : HostProgram σ → MachineM σ Nat} {m n : Machine σ} {encoder decoder table : Value}

/-- **A text is decoded** if it is accepted, to the whole bytes of its groups, and the decoder fails with what is
said of it otherwise. Nothing is left in the frame. -/
structure Decodes (accepted : Prop) (levels : ℕ) (decoder : Value) (m : Machine σ) (s : List UInt8) :
    Prop where
  success : accepted → ∃ t, answer levels decoder s m = (.ok (some (contents s)), m.withState t) ∧
    t.view = m.state.view
  failure : ¬accepted → ∃ message t, IsFault s message ∧ t.view = m.state.view ∧
    answer levels decoder s m = (.error (.custom ("base64.decode: " ++ message)), m.withState t)

/-- **What the decoder answers**, for every text. -/
theorem Installed.decodes_readable (h : Installed encoder decoder m) (hs : m.state.Sound) (hroom : HasRoom 2 m)
    (levels : ℕ) (s : List UInt8) : Decodes (Readable s) levels decoder m s := by
  refine ⟨fun hread => ?_, fun hread => ?_⟩
  · obtain ⟨t, hanswer, hb⟩ := h.answer_decode hs hroom levels (readText_of_readable hread)
    exact ⟨t, hanswer, hb.view⟩
  · obtain ⟨message, hmessage, hfault⟩ := exists_fault hread
    obtain ⟨t, hanswer, hb⟩ := h.answer_decode_error hs hroom levels hmessage
    exact ⟨message, t, hfault, hb.view, hanswer⟩

/-- **The decoder behind an opening of the library**, as long as what its functions have captured is not touched,
there is no dangling handle, and there is room for a call: a text is decoded if and only if every group of it begins
with two digits and has characters of the alphabet only. The decoder fails with one of two errors otherwise, and
never since a byte is out of range. Where no digit is passed over, a text is decoded if and only if its padding is as
it should be.

**Proof sketch.** The values of the characters have six bits, so that the bytes made of them are in range. A group is
accepted if it begins with two digits. If no digit is behind a padding character, this is a group of digits with
padding behind them. -/
theorem decodes_of_opened (hm : Prepared 10 m) (hopen : Ends enter openLibrary m (.ok table) n) :
    ∃ encoder decoder, State.field table "encode" n.state = (.ok encoder, n.state) ∧
      State.field table "decode" n.state = (.ok decoder, n.state) ∧
      ∀ k : Machine σ, Untouched [encoder, decoder] n k → k.state.Sound → HasRoom 2 k →
        ∀ (levels : ℕ) (s : List UInt8), Decodes (Readable s) levels decoder k s ∧
          ((∀ g ∈ groups s, ¬SkipsDigit g) → Decodes (WellPadded s) levels decoder k s) := by
  obtain ⟨encoder, decoder, ho⟩ := exists_opened (r := 0) hm hopen
  refine ⟨encoder, decoder, ho.encode, ho.decode, fun k hu hs hroom levels s => ?_⟩
  have hdecodes := (ho.installed.untouched hu).decodes_readable hs hroom levels s
  refine ⟨hdecodes, fun hskip => ?_⟩
  rwa [← wellPadded_iff hskip] at hdecodes

/-- Two groups with padding are decoded on a new machine. -/
theorem decodes_of_opened_new : ∃ (table : Value) (n : Machine Unit) (encoder decoder : Value),
    Prepared 10 (Machine.new ()) ∧ Ends (HostProgram.runWithin 1) openLibrary (Machine.new ()) (.ok table) n ∧
      State.field table "decode" n.state = (.ok decoder, n.state) ∧
      (Untouched [encoder, decoder] n n ∧ n.state.Sound ∧ HasRoom 2 n) ∧
      (∀ g ∈ groups [0x51, 0x55, 0x49, 0x3d, 0x51, 0x51, 0x3d, 0x3d], ¬SkipsDigit g) ∧
      Decodes (WellPadded [0x51, 0x55, 0x49, 0x3d, 0x51, 0x51, 0x3d, 0x3d]) 1 decoder n
        [0x51, 0x55, 0x49, 0x3d, 0x51, 0x51, 0x3d, 0x3d] := by
  have hm : Prepared 10 (Machine.new ()) := prepared_new () (by decide)
  obtain ⟨table, n, hopen, ⟨_, _, ho⟩, hroom⟩ := exists_opened_new ()
  obtain ⟨encoder, decoder, -, hdecoder, hdecodes⟩ := decodes_of_opened hm hopen
  have huntouched := Untouched.refl [encoder, decoder] n
  have hroom : HasRoom 2 n := hroom.mono (by decide)
  have hskip : ∀ g ∈ groups [0x51, 0x55, 0x49, 0x3d, 0x51, 0x51, 0x3d, 0x3d], ¬SkipsDigit g := by
    rintro g hg ⟨a, b, d, rfl, hdigits⟩
    have hd := hdigits d (by simp)
    simp only [groups, List.mem_cons, List.cons.injEq, List.not_mem_nil, or_false] at hg
    rcases hg with ⟨-, -, h, -⟩ | ⟨-, -, -, rfl, -⟩
    · exact absurd h (by decide)
    · exact absurd hd (by decide +kernel)
  exact ⟨table, n, encoder, decoder, hm, hopen, hdecoder, ⟨huntouched, ho.sound, hroom⟩, hskip,
    (hdecodes n huntouched ho.sound hroom 1 _).2 hskip⟩

/-- **A digit is passed over**: on a new machine the decoder accepts a group with a digit behind its padding, as if
there were padding in its place. -/
theorem decode_passes_over_digit : ∃ (table : Value) (n : Machine Unit) (decoder : Value),
    Ends (HostProgram.runWithin 1) openLibrary (Machine.new ()) (.ok table) n ∧
      State.field table "decode" n.state = (.ok decoder, n.state) ∧ n.state.Sound ∧ HasRoom 4 n ∧
      ¬WellPadded [0x51, 0x51, 0x3d, 0x51] ∧
      ∃ t, answer 1 decoder [0x51, 0x51, 0x3d, 0x51] n = (.ok (some [0x41]), n.withState t) := by
  obtain ⟨table, n, hopen, ⟨encoder, decoder, ho⟩, hroom⟩ := exists_opened_new ()
  have hskip : SkipsDigit [0x51, 0x51, 0x3d, 0x51] := ⟨0x51, 0x51, 0x51, rfl, by decide +kernel⟩
  have hread : Readable [0x51, 0x51, 0x3d, 0x51] := by
    intro g hg
    obtain rfl := List.mem_singleton.1 hg
    exact ⟨by decide +kernel, by decide⟩
  have hcontents : contents [0x51, 0x51, 0x3d, 0x51] = [0x41] := by decide +kernel
  obtain ⟨t, hanswer, -⟩ := (ho.installed.decodes_readable ho.sound (hroom.mono (by decide)) 1 _).success hread
  rw [hcontents] at hanswer
  exact ⟨table, n, decoder, hopen, ho.decode, ho.sound, hroom, hskip.not_wellPadded (List.mem_singleton_self _), t,
    hanswer⟩

end Decoder

end Base64

end ScriptCore
