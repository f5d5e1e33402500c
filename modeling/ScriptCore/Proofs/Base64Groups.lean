import Mathlib
import ScriptCore.Library.Base64
import ScriptCore.Proofs.Shifts

set_option relaxedAutoImplicit false
set_option autoImplicit false

/-!
# The text of bytes in base 64

The text of bytes is told here by numbers: three bytes are a number of 24 bits, which has four digits of six bits.
The encoder makes the digits by shifting and masking words, and comes to the same text. What the decoder reads is
told by the values of the characters of a group. It reads the text of bytes as these bytes.

## Main definitions

* `ScriptCore.Base64.standardText` — the text of bytes.
* `ScriptCore.Base64.readText` — what the decoder reads in a text.

## Main results

* `ScriptCore.Base64.encodeBytes_eq` — the encoder writes the standard text.
* `ScriptCore.Base64.length_standardText`, `ScriptCore.Base64.exists_standardText_eq` — the shape of the text.
* `ScriptCore.Base64.readText_of_standardText` — the text is read as the bytes it is the text of.
-/

namespace ScriptCore.Base64

open Bit32

/-! ## The standard text -/

/-- The character of six bits: letters, digits, plus and slash. -/
def digit (n : ℕ) : UInt8 :=
  if n < 26 then UInt8.ofNat (0x41 + n)
  else if n < 52 then UInt8.ofNat (0x61 + (n - 26))
  else if n < 62 then UInt8.ofNat (0x30 + (n - 52))
  else if n = 62 then 0x2b
  else 0x2f

/-- **The standard text of bytes**: three of them are a number of four digits. One or two bytes at the end are
filled up with zero bits to whole digits, and their text with the padding character to four characters. -/
def standardText : List UInt8 → List UInt8
  | [] => []
  | [a] =>
    let n := a.toNat * 16
    [digit (n / 64), digit (n % 64), paddingByte, paddingByte]
  | [a, b] =>
    let n := (a.toNat * 256 + b.toNat) * 4
    [digit (n / 4096), digit (n / 64 % 64), digit (n % 64), paddingByte]
  | a :: b :: c :: rest =>
    let n := (a.toNat * 256 + b.toNat) * 256 + c.toNat
    digit (n / 262144) :: digit (n / 4096 % 64) :: digit (n / 64 % 64) :: digit (n % 64) :: standardText rest

/-! ## Words -/

lemma toInt_amount {i : ℕ} (h : i < 32) : (Int64.ofInt i).toInt = i :=
  Int64.toInt_ofInt_of_le (by omega) (by omega)

lemma toNat_rshift (r : UInt32) {i : ℕ} (h : i < 32) : (rshift r i).toNat = r.toNat / 2 ^ i := by
  obtain ⟨w, hw, hval⟩ := Option.map_eq_some_iff.mp (map_toNat_rshift? r (Int64.ofInt i))
  rw [rshift, hw, Option.getD_some, hval, toInt_amount h, shifted_of_nonpos r.toNat_lt (by omega), Int.neg_neg,
    Int.toNat_natCast]

lemma toNat_lshift (r : UInt32) {i : ℕ} (h : i < 32) : (lshift r i).toNat = r.toNat * 2 ^ i % 2 ^ 32 := by
  obtain ⟨w, hw, hval⟩ := Option.map_eq_some_iff.mp (map_toNat_shift? r (Int64.ofInt i))
  rw [lshift, lshift?, hw, Option.getD_some, hval, toInt_amount h, shifted_of_nonneg _ (by omega), Int.toNat_natCast]

/-- Words without a common bit are joined by adding them. -/
lemma toNat_or {r s : UInt32} {i k : ℕ} (hr : r.toNat = k * 2 ^ i) (hs : s.toNat < 2 ^ i) :
    (r ||| s).toNat = k * 2 ^ i + s.toNat := by
  rw [UInt32.toNat_or, hr, Nat.mul_comm, ← Nat.two_pow_add_eq_or_of_lt hs]

/-- The lower bits of a word. -/
lemma toNat_and (r s : UInt32) {i : ℕ} (hs : s.toNat = 2 ^ i - 1) : (r &&& s).toNat = r.toNat % 2 ^ i := by
  rw [UInt32.toNat_and, hs, Nat.and_two_pow_sub_one_eq_mod]

/-- The lower bits of a word, moved up. -/
lemma toNat_lshift_and (r : UInt32) {mask : UInt32} {k i : ℕ} (hmask : mask.toNat = 2 ^ k - 1)
    (hk : k + i < 32) : (lshift (r &&& mask) i).toNat = r.toNat % 2 ^ k * 2 ^ i := by
  rw [toNat_lshift _ (by omega), toNat_and _ _ hmask]
  refine Nat.mod_eq_of_lt ?_
  calc r.toNat % 2 ^ k * 2 ^ i < 2 ^ k * 2 ^ i :=
        Nat.mul_lt_mul_of_pos_right (Nat.mod_lt _ (Nat.two_pow_pos k)) (Nat.two_pow_pos i)
    _ = 2 ^ (k + i) := (Nat.pow_add 2 k i).symm
    _ ≤ 2 ^ 32 := Nat.pow_le_pow_right (by decide) hk.le

/-! ## Encoding -/

/-- The bytes of the alphabet. -/
def codes : List UInt8 := Text.bytes alphabet

lemma length_codes : codes.length = 65 := by decide +kernel

lemma codes_nodup : codes.Nodup := by decide +kernel

lemma codes_getElem? : ∀ n < 64, codes.toArray[n]? = some (digit n) := by
  decide +kernel

lemma codeAt_eq {p : UInt32} {n : ℕ} (hp : p.toNat = n) (h : n < 64) :
    codeAt codes.toArray p = .ok (digit n) := by
  rw [codeAt, hp, codes_getElem? n h]

section

variable (a b c : UInt8)

lemma code_first : codeAt codes.toArray (rshift a.toUInt32 2) = .ok (digit (a.toNat / 4)) := by
  have ha := a.toNat_lt
  exact codeAt_eq (toNat_rshift a.toUInt32 (show 2 < 32 by decide)) (by omega)

lemma code_second :
    codeAt codes.toArray (lshift (a.toUInt32 &&& 3) 4 ||| rshift b.toUInt32 4) =
      .ok (digit (a.toNat % 4 * 16 + b.toNat / 16)) := by
  have hb := b.toNat_lt
  have hleft : (lshift (a.toUInt32 &&& 3) 4).toNat = a.toNat % 4 * 2 ^ 4 :=
    toNat_lshift_and a.toUInt32 (k := 2) (i := 4) rfl (by decide)
  have hright : (rshift b.toUInt32 4).toNat = b.toNat / 16 :=
    toNat_rshift b.toUInt32 (show 4 < 32 by decide)
  refine codeAt_eq ?_ (by omega)
  rw [toNat_or hleft (by omega), hright]
  rfl

lemma code_second_last :
    codeAt codes.toArray (lshift (a.toUInt32 &&& 3) 4 ||| 0) = .ok (digit (a.toNat % 4 * 16)) := by
  have hleft : (lshift (a.toUInt32 &&& 3) 4).toNat = a.toNat % 4 * 2 ^ 4 :=
    toNat_lshift_and a.toUInt32 (k := 2) (i := 4) rfl (by decide)
  refine codeAt_eq ?_ (by omega)
  rw [toNat_or hleft (by decide)]
  rfl

lemma code_third :
    codeAt codes.toArray (lshift (b.toUInt32 &&& 15) 2 ||| rshift c.toUInt32 6) =
      .ok (digit (b.toNat % 16 * 4 + c.toNat / 64)) := by
  have hc := c.toNat_lt
  have hleft : (lshift (b.toUInt32 &&& 15) 2).toNat = b.toNat % 16 * 2 ^ 2 :=
    toNat_lshift_and b.toUInt32 (k := 4) (i := 2) rfl (by decide)
  have hright : (rshift c.toUInt32 6).toNat = c.toNat / 64 :=
    toNat_rshift c.toUInt32 (show 6 < 32 by decide)
  refine codeAt_eq ?_ (by omega)
  rw [toNat_or hleft (by omega), hright]
  rfl

lemma code_third_last :
    codeAt codes.toArray (lshift (b.toUInt32 &&& 15) 2 ||| 0) = .ok (digit (b.toNat % 16 * 4)) := by
  have hleft : (lshift (b.toUInt32 &&& 15) 2).toNat = b.toNat % 16 * 2 ^ 2 :=
    toNat_lshift_and b.toUInt32 (k := 4) (i := 2) rfl (by decide)
  refine codeAt_eq ?_ (by omega)
  rw [toNat_or hleft (by decide)]
  rfl

lemma code_fourth : codeAt codes.toArray (c.toUInt32 &&& 63) = .ok (digit (c.toNat % 64)) :=
  codeAt_eq (toNat_and c.toUInt32 63 (i := 6) rfl) (by omega)

/-- The characters of three bytes. -/
lemma encodeGroup_three : encodeGroup codes.toArray a (some b) (some c) =
    .ok [digit (a.toNat / 4), digit (a.toNat % 4 * 16 + b.toNat / 16),
      digit (b.toNat % 16 * 4 + c.toNat / 64), digit (c.toNat % 64)] := by
  simp only [encodeGroup, Option.map_some, Option.getD_some, code_first, code_second, code_third, code_fourth]
  rfl

/-- The characters of two bytes. -/
lemma encodeGroup_two : encodeGroup codes.toArray a (some b) none =
    .ok [digit (a.toNat / 4), digit (a.toNat % 4 * 16 + b.toNat / 16), digit (b.toNat % 16 * 4),
      paddingByte] := by
  simp only [encodeGroup, Option.map_some, Option.map_none, Option.getD_some, Option.getD_none, code_first,
    code_second, code_third_last]
  rfl

/-- The characters of one byte. -/
lemma encodeGroup_one : encodeGroup codes.toArray a none none =
    .ok [digit (a.toNat / 4), digit (a.toNat % 4 * 16), paddingByte, paddingByte] := by
  simp only [encodeGroup, Option.map_none, Option.getD_none, code_first, code_second_last]
  rfl

end

/-- **The encoder writes the standard text.** -/
theorem encodeBytes_eq (x : List UInt8) : encodeBytes codes.toArray x = .ok (standardText x) := by
  fun_induction standardText x with
  | case1 => rfl
  | case2 a n =>
    have h1 : n / 64 = a.toNat / 4 := by omega
    have h2 : n % 64 = a.toNat % 4 * 16 := by omega
    rw [encodeBytes, encodeGroup_one, h1, h2]
  | case3 a b n =>
    have hb := b.toNat_lt
    have h1 : n / 4096 = a.toNat / 4 := by omega
    have h2 : n / 64 % 64 = a.toNat % 4 * 16 + b.toNat / 16 := by omega
    have h3 : n % 64 = b.toNat % 16 * 4 := by omega
    rw [encodeBytes, encodeGroup_two, h1, h2, h3]
  | case4 a b c rest n ih =>
    have hb := b.toNat_lt
    have hc := c.toNat_lt
    have h1 : n / 262144 = a.toNat / 4 := by omega
    have h2 : n / 4096 % 64 = a.toNat % 4 * 16 + b.toNat / 16 := by omega
    have h3 : n / 64 % 64 = b.toNat % 16 * 4 + c.toNat / 64 := by omega
    have h4 : n % 64 = c.toNat % 64 := by omega
    rw [encodeBytes, encodeGroup_three, ih, h1, h2, h3, h4]
    rfl

example : standardText (Text.bytes "fo") = Text.bytes "Zm8=" := by decide +kernel

/-! ## The shape of the text -/

lemma digit_mem : ∀ n < 64, digit n ∈ codes.take 64 := by decide +kernel

lemma digit_ne_padding : ∀ n < 64, digit n ≠ paddingByte := by decide +kernel

/-- The number of padding characters behind the text of so many bytes. -/
def paddingCount (n : ℕ) : ℕ := (3 - n % 3) % 3

/-- **The text of bytes has four characters for every three of them**, rounded up. -/
lemma length_standardText (x : List UInt8) : (standardText x).length = 4 * ((x.length + 2) / 3) := by
  fun_induction standardText x with
  | case1 => rfl
  | case2 a n => simp
  | case3 a b n => simp
  | case4 a b c rest n ih =>
    simp only [List.length_cons, ih]
    omega

/-- **The text of bytes is made of characters of the alphabet**, and of one or two padding characters behind
them, unless the number of bytes is a multiple of three. -/
lemma exists_standardText_eq (x : List UInt8) :
    ∃ body, standardText x = body ++ List.replicate (paddingCount x.length) paddingByte ∧
      ∀ c ∈ body, c ∈ codes.take 64 := by
  fun_induction standardText x with
  | case1 => exact ⟨[], rfl, nofun⟩
  | case2 a n =>
    have ha := a.toNat_lt
    refine ⟨[digit (n / 64), digit (n % 64)], rfl, ?_⟩
    simp only [List.forall_mem_cons]
    exact ⟨digit_mem _ (by omega), digit_mem _ (by omega), nofun⟩
  | case3 a b n =>
    have ha := a.toNat_lt
    have hb := b.toNat_lt
    refine ⟨[digit (n / 4096), digit (n / 64 % 64), digit (n % 64)], rfl, ?_⟩
    simp only [List.forall_mem_cons]
    exact ⟨digit_mem _ (by omega), digit_mem _ (by omega), digit_mem _ (by omega), nofun⟩
  | case4 a b c rest n ih =>
    have ha := a.toNat_lt
    have hb := b.toNat_lt
    have hc := c.toNat_lt
    obtain ⟨body, htext, hbody⟩ := ih
    have hcount : paddingCount (a :: b :: c :: rest).length = paddingCount rest.length := by
      simp only [paddingCount, List.length_cons]
      omega
    refine ⟨digit (n / 262144) :: digit (n / 4096 % 64) :: digit (n / 64 % 64) :: digit (n % 64) :: body,
      ?_, ?_⟩
    · rw [htext, hcount]
      rfl
    · simp only [List.forall_mem_cons]
      exact ⟨digit_mem _ (by omega), digit_mem _ (by omega), digit_mem _ (by omega),
        digit_mem _ (by omega), hbody⟩

/-! ## Decoding -/

/-- The bytes of a group of four values of six bits; the value 64 stands for padding. -/
def groupBytes (a b c d : ℕ) : List UInt8 :=
  UInt8.ofNat (a * 4 + b / 16) ::
    if c = 64 then []
    else UInt8.ofNat (b % 16 * 16 + c / 4) :: if d = 64 then [] else [UInt8.ofNat (c % 4 * 64 + d)]

section

variable {r s t u : UInt32} {a b c d : ℕ}

lemma toNat_first (hr : r.toNat = a) (hs : s.toNat = b) (ha : a < 64) (hb : b < 64) :
    (lshift r 2 ||| rshift s 4).toNat = a * 4 + b / 16 := by
  have hleft : (lshift r 2).toNat = a * 2 ^ 2 :=
    (toNat_lshift r (show 2 < 32 by decide)).trans (by rw [hr]; omega)
  have hright : (rshift s 4).toNat = b / 16 :=
    (toNat_rshift s (show 4 < 32 by decide)).trans (by rw [hs]; rfl)
  rw [toNat_or hleft (by omega), hright]
  rfl

lemma toNat_second (hs : s.toNat = b) (ht : t.toNat = c) (hc : c < 64) :
    (lshift (s &&& 0xf) 4 ||| rshift t 2).toNat = b % 16 * 16 + c / 4 := by
  have hleft : (lshift (s &&& 0xf) 4).toNat = b % 16 * 2 ^ 4 := by
    rw [← hs]
    exact toNat_lshift_and s (k := 4) (i := 4) rfl (by decide)
  have hright : (rshift t 2).toNat = c / 4 :=
    (toNat_rshift t (show 2 < 32 by decide)).trans (by rw [ht]; rfl)
  rw [toNat_or hleft (by omega), hright]
  rfl

lemma toNat_third (ht : t.toNat = c) (hu : u.toNat = d) (hd : d < 64) :
    (lshift (t &&& 3) 6 ||| u).toNat = c % 4 * 64 + d := by
  have hleft : (lshift (t &&& 3) 6).toNat = c % 4 * 2 ^ 6 := by
    rw [← ht]
    exact toNat_lshift_and t (k := 2) (i := 6) rfl (by decide)
  rw [toNat_or hleft (by omega), hu]
  rfl

end

section

variable (a b c : UInt8)

lemma groupBytes_three :
    groupBytes (a.toNat / 4) (a.toNat % 4 * 16 + b.toNat / 16) (b.toNat % 16 * 4 + c.toNat / 64)
      (c.toNat % 64) = [a, b, c] := by
  have ha := a.toNat_lt
  have hb := b.toNat_lt
  have hc := c.toNat_lt
  have h1 : a.toNat / 4 * 4 + (a.toNat % 4 * 16 + b.toNat / 16) / 16 = a.toNat := by omega
  have h2 : (a.toNat % 4 * 16 + b.toNat / 16) % 16 * 16 + (b.toNat % 16 * 4 + c.toNat / 64) / 4 =
      b.toNat := by omega
  have h3 : (b.toNat % 16 * 4 + c.toNat / 64) % 4 * 64 + c.toNat % 64 = c.toNat := by omega
  rw [groupBytes, if_neg (by omega), if_neg (by omega), h1, h2, h3, UInt8.ofNat_toNat, UInt8.ofNat_toNat,
    UInt8.ofNat_toNat]

lemma groupBytes_two :
    groupBytes (a.toNat / 4) (a.toNat % 4 * 16 + b.toNat / 16) (b.toNat % 16 * 4) 64 = [a, b] := by
  have ha := a.toNat_lt
  have hb := b.toNat_lt
  have h1 : a.toNat / 4 * 4 + (a.toNat % 4 * 16 + b.toNat / 16) / 16 = a.toNat := by omega
  have h2 : (a.toNat % 4 * 16 + b.toNat / 16) % 16 * 16 + b.toNat % 16 * 4 / 4 = b.toNat := by omega
  rw [groupBytes, if_neg (by omega), if_pos rfl, h1, h2, UInt8.ofNat_toNat, UInt8.ofNat_toNat]

lemma groupBytes_one : groupBytes (a.toNat / 4) (a.toNat % 4 * 16) 64 64 = [a] := by
  have ha := a.toNat_lt
  have h1 : a.toNat / 4 * 4 + a.toNat % 4 * 16 / 16 = a.toNat := by omega
  rw [groupBytes, if_pos rfl, h1, UInt8.ofNat_toNat]

end

/-! ## What the decoder reads -/

/-- The value of six bits that a character stands for; 64 is that of padding, written or not. -/
def valueOf : Option UInt8 → Except String ℕ
  | none => .ok 64
  | some c =>
    if c ∈ codes then .ok (codes.idxOf c)
    else .error ("invalid character '" ++ (Char.ofNat c.toNat).toString ++ "'")

/-- What is read in a group of four characters. The first two of them are no padding. -/
def readGroup (c₁ c₂ c₃ c₄ : Option UInt8) : Except String (List UInt8) := do
  let a ← valueOf c₁
  let b ← valueOf c₂
  let c ← valueOf c₃
  let d ← valueOf c₄
  if a = 64 ∨ b = 64 then throw "invalid padding"
  return groupBytes a b c d

/-- **What is read in a text**, group by group, or what is said of the first group that cannot be read. -/
def readText : List UInt8 → Except String (List UInt8)
  | [] => .ok []
  | [a] => readGroup (some a) none none none
  | [a, b] => readGroup (some a) (some b) none none
  | [a, b, c] => readGroup (some a) (some b) (some c) none
  | a :: b :: c :: d :: rest => do
    let group ← readGroup (some a) (some b) (some c) (some d)
    return group ++ (← readText rest)

lemma valueOf_digit : ∀ n < 64, valueOf (some (digit n)) = .ok n := by decide +kernel

lemma valueOf_padding : valueOf (some paddingByte) = .ok 64 := by decide +kernel

lemma readGroup_of_values {c₁ c₂ c₃ c₄ : Option UInt8} {a b c d : ℕ} (h₁ : valueOf c₁ = .ok a)
    (h₂ : valueOf c₂ = .ok b) (h₃ : valueOf c₃ = .ok c) (h₄ : valueOf c₄ = .ok d) (ha : a ≠ 64) (hb : b ≠ 64) :
    readGroup c₁ c₂ c₃ c₄ = .ok (groupBytes a b c d) := by
  have hdata : ¬(a = 64 ∨ b = 64) := by simp only [ha, hb, or_self, not_false_eq_true]
  simp only [readGroup, h₁, h₂, h₃, h₄, hdata, Except.bind, bind, ↓reduceIte]
  rfl

lemma readText_cons {c₁ c₂ c₃ c₄ : UInt8} {y group x : List UInt8}
    (hgroup : readGroup (some c₁) (some c₂) (some c₃) (some c₄) = .ok group) (hrest : readText y = .ok x) :
    readText (c₁ :: c₂ :: c₃ :: c₄ :: y) = .ok (group ++ x) := by
  rw [readText, hgroup, hrest]
  rfl

/-- A digit is not among the padding characters that are left out. -/
lemma exists_of_cons_eq_append {n k : ℕ} {text y : List UInt8} (hn : n < 64)
    (h : digit n :: text = y ++ List.replicate k paddingByte) :
    ∃ y', y = digit n :: y' ∧ text = y' ++ List.replicate k paddingByte := by
  cases y with
  | nil =>
    have hmem : digit n ∈ List.replicate k paddingByte := by
      rw [← List.nil_append (List.replicate k paddingByte), ← h]
      exact List.mem_cons_self
    exact absurd (List.eq_of_mem_replicate hmem) (digit_ne_padding n hn)
  | cons c y' =>
    obtain ⟨rfl, htext⟩ := List.cons.inj h
    exact ⟨y', rfl, htext⟩

/-- **The standard text is read as the bytes it is the text of**, also without some of its padding.

**Proof sketch.** Induction on the groups. A digit is no padding, so that what is left out comes from the last
group, where the characters that are missing stand for padding too. -/
theorem readText_of_standardText (x : List UInt8) :
    ∀ (y : List UInt8) (k : ℕ), standardText x = y ++ List.replicate k paddingByte → readText y = .ok x := by
  fun_induction standardText x with
  | case1 =>
    intro y k h
    obtain ⟨rfl, -⟩ := List.append_eq_nil_iff.1 h.symm
    rfl
  | case2 a n =>
    intro y k h
    have ha := a.toNat_lt
    obtain ⟨y₁, rfl, h₁⟩ := exists_of_cons_eq_append (by omega) h
    obtain ⟨y₂, rfl, h₂⟩ := exists_of_cons_eq_append (by omega) h₁
    have hgroup {c d : Option UInt8} (hc : valueOf c = .ok 64) (hd : valueOf d = .ok 64) :
        readGroup (some (digit (n / 64))) (some (digit (n % 64))) c d = .ok [a] := by
      have h1 : n / 64 = a.toNat / 4 := by omega
      have h2 : n % 64 = a.toNat % 4 * 16 := by omega
      rw [← groupBytes_one a, h1, h2]
      exact readGroup_of_values (valueOf_digit _ (by omega)) (valueOf_digit _ (by omega)) hc hd (by omega) (by omega)
    rcases y₂ with _ | ⟨c, _ | ⟨d, y⟩⟩
    · exact hgroup rfl rfl
    · obtain ⟨rfl, -⟩ := List.cons.inj h₂
      exact hgroup valueOf_padding rfl
    · obtain ⟨rfl, h₃⟩ := List.cons.inj h₂
      obtain ⟨rfl, h₄⟩ := List.cons.inj h₃
      obtain ⟨rfl, -⟩ := List.append_eq_nil_iff.1 h₄.symm
      exact readText_cons (hgroup valueOf_padding valueOf_padding) rfl
  | case3 a b n =>
    intro y k h
    have ha := a.toNat_lt
    have hb := b.toNat_lt
    obtain ⟨y₁, rfl, h₁⟩ := exists_of_cons_eq_append (by omega) h
    obtain ⟨y₂, rfl, h₂⟩ := exists_of_cons_eq_append (by omega) h₁
    obtain ⟨y₃, rfl, h₃⟩ := exists_of_cons_eq_append (by omega) h₂
    have hgroup {d : Option UInt8} (hd : valueOf d = .ok 64) :
        readGroup (some (digit (n / 4096))) (some (digit (n / 64 % 64))) (some (digit (n % 64))) d = .ok [a, b] := by
      have h1 : n / 4096 = a.toNat / 4 := by omega
      have h2 : n / 64 % 64 = a.toNat % 4 * 16 + b.toNat / 16 := by omega
      have h3 : n % 64 = b.toNat % 16 * 4 := by omega
      rw [← groupBytes_two a b, h1, h2, h3]
      exact readGroup_of_values (valueOf_digit _ (by omega)) (valueOf_digit _ (by omega)) (valueOf_digit _ (by omega))
        hd (by omega) (by omega)
    rcases y₃ with _ | ⟨d, y⟩
    · exact hgroup rfl
    · obtain ⟨rfl, h₄⟩ := List.cons.inj h₃
      obtain ⟨rfl, -⟩ := List.append_eq_nil_iff.1 h₄.symm
      exact readText_cons (hgroup valueOf_padding) rfl
  | case4 a b c rest n ih =>
    intro y k h
    have ha := a.toNat_lt
    have hb := b.toNat_lt
    have hc := c.toNat_lt
    obtain ⟨y₁, rfl, h₁⟩ := exists_of_cons_eq_append (by omega) h
    obtain ⟨y₂, rfl, h₂⟩ := exists_of_cons_eq_append (by omega) h₁
    obtain ⟨y₃, rfl, h₃⟩ := exists_of_cons_eq_append (by omega) h₂
    obtain ⟨y₄, rfl, h₄⟩ := exists_of_cons_eq_append (by omega) h₃
    have hgroup : readGroup (some (digit (n / 262144))) (some (digit (n / 4096 % 64)))
        (some (digit (n / 64 % 64))) (some (digit (n % 64))) = .ok [a, b, c] := by
      have h1 : n / 262144 = a.toNat / 4 := by omega
      have h2 : n / 4096 % 64 = a.toNat % 4 * 16 + b.toNat / 16 := by omega
      have h3 : n / 64 % 64 = b.toNat % 16 * 4 + c.toNat / 64 := by omega
      have h4 : n % 64 = c.toNat % 64 := by omega
      rw [← groupBytes_three a b c, h1, h2, h3, h4]
      exact readGroup_of_values (valueOf_digit _ (by omega)) (valueOf_digit _ (by omega)) (valueOf_digit _ (by omega))
        (valueOf_digit _ (by omega)) (by omega) (by omega)
    exact readText_cons hgroup (ih y₄ k h₄)

end ScriptCore.Base64
