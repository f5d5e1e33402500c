import Mathlib
import ScriptCore.Text.Utf8

set_option relaxedAutoImplicit false
set_option autoImplicit false

/-!
# Decoding loses nothing of a text

The bytes of a text are decoded to the text again, and nothing is replaced on the way. A character is decoded
from its bytes whatever bytes follow, since its leading byte tells how many bytes belong to it and where the
first of these must lie. There is one case for each number of bytes, and in each the ranges of the leading
byte leave out just the numbers that are no characters.

## Main results

* `ScriptCore.Text.step_utf8EncodeChar` — the character at the head of its bytes.
* `ScriptCore.Text.showBytes_bytes` — the text of the bytes of a text.
-/

namespace ScriptCore.Text

/-- The bytes of a text are those of its characters. -/
lemma bytes_eq (s : String) : bytes s = s.toList.flatMap String.utf8EncodeChar := by
  have hloop (bs : ByteArray) (n : ℕ) : ∀ i r, bs.size - i = n →
      ByteArray.toList.loop bs i r = r.reverse ++ bs.data.toList.drop i := by
    induction n with
    | zero =>
      intro i r hn
      rw [ByteArray.toList.loop, if_neg (by omega),
        List.drop_eq_nil_of_le (by rw [Array.length_toList]; exact Nat.sub_eq_zero_iff_le.1 hn),
        List.append_nil]
    | succ n ih =>
      intro i r hn
      have hi : i < bs.data.toList.length := by
        rw [Array.length_toList]
        exact Nat.lt_of_sub_eq_succ hn
      rw [ByteArray.toList.loop, if_pos (by omega), ih (i + 1) _ (by omega), List.reverse_cons,
        List.drop_eq_getElem_cons hi, List.append_assoc, List.singleton_append]
      have hget : bs.get! i = bs.data.toList[i] := by
        rw [ByteArray.get!, getElem!_pos bs.data i (by simpa using hi), Array.getElem_toList]
      rw [hget]
  rw [bytes, ByteArray.toList, hloop _ _ 0 [] rfl, String.toUTF8, ← String.utf8Encode_toList, List.utf8Encode,
    List.data_toByteArray]
  rfl

/-- A byte read as a number. -/
lemma toNat_ofNat_of_lt {n : ℕ} (h : n < 256) : (UInt8.ofNat n).toNat = n := by
  rw [UInt8.toNat_ofNat']
  exact Nat.mod_eq_of_lt h

/-- What a leading byte says, by its number. -/
lemma lead?_eq (b : UInt8) : lead? b =
    if 0xc2 ≤ b.toNat ∧ b.toNat ≤ 0xdf then some (1, 0x80, 0xbf)
    else if b.toNat = 0xe0 then some (2, 0xa0, 0xbf)
    else if b.toNat = 0xed then some (2, 0x80, 0x9f)
    else if 0xe1 ≤ b.toNat ∧ b.toNat ≤ 0xef then some (2, 0x80, 0xbf)
    else if b.toNat = 0xf0 then some (3, 0x90, 0xbf)
    else if 0xf1 ≤ b.toNat ∧ b.toNat ≤ 0xf3 then some (3, 0x80, 0xbf)
    else if b.toNat = 0xf4 then some (3, 0x80, 0x8f)
    else none := by
  simp only [lead?, between, Bool.and_eq_true, decide_eq_true_eq, ← UInt8.toNat_inj]
  rfl

/-- The bytes behind a leading byte, if all that it asks for are there. -/
lemma continuation_append {bs : List UInt8} (h : ∀ x ∈ bs, 0x80 ≤ x.toNat ∧ x.toNat ≤ 0xbf)
    (rest : List UInt8) : continuation bs.length 0x80 0xbf (bs ++ rest) = bs := by
  induction bs with
  | nil => rfl
  | cons b bs ih =>
    obtain ⟨hb, hbs⟩ := List.forall_mem_cons.1 h
    rw [List.length_cons, List.cons_append, continuation, if_pos (by simp [between, hb]), ih hbs]

/-- **The character that a leading byte and the bytes it asks for stand for.** -/
lemma step_of_lead {b b' : UInt8} (bs : List UInt8) {lo hi : ℕ}
    (hlead : lead? b = some (bs.length + 1, lo, hi)) (hfirst : lo ≤ b'.toNat ∧ b'.toNat ≤ hi)
    (hbs : ∀ x ∈ bs, 0x80 ≤ x.toNat ∧ x.toNat ≤ 0xbf) (rest : List UInt8) :
    step b (b' :: bs ++ rest) =
      (Char.ofNat ((b' :: bs).foldl (fun c x => c * 64 + x.toNat % 64) (b.toNat % 2 ^ (5 - bs.length))),
        bs.length + 1) := by
  have hcontinuation : continuation (bs.length + 1) lo hi (b' :: bs ++ rest) = b' :: bs := by
    rw [List.cons_append, continuation, if_pos (by simp [between, hfirst]), continuation_append hbs]
  have hbyte : ¬ b.toNat < 0x80 := by
    intro hlow
    rw [lead?_eq] at hlead
    split_ifs at hlead <;> omega
  have htop : 6 - (bs.length + 1) = 5 - bs.length := by omega
  rw [step, if_neg hbyte, hlead]
  simp only [hcontinuation, htop]
  exact if_pos List.length_cons

section

variable {c : Char} (rest : List UInt8)

/-- A byte that goes on with a character. -/
lemma toNat_continuing (n : ℕ) : (UInt8.ofNat (n % 64 + 128)).toNat = n % 64 + 128 :=
  toNat_ofNat_of_lt (by omega)

lemma step_two (h : 0x80 ≤ c.toNat) (h' : c.toNat ≤ 0x7ff) :
    step (UInt8.ofNat (c.toNat / 64 % 32 + 192)) (UInt8.ofNat (c.toNat % 64 + 128) :: rest) = (c, 1) := by
  have hb := toNat_ofNat_of_lt (show c.toNat / 64 % 32 + 192 < 256 by omega)
  have hlead : lead? (UInt8.ofNat (c.toNat / 64 % 32 + 192)) =
      some (([] : List UInt8).length + 1, 0x80, 0xbf) := by
    rw [lead?_eq, hb, if_pos (by omega)]
    rfl
  refine (step_of_lead [] hlead (by rw [toNat_continuing]; omega) nofun rest).trans ?_
  simp only [List.foldl_cons, List.foldl_nil, hb, toNat_continuing, List.length_nil]
  rw [show (c.toNat / 64 % 32 + 192) % 2 ^ (5 - 0) * 64 + (c.toNat % 64 + 128) % 64 = c.toNat by omega,
    Char.ofNat_toNat]

lemma step_three (h : 0x800 ≤ c.toNat) (h' : c.toNat ≤ 0xffff) :
    step (UInt8.ofNat (c.toNat / 4096 % 16 + 224))
      (UInt8.ofNat (c.toNat / 64 % 64 + 128) :: UInt8.ofNat (c.toNat % 64 + 128) :: rest) = (c, 2) := by
  have hb := toNat_ofNat_of_lt (show c.toNat / 4096 % 16 + 224 < 256 by omega)
  -- surrogates are no characters
  have hvalid : c.toNat < 0xd800 ∨ (0xdfff < c.toNat ∧ c.toNat < 0x110000) := c.valid
  obtain ⟨lo, hi, hlead, hfirst⟩ : ∃ lo hi,
      lead? (UInt8.ofNat (c.toNat / 4096 % 16 + 224)) = some (2, lo, hi) ∧
        lo ≤ c.toNat / 64 % 64 + 128 ∧ c.toNat / 64 % 64 + 128 ≤ hi := by
    rw [lead?_eq, hb, if_neg (by omega)]
    split_ifs
    all_goals first | exact ⟨_, _, rfl, by omega⟩ | omega
  refine (step_of_lead [UInt8.ofNat (c.toNat % 64 + 128)] hlead (by rwa [toNat_continuing])
    (List.forall_mem_singleton.2 (by rw [toNat_continuing]; omega)) rest).trans ?_
  simp only [List.foldl_cons, List.foldl_nil, hb, toNat_continuing, List.length_singleton]
  rw [show ((c.toNat / 4096 % 16 + 224) % 2 ^ (5 - 1) * 64 + (c.toNat / 64 % 64 + 128) % 64) * 64 +
    (c.toNat % 64 + 128) % 64 = c.toNat by omega, Char.ofNat_toNat]

lemma step_four (h : 0x10000 ≤ c.toNat) :
    step (UInt8.ofNat (c.toNat / 262144 % 8 + 240))
      (UInt8.ofNat (c.toNat / 4096 % 64 + 128) :: UInt8.ofNat (c.toNat / 64 % 64 + 128) ::
        UInt8.ofNat (c.toNat % 64 + 128) :: rest) = (c, 3) := by
  have hb := toNat_ofNat_of_lt (show c.toNat / 262144 % 8 + 240 < 256 by omega)
  have hvalid : c.toNat < 0xd800 ∨ (0xdfff < c.toNat ∧ c.toNat < 0x110000) := c.valid
  obtain ⟨lo, hi, hlead, hfirst⟩ : ∃ lo hi,
      lead? (UInt8.ofNat (c.toNat / 262144 % 8 + 240)) = some (3, lo, hi) ∧
        lo ≤ c.toNat / 4096 % 64 + 128 ∧ c.toNat / 4096 % 64 + 128 ≤ hi := by
    rw [lead?_eq, hb, if_neg (by omega), if_neg (by omega), if_neg (by omega), if_neg (by omega)]
    split_ifs
    all_goals first | exact ⟨_, _, rfl, by omega⟩ | omega
  refine (step_of_lead
    [UInt8.ofNat (c.toNat / 64 % 64 + 128), UInt8.ofNat (c.toNat % 64 + 128)] hlead
    (by rwa [toNat_continuing]) ?_ rest).trans ?_
  · simp only [List.forall_mem_cons, toNat_continuing]
    exact ⟨by omega, by omega, nofun⟩
  · simp only [List.foldl_cons, List.foldl_nil, hb, toNat_continuing, List.length_cons, List.length_nil]
    rw [show (((c.toNat / 262144 % 8 + 240) % 2 ^ (5 - (0 + 1 + 1)) * 64 +
      (c.toNat / 4096 % 64 + 128) % 64) * 64 + (c.toNat / 64 % 64 + 128) % 64) * 64 +
      (c.toNat % 64 + 128) % 64 = c.toNat by omega, Char.ofNat_toNat]

end

/-- **A character is decoded from its bytes**, whatever bytes follow. -/
theorem step_utf8EncodeChar (c : Char) (rest : List UInt8) : ∃ b bs,
    String.utf8EncodeChar c = b :: bs ∧ step b (bs ++ rest) = (c, bs.length) := by
  have hbytes : String.utf8EncodeChar c =
      if c.toNat ≤ 127 then [UInt8.ofNat c.toNat]
      else if c.toNat ≤ 2047 then
        [UInt8.ofNat (c.toNat / 64 % 32 + 192), UInt8.ofNat (c.toNat % 64 + 128)]
      else if c.toNat ≤ 65535 then
        [UInt8.ofNat (c.toNat / 4096 % 16 + 224), UInt8.ofNat (c.toNat / 64 % 64 + 128),
          UInt8.ofNat (c.toNat % 64 + 128)]
      else
        [UInt8.ofNat (c.toNat / 262144 % 8 + 240), UInt8.ofNat (c.toNat / 4096 % 64 + 128),
          UInt8.ofNat (c.toNat / 64 % 64 + 128), UInt8.ofNat (c.toNat % 64 + 128)] := rfl
  rw [hbytes]
  split_ifs with h1 h2 h3
  · refine ⟨_, [], rfl, ?_⟩
    rw [step, toNat_ofNat_of_lt (by omega), if_pos (by omega), Char.ofNat_toNat]
    rfl
  · exact ⟨_, _, rfl, step_two rest (by omega) h2⟩
  · exact ⟨_, _, rfl, step_three rest (by omega) h3⟩
  · exact ⟨_, _, rfl, step_four rest (by omega)⟩

/-- **The characters of a text are decoded from its bytes.** -/
theorem chars_flatMap_utf8EncodeChar (cs : List Char) : chars (cs.flatMap String.utf8EncodeChar) = cs := by
  induction cs with
  | nil => rw [List.flatMap_nil, chars]
  | cons c cs ih =>
    obtain ⟨b, bs, hbytes, hstep⟩ := step_utf8EncodeChar c (cs.flatMap String.utf8EncodeChar)
    rw [List.flatMap_cons, hbytes, List.cons_append, chars, hstep, List.drop_left, ih]

/-- **Lossy decoding loses nothing of a text.** -/
theorem showBytes_bytes (s : String) : showBytes (bytes s) = s := by
  rw [showBytes, bytes_eq, chars_flatMap_utf8EncodeChar, String.ofList_toList]

end ScriptCore.Text
