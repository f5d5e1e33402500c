set_option autoImplicit false

/-!
# Bytes and text

Strings of the language are sequences of bytes, most of which are UTF-8 text. Bytes that are not
can still be shown: each longest piece that starts a character but does not finish one is replaced
by the replacement character.

## Main definitions

* `ScriptCore.Text.bytes` — the UTF-8 form of a text.
* `ScriptCore.Text.ofBytes?` — the text of bytes that are UTF-8.
* `ScriptCore.Text.showBytes` — the text of any bytes.
-/

namespace ScriptCore.Text

/-- The UTF-8 form of a text. -/
def bytes (s : String) : List UInt8 := s.toUTF8.toList

/-- The text of bytes that are valid UTF-8. -/
def ofBytes? (bs : List UInt8) : Option String := String.fromUTF8? ⟨bs.toArray⟩

/-- The character that stands for bytes that are no text. -/
def replacement : Char := '\ufffd'

/-- Whether `b` lies between `lo` and `hi`. -/
def between (lo hi : Nat) (b : UInt8) : Bool := lo ≤ b.toNat && b.toNat ≤ hi

/-- The form of the characters that start with the byte `b`: the number of bytes behind it and the
range of the first of these; `none` if no character of more than one byte starts with `b`. -/
def lead? (b : UInt8) : Option (Nat × Nat × Nat) :=
  if between 0xc2 0xdf b then some (1, 0x80, 0xbf)
  else if b = 0xe0 then some (2, 0xa0, 0xbf)
  else if b = 0xed then some (2, 0x80, 0x9f)
  else if between 0xe1 0xef b then some (2, 0x80, 0xbf)
  else if b = 0xf0 then some (3, 0x90, 0xbf)
  else if between 0xf1 0xf3 b then some (3, 0x80, 0xbf)
  else if b = 0xf4 then some (3, 0x80, 0x8f)
  else none

/-- The longest run of at most `n` bytes at the head of `bs` that can follow in a character, when
the first of them has to lie between `lo` and `hi`. -/
def continuation : Nat → Nat → Nat → List UInt8 → List UInt8
  | 0, _, _, _ => []
  | _ + 1, _, _, [] => []
  | n + 1, lo, hi, b :: bs =>
    if between lo hi b then b :: continuation n 0x80 0xbf bs else []

/-- The character at the head of `b :: bs`, or the replacement character, and the number of bytes
of `bs` it takes. -/
def step (b : UInt8) (bs : List UInt8) : Char × Nat :=
  if b.toNat < 0x80 then (Char.ofNat b.toNat, 0)
  else
    match lead? b with
    | none => (replacement, 0)
    | some (n, lo, hi) =>
      let rest := continuation n lo hi bs
      if rest.length = n then
        -- the leading byte has seven bits less one for each byte of the character
        let top := b.toNat % Nat.pow 2 (6 - n)
        (Char.ofNat (rest.foldl (fun c x => c * 64 + x.toNat % 64) top), n)
      else (replacement, rest.length)

/-- The characters of any bytes. -/
def chars : List UInt8 → List Char
  | [] => []
  | b :: bs => (step b bs).1 :: chars (bs.drop (step b bs).2)
termination_by bs => bs.length
decreasing_by simp only [List.length_drop, List.length_cons]; omega

/-- The text of any bytes, with replacement characters where they are not UTF-8. -/
def showBytes (bs : List UInt8) : String := String.ofList (chars bs)

end ScriptCore.Text
