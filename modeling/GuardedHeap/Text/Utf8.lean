/-! # UTF-8 — bytes as text, whatever the bytes are

    `encode` writes a text as UTF-8.  `decode` reads any bytes: a
    well-formed sequence is its character, and each longest piece that only
    begins like one is a replacement character, as is a byte that begins
    none. -/

namespace GuardedHeap.Text.Utf8

/-- The UTF-8 bytes of a text. -/
def encode (s : String) : List UInt8 :=
  s.toList.flatMap String.utf8EncodeChar

/-- What the first byte of a sequence of several bytes tells. -/
structure Lead where
  /-- The number of bytes that follow. -/
  following : Nat
  /-- The bits of the character that the byte holds. -/
  bits : Nat
  /-- The least byte that may come second. -/
  secondMin : UInt8
  /-- The greatest byte that may come second. -/
  secondMax : UInt8
  deriving DecidableEq, Repr

/-- The reading of a first byte.  The limits on the second one keep out long forms, surrogates
    and numbers above the last character. -/
def lead? (b : UInt8) : Option Lead :=
  if 0xc2 ≤ b ∧ b ≤ 0xdf then some ⟨1, b.toNat - 0xc0, 0x80, 0xbf⟩
  else if 0xe0 ≤ b ∧ b ≤ 0xef then
    some ⟨2, b.toNat - 0xe0, if b = 0xe0 then 0xa0 else 0x80, if b = 0xed then 0x9f else 0xbf⟩
  else if 0xf0 ≤ b ∧ b ≤ 0xf4 then
    some ⟨3, b.toNat - 0xf0, if b = 0xf0 then 0x90 else 0x80, if b = 0xf4 then 0x8f else 0xbf⟩
  else none

/-- The replacement character. -/
def replacement : Char := '\ufffd'

/-- Read `n` more bytes of a sequence, the first of them from `[min, max]`: the character's
    number, if they are all there, and what is left. -/
def follow (bits : Nat) (min max : UInt8) : (n : Nat) → List UInt8 → Option Nat × List UInt8
  | 0, rest => (some bits, rest)
  | _ + 1, [] => (none, [])
  | n + 1, b :: rest =>
    if min ≤ b ∧ b ≤ max then follow (64 * bits + (b.toNat - 0x80)) 0x80 0xbf n rest
    else (none, b :: rest)

theorem length_follow_le (bits : Nat) (min max : UInt8) (n : Nat) (bytes : List UInt8) :
    (follow bits min max n bytes).2.length ≤ bytes.length := by
  induction n generalizing bits min max bytes with
  | zero => cases bytes <;> exact Nat.le_refl _
  | succ n ih =>
    cases bytes with
    | nil => exact Nat.le_refl _
    | cons b rest =>
      unfold follow
      split
      · exact Nat.le_trans (ih _ _ _ rest) (Nat.le_succ _)
      · exact Nat.le_refl _

/-- The text that the bytes read as. -/
def decode : List UInt8 → List Char
  | [] => []
  | b :: rest =>
    if b < 0x80 then Char.ofNat b.toNat :: decode rest
    else
      match lead? b with
      | none => replacement :: decode rest
      | some l =>
        let read := follow l.bits l.secondMin l.secondMax l.following rest
        (match read.1 with
          | some n => Char.ofNat n
          | none => replacement) :: decode read.2
termination_by bytes => bytes.length
decreasing_by
  · exact Nat.lt_succ_self _
  · exact Nat.lt_succ_self _
  · exact Nat.lt_succ_of_le (length_follow_le l.bits l.secondMin l.secondMax l.following rest)

/-- The pieces of a text that line feeds end, without them and without a carriage return right
    before; what is left behind the last one is a piece, too, unless it is empty. -/
def lines : List Char → List (List Char)
  | text => go [] text
where
  /-- The lines of `text`, when the current one has begun with `line` in reverse. -/
  go (line : List Char) : List Char → List (List Char)
    | [] => if line.isEmpty then [] else [line.reverse]
    | c :: rest =>
      if c = '\n' then
        let line := if line.head? = some '\r' then line.drop 1 else line
        line.reverse :: go [] rest
      else go (c :: line) rest

end GuardedHeap.Text.Utf8
