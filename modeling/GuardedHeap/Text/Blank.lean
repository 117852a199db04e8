/-! # Blanks — the characters that count as white space

    These are the characters with the property `White_Space`: the six
    ASCII ones, next line, and the spaces and separators of the other
    blocks. -/

namespace GuardedHeap.Text

/-- The ranges of the white space characters, ends included. -/
def blankRanges : List (Nat × Nat) :=
  [(0x0009, 0x000d), (0x0020, 0x0020), (0x0085, 0x0085), (0x00a0, 0x00a0), (0x1680, 0x1680),
    (0x2000, 0x200a), (0x2028, 0x2029), (0x202f, 0x202f), (0x205f, 0x205f), (0x3000, 0x3000)]

/-- The character is white space. -/
def isBlank (c : Char) : Bool :=
  blankRanges.any fun (lo, hi) => lo ≤ c.toNat && c.toNat ≤ hi

end GuardedHeap.Text
