import GuardedHeap.Text.Utf8
import Mathlib.Data.List.Basic

/-! # UTF-8 — what was written is read

    Every character is read from its bytes, whatever follows them
    (`decode_append`), so a text is read from its encoding
    (`decode_encode`), and lines are what line feeds were put behind
    (`lines_flatMap`). -/

namespace GuardedHeap.Text.Utf8

variable {rest after : List UInt8} {n bits : Nat}

/-! ## Sequences of bytes -/

/-- A byte that follows in a sequence adds its bits. -/
theorem follow_cons {min max : UInt8} {m : Nat} (hmin : min.toNat ≤ m) (hmax : m ≤ max.toNat) :
    follow bits min max (n + 1) (UInt8.ofNat m :: rest) = follow (64 * bits + (m - 0x80)) 0x80 0xbf n rest := by
  have hm : (UInt8.ofNat m).toNat = m := by
    have hlt := max.toNat_lt
    rw [UInt8.toNat_ofNat']
    omega
  have hin : min ≤ UInt8.ofNat m ∧ UInt8.ofNat m ≤ max := by
    rw [UInt8.le_iff_toNat_le, UInt8.le_iff_toNat_le, hm]
    exact ⟨hmin, hmax⟩
  rw [follow, if_pos hin, hm]

/-- A sequence of several bytes that is well-formed is one character. -/
theorem decode_sequence {b : UInt8} {l : Lead} (hb : ¬ b < 0x80) (hlead : lead? b = some l)
    (hfollow : follow l.bits l.secondMin l.secondMax l.following rest = (some n, after)) :
    decode (b :: rest) = Char.ofNat n :: decode after := by
  rw [decode, if_neg hb, hlead]
  dsimp only
  rw [hfollow]

theorem lead?_of_two (hlo : 0xc2 ≤ n) (hhi : n ≤ 0xdf) :
    ¬ UInt8.ofNat n < 0x80 ∧ lead? (UInt8.ofNat n) = some ⟨1, n - 0xc0, 0x80, 0xbf⟩ := by
  have hall : ∀ n < 0xe0, 0xc2 ≤ n →
      ¬ UInt8.ofNat n < 0x80 ∧ lead? (UInt8.ofNat n) = some ⟨1, n - 0xc0, 0x80, 0xbf⟩ := by decide +kernel
  exact hall n (by omega) hlo

theorem lead?_of_three (hlo : 0xe0 ≤ n) (hhi : n ≤ 0xef) :
    ¬ UInt8.ofNat n < 0x80 ∧ lead? (UInt8.ofNat n) =
      some ⟨2, n - 0xe0, if n = 0xe0 then 0xa0 else 0x80, if n = 0xed then 0x9f else 0xbf⟩ := by
  have hall : ∀ n < 0xf0, 0xe0 ≤ n → ¬ UInt8.ofNat n < 0x80 ∧ lead? (UInt8.ofNat n) =
      some ⟨2, n - 0xe0, if n = 0xe0 then 0xa0 else 0x80, if n = 0xed then 0x9f else 0xbf⟩ := by
    decide +kernel
  exact hall n (by omega) hlo

theorem lead?_of_four (hlo : 0xf0 ≤ n) (hhi : n ≤ 0xf4) :
    ¬ UInt8.ofNat n < 0x80 ∧ lead? (UInt8.ofNat n) =
      some ⟨3, n - 0xf0, if n = 0xf0 then 0x90 else 0x80, if n = 0xf4 then 0x8f else 0xbf⟩ := by
  have hall : ∀ n < 0xf5, 0xf0 ≤ n → ¬ UInt8.ofNat n < 0x80 ∧ lead? (UInt8.ofNat n) =
      some ⟨3, n - 0xf0, if n = 0xf0 then 0x90 else 0x80, if n = 0xf4 then 0x8f else 0xbf⟩ := by
    decide +kernel
  exact hall n (by omega) hlo

/-! ## Sequences of each length -/

/-- Every byte that follows the first one but the second holds six bits, whichever they are. -/
theorem follow_six {m : Nat} :
    follow bits 0x80 0xbf (n + 1) (UInt8.ofNat (m % 64 + 0x80) :: rest) =
      follow (64 * bits + m % 64) 0x80 0xbf n rest :=
  (follow_cons (show 128 ≤ _ by omega) (show _ ≤ 191 by omega)).trans (by rw [Nat.add_sub_cancel])

theorem decode_one (hhi : n ≤ 0x7f) : decode (UInt8.ofNat n :: rest) = Char.ofNat n :: decode rest := by
  have hbyte : (UInt8.ofNat n).toNat = n := by
    rw [UInt8.toNat_ofNat']
    omega
  have hlt : UInt8.ofNat n < 0x80 := by
    rw [UInt8.lt_iff_toNat_lt, hbyte]
    exact Nat.lt_succ_of_le hhi
  rw [decode, if_pos hlt, hbyte]

theorem decode_two (hlo : 0x7f < n) (hhi : n ≤ 0x7ff) :
    decode (UInt8.ofNat (n / 64 % 32 + 0xc0) :: UInt8.ofNat (n % 64 + 0x80) :: rest) =
      Char.ofNat n :: decode rest := by
  obtain ⟨hb, hlead⟩ := lead?_of_two (n := n / 64 % 32 + 0xc0) (by omega) (by omega)
  refine decode_sequence hb hlead (follow_six.trans (congrArg (fun n => (some n, rest)) ?_))
  show 64 * (n / 64 % 32 + 0xc0 - 0xc0) + n % 64 = n
  omega

/-- The second byte keeps out what two bytes hold, and surrogates. -/
theorem decode_three (hlo : 0x7ff < n) (hhi : n ≤ 0xffff) (hvalid : n < 0xd800 ∨ 0xdfff < n) :
    decode (UInt8.ofNat (n / 4096 % 16 + 0xe0) :: UInt8.ofNat (n / 64 % 64 + 0x80)
      :: UInt8.ofNat (n % 64 + 0x80) :: rest) = Char.ofNat n :: decode rest := by
  obtain ⟨hb, hlead⟩ := lead?_of_three (n := n / 4096 % 16 + 0xe0) (by omega) (by omega)
  refine decode_sequence hb hlead ((follow_cons ?_ ?_).trans
    (follow_six.trans (congrArg (fun n => (some n, rest)) ?_)))
  · dsimp only
    split
    · show 160 ≤ _
      omega
    · show 128 ≤ _
      omega
  · dsimp only
    split
    · show _ ≤ 159
      omega
    · show _ ≤ 191
      omega
  · dsimp only
    omega

/-- The second byte keeps out what three bytes hold, and numbers above the last character. -/
theorem decode_four (hlo : 0xffff < n) (hhi : n < 0x110000) :
    decode (UInt8.ofNat (n / 262144 % 8 + 0xf0) :: UInt8.ofNat (n / 4096 % 64 + 0x80)
      :: UInt8.ofNat (n / 64 % 64 + 0x80) :: UInt8.ofNat (n % 64 + 0x80) :: rest) =
      Char.ofNat n :: decode rest := by
  obtain ⟨hb, hlead⟩ := lead?_of_four (n := n / 262144 % 8 + 0xf0) (by omega) (by omega)
  refine decode_sequence hb hlead ((follow_cons ?_ ?_).trans
    (follow_six.trans (follow_six.trans (congrArg (fun n => (some n, rest)) ?_))))
  · dsimp only
    split
    · show 144 ≤ _
      omega
    · show 128 ≤ _
      omega
  · dsimp only
    split
    · show _ ≤ 143
      omega
    · show _ ≤ 191
      omega
  · dsimp only
    omega

/-! ## Texts -/

/-- The bytes of a character are read as the character. -/
theorem decode_append (c : Char) (rest : List UInt8) :
    decode (String.utf8EncodeChar c ++ rest) = c :: decode rest := by
  have hvalid : c.val.toNat < 0xd800 ∨ 0xdfff < c.val.toNat ∧ c.val.toNat < 0x110000 := c.valid
  have hchar : Char.ofNat c.val.toNat = c := Char.ofNat_toNat c
  unfold String.utf8EncodeChar
  dsimp only
  generalize c.val.toNat = v at *
  subst hchar
  by_cases hone : v ≤ 0x7f
  · rw [if_pos hone]
    exact decode_one hone
  rw [if_neg hone]
  by_cases htwo : v ≤ 0x7ff
  · rw [if_pos htwo]
    exact decode_two (by omega) htwo
  rw [if_neg htwo]
  by_cases hthree : v ≤ 0xffff
  · rw [if_pos hthree]
    exact decode_three (by omega) hthree (by omega)
  · rw [if_neg hthree]
    exact decode_four (by omega) (by omega)

/-- A text is read from its bytes. -/
theorem decode_encode (text : List Char) : decode (text.flatMap String.utf8EncodeChar) = text := by
  induction text with
  | nil => rw [List.flatMap_nil, decode]
  | cons c text ih => rw [List.flatMap_cons, decode_append, ih]

/-! ## Lines -/

/-- A line goes on to the next line feed. -/
theorem lines_go_append {line text : List Char} (htext : '\n' ∉ text) (more : List Char) :
    lines.go line (text ++ more) = lines.go (text.reverse ++ line) more := by
  induction text generalizing line with
  | nil => rfl
  | cons c text ih =>
      obtain ⟨hc, htext⟩ := not_or.mp (mt List.mem_cons.mpr htext)
      rw [List.cons_append, lines.go, if_neg (Ne.symm hc), ih htext, List.reverse_cons, List.append_assoc]
      rfl

/-- Texts that line feeds were put behind are lines again, unless they had line feeds or were cut short for a
    carriage return. -/
theorem lines_flatMap {texts : List (List Char)} (hline : ∀ text ∈ texts, '\n' ∉ text)
    (hreturn : ∀ text ∈ texts, text.getLast? ≠ some '\r') : lines (texts.flatMap (· ++ ['\n'])) = texts := by
  unfold lines
  induction texts with
  | nil => rfl
  | cons text texts ih =>
      obtain ⟨hfirst, hline⟩ := List.forall_mem_cons.mp hline
      obtain ⟨hlast, hreturn⟩ := List.forall_mem_cons.mp hreturn
      rw [List.flatMap_cons, List.append_assoc, lines_go_append hfirst, List.append_nil, List.singleton_append,
        lines.go, if_pos rfl, List.head?_reverse, if_neg hlast]
      dsimp only at ih ⊢
      rw [List.reverse_reverse, ih hline hreturn]

end GuardedHeap.Text.Utf8
