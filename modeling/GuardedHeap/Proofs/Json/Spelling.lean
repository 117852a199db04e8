import GuardedHeap.Json.Printer
import GuardedHeap.Json.Reader
import Mathlib.Data.List.Basic
import Mathlib.Tactic.SplitIfs

/-! # What written JSON spells

    A string is escaped character by character and read back the same way
    (`stringUnits_escapeChar`); an integer is its digits up to what closes
    the value around it (`numeral_toDigits`).  From there each kind of
    value has one rule that tells what its text spells from what its parts
    spell (`spells_null` to `spells_obj`), however the text goes on. -/

namespace GuardedHeap.Json

open Spelling (skipSpace skipWord isSpace digits someDigits wholeDigits fractionDigits exponentDigits numeral
  escapeUnit? stringUnits)

variable {text rest : List Char} {c : Char} {n u fuel : Nat}

/-! ## Strings -/

/-- The code units of a string. -/
def units (s : String) : List Nat :=
  s.toList.map Char.toNat

/-- A letter behind a backslash stands for the character that it names. -/
theorem stringUnits_letter (hletter : escapeUnit? c = some u) :
    stringUnits ('\\' :: c :: rest) = (stringUnits rest).map fun p => (u :: p.1, p.2) := by
  have hu : c ≠ 'u' := by
    rintro rfl
    exact nomatch hletter
  rw [stringUnits, hletter]
  · rcases stringUnits rest with _ | ⟨units, after⟩ <;> rfl
  · exact fun _ _ _ _ _ hc => absurd hc hu

/-- A digit has the value that it was made for. -/
theorem hexValue?_hexDigit (hn : n < 16) : Text.hexValue? (Text.hexDigit n) = some n := by
  have hall : ∀ n < 16, Text.hexValue? (Text.hexDigit n) = some n := by decide
  exact hall n hn

/-- Two hexadecimal digits behind two zeros stand for a code. -/
theorem stringUnits_hex {a b : Nat} (ha : a < 16) (hb : b < 16) :
    stringUnits ('\\' :: 'u' :: '0' :: '0' :: Text.hexDigit a :: Text.hexDigit b :: rest) =
      (stringUnits rest).map fun p => ((16 * a + b) :: p.1, p.2) := by
  have hzero : Text.hexValue? '0' = some 0 := rfl
  rw [stringUnits, hexValue?_hexDigit ha, hexValue?_hexDigit hb, hzero]
  rcases stringUnits rest with _ | ⟨units, after⟩
  · rfl
  · simp only [Option.map_some, Nat.mul_zero, Nat.zero_add]

/-- Any other character stands for itself. -/
theorem stringUnits_plain (hquote : c ≠ '"') (hbackslash : c ≠ '\\') (hcontrol : 0x20 ≤ c.toNat) :
    stringUnits (c :: rest) = (stringUnits rest).map fun p => (c.toNat :: p.1, p.2) := by
  rw [stringUnits, if_neg fun h => h.elim (Nat.not_lt.mpr hcontrol) hbackslash]
  · exact hquote
  · exact fun _ _ _ _ _ hc => absurd hc hbackslash
  · exact fun _ _ hc => absurd hc hbackslash

/-- A character is read from its escape. -/
theorem stringUnits_escapeChar (c : Char) (rest : List Char) :
    stringUnits (escapeChar c ++ rest) = (stringUnits rest).map fun p => (c.toNat :: p.1, p.2) := by
  unfold escapeChar
  split_ifs with hquote hbackslash hfeed hreturn htab hback hform hcontrol
  any_goals
    subst c
    exact stringUnits_letter rfl
  · refine (stringUnits_hex (by omega) (by omega)).trans ?_
    rw [Nat.div_add_mod]
    rfl
  · exact stringUnits_plain hquote hbackslash (Nat.not_lt.mp hcontrol)

/-- A string is read up to its closing quote. -/
theorem stringUnits_flatMap (cs : List Char) (rest : List Char) :
    stringUnits (cs.flatMap escapeChar ++ '"' :: rest) = some (cs.map Char.toNat, rest) := by
  induction cs with
  | nil => rw [List.flatMap_nil, List.nil_append, stringUnits, List.map_nil]
  | cons c cs ih =>
      rw [List.flatMap_cons, List.append_assoc, stringUnits_escapeChar, ih, Option.map_some, List.map_cons]

/-! ## Numbers -/

/-- What may stand behind a value: nothing, or what closes the value around it or begins the next one. -/
def Closes (rest : List Char) : Prop :=
  ∀ c ∈ rest.head?, c = ',' ∨ c = ']' ∨ c = '\x7d'

/-- The digits of a number. -/
def digitsOf (n : Nat) : List Nat :=
  (Nat.toDigits 10 n).map fun c => c.toNat - '0'.toNat

/-- Digits are read until there are no more. -/
theorem digits_append {cs : List Char} (hcs : ∀ c ∈ cs, c.isDigit = true) (hrest : Closes rest) :
    digits (cs ++ rest) = (cs.map fun c => c.toNat - '0'.toNat, rest) := by
  induction cs with
  | nil =>
      cases rest with
      | nil => rfl
      | cons c rest =>
          have hc : ¬ c.isDigit = true := by
            rcases hrest c rfl with rfl | rfl | rfl <;> decide
          rw [List.nil_append, digits, if_neg hc, List.map_nil]
  | cons c cs ih =>
      obtain ⟨hc, hcs⟩ := List.forall_mem_cons.mp hcs
      rw [List.cons_append, digits, if_pos hc, ih hcs, List.map_cons]

/-- A number does not begin with a zero unless it is one. -/
theorem head?_toDigits (hn : 0 < n) : (Nat.toDigits 10 n).head? ≠ some '0' := by
  induction n using Nat.strongRecOn with
  | ind n ih =>
      by_cases hbase : n < 10
      · have hall : ∀ n < 10, 0 < n → (Nat.toDigits 10 n).head? ≠ some '0' := by decide
        exact hall n hbase hn
      · have hlt : n / 10 < n := Nat.div_lt_self hn (by omega)
        rw [Nat.toDigits_of_base_le (by omega) (Nat.not_lt.mp hbase), List.head?_append_of_ne_nil _ Nat.toDigits_ne_nil]
        exact ih _ hlt (by omega)

/-- A number is read back from its digits. -/
theorem wholeDigits_toDigits (n : Nat) (hrest : Closes rest) :
    wholeDigits (Nat.toDigits 10 n ++ rest) = some (digitsOf n, rest) := by
  rcases Nat.eq_zero_or_pos n with rfl | hn
  · rfl
  obtain ⟨c, cs, hcs⟩ := List.exists_cons_of_ne_nil (Nat.toDigits_ne_nil (n := n) (b := 10))
  have hread : digits (c :: (cs ++ rest)) = (digitsOf n, rest) := by
    have hdigit : ∀ c ∈ Nat.toDigits 10 n, c.isDigit = true := fun c hc =>
      Nat.isDigit_of_mem_toDigits (by omega) (Nat.le_refl 10) hc
    rw [← List.cons_append, ← hcs, digits_append hdigit hrest]
    rfl
  have hsome : ∃ d ds, digitsOf n = d :: ds := ⟨_, _, by rw [digitsOf, hcs, List.map_cons]⟩
  have hc : c ≠ '0' := fun hc => head?_toDigits hn (by rw [hcs, hc, List.head?_cons])
  obtain ⟨d, ds, hsome⟩ := hsome
  rw [hcs, List.cons_append, wholeDigits, someDigits, hread, hsome]
  exact fun _ h => hc (List.cons.inj h).1

/-- The numeral that an integer is written as. -/
def intNumeral (k : Int) : Numeral :=
  { negative := decide (k < 0), whole := digitsOf k.natAbs, fraction := [], isFloat := false,
    exponentNegative := false, exponent := [] }

/-- No fraction is read where the number ends. -/
theorem fractionDigits_of_closes (hrest : Closes rest) : fractionDigits rest = some ([], rest) := by
  cases rest with
  | nil => rfl
  | cons c rest =>
      rcases hrest c rfl with rfl | rfl | rfl <;> rfl

/-- No exponent is read where the number ends. -/
theorem exponentDigits_of_closes (hrest : Closes rest) : exponentDigits rest = some (false, [], rest) := by
  cases rest with
  | nil => rfl
  | cons c rest =>
      rcases hrest c rfl with rfl | rfl | rfl <;> rfl

/-- A numeral is read back from its sign and its digits. -/
theorem numeral_toDigits (negative : Bool) (n : Nat) (hrest : Closes rest) :
    numeral negative (Nat.toDigits 10 n ++ rest) = some (⟨negative, digitsOf n, [], false, false, []⟩, rest) := by
  unfold numeral
  rw [wholeDigits_toDigits n hrest, Option.bind_eq_bind, Option.bind_some]
  dsimp only
  rw [fractionDigits_of_closes hrest, Option.bind_eq_bind, Option.bind_some]
  dsimp only
  rw [exponentDigits_of_closes hrest]
  rfl

/-! ## Steps of the reader -/

section Steps

variable {x : Spelling} {key : List Nat}

theorem skipSpace_of_not (hc : isSpace c = false) : skipSpace (c :: text) = c :: text := by
  rw [skipSpace, hc]
  rfl

theorem value_quote :
    Spelling.value (fuel + 1) ('"' :: text) = (stringUnits text).map fun p => (.str p.1, p.2) :=
  rfl

theorem value_minus :
    Spelling.value (fuel + 1) ('-' :: text) = (numeral true text).map fun p => (.number p.1, p.2) :=
  rfl

theorem value_digit (hc : c.isDigit = true) : Spelling.value (fuel + 1) (c :: text) =
    (numeral false (c :: text)).map fun p => (.number p.1, p.2) := by
  have hne : ∀ {d : Char}, d.isDigit = false → c ≠ d := fun {d} hd h => by
    rw [h, hd] at hc
    exact nomatch hc
  have hspace : isSpace c = false := by
    rw [isSpace, beq_eq_false_iff_ne.mpr (hne (d := ' ') rfl), beq_eq_false_iff_ne.mpr (hne (d := '\n') rfl),
      beq_eq_false_iff_ne.mpr (hne (d := '\t') rfl), beq_eq_false_iff_ne.mpr (hne (d := '\r') rfl)]
    rfl
  rw [Spelling.value, skipSpace_of_not hspace]
  split
  case h_1 h => exact nomatch h
  case h_9 => rfl
  all_goals
    next h => exact absurd (List.cons.inj h).1 (hne rfl)

theorem value_bracket (h : ∀ after, skipSpace text ≠ ']' :: after) :
    Spelling.value (fuel + 1) ('[' :: text) = (Spelling.items fuel text).map fun p => (.arr p.1, p.2) := by
  -- The reader looks for the closing bracket first, which `h` excludes.
  simp only [Spelling.value, skipSpace_of_not (c := '[') rfl]

theorem value_brace (h : ∀ after, skipSpace text ≠ '\x7d' :: after) :
    Spelling.value (fuel + 1) ('\x7b' :: text) = (Spelling.fields fuel text).map fun p => (.obj p.1, p.2) := by
  simp only [Spelling.value, skipSpace_of_not (c := '\x7b') rfl]

/-- No value begins with a closing bracket. -/
theorem skipSpace_ne_of_value {p : Spelling × List Char} (h : Spelling.value fuel text = some p) (after : List Char) :
    skipSpace text ≠ ']' :: after := by
  intro hspace
  cases fuel with
  | zero => exact nomatch h
  | succ fuel =>
      rw [Spelling.value, hspace] at h
      exact nomatch h

/-- An item before a closing bracket is the last one. -/
theorem items_last (h : Spelling.value fuel text = some (x, ']' :: rest)) :
    Spelling.items (fuel + 1) text = some ([x], rest) := by
  rw [Spelling.items, h]
  rfl

/-- Behind a comma there are more items. -/
theorem items_comma (h : Spelling.value fuel text = some (x, ',' :: rest)) :
    Spelling.items (fuel + 1) text = (Spelling.items fuel rest).map fun p => (x :: p.1, p.2) := by
  rw [Spelling.items, h]
  rfl

variable {more : List Char} (hkey : stringUnits text = some (key, ':' :: more))
include hkey

/-- A field before a closing brace is the last one. -/
theorem fields_last (h : Spelling.value fuel more = some (x, '\x7d' :: rest)) :
    Spelling.fields (fuel + 1) ('"' :: text) = some ([(key, x)], rest) := by
  have hcolon : skipSpace (':' :: more) = ':' :: more := rfl
  rw [Spelling.fields, skipSpace_of_not rfl]
  simp only [hkey, hcolon, h]
  rfl

/-- Behind a comma there are more fields. -/
theorem fields_comma (h : Spelling.value fuel more = some (x, ',' :: rest)) :
    Spelling.fields (fuel + 1) ('"' :: text) =
      (Spelling.fields fuel rest).map fun p => ((key, x) :: p.1, p.2) := by
  have hcolon : skipSpace (':' :: more) = ':' :: more := rfl
  rw [Spelling.fields, skipSpace_of_not rfl]
  simp only [hkey, hcolon, h]
  rfl

end Steps

/-! ## Values -/

/-- However a text goes on behind it, the spelling is read from it, and nothing more. -/
def Spells (text : List Char) (x : Spelling) : Prop :=
  ∀ (fuel : Nat) (rest : List Char), text.length ≤ fuel → Closes rest →
    Spelling.value fuel (text ++ rest) = some (x, rest)

theorem spells_null : Spells (chars null) .null := by
  rintro (_ | fuel) rest hfuel -
  · exact nomatch hfuel
  · rfl

theorem spells_bool (b : Bool) : Spells (chars (bool b)) (.bool b) := by
  rintro (_ | fuel) rest hfuel -
  · cases b <;> exact nomatch hfuel
  · cases b <;> rfl

/-- A string is read back from its characters, which begin with a quote. -/
theorem stringUnits_stringChars (s : String) (rest : List Char) :
    ∃ text, stringChars s ++ rest = '"' :: text ∧ stringUnits text = some (units s, rest) := by
  refine ⟨s.toList.flatMap escapeChar ++ '"' :: rest, ?_, stringUnits_flatMap s.toList rest⟩
  rw [stringChars, List.cons_append, List.cons_append, List.append_assoc]
  rfl

theorem spells_str (s : String) : Spells (chars (str s)) (.str (units s)) := by
  rintro (_ | fuel) rest hfuel -
  · exact nomatch hfuel
  · obtain ⟨text, htext, hread⟩ := stringUnits_stringChars s rest
    rw [chars, htext, value_quote, hread]
    rfl

/-- A number is spelled as itself. -/
theorem spells_int (k : Int) : Spells (chars (int k)) (.number (intNumeral k)) := by
  have hcons : ∀ n : Nat, ∃ c cs, Nat.toDigits 10 n = c :: cs ∧ c.isDigit = true := fun n => by
    obtain ⟨c, cs, hcs⟩ := List.exists_cons_of_ne_nil (Nat.toDigits_ne_nil (n := n) (b := 10))
    exact ⟨c, cs, hcs, Nat.isDigit_of_mem_toDigits (by omega) (Nat.le_refl 10) (hcs ▸ List.mem_cons_self)⟩
  obtain ⟨c, cs, hcs, hc⟩ := hcons k.natAbs
  rintro (_ | fuel) rest hfuel hrest
  · rw [chars, intChars, hcs] at hfuel
    split at hfuel <;> exact nomatch hfuel
  rw [chars, intChars]
  by_cases hneg : k < 0
  · rw [if_pos hneg, List.cons_append, value_minus, numeral_toDigits true _ hrest, intNumeral, decide_eq_true hneg]
    rfl
  · rw [if_neg hneg, hcs, List.cons_append, value_digit hc, ← List.cons_append, ← hcs,
      numeral_toDigits false _ hrest, intNumeral, decide_eq_false hneg]
    rfl

theorem closes_comma : Closes (',' :: rest) := by
  rintro _ ⟨⟩
  exact .inl rfl

theorem closes_bracket : Closes (']' :: rest) := by
  rintro _ ⟨⟩
  exact .inr (.inl rfl)

theorem closes_brace : Closes ('}' :: rest) := by
  rintro _ ⟨⟩
  exact .inr (.inr rfl)

theorem itemChars_cons (j next : Json) (js : List Json) :
    itemChars (j :: next :: js) = j.chars ++ ',' :: itemChars (next :: js) := by
  rw [itemChars]
  exact nofun

theorem fieldChars_cons (key : String) (j : Json) (f : String × Json) (fs : List (String × Json)) :
    fieldChars ((key, j) :: f :: fs) = stringChars key ++ ':' :: j.chars ++ ',' :: fieldChars (f :: fs) := by
  rw [fieldChars]
  exact nofun

/-- The items of a list begin with the first one, and what is behind it closes a number. -/
theorem itemChars_append (j : Json) (js : List Json) (rest : List Char) :
    ∃ more, Closes more ∧ itemChars (j :: js) ++ ']' :: rest = j.chars ++ more := by
  cases js with
  | nil => exact ⟨_, closes_bracket, by rw [itemChars]⟩
  | cons next js => exact ⟨_, closes_comma, by rw [itemChars_cons, List.append_assoc, List.cons_append]⟩

/-- Fields begin with a quote. -/
theorem fieldChars_append (f : String × Json) (fs : List (String × Json)) (rest : List Char) :
    ∃ more, fieldChars (f :: fs) ++ rest = '"' :: more := by
  cases fs with
  | nil =>
      rw [fieldChars, stringChars, List.cons_append, List.cons_append, List.cons_append]
      exact ⟨_, rfl⟩
  | cons next fs =>
      rw [fieldChars_cons, stringChars, List.cons_append, List.cons_append, List.cons_append, List.cons_append]
      exact ⟨_, rfl⟩

/-- Items are read up to the closing bracket, with fuel for each character. -/
theorem items_itemChars {j : Json} {js : List Json} {x : Spelling} {xs : List Spelling}
    (h : Spells j.chars x) (hs : List.Forall₂ (fun j x => Spells j.chars x) js xs)
    (hfuel : (itemChars (j :: js)).length < fuel) :
    Spelling.items fuel (itemChars (j :: js) ++ ']' :: rest) = some (x :: xs, rest) := by
  -- On the items behind the first one; an item costs one step more than its text, which the comma pays.
  induction hs generalizing j x fuel with
  | nil =>
      obtain ⟨fuel, rfl⟩ := Nat.exists_eq_add_one_of_ne_zero (Nat.ne_zero_of_lt hfuel)
      exact items_last (h _ _ (Nat.le_of_lt_succ hfuel) closes_bracket)
  | @cons next _ js _ hnext hs ih =>
      obtain ⟨fuel, rfl⟩ := Nat.exists_eq_add_one_of_ne_zero (Nat.ne_zero_of_lt hfuel)
      rw [itemChars_cons, List.length_append, List.length_cons] at hfuel
      have hvalue := h fuel (',' :: (itemChars (next :: js) ++ ']' :: rest)) (by omega) closes_comma
      rw [itemChars_cons, List.append_assoc, List.cons_append, items_comma hvalue, ih hnext (by omega)]
      rfl

/-- A list is spelled as its items are. -/
theorem spells_arr {js : List Json} {xs : List Spelling} (hs : List.Forall₂ (fun j x => Spells j.chars x) js xs) :
    Spells (chars (arr js)) (.arr xs) := by
  rintro (_ | fuel) rest hfuel -
  · exact nomatch hfuel
  rw [chars, List.cons_append, List.length_cons, List.length_append, List.length_singleton] at hfuel
  rw [chars, List.cons_append, List.cons_append, List.append_assoc, List.singleton_append]
  cases hs with
  | nil => rfl
  | @cons j _ js _ h hs =>
      have hne : ∀ after, skipSpace (itemChars (j :: js) ++ ']' :: rest) ≠ ']' :: after := by
        obtain ⟨more, hmore, happend⟩ := itemChars_append j js rest
        rw [happend]
        exact skipSpace_ne_of_value (h _ more (Nat.le_refl _) hmore)
      rw [value_bracket hne, items_itemChars h hs (Nat.le_of_succ_le_succ hfuel)]
      rfl

/-- The members of an object are spelled one by one. -/
def SpellsFields (fs : List (String × Json)) (gs : List (List Nat × Spelling)) : Prop :=
  List.Forall₂ (fun f g => g.1 = units f.1 ∧ Spells f.2.chars g.2) fs gs

/-- Members are read up to the closing brace, with fuel for each character. -/
theorem fields_fieldChars {f : String × Json} {fs : List (String × Json)} {g : List Nat × Spelling}
    {gs : List (List Nat × Spelling)} (h : g.1 = units f.1 ∧ Spells f.2.chars g.2) (hs : SpellsFields fs gs)
    (hfuel : (fieldChars (f :: fs)).length < fuel) :
    Spelling.fields fuel (fieldChars (f :: fs) ++ '\x7d' :: rest) = some (g :: gs, rest) := by
  obtain ⟨fuel, rfl⟩ := Nat.exists_eq_add_one_of_ne_zero (Nat.ne_zero_of_lt hfuel)
  induction hs generalizing f g fuel with
  | nil =>
      obtain ⟨key, j⟩ := f
      obtain ⟨_, x⟩ := g
      obtain ⟨rfl, h⟩ := h
      rw [fieldChars, List.length_append, List.length_cons] at hfuel
      have hvalue := h fuel ('\x7d' :: rest) (by dsimp only; omega) closes_brace
      obtain ⟨text, htext, hkey⟩ := stringUnits_stringChars key (':' :: (j.chars ++ '\x7d' :: rest))
      rw [fieldChars, List.append_assoc, List.cons_append, htext, fields_last hkey hvalue]
  | @cons next _ fs _ hnext hs ih =>
      obtain ⟨key, j⟩ := f
      obtain ⟨_, x⟩ := g
      obtain ⟨rfl, h⟩ := h
      simp only [fieldChars_cons, List.length_append, List.length_cons] at hfuel
      obtain ⟨fuel, rfl⟩ : ∃ less, fuel = less + 1 := Nat.exists_eq_add_one_of_ne_zero (by omega)
      have hvalue := h (fuel + 1) (',' :: (fieldChars (next :: fs) ++ '\x7d' :: rest)) (by dsimp only; omega)
        closes_comma
      obtain ⟨text, htext, hkey⟩ := stringUnits_stringChars key
        (':' :: (j.chars ++ ',' :: (fieldChars (next :: fs) ++ '\x7d' :: rest)))
      rw [fieldChars_cons, List.append_assoc, List.append_assoc, List.cons_append, List.cons_append, htext,
        fields_comma hkey hvalue, ih hnext fuel (by omega)]
      rfl

/-- An object is spelled as its fields are. -/
theorem spells_obj {fs : List (String × Json)} {gs : List (List Nat × Spelling)} (hs : SpellsFields fs gs) :
    Spells (chars (obj fs)) (.obj gs) := by
  rintro (_ | fuel) rest hfuel -
  · exact nomatch hfuel
  rw [chars, List.cons_append, List.length_cons, List.length_append, List.length_singleton] at hfuel
  rw [chars, List.cons_append, List.cons_append, List.append_assoc, List.singleton_append]
  cases hs with
  | nil => rfl
  | @cons f _ fs _ h hs =>
      have hne : ∀ after, skipSpace (fieldChars (f :: fs) ++ '\x7d' :: rest) ≠ '\x7d' :: after := by
        obtain ⟨more, happend⟩ := fieldChars_append f fs ('\x7d' :: rest)
        rw [happend]
        exact nofun
      rw [value_brace hne, fields_fieldChars h hs (Nat.le_of_succ_le_succ hfuel)]
      rfl

/-- A text that spells something spells it as a whole. -/
theorem ofText?_of_spells {x : Spelling} (h : Spells text x) : Spelling.ofText? text = some x := by
  have hvalue := h (2 * text.length + 2) [] (by omega) nofun
  rw [List.append_nil] at hvalue
  rw [Spelling.ofText?, hvalue]
  rfl

end GuardedHeap.Json
