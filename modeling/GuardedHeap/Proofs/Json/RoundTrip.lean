import GuardedHeap.Proofs.Json.Spelling
import Mathlib.Data.String.Basic
import Mathlib.Order.Basic

/-! # What is read from written JSON

    A value as programs hold it is `Plain`.  Its text spells something that
    means the value again (`Plain.exists_spelling`), by induction on what
    makes it plain: the depth that the reader has left is the one that the
    value still needs.  Nor does its text have control characters
    (`Plain.printable`), so it is one line. -/

namespace GuardedHeap.Json

open Spelling (itemsToJson? fieldsToJson?)

variable {depth : Nat}

/-! ## Values -/

/-- A value without binary64 numbers, as programs hold it: arrays and objects nest at most
    `depth` deep, integers fit 64 bits, and the members of an object are sorted by key. -/
inductive Plain : (depth : Nat) → Json → Prop where
  | null {depth : Nat} : Plain depth null
  | bool {depth : Nat} (b : Bool) : Plain depth (bool b)
  | int {depth : Nat} {k : Int} (hlo : -(Word.signLimit : Int) ≤ k) (hhi : k < Word.limit) : Plain depth (int k)
  | str {depth : Nat} (s : String) : Plain depth (str s)
  | arr {depth : Nat} {items : List Json} (h : ∀ j ∈ items, Plain depth j) : Plain (depth + 1) (arr items)
  | obj {depth : Nat} {fields : List (String × Json)} (hsorted : fields.Pairwise (·.1 < ·.1))
      (h : ∀ f ∈ fields, Plain depth f.2) : Plain (depth + 1) (obj fields)

/-- Characters are never halves of surrogate pairs. -/
theorem charsOfUnits?_map (cs : List Char) : charsOfUnits? (cs.map Char.toNat) = some cs := by
  have hchar : ∀ c : Char, c.toNat < 0xd800 ∨ 0xdfff < c.toNat := fun c =>
    c.valid.imp id And.left
  induction cs with
  | nil => rfl
  | cons c cs ih =>
      have hc := hchar c
      cases cs with
      | nil =>
          rw [List.map_cons, List.map_nil, charsOfUnits?, if_neg (by omega), Char.ofNat_toNat]
      | cons next cs =>
          rw [List.map_cons] at ih ⊢
          rw [List.map_cons, charsOfUnits?, if_neg (by omega), if_neg (by omega), ih, Char.ofNat_toNat]
          rfl

/-- A string is read back from its units. -/
theorem stringOfUnits?_units (s : String) : stringOfUnits? (units s) = some s := by
  rw [stringOfUnits?, units, charsOfUnits?_map, Option.map_some, String.ofList_toList]

/-- A number is read back from its digits. -/
theorem natOfDigits_digitsOf (n : Nat) : natOfDigits (digitsOf n) = n := by
  rw [natOfDigits, digitsOf, List.foldl_map]
  exact Nat.ofDigitChars_ten_toDigits

/-- A number in range is read back from its numeral. -/
theorem toJson?_intNumeral {k : Int} (hlo : -(Word.signLimit : Int) ≤ k) (hhi : k < Word.limit) :
    (intNumeral k).toJson? = some (int k) := by
  have hwhole : natOfDigits (intNumeral k).whole = k.natAbs := natOfDigits_digitsOf _
  unfold Numeral.toJson?
  rw [hwhole, if_neg (show ¬ (intNumeral k).isFloat = true from Bool.false_ne_true)]
  by_cases hneg : k < 0
  · rw [if_pos (show (intNumeral k).negative = true from decide_eq_true hneg), if_pos ⟨by omega, by omega⟩]
    congr 2
    omega
  · rw [if_neg (show ¬ (intNumeral k).negative = true by simpa [intNumeral] using hneg), if_pos (by omega)]
    congr 2
    omega

/-- A key that comes last is put last. -/
theorem insertField_of_lt {key : String} {value : Json} {fields : List (String × Json)}
    (h : ∀ f ∈ fields, f.1 < key) : insertField key value fields = fields ++ [(key, value)] := by
  induction fields with
  | nil => rfl
  | cons f fields ih =>
      obtain ⟨hf, h⟩ := List.forall_mem_cons.mp h
      rw [insertField, if_neg (lt_asymm hf), if_neg hf.ne', ih h]
      rfl

/-- Sorted members go one behind the other. -/
theorem foldl_insertField {sorted fields : List (String × Json)} (h : (sorted ++ fields).Pairwise (·.1 < ·.1)) :
    fields.foldl (fun sorted f => insertField f.1 f.2 sorted) sorted = sorted ++ fields := by
  induction fields generalizing sorted with
  | nil => exact (List.append_nil sorted).symm
  | cons f fields ih =>
      have hlast : ∀ g ∈ sorted, g.1 < f.1 := fun g hg =>
        (List.pairwise_append.mp h).2.2 g hg f List.mem_cons_self
      rw [List.append_cons] at h
      rw [List.foldl_cons, insertField_of_lt hlast, ih h, ← List.append_cons]

/-- Members that are sorted stay as they are. -/
theorem object_of_sorted {fields : List (String × Json)} (h : fields.Pairwise (·.1 < ·.1)) :
    object fields = obj fields :=
  congrArg obj (foldl_insertField (show ([] ++ fields).Pairwise _ from h))

/-- Items that are spelled and read back make a list that is. -/
theorem exists_itemSpellings {items : List Json}
    (h : ∀ j ∈ items, ∃ x, Spells j.chars x ∧ x.toJson? depth = some j) :
    ∃ xs, List.Forall₂ (fun j x => Spells j.chars x) items xs ∧ itemsToJson? xs depth = some items := by
  induction items with
  | nil => exact ⟨[], .nil, by rw [itemsToJson?]⟩
  | cons j items ih =>
      obtain ⟨⟨x, hx, hj⟩, h⟩ := List.forall_mem_cons.mp h
      obtain ⟨xs, hxs, hitems⟩ := ih h
      exact ⟨x :: xs, .cons hx hxs, by rw [itemsToJson?, hj, hitems]⟩

/-- Fields that are spelled and read back make an object that is. -/
theorem exists_fieldSpellings {fields : List (String × Json)}
    (h : ∀ f ∈ fields, ∃ x, Spells f.2.chars x ∧ x.toJson? depth = some f.2) :
    ∃ gs, SpellsFields fields gs ∧ fieldsToJson? gs depth = some fields := by
  induction fields with
  | nil => exact ⟨[], .nil, by rw [fieldsToJson?]⟩
  | cons f fields ih =>
      obtain ⟨⟨x, hx, hf⟩, h⟩ := List.forall_mem_cons.mp h
      obtain ⟨gs, hgs, hfields⟩ := ih h
      exact ⟨(units f.1, x) :: gs, .cons ⟨rfl, hx⟩ hgs,
        by rw [fieldsToJson?, stringOfUnits?_units, hf, hfields]⟩

/-- The text of a value spells the value. -/
theorem Plain.exists_spelling {j : Json} (h : Plain depth j) :
    ∃ x, Spells j.chars x ∧ x.toJson? depth = some j := by
  induction h with
  | null => exact ⟨.null, spells_null, by rw [Spelling.toJson?]⟩
  | bool b => exact ⟨.bool b, spells_bool b, by rw [Spelling.toJson?]⟩
  | @int depth k hlo hhi => exact ⟨_, spells_int k, by rw [Spelling.toJson?, toJson?_intNumeral hlo hhi]⟩
  | str s => exact ⟨_, spells_str s, by rw [Spelling.toJson?, stringOfUnits?_units, Option.map_some]⟩
  | arr _ ih =>
      obtain ⟨xs, hxs, hitems⟩ := exists_itemSpellings ih
      exact ⟨.arr xs, spells_arr hxs, by rw [Spelling.toJson?, hitems, Option.map_some]⟩
  | obj hsorted _ ih =>
      obtain ⟨gs, hgs, hfields⟩ := exists_fieldSpellings ih
      exact ⟨.obj gs, spells_obj hgs, by rw [Spelling.toJson?, hfields, Option.map_some, object_of_sorted hsorted]⟩

/-- A value is read from its text. -/
theorem Plain.parse?_print {j : Json} (h : Plain maxDepth j) : parse? j.print = some j := by
  obtain ⟨x, hx, hj⟩ := h.exists_spelling
  rw [parse?, print, String.toList_ofList, ofText?_of_spells hx]
  exact hj

/-! ## No control characters -/

/-- The text has no control characters. -/
def Printable (text : List Char) : Prop :=
  ∀ c ∈ text, 0x20 ≤ c.toNat

/-- A text is printable if all of its characters are. -/
theorem printable_of_all {text : List Char} (h : text.all (0x20 ≤ ·.toNat) = true) : Printable text :=
  fun c hc => of_decide_eq_true (List.all_eq_true.mp h c hc)

theorem printable_nil : Printable [] :=
  List.forall_mem_nil _

theorem Printable.append {text more : List Char} (h : Printable text) (hmore : Printable more) :
    Printable (text ++ more) :=
  List.forall_mem_append.mpr ⟨h, hmore⟩

theorem Printable.cons {c : Char} {text : List Char} (hc : 0x20 ≤ c.toNat) (h : Printable text) :
    Printable (c :: text) :=
  List.forall_mem_cons.mpr ⟨hc, h⟩

/-- No character is written with a control character. -/
theorem printable_escapeChar (c : Char) : Printable (escapeChar c) := by
  have hhex : ∀ n < 16, 0x20 ≤ (Text.hexDigit n).toNat := by decide
  have hletter : ∀ d : Char, 0x20 ≤ d.toNat → Printable ['\\', d] := fun d hd =>
    .cons (by decide) (.cons hd printable_nil)
  unfold escapeChar
  split_ifs with hquote hbackslash hfeed hreturn htab hback hform hcontrol
  any_goals exact hletter _ (by decide)
  · have hdigits : Printable [Text.hexDigit (c.toNat / 16), Text.hexDigit (c.toNat % 16)] :=
      .cons (hhex _ (by omega)) (.cons (hhex _ (by omega)) printable_nil)
    exact (hletter 'u' (by decide)).append (.cons (by decide) (.cons (by decide) hdigits))
  · exact .cons (Nat.not_lt.mp hcontrol) printable_nil

/-- No string is. -/
theorem printable_stringChars (s : String) : Printable (stringChars s) := by
  have hbody : Printable (s.toList.flatMap escapeChar) := fun c hc => by
    obtain ⟨d, -, hc⟩ := List.mem_flatMap.mp hc
    exact printable_escapeChar d c hc
  exact .append (.cons (by decide) hbody) (.cons (by decide) printable_nil)

/-- No number is. -/
theorem printable_intChars (k : Int) : Printable (intChars k) := by
  have hdigits : Printable (Nat.toDigits 10 k.natAbs) := fun c hc => by
    have hdigit := Char.isDigit_iff_toNat.mp (Nat.isDigit_of_mem_toDigits (by omega) (Nat.le_refl 10) hc)
    have hzero : '0'.toNat = 0x30 := rfl
    omega
  unfold intChars
  split
  · exact .cons (by decide) hdigits
  · exact hdigits

/-- Items that are printable make a printable list. -/
theorem printable_itemChars {items : List Json} (h : ∀ j ∈ items, Printable j.chars) :
    Printable (itemChars items) := by
  induction items with
  | nil => exact printable_nil
  | cons j items ih =>
      obtain ⟨hj, h⟩ := List.forall_mem_cons.mp h
      cases items with
      | nil => exact hj
      | cons next items =>
          rw [itemChars_cons]
          exact hj.append (.cons (by decide) (ih h))

/-- Fields that are printable make a printable object. -/
theorem printable_fieldChars {fields : List (String × Json)} (h : ∀ f ∈ fields, Printable f.2.chars) :
    Printable (fieldChars fields) := by
  induction fields with
  | nil => exact printable_nil
  | cons f fields ih =>
      obtain ⟨hf, h⟩ := List.forall_mem_cons.mp h
      have hfirst : Printable (stringChars f.1 ++ ':' :: f.2.chars) :=
        (printable_stringChars f.1).append (.cons (by decide) hf)
      cases fields with
      | nil => exact hfirst
      | cons next fields =>
          rw [fieldChars_cons]
          exact hfirst.append (.cons (by decide) (ih h))

/-- The text of an object has no control characters if those of its members have none. -/
theorem printable_obj {fields : List (String × Json)} (h : ∀ f ∈ fields, Printable f.2.chars) :
    Printable (chars (obj fields)) := by
  rw [chars]
  exact (Printable.cons (by decide) (printable_fieldChars h)).append (.cons (by decide) printable_nil)

/-- The text of a value is one line. -/
theorem Plain.printable {j : Json} (h : Plain depth j) : Printable j.chars := by
  induction h with
  | null => exact printable_of_all rfl
  | bool b => cases b <;> exact printable_of_all rfl
  | @int depth k _ _ => exact printable_intChars k
  | str s => exact printable_stringChars s
  | arr _ ih =>
      rw [chars]
      exact (Printable.cons (by decide) (printable_itemChars ih)).append (.cons (by decide) printable_nil)
  | obj _ _ ih => exact printable_obj ih

end GuardedHeap.Json
