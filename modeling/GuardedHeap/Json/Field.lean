import GuardedHeap.Json.Basic
import GuardedHeap.Text.Numeral
import GuardedHeap.Word

/-! # JSON members — reading the parts of an object

    A number may be given as an integer or as text, decimal or after `0x`
    in base sixteen, so that every word can be written even where a reader
    of JSON keeps numbers in binary64.  A part that is missing or has the
    wrong shape is nothing; the `Or` readers put a default there. -/

namespace GuardedHeap.Json

/-- The member of an object, `null` where there is none. -/
def member (j : Json) (key : String) : Json :=
  (j.field? key).getD null

/-- The word that a value is. -/
def word? : Json → Option Nat
  | int n => if 0 ≤ n ∧ n < Word.limit then some n.toNat else none
  | str s => (Text.prefixed? ['x'] s.toList).filter (· < Word.limit)
  | _ => none

/-- The signed word that a value is. -/
def signedWord? (j : Json) : Option Int :=
  let n? :=
    match j with
    | int n => some n
    | str s => Text.signedPrefixed? ['x'] s.toList
    | _ => none
  n?.filter fun n => -Word.signLimit ≤ n ∧ n < Word.signLimit

/-- The text that a value is. -/
def text? : Json → Option String
  | str s => some s
  | _ => none

/-- The items of an array, none for another value. -/
def items : Json → List Json
  | arr xs => xs
  | _ => []

/-- The word in a member, or `n`. -/
def wordOr (n : Nat) (j : Json) (key : String) : Nat :=
  (j.member key).word?.getD n

/-- The word in a member, or zero. -/
def word (j : Json) (key : String) : Nat :=
  j.wordOr 0 key

/-- The low half of the word in a member. -/
def halfWord (j : Json) (key : String) : Nat :=
  j.word key % Word.halfLimit

/-- The low byte of the word in a member. -/
def byte (j : Json) (key : String) : UInt8 :=
  UInt8.ofNat (j.word key)

/-- The signed word in a member, or `n`. -/
def signedWordOr (n : Int) (j : Json) (key : String) : Int :=
  (j.member key).signedWord?.getD n

/-- The low half of the signed word in a member, or of `n`. -/
def signedHalfOr (n : Int) (j : Json) (key : String) : Int :=
  (j.signedWordOr n key).bmod Word.halfLimit

/-- The truth value in a member, or `b`. -/
def flagOr (b : Bool) (j : Json) (key : String) : Bool :=
  match j.member key with
  | bool c => c
  | _ => b

/-- The truth value in a member, or `false`. -/
def flag (j : Json) (key : String) : Bool :=
  j.flagOr false key

/-- The text in a member, or the empty one. -/
def text (j : Json) (key : String) : String :=
  (j.member key).text?.getD ""

/-- The items of the array in a member. -/
def list (j : Json) (key : String) : List Json :=
  (j.member key).items

end GuardedHeap.Json
