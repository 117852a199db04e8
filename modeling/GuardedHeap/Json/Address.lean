import GuardedHeap.Json.Field

/-! # Addresses in JSON — a base and an offset

    An address is a number, or text that gives a base and, behind a plus or
    a minus sign, an offset.  The base is a number, too, or a name whose
    address the reader knows.  What is unknown counts as zero, and the sum
    stays a word. -/

namespace GuardedHeap.Json

/-- A character that divides an offset from its base. -/
def isOffsetSign (c : Char) : Bool :=
  c == '+' || c == '-'

/-- The address that a text gives, when `names` tells the address of a name. -/
def addressOfText (names : String → Option Nat) (text : String) : Nat :=
  let number? (cs : List Char) : Option Nat := (str (String.ofList cs)).word?
  let base := text.toList.takeWhile (!isOffsetSign ·)
  let start := ((number? base).or (names (String.ofList base))).getD 0
  match text.toList.drop base.length with
  | '+' :: offset => Word.wrapAdd start ((number? offset).getD 0)
  | '-' :: offset => Word.wrapSub start ((number? offset).getD 0)
  | _ => start

/-- The address that a value gives, when `names` tells the address of a name. -/
def address (names : String → Option Nat) : Json → Nat
  | str text => addressOfText names text
  | j => j.word?.getD 0

/-- The number in a name such as `p7`, behind its letter. -/
def numbered? (letter : Char) (name : String) : Option Nat :=
  match name.toList with
  | c :: digits => if c = letter then Text.someDigitsValue? 10 digits else none
  | [] => none

end GuardedHeap.Json
