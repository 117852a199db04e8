/-! # JSON values

    A number is an integer of the 64-bit ranges or a binary64 number; the
    two never mix.  The members of an object are sorted by key, and a key
    occurs once. -/

namespace GuardedHeap

/-- A JSON value. -/
inductive Json where
  | null
  | bool (value : Bool)
  | int (value : Int)
  | float (value : Float)
  | str (value : String)
  | arr (items : List Json)
  | obj (fields : List (String × Json))
  deriving Inhabited

namespace Json

/-- The members with `key` set to `value`, sorted if they were. -/
def insertField (key : String) (value : Json) : List (String × Json) → List (String × Json)
  | [] => [(key, value)]
  | (k, v) :: rest =>
    if key < k then (key, value) :: (k, v) :: rest
    else if key = k then (key, value) :: rest
    else (k, v) :: insertField key value rest

/-- The object with these members; of two with one key the later one counts. -/
def object (fields : List (String × Json)) : Json :=
  obj (fields.foldl (fun sorted f => insertField f.1 f.2 sorted) [])

/-- A natural number as a value. -/
def nat (n : Nat) : Json :=
  int n

/-- `null` for nothing. -/
def option {α : Type} (toJson : α → Json) : Option α → Json
  | none => null
  | some a => toJson a

/-- The member of an object, if there is one. -/
def field? (key : String) : Json → Option Json
  | obj fields => fields.lookup key
  | _ => none

end Json

end GuardedHeap
