import GuardedHeap.Json.Basic

/-! # Exact JSON — integers for readers that keep numbers in binary64

    Up to `2 ^ 53 - 1` binary64 tells neighbouring integers apart.  Beyond
    that an integer is written as decimal text. -/

namespace GuardedHeap.Json

/-- The largest integer that binary64 tells from both its neighbours. -/
def exactLimit : Int := 9007199254740991

mutual

/-- A value with all its large integers written as text. -/
def exact : Json → Json
  | int n => if n > exactLimit ∨ n < -exactLimit then str (toString n) else int n
  | arr xs => arr (exactItems xs)
  | obj fs => obj (exactFields fs)
  | j => j

/-- The items of an array with all their large integers written as text. -/
def exactItems : List Json → List Json
  | [] => []
  | x :: xs => exact x :: exactItems xs

/-- The members of an object with all their large integers written as text. -/
def exactFields : List (String × Json) → List (String × Json)
  | [] => []
  | (key, x) :: fs => (key, exact x) :: exactFields fs

end

end GuardedHeap.Json
