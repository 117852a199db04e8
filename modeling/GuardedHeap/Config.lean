import GuardedHeap.EventLog.Entry
import GuardedHeap.SizeClass
import GuardedHeap.Text.Blank
import GuardedHeap.Text.Numeral

/-! # Configuration — the options of a heap and their language

    Options are tokens `key=value`, separated by colons, commas and white
    space.  A number is decimal or, behind `0x`, hexadecimal; a truth value
    is `0/1/true/false/yes/no` in any case.  Of several tokens with one key
    the last one counts.  The first token that is wrong in itself is
    reported; ranges are checked only after all tokens were read. -/

namespace GuardedHeap

/-- A configuration is wrong. -/
inductive ConfigError where
  | unknownOption (key : String)
  | invalidValue (key value : String)
  | malformed (token : String)
  | invalidRedzone (size : Nat)
  | outOfRange (key : String) (value min max : Nat)
  deriving DecidableEq, Repr

/-- The wording of a configuration error. -/
def ConfigError.message : ConfigError → String
  | .unknownOption key => "unknown option '" ++ key ++ "'"
  | .invalidValue key value => "option '" ++ key ++ "' has invalid value '" ++ value ++ "'"
  | .malformed token => "malformed option '" ++ token ++ "' (expected key=value)"
  | .invalidRedzone size => s!"redzone {size} must be a power of two in 32..=2048"
  | .outOfRange key value min max => "option '" ++ key ++ s!"' = {value} outside {min}..={max}"

/-- How chunks are guarded. -/
structure RedzoneOptions where
  /-- The least number of poisoned bytes on either side of a chunk. -/
  redzone : Nat := 128
  /-- How many leading bytes of a fresh chunk are filled. -/
  maxMallocFillSize : Nat := 0
  /-- What they are filled with. -/
  mallocFillByte : Nat := 0xbe
  /-- A chunk must be freed by the family of calls that allocated it. -/
  allocDeallocMismatch : Bool := true
  /-- A wrong free ends the process. -/
  haltOnFreeError : Bool := true
  deriving DecidableEq, Repr

/-- The options of a heap. -/
structure Config where
  redzone : Nat := 128
  quarantineSize : Nat := 0x10000000
  threadQuarantineSize : Nat := 0x100000
  maxMallocFillSize : Nat := 0
  mallocFillByte : Nat := 0xbe
  allocDeallocMismatch : Bool := true
  allowUserPoisoning : Bool := true
  haltOnFreeError : Bool := true
  exitcode : Int := 1
  useFakeStack : Bool := true
  fakeStackSizeLog : Nat := 18
  mallocContextSize : Nat := 30
  verbosity : Nat := 0
  regionSizeLog : Nat := 32
  secondarySpaceLog : Nat := 36
  compactSizeClasses : Bool := false
  deriving DecidableEq, Repr

namespace Config

/-! ## Values -/

/-- The number below `limit` that a value spells. -/
def readNat (limit : Nat) (key value : String) : Except ConfigError Nat :=
  match Text.prefixed? ['x', 'X'] value.toList with
  | some n => if n < limit then .ok n else .error (.invalidValue key value)
  | none => .error (.invalidValue key value)

/-- The signed 32-bit number that a value spells. -/
def readInt32 (key value : String) : Except ConfigError Int :=
  match Text.signed? 10 value.toList with
  | some n => if -2147483648 ≤ n ∧ n < 2147483648 then .ok n else .error (.invalidValue key value)
  | none => .error (.invalidValue key value)

/-- The truth value that a value spells. -/
def readBool (key value : String) : Except ConfigError Bool :=
  let word := String.ofList (value.toList.map Char.toLower)
  if word = "1" ∨ word = "true" ∨ word = "yes" then .ok true
  else if word = "0" ∨ word = "false" ∨ word = "no" then .ok false
  else .error (.invalidValue key value)

/-- The configuration with the option `key` set to what `value` spells. -/
def set (c : Config) (key value : String) : Except ConfigError Config := do
  let word := readNat Word.limit key value
  let half := readNat Word.halfLimit key value
  let flag := readBool key value
  match key with
  | "redzone" => return { c with redzone := ← word }
  | "quarantine_size" => return { c with quarantineSize := ← word }
  | "thread_quarantine_size" => return { c with threadQuarantineSize := ← word }
  | "max_malloc_fill_size" => return { c with maxMallocFillSize := ← word }
  | "malloc_fill_byte" => return { c with mallocFillByte := ← readNat 256 key value }
  | "alloc_dealloc_mismatch" => return { c with allocDeallocMismatch := ← flag }
  | "allow_user_poisoning" => return { c with allowUserPoisoning := ← flag }
  | "halt_on_free_error" => return { c with haltOnFreeError := ← flag }
  | "exitcode" => return { c with exitcode := ← readInt32 key value }
  | "use_fake_stack" => return { c with useFakeStack := ← flag }
  | "fake_stack_size_log" => return { c with fakeStackSizeLog := ← half }
  | "malloc_context_size" => return { c with mallocContextSize := ← word }
  | "verbosity" => return { c with verbosity := ← half }
  | "region_size_log" => return { c with regionSizeLog := ← half }
  | "secondary_space_log" => return { c with secondarySpaceLog := ← half }
  | "compact_size_classes" => return { c with compactSizeClasses := ← flag }
  | _ => .error (.unknownOption key)

/-! ## Tokens -/

/-- The character separates tokens. -/
def isSeparator (c : Char) : Bool :=
  c == ':' || c == ',' || Text.isBlank c

/-- The longest pieces of a text without separators. -/
def tokens : List Char → List (List Char)
  | [] => []
  | c :: rest =>
    if isSeparator c then tokens rest
    else
      match rest with
      | [] => [[c]]
      | d :: _ =>
        if isSeparator d then [c] :: tokens rest
        else
          match tokens rest with
          | [] => [[c]]
          | t :: ts => (c :: t) :: ts

/-- The parts of a token before and behind its first equals sign. -/
def splitToken : List Char → Option (List Char × List Char)
  | [] => none
  | c :: rest =>
    if c = '=' then some ([], rest)
    else (splitToken rest).map fun (key, value) => (c :: key, value)

/-- The configuration with one token applied. -/
def applyToken (c : Config) (token : List Char) : Except ConfigError Config :=
  match splitToken token with
  | none => .error (.malformed (String.ofList token))
  | some (key, value) => c.set (String.ofList key) (String.ofList value)

/-- The configuration with tokens applied up to the first wrong one, and what is wrong with
    that one. -/
def applyTokens (c : Config) : List (List Char) → Config × Option ConfigError
  | [] => (c, none)
  | t :: ts =>
    match c.applyToken t with
    | .ok c => c.applyTokens ts
    | .error e => (c, some e)

/-- The configuration with the options of a text applied. -/
def apply (c : Config) (options : String) : Config × Option ConfigError :=
  c.applyTokens (tokens options.toList)

/-! ## Ranges -/

/-- The greatest number of frames that a stack trace may ask for. -/
def maxContextSize : Nat := 30

/-- The options that must lie in a range: name, value and range. -/
def ranges (c : Config) : List (String × Nat × Nat × Nat) :=
  [("fake_stack_size_log", c.fakeStackSizeLog, 16, 28),
    ("malloc_context_size", c.mallocContextSize, 0, maxContextSize),
    ("region_size_log", c.regionSizeLog, 20, 36),
    ("secondary_space_log", c.secondarySpaceLog, 24, 40)]

/-- The first range that its value leaves. -/
def checkRanges : List (String × Nat × Nat × Nat) → Except ConfigError Unit
  | [] => .ok ()
  | (key, value, min, max) :: rest =>
    if min ≤ value ∧ value ≤ max then checkRanges rest
    else .error (.outOfRange key value min max)

/-- A valid configuration has a redzone that is a power of two from 32 to 2048, and its other
    limited options lie in their ranges. -/
def validate (c : Config) : Except ConfigError Unit :=
  if Word.isPowerOfTwo c.redzone ∧ 32 ≤ c.redzone ∧ c.redzone ≤ 2048 then checkRanges c.ranges
  else .error (.invalidRedzone c.redzone)

/-- The valid configuration that a text describes, starting from the defaults. -/
def parse (options : String) : Except ConfigError Config :=
  match ({} : Config).apply options with
  | (_, some e) => .error e
  | (c, none) => c.validate.map fun _ => c

/-! ## Views -/

/-- The size classes that are asked for. -/
def sizeClasses (c : Config) : SizeClasses :=
  if c.compactSizeClasses then SizeClasses.compact else SizeClasses.default

/-- The options about guarding. -/
def redzoneOptions (c : Config) : RedzoneOptions where
  redzone := c.redzone
  maxMallocFillSize := c.maxMallocFillSize
  mallocFillByte := c.mallocFillByte
  allocDeallocMismatch := c.allocDeallocMismatch
  haltOnFreeError := c.haltOnFreeError

/-- The least level that is logged. -/
def logThreshold (c : Config) : EventLog.Level :=
  EventLog.Level.ofVerbosity c.verbosity

/-- The options as JSON, named as in the option text. -/
def toJson (c : Config) : Json :=
  .object
    [("redzone", .nat c.redzone), ("quarantine_size", .nat c.quarantineSize),
      ("thread_quarantine_size", .nat c.threadQuarantineSize),
      ("max_malloc_fill_size", .nat c.maxMallocFillSize),
      ("malloc_fill_byte", .nat c.mallocFillByte),
      ("alloc_dealloc_mismatch", .bool c.allocDeallocMismatch),
      ("allow_user_poisoning", .bool c.allowUserPoisoning),
      ("halt_on_free_error", .bool c.haltOnFreeError), ("exitcode", .int c.exitcode),
      ("use_fake_stack", .bool c.useFakeStack), ("fake_stack_size_log", .nat c.fakeStackSizeLog),
      ("malloc_context_size", .nat c.mallocContextSize), ("verbosity", .nat c.verbosity),
      ("region_size_log", .nat c.regionSizeLog),
      ("secondary_space_log", .nat c.secondarySpaceLog),
      ("compact_size_classes", .bool c.compactSizeClasses)]

end Config

end GuardedHeap
