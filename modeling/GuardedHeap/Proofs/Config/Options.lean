import GuardedHeap.Config
import Mathlib.Data.List.Nodup
import GuardedHeap.Proofs.Text.Numeral

/-! # Options — what their values spell, and what setting them does

    An option has a kind, which tells what its values spell
    (`OptionKind.Spells`), and its place in a configuration (`options`).
    Reading a value gives what it spells (`OptionKind.read_eq_ok`), and
    setting an option changes its place and no other (`set_eq`,
    `get_put_of_ne`); a configuration is what its options are (`ext_get`). -/

namespace GuardedHeap

namespace Config

/-- What the values of an option can be. -/
inductive OptionKind where
  /-- A number below a limit. -/
  | unsigned (limit : Nat)
  /-- A signed number of 32 bits. -/
  | signed
  | flag

namespace OptionKind

/-- The values of the options of a kind. -/
def Carrier : OptionKind → Type
  | unsigned _ => Nat
  | signed => Int
  | flag => Bool

/-- The words for a truth value. -/
def words : Bool → List String
  | true => ["1", "true", "yes"]
  | false => ["0", "false", "no"]

/-- A text spells a value: a number in decimal or behind `0x` in hexadecimal, in any case and with any leading
    zeros; or a word for a truth value, in any case. -/
def Spells : (kind : OptionKind) → List Char → kind.Carrier → Prop
  | unsigned limit => fun cs (n : Nat) => Text.Unsigned ['x', 'X'] cs n ∧ n < limit
  | signed => fun cs (i : Int) => Text.Signed cs i ∧ -2147483648 ≤ i ∧ i < 2147483648
  | flag => fun cs (b : Bool) => String.ofList (cs.map Char.toLower) ∈ words b

/-- The value that a text spells. -/
def read : (kind : OptionKind) → (key value : String) → Except ConfigError kind.Carrier
  | unsigned limit, key, value => readNat limit key value
  | signed, key, value => readInt32 key value
  | flag, key, value => readBool key value

variable {kind : OptionKind} {key value : String}

theorem readNat_eq_ok {limit n : Nat} :
    readNat limit key value = .ok n ↔ Text.Unsigned ['x', 'X'] value.toList n ∧ n < limit := by
  have hmarks : ∀ mark ∈ ['x', 'X'], Text.digitValue? 10 mark = none :=
    List.forall_mem_cons.mpr ⟨rfl, List.forall_mem_singleton.mpr rfl⟩
  unfold readNat
  rw [← Text.prefixed?_eq_some hmarks]
  cases Text.prefixed? ['x', 'X'] value.toList with
  | none => exact ⟨nofun, fun h => nomatch h.1⟩
  | some m =>
      by_cases hm : m < limit
      · simp only [if_pos hm, Except.ok.injEq, Option.some.injEq]
        exact ⟨fun h => ⟨h, h ▸ hm⟩, And.left⟩
      · simp only [if_neg hm, Option.some.injEq]
        exact ⟨nofun, fun h => absurd (h.1 ▸ h.2) hm⟩

theorem readInt32_eq_ok {i : Int} :
    readInt32 key value = .ok i ↔ Text.Signed value.toList i ∧ -2147483648 ≤ i ∧ i < 2147483648 := by
  unfold readInt32
  rw [← Text.signed?_eq_some]
  cases Text.signed? 10 value.toList with
  | none => exact ⟨nofun, fun h => nomatch h.1⟩
  | some j =>
      by_cases hj : -2147483648 ≤ j ∧ j < 2147483648
      · simp only [if_pos hj, Except.ok.injEq, Option.some.injEq]
        exact ⟨fun h => ⟨h, h ▸ hj⟩, And.left⟩
      · simp only [if_neg hj, Option.some.injEq]
        exact ⟨nofun, fun h => absurd (h.1 ▸ h.2) hj⟩

theorem readBool_eq_ok {b : Bool} :
    readBool key value = .ok b ↔ String.ofList (value.toList.map Char.toLower) ∈ words b := by
  have hwords : ∀ {word yes one other : String},
      word ∈ [yes, one, other] ↔ word = yes ∨ word = one ∨ word = other := by
    simp
  have hapart : ∀ word ∈ words true, word ∉ words false := by decide
  unfold readBool
  generalize String.ofList (value.toList.map Char.toLower) = word
  simp only [← hwords]
  by_cases hyes : word ∈ words true
  · rw [if_pos (show word ∈ ["1", "true", "yes"] from hyes)]
    cases b with
    | true => exact iff_of_true rfl hyes
    | false => exact iff_of_false nofun (hapart word hyes)
  · rw [if_neg (show word ∉ ["1", "true", "yes"] from hyes)]
    by_cases hno : word ∈ words false
    · rw [if_pos (show word ∈ ["0", "false", "no"] from hno)]
      cases b with
      | true => exact iff_of_false nofun hyes
      | false => exact iff_of_true rfl hno
    · rw [if_neg (show word ∉ ["0", "false", "no"] from hno)]
      cases b with
      | true => exact iff_of_false nofun hyes
      | false => exact iff_of_false nofun hno

/-- What a text spells is read from it. -/
theorem read_eq_ok {v : kind.Carrier} : kind.read key value = .ok v ↔ kind.Spells value.toList v := by
  cases kind with
  | unsigned limit => exact readNat_eq_ok
  | signed => exact readInt32_eq_ok
  | flag => exact readBool_eq_ok

/-- Another text is an invalid value. -/
theorem read_eq_error {e : ConfigError} (h : kind.read key value = .error e) : e = .invalidValue key value := by
  cases kind with
  | unsigned limit =>
      change readNat limit key value = .error e at h
      unfold readNat at h
      split at h
      · split at h
        · cases h
        · exact (Except.error.inj h).symm
      · exact (Except.error.inj h).symm
  | signed =>
      change readInt32 key value = .error e at h
      unfold readInt32 at h
      split at h
      · split at h
        · cases h
        · exact (Except.error.inj h).symm
      · exact (Except.error.inj h).symm
  | flag =>
      change readBool key value = .error e at h
      unfold readBool at h
      dsimp only at h
      split at h
      · cases h
      · split at h
        · cases h
        · exact (Except.error.inj h).symm

/-- A text spells one value at most. -/
theorem Spells.unique {cs : List Char} {v w : kind.Carrier} (hv : kind.Spells cs v) (hw : kind.Spells cs w) :
    v = w := by
  rw [← String.toList_ofList (l := cs)] at hv hw
  have hread : kind.read "" (String.ofList cs) = .ok v := read_eq_ok.mpr hv
  exact Except.ok.inj (hread.symm.trans (read_eq_ok.mpr hw))

end OptionKind

/-- An option, and where a configuration has it. -/
structure Field where
  key : String
  kind : OptionKind
  get : Config → kind.Carrier
  put : Config → kind.Carrier → Config

/-- All options. -/
def options : List Field :=
  [⟨"redzone", .unsigned Word.limit, (·.redzone), fun c n => { c with redzone := n }⟩,
    ⟨"quarantine_size", .unsigned Word.limit, (·.quarantineSize), fun c n => { c with quarantineSize := n }⟩,
    ⟨"thread_quarantine_size", .unsigned Word.limit, (·.threadQuarantineSize),
      fun c n => { c with threadQuarantineSize := n }⟩,
    ⟨"max_malloc_fill_size", .unsigned Word.limit, (·.maxMallocFillSize),
      fun c n => { c with maxMallocFillSize := n }⟩,
    ⟨"malloc_fill_byte", .unsigned 256, (·.mallocFillByte), fun c n => { c with mallocFillByte := n }⟩,
    ⟨"alloc_dealloc_mismatch", .flag, (·.allocDeallocMismatch), fun c b => { c with allocDeallocMismatch := b }⟩,
    ⟨"allow_user_poisoning", .flag, (·.allowUserPoisoning), fun c b => { c with allowUserPoisoning := b }⟩,
    ⟨"halt_on_free_error", .flag, (·.haltOnFreeError), fun c b => { c with haltOnFreeError := b }⟩,
    ⟨"exitcode", .signed, (·.exitcode), fun c i => { c with exitcode := i }⟩,
    ⟨"use_fake_stack", .flag, (·.useFakeStack), fun c b => { c with useFakeStack := b }⟩,
    ⟨"fake_stack_size_log", .unsigned Word.halfLimit, (·.fakeStackSizeLog),
      fun c n => { c with fakeStackSizeLog := n }⟩,
    ⟨"malloc_context_size", .unsigned Word.limit, (·.mallocContextSize),
      fun c n => { c with mallocContextSize := n }⟩,
    ⟨"verbosity", .unsigned Word.halfLimit, (·.verbosity), fun c n => { c with verbosity := n }⟩,
    ⟨"region_size_log", .unsigned Word.halfLimit, (·.regionSizeLog), fun c n => { c with regionSizeLog := n }⟩,
    ⟨"secondary_space_log", .unsigned Word.halfLimit, (·.secondarySpaceLog),
      fun c n => { c with secondarySpaceLog := n }⟩,
    ⟨"compact_size_classes", .flag, (·.compactSizeClasses), fun c b => { c with compactSizeClasses := b }⟩]

variable {c d : Config} {f g : Field}

theorem keys_nodup : (options.map (·.key)).Nodup := by decide

/-- Options are told apart by their names. -/
theorem eq_of_key (hf : f ∈ options) (hg : g ∈ options) (h : f.key = g.key) : f = g :=
  List.inj_on_of_nodup_map keys_nodup hf hg h

/-- No name of an option has an equals sign. -/
theorem notMem_key (hf : f ∈ options) : '=' ∉ f.key.toList := by
  have hall : ∀ f ∈ options, '=' ∉ f.key.toList := by
    simp only [options, List.forall_mem_cons]
    decide
  exact hall f hf

theorem get_put (hf : f ∈ options) (v : f.kind.Carrier) : f.get (f.put c v) = v := by
  simp only [options, List.mem_cons, List.not_mem_nil, or_false] at hf
  rcases hf with rfl | rfl | rfl | rfl | rfl | rfl | rfl | rfl | rfl | rfl | rfl | rfl | rfl | rfl | rfl | rfl
  all_goals rfl

/-- Setting an option leaves the others as they are. -/
theorem get_put_of_ne (hf : f ∈ options) (hg : g ∈ options) (hne : g.key ≠ f.key) (v : f.kind.Carrier) :
    g.get (f.put c v) = g.get c := by
  simp only [options, List.mem_cons, List.not_mem_nil, or_false] at hf
  rcases hf with rfl | rfl | rfl | rfl | rfl | rfl | rfl | rfl | rfl | rfl | rfl | rfl | rfl | rfl | rfl | rfl
  all_goals
    simp only [options, List.mem_cons, List.not_mem_nil, or_false] at hg
    rcases hg with rfl | rfl | rfl | rfl | rfl | rfl | rfl | rfl | rfl | rfl | rfl | rfl | rfl | rfl | rfl | rfl
    all_goals first | rfl | exact absurd rfl hne

/-- Two configurations with the same options are the same. -/
theorem ext_get (h : ∀ f ∈ options, f.get c = f.get d) : c = d := by
  simp only [options, List.forall_mem_cons] at h
  obtain ⟨h₁, h₂, h₃, h₄, h₅, h₆, h₇, h₈, h₉, h₁₀, h₁₁, h₁₂, h₁₃, h₁₄, h₁₅, h₁₆, -⟩ := h
  cases c
  cases d
  congr 1

/-- Setting an option reads its value and puts it in its place. -/
theorem set_eq (hf : f ∈ options) (value : String) :
    c.set f.key value = (f.kind.read f.key value).map (f.put c) := by
  simp only [options, List.mem_cons, List.not_mem_nil, or_false] at hf
  rcases hf with rfl | rfl | rfl | rfl | rfl | rfl | rfl | rfl | rfl | rfl | rfl | rfl | rfl | rfl | rfl | rfl
  all_goals
    unfold OptionKind.read set
    dsimp only
    rfl

/-- There are no other options. -/
theorem set_of_unknown {key : String} (h : ∀ f ∈ options, f.key ≠ key) (value : String) :
    c.set key value = .error (.unknownOption key) := by
  simp only [options, List.forall_mem_cons] at h
  unfold set
  dsimp only
  split
  all_goals first | rfl | simp at h

end Config

end GuardedHeap
