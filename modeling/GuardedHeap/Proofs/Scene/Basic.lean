import GuardedHeap.Chunk
import GuardedHeap.Quarantine
import Mathlib.Data.Multiset.Bind
import Mathlib.Data.Set.Lattice
import Mathlib.Order.BourbakiWitt
import Mathlib.Order.CompletePartialOrder
import Mathlib.Order.Interval.Set.Basic

/-! # Scenes — a heap and its holders as sets of blocks

    A heap is a tree of tables; what the theorems about it speak of is less.
    A `Scene` is that: the blocks with their records, which bytes can be
    accessed, what every byte holds, and who holds the blocks that no user
    has — the free lists and caches (`idle`), the quarantine (`waiting`)
    and the fake stacks (`backing`, with the bytes of `claimed` frames).

    Everything that an operation does to a scene is a chain of the few
    `Move`s below.  A move has a list of `Deed`s: what of it the user can
    know.  Moves in which a call of the operating system failed, or a user
    marked the shadow by hand, are there only when the parameters `failing`
    and `marked` allow them. -/

namespace GuardedHeap

/-- A block as it is seen from outside. -/
structure Block where
  begin : Nat
  size : Nat
  kind : BlockClass
  record : ChunkRecord
  deriving DecidableEq

namespace Block

/-- The address after the block. -/
def past (b : Block) : Nat :=
  b.begin + b.size

/-- The addresses of the block. -/
def extent (b : Block) : Set Nat :=
  Set.Ico b.begin b.past

/-- The addresses that the user got, as the record has them. -/
def user (b : Block) : Set Nat :=
  Set.Ico b.record.userBegin (b.record.userBegin + b.record.requestedSize)

/-- The block with another record. -/
def withRecord (b : Block) (r : ChunkRecord) : Block :=
  { b with record := r }

/-- A block that was never handed out. -/
def blank (begin size : Nat) (kind : BlockClass) : Block :=
  { begin, size, kind, record := {} }

/-- The block as it waits in the quarantine. -/
def entry (b : Block) : Quarantine.Entry where
  block := b.begin
  user := b.record.userBegin
  size := b.size

/-- The record tells of a piece in the block. -/
structure Fits (b : Block) : Prop where
  actual : b.record.actualSize = b.size
  begin_le : b.begin ≤ b.record.userBegin
  lt_past : b.record.userBegin + b.record.requestedSize < b.past

@[simp] theorem extent_withRecord (b : Block) (r : ChunkRecord) :
    (b.withRecord r).extent = b.extent := rfl

@[simp] theorem begin_withRecord (b : Block) (r : ChunkRecord) :
    (b.withRecord r).begin = b.begin := rfl

@[simp] theorem size_withRecord (b : Block) (r : ChunkRecord) :
    (b.withRecord r).size = b.size := rfl

@[simp] theorem kind_withRecord (b : Block) (r : ChunkRecord) :
    (b.withRecord r).kind = b.kind := rfl

@[simp] theorem record_withRecord (b : Block) (r : ChunkRecord) :
    (b.withRecord r).record = r := rfl

@[simp] theorem record_blank (begin size : Nat) (kind : BlockClass) :
    (blank begin size kind).record = {} := rfl

theorem begin_mem_extent {b : Block} (h : 0 < b.size) : b.begin ∈ b.extent :=
  ⟨Nat.le_refl _, Nat.lt_add_of_pos_right h⟩

/-- The user's bytes lie in the block. -/
theorem Fits.user_subset {b : Block} (h : b.Fits) : b.user ⊆ b.extent :=
  fun _ ha => ⟨Nat.le_trans h.begin_le ha.1, Nat.lt_trans ha.2 h.lt_past⟩

/-- The address that the user got lies in the block, even if it has no bytes. -/
theorem Fits.userBegin_mem {b : Block} (h : b.Fits) : b.record.userBegin ∈ b.extent :=
  ⟨h.begin_le, Nat.lt_of_le_of_lt (Nat.le_add_right _ _) h.lt_past⟩

end Block

/-- The contents with others on the `n` bytes at `lo`. -/
def overlay (lo n : Nat) (new old : Nat → UInt8) : Nat → UInt8 := fun a =>
  if lo ≤ a ∧ a < lo + n then new a else old a

/-- The set with `b'` in the place of `b`. -/
def exchange (blocks : Set Block) (b b' : Block) : Set Block :=
  insert b' (blocks \ {b})

theorem mem_exchange {blocks : Set Block} {b b' c : Block} :
    c ∈ exchange blocks b b' ↔ c = b' ∨ c ∈ blocks ∧ c ≠ b := by
  simp [exchange]

/-- A heap and its holders, seen from outside. -/
structure Scene where
  /-- The blocks that there are. -/
  blocks : Set Block
  /-- The bytes of blocks and mappings that can be accessed. -/
  opened : Set Nat
  /-- The byte at each address. -/
  bytes : Nat → UInt8
  /-- The free blocks of each kind. -/
  idle : BlockClass → Multiset Nat
  /-- The freed chunks that wait in the quarantine. -/
  waiting : Multiset Quarantine.Entry
  /-- The blocks of fake stacks. -/
  backing : Multiset Block
  /-- The bytes of claimed frames. -/
  claimed : Set Nat

/-- What a user can know of a move. -/
inductive Deed where
  /-- A block was handed out, with the contents of its user's bytes. -/
  | handOut (b : Block) (content : Nat → UInt8)
  /-- A chunk was freed. -/
  | retire (b : Block)
  /-- A freed chunk left the quarantine. -/
  | evict (e : Quarantine.Entry)
  /-- The `n` bytes at `lo` were written. -/
  | put (lo n : Nat) (content : Nat → UInt8)
  /-- After a failure freed chunks wait no more, though nothing was done with them. -/
  | lose (es : Multiset Quarantine.Entry)

namespace Scene

/-- The bytes that users have. -/
def used (s : Scene) : Set Nat :=
  {a | ∃ b ∈ s.blocks, b.record.state = .allocated ∧ a ∈ b.user}

/-! ## Moves -/

/-- More blocks: carved, or mapped. -/
def grow (s : Scene) (k : BlockClass) (size : Nat) (fresh : Multiset Nat) : Scene :=
  { s with
    blocks := s.blocks ∪ {b | ∃ p ∈ fresh, b = Block.blank p size k}
    idle := Function.update s.idle k (s.idle k + fresh) }

/-- A free block goes to a user. -/
def handOut (s : Scene) (b : Block) (r : ChunkRecord) (content : Nat → UInt8) : Scene :=
  { s with
    blocks := exchange s.blocks b (b.withRecord r)
    opened := s.opened \ b.extent ∪ (b.withRecord r).user
    bytes := overlay r.userBegin r.requestedSize content s.bytes
    idle := Function.update s.idle b.kind ((s.idle b.kind).erase b.begin) }

/-- A user's block goes to the quarantine. -/
def retire (s : Scene) (b b' : Block) : Scene :=
  { s with
    blocks := exchange s.blocks b b'
    opened := s.opened \ b.extent
    waiting := b'.entry ::ₘ s.waiting }

/-- A block leaves the quarantine. -/
def evict (s : Scene) (e : Quarantine.Entry) (b : Block) : Scene :=
  { s with
    blocks := exchange s.blocks b (b.withRecord b.record.recycle)
    idle := Function.update s.idle b.kind (b.begin ::ₘ s.idle b.kind)
    waiting := s.waiting.erase e }

/-- A free large block is unmapped with the bytes `gone`. -/
def drop (s : Scene) (b : Block) (gone : Set Nat) (bytes : Nat → UInt8) : Scene :=
  { s with
    blocks := s.blocks \ {b}
    opened := s.opened \ gone
    bytes
    idle := Function.update s.idle .large ((s.idle .large).erase b.begin) }

/-- A free large block becomes that of a fake stack. -/
def back (s : Scene) (b : Block) : Scene :=
  { s with
    opened := s.opened \ b.extent
    idle := Function.update s.idle .large ((s.idle .large).erase b.begin)
    backing := b ::ₘ s.backing }

/-- The block of a fake stack is unmapped with the bytes `gone`. -/
def unback (s : Scene) (b : Block) (gone : Set Nat) (bytes : Nat → UInt8) : Scene :=
  { s with
    blocks := s.blocks \ {b}
    opened := s.opened \ gone
    bytes
    backing := s.backing.erase b
    claimed := s.claimed \ gone }

/-- Frames are given back, and frames are claimed. -/
def reframe (s : Scene) (freed taken : Set Nat) : Scene :=
  { s with
    opened := s.opened \ freed ∪ taken
    claimed := s.claimed \ freed ∪ taken }

/-- Bytes are written. -/
def put (s : Scene) (lo n : Nat) (content : Nat → UInt8) : Scene :=
  { s with bytes := overlay lo n content s.bytes }

end Scene

/-- One thing that can happen to a scene, with what the user can know of it. -/
inductive Move (failing marked : Prop) : Scene → List Deed → Scene → Prop where
  | grow {s : Scene} (k : BlockClass) (size : Nat) (fresh : Multiset Nat) (hsize : 0 < size)
      (hnodup : fresh.Nodup)
      (hold : ∀ p ∈ fresh, ∀ b ∈ s.blocks, Disjoint b.extent (Block.blank p size k).extent)
      (hnew : ∀ p ∈ fresh, ∀ q ∈ fresh, p ≠ q →
        Disjoint (Block.blank p size k).extent (Block.blank q size k).extent) :
      Move failing marked s [] (s.grow k size fresh)
  | handOut {s : Scene} (b : Block) (r : ChunkRecord) (content : Nat → UInt8)
      (hb : b ∈ s.blocks) (hidle : b.begin ∈ s.idle b.kind) (hstate : r.state = .allocated)
      (hfits : (b.withRecord r).Fits) :
      Move failing marked s [.handOut (b.withRecord r) content] (s.handOut b r content)
  | retire {s : Scene} (b : Block) (freed : Origin) (hb : b ∈ s.blocks)
      (hstate : b.record.state = .allocated) :
      Move failing marked s
        [.retire (b.withRecord { b.record with state := .quarantined, freed })]
        (s.retire b (b.withRecord { b.record with state := .quarantined, freed }))
  | evict {s : Scene} (b : Block) (hb : b ∈ s.blocks) (hentry : b.entry ∈ s.waiting) :
      Move failing marked s [.evict b.entry] (s.evict b.entry b)
  | drop {s : Scene} (b : Block) (gone : Set Nat) (bytes : Nat → UInt8) (hb : b ∈ s.blocks)
      (hidle : b.begin ∈ s.idle .large) (hgone : ∀ c ∈ s.blocks, c ≠ b → Disjoint c.extent gone)
      (hbytes : ∀ a, a ∉ gone → bytes a = s.bytes a) :
      Move failing marked s [] (s.drop b gone bytes)
  | back {s : Scene} (b : Block) (hb : b ∈ s.blocks) (hidle : b.begin ∈ s.idle .large) :
      Move failing marked s [] (s.back b)
  | unback {s : Scene} (b : Block) (gone : Set Nat) (bytes : Nat → UInt8) (hb : b ∈ s.backing)
      (hgone : ∀ c ∈ s.blocks, c ≠ b → Disjoint c.extent gone) (hall : b.extent ⊆ gone)
      (hbytes : ∀ a, a ∉ gone → bytes a = s.bytes a) :
      Move failing marked s [] (s.unback b gone bytes)
  | reframe {s : Scene} (b : Block) (freed taken : Set Nat) (hb : b ∈ s.backing)
      (hfreed : freed ⊆ b.extent) (htaken : taken ⊆ b.extent) :
      Move failing marked s [] (s.reframe freed taken)
  | put {s : Scene} (b : Block) (lo n : Nat) (content : Nat → UInt8) (hb : b ∈ s.blocks)
      (hstate : b.record.state = .allocated) (hin : Set.Ico lo (lo + n) ⊆ b.user) :
      Move failing marked s [.put lo n content] (s.put lo n content)
  /-- A user marked bytes by hand. -/
  | mark {s : Scene} (h : marked) (opened : Set Nat) :
      Move failing marked s [] { s with opened }
  /-- After a failure blocks are held by nobody. -/
  | lose {s : Scene} (h : failing) (idle : BlockClass → Multiset Nat)
      (waiting lost : Multiset Quarantine.Entry) (hidle : ∀ k, idle k ≤ s.idle k)
      (hwaiting : lost + waiting = s.waiting) :
      Move failing marked s [.lose lost] { s with idle, waiting }

/-- Moves one after the other, with all their deeds. -/
inductive Moves (failing marked : Prop) : Scene → List Deed → Scene → Prop where
  | none (s : Scene) : Moves failing marked s [] s
  | more {s t u : Scene} {ds es : List Deed} (first : Move failing marked s ds t)
      (rest : Moves failing marked t es u) : Moves failing marked s (ds ++ es) u

namespace Moves

variable {failing marked : Prop} {s t u : Scene} {ds es : List Deed}

theorem one (h : Move failing marked s ds t) : Moves failing marked s ds t := by
  have := more h (none t)
  rwa [List.append_nil] at this

theorem trans (h : Moves failing marked s ds t) (h' : Moves failing marked t es u) :
    Moves failing marked s (ds ++ es) u := by
  induction h with
  | none => exact h'
  | more first _ ih =>
      rw [List.append_assoc]
      exact more first (ih h')

/-- Moves end where they are said to end. -/
theorem of_eq (h : Moves failing marked s ds t) (heq : t = u) : Moves failing marked s ds u :=
  heq ▸ h

end Moves

end GuardedHeap
