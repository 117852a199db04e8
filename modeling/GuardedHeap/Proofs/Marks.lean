import GuardedHeap.Proofs.FakeStack
import GuardedHeap.Proofs.Guard

/-! # Marks — the shadow bytes that tell the state of a chunk

    The block of a chunk that a user has is guarded, that of a freed one is
    marked as freed, and there is always a granule behind the user's bytes
    (`Block.Guarded`).  An allocation and a free see to it for their own
    chunk (`Redzone.guarded_allocate`, `Redzone.guarded_free`); all other
    steps leave the shadow of the chunks alone that stay
    (`Heap.Guarded.kept`), also those that fail. -/

namespace GuardedHeap

open Act
open Quarantine (Entry)

namespace Block

/-- The shadow byte that an address in the block of a chunk has. -/
def marks (b : Block) (a : Nat) : UInt8 :=
  if b.record.state = .quarantined then Shadow.Magic.heapFreed.byte
  else Shadow.guardCode b.record.userBegin b.record.requestedSize a

/-- The chunk has a granule behind it in its block, and wears the marks of its state. -/
structure Guarded (b : Block) (shadow : Shadow) : Prop where
  user_dvd : Shadow.granule ∣ b.record.userBegin
  room : b.record.userBegin + b.record.requestedSize + Shadow.granule ≤ b.past
  code : ∀ a ∈ b.extent, shadow.code a = b.marks a

end Block

namespace Heap

variable {h t : Heap}

/-- All chunks wear the marks of their states. -/
def Guarded (h : Heap) : Prop :=
  ∀ b ∈ h.chunks, b.Guarded h.shadow

/-- The chunks stay guarded where none comes and no mark of those that stay changes. -/
theorem Guarded.kept (hguarded : h.Guarded)
    (hchunks : ∀ b ∈ t.chunks, b ∈ h.chunks ∧ ∀ a ∈ b.extent, t.shadow.code a = h.shadow.code a) :
    t.Guarded := by
  intro b hb
  obtain ⟨hold, hcode⟩ := hchunks b hb
  exact { hguarded b hold with
    code := fun a ha => (hcode a ha).trans ((hguarded b hold).code a ha) }

/-- Unmapping marks nothing. -/
theorem fixes_freeLarge (p : Nat) : Fixes (·.shadow) (freeLarge p) := by
  have hmodify : ∀ f : Large → Large, Fixes (·.shadow) (modifyLarge f) := fun _ =>
    fixes_modify fun _ => rfl
  refine fixes_get_bind fun h => (fixes_orRefuse.bind fun b => ?_) h
  refine (hmodify _).bind fun _ => Fixes.bind ?_ fun _ => hmodify _
  exact Fixes.mapError (fixes_onPart fun _ _ => rfl)

end Heap

namespace Redzone

open Heap (Session)

variable {failing marked : Prop} {o : RedzoneOptions} {s t : Session} {h heap : Heap} {f : Freed}
  {p size alignment user : Nat} {api : Api} {origin : Origin} {e : Entry} {holders : Holders}

/-- An allocation guards its chunk. -/
theorem guarded_allocate (ho : o.Valid) (hwf : s.WF)
    (hsound : Scene.Sound failing marked (s.scene holders))
    (hact : allocate o size alignment api origin s = .ok user t) (hguarded : s.heap.Guarded) :
    t.heap.Guarded := by
  obtain ⟨hgranule, hdvd, b, hb, hrecord, -, hroom, hcode, hothers⟩ :=
    allocate_spec ho hwf hsound hact
  obtain ⟨c, content, hsame, -, hgoes⟩ :=
    (ends_allocate ho hwf hsound size alignment api origin).of_ok hact
  have hchunks : t.heap.chunks = insert c s.heap.chunks := hsound.chunks_moves hgoes.moves
  have hlive : b ∈ t.heap.chunks := ⟨hb, by rw [hrecord]; exact nofun⟩
  have hnew : c ∈ t.heap.chunks := hchunks ▸ Set.mem_insert _ _
  obtain rfl : b = c := (hsound.moves hgoes.moves).chunk_unique hlive hnew (by rw [hrecord, hsame]; rfl)
  intro d hd
  rw [hchunks] at hd
  rcases hd with rfl | hd
  · have hmarks : ∀ a, d.marks a = Shadow.guardCode user size a := fun a => by
      unfold Block.marks
      rw [hrecord]
      exact if_neg nofun
    have hge := ho.granule_le
    refine ⟨?_, ?_, fun a ha => (hcode a ha).trans (hmarks a).symm⟩ <;> rw [hrecord]
    · exact Nat.dvd_trans hgranule hdvd
    · show user + size + Shadow.granule ≤ d.past
      omega
  · exact { hguarded d hd with
      code := fun a ha => ((hothers d hd).2 a ha).trans ((hguarded d hd).code a ha) }

/-- A free marks the block of its chunk, and no other. -/
theorem free_spec (hwf : h.WF) (hfits : ∀ b ∈ h.blocks, b.record.state ≠ .recycled → b.Fits)
    (hact : free o p api origin h = .ok (some f) heap) :
    ∃ b ∈ h.blocks, b.record.state = .allocated ∧ f.entry = b.entry
      ∧ heap.blocks = exchange h.blocks b
        (b.withRecord { b.record with state := .quarantined, freed := origin })
      ∧ (∀ a ∈ b.extent, heap.shadow.code a = Shadow.Magic.heapFreed.byte)
      ∧ ∀ c ∈ h.blocks, c ≠ b → ∀ a ∈ c.extent, heap.shadow.code a = h.shadow.code a := by
  rcases (ends_free (o := o) hwf hfits p api origin).of_ok hact with ⟨-, hnone, -⟩
    | ⟨-, b, hb, -, hstate, -, ⟨f', hf, hentry, -⟩, ⟨set, hset, rfl⟩, hbecomes⟩
  · exact nomatch hnone
  obtain rfl := Option.some.inj hf
  obtain ⟨hbegin, hsize⟩ := hwf.granule_dvd hb
  have hshadow : set.shadow = h.shadow := hset ▸ shadow_setRecord
  refine ⟨b, hb, hstate, hentry, hbecomes.blocks, fun a ha => ?_, fun c hc hne a ha => ?_⟩
  · exact Shadow.code_poisoned hbegin hsize (hwf.lt_limit (hwf.extent_subset hb ha)) ha
  · show (set.shadow.poisoned _ _ _).code a = _
    rw [hshadow]
    refine Shadow.code_poisoned_of_outside hbegin (hwf.lt_limit (hwf.extent_subset hc ha)) fun hin => ?_
    rw [Word.roundUp_of_dvd (by decide) (Nat.dvd_add hbegin hsize)] at hin
    exact Set.disjoint_left.mp (hwf.tiled.apart c hc b hb hne) ha hin

/-- A free marks its chunk as freed. -/
theorem guarded_free (hwf : h.WF) (hfits : ∀ b ∈ h.blocks, b.record.state ≠ .recycled → b.Fits)
    (hact : free o p api origin h = .ok (some f) heap) (hguarded : h.Guarded) : heap.Guarded := by
  obtain ⟨b, hb, hstate, -, hblocks, hfreed, hcodes⟩ := free_spec hwf hfits hact
  rintro c ⟨hc, hlive⟩
  rw [hblocks] at hc
  rcases mem_exchange.mp hc with rfl | ⟨hc, hne⟩
  · exact { hguarded b ⟨hb, by rw [hstate]; exact nofun⟩ with
      code := fun a ha => (hfreed a ha).trans (if_pos rfl).symm }
  · exact { hguarded c ⟨hc, hlive⟩ with
      code := fun a ha => (hcodes c hc hne a ha).trans ((hguarded c ⟨hc, hlive⟩).code a ha) }

/-- Recycling marks nothing, even if it fails. -/
theorem leaves_recycle (e : Entry) (s : Session) :
    Leaves (fun t => t.heap.shadow = s.heap.shadow) (recycle e) s := by
  refine leaves_get_bind (.read_bind fixes_orRefuse rfl fun r _ => Leaves.bind ?_ fun _ u _ hu => ?_)
  · exact Leaves.onPart (leaves_modify shadow_setRecord)
  · exact Session.leaves_free (P := fun h => h.shadow = s.heap.shadow) (fun _ _ _ hs => hs) hu
      ((Heap.fixes_freeLarge _ _).trans hu)

/-- When a chunk is recycled the others keep their marks. -/
theorem guarded_recycle {b : Block} (hsound : Scene.Sound failing marked (s.scene holders))
    {left : Holders} (hgoes : Session.Goes failing marked s holders [.evict b.entry] t left)
    (hshadow : t.heap.shadow = s.heap.shadow) (hguarded : s.heap.Guarded) : t.heap.Guarded := by
  have hchunks : t.heap.chunks = {c | c ∈ s.heap.chunks ∧ c.begin ≠ b.begin} :=
    hsound.chunks_moves hgoes.moves
  refine hguarded.kept fun c hc => ?_
  rw [hchunks] at hc
  exact ⟨hc.1, fun a _ => congrArg (Shadow.code · a) hshadow⟩

end Redzone

namespace FakeStack

variable {f : FakeStack} {h heap : Heap} {sizeLog : Nat}

/-- A fake stack that is made is a large block with its marks. -/
theorem of_create (hact : create sizeLog h = .ok f heap) :
    f.sizeLog = sizeLog ∧ ∃ u, Heap.allocateLarge (totalSize sizeLog) Pages.pageSize h = .ok f.begin u
      ∧ Heap.onShadow FakeStackError.shadow
          (Shadow.poison f.begin (totalSize sizeLog) Shadow.Magic.stackAfterReturn.byte) u = .ok () heap := by
  unfold create at hact
  by_cases hlog : sizeLog < minSizeLog ∨ maxSizeLog < sizeLog
  case pos =>
    rw [if_pos hlog] at hact
    exact nomatch hact
  rw [if_neg hlog] at hact
  obtain ⟨begin, u, halloc, hact⟩ := bind_eq_ok.mp hact
  obtain ⟨_, v, hmark, hact⟩ := bind_eq_ok.mp hact
  obtain ⟨rfl, rfl⟩ := pure_eq_ok.mp hact
  exact ⟨rfl, u, mapError_eq_ok.mp halloc, hmark⟩

/-- A fake stack is made of pages that no block has, and marks only these. -/
theorem code_create (hwf : h.WF) (hact : create sizeLog h = .ok f heap) {b : Block} (hb : b ∈ h.blocks)
    {a : Nat} (ha : a ∈ b.extent) : heap.shadow.code a = h.shadow.code a := by
  have hin := hwf.extent_subset hb ha
  obtain ⟨hf, -, -, hoff, hbecomes⟩ := (ends_create hwf sizeLog).of_ok hact
  have hnew : f.block ∈ heap.blocks := by
    rw [hbecomes.blocks]
    exact .inr ⟨f.begin, List.mem_singleton.mpr rfl, rfl⟩
  have hout : a ∉ f.block.extent := by
    refine fun haf => Set.disjoint_left.mp (hbecomes.wf.tiled.apart b ?_ f.block hnew ?_) ha haf
    · rw [hbecomes.blocks]
      exact .inl hb
    · exact fun heq => hoff b hb (heq ▸ rfl)
  obtain ⟨hbegin, hsize⟩ := hbecomes.wf.granule_dvd hnew
  have hlast : Word.roundUp f.block.past Shadow.granule = f.block.past :=
    Word.roundUp_of_dvd (by decide) (Nat.dvd_add hbegin hsize)
  obtain ⟨rfl, u, halloc, hmark⟩ := of_create hact
  have hmapped := (hwf.leaves_allocateLarge hin _ (by decide)).of_ok halloc
  rw [← hmapped]
  refine (Heap.fixes_onShadow (Shadow.fixes_poison (hwf.lt_limit hin) fun hrange => hout ?_)).of_ok hmark
  unfold FakeStack.block Block.blank Block.past at hlast
  rw [roundUp_totalSize hf.min_le] at hlast
  rw [extent_block hf]
  exact ⟨hrange.1, Nat.lt_of_lt_of_eq hrange.2 hlast⟩

/-- A fake stack is not marked like a chunk, and no chunk is marked like it. -/
theorem guarded_create (hwf : h.WF) (hact : create sizeLog h = .ok f heap) (hguarded : h.Guarded) :
    heap.Guarded := by
  obtain ⟨-, -, -, -, hbecomes⟩ := (ends_create hwf sizeLog).of_ok hact
  refine hguarded.kept fun c hc => ?_
  have hold : c ∈ _ := hbecomes.blocks ▸ hc.1
  rcases hold with hold | ⟨p, -, rfl⟩
  · exact ⟨⟨hold, hc.2⟩, fun a ha => code_create hwf hact hold ha⟩
  · exact absurd rfl hc.2

/-- Releasing a fake stack marks nothing, even if it fails. -/
theorem fixes_release (f : FakeStack) : Fixes (·.shadow) f.release :=
  (Heap.fixes_freeLarge _).mapError

end FakeStack

end GuardedHeap
