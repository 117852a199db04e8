import GuardedHeap.Proofs.Marks
import GuardedHeap.Proofs.Shadow.Questions
import GuardedHeap.Report.Basic

/-! # Reports — what is said about an access to a chunk

    The shadow byte that explains an access is looked for in at most three
    granules, each of them only if the one before says nothing.  In the
    block of a guarded chunk they all bear the marks of this chunk, and the
    granule behind the user's bytes is in the block, too; so the byte found
    tells what was done wrong (`Block.Guarded.explaining_eq`).  From the
    user's bytes on, the chunk of the block is what the access is described
    by (`Report.describe_eq`). -/

namespace GuardedHeap

namespace Shadow

variable {s : Shadow} {addr size : Nat}

/-- A reason to poison is no count of bytes. -/
theorem isAddressable_magic (m : Magic) : isAddressable m.byte = false ∧ isPartial m.byte = false := by
  cases m <;> decide

theorem isPartial_ofNat {n : Nat} (h : n < granule) (hne : n ≠ 0) :
    isAddressable (UInt8.ofNat n) = false ∧ isPartial (UInt8.ofNat n) = true := by
  have hall : ∀ n < granule, n ≠ 0 →
      isAddressable (UInt8.ofNat n) = false ∧ isPartial (UInt8.ofNat n) = true := by decide
  exact hall n h hne

section Search

variable {m : Magic} {start n : Nat}

/-- The search, step by step. -/
theorem explaining_steps {k k' k'' : UInt8} {next : Nat} (hstart : start = Word.roundDown addr granule)
    (hsize : size < Word.signLimit) (hbyte : s.byteAt start = .ok k)
    (hfirst : s.goOn (isAddressable k ∧ start + granule < addr + size) (start, k) = .ok (next, k'))
    (hsecond : ∃ last, s.goOn (isPartial k') (next, k') = .ok (last, k'')) :
    s.explaining addr size = .ok (some k'') := by
  subst hstart
  obtain ⟨hcovers, hk⟩ := of_byteAt hbyte
  rw [roundDown_div] at hk
  have hreach : addr % granule + size < Word.limit := by
    simp only [granule, Word.limit, Word.signLimit] at *
    omega
  have hgo : (isAddressable k = true ∧ addr % granule + size > granule) ↔
      (isAddressable k = true ∧ Word.roundDown addr granule + granule < addr + size) := by
    refine and_congr_right fun _ => ?_
    simp only [Word.roundDown, granule]
    omega
  rw [explaining_eq hcovers, hk, show Word.add (addr % granule) size = .ok _ from if_pos hreach]
  show (s.goOn (isAddressable k = true ∧ addr % granule + size > granule) _ >>= _) = _
  have hsame : s.goOn (isAddressable k = true ∧ addr % granule + size > granule)
      (Word.roundDown addr granule, k) = .ok (next, k') := by
    rw [← hfirst]
    exact if_congr hgo rfl rfl
  obtain ⟨last, hlast⟩ := hsecond
  rw [hsame]
  show (s.goOn (isPartial k' = true) (next, k') >>= _) = _
  rw [hlast]
  rfl

/-- A step to a granule whose byte is known. -/
theorem goOn_eq {reason : Prop} [Decidable reason] {k k' : UInt8} (h : reason)
    (hlimit : start + granule < Word.limit) (hnext : s.byteAt (start + granule) = .ok k') :
    s.goOn reason (start, k) = .ok (start + granule, k') := by
  obtain ⟨hcovers, hk⟩ := of_byteAt hnext
  rw [goOn_next h hlimit, if_pos hcovers, hk]

/-- The search ends at a reason to poison. -/
theorem goOn_magic (m : Magic) (p : Nat) : ∃ last, s.goOn (isPartial m.byte) (p, m.byte) = .ok (last, m.byte) :=
  ⟨p, goOn_of_not (by rw [(isAddressable_magic m).2]; exact nofun)⟩

/-- A first granule that is poisoned explains the access. -/
theorem explaining_first (hstart : start = Word.roundDown addr granule) (hsize : size < Word.signLimit)
    (hbyte : s.byteAt start = .ok m.byte) : s.explaining addr size = .ok (some m.byte) := by
  refine explaining_steps hstart hsize hbyte (goOn_of_not ?_) (goOn_magic m start)
  rw [(isAddressable_magic m).1]
  exact fun h => nomatch h.1

/-- Behind a partial first granule the next one explains the access. -/
theorem explaining_second (hstart : start = Word.roundDown addr granule) (hsize : size < Word.signLimit)
    (hn : n < granule) (hne : n ≠ 0) (hbyte : s.byteAt start = .ok (UInt8.ofNat n))
    (hlimit : start + granule < Word.limit) (hnext : s.byteAt (start + granule) = .ok m.byte) :
    s.explaining addr size = .ok (some m.byte) := by
  obtain ⟨haddressable, hpartial⟩ := isPartial_ofNat hn hne
  refine explaining_steps hstart hsize hbyte (goOn_of_not ?_) ⟨_, goOn_eq hpartial hlimit hnext⟩
  rw [haddressable]
  exact fun h => nomatch h.1

/-- Behind an accessible first granule the next one explains an access that goes on there. -/
theorem explaining_behind (hstart : start = Word.roundDown addr granule) (hsize : size < Word.signLimit)
    (hreach : start + granule < addr + size) (hbyte : s.byteAt start = .ok 0)
    (hlimit : start + granule < Word.limit) (hnext : s.byteAt (start + granule) = .ok m.byte) :
    s.explaining addr size = .ok (some m.byte) :=
  explaining_steps hstart hsize hbyte (goOn_eq ⟨rfl, hreach⟩ hlimit hnext) (goOn_magic m _)

/-- If that one is partial the one behind it explains the access. -/
theorem explaining_last (hstart : start = Word.roundDown addr granule) (hsize : size < Word.signLimit)
    (hreach : start + granule < addr + size) (hbyte : s.byteAt start = .ok 0)
    (hn : n < granule) (hne : n ≠ 0) (hnext : s.byteAt (start + granule) = .ok (UInt8.ofNat n))
    (hlimit : start + granule + granule < Word.limit)
    (hlast : s.byteAt (start + granule + granule) = .ok m.byte) :
    s.explaining addr size = .ok (some m.byte) :=
  explaining_steps hstart hsize hbyte (goOn_eq ⟨rfl, hreach⟩ (by omega) hnext)
    ⟨_, goOn_eq (isPartial_ofNat hn hne).2 hlimit hlast⟩

end Search

end Shadow

/-! ## Chunks and their marks -/

namespace Block.Guarded

variable {h : Heap} {b : Block} {addr size a : Nat}

/-- The shadow byte of a granule in the block of a guarded chunk is its mark. -/
theorem byteAt_eq (hg : b.Guarded h.shadow) (hwf : h.WF) (hb : b ∈ h.blocks) (ha : a ∈ b.extent) :
    h.shadow.byteAt a = .ok (b.marks a) := by
  rw [hwf.byteAt_eq (hwf.extent_subset hb ha), hg.code a ha]

/-- The granule of an address of a block begins in the block. -/
theorem roundDown_mem (hwf : h.WF) (hb : b ∈ h.blocks) (ha : a ∈ b.extent) :
    Word.roundDown a Shadow.granule ∈ b.extent := by
  obtain ⟨hbegin, -⟩ := hwf.granule_dvd hb
  obtain ⟨hlo, hhi⟩ : b.begin ≤ a ∧ a < b.past := ha
  refine ⟨?_, ?_⟩ <;> simp only [Word.roundDown, Shadow.granule] at * <;> omega

/-- An access to a chunk that was freed is explained by the free. -/
theorem explaining_freed (hg : b.Guarded h.shadow) (hwf : h.WF) (hb : b ∈ h.blocks)
    (hstate : b.record.state = .quarantined) (haddr : addr ∈ b.extent) (hsize : size < Word.signLimit) :
    h.shadow.explaining addr size = .ok (some Shadow.Magic.heapFreed.byte) := by
  have hbyte := hg.byteAt_eq hwf hb (roundDown_mem hwf hb haddr)
  rw [show b.marks _ = _ from if_pos hstate] at hbyte
  exact Shadow.explaining_first rfl hsize hbyte

/-- A granule behind the last one that has bytes of the user still lies in the block. -/
theorem roundUp_le (hg : b.Guarded h.shadow) (hwf : h.WF) (hb : b ∈ h.blocks) :
    Word.roundUp (b.record.userBegin + b.record.requestedSize) Shadow.granule + Shadow.granule ≤ b.past := by
  obtain ⟨hbegin, hsize⟩ := hwf.granule_dvd hb
  have hpast : Shadow.granule ∣ b.past := Nat.dvd_add hbegin hsize
  have huser := hg.user_dvd
  have hroom := hg.room
  rw [Shadow.roundUp_granule _ huser]
  simp only [Shadow.granule] at *
  split <;> omega

/-- An access of at most two granules that misses a user's bytes is explained by a redzone. -/
theorem explaining_missed (hg : b.Guarded h.shadow) (hwf : h.WF) (hb : b ∈ h.blocks)
    (hstate : b.record.state = .allocated) (haddr : addr ∈ b.extent)
    (hsize : (addr + size - 1) / Shadow.granule ≤ addr / Shadow.granule + 1)
    (hmissed : ∃ a, addr ≤ a ∧ a < addr + size ∧ a ∉ b.user) :
    h.shadow.explaining addr size = .ok (some Shadow.Magic.heapLeftRedzone.byte)
      ∨ h.shadow.explaining addr size = .ok (some Shadow.Magic.heapRightRedzone.byte) := by
  obtain ⟨a, halo, hahi, hout⟩ := hmissed
  have hlimit := hwf.lt_limit (hwf.extent_subset hb haddr)
  have hend := Nat.lt_of_le_of_lt (hwf.past_le hb).2 hwf.layout.end_lt
  have huser := hg.user_dvd
  have hround := Shadow.roundUp_granule b.record.requestedSize huser
  have hlast := hg.roundUp_le hwf hb
  have htail : b.record.requestedSize % Shadow.granule < Shadow.granule := Nat.mod_lt _ (by decide)
  have hbyte : ∀ {p k}, b.begin ≤ p → p < b.past →
      Shadow.guardCode b.record.userBegin b.record.requestedSize p = k → h.shadow.byteAt p = .ok k := by
    rintro p k hp hp' rfl
    rw [hg.byteAt_eq hwf hb ⟨hp, hp'⟩, marks, if_neg (by rw [hstate]; decide)]
  have hmiss : ¬ (b.record.userBegin ≤ a ∧ a < b.record.userBegin + b.record.requestedSize) := hout
  have hsmall : size < Word.signLimit := by
    simp only [Shadow.granule, Word.signLimit] at *
    omega
  obtain ⟨hfirst, hstartPast⟩ : b.begin ≤ _ ∧ _ < b.past := roundDown_mem hwf hb haddr
  have hplace : Word.roundDown addr Shadow.granule ≤ addr
      ∧ Shadow.granule ∣ Word.roundDown addr Shadow.granule
      ∧ addr + size ≤ Word.roundDown addr Shadow.granule + Shadow.granule + Shadow.granule := by
    simp only [Word.roundDown, Shadow.granule] at *
    omega
  obtain ⟨hle, hdvd, hreach⟩ := hplace
  generalize hstart : Word.roundDown addr Shadow.granule = start at *
  have hright : ∀ p, Word.roundUp (b.record.userBegin + b.record.requestedSize) Shadow.granule ≤ p → b.begin ≤ p →
      p < b.past → h.shadow.byteAt p = .ok Shadow.Magic.heapRightRedzone.byte :=
    fun p hp hlo hhi => hbyte hlo hhi (Shadow.guardCode_right huser hp)
  -- Where the search begins decides how often it goes on.
  by_cases hbefore : start < b.record.userBegin
  · exact .inl (Shadow.explaining_first hstart.symm hsmall
      (hbyte hfirst hstartPast (Shadow.guardCode_left hbefore)))
  right
  by_cases hbehind : Word.roundUp (b.record.userBegin + b.record.requestedSize) Shadow.granule ≤ start
  · exact Shadow.explaining_first hstart.symm hsmall (hright start hbehind hfirst hstartPast)
  by_cases htip : b.record.userBegin + b.record.requestedSize / Shadow.granule * Shadow.granule ≤ start
  · have hpartial := hbyte hfirst hstartPast (Shadow.guardCode_partial htip (by omega))
    have hne : b.record.requestedSize % Shadow.granule ≠ 0 := fun h0 => by
      rw [if_pos h0] at hround
      omega
    rw [if_neg hne] at hround
    have hnext : start + Shadow.granule =
        Word.roundUp (b.record.userBegin + b.record.requestedSize) Shadow.granule := by
      simp only [Shadow.granule] at *
      omega
    exact Shadow.explaining_second hstart.symm hsmall htail hne hpartial (by omega)
      (hright _ hnext.ge (by omega) (by omega))
  have hzero := hbyte hfirst hstartPast (Shadow.guardCode_whole (by omega) (Nat.lt_of_not_le htip))
  have hgo : start + Shadow.granule < addr + size
      ∧ b.record.userBegin + b.record.requestedSize / Shadow.granule * Shadow.granule ≤ start + Shadow.granule
      ∧ start + Shadow.granule ≤ b.record.userBegin + b.record.requestedSize / Shadow.granule * Shadow.granule := by
    simp only [Shadow.granule] at *
    omega
  obtain ⟨hover, hfull, hstep⟩ := hgo
  by_cases hlastStep :
      Word.roundUp (b.record.userBegin + b.record.requestedSize) Shadow.granule ≤ start + Shadow.granule
  · exact Shadow.explaining_behind hstart.symm hsmall hover hzero (by omega)
      (hright _ hlastStep (by omega) (by omega))
  · have hpartial := hbyte (p := start + Shadow.granule) (by omega) (by omega)
      (Shadow.guardCode_partial hfull (by omega))
    have hne : b.record.requestedSize % Shadow.granule ≠ 0 := fun h0 => by
      rw [if_pos h0] at hround
      omega
    rw [if_neg hne] at hround
    exact Shadow.explaining_last hstart.symm hsmall hover hzero htail hne hpartial (by omega)
      (hright _ (by omega) (by omega) (by omega))

end Block.Guarded

/-! ## What an access is described by -/

section Describe

variable {h : Heap} {b : Block} {addr : Nat}

/-- The end of a chunk is a word. -/
theorem Block.Fits.userEnd_eq (hfits : b.Fits) (hwf : h.WF) (hb : b ∈ h.blocks) :
    b.chunk.userEnd = .ok (b.record.userBegin + b.record.requestedSize) := by
  have hend := Nat.lt_of_le_of_lt (hwf.past_le hb).2 hwf.layout.end_lt
  have hlt := hfits.lt_past
  exact Word.add_eq_ok.mpr ⟨by show b.record.userBegin + b.record.requestedSize < _; omega, rfl⟩

/-- A chunk is live unless its block is recycled. -/
theorem isLive_chunk : b.chunk.isLive = true ↔ b.record.state ≠ .recycled :=
  bne_iff_ne

namespace Heap

/-- The chunk, if there is one, is that of a block and is not recycled. -/
def Names (h : Heap) (c : Option Chunk) : Prop :=
  ∀ k, c = some k → ∃ b ∈ h.chunks, k = b.chunk

/-- The chunk below a block is looked for without a fault. -/
theorem previousChunk_ok (hwf : h.WF) (hfits : ∀ b ∈ h.blocks, b.record.state ≠ .recycled → b.Fits)
    (block addr : Nat) :
    ∃ c, h.previousChunk block addr = .ok c ∧ h.Names c := by
  have hnone : h.Names none := fun _ => nofun
  unfold previousChunk
  cases h.blockClass block with
  | large => exact ⟨none, rfl, hnone⟩
  | small c =>
      dsimp only
      by_cases hzero : block = 0
      · rw [if_pos hzero]
        exact ⟨none, rfl, hnone⟩
      rw [if_neg hzero]
      cases hchunk : h.chunk? (block - 1) with
      | none => exact ⟨none, rfl, hnone⟩
      | some k =>
          obtain ⟨b, hb, rfl⟩ := Redzone.of_chunk? hwf hchunk
          dsimp only
          by_cases hlive : (b.chunk.isLive && decide (b.chunk.block ≠ block)) = true
          · have hstate := isLive_chunk.mp (Bool.and_eq_true _ _ ▸ hlive).1
            rw [if_pos hlive, (hfits b hb hstate).userEnd_eq hwf hb]
            refine ⟨_, rfl, fun k hk => ⟨b, ⟨hb, hstate⟩, ?_⟩⟩
            exact (Option.some.inj (Option.ite_none_right_eq_some.mp hk).2).symm
          · rw [if_neg hlive]
            exact ⟨none, rfl, hnone⟩

/-- The chunk that an address is meant for is looked for without a fault. -/
theorem findChunk_ok (hwf : h.WF) (hfits : ∀ b ∈ h.blocks, b.record.state ≠ .recycled → b.Fits)
    (addr : Nat) :
    ∃ c, h.findChunk addr = .ok c ∧ h.Names c := by
  have hnone : h.Names none := fun _ => nofun
  unfold findChunk
  dsimp only
  cases hcurrent : (h.chunk? addr).filter Chunk.isLive with
  | none =>
      dsimp only
      cases h.blockBegin? addr with
      | none => exact ⟨none, rfl, hnone⟩
      | some block =>
          obtain ⟨prev, hprev, hnames⟩ := previousChunk_ok hwf hfits block addr
          dsimp only
          rw [hprev]
          exact ⟨prev, rfl, hnames⟩
  | some k =>
      obtain ⟨hfind, hlive⟩ := Option.filter_eq_some_iff.mp hcurrent
      obtain ⟨b, hb, rfl⟩ := Redzone.of_chunk? hwf hfind
      have hb : b ∈ h.chunks := ⟨hb, isLive_chunk.mp hlive⟩
      have hnames : h.Names (some b.chunk) := fun k hk => ⟨b, hb, (Option.some.inj hk).symm⟩
      dsimp only
      by_cases huser : addr ≥ b.chunk.record.userBegin
      · rw [if_pos huser]
        exact ⟨_, rfl, hnames⟩
      rw [if_neg huser]
      -- An address in a left redzone may lie nearer to the chunk before.
      cases h.blockBegin? addr with
      | none => exact ⟨none, rfl, hnone⟩
      | some block =>
          obtain ⟨prev, hprev, hbelow⟩ := previousChunk_ok hwf hfits block addr
          dsimp only
          rw [hprev]
          cases prev with
          | none => exact ⟨_, rfl, hnames⟩
          | some k =>
              obtain ⟨d, hd, rfl⟩ := hbelow k rfl
              have hend := (hfits d hd.1 hd.2).userEnd_eq hwf hd.1
              show ∃ c, (d.chunk.userEnd >>= fun past => pure
                (some (if addr - past < b.chunk.record.userBegin - addr then d.chunk else b.chunk))) = .ok c ∧ _
              rw [hend]
              refine ⟨_, rfl, fun k hk => ?_⟩
              by_cases hnear : addr - (d.record.userBegin + d.record.requestedSize)
                  < b.chunk.record.userBegin - addr
              · rw [if_pos hnear] at hk
                exact ⟨d, hd, (Option.some.inj hk).symm⟩
              · rw [if_neg hnear] at hk
                exact ⟨b, hb, (Option.some.inj hk).symm⟩

/-- From the user's bytes on, an address is meant for the chunk of its block. -/
theorem findChunk_eq (hwf : h.WF) (hb : b ∈ h.chunks) (haddr : addr ∈ b.extent)
    (huser : b.record.userBegin ≤ addr) : h.findChunk addr = .ok (some b.chunk) := by
  unfold findChunk
  rw [Redzone.chunk?_eq hwf hb.1 haddr, Option.filter_some_pos (isLive_chunk.mpr hb.2)]
  dsimp only
  rw [if_pos (show addr ≥ b.chunk.record.userBegin from huser)]
  rfl

end Heap

namespace HeapLocation

/-- Every address has a place as seen from a chunk. -/
theorem of_ok (hfits : b.Fits) (hwf : h.WF) (hb : b ∈ h.blocks) (addr : Nat) :
    ∃ l, HeapLocation.of b.chunk addr = .ok l := by
  unfold HeapLocation.of
  dsimp only
  by_cases hleft : addr < b.chunk.record.userBegin
  · rw [if_pos hleft]
    exact ⟨_, rfl⟩
  rw [if_neg hleft, hfits.userEnd_eq hwf hb]
  by_cases hright : addr ≥ b.record.userBegin + b.record.requestedSize
  · exact ⟨_, if_pos hright⟩
  · exact ⟨_, if_neg hright⟩

/-- The place of an address from the user's first byte on. -/
def behind (b : Block) (addr : Nat) : HeapLocation :=
  if addr < b.record.userBegin + b.record.requestedSize then
    { chunk := b.chunk, offset := (addr - b.record.userBegin : Nat), relation := .inside
      distance := addr - b.record.userBegin }
  else
    { chunk := b.chunk, offset := (addr - b.record.userBegin : Nat), relation := .right
      distance := addr - (b.record.userBegin + b.record.requestedSize) }

/-- From the user's first byte on, offsets are not negative, and what is not inside is on the right. -/
theorem of_eq (hfits : b.Fits) (hwf : h.WF) (hb : b ∈ h.blocks) (haddr : addr < Word.signLimit)
    (huser : b.record.userBegin ≤ addr) : HeapLocation.of b.chunk addr = .ok (behind b addr) := by
  have hoffset : Word.toSigned (Word.wrapSub addr b.record.userBegin) =
      ((addr - b.record.userBegin : Nat) : Int) := by
    have hwrap : Word.wrapSub addr b.record.userBegin = addr - b.record.userBegin := by
      unfold Word.wrapSub
      simp only [Word.limit, Word.signLimit] at *
      omega
    rw [hwrap, Word.toSigned, if_pos (by omega)]
  unfold HeapLocation.of behind
  dsimp only
  rw [if_neg (by show ¬ addr < b.record.userBegin; omega), hfits.userEnd_eq hwf hb]
  show (if addr ≥ b.record.userBegin + b.record.requestedSize then _ else _) = _
  by_cases hin : addr < b.record.userBegin + b.record.requestedSize
  · rw [if_pos hin, if_neg (by omega)]
    rw [show b.chunk.record = b.record from rfl, hoffset]
    rfl
  · rw [if_neg hin, if_pos (by omega)]
    rw [show b.chunk.record = b.record from rfl, hoffset]
    rfl

end HeapLocation

namespace Report

variable {fs : List FakeStack}

theorem frameAt?_eq_none (hfs : ∀ f ∈ fs, addr ∉ f.range) : frameAt? fs addr = none :=
  List.findSome?_eq_none_iff.mpr fun f hf => if_neg (hfs f hf)

/-- The frame that an address lies in does not begin behind it. -/
theorem addr_le_of_frameAt? {frame : FakeFrame} (h : frameAt? fs addr = some frame) : frame.addr ≤ addr := by
  obtain ⟨f, -, hframe⟩ := List.exists_of_findSome?_eq_some h
  unfold FakeStack.frameAt? at hframe
  by_cases hin : f.begin ≤ addr ∧ addr < f.past
  · rw [if_pos hin] at hframe
    obtain ⟨c, -, rfl⟩ := Option.map_eq_some_iff.mp hframe
    show f.frameAddr _ _ ≤ addr
    have hclass := Nat.div_mul_le_self (addr - f.begin) (Word.powerOfTwo f.sizeLog)
    unfold FakeStack.frameAddr FakeStack.classBegin
    generalize (addr - f.begin) / Word.powerOfTwo f.sizeLog = classId at *
    generalize classId * Word.powerOfTwo f.sizeLog = before at *
    have hslot := Nat.div_mul_le_self (addr - (f.begin + before)) (FakeStack.frameSize classId)
    omega
  · rw [if_neg hin] at hframe
    exact nomatch hframe

/-- Every address is described, by a frame or a chunk if by anything. -/
theorem describe_ok (hwf : h.WF) (hfits : ∀ b ∈ h.blocks, b.record.state ≠ .recycled → b.Fits)
    (fs : List FakeStack) (addr : Nat) : ∃ d, describe h fs addr = .ok d := by
  unfold describe
  cases hframe : frameAt? fs addr with
  | some frame =>
      have hsub : Word.sub addr frame.addr = .ok (addr - frame.addr) :=
        if_pos (addr_le_of_frameAt? hframe)
      refine ⟨some (.fakeFrame frame (addr - frame.addr)), ?_⟩
      dsimp only
      rw [hsub]
      rfl
  | none =>
      obtain ⟨c, hfind, hnames⟩ := Heap.findChunk_ok hwf hfits addr
      dsimp only
      rw [hfind]
      cases c with
      | none => exact ⟨none, rfl⟩
      | some k =>
          obtain ⟨b, hb, rfl⟩ := hnames k rfl
          obtain ⟨l, hl⟩ := HeapLocation.of_ok (hfits b hb.1 hb.2) hwf hb.1 addr
          refine ⟨some (.heap l), ?_⟩
          show (HeapLocation.of b.chunk addr >>= fun l => pure (some (Description.heap l))) = _
          rw [hl]
          rfl

/-- From the user's first byte on, an address is described by the chunk of its block. -/
theorem describe_eq (hwf : h.WF) (hb : b ∈ h.chunks) (hfits : b.Fits) (haddr : addr ∈ b.extent)
    (hfs : ∀ f ∈ fs, addr ∉ f.range) (huser : b.record.userBegin ≤ addr) :
    describe h fs addr = .ok (some (.heap (.behind b addr))) := by
  have hsigned : addr < Word.signLimit := by
    have hend := hwf.layout.shadow_placed.end_lt
    rw [hwf.layout.shadow_end] at hend
    exact Nat.lt_trans (hwf.committed_bounds (hwf.extent_subset hb.1 haddr)).2 hend
  unfold describe
  rw [frameAt?_eq_none hfs]
  dsimp only
  rw [Heap.findChunk_eq hwf hb haddr huser]
  show (HeapLocation.of b.chunk addr >>= fun l => pure (some (Description.heap l))) = _
  rw [HeapLocation.of_eq hfits hwf hb.1 hsigned huser]
  rfl

/-- An access that the search does not stop at is reported, with the kind of the byte found. -/
theorem classify_ok (access : AccessRequest) (threadId : Nat) (stack : StackId) {byte : Option UInt8}
    {d : Option Description} (hwf : h.WF) (hbyte : h.shadow.explaining access.addr access.size = .ok byte)
    (hdescribe : describe h fs access.addr = .ok d) :
    ∃ w, classify h fs access threadId stack = .ok
      { kind := .ofShadow? byte, access, threadId, accessStack := stack, shadowByte := byte.getD 0
        description := d, window := w } := by
  obtain ⟨w, hw⟩ := hwf.layout.shadow_placed.mapped.window_ok access.addr
  refine ⟨w, ?_⟩
  unfold classify
  rw [hbyte, hdescribe, hw]
  rfl

theorem ofShadow?_magic (m : Shadow.Magic) : BugKind.ofShadow? (some m.byte) = .ofMagic m := by
  show BugKind.ofShadow m.byte = _
  unfold BugKind.ofShadow
  rw [Shadow.Magic.ofByte?_byte]

end Report

end Describe

end GuardedHeap
