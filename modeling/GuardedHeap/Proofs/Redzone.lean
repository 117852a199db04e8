import GuardedHeap.Proofs.Heap.Session
import GuardedHeap.Proofs.Scene.Deeds
import GuardedHeap.Redzone.Basic

/-! # Redzones — what a call does to chunks

    Marking a fresh block opens the user's bytes and closes all others
    (`ends_mark`), so that handing it out is one deed.  A free looks its
    chunk up by the address alone: it finds the block that a live record
    tells of, or none, and its verdict is one on records (`ends_free`). -/

namespace GuardedHeap

/-- The redzones are whole granules. -/
structure RedzoneOptions.Valid (o : RedzoneOptions) : Prop where
  power : Word.isPowerOfTwo o.redzone = true
  granule_le : Shadow.granule ≤ o.redzone

/-- A block as calls about chunks show it. -/
def Block.chunk (b : Block) : Chunk where
  block := b.begin
  kind := b.kind
  record := b.record

/-- The blocks of a heap that a user has, or had until the quarantine lets go of them. -/
def Heap.chunks (h : Heap) : Set Block :=
  {b | b ∈ h.blocks ∧ b.record.state ≠ .recycled}

namespace Redzone

open Heap (Session Becomes)
open Quarantine (Entry)

variable {failing marked : Prop} {h : Heap} {b : Block} {left size : Nat}

/-! ## Marking -/

/-- The marks around a chunk leave nothing open in the block but the user's bytes. -/
theorem sdiff_marks {opened : Set Nat} {begin past user right : Nat} (huser : begin ≤ user)
    (hfit : user + size ≤ right) (hright : right ≤ past) :
    ((opened \ Set.Ico begin user) \ Set.Ico user right ∪ Set.Ico user (user + size))
        \ Set.Ico right past =
      opened \ Set.Ico begin past ∪ Set.Ico user (user + size) := by
  ext a
  simp only [Set.mem_sdiff, Set.mem_union, Set.mem_Ico]
  by_cases ha : a ∈ opened
  · simp only [ha, true_and]
    omega
  · simp only [ha, false_and, false_or]
    omega

/-- The shadow with marks around `size` bytes, `left` behind the beginning of a block. -/
def guarded (s : Shadow) (b : Block) (left size : Nat) : Shadow :=
  let right := Word.roundUp (b.begin + left + size) Shadow.granule
  ((s.poisoned b.begin left Shadow.Magic.heapLeftRedzone.byte).poisoned (b.begin + left) size 0).poisoned
    right (b.past - right) Shadow.Magic.heapRightRedzone.byte

/-- The right redzone begins with the first granule that has none of the user's bytes, and ends with
    the block. -/
theorem right_spec (hwf : h.WF) (hb : b ∈ h.blocks)
    (hroom : left + size + Shadow.granule ≤ b.size) {right : Nat}
    (hr : Word.roundUp (b.begin + left + size) Shadow.granule = right) :
    Shadow.granule ∣ right ∧ b.begin + left + size ≤ right ∧ right ≤ b.past
      ∧ Shadow.granule ∣ b.past - right := by
  obtain ⟨hbegin, hsize⟩ := hwf.granule_dvd hb
  have hright := Word.dvd_roundUp (n := b.begin + left + size) (m := Shadow.granule) (by decide)
  have hge := Word.le_roundUp (n := b.begin + left + size) (m := Shadow.granule)
  have hlt := Word.roundUp_lt (n := b.begin + left + size) (m := Shadow.granule) (by decide)
  have hpast : b.past = b.begin + b.size := rfl
  rw [hr] at hright hge hlt
  exact ⟨hright, hge, by omega, Nat.dvd_sub (Nat.dvd_add hbegin hsize) hright⟩

variable (size) in
/-- Marking a block succeeds. -/
theorem ends_guarded (hwf : h.WF) (hb : b ∈ h.blocks) (hleft : Shadow.granule ∣ left)
    (hroom : left + size + Shadow.granule ≤ b.size) {ok : Unit → Heap → Prop}
    {no : AllocError → Heap → Prop} (hok : ok () { h with shadow := guarded h.shadow b left size }) :
    Act.Ends (mark b.begin b.size left size) h ok no := by
  obtain ⟨hbegin, -⟩ := hwf.granule_dvd hb
  obtain ⟨hlo, hhi⟩ := hwf.past_le hb
  have hpast : b.past = b.begin + b.size := rfl
  have hend := hwf.layout.end_lt
  have huser : Shadow.granule ∣ b.begin + left := Nat.dvd_add hbegin hleft
  obtain ⟨hright, hge, hle, -⟩ := right_spec hwf hb hroom rfl
  unfold guarded at hok
  have hrange := Shadow.poisoned_sameRange h.shadow b.begin left Shadow.Magic.heapLeftRedzone.byte
  have hrange' := hrange.trans (Shadow.poisoned_sameRange _ (b.begin + left) size 0)
  unfold mark
  simp only [Act.ends_bind]
  refine Heap.ends_onShadow hwf.layout hbegin (by omega) ?_
  refine Heap.ends_onShadow (hwf.withShadow hrange).wf.layout huser ⟨?_, ?_⟩ ?_
  · show h.space.begin ≤ _
    omega
  · show _ ≤ h.space.endAddr
    omega
  rw [Act.ends_liftM]
  refine ⟨_, Word.nextMultiple_eq_ok.mpr ⟨by decide, by omega, rfl⟩, ?_⟩
  rw [Act.ends_liftM]
  refine ⟨_, Word.sub_eq_ok.mpr ⟨hle, rfl⟩, ?_⟩
  refine Heap.ends_onShadow (hwf.withShadow hrange').wf.layout hright ⟨?_, ?_⟩ hok
  · show h.space.begin ≤ _
    omega
  · show _ ≤ h.space.endAddr
    omega

variable (size) in
/-- Marking a block opens the user's bytes and closes the others. -/
theorem ends_mark (hwf : h.WF) (hb : b ∈ h.blocks) (hleft : Shadow.granule ∣ left)
    (hroom : left + size + Shadow.granule ≤ b.size) {no : AllocError → Heap → Prop} :
    Act.Ends (mark b.begin b.size left size) h
      (fun _ t => Becomes h t
        (h.outline.reopen b.extent (Set.Ico (b.begin + left) (b.begin + left + size)))) no := by
  refine ends_guarded size hwf hb hleft hroom ?_
  obtain ⟨hbegin, -⟩ := hwf.granule_dvd hb
  have hpast : b.past = b.begin + b.size := rfl
  obtain ⟨hright, hge, hle, hslack⟩ := right_spec hwf hb hroom rfl
  have hcommitted : Set.Ico (b.begin + left) (b.begin + left + size) ⊆ h.committed := by
    refine fun a ha => hwf.extent_subset hb ⟨?_, ?_⟩
    · exact Nat.le_trans (Nat.le_add_right _ _) ha.1
    · have := ha.2
      omega
  have hstep1 := hwf.withPoisoned Shadow.Magic.heapLeftRedzone.byte hbegin hleft
    (Shadow.addressableBytes_magic _)
  have hstep2 := hstep1.wf.withUnpoisoned size (Nat.dvd_add hbegin hleft) hcommitted
  have hstep3 := hstep2.wf.withPoisoned Shadow.Magic.heapRightRedzone.byte hright
    hslack (Shadow.addressableBytes_magic _)
  have hjoined := (hstep1.trans (f := fun o => o.reopen _ _) hstep2).trans
    (f := fun o => o.close _) hstep3
  refine ⟨hjoined.wf, hjoined.classes, hjoined.outline.trans ?_, hjoined.calm⟩
  rw [Nat.add_sub_cancel' hle]
  simp only [Outline.close, Outline.reopen]
  rw [sdiff_marks (Nat.le_add_right _ _) hge hle]
  rfl

/-! ## Allocating -/

variable {o : RedzoneOptions} {s : Session} {holders : Holders} {k : BlockClass}

/-- The left redzone keeps the alignment of the block and whole granules. -/
theorem granule_dvd_left (ho : o.Valid) {alignment : Nat}
    (halign : Word.isPowerOfTwo alignment = true) :
    Shadow.granule ∣ max o.redzone (max alignment Shadow.granule) := by
  have hgranule : Word.isPowerOfTwo Shadow.granule = true := by decide
  refine Word.dvd_of_powerOfTwo_le hgranule ?_ ?_
  · exact isPowerOfTwo_max ho.power (isPowerOfTwo_max halign hgranule)
  · exact Nat.le_trans ho.granule_le (Nat.le_max_left _ _)

/-- Handing out the marked and filled block that the holders have. -/
theorem goes_handOut {t : Session} {heap : Heap} {r : ChunkRecord} (fill : Nat)
    (content : Nat → UInt8) (hwf : t.WF) (hb : b ∈ t.heap.blocks) (hstate : r.state = .allocated)
    (hfits : (b.withRecord r).Fits) (hfill : fill ≤ r.requestedSize)
    (h : Becomes t.heap heap
      (((t.heap.outline.reopen b.extent (b.withRecord r).user).write r.userBegin fill
        content).setRecord b r)) :
    Session.Goes failing marked t (holders.hold b.kind b.begin)
      [.handOut (b.withRecord r) (overlay r.userBegin fill content t.heap.contents)]
      { t with heap } holders := by
  refine Session.goes_of_becomes (t := { t with heap }) h rfl hwf ?_
  refine (Moves.one (.handOut b r (overlay r.userBegin fill content t.heap.contents) hb
    Session.mem_idle_hold hstate hfits)).of_eq ?_
  have hbytes : overlay r.userBegin r.requestedSize
      (overlay r.userBegin fill content t.heap.contents) t.heap.contents =
        overlay r.userBegin fill content t.heap.contents := by
    funext a
    unfold overlay
    by_cases ha : r.userBegin ≤ a ∧ a < r.userBegin + r.requestedSize
    · rw [if_pos ha]
    · rw [if_neg ha, if_neg (by omega)]
  have hback := Session.idle_unhold t holders b.kind b.begin
  rw [Session.idle_eq (s := t) (t := { t with heap }) h.free rfl]
  unfold Scene.handOut
  congr 1

/-- Bytes of a marked block are filled, and a record is put at its beginning. -/
theorem becomes_recorded {heap : Heap} {opened : Set Nat} {n : Nat} (hwf : h.WF) (hb : b ∈ h.blocks)
    (hmarked : Becomes h heap (h.outline.reopen b.extent opened)) (user : Nat) (value : UInt8)
    (r : ChunkRecord) (hin : user + n ≤ b.past) :
    Becomes h ((heap.mapPages (·.writeFill user n value)).setRecord b.begin r)
      (((h.outline.reopen b.extent opened).write user n fun _ => value).setRecord b r) := by
  have hpast := (hwf.past_le hb).2
  have hend := hwf.layout.end_lt
  have hwritten := hmarked.trans (f := fun o => o.write _ _ _) (hmarked.wf.withFill user value (n := n) (by omega))
  have hb' : b ∈ (heap.mapPages (·.writeFill user n value)).blocks := by
    rw [hwritten.blocks]
    exact hb
  exact hwritten.trans (f := fun o => o.setRecord b r) (hwritten.wf.setRecord hb' r)

/-- Allocating hands a chunk out, with its first bytes filled, or changes nothing but
    pages. -/
theorem ends_allocate (ho : o.Valid) (hwf : s.WF)
    (hsound : Scene.Sound failing marked (s.scene holders)) (size alignment : Nat) (api : Api)
    (origin : Origin) :
    Act.Ends (allocate o size alignment api origin) s
      (fun user t => ∃ b content,
        b.record = .recordAllocation
          { userBegin := user, requestedSize := size, actualSize := b.size, origin, api }
        ∧ (∀ a, user ≤ a → a < user + min size o.maxMallocFillSize →
          content a = UInt8.ofNat o.mallocFillByte)
        ∧ Session.Goes failing marked s holders [.handOut b content] t holders)
      (Session.Declines (allocate o size alignment api origin) s) := by
  unfold allocate
  by_cases hpower : Word.isPowerOfTwo alignment = true
  case neg =>
    rw [Bool.not_eq_true] at hpower
    simp only [hpower, Bool.not_false, if_true, Act.ends_bind, Act.ends_refuse]
    exact .always (.inl trivial) fun q => ⟨rfl, rfl⟩
  have hleft := granule_dvd_left ho hpower
  simp only [hpower, Bool.not_true, Bool.false_eq_true, if_false]
  generalize max o.redzone (max alignment Shadow.granule) = left at hleft
  rw [Act.ends_bind, Act.ends_orRefuse]
  refine ⟨fun padded hpadded => ?_, fun hnone => .always (.inl trivial) fun q => ?_⟩
  case refine_2 =>
    rw [Act.ends_bind, hnone]
    exact ⟨rfl, rfl⟩
  have hfound := hpadded
  obtain ⟨sum, hsum, hpadded⟩ := Option.bind_eq_some_iff.mp hpadded
  obtain ⟨-, rfl⟩ := Word.add?_eq_some.mp hsum
  obtain ⟨-, rfl⟩ := Word.add?_eq_some.mp hpadded
  rw [Act.ends_bind]
  refine (Session.ends_allocate failing marked holders hwf _ _).imp ?_ fun _ _ hdeclines =>
    hdeclines.imp fun q hrefused => by
      rw [Act.ends_bind, hfound]
      exact hrefused.bind_refused
  rintro block t ⟨k, hgoes, hroom, -⟩
  -- The block is free in the scene, so it is one of the heap.
  obtain ⟨b, hb, rfl, rfl, -⟩ := (hsound.moves hgoes.moves).idle_block k block Session.mem_idle_hold
  have hroom := hroom b hb rfl rfl
  obtain ⟨-, hactual, hrecord⟩ := hgoes.wf.heap.begin_spec hb
  simp only [Act.ends_bind, Act.ends_get, hactual, hrecord, Act.ends_orRefuse_some]
  rw [Session.ends_onHeap, Act.ends_bind]
  have hgranule := ho.granule_le
  have hgranule_pos : 0 < Shadow.granule := by decide
  refine (ends_mark size hgoes.wf.heap hb hleft (by omega)).imp ?_ fun _ _ hno => hno
  intro _ heap hmarked
  refine Act.ends_modify.mpr (Act.ends_pure.mpr ?_)
  have hsize : b.past = b.begin + b.size := rfl
  have hfill : min size o.maxMallocFillSize ≤ size := Nat.min_le_left _ _
  generalize hr : ChunkRecord.recordAllocation
    { userBegin := b.begin + left, requestedSize := size, actualSize := b.size, origin, api } = r
  have huser : r.userBegin = b.begin + left := by rw [← hr]; rfl
  have hrequested : r.requestedSize = size := by rw [← hr]; rfl
  have hset := becomes_recorded hgoes.wf.heap hb hmarked (b.begin + left)
    (n := min size o.maxMallocFillSize) (UInt8.ofNat o.mallocFillByte) r (by omega)
  refine ⟨b.withRecord r, _, hr.symm, fun a hlo hhi => ?_, hgoes.trans (goes_handOut
    (min size o.maxMallocFillSize) (fun _ => UInt8.ofNat o.mallocFillByte) hgoes.wf hb ?_ ?_ ?_ ?_)⟩
  · rw [huser]
    exact if_pos ⟨hlo, hhi⟩
  · rw [← hr]
    rfl
  · refine ⟨by rw [← hr]; rfl, ?_, ?_⟩
    · show b.begin ≤ r.userBegin
      omega
    · show r.userBegin + r.requestedSize < b.past
      omega
  · omega
  · unfold Block.user
    rw [Block.record_withRecord, huser, hrequested]
    exact hset

variable (failing marked holders) in
/-- Bytes written where a user has them are a deed. -/
theorem goes_put {heap : Heap} {lo n : Nat} {content : Nat → UInt8} (hwf : s.WF)
    (hb : b ∈ s.heap.blocks) (hstate : b.record.state = .allocated)
    (hin : Set.Ico lo (lo + n) ⊆ b.user)
    (h : Becomes s.heap heap (s.heap.outline.write lo n content)) :
    Session.Goes failing marked s holders [.put lo n content] { s with heap } holders := by
  refine Session.goes_of_becomes (t := { s with heap }) h rfl hwf ?_
  refine (Moves.one (.put (s := s.scene holders) b lo n content hb hstate hin)).of_eq ?_
  have hidle := Session.idle_eq (s := s) (t := { s with heap }) h.free rfl
  rw [hidle]
  rfl

/-- Zeros are put into a chunk that was allocated. -/
theorem of_allocateZeroed {count size user : Nat} {origin : Origin} {t : Session}
    (hact : allocateZeroed o count size origin s = .ok user t) :
    ∃ u, allocate o (count * size) Shadow.granule .malloc origin s = .ok user u
      ∧ t = { u with heap := u.heap.mapPages (·.writeFill user (count * size) 0) } := by
  obtain ⟨total, _, hrefuse, hact⟩ := Act.bind_eq_ok.mp hact
  obtain ⟨htotal, rfl⟩ := Act.orRefuse_eq_ok.mp hrefuse
  obtain ⟨-, rfl⟩ := Word.mul?_eq_some.mp htotal
  obtain ⟨p, u, halloc, hact⟩ := Act.bind_eq_ok.mp hact
  obtain ⟨_, _, hfill, hact⟩ := Act.bind_eq_ok.mp hact
  obtain ⟨rfl, rfl⟩ := Act.pure_eq_ok.mp hact
  obtain ⟨heap, hset, rfl⟩ := Act.onPart_eq_ok.mp hfill
  exact ⟨u, halloc, by rw [← Act.modify_eq_ok.mp hset]⟩

/-- Allocating zeroed bytes hands a chunk out and puts zeros, or changes nothing but pages. -/
theorem ends_allocateZeroed (ho : o.Valid) (hwf : s.WF)
    (hsound : Scene.Sound failing marked (s.scene holders)) (count size : Nat) (origin : Origin) :
    Act.Ends (allocateZeroed o count size origin) s
      (fun user t => ∃ b content,
        b.record = .recordAllocation
          { userBegin := user, requestedSize := count * size, actualSize := b.size, origin
            api := .malloc }
        ∧ Session.Goes failing marked s holders
          [.handOut b content, .put user (count * size) fun _ => 0] t holders)
      (Session.Declines (allocateZeroed o count size origin) s) := by
  unfold allocateZeroed
  rw [Act.ends_bind, Act.ends_orRefuse]
  refine ⟨fun total htotal => ?_, fun hnone => .always (.inl trivial) fun q => ?_⟩
  case refine_2 =>
    rw [Act.ends_bind, hnone]
    exact ⟨rfl, rfl⟩
  have hfound := htotal
  obtain ⟨-, rfl⟩ := Word.mul?_eq_some.mp htotal
  rw [Act.ends_bind]
  refine (ends_allocate ho hwf hsound _ _ _ _).imp ?_ fun _ _ hdeclines =>
    hdeclines.imp fun q hrefused => by
      rw [Act.ends_bind, hfound]
      exact hrefused.bind_refused
  rintro user t ⟨b, content, hrecord, -, hgoes⟩
  rw [Act.ends_bind, Session.ends_onHeap]
  refine Act.ends_modify.mpr (Act.ends_pure.mpr ⟨b, content, hrecord, ?_⟩)
  -- What was handed out is a chunk, and zeros are put on its user's bytes.
  have hb : b ∈ (t.scene holders).chunks := by
    rw [hsound.chunks_moves hgoes.moves]
    exact Set.mem_insert _ _
  have hfits := (hsound.moves hgoes.moves).fits b hb.1 hb.2
  have hlt := hfits.lt_past
  have hpast := (hgoes.wf.heap.past_le hb.1).2
  have hend := hgoes.wf.heap.layout.end_lt
  have huser : b.user = Set.Ico user (user + count * size) := by
    unfold Block.user
    rw [hrecord]
    rfl
  rw [hrecord] at hlt
  change user + count * size < b.past at hlt
  refine hgoes.trans (goes_put failing marked _ hgoes.wf hb.1 ?_ huser.ge (hgoes.wf.heap.withFill _ 0 (by omega)))
  rw [hrecord]
  rfl

/-! ## Looking chunks up -/

section Lookup

variable {p : Nat} {c : Chunk}

/-- An address that finds where a block begins finds its chunk. -/
theorem chunk?_of_begin (hwf : h.WF) (hb : b ∈ h.blocks) (hp : h.blockBegin? p = some b.begin) :
    h.chunk? p = some b.chunk := by
  obtain ⟨hclass, -, hrecord⟩ := hwf.begin_spec hb
  unfold Heap.chunk?
  rw [hp]
  show ((h.record? b.begin).bind fun record =>
    some ⟨b.begin, h.blockClass b.begin, record⟩) = some b.chunk
  rw [hrecord, hclass]
  rfl

/-- An address of a block finds its chunk. -/
theorem chunk?_eq (hwf : h.WF) (hb : b ∈ h.blocks) (hp : p ∈ b.extent) :
    h.chunk? p = some b.chunk :=
  chunk?_of_begin hwf hb (hwf.blockBegin?_eq hb hp)

/-- What an address finds is the chunk of a block. -/
theorem of_chunk? (hwf : h.WF) (hfind : h.chunk? p = some c) : ∃ b ∈ h.blocks, c = b.chunk := by
  obtain ⟨block, hblock, hfind⟩ := Option.bind_eq_some_iff.mp hfind
  obtain ⟨record, hrecord, hfind⟩ := Option.bind_eq_some_iff.mp hfind
  obtain ⟨b, hb, rfl⟩ := hwf.of_blockBegin? hblock
  obtain ⟨hclass, -, hrecord'⟩ := hwf.begin_spec hb
  rw [hrecord'] at hrecord
  obtain rfl := Option.some.inj hrecord
  refine ⟨b, hb, ?_⟩
  rw [← Option.some.inj hfind, hclass]
  rfl

/-- A user has the chunk that a live record at this address tells of. -/
theorem userChunk?_eq_some (hwf : h.WF)
    (hfits : ∀ b ∈ h.blocks, b.record.state ≠ .recycled → b.Fits) :
    h.userChunk? p = some c ↔
      ∃ b ∈ h.blocks, b.record.userBegin = p ∧ b.record.state = .allocated ∧ c = b.chunk := by
  unfold Heap.userChunk?
  rw [Option.filter_eq_some_iff, Bool.and_eq_true, beq_iff_eq, beq_iff_eq]
  constructor
  · rintro ⟨hfind, huser, hstate⟩
    obtain ⟨b, hb, rfl⟩ := of_chunk? hwf hfind
    exact ⟨b, hb, huser, hstate, rfl⟩
  · rintro ⟨b, hb, rfl, hstate, rfl⟩
    have hin := (hfits b hb (by rw [hstate]; decide)).userBegin_mem
    exact ⟨chunk?_eq hwf hb hin, rfl, hstate⟩

/-- The size of a user's chunk is the one asked for. -/
theorem usableSize?_eq_some (hwf : h.WF)
    (hfits : ∀ b ∈ h.blocks, b.record.state ≠ .recycled → b.Fits) {n : Nat} :
    h.usableSize? p = some n ↔
      ∃ b ∈ h.blocks, b.record.userBegin = p ∧ b.record.state = .allocated
        ∧ n = b.record.requestedSize := by
  unfold Heap.usableSize?
  rw [Option.map_eq_some_iff]
  constructor
  · rintro ⟨c, hc, rfl⟩
    obtain ⟨b, hb, huser, hstate, rfl⟩ := (userChunk?_eq_some hwf hfits).mp hc
    exact ⟨b, hb, huser, hstate, rfl⟩
  · rintro ⟨b, hb, huser, hstate, rfl⟩
    exact ⟨_, (userChunk?_eq_some hwf hfits).mpr ⟨b, hb, huser, hstate, rfl⟩, rfl⟩

end Lookup

/-! ## Freeing -/

/-- The options refuse a free by another family of calls. -/
def Mismatch (o : RedzoneOptions) (r : ChunkRecord) (api : Api) : Prop :=
  r.api ≠ api ∧ o.allocDeallocMismatch = true ∧ o.haltOnFreeError = true

/-- Why a free at `p` is wrong, given the chunks that there are. -/
inductive Wrong (o : RedzoneOptions) (cs : Set Block) (p : Nat) (api : Api) (tid : Nat) :
    FreeError → Prop where
  | doubleFree (b : Block) (hb : b ∈ cs) (huser : b.record.userBegin = p)
      (hstate : b.record.state = .quarantined) :
      Wrong o cs p api tid
        (.doubleFree p tid b.record.requestedSize b.record.allocated b.record.freed)
  | mismatch (b : Block) (hb : b ∈ cs) (huser : b.record.userBegin = p)
      (hstate : b.record.state = .allocated) (hmismatch : Mismatch o b.record api) :
      Wrong o cs p api tid
        (.allocDeallocMismatch p tid b.record.api api b.record.allocated.stack)
  | invalidFree (hnone : ∀ b ∈ cs, b.record.userBegin ≠ p) :
      Wrong o cs p api tid (.invalidFree p tid)

/-- The calls stop at a mismatch exactly if the options say so. -/
theorem mismatch_iff {r : ChunkRecord} {api : Api} :
    (o.allocDeallocMismatch && r.api != api && o.haltOnFreeError) = true ↔ Mismatch o r api := by
  unfold Mismatch
  rw [Bool.and_eq_true, Bool.and_eq_true, bne_iff_ne]
  exact ⟨fun h => ⟨h.1.2, h.1.1, h.2⟩, fun h => ⟨⟨h.2.1, h.1⟩, h.2.2⟩⟩

/-- A block with a new record is closed. -/
theorem ends_quarantined {ε : Type} {f : ShadowError → ε} (hwf : h.WF) (hb : b ∈ h.blocks) (r : ChunkRecord)
    {n : Nat} (hn : n = b.size) {ok : Unit → Heap → Prop} {no : ε → Heap → Prop}
    (hok : Becomes h { h.setRecord b.begin r with
        shadow := (h.setRecord b.begin r).shadow.poisoned b.begin b.size Shadow.Magic.heapFreed.byte }
        ((h.outline.setRecord b r).close b.extent) →
      ok () { h.setRecord b.begin r with
        shadow := (h.setRecord b.begin r).shadow.poisoned b.begin b.size Shadow.Magic.heapFreed.byte }) :
    Act.Ends (Heap.onShadow f (Shadow.poison b.begin n Shadow.Magic.heapFreed.byte))
      (h.setRecord b.begin r) ok no := by
  subst hn
  obtain ⟨hbegin, hsize⟩ := hwf.granule_dvd hb
  have hset := hwf.setRecord hb r
  have hb' : b.withRecord r ∈ (h.setRecord b.begin r).blocks := by
    rw [hset.blocks]
    exact mem_exchange.mpr (.inl rfl)
  have hclosed := hset.wf.withPoisoned Shadow.Magic.heapFreed.byte hbegin hsize
    (Shadow.addressableBytes_magic _)
  have hpast := hset.wf.past_le (b := b.withRecord r) hb'
  exact Heap.ends_onShadow hset.wf.layout hbegin hpast
    (hok (hset.trans (f := fun o => o.close _) hclosed))

/-- A free takes the chunk that begins there from its user, or is wrong and changes nothing. -/
theorem ends_free (hwf : h.WF) (hfits : ∀ b ∈ h.blocks, b.record.state ≠ .recycled → b.Fits)
    (p : Nat) (api : Api) (origin : Origin) :
    Act.Ends (free o p api origin) h
      (fun freed t => p = 0 ∧ freed = none ∧ t = h
        ∨ p ≠ 0 ∧ ∃ b ∈ h.blocks, b.record.userBegin = p ∧ b.record.state = .allocated
          ∧ ¬ Mismatch o b.record api
          ∧ (∃ f, freed = some f ∧ f.entry = b.entry ∧ f.requestedSize = b.record.requestedSize)
          ∧ (∃ heap, heap = h.setRecord b.begin { b.record with state := .quarantined, freed := origin }
            ∧ t = { heap with shadow := heap.shadow.poisoned b.begin b.size Shadow.Magic.heapFreed.byte })
          ∧ Becomes h t ((h.outline.setRecord b
            { b.record with state := .quarantined, freed := origin }).close b.extent))
      fun e t => t = h ∧ p ≠ 0 ∧ Wrong o h.chunks p api origin.tid e := by
  unfold free
  by_cases hzero : p = 0
  · rw [if_pos hzero]
    exact .inl ⟨hzero, rfl, rfl⟩
  -- A chunk at `p` is found by `p`, as it lies in its block.
  have hfound : ∀ b ∈ h.chunks, b.record.userBegin = p → h.blockBegin? p = some b.begin := by
    rintro b ⟨hb, hstate⟩ rfl
    exact hwf.blockBegin?_eq hb (hfits b hb hstate).userBegin_mem
  rw [if_neg hzero, Act.ends_bind, Act.ends_get]
  cases hblock : h.blockBegin? p with
  | none =>
      refine ⟨rfl, hzero, .invalidFree fun b hb huser => ?_⟩
      rw [hfound b hb huser] at hblock
      exact nomatch hblock
  | some block =>
      obtain ⟨b, hb, rfl⟩ := hwf.of_blockBegin? hblock
      -- There is no chunk at `p` but in the block that is found.
      have honly : ∀ c ∈ h.chunks, c.record.userBegin = p → c = b := by
        intro c hc huser
        rw [hfound c hc huser] at hblock
        exact hwf.tiled.eq_of_begin hc.1 hb (Option.some.inj hblock)
      rw [Act.ends_bind, Act.ends_orRefuse_some, (hwf.begin_spec hb).2.2, Act.ends_bind,
        Act.ends_orRefuse_some]
      by_cases huser : b.record.userBegin = p
      case neg =>
        simp only [ne_eq, huser, not_false_eq_true, if_true, Act.ends_bind, Act.ends_refuse]
        refine ⟨trivial, hzero, .invalidFree fun c hc hcuser => huser ?_⟩
        rw [← honly c hc hcuser]
        exact hcuser
      subst huser
      simp only [ne_eq, not_true_eq_false, if_false]
      cases hstate : b.record.state with
      | recycled =>
          refine ⟨rfl, hzero, .invalidFree fun c hc hcuser => hc.2 ?_⟩
          rw [honly c hc hcuser]
          exact hstate
      | quarantined =>
          exact ⟨rfl, hzero, .doubleFree b ⟨hb, by rw [hstate]; decide⟩ rfl hstate⟩
      | allocated =>
          have hlive : b.record.state ≠ .recycled := by rw [hstate]; decide
          by_cases hwrong : Mismatch o b.record api
          · simp only [mismatch_iff.mpr hwrong, if_true, Act.ends_bind, Act.ends_refuse]
            exact ⟨trivial, hzero, .mismatch b ⟨hb, hlive⟩ rfl hstate hwrong⟩
          · have hpass := Bool.not_eq_true _ ▸ mt mismatch_iff.mp hwrong
            have hactual := (hfits b hb hlive).actual
            simp only [hpass, Bool.false_eq_true, if_false, Act.ends_bind, Act.ends_set]
            refine ends_quarantined hwf hb _ hactual fun hbecomes => ?_
            refine .inr ⟨hzero, b, hb, rfl, hstate, hwrong, ⟨_, rfl, ?_, rfl⟩, ⟨_, rfl, rfl⟩, hbecomes⟩
            unfold Block.entry
            rw [← hactual]

variable (failing marked holders) in
/-- A chunk taken from its user waits in the quarantine. -/
theorem goes_retire {heap : Heap} {freed : Origin} (hwf : s.WF) (hb : b ∈ s.heap.blocks)
    (hstate : b.record.state = .allocated)
    (h : Becomes s.heap heap ((s.heap.outline.setRecord b
      { b.record with state := .quarantined, freed }).close b.extent)) :
    Session.Goes failing marked s holders
      [.retire (b.withRecord { b.record with state := .quarantined, freed })] { s with heap }
      { holders with waiting := b.entry ::ₘ holders.waiting } := by
  refine Session.goes_of_becomes (t := { s with heap }) h rfl hwf ?_
  refine (Moves.one (.retire (s := s.scene holders) b freed hb hstate)).of_eq ?_
  have hidle := Session.idle_eq (s := s) (t := { s with heap }) h.free rfl
  rw [hidle]
  rfl

/-! ## Recycling -/

/-- The blocks after entries of the quarantine were recycled: a small block is free, a large one is
    gone. -/
def recycled (es : List Entry) (blocks : Set Block) : Set Block :=
  {c | c ∈ blocks ∧ (∀ e ∈ es, e.block ≠ c.begin)
    ∨ ∃ b ∈ blocks, (∃ e ∈ es, e.block = b.begin) ∧ b.kind ≠ .large
      ∧ c = b.withRecord b.record.recycle}

theorem recycled_nil {blocks : Set Block} : recycled [] blocks = blocks := by
  refine Set.ext fun c => ⟨?_, fun hc => .inl ⟨hc, List.forall_mem_nil _⟩⟩
  rintro (⟨hc, -⟩ | ⟨-, -, ⟨e, he, -⟩, -⟩)
  · exact hc
  · exact nomatch he

/-- Entries of other blocks are recycled one after the other. -/
theorem recycled_cons {e : Entry} {rest : List Entry} {blocks : Set Block}
    (hrest : ∀ e' ∈ rest, e'.block ≠ e.block) :
    recycled (e :: rest) blocks = recycled rest (recycled [e] blocks) := by
  ext c
  constructor
  · rintro (⟨hc, hout⟩ | ⟨b, hb, ⟨e', he', heq⟩, hsmall, rfl⟩)
    · obtain ⟨hfirst, hout⟩ := List.forall_mem_cons.mp hout
      exact .inl ⟨.inl ⟨hc, List.forall_mem_singleton.mpr hfirst⟩, hout⟩
    · rcases List.mem_cons.mp he' with rfl | he'
      · refine .inl ⟨.inr ⟨b, hb, ⟨e', List.mem_singleton_self _, heq⟩, hsmall, rfl⟩, fun e he => ?_⟩
        exact fun h => hrest e he (h.trans heq.symm)
      · refine .inr ⟨b, .inl ⟨hb, List.forall_mem_singleton.mpr fun h => ?_⟩, ⟨e', he', heq⟩, hsmall, rfl⟩
        exact hrest e' he' (heq.trans h.symm)
  · rintro (⟨⟨hc, hfirst⟩ | ⟨b, hb, ⟨e', he', heq⟩, hsmall, rfl⟩, hout⟩ |
      ⟨d, ⟨hd, -⟩ | ⟨b, hb, ⟨e', he', heq⟩, hsmall, rfl⟩, ⟨e'', he'', heq'⟩, hsmall', rfl⟩)
    · exact .inl ⟨hc, List.forall_mem_cons.mpr ⟨hfirst e (List.mem_singleton_self e), hout⟩⟩
    · obtain rfl := List.mem_singleton.mp he'
      exact .inr ⟨b, hb, ⟨e', List.mem_cons_self, heq⟩, hsmall, rfl⟩
    · exact .inr ⟨d, hd, ⟨e'', List.mem_cons_of_mem _ he'', heq'⟩, hsmall', rfl⟩
    · obtain rfl := List.mem_singleton.mp he'
      exact absurd (heq'.trans heq.symm) (hrest e'' he'')

/-- A block that is given back with a recycled record is recycled. -/
theorem leftBy_exchange (hwf : h.WF) (hb : b ∈ h.blocks) :
    Block.leftBy (b.withRecord b.record.recycle)
        (exchange h.blocks b (b.withRecord b.record.recycle)) = recycled [b.entry] h.blocks := by
  have hbegin : ∀ c ∈ h.blocks, c ≠ b ↔ b.begin ≠ c.begin := fun c hc =>
    ⟨fun hne heq => hne (hwf.tiled.eq_of_begin hc hb heq.symm), fun hne heq => hne (heq ▸ rfl)⟩
  ext c
  constructor
  · rintro ⟨hc, hstays⟩
    rcases mem_exchange.mp hc with rfl | ⟨hc, hne⟩
    · exact .inr ⟨b, hb, ⟨_, List.mem_singleton_self _, rfl⟩, fun hlarge => hstays hlarge rfl, rfl⟩
    · exact .inl ⟨hc, List.forall_mem_singleton.mpr ((hbegin c hc).mp hne)⟩
  · rintro (⟨hc, hout⟩ | ⟨d, hd, ⟨e, he, heq⟩, hsmall, rfl⟩)
    · have hne : b.begin ≠ c.begin := hout b.entry (List.mem_singleton_self _)
      exact ⟨mem_exchange.mpr (.inr ⟨hc, (hbegin c hc).mpr hne⟩), fun _ heq => hne (heq ▸ rfl)⟩
    · obtain rfl := List.mem_singleton.mp he
      obtain rfl := hwf.tiled.eq_of_begin hd hb heq.symm
      exact ⟨mem_exchange.mpr (.inl rfl), fun hlarge => absurd hlarge hsmall⟩

variable (failing marked) in
/-- A chunk that leaves the quarantine is free again, or unmapped, and nobody waits for it. -/
theorem ends_recycle (hwf : s.WF) (hb : b ∈ s.heap.blocks) (hentry : b.entry ∈ holders.waiting) :
    Act.Ends (recycle b.entry) s
      (fun _ t => Session.Goes failing marked s holders [.evict b.entry] t
          { holders with waiting := holders.waiting.erase b.entry }
        ∧ t.heap.blocks = recycled [b.entry] s.heap.blocks)
      fun _ t => s.heap.pages.armed ≠ none
        ∧ Session.Goes failing marked s holders [.evict b.entry] t
          { holders with waiting := holders.waiting.erase b.entry } := by
  unfold recycle
  have hrecord : s.heap.record? b.entry.block = some b.record := (hwf.heap.begin_spec hb).2.2
  simp only [Act.ends_bind, Act.ends_get, hrecord, Act.ends_orRefuse_some]
  rw [Session.ends_onHeap]
  refine Act.ends_modify.mpr ?_
  have hset := hwf.heap.setRecord hb b.record.recycle
  change s.heap.Becomes (s.heap.setRecord b.entry.block b.record.recycle) _ at hset
  generalize s.heap.setRecord b.entry.block b.record.recycle = heap at hset ⊢
  -- The entry is gone, and the block is in hand for a moment.
  have hgoes : Session.Goes failing marked s holders [.evict b.entry] { s with heap }
      ({ holders with waiting := holders.waiting.erase b.entry } |>.hold b.kind b.begin) := by
    refine Session.goes_of_becomes (t := { s with heap }) hset rfl hwf ?_
    refine (Moves.one (.evict (s := s.scene holders) b hb hentry)).of_eq ?_
    rw [Session.idle_eq (s := s) (t := { s with heap }) hset.free rfl, Session.idle_hold]
    rfl
  have hin : b.withRecord b.record.recycle ∈ heap.blocks := by
    rw [hset.blocks]
    exact mem_exchange.mpr (.inl rfl)
  refine (Session.ends_free failing marked { holders with waiting := holders.waiting.erase b.entry }
    hgoes.wf hin).imp ?_ ?_
  · rintro _ t ⟨hfree, hregains⟩
    refine ⟨hgoes.trans hfree, ?_⟩
    rw [hregains.blocks, ← leftBy_exchange hwf.heap hb, hset.blocks]
    rfl
  · rintro _ t ⟨harmed, -, hfree, -⟩
    exact ⟨fun hcalm => harmed (hgoes.calm hcalm), hgoes.trans hfree⟩

end Redzone

end GuardedHeap
