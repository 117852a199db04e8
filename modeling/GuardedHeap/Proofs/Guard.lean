import GuardedHeap.Proofs.Heap.Kept
import GuardedHeap.Proofs.Redzone

/-! # Guards — the exact marks around a fresh chunk

    An allocation finds a block at a multiple of the alignment
    (`Heap.Session.dvd_allocate`) and gives each of its granules a shadow
    byte that depends on the chunk alone, whatever was there before
    (`Shadow.guardCode`); the marks of all other chunks stay
    (`Redzone.allocate_spec`). -/

namespace GuardedHeap

open Act

namespace Shadow

variable {s : Shadow} {addr size user a : Nat}

/-- The shadow byte of an address in a block with a chunk of `size` bytes at `user`. -/
def guardCode (user size a : Nat) : UInt8 :=
  if a < user then Magic.heapLeftRedzone.byte
  else if a < user + size / granule * granule then 0
  else if a < Word.roundUp (user + size) granule then UInt8.ofNat (size % granule)
  else Magic.heapRightRedzone.byte

/-- Rounding up to granules behind a granule. -/
theorem roundUp_granule (size : Nat) (haddr : granule ∣ addr) :
    Word.roundUp (addr + size) granule =
      addr + size / granule * granule + if size % granule = 0 then 0 else granule := by
  rw [Word.roundUp, if_neg (by decide)]
  simp only [granule] at *
  split <;> omega

theorem guardCode_left (ha : a < user) : guardCode user size a = Magic.heapLeftRedzone.byte :=
  if_pos ha

theorem guardCode_whole (hlo : user ≤ a) (hhi : a < user + size / granule * granule) :
    guardCode user size a = 0 := by
  unfold guardCode
  rw [if_neg (by omega), if_pos hhi]

theorem guardCode_partial (hlo : user + size / granule * granule ≤ a)
    (hhi : a < Word.roundUp (user + size) granule) :
    guardCode user size a = UInt8.ofNat (size % granule) := by
  unfold guardCode
  rw [if_neg (by omega), if_neg (by omega), if_pos hhi]

theorem guardCode_right (huser : granule ∣ user) (ha : Word.roundUp (user + size) granule ≤ a) :
    guardCode user size a = Magic.heapRightRedzone.byte := by
  have hround := roundUp_granule size huser
  unfold guardCode
  rw [if_neg (by omega), if_neg (by omega), if_neg (by omega)]

/-- The shadow bytes of a range that was made accessible. -/
theorem code_unpoisoned (haddr : granule ∣ addr) (ha : a < Word.limit)
    (hin : addr ≤ a ∧ a < Word.roundUp (addr + size) granule) :
    (s.poisoned addr size 0).code a =
      if a < addr + size / granule * granule then 0 else UInt8.ofNat (size % granule) := by
  have hg : a / granule < RangeMap.span := by
    simp only [granule, RangeMap.span, Word.limit] at *
    omega
  rw [roundUp_granule size haddr] at hin
  unfold code
  rw [ofGranule_poisoned s 0 hg]
  by_cases hfull : a < addr + size / granule * granule
  · have hmid : addr / granule ≤ a / granule ∧ a / granule < addr / granule + size / granule := by
      simp only [granule] at *
      omega
    rw [if_pos hmid, if_pos hfull]
  · have htail : size % granule ≠ 0 := fun h => by
      rw [if_pos h] at hin
      omega
    rw [if_neg htail] at hin
    have hmid : ¬ (addr / granule ≤ a / granule
        ∧ a / granule < addr / granule + size / granule) := by
      simp only [granule] at *
      omega
    have hlast : a / granule = addr / granule + size / granule := by
      simp only [granule] at *
      omega
    rw [if_neg hmid, if_pos ⟨hlast, htail⟩, if_pos rfl, if_neg hfull]

/-- The guarded bytes that can be accessed are the user's. -/
theorem lt_addressableBytes_guardCode (huser : granule ∣ user) :
    a % granule < addressableBytes (guardCode user size a) ↔ user ≤ a ∧ a < user + size := by
  have hround := roundUp_granule size huser
  have hlt : size % granule < granule := Nat.mod_lt size (by decide)
  have ha : a % granule < granule := Nat.mod_lt a (by decide)
  unfold guardCode
  by_cases hleft : a < user
  · rw [if_pos hleft, addressableBytes_magic]
    omega
  rw [if_neg hleft]
  by_cases hfull : a < user + size / granule * granule
  · rw [if_pos hfull]
    exact iff_of_true ha (by simp only [granule] at *; omega)
  rw [if_neg hfull]
  by_cases htail : size % granule = 0
  · rw [if_pos htail] at hround
    rw [if_neg (by omega), addressableBytes_magic]
    simp only [granule] at *
    omega
  · rw [if_neg htail] at hround
    by_cases hlast : a < Word.roundUp (user + size) granule
    · rw [if_pos hlast, addressableBytes_ofNat hlt htail]
      simp only [granule] at *
      omega
    · rw [if_neg hlast, addressableBytes_magic]
      simp only [granule] at *
      omega

end Shadow

namespace Heap

variable {h t : Heap} {size alignment p c : Nat}

/-! ## Questions -/

/-- The shadow byte of a committed address is the one that the shadow has for it. -/
theorem WF.byteAt_eq (hwf : h.WF) {a : Nat} (ha : a ∈ h.committed) :
    h.shadow.byteAt a = .ok (h.shadow.code a) := by
  obtain ⟨hlo, hhi⟩ := hwf.committed_bounds ha
  unfold Shadow.byteAt
  refine if_pos ?_
  unfold Shadow.covers
  rw [Bool.and_eq_true, decide_eq_true_eq, decide_eq_true_eq, hwf.layout.shadow_begin, hwf.layout.shadow_end]
  exact ⟨hlo, hhi⟩

/-! ## Alignment -/

/-- A large block begins at a multiple of the alignment. -/
theorem dvd_allocateLarge (hact : allocateLarge size alignment h = .ok p t) :
    max alignment Pages.pageSize ∣ p := by
  unfold allocateLarge at hact
  obtain ⟨mapSize, _, -, hact⟩ := bind_eq_ok.mp hact
  obtain ⟨mapBegin, _, -, hact⟩ := bind_eq_ok.mp hact
  obtain ⟨result, _, -, hact⟩ := bind_eq_ok.mp hact
  cases result with
  | error e =>
      obtain ⟨_, _, -, hact⟩ := bind_eq_ok.mp hact
      exact (refuse_eq_ok.mp hact).elim
  | ok _ =>
      obtain ⟨_, _, -, hact⟩ := bind_eq_ok.mp hact
      obtain ⟨user, _, huser, hact⟩ := bind_eq_ok.mp hact
      obtain ⟨_, _, -, hact⟩ := bind_eq_ok.mp hact
      obtain ⟨rfl, -⟩ := pure_eq_ok.mp hact
      obtain ⟨hpos, -, rfl⟩ := Word.nextMultiple_eq_ok.mp (liftM_eq_ok.mp huser).1
      exact Word.dvd_roundUp hpos

/-- The blocks of a class begin at multiples of what divides pages and the size of the class. -/
theorem WF.dvd_begin (hwf : h.WF) {b : Block} (hb : b ∈ h.blocks) (hkind : b.kind = .small c)
    {d : Nat} (hpage : d ∣ Pages.pageSize) (hsize : d ∣ h.classes.size c) : d ∣ b.begin := by
  rcases hb with ⟨s, -, rfl⟩ | ⟨l, -, rfl⟩
  · obtain rfl : s.classId = c := BlockClass.small.inj hkind
    exact Nat.dvd_add (Nat.dvd_trans hpage (hwf.layout.regionBegin_dvd _))
      (Nat.dvd_mul_left_of_dvd hsize _)
  · exact nomatch hkind

namespace Session

variable {failing marked : Prop} {s t : Session} {holders : Holders}

/-- An allocation that returns allocates bytes that have been rounded. -/
theorem of_allocate (hact : allocate size alignment s = .ok p t) :
    Word.isPowerOfTwo alignment = true ∧ ∃ n, allocateRounded n alignment s = .ok p t := by
  unfold allocate at hact
  by_cases hpower : Word.isPowerOfTwo alignment = true
  case neg =>
    rw [if_pos (by simpa using hpower)] at hact
    exact nomatch hact
  rw [if_neg (by simpa using hpower)] at hact
  refine ⟨hpower, ?_⟩
  by_cases hadd : (Word.add? (max size 1) alignment).isNone = true
  case pos =>
    rw [if_pos hadd] at hact
    exact nomatch hact
  rw [if_neg hadd] at hact
  by_cases halign : alignment > Shadow.granule
  · rw [if_pos halign] at hact
    obtain ⟨n, _, hn, hact⟩ := bind_eq_ok.mp hact
    obtain ⟨-, rfl⟩ := liftM_eq_ok.mp hn
    exact ⟨n, hact⟩
  · rw [if_neg halign] at hact
    exact ⟨_, hact⟩

/-- A block begins at a multiple of the alignment that it was allocated for. -/
theorem dvd_allocate (hwf : s.WF) (hsound : Scene.Sound failing marked (s.scene holders))
    (hact : allocate size alignment s = .ok p t) : alignment ∣ p := by
  obtain ⟨hpower, n, hact⟩ := of_allocate hact
  have hpage : Word.isPowerOfTwo Pages.pageSize = true := by decide
  by_cases hsmall : s.heap.canAllocateSmall n alignment = true
  · unfold allocateRounded at hact
    obtain ⟨_, _, hget, hact⟩ := bind_eq_ok.mp hact
    obtain ⟨rfl, rfl⟩ := get_eq_ok.mp hget
    rw [if_pos hsmall] at hact
    obtain ⟨found, _, hread, hact⟩ := bind_eq_ok.mp hact
    obtain ⟨hfound, rfl⟩ := liftM_eq_ok.mp hread
    cases found with
    | none => exact (refuse_eq_ok.mp hact).elim
    | some c =>
        obtain ⟨hc, -⟩ := hwf.heap.layout.classes.alignedClassOf?_spec hfound
        obtain ⟨hgoes, -⟩ := (ends_takeCached failing marked holders hwf hc).of_ok hact
        obtain ⟨b, hb, rfl, hkind, -⟩ := (hsound.moves hgoes.moves).idle_block (.small c) p mem_idle_hold
        refine hgoes.wf.heap.dvd_begin hb hkind ?_ ?_
        · unfold canAllocateSmall at hsmall
          rw [Bool.and_eq_true, decide_eq_true_eq, decide_eq_true_eq] at hsmall
          exact Word.dvd_of_powerOfTwo_le hpower hpage hsmall.2
        · rw [hgoes.classes]
          exact SizeClasses.alignedClassOf?_dvd hfound
  · unfold allocateRounded at hact
    obtain ⟨_, _, hget, hact⟩ := bind_eq_ok.mp hact
    obtain ⟨rfl, rfl⟩ := get_eq_ok.mp hget
    rw [if_neg hsmall] at hact
    obtain ⟨heap, hlarge, -⟩ := onPart_eq_ok.mp hact
    refine Nat.dvd_trans ?_ (dvd_allocateLarge hlarge)
    exact Word.dvd_of_powerOfTwo_le hpower (isPowerOfTwo_max hpower hpage) (Nat.le_max_left _ _)

end Session

end Heap

namespace Redzone

open Heap (Session)

variable {h : Heap} {b : Block} {left size a : Nat}

/-- The right redzone ends with the block. -/
theorem roundUp_past (hwf : h.WF) (hb : b ∈ h.blocks) {right : Nat} (hle : right ≤ b.past) :
    Word.roundUp (right + (b.past - right)) Shadow.granule = b.past := by
  obtain ⟨hbegin, hsize⟩ := hwf.granule_dvd hb
  rw [Nat.add_sub_cancel' hle]
  exact Word.roundUp_of_dvd (by decide) (Nat.dvd_add hbegin hsize)

/-- In a marked block every granule has the shadow byte that its place calls for. -/
theorem code_guarded (hwf : h.WF) (hb : b ∈ h.blocks) (hleft : Shadow.granule ∣ left)
    (hroom : left + size + Shadow.granule ≤ b.size) (ha : a ∈ b.extent) :
    (guarded h.shadow b left size).code a = Shadow.guardCode (b.begin + left) size a := by
  obtain ⟨hbegin, hsize⟩ := hwf.granule_dvd hb
  obtain ⟨hright, hge, hle, hslack⟩ := right_spec hwf hb hroom rfl
  have hlimit := hwf.lt_limit (hwf.extent_subset hb ha)
  have huser : Shadow.granule ∣ b.begin + left := Nat.dvd_add hbegin hleft
  obtain ⟨hlo, hhi⟩ : b.begin ≤ a ∧ a < b.past := ha
  unfold guarded Shadow.guardCode
  dsimp only
  generalize hr : Word.roundUp (b.begin + left + size) Shadow.granule = right at *
  have hpast := roundUp_past hwf hb hle
  by_cases hbehind : right ≤ a
  · have hfull : ¬ a < b.begin + left + size / Shadow.granule * Shadow.granule := by
      have := Shadow.roundUp_granule size huser
      omega
    rw [Shadow.code_poisoned hright hslack hlimit ⟨hbehind, by omega⟩, if_neg (by omega),
      if_neg hfull, if_neg (by omega)]
  rw [Shadow.code_poisoned_of_outside hright hlimit (by omega)]
  by_cases hbefore : a < b.begin + left
  · rw [if_pos hbefore, Shadow.code_poisoned_of_outside huser hlimit (by omega),
      Shadow.code_poisoned hbegin hleft hlimit ⟨hlo, hbefore⟩]
  · rw [if_neg hbefore, Shadow.code_unpoisoned huser hlimit (by omega)]
    by_cases hfull : a < b.begin + left + size / Shadow.granule * Shadow.granule
    · rw [if_pos hfull, if_pos hfull]
    · rw [if_neg hfull, if_neg hfull, if_pos (by omega)]

/-- Outside of the block nothing is marked. -/
theorem code_guarded_of_outside (hwf : h.WF) (hb : b ∈ h.blocks) (hleft : Shadow.granule ∣ left)
    (hroom : left + size + Shadow.granule ≤ b.size) (hlimit : a < Word.limit) (ha : a ∉ b.extent) :
    (guarded h.shadow b left size).code a = h.shadow.code a := by
  obtain ⟨hbegin, hsize⟩ := hwf.granule_dvd hb
  obtain ⟨hright, hge, hle, hslack⟩ := right_spec hwf hb hroom rfl
  have huser : Shadow.granule ∣ b.begin + left := Nat.dvd_add hbegin hleft
  have hout : ¬ (b.begin ≤ a ∧ a < b.past) := ha
  have hleftEnd := Word.roundUp_of_dvd (by decide) huser
  unfold guarded
  dsimp only
  generalize hr : Word.roundUp (b.begin + left + size) Shadow.granule = right at *
  have hpast := roundUp_past hwf hb hle
  rw [Shadow.code_poisoned_of_outside hright hlimit (by omega),
    Shadow.code_poisoned_of_outside huser hlimit (by omega),
    Shadow.code_poisoned_of_outside hbegin hlimit (by omega)]

/-! ## Allocating -/

theorem shadow_setRecord {block : Nat} {r : ChunkRecord} : (h.setRecord block r).shadow = h.shadow := by
  unfold Heap.setRecord
  by_cases hprimary : h.isPrimary block = true
  · rw [if_pos hprimary]
    cases h.locate? block with
    | none => rfl
    | some s =>
        show (h.setSlotRecord s r).shadow = _
        unfold Heap.setSlotRecord
        cases h.regions[s.classId]? <;> rfl
  · rw [if_neg hprimary]

variable {failing marked : Prop} {o : RedzoneOptions} {s t : Session} {holders : Holders}
  {alignment user : Nat} {api : Api} {origin : Origin}

/-- An allocation that returns has marked a block that was found for it. -/
theorem of_allocate (hact : allocate o size alignment api origin s = .ok user t) :
    Word.isPowerOfTwo alignment = true ∧ ∃ block actual u marked,
      Session.allocate (max o.redzone (max alignment Shadow.granule) + size + o.redzone)
          (max alignment Shadow.granule) s = .ok block u
        ∧ user = block + max o.redzone (max alignment Shadow.granule)
        ∧ u.heap.actualSize? block = some actual
        ∧ mark block actual (max o.redzone (max alignment Shadow.granule)) size u.heap = .ok () marked
        ∧ t.heap = (marked.mapPages (·.writeFill user (min size o.maxMallocFillSize)
          (UInt8.ofNat o.mallocFillByte))).setRecord block (.recordAllocation
            { userBegin := user, requestedSize := size, actualSize := actual, origin, api }) := by
  unfold allocate at hact
  by_cases hpower : Word.isPowerOfTwo alignment = true
  case neg =>
    rw [if_pos (by simpa using hpower)] at hact
    exact nomatch hact
  rw [if_neg (by simpa using hpower)] at hact
  refine ⟨hpower, ?_⟩
  dsimp only at hact
  generalize max o.redzone (max alignment Shadow.granule) = left at hact ⊢
  obtain ⟨padded, _, hread, hact⟩ := bind_eq_ok.mp hact
  obtain ⟨hpadded, rfl⟩ := orRefuse_eq_ok.mp hread
  obtain ⟨sum, hsum, hsum'⟩ := Option.bind_eq_some_iff.mp hpadded
  obtain ⟨-, rfl⟩ := Word.add?_eq_some.mp hsum
  obtain ⟨-, rfl⟩ := Word.add?_eq_some.mp hsum'
  obtain ⟨block, u, hblock, hact⟩ := bind_eq_ok.mp hact
  obtain ⟨_, _, hget, hact⟩ := bind_eq_ok.mp hact
  obtain ⟨rfl, rfl⟩ := get_eq_ok.mp hget
  obtain ⟨actual, _, hread, hact⟩ := bind_eq_ok.mp hact
  obtain ⟨hactual, rfl⟩ := orRefuse_eq_ok.mp hread
  obtain ⟨record, _, hread, hact⟩ := bind_eq_ok.mp hact
  obtain ⟨-, rfl⟩ := orRefuse_eq_ok.mp hread
  obtain ⟨_, v, hrun, hact⟩ := bind_eq_ok.mp hact
  obtain ⟨rfl, rfl⟩ := pure_eq_ok.mp hact
  obtain ⟨heap, hinner, rfl⟩ := onPart_eq_ok.mp hrun
  obtain ⟨_, marked, hmark, hset⟩ := bind_eq_ok.mp hinner
  exact ⟨block, actual, u, marked, hblock, rfl, hactual, hmark, (modify_eq_ok.mp hset).symm⟩

/-- What an allocation leaves behind: its block begins at a multiple of the alignment, has full redzones
    and the marks of its chunk; the marks of all other chunks are as before. -/
theorem allocate_spec (ho : o.Valid) (hwf : s.WF) (hsound : Scene.Sound failing marked (s.scene holders))
    (hact : allocate o size alignment api origin s = .ok user t) :
    Shadow.granule ∣ max alignment Shadow.granule ∧ max alignment Shadow.granule ∣ user
      ∧ ∃ b ∈ t.heap.blocks, b.record = .recordAllocation
          { userBegin := user, requestedSize := size, actualSize := b.size, origin, api }
        ∧ b.begin + max o.redzone (max alignment Shadow.granule) = user
        ∧ user + size + o.redzone ≤ b.past
        ∧ (∀ a ∈ b.extent, t.heap.shadow.code a = Shadow.guardCode user size a)
        ∧ ∀ c ∈ s.heap.chunks, c ∈ t.heap.chunks
          ∧ ∀ a ∈ c.extent, t.heap.shadow.code a = s.heap.shadow.code a := by
  obtain ⟨hpower, block, actual, u, heap, hblock, rfl, hactual, hmark, ht⟩ := of_allocate hact
  have hleft := granule_dvd_left ho hpower
  have halign := isPowerOfTwo_max hpower (show Word.isPowerOfTwo Shadow.granule = true by decide)
  have hleftAlign : max alignment Shadow.granule ∣ max o.redzone (max alignment Shadow.granule) :=
    Word.dvd_of_powerOfTwo_le halign (isPowerOfTwo_max ho.power halign) (Nat.le_max_right _ _)
  have hdvd := Session.dvd_allocate hwf hsound hblock
  obtain ⟨k, hgoes, hroom, -⟩ := (Session.ends_allocate failing marked holders hwf _ _).of_ok hblock
  have hsound' := hsound.moves hgoes.moves
  obtain ⟨b, hb, rfl, rfl, hrecycled⟩ := hsound'.idle_block k block Session.mem_idle_hold
  have hroom := hroom b hb rfl rfl
  have hwf' := hgoes.wf.heap
  obtain rfl : b.size = actual := Option.some.inj ((hwf'.begin_spec hb).2.1.symm.trans hactual)
  have hge : Shadow.granule ≤ o.redzone := ho.granule_le
  have hroom' : max o.redzone (max alignment Shadow.granule) + size + Shadow.granule ≤ b.size := by omega
  have hlast : b.past = b.begin + b.size := rfl
  -- What was marked is filled, and gets its record.
  have hmarked := (ends_mark size hwf' hb hleft hroom' : Act.Ends _ _ _ fun _ _ => True).of_ok hmark
  have hends : Act.Ends (mark b.begin b.size (max o.redzone (max alignment Shadow.granule)) size) u.heap
      (fun _ t => t.shadow =
        guarded u.heap.shadow b (max o.redzone (max alignment Shadow.granule)) size) fun _ _ => True :=
    ends_guarded size hwf' hb hleft hroom' rfl
  have hshadow := hends.of_ok hmark
  generalize max o.redzone (max alignment Shadow.granule) = left at *
  have hfill : min size o.maxMallocFillSize ≤ size := Nat.min_le_left _ _
  generalize hr : ChunkRecord.recordAllocation
    { userBegin := b.begin + left, requestedSize := size, actualSize := b.size, origin, api } = r at ht
  have hset := becomes_recorded hwf' hb hmarked (b.begin + left) (n := min size o.maxMallocFillSize)
    (UInt8.ofNat o.mallocFillByte) r (by omega)
  rw [← ht] at hset
  have hcode : ∀ a, t.heap.shadow.code a = (guarded u.heap.shadow b left size).code a := fun a => by
    rw [ht, shadow_setRecord]
    show heap.shadow.code a = _
    rw [hshadow]
  have hgranule : Shadow.granule ∣ max alignment Shadow.granule :=
    Word.dvd_of_powerOfTwo_le (by decide) halign (Nat.le_max_right _ _)
  refine ⟨hgranule, Nat.dvd_add hdvd hleftAlign, b.withRecord r, ?_, hr.symm, rfl, by show _ ≤ b.past; omega, ?_, ?_⟩
  · rw [hset.blocks]
    exact mem_exchange.mpr (.inl rfl)
  · intro a ha
    rw [hcode]
    exact code_guarded hwf' hb hleft hroom' ha
  · intro c hc
    obtain ⟨b', content, -, -, hall⟩ := (ends_allocate ho hwf hsound size alignment api origin).of_ok hact
    refine ⟨?_, fun a ha => ?_⟩
    · show c ∈ (t.scene holders).chunks
      rw [hsound.chunks_moves hall.moves]
      exact Set.mem_insert_of_mem _ hc
    · -- The other chunk is in the way of neither the marks nor the pages that were new.
      have hcommitted := hwf.heap.extent_subset hc.1 ha
      have hstay : c ∈ u.heap.chunks := by
        show c ∈ (u.scene (holders.hold b.kind b.begin)).chunks
        rw [hsound.chunks_moves hgoes.moves]
        exact hc
      have hne : c ≠ b := fun heq => hc.2 (heq ▸ hrecycled)
      have hout : a ∉ b.extent := fun hab =>
        Set.disjoint_left.mp (hwf'.tiled.apart c hstay.1 b hb hne) ha hab
      rw [hcode, code_guarded_of_outside hwf' hb hleft hroom' (hwf.heap.lt_limit hcommitted) hout]
      exact (hwf.heap.leaves_allocate hcommitted _ _).of_ok hblock

end Redzone

end GuardedHeap
