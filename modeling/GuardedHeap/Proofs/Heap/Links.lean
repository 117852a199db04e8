import GuardedHeap.Proofs.Sanitizer.Beginning
import GuardedHeap.Proofs.Tight

/-! # Links — the list of the live large blocks

    What a run of calls keeps of the list, the spans and the counters
    (`LargeRun.keeps`): the blocks of the list are the ones that were asked
    for and not given back since, newest first, and the lookups answer for
    these.  A lookup that follows the links answers the same
    (`LargeRun.searches_follow_links`). -/

namespace GuardedHeap

open Act

/-! ## Pieces of the range -/

/-- The addresses of a span. -/
def Span.extent (s : Span) : Set Nat :=
  Set.Ico s.begin s.past

/-- The span of a mapping. -/
def LargeBlock.span (b : LargeBlock) : Span :=
  ⟨b.mapBegin, b.mapSize⟩

namespace Large

variable {l : Large} {b : LargeBlock} {p : Nat}

/-- The free spans and the mappings of the live blocks. -/
def pieces (l : Large) : List Span :=
  l.spans.free ++ l.blocks.map LargeBlock.span

/-- Free spans and mappings do not overlap. -/
theorem WF.pieces_apart (h : l.WF) : l.pieces.Pairwise fun s t => Disjoint s.extent t.extent := by
  refine List.pairwise_append.mpr ⟨?_, ?_, ?_⟩
  · refine h.spans.apart.spans.imp fun {s t} hlt => Set.disjoint_left.mpr fun a hs ht => ?_
    exact absurd (Nat.lt_trans hs.2 hlt) (Nat.not_lt_of_le ht.1)
  · have hapart := h.apart
    rw [bodies, List.pairwise_map] at hapart
    exact List.pairwise_map.mpr hapart
  · intro s hs t ht
    obtain ⟨b, hb, rfl⟩ := List.mem_map.mp ht
    refine Set.disjoint_left.mpr fun a hsa hta => ?_
    exact h.taken _ (List.mem_map_of_mem hb) a hta (.inl ⟨s, hs, hsa⟩)

/-- Together they cover the range up to the bump pointer. -/
theorem Tight.pieces_cover (htight : l.Tight) (h : l.WF) (a : Nat) :
    (∃ s ∈ l.pieces, a ∈ s.extent) ↔ l.begin ≤ a ∧ a < l.spans.bump := by
  have hle : l.spans.bump ≤ l.past := h.spans_past ▸ h.spans.bump_le
  constructor
  · rintro ⟨s, hs, ha⟩
    rcases List.mem_append.mp hs with hs | hs
    · exact h.spans.chain.covered_bounds ⟨s, hs, ha⟩
    · obtain ⟨b, hb, rfl⟩ := List.mem_map.mp hs
      have hb' := List.mem_map_of_mem (f := LargeBlock.body) hb
      have hplaced := h.placed _ hb'
      have hpast : a < l.past := Nat.lt_of_lt_of_le ha.2 hplaced.le_hi
      refine ⟨Nat.le_trans hplaced.lo_le ha.1, Nat.lt_of_not_le fun hbump => ?_⟩
      -- Behind the bump pointer all is free.
      exact h.taken _ hb' a ha (.inr ⟨hbump, h.spans_past ▸ hpast⟩)
  · rintro ⟨hlo, hhi⟩
    rcases htight.covered a hlo (Nat.lt_of_lt_of_le hhi hle) with (⟨s, hs, ha⟩ | hbehind) | ⟨c, hc, ha⟩
    · exact ⟨s, List.mem_append_left _ hs, ha⟩
    · exact absurd hbehind.1 (Nat.not_le_of_lt hhi)
    · obtain ⟨b, hb, rfl⟩ := List.mem_map.mp hc
      exact ⟨b.span, List.mem_append_right _ (List.mem_map_of_mem hb), ha⟩

/-! ## Lookups -/

/-- What is found is the one block whose mapping covers the address, up to the end of the block. -/
theorem WF.find?_eq_some_iff (h : l.WF) :
    l.find? p = some b ↔ b ∈ l.blocks ∧ b.mapBegin ≤ p ∧ p < b.past := by
  constructor
  · intro hfind
    obtain ⟨-, -, -, hcovers⟩ := of_find? hfind
    exact ⟨mem_blocks_of_find? hfind, hcovers⟩
  · rintro ⟨hb, hlo, hhi⟩
    obtain ⟨c, hfind, hbody⟩ := h.find?_eq (List.mem_map_of_mem hb) hlo hhi
    have husers := h.users_nodup
    rw [bodies, List.map_map] at husers
    have huser : c.user = b.user := congrArg (·.user) hbody
    rw [hfind, List.inj_on_of_nodup_map husers (mem_blocks_of_find? hfind) hb huser]

/-- An address is known where a live block begins. -/
theorem WF.isMine_iff (h : l.WF) : l.isMine p = true ↔ p ∈ l.blocks.map (·.user) := by
  unfold isMine
  constructor
  · intro hmine
    obtain ⟨b, hat⟩ := Option.isSome_iff_exists.mp hmine
    obtain ⟨-, rfl⟩ := of_blockAt? hat
    exact List.mem_map_of_mem (mem_blocks_of_blockAt? hat)
  · intro hmem
    obtain ⟨b, hb, rfl⟩ := List.mem_map.mp hmem
    obtain ⟨c, hat, -⟩ := h.blockAt?_eq (List.mem_map_of_mem hb)
    exact Option.isSome_iff_exists.mpr ⟨c, hat⟩

/-! ## Blocks that were asked for -/

/-- A block that was asked for, and where it was put. -/
structure Grant where
  user : Nat
  size : Nat
  alignment : Nat
  deriving DecidableEq, Repr

/-- The list holds these blocks, in this order and aligned as they were asked for. -/
structure Grants (l : Large) (live : List Grant) : Prop where
  asked : l.blocks.map (fun b => (b.user, b.size)) = live.map fun g => (g.user, g.size)
  aligned : ∀ g ∈ live, max g.alignment Pages.pageSize ∣ g.user

namespace Grants

variable {live : List Grant}

theorem users (h : l.Grants live) : l.blocks.map (·.user) = live.map (·.user) := by
  have hfst := congrArg (List.map Prod.fst) h.asked
  rwa [List.map_map, List.map_map] at hfst

theorem length (h : l.Grants live) : l.blocks.length = live.length := by
  have hlen := congrArg List.length h.asked
  rwa [List.length_map, List.length_map] at hlen

theorem link (h : l.Grants live) {alignment : Nat} (hdvd : max alignment Pages.pageSize ∣ b.user) :
    (l.link b).Grants (⟨b.user, b.size, alignment⟩ :: live) where
  asked := by
    have hbodies := congrArg (List.map fun b => (b.user, b.size)) (bodies_link (l := l) (b := b))
    rw [bodies, bodies, List.map_cons, List.map_map, List.map_map] at hbodies
    rw [List.map_cons, ← h.asked]
    exact hbodies
  aligned g hg := by
    rcases List.mem_cons.mp hg with rfl | hg
    · exact hdvd
    · exact h.aligned g hg

theorem unlink (h : l.Grants live) : (l.unlink b).Grants (live.filter (·.user ≠ b.user)) where
  asked := by
    have hbodies := congrArg (List.map fun b => (b.user, b.size)) (bodies_unlink (l := l) (b := b))
    rw [bodies, bodies, List.filter_map, List.map_map, List.map_map] at hbodies
    refine Eq.trans hbodies ?_
    have hfilter := congrArg (List.filter fun q : Nat × Nat => q.1 ≠ b.user) h.asked
    rw [List.filter_map, List.filter_map] at hfilter
    exact hfilter
  aligned g hg := h.aligned g (List.mem_of_mem_filter hg)

end Grants

/-- The list of the live blocks is in order, and holds what was asked for. -/
structure Keeps (l : Large) (live : List Grant) : Prop where
  tight : l.Tight
  grants : l.Grants live

/-- The blocks of the list are `live`: each has a header, a place of its own and an entry in the
    counters, and with the free spans they make up all of the range that is in use. -/
structure Orderly (l : Large) (live : List Grant) : Prop where
  asked : l.blocks.map (fun b => (b.user, b.size)) = live.map fun g => (g.user, g.size)
  linked : l.Linked
  headers : (LargeBlock.headers l.blocks).Nodup
  followed : ∀ n, l.count ≤ n → l.follow n l.head = l.blocks
  count : l.count = live.length
  totalMapped : l.totalMapped = (l.blocks.map (·.mapSize)).sum
  inside : ∀ b ∈ l.blocks, l.begin ≤ b.mapBegin ∧ b.mapBegin + b.mapSize ≤ l.past
  apart : l.pieces.Pairwise fun s t => Disjoint s.extent t.extent
  tiled : ∀ a, (∃ s ∈ l.pieces, a ∈ s.extent) ↔ l.begin ≤ a ∧ a < l.spans.bump
  placed : ∀ b ∈ l.blocks, b.mapBegin + Pages.pageSize ≤ b.user
    ∧ b.user + Word.roundUp b.size Pages.pageSize ≤ b.mapBegin + b.mapSize
  aligned : ∀ g ∈ live, max g.alignment Pages.pageSize ∣ g.user

theorem Keeps.in_order {live : List Grant} (h : l.Keeps live) (hwf : l.WF) (hpos : 0 < l.begin) :
    l.Orderly live where
  asked := h.grants.asked
  linked := h.tight.linked
  headers := (hwf.headed hpos).nodup
  followed n hn := by
    refine h.tight.linked.follow (hwf.headed hpos) (Nat.le_trans (Nat.le_of_eq ?_) hn)
    rw [h.tight.count, bodies, List.length_map]
  count := by
    rw [h.tight.count, bodies, List.length_map]
    exact h.grants.length
  totalMapped := by
    have htotal := h.tight.totalMapped
    rwa [bodies, List.map_map] at htotal
  inside b hb := by
    have hplaced := hwf.placed _ (List.mem_map_of_mem hb)
    exact ⟨hplaced.lo_le, hplaced.le_hi⟩
  apart := hwf.pieces_apart
  tiled := h.tight.pieces_cover hwf
  placed b hb := by
    have hplaced := hwf.placed _ (List.mem_map_of_mem hb)
    exact ⟨hplaced.header_le, hplaced.past_le⟩
  aligned := h.grants.aligned

end Large

/-! ## Calls -/

namespace Heap

open Large (Grant Grants)

variable {h t : Heap} {live : List Grant} {size alignment p : Nat} {e : Halt AllocError}

/-- Without failures of the operating system a block is mapped or the heap stays as it is. -/
theorem WF.allocateLarge_cases (hwf : h.WF) (hcalm : h.pages.armed = none) (hsize : 1 ≤ size)
    (halign : Word.isPowerOfTwo alignment = true) :
    (∃ p t, allocateLarge size alignment h = .ok p t)
      ∨ ∃ e, allocateLarge size alignment h = .error (.refused e) h ∧ ∀ m, e ≠ .map m := by
  rcases ends_iff.mp (ends_allocateLarge hwf hsize halign) with ⟨p, t, hact, -⟩ | ⟨e, t, hact, hno⟩
  · exact .inl ⟨p, t, hact⟩
  · refine .inr ⟨e, ?_⟩
    rcases hno.blames with ⟨-, harmed⟩ | ⟨hreason, hall⟩
    · exact absurd hcalm harmed
    · obtain ⟨-, rfl⟩ := (hall h.pages).of_refused hact
      exact ⟨hact, AllocError.ne_map hreason⟩

/-- Without failures of the operating system a block that is live is unmapped, and any other address
    is refused. -/
theorem WF.freeLarge_cases (hwf : h.WF) (hcalm : h.pages.armed = none) (p : Nat) :
    (h.large.isMine p = true ∧ ∃ t, freeLarge p h = .ok () t)
      ∨ h.large.isMine p = false ∧ freeLarge p h = .error (.refused (.unknownPointer p)) h := by
  unfold Large.isMine
  cases hat : h.large.blockAt? p with
  | some b =>
      obtain ⟨hb, rfl⟩ := Large.WF.of_blockAt? hat
      obtain ⟨gone, -, -, hends⟩ := ends_freeLarge hwf (b := b.body.block) (.inr ⟨_, hb, rfl⟩) rfl
      rcases ends_iff.mp hends with ⟨⟨⟩, t, hact, -⟩ | ⟨e, t, -, -, -, harmed⟩
      · exact .inl ⟨rfl, t, hact⟩
      · exact absurd hcalm harmed
  | none =>
      have hrefused : Act.Ends (freeLarge p) h (fun _ _ => False)
          fun e t => e = .unknownPointer p ∧ t = h := by
        unfold freeLarge
        rw [ends_bind, ends_get, ends_bind, ends_orRefuse, hat]
        exact ⟨nofun, fun _ => ⟨rfl, rfl⟩⟩
      rcases ends_iff.mp hrefused with ⟨_, _, -, hfalse⟩ | ⟨e, t, hact, rfl, rfl⟩
      · exact hfalse.elim
      · exact .inr ⟨rfl, hact⟩

/-- A block that is mapped is put in front of the list. -/
theorem WF.keeps_allocateLarge (hwf : h.WF) (hkeeps : h.large.Keeps live)
    (halign : Word.isPowerOfTwo alignment = true) (hact : allocateLarge size alignment h = .ok p t) :
    t.large.Keeps (⟨p, size, alignment⟩ :: live) := by
  obtain ⟨mapSize, mapBegin, spans, -, -, hlarge⟩ := of_allocateLarge hact
  have hdvd := dvd_allocateLarge hact
  refine ⟨hwf.tight_allocateLarge hkeeps.tight halign hact, ?_⟩
  have hgrants : ({ h.large with spans } : Large).Grants live := ⟨hkeeps.grants.asked, hkeeps.grants.aligned⟩
  rw [hlarge]
  exact hgrants.link hdvd

/-- A block that is unmapped is taken out of the list, wherever it was. -/
theorem WF.keeps_freeLarge (hwf : h.WF) (hkeeps : h.large.Keeps live)
    (hact : freeLarge p h = .ok () t) : t.large.Keeps (live.filter (·.user ≠ p)) := by
  obtain ⟨b, hat, hlarge⟩ := of_freeLarge hact
  have htight := hwf.tight_freeLarge hkeeps.tight hact
  obtain ⟨-, rfl⟩ := Large.WF.of_blockAt? hat
  have hgrants := hkeeps.grants.unlink (b := b)
  rw [hlarge] at htight ⊢
  exact ⟨htight, hgrants.asked, hgrants.aligned⟩

/-- A heap after any calls for large blocks, on a machine where no failures are set up; `live` are
    the blocks that were mapped and not unmapped since, the newest first. -/
inductive LargeRun : List Grant → Heap → Prop where
  | start {h : Heap} {size : Nat} (hwf : h.WF) (hlarge : h.large = Large.new h.large.begin size)
      (hcalm : h.pages.armed = none) : LargeRun [] h
  | mapped {live : List Grant} {h t : Heap} {size alignment p : Nat} (hrun : LargeRun live h)
      (hsize : 1 ≤ size) (halign : Word.isPowerOfTwo alignment = true)
      (hact : allocateLarge size alignment h = .ok p t) : LargeRun (⟨p, size, alignment⟩ :: live) t
  | notMapped {live : List Grant} {h t : Heap} {size alignment : Nat} {e : Halt AllocError}
      (hrun : LargeRun live h) (hsize : 1 ≤ size) (halign : Word.isPowerOfTwo alignment = true)
      (hact : allocateLarge size alignment h = .error e t) : LargeRun live t
  | unmapped {live : List Grant} {h t : Heap} {p : Nat} (hrun : LargeRun live h)
      (hact : freeLarge p h = .ok () t) : LargeRun (live.filter (·.user ≠ p)) t
  | notUnmapped {live : List Grant} {h t : Heap} {p : Nat} {e : Halt AllocError}
      (hrun : LargeRun live h) (hact : freeLarge p h = .error e t) : LargeRun live t

namespace LargeRun

/-- The heap stays well-formed, no failure appears, and the list stays in order: one case for each
    call and outcome. -/
theorem keeps (hrun : LargeRun live h) :
    h.WF ∧ h.pages.armed = none ∧ h.large.Keeps live := by
  induction hrun with
  | start hwf hlarge hcalm =>
      refine ⟨hwf, hcalm, ?_⟩
      rw [hlarge]
      exact ⟨.new .., rfl, nofun⟩
  | mapped _ hsize halign hact ih =>
      obtain ⟨hwf, hcalm, hkeeps⟩ := ih
      have hbecomes := ((ends_allocateLarge hwf hsize halign).of_ok hact).2.2
      exact ⟨hbecomes.wf, hbecomes.calm hcalm, hwf.keeps_allocateLarge hkeeps halign hact⟩
  | notMapped _ hsize halign hact ih =>
      obtain ⟨hwf, hcalm, hkeeps⟩ := ih
      rcases hwf.allocateLarge_cases hcalm hsize halign with ⟨p, t, hok⟩ | ⟨e, hno, -⟩
      · exact nomatch hok.symm.trans hact
      · obtain ⟨-, rfl⟩ := EStateM.Result.error.inj (hno.symm.trans hact)
        exact ⟨hwf, hcalm, hkeeps⟩
  | unmapped _ hact ih =>
      obtain ⟨hwf, hcalm, hkeeps⟩ := ih
      obtain ⟨b, hat, -⟩ := of_freeLarge hact
      obtain ⟨hb, rfl⟩ := Large.WF.of_blockAt? hat
      obtain ⟨gone, -, -, hends⟩ := ends_freeLarge hwf (b := b.body.block) (.inr ⟨_, hb, rfl⟩) rfl
      have hbecomes := (hends.of_ok hact).1
      exact ⟨hbecomes.wf, hbecomes.calm hcalm, hwf.keeps_freeLarge hkeeps hact⟩
  | notUnmapped _ hact ih =>
      obtain ⟨hwf, hcalm, hkeeps⟩ := ih
      rcases hwf.freeLarge_cases hcalm _ with ⟨-, t, hok⟩ | ⟨-, hno⟩
      · exact nomatch hok.symm.trans hact
      · obtain ⟨-, rfl⟩ := EStateM.Result.error.inj (hno.symm.trans hact)
        exact ⟨hwf, hcalm, hkeeps⟩

/-- After any calls the lookups find what following the links from the head finds. -/
theorem searches_follow_links (hrun : LargeRun live h) (p : Nat) :
    h.large.isMine p = h.large.isLinked p ∧ h.large.find? p = h.large.seekBlock? p := by
  obtain ⟨hwf, -, hkeeps⟩ := hrun.keeps
  have hcount : h.large.count = h.large.blocks.length := by
    rw [hkeeps.tight.count, Large.bodies, List.length_map]
  have hlinked := hkeeps.tight.linked
  exact ⟨(hlinked.isLinked_eq hwf.large hwf.large_begin_pos hcount p).symm,
    (hlinked.seekBlock?_eq (hwf.large.headed hwf.large_begin_pos) hcount p).symm⟩

/-- After any calls the list is in order, and answers for the blocks that are live: an address is
    known exactly where one of them begins, an address is found in the one whose mapping covers it,
    and what can be unmapped is what is known. -/
theorem orderly (hrun : LargeRun live h) :
    h.large.Orderly live
      ∧ (∀ p, h.large.isMine p = true ↔ ∃ g ∈ live, g.user = p)
      ∧ (∀ p b, h.large.find? p = some b ↔ b ∈ h.large.blocks
        ∧ b.mapBegin ≤ p ∧ p < b.user + Word.roundUp b.size Pages.pageSize)
      ∧ ∀ p, (∃ t, freeLarge p h = .ok () t) ↔ h.large.isMine p = true := by
  obtain ⟨hwf, hcalm, hkeeps⟩ := hrun.keeps
  refine ⟨hkeeps.in_order hwf.large hwf.large_begin_pos, fun p => ?_, fun p b => ?_, fun p => ?_⟩
  · rw [hwf.large.isMine_iff, hkeeps.grants.users, List.mem_map]
  · exact hwf.large.find?_eq_some_iff
  · rcases hwf.freeLarge_cases hcalm p with ⟨hmine, hok⟩ | ⟨hmine, hno⟩
    · exact iff_of_true hok hmine
    · refine iff_of_false ?_ (Bool.not_eq_true _ ▸ hmine)
      rintro ⟨t, hok⟩
      exact nomatch hok.symm.trans hno

/-- A block between two others is unmapped, and its span is free below the bump pointer. -/
theorem orderly_around_gap :
    ∃ live h, LargeRun live h ∧ live.length = 2 ∧ h.large.spans.free.length = 1
      ∧ h.large.Orderly live := by
  -- Three blocks side by side, of which the middle one is freed.
  have hplays : (match create .compact 16 24 {} with
    | .ok h₀ _ =>
      match allocateLarge 5000 8 h₀ with
      | .ok _ h₁ =>
        match allocateLarge 1 65536 h₁ with
        | .ok p h₂ =>
          match allocateLarge 4096 8 h₂ with
          | .ok _ h₃ =>
            match freeLarge p h₃ with
            | .ok () h₄ => h₄.large.count == 2 && h₄.large.spans.free.length == 1
            | .error _ _ => false
          | .error _ _ => false
        | .error _ _ => false
      | .error _ _ => false
    | .error _ _ => false) = true := by
    decide +kernel
  split at hplays <;> try contradiction
  rename_i h₀ q hcreate
  split at hplays <;> try contradiction
  rename_i p₁ h₁ hfirst
  split at hplays <;> try contradiction
  rename_i p₂ h₂ hsecond
  split at hplays <;> try contradiction
  rename_i p₃ h₃ hthird
  split at hplays <;> try contradiction
  rename_i h₄ hfree
  obtain ⟨hcount, hgap⟩ := (Bool.and_eq_true _ _).mp hplays
  obtain ⟨hwf, ⟨-, -, -, begin, size, hlarge⟩, -, hcalms⟩ :=
    (endsOrStops_create SizeClasses.valid_compact (by decide) (by decide) (by decide)).of_ok hcreate
  have hstart : LargeRun [] h₀ := by
    refine .start hwf (?_ : h₀.large = Large.new h₀.large.begin size) (hcalms rfl)
    rw [hlarge]
    rfl
  have hrun := (((hstart.mapped (by decide) (by decide) hfirst).mapped (by decide) (by decide)
    hsecond).mapped (by decide) (by decide) hthird).unmapped hfree
  obtain ⟨horderly, -⟩ := hrun.orderly
  refine ⟨_, h₄, hrun, ?_, beq_iff_eq.mp hgap, horderly⟩
  rw [← horderly.count]
  exact beq_iff_eq.mp hcount

end LargeRun

end Heap

end GuardedHeap
