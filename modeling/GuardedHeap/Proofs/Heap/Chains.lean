import GuardedHeap.Proofs.Heap.Large

/-! # Chains — the links between the live large blocks

    The headers of the live blocks are chained in both directions, from a
    head pointer on (`Large.Linked`).  A new block goes in front, and a block
    that leaves is bridged by its neighbours, wherever in the list it was.
    The lookups of the allocator follow the links from the head
    (`Large.seek`): they find what looking through the list of the live
    blocks finds (`Large.Linked.seek_head`). -/

namespace GuardedHeap

/-! ## Chains of headers -/

namespace LargeBlock

/-- The addresses of the headers. -/
def headers (xs : List LargeBlock) : List Nat :=
  xs.map header

/-- Every block links to the header before it and to the one after it; `before` and `after` are
    the headers at the ends, zero for none. -/
def Chained (before after : Nat) : List LargeBlock → Prop
  | [] => True
  | b :: rest =>
    b.prev = before ∧ b.next = (headers rest).headD after ∧ Chained b.header after rest

variable {b c : LargeBlock} {before after : Nat} {xs ys : List LargeBlock}

@[simp] theorem chained_nil : Chained before after [] :=
  trivial

@[simp] theorem chained_cons :
    Chained before after (b :: xs) ↔
      b.prev = before ∧ b.next = (headers xs).headD after ∧ Chained b.header after xs := by
  rw [Chained]

@[simp] theorem headers_cons : headers (b :: xs) = b.header :: headers xs :=
  List.map_cons

@[simp] theorem headers_append : headers (xs ++ ys) = headers xs ++ headers ys :=
  List.map_append

/-- The header of a block is one of the headers. -/
theorem header_mem (h : b ∈ xs) : b.header ∈ headers xs :=
  List.mem_map_of_mem h

/-- The head of what is appended is the first there is. -/
theorem headD_append {l r : List Nat} : (l ++ r).headD after = l.headD (r.headD after) := by
  cases l with
  | nil => rw [List.nil_append, List.headD_nil]
  | cons n rest => rw [List.cons_append, List.headD_cons, List.headD_cons]

/-- A chain can be cut anywhere. -/
theorem chained_append :
    Chained before after (xs ++ ys) ↔
      Chained before ((headers ys).headD after) xs
        ∧ Chained ((headers xs).getLastD before) after ys := by
  induction xs generalizing before with
  | nil => simp [headers]
  | cons b rest ih =>
      rw [List.cons_append, chained_cons, chained_cons, headers_cons, List.getLastD_cons, ih,
        headers_append, headD_append]
      simp only [and_assoc]

/-! ## A block in front -/

/-- The first block of a chain can link to another header before the chain. -/
theorem Chained.behind (h : Chained before after (c :: xs)) (front : Nat) :
    Chained front after ({ c with prev := front } :: xs) := by
  obtain ⟨-, hnext, hrest⟩ := chained_cons.mp h
  exact chained_cons.mpr ⟨rfl, hnext, hrest⟩

/-! ## Bridging a block that leaves -/

/-- The header of a block is where the block says. -/
theorem header_eq (h : b.user = c.user) : b.header = c.header := by
  unfold header
  rw [h]

/-- A link that is bridged moves no header. -/
@[simp] theorem header_bridge : (Large.bridge b c).header = c.header :=
  header_eq (congrArg (·.user) (Large.body_bridge b c))

@[simp] theorem headers_bridge : headers (xs.map (Large.bridge b)) = headers xs := by
  simp only [headers, List.map_map, Function.comp_def, header_bridge]

/-- Only the neighbours of the block are bridged. -/
theorem bridge_of_ne (hprev : c.header ≠ b.prev) (hnext : c.header ≠ b.next) :
    Large.bridge b c = c := by
  simp only [Large.bridge, hprev, hnext, and_false, if_false]

/-- The block before the one that leaves gets the next header of that one. -/
theorem bridge_before (hzero : c.header ≠ 0) (hprev : c.header = b.prev) (hnext : c.header ≠ b.next) :
    Large.bridge b c = { c with next := b.next } := by
  have hne : b.prev ≠ 0 := by rwa [← hprev]
  have hother : ({ c with next := b.next } : LargeBlock).header ≠ b.next := hnext
  simp only [Large.bridge, hprev, hne, ne_eq, not_false_eq_true, and_self, if_true, hother, and_false,
    if_false]

/-- The block after the one that leaves gets the previous header of that one. -/
theorem bridge_after (hzero : c.header ≠ 0) (hprev : c.header ≠ b.prev) (hnext : c.header = b.next) :
    Large.bridge b c = { c with prev := b.prev } := by
  have hne : b.next ≠ 0 := by rwa [← hnext]
  simp only [Large.bridge, hprev, and_false, if_false]
  simp only [hnext, hne, ne_eq, not_false_eq_true, and_self, if_true]

/-- In front of the block that leaves, the last block is linked to what comes after it. -/
theorem Chained.bridge_front (h : Chained before b.header xs)
    (hprev : b.prev = (headers xs).getLastD before) (hzero : ∀ c ∈ xs, c.header ≠ 0)
    (hnodup : (headers xs).Nodup) (hnext : ∀ c ∈ xs, c.header ≠ b.next) :
    Chained before b.next (xs.map (Large.bridge b)) := by
  induction xs generalizing before with
  | nil => exact chained_nil
  | cons c rest ih =>
      obtain ⟨hc, hlink, hrest⟩ := chained_cons.mp h
      rw [headers_cons] at hnodup hprev
      obtain ⟨hfresh, hnodup⟩ := List.nodup_cons.mp hnodup
      have hcnext := hnext c List.mem_cons_self
      rw [List.getLastD_cons] at hprev
      have htail := ih hrest hprev (fun d hd => hzero d (List.mem_cons_of_mem _ hd)) hnodup
        (fun d hd => hnext d (List.mem_cons_of_mem _ hd))
      rw [List.map_cons, chained_cons, header_bridge, headers_bridge]
      cases rest with
      | nil =>
          -- This is the block before the one that leaves.
          rw [bridge_before (hzero c List.mem_cons_self) hprev.symm hcnext]
          exact ⟨hc, rfl, htail⟩
      | cons d others =>
          -- The block before the one that leaves comes later.
          have hother : c.header ≠ b.prev := by
            intro heq
            rw [hprev, headers_cons, List.getLastD_cons] at heq
            rw [headers_cons, heq] at hfresh
            exact hfresh (List.getLastD_mem_cons ..)
          rw [headers_cons, List.headD_cons] at hlink ⊢
          rw [bridge_of_ne hother hcnext]
          exact ⟨hc, hlink, htail⟩

/-- Behind the block that leaves, the first block is linked to what comes before it. -/
theorem Chained.bridge_back (h : Chained b.header after xs)
    (hnext : b.next = (headers xs).headD after) (hzero : ∀ c ∈ xs, c.header ≠ 0)
    (hnodup : (headers xs).Nodup) (hprev : ∀ c ∈ xs, c.header ≠ b.prev) :
    Chained b.prev after (xs.map (Large.bridge b)) := by
  cases xs with
  | nil => exact chained_nil
  | cons c rest =>
      rw [headers_cons] at hnext hnodup
      rw [List.headD_cons] at hnext
      obtain ⟨hfresh, -⟩ := List.nodup_cons.mp hnodup
      have hsame : rest.map (Large.bridge b) = rest := by
        have hid : ∀ d ∈ rest, Large.bridge b d = id d := by
          intro d hd
          refine bridge_of_ne (hprev d (List.mem_cons_of_mem _ hd)) fun heq => hfresh ?_
          rw [← hnext, ← heq]
          exact header_mem hd
        rw [List.map_congr_left hid, List.map_id]
      have hc := hzero c List.mem_cons_self
      have hcprev := hprev c List.mem_cons_self
      rw [List.map_cons, hsame, bridge_after hc hcprev hnext.symm]
      exact h.behind _

end LargeBlock

namespace Large

open LargeBlock

variable {l : Large} {b : LargeBlock} {p : Nat}

/-- The list of the live blocks starts at the head, and is chained in both directions with zero at its
    ends. -/
structure Linked (l : Large) : Prop where
  head : l.head = (headers l.blocks).headD 0
  chained : Chained 0 0 l.blocks

/-- No header is at zero or at the header of another block. -/
structure Headed (l : Large) : Prop where
  ne_zero : ∀ b ∈ l.blocks, b.header ≠ 0
  nodup : (headers l.blocks).Nodup

/-- The headers of a list whose range does not begin at zero are no null links. -/
theorem WF.headed (h : l.WF) (hpos : 0 < l.begin) : l.Headed where
  ne_zero b hb := by
    have hplaced := h.placed _ (List.mem_map_of_mem hb)
    have hlo : l.begin ≤ b.mapBegin := hplaced.lo_le
    have hheader : b.mapBegin + Pages.pageSize ≤ b.user := hplaced.header_le
    unfold header
    omega
  nodup := by
    have husers := h.users_nodup
    rw [bodies, List.map_map] at husers
    refine List.pairwise_map.mpr ((List.pairwise_map.mp husers).imp_of_mem fun {b c} hb hc hne heq => ?_)
    have hb' : b.mapBegin + Pages.pageSize ≤ b.user :=
      (h.placed _ (List.mem_map_of_mem hb)).header_le
    have hc' : c.mapBegin + Pages.pageSize ≤ c.user :=
      (h.placed _ (List.mem_map_of_mem hc)).header_le
    have huser : b.user ≠ c.user := hne
    unfold header at heq
    omega

/-- A new list is linked. -/
theorem Linked.new (begin size : Nat) : (Large.new begin size).Linked :=
  ⟨rfl, chained_nil⟩

/-- A block that is linked comes first, and the head before it is linked back to it. -/
theorem blocks_link :
    (l.link b).blocks = { b with prev := 0, next := l.head } ::
      match l.blocks with
      | [] => []
      | first :: others => { first with prev := b.header } :: others :=
  rfl

/-- The new block is followed by the one that was the first. -/
theorem Linked.link (h : l.Linked) : (l.link b).Linked := by
  have hheader : ({ b with prev := 0, next := l.head } : LargeBlock).header = b.header := header_eq rfl
  have hhead := h.head
  have hchained := h.chained
  constructor
  · rw [blocks_link, headers_cons, List.headD_cons, hheader]
    rfl
  rw [blocks_link, chained_cons, hheader]
  refine ⟨rfl, ?_⟩
  cases hblocks : l.blocks with
  | nil =>
      rw [hblocks] at hhead
      exact ⟨hhead, chained_nil⟩
  | cons first others =>
      have hfirst : ({ first with prev := b.header } : LargeBlock).header = first.header := header_eq rfl
      rw [hblocks, headers_cons, List.headD_cons] at hhead
      rw [hblocks] at hchained
      refine ⟨?_, hchained.behind _⟩
      rw [headers_cons, List.headD_cons, hfirst]
      exact hhead

theorem headD_mem {l : List Nat} (h : l.headD 0 ≠ 0) : l.headD 0 ∈ l := by
  cases l with
  | nil => exact absurd rfl h
  | cons n rest => exact List.mem_cons_self

theorem getLastD_mem {l : List Nat} (h : l.getLastD 0 ≠ 0) : l.getLastD 0 ∈ l := by
  cases l with
  | nil => exact absurd rfl h
  | cons n rest =>
      rw [List.getLastD_cons]
      exact List.getLastD_mem_cons ..

/-- A list with a block that no other block is told from by where it begins. -/
theorem split_of_mem (husers : (l.bodies.map (·.user)).Nodup) (hb : b ∈ l.blocks) :
    ∃ xs ys, l.blocks = xs ++ b :: ys ∧ l.blocks.filter (·.user ≠ b.user) = xs ++ ys := by
  obtain ⟨xs, ys, hsplit⟩ := List.append_of_mem hb
  rw [bodies, List.map_map, hsplit, List.map_append, List.map_cons] at husers
  have hother : ∀ c ∈ xs ++ ys, decide (c.user ≠ b.user) = true := by
    intro c hc
    have hfresh := (List.nodup_middle.mp husers).notMem
    rw [← List.map_append] at hfresh
    rw [decide_eq_true_eq]
    exact fun heq => hfresh (List.mem_map.mpr ⟨c, hc, heq⟩)
  refine ⟨xs, ys, hsplit, ?_⟩
  rw [hsplit, List.filter_append, List.filter_cons_of_neg (by simp), ← List.filter_append]
  exact List.filter_eq_self.mpr hother

/-- The head moves on only if the block that leaves is the first. -/
theorem head_unlink {xs ys : List LargeBlock} (hhead : l.head = (headers (xs ++ b :: ys)).headD 0)
    (hprev : b.prev = (headers xs).getLastD 0) (hnext : b.next = (headers ys).headD 0)
    (hzero : ∀ c ∈ xs, c.header ≠ 0) : (l.unlink b).head = (headers (xs ++ ys)).headD 0 := by
  show (if b.prev ≠ 0 then l.head else b.next) = _
  cases xs with
  | nil =>
      have hfirst : ¬ b.prev ≠ 0 := not_not.mpr hprev
      rw [if_neg hfirst, hnext]
      rfl
  | cons first others =>
      have hmem : b.prev ∈ headers (first :: others) := by
        rw [hprev, headers_cons, List.getLastD_cons]
        exact List.getLastD_mem_cons ..
      obtain ⟨c, hc, heq⟩ := List.mem_map.mp hmem
      rw [if_pos (heq ▸ hzero c hc), hhead]
      rfl

/-- The links of the blocks that stay go around the one that leaves. -/
theorem Linked.unlink (h : l.Linked) (hwf : l.WF) (hpos : 0 < l.begin) (hb : b ∈ l.blocks) :
    (l.unlink b).Linked := by
  obtain ⟨xs, ys, hsplit, hfilter⟩ := split_of_mem hwf.users_nodup hb
  have hheaded := hwf.headed hpos
  have hhead := h.head
  have hchained := h.chained
  have hzero := hheaded.ne_zero
  have hnodup := hheaded.nodup
  rw [hsplit] at hhead hchained hzero hnodup
  rw [headers_append, headers_cons] at hnodup
  obtain ⟨hfront, hback⟩ := chained_append.mp hchained
  obtain ⟨hprev, hnext, hback⟩ := chained_cons.mp hback
  rw [headers_cons, List.headD_cons] at hfront
  have hblocks : (l.unlink b).blocks = (xs ++ ys).map (bridge b) := congrArg (List.map (bridge b)) hfilter
  refine ⟨?_, ?_⟩
  · rw [hblocks, headers_bridge]
    exact head_unlink hhead hprev hnext fun c hc => hzero c (List.mem_append_left _ hc)
  rw [hblocks, List.map_append, chained_append, headers_bridge, headers_bridge, ← hnext, ← hprev]
  obtain ⟨hxs, hys, hapart⟩ := List.nodup_append.mp hnodup
  obtain ⟨hfresh, hys⟩ := List.nodup_cons.mp hys
  have hzero' : ∀ c ∈ xs ++ ys, c.header ≠ 0 := fun c hc => hzero c (by
    rcases List.mem_append.mp hc with hc | hc
    · exact List.mem_append_left _ hc
    · exact List.mem_append_right _ (List.mem_cons_of_mem _ hc))
  constructor
  · refine hfront.bridge_front hprev (fun c hc => hzero' c (List.mem_append_left _ hc)) hxs ?_
    intro c hc heq
    -- The next header is zero or belongs to a block behind.
    have hbehind := headD_mem fun hz => hzero' c (List.mem_append_left _ hc) (heq.trans (hnext.trans hz))
    rw [← hnext, ← heq] at hbehind
    exact hapart _ (header_mem hc) _ (List.mem_cons_of_mem _ hbehind) rfl
  · refine hback.bridge_back hnext (fun c hc => hzero' c (List.mem_append_right _ hc)) hys ?_
    intro c hc heq
    have hbefore := getLastD_mem fun hz =>
      hzero' c (List.mem_append_right _ hc) (heq.trans (hprev.trans hz))
    rw [← hprev, ← heq] at hbefore
    exact hapart _ hbefore _ (List.mem_cons_of_mem _ (header_mem hc)) rfl

/-- What the records are does not concern the links. -/
theorem Linked.setRecord (h : l.Linked) (p : Nat) (r : ChunkRecord) : (l.setRecord p r).Linked := by
  have hheaders : ∀ xs : List LargeBlock,
      headers (xs.map fun b => if b.user = p then { b with record := r } else b) = headers xs := by
    intro xs
    rw [headers, headers, List.map_map]
    refine List.map_congr_left fun b _ => ?_
    rw [Function.comp_apply]
    split <;> rfl
  refine ⟨h.head.trans (congrArg (List.headD · 0) (hheaders l.blocks)).symm, ?_⟩
  have hchained : ∀ (xs : List LargeBlock) (before : Nat), Chained before 0 xs →
      Chained before 0 (xs.map fun b => if b.user = p then { b with record := r } else b) := by
    intro xs
    induction xs with
    | nil => exact fun _ _ => chained_nil
    | cons b rest ih =>
        intro before hxs
        obtain ⟨hprev, hnext, hrest⟩ := chained_cons.mp hxs
        rw [List.map_cons, chained_cons, hheaders]
        split <;> exact ⟨hprev, hnext, ih _ hrest⟩
  exact hchained l.blocks 0 h.chained

/-! ## Following the links -/

/-- What is found by address is in the list. -/
theorem mem_blocks_of_find? (hfind : l.find? p = some b) : b ∈ l.blocks := by
  unfold find? at hfind
  split at hfind
  · exact List.mem_of_find?_eq_some hfind
  · exact nomatch hfind

/-- What is found at an address is in the list. -/
theorem mem_blocks_of_blockAt? (hat : l.blockAt? p = some b) : b ∈ l.blocks := by
  unfold blockAt? at hat
  split at hat
  · exact List.mem_of_find?_eq_some hat
  · exact nomatch hat

/-- The header that is stored at an address. -/
def headerAt? (l : Large) (addr : Nat) : Option LargeBlock :=
  l.blocks.find? (·.header == addr)

/-- The blocks that the links visit from a header on, at most `n` of them. -/
def follow (l : Large) : Nat → Nat → List LargeBlock
  | 0, _ => []
  | n + 1, cursor =>
    match l.headerAt? cursor with
    | some b => b :: l.follow n b.next
    | none => []

/-- Go from header to header until one satisfies a predicate, for at most `n` steps. -/
def seek (l : Large) (p : LargeBlock → Bool) : Nat → Nat → Option LargeBlock
  | 0, _ => none
  | n + 1, cursor =>
    if cursor = 0 then none
    else
      match l.headerAt? cursor with
      | some b => if p b then some b else l.seek p n b.next
      | none => none

/-- There is no header behind the null link. -/
theorem Headed.headerAt?_zero (h : l.Headed) : l.headerAt? 0 = none :=
  List.find?_eq_none.mpr fun b hb heq => h.ne_zero b hb (beq_iff_eq.mp heq)

/-- There is one header at an address. -/
theorem Headed.headerAt?_eq (h : l.Headed) {xs ys : List LargeBlock} (hsplit : l.blocks = xs ++ b :: ys) :
    l.headerAt? b.header = some b := by
  have hnodup := h.nodup
  rw [hsplit, headers_append, headers_cons] at hnodup
  have hother : ∀ c ∈ xs, ¬ (c.header == b.header) = true := fun c hc heq =>
    (List.nodup_append.mp hnodup).2.2 _ (header_mem hc) _ List.mem_cons_self (beq_iff_eq.mp heq)
  unfold headerAt?
  rw [hsplit, List.find?_append, List.find?_eq_none.mpr hother, Option.none_or, List.find?_cons_of_pos]
  exact beq_self_eq_true _

/-- Following the links from the head visits the live blocks in order, and ends there. -/
theorem Linked.follow (h : l.Linked) (hheaded : l.Headed) {n : Nat} (hn : l.blocks.length ≤ n) :
    l.follow n l.head = l.blocks := by
  -- The induction is on what is still to be visited.
  have hsuffix : ∀ (xs ys : List LargeBlock), l.blocks = xs ++ ys → ∀ n, ys.length ≤ n →
      l.follow n ((headers ys).headD 0) = ys := by
    intro xs ys
    induction ys generalizing xs with
    | nil =>
        intro _ n _
        cases n with
        | zero => rfl
        | succ n => simp only [headers, List.map_nil, List.headD_nil, Large.follow, hheaded.headerAt?_zero]
    | cons b rest ih =>
        intro hsplit n hlen
        obtain ⟨m, rfl⟩ : ∃ m, n = m + 1 := ⟨n - 1, by rw [List.length_cons] at hlen; omega⟩
        have hchained := h.chained
        rw [hsplit] at hchained
        obtain ⟨-, hnext, -⟩ := chained_cons.mp (chained_append.mp hchained).2
        have hrest := ih (xs ++ [b]) (by rw [List.append_assoc]; exact hsplit) m
          (Nat.le_of_succ_le_succ hlen)
        rw [← hnext] at hrest
        rw [headers_cons, List.headD_cons, Large.follow, hheaded.headerAt?_eq hsplit]
        simp only [hrest]
  rw [h.head]
  exact hsuffix [] l.blocks rfl n hn

/-- A search along the links looks at the blocks that the links visit. -/
theorem Headed.seek_eq (h : l.Headed) (p : LargeBlock → Bool) (n cursor : Nat) :
    l.seek p n cursor = (l.follow n cursor).find? p := by
  induction n generalizing cursor with
  | zero => rfl
  | succ n ih =>
      unfold seek Large.follow
      by_cases hzero : cursor = 0
      · rw [if_pos hzero, hzero, h.headerAt?_zero]
        rfl
      · rw [if_neg hzero]
        cases l.headerAt? cursor with
        | none => rfl
        | some b =>
            dsimp only
            rw [List.find?_cons, ih]
            cases p b <;> rfl

/-- From the head it finds what is found in the list of the live blocks. -/
theorem Linked.seek_head (h : l.Linked) (hheaded : l.Headed) (p : LargeBlock → Bool) {n : Nat}
    (hn : l.blocks.length ≤ n) : l.seek p n l.head = l.blocks.find? p := by
  rw [hheaded.seek_eq, h.follow hheaded hn]

/-- The header at `p - pageSize` is linked, if a block can begin at `p`. -/
def isLinked (l : Large) (p : Nat) : Bool :=
  p % Pages.pageSize = 0 && l.begin + Pages.pageSize ≤ p && p < l.past
    && (l.seek (·.header == p - Pages.pageSize) l.count l.head).isSome

/-- The block that covers `p`, searched along the links. -/
def seekBlock? (l : Large) (p : Nat) : Option LargeBlock :=
  if l.begin ≤ p ∧ p < l.past then l.seek (·.contains p) l.count l.head else none

/-- A block is told by its header as well as by where it begins. -/
theorem WF.header_iff (h : l.WF) (hb : b ∈ l.blocks) (hp : l.begin + Pages.pageSize ≤ p) :
    b.header = p - Pages.pageSize ↔ b.user = p := by
  have hheader : b.mapBegin + Pages.pageSize ≤ b.user := (h.placed _ (List.mem_map_of_mem hb)).header_le
  unfold header
  omega

/-- Whether a header is linked tells whether a live block begins behind it. -/
theorem Linked.isLinked_eq (h : l.Linked) (hwf : l.WF) (hpos : 0 < l.begin)
    (hcount : l.count = l.blocks.length) (p : Nat) : l.isLinked p = l.isMine p := by
  unfold isLinked isMine blockAt?
  rw [h.seek_head (hwf.headed hpos) _ (Nat.le_of_eq hcount.symm)]
  by_cases hplace : p % Pages.pageSize = 0 ∧ l.begin + Pages.pageSize ≤ p ∧ p < l.past
  · rw [if_pos hplace, decide_eq_true hplace.1, decide_eq_true hplace.2.1, decide_eq_true hplace.2.2,
      Bool.true_and, Bool.true_and, Bool.true_and]
    rw [Bool.eq_iff_iff, List.find?_isSome, List.find?_isSome]
    refine exists_congr fun b => and_congr_right fun hb => ?_
    rw [beq_iff_eq, beq_iff_eq]
    exact hwf.header_iff hb hplace.2.1
  · rw [if_neg hplace, Option.isSome_none]
    refine Bool.eq_false_iff.mpr fun htrue => hplace ?_
    simp only [Bool.and_eq_true, decide_eq_true_eq] at htrue
    exact ⟨htrue.1.1.1, htrue.1.1.2, htrue.1.2⟩

/-- A search along the links finds what the lookup finds. -/
theorem Linked.seekBlock?_eq (h : l.Linked) (hheaded : l.Headed) (hcount : l.count = l.blocks.length)
    (p : Nat) : l.seekBlock? p = l.find? p := by
  unfold seekBlock? find?
  rw [h.seek_head hheaded _ (Nat.le_of_eq hcount.symm)]

end Large

end GuardedHeap
