import GuardedHeap.Proofs.Heap.Large

/-! # Sessions — a heap and a cache between the other holders

    A thread works on the heap and its own cache; what all others hold
    stays in `Holders`.  Together they make a scene, and every operation of
    a session is a chain of moves on it: taking a block out of the lists
    leaves it in the hands of the holders (`hold`), from where it goes to a
    user or comes back. -/

namespace GuardedHeap

/-- What is held outside of a session. -/
structure Holders where
  idle : BlockClass → Multiset Nat
  waiting : Multiset Quarantine.Entry
  backing : Multiset Block
  claimed : Set Nat

/-- A free block more is held. -/
def Holders.hold (holders : Holders) (k : BlockClass) (p : Nat) : Holders :=
  { holders with idle := Function.update holders.idle k (p ::ₘ holders.idle k) }

/-- A block that is given to its holders is one more that they hold. -/
theorem Holders.hold_self {holders : Holders} {k : BlockClass} {p : Nat} :
    (holders.hold k p).idle k = p ::ₘ holders.idle k :=
  Function.update_self ..

/-- Holders of other classes get nothing. -/
theorem Holders.hold_of_ne {holders : Holders} {k k' : BlockClass} {p : Nat} (h : k' ≠ k) :
    (holders.hold k p).idle k' = holders.idle k' :=
  Function.update_of_ne h ..

/-- They hold the block, and what they held before. -/
theorem Holders.mem_hold {holders : Holders} {k k' : BlockClass} {p q : Nat} :
    q ∈ (holders.hold k p).idle k' ↔ (k' = k ∧ q = p) ∨ q ∈ holders.idle k' := by
  by_cases hk : k' = k
  · subst hk
    rw [Holders.hold_self, Multiset.mem_cons, eq_self_iff_true, true_and]
  · rw [Holders.hold_of_ne hk]
    exact ⟨.inr, fun h => h.resolve_left fun heq => hk heq.1⟩

/-- The blocks and the bytes that there were are still there. -/
structure Heap.Grows (h t : Heap) : Prop where
  blocks : h.blocks ⊆ t.blocks
  contents : t.contents = h.contents

theorem Heap.Grows.refl (h : Heap) : h.Grows h :=
  ⟨subset_rfl, rfl⟩

/-- What is left of some blocks when one of them comes back: a large one is unmapped. -/
def Block.leftBy (b : Block) (blocks : Set Block) : Set Block :=
  {c | c ∈ blocks ∧ (b.kind = .large → c ≠ b)}

/-- A block has come back, and all others are as they were. -/
structure Heap.Regains (b : Block) (h t : Heap) : Prop where
  blocks : t.blocks = b.leftBy h.blocks
  contents : ∀ c ∈ h.blocks, c ≠ b → ∀ a ∈ c.extent, t.contents a = h.contents a

/-- The free blocks of a class in a cache. -/
def Cache.held (c : Cache) (classId : Nat) : List Nat :=
  (c.lists[classId]?).getD []

namespace Heap.Session

variable {failing marked : Prop}

/-- The free blocks of a session. -/
def idle (s : Session) : BlockClass → Multiset Nat
  | .large => 0
  | .small c => (s.heap.free c : Multiset Nat) + (s.cache.held c : Multiset Nat)

/-- The scene of a session and all others. -/
def scene (s : Session) (holders : Holders) : Scene where
  blocks := s.heap.blocks
  opened := s.heap.opened
  bytes := s.heap.contents
  idle k := s.idle k + holders.idle k
  waiting := holders.waiting
  backing := holders.backing
  claimed := holders.claimed

/-- The heap is well-formed, and the cache has a list for each class. -/
structure WF (s : Session) : Prop where
  heap : s.heap.WF
  cache : s.cache.lists.size = s.heap.classes.count

/-- The session has got to `t`, and the scene has moved. -/
structure Goes (failing marked : Prop) (s : Session) (holders : Holders) (ds : List Deed)
    (t : Session) (holders' : Holders) : Prop where
  wf : t.WF
  classes : t.heap.classes = s.heap.classes
  calm : s.heap.pages.armed = none → t.heap.pages.armed = none
  moves : Moves failing marked (s.scene holders) ds (t.scene holders')

namespace Goes

variable {s t u : Session} {holders holders' holders'' : Holders} {ds es : List Deed}

/-- What happens one after the other happens together. -/
theorem trans (h : Goes failing marked s holders ds t holders')
    (h' : Goes failing marked t holders' es u holders'') :
    Goes failing marked s holders (ds ++ es) u holders'' :=
  ⟨h'.wf, h'.classes.trans h.classes, fun ha => h'.calm (h.calm ha), h.moves.trans h'.moves⟩

end Goes

variable {s : Session} {holders : Holders} {c p : Nat}

/-- A step of the heap with a given outline is one of the session. -/
theorem goes_of_becomes {t : Session} {holders' : Holders} {o : Outline}
    (h : Becomes s.heap t.heap o) (hcache : t.cache.lists.size = s.cache.lists.size) (hwf : s.WF)
    {ds : List Deed}
    (hmoves : Moves failing marked (s.scene holders) ds
      ⟨o.blocks, o.opened, o.contents, fun k => t.idle k + holders'.idle k, holders'.waiting,
        holders'.backing, holders'.claimed⟩) :
    Goes failing marked s holders ds t holders' := by
  refine ⟨⟨h.wf, ?_⟩, h.classes, h.calm, hmoves.of_eq ?_⟩
  · rw [hcache, hwf.cache, h.classes]
  · unfold scene
    rw [h.blocks, h.opened, h.contents]

/-- The free blocks are those of the regions and the cache. -/
theorem idle_eq {t : Session} (hfree : t.heap.free = s.heap.free) (hcache : t.cache = s.cache) :
    t.idle = s.idle := by
  funext k
  cases k with
  | large => rfl
  | small c =>
      unfold idle
      rw [hfree, hcache]

/-- A block that is held is one free block more. -/
theorem idle_hold (s : Session) (holders : Holders) (k : BlockClass) (p : Nat) :
    (fun k' => s.idle k' + (holders.hold k p).idle k') =
      Function.update (fun k' => s.idle k' + holders.idle k') k (p ::ₘ (s.idle k + holders.idle k)) := by
  funext k'
  rw [Function.update_apply]
  by_cases hk : k' = k
  · subst hk
    rw [if_pos rfl, Holders.hold_self, Multiset.add_cons]
  · rw [if_neg hk, Holders.hold_of_ne hk]

/-- Without it the free blocks are as before. -/
theorem idle_unhold (s : Session) (holders : Holders) (k : BlockClass) (p : Nat) :
    Function.update (fun k' => s.idle k' + (holders.hold k p).idle k') k
        ((s.idle k + (holders.hold k p).idle k).erase p) =
      fun k' => s.idle k' + holders.idle k' := by
  rw [idle_hold, Function.update_idem, Holders.hold_self, Multiset.add_cons, Multiset.erase_cons_head]
  exact Function.update_eq_self k _

/-- A block that is held is free. -/
theorem mem_idle_hold {k : BlockClass} : p ∈ (s.scene (holders.hold k p)).idle k := by
  show p ∈ s.idle k + (holders.hold k p).idle k
  rw [Holders.hold_self, Multiset.add_cons]
  exact Multiset.mem_cons_self _ _

/-- A step that changes nothing that can be seen. -/
theorem goes_of_same {t : Session} (h : Becomes s.heap t.heap s.heap.outline)
    (hcache : t.cache = s.cache) (hwf : s.WF) :
    Goes failing marked s holders [] t holders := by
  refine goes_of_becomes h (by rw [hcache]) hwf ((Moves.none _).of_eq ?_)
  unfold scene
  rw [idle_eq h.free hcache]
  rfl

/-- The session on other pages. -/
structure Repaged (s t : Session) : Prop where
  heap : s.heap.Repaged t.heap
  cache : t.cache = s.cache

theorem Repaged.refl (s : Session) : Repaged s s :=
  ⟨.refl s.heap, rfl⟩

/-- Other pages are nothing that can be seen. -/
theorem Repaged.goes {t : Session} (h : Repaged s t) (hwf : s.WF) :
    Goes failing marked s holders [] t holders :=
  goes_of_same (h.heap.becomes hwf.heap) h.cache hwf

/-- The session on other pages. -/
abbrev on (s : Session) (q : Pages) : Session :=
  { s with heap := s.heap.on q }

/-- An action was refused: nothing has changed but pages, and the error says why. -/
structure Declines {α : Type} (act : Act AllocError Session α) (s : Session) (e : AllocError)
    (t : Session) : Prop where
  repaged : Repaged s t
  blames : Blames act s.on s.heap.pages e

/-- A call declines for the reasons that its parts have. -/
theorem Declines.imp {α β : Type} {act : Act AllocError Session α} {act' : Act AllocError Session β}
    {e : AllocError} {t : Session} (h : Declines act s e t)
    (himp : ∀ q, Act.Ends act (s.on q) (fun _ _ => False) (fun e' t => e' = e ∧ t = s.on q) →
      Act.Ends act' (s.on q) (fun _ _ => False) fun e' t => e' = e ∧ t = s.on q) :
    Declines act' s e t :=
  ⟨h.repaged, h.blames.imp himp⟩

/-- An error that is the answer on all pages. -/
theorem Declines.always {α : Type} {act : Act AllocError Session α} {e : AllocError}
    (hreason : e.Undue ∨ e.Exhausts)
    (h : ∀ q, Act.Ends act (s.on q) (fun _ _ => False) fun e' t => e' = e ∧ t = s.on q) :
    Declines act s e s :=
  ⟨.refl s, .inr ⟨hreason, h⟩⟩

/-! ## Lists -/

/-- The list of a class is the one that the cache holds. -/
theorem held_eq (hwf : s.WF) (hc : c < s.heap.classes.count) :
    s.cache.lists[c]? = some (s.cache.held c) := by
  rw [← hwf.cache] at hc
  unfold Cache.held
  rw [Array.getElem?_eq_getElem hc]
  rfl

/-- A change of a list is seen in what is held. -/
theorem held_update {cache : Cache} {c' total : Nat} {l : List Nat} (hc : c < cache.lists.size) :
    (cache.update c l total).held c' = if c' = c then l else cache.held c' := by
  show ((cache.lists.setIfInBounds c l)[c']?).getD [] = _
  rw [Array.getElem?_setIfInBounds]
  by_cases hcc : c' = c
  · subst hcc
    rw [if_pos rfl, if_pos rfl, if_pos hc]
    rfl
  · rw [if_neg (Ne.symm hcc), if_neg hcc]
    rfl

theorem size_update {cache : Cache} {total : Nat} {l : List Nat} :
    (cache.update c l total).lists.size = cache.lists.size :=
  Array.size_setIfInBounds

/-- A list that is there is found. -/
theorem ends_listed {l : List Nat} (hl : s.cache.lists[c]? = some l)
    {ok : List Nat → Session → Prop} {no : AllocError → Session → Prop} (hok : ok l s) :
    Act.Ends (list c) s ok no := by
  unfold list
  simp only [Act.ends_bind, Act.ends_get, Act.ends_orStop]
  exact ⟨l, hl, hok⟩

theorem ends_list (hwf : s.WF) (hc : c < s.heap.classes.count)
    {ok : List Nat → Session → Prop} {no : AllocError → Session → Prop}
    (hok : ok (s.cache.held c) s) : Act.Ends (list c) s ok no :=
  ends_listed (held_eq hwf hc) hok

/-- An action on the heap is one of the session. -/
theorem ends_onHeap {ε α : Type} {act : Act ε Heap α} {ok : α → Session → Prop}
    {no : ε → Session → Prop} :
    Act.Ends (onHeap act) s ok no ↔
      Act.Ends act s.heap (fun a heap => ok a { s with heap }) fun e heap =>
        no e { s with heap } := by
  unfold onHeap
  rw [Act.ends_onPart]

/-- What the heap declines the session declines. -/
theorem Declines.onHeap {α : Type} {act : Act AllocError Heap α} {e : AllocError} {heap : Heap}
    (h : Heap.Declines act s.heap e heap) : Declines (onHeap act) s e { s with heap } := by
  refine ⟨⟨h.repaged, rfl⟩, h.blames.imp fun q hrefused => ?_⟩
  rw [ends_onHeap]
  refine hrefused.imp (fun _ _ hno => hno) ?_
  rintro e' _ ⟨rfl, rfl⟩
  exact ⟨rfl, rfl⟩

/-! ## Taking -/

/-- The free blocks of a session whose lists of one class are others. -/
theorem idle_update {t : Session} (free : List Nat) {total : Nat} {l : List Nat}
    (hc : c < s.cache.lists.size) (hcache : t.cache = s.cache.update c l total)
    (hfree : t.heap.free = Function.update s.heap.free c free) (k : BlockClass) :
    t.idle k = if k = .small c then (free : Multiset Nat) + (l : Multiset Nat) else s.idle k := by
  cases k with
  | large => rfl
  | small c' =>
      show (t.heap.free c' : Multiset Nat) + (t.cache.held c' : Multiset Nat) = _
      rw [hfree, hcache, held_update hc, Function.update_apply]
      by_cases hcc : c' = c
      · subst hcc
        rw [if_pos rfl, if_pos rfl, if_pos rfl]
      · rw [if_neg hcc, if_neg hcc, if_neg (fun heq => hcc (BlockClass.small.inj heq))]
        rfl

variable (failing marked holders) in
/-- A refilled list holds fresh blocks and blocks that were free. -/
theorem ends_refill (hwf : s.WF) (hc : c < s.heap.classes.count) (hempty : s.cache.held c = []) :
    Act.Ends (refill c) s
      (fun _ t => t.cache.held c ≠ [] ∧ Goes failing marked s holders [] t holders
        ∧ s.heap.Grows t.heap)
      (Declines (refill c) s) := by
  have hcache : c < s.cache.lists.size := hwf.cache ▸ hc
  unfold refill
  rw [Act.ends_bind, ends_onHeap]
  refine (ends_takeBatch hwf.heap hc).imp ?_ fun _ heap hno =>
    (Declines.onHeap hno).imp fun q hrefused => hrefused.bind_refused
  rintro batch heap ⟨hbatch, fresh, rest, hsplit, hnodup, hoff, hbecomes⟩
  simp only [Act.ends_bind, Act.ends_get]
  refine Act.ends_modify.mpr ⟨?_, ?_, ?_, hbecomes.contents⟩
  · rw [held_update hcache, if_pos rfl]
    exact hbatch
  case refine_3 =>
    rw [hbecomes.blocks]
    exact Set.subset_union_left
  refine goes_of_becomes hbecomes size_update hwf ?_
  have hsize := hwf.heap.size_pos (hwf.heap.layout.regions ▸ hc)
  refine (Moves.one (.of_tiled (s := s.scene holders) hsize hbecomes.wf.tiled hbecomes.blocks
    hnodup hoff)).of_eq ?_
  -- What was carved is shared by the region and the cache.
  have hidle : Function.update (fun k => s.idle k + holders.idle k) (.small c)
      (s.idle (.small c) + holders.idle (.small c) + fresh) = fun k =>
        Session.idle ⟨heap, s.cache.update c batch (s.cache.total + batch.length)⟩ k
          + holders.idle k := by
    funext k
    rw [idle_update (s := s)
      (t := ⟨heap, s.cache.update c batch (s.cache.total + batch.length)⟩) _ hcache rfl
      hbecomes.free, Function.update_apply]
    by_cases hk : k = .small c
    · subst hk
      rw [if_pos rfl, if_pos rfl, add_right_comm]
      congr 1
      show (s.heap.free c : Multiset Nat) + (s.cache.held c : Multiset Nat) + fresh = rest + batch
      rw [hempty, Multiset.coe_nil, add_zero, Multiset.coe_add, Multiset.coe_add]
      refine Multiset.coe_eq_coe.mpr ?_
      refine List.perm_append_comm.trans ?_
      rw [← hsplit]
      exact List.perm_append_comm
    · rw [if_neg hk, if_neg hk]
  exact congrArg (fun idle => ({ (s.scene holders).grow (.small c) (s.heap.classes.size c) fresh with
    idle } : Scene)) hidle

/-- Blocks that change hands are no move. -/
theorem goes_of_idle {t : Session} (free : Nat → List Nat) (holders : Holders) {idle : BlockClass → Multiset Nat}
    (h : Becomes s.heap t.heap { s.heap.outline with free })
    (hcache : t.cache.lists.size = s.cache.lists.size) (hwf : s.WF)
    (hidle : ∀ k, t.idle k + idle k = s.idle k + holders.idle k) :
    Goes failing marked s holders [] t { holders with idle } := by
  refine goes_of_becomes h hcache hwf ((Moves.none _).of_eq ?_)
  exact congrArg (fun idle => ({ s.scene holders with idle } : Scene)) (funext fun k => (hidle k).symm)

/-- What a list loses is in the hands of the holders. -/
theorem goes_take (hwf : s.WF) (hc : c < s.heap.classes.count) {rest : List Nat} (total : Nat)
    (hheld : s.cache.held c = p :: rest) :
    Goes failing marked s holders [] { s with cache := s.cache.update c rest total }
      (holders.hold (.small c) p) := by
  have hcache : c < s.cache.lists.size := hwf.cache ▸ hc
  refine goes_of_idle s.heap.free holders (Becomes.refl hwf.heap) size_update hwf fun k => ?_
  rw [idle_update (s := s) (t := { s with cache := s.cache.update c rest total })
    (s.heap.free c) hcache rfl (Function.update_eq_self c _).symm, Function.update_apply]
  by_cases hk : k = .small c
  · subst hk
    rw [if_pos rfl, if_pos rfl]
    show _ = (s.heap.free c : Multiset Nat) + (s.cache.held c : Multiset Nat) + _
    rw [hheld, ← Multiset.cons_coe, Multiset.add_cons, Multiset.add_cons, Multiset.cons_add]
  · rw [if_neg hk, if_neg hk]

/-- Take a block of a class whose list has been filled if it could be. -/
def takeListed (c : Nat) : Act AllocError Session Nat := do
  match ← list c with
  | [] => Act.refuse (.regionExhausted c (← get).heap.regionSize)
  | p :: rest =>
    putList c rest ((← get).cache.total - 1)
    return p

/-- The block at the head of a list is handed out. -/
theorem ends_takeListed (hwf : s.WF) (hc : c < s.heap.classes.count) (hlisted : s.cache.held c ≠ [])
    {no : AllocError → Session → Prop} :
    Act.Ends (takeListed c) s
      (fun p t => Goes failing marked s holders [] t (holders.hold (.small c) p) ∧ t.heap = s.heap)
      no := by
  unfold takeListed
  rw [Act.ends_bind]
  refine ends_list hwf hc ?_
  cases hheld : s.cache.held c with
  | nil => exact absurd hheld hlisted
  | cons p rest =>
      simp only [Act.ends_bind, Act.ends_get]
      refine Act.ends_modify.mpr (Act.ends_pure.mpr ?_)
      exact ⟨goes_take hwf hc _ hheld, rfl⟩

variable (failing marked holders) in
/-- Taking a block of a class leaves it in the hands of the holders, or takes none. -/
theorem ends_takeCached (hwf : s.WF) (hc : c < s.heap.classes.count) :
    Act.Ends (takeCached c) s
      (fun p t => Goes failing marked s holders [] t (holders.hold (.small c) p)
        ∧ s.heap.Grows t.heap)
      (Declines (takeCached c) s) := by
  have htake : ∀ {t : Session}, t.WF → c < t.heap.classes.count → t.cache.held c ≠ [] →
      Act.Ends (takeListed c) t
        (fun p u => Goes failing marked t holders [] u (holders.hold (.small c) p) ∧ u.heap = t.heap)
        fun _ _ => False := fun hwft hct hlisted => ends_takeListed hwft hct hlisted
  unfold takeCached
  rw [Act.ends_bind]
  refine ends_list hwf hc ?_
  by_cases hempty : (s.cache.held c).isEmpty = true
  · rw [if_pos hempty, Act.ends_bind]
    refine (ends_refill failing marked holders hwf hc (List.isEmpty_iff.mp hempty)).imp ?_
      fun _ _ hdeclines => hdeclines.imp fun q hrefused => by
        rw [Act.ends_bind]
        have hlist := held_eq hwf hc
        refine ends_listed (s := s.on q) hlist ?_
        rw [if_pos hempty]
        exact hrefused.bind_refused
    rintro _ t ⟨hlisted, hgoes, hgrows⟩
    exact (htake hgoes.wf (hgoes.classes ▸ hc) hlisted).imp
      (fun _ _ htaken => ⟨hgoes.trans htaken.1, htaken.2 ▸ hgrows⟩) fun _ _ hno => hno.elim
  · rw [if_neg hempty]
    exact (htake hwf hc fun hnil => hempty (List.isEmpty_iff.mpr hnil)).imp
      (fun _ _ htaken => ⟨htaken.1, htaken.2 ▸ .refl _⟩) fun _ _ hno => hno.elim

/-! ## Allocating -/

/-- A block of a class has the size of the class. -/
theorem size_of_kind {h : Heap} {b : Block} (hb : b ∈ h.blocks) (hkind : b.kind = .small c) :
    b.size = h.classes.size c := by
  rcases hb with ⟨s, -, rfl⟩ | ⟨l, -, rfl⟩
  · have hclass : s.classId = c := BlockClass.small.inj hkind
    rw [← hclass]
    rfl
  · exact nomatch hkind

/-- A mapped block is in the hands of the holders. -/
theorem goes_map (hwf : s.WF) {size user : Nat} {heap : Heap} (hsize : 0 < size)
    (hoff : ∀ b ∈ s.heap.blocks, b.begin ≠ user)
    (h : Becomes s.heap heap (s.heap.outline.grow .large size [user])) :
    Goes failing marked s holders [] { s with heap } (holders.hold .large user) := by
  refine goes_of_becomes (t := { s with heap }) h rfl hwf ?_
  refine (Moves.one (.of_tiled (s := s.scene holders) hsize h.wf.tiled h.blocks
    (List.nodup_singleton user) ?_)).of_eq ?_
  · intro p hp b hb
    obtain rfl := List.mem_singleton.mp hp
    exact hoff b hb
  · have hidle : (fun k => Session.idle { s with heap } k + (holders.hold .large user).idle k) =
        Function.update (fun k => s.idle k + holders.idle k) .large
          (s.idle .large + holders.idle .large + ([user] : List Nat)) := by
      rw [idle_eq (s := s) (t := { s with heap }) h.free rfl, idle_hold, ← Multiset.singleton_add, add_comm]
      rfl
    exact congrArg (fun idle => ({ (s.scene holders).grow .large size [user] with
      idle } : Scene)) hidle.symm

/-- Allocate bytes that have been rounded, from a class or from a mapping. -/
def allocateRounded (size alignment : Nat) : Act AllocError Session Nat := do
  let h := (← get).heap
  if h.canAllocateSmall size alignment then
    match ← h.classes.alignedClassOf? size alignment with
    | some classId => takeCached classId
    | none => Act.refuse (.noSizeClass size)
  else
    onHeap (allocateLarge size alignment)

variable (failing marked holders) in
/-- A block of the size and alignment is handed out, or the call declines. -/
theorem ends_allocateRounded (hwf : s.WF) {size alignment : Nat} (hsize : 0 < size)
    (hpower : Word.isPowerOfTwo alignment = true) :
    Act.Ends (allocateRounded size alignment) s
      (fun p t => ∃ k, Goes failing marked s holders [] t (holders.hold k p)
        ∧ (∀ b ∈ t.heap.blocks, b.begin = p → b.kind = k → size ≤ b.size) ∧ s.heap.Grows t.heap)
      (Declines (allocateRounded size alignment) s) := by
  have hpos : 0 < alignment := by
    obtain ⟨k, rfl⟩ := Word.isPowerOfTwo_iff.mp hpower
    exact Word.powerOfTwo_pos k
  unfold allocateRounded
  rw [Act.ends_bind, Act.ends_get, Act.ends_ite]
  -- A small request goes to the cache, a large one to a mapping.
  refine ⟨fun hsmall => ?_, fun hlarge => ?_⟩
  · obtain ⟨found, hfound⟩ := SizeClasses.alignedClassOf?_eq_ok s.heap.classes size hpos
    rw [Act.ends_bind, Act.ends_liftM]
    refine ⟨found, hfound, ?_⟩
    cases found with
    | none =>
        refine .always (.inl trivial) fun q => ?_
        refine Act.ends_ite.mpr ⟨fun _ => ?_, fun hnot => absurd hsmall hnot⟩
        rw [Act.ends_bind, Act.ends_liftM]
        exact ⟨none, hfound, rfl, rfl⟩
    | some c =>
        obtain ⟨hc, hle⟩ := hwf.heap.layout.classes.alignedClassOf?_spec hfound
        refine (ends_takeCached failing marked holders hwf hc).imp (fun p t ⟨hgoes, hgrows⟩ => ?_)
          fun _ _ hdeclines => hdeclines.imp fun q hrefused => by
            refine Act.ends_ite.mpr ⟨fun _ => ?_, fun hnot => absurd hsmall hnot⟩
            rw [Act.ends_bind, Act.ends_liftM]
            exact ⟨some c, hfound, hrefused⟩
        refine ⟨.small c, hgoes, fun b hb _ hkind => ?_, hgrows⟩
        rw [size_of_kind hb hkind, hgoes.classes]
        exact hle
  · rw [ends_onHeap]
    refine (ends_allocateLarge hwf.heap hsize hpower).imp ?_ fun _ heap hno =>
      (Declines.onHeap hno).imp fun q hrefused =>
        Act.ends_ite.mpr ⟨fun hsmall => absurd hsmall hlarge, fun _ => hrefused⟩
    rintro user heap ⟨hoff, -, hbecomes⟩
    have hround : size ≤ Word.roundUp size Pages.pageSize := Word.le_roundUp
    refine ⟨.large, goes_map hwf (Nat.lt_of_lt_of_le hsize hround) hoff hbecomes, ?_, ?_,
      hbecomes.contents⟩
    case refine_2 =>
      rw [hbecomes.blocks]
      exact Set.subset_union_left
    intro b hb hbegin _
    rw [hbecomes.blocks] at hb
    rcases hb with hold | ⟨q, -, rfl⟩
    · exact absurd hbegin (hoff b hold)
    · exact hround

variable (failing marked holders) in
/-- Allocating leaves a block that is large enough in the hands of the holders. -/
theorem ends_allocate (hwf : s.WF) (size alignment : Nat) :
    Act.Ends (allocate size alignment) s
      (fun p t => ∃ k, Goes failing marked s holders [] t (holders.hold k p)
        ∧ (∀ b ∈ t.heap.blocks, b.begin = p → b.kind = k → size ≤ b.size) ∧ s.heap.Grows t.heap)
      (Declines (allocate size alignment) s) := by
  unfold allocate
  by_cases hpower : Word.isPowerOfTwo alignment = true
  case neg =>
    rw [Bool.not_eq_true] at hpower
    simp only [hpower, Bool.not_false, if_true, Act.ends_bind, Act.ends_refuse]
    exact .always (.inl trivial) fun q => ⟨rfl, rfl⟩
  have hpos : 0 < alignment := by
    obtain ⟨k, rfl⟩ := Word.isPowerOfTwo_iff.mp hpower
    exact Word.powerOfTwo_pos k
  simp only [hpower, Bool.not_true, Bool.false_eq_true, if_false]
  cases hadd : Word.add? (max size 1) alignment with
  | none =>
      simp only [Option.isNone_none, if_true]
      exact .always (.inl trivial) fun q => ⟨rfl, rfl⟩
  | some sum =>
      simp only [Option.isNone_some, Bool.false_eq_true, if_false]
      -- Whatever is rounded, the block is to have at least the bytes asked for.
      have hnext : ∀ n, size ≤ n → 0 < n → Act.Ends (allocateRounded n alignment) s
          (fun p t => ∃ k, Goes failing marked s holders [] t (holders.hold k p)
            ∧ (∀ b ∈ t.heap.blocks, b.begin = p → b.kind = k → size ≤ b.size) ∧ s.heap.Grows t.heap)
          (Declines (allocateRounded n alignment) s) := by
        intro n hle hn
        refine (ends_allocateRounded failing marked holders hwf hn hpower).imp ?_ fun _ _ hno => hno
        rintro p t ⟨k, hgoes, hroom, hgrows⟩
        exact ⟨k, hgoes, fun b hb hbegin hkind => Nat.le_trans hle (hroom b hb hbegin hkind), hgrows⟩
      by_cases halign : alignment > Shadow.granule
      · obtain ⟨hlt, rfl⟩ := Word.add?_eq_some.mp hadd
        rw [if_pos halign, Act.ends_bind, Act.ends_liftM]
        have hround := Word.roundUp_lt (n := max size 1) hpos
        have hnextMultiple : Word.nextMultiple (max size 1) alignment =
            .ok (Word.roundUp (max size 1) alignment) :=
          Word.nextMultiple_eq_ok.mpr ⟨hpos, by omega, rfl⟩
        refine ⟨_, hnextMultiple, (hnext _ ?_ ?_).imp (fun _ _ hok => hok)
          fun _ _ hdeclines => hdeclines.imp fun q hrefused => ?_⟩
        case refine_3 =>
          rw [Act.ends_bind, Act.ends_liftM]
          exact ⟨_, hnextMultiple, hrefused⟩
        · exact Nat.le_trans (Nat.le_max_left size 1) Word.le_roundUp
        · exact Nat.lt_of_lt_of_le (Nat.lt_of_lt_of_le Nat.one_pos (Nat.le_max_right size 1))
            Word.le_roundUp
      · rw [if_neg halign, Act.ends_bind, Act.ends_pure]
        exact hnext _ (Nat.le_max_left size 1)
          (Nat.lt_of_lt_of_le Nat.one_pos (Nat.le_max_right size 1))

/-! ## Giving back -/

variable (failing marked holders p) in
/-- A block that a list gains comes out of the hands of the holders. -/
theorem goes_give (hwf : s.WF) (hc : c < s.heap.classes.count) (total : Nat) :
    Goes failing marked s (holders.hold (.small c) p) []
      { s with cache := s.cache.update c (p :: s.cache.held c) total } holders := by
  have hcache : c < s.cache.lists.size := hwf.cache ▸ hc
  refine goes_of_idle s.heap.free (holders.hold (.small c) p) (Becomes.refl hwf.heap) size_update hwf fun k => ?_
  rw [idle_update (s := s)
    (t := { s with cache := s.cache.update c (p :: s.cache.held c) total })
    (s.heap.free c) hcache rfl (Function.update_eq_self c _).symm]
  show _ = _ + Function.update holders.idle (.small c) (p ::ₘ holders.idle (.small c)) k
  rw [Function.update_apply]
  by_cases hk : k = .small c
  · subst hk
    rw [if_pos rfl, if_pos rfl, ← Multiset.cons_coe, Multiset.add_cons, Multiset.add_cons,
      Multiset.cons_add]
    rfl
  · rw [if_neg hk, if_neg hk]

/-- Blocks that go from a list to the region stay free. -/
theorem goes_flush (hwf : s.WF) (hc : c < s.heap.classes.count) {heap : Heap} {kept given : List Nat}
    (total : Nat) (hheld : given ++ kept = s.cache.held c)
    (h : Becomes s.heap heap (s.heap.outline.setFree c (given ++ s.heap.free c))) :
    Goes failing marked s holders [] ⟨heap, s.cache.update c kept total⟩ holders := by
  have hcache : c < s.cache.lists.size := hwf.cache ▸ hc
  refine goes_of_idle _ holders (t := ⟨heap, s.cache.update c kept total⟩) h
    size_update hwf fun k => ?_
  rw [idle_update (s := s) (t := ⟨heap, s.cache.update c kept total⟩) _ hcache rfl h.free]
  by_cases hk : k = .small c
  · subst hk
    rw [if_pos rfl]
    show _ = (s.heap.free c : Multiset Nat) + (s.cache.held c : Multiset Nat) + _
    rw [← hheld, ← Multiset.coe_add, ← Multiset.coe_add]
    congr 1
    rw [add_comm (given : Multiset Nat) (s.heap.free c), add_assoc]
  · rw [if_neg hk]

/-- A block that comes back is free again, and is still there. -/
theorem ends_returnCached (hwf : s.WF) (hc : c < s.heap.classes.count)
    {no : AllocError → Session → Prop} :
    Act.Ends (returnCached c p) s
      (fun _ t => Goes failing marked s (holders.hold (.small c) p) [] t holders
        ∧ t.heap.blocks = s.heap.blocks ∧ t.heap.contents = s.heap.contents) no := by
  have hbatch : 2 * max (s.heap.classes.maxCached c) 1 < Word.limit := by
    have hlt := hwf.heap.layout.classes.maxCached_lt c
    simp only [Word.halfLimit, Word.limit] at *
    omega
  unfold returnCached
  simp only [Act.ends_bind, Act.ends_get]
  refine ends_list hwf hc ?_
  refine Act.ends_modify.mpr ?_
  have hgive := goes_give failing marked holders p hwf hc (s.cache.total + 1)
  have hcache : c < s.cache.lists.size := hwf.cache ▸ hc
  generalize hs' : ({ s with cache := s.cache.update c (p :: s.cache.held c) (s.cache.total + 1) } :
    Session) = s' at hgive
  have hheap : s'.heap = s.heap := by rw [← hs']
  have hheld : s'.cache.held c = p :: s.cache.held c := by
    rw [← hs']
    exact (held_update hcache).trans (if_pos rfl)
  rw [Act.ends_liftM]
  refine ⟨_, Word.mul_eq_ok.mpr ⟨hbatch, rfl⟩, ?_⟩
  rw [Act.ends_ite]
  refine ⟨fun _ => ?_, fun _ => ⟨hgive, congrArg Heap.blocks hheap, congrArg Heap.contents hheap⟩⟩
  rw [Act.ends_bind]
  refine Act.ends_modify.mpr ?_
  rw [ends_onHeap]
  have hct : c < s'.heap.classes.count := hheap ▸ hc
  refine (ends_returnBatch hgive.wf.heap hct _).imp ?_ fun _ _ hno => hno
  intro _ heap hbecomes
  refine ⟨hgive.trans (goes_flush hgive.wf hct _ ?_ hbecomes), ?_, ?_⟩
  · rw [hheld]
    exact List.take_append_drop _ _
  · exact hbecomes.blocks.trans (congrArg Heap.blocks hheap)
  · exact hbecomes.contents.trans (congrArg Heap.contents hheap)

/-- A list is given back, if there is anything in it. -/
theorem ends_returnList (hwf : s.WF) (hc : c < s.heap.classes.count) (list : List Nat)
    {no : AllocError → Session → Prop} :
    Act.Ends (do if !list.isEmpty then onHeap (returnBatch c list)) s
      (fun _ t => t.cache = s.cache
        ∧ Becomes s.heap t.heap (s.heap.outline.setFree c (list ++ s.heap.free c))) no := by
  cases list with
  | nil =>
      refine ⟨rfl, ?_⟩
      have hsame : s.heap.outline.setFree c ([] ++ s.heap.free c) = s.heap.outline := by
        unfold Outline.setFree
        rw [List.nil_append]
        show ({ s.heap.outline with free := Function.update s.heap.free c (s.heap.free c) } :
          Outline) = _
        rw [Function.update_eq_self]
        rfl
      rw [hsame]
      exact Becomes.refl hwf.heap
  | cons p list =>
      simp only [List.isEmpty_cons, Bool.not_false, if_true]
      rw [ends_onHeap]
      refine (ends_returnBatch hwf.heap hc _).imp ?_ fun _ _ hno => hno
      exact fun _ heap hbecomes => ⟨rfl, hbecomes⟩

/-- The lists of the classes from one on go to their regions. -/
theorem ends_returnLists (hwf : s.WF) (lists : List (List Nat))
    (hc : c + lists.length ≤ s.heap.classes.count) {no : AllocError → Session → Prop} :
    Act.Ends (returnLists c lists) s
      (fun _ t => t.cache = s.cache ∧ ∃ free,
        Becomes s.heap t.heap { s.heap.outline with free }
        ∧ ∀ c', free c' = (if c ≤ c' then (lists[c' - c]?).getD [] else []) ++ s.heap.free c')
      no := by
  induction lists generalizing c s with
  | nil =>
      refine ⟨rfl, s.heap.free, Becomes.refl hwf.heap, fun c' => ?_⟩
      rw [List.getElem?_nil, Option.getD_none, ite_self, List.nil_append]
  | cons list rest ih =>
      rw [List.length_cons] at hc
      have hsplit : returnLists c (list :: rest) =
          (do if !list.isEmpty then onHeap (returnBatch c list)) >>= fun _ =>
            returnLists (c + 1) rest := by
        cases list <;> rfl
      rw [hsplit, Act.ends_bind]
      refine (ends_returnList hwf (by omega) list).imp ?_ fun _ _ hno => hno
      rintro _ t ⟨hcache, hbecomes⟩
      have hwft : t.WF := ⟨hbecomes.wf, by rw [hcache, hbecomes.classes, hwf.cache]⟩
      refine (ih hwft (c := c + 1) (by rw [hbecomes.classes]; omega)).imp ?_ fun _ _ hno => hno
      rintro _ u ⟨hcacheu, free, hbecomesu, hfree⟩
      refine ⟨hcacheu.trans hcache, free, ?_, fun c' => ?_⟩
      · have hjoined := hbecomes.trans (f := fun o => { o with free }) hbecomesu
        exact hjoined
      · rw [hfree, hbecomes.free]
        show _ ++ Function.update s.heap.free c (list ++ s.heap.free c) c' = _
        rw [Function.update_apply]
        rcases Nat.lt_trichotomy c' c with hlt | rfl | hgt
        · rw [if_neg (by omega), if_neg (by omega), if_neg (by omega)]
        · rw [if_neg (by omega), if_pos rfl, if_pos (Nat.le_refl _), Nat.sub_self,
            List.getElem?_cons_zero, Option.getD_some, List.nil_append]
        · obtain ⟨d, rfl⟩ : ∃ d, c' = c + 1 + d := ⟨c' - (c + 1), by omega⟩
          rw [if_pos (by omega), if_neg (by omega), if_pos (by omega), Nat.add_sub_cancel_left,
            show c + 1 + d - c = d + 1 by omega, List.getElem?_cons_succ]

theorem held_new {n c : Nat} : (Cache.new n).held c = [] := by
  show ((Array.replicate n ([] : List Nat))[c]?).getD [] = []
  rw [Array.getElem?_replicate]
  split <;> rfl

variable (failing marked holders) in
/-- A drained cache is empty, and its blocks are free. -/
theorem ends_drain (hwf : s.WF) (no : AllocError → Session → Prop) :
    Act.Ends drain s
      (fun _ t => Goes failing marked s holders [] t holders
        ∧ t.cache = Cache.new s.heap.classes.count) no := by
  unfold drain
  simp only [Act.ends_bind, Act.ends_get]
  have hlength : 0 + s.cache.lists.toList.length ≤ s.heap.classes.count := by
    rw [Nat.zero_add, Array.length_toList, hwf.cache]
  refine (ends_returnLists hwf _ hlength).imp ?_ fun _ _ hno => hno
  rintro _ t ⟨hcache, free, hbecomes, hfree⟩
  refine Act.ends_modify.mpr ⟨?_, ?_⟩
  · refine goes_of_idle _ holders (t := ⟨t.heap, Cache.new t.cache.lists.size⟩)
      hbecomes ?_ hwf fun k => ?_
    · show (Array.replicate _ _).size = _
      rw [Array.size_replicate, hcache]
    · congr 1
      cases k with
      | large => rfl
      | small c =>
          show (t.heap.free c : Multiset Nat) + ((Cache.new _).held c : Multiset Nat) =
            (s.heap.free c : Multiset Nat) + (s.cache.held c : Multiset Nat)
          rw [held_new, Multiset.coe_nil, add_zero, hbecomes.free]
          show (free c : Multiset Nat) = _
          rw [hfree, if_pos (Nat.zero_le c), Nat.sub_zero, Array.getElem?_toList,
            ← Multiset.coe_add, add_comm]
          rfl
  · show Cache.new t.cache.lists.size = _
    rw [hcache, hwf.cache]

/-- A held block that is unmapped is gone. -/
theorem goes_drop (hwf : s.WF) {b : Block} (hb : b ∈ s.heap.blocks) {heap : Heap} {gone : Set Nat}
    (hgone : ∀ d ∈ s.heap.blocks, d ≠ b → Disjoint d.extent gone)
    (hbytes : ∀ a, a ∉ gone → heap.contents a = s.heap.contents a)
    (h : Becomes s.heap heap (s.heap.outline.unmap b gone heap.contents)) :
    Goes failing marked s (holders.hold .large b.begin) [] { s with heap } holders := by
  refine goes_of_becomes (t := { s with heap }) h rfl hwf ?_
  refine (Moves.one (.drop (s := s.scene (holders.hold .large b.begin)) b gone heap.contents
    hb mem_idle_hold hgone hbytes)).of_eq ?_
  have hidle : ((s.scene (holders.hold .large b.begin)).drop b gone heap.contents).idle =
      fun k => Session.idle { s with heap } k + holders.idle k := by
    rw [idle_eq (s := s) (t := { s with heap }) h.free rfl]
    exact idle_unhold s holders .large b.begin
  exact congrArg (fun idle => ({ (s.scene (holders.hold .large b.begin)).drop b gone
    heap.contents with idle } : Scene)) hidle

variable (failing marked holders) in
/-- A held block that is freed is free again, or unmapped. -/
theorem ends_free (hwf : s.WF) {b : Block} (hb : b ∈ s.heap.blocks) :
    Act.Ends (free b.begin) s
      (fun _ t => Goes failing marked s (holders.hold b.kind b.begin) [] t holders
        ∧ s.heap.Regains b t.heap)
      fun _ t => s.heap.pages.armed ≠ none ∧ b.kind = .large
        ∧ Goes failing marked s (holders.hold b.kind b.begin) [] t holders
        ∧ s.heap.Regains b t.heap := by
  have hpos : b.begin ≠ 0 := by
    have h1 := (hwf.heap.past_le hb).1
    have h2 := hwf.heap.layout.begin_pos
    omega
  obtain ⟨hclass, -, -⟩ := hwf.heap.begin_spec hb
  unfold free
  rw [if_neg hpos, Act.ends_bind, Act.ends_get]
  unfold blockClass at hclass
  by_cases hprimary : s.heap.isPrimary b.begin = true
  · have hfound := hwf.heap.blockBegin?_eq hb (Block.begin_mem_extent (hwf.heap.tiled.solid b hb))
    rw [if_pos hprimary] at hclass
    simp only [hprimary, if_true, hfound, ne_eq, not_true_eq_false, if_false]
    have hc : s.heap.classOf b.begin < s.heap.classes.count := by
      rcases hb with ⟨slot, ⟨r, hr, -⟩, rfl⟩ | ⟨l, -, rfl⟩
      · rw [BlockClass.small.inj hclass, ← hwf.heap.layout.regions]
        exact lt_size_of_region hr
      · exact nomatch hclass
    rw [← hclass]
    have hback : Act.Ends (returnCached (s.heap.classOf b.begin) b.begin) s
        (fun _ t => Goes failing marked s
            (holders.hold (.small (s.heap.classOf b.begin)) b.begin) [] t holders
          ∧ t.heap.blocks = s.heap.blocks ∧ t.heap.contents = s.heap.contents)
        fun _ _ => False :=
      ends_returnCached hwf hc
    refine hback.imp ?_ fun _ _ hno => hno.elim
    rintro _ t ⟨hgoes, hblocks, hcontents⟩
    refine ⟨hgoes, hblocks.trans (Set.ext fun d => ⟨fun hd => ⟨hd, fun hlarge => ?_⟩, And.left⟩),
      fun _ _ _ a _ => congrFun hcontents a⟩
    exact nomatch hclass.trans hlarge
  · rw [if_neg hprimary] at hclass
    simp only [hprimary, Bool.false_eq_true, if_false]
    rw [ends_onHeap, ← hclass]
    obtain ⟨gone, -, hgone, hends⟩ := ends_freeLarge hwf.heap hb hclass.symm
    -- Refused or not, the block is no longer there.
    have hdrop : ∀ heap : Heap, Becomes s.heap heap (s.heap.outline.unmap b gone heap.contents) →
        (∀ a, a ∉ gone → heap.contents a = s.heap.contents a) →
        Goes failing marked s (holders.hold .large b.begin) [] { s with heap } holders
          ∧ s.heap.Regains b heap := by
      intro heap hbecomes hbytes
      refine ⟨goes_drop hwf hb hgone hbytes hbecomes, hbecomes.blocks.trans (Set.ext fun d => and_congr_right'
        ⟨fun hne _ => hne, fun hne => hne hclass.symm⟩), fun d hd hne a ha => ?_⟩
      exact hbytes a (Set.disjoint_left.mp (hgone d hd hne) ha)
    refine hends.imp ?_ ?_
    · rintro _ heap ⟨hbecomes, hbytes⟩
      exact hdrop heap hbecomes hbytes
    · rintro _ heap ⟨hbecomes, hbytes, harmed⟩
      exact ⟨harmed, rfl, hdrop heap hbecomes hbytes⟩

end Heap.Session

end GuardedHeap
