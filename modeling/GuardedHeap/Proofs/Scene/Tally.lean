import GuardedHeap.Metrics
import GuardedHeap.Proofs.Scene.Deeds
import Mathlib.Data.ZMod.Basic
import Mathlib.Tactic.Abel

/-! # Tallies — deeds as numbers

    The deeds of a chain of moves tell by how much every counter of chunks
    goes up (`Deed.added`).  They also tell how the sizes that users asked
    for change (`users_moves`), and how the freed chunks that wait do
    (`waiting_moves`): what is there afterwards and what has gone is what
    was there before and what has come.  All three are about lists and
    multisets of sizes and entries, so that numbers and sums are only two
    ways to read them. -/

namespace GuardedHeap

open Quarantine (Entry)

/-- The counters that tell what became of chunks. -/
def Counter.ofChunks : List Counter :=
  [mallocs, bytesAllocated, frees, bytesFreed, recycledChunks, recycledBytes]

/-- Sums that wrap are sums of residues. -/
theorem Word.cast_wrapAdd (a b : Nat) : (Word.wrapAdd a b : ZMod Word.limit) = a + b := by
  unfold Word.wrapAdd
  rw [ZMod.natCast_mod, Nat.cast_add]

/-- The sum over a list with another element in a place. -/
theorem sum_map_set {α : Type} (g : α → Nat) {l : List α} {i : Nat} {a : α} (b : α) (h : l[i]? = some a) :
    ((l.set i b).map g).sum + g a = (l.map g).sum + g b := by
  induction l generalizing i with
  | nil => exact nomatch h
  | cons x rest ih =>
      cases i with
      | zero =>
          obtain rfl := Option.some.inj h
          rw [List.set_cons_zero, List.map_cons, List.map_cons, List.sum_cons, List.sum_cons]
          omega
      | succ i =>
          have hrest := ih (i := i) (by rwa [List.getElem?_cons_succ] at h)
          rw [List.set_cons_succ, List.map_cons, List.map_cons, List.sum_cons, List.sum_cons]
          omega

namespace Deed

/-- The sizes that users asked for and got. -/
def asked : Deed → List Nat
  | handOut b _ => [b.record.requestedSize]
  | _ => []

/-- The sizes that users gave back. -/
def returned : Deed → List Nat
  | retire b => [b.record.requestedSize]
  | _ => []

/-- The freed chunks that begin to wait. -/
def joins : Deed → List Entry
  | retire b => [b.entry]
  | _ => []

/-- The freed chunks that have waited. -/
def leaves : Deed → List Entry
  | evict e => [e]
  | _ => []

/-- By how much some deeds put a counter up. -/
def added (ds : List Deed) : Counter → Nat
  | .mallocs => (ds.flatMap asked).length
  | .bytesAllocated => (ds.flatMap asked).sum
  | .frees => (ds.flatMap returned).length
  | .bytesFreed => (ds.flatMap returned).sum
  | .recycledChunks => (ds.flatMap leaves).length
  | .recycledBytes => ((ds.flatMap leaves).map (·.size)).sum
  | _ => 0

@[simp] theorem added_nil (k : Counter) : added [] k = 0 := by
  cases k <;> rfl

theorem added_append (ds es : List Deed) (k : Counter) :
    added (ds ++ es) k = added ds k + added es k := by
  cases k <;> simp [added]

/-- As many chunks begin to wait as users give back. -/
theorem length_returned (ds : List Deed) : (ds.flatMap returned).length = (ds.flatMap joins).length := by
  induction ds with
  | nil => rfl
  | cons d ds ih =>
      rw [List.flatMap_cons, List.flatMap_cons, List.length_append, List.length_append, ih]
      cases d <;> rfl

/-- The counters of the second metrics have counted some deeds more than those of the first, as far
    as they tell of chunks. -/
structure Counted (ds : List Deed) (m m' : Metrics) : Prop where
  residue : ∀ k ∈ Counter.ofChunks, (m'.value k : ZMod Word.limit) = m.value k + added ds k
  lt_limit : ∀ k ∈ Counter.ofChunks, m.value k < Word.limit → m'.value k < Word.limit

namespace Counted

variable {ds es : List Deed} {m m' m'' : Metrics}

/-- Deeds that no counter counts. -/
theorem of_uncounted (hds : ∀ k, added ds k = 0)
    (h : ∀ k ∈ Counter.ofChunks, m'.value k = m.value k) : Counted ds m m' where
  residue k hk := by rw [h k hk, hds, Nat.cast_zero, add_zero]
  lt_limit k hk hlt := by rwa [h k hk]

theorem of_same (h : ∀ k ∈ Counter.ofChunks, m'.value k = m.value k) : Counted [] m m' :=
  of_uncounted added_nil h

theorem trans (h : Counted ds m m') (h' : Counted es m' m'') : Counted (ds ++ es) m m'' where
  residue k hk := by
    rw [h'.residue k hk, h.residue k hk, added_append, Nat.cast_add, add_assoc]
  lt_limit k hk hlt := h'.lt_limit k hk (h.lt_limit k hk hlt)

/-- Two counters count what there is of one deed. -/
theorem of_add {one many : Counter} {amount : Nat} (hne : one ≠ many)
    (h : ∀ k ∈ Counter.ofChunks,
      added ds k = if k = many then amount else if k = one then 1 else 0) :
    Counted ds m ((m.inc one).add many amount) := by
  have hwrap : ∀ a b : Nat, Word.wrapAdd a b < Word.limit := fun a b => Nat.mod_lt _ (by decide)
  constructor <;> intro k hk
  · rw [h k hk, Metrics.value_add]
    by_cases hmany : k = many
    · rw [if_pos hmany, if_pos hmany, Metrics.inc, Metrics.value_add, if_neg hne.symm, hmany,
        Word.cast_wrapAdd]
    · rw [if_neg hmany, if_neg hmany, Metrics.inc, Metrics.value_add]
      by_cases hone : k = one
      · rw [if_pos hone, if_pos hone, hone, Word.cast_wrapAdd]
      · rw [if_neg hone, if_neg hone, Nat.cast_zero, add_zero]
  · intro hlt
    rw [Metrics.value_add]
    by_cases hmany : k = many
    · rw [if_pos hmany]
      exact hwrap _ _
    · rw [if_neg hmany, Metrics.inc, Metrics.value_add]
      by_cases hone : k = one
      · rw [if_pos hone]
        exact hwrap _ _
      · rwa [if_neg hone]

end Counted

/-- Writing is not counted. -/
theorem added_put {lo n : Nat} {content : Nat → UInt8} (k : Counter) :
    added [.put lo n content] k = 0 := by
  cases k <;> rfl

variable {m : Metrics}

/-- A chunk that is handed out is counted as it was asked for, and what is only written besides is
    not. -/
theorem counted_handOut {b : Block} (content : Nat → UInt8) {size : Nat} {es : List Deed}
    (hsize : b.record.requestedSize = size) (hes : ∀ k, added es k = 0) :
    Counted (.handOut b content :: es) m ((m.inc .mallocs).add .bytesAllocated size) := by
  refine .of_add (by decide) fun k hk => ?_
  have hsplit := added_append [.handOut b content] es k
  rw [hes, Nat.add_zero] at hsplit
  refine hsplit.trans ?_
  subst hsize
  revert k
  simp [Counter.ofChunks, added, asked, returned, leaves]

/-- A chunk that is freed is counted as it was asked for. -/
theorem counted_retire {b : Block} {size : Nat} (hsize : size = b.record.requestedSize) :
    Counted [.retire b] m ((m.inc .frees).add .bytesFreed size) := by
  subst hsize
  refine .of_add (by decide) ?_
  simp [Counter.ofChunks, added, asked, returned, leaves]

/-- A chunk that leaves the quarantine is counted with its block. -/
theorem counted_evict (e : Entry) :
    Counted [.evict e] m ((m.inc .recycledChunks).add .recycledBytes e.size) := by
  refine .of_add (by decide) ?_
  simp [Counter.ofChunks, added, asked, returned, leaves]

end Deed

namespace Scene

/-- The blocks that users have, as a finite set. -/
def Users (s : Scene) (bs : Finset Block) : Prop :=
  ∀ b, b ∈ bs ↔ b ∈ s.blocks ∧ b.record.state = .allocated

/-- The sizes that were asked for. -/
def sizes (bs : Finset Block) : Multiset Nat :=
  bs.val.map (·.record.requestedSize)

theorem sizes_insert {bs : Finset Block} {b : Block} (hnew : b ∉ bs) :
    sizes (insert b bs) = sizes bs + {b.record.requestedSize} := by
  unfold sizes
  rw [Finset.insert_val_of_notMem hnew, Multiset.map_cons, ← Multiset.singleton_add, add_comm]

theorem sizes_erase {bs : Finset Block} {b : Block} (hin : b ∈ bs) :
    sizes (bs.erase b) + {b.record.requestedSize} = sizes bs := by
  unfold sizes
  rw [Finset.erase_val, add_comm, Multiset.singleton_add, Multiset.map_erase_of_mem _ _ hin]
  exact Multiset.cons_erase (Multiset.mem_map_of_mem (·.record.requestedSize) hin)

namespace Sound

variable {failing marked : Prop} {s t : Scene} {ds : List Deed} {bs : Finset Block}

/-- What users have changes as the deed of a move says. -/
theorem users_move (h : Sound failing marked s) (hmove : Move failing marked s ds t)
    (hbs : s.Users bs) :
    ∃ cs, t.Users cs ∧ sizes cs + (ds.flatMap Deed.returned : Multiset Nat) =
      sizes bs + (ds.flatMap Deed.asked : Multiset Nat) := by
  -- A block that a user has is a chunk, so the chunks before and after decide.
  have hchunks : ∀ {r : Scene} {b : Block}, b.record.state = .allocated →
      (b ∈ r.blocks ↔ b ∈ r.chunks) := fun hb =>
    ⟨fun hin => ⟨hin, by rw [hb]; decide⟩, fun hin => hin.1⟩
  have hmem : ∀ b, b ∈ bs ↔ b ∈ s.chunks ∧ b.record.state = .allocated := fun b =>
    (hbs b).trans (and_congr_left fun hb => hchunks hb)
  have husers : ∀ cs : Finset Block, (∀ b, b ∈ cs ↔ b ∈ t.chunks ∧ b.record.state = .allocated) →
      t.Users cs := fun cs hcs b => (hcs b).trans (and_congr_left fun hb => (hchunks hb).symm)
  obtain ⟨hafter, hallowed⟩ := h.chunks_move hmove
  rw [hafter] at husers
  rcases hmove.deeds_eq with rfl | ⟨d, rfl⟩
  · exact ⟨bs, husers bs hmem, rfl⟩
  have hallowed := hallowed d (List.mem_singleton.mpr rfl)
  cases d with
  | handOut b content =>
      obtain ⟨hstate, hfits, hapart⟩ := hallowed
      have hnew : b ∉ bs := fun hin =>
        Set.disjoint_left.mp (hapart b ((hmem b).mp hin).1) hfits.userBegin_mem hfits.userBegin_mem
      refine ⟨insert b bs, husers _ fun c => ?_, ?_⟩
      · rw [Finset.mem_insert, hmem]
        constructor
        · rintro (rfl | ⟨hc, hlive⟩)
          · exact ⟨.inl rfl, hstate⟩
          · exact ⟨.inr hc, hlive⟩
        · rintro ⟨rfl | hc, hlive⟩
          · exact .inl rfl
          · exact .inr ⟨hc, hlive⟩
      · rw [sizes_insert hnew]
        exact add_zero _
  | retire b =>
      obtain ⟨c, hc, hstate, hb⟩ := hallowed
      have hin : c ∈ bs := (hmem c).mpr ⟨hc, hstate⟩
      have hsize : b.record.requestedSize = c.record.requestedSize := by rw [hb]; rfl
      have hbegin : b.begin = c.begin := by rw [hb]; rfl
      refine ⟨bs.erase c, husers _ fun d => ?_, ?_⟩
      · rw [Finset.mem_erase, hmem]
        constructor
        · rintro ⟨hne, hd, hlive⟩
          refine ⟨.inr ⟨hd, fun heq => hne ?_⟩, hlive⟩
          exact h.tiled.eq_of_begin hd.1 hc.1 (heq.trans hbegin)
        · rintro ⟨rfl | ⟨hd, hne⟩, hlive⟩
          · rw [hb] at hlive
            exact nomatch hlive
          · exact ⟨fun heq => hne (heq ▸ hbegin.symm), hd, hlive⟩
      · show _ + {b.record.requestedSize} = _ + (0 : Multiset Nat)
        rw [hsize, sizes_erase hin, add_zero]
  | evict e =>
      obtain ⟨c, hc, hquarantined, rfl⟩ := hallowed
      refine ⟨bs, husers bs fun d => (hmem d).trans ⟨?_, ?_⟩, rfl⟩
      · rintro ⟨hd, hlive⟩
        refine ⟨⟨hd, fun heq => ?_⟩, hlive⟩
        obtain rfl := h.tiled.eq_of_begin hd.1 hc.1 heq
        exact nomatch hlive.symm.trans hquarantined
      · rintro ⟨⟨hd, -⟩, hlive⟩
        exact ⟨hd, hlive⟩
  | put lo n content => exact ⟨bs, husers bs hmem, rfl⟩
  | lose es => exact ⟨bs, husers bs hmem, rfl⟩

/-- What users have after some moves, with the sizes that they gave back, is what they had before
    with the sizes that they asked for. -/
theorem users_moves (h : Sound failing marked s) (hmoves : Moves failing marked s ds t)
    (hbs : s.Users bs) :
    ∃ cs, t.Users cs ∧ sizes cs + (ds.flatMap Deed.returned : Multiset Nat) =
      sizes bs + (ds.flatMap Deed.asked : Multiset Nat) := by
  induction hmoves generalizing bs with
  | none => exact ⟨bs, hbs, rfl⟩
  | @more s u t ds es first rest ih =>
      obtain ⟨cs, hcs, hfirst⟩ := h.users_move first hbs
      obtain ⟨fs, hfs, hrest⟩ := ih (h.move first) hcs
      refine ⟨fs, hfs, ?_⟩
      rw [List.flatMap_append, List.flatMap_append, ← Multiset.coe_add, ← Multiset.coe_add]
      calc sizes fs + ((ds.flatMap Deed.returned : Multiset Nat) + (es.flatMap Deed.returned : Multiset Nat))
          = sizes fs + (es.flatMap Deed.returned : Multiset Nat) + (ds.flatMap Deed.returned : Multiset Nat) := by abel
        _ = sizes cs + (ds.flatMap Deed.returned : Multiset Nat) + (es.flatMap Deed.asked : Multiset Nat) := by
            rw [hrest]
            abel
        _ = sizes bs + ((ds.flatMap Deed.asked : Multiset Nat) + (es.flatMap Deed.asked : Multiset Nat)) := by
            rw [hfirst, add_assoc]

end Sound

/-- What waits changes as the deed of a move says, if none of it gets lost. -/
theorem waiting_move {failing marked : Prop} {s t : Scene} {ds : List Deed}
    (hmove : Move failing marked s ds t) (hkeeps : ∀ d ∈ ds, d.Keeps) :
    t.waiting + (ds.flatMap Deed.leaves : Multiset Entry) =
      s.waiting + (ds.flatMap Deed.joins : Multiset Entry) := by
  cases hmove with
  | retire b freed hb hstate =>
      show b.entry ::ₘ s.waiting + 0 = s.waiting + {b.entry}
      rw [add_zero, ← Multiset.singleton_add, add_comm]
  | evict b hb hentry =>
      show s.waiting.erase b.entry + {b.entry} = s.waiting + 0
      rw [add_comm, Multiset.singleton_add, Multiset.cons_erase hentry, add_zero]
  | lose hfailing idle waiting lost hidle hwaiting =>
      obtain rfl : lost = 0 := hkeeps _ (List.mem_singleton.mpr rfl)
      rw [zero_add] at hwaiting
      exact congrArg (· + 0) hwaiting
  | grow | handOut | drop | back | unback | reframe | put | mark => rfl

/-- What waits after some moves, with what has left the quarantine, is what waited before with what
    has joined it. -/
theorem waiting_moves {failing marked : Prop} {s t : Scene} {ds : List Deed}
    (hmoves : Moves failing marked s ds t) (hkeeps : ∀ d ∈ ds, d.Keeps) :
    t.waiting + (ds.flatMap Deed.leaves : Multiset Entry) =
      s.waiting + (ds.flatMap Deed.joins : Multiset Entry) := by
  induction hmoves with
  | none => rfl
  | @more s u t ds es first rest ih =>
      obtain ⟨hfirst, hrest⟩ := List.forall_mem_append.mp hkeeps
      have hfirst := waiting_move first hfirst
      have hrest := ih hrest
      rw [List.flatMap_append, List.flatMap_append, ← Multiset.coe_add, ← Multiset.coe_add]
      calc t.waiting + ((ds.flatMap Deed.leaves : Multiset Entry) + (es.flatMap Deed.leaves : Multiset Entry))
          = t.waiting + (es.flatMap Deed.leaves : Multiset Entry) + (ds.flatMap Deed.leaves : Multiset Entry) := by abel
        _ = u.waiting + (ds.flatMap Deed.leaves : Multiset Entry) + (es.flatMap Deed.joins : Multiset Entry) := by
            rw [hrest]
            abel
        _ = s.waiting + ((ds.flatMap Deed.joins : Multiset Entry) + (es.flatMap Deed.joins : Multiset Entry)) := by
            rw [hfirst, add_assoc]

end Scene

end GuardedHeap
