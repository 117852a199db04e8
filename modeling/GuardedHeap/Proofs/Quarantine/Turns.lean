import GuardedHeap.Proofs.Quarantine
import Mathlib.Algebra.BigOperators.Fin

/-! # Turns — a quarantine that any number of batches share

    Calls come one after the other, each for one of the batches or for the
    queue itself, and every call is a `Turn`: what was held before it, what
    it let go, and what is held after it.  Two laws carry the rest: what a
    call lets go and leaves in the queue is what was in the queue with the
    batch that joined it (`Turn.Moves.queue`), and what is in a batch with
    the entry put into it joins the queue as a whole or stays
    (`Turn.Moves.batch`).  Added up over the turns they say that entries
    leave in the order in which their batches joined (`follow_lawful`). -/

namespace GuardedHeap.Quarantine

variable {n size threadSize : Nat}

/-- A queue and the batches that join it. -/
structure Holdings (n : Nat) where
  queue : Quarantine
  batches : Fin n → Batch

/-- A call on a quarantine. -/
inductive Use (n : Nat) where
  | put (i : Fin n) (e : Entry)
  | drain (i : Fin n)
  | purge

/-- A call with what was held before and after it, and what it let go. -/
structure Turn (n : Nat) where
  before : Holdings n
  use : Use n
  out : List Entry
  after : Holdings n

namespace Holdings

/-- Nothing is held. -/
def new (n size threadSize : Nat) : Holdings n where
  queue := Quarantine.new size threadSize
  batches := fun _ => {}

/-- What is held after an eviction for a batch. -/
def settle (s : Holdings n) (i : Fin n) (ev : Eviction) : Holdings n where
  queue := ev.queue
  batches := Function.update s.batches i ev.batch

/-- The entries of the queue and of all batches. -/
def entries (s : Holdings n) : Multiset Entry :=
  ∑ i, ((s.batches i).entries : Multiset Entry) + (s.queue.queue : Multiset Entry)

end Holdings

namespace Use

/-- Carry a call out. -/
def perform (s : Holdings n) (u : Use n) : Checked (Turn n) :=
  match u with
  | put i e =>
    (s.queue.put (s.batches i) e).map fun ev =>
      { before := s, use := u, out := ev.evicted, after := s.settle i ev }
  | drain i =>
    (s.queue.drain (s.batches i)).map fun ev =>
      { before := s, use := u, out := ev.evicted, after := s.settle i ev }
  | purge =>
    .ok { before := s, use := u, out := s.queue.purge.1, after := { s with queue := s.queue.purge.2 } }

/-- The entry that is put into a batch. -/
def putInto (i : Fin n) : Use n → List Entry
  | put j e => if j = i then [e] else []
  | _ => []

/-- The entry that is put into some batch. -/
def entry : Use n → List Entry
  | put _ e => [e]
  | _ => []

end Use

/-- Carry calls out one after the other. -/
def follow (s : Holdings n) : List (Use n) → Checked (List (Turn n))
  | [] => .ok []
  | u :: rest => do
    let turn ← u.perform s
    let later ← follow turn.after rest
    return turn :: later

namespace Turn

/-- What joins the queue in a turn.  A batch that has grown beyond its limit joins it, and so does a
    batch that is drained; without a budget an entry that is put passes by its batch. -/
def joined (turn : Turn n) : List Entry :=
  match turn.use with
  | .put i e =>
    if turn.before.queue.maxBytes = 0 then [e]
    else turn.before.queue.joining (turn.before.batches i).entries e
  | .drain i => (turn.before.batches i).entries
  | .purge => []

/-- What joins the queue in a turn from one batch. -/
def joinedFrom (i : Fin n) (turn : Turn n) : List Entry :=
  match turn.use with
  | .put j _ | .drain j => if j = i then turn.joined else []
  | .purge => []

end Turn

/-! ## The shortest beginning -/

/-- Letting `out` go, the beginning of `whole`, brings the rest within the budget, and letting less go
    does not. -/
def Shortest (budget : Nat) (whole out : List Entry) : Prop :=
  (∃ rest, whole = out ++ rest ∧ weight rest ≤ budget)
  ∧ ∀ out' rest', whole = out' ++ rest' → weight rest' ≤ budget → out.length ≤ out'.length

/-- Nothing has to go where the budget is kept. -/
theorem Shortest.nil {budget : Nat} {whole : List Entry} (h : weight whole ≤ budget) :
    Shortest budget whole [] :=
  ⟨⟨whole, rfl, h⟩, fun _ _ _ _ => Nat.zero_le _⟩

/-- Only the shortest beginning is one. -/
theorem Shortest.unique {budget : Nat} {whole out out' : List Entry} (h : Shortest budget whole out)
    (h' : Shortest budget whole out') : out = out' := by
  obtain ⟨⟨rest, heq, hle⟩, hmin⟩ := h
  obtain ⟨⟨rest', heq', hle'⟩, hmin'⟩ := h'
  refine (List.append_inj (heq.symm.trans heq') ?_).1
  exact Nat.le_antisymm (hmin out' rest' heq' hle') (hmin' out rest heq hle)

/-- Eviction stops within the budget. -/
theorem evict_le (budget : Nat) (queue : List Entry) (bytes : Nat) (hbytes : bytes = weight queue) :
    (evict budget queue bytes).2.2 ≤ budget := by
  induction queue generalizing bytes with
  | nil =>
      rw [hbytes]
      exact Nat.zero_le _
  | cons e rest ih =>
      unfold evict
      by_cases hle : bytes ≤ budget
      · rw [if_pos hle]
        exact hle
      · rw [if_neg hle]
        exact ih (bytes - e.size) (by rw [hbytes, weight_cons]; omega)

/-- What is evicted is the shortest beginning. -/
theorem evict_shortest (budget : Nat) (queue : List Entry) (bytes : Nat)
    (hbytes : bytes = weight queue) : Shortest budget queue (evict budget queue bytes).1 := by
  obtain ⟨hsplit, hleft⟩ := evict_spec budget queue bytes hbytes
  refine ⟨⟨_, hsplit.symm, hleft ▸ evict_le budget queue bytes hbytes⟩, ?_⟩
  intro out' rest' heq hle
  -- A shorter beginning leaves an evicted entry, and that one is too far from the end.
  by_contra hshort
  rw [← hsplit] at heq
  rcases List.append_eq_append_iff.mp heq with ⟨mid, rfl, hmid⟩ | ⟨mid, hout, hmid⟩
  · exact hshort (by rw [List.length_append]; omega)
  · cases mid with
    | nil =>
        rw [List.append_nil] at hout
        exact hshort (by rw [hout])
    | cons e behind =>
        have hlt := evict_weight budget queue bytes hbytes hout
        rw [hmid] at hle
        exact absurd hle (Nat.not_le.mpr hlt)

/-- An eviction takes `joined` into the queue and lets no more go than it must. -/
structure Eviction.Takes (q : Quarantine) (joined : List Entry) (ev : Eviction) : Prop where
  budget : ev.queue.maxBytes = q.maxBytes
  limit : ev.queue.batchLimit = q.batchLimit
  split : q.queue ++ joined = ev.evicted ++ ev.queue.queue
  shortest : Shortest q.maxBytes (q.queue ++ joined) ev.evicted
  le : ev.queue.bytes ≤ q.maxBytes

section Takes

variable {q : Quarantine} {batch : Batch} {e : Entry} {ev : Eviction}

/-- A queue within its budget takes nothing in and lets nothing go. -/
theorem takes_nil (hq : q.Counted) (hle : q.bytes ≤ q.maxBytes) (batch : Batch) :
    Eviction.Takes q [] { evicted := [], batch, queue := q } where
  budget := rfl
  limit := rfl
  split := List.append_nil _
  shortest := by
    rw [List.append_nil]
    exact .nil (hq ▸ hle)
  le := hle

/-- A batch that is spliced is taken in, and is empty afterwards. -/
theorem splice_takes (hq : q.Counted) (hbatch : batch.Counted) (h : q.splice batch = .ok ev) :
    ev.Takes q batch.entries ∧ ev.batch = {} := by
  have hbytes : q.bytes + batch.bytes = weight (q.queue ++ batch.entries) := by
    rw [weight_append, ← hq, ← hbatch]
  unfold splice at h
  obtain ⟨bytes, hadd, h⟩ := checked_bind h
  obtain ⟨-, rfl⟩ := Word.add_eq_ok.mp hadd
  obtain rfl := Except.ok.inj h
  exact ⟨{
    budget := rfl
    limit := rfl
    split := (evict_spec q.maxBytes _ _ hbytes).1.symm
    shortest := evict_shortest q.maxBytes _ _ hbytes
    le := evict_le q.maxBytes _ _ hbytes }, rfl⟩

/-- A batch that outgrows its limit is taken in whole; otherwise it keeps its limit. -/
theorem put_takes (hq : q.Counted) (hbatch : batch.Counted) (hle : q.bytes ≤ q.maxBytes)
    (hpos : 0 < q.maxBytes) (h : q.put batch e = .ok ev) :
    ev.Takes q (q.joining batch.entries e) ∧ ev.batch.bytes ≤ q.batchLimit
      ∧ (q.joining batch.entries e ≠ [] → ev.batch.entries = []) := by
  have hcounted : Batch.Counted ⟨batch.entries ++ [e], batch.bytes + e.size⟩ := by
    show _ = weight (batch.entries ++ [e])
    rw [weight_append, ← hbatch]
    rfl
  unfold put at h
  rw [if_neg (Nat.pos_iff_ne_zero.mp hpos)] at h
  obtain ⟨bytes, hadd, h⟩ := checked_bind h
  obtain ⟨-, rfl⟩ := Word.add_eq_ok.mp hadd
  unfold joining
  rw [← show batch.bytes + e.size = weight (batch.entries ++ [e]) from hcounted]
  by_cases hlimit : batch.bytes + e.size > q.batchLimit
  · rw [if_pos hlimit] at h ⊢
    obtain ⟨htakes, hempty⟩ := splice_takes hq hcounted h
    rw [hempty]
    exact ⟨htakes, Nat.zero_le _, fun _ => rfl⟩
  · rw [if_neg hlimit] at h ⊢
    obtain rfl := Except.ok.inj h
    exact ⟨takes_nil hq hle _, Nat.not_lt.mp hlimit, fun hne => absurd rfl hne⟩

/-- A batch that is drained is taken in whole. -/
theorem drain_takes (hq : q.Counted) (hbatch : batch.Counted) (hle : q.bytes ≤ q.maxBytes)
    (h : q.drain batch = .ok ev) : ev.Takes q batch.entries ∧ ev.batch.bytes ≤ batch.bytes := by
  unfold drain at h
  by_cases hempty : batch.entries.isEmpty = true
  · rw [if_pos hempty] at h
    obtain rfl := Except.ok.inj h
    rw [List.isEmpty_iff.mp hempty]
    exact ⟨takes_nil hq hle _, Nat.le_refl _⟩
  · rw [if_neg hempty] at h
    obtain ⟨htakes, hnew⟩ := splice_takes hq hbatch h
    rw [hnew]
    exact ⟨htakes, Nat.zero_le _⟩

end Takes

/-! ## One turn -/

/-- The queue and all batches know their bytes and keep their limits. -/
structure Holdings.Sound (size threadSize : Nat) (s : Holdings n) : Prop where
  budget : s.queue.maxBytes = size
  limit : s.queue.batchLimit = min threadSize size
  queue : s.queue.Counted
  batch : ∀ i, (s.batches i).Counted
  queue_le : s.queue.bytes ≤ size
  batch_le : ∀ i, (s.batches i).bytes ≤ min threadSize size
  /-- Without a budget nothing is held. -/
  bare : size = 0 → s.queue.queue = [] ∧ ∀ i, (s.batches i).entries = []

/-- What a turn does to the entries. -/
structure Turn.Moves (size : Nat) (turn : Turn n) : Prop where
  /-- The joined queue is parted into what leaves and what stays. -/
  queue : turn.before.queue.queue ++ turn.joined = turn.out ++ turn.after.queue.queue
  /-- A batch keeps the order of puts, with what joins the queue first. -/
  batch : ∀ i, (turn.before.batches i).entries ++ turn.use.putInto i =
    turn.joinedFrom i ++ (turn.after.batches i).entries
  /-- A batch joins the queue as a whole. -/
  whole : ∀ i, turn.joinedFrom i ≠ [] → (turn.after.batches i).entries = []
  conserved : turn.before.entries + (turn.use.entry : Multiset Entry) =
    (turn.out : Multiset Entry) + turn.after.entries
  /-- No more leaves than must; but an entry without bytes, put where there is no budget, leaves. -/
  shortest : turn.use ≠ .purge →
    Shortest size (turn.before.queue.queue ++ turn.joined) turn.out
      ∨ size = 0 ∧ ∃ i e, turn.use = .put i e ∧ e.size = 0 ∧ turn.out = [e]
  purged : turn.use = .purge → turn.out = turn.before.queue.queue

namespace Holdings

variable {s : Holdings n}

/-- Nothing is held in a sound way. -/
theorem new_sound (n size threadSize : Nat) : (new n size threadSize).Sound size threadSize where
  budget := rfl
  limit := rfl
  queue := rfl
  batch _ := rfl
  queue_le := Nat.zero_le _
  batch_le _ := Nat.zero_le _
  bare _ := ⟨rfl, fun _ => rfl⟩

/-- The entries with one batch set apart. -/
theorem entries_eq (s : Holdings n) (i : Fin n) :
    s.entries = ((s.batches i).entries : Multiset Entry) + (s.queue.queue : Multiset Entry)
      + ∑ j ∈ Finset.univ.erase i, ((s.batches j).entries : Multiset Entry) := by
  unfold entries
  rw [← Finset.add_sum_erase _ _ (Finset.mem_univ i)]
  exact add_right_comm _ _ _

theorem batches_settle_of_ne {i j : Fin n} (ev : Eviction) (h : j ≠ i) :
    (s.settle i ev).batches j = s.batches j :=
  Function.update_of_ne h _ _

@[simp] theorem batches_settle_self {i : Fin n} (ev : Eviction) :
    (s.settle i ev).batches i = ev.batch :=
  Function.update_self _ _ _

/-- An eviction that sorts keeps all entries. -/
theorem entries_settle {i : Fin n} {ev : Eviction} {fresh : List Entry}
    (h : ev.Sorts (s.queue.queue ++ (s.batches i).entries ++ fresh)) :
    s.entries + (fresh : Multiset Entry) = (ev.evicted : Multiset Entry) + (s.settle i ev).entries := by
  have hothers : ∑ j ∈ Finset.univ.erase i, (((s.settle i ev).batches j).entries : Multiset Entry) =
      ∑ j ∈ Finset.univ.erase i, ((s.batches j).entries : Multiset Entry) :=
    Finset.sum_congr rfl fun j hj => by rw [batches_settle_of_ne ev (Finset.ne_of_mem_erase hj)]
  have hperm : (ev.evicted + ev.queue.queue + ev.batch.entries : Multiset Entry) =
      (s.queue.queue + (s.batches i).entries + fresh : Multiset Entry) := by
    rw [Multiset.coe_add, Multiset.coe_add, Multiset.coe_add, Multiset.coe_add]
    exact Multiset.coe_eq_coe.mpr h.perm
  rw [entries_eq s i, entries_eq (s.settle i ev) i, hothers, batches_settle_self]
  generalize ∑ j ∈ Finset.univ.erase i, ((s.batches j).entries : Multiset Entry) = others
  calc ((s.batches i).entries + s.queue.queue + others + fresh : Multiset Entry)
      = s.queue.queue + (s.batches i).entries + fresh + others := by
        rw [add_comm ((s.batches i).entries : Multiset Entry), add_right_comm]
    _ = ev.evicted + ev.queue.queue + ev.batch.entries + others := by rw [hperm]
    _ = ev.evicted + (ev.batch.entries + ev.queue.queue + others) := by
        rw [add_assoc (ev.evicted : Multiset Entry), add_assoc,
          add_comm (ev.queue.queue : Multiset Entry)]

end Holdings

/-! ## Carrying a call out -/

section Perform

variable {s : Holdings n} {i : Fin n} {ev : Eviction} {fresh joined : List Entry}

/-- The bytes of some entries in any order. -/
def mass (es : Multiset Entry) : Nat :=
  (es.map Entry.size).sum

/-- One batch with the queue has no more bytes than all batches. -/
theorem weight_le_mass (s : Holdings n) (i : Fin n) :
    weight (s.queue.queue ++ (s.batches i).entries) ≤ mass s.entries := by
  unfold mass
  rw [s.entries_eq i, Multiset.map_add, Multiset.sum_add, Multiset.map_add, Multiset.sum_add,
    weight_append, Nat.add_comm (weight s.queue.queue)]
  exact Nat.le_add_right _ _

/-- What is held after a batch has been dealt with is sound. -/
theorem Holdings.Sound.settle (h : s.Sound size threadSize)
    (hsorts : ev.Sorts (s.queue.queue ++ (s.batches i).entries ++ fresh))
    (htakes : ev.Takes s.queue joined) (hle : ev.batch.bytes ≤ s.queue.batchLimit)
    (hbare : size = 0 → fresh = []) : (s.settle i ev).Sound size threadSize where
  budget := htakes.budget.trans h.budget
  limit := htakes.limit.trans h.limit
  queue := hsorts.queue
  batch j := by
    by_cases hj : j = i
    · subst hj
      rw [Holdings.batches_settle_self]
      exact hsorts.batch
    · rw [Holdings.batches_settle_of_ne ev hj]
      exact h.batch j
  queue_le := h.budget ▸ htakes.le
  batch_le j := by
    by_cases hj : j = i
    · subst hj
      rw [Holdings.batches_settle_self, ← h.limit]
      exact hle
    · rw [Holdings.batches_settle_of_ne ev hj]
      exact h.batch_le j
  bare hzero := by
    obtain ⟨hqueue, hbatches⟩ := h.bare hzero
    have hperm := hsorts.perm
    rw [hqueue, hbatches i, hbare hzero] at hperm
    obtain ⟨hleft, hbatch⟩ := List.append_eq_nil_iff.mp hperm.eq_nil
    refine ⟨(List.append_eq_nil_iff.mp hleft).2, fun j => ?_⟩
    by_cases hj : j = i
    · subst hj
      rw [Holdings.batches_settle_self]
      exact hbatch
    · rw [Holdings.batches_settle_of_ne ev hj]
      exact hbatches j

/-- The batches after one of them has been dealt with. -/
theorem batch_settle (hbatch : (s.batches i).entries ++ fresh = joined ++ ev.batch.entries)
    (j : Fin n) :
    (s.batches j).entries ++ (if i = j then fresh else []) =
      (if i = j then joined else []) ++ ((s.settle i ev).batches j).entries := by
  by_cases hj : i = j
  · subst hj
    rw [if_pos rfl, if_pos rfl, Holdings.batches_settle_self]
    exact hbatch
  · rw [if_neg hj, if_neg hj, Holdings.batches_settle_of_ne ev (Ne.symm hj), List.append_nil,
      List.nil_append]

/-- The batch that joins the queue is empty afterwards. -/
theorem whole_settle (hwhole : joined ≠ [] → ev.batch.entries = []) (j : Fin n)
    (hne : (if i = j then joined else []) ≠ []) : ((s.settle i ev).batches j).entries = [] := by
  by_cases hj : i = j
  · subst hj
    rw [if_pos rfl] at hne
    rw [Holdings.batches_settle_self]
    exact hwhole hne
  · rw [if_neg hj] at hne
    exact absurd rfl hne

/-- Without a budget an entry passes by its batch, and nothing else is held. -/
theorem moves_put_bare (h : s.Sound size threadSize) (e : Entry) (hzero : size = 0) :
    Turn.Moves size ⟨s, .put i e, [e], s⟩ := by
  obtain ⟨hqueue, hbatches⟩ := h.bare hzero
  have hjoined : (⟨s, .put i e, [e], s⟩ : Turn n).joined = [e] := if_pos (h.budget.trans hzero)
  constructor
  case queue =>
    rw [hjoined]
    show s.queue.queue ++ [e] = [e] ++ s.queue.queue
    rw [hqueue]
    rfl
  case batch =>
    intro j
    show (s.batches j).entries ++ (if i = j then [e] else []) =
      (if i = j then (⟨s, .put i e, [e], s⟩ : Turn n).joined else []) ++ (s.batches j).entries
    rw [hjoined, hbatches j, List.append_nil, List.nil_append]
  case whole => exact fun j _ => hbatches j
  case conserved => exact add_comm _ _
  case shortest =>
    intro _
    by_cases hsize : e.size = 0
    · exact .inr ⟨hzero, i, e, rfl, hsize, rfl⟩
    · refine .inl ?_
      rw [hjoined]
      show Shortest size (s.queue.queue ++ [e]) [e]
      rw [hqueue]
      refine ⟨⟨[], rfl, Nat.zero_le _⟩, fun out' rest' heq hle => ?_⟩
      cases out' with
      | nil =>
          obtain rfl : [e] = rest' := heq
          rw [hzero, show weight [e] = e.size from rfl] at hle
          exact absurd (Nat.le_zero.mp hle) hsize
      | cons f out' => exact Nat.le_add_left _ _
  case purged => exact nofun

/-- With a budget the batch keeps the entry, or joins the queue as a whole. -/
theorem moves_put {e : Entry} {ev : Eviction} (h : s.Sound size threadSize) (hsize : size ≠ 0)
    (hev : s.queue.put (s.batches i) e = .ok ev)
    (hsorts : ev.Sorts (s.queue.queue ++ (s.batches i).entries ++ [e])) :
    (s.settle i ev).Sound size threadSize ∧ Turn.Moves size ⟨s, .put i e, ev.evicted, s.settle i ev⟩ := by
  have hpos : 0 < s.queue.maxBytes := by
    rw [h.budget]
    exact Nat.pos_of_ne_zero hsize
  have hle : s.queue.bytes ≤ s.queue.maxBytes := h.budget.symm ▸ h.queue_le
  obtain ⟨htakes, hlimit, hwhole⟩ := put_takes h.queue (h.batch i) hle hpos hev
  have hbatch := (put_joins h.queue (h.batch i) hpos hev).2
  have hjoined : (⟨s, .put i e, ev.evicted, s.settle i ev⟩ : Turn n).joined =
      s.queue.joining (s.batches i).entries e := if_neg (Nat.pos_iff_ne_zero.mp hpos)
  refine ⟨h.settle hsorts htakes hlimit fun hzero => absurd hzero hsize, ?_⟩
  constructor
  case queue =>
    rw [hjoined]
    exact htakes.split
  case batch =>
    intro j
    unfold Turn.joinedFrom
    dsimp only
    rw [hjoined]
    exact batch_settle hbatch j
  case whole =>
    intro j hne
    unfold Turn.joinedFrom at hne
    dsimp only at hne
    rw [hjoined] at hne
    exact whole_settle hwhole j hne
  case conserved => exact Holdings.entries_settle hsorts
  case shortest =>
    intro _
    rw [hjoined]
    exact .inl (h.budget ▸ htakes.shortest)
  case purged => exact nofun

/-- Putting an entry into a batch is one turn. -/
theorem perform_put (h : s.Sound size threadSize) (e : Entry)
    (hroom : mass s.entries + e.size < Word.limit) :
    ∃ turn, (Use.put i e).perform s = .ok turn ∧ turn.before = s ∧ turn.use = .put i e
      ∧ turn.after.Sound size threadSize ∧ turn.Moves size := by
  have hlt : weight (s.queue.queue ++ (s.batches i).entries ++ [e]) < Word.limit := by
    have := weight_le_mass s i
    rw [weight_append, show weight [e] = e.size from rfl]
    omega
  obtain ⟨ev, hev, hsorts⟩ := put_spec h.queue (h.batch i) hlt
  refine ⟨⟨s, .put i e, ev.evicted, s.settle i ev⟩, ?_, rfl, rfl, ?_⟩
  · unfold Use.perform
    dsimp only
    rw [hev]
    rfl
  by_cases hzero : size = 0
  · unfold put at hev
    rw [if_pos (h.budget.trans hzero)] at hev
    obtain rfl := Except.ok.inj hev
    have hsame : s.settle i ⟨[e], s.batches i, s.queue⟩ = s := by
      unfold Holdings.settle
      rw [Function.update_eq_self]
    dsimp only
    rw [hsame]
    exact ⟨h, moves_put_bare h e hzero⟩
  · exact moves_put h hzero hev hsorts

/-- Draining a batch is one turn. -/
theorem perform_drain (h : s.Sound size threadSize) (hroom : mass s.entries < Word.limit) :
    ∃ turn, (Use.drain i).perform s = .ok turn ∧ turn.before = s ∧ turn.use = .drain i
      ∧ turn.after.Sound size threadSize ∧ turn.Moves size := by
  have hlt := Nat.lt_of_le_of_lt (weight_le_mass s i) hroom
  obtain ⟨ev, hev, hsorts, hempty⟩ := drain_spec h.queue (h.batch i) hlt
  have hle : s.queue.bytes ≤ s.queue.maxBytes := h.budget.symm ▸ h.queue_le
  obtain ⟨htakes, hbytes⟩ := drain_takes h.queue (h.batch i) hle hev
  have hlimit : ev.batch.bytes ≤ s.queue.batchLimit := by
    rw [h.limit]
    exact Nat.le_trans hbytes (h.batch_le i)
  have hbatch : (s.batches i).entries ++ [] = (s.batches i).entries ++ ev.batch.entries := by
    rw [hempty]
  rw [← List.append_nil (s.queue.queue ++ _)] at hsorts
  refine ⟨⟨s, .drain i, ev.evicted, s.settle i ev⟩, ?_, rfl, rfl,
    h.settle hsorts htakes hlimit fun _ => rfl, ?_⟩
  · unfold Use.perform
    dsimp only
    rw [hev]
    rfl
  constructor
  case queue => exact htakes.split
  case batch =>
    intro j
    have := batch_settle hbatch j
    rwa [ite_self] at this
  case whole => exact fun j => whole_settle (fun _ => hempty) j
  case conserved => exact Holdings.entries_settle hsorts
  case shortest => exact fun _ => .inl (h.budget ▸ htakes.shortest)
  case purged => exact nofun

/-- Purging the queue is one turn. -/
theorem perform_purge (h : s.Sound size threadSize) :
    ∃ turn, Use.purge.perform s = .ok turn ∧ turn.before = s ∧ turn.use = .purge
      ∧ turn.after.Sound size threadSize ∧ turn.Moves size := by
  refine ⟨_, rfl, rfl, rfl, ?_, ?_⟩
  · exact { h with
      queue := rfl
      queue_le := Nat.zero_le _
      bare := fun hzero => ⟨rfl, (h.bare hzero).2⟩ }
  constructor
  case queue => rfl
  case batch => exact fun _ => List.append_nil _
  case whole => exact fun _ hne => absurd rfl hne
  case conserved =>
    show s.entries + 0 = (s.queue.queue : Multiset Entry) + (∑ i, _ + 0)
    rw [add_zero, add_zero]
    exact add_comm _ _
  case shortest => exact fun hne => absurd rfl hne
  case purged => exact fun _ => rfl

/-- Every call is a turn as far as the bytes can be counted. -/
theorem perform_spec (h : s.Sound size threadSize) (u : Use n)
    (hroom : mass s.entries + weight u.entry < Word.limit) :
    ∃ turn, u.perform s = .ok turn ∧ turn.before = s ∧ turn.use = u
      ∧ turn.after.Sound size threadSize ∧ turn.Moves size := by
  cases u with
  | put i e => exact perform_put h e hroom
  | drain i => exact perform_drain h hroom
  | purge => exact perform_purge h

end Perform

/-! ## All turns -/

/-- What some turns do to the entries, from the holdings before the first to those after the last. -/
structure Accounts (s : Holdings n) (turns : List (Turn n)) (t : Holdings n) : Prop where
  queue : s.queue.queue ++ turns.flatMap Turn.joined = turns.flatMap Turn.out ++ t.queue.queue
  batch : ∀ i, (s.batches i).entries ++ turns.flatMap (·.use.putInto i) =
    turns.flatMap (Turn.joinedFrom i) ++ (t.batches i).entries
  conserved : s.entries + (turns.flatMap (·.use.entry) : Multiset Entry) =
    (turns.flatMap Turn.out : Multiset Entry) + t.entries

/-- The accounts of no turn. -/
theorem Accounts.nil (s : Holdings n) : Accounts s [] s where
  queue := List.append_nil _
  batch _ := List.append_nil _
  conserved := add_comm _ _

/-- A turn before others. -/
theorem Accounts.cons {turn : Turn n} {turns : List (Turn n)} {t : Holdings n}
    (hturn : turn.Moves size) (h : Accounts turn.after turns t) :
    Accounts turn.before (turn :: turns) t where
  queue := by
    rw [List.flatMap_cons, List.flatMap_cons, ← List.append_assoc, hturn.queue, List.append_assoc,
      h.queue, List.append_assoc]
  batch i := by
    rw [List.flatMap_cons, List.flatMap_cons, ← List.append_assoc, hturn.batch i, List.append_assoc,
      h.batch i, List.append_assoc]
  conserved := by
    rw [List.flatMap_cons, List.flatMap_cons, ← Multiset.coe_add, ← Multiset.coe_add, ← add_assoc,
      hturn.conserved, add_assoc, h.conserved, add_assoc]

/-- Calls are carried out one after the other, as far as the bytes can be counted; each is a turn that
    moves entries, and the accounts hold after each. -/
theorem follow_spec {s : Holdings n} (h : s.Sound size threadSize) (uses : List (Use n))
    (hroom : mass s.entries + weight (uses.flatMap Use.entry) < Word.limit) :
    ∃ turns, follow s uses = .ok turns ∧ turns.map Turn.use = uses
      ∧ ∀ past turn later, turns = past ++ turn :: later →
        turn.Moves size ∧ turn.after.Sound size threadSize ∧ Accounts s (past ++ [turn]) turn.after := by
  induction uses generalizing s with
  | nil => exact ⟨[], rfl, rfl, fun past turn later heq => by simp at heq⟩
  | cons u rest ih =>
      rw [List.flatMap_cons, weight_append] at hroom
      obtain ⟨turn, hturn, rfl, rfl, hsound, hmoves⟩ := perform_spec h u (by omega)
      -- What is held next are the entries of before and the put one, less what went out.
      have hmass : mass turn.after.entries ≤ mass turn.before.entries + weight turn.use.entry := by
        have heq := congrArg mass hmoves.conserved
        unfold mass at heq ⊢
        rw [Multiset.map_add, Multiset.sum_add, Multiset.map_add, Multiset.sum_add] at heq
        show _ ≤ _ + (Multiset.map Entry.size (turn.use.entry : Multiset Entry)).sum
        omega
      obtain ⟨turns, hfollow, huses, hall⟩ := ih hsound (by omega)
      refine ⟨turn :: turns, ?_, by rw [List.map_cons, huses], fun past last later heq => ?_⟩
      · unfold follow
        rw [hturn]
        show (follow turn.after rest >>= fun later => .ok (turn :: later)) = _
        rw [hfollow]
        rfl
      · cases past with
        | nil =>
            obtain ⟨rfl, -⟩ := List.cons.inj heq
            exact ⟨hmoves, hsound, .cons hmoves (.nil _)⟩
        | cons first past =>
            obtain ⟨rfl, hrest⟩ := List.cons.inj heq
            obtain ⟨hlast, hlastSound, haccounts⟩ := hall past last later hrest
            exact ⟨hlast, hlastSound, .cons hmoves haccounts⟩

/-- What holds after a turn, given the turns before it. -/
structure Turn.Lawful (size threadSize : Nat) (past : List (Turn n)) (turn : Turn n) : Prop where
  /-- What was put in is what was let go with what is held. -/
  conserved : ((past ++ [turn]).flatMap (·.use.entry) : Multiset Entry) =
    ((past ++ [turn]).flatMap Turn.out : Multiset Entry) + turn.after.entries
  queue_counted : turn.after.queue.bytes = weight turn.after.queue.queue
  batch_counted : ∀ i, (turn.after.batches i).bytes = weight (turn.after.batches i).entries
  queue_le : turn.after.queue.bytes ≤ size
  batch_le : ∀ i, (turn.after.batches i).bytes ≤ min threadSize size
  /-- A batch keeps the order of puts. -/
  batch_order : ∀ i, (past ++ [turn]).flatMap (·.use.putInto i) =
    (past ++ [turn]).flatMap (Turn.joinedFrom i) ++ (turn.after.batches i).entries
  /-- A batch joins the queue as a whole. -/
  whole : ∀ i, turn.joinedFrom i ≠ [] → (turn.after.batches i).entries = []
  /-- Entries leave in the order in which they joined the queue. -/
  queue_order : (past ++ [turn]).flatMap Turn.joined =
    (past ++ [turn]).flatMap Turn.out ++ turn.after.queue.queue
  /-- No more leaves than must; but an entry without bytes, put where there is no budget, leaves. -/
  shortest : turn.use ≠ .purge →
    Shortest size (turn.before.queue.queue ++ turn.joined) turn.out
      ∨ size = 0 ∧ ∃ i e, turn.use = .put i e ∧ e.size = 0 ∧ turn.out = [e]
  purged : turn.use = .purge → turn.out = turn.before.queue.queue

/-- Whatever calls are made on a quarantine, none fails as long as the bytes that are put in can be
    counted, and after each of them entries, counts, limits and order are as they should be. -/
theorem follow_lawful (n size threadSize : Nat) (uses : List (Use n))
    (hroom : weight (uses.flatMap Use.entry) < Word.limit) :
    ∃ turns, follow (.new n size threadSize) uses = .ok turns ∧ turns.map Turn.use = uses
      ∧ ∀ past turn later, turns = past ++ turn :: later → turn.Lawful size threadSize past := by
  have hnone : (Holdings.new n size threadSize).entries = 0 := by
    show ∑ i : Fin n, (0 : Multiset Entry) + 0 = 0
    rw [Finset.sum_const_zero, add_zero]
  have hmass : mass (Holdings.new n size threadSize).entries = 0 := by
    rw [hnone]
    rfl
  obtain ⟨turns, hfollow, huses, hall⟩ :=
    follow_spec (Holdings.new_sound n size threadSize) uses (by rwa [hmass, Nat.zero_add])
  refine ⟨turns, hfollow, huses, fun past turn later heq => ?_⟩
  obtain ⟨hmoves, hsound, haccounts⟩ := hall past turn later heq
  exact {
    conserved := by rw [← haccounts.conserved, hnone, zero_add]
    queue_counted := hsound.queue
    batch_counted := hsound.batch
    queue_le := hsound.queue_le
    batch_le := hsound.batch_le
    batch_order := haccounts.batch
    whole := hmoves.whole
    queue_order := haccounts.queue
    shortest := hmoves.shortest
    purged := hmoves.purged }

/-- Two batches: the second put outgrows the first batch, and the drained second batch pushes the
    oldest entry out. -/
theorem follow_lawful_two_batches :
    weight ([.put 0 ⟨1000, 1016, 60⟩, .put 1 ⟨2000, 2016, 40⟩, .put 0 ⟨3000, 3016, 30⟩, .drain 1,
      .purge].flatMap (Use.entry (n := 2))) < Word.limit
    ∧ ∃ turns, follow (.new 2 100 80) [.put 0 ⟨1000, 1016, 60⟩, .put 1 ⟨2000, 2016, 40⟩,
        .put 0 ⟨3000, 3016, 30⟩, .drain 1, .purge] = .ok turns
      ∧ turns.map Turn.out =
        [[], [], [], [⟨1000, 1016, 60⟩], [⟨3000, 3016, 30⟩, ⟨2000, 2016, 40⟩]]
      ∧ ∀ past turn later, turns = past ++ turn :: later → turn.Lawful 100 80 past := by
  refine ⟨by decide, ?_⟩
  obtain ⟨turns, hfollow, -, hlawful⟩ := follow_lawful 2 100 80 [.put 0 ⟨1000, 1016, 60⟩,
    .put 1 ⟨2000, 2016, 40⟩, .put 0 ⟨3000, 3016, 30⟩, .drain 1, .purge] (by decide)
  have hout : (follow (.new 2 100 80) [.put 0 ⟨1000, 1016, 60⟩, .put 1 ⟨2000, 2016, 40⟩,
      .put 0 ⟨3000, 3016, 30⟩, .drain 1, .purge]).map (List.map Turn.out) =
        .ok [[], [], [], [⟨1000, 1016, 60⟩], [⟨3000, 3016, 30⟩, ⟨2000, 2016, 40⟩]] := by
    decide
  rw [hfollow] at hout
  exact ⟨turns, hfollow, Except.ok.inj hout, hlawful⟩

/-- Without a budget an entry leaves even if it has no bytes, which nothing asks for. -/
theorem free_put_not_shortest :
    ∃ turn, follow (.new 1 0 100) [.put 0 ⟨9, 9, 0⟩] = .ok [turn]
      ∧ ∀ spliced : List Entry, (∀ e ∈ spliced, e = ⟨9, 9, 0⟩) → ¬ Shortest 0 spliced turn.out := by
  refine ⟨_, rfl, fun spliced hall hshortest => ?_⟩
  have hnone : weight spliced = 0 := by
    refine List.sum_eq_zero fun m hm => ?_
    obtain ⟨e, he, rfl⟩ := List.mem_map.mp hm
    rw [hall e he]
  exact nomatch (Shortest.nil hnone.le).unique hshortest

end GuardedHeap.Quarantine
