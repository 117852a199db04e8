import GuardedHeap.Proofs.Scene.Sound
import GuardedHeap.Quarantine
import Mathlib.Algebra.BigOperators.Group.Finset.Sigma
import Mathlib.Algebra.GroupWithZero.Nat
import Mathlib.Order.Interval.Finset.Nat

/-! # Quarantine — entries are sorted, and none is lost

    Putting an entry in only sorts: what was in the queue and in the batch,
    with the entry, is afterwards in the queue, in the batch, or has left
    (`put_spec`, `drain_spec`).  The byte counts cannot overflow, since the
    entries of a sound scene have blocks of their own in one range
    (`weight_waiting_le`). -/

namespace GuardedHeap

namespace Quarantine

/-- The bytes of some entries. -/
def weight (es : List Entry) : Nat :=
  (es.map (·.size)).sum

@[simp] theorem weight_nil : weight [] = 0 := rfl

@[simp] theorem weight_cons (e : Entry) (es : List Entry) :
    weight (e :: es) = e.size + weight es := rfl

@[simp] theorem weight_append (es fs : List Entry) :
    weight (es ++ fs) = weight es + weight fs := by
  unfold weight
  rw [List.map_append, List.sum_append]

/-- The queue knows its bytes. -/
def Counted (q : Quarantine) : Prop :=
  q.bytes = weight q.queue

/-- The batch knows its bytes. -/
def Batch.Counted (b : Batch) : Prop :=
  b.bytes = weight b.entries

/-- The eviction sorts some entries into those that leave, the queue and the batch. -/
structure Eviction.Sorts (ev : Eviction) (entries : List Entry) : Prop where
  perm : (ev.evicted ++ ev.queue.queue ++ ev.batch.entries).Perm entries
  queue : ev.queue.Counted
  batch : ev.batch.Counted

variable {q : Quarantine} {batch : Batch} {e : Entry}

/-- What leaves the queue is its beginning, and the rest is counted. -/
theorem evict_spec (budget : Nat) (queue : List Entry) (bytes : Nat) (hbytes : bytes = weight queue) :
    (evict budget queue bytes).1 ++ (evict budget queue bytes).2.1 = queue
      ∧ (evict budget queue bytes).2.2 = weight (evict budget queue bytes).2.1 := by
  induction queue generalizing bytes with
  | nil => exact ⟨rfl, hbytes⟩
  | cons e rest ih =>
      unfold evict
      by_cases hle : bytes ≤ budget
      · rw [if_pos hle]
        exact ⟨rfl, hbytes⟩
      · rw [if_neg hle]
        obtain ⟨hsplit, hleft⟩ := ih (bytes - e.size) (by rw [hbytes, weight_cons]; omega)
        exact ⟨congrArg (e :: ·) hsplit, hleft⟩

/-- Splicing moves the batch to the queue, of which some entries leave. -/
theorem splice_spec (hq : q.Counted) (hbatch : batch.Counted)
    (hroom : weight (q.queue ++ batch.entries) < Word.limit) :
    ∃ ev, q.splice batch = .ok ev ∧ ev.Sorts (q.queue ++ batch.entries) := by
  rw [weight_append, ← hq, ← hbatch] at hroom
  obtain ⟨hsplit, hleft⟩ := evict_spec q.maxBytes (q.queue ++ batch.entries)
    (q.bytes + batch.bytes) (by rw [weight_append, ← hq, ← hbatch])
  unfold splice
  rw [Word.add_eq_ok.mpr ⟨hroom, rfl⟩]
  refine ⟨_, rfl, ?_, hleft, rfl⟩
  show ((evict _ _ _).1 ++ (evict _ _ _).2.1 ++ []).Perm _
  rw [List.append_nil, hsplit]

/-- Putting an entry in only sorts. -/
theorem put_spec (hq : q.Counted) (hbatch : batch.Counted)
    (hroom : weight (q.queue ++ batch.entries ++ [e]) < Word.limit) :
    ∃ ev, q.put batch e = .ok ev ∧ ev.Sorts (q.queue ++ batch.entries ++ [e]) := by
  unfold put
  by_cases hmax : q.maxBytes = 0
  · rw [if_pos hmax]
    refine ⟨_, rfl, ?_, hq, hbatch⟩
    exact (List.perm_append_comm : ([e] ++ _).Perm _)
  · rw [if_neg hmax]
    rw [List.append_assoc] at hroom ⊢
    have hbatch' : batch.bytes + e.size = weight (batch.entries ++ [e]) := by
      rw [weight_append, ← hbatch]
      rfl
    have hlt : batch.bytes + e.size < Word.limit := by
      rw [weight_append] at hroom
      omega
    rw [Word.add_eq_ok.mpr ⟨hlt, rfl⟩]
    show ∃ ev, (if _ > q.batchLimit then _ else _) = _ ∧ _
    by_cases hlimit : batch.bytes + e.size > q.batchLimit
    · rw [if_pos hlimit]
      exact splice_spec hq (hbatch' : Batch.Counted ⟨batch.entries ++ [e], batch.bytes + e.size⟩) hroom
    · rw [if_neg hlimit]
      exact ⟨_, rfl, .refl _, hq, hbatch'⟩

/-- Draining a batch only sorts, and leaves the batch empty. -/
theorem drain_spec (hq : q.Counted) (hbatch : batch.Counted)
    (hroom : weight (q.queue ++ batch.entries) < Word.limit) :
    ∃ ev, q.drain batch = .ok ev ∧ ev.Sorts (q.queue ++ batch.entries)
      ∧ ev.batch.entries = [] := by
  unfold drain
  by_cases hempty : batch.entries.isEmpty = true
  · rw [if_pos hempty]
    exact ⟨_, rfl, ⟨.refl _, hq, hbatch⟩, List.isEmpty_iff.mp hempty⟩
  · rw [if_neg hempty]
    obtain ⟨ev, hev, hsorts⟩ := splice_spec hq hbatch hroom
    refine ⟨ev, hev, hsorts, ?_⟩
    unfold splice at hev
    rw [weight_append, ← hq, ← hbatch] at hroom
    rw [Word.add_eq_ok.mpr ⟨hroom, rfl⟩] at hev
    obtain rfl := Except.ok.inj hev
    rfl

/-! ## Leaving -/

/-- The queue has taken entries in at its end, and an entry that has left it was more than the
    budget away from that end. -/
structure Joins (q : Quarantine) (joined : List Entry) (q' : Quarantine) : Prop where
  budget : q'.maxBytes = q.maxBytes
  split : ∃ gone, q.queue ++ joined = gone ++ q'.queue ∧ ∀ before e behind,
    gone = before ++ e :: behind → q.maxBytes < weight (e :: behind ++ q'.queue)

/-- A queue that nothing joins stays as it is. -/
theorem Joins.refl (q : Quarantine) : q.Joins [] q :=
  ⟨rfl, [], List.append_nil _, fun before e behind h => by simp at h⟩

/-- What leaves the queue is more than the budget away from its end. -/
theorem evict_weight (budget : Nat) (queue : List Entry) (bytes : Nat) (hbytes : bytes = weight queue)
    {before behind : List Entry} {e : Entry}
    (h : (evict budget queue bytes).1 = before ++ e :: behind) :
    budget < weight (e :: behind ++ (evict budget queue bytes).2.1) := by
  induction queue generalizing bytes before with
  | nil => simp [evict] at h
  | cons f rest ih =>
      unfold evict at h ⊢
      by_cases hle : bytes ≤ budget
      · rw [if_pos hle] at h
        simp at h
      · rw [if_neg hle] at h ⊢
        have hrest : bytes - f.size = weight rest := by rw [hbytes, weight_cons]; omega
        cases before with
        | nil =>
            obtain ⟨rfl, hbehind⟩ := List.cons.inj h
            have hsplit := (evict_spec budget rest _ hrest).1
            show budget < weight (f :: behind ++ (evict budget rest (bytes - f.size)).2.1)
            rw [List.cons_append, ← hbehind, hsplit, ← hbytes]
            omega
        | cons g before => exact ih _ hrest (List.cons.inj h).2

theorem checked_bind {α β : Type} {c : Checked α} {next : α → Checked β} {b : β}
    (h : c >>= next = .ok b) : ∃ a, c = .ok a ∧ next a = .ok b := by
  cases c with
  | ok a => exact ⟨a, rfl, h⟩
  | error o => exact nomatch h

/-- A batch that is spliced joins the queue as it is. -/
theorem splice_joins (hq : q.Counted) (hbatch : batch.Counted) {ev : Eviction}
    (h : q.splice batch = .ok ev) : q.Joins batch.entries ev.queue ∧ ev.batch.entries = [] := by
  unfold splice at h
  obtain ⟨bytes, hadd, h⟩ := checked_bind h
  obtain ⟨-, rfl⟩ := Word.add_eq_ok.mp hadd
  obtain rfl := Except.ok.inj h
  have hbytes : q.bytes + batch.bytes = weight (q.queue ++ batch.entries) := by
    rw [weight_append, ← hq, ← hbatch]
  refine ⟨⟨rfl, _, (evict_spec q.maxBytes _ _ hbytes).1.symm, fun before e behind hgone => ?_⟩, rfl⟩
  exact evict_weight q.maxBytes _ _ hbytes hgone

/-- What joins the queue when an entry is put behind the waiting ones of a batch. -/
def joining (q : Quarantine) (waiting : List Entry) (e : Entry) : List Entry :=
  if weight (waiting ++ [e]) > q.batchLimit then waiting ++ [e] else []

/-- An entry that is put in joins the queue with its batch, or stays in the batch. -/
theorem put_joins (hq : q.Counted) (hbatch : batch.Counted) (hpos : 0 < q.maxBytes) {ev : Eviction}
    (h : q.put batch e = .ok ev) :
    q.Joins (q.joining batch.entries e) ev.queue
      ∧ batch.entries ++ [e] = q.joining batch.entries e ++ ev.batch.entries := by
  have hcounted : Batch.Counted ⟨batch.entries ++ [e], batch.bytes + e.size⟩ := by
    show _ = weight (batch.entries ++ [e])
    rw [weight_append, ← hbatch]
    rfl
  unfold put at h
  rw [if_neg (Nat.pos_iff_ne_zero.mp hpos)] at h
  obtain ⟨bytes, hadd, h⟩ := checked_bind h
  obtain ⟨-, rfl⟩ := Word.add_eq_ok.mp hadd
  unfold joining
  rw [← show batch.bytes + e.size = weight (batch.entries ++ [e]) from hcounted]
  by_cases hlimit : batch.bytes + e.size > q.batchLimit
  · rw [if_pos hlimit] at h ⊢
    obtain ⟨hjoins, hempty⟩ := splice_joins hq hcounted h
    exact ⟨hjoins, by rw [hempty, List.append_nil]⟩
  · rw [if_neg hlimit] at h ⊢
    obtain rfl := Except.ok.inj h
    exact ⟨.refl q, rfl⟩

/-- A batch that is drained joins the queue. -/
theorem drain_joins (hq : q.Counted) (hbatch : batch.Counted) {ev : Eviction}
    (h : q.drain batch = .ok ev) : q.Joins batch.entries ev.queue ∧ ev.batch.entries = [] := by
  unfold drain at h
  by_cases hempty : batch.entries.isEmpty = true
  · rw [if_pos hempty] at h
    obtain rfl := Except.ok.inj h
    rw [List.isEmpty_iff.mp hempty]
    exact ⟨.refl q, rfl⟩
  · rw [if_neg hempty] at h
    exact splice_joins hq hbatch h

end Quarantine

/-! ## Room -/

/-- Ranges that keep apart have no more addresses than the room that they lie in. -/
theorem sum_size_le_card {α : Type} {xs : Finset α} (lo : α → Nat) {size : α → Nat} {room : Finset Nat}
    (hapart : ∀ x ∈ xs, ∀ y ∈ xs, ∀ a, lo x ≤ a ∧ a < lo x + size x → lo y ≤ a ∧ a < lo y + size y → x = y)
    (hroom : ∀ x ∈ xs, ∀ a, lo x ≤ a ∧ a < lo x + size x → a ∈ room) :
    ∑ x ∈ xs, size x ≤ room.card := by
  let place : α → Finset Nat := fun x => Finset.Ico (lo x) (lo x + size x)
  have hdisjoint : ∀ x ∈ xs, ∀ y ∈ xs, x ≠ y → Disjoint (place x) (place y) := by
    intro x hx y hy hne
    refine Finset.disjoint_left.mpr fun a hax hay => hne ?_
    exact hapart x hx y hy a (Finset.mem_Ico.mp hax) (Finset.mem_Ico.mp hay)
  calc ∑ x ∈ xs, size x = ∑ x ∈ xs, (place x).card :=
        Finset.sum_congr rfl fun x _ => by rw [Nat.card_Ico, Nat.add_sub_cancel_left]
    _ = (xs.biUnion place).card := (Finset.card_biUnion hdisjoint).symm
    _ ≤ room.card := Finset.card_le_card fun a ha => by
        obtain ⟨x, hx, ha⟩ := Finset.mem_biUnion.mp ha
        exact hroom x hx a (Finset.mem_Ico.mp ha)

/-- Blocks have places of their own, so the addresses of some leave room for their sizes. -/
theorem Tiled.sum_size_le {blocks : Set Block} (h : Tiled blocks) {bs : Finset Block}
    (hbs : ∀ b ∈ bs, b ∈ blocks) {room : Finset Nat} (hroom : ∀ b ∈ bs, ∀ a ∈ b.extent, a ∈ room) :
    ∑ b ∈ bs, b.size ≤ room.card :=
  sum_size_le_card Block.begin (fun b hb c hc _ hab hac => h.eq_of_mem (hbs b hb) (hbs c hc) hab hac) hroom

namespace Scene

open Quarantine

variable {failing marked : Prop} {s : Scene}

/-- Entries that wait are quarantined blocks, and weigh as much. -/
theorem Sound.waiting_blocks {es : List Entry} (h : Sound failing marked s)
    (hes : (es : Multiset Entry) ≤ s.waiting) :
    ∃ bs : Finset Block, (∀ b ∈ bs, b ∈ s.blocks ∧ b.record.state = .quarantined ∧ b.entry ∈ es)
      ∧ weight es = ∑ b ∈ bs, b.size := by
  induction es with
  | nil => exact ⟨∅, nofun, rfl⟩
  | cons e rest ih =>
      obtain ⟨bs, hbs, hweight⟩ := ih (le_trans (Multiset.le_cons_self _ e) hes)
      obtain ⟨b, hb, rfl, hstate⟩ := h.waiting_block e (Multiset.mem_of_le hes List.mem_cons_self)
      have hnew : b ∉ bs := fun hin => (List.nodup_cons.mp (Multiset.coe_nodup.mp
        (Multiset.nodup_of_le hes h.waiting_nodup))).1 (hbs b hin).2.2
      refine ⟨insert b bs, fun c hc => ?_, ?_⟩
      · rcases Finset.mem_insert.mp hc with rfl | hc
        · exact ⟨hb, hstate, List.mem_cons_self⟩
        · exact ⟨(hbs c hc).1, (hbs c hc).2.1, List.mem_cons_of_mem _ (hbs c hc).2.2⟩
      · rw [Finset.sum_insert hnew, weight_cons, hweight]
        rfl

/-- The waiting blocks have their own places in the range of all blocks. -/
theorem Sound.weight_waiting_le {lo hi : Nat} {es : List Entry} (h : Sound failing marked s)
    (hin : ∀ b ∈ s.blocks, lo ≤ b.begin ∧ b.past ≤ hi) (hes : (es : Multiset Entry) ≤ s.waiting) :
    weight es ≤ hi - lo := by
  obtain ⟨bs, hbs, hweight⟩ := h.waiting_blocks hes
  rw [hweight, ← Nat.card_Ico lo hi]
  refine h.tiled.sum_size_le (fun b hb => (hbs b hb).1) fun b hb a ha => ?_
  obtain ⟨hlo, hhi⟩ := hin b (hbs b hb).1
  exact Finset.mem_Ico.mpr ⟨Nat.le_trans hlo ha.1, Nat.lt_of_lt_of_le ha.2 hhi⟩

end Scene

end GuardedHeap
