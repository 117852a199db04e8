import GuardedHeap.Proofs.Redzone

/-! # Repeats — allocations that do not depend on pages

    What an allocation returns depends on the pages only where the
    operating system fails.  Two allocations that are begun on heaps with
    the same tables go the same way, step by step, if no failure is set up
    (`Act.Alike`), whatever pages have been committed before. -/

namespace GuardedHeap

namespace Act

variable {ε ε' σ τ α β : Type}

/-- Two actions end in the same way: with one value or one error, in states that are the same as
    far as `r` tells, or both stop. -/
def Alike (r : σ → σ → Prop) (act act' : Act ε σ α) (s s' : σ) : Prop :=
  match act s, act' s' with
  | .ok a t, .ok a' t' => a = a' ∧ r t t'
  | .error e t, .error e' t' => e = e' ∧ r t t'
  | _, _ => False

section Rules

variable {r r' : σ → σ → Prop} {act act' : Act ε σ α} {s s' : σ}

/-- An action that leaves some state alike repeats itself. -/
theorem alike_self (hsame : ∀ t, r t t) : Alike r act act s s := by
  unfold Alike
  cases act s with
  | ok a t => exact ⟨rfl, hsame t⟩
  | error e t => exact ⟨rfl, hsame t⟩

/-- Actions that repeat themselves do so one after the other. -/
theorem Alike.bind {next next' : α → Act ε σ β} (h : Alike r act act' s s')
    (hnext : ∀ a t t', r t t' → Alike r' (next a) (next' a) t t')
    (himp : ∀ t t', r t t' → r' t t') : Alike r' (act >>= next) (act' >>= next') s s' := by
  unfold Alike at h
  cases hs : act s with
  | ok a t =>
      cases hs' : act' s' with
      | ok a' t' =>
          rw [hs, hs'] at h
          obtain ⟨rfl, h⟩ := h
          have := hnext a t t' h
          unfold Alike at *
          rwa [bind_of_ok hs, bind_of_ok hs']
      | error e' t' => rw [hs, hs'] at h; exact h.elim
  | error e t =>
      cases hs' : act' s' with
      | ok a' t' => rw [hs, hs'] at h; exact h.elim
      | error e' t' =>
          rw [hs, hs'] at h
          unfold Alike
          rw [bind_of_error hs, bind_of_error hs']
          exact ⟨h.1, himp t t' h.2⟩

theorem alike_pure {a : α} (h : r s s') : Alike r (pure a : Act ε σ α) (pure a) s s' :=
  ⟨rfl, h⟩

theorem alike_refuse {e : ε} (h : r s s') :
    Alike r (refuse e : Act ε σ α) (refuse e) s s' :=
  ⟨rfl, h⟩

theorem alike_refuse_bind {e : ε} {next next' : α → Act ε σ β} (h : r s s') :
    Alike r (refuse e >>= next) (refuse e >>= next') s s' :=
  ⟨rfl, h⟩

theorem alike_modify {f f' : σ → σ} (h : r (f s) (f' s')) :
    Alike r (modify f : Act ε σ PUnit) (modify f') s s' :=
  ⟨rfl, h⟩

theorem alike_get {next next' : σ → Act ε σ β} (h : Alike r (next s) (next' s') s s') :
    Alike r (get >>= next) (get >>= next') s s' :=
  h

theorem alike_orStop {o : Option α} (h : r s s') :
    Alike r (orStop o : Act ε σ α) (orStop o) s s' := by
  cases o with
  | some a => exact ⟨rfl, h⟩
  | none => exact ⟨rfl, h⟩

theorem alike_orRefuse {e : ε} {o : Option α} (h : r s s') :
    Alike r (orRefuse e o : Act ε σ α) (orRefuse e o) s s' := by
  cases o with
  | some a => exact ⟨rfl, h⟩
  | none => exact ⟨rfl, h⟩

theorem alike_liftM {c : Checked α} (h : r s s') :
    Alike r (liftM c : Act ε σ α) (liftM c) s s' := by
  cases c with
  | ok a => exact ⟨rfl, h⟩
  | error o => exact ⟨rfl, h⟩

theorem alike_ite {p : Prop} [Decidable p] {other other' : Act ε σ α}
    (h : p → Alike r act act' s s') (hnot : ¬ p → Alike r other other' s s') :
    Alike r (if p then act else other) (if p then act' else other') s s' := by
  by_cases hp : p
  · rw [if_pos hp, if_pos hp]
    exact h hp
  · rw [if_neg hp, if_neg hp]
    exact hnot hp

theorem Alike.mapError {f : ε → ε'} (h : Alike r act act' s s') :
    Alike r (mapError f act) (mapError f act') s s' := by
  unfold Alike Act.mapError at *
  cases hs : act s with
  | ok a t =>
      cases hs' : act' s' with
      | ok a' t' => rw [hs, hs'] at h; exact h
      | error e' t' => rw [hs, hs'] at h; exact h.elim
  | error e t =>
      cases hs' : act' s' with
      | ok a' t' => rw [hs, hs'] at h; exact h.elim
      | error e' t' =>
          rw [hs, hs'] at h
          obtain ⟨rfl, h⟩ := h
          cases e with
          | refused e => exact ⟨rfl, h⟩
          | stopped => exact ⟨rfl, h⟩

theorem Alike.attempt (h : Alike r act act' s s') :
    Alike r (attempt act : Act ε' σ (Except ε α)) (attempt act') s s' := by
  unfold Alike Act.attempt at *
  cases hs : act s with
  | ok a t =>
      cases hs' : act' s' with
      | ok a' t' => rw [hs, hs'] at h; exact ⟨congrArg _ h.1, h.2⟩
      | error e' t' => rw [hs, hs'] at h; exact h.elim
  | error e t =>
      cases hs' : act' s' with
      | ok a' t' => rw [hs, hs'] at h; exact h.elim
      | error e' t' =>
          rw [hs, hs'] at h
          obtain ⟨rfl, h⟩ := h
          cases e with
          | refused e => exact ⟨rfl, h⟩
          | stopped => exact ⟨rfl, h⟩

theorem Alike.onPart {p : τ → τ → Prop} {inner inner' : Act ε τ α} {view : σ → τ}
    {put : σ → τ → σ} (h : Alike p inner inner' (view s) (view s'))
    (hput : ∀ t t', p t t' → r (put s t) (put s' t')) :
    Alike r (onPart view put inner) (onPart view put inner') s s' := by
  unfold Alike Act.onPart at *
  cases hs : inner (view s) with
  | ok a t =>
      cases hs' : inner' (view s') with
      | ok a' t' => rw [hs, hs'] at h; exact ⟨h.1, hput t t' h.2⟩
      | error e' t' => rw [hs, hs'] at h; exact h.elim
  | error e t =>
      cases hs' : inner' (view s') with
      | ok a' t' => rw [hs, hs'] at h; exact h.elim
      | error e' t' => rw [hs, hs'] at h; exact ⟨h.1, hput t t' h.2⟩

end Rules

end Act

open Act (Alike)

/-- Committing goes the same way on all pages that no failure is set up for. -/
theorem Pages.alike_commit {p q : Pages} (hp : p.armed = none) (hq : q.armed = none) (addr size : Nat) :
    Act.Alike (fun p q => p.armed = none ∧ q.armed = none) (commit addr size) (commit addr size) p q := by
  unfold commit
  refine Act.alike_ite (fun _ => Act.alike_pure ⟨hp, hq⟩) fun _ => ?_
  unfold call
  refine Act.alike_get ?_
  have hnone : ∀ {p : Pages}, p.armed = none → takeFailure .mprotect p = (none, p) := by
    intro p hp
    unfold takeFailure
    rw [hp]
  rw [hnone hp, hnone hq]
  unfold unlessAligned
  by_cases haddr : addr % pageSize = 0
  · simp only [haddr, if_true, Option.none_or]
    exact ⟨rfl, hp, hq⟩
  · simp only [haddr, if_false, Option.none_or]
    exact ⟨rfl, hp, hq⟩

namespace Heap

/-- The same heap on pages that no failures are set up for. -/
def Twin (h h' : Heap) : Prop :=
  ∃ q, h' = { h with pages := q } ∧ h.pages.armed = none ∧ q.armed = none

variable {h h' : Heap} {c : Nat}

/-- Memory is committed for both, or for neither. -/
theorem alike_commit (htwin : Twin h h') (addr size : Nat) :
    Alike Twin (onPages (Pages.commit addr size)) (onPages (Pages.commit addr size)) h h' := by
  obtain ⟨q, rfl, hp, hq⟩ := htwin
  unfold onPages
  refine Act.Alike.mapError (Act.Alike.onPart (Pages.alike_commit hp hq addr size) ?_)
  exact fun t t' ht => ⟨t', rfl, ht.1, ht.2⟩

theorem alike_onShadow {ε α : Type} {f : ShadowError → ε} {act : Act ShadowError Shadow α}
    (htwin : Twin h h') : Alike Twin (onShadow f act) (onShadow f act) h h' := by
  obtain ⟨q, rfl, hp, hq⟩ := htwin
  unfold onShadow
  refine Act.Alike.mapError (Act.Alike.onPart (p := Eq) (Act.alike_self fun _ => rfl) ?_)
  rintro t _ rfl
  exact ⟨q, rfl, hp, hq⟩

theorem alike_region (htwin : Twin h h') : Alike Twin (region c) (region c) h h' := by
  obtain ⟨q, rfl, hp, hq⟩ := htwin
  exact Act.alike_get (Act.alike_orStop ⟨q, rfl, hp, hq⟩)

theorem alike_putRegion (htwin : Twin h h') (r : Region) :
    Alike Twin (putRegion c r) (putRegion c r) h h' := by
  obtain ⟨q, rfl, hp, hq⟩ := htwin
  exact Act.alike_modify ⟨q, rfl, hp, hq⟩

/-- Regions grow alike. -/
theorem alike_commitRegion (htwin : Twin h h') (reach : Reach) :
    Alike Twin (commitRegion c reach) (commitRegion c reach) h h' := by
  unfold commitRegion
  refine Act.alike_get ((alike_region htwin).bind (fun r t t' ht => ?_) fun _ _ ht => ht)
  obtain ⟨q, rfl, -, -⟩ := htwin
  refine (alike_commit ht _ _).bind (fun _ t t' ht => ?_) fun _ _ ht => ht
  refine (alike_commit ht _ _).bind (fun _ t t' ht => ?_) fun _ _ ht => ht
  refine Act.alike_ite (fun _ => ?_) fun _ => alike_putRegion ht _
  exact (alike_onShadow ht).bind (fun _ t t' ht => alike_putRegion ht _) fun _ _ ht => ht

/-- The same slots are carved. -/
theorem alike_populate (htwin : Twin h h') : Alike Twin (populate c) (populate c) h h' := by
  unfold populate
  refine Act.alike_get ((alike_region htwin).bind (fun r t t' ht => ?_) fun _ _ ht => ht)
  obtain ⟨q, rfl, -, -⟩ := htwin
  refine Act.alike_ite (fun _ => Act.alike_refuse_bind ht) fun _ => ?_
  refine Act.alike_ite (fun _ => ?_) fun _ => ?_
  · refine (alike_commitRegion ht _).bind (fun _ t t' ht => ?_) fun _ _ ht => ht
    exact (alike_region ht).bind (fun r t t' ht => alike_putRegion ht _) fun _ _ ht => ht
  · exact (alike_region ht).bind (fun r t t' ht => alike_putRegion ht _) fun _ _ ht => ht

/-- A region is stocked alike. -/
theorem alike_stockedRegion (htwin : Twin h h') :
    Alike Twin (stockedRegion c) (stockedRegion c) h h' := by
  unfold stockedRegion
  refine (alike_region htwin).bind (fun r t t' ht => ?_) fun _ _ ht => ht
  refine Act.alike_ite (fun _ => ?_) fun _ => Act.alike_pure ht
  exact (alike_populate ht).bind (fun _ t t' ht => alike_region ht) fun _ _ ht => ht

/-- The same batch is taken. -/
theorem alike_takeBatch (htwin : Twin h h') : Alike Twin (takeBatch c) (takeBatch c) h h' := by
  unfold takeBatch
  refine (alike_stockedRegion htwin).bind (fun r t t' ht => ?_) fun _ _ ht => ht
  refine Act.alike_get ?_
  obtain ⟨q, rfl, hp, hq⟩ := ht
  exact (alike_putRegion ⟨q, rfl, hp, hq⟩ _).bind (fun _ t t' ht => Act.alike_pure ht) fun _ _ ht => ht

theorem alike_modifyLarge (htwin : Twin h h') (f : Large → Large) :
    Alike Twin (modifyLarge f) (modifyLarge f) h h' := by
  obtain ⟨q, rfl, hp, hq⟩ := htwin
  exact Act.alike_modify ⟨q, rfl, hp, hq⟩

/-- A large block lies in the same place. -/
theorem alike_allocateLarge (htwin : Twin h h') (size alignment : Nat) :
    Alike Twin (allocateLarge size alignment) (allocateLarge size alignment) h h' := by
  unfold allocateLarge
  refine (Act.alike_orRefuse htwin).bind (fun mapSize t t' ht => ?_) fun _ _ ht => ht
  have htake : Alike Twin (takeSpan size mapSize) (takeSpan size mapSize) t t' := by
    unfold takeSpan
    refine Act.alike_get ?_
    obtain ⟨q, rfl, hp, hq⟩ := ht
    have ht : Twin t { t with pages := q } := ⟨q, rfl, hp, hq⟩
    refine (Act.alike_orRefuse ht).bind (fun found t t' ht => ?_) fun _ _ ht => ht
    exact (alike_modifyLarge ht _).bind (fun _ t t' ht => Act.alike_pure ht) fun _ _ ht => ht
  refine htake.bind (fun mapBegin t t' ht => ?_) fun _ _ ht => ht
  refine (alike_commit ht _ _).attempt.bind (fun committed t t' ht => ?_) fun _ _ ht => ht
  cases committed with
  | error e =>
      exact (alike_modifyLarge ht _).bind (fun _ t t' ht => Act.alike_refuse ht) fun _ _ ht => ht
  | ok done =>
      refine (alike_onShadow ht).bind (fun _ t t' ht => ?_) fun _ _ ht => ht
      refine (Act.alike_liftM ht).bind (fun user t t' ht => ?_) fun _ _ ht => ht
      exact (alike_modifyLarge ht _).bind (fun _ t t' ht => Act.alike_pure ht) fun _ _ ht => ht

namespace Session

/-- The same cache, and the same heap on other pages. -/
def Twin (s s' : Session) : Prop :=
  s.heap.Twin s'.heap ∧ s'.cache = s.cache

variable {s s' : Session}

/-- What is alike on the heaps is alike on the sessions. -/
theorem alike_onHeap {ε α : Type} {act act' : Act ε Heap α} (htwin : Twin s s')
    (h : Alike Heap.Twin act act' s.heap s'.heap) : Alike Twin (onHeap act) (onHeap act') s s' :=
  h.onPart fun _ _ ht => ⟨ht, htwin.2⟩

theorem alike_list (htwin : Twin s s') : Alike Twin (list c) (list c) s s' := by
  unfold list
  refine Act.alike_get ?_
  rw [htwin.2]
  exact Act.alike_orStop htwin

theorem alike_putList (htwin : Twin s s') (l : List Nat) (total : Nat) :
    Alike Twin (putList c l total) (putList c l total) s s' :=
  Act.alike_modify ⟨htwin.1, congrArg (·.update c l total) htwin.2⟩

/-- A list is refilled with the same slots. -/
theorem alike_refill (htwin : Twin s s') : Alike Twin (refill c) (refill c) s s' := by
  unfold refill
  refine (alike_onHeap htwin (alike_takeBatch htwin.1)).bind (fun batch t t' ht => ?_) fun _ _ ht => ht
  refine Act.alike_get ?_
  rw [ht.2]
  exact alike_putList ht _ _

theorem alike_takeListed (htwin : Twin s s') : Alike Twin (takeListed c) (takeListed c) s s' := by
  unfold takeListed
  refine (alike_list htwin).bind (fun l t t' ht => ?_) fun _ _ ht => ht
  cases l with
  | nil =>
      refine Act.alike_get ?_
      have ht' := ht
      obtain ⟨⟨q, hheap, -, -⟩, -⟩ := ht'
      rw [hheap]
      exact Act.alike_refuse ht
  | cons p rest =>
      refine Act.alike_get ?_
      rw [ht.2]
      exact (alike_putList ht _ _).bind (fun _ t t' ht => Act.alike_pure ht) fun _ _ ht => ht

/-- The same slot is handed out. -/
theorem alike_takeCached (htwin : Twin s s') : Alike Twin (takeCached c) (takeCached c) s s' := by
  unfold takeCached
  refine (alike_list htwin).bind (fun l t t' ht => ?_) fun _ _ ht => ht
  refine Act.alike_ite (fun _ => ?_) fun _ => alike_takeListed ht
  exact (alike_refill ht).bind (fun _ t t' ht => alike_takeListed ht) fun _ _ ht => ht

/-- The same block is handed out, wherever it comes from. -/
theorem alike_allocateRounded (htwin : Twin s s') (size alignment : Nat) :
    Alike Twin (allocateRounded size alignment) (allocateRounded size alignment) s s' := by
  unfold allocateRounded
  refine Act.alike_get ?_
  have htwin' := htwin
  obtain ⟨⟨q, hheap, -, -⟩, -⟩ := htwin'
  rw [hheap]
  refine Act.alike_ite (fun _ => ?_) fun _ => alike_onHeap htwin (alike_allocateLarge htwin.1 _ _)
  refine (Act.alike_liftM htwin).bind (fun found t t' ht => ?_) fun _ _ ht => ht
  cases found with
  | none => exact Act.alike_refuse ht
  | some c => exact alike_takeCached ht

theorem alike_allocate (htwin : Twin s s') (size alignment : Nat) :
    Alike Twin (allocate size alignment) (allocate size alignment) s s' := by
  unfold allocate
  refine Act.alike_ite (fun _ => Act.alike_refuse_bind htwin) fun _ => ?_
  refine Act.alike_ite (fun _ => Act.alike_refuse_bind htwin) fun _ => ?_
  refine Act.alike_ite (fun _ => ?_) fun _ => ?_
  · refine (Act.alike_liftM htwin).bind (fun n t t' ht => ?_) fun _ _ ht => ht
    exact alike_allocateRounded ht n alignment
  · exact (Act.alike_pure htwin).bind (fun n t t' ht => alike_allocateRounded ht n alignment)
      fun _ _ ht => ht

end Session

end Heap

namespace Redzone

open Heap (Session)

variable {s s' : Session}

/-- Marking goes the same way on all pages. -/
theorem alike_mark {h h' : Heap} (htwin : h.Twin h') (block actual left size : Nat) :
    Alike Heap.Twin (mark block actual left size) (mark block actual left size) h h' := by
  unfold mark
  refine (Heap.alike_onShadow htwin).bind (fun _ t t' ht => ?_) fun _ _ ht => ht
  refine (Heap.alike_onShadow ht).bind (fun _ t t' ht => ?_) fun _ _ ht => ht
  refine (Act.alike_liftM ht).bind (fun right t t' ht => ?_) fun _ _ ht => ht
  refine (Act.alike_liftM ht).bind (fun slack t t' ht => ?_) fun _ _ ht => ht
  exact Heap.alike_onShadow ht

/-- An allocation returns the same address, whatever pages there are and whoever calls. -/
theorem alike_allocate {o : RedzoneOptions} (htwin : Session.Twin s s') (size alignment : Nat)
    (api : Api) (origin origin' : Origin) :
    Alike (fun _ _ => True) (allocate o size alignment api origin)
      (allocate o size alignment api origin') s s' := by
  have hany : ∀ t t' : Session, Session.Twin t t' → True := fun _ _ _ => trivial
  unfold allocate
  refine Act.alike_ite (fun _ => Act.alike_refuse_bind trivial) fun _ => ?_
  refine (Act.alike_orRefuse htwin).bind (fun padded t t' ht => ?_) hany
  refine (Session.alike_allocate ht _ _).bind (fun block t t' ht => ?_) hany
  refine Act.alike_get ?_
  have ht' := ht
  obtain ⟨⟨q, hheap, -, -⟩, -⟩ := ht'
  rw [hheap]
  refine (Act.alike_orRefuse ht).bind (fun actual t t' ht => ?_) hany
  refine (Act.alike_orRefuse ht).bind (fun record t t' ht => ?_) hany
  refine Act.Alike.bind (r := fun _ _ => True) ?_ (fun _ t t' _ => Act.alike_pure trivial) fun _ _ h => h
  refine Act.Alike.onPart (p := fun _ _ => True) ?_ fun _ _ h => h
  exact (alike_mark ht.1 _ _ _ _).bind (fun _ t t' _ => Act.alike_modify trivial) fun _ _ _ => trivial

/-- The same chunk is handed out, whoever it is recorded to belong to. -/
theorem alike_allocateZeroed {o : RedzoneOptions} (htwin : Session.Twin s s') (count size : Nat)
    (origin origin' : Origin) :
    Alike (fun _ _ => True) (allocateZeroed o count size origin)
      (allocateZeroed o count size origin') s s' := by
  unfold allocateZeroed
  refine (Act.alike_orRefuse htwin).bind (fun total t t' ht => ?_) fun _ _ _ => trivial
  refine (alike_allocate ht _ _ _ _ _).bind (fun user t t' _ => ?_) fun _ _ h => h
  refine Act.Alike.bind (r := fun _ _ => True) ?_ (fun _ t t' _ => Act.alike_pure trivial) fun _ _ h => h
  exact Act.Alike.onPart (p := fun _ _ => True) (Act.alike_modify trivial) fun _ _ h => h

end Redzone

end GuardedHeap
