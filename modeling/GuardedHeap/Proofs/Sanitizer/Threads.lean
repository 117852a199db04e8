import GuardedHeap.Proofs.Sanitizer.Client

/-! # Threads — whole calls between two states of a sanitizer

    A call of a registered thread takes it out of the list and puts it back
    (`ends_asThread`), which only changes the order.  So what the client of
    the call has reached is what the sanitizer comes to (`Comes`). -/

namespace GuardedHeap

open Quarantine (Entry)

namespace Sanitizer

variable {failing marked : Prop} {s s' : Sanitizer} {t : Thread} {ts : List Thread}
  {hand : Multiset Entry} {ds es : List Deed}

/-! ## Order -/

/-- An element with a key of its own can be put first. -/
theorem perm_cons_filter {α : Type} {key : α → Nat} {l : List α} (hnodup : (l.map key).Nodup)
    {a : α} (ha : a ∈ l) : l.Perm (a :: l.filter (key · != key a)) := by
  induction l with
  | nil => exact nomatch ha
  | cons b rest ih =>
      obtain ⟨hb, hrest⟩ := List.nodup_cons.mp hnodup
      by_cases hkey : key b = key a
      · have hout : ∀ c ∈ rest, key c ≠ key a := fun c hc heq =>
          hb (hkey ▸ heq ▸ List.mem_map_of_mem hc)
        rw [List.filter_cons_of_neg (by simp [hkey]), List.filter_eq_self.mpr (by simpa using hout)]
        rcases List.mem_cons.mp ha with rfl | ha
        · exact .refl _
        · exact absurd rfl (hout a ha)
      · rw [List.filter_cons_of_pos (by simpa using hkey)]
        rcases List.mem_cons.mp ha with rfl | ha
        · exact absurd rfl hkey
        · exact ((ih hrest ha).cons b).trans (.swap a b _)

/-- Replacing a thread changes no ids. -/
theorem ids_replaceThread (t : Thread) (ts : List Thread) :
    (replaceThread t ts).map (·.id) = ts.map (·.id) := by
  unfold replaceThread
  rw [List.map_map]
  refine List.map_congr_left fun u _ => ?_
  by_cases hu : u.id = t.id
  · rw [Function.comp_apply, if_pos hu, hu]
  · rw [Function.comp_apply, if_neg hu]

/-- Replacing a thread puts it in the place of the one with its id. -/
theorem replaceThread_perm (hnodup : (ts.map (·.id)).Nodup) {u : Thread} (hu : u ∈ ts)
    (hid : u.id = t.id) : (replaceThread t ts).Perm (t :: ts.filter (·.id != t.id)) := by
  have hin : t ∈ replaceThread t ts := List.mem_map.mpr ⟨u, hu, if_pos hid⟩
  have hothers : (replaceThread t ts).filter (·.id != t.id) = ts.filter (·.id != t.id) := by
    clear hnodup hu hin
    induction ts with
    | nil => rfl
    | cons v rest ih =>
        unfold replaceThread at ih ⊢
        rw [List.map_cons]
        by_cases hv : v.id = t.id
        · rw [if_pos hv, List.filter_cons_of_neg (by simp), List.filter_cons_of_neg (by simp [hv]), ih]
        · rw [if_neg hv, List.filter_cons_of_pos (by simpa using hv),
            List.filter_cons_of_pos (by simpa using hv), ih]
  rw [← hothers]
  exact perm_cons_filter (ids_replaceThread t ts ▸ hnodup) hin

/-! ## Whole calls -/

/-- The sanitizer has got to `s'` between two calls, the scene has moved, what lasts has lasted, the
    counters of chunks have counted the deeds, and unless users mark the shadow the chunks are
    guarded if they were before. -/
structure Comes (failing marked : Prop) (s : Sanitizer) (ds : List Deed) (s' : Sanitizer) : Prop where
  fit : s'.Fit failing s'.threads
  config : s'.config = s.config
  moves : Moves failing marked (s.scene s.threads 0) ds (s'.scene s'.threads 0)
  lasts : Lasts failing marked s s.threads 0 s' s'.threads 0
  counts : ¬ failing → Deed.Counted ds s.metrics s'.metrics
  guards : ¬ marked → s.heap.Guarded → s'.heap.Guarded

theorem Comes.sound (h : Comes failing marked s ds s')
    (hsound : Scene.Sound failing marked (s.scene s.threads 0)) :
    Scene.Sound failing marked (s'.scene s'.threads 0) :=
  hsound.moves h.moves

namespace Client

variable {c : Client}

/-- The sanitizer with the thread back in its list. -/
def settled (c : Client) : Sanitizer :=
  { c.shared with threads := replaceThread c.thread c.shared.threads }

theorem of_thread? {id : Nat} (h : s.thread? id = some t) : t ∈ s.threads ∧ t.id = id :=
  ⟨List.mem_of_find?_eq_some h, by simpa using List.find?_some h⟩

/-- Taking a thread out of the list changes the order only. -/
theorem crew_perm (hfit : s.Fit failing s.threads) (ht : t ∈ s.threads) :
    s.threads.Perm (crew ⟨t, s⟩) :=
  perm_cons_filter hfit.ids_nodup ht

theorem fit_of_thread (hfit : s.Fit failing s.threads) (ht : t ∈ s.threads) :
    Fit failing ⟨t, s⟩ :=
  hfit.perm (crew_perm hfit ht)

theorem scene_of_thread (hfit : s.Fit failing s.threads) (ht : t ∈ s.threads) :
    scene ⟨t, s⟩ hand = s.scene s.threads hand :=
  (scene_perm (crew_perm hfit ht)).symm

/-- What a client reaches, the sanitizer comes to. -/
theorem Reaches.comes (h : Reaches failing marked ⟨t, s⟩ 0 ds c 0)
    (hfit : s.Fit failing s.threads) (ht : t ∈ s.threads) : Comes failing marked s ds c.settled := by
  have hthreads : c.shared.threads = s.threads := h.shared.threads
  have hperm : c.settled.threads.Perm c.crew := by
    show (replaceThread c.thread c.shared.threads).Perm (c.thread :: c.shared.threads.filter _)
    rw [hthreads]
    exact replaceThread_perm hfit.ids_nodup ht h.id.symm
  have hsettled : c.settled.Fit failing c.crew := { h.fit with }
  refine ⟨hsettled.perm hperm.symm, h.shared.config, ?_, fun hsteady K hK hstart => ?_, h.shared.counts,
    h.shared.guards⟩
  case refine_2 =>
    have hcrew := crew_perm hfit ht
    have hbegun : Steady failing marked s (crew ⟨t, s⟩) 0 :=
      ⟨hsteady.calm, hsteady.fit.perm hcrew, scene_perm hcrew ▸ hsteady.sound⟩
    have hended := h.shared.lasts hbegun K hK (hK.still (.of_perm hcrew) hstart)
    exact hK.still ((Still.threads _ _).trans (.of_perm hperm.symm)) hended
  have hmoves := h.shared.moves
  have hbefore : s.scene (crew ⟨t, s⟩) 0 = s.scene s.threads 0 := scene_of_thread hfit ht
  change Moves failing marked (s.scene (crew ⟨t, s⟩) 0) ds (c.settled.scene c.crew 0) at hmoves
  rw [hbefore, ← scene_perm hperm] at hmoves
  exact hmoves

end Client

section AsThread

variable {ε α : Type} {act : Act ε Client α} {id : Nat}

theorem ends_asThread {ok : α → Sanitizer → Prop} {no : ε → Sanitizer → Prop}
    (ht : s.thread? id = some t)
    (h : Act.Ends act ⟨t, s⟩ (fun a c => ok a c.settled) fun e c => no e c.settled) :
    Act.Ends (asThread id act) s ok no := by
  unfold Act.Ends asThread at *
  rw [ht]
  dsimp only
  cases hact : act ⟨t, s⟩ with
  | ok a c => rw [hact] at h; exact h
  | error e c =>
      rw [hact] at h
      cases e with
      | refused e => exact h
      | stopped => exact h

/-- Without such a thread the call is stopped. -/
theorem endsOrStops_asThread {ok : α → Sanitizer → Prop} {no : ε → Sanitizer → Prop}
    (h : ∀ t, s.thread? id = some t →
      Act.EndsOrStops act ⟨t, s⟩ (fun a c => ok a c.settled) fun e c => no e c.settled) :
    Act.EndsOrStops (asThread id act) s ok no := by
  unfold Act.EndsOrStops asThread at *
  cases ht : s.thread? id with
  | none => exact trivial
  | some t =>
      have h := h t ht
      dsimp only
      cases hact : act ⟨t, s⟩ with
      | ok a c => rw [hact] at h; exact h
      | error e c =>
          rw [hact] at h
          cases e with
          | refused e => exact h
          | stopped => exact trivial

/-- A call of a thread that returns was made by a registered one. -/
theorem of_asThread {s' : Sanitizer} {a : α} (hact : asThread id act s = .ok a s') :
    ∃ t c, s.thread? id = some t ∧ act ⟨t, s⟩ = .ok a c ∧ c.settled = s' := by
  unfold asThread at hact
  cases ht : s.thread? id with
  | none =>
      rw [ht] at hact
      exact nomatch hact
  | some t =>
      rw [ht] at hact
      dsimp only at hact
      cases hc : act ⟨t, s⟩ with
      | error e c =>
          rw [hc] at hact
          exact nomatch hact
      | ok b c =>
          rw [hc] at hact
          cases hact
          exact ⟨t, c, rfl, hc, rfl⟩

end AsThread

end Sanitizer

end GuardedHeap
