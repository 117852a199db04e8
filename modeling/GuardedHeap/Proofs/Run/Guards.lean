import GuardedHeap.Proofs.Guard
import GuardedHeap.Proofs.Run.Exact

/-! # Guards in runs — what an allocation returns in every reachable state

    Users may have marked anything by hand and calls of the operating
    system may have failed: an allocation that returns has put full
    redzones around its chunk, and left all other chunks as they were
    (`Run.allocation_guarded`). -/

namespace GuardedHeap

open Act

namespace Sanitizer

variable {failing marked : Prop} {s : Sanitizer}

namespace Client

variable {c c' : Client} {size alignment user : Nat} {api : Api} {stack : StackId}

/-- An allocation of a thread is one of its session. -/
theorem of_allocate (hact : allocate size alignment api stack c = .ok user c') :
    ∃ origin t, Redzone.allocate c.options size alignment api origin c.session = .ok user t
      ∧ c'.shared.heap = t.heap := by
  obtain ⟨_, _, hget, hact⟩ := bind_eq_ok.mp hact
  obtain ⟨rfl, rfl⟩ := get_eq_ok.mp hget
  obtain ⟨origin, _, horigin, hact⟩ := bind_eq_ok.mp hact
  obtain ⟨u, htrace, rfl⟩ := onPart_eq_ok.mp horigin
  obtain ⟨-, rfl⟩ := (ends_origin _ _ : Act.Ends _ _ _ fun _ _ => True).of_ok htrace
  obtain ⟨q, _, hsession, hact⟩ := bind_eq_ok.mp hact
  obtain ⟨t, halloc, rfl⟩ := onPart_eq_ok.mp hsession
  -- What is counted afterwards is no part of the heap.
  obtain ⟨_, _, hcounts, hact⟩ := bind_eq_ok.mp hact
  obtain ⟨v, hcount, rfl⟩ := onPart_eq_ok.mp hcounts
  obtain rfl := modify_eq_ok.mp hcount
  obtain ⟨_, _, hcounts', hact⟩ := bind_eq_ok.mp hact
  obtain ⟨w, hcount', rfl⟩ := onPart_eq_ok.mp hcounts'
  obtain rfl := modify_eq_ok.mp hcount'
  obtain ⟨rfl, rfl⟩ := pure_eq_ok.mp hact
  exact ⟨origin, t, halloc, rfl⟩

/-- What an allocation of a thread leaves behind. -/
theorem allocate_spec (hfit : c.Fit failing) (hsound : Scene.Sound failing marked (c.scene 0))
    (hact : allocate size alignment api stack c = .ok user c') :
    Shadow.granule ∣ max alignment Shadow.granule ∧ max alignment Shadow.granule ∣ user
      ∧ ∃ b ∈ c'.shared.heap.blocks, b.record.userBegin = user ∧ b.record.requestedSize = size ∧ b.record.state = .allocated
        ∧ b.begin + max c.options.redzone (max alignment Shadow.granule) = user
        ∧ user + size + c.options.redzone ≤ b.past
        ∧ (∀ a ∈ b.extent, c'.shared.heap.shadow.code a = Shadow.guardCode user size a)
        ∧ ∀ d ∈ c.shared.heap.chunks, d ∈ c'.shared.heap.chunks
          ∧ ∀ a ∈ d.extent, c'.shared.heap.shadow.code a = c.shared.heap.shadow.code a := by
  obtain ⟨origin, t, halloc, hheap⟩ := of_allocate hact
  rw [scene_session] at hsound
  obtain ⟨hgranule, hdvd, b, hb, hrecord, hspec⟩ := Redzone.allocate_spec
    (Config.valid_redzoneOptions hfit.config) (session_wf hfit) hsound halloc
  rw [hheap]
  exact ⟨hgranule, hdvd, b, hb, by rw [hrecord]; rfl, by rw [hrecord]; rfl, by rw [hrecord]; rfl, hspec⟩

end Client

/-- A byte of a guarded block is poisoned if it is not the user's. -/
theorem isPoisoned_guarded (hwf : s.heap.WF) {a user size : Nat} (ha : a ∈ s.heap.committed)
    (huser : Shadow.granule ∣ user) (hcode : s.heap.shadow.code a = Shadow.guardCode user size a) :
    s.isPoisoned a = .ok (decide ¬ (user ≤ a ∧ a < user + size)) := by
  obtain ⟨poisoned, heq, hpoisoned⟩ := hwf.isPoisoned_eq ha
  rw [isPoisoned_true heq]
  rw [Shadow.addressable_iff_code, hcode, Shadow.lt_addressableBytes_guardCode huser] at hpoisoned
  refine congrArg _ ?_
  by_cases hin : user ≤ a ∧ a < user + size
  · rw [hpoisoned.mpr hin, decide_eq_false (not_not.mpr hin)]
  · rw [decide_eq_true hin, ← Bool.not_eq_false, hpoisoned]
    exact hin

end Sanitizer

namespace Run

variable {failing marked : Prop} {past : List Occurrence} {s t : Sanitizer}
  {id size alignment user : Nat} {api : Api} {stack : StackId}

/-- An allocation that returns leaves a chunk at a multiple of the alignment, between full redzones
    in its block, with exactly the user's bytes accessible, whatever the shadow was before, and all
    other chunks with their shadow bytes as they were. -/
theorem allocation_guarded (h : Run failing marked past s)
    (hstep : s.Step (.call (.allocate id size alignment api stack) (.ok user)) t) :
    max alignment Shadow.granule ∣ user
      ∧ ∃ k, t.heap.userChunk? user = some k ∧ k.record.requestedSize = size
        ∧ k.block + max s.config.redzone (max alignment Shadow.granule) = user
        ∧ user + size + s.config.redzone ≤ k.block + k.record.actualSize
        ∧ t.heap.space.begin ≤ k.block
        ∧ k.block + k.record.actualSize ≤ t.heap.space.endAddr
        ∧ (∀ a, k.block ≤ a → a < k.block + k.record.actualSize →
          t.heap.shadow.byteAt a = .ok (Shadow.guardCode user size a)
            ∧ t.isPoisoned a = .ok (decide ¬ (user ≤ a ∧ a < user + size)))
        ∧ ∀ p c, s.heap.chunk? p = some c → c.record.state ≠ .recycled →
          t.heap.chunk? c.block = some c
            ∧ ∀ a, c.block ≤ a → a < c.block + c.record.actualSize →
              t.heap.shadow.byteAt a = s.heap.shadow.byteAt a := by
  have hnext := h.snoc hstep False.elim False.elim
  have hwf := hnext.fit.heap
  -- A call that is answered is carried out on behalf of a registered thread.
  have hspec : ∃ (u : Thread) (c : Sanitizer.Client), s.thread? id = some u ∧ c.settled = t
      ∧ Sanitizer.Client.allocate size alignment api stack ⟨u, s⟩ = .ok user c := by
    cases hstep with
    | call hact =>
        obtain ⟨q, hq, hperform⟩ | ⟨_, hno, -⟩ := attempt_eq_ok.mp hact
        · obtain rfl := Except.ok.inj hq
          obtain ⟨u, c, hu, hcall, hsettled⟩ := Sanitizer.of_asThread hperform
          exact ⟨u, c, hu, hsettled, mapError_eq_ok.mp hcall⟩
        · exact nomatch hno
  obtain ⟨u, c, hu, rfl, hcall⟩ := hspec
  obtain ⟨hfit, hsound⟩ := Sanitizer.client_sound h.fit h.sound hu
  obtain ⟨hgranule, hdvd, b, hb, huser, hsize, hstate, hleft, hroom, hguards, hothers⟩ :=
    Sanitizer.Client.allocate_spec hfit hsound hcall
  change b ∈ c.settled.heap.blocks at hb
  have hfits := hnext.sound.fits b hb (by rw [hstate]; decide)
  have hpast : b.chunk.block + b.chunk.record.actualSize = b.past := by
    show b.begin + b.record.actualSize = b.past
    rw [hfits.actual]
    rfl
  obtain ⟨hlo, hhi⟩ := hwf.past_le hb
  refine ⟨hdvd, b.chunk, ?_, hsize, hleft, by rw [hpast]; exact hroom, hlo, by rw [hpast]; exact hhi, ?_, ?_⟩
  · exact (Redzone.userChunk?_eq_some hwf hnext.sound.fits).mpr ⟨b, hb, huser, hstate, rfl⟩
  · intro a ha hb'
    rw [hpast] at hb'
    have hin : a ∈ b.extent := ⟨ha, hb'⟩
    have hcommitted := hwf.extent_subset hb hin
    have hcode := hguards a hin
    refine ⟨(hwf.byteAt_eq hcommitted).trans (congrArg _ hcode), ?_⟩
    exact Sanitizer.isPoisoned_guarded hwf hcommitted
      (Nat.dvd_trans hgranule hdvd) hcode
  -- Every other chunk keeps its block, and so the bytes of its shadow.
  · intro p k hk hlive
    obtain ⟨d, hd, rfl⟩ := Redzone.of_chunk? h.fit.heap hk
    obtain ⟨hd', hcode⟩ := hothers d ⟨hd, hlive⟩
    have hsolid := Block.begin_mem_extent (hwf.tiled.solid d hd'.1)
    refine ⟨Redzone.chunk?_eq hwf hd'.1 hsolid, fun a ha hb' => ?_⟩
    have hin : a ∈ d.extent := by
      refine ⟨ha, ?_⟩
      have := (h.sound.fits d hd hlive).actual
      change a < d.begin + d.record.actualSize at hb'
      rwa [this] at hb'
    rw [hwf.byteAt_eq (hwf.extent_subset hd'.1 hin),
      h.fit.heap.byteAt_eq (h.fit.heap.extent_subset hd hin)]
    exact congrArg _ (hcode a hin)

/-- A chunk in a block that a user has marked by hand before: its last granule has four of its bytes. -/
theorem allocation_guarded_over_marks :
    ∃ past s t k, Run False True past s
      ∧ s.Step (.call (.allocate 0 20 64 .newArray 7) (.ok 17673790423488)) t
      ∧ t.heap.userChunk? 17673790423488 = some k ∧ k.block = 17673790423360
      ∧ t.heap.shadow.byteAt 17673790423504 = .ok 4
      ∧ t.isPoisoned 17673790423507 = .ok false ∧ t.isPoisoned 17673790423508 = .ok true := by
  obtain ⟨past, s, t, answer, hrun, hstep, hcheck⟩ := last_call False True
    (show Request.plays {} .counter {}
      [.call .register, .call (.allocate 0 10 64 .malloc 0),
        .call (.unpoison 17673790423104 4096)]
      (fun _ s => ((Request.call (.allocate 0 20 64 .newArray 7)).occurrence s).any
        fun o => o.returned? == some 17673790423488 && s.config.redzone == 128) = true by
      decide +kernel)
    (by simp [Request.Fits, Operation.Marks])
  cases answer with
  | error e => exact absurd hcheck Bool.false_ne_true
  | ok user =>
      obtain ⟨huser, hredzone⟩ := Bool.and_eq_true _ _ ▸ hcheck
      obtain rfl := Option.some.inj (beq_iff_eq.mp huser)
      obtain ⟨-, k, hk, -, hleft, hroom, -, -, hmarks, -⟩ := allocation_guarded hrun hstep
      rw [beq_iff_eq.mp hredzone] at hleft hroom
      have hblock : k.block = 17673790423360 := by
        have : max 128 (max 64 Shadow.granule) = 128 := by decide
        omega
      have hsmall := hmarks 17673790423504 (by omega) (by omega)
      have hlast := hmarks 17673790423507 (by omega) (by omega)
      have hbehind := hmarks 17673790423508 (by omega) (by omega)
      exact ⟨past, s, t, k, hrun, hstep, hk, hblock, hsmall.1, hlast.2, hbehind.2⟩

end Run

end GuardedHeap
