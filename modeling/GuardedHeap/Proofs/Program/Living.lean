import GuardedHeap.Proofs.Program.Dying

/-! # Living — what is true of a process between its calls

    A process that has not died has reported nothing, and its sanitizer is
    one of a run to which the threads belong that hold a registration
    (`Program.Alive`).  Building the sanitizer and registering a thread
    keep to that, and fail for want of memory alone. -/

namespace GuardedHeap

open Act

/-- Where no frame is claimed none is claimed of any class. -/
theorem FakeStack.claimedAt_of_claims (f : FakeStack) (h : f.claims = ∅) (classId : Nat) :
    f.claimedAt classId = ∅ := by
  refine Set.eq_empty_iff_forall_notMem.mpr ?_
  rintro a ⟨c, slot, hc, hslot, hclaimed, rfl⟩
  have hin : f.frameAddr classId slot ∈ f.claims :=
    ⟨classId, c, slot, hc, hslot, hclaimed, le_refl _, Nat.lt_add_of_pos_right frameSize_pos⟩
  rw [h] at hin
  exact hin

/-- What is read off an option text is valid. -/
theorem Config.valid_of_parse {options : String} {c : Config} (h : Config.parse options = .ok c) :
    c.validate = .ok () := by
  unfold parse at h
  split at h
  · exact nomatch h
  · rename_i c' _
    cases hvalid : c'.validate with
    | error e =>
        rw [hvalid] at h
        exact nomatch h
    | ok u =>
        rw [hvalid] at h
        cases h
        exact hvalid

namespace Sanitizer

variable {failing marked : Prop} {s t : Sanitizer}

/-- Only for want of memory is there no sanitizer for a valid configuration. -/
theorem ends_init {config : Config} (hvalid : config.validate = .ok ()) (log : EventLog)
    (capture : StackCapture) (now : Calendar.Moment) (p : Pages) :
    Ends (init config log capture now) p (fun _ _ => True) fun e _ => e.Shortage := by
  obtain ⟨hregion, hsecondary⟩ := Config.ranges_of_valid hvalid
  have hclasses := Config.valid_sizeClasses config
  have hpower := Word.powerOfTwo_le hregion.2
  have hlarge := Word.powerOfTwo_le hsecondary.2
  have htotal : config.sizeClasses.count * Word.powerOfTwo config.regionSizeLog
      + Word.powerOfTwo config.secondarySpaceLog < Word.limit :=
    Nat.lt_of_le_of_lt (Nat.add_le_add (Nat.mul_le_mul hclasses.count_le hpower) hlarge) (by decide)
  unfold init
  rw [hvalid, ends_bind, ends_mapError]
  refine (Heap.ends_create (by omega) (by omega) (Word.powerOfTwo_dvd (j := 12) (by omega)) htotal).imp ?_ ?_
  · exact fun _ _ _ => trivial
  · rintro e q (⟨m, rfl⟩ | ⟨m, rfl⟩) <;> exact trivial

end Sanitizer

namespace Program

variable {ε α : Type} {config : Config} {p q : Program} {s t : Sanitizer} {thread : Nat}

/-- A process that has not died. -/
structure Alive (config : Config) (p : Program) : Prop where
  parses : Config.parse p.options = .ok config
  calm : p.pages.armed = none
  quiet : p.report.reporting = false
  idle : p.built = none → p.registered = []
  ids_nodup : (p.registered.map (·.2)).Nodup
  runs : ∀ s, p.built = some s → ∃ past, Run False True past s
  configured : ∀ s, p.built = some s → s.config = config
  known : ∀ s, p.built = some s → ∀ r ∈ p.registered, r.2 ∈ s.ids

namespace Alive

/-- A process that was just started lives. -/
theorem start {options : String} {pages : Pages} (hparse : Config.parse options = .ok config)
    (hcalm : pages.armed = none) : Alive config { options, pages } where
  parses := hparse
  calm := hcalm
  quiet := rfl
  idle := fun _ => rfl
  ids_nodup := .nil
  runs := fun _ h => nomatch h
  configured := fun _ h => nomatch h
  known := fun _ h => nomatch h

/-- What the process does not see changes nothing. -/
theorem congr (h : Alive config p) (hoptions : q.options = p.options) (hpages : q.pages = p.pages)
    (hreport : q.report = p.report) (hbuilt : q.built = p.built) (hregistered : q.registered = p.registered) : Alive config q where
  parses := hoptions ▸ h.parses
  calm := hpages ▸ h.calm
  quiet := hreport ▸ h.quiet
  idle := hbuilt ▸ hregistered ▸ h.idle
  ids_nodup := hregistered ▸ h.ids_nodup
  runs := hbuilt ▸ h.runs
  configured := hbuilt ▸ h.configured
  known := hbuilt ▸ hregistered ▸ h.known

/-- A process that lives may have any sanitizer of a run that knows its threads. -/
theorem logged_of_run (h : Alive config p) {past : List Occurrence} (hrun : Run False True past s)
    (hconfig : s.config = config) (hknown : ∀ r ∈ p.registered, r.2 ∈ s.ids) :
    Alive config (p.logged s) where
  parses := h.parses
  calm := h.calm
  quiet := h.quiet
  idle := nofun
  ids_nodup := h.ids_nodup
  runs := fun _ heq => ⟨_, Option.some.inj heq ▸
    hrun.snoc (.readLog { s.log with buffer := {} }) False.elim False.elim⟩
  configured := fun _ heq => Option.some.inj heq ▸ hconfig
  known := fun _ heq r hr => Option.some.inj heq ▸ hknown r hr

/-- The process goes on with its sanitizer. -/
theorem logged (h : Alive config p) (hs : p.built = some s)
    (hgoes : s.Goes (p.registered.map (·.2)) t) : Alive config (p.logged t) := by
  obtain ⟨past, hrun⟩ := h.runs s hs
  obtain ⟨e, hstep, hfails⟩ := hgoes.steps
  have hcalm : e.Fails → False := fun he => absurd he hfails
  obtain ⟨ds, hcomes, -⟩ := hstep.comes hrun.fit hrun.sound hcalm fun _ => trivial
  refine h.logged_of_run (hrun.snoc hstep hcalm fun _ => trivial) ?_ fun r hr => ?_
  · exact hcomes.config.trans (h.configured s hs)
  · exact hgoes.keeps r.2 (List.mem_map_of_mem hr) (h.known s hs r hr)

/-- A process can build its sanitizer, which is then fresh, or there is no memory for it. -/
theorem build_cases (h : Alive config p) :
    (∃ s, build p.options p.pages = .ok (.ok s) ∧ Run False True [] s ∧ s.config = config ∧ s.Fresh)
      ∨ ∃ e, build p.options p.pages = .error e ∧ e.Shortage := by
  have hends := Sanitizer.ends_init (Config.valid_of_parse h.parses)
  unfold build
  rw [h.parses]
  dsimp only
  rcases ends_iff.mp (hends { threshold := config.logThreshold } .absent {} p.pages) with
    ⟨s, r, hinit, -⟩ | ⟨e, r, hinit, he⟩
  · have hbegun : EndsOrStops (Sanitizer.init config { threshold := config.logThreshold } .absent {}) p.pages
        (fun s _ => s.Fit False s.threads ∧ s.Fresh ∧ s.config = config) fun _ _ => True :=
      Sanitizer.endsOrStops_init fun _ => h.calm
    obtain ⟨-, hfresh, hconfig⟩ := hbegun.of_ok hinit
    rw [hinit]
    exact .inl ⟨s, rfl, .start hinit fun harmed => absurd h.calm harmed, hconfig, hfresh⟩
  · rw [hinit]
    exact .inr ⟨e, rfl, he⟩

end Alive

/-- A process that lives can end on the fatal path. -/
theorem Alive.finishes_dieOf (h : Alive config p) (hs : p.built = some s) (e : SanitizerError) :
    Finishes (dieOf e : Act Exit Program α) p (fun _ _ => False) Fatal := by
  obtain ⟨past, hrun⟩ := h.runs s hs
  exact Program.finishes_dieOf hs hrun h.quiet e

/-! ## Registering -/

/-- What decides about the calls of a thread. -/
def outlook (p : Program) (config : Config) (thread : Nat) : Outlook where
  options := config.redzoneOptions
  chunks := {b | ∃ s, p.built = some s ∧ b ∈ s.heap.chunks}
  claimed classId := {a | ∃ s id f, p.built = some s ∧ p.registration? thread = some id
    ∧ s.fakeStackOf? id = some f ∧ a ∈ f.claimedAt classId}

theorem outlook_chunks (hs : p.built = some s) : (p.outlook config thread).chunks = s.heap.chunks := by
  ext b
  exact ⟨fun ⟨s', hs', hb⟩ => Option.some.inj (hs.symm.trans hs') ▸ hb, fun hb => ⟨s, hs, hb⟩⟩

/-- The sanitizer decides about the calls of its threads. -/
theorem outlook_of_built (h : Alive config p) (hs : p.built = some s) {id : Nat}
    (hid : p.registration? thread = some id) : p.outlook config thread = s.outlook id := by
  refine Outlook.ext ?_ (outlook_chunks hs) ?_
  · show config.redzoneOptions = s.config.redzoneOptions
    rw [h.configured s hs]
  · funext classId
    ext a
    constructor
    · rintro ⟨s', id', f, hs', hid', hf, ha⟩
      obtain rfl := Option.some.inj (hs.symm.trans hs')
      obtain rfl := Option.some.inj (hid.symm.trans hid')
      exact ⟨f, hf, ha⟩
    · exact fun ⟨f, hf, ha⟩ => ⟨s, id, f, hs, hid, hf, ha⟩

/-- There is no memory for the sanitizer. -/
def Unbuildable (p : Program) : Prop :=
  p.built = none ∧ ∃ e, build p.options p.pages = .error e ∧ e.Shortage

/-- There is no memory for the sanitizer, or for the state of a thread. -/
inductive Crowded (p : Program) (thread : Nat) : Prop where
  | build (h : p.Unbuildable)
  | register {s t : Sanitizer} {q : Program} {e : SanitizerError} (hs : sanitizer p = .ok s q)
      (hnew : q.registration? thread = none) (hregister : Sanitizer.register s = .error (.refused e) t)
      (he : e.Shortage)

/-- Without chunks and without a registration nothing is there. -/
theorem outlook_of_empty (hchunks : ∀ s, p.built = some s → s.heap.chunks = ∅)
    (hnone : p.registration? thread = none) :
    p.outlook config thread = ⟨config.redzoneOptions, ∅, fun _ => ∅⟩ := by
  refine Outlook.ext rfl ?_ ?_
  · refine Set.eq_empty_iff_forall_notMem.mpr ?_
    rintro b ⟨s, hs, hb⟩
    rw [hchunks s hs] at hb
    exact hb
  · funext classId
    refine Set.eq_empty_iff_forall_notMem.mpr ?_
    rintro a ⟨s, id, f, -, hid, -⟩
    rw [hnone] at hid
    exact nomatch hid

/-- The sanitizer is there, or is built before anything else happens. -/
theorem Alive.finishes_sanitizer (h : Alive config p) (thread : Nat) :
    Finishes sanitizer p
      (fun s q => Alive config q ∧ q.built = some s ∧ q.registered = p.registered
        ∧ q.outlook config thread = p.outlook config thread)
      fun _ _ => p.Unbuildable := by
  cases hs : p.built with
  | some s =>
      unfold Finishes
      rw [sanitizer_of_built hs]
      exact ⟨h, hs, rfl, rfl⟩
  | none =>
      have hregistered := h.idle hs
      have hnone : p.registration? thread = none := by
        unfold registration?
        rw [hregistered]
        rfl
      unfold Finishes sanitizer
      rw [Act.get_bind]
      rcases h.build_cases with ⟨s, hbuild, hrun, hconfig, hfresh⟩ | ⟨e, hbuild, he⟩
      · rw [hs, hbuild]
        refine ⟨h.logged_of_run hrun hconfig ?_, rfl, rfl, ?_⟩
        · rw [hregistered]
          exact nofun
        · rw [outlook_of_empty (p := p) (fun s hs' => nomatch hs.symm.trans hs') hnone]
          refine outlook_of_empty (fun t ht => ?_) hnone
          obtain rfl := Option.some.inj ht
          refine Set.eq_empty_iff_forall_notMem.mpr fun b hb => ?_
          have hblocks : b ∈ s.heap.blocks := hb.1
          rw [hfresh.heap.blocks] at hblocks
          exact hblocks
      · rw [hs, hbuild]
        exact ⟨hs, e, hbuild, he⟩

/-- A process that acts on its sanitizer lives on unless it is stopped, and even then no report has
    begun. -/
theorem Alive.finishes_onSanitizer (h : Alive config p) (hs : p.built = some s) {act : Act ε Sanitizer α}
    {yes : α → Sanitizer → Prop} {no : Halt ε → Sanitizer → Prop}
    (hgoes : EndsOrStops act s (fun _ t => s.Goes (p.registered.map (·.2)) t)
      fun _ t => s.Goes (p.registered.map (·.2)) t)
    (hact : Finishes act s yes no) :
    Finishes (onSanitizer act) p
      (fun r q => ∃ t, q = p.logged t ∧ Alive config q ∧ (∀ a, r = .ok a → yes a t)
        ∧ ∀ e, r = .error e → no (.refused e) t)
      fun _ q => q.report.reporting = false ∧ ∃ t, no .stopped t := by
  refine Program.finishes_onSanitizer hs ((hgoes.finishes.and hact).imp ?_ ?_)
  · rintro a t ⟨hgoes, hyes⟩
    refine ⟨t, rfl, h.logged hs hgoes, fun a' heq => ?_, nofun⟩
    cases heq
    exact hyes
  · rintro e t ⟨hgoes, hno⟩
    constructor
    · rintro e' rfl
      refine ⟨t, rfl, h.logged hs (hgoes e' rfl), nofun, fun e'' heq => ?_⟩
      cases heq
      exact hno
    · rintro rfl
      exact ⟨h.quiet, t, hno⟩

/-- The process knows the thread by the number `id`, and decides about its calls as `p` would have. -/
structure Enrolled (config : Config) (p : Program) (thread id : Nat) (q : Program) : Prop where
  alive : Alive config q
  known : ∃ s, q.built = some s ∧ id ∈ s.ids
  registration : q.registration? thread = some id
  outlook : q.outlook config thread = p.outlook config thread

theorem mem_of_registration {id : Nat} (hid : p.registration? thread = some id) :
    (thread, id) ∈ p.registered := by
  obtain ⟨before, after, heq, -⟩ := List.lookup_eq_some_iff.mp hid
  rw [heq]
  exact List.mem_append_right _ List.mem_cons_self

/-- A thread that is registered is known from then on. -/
theorem Alive.enroll (h : Alive config p) (hs : p.built = some s) (hnew : p.registration? thread = none)
    {id : Nat} {t : Sanitizer} (halive : Alive config (p.logged t)) (hfresh : id ∉ s.ids) (hid : id ∈ t.ids)
    (hchunks : t.heap.chunks = s.heap.chunks) (hclaims : ∀ f, t.fakeStackOf? id = some f → f.claims = ∅) :
    Enrolled config p thread id { p.logged t with registered := (thread, id) :: p.registered } := by
  have hregistration : registration? { p.logged t with registered := (thread, id) :: p.registered } thread
      = some id := List.lookup_cons_self
  have hnext : Alive config { p.logged t with registered := (thread, id) :: p.registered } :=
    { parses := h.parses
      calm := h.calm
      quiet := h.quiet
      idle := nofun
      ids_nodup := by
        refine List.nodup_cons.mpr ⟨fun hin => ?_, h.ids_nodup⟩
        obtain ⟨r, hr, heq⟩ := List.mem_map.mp hin
        exact hfresh ((show r.2 = id from heq) ▸ h.known s hs r hr)
      runs := halive.runs
      configured := halive.configured
      known := fun u hu => List.forall_mem_cons.mpr ⟨Option.some.inj hu ▸ hid, halive.known u hu⟩ }
  refine ⟨hnext, ⟨_, rfl, hid⟩, hregistration, ?_⟩
  -- The newcomer has claimed nothing, as little as a thread without a registration.
  refine Outlook.ext rfl ?_ ?_
  · rw [outlook_chunks hs]
    exact (outlook_chunks (s := { t with log := { t.log with buffer := {} } }) rfl).trans hchunks
  · funext classId
    ext a
    constructor
    · rintro ⟨u, i, f, hu, hi, hf, ha⟩
      obtain rfl := Option.some.inj hu
      obtain rfl := Option.some.inj (hregistration.symm.trans hi)
      rw [f.claimedAt_of_claims (hclaims f hf)] at ha
      exact ha.elim
    · rintro ⟨u, i, f, -, hi, -⟩
      rw [hnew] at hi
      exact nomatch hi

/-- A thread registers at its first call, unless there is no memory for it. -/
theorem Alive.finishes_registration (h : Alive config p) (thread : Nat) :
    Finishes (registration thread) p (fun id q => Enrolled config p thread id q)
      fun _ _ => p.Crowded thread := by
  unfold registration
  rw [finishes_bind]
  refine (h.finishes_sanitizer thread).imp_eq ?_ fun _ _ _ hunbuildable => .build hunbuildable
  rintro s q hsanitizer ⟨hq, hs, -, houtlook⟩
  rw [finishes_bind, finishes_get]
  cases hid : q.registration? thread with
  | some id => exact ⟨hq, ⟨s, hs, hq.known s hs _ (mem_of_registration hid)⟩, hid, houtlook⟩
  | none =>
      obtain ⟨past, hrun⟩ := hq.runs s hs
      dsimp only
      rw [finishes_bind]
      refine (hq.finishes_onSanitizer hs (Sanitizer.register_goes hrun _)
        (Sanitizer.finishes_register hrun)).imp ?_ ?_
      · rintro r _ ⟨t, rfl, halive, hok, hno⟩
        cases r with
        | ok id =>
            obtain ⟨hfresh, hin, hchunks, hclaims⟩ := hok id rfl
            have henrolled := hq.enroll hs hid halive hfresh hin hchunks hclaims
            exact ⟨henrolled.alive, henrolled.known, henrolled.registration, henrolled.outlook.trans houtlook⟩
        | error e =>
            obtain ⟨e', heq, hregister, he⟩ := hno e rfl
            cases heq
            have hcrowded : p.Crowded thread := .register hsanitizer hid hregister he
            exact (halive.finishes_dieOf rfl e).imp (fun _ _ h => h.elim) fun _ _ _ => hcrowded
      · rintro e r ⟨-, t, _, hstopped, -⟩
        exact nomatch hstopped

end Program

end GuardedHeap
