import GuardedHeap.Act

/-! # Endings — where an action leaves the state

    `Ends act s ok no` says of the action `act` begun in `s` that it is not
    stopped, that `ok` holds of its value and state if it returns, and that
    `no` holds of its error and state if it is refused.  Every way of
    building actions has one rule, an equivalence, so that the rules unfold
    an action into conditions on its parts; the parts that have lemmas of
    their own are left to `Ends.imp`. -/

namespace GuardedHeap.Act

variable {ε ε' σ τ α β : Type}

/-- The action is not stopped, and ends in `ok` with a value or in `no` with an error. -/
def Ends (act : Act ε σ α) (s : σ) (ok : α → σ → Prop) (no : ε → σ → Prop) : Prop :=
  match act s with
  | .ok a t => ok a t
  | .error (.refused e) t => no e t
  | .error .stopped _ => False

/-- The action ends in `ok` with a value or in `no` with an error, unless it is stopped. -/
def EndsOrStops (act : Act ε σ α) (s : σ) (ok : α → σ → Prop) (no : ε → σ → Prop) : Prop :=
  match act s with
  | .ok a t => ok a t
  | .error (.refused e) t => no e t
  | .error .stopped _ => True

section Rules

variable {act : Act ε σ α} {s : σ} {ok ok' : α → σ → Prop} {no no' : ε → σ → Prop}

/-- What an action returned goes to the action behind it. -/
theorem bind_of_ok {next : α → Act ε σ β} {a : α} {t : σ} (h : act s = .ok a t) :
    (act >>= next) s = next a t := by
  simp only [bind, EStateM.bind, h]

/-- Behind an action that does not return nothing happens. -/
theorem bind_of_error {next : α → Act ε σ β} {e : Halt ε} {t : σ} (h : act s = .error e t) :
    (act >>= next) s = .error e t := by
  simp only [bind, EStateM.bind, h]

/-- Two actions that do the same go on in the same way if what is behind them does. -/
theorem bind_congr_ok {act' : Act ε σ α} {next next' : α → Act ε σ β} (hact : act' s = act s)
    (hnext : ∀ a t, act s = .ok a t → next' a t = next a t) : (act' >>= next') s = (act >>= next) s := by
  simp only [bind, EStateM.bind, hact]
  cases h : act s with
  | ok a t => exact hnext a t h
  | error e t => rfl

/-- A computation that does not overrun is passed over. -/
theorem checked_bind {c : Checked α} {a : α} (h : c = .ok a) (next : α → Act ε σ β) (s : σ) :
    ((liftM c : Act ε σ α) >>= next) s = next a s := by
  rw [h]
  rfl

/-- What is there is passed on. -/
theorem orRefuse_bind {e : ε} {o : Option α} {a : α} (h : o = some a) (next : α → Act ε σ β) (s : σ) :
    (orRefuse e o >>= next) s = next a s := by
  rw [h]
  rfl

theorem get_bind (next : σ → Act ε σ β) (s : σ) : (get >>= next) s = next s s := rfl

/-- What an ending says, outcome by outcome. -/
theorem ends_iff :
    Ends act s ok no ↔
      (∃ a t, act s = .ok a t ∧ ok a t) ∨ ∃ e t, act s = .error (.refused e) t ∧ no e t := by
  unfold Ends
  constructor
  · intro h
    cases hact : act s with
    | ok a t => rw [hact] at h; exact .inl ⟨a, t, rfl, h⟩
    | error e t =>
        rw [hact] at h
        cases e with
        | refused e => exact .inr ⟨e, t, rfl, h⟩
        | stopped => exact h.elim
  · rintro (⟨a, t, heq, h⟩ | ⟨e, t, heq, h⟩)
    · rw [heq]; exact h
    · rw [heq]; exact h

/-- What is known of the state that an action ended in may come from the action itself. -/
theorem Ends.imp_eq (h : Ends act s ok no) (hok : ∀ a t, act s = .ok a t → ok a t → ok' a t)
    (hno : ∀ e t, act s = .error (.refused e) t → no e t → no' e t) : Ends act s ok' no' := by
  rw [ends_iff] at h ⊢
  rcases h with ⟨a, t, heq, ha⟩ | ⟨e, t, heq, he⟩
  · exact .inl ⟨a, t, heq, hok a t heq ha⟩
  · exact .inr ⟨e, t, heq, hno e t heq he⟩

theorem Ends.imp_ok (h : Ends act s ok no) (hok : ∀ a t, act s = .ok a t → ok a t → ok' a t)
    (hno : ∀ e t, no e t → no' e t) : Ends act s ok' no' :=
  h.imp_eq hok fun e t _ => hno e t

theorem Ends.imp (h : Ends act s ok no) (hok : ∀ a t, ok a t → ok' a t)
    (hno : ∀ e t, no e t → no' e t) : Ends act s ok' no' :=
  h.imp_ok (fun a t _ => hok a t) hno

theorem Ends.of_ok (h : Ends act s ok no) {a : α} {t : σ} (heq : act s = .ok a t) : ok a t := by
  unfold Ends at h
  rw [heq] at h
  exact h

theorem Ends.of_refused (h : Ends act s ok no) {e : ε} {t : σ}
    (heq : act s = .error (.refused e) t) : no e t := by
  unfold Ends at h
  rw [heq] at h
  exact h

theorem EndsOrStops.of_ok (h : EndsOrStops act s ok no) {a : α} {t : σ} (heq : act s = .ok a t) :
    ok a t := by
  unfold EndsOrStops at h
  rw [heq] at h
  exact h

/-- What is known of an action that returned. -/
theorem endsOrStops_of_ok (h : ∀ a t, act s = .ok a t → ok a t) :
    EndsOrStops act s ok fun _ _ => True := by
  unfold EndsOrStops
  cases hact : act s with
  | ok a t => exact h a t hact
  | error e t => cases e <;> trivial

theorem Ends.orStops (h : Ends act s ok no) : EndsOrStops act s ok no := by
  unfold Ends at h
  unfold EndsOrStops
  cases hact : act s with
  | ok a t => rw [hact] at h; exact h
  | error e t =>
      rw [hact] at h
      cases e with
      | refused e => exact h
      | stopped => exact trivial

/-- An action that is not stopped ends in all that is known of its endings. -/
theorem Ends.and_endsOrStops (h : Ends act s ok no) (h' : EndsOrStops act s ok' no') :
    Ends act s (fun a t => ok a t ∧ ok' a t) fun e t => no e t ∧ no' e t := by
  unfold Ends EndsOrStops at *
  cases hact : act s with
  | ok a t => rw [hact] at h h'; exact ⟨h, h'⟩
  | error e t =>
      rw [hact] at h h'
      cases e with
      | refused e => exact ⟨h, h'⟩
      | stopped => exact h

theorem ends_bind {next : α → Act ε σ β} {ok : β → σ → Prop} :
    Ends (act >>= next) s ok no ↔ Ends act s (fun a t => Ends (next a) t ok no) no := by
  simp only [Ends, bind, EStateM.bind]
  cases act s with
  | ok a t => exact Iff.rfl
  | error h t => cases h <;> exact Iff.rfl

theorem endsOrStops_bind {next : α → Act ε σ β} {ok : β → σ → Prop} :
    EndsOrStops (act >>= next) s ok no ↔
      EndsOrStops act s (fun a t => EndsOrStops (next a) t ok no) no := by
  simp only [EndsOrStops, bind, EStateM.bind]
  cases act s with
  | ok a t => exact Iff.rfl
  | error h t => cases h <;> exact Iff.rfl

theorem EndsOrStops.imp (h : EndsOrStops act s ok no) (hok : ∀ a t, ok a t → ok' a t)
    (hno : ∀ e t, no e t → no' e t) : EndsOrStops act s ok' no' := by
  unfold EndsOrStops at h ⊢
  cases hact : act s with
  | ok a t => rw [hact] at h; exact hok a t h
  | error e t =>
      rw [hact] at h
      cases e with
      | refused e => exact hno e t h
      | stopped => exact trivial

theorem EndsOrStops.and (h : EndsOrStops act s ok no) (h' : EndsOrStops act s ok' no') :
    EndsOrStops act s (fun a t => ok a t ∧ ok' a t) fun e t => no e t ∧ no' e t := by
  unfold EndsOrStops at *
  cases hact : act s with
  | ok a t =>
      rw [hact] at h h'
      exact ⟨h, h'⟩
  | error e t =>
      rw [hact] at h h'
      cases e with
      | refused e => exact ⟨h, h'⟩
      | stopped => exact trivial

theorem endsOrStops_mapError {f : ε → ε'} {no : ε' → σ → Prop} :
    EndsOrStops (mapError f act) s ok no ↔ EndsOrStops act s ok fun e t => no (f e) t := by
  simp only [EndsOrStops, mapError]
  cases act s with
  | ok a t => exact Iff.rfl
  | error h t => cases h <;> exact Iff.rfl

theorem endsOrStops_onPart {view : σ → τ} {put : σ → τ → σ} {act : Act ε τ α} :
    EndsOrStops (onPart view put act) s ok no ↔
      EndsOrStops act (view s) (fun a t => ok a (put s t)) fun e t => no e (put s t) := by
  simp only [EndsOrStops, onPart]
  cases act (view s) with
  | ok a t => exact Iff.rfl
  | error h t => cases h <;> exact Iff.rfl

theorem ends_map {f : α → β} {ok : β → σ → Prop} :
    Ends (f <$> act) s ok no ↔ Ends act s (fun a t => ok (f a) t) no := by
  simp only [Ends, Functor.map, EStateM.map]
  cases act s with
  | ok a t => exact Iff.rfl
  | error h t => cases h <;> exact Iff.rfl

theorem endsOrStops_map {f : α → β} {ok : β → σ → Prop} :
    EndsOrStops (f <$> act) s ok no ↔ EndsOrStops act s (fun a t => ok (f a) t) no := by
  simp only [EndsOrStops, Functor.map, EStateM.map]
  cases act s with
  | ok a t => exact Iff.rfl
  | error h t => cases h <;> exact Iff.rfl

theorem ends_mapError {f : ε → ε'} {no : ε' → σ → Prop} :
    Ends (mapError f act) s ok no ↔ Ends act s ok fun e t => no (f e) t := by
  simp only [Ends, mapError]
  cases act s with
  | ok a t => exact Iff.rfl
  | error h t => cases h <;> exact Iff.rfl

theorem ends_attempt {ok : Except ε α → σ → Prop} {no : ε' → σ → Prop} :
    Ends (attempt act : Act ε' σ (Except ε α)) s ok no ↔
      Ends act s (fun a t => ok (.ok a) t) fun e t => ok (.error e) t := by
  simp only [Ends, attempt]
  cases act s with
  | ok a t => exact Iff.rfl
  | error h t => cases h <;> exact Iff.rfl

/-- What comes after an action that is refused is not reached. -/
theorem Ends.bind_refused {next : α → Act ε σ β} (h : Ends act s (fun _ _ => False) no) :
    Ends (act >>= next) s (fun _ _ => False) no :=
  ends_bind.mpr (h.imp (fun _ _ hno => hno.elim) fun _ _ hno => hno)

/-- An attempt of an action that is not stopped returns. -/
theorem Ends.attempt (h : Ends act s ok no) :
    (∃ a t, (Act.attempt act : Act ε' σ (Except ε α)) s = .ok (.ok a) t ∧ ok a t)
      ∨ ∃ e t, (Act.attempt act : Act ε' σ (Except ε α)) s = .ok (.error e) t ∧ no e t := by
  unfold Act.attempt
  rcases ends_iff.mp h with ⟨a, t, heq, hok⟩ | ⟨e, t, heq, hno⟩
  · exact .inl ⟨a, t, by rw [heq], hok⟩
  · exact .inr ⟨e, t, by rw [heq], hno⟩

theorem endsOrStops_attempt {ok : Except ε α → σ → Prop} {no : ε' → σ → Prop} :
    EndsOrStops (attempt act : Act ε' σ (Except ε α)) s ok no ↔
      EndsOrStops act s (fun a t => ok (.ok a) t) fun e t => ok (.error e) t := by
  simp only [EndsOrStops, attempt]
  cases act s with
  | ok a t => exact Iff.rfl
  | error h t => cases h <;> exact Iff.rfl

theorem ends_onPart {view : σ → τ} {put : σ → τ → σ} {act : Act ε τ α} :
    Ends (onPart view put act) s ok no ↔
      Ends act (view s) (fun a t => ok a (put s t)) fun e t => no e (put s t) := by
  simp only [Ends, onPart]
  cases act (view s) with
  | ok a t => exact Iff.rfl
  | error h t => cases h <;> exact Iff.rfl

theorem ends_ite {c : Prop} [Decidable c] {act' : Act ε σ α} :
    Ends (if c then act else act') s ok no ↔
      (c → Ends act s ok no) ∧ (¬ c → Ends act' s ok no) := by
  by_cases h : c
  · simp [h]
  · simp [h]

end Rules

section Primitives

variable {s : σ} {no : ε → σ → Prop}

theorem ends_pure {a : α} {ok : α → σ → Prop} :
    Ends (pure a : Act ε σ α) s ok no ↔ ok a s := Iff.rfl

theorem ends_get {ok : σ → σ → Prop} : Ends (get : Act ε σ σ) s ok no ↔ ok s s := Iff.rfl

theorem ends_set {t : σ} {ok : PUnit → σ → Prop} :
    Ends (set t : Act ε σ PUnit) s ok no ↔ ok ⟨⟩ t := Iff.rfl

theorem ends_modify {f : σ → σ} {ok : PUnit → σ → Prop} :
    Ends (modify f : Act ε σ PUnit) s ok no ↔ ok ⟨⟩ (f s) := Iff.rfl

theorem ends_refuse {e : ε} {ok : α → σ → Prop} :
    Ends (refuse e : Act ε σ α) s ok no ↔ no e s := Iff.rfl

theorem ends_check {c : Checked α} {ok : α → σ → Prop} :
    Ends (check c : Act ε σ α) s ok no ↔ ∃ a, c = .ok a ∧ ok a s := by
  cases c with
  | ok a => exact ⟨fun h => ⟨a, rfl, h⟩, fun ⟨_, rfl, h⟩ => h⟩
  | error o => exact ⟨fun h => h.elim, fun ⟨_, h, _⟩ => nomatch h⟩

theorem ends_liftM {c : Checked α} {ok : α → σ → Prop} :
    Ends (liftM c : Act ε σ α) s ok no ↔ ∃ a, c = .ok a ∧ ok a s :=
  ends_check

theorem endsOrStops_liftM {c : Checked α} {ok : α → σ → Prop} :
    EndsOrStops (liftM c : Act ε σ α) s ok no ↔ ∀ a, c = .ok a → ok a s := by
  cases c with
  | ok a => exact ⟨fun h _ heq => by cases heq; exact h, fun h => h a rfl⟩
  | error o => exact ⟨fun _ => nofun, fun _ => trivial⟩

theorem ends_ofExcept {r : Except ε α} {ok : α → σ → Prop} :
    Ends (ofExcept r : Act ε σ α) s ok no ↔
      (∀ a, r = .ok a → ok a s) ∧ ∀ e, r = .error e → no e s := by
  cases r with
  | ok a => exact ⟨fun h => ⟨fun _ heq => by cases heq; exact h, nofun⟩, fun h => h.1 a rfl⟩
  | error e => exact ⟨fun h => ⟨nofun, fun _ heq => by cases heq; exact h⟩, fun h => h.2 e rfl⟩

theorem ends_orRefuse {e : ε} {o : Option α} {ok : α → σ → Prop} :
    Ends (orRefuse e o : Act ε σ α) s ok no ↔
      (∀ a, o = some a → ok a s) ∧ (o = none → no e s) := by
  cases o with
  | some a => exact ⟨fun h => ⟨fun _ heq => by cases heq; exact h, nofun⟩, fun h => h.1 a rfl⟩
  | none => exact ⟨fun h => ⟨nofun, fun _ => h⟩, fun h => h.2 rfl⟩

theorem ends_orRefuse_some {e : ε} {a : α} {ok : α → σ → Prop} :
    Ends (orRefuse e (some a) : Act ε σ α) s ok no ↔ ok a s := Iff.rfl

theorem endsOrStops_get {ok : σ → σ → Prop} :
    EndsOrStops (get : Act ε σ σ) s ok no ↔ ok s s := Iff.rfl

theorem endsOrStops_orRefuse_some {e : ε} {a : α} {ok : α → σ → Prop} :
    EndsOrStops (orRefuse e (some a) : Act ε σ α) s ok no ↔ ok a s := Iff.rfl

theorem ends_orStop {o : Option α} {ok : α → σ → Prop} :
    Ends (orStop o : Act ε σ α) s ok no ↔ ∃ a, o = some a ∧ ok a s := by
  cases o with
  | some a => exact ⟨fun h => ⟨a, rfl, h⟩, fun ⟨_, rfl, h⟩ => h⟩
  | none => exact ⟨fun h => h.elim, fun ⟨_, h, _⟩ => nomatch h⟩

end Primitives

/-! ## What is left as it is -/

/-- The state that the action ends in, whether it succeeds or not. -/
def after (act : Act ε σ α) (s : σ) : σ :=
  match act s with
  | .ok _ t | .error _ t => t

/-- However the action ends, what `f` sees of the state is as before. -/
def Fixes {ρ : Type} (f : σ → ρ) (act : Act ε σ α) : Prop :=
  ∀ s, f (act.after s) = f s

section Fixes

variable {ρ : Type} {f : σ → ρ} {act : Act ε σ α}

theorem after_of_ok {s t : σ} {a : α} (h : act s = .ok a t) : act.after s = t := by
  unfold after
  rw [h]

theorem after_of_error {s t : σ} {e : Halt ε} (h : act s = .error e t) : act.after s = t := by
  unfold after
  rw [h]

theorem Fixes.of_ok (h : Fixes f act) {s t : σ} {a : α} (hact : act s = .ok a t) : f t = f s :=
  after_of_ok hact ▸ h s

theorem Fixes.of_error (h : Fixes f act) {s t : σ} {e : Halt ε} (hact : act s = .error e t) :
    f t = f s :=
  after_of_error hact ▸ h s

theorem Fixes.bind {next : α → Act ε σ β} (h : Fixes f act) (hnext : ∀ a, Fixes f (next a)) :
    Fixes f (act >>= next) := by
  intro s
  unfold after
  simp only [Bind.bind, EStateM.bind]
  cases hact : act s with
  | ok a t => exact (hnext a t).trans (h.of_ok hact)
  | error e t => exact h.of_error hact

theorem Fixes.map {g : α → β} (h : Fixes f act) : Fixes f (g <$> act) := by
  intro s
  unfold after
  simp only [Functor.map, EStateM.map]
  cases hact : act s with
  | ok a t => exact h.of_ok hact
  | error e t => exact h.of_error hact

theorem Fixes.mapError {g : ε → ε'} (h : Fixes f act) : Fixes f (mapError g act) := by
  intro s
  unfold after Act.mapError
  cases hact : act s with
  | ok a t => exact h.of_ok hact
  | error e t => cases e <;> exact h.of_error hact

theorem Fixes.attempt (h : Fixes f act) : Fixes f (attempt act : Act ε' σ (Except ε α)) := by
  intro s
  unfold after Act.attempt
  cases hact : act s with
  | ok a t => exact h.of_ok hact
  | error e t => cases e <;> exact h.of_error hact

/-- An action on a part fixes what does not see the part. -/
theorem fixes_onPart {view : σ → τ} {put : σ → τ → σ} {inner : Act ε τ α}
    (h : ∀ s t, f (put s t) = f s) : Fixes f (onPart view put inner) := by
  intro s
  unfold after onPart
  cases inner (view s) with
  | ok a t => exact h s t
  | error e t => exact h s t

/-- An action on a part fixes what it fixes of the part. -/
theorem Fixes.onPart {ρ' : Type} {g : τ → ρ'} {view : σ → τ} {put : σ → τ → σ} {inner : Act ε τ α}
    (h : Fixes g inner) (hput : ∀ s t, g t = g (view s) → f (put s t) = f s) :
    Fixes f (onPart view put inner) := by
  intro s
  unfold after Act.onPart
  cases hact : inner (view s) with
  | ok a t => exact hput s t (h.of_ok hact)
  | error e t => exact hput s t (h.of_error hact)

theorem fixes_pure {a : α} : Fixes f (pure a : Act ε σ α) := fun _ => rfl

theorem fixes_get {f : σ → ρ} : Fixes f (get : Act ε σ σ) := fun _ => rfl

theorem fixes_refuse {e : ε} : Fixes f (refuse e : Act ε σ α) := fun _ => rfl

theorem fixes_modify {g : σ → σ} (h : ∀ s, f (g s) = f s) :
    Fixes f (modify g : Act ε σ PUnit) := h

theorem fixes_modifyGet {g : σ → α × σ} (h : ∀ s, f (g s).2 = f s) :
    Fixes f (modifyGet g : Act ε σ α) := h

theorem fixes_liftM {c : Checked α} : Fixes f (liftM c : Act ε σ α) := by
  cases c <;> exact fun _ => rfl

theorem fixes_ofExcept {r : Except ε α} : Fixes f (ofExcept r : Act ε σ α) := by
  cases r <;> exact fun _ => rfl

theorem fixes_orRefuse {e : ε} {o : Option α} : Fixes f (orRefuse e o : Act ε σ α) := by
  cases o <;> exact fun _ => rfl

theorem fixes_orStop {o : Option α} : Fixes f (orStop o : Act ε σ α) := by
  cases o <;> exact fun _ => rfl

/-- What sees less is fixed, too. -/
theorem Fixes.comp {ρ' : Type} {g : ρ → ρ'} (h : Fixes f act) : Fixes (fun s => g (f s)) act :=
  fun s => congrArg g (h s)

/-- A state that is read before the rest. -/
theorem fixes_get_bind {f : σ → ρ} {rest : σ → Act ε σ α} (h : ∀ s, f ((rest s).after s) = f s) :
    Fixes f (get >>= rest) := h

theorem fixes_ite {p : Prop} [Decidable p] {other : Act ε σ α} (h : Fixes f act)
    (hother : Fixes f other) : Fixes f (if p then act else other) := by
  split
  · exact h
  · exact hother

end Fixes

section Leaves

variable {P : σ → Prop} {act : Act ε σ α} {s : σ}

/-- However the action ends when it is begun in `s`, the state that it ends in has `P`. -/
def Leaves (P : σ → Prop) (act : Act ε σ α) (s : σ) : Prop :=
  P (act.after s)

theorem Leaves.of_ok (h : Leaves P act s) {a : α} {t : σ} (hact : act s = .ok a t) : P t :=
  after_of_ok hact ▸ h

theorem Leaves.imp {Q : σ → Prop} (h : Leaves P act s) (himp : ∀ t, P t → Q t) : Leaves Q act s :=
  himp _ h

theorem Leaves.and {Q : σ → Prop} (h : Leaves P act s) (h' : Leaves Q act s) :
    Leaves (fun t => P t ∧ Q t) act s :=
  ⟨h, h'⟩

theorem Leaves.orStops (h : Leaves P act s) :
    EndsOrStops act s (fun _ t => P t) fun _ t => P t := by
  unfold Leaves after at h
  unfold EndsOrStops
  cases hact : act s with
  | ok a t => rw [hact] at h; exact h
  | error e t =>
      rw [hact] at h
      cases e with
      | refused e => exact h
      | stopped => exact trivial

theorem Fixes.leaves {ρ : Type} {f : σ → ρ} (h : Fixes f act) (s : σ) :
    Leaves (fun t => f t = f s) act s := h s

/-- What an action fixes stays as it has become before. -/
theorem Fixes.leaves_eq {ρ : Type} {f : σ → ρ} (h : Fixes f act) {r : ρ} (hs : f s = r) :
    Leaves (fun t => f t = r) act s := (h s).trans hs

/-- An action that ends well leaves what it ends in. -/
theorem Ends.leaves (h : Ends act s (fun _ t => P t) fun _ t => P t) : Leaves P act s := by
  unfold Leaves after
  rcases ends_iff.mp h with ⟨a, t, heq, ht⟩ | ⟨e, t, heq, ht⟩
  · rw [heq]; exact ht
  · rw [heq]; exact ht

/-- What an action leaves can be added to what is known of its ends. -/
theorem Ends.and_leaves {ok : α → σ → Prop} {no : ε → σ → Prop} (h : Ends act s ok no)
    (hleaves : Leaves P act s) :
    Ends act s (fun a t => ok a t ∧ P t) fun e t => no e t ∧ P t := by
  unfold Leaves after at hleaves
  rcases ends_iff.mp h with ⟨a, t, heq, ht⟩ | ⟨e, t, heq, ht⟩ <;> rw [heq] at hleaves
  · exact ends_iff.mpr (.inl ⟨a, t, heq, ht, hleaves⟩)
  · exact ends_iff.mpr (.inr ⟨e, t, heq, ht, hleaves⟩)

/-- What follows an action begins where the action returned. -/
theorem Ends.leaves_bind {ok : α → σ → Prop} {no : ε → σ → Prop} {next : α → Act ε σ β}
    (h : Ends act s ok no) (hok : ∀ a t, ok a t → Leaves P (next a) t) (hno : ∀ e t, no e t → P t) :
    Leaves P (act >>= next) s := by
  unfold Leaves
  rcases ends_iff.mp h with ⟨a, t, heq, ht⟩ | ⟨e, t, heq, ht⟩
  · unfold after
    rw [bind_of_ok heq]
    exact hok a t ht
  · rw [after_of_error (bind_of_error heq)]
    exact hno e t ht

theorem Leaves.bind {next : α → Act ε σ β} (h : Leaves P act s)
    (hnext : ∀ a t, act s = .ok a t → P t → Leaves P (next a) t) : Leaves P (act >>= next) s := by
  unfold Leaves after at h ⊢
  simp only [Bind.bind, EStateM.bind]
  cases hact : act s with
  | ok a t => rw [hact] at h; exact hnext a t hact h
  | error e t => rw [hact] at h; exact h

/-- An action that only reads is passed over. -/
theorem Leaves.read_bind {next : α → Act ε σ β} (hread : Fixes id act) (hs : P s)
    (hnext : ∀ a, act s = .ok a s → Leaves P (next a) s) : Leaves P (act >>= next) s := by
  have hafter : act.after s = s := hread s
  refine Leaves.bind (show P (act.after s) from hafter.symm ▸ hs) fun a t hact _ => ?_
  obtain rfl : t = s := hread.of_ok hact
  exact hnext a hact

theorem leaves_get_bind {next : σ → Act ε σ β} (hnext : Leaves P (next s) s) :
    Leaves P (get >>= next) s := hnext

theorem leaves_set_bind {t : σ} {next : PUnit → Act ε σ β} (hnext : Leaves P (next ⟨⟩) t) :
    Leaves P (set t >>= next) s := hnext

theorem leaves_modify {g : σ → σ} (h : P (g s)) : Leaves P (modify g : Act ε σ PUnit) s := h

theorem Leaves.map {g : α → β} (h : Leaves P act s) : Leaves P (g <$> act) s := by
  unfold Leaves after at *
  simp only [Functor.map, EStateM.map]
  cases hact : act s with
  | ok a t => rw [hact] at h; exact h
  | error e t => rw [hact] at h; exact h

theorem Leaves.mapError {g : ε → ε'} (h : Leaves P act s) : Leaves P (mapError g act) s := by
  unfold Leaves after Act.mapError at *
  cases hact : act s with
  | ok a t => rw [hact] at h; exact h
  | error e t => rw [hact] at h; cases e <;> exact h

theorem Leaves.attempt (h : Leaves P act s) :
    Leaves P (attempt act : Act ε' σ (Except ε α)) s := by
  unfold Leaves after Act.attempt at *
  cases hact : act s with
  | ok a t => rw [hact] at h; exact h
  | error e t => rw [hact] at h; cases e <;> exact h

theorem Leaves.onPart {view : σ → τ} {put : σ → τ → σ} {inner : Act ε τ α}
    (h : Leaves (fun t => P (put s t)) inner (view s)) : Leaves P (onPart view put inner) s := by
  unfold Leaves after Act.onPart at *
  cases hact : inner (view s) with
  | ok a t => rw [hact] at h; exact h
  | error e t => rw [hact] at h; exact h

theorem leaves_ite {p : Prop} [Decidable p] {other : Act ε σ α} (h : p → Leaves P act s)
    (hother : ¬ p → Leaves P other s) : Leaves P (if p then act else other) s := by
  split
  · exact h ‹_›
  · exact hother ‹_›

end Leaves

/-! ## Reading a finished action backwards -/

section Backwards

variable {act : Act ε σ α} {s t : σ} {a : α}

theorem pure_eq_ok {b : α} : (pure b : Act ε σ α) s = .ok a t ↔ b = a ∧ s = t :=
  ⟨fun h => by cases h; exact ⟨rfl, rfl⟩, fun ⟨ha, ht⟩ => by rw [ha, ht]; rfl⟩

theorem get_eq_ok {u : σ} : (get : Act ε σ σ) s = .ok u t ↔ s = u ∧ s = t :=
  ⟨fun h => by cases h; exact ⟨rfl, rfl⟩, fun ⟨hu, ht⟩ => by rw [← hu, ← ht]; rfl⟩

theorem set_eq_ok {u : σ} {b : PUnit} : (set u : Act ε σ PUnit) s = .ok b t ↔ u = t :=
  ⟨fun h => by cases h; rfl, fun ht => by rw [ht]; rfl⟩

theorem modify_eq_ok {g : σ → σ} {b : PUnit} :
    (modify g : Act ε σ PUnit) s = .ok b t ↔ g s = t :=
  ⟨fun h => by cases h; rfl, fun ht => by rw [← ht]; rfl⟩

theorem refuse_eq_ok {e : ε} : (refuse e : Act ε σ α) s = .ok a t ↔ False :=
  ⟨nofun, False.elim⟩

theorem orRefuse_eq_ok {e : ε} {o : Option α} :
    (orRefuse e o : Act ε σ α) s = .ok a t ↔ o = some a ∧ s = t := by
  cases o with
  | none => exact ⟨nofun, nofun⟩
  | some b => exact pure_eq_ok.trans (and_congr_left' (Option.some_inj.symm))

theorem orStop_eq_ok {o : Option α} :
    (orStop o : Act ε σ α) s = .ok a t ↔ o = some a ∧ s = t := by
  cases o with
  | none => exact ⟨nofun, nofun⟩
  | some b => exact pure_eq_ok.trans (and_congr_left' (Option.some_inj.symm))

theorem liftM_eq_ok {c : Checked α} :
    (liftM c : Act ε σ α) s = .ok a t ↔ c = .ok a ∧ s = t := by
  cases c with
  | error o => exact ⟨nofun, nofun⟩
  | ok b =>
      exact (pure_eq_ok (b := b)).trans (and_congr_left' ⟨congrArg _, Except.ok.inj⟩)

theorem map_eq_ok {g : α → β} {b : β} :
    (g <$> act) s = .ok b t ↔ ∃ a, act s = .ok a t ∧ g a = b := by
  simp only [Functor.map, EStateM.map]
  cases act s with
  | ok a u => exact ⟨fun h => by cases h; exact ⟨a, rfl, rfl⟩, fun ⟨_, h, hb⟩ => by cases h; cases hb; rfl⟩
  | error e u => exact ⟨nofun, fun ⟨_, h, _⟩ => nomatch h⟩

theorem mapError_eq_ok {g : ε → ε'} : mapError g act s = .ok a t ↔ act s = .ok a t := by
  unfold mapError
  cases act s with
  | ok b u => exact ⟨fun h => by cases h; rfl, fun h => by cases h; rfl⟩
  | error e u => cases e <;> exact ⟨nofun, nofun⟩

theorem attempt_eq_ok {r : Except ε α} :
    (attempt act : Act ε' σ (Except ε α)) s = .ok r t ↔
      (∃ a, r = .ok a ∧ act s = .ok a t) ∨ ∃ e, r = .error e ∧ act s = .error (.refused e) t := by
  unfold attempt
  cases act s with
  | ok b u =>
      refine ⟨fun h => ?_, ?_⟩
      · cases h
        exact .inl ⟨b, rfl, rfl⟩
      · rintro (⟨a, rfl, h⟩ | ⟨e, -, h⟩)
        · cases h; rfl
        · exact nomatch h
  | error h u =>
      cases h with
      | stopped => exact ⟨nofun, by rintro (⟨a, -, h⟩ | ⟨e, -, h⟩) <;> exact nomatch h⟩
      | refused e =>
          refine ⟨fun h => ?_, ?_⟩
          · cases h
            exact .inr ⟨e, rfl, rfl⟩
          · rintro (⟨a, -, h⟩ | ⟨e, rfl, h⟩)
            · exact nomatch h
            · cases h; rfl

theorem onPart_eq_ok {view : σ → τ} {put : σ → τ → σ} {inner : Act ε τ α} :
    onPart view put inner s = .ok a t ↔ ∃ u, inner (view s) = .ok a u ∧ put s u = t := by
  unfold onPart
  cases inner (view s) with
  | ok b u =>
      refine ⟨fun h => ?_, ?_⟩
      · cases h
        exact ⟨u, rfl, rfl⟩
      · rintro ⟨_, h, rfl⟩
        cases h
        rfl
  | error e u => exact ⟨nofun, fun ⟨_, h, _⟩ => nomatch h⟩

end Backwards

/-! ## Running an action -/

/-- What the action came to, unless it was stopped. -/
def outcome? (act : Act ε σ α) (s : σ) : Option (Except ε α) :=
  match act s with
  | .ok a _ => some (.ok a)
  | .error (.refused e) _ => some (.error e)
  | .error .stopped _ => none

/-- What the action returned and where it left the state, if it returned. -/
def returned? (act : Act ε σ α) (s : σ) : Option (α × σ) :=
  match act s with
  | .ok a t => some (a, t)
  | .error _ _ => none

/-- Where the action leaves the state, unless it was stopped. -/
def left? (act : Act ε σ α) (s : σ) : Option σ :=
  match act s with
  | .ok _ t | .error (.refused _) t => some t
  | .error .stopped _ => none

section Outcome

variable {act : Act ε σ α} {s t : σ}

theorem of_returned? {a : α} (h : returned? act s = some (a, t)) : act s = .ok a t := by
  unfold returned? at h
  cases hact : act s with
  | ok b u =>
      rw [hact] at h
      cases h
      rfl
  | error e u =>
      rw [hact] at h
      exact nomatch h

theorem EndsOrStops.of_left? {P : σ → Prop} (h : EndsOrStops act s (fun _ t => P t) fun _ t => P t)
    (hleft : left? act s = some t) : P t := by
  unfold EndsOrStops at h
  unfold left? at hleft
  cases hact : act s with
  | ok a u =>
      rw [hact] at h hleft
      exact Option.some.inj hleft ▸ h
  | error e u =>
      rw [hact] at h hleft
      cases e with
      | refused e => exact Option.some.inj hleft ▸ h
      | stopped => exact nomatch hleft

theorem of_outcome?_ok {a : α} (h : outcome? act s = some (.ok a)) : ∃ t, act s = .ok a t := by
  unfold outcome? at h
  cases hact : act s with
  | ok b t =>
      rw [hact] at h
      cases h
      exact ⟨t, rfl⟩
  | error e t =>
      rw [hact] at h
      cases e <;> exact nomatch h

theorem of_outcome?_error {e : ε} (h : outcome? act s = some (.error e)) :
    ∃ t, act s = .error (.refused e) t := by
  unfold outcome? at h
  cases hact : act s with
  | ok b t =>
      rw [hact] at h
      exact nomatch h
  | error f t =>
      rw [hact] at h
      cases f with
      | stopped => exact nomatch h
      | refused f =>
          cases h
          exact ⟨t, rfl⟩

end Outcome

/-! ## What an action can be refused with -/

section Raises

variable {P : ε → Prop} {act : Act ε σ α}

/-- Whatever state the action is begun in, it is refused only with errors that have `P`. -/
def Raises (P : ε → Prop) (act : Act ε σ α) : Prop :=
  ∀ s e t, act s = .error (.refused e) t → P e

namespace Raises

theorem endsOrStops (h : Raises P act) (s : σ) : EndsOrStops act s (fun _ _ => True) fun e _ => P e := by
  unfold EndsOrStops
  cases hact : act s with
  | ok a t => exact trivial
  | error e t =>
      cases e with
      | refused e => exact h s e t hact
      | stopped => exact trivial

theorem bind {next : α → Act ε σ β} (h : Raises P act) (hnext : ∀ a, Raises P (next a)) :
    Raises P (act >>= next) := by
  intro s e t hrefused
  rcases bind_eq_error.mp hrefused with hact | ⟨a, u, -, hrest⟩
  · exact h s e t hact
  · exact hnext a u e t hrest

theorem onPart {view : τ → σ} {put : τ → σ → τ} (h : Raises P act) :
    Raises P (onPart view put act) := by
  intro s e t hrefused
  unfold Act.onPart at hrefused
  cases hact : act (view s) with
  | ok a u =>
      rw [hact] at hrefused
      exact nomatch hrefused
  | error e' u =>
      rw [hact] at hrefused
      cases hrefused
      exact h _ e u hact

theorem mapError {f : ε' → ε} {act : Act ε' σ α} (h : ∀ e, P (f e)) : Raises P (mapError f act) := by
  intro s e t hrefused
  unfold Act.mapError at hrefused
  cases hact : act s with
  | ok a u =>
      rw [hact] at hrefused
      exact nomatch hrefused
  | error e' u =>
      rw [hact] at hrefused
      cases e' with
      | stopped => exact nomatch hrefused
      | refused e' =>
          cases hrefused
          exact h e'

theorem ite {p : Prop} [Decidable p] {other : Act ε σ α} (h : Raises P act)
    (hother : Raises P other) : Raises P (if p then act else other) := by
  split
  · exact h
  · exact hother

end Raises

theorem raises_pure {a : α} : Raises P (pure a : Act ε σ α) := fun _ _ _ h => nomatch h

theorem raises_get : Raises P (get : Act ε σ σ) := fun _ _ _ h => nomatch h

theorem raises_modify {f : σ → σ} : Raises P (modify f : Act ε σ PUnit) := fun _ _ _ h => nomatch h

theorem raises_refuse {e : ε} (h : P e) : Raises P (refuse e : Act ε σ α) := by
  intro s e' t hrefused
  cases hrefused
  exact h

theorem raises_liftM {c : Checked α} : Raises P (liftM c : Act ε σ α) := by
  cases c <;> exact fun _ _ _ h => nomatch h

theorem raises_orStop {o : Option α} : Raises P (orStop o : Act ε σ α) := by
  cases o <;> exact fun _ _ _ h => nomatch h

theorem raises_orRefuse {o : Option α} {e : ε} (h : P e) : Raises P (orRefuse e o : Act ε σ α) := by
  cases o with
  | none => exact raises_refuse h
  | some a => exact raises_pure

end Raises

/-- Renaming errors to themselves changes nothing. -/
theorem mapError_id (act : Act ε σ α) : mapError id act = act := by
  funext s
  unfold mapError
  cases act s with
  | ok a t => rfl
  | error h t => cases h <;> rfl

/-! ## Actions that may be stopped -/

section Finishes

variable {act : Act ε σ α} {s : σ} {ok ok' : α → σ → Prop} {no no' : Halt ε → σ → Prop}

/-- The action ends in `ok` with a value, or in `no` if it does not return. -/
def Finishes (act : Act ε σ α) (s : σ) (ok : α → σ → Prop) (no : Halt ε → σ → Prop) : Prop :=
  match act s with
  | .ok a t => ok a t
  | .error h t => no h t

theorem Finishes.of_ok (h : Finishes act s ok no) {a : α} {t : σ} (heq : act s = .ok a t) : ok a t := by
  unfold Finishes at h
  rw [heq] at h
  exact h

/-- What is known of the state that an action ended in may come from the action itself. -/
theorem Finishes.imp_eq (h : Finishes act s ok no) (hok : ∀ a t, act s = .ok a t → ok a t → ok' a t)
    (hno : ∀ h t, act s = .error h t → no h t → no' h t) : Finishes act s ok' no' := by
  unfold Finishes at h ⊢
  cases hact : act s with
  | ok a t => rw [hact] at h; exact hok a t hact h
  | error e t => rw [hact] at h; exact hno e t hact h

theorem Finishes.imp (h : Finishes act s ok no) (hok : ∀ a t, ok a t → ok' a t)
    (hno : ∀ h t, no h t → no' h t) : Finishes act s ok' no' :=
  h.imp_eq (fun a t _ => hok a t) fun e t _ => hno e t

theorem Finishes.and (h : Finishes act s ok no) (h' : Finishes act s ok' no') :
    Finishes act s (fun a t => ok a t ∧ ok' a t) fun e t => no e t ∧ no' e t := by
  unfold Finishes at *
  cases hact : act s with
  | ok a t => rw [hact] at h h'; exact ⟨h, h'⟩
  | error e t => rw [hact] at h h'; exact ⟨h, h'⟩

theorem finishes_bind {next : α → Act ε σ β} {ok : β → σ → Prop} :
    Finishes (act >>= next) s ok no ↔ Finishes act s (fun a t => Finishes (next a) t ok no) no := by
  simp only [Finishes, bind, EStateM.bind]
  cases act s <;> exact Iff.rfl

/-- An action that is not stopped is refused if it does not return. -/
theorem Ends.finishes {no : ε → σ → Prop} (h : Ends act s ok no) :
    Finishes act s ok fun e t => ∃ e', e = .refused e' ∧ no e' t := by
  unfold Finishes
  rcases ends_iff.mp h with ⟨a, t, heq, ht⟩ | ⟨e, t, heq, ht⟩
  · rw [heq]; exact ht
  · rw [heq]; exact ⟨e, rfl, ht⟩

theorem EndsOrStops.finishes {no : ε → σ → Prop} (h : EndsOrStops act s ok no) :
    Finishes act s ok fun e t => ∀ e', e = .refused e' → no e' t := by
  unfold EndsOrStops at h
  unfold Finishes
  cases hact : act s with
  | ok a t => rw [hact] at h; exact h
  | error e t =>
      rw [hact] at h
      rintro e' rfl
      exact h

theorem finishes_pure {a : α} : Finishes (pure a : Act ε σ α) s ok no ↔ ok a s := Iff.rfl

theorem finishes_get {ok : σ → σ → Prop} : Finishes (get : Act ε σ σ) s ok no ↔ ok s s := Iff.rfl

theorem finishes_liftM_ok {a : α} : Finishes (liftM (.ok a : Checked α) : Act ε σ α) s ok no ↔ ok a s :=
  Iff.rfl

theorem finishes_map {f : α → β} {ok : β → σ → Prop} :
    Finishes (f <$> act) s ok no ↔ Finishes act s (fun a t => ok (f a) t) no := by
  simp only [Finishes, Functor.map, EStateM.map]
  cases act s <;> exact Iff.rfl

/-- Renamed errors are refused where the errors were. -/
theorem finishes_mapError {f : ε → ε'} {no : Halt ε' → σ → Prop} :
    Finishes (mapError f act) s ok no ↔
      Finishes act s ok fun h t => (∀ e, h = .refused e → no (.refused (f e)) t) ∧ (h = .stopped → no .stopped t) := by
  simp only [Finishes, mapError]
  cases act s with
  | ok a t => exact Iff.rfl
  | error h t =>
      cases h with
      | refused e =>
          refine ⟨fun h => ⟨fun e' heq => ?_, fun heq => ?_⟩, fun h => h.1 e rfl⟩
          · rw [← Halt.refused.inj heq]
            exact h
          · cases heq
      | stopped =>
          refine ⟨fun h => ⟨fun e' heq => ?_, fun _ => h⟩, fun h => h.2 rfl⟩
          cases heq

end Finishes

end GuardedHeap.Act
