import GuardedHeap.Word

/-! # Actions — steps on a state that may be refused or stopped

    An action on a state ends in one of three ways: with a value, refused
    with a described error, or stopped.  A refused action keeps what it did
    to the state before the refusal; nothing is rolled back unless the
    action itself undoes it.  A stopped action ends the run: its arithmetic
    left the machine word or an index left its table. -/

namespace GuardedHeap

/-- Why an action returned no value. -/
inductive Halt (ε : Type) where
  /-- The action refused with an error that its caller may handle. -/
  | refused (error : ε)
  /-- The run is over. -/
  | stopped
  deriving DecidableEq, Repr

/-- A step on states `σ` that returns an `α`, or is refused with an `ε`, or stops. -/
abbrev Act (ε σ α : Type) := EStateM (Halt ε) σ α

/-- A question to a state, which it leaves alone. -/
abbrev Query (ε α : Type) := Except (Halt ε) α

/-- The answer of a checked computation; an overrun stops the run. -/
def Query.check {ε α : Type} : Checked α → Query ε α
  | .ok a => .ok a
  | .error _ => .error .stopped

instance {ε : Type} : MonadLift (Except Overrun) (Except (Halt ε)) where
  monadLift := Query.check

namespace Act

variable {ε ε' σ τ α : Type}

/-- End with the error `e`. -/
def refuse (e : ε) : Act ε σ α :=
  throw (.refused e)

/-- End the run. -/
def stop : Act ε σ α :=
  throw .stopped

/-- The value of a checked computation; an overrun stops the run. -/
def check : Checked α → Act ε σ α
  | .ok a => pure a
  | .error _ => stop

/-- The value of a computation that has errors of its own. -/
def ofExcept : Except ε α → Act ε σ α
  | .ok a => pure a
  | .error e => refuse e

/-- The answer to a question about the state. -/
def ask (question : σ → Query ε α) : Act ε σ α := fun s =>
  match question s with
  | .ok a => .ok a s
  | .error h => .error h s

/-- The value that is there, or the error `e`. -/
def orRefuse (e : ε) : Option α → Act ε σ α
  | some a => pure a
  | none => refuse e

/-- The value that is there; its absence stops the run. -/
def orStop : Option α → Act ε σ α
  | some a => pure a
  | none => stop

instance : MonadLift (Except Overrun) (EStateM (Halt ε) σ) where
  monadLift := check

/-- The same action with its errors renamed. -/
def mapError (f : ε → ε') (act : Act ε σ α) : Act ε' σ α := fun s =>
  match act s with
  | .ok a t => .ok a t
  | .error (.refused e) t => .error (.refused (f e)) t
  | .error .stopped t => .error .stopped t

/-- An action on one part of the state. -/
def onPart (view : σ → τ) (put : σ → τ → σ) (act : Act ε τ α) : Act ε σ α := fun s =>
  match act (view s) with
  | .ok a t => .ok a (put s t)
  | .error e t => .error e (put s t)

/-- The same action, with a refusal as a value. -/
def attempt (act : Act ε σ α) : Act ε' σ (Except ε α) := fun s =>
  match act s with
  | .ok a t => .ok (.ok a) t
  | .error (.refused e) t => .ok (.error e) t
  | .error .stopped t => .error .stopped t

/-! ## Reading a finished action backwards -/

theorem bind_eq_ok {β : Type} {act : Act ε σ α} {next : α → Act ε σ β} {s t : σ} {b : β} :
    (act >>= next) s = .ok b t ↔ ∃ a u, act s = .ok a u ∧ next a u = .ok b t := by
  simp only [bind, EStateM.bind]
  cases act s with
  | ok a u => exact ⟨fun h => ⟨a, u, rfl, h⟩, fun ⟨_, _, rfl, h⟩ => h⟩
  | error e u => exact ⟨fun h => (nomatch h), fun ⟨_, _, h, _⟩ => (nomatch h)⟩

theorem bind_eq_error {β : Type} {act : Act ε σ α} {next : α → Act ε σ β} {s t : σ}
    {h : Halt ε} :
    (act >>= next) s = .error h t ↔
      act s = .error h t ∨ ∃ a u, act s = .ok a u ∧ next a u = .error h t := by
  simp only [bind, EStateM.bind]
  cases act s with
  | ok a u =>
    exact ⟨fun hn => .inr ⟨a, u, rfl, hn⟩,
      fun hn => hn.elim (fun he => (nomatch he)) fun ⟨_, _, rfl, hn⟩ => hn⟩
  | error e u =>
    exact ⟨fun he => .inl (by injection he with h1 h2; rw [h1, h2]),
      fun hn => hn.elim (fun he => by injection he with h1 h2; rw [h1, h2])
        fun ⟨_, _, he, _⟩ => (nomatch he)⟩

@[simp] theorem check_ok (a : α) : (check (.ok a) : Act ε σ α) = pure a := rfl

@[simp] theorem check_error (o : Overrun) : (check (.error o) : Act ε σ α) = stop := rfl

end Act

end GuardedHeap
