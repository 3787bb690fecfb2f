import RewardVesting.Fault

namespace RewardVesting

/-! An action runs over a state.  It may be refused, and then keeps what it had already
changed; or it may fault, and then nothing is left of it. -/

def Action (σ ε α : Type) : Type :=
  σ → Except Fault (Except ε α × σ)

namespace Action

variable {σ ε ε' α β : Type}

protected def pure (value : α) : Action σ ε α :=
  fun state => .ok (.ok value, state)

protected def bind (first : Action σ ε α) (next : α → Action σ ε β) : Action σ ε β :=
  fun state =>
    match first state with
    | .error fault => .error fault
    | .ok (.error cause, changed) => .ok (.error cause, changed)
    | .ok (.ok value, changed) => next value changed

instance : Monad (Action σ ε) where
  pure := Action.pure
  bind := Action.bind

def read : Action σ ε σ :=
  fun state => .ok (.ok state, state)

def write (replacement : σ) : Action σ ε Unit :=
  fun _ => .ok (.ok (), replacement)

def modify (change : σ → σ) : Action σ ε Unit :=
  fun state => .ok (.ok (), change state)

def refuse (cause : ε) : Action σ ε α :=
  fun state => .ok (.error cause, state)

def stop (fault : Fault) : Action σ ε α :=
  fun _ => .error fault

/-- A computation without state, of which the state sees only whether it faults. -/
def checked (result : Except Fault α) : Action σ ε α :=
  fun state => result.map fun value => (.ok value, state)

instance : MonadLift (Except Fault) (Action σ ε) where
  monadLift := checked

def ofExcept (result : Except ε α) : Action σ ε α :=
  fun state => .ok (result, state)

def require (condition : Prop) [Decidable condition] (cause : ε) : Action σ ε Unit :=
  if condition then Action.pure () else refuse cause

/-- Says a refusal in the words of another layer. -/
def mapError (convert : ε → ε') (action : Action σ ε α) : Action σ ε' α :=
  fun state => (action state).map fun (result, changed) =>
    (result.mapError convert, changed)

/-- Carries on after a refusal and reports it as a value. -/
def attempt (action : Action σ ε α) : Action σ ε' (Except ε α) :=
  fun state => (action state).map fun (result, changed) => (.ok result, changed)

/-- Runs an action over a state of its own and returns that state with the value. -/
def runOn {τ : Type} (start : τ) (action : Action τ ε α) : Action σ ε (α × τ) :=
  fun state => (action start).map fun (result, changed) =>
    (result.map fun value => (value, changed), state)

@[simp] theorem pure_apply (value : α) (state : σ) :
    (pure value : Action σ ε α) state = .ok (.ok value, state) := rfl

theorem bind_apply (first : Action σ ε α) (next : α → Action σ ε β) (state : σ) :
    (first >>= next) state =
      match first state with
      | .error fault => .error fault
      | .ok (.error cause, changed) => .ok (.error cause, changed)
      | .ok (.ok value, changed) => next value changed := rfl

@[simp] theorem read_apply (state : σ) :
    (read : Action σ ε σ) state = .ok (.ok state, state) := rfl

@[simp] theorem write_apply (replacement state : σ) :
    (write replacement : Action σ ε Unit) state = .ok (.ok (), replacement) := rfl

@[simp] theorem modify_apply (change : σ → σ) (state : σ) :
    (modify change : Action σ ε Unit) state = .ok (.ok (), change state) := rfl

@[simp] theorem refuse_apply (cause : ε) (state : σ) :
    (refuse cause : Action σ ε α) state = .ok (.error cause, state) := rfl

@[simp] theorem stop_apply (fault : Fault) (state : σ) :
    (stop fault : Action σ ε α) state = .error fault := rfl

@[simp] theorem ofExcept_apply (result : Except ε α) (state : σ) :
    (ofExcept result : Action σ ε α) state = .ok (result, state) := rfl

end Action

end RewardVesting
