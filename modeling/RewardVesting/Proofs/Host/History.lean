import RewardVesting.Proofs.Host.Effect

namespace RewardVesting.Host

open RewardVesting.Action

variable {σ : Type}

/-- One call of an actor, and what came of it. -/
structure Invocation (σ : Type) where
  before : Host σ
  replies : Option (List Reply)
  method : Nat
  params : Bytes
  result : Except Failure Bytes
  after : Host σ

namespace Invocation

/-- The call ran the code. -/
def Runs (code : ActorCode σ) (invocation : Invocation σ) : Prop :=
  (call code invocation.replies invocation.method invocation.params).Ends
    invocation.before invocation.result invocation.after

theorem Runs.yields {code : ActorCode σ} {call : Invocation σ} {returned : Bytes}
    (hruns : call.Runs code) (hresult : call.result = .ok returned) :
    ∃ final,
      (code call.method call.params).Yields (call.before.entered call.replies) returned
        final ∧ call.after = { final with inCall := false } := by
  rw [Runs, hresult] at hruns
  exact call_yields hruns

/-- What the code says of the state and the balance that it leaves when it answers holds of
the call: leaving the code changes neither. -/
theorem Runs.answered {code : ActorCode σ} {call : Invocation σ} {returned : Bytes}
    {leaves : Option (Link σ) → Int → Prop} (hruns : call.Runs code)
    (hresult : call.result = .ok returned)
    (hcode : ∀ final,
      (code call.method call.params).Yields (call.before.entered call.replies) returned
        final → leaves final.state final.balance) :
    leaves call.after.state call.after.balance := by
  obtain ⟨final, hyields, hfinal⟩ := hruns.yields hresult
  rw [hfinal]
  exact hcode final hyields

theorem Runs.refused {code : ActorCode σ} {call : Invocation σ} {failure : Failure}
    (hruns : call.Runs code) (hresult : call.result = .error failure) :
    call.after.state = call.before.state ∧ call.after.balance = call.before.balance := by
  rw [Runs, hresult] at hruns
  exact call_refused hruns

end Invocation

/-- The actor's state is its own.  All else may have changed. -/
structure Elsewhere (before after : Host σ) : Prop where
  state : after.state = before.state

/-- Time passes and value comes in. -/
structure Onward (before after : Host σ) : Prop extends Elsewhere before after where
  balance : before.balance ≤ after.balance
  epoch : before.epoch ≤ after.epoch

/-- A message arrives with its value.  Other value may have come in before it. -/
structure Arrives (before after : Host σ) : Prop extends Elsewhere before after where
  valueReceived_nonneg : 0 ≤ after.valueReceived
  balance : before.balance + after.valueReceived ≤ after.balance

/-- The calls made of an actor in order, each of them once something has arrived for it, and
the host they led to. -/
inductive Deliveries (code : ActorCode σ) (arrives : Host σ → Host σ → Prop)
    (start : Host σ) : List (Invocation σ) → Host σ → Prop
  | begun : Deliveries code arrives start [] start
  | delivered {calls : List (Invocation σ)} {host : Host σ} {invocation : Invocation σ}
      (past : Deliveries code arrives start calls host)
      (harrives : arrives host invocation.before) (hruns : invocation.Runs code) :
      Deliveries code arrives start (calls ++ [invocation]) invocation.after

/-- The calls made of an actor in order, from a starting host on, and the host they led to.
Between any two calls the host may move. -/
inductive History (code : ActorCode σ) (moves : Host σ → Host σ → Prop) (start : Host σ) :
    List (Invocation σ) → Host σ → Prop
  | begun : History code moves start [] start
  | moved {calls : List (Invocation σ)} {host next : Host σ}
      (past : History code moves start calls host) (hmove : moves host next) :
      History code moves start calls next
  | called {calls : List (Invocation σ)} {invocation : Invocation σ}
      (past : History code moves start calls invocation.before)
      (hruns : invocation.Runs code) :
      History code moves start (calls ++ [invocation]) invocation.after

namespace History

variable {code : ActorCode σ} {moves : Host σ → Host σ → Prop} {start host : Host σ}
  {calls : List (Invocation σ)}

/-- What holds at the start and is kept by every move and every call holds throughout. -/
theorem invariant (history : History code moves start calls host) (holds : Host σ → Prop)
    (hstart : holds start)
    (hmoved : ∀ before after, moves before after → holds before → holds after)
    (hcalled : ∀ invocation : Invocation σ, invocation.Runs code → holds invocation.before →
      holds invocation.after) : holds host := by
  induction history with
  | begun => exact hstart
  | moved past hmove ih => exact hmoved _ _ hmove ih
  | called past hruns ih => exact hcalled _ hruns ih

theorem runs_of_mem (history : History code moves start calls host) :
    ∀ call ∈ calls, call.Runs code := by
  induction history with
  | begun => exact List.forall_mem_nil _
  | moved past hmove ih => exact ih
  | called past hruns ih =>
      exact List.forall_mem_append.mpr ⟨ih, List.forall_mem_singleton.mpr hruns⟩

theorem mono {wider : Host σ → Host σ → Prop}
    (history : History code moves start calls host)
    (hmoves : ∀ before after, moves before after → wider before after) :
    History code wider start calls host := by
  induction history with
  | begun => exact .begun
  | moved past hmove ih => exact ih.moved (hmoves _ _ hmove)
  | called past hruns ih => exact ih.called hruns

/-- A history is one up to any of its calls, and another from there on. -/
theorem split {earlier since : List (Invocation σ)} {invocation : Invocation σ}
    (history : History code moves start (earlier ++ invocation :: since) host) :
    History code moves start earlier invocation.before ∧ invocation.Runs code ∧
      History code moves invocation.after since host := by
  generalize hcalls : earlier ++ invocation :: since = calls at history
  induction history generalizing since with
  | begun => cases List.append_eq_nil_iff.mp hcalls |>.2
  | moved past hmove ih =>
      obtain ⟨hpast, hruns, hrest⟩ := ih hcalls
      exact ⟨hpast, hruns, hrest.moved hmove⟩
  | @called calls last past hruns ih =>
      rcases List.eq_nil_or_concat since with rfl | ⟨between, latest, rfl⟩
      · obtain ⟨rfl, hlast⟩ := List.append_inj' hcalls rfl
        cases hlast
        exact ⟨past, hruns, .begun⟩
      · rw [List.concat_eq_append, ← List.cons_append, ← List.append_assoc] at hcalls
        obtain ⟨hbetween, hlatest⟩ := List.append_inj' hcalls rfl
        cases hlatest
        obtain ⟨hpast, hcall, hrest⟩ := ih hbetween
        rw [List.concat_eq_append]
        exact ⟨hpast, hcall, hrest.called hruns⟩

/-- For what is said of the state alone, only the calls that answer matter. -/
theorem state_invariant (history : History code moves start calls host)
    (holds : Option (Link σ) → Prop)
    (hmoves : ∀ before after, moves before after → Elsewhere before after)
    (hstart : holds start.state)
    (hcalled : ∀ before method params returned after,
      (code method params).Yields before returned after → holds before.state →
        holds after.state) : holds host.state := by
  refine history.invariant (fun host => holds host.state) hstart ?_ ?_
  · intro before after hmove hbefore
    rw [(hmoves before after hmove).state]
    exact hbefore
  · intro invocation hruns hbefore
    cases hresult : invocation.result with
    | error failure =>
        rw [(hruns.refused hresult).1]
        exact hbefore
    | ok returned =>
        obtain ⟨final, hyields, hafter⟩ := hruns.yields hresult
        rw [hafter]
        exact hcalled _ _ _ _ final hyields hbefore

end History

/-- What arrives is a way for the host to move. -/
theorem Deliveries.history {code : ActorCode σ} {arrives : Host σ → Host σ → Prop}
    {start host : Host σ} {calls : List (Invocation σ)}
    (deliveries : Deliveries code arrives start calls host) :
    History code arrives start calls host := by
  induction deliveries with
  | begun => exact .begun
  | delivered past harrives hruns ih => exact (ih.moved harrives).called hruns

/-- One more call adds what is to be told of it to what is told of the calls before. -/
theorem filterMap_concat {α : Type} (told? : Invocation σ → Option α)
    (calls : List (Invocation σ)) (call : Invocation σ) :
    (calls ++ [call]).filterMap told? = calls.filterMap told? ++ (told? call).toList := by
  rw [List.filterMap_append]
  cases htold : told? call <;> simp [htold]

/-! Histories that are computed from what is to happen. -/

/-- A call to come, and what happens to the host before it. -/
structure Step (σ : Type) where
  prepare : Host σ → Host σ
  replies : Option (List Reply)
  method : Nat
  params : Bytes

/-- The call as it goes from a host, unless it faults. -/
def Step.invoke? (code : ActorCode σ) (step : Step σ) (host : Host σ) :
    Option (Invocation σ) :=
  let before := step.prepare host
  match call code step.replies step.method step.params before with
  | .ok (result, after) =>
      some ⟨before, step.replies, step.method, step.params, result, after⟩
  | .error _ => none

theorem Step.runs_of_invoke? {code : ActorCode σ} {step : Step σ} {host : Host σ}
    {invocation : Invocation σ} (hinvoke : step.invoke? code host = some invocation) :
    invocation.before = step.prepare host ∧ invocation.Runs code := by
  rw [Step.invoke?] at hinvoke
  split at hinvoke
  · rename_i result after hcall
    cases hinvoke
    exact ⟨rfl, hcall⟩
  · cases hinvoke

/-- Makes one call after another.  A call that faults is passed over. -/
def replay (code : ActorCode σ) (host : Host σ) :
    List (Step σ) → List (Invocation σ) × Host σ
  | [] => ([], host)
  | step :: rest =>
    match step.invoke? code host with
    | some invocation =>
      let (calls, last) := replay code invocation.after rest
      (invocation :: calls, last)
    | none => replay code (step.prepare host) rest

private theorem history_append_replay {code : ActorCode σ} {moves : Host σ → Host σ → Prop}
    {start host : Host σ} {calls : List (Invocation σ)}
    (past : History code moves start calls host) {steps : List (Step σ)}
    (hsteps : ∀ step ∈ steps, ∀ host, moves host (step.prepare host)) :
    History code moves start (calls ++ (replay code host steps).1)
      (replay code host steps).2 := by
  induction steps generalizing calls host with
  | nil => simpa [replay] using past
  | cons step rest ih =>
      obtain ⟨hstep, hrest⟩ := List.forall_mem_cons.mp hsteps
      have hmoved := past.moved (hstep host)
      rw [replay]
      split
      · rename_i invocation hinvoke
        obtain ⟨hbefore, hruns⟩ := Step.runs_of_invoke? hinvoke
        rw [← hbefore] at hmoved
        simpa using ih (hmoved.called hruns) hrest
      · exact ih hmoved hrest

theorem history_replay (code : ActorCode σ) {moves : Host σ → Host σ → Prop}
    (start : Host σ) {steps : List (Step σ)}
    (hsteps : ∀ step ∈ steps, ∀ host, moves host (step.prepare host)) :
    History code moves start (replay code start steps).1 (replay code start steps).2 :=
  history_append_replay .begun hsteps

theorem runs_of_mem_replay (code : ActorCode σ) (start : Host σ) (steps : List (Step σ)) :
    ∀ call ∈ (replay code start steps).1, call.Runs code := by
  have history : History code (fun _ _ => True) start (replay code start steps).1
      (replay code start steps).2 := history_replay code start fun _ _ _ => trivial
  exact history.runs_of_mem

theorem length_replay_le (code : ActorCode σ) (host : Host σ) (steps : List (Step σ)) :
    (replay code host steps).1.length ≤ steps.length := by
  induction steps generalizing host with
  | nil => exact Nat.le_refl 0
  | cons step rest ih =>
      rw [replay]
      split
      · exact Nat.succ_le_succ (ih _)
      · exact Nat.le_succ_of_le (ih _)

private theorem deliveries_append_replay {code : ActorCode σ}
    {arrives : Host σ → Host σ → Prop} {start host : Host σ} {calls : List (Invocation σ)}
    (past : Deliveries code arrives start calls host) {steps : List (Step σ)}
    (hsteps : ∀ step ∈ steps, ∀ host, arrives host (step.prepare host))
    (hall : (replay code host steps).1.length = steps.length) :
    Deliveries code arrives start (calls ++ (replay code host steps).1)
      (replay code host steps).2 := by
  induction steps generalizing calls host with
  | nil => simpa [replay] using past
  | cons step rest ih =>
      obtain ⟨hstep, hrest⟩ := List.forall_mem_cons.mp hsteps
      rw [replay] at hall ⊢
      cases hinvoke : step.invoke? code host with
      | some invocation =>
          obtain ⟨hbefore, hruns⟩ := Step.runs_of_invoke? hinvoke
          have harrives : arrives host invocation.before := hbefore ▸ hstep host
          rw [hinvoke] at hall
          simpa using ih (past.delivered harrives hruns) hrest (Nat.succ_inj.mp hall)
      | none =>
          rw [hinvoke] at hall
          have hshort := length_replay_le code (step.prepare host) rest
          exact absurd hall (Nat.ne_of_lt (Nat.lt_succ_of_le hshort))

/-- A replay in which no call faults delivers all of them. -/
theorem deliveries_replay (code : ActorCode σ) {arrives : Host σ → Host σ → Prop}
    (start : Host σ) {steps : List (Step σ)}
    (hsteps : ∀ step ∈ steps, ∀ host, arrives host (step.prepare host))
    (hall : (replay code start steps).1.length = steps.length) :
    Deliveries code arrives start (replay code start steps).1 (replay code start steps).2 :=
  deliveries_append_replay .begun hsteps hall

end RewardVesting.Host
