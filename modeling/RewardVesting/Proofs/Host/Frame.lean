import RewardVesting.Host.Call
import RewardVesting.Proofs.Action

namespace RewardVesting.Host

open RewardVesting.Action

variable {σ α : Type} {before after : Host σ}

/-- The host without its records: what it expects, the replies at hand, events and
notices. -/
def bare (host : Host σ) : Host σ :=
  { host with expectations := .none, replies := none, events := [], notices := [] }

/-- Whatever is no record can be read off the bare host. -/
theorem eq_of_bare_eq {field : Host σ → α}
    (hfield : ∀ host : Host σ, field host.bare = field host)
    (hbare : after.bare = before.bare) : field after = field before :=
  calc
    field after = field after.bare := (hfield after).symm
    _ = field before.bare := congrArg field hbare
    _ = field before := hfield before

/-- What an actor reads of its host. -/
structure Alike (before after : Host σ) : Prop where
  state : after.state = before.state
  balance : after.balance = before.balance
  epoch : after.epoch = before.epoch
  policy : after.policy = before.policy
  caller : after.caller = before.caller
  valueReceived : after.valueReceived = before.valueReceived

theorem alike_of_bare_eq (hbare : after.bare = before.bare) : Alike before after where
  state := eq_of_bare_eq (fun _ => rfl) hbare
  balance := eq_of_bare_eq (fun _ => rfl) hbare
  epoch := eq_of_bare_eq (fun _ => rfl) hbare
  policy := eq_of_bare_eq (fun _ => rfl) hbare
  caller := eq_of_bare_eq (fun _ => rfl) hbare
  valueReceived := eq_of_bare_eq (fun _ => rfl) hbare

theorem keeps_of_keeps_bare {β : Type} {action : Run σ β} {field : Host σ → α}
    (hkeeps : action.Keeps bare) (hfield : ∀ host : Host σ, field host.bare = field host) :
    action.Keeps field :=
  fun before result after hends => eq_of_bare_eq hfield (hkeeps before result after hends)

@[simp] theorem keeps_bare_requireInCall : (requireInCall : Run σ Unit).Keeps bare :=
  keeps_read.bind fun _ => (keeps_pure ()).ite (keeps_stop _)

@[simp] theorem keeps_bare_observe (event : Event) :
    (observe event : Run σ Unit).Keeps bare := by
  refine keeps_modify ?_
  intro host
  split <;> rfl

@[simp] theorem keeps_bare_notice (severity : Severity) (text : String) :
    (notice severity text : Run σ Unit).Keeps bare :=
  keeps_modify fun _ => rfl

@[simp] theorem keeps_bare_expect (change : Expectations → Expectations) :
    (expect change : Run σ Unit).Keeps bare :=
  keeps_modify fun _ => rfl

theorem keeps_bare_announce (event : Event) {expectation : Run σ Unit}
    (hexpectation : expectation.Keeps bare) : (announce event expectation).Keeps bare :=
  (keeps_bare_observe event).bind fun _ =>
    keeps_read.bind fun _ => hexpectation.ite (keeps_pure ())

@[simp] theorem keeps_bare_holdsGrant (grant : Grant) :
    (holdsGrant grant : Run σ Bool).Keeps bare :=
  keeps_read.bind fun _ => (keeps_bare_observe _).bind fun _ => keeps_pure _

@[simp] theorem keeps_bare_validateAny : (validateAny : Run σ Unit).Keeps bare :=
  (keeps_bare_announce _ (keeps_bare_expect _)).bind fun _ =>
    keeps_bare_requireInCall.bind fun _ => keeps_read.bind fun _ =>
      (keeps_bare_expect _).ite (keeps_stop _)

@[simp] theorem keeps_bare_validateIs (allowed : List Address) :
    (validateIs allowed : Run σ Unit).Keeps bare := by
  have hexpectation : (expectCallerIs allowed : Run σ Unit).Keeps bare :=
    (keeps_stop _).ite (keeps_bare_expect _)
  refine (keeps_bare_announce _ hexpectation).bind fun _ =>
    keeps_bare_requireInCall.bind fun _ => keeps_read.bind fun _ => ?_
  exact (keeps_stop _).ite
    (((keeps_bare_expect _).bind fun _ => keeps_require _ _).ite (keeps_stop _))

@[simp] theorem keeps_bare_validateKind (allowed : List ActorKind) :
    (validateKind allowed : Run σ Unit).Keeps bare := by
  have hexpectation : (expectCallerKind allowed : Run σ Unit).Keeps bare :=
    (keeps_stop _).ite (keeps_bare_expect _)
  refine (keeps_bare_announce _ hexpectation).bind fun _ =>
    keeps_bare_requireInCall.bind fun _ => keeps_read.bind fun _ => ?_
  exact (keeps_stop _).ite
    (((keeps_bare_expect _).bind fun _ => keeps_require _ _).ite (keeps_stop _))

@[simp] theorem yields_requireInCall {answer : Unit} :
    (requireInCall : Run σ Unit).Yields before answer after ↔
      before.inCall = true ∧ before = after := by
  simp only [requireInCall, yields_bind, yields_read]
  constructor
  · rintro ⟨_, _, ⟨rfl, rfl⟩, hcases⟩
    rcases yields_ite.mp hcases with ⟨hinside, hpure⟩ | ⟨_, hstop⟩
    · exact ⟨hinside, (yields_pure.mp hpure).2⟩
    · exact absurd hstop not_yields_stop
  · rintro ⟨hinside, rfl⟩
    refine ⟨before, before, ⟨rfl, rfl⟩, ?_⟩
    rw [if_pos hinside]
    exact yields_pure.mpr ⟨rfl, rfl⟩

private theorem yields_field {field : Host σ → α} {value : α} :
    (do return field (← read) : Run σ α).Yields before value after ↔
      field before = value ∧ before = after := by
  simp only [yields_bind, yields_read, yields_pure]
  constructor
  · rintro ⟨_, _, ⟨rfl, rfl⟩, rfl, rfl⟩
    exact ⟨rfl, rfl⟩
  · rintro ⟨rfl, rfl⟩
    exact ⟨before, before, ⟨rfl, rfl⟩, rfl, rfl⟩

private theorem yields_inCall_field {field : Host σ → α} {value : α} :
    (do requireInCall; return field (← read) : Run σ α).Yields before value after ↔
      before.inCall = true ∧ field before = value ∧ before = after := by
  rw [yields_bind]
  constructor
  · rintro ⟨_, _, hentered, hfield⟩
    obtain ⟨hinside, rfl⟩ := yields_requireInCall.mp hentered
    exact ⟨hinside, yields_field.mp hfield⟩
  · rintro ⟨hinside, hfield⟩
    exact ⟨(), before, yields_requireInCall.mpr ⟨hinside, rfl⟩, yields_field.mpr hfield⟩

@[simp] theorem yields_currentEpoch {epoch : Int} :
    (currentEpoch : Run σ Int).Yields before epoch after ↔
      before.inCall = true ∧ before.epoch = epoch ∧ before = after :=
  yields_inCall_field

@[simp] theorem yields_currentBalance {balance : Int} :
    (currentBalance : Run σ Int).Yields before balance after ↔
      before.inCall = true ∧ before.balance = balance ∧ before = after :=
  yields_inCall_field

@[simp] theorem yields_currentCaller {caller : Address} :
    (currentCaller : Run σ Address).Yields before caller after ↔
      before.inCall = true ∧ before.caller = caller ∧ before = after :=
  yields_inCall_field

@[simp] theorem yields_currentValue {value : Int} :
    (currentValue : Run σ Int).Yields before value after ↔
      before.inCall = true ∧ before.valueReceived = value ∧ before = after :=
  yields_inCall_field

@[simp] theorem yields_currentPolicy {policy : Policy} :
    (currentPolicy : Run σ Policy).Yields before policy after ↔
      before.policy = policy ∧ before = after :=
  yields_field

@[simp] theorem yields_currentSupply {supply : Int} :
    (currentSupply : Run σ Int).Yields before supply after ↔
      before.circulatingSupply = supply ∧ before = after :=
  yields_field

theorem caller_of_validateIs {allowed : List Address} {answer : Unit}
    (hyields : (validateIs allowed).Yields before answer after) :
    before.caller ∈ allowed := by
  simp only [validateIs, yields_bind, yields_read, yields_ite] at hyields
  obtain ⟨_, announced, hannounce, _, checked, hcheck, host, _, ⟨rfl, rfl⟩, hcases⟩ :=
    hyields
  have hexpectation : (expectCallerIs allowed : Run σ Unit).Keeps bare :=
    (keeps_stop _).ite (keeps_bare_expect _)
  have hbare : checked.bare = before.bare :=
    (keeps_bare_requireInCall.yields hcheck).trans
      ((keeps_bare_announce _ hexpectation).yields hannounce)
  obtain ⟨_, hstop⟩ | ⟨_, ⟨_, _, _, _, hrequire⟩ | ⟨_, hstop⟩⟩ := hcases
  · exact absurd hstop not_yields_stop
  · have hcaller : checked.caller = before.caller := eq_of_bare_eq (fun _ => rfl) hbare
    exact hcaller ▸ (yields_require.mp hrequire).1
  · exact absurd hstop not_yields_stop

theorem callerKind_of_validateKind {allowed : List ActorKind} {answer : Unit}
    (hyields : (validateKind allowed).Yields before answer after) :
    before.callerKind ∈ allowed := by
  simp only [validateKind, yields_bind, yields_read, yields_ite] at hyields
  obtain ⟨_, announced, hannounce, _, checked, hcheck, host, _, ⟨rfl, rfl⟩, hcases⟩ :=
    hyields
  have hexpectation : (expectCallerKind allowed : Run σ Unit).Keeps bare :=
    (keeps_stop _).ite (keeps_bare_expect _)
  have hbare : checked.bare = before.bare :=
    (keeps_bare_requireInCall.yields hcheck).trans
      ((keeps_bare_announce _ hexpectation).yields hannounce)
  obtain ⟨_, hstop⟩ | ⟨_, ⟨_, _, _, _, hrequire⟩ | ⟨_, hstop⟩⟩ := hcases
  · exact absurd hstop not_yields_stop
  · have hkind : checked.callerKind = before.callerKind :=
      eq_of_bare_eq (fun _ => rfl) hbare
    exact hkind ▸ (yields_require.mp hrequire).1
  · exact absurd hstop not_yields_stop

end RewardVesting.Host
