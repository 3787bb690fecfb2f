import RewardVesting.Action

namespace RewardVesting.Action

variable {σ ε ε' α β τ ν : Type}

/-- From `before`, the action ends in `after` with a value or a refusal. -/
def Ends (action : Action σ ε α) (before : σ) (result : Except ε α) (after : σ) : Prop :=
  action before = .ok (result, after)

/-- From `before`, the action answers `value` and ends in `after`. -/
def Yields (action : Action σ ε α) (before : σ) (value : α) (after : σ) : Prop :=
  action.Ends before (.ok value) after

/-- From `before`, the action is refused for `cause` and ends in `after`. -/
def Refuses (action : Action σ ε α) (before : σ) (cause : ε) (after : σ) : Prop :=
  action.Ends before (.error cause) after

/-! What each operation must have done to have answered. -/

variable {before after : σ} {value : α}

@[simp] theorem yields_pure {answer : α} :
    (pure answer : Action σ ε α).Yields before value after ↔
      answer = value ∧ before = after := by
  simp [Yields, Ends]

@[simp] theorem yields_bind {first : Action σ ε α} {next : α → Action σ ε β} {answer : β} :
    (first >>= next).Yields before answer after ↔
      ∃ middle changed, first.Yields before middle changed ∧
        (next middle).Yields changed answer after := by
  constructor
  · intro hyields
    simp only [Yields, Ends, bind_apply] at hyields
    split at hyields
    · cases hyields
    · cases hyields
    · rename_i middle changed hfirst
      exact ⟨middle, changed, hfirst, hyields⟩
  · rintro ⟨middle, changed, hfirst, hnext⟩
    simp only [Yields, Ends] at hfirst
    simp only [Yields, Ends, bind_apply, hfirst]
    exact hnext

@[simp] theorem yields_read {answer : σ} :
    (read : Action σ ε σ).Yields before answer after ↔
      before = answer ∧ before = after := by
  simp [Yields, Ends]

@[simp] theorem yields_write {replacement : σ} {answer : Unit} :
    (write replacement : Action σ ε Unit).Yields before answer after ↔
      replacement = after := by
  simp [Yields, Ends]

@[simp] theorem yields_modify {change : σ → σ} {answer : Unit} :
    (modify change : Action σ ε Unit).Yields before answer after ↔
      change before = after := by
  simp [Yields, Ends]

@[simp] theorem not_yields_refuse {cause : ε} :
    ¬(refuse cause : Action σ ε α).Yields before value after := by
  simp [Yields, Ends]

@[simp] theorem not_yields_stop {fault : Fault} :
    ¬(stop fault : Action σ ε α).Yields before value after := by
  simp [Yields, Ends]

@[simp] theorem yields_checked {result : Except Fault α} :
    (liftM result : Action σ ε α).Yields before value after ↔
      result = .ok value ∧ before = after := by
  cases result with
  | error fault => exact ⟨nofun, nofun⟩
  | ok answer =>
      change Except.ok (Except.ok answer, before) = Except.ok (Except.ok value, after) ↔ _
      simp

@[simp] theorem yields_ofExcept {result : Except ε α} :
    (ofExcept result : Action σ ε α).Yields before value after ↔
      result = .ok value ∧ before = after := by
  simp [Yields, Ends]

@[simp] theorem yields_require {condition : Prop} [Decidable condition] {cause : ε}
    {answer : Unit} :
    (require condition cause : Action σ ε Unit).Yields before answer after ↔
      condition ∧ before = after := by
  by_cases hcondition : condition
  · simp only [require, hcondition, if_true, true_and]
    exact yields_pure.trans (and_iff_right rfl)
  · simp [require, hcondition]

theorem yields_ite {condition : Prop} [Decidable condition]
    {positive negative : Action σ ε α} :
    (if condition then positive else negative).Yields before value after ↔
      condition ∧ positive.Yields before value after ∨
        ¬condition ∧ negative.Yields before value after := by
  by_cases hcondition : condition <;> simp [hcondition]

@[simp] theorem yields_mapError {convert : ε → ε'} {action : Action σ ε α} :
    (action.mapError convert).Yields before value after ↔
      action.Yields before value after := by
  simp only [Yields, Ends, mapError]
  cases action before with
  | error fault => exact ⟨nofun, nofun⟩
  | ok ending =>
      obtain ⟨result, changed⟩ := ending
      cases result with
      | error cause => exact ⟨nofun, nofun⟩
      | ok answer =>
          constructor
          · intro hconverted
            cases hconverted
            rfl
          · intro hanswered
            cases hanswered
            rfl

@[simp] theorem yields_attempt {action : Action σ ε α} {result : Except ε α} :
    (action.attempt : Action σ ε' (Except ε α)).Yields before result after ↔
      action.Ends before result after := by
  simp only [Yields, Ends, attempt]
  cases action before with
  | error fault => exact ⟨nofun, nofun⟩
  | ok ending => simp [Except.map, Prod.ext_iff]

@[simp] theorem yields_runOn {start : τ} {action : Action τ ε α} {answer : α × τ} :
    (action.runOn start : Action σ ε (α × τ)).Yields before answer after ↔
      action.Yields start answer.1 answer.2 ∧ before = after := by
  obtain ⟨value, changed⟩ := answer
  simp only [Yields, Ends, runOn]
  cases action start with
  | error fault => exact ⟨nofun, nofun⟩
  | ok ending =>
      obtain ⟨result, final⟩ := ending
      cases result <;> simp [Except.map]

theorem Yields.unique {action : Action σ ε α} {other : α} {final : σ}
    (hyields : action.Yields before value after)
    (hagain : action.Yields before other final) :
    value = other ∧ after = final := by
  cases hyields.symm.trans hagain
  exact ⟨rfl, rfl⟩

/-- Whether the action answers, for actions that are run on what is known. -/
def answers (action : Action σ ε α) (before : σ) : Bool :=
  match action before with
  | .ok (.ok _, _) => true
  | _ => false

theorem exists_yields_of_answers {action : Action σ ε α}
    (hanswers : action.answers before) :
    ∃ value after, action.Yields before value after := by
  rw [answers] at hanswers
  split at hanswers
  · rename_i value after hends
    exact ⟨value, after, hends⟩
  · cases hanswers

/-- Whether the action answers, and leaves a state of which this holds. -/
def answersWith (action : Action σ ε α) (before : σ) (holds : σ → Bool) : Bool :=
  (action before).toOption.any fun ending => ending.1.toBool && holds ending.2

theorem toOption_eq_some {result : Except ε α} {answer : α} :
    result.toOption = some answer ↔ result = .ok answer := by
  cases result <;> simp [Except.toOption]

theorem exists_yields_of_answersWith {action : Action σ ε α} {holds : σ → Bool}
    (hanswers : action.answersWith before holds) :
    ∃ value after, action.Yields before value after ∧ holds after := by
  obtain ⟨⟨result, after⟩, hoption, hholds⟩ := Option.any_eq_true _ _ |>.mp hanswers
  obtain ⟨hresult, hafter⟩ := Bool.and_eq_true_iff.mp hholds
  have hends : action.Ends before result after := toOption_eq_some.mp hoption
  cases result with
  | error cause => cases hresult
  | ok value => exact ⟨value, after, hends, hafter⟩

/-! Where an action that is refused was refused. -/

variable {cause : ε}

@[simp] theorem not_refuses_pure {answer : α} :
    ¬(pure answer : Action σ ε α).Refuses before cause after := by
  simp [Refuses, Ends]

@[simp] theorem refuses_bind {first : Action σ ε α} {next : α → Action σ ε β} :
    (first >>= next).Refuses before cause after ↔
      first.Refuses before cause after ∨
        ∃ middle changed, first.Yields before middle changed ∧
          (next middle).Refuses changed cause after := by
  constructor
  · intro hrefuses
    simp only [Refuses, Ends, bind_apply] at hrefuses
    split at hrefuses
    · cases hrefuses
    · rename_i refusal changed hfirst
      cases hrefuses
      exact .inl hfirst
    · rename_i middle changed hfirst
      exact .inr ⟨middle, changed, hfirst, hrefuses⟩
  · rintro (hfirst | ⟨middle, changed, hfirst, hnext⟩)
    · simp only [Refuses, Ends] at hfirst
      simp only [Refuses, Ends, bind_apply, hfirst]
    · simp only [Yields, Ends] at hfirst
      simp only [Refuses, Ends, bind_apply, hfirst]
      exact hnext

@[simp] theorem not_refuses_read : ¬(read : Action σ ε σ).Refuses before cause after := by
  simp [Refuses, Ends]

@[simp] theorem not_refuses_write {replacement : σ} :
    ¬(write replacement : Action σ ε Unit).Refuses before cause after := by
  simp [Refuses, Ends]

@[simp] theorem not_refuses_modify {change : σ → σ} :
    ¬(modify change : Action σ ε Unit).Refuses before cause after := by
  simp [Refuses, Ends]

@[simp] theorem refuses_refuse {reason : ε} :
    (refuse reason : Action σ ε α).Refuses before cause after ↔
      reason = cause ∧ before = after := by
  simp [Refuses, Ends]

@[simp] theorem not_refuses_stop {fault : Fault} :
    ¬(stop fault : Action σ ε α).Refuses before cause after := by
  simp [Refuses, Ends]

@[simp] theorem not_refuses_checked {result : Except Fault α} :
    ¬(liftM result : Action σ ε α).Refuses before cause after := by
  cases result with
  | error fault => exact nofun
  | ok answer => exact nofun

@[simp] theorem refuses_ofExcept {result : Except ε α} :
    (ofExcept result : Action σ ε α).Refuses before cause after ↔
      result = .error cause ∧ before = after := by
  simp [Refuses, Ends]

@[simp] theorem refuses_require {condition : Prop} [Decidable condition] {reason : ε} :
    (require condition reason : Action σ ε Unit).Refuses before cause after ↔
      ¬condition ∧ reason = cause ∧ before = after := by
  by_cases hcondition : condition
  · simp only [require, hcondition, if_true, not_true_eq_false, false_and, iff_false]
    exact not_refuses_pure
  · simp [require, hcondition]

theorem refuses_ite {condition : Prop} [Decidable condition]
    {positive negative : Action σ ε α} :
    (if condition then positive else negative).Refuses before cause after ↔
      condition ∧ positive.Refuses before cause after ∨
        ¬condition ∧ negative.Refuses before cause after := by
  by_cases hcondition : condition <;> simp [hcondition]

@[simp] theorem refuses_mapError {convert : ε → ε'} {action : Action σ ε α}
    {converted : ε'} : (action.mapError convert).Refuses before converted after ↔
      ∃ reason, action.Refuses before reason after ∧ convert reason = converted := by
  simp only [Refuses, Ends, mapError]
  cases action before with
  | error fault => simp [Except.map]
  | ok ending =>
      obtain ⟨result, changed⟩ := ending
      cases result with
      | error reason =>
          constructor
          · intro hconverted
            cases hconverted
            exact ⟨reason, rfl, rfl⟩
          · rintro ⟨_, hrefused, rfl⟩
            cases hrefused
            rfl
      | ok answer => exact iff_of_false nofun fun ⟨_, hrefused, _⟩ => nomatch hrefused

@[simp] theorem not_refuses_attempt {action : Action σ ε α} {reason : ε'} :
    ¬(action.attempt : Action σ ε' (Except ε α)).Refuses before reason after := by
  simp only [Refuses, Ends, attempt]
  cases action before <;> simp [Except.map]

@[simp] theorem refuses_runOn {start : τ} {action : Action τ ε α} :
    (action.runOn start : Action σ ε (α × τ)).Refuses before cause after ↔
      ∃ changed, action.Refuses start cause changed ∧ before = after := by
  simp only [Refuses, Ends, runOn]
  cases action start with
  | error fault => simp [Except.map]
  | ok ending =>
      obtain ⟨result, changed⟩ := ending
      cases result <;> simp [Except.map]

theorem Yields.bind {first : Action σ ε α} {next : α → Action σ ε β} {middle : α}
    {changed : σ} {result : Except ε β} (hfirst : first.Yields before middle changed)
    (hnext : (next middle).Ends changed result after) :
    (first >>= next).Ends before result after := by
  simp only [Yields, Ends] at hfirst
  simp only [Ends, bind_apply, hfirst]
  exact hnext

theorem Yields.andThen {first : Action σ ε Unit} {next : Unit → Action σ ε β} {changed : σ}
    {result : Except ε β} (hfirst : first.Yields before () changed)
    (hnext : (next ()).Ends changed result after) :
    (first >>= next).Ends before result after :=
  hfirst.bind hnext

theorem ends_read_bind {next : σ → Action σ ε β} {result : Except ε β}
    (hnext : (next before).Ends before result after) :
    (read >>= next).Ends before result after :=
  Yields.bind (yields_read.mpr ⟨rfl, rfl⟩) hnext

theorem Ends.bind_refused {first : Action σ ε α} {next : α → Action σ ε β} {cause : ε}
    (hfirst : first.Ends before (.error cause) after) :
    (first >>= next).Ends before (.error cause) after := by
  simp only [Ends] at hfirst
  simp only [Ends, bind_apply, hfirst]

theorem ends_require_of_not {condition : Prop} [Decidable condition] {cause : ε}
    (hcondition : ¬condition) :
    (require condition cause : Action σ ε Unit).Ends before (.error cause) before := by
  rw [require, if_neg hcondition]
  exact rfl

theorem Ends.attempt {action : Action σ ε α} {result : Except ε α}
    (hends : action.Ends before result after) :
    (action.attempt : Action σ ε' (Except ε α)).Yields before result after :=
  yields_attempt.mpr hends

/-- From `before`, the action answers or is refused. -/
def Halts (action : Action σ ε α) (before : σ) : Prop :=
  ∃ result after, action.Ends before result after

theorem halts_iff {action : Action σ ε α} :
    action.Halts before ↔ ∀ fault, action before ≠ .error fault := by
  simp only [Halts, Ends]
  cases action before with
  | error fault => simp
  | ok ending =>
      obtain ⟨result, after⟩ := ending
      simp

theorem Halts.yields_or_refuses {action : Action σ ε α} (hhalts : action.Halts before) :
    (∃ value after, action.Yields before value after) ∨
      ∃ cause after, action.Refuses before cause after := by
  obtain ⟨result, after, hends⟩ := hhalts
  cases result with
  | error cause => exact .inr ⟨cause, after, hends⟩
  | ok value => exact .inl ⟨value, after, hends⟩

@[simp] theorem halts_pure {answer : α} : (pure answer : Action σ ε α).Halts before :=
  ⟨_, _, rfl⟩

@[simp] theorem halts_read : (read : Action σ ε σ).Halts before :=
  ⟨_, _, rfl⟩

@[simp] theorem halts_write {replacement : σ} :
    (write replacement : Action σ ε Unit).Halts before :=
  ⟨_, _, rfl⟩

@[simp] theorem halts_modify {change : σ → σ} :
    (modify change : Action σ ε Unit).Halts before :=
  ⟨_, _, rfl⟩

@[simp] theorem halts_refuse {cause : ε} : (refuse cause : Action σ ε α).Halts before :=
  ⟨_, _, rfl⟩

@[simp] theorem halts_ofExcept {result : Except ε α} :
    (ofExcept result : Action σ ε α).Halts before :=
  ⟨_, _, rfl⟩

@[simp] theorem halts_checked {result : Except Fault α} :
    (liftM result : Action σ ε α).Halts before ↔ ∃ value, result = .ok value := by
  rw [halts_iff]
  cases result with
  | error fault => exact iff_of_false (fun hnone => hnone fault rfl) nofun
  | ok value => exact iff_of_true nofun ⟨value, rfl⟩

theorem Halts.bind {first : Action σ ε α} {next : α → Action σ ε β}
    (hfirst : first.Halts before)
    (hnext : ∀ middle changed, first.Yields before middle changed →
      (next middle).Halts changed) :
    (first >>= next).Halts before := by
  obtain ⟨result, changed, hends⟩ := hfirst
  cases result with
  | error cause => exact ⟨_, changed, refuses_bind.mpr (.inl hends)⟩
  | ok middle =>
      obtain ⟨result, after, hafter⟩ := hnext middle changed hends
      exact ⟨result, after, Yields.bind hends hafter⟩

theorem Halts.ite {condition : Prop} [Decidable condition]
    {positive negative : Action σ ε α} (hpositive : condition → positive.Halts before)
    (hnegative : ¬condition → negative.Halts before) :
    (if condition then positive else negative).Halts before := by
  split
  · rename_i hcondition
    exact hpositive hcondition
  · rename_i hcondition
    exact hnegative hcondition

@[simp] theorem halts_require {condition : Prop} [Decidable condition] {cause : ε} :
    (require condition cause : Action σ ε Unit).Halts before :=
  Halts.ite (fun _ => halts_pure) fun _ => halts_refuse

@[simp] theorem halts_mapError {convert : ε → ε'} {action : Action σ ε α} :
    (action.mapError convert).Halts before ↔ action.Halts before := by
  rw [halts_iff, halts_iff, mapError]
  cases action before with
  | error fault => simp [Except.map]
  | ok ending => simp [Except.map]

@[simp] theorem halts_runOn {start : τ} {action : Action τ ε α} :
    (action.runOn start : Action σ ε (α × τ)).Halts before ↔ action.Halts start := by
  rw [halts_iff, halts_iff, runOn]
  cases action start with
  | error fault => simp [Except.map]
  | ok ending => simp [Except.map]

/-! Which faults an action can end in. -/

/-- From `before`, the action faults. -/
def Faults (action : Action σ ε α) (before : σ) (fault : Fault) : Prop :=
  action before = .error fault

variable {fault : Fault}

theorem faults_bind {first : Action σ ε α} {next : α → Action σ ε β} :
    (first >>= next).Faults before fault ↔
      first.Faults before fault ∨
        ∃ middle changed, first.Yields before middle changed ∧
          (next middle).Faults changed fault := by
  simp only [Faults, Yields, Ends, bind_apply]
  cases first before with
  | error other => simp
  | ok ending =>
      obtain ⟨result, changed⟩ := ending
      cases result with
      | error cause => simp
      | ok middle => simp [and_assoc]

@[simp] theorem not_faults_pure {answer : α} :
    ¬(pure answer : Action σ ε α).Faults before fault := nofun

@[simp] theorem not_faults_read : ¬(read : Action σ ε σ).Faults before fault := nofun

@[simp] theorem not_faults_write {replacement : σ} :
    ¬(write replacement : Action σ ε Unit).Faults before fault := nofun

@[simp] theorem not_faults_modify {change : σ → σ} :
    ¬(modify change : Action σ ε Unit).Faults before fault := nofun

@[simp] theorem not_faults_require {condition : Prop} [Decidable condition] {cause : ε} :
    ¬(require condition cause : Action σ ε Unit).Faults before fault := by
  rw [require]
  split <;> exact nofun

@[simp] theorem faults_checked {result : Except Fault α} :
    (liftM result : Action σ ε α).Faults before fault ↔ result = .error fault := by
  cases result with
  | error other =>
      change Except.error other = Except.error fault ↔ _
      simp
  | ok answer => exact iff_of_false nofun nofun

/-! What an action leaves as it was, whether it answers or refuses. -/

/-- The action does not change what `view` shows of the state. -/
def Keeps (view : σ → ν) (action : Action σ ε α) : Prop :=
  ∀ before result after, action.Ends before result after → view after = view before

variable {view : σ → ν}

theorem Keeps.yields {action : Action σ ε α} (hkeeps : action.Keeps view)
    (hyields : action.Yields before value after) : view after = view before :=
  hkeeps before (.ok value) after hyields

theorem keeps_of_unchanged {action : Action σ ε α}
    (hunchanged : ∀ before result after, action.Ends before result after → after = before) :
    action.Keeps view :=
  fun before result after hends => congrArg view (hunchanged before result after hends)

@[simp] theorem keeps_pure (answer : α) : (pure answer : Action σ ε α).Keeps view := by
  refine keeps_of_unchanged ?_
  intro before result after hends
  cases hends
  rfl

@[simp] theorem keeps_read : (read : Action σ ε σ).Keeps view := by
  refine keeps_of_unchanged ?_
  intro before result after hends
  cases hends
  rfl

@[simp] theorem keeps_refuse (cause : ε) : (refuse cause : Action σ ε α).Keeps view := by
  refine keeps_of_unchanged ?_
  intro before result after hends
  cases hends
  rfl

@[simp] theorem keeps_stop (fault : Fault) : (stop fault : Action σ ε α).Keeps view :=
  fun _ _ _ hends => nomatch hends

@[simp] theorem keeps_ofExcept (result : Except ε α) :
    (ofExcept result : Action σ ε α).Keeps view := by
  refine keeps_of_unchanged ?_
  intro before result after hends
  cases hends
  rfl

@[simp] theorem keeps_require (condition : Prop) [Decidable condition] (cause : ε) :
    (require condition cause : Action σ ε Unit).Keeps view := by
  rw [require]
  split
  · exact keeps_pure ()
  · exact keeps_refuse cause

theorem keeps_modify {change : σ → σ}
    (hchange : ∀ state, view (change state) = view state) :
    (modify change : Action σ ε Unit).Keeps view := by
  intro before result after hends
  cases hends
  exact hchange before

theorem Keeps.bind {first : Action σ ε α} {next : α → Action σ ε β}
    (hfirst : first.Keeps view)
    (hnext : ∀ middle, (next middle).Keeps view) : (first >>= next).Keeps view := by
  intro before result after hends
  simp only [Ends, bind_apply] at hends
  split at hends
  · cases hends
  · rename_i cause changed hrefused
    cases hends
    exact hfirst before _ _ hrefused
  · rename_i middle changed hmiddle
    exact (hnext middle changed result after hends).trans (hfirst before _ _ hmiddle)

theorem Keeps.attempt {action : Action σ ε α} (hkeeps : action.Keeps view) :
    (action.attempt : Action σ ε' (Except ε α)).Keeps view := by
  intro before result after hends
  simp only [Ends, Action.attempt] at hends
  cases haction : action before with
  | error fault =>
      rw [haction] at hends
      cases hends
  | ok ending =>
      rw [haction] at hends
      cases hends
      exact hkeeps before _ _ haction

theorem Keeps.ite {condition : Prop} [Decidable condition]
    {positive negative : Action σ ε α}
    (hpositive : positive.Keeps view) (hnegative : negative.Keeps view) :
    (if condition then positive else negative).Keeps view := by
  split
  · exact hpositive
  · exact hnegative

end RewardVesting.Action
