import Mathlib.Algebra.Ring.Int.Defs
import RewardVesting.Proofs.Epoch
import RewardVesting.Proofs.Reward.Effect
import RewardVesting.Proofs.Wire.RoundTrip

namespace RewardVesting

namespace Reward

open Host Wire

namespace State

variable {state advanced : State} {epoch : Int}

def Current (state : State) : Prop :=
  Minting.epochReward state.epoch = .ok state.epochReward

theorem current_initial : initial.Current := rfl

structure Advanced (state : State) (epoch : Int) (advanced : State) : Prop where
  epoch : advanced.epoch = max state.epoch epoch
  realizedPower : advanced.realizedPower = state.realizedPower
  totals : advanced.totals = state.totals
  current : state.Current → advanced.Current

theorem advanced_of_advanceTo (hadvance : state.advanceTo epoch = .ok advanced) :
    Advanced state epoch advanced := by
  rw [advanceTo] at hadvance
  split at hadvance
  · rename_i hlater
    cases hreward : Minting.epochReward epoch with
    | error fault => simp [hreward, bind, Except.bind] at hadvance
    | ok reward =>
        simp only [hreward, bind, Except.bind] at hadvance
        cases hadvance
        exact ⟨by dsimp only; omega, rfl, rfl, fun _ => hreward⟩
  · rename_i hreached
    cases hadvance
    exact ⟨by omega, rfl, rfl, fun hcurrent => hcurrent⟩

/-- Steps forward one epoch at a time, each with its reward. -/
def stepBy : (epochs : Nat) → State → Except Fault State
  | 0, state => .ok state
  | epochs + 1, state => do
    let epoch ← Epoch.add state.epoch 1
    let reward ← Minting.epochReward epoch
    stepBy epochs { state with epochReward := reward, epoch := epoch }

/-- Going to an epoch at once is stepping through all those before it, faults included. -/
theorem stepBy_eq_advanceTo (hlow : Epoch.lowest ≤ state.epoch)
    (hhigh : epoch ≤ Epoch.highest) :
    stepBy (epoch - state.epoch).toNat state = state.advanceTo epoch := by
  obtain ⟨epochs, hepochs⟩ : ∃ epochs, (epoch - state.epoch).toNat = epochs := ⟨_, rfl⟩
  rw [hepochs]
  induction epochs generalizing state with
  | zero => rw [stepBy, advanceTo, if_neg (by omega)]
  | succ epochs ih =>
      have hlater : state.epoch < epoch := by omega
      rw [stepBy, Epoch.add_of_representable ⟨by omega, by omega⟩, advanceTo, if_pos hlater]
      by_cases hlast : state.epoch + 1 = epoch
      · obtain rfl : epochs = 0 := by omega
        rw [hlast]
        rfl
      · have hreward : Minting.epochReward (state.epoch + 1) =
            .ok (Minting.rewardOf (state.epoch + 1)) :=
          Minting.epochReward_of_representable ⟨by omega, by omega⟩
        simp only [hreward, bind, Except.bind]
        rw [ih (by dsimp only; omega) (by dsimp only; omega), advanceTo,
          if_pos (by dsimp only; omega)]
        rfl

theorem stepBy_of_advanceTo (hlow : Epoch.lowest ≤ state.epoch)
    (hadvance : state.advanceTo epoch = .ok advanced) :
    stepBy (epoch - state.epoch).toNat state = .ok advanced := by
  by_cases hlater : state.epoch < epoch
  · rw [← hadvance]
    refine stepBy_eq_advanceTo hlow ?_
    rw [advanceTo, if_pos hlater] at hadvance
    cases hreward : Minting.epochReward epoch with
    | error fault => simp [hreward, bind, Except.bind] at hadvance
    | ok reward =>
        have hhigh := (Minting.epochReward_eq_ok.mp hreward).1.2
        omega
  · rw [advanceTo, if_neg hlater] at hadvance
    rw [show (epoch - state.epoch).toNat = 0 by omega, stepBy]
    exact hadvance

end State

theorem readsBack_delivery : Delivery.format.ReadsBack 1 := by
  have hamount := Format.readsBack_amount
  exact ((hamount.pair (hamount.pair (hamount.pair (hamount.pair (hamount.pair
    (hamount.pair hamount)))))).tuple 7).record Delivery.layout

def updateOf? (call : Invocation State) : Option NetworkUpdate :=
  if call.method = Method.updateNetwork ∧ call.result.toBool then
    (NetworkUpdate.format.methodParameters call.params).toOption
  else none

def deliveryOf? (call : Invocation State) : Option Delivery :=
  if call.method = Method.award then
    call.result.toOption.bind fun returned => (Delivery.format.decode returned).toOption
  else none

/-- The epochs of updates, and what they reported. -/
def updates (calls : List (Invocation State)) : List (Int × NetworkUpdate) :=
  calls.filterMap fun call => (updateOf? call).map fun update => (call.before.epoch, update)

def deliveries (calls : List (Invocation State)) : List Delivery :=
  calls.filterMap deliveryOf?

def latestEpoch (calls : List (Invocation State)) : Int :=
  ((updates calls).map Prod.fst).foldl max 0

def reportedPower (calls : List (Invocation State)) : Int :=
  ((updates calls).getLast?.map fun (_, update) => update.realizedPower).getD 0

def deliveredTotals (calls : List (Invocation State)) : Totals where
  power := ((deliveries calls).map Delivery.power).sum
  vote := ((deliveries calls).map Delivery.vote).sum
  expert := ((deliveries calls).map Delivery.expert).sum
  knowledge := ((deliveries calls).map Delivery.knowledge).sum
  retrieval := ((deliveries calls).map Delivery.bandwidth).sum

section Calls

variable {start host : Host State} {calls : List (Invocation State)}
  {call : Invocation State} {state : State}

theorem updateOf?_of_other (hmethod : call.method ≠ Method.updateNetwork) :
    updateOf? call = none :=
  if_neg fun hupdates => hmethod hupdates.1

theorem deliveryOf?_of_other (hmethod : call.method ≠ Method.award) :
    deliveryOf? call = none :=
  if_neg hmethod

theorem untold_of_refused {failure : Failure} (hresult : call.result = .error failure) :
    updateOf? call = none ∧ deliveryOf? call = none := by
  constructor
  · refine if_neg fun hupdates => ?_
    rw [hresult] at hupdates
    cases hupdates.2
  · rw [deliveryOf?, hresult]
    split <;> rfl

theorem updates_append (calls : List (Invocation State)) (call : Invocation State) :
    updates (calls ++ [call]) = updates calls ++
      ((updateOf? call).map fun update => (call.before.epoch, update)).toList :=
  filterMap_concat _ calls call

theorem deliveries_append (calls : List (Invocation State)) (call : Invocation State) :
    deliveries (calls ++ [call]) = deliveries calls ++ (deliveryOf? call).toList :=
  filterMap_concat deliveryOf? calls call

theorem updates_append_of_none (hupdate : updateOf? call = none) :
    updates (calls ++ [call]) = updates calls := by
  rw [updates_append, hupdate, Option.map_none, Option.toList_none, List.append_nil]

theorem deliveries_append_of_none (hdelivery : deliveryOf? call = none) :
    deliveries (calls ++ [call]) = deliveries calls := by
  rw [deliveries_append, hdelivery, Option.toList_none, List.append_nil]

theorem deliveryOf?_of_award {returned : Bytes} {delivery : Delivery}
    (hmethod : call.method = Method.award) (hresult : call.result = .ok returned)
    (hreturned : Delivery.format.encode delivery = .ok returned) :
    deliveryOf? call = some delivery := by
  rw [deliveryOf?, if_pos hmethod, hresult]
  simp only [Except.toOption, Option.bind_some,
    readsBack_delivery.decode (by decide) hreturned]

theorem updateOf?_of_update {returned : Bytes} {update : NetworkUpdate}
    (hmethod : call.method = Method.updateNetwork) (hresult : call.result = .ok returned)
    (hupdate : NetworkUpdate.format.methodParameters call.params = .ok update) :
    updateOf? call = some update := by
  rw [updateOf?, if_pos ⟨hmethod, by rw [hresult]; rfl⟩, hupdate]
  rfl

/-- The state after these calls, in terms of what they told and were told. -/
structure Bookkept (calls : List (Invocation State)) (state : State) : Prop where
  epoch : state.epoch = latestEpoch calls
  epochReward : Minting.epochReward state.epoch = .ok state.epochReward
  realizedPower : state.realizedPower = reportedPower calls
  totals : state.totals = deliveredTotals calls

/-- As long as nothing is stored, nothing has been told. -/
def Recorded (calls : List (Invocation State)) : Option (Link State) → Prop
  | none => updates calls = [] ∧ deliveries calls = []
  | some .missing => False
  | some (.held state) => Bookkept calls state

theorem recorded_of_bookkept (hstate : host.state = some (.held state))
    (hkept : Bookkept calls state) : Recorded calls host.state := by
  rw [hstate]
  exact hkept

theorem bookkept_of_recorded (hrecorded : Recorded calls host.state)
    (hstate : host.state = some (.held state)) : Bookkept calls state := by
  rwa [hstate] at hrecorded

theorem recorded_of_untold {stored : Option (Link State)} (hupdate : updateOf? call = none)
    (hdelivery : deliveryOf? call = none) (hrecorded : Recorded calls stored) :
    Recorded (calls ++ [call]) stored := by
  have hupdates : updates (calls ++ [call]) = updates calls :=
    updates_append_of_none hupdate
  have hdeliveries : deliveries (calls ++ [call]) = deliveries calls :=
    deliveries_append_of_none hdelivery
  cases stored with
  | none => exact ⟨hupdates.trans hrecorded.1, hdeliveries.trans hrecorded.2⟩
  | some link =>
      cases link with
      | missing => exact hrecorded
      | held state =>
          obtain ⟨hepoch, hreward, hpower, htotals⟩ := hrecorded
          constructor
          · rw [latestEpoch, hupdates]
            exact hepoch
          · exact hreward
          · rw [reportedPower, hupdates]
            exact hpower
          · rw [deliveredTotals, hdeliveries]
            exact htotals

theorem bookkept_of_delivery {delivery : Delivery} (hupdate : updateOf? call = none)
    (hdelivery : deliveryOf? call = some delivery) (hkept : Bookkept calls state) :
    Bookkept (calls ++ [call]) (state.record delivery) := by
  have hdeliveries : deliveries (calls ++ [call]) = deliveries calls ++ [delivery] := by
    rw [deliveries_append, hdelivery, Option.toList_some]
  obtain ⟨hepoch, hreward, hpower, htotals⟩ := hkept
  constructor
  · rw [latestEpoch, updates_append_of_none hupdate]
    exact hepoch
  · exact hreward
  · rw [reportedPower, updates_append_of_none hupdate]
    exact hpower
  · rw [State.record, htotals]
    simp [deliveredTotals, hdeliveries]

theorem bookkept_of_update {update : NetworkUpdate} {advanced : State}
    (hupdate : updateOf? call = some update) (hdelivery : deliveryOf? call = none)
    (hadvanced : State.Advanced { state with realizedPower := update.realizedPower }
      call.before.epoch advanced)
    (hkept : Bookkept calls state) : Bookkept (calls ++ [call]) advanced := by
  have hupdates : updates (calls ++ [call]) =
      updates calls ++ [(call.before.epoch, update)] := by
    rw [updates_append, hupdate, Option.map_some, Option.toList_some]
  obtain ⟨hepoch, hreward, hpower, htotals⟩ := hkept
  constructor
  · rw [latestEpoch, hupdates, List.map_append, List.foldl_append, ← latestEpoch, ← hepoch]
    exact hadvanced.epoch
  · exact hadvanced.current hreward
  · rw [reportedPower, hupdates, List.getLast?_concat]
    exact hadvanced.realizedPower
  · rw [deliveredTotals, deliveries_append_of_none hdelivery]
    exact hadvanced.totals.trans htotals

theorem recorded_of_answered {returned : Bytes} (hresult : call.result = .ok returned)
    (heffect : Effect (call.before.entered call.replies) call.method call.params returned
      call.after.state call.after.balance)
    (hrecorded : Recorded calls call.before.state) :
    Recorded (calls ++ [call]) call.after.state := by
  cases heffect with
  | constructed hmethod _ hnone hafter =>
      have hnothing : call.before.state = none := hnone
      rw [hnothing] at hrecorded
      obtain ⟨hupdates, hdeliveries⟩ := recorded_of_untold
        (updateOf?_of_other (by rw [hmethod]; decide))
        (deliveryOf?_of_other (by rw [hmethod]; decide)) hrecorded
      refine recorded_of_bookkept hafter ⟨?_, State.current_initial, ?_, ?_⟩
      · rw [latestEpoch, hupdates]
        rfl
      · rw [reportedPower, hupdates]
        rfl
      · rw [deliveredTotals, hdeliveries]
        rfl
  | told hmethod hafter _ =>
      rw [hafter]
      exact recorded_of_untold (updateOf?_of_other (by rw [hmethod]; decide))
        (deliveryOf?_of_other (by rw [hmethod]; decide)) hrecorded
  | awarded hmethod _ hold hafter hreturned =>
      exact recorded_of_bookkept hafter (bookkept_of_delivery
        (updateOf?_of_other (by rw [hmethod]; decide))
        (deliveryOf?_of_award hmethod hresult hreturned)
          (bookkept_of_recorded hrecorded hold))
  | updated hmethod _ hold hupdate hadvanced hafter =>
      exact recorded_of_bookkept hafter (bookkept_of_update
        (updateOf?_of_update hmethod hresult hupdate)
        (deliveryOf?_of_other (by rw [hmethod]; decide))
        (State.advanced_of_advanceTo hadvanced) (bookkept_of_recorded hrecorded hold))

theorem recorded_of_history (hstart : start.state = none)
    (history : History code Elsewhere start calls host) : Recorded calls host.state := by
  induction history with
  | begun =>
      rw [hstart]
      exact ⟨rfl, rfl⟩
  | moved past hmove ih =>
      rw [hmove.state]
      exact ih
  | @called calls call past hruns ih =>
      cases hresult : call.result with
      | error failure =>
          obtain ⟨hupdate, hdelivery⟩ := untold_of_refused hresult
          rw [(hruns.refused hresult).1]
          exact recorded_of_untold hupdate hdelivery ih
      | ok returned => exact recorded_of_answered hresult (effect_of_runs hruns hresult) ih

theorem le_foldl_max (first : Int) (later : List Int) : first ≤ later.foldl max first := by
  induction later generalizing first with
  | nil => exact Int.le_refl first
  | cons second rest ih => exact Int.le_trans (Int.le_max_left first second) (ih _)

theorem Bookkept.epoch_nonneg (hkept : Bookkept calls state) : 0 ≤ state.epoch := by
  rw [hkept.epoch]
  exact le_foldl_max 0 _

/-- What a call answers and was told can be read.  An update that answers steps through the
epochs up to its own, and no call goes back. -/
structure Told (call : Invocation State) : Prop where
  epoch_le : ∀ state, call.before.state = some (.held state) →
    ∃ later, call.after.state = some (.held later) ∧ state.epoch ≤ later.epoch
  award : ∀ returned, call.result = .ok returned → call.method = Method.award →
    ∃ delivery, deliveryOf? call = some delivery ∧
      Delivery.format.encode delivery = .ok returned
  update : ∀ returned, call.result = .ok returned → call.method = Method.updateNetwork →
    ∃ update state later, updateOf? call = some update ∧
      call.before.state = some (.held state) ∧ call.after.state = some (.held later) ∧
      State.stepBy (call.before.epoch - state.epoch).toNat
        { state with realizedPower := update.realizedPower } = .ok later

theorem told_of_refused {failure : Failure} (hruns : call.Runs code)
    (hresult : call.result = .error failure) : Told call := by
  constructor
  · intro state hbefore
    exact ⟨state, (hruns.refused hresult).1.trans hbefore, Int.le_refl _⟩
  · intro returned hanswered
    cases hresult.symm.trans hanswered
  · intro returned hanswered
    cases hresult.symm.trans hanswered

theorem told_of_other (hmethod : call.method ≠ Method.award)
    (hupdate : call.method ≠ Method.updateNetwork)
    (hepoch : ∀ state, call.before.state = some (.held state) →
      ∃ later, call.after.state = some (.held later) ∧ state.epoch ≤ later.epoch) :
        Told call where
  epoch_le := hepoch
  award _ _ haward := absurd haward hmethod
  update _ _ hupdates := absurd hupdates hupdate

theorem told_of_answered {returned : Bytes} (hresult : call.result = .ok returned)
    (heffect : Effect (call.before.entered call.replies) call.method call.params returned
      call.after.state call.after.balance)
    (hrecorded : Recorded calls call.before.state) : Told call := by
  cases heffect with
  | constructed hmethod _ hnone _ =>
      refine told_of_other (by rw [hmethod]; decide) (by rw [hmethod]; decide) ?_
      intro state hbefore
      cases hbefore.symm.trans hnone
  | told hmethod hafter _ =>
      refine told_of_other (by rw [hmethod]; decide) (by rw [hmethod]; decide) ?_
      exact fun state hbefore => ⟨state, hafter.trans hbefore, Int.le_refl _⟩
  | awarded hmethod _ hold hafter hreturned =>
      constructor
      · intro state hbefore
        cases hbefore.symm.trans hold
        exact ⟨_, hafter, Int.le_refl _⟩
      · intro answered hanswered _
        cases hresult.symm.trans hanswered
        exact ⟨_, deliveryOf?_of_award hmethod hresult hreturned, hreturned⟩
      · intro _ _ hupdate
        exact absurd (hmethod.symm.trans hupdate) (by decide)
  | @updated hmethod _ state advanced update hold hupdate hadvanced hafter =>
      constructor
      · intro earlier hbefore
        cases hbefore.symm.trans hold
        refine ⟨_, hafter, ?_⟩
        rw [(State.advanced_of_advanceTo hadvanced).epoch]
        exact Int.le_max_left _ _
      · intro _ _ haward
        exact absurd (hmethod.symm.trans haward) (by decide)
      · intro _ _ _
        have hnonneg := (bookkept_of_recorded hrecorded hold).epoch_nonneg
        refine ⟨update, state, advanced, updateOf?_of_update hmethod hresult hupdate,
          hold, hafter, State.stepBy_of_advanceTo ?_ hadvanced⟩
        exact Int.le_trans (by decide) hnonneg

theorem told_of_history (hstart : start.state = none)
    (history : History code Elsewhere start calls host) : ∀ call ∈ calls, Told call := by
  induction history with
  | begun => exact List.forall_mem_nil _
  | moved past hmove ih => exact ih
  | @called calls call past hruns ih =>
      refine List.forall_mem_append.mpr ⟨ih, List.forall_mem_singleton.mpr ?_⟩
      cases hresult : call.result with
      | error failure => exact told_of_refused hruns hresult
      | ok returned =>
          exact told_of_answered hresult (effect_of_runs hruns hresult)
            (recorded_of_history hstart past)

/-- At whatever epochs the reward actor is called, whatever is refused and whatever cannot
be sent: its epoch is the latest of the updates that it answered, its reward is that of this
epoch, its power is that of the last update, and its totals add up what its awards have
answered. -/
theorem bookkept_of_history (hstart : start.state = none)
    (history : History code Elsewhere start calls host) :
    (host.state = none ∨ ∃ state, host.state = some (.held state) ∧ Bookkept calls state) ∧
      ∀ call ∈ calls, Told call := by
  refine ⟨?_, told_of_history hstart history⟩
  have hrecorded := recorded_of_history hstart history
  cases hstate : host.state with
  | none => exact .inl rfl
  | some link =>
      rw [hstate] at hrecorded
      cases link with
      | missing => exact hrecorded.elim
      | held state => exact .inr ⟨state, rfl, hrecorded⟩

end Calls

def constructStep : Step State where
  prepare host := { host with caller := .system }
  replies := some []
  method := RewardVesting.Method.construct
  params := []

def updateStep (caller : Address) (epoch power : Int) : Step State where
  prepare host := { host with caller := caller, epoch := epoch }
  replies := some []
  method := Method.updateNetwork
  params := (NetworkUpdate.format.write ⟨power⟩).getD []

def awardStep (shareCount : Int) (replies : List Reply) : Step State where
  prepare host := { host with caller := .system, balance := 1000000 }
  replies := some replies
  method := Method.award
  params := (AwardRequest.format.write ⟨.id 1001, 0, 10, 1, shareCount, 0⟩).getD []

def interleavedSteps : List (Step State) :=
  [constructStep, awardStep 5 [.silent, .silent, ⟨.forbidden, []⟩, .silent],
    updateStep .storagePower 10 7, updateStep (.id 1001) 20 8, awardStep 0 [],
    updateStep .storagePower 3 9, awardStep 5 [⟨.forbidden, []⟩, .silent, .silent, .silent]]

def interleavedRun : List (Invocation State) × Host State :=
  replay code (.init .reward .standard) interleavedSteps

theorem interleavedRun_history :
    History code Elsewhere (.init .reward .standard) interleavedRun.1 interleavedRun.2 := by
  refine history_replay code _ ?_
  simp only [interleavedSteps, List.forall_mem_cons, List.not_mem_nil, false_imp_iff,
    implies_true, and_true]
  exact ⟨fun _ => ⟨rfl⟩, fun _ => ⟨rfl⟩, fun _ => ⟨rfl⟩, fun _ => ⟨rfl⟩, fun _ => ⟨rfl⟩,
    fun _ => ⟨rfl⟩, fun _ => ⟨rfl⟩⟩

theorem interleavedRun_told :
    interleavedRun.1.map (fun call => call.result.toBool) =
        [true, true, true, false, false, true, true] ∧
      latestEpoch interleavedRun.1 = 10 ∧ reportedPower interleavedRun.1 = 9 ∧
      deliveredTotals interleavedRun.1 = ⟨749994, 19998, 89999, 299996, 0⟩ ∧
      interleavedRun.2.state.isSome := by
  decide +kernel

theorem bookkept_of_history_interleaved :
    ∃ state, interleavedRun.2.state = some (.held state) ∧ state.epoch = 10 ∧
      Minting.epochReward 10 = .ok state.epochReward ∧ state.realizedPower = 9 ∧
      state.totals = ⟨749994, 19998, 89999, 299996, 0⟩ := by
  obtain ⟨_, hepoch, hpower, htotals, hstored⟩ := interleavedRun_told
  obtain ⟨hnone | ⟨state, hheld, hkept⟩, _⟩ :=
    bookkept_of_history rfl interleavedRun_history
  · rw [hnone] at hstored
    cases hstored
  · have hreached := hkept.epoch.trans hepoch
    have hreward := hkept.epochReward
    rw [hreached] at hreward
    exact ⟨state, hheld, hreached, hreward, hkept.realizedPower.trans hpower,
      hkept.totals.trans htotals⟩

end Reward

end RewardVesting
