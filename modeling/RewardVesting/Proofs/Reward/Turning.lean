import RewardVesting.Proofs.Minting.Turning
import RewardVesting.Proofs.Reward.Bookkeeping

namespace RewardVesting

namespace Reward

open Host Minting

/-- What has been minted rises until the turning epoch and falls from there on, and with it
the reward that the actor holds. -/
theorem minting_rises_iff_before_turningEpoch {epoch : Int} (hepoch : 0 ≤ epoch)
    {start host : Host State} {calls : List (Invocation State)} {state : State}
    (hstart : start.state = none) (history : History code Elsewhere start calls host)
    (hheld : host.state = some (.held state)) :
    (0 ≤ mintedBy epoch ∧ mintedBy epoch ≤ mintedBy (epoch + 1) ↔ epoch < turningEpoch) ∧
      (0 ≤ state.epochReward ↔ state.epoch < turningEpoch) := by
  constructor
  · rw [← rewardOf_nonneg_iff hepoch]
    constructor
    · rintro ⟨_, hrises⟩
      exact sub_nonneg.mpr hrises
    · intro hreward
      have hearly := (rewardOf_nonneg_iff hepoch).mp hreward
      exact ⟨mintedBy_nonneg hepoch hearly.le, sub_nonneg.mp hreward⟩
  · have hkept := bookkept_of_recorded (recorded_of_history hstart history) hheld
    rw [(epochReward_eq_ok.mp hkept.epochReward).2]
    exact rewardOf_nonneg_iff hkept.epoch_nonneg

def turningSteps : List (Step State) :=
  [{ prepare := id
     replies := some [], method := RewardVesting.Method.construct, params := [] },
   { prepare := fun host => { host with epoch := turningEpoch, caller := .storagePower }
     replies := some [], method := Method.updateNetwork, params := [0x81, 0x40] }]

def turningRun : List (Invocation State) × Host State :=
  replay code (.init .reward .standard) turningSteps

theorem turningRun_history :
    History code Elsewhere (.init .reward .standard) turningRun.1 turningRun.2 := by
  refine history_replay code _ ?_
  intro step hstep host
  rcases List.mem_pair.mp hstep with rfl | rfl <;> exact ⟨rfl⟩

theorem turningRun_state :
    turningRun.2.state = some (.held ⟨rewardOf turningEpoch, 0, turningEpoch, .zero⟩) := by
  decide +kernel

theorem minting_falls_at_turningEpoch :
    mintedBy (turningEpoch + 1) < mintedBy turningEpoch ∧
      ∃ (calls : List (Invocation State)) (host : Host State) (state : State),
        History code Elsewhere (.init .reward .standard) calls host ∧
          host.state = some (.held state) ∧ state.epochReward < 0 := by
  refine ⟨by decide +kernel, turningRun.1, turningRun.2, _, turningRun_history,
    turningRun_state, ?_⟩
  decide +kernel

theorem minting_rises_iff_at_turningEpoch :
    (0 ≤ mintedBy (turningEpoch - 1) ∧
      mintedBy (turningEpoch - 1) ≤ mintedBy turningEpoch) ∧
      ∃ state, turningRun.2.state = some (.held state) ∧ ¬0 ≤ state.epochReward := by
  have hbefore : 0 ≤ turningEpoch - 1 := by decide
  obtain ⟨hminted, hreward⟩ := minting_rises_iff_before_turningEpoch hbefore rfl
    turningRun_history turningRun_state
  have hrises := hminted.mpr (by decide)
  rw [sub_add_cancel] at hrises
  exact ⟨hrises, _, turningRun_state, fun hnonneg => lt_irrefl _ (hreward.mp hnonneg)⟩

end Reward

end RewardVesting
