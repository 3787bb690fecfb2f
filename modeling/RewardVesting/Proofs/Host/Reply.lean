import RewardVesting.Proofs.Host.History
import RewardVesting.Proofs.Host.Serving

namespace RewardVesting.Host

open RewardVesting.Action

variable {σ : Type} {before after : Host σ} {message : Message}

/-! What an actor learns from its host: replies to its messages, and grants. -/

/-- The reply to a message that is sent next.  What has been expected goes before what is at
hand. -/
def replyTo? (host : Host σ) (message : Message) : Option Reply :=
  match host.expectations.sends with
  | [] => host.replies.map nextReply
  | (expected, reply) :: _ => if expected = message then some reply else none

theorem sends_of_expectNextReply {answer : Unit}
    (hyields : (expectNextReply message).Yields before answer after) :
    after.expectations.sends = before.expectations.sends ++
      (before.replies.map fun replies => (message, nextReply replies)).toList := by
  simp only [expectNextReply, yields_bind, yields_read] at hyields
  obtain ⟨_, _, ⟨rfl, rfl⟩, hmatch⟩ := hyields
  split at hmatch
  · rename_i hreplies
    obtain ⟨_, rfl⟩ := yields_pure.mp hmatch
    simp [hreplies]
  · rename_i hreplies
    obtain rfl := yields_modify.mp hmatch
    simp [hreplies, nextReply]
  · rename_i reply rest hreplies
    simp only [expectSend, expect, yields_bind, yields_modify] at hmatch
    obtain ⟨_, _, rfl, rfl⟩ := hmatch
    simp [hreplies, nextReply]

theorem sends_of_takeExpectedSend {reply : Reply}
    (hyields : (takeExpectedSend message).Yields before reply after) :
    before.expectations.sends.head? = some (message, reply) := by
  simp only [takeExpectedSend, yields_bind, yields_read] at hyields
  obtain ⟨_, _, ⟨rfl, rfl⟩, hmatch⟩ := hyields
  split at hmatch
  · exact absurd hmatch not_yields_stop
  · rename_i expected next rest hsends
    simp only [expect, yields_bind, yields_modify, yields_ite, yields_pure, not_yields_stop,
      and_false, or_false] at hmatch
    obtain ⟨_, _, _, rfl, rfl, _⟩ := hmatch
    rw [hsends, List.head?_cons]

theorem reply_of_settleReply {reply : Reply} {returned : Bytes}
    (hyields : (settleReply message reply).Yields before returned after) :
    reply.code.IsSuccess ∧ reply.returned = returned := by
  simp only [settleReply, yields_bind, yields_require, yields_read, yields_modify,
    yields_pure] at hyields
  obtain ⟨_, _, ⟨hsuccess, _⟩, _, _, _, _, _, _, _, _, _, hreturned, _⟩ := hyields
  exact ⟨hsuccess, hreturned⟩

/-- What a message returns is what its reply says. -/
theorem reply_of_send {returned : Bytes}
    (hyields : (send message).Yields before returned after) :
    ∃ reply, before.replyTo? message = some reply ∧ reply.code.IsSuccess ∧
      reply.returned = returned := by
  simp only [send, yields_bind, yields_requireInCall, yields_attempt,
    yields_ofExcept] at hyields
  obtain ⟨_, _, ⟨_, rfl⟩, result, delivered, hdeliver, _, _, _, hresult, _⟩ := hyields
  subst hresult
  have hyielded : (deliver message).Yields before returned delivered := hdeliver
  simp only [deliver, yields_bind, yields_read, yields_ite] at hyielded
  obtain ⟨_, _, ⟨rfl, rfl⟩,
    ⟨_, hrefused⟩ | ⟨_, _, expecting, hexpecting, reply, taken, htaken, hsettled⟩⟩ :=
      hyielded
  · exact absurd hrefused not_yields_refuse
  · obtain ⟨hsuccess, hreturned⟩ := reply_of_settleReply hsettled
    refine ⟨reply, ?_, hsuccess, hreturned⟩
    have hfirst := sends_of_takeExpectedSend htaken
    rw [sends_of_expectNextReply hexpecting] at hfirst
    rw [replyTo?]
    split
    · rename_i hnone
      rw [hnone] at hfirst
      cases hreplies : before.replies with
      | none => simp [hreplies] at hfirst
      | some replies => simpa [hreplies] using hfirst
    · rename_i expected held rest hsends
      rw [hsends] at hfirst
      obtain ⟨rfl, rfl⟩ : expected = message ∧ held = reply := by simpa using hfirst
      exact if_pos rfl

theorem holdsGrant_yields {grant : Grant} {holds : Bool}
    (hyields : (holdsGrant grant : Run σ Bool).Yields before holds after) :
    holds = decide (grant ∈ before.grants) := by
  simp only [holdsGrant, yields_bind, yields_read, yields_pure] at hyields
  obtain ⟨_, _, ⟨rfl, rfl⟩, _, _, _, hholds, _⟩ := hyields
  exact hholds.symm

namespace Invocation

def Alters (call : Invocation σ) : Prop :=
  call.after.state ≠ call.before.state ∨ call.after.balance ≠ call.before.balance

/-- A call that fails alters nothing. -/
theorem Alters.answers {code : ActorCode σ} {call : Invocation σ} (halters : call.Alters)
    (hruns : call.Runs code) : ∃ returned, call.result = .ok returned := by
  cases hresult : call.result with
  | ok returned => exact ⟨returned, rfl⟩
  | error failure =>
      obtain ⟨hstate, hbalance⟩ := hruns.refused hresult
      rcases halters with hchanged | hchanged
      · exact absurd hstate hchanged
      · exact absurd hbalance hchanged

end Invocation

end RewardVesting.Host
