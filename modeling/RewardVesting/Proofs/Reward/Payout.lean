import Mathlib.Algebra.Order.BigOperators.Group.List
import RewardVesting.Proofs.Host.Serving
import RewardVesting.Proofs.Reward.Effect
import RewardVesting.Proofs.Reward.Split

namespace RewardVesting.Reward

open RewardVesting.Action Host

/-- Whom an award pays, in the order of the messages. -/
inductive Recipient
  | miner
  | vote
  | expert
  | knowledge
  | retrieval

namespace Recipient

def all : List Recipient := [.miner, .vote, .expert, .knowledge, .retrieval]

def earlier : Recipient → List Recipient
  | miner => []
  | vote => [.miner]
  | expert => [.miner, .vote]
  | knowledge => [.miner, .vote, .expert]
  | retrieval => [.miner, .vote, .expert, .knowledge]

/-- What a delivery says that a recipient got; the miner gets power and gas in one. -/
def partOf (delivery : Delivery) : Recipient → Int
  | miner => delivery.power + delivery.gas
  | vote => delivery.vote
  | expert => delivery.expert
  | knowledge => delivery.knowledge
  | retrieval => delivery.bandwidth

theorem exists_later (recipient : Recipient) :
    ∃ later, all = recipient.earlier ++ recipient :: later := by
  cases recipient with
  | miner | vote | expert | knowledge | retrieval => exact ⟨_, rfl⟩

theorem earlier_sublist (recipient : Recipient) :
    (recipient.earlier ++ [recipient]).Sublist all := by
  obtain ⟨later, hall⟩ := recipient.exists_later
  rw [hall]
  exact (List.cons_sublist_cons.mpr later.nil_sublist).append_left recipient.earlier

theorem mem_all (recipient : Recipient) : recipient ∈ all := by
  obtain ⟨later, hall⟩ := recipient.exists_later
  rw [hall]
  exact List.mem_append_right _ List.mem_cons_self

theorem sum_nonneg {part : Recipient → Int} (hnonneg : ∀ recipient, 0 ≤ part recipient)
    (recipients : List Recipient) : 0 ≤ (recipients.map part).sum := by
  refine List.sum_nonneg ?_
  intro amount hamount
  obtain ⟨recipient, _, rfl⟩ := List.mem_map.mp hamount
  exact hnonneg recipient

theorem sum_partOf (delivery : Delivery) :
    (all.map (partOf delivery)).sum = delivery.power + delivery.gas + delivery.vote +
      delivery.expert + delivery.knowledge + delivery.bandwidth := by
  simp only [all, partOf, List.map_cons, List.map_nil, List.sum_cons, List.sum_nil]
  omega

end Recipient

/-- An award that has been worked out and is to be paid. -/
structure Payout where
  request : AwardRequest
  split : RewardSplit
  penalty : Int
  /-- What the miner is told. -/
  told : Bytes

namespace Payout

variable {payout : Payout} {replies : List Reply} {start host : Host State}
  {recipient : Recipient}

def amount (payout : Payout) : Recipient → Int
  | .miner => payout.split.power + payout.request.gas
  | .vote => payout.split.vote
  | .expert => payout.split.expert
  | .knowledge => payout.split.knowledge
  | .retrieval => payout.split.bandwidth

def fundMessage? (fund : Address) (part : Int) : Option Message :=
  if part = 0 then none else some ⟨fund, Method.applyFundReward, [], part⟩

/-- The message that carries the part of a recipient, if one is needed. -/
def message? (payout : Payout) : Recipient → Option Message
  | .miner =>
    if 0 < payout.amount .miner ∨ 0 < payout.penalty then
      some ⟨payout.request.miner, Method.applyMinerReward, payout.told,
        payout.amount .miner⟩
    else none
  | .vote => fundMessage? .voteFund payout.split.vote
  | .expert => fundMessage? .expertFund payout.split.expert
  | .knowledge => fundMessage? .knowledgeFund payout.split.knowledge
  | .retrieval => fundMessage? .retrievalFund payout.split.bandwidth

def messagesTo (payout : Payout) (recipients : List Recipient) : List Message :=
  recipients.filterMap payout.message?

/-- How the message to a recipient ends: with the reply whose turn it is. -/
def codeFor (payout : Payout) (replies : List Reply) (recipient : Recipient) : ExitCode :=
  (nextReply (replies.drop (payout.messagesTo recipient.earlier).length)).code

/-- A recipient misses its part if a message is needed and does not succeed. -/
def Misses (payout : Payout) (replies : List Reply) (recipient : Recipient) : Prop :=
  (payout.message? recipient).isSome ∧ ¬(payout.codeFor replies recipient).IsSuccess

instance : Decidable (payout.Misses replies recipient) :=
  inferInstanceAs (Decidable (_ ∧ _))

/-- Every assignment of codes to the messages comes about. -/
theorem exists_replies (payout : Payout) (codes : Recipient → ExitCode) :
    ∃ replies, ∀ recipient, (payout.message? recipient).isSome →
      payout.codeFor replies recipient = codes recipient := by
  let answers (recipients : List Recipient) : List Reply :=
    (recipients.filter fun recipient => (payout.message? recipient).isSome).map
      fun recipient => ⟨codes recipient, []⟩
  have hlength (recipients : List Recipient) :
      (answers recipients).length = (payout.messagesTo recipients).length := by
    induction recipients with
    | nil => rfl
    | cons recipient rest induction =>
        cases hmessage : payout.message? recipient with
        | none => simpa [answers, messagesTo, hmessage] using induction
        | some message => simpa [answers, messagesTo, hmessage] using induction
  refine ⟨answers Recipient.all, fun recipient hneeded => ?_⟩
  obtain ⟨later, hall⟩ := recipient.exists_later
  have hanswers : answers Recipient.all =
      answers recipient.earlier ++ ⟨codes recipient, []⟩ :: answers later := by
    simp [answers, hall, hneeded]
  rw [codeFor, hanswers, ← hlength, List.drop_left]
  rfl

def arrived (payout : Payout) (replies : List Reply) (recipient : Recipient) : Int :=
  if payout.Misses replies recipient then 0 else payout.amount recipient

/-- The messages to some recipients as they are seen from outside. -/
def sent (payout : Payout) (replies : List Reply) (recipients : List Recipient) :
    List Event :=
  recipients.filterMap fun recipient =>
    (payout.message? recipient).map fun message =>
      .sent message (payout.codeFor replies recipient)

def missed (payout : Payout) (replies : List Reply) (recipient : Recipient) : Int :=
  if payout.Misses replies recipient then payout.amount recipient else 0

def delivery (payout : Payout) (replies : List Reply) : Delivery where
  power := if payout.Misses replies .miner then 0 else payout.split.power
  gas := if payout.Misses replies .miner then 0 else payout.request.gas
  vote := payout.arrived replies .vote
  expert := payout.arrived replies .expert
  knowledge := payout.arrived replies .knowledge
  bandwidth := payout.arrived replies .retrieval
  undelivered := (Recipient.all.map (payout.missed replies)).sum

def total (payout : Payout) : Int := payout.split.total + payout.request.gas

theorem arrived_add_missed (payout : Payout) (replies : List Reply)
    (recipient : Recipient) :
    payout.arrived replies recipient + payout.missed replies recipient =
      payout.amount recipient := by
  rw [arrived, missed]
  split
  · exact Int.zero_add _
  · exact Int.add_zero _

theorem arrived_bounds (hnonneg : 0 ≤ payout.amount recipient) (replies : List Reply) :
    0 ≤ payout.arrived replies recipient ∧
      payout.arrived replies recipient ≤ payout.amount recipient := by
  rw [arrived]
  split
  · exact ⟨Int.le_refl 0, hnonneg⟩
  · exact ⟨hnonneg, Int.le_refl _⟩

theorem arrived_missed (payout : Payout) (replies : List Reply) (recipient : Recipient)
    (before : Int) :
    (payout.arrived replies recipient, before + payout.missed replies recipient) =
      if payout.Misses replies recipient then (0, before + payout.amount recipient)
        else (payout.amount recipient, before) := by
  rw [arrived, missed]
  split
  · rfl
  · rw [Int.add_zero]

theorem missed_nonneg (hnonneg : 0 ≤ payout.amount recipient) (replies : List Reply) :
    0 ≤ payout.missed replies recipient := by
  rw [missed]
  split
  · exact hnonneg
  · exact Int.le_refl 0

theorem power_add_gas (payout : Payout) (replies : List Reply) :
    (payout.delivery replies).power + (payout.delivery replies).gas =
      payout.arrived replies .miner := by
  simp only [delivery, arrived]
  split
  · rfl
  · rfl

theorem partOf_delivery (payout : Payout) (replies : List Reply) :
    Recipient.partOf (payout.delivery replies) = payout.arrived replies := by
  funext recipient
  cases recipient with
  | miner => exact payout.power_add_gas replies
  | vote | expert | knowledge | retrieval => rfl

theorem sum_amounts (payout : Payout) :
    (Recipient.all.map payout.amount).sum = payout.total := by
  simp only [Recipient.all, List.map_cons, List.map_nil, List.sum_cons,
    List.sum_nil, amount, total, RewardSplit.total]
  omega

theorem sum_arrived_add_sum_missed (payout : Payout) (replies : List Reply)
    (recipients : List Recipient) :
    (recipients.map (payout.arrived replies)).sum +
      (recipients.map (payout.missed replies)).sum =
      (recipients.map payout.amount).sum := by
  induction recipients with
  | nil => rfl
  | cons recipient rest induction =>
      have hsplit := payout.arrived_add_missed replies recipient
      simp only [List.map_cons, List.sum_cons]
      omega

/-- Nothing is lost: what is answered for adds up to all that was to be paid. -/
theorem delivery_total (payout : Payout) (replies : List Reply) :
    (payout.delivery replies).power + (payout.delivery replies).gas +
      (payout.delivery replies).vote + (payout.delivery replies).expert +
      (payout.delivery replies).knowledge + (payout.delivery replies).bandwidth +
      (payout.delivery replies).undelivered = payout.total := by
  rw [← Recipient.sum_partOf, partOf_delivery, ← sum_amounts,
    ← sum_arrived_add_sum_missed payout replies]
  rfl

theorem value_of_message? {message : Message}
    (hmessage : payout.message? recipient = some message) :
    message.value = payout.amount recipient := by
  cases recipient with
  | miner =>
      rw [message?] at hmessage
      split at hmessage
      · cases hmessage
        rfl
      · cases hmessage
  | vote | expert | knowledge | retrieval =>
      rw [message?, fundMessage?] at hmessage
      split at hmessage
      · cases hmessage
      · cases hmessage
        rfl

theorem amount_of_message?_eq_none (hnonneg : 0 ≤ payout.amount recipient)
    (hmessage : payout.message? recipient = none) : payout.amount recipient = 0 := by
  cases recipient with
  | miner =>
      rw [message?] at hmessage
      split at hmessage
      · cases hmessage
      · rename_i hneither
        omega
  | vote | expert | knowledge | retrieval =>
      rw [message?, fundMessage?] at hmessage
      split at hmessage
      · assumption
      · cases hmessage

/-- The host when some recipients have been paid, or have missed their part. -/
structure Paid (payout : Payout) (replies : List Reply) (start : Host State)
    (recipients : List Recipient) (host : Host State) : Prop where
  serves : Serves host (replies.drop (payout.messagesTo recipients).length)
  balance : host.balance = start.balance - (recipients.map (payout.arrived replies)).sum
  events : host.events = start.events ++ payout.sent replies recipients
  kept : host.unfunded = start.unfunded

theorem paid_nil (hserves : Serves start replies) : Paid payout replies start [] start where
  serves := hserves
  balance := (Int.sub_zero _).symm
  events := (List.append_nil _).symm
  kept := rfl

theorem Paid.notice {recipients : List Recipient}
    (hpaid : Paid payout replies start recipients host) (severity : Severity)
    (text : String) :
    ∃ after, (notice severity text : Run State Unit).Yields host () after ∧
      Paid payout replies start recipients after :=
  ⟨_, yields_modify.mpr rfl, ⟨hpaid.serves.inCall, hpaid.serves.outside, hpaid.serves.quiet,
    hpaid.serves.replies⟩, hpaid.balance, hpaid.events, hpaid.kept⟩

theorem Paid.skip (hpaid : Paid payout replies start recipient.earlier host)
    (hnonneg : 0 ≤ payout.amount recipient) (hmessage : payout.message? recipient = none) :
    Paid payout replies start (recipient.earlier ++ [recipient]) host := by
  have hamount := amount_of_message?_eq_none hnonneg hmessage
  have harrived : payout.arrived replies recipient = 0 := by
    rw [arrived, hamount, ite_self]
  have hmessages : payout.messagesTo (recipient.earlier ++ [recipient]) =
      payout.messagesTo recipient.earlier := by
    simp [messagesTo, hmessage]
  constructor
  · rw [hmessages]
    exact hpaid.serves
  · simp [hpaid.balance, harrived]
  · simp [hpaid.events, sent, hmessage]
  · exact hpaid.kept

theorem arrived_of_message? {message : Message}
    (hmessage : payout.message? recipient = some message) :
    payout.arrived replies recipient =
      moved (nextReply (replies.drop (payout.messagesTo recipient.earlier).length))
        message := by
  rw [arrived, moved, value_of_message? hmessage]
  by_cases hsuccess : (payout.codeFor replies recipient).IsSuccess
  · rw [if_neg (fun hmisses => hmisses.2 hsuccess)]
    exact (if_pos hsuccess).symm
  · rw [if_pos ⟨Option.isSome_of_eq_some hmessage, hsuccess⟩]
    exact (if_neg hsuccess).symm

theorem Paid.send (hpaid : Paid payout replies start recipient.earlier host)
    {message : Message} (hmessage : payout.message? recipient = some message)
    (hfunds : payout.amount recipient ≤ host.balance) :
    ∃ reply after, (send message).Ends host (answerTo message reply) after ∧
      reply.code = payout.codeFor replies recipient ∧
      Paid payout replies start (recipient.earlier ++ [recipient]) after := by
  have hmessages : payout.messagesTo (recipient.earlier ++ [recipient]) =
      payout.messagesTo recipient.earlier ++ [message] := by
    simp [messagesTo, hmessage]
  have hvalue := value_of_message? hmessage
  refine ⟨_, _, hpaid.serves.send (fun _ => hvalue ▸ hfunds), rfl, ?_, ?_, ?_, ?_⟩
  · rw [hmessages, List.length_append, List.length_singleton, ← List.tail_drop]
    exact hpaid.serves.afterSend message
  · rw [List.map_append, List.sum_append, List.map_singleton, List.sum_singleton,
      arrived_of_message? hmessage, ← Int.sub_sub, ← hpaid.balance]
    rfl
  · simp [afterSend, hpaid.events, sent, hmessage, codeFor]
  · exact hpaid.kept

/-- Both kinds of payment send their message in this way, and go on after a failure. -/
theorem Paid.attempt {α : Type} (hpaid : Paid payout replies start recipient.earlier host)
    {message : Message} (hmessage : payout.message? recipient = some message)
    (hfunds : payout.amount recipient ≤ host.balance) (got lost : α)
    (text : Failure → String) :
    ∃ after, (do
        match ← Action.attempt (Host.send message) with
        | .ok _ => return got
        | .error failure =>
          Host.notice .error (text failure)
          return lost : Run State α).Yields host
            (if payout.Misses replies recipient then lost else got) after ∧
      Paid payout replies start (recipient.earlier ++ [recipient]) after := by
  obtain ⟨reply, after, hsend, hcode, hafter⟩ := hpaid.send hmessage hfunds
  by_cases hsuccess : reply.code.IsSuccess
  · refine ⟨after, hsend.attempt.bind ?_, hafter⟩
    rw [answerTo, if_pos hsuccess, if_neg fun hmisses => hmisses.2 (hcode ▸ hsuccess)]
    exact yields_pure.mpr ⟨rfl, rfl⟩
  · have hmisses : payout.Misses replies recipient :=
      ⟨Option.isSome_of_eq_some hmessage, hcode ▸ hsuccess⟩
    obtain ⟨noted, hnotice, hnoted⟩ := hafter.notice .error (text ⟨reply.code, _⟩)
    refine ⟨noted, hsend.attempt.bind ?_, hnoted⟩
    rw [answerTo, if_neg hsuccess, if_pos hmisses]
    exact hnotice.andThen (yields_pure.mpr ⟨rfl, rfl⟩)

theorem Paid.payFund (hpaid : Paid payout replies start recipient.earlier host)
    (fund : Address)
    (hfund : payout.message? recipient = fundMessage? fund (payout.amount recipient))
    (hnonneg : 0 ≤ payout.amount recipient)
    (hfunds : payout.amount recipient ≤ host.balance) (missed : Int) :
    ∃ after, (payFund fund (payout.amount recipient) missed).Yields host
        (payout.arrived replies recipient, missed + payout.missed replies recipient) after ∧
      Paid payout replies start (recipient.earlier ++ [recipient]) after := by
  rw [Reward.payFund]
  rw [fundMessage?] at hfund
  split
  · rename_i hzero
    rw [if_pos hzero] at hfund
    refine ⟨host, ?_, hpaid.skip hnonneg hfund⟩
    rw [arrived, Payout.missed, hzero, ite_self, Int.add_zero]
    exact yields_pure.mpr ⟨rfl, rfl⟩
  · rename_i hsome
    rw [if_neg hsome] at hfund
    rw [arrived_missed]
    exact hpaid.attempt hfund hfunds _ _ _

/-- The delivery once the miner has been paid, or has missed its part. -/
def afterMiner (payout : Payout) (replies : List Reply) : Delivery :=
  { Delivery.intended payout.split payout.request.gas with
    power := (payout.delivery replies).power
    gas := (payout.delivery replies).gas
    undelivered := payout.missed replies .miner }

theorem afterMiner_eq (payout : Payout) (replies : List Reply) :
    payout.afterMiner replies =
      if payout.Misses replies .miner then
        { Delivery.intended payout.split payout.request.gas with
          power := 0
          gas := 0
          undelivered := 0 + payout.amount .miner }
      else .intended payout.split payout.request.gas := by
  simp only [afterMiner, delivery, missed]
  split
  · rw [Int.zero_add]
  · rfl

theorem Paid.payMiner {policy : Policy}
    (hpaid : Paid payout replies start Recipient.miner.earlier host)
    (hpenalty : payout.penalty = payout.request.penalty * policy.penaltyMultiplier)
    (htold : MinerReward.format.serialize "miner apply rewards params"
      ⟨payout.amount .miner, payout.penalty⟩ = .ok payout.told)
    (hnonneg : 0 ≤ payout.amount .miner) (hfunds : payout.amount .miner ≤ host.balance) :
    ∃ after, (payMiner policy payout.request
          (.intended payout.split payout.request.gas)).Yields host
        (payout.afterMiner replies) after ∧
      Paid payout replies start (Recipient.miner.earlier ++ [.miner]) after := by
  have hreward : (Delivery.intended payout.split payout.request.gas).power +
      (Delivery.intended payout.split payout.request.gas).gas = payout.amount .miner := rfl
  have hmessage : payout.message? .miner =
    if 0 < payout.amount .miner ∨ 0 < payout.penalty then
      some ⟨payout.request.miner, Method.applyMinerReward, payout.told,
        payout.amount .miner⟩
    else none := rfl
  rw [Reward.payMiner, afterMiner_eq, ← hpenalty, hreward]
  split
  · rename_i hneeded
    rw [if_pos hneeded] at hmessage
    obtain ⟨after, hattempt, hafter⟩ := hpaid.attempt hmessage hfunds _ _ _
    rw [htold]
    exact ⟨after, Yields.bind (yields_ofExcept.mpr ⟨rfl, rfl⟩) hattempt, hafter⟩
  · rename_i hneither
    rw [if_neg hneither] at hmessage
    refine ⟨host, ?_, hpaid.skip hnonneg hmessage⟩
    rw [if_neg (by simp [Misses, hmessage])]
    exact yields_pure.mpr ⟨rfl, rfl⟩

theorem Paid.funds (hpaid : Paid payout replies start recipient.earlier host)
    (hnonneg : ∀ recipient, 0 ≤ payout.amount recipient)
    (hfunds : payout.total ≤ start.balance) :
    payout.amount recipient ≤ host.balance := by
  have hspent : (recipient.earlier.map (payout.arrived replies)).sum ≤
      (recipient.earlier.map payout.amount).sum :=
    List.sum_le_sum fun earlier _ => (arrived_bounds (hnonneg earlier) replies).2
  have hsofar : ((recipient.earlier ++ [recipient]).map payout.amount).sum ≤
      (Recipient.all.map payout.amount).sum := by
    refine (recipient.earlier_sublist.map payout.amount).sum_le_sum ?_
    intro amount hamount
    obtain ⟨payee, _, rfl⟩ := List.mem_map.mp hamount
    exact hnonneg payee
  rw [List.map_append, List.sum_append, List.map_singleton, List.sum_singleton,
    sum_amounts] at hsofar
  rw [hpaid.balance]
  omega

/-- A payout that the balance covers is carried through, whatever the replies are. -/
theorem payOut_yields (policy : Policy) (hserves : Serves start replies)
    (hpenalty : payout.penalty = payout.request.penalty * policy.penaltyMultiplier)
    (htold : MinerReward.format.serialize "miner apply rewards params"
      ⟨payout.amount .miner, payout.penalty⟩ = .ok payout.told)
    (hnonneg : ∀ recipient, 0 ≤ payout.amount recipient)
    (hfunds : payout.total ≤ start.balance) :
    ∃ after, (payOut policy payout.request payout.split).Yields start
        (payout.delivery replies) after ∧
      Paid payout replies start Recipient.all after := by
  have hnone : Paid payout replies start Recipient.miner.earlier start := paid_nil hserves
  obtain ⟨first, hminer, hmined⟩ :=
    hnone.payMiner hpenalty htold (hnonneg _) (hnone.funds hnonneg hfunds)
  have hmined : Paid payout replies start Recipient.vote.earlier first := hmined
  obtain ⟨second, hvote, hvoted⟩ :=
    hmined.payFund .voteFund rfl (hnonneg _) (hmined.funds hnonneg hfunds) _
  have hvoted : Paid payout replies start Recipient.expert.earlier second := hvoted
  obtain ⟨third, hexpert, hexperts⟩ :=
    hvoted.payFund .expertFund rfl (hnonneg _) (hvoted.funds hnonneg hfunds) _
  have hexperts : Paid payout replies start Recipient.knowledge.earlier third := hexperts
  obtain ⟨fourth, hknowledge, hknown⟩ :=
    hexperts.payFund .knowledgeFund rfl (hnonneg _) (hexperts.funds hnonneg hfunds) _
  have hknown : Paid payout replies start Recipient.retrieval.earlier fourth := hknown
  obtain ⟨last, hretrieval, hall⟩ :=
    hknown.payFund .retrievalFund rfl (hnonneg _) (hknown.funds hnonneg hfunds) _
  refine ⟨last, ?_, hall⟩
  refine hminer.bind (hvote.bind (hexpert.bind (hknowledge.bind (hretrieval.bind ?_))))
  refine yields_pure.mpr ⟨?_, rfl⟩
  simp only [afterMiner, Delivery.intended, delivery, Recipient.all, List.map_cons,
    List.map_nil, List.sum_cons, List.sum_nil, Delivery.mk.injEq, true_and]
  omega

end Payout

end RewardVesting.Reward
