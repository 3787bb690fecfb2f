import RewardVesting.Proofs.Reward.Payout
import RewardVesting.Proofs.Wire.Writable

namespace RewardVesting.Reward

open RewardVesting.Action Host

variable {before host : Host State} {state : State} {request : AwardRequest}
  {payout : Payout} {replies : List Reply}

/-- What a request that passes its check has been found to satisfy. -/
structure AwardRequest.Accepted (request : AwardRequest) (balance : Int) : Prop where
  penalty : 0 ≤ request.penalty
  gas : 0 ≤ request.gas
  shareCount : 0 < request.shareCount
  winCount : 0 < request.winCount
  covered : request.gas ≤ balance

theorem accepted_of_check {balance : Int} (hcheck : request.check balance = .ok ()) :
    request.Accepted balance := by
  simp only [AwardRequest.check, requireNonNegative, bind, Except.bind, pure,
    Except.pure, throw, throwThe, MonadExceptOf.throw] at hcheck
  split_ifs at hcheck
  constructor <;> omega

/-- The amounts are small enough to be written, however much is delivered. -/
structure Writable (state : State) (request : AwardRequest) (policy : Policy)
    (balance : Int) : Prop where
  stored : Storage.Storable state
  funds : Amount.Storable balance
  fine : Amount.Storable (request.penalty * policy.penaltyMultiplier)
  power : Amount.Storable (state.totals.power + balance)
  vote : Amount.Storable (state.totals.vote + balance)
  expert : Amount.Storable (state.totals.expert + balance)
  knowledge : Amount.Storable (state.totals.knowledge + balance)
  retrieval : Amount.Storable (state.totals.retrieval + balance)

/-- The block reward that a balance allows; gas goes first. -/
def blockOf (state : State) (request : AwardRequest) (balance : Int) : Int :=
  min (state.epochReward.tdiv request.shareCount) (balance - request.gas)

/-- The payout is what the award of a request comes to on a host. -/
structure Payout.Meets (payout : Payout) (host : Host State) (state : State)
    (request : AwardRequest) : Prop where
  requested : payout.request = request
  split : RewardSplit.ofBlock host.policy (blockOf state request host.balance)
    host.circulatingSupply request.pledged = .ok payout.split
  multiplied : payout.penalty = request.penalty * host.policy.penaltyMultiplier
  told : MinerReward.format.serialize "miner apply rewards params"
    ⟨payout.amount .miner, payout.penalty⟩ = .ok payout.told
  shares : payout.split.Nonneg
  gas : 0 ≤ payout.request.gas
  total : payout.total = blockOf state request host.balance + request.gas
  covered : payout.total ≤ host.balance

theorem Payout.Meets.nonneg (hmeets : payout.Meets host state request)
    (recipient : Recipient) :
    0 ≤ payout.amount recipient := by
  have ⟨hpower, hvote, hexpert, hknowledge, hbandwidth⟩ := hmeets.shares
  cases recipient with
  | miner => exact Int.add_nonneg hpower hmeets.gas
  | vote => exact hvote
  | expert => exact hexpert
  | knowledge => exact hknowledge
  | retrieval => exact hbandwidth

theorem Payout.Meets.entered (hmeets : payout.Meets before state request)
    (answers : Option (List Reply)) :
    payout.Meets (before.entered answers) state request where
  requested := hmeets.requested
  split := hmeets.split
  multiplied := hmeets.multiplied
  told := hmeets.told
  shares := hmeets.shares
  gas := hmeets.gas
  total := hmeets.total
  covered := hmeets.covered

theorem State.storable_iff {state : State} :
    Storage.Storable state ↔ Amount.Storable state.epochReward ∧
      Amount.Storable state.realizedPower ∧ Epoch.Representable state.epoch ∧
      Amount.Storable state.totals.power ∧ Amount.Storable state.totals.vote ∧
      Amount.Storable state.totals.expert ∧ Amount.Storable state.totals.knowledge ∧
      Amount.Storable state.totals.retrieval := by
  rw [Storage.Storable]
  dsimp only [instStorageState]
  rw [State.format, Wire.Format.isSome_write_record,
    Wire.Format.isSome_write_tuple (by decide)]
  simp [State.layout]

theorem Writable.record {policy : Policy} {balance : Int}
    (hwritable : Writable state request policy balance) {delivery : Delivery}
    (hdelivery : ∀ recipient : Recipient,
      0 ≤ recipient.partOf delivery ∧ recipient.partOf delivery ≤ balance)
    (hpower : 0 ≤ delivery.power ∧ delivery.power ≤ balance) :
    Storage.Storable (state.record delivery) := by
  obtain ⟨hreward, hrealized, hepoch, htotals⟩ := State.storable_iff.mp hwritable.stored
  obtain ⟨hmined, hvote, hexpert, hknowledge, hretrieval⟩ := htotals
  have hraised (total part : Int) (hpart : 0 ≤ part ∧ part ≤ balance)
      (hlow : Amount.Storable total) (hhigh : Amount.Storable (total + balance)) :
      Amount.Storable (total + part) :=
    Amount.storable_of_between hlow hhigh (by omega) (by omega)
  refine State.storable_iff.mpr ⟨hreward, hrealized, hepoch, ?_, ?_, ?_, ?_, ?_⟩
  · exact hraised _ _ hpower hmined hwritable.power
  · exact hraised _ _ (hdelivery .vote) hvote hwritable.vote
  · exact hraised _ _ (hdelivery .expert) hexpert hwritable.expert
  · exact hraised _ _ (hdelivery .knowledge) hknowledge hwritable.knowledge
  · exact hraised _ _ (hdelivery .retrieval) hretrieval hwritable.retrieval

theorem blockReward_of_accepted {balance : Int} (haccepted : request.Accepted balance) :
    blockReward state.epochReward balance request =
      .ok (blockOf state request balance) := by
  rw [blockReward, divide_of_ne_zero (Int.ne_of_gt haccepted.shareCount)]
  rfl

theorem blockOf_nonneg {balance : Int} (hreward : 0 ≤ state.epochReward)
    (haccepted : request.Accepted balance) : 0 ≤ blockOf state request balance :=
  le_min (Int.tdiv_nonneg hreward haccepted.shareCount.le)
    (sub_nonneg.mpr haccepted.covered)

theorem exists_meets (hreward : 0 ≤ state.epochReward) (hfair : host.policy.Fair)
    (haccepted : request.Accepted host.balance)
    (hwritable : Writable state request host.policy host.balance) :
    ∃ payout : Payout, payout.Meets host state request := by
  obtain ⟨split, hsplit, hnonneg, htotal⟩ := RewardSplit.ofBlock_of_fair hfair
    (blockOf_nonneg hreward haccepted) host.circulatingSupply request.pledged
  have hblock : blockOf state request host.balance ≤ host.balance - request.gas :=
    min_le_right _ _
  have hgas := haccepted.gas
  have ⟨hpower, hvote, hexpert, hknowledge, hbandwidth⟩ := hnonneg
  rw [RewardSplit.total] at htotal
  have hreward : Amount.Storable (split.power + request.gas) :=
    Amount.storable_of_between (by decide) hwritable.funds (show 0 ≤ _ by omega) (by omega)
  have hwritten : (MinerReward.format.write ⟨split.power + request.gas,
      request.penalty * host.policy.penaltyMultiplier⟩).isSome := by
    rw [MinerReward.format, Wire.Format.isSome_write_record,
      Wire.Format.isSome_write_tuple (by decide)]
    simp [MinerReward.layout, hreward, hwritable.fine]
  obtain ⟨told, htold⟩ :=
    Wire.Format.serialize_of_isSome "miner apply rewards params" hwritten
  refine ⟨⟨request, split, _, told⟩, rfl, hsplit, rfl, htold, hnonneg, hgas, ?_, ?_⟩
  · rw [Payout.total, RewardSplit.total, htotal]
  · rw [Payout.total, RewardSplit.total, htotal]
    dsimp only
    omega

/-- A delivery that stays between nothing and the balance. -/
structure Within (delivery : Delivery) (balance : Int) : Prop where
  power : 0 ≤ delivery.power ∧ delivery.power ≤ balance
  gas : 0 ≤ delivery.gas ∧ delivery.gas ≤ balance
  funds : ∀ recipient : Recipient,
    0 ≤ recipient.partOf delivery ∧ recipient.partOf delivery ≤ balance
  undelivered : 0 ≤ delivery.undelivered ∧ delivery.undelivered ≤ balance

theorem encode_of_within {delivery : Delivery} {balance : Int}
    (hstorable : Amount.Storable balance)
    (hwithin : Within delivery balance) :
    ∃ bytes, Delivery.format.encode delivery = .ok bytes := by
  have hpart (part : Int) (hpart : 0 ≤ part ∧ part ≤ balance) : Amount.Storable part :=
    Amount.storable_of_between (by decide) hstorable hpart.1 hpart.2
  refine Wire.Format.encode_of_isSome ?_
  rw [Delivery.format, Wire.Format.isSome_write_record,
    Wire.Format.isSome_write_tuple (by decide)]
  simp only [Wire.Format.isSome_write_pair, Wire.Format.isSome_write_amount,
    Delivery.layout]
  exact ⟨hpart _ hwithin.power, hpart _ hwithin.gas, hpart _ (hwithin.funds .vote),
    hpart _ (hwithin.funds .expert), hpart _ (hwithin.funds .knowledge),
    hpart _ (hwithin.funds .retrieval), hpart _ hwithin.undelivered⟩

theorem Payout.Meets.amount_le (hmeets : payout.Meets host state request)
    (recipient : Recipient) : payout.amount recipient ≤ host.balance := by
  refine le_trans ?_ hmeets.covered
  rw [← Payout.sum_amounts]
  refine List.single_le_sum ?_ _ (List.mem_map_of_mem recipient.mem_all)
  intro amount hamount
  obtain ⟨payee, _, rfl⟩ := List.mem_map.mp hamount
  exact hmeets.nonneg payee

theorem Payout.Meets.within (hmeets : payout.Meets host state request)
    (replies : List Reply) :
    Within (payout.delivery replies) host.balance := by
  have hpower := hmeets.shares.power
  have hgas := hmeets.gas
  have hminer : payout.split.power + payout.request.gas ≤ host.balance :=
    hmeets.amount_le .miner
  refine ⟨?_, ?_, ?_, ?_⟩
  · simp only [Payout.delivery]
    split <;> omega
  · simp only [Payout.delivery]
    split <;> omega
  · intro recipient
    have hbounds := Payout.arrived_bounds (hmeets.nonneg recipient) replies
    rw [Payout.partOf_delivery]
    exact ⟨hbounds.1, hbounds.2.trans (hmeets.amount_le recipient)⟩
  · have hsplit := payout.sum_arrived_add_sum_missed replies Recipient.all
    have hcovered := hmeets.covered
    have harrived := Recipient.sum_nonneg
      (fun recipient => (Payout.arrived_bounds (hmeets.nonneg recipient) replies).1)
        Recipient.all
    have hmissed := Recipient.sum_nonneg
      (fun recipient => Payout.missed_nonneg (hmeets.nonneg recipient) replies)
        Recipient.all
    rw [Payout.sum_amounts] at hsplit
    simp only [Payout.delivery]
    omega

/-- An award that has been worked out goes through, whatever the replies are. -/
theorem award_yields_delivery (hserves : Serves host replies)
    (hcaller : host.caller = .system)
    (hheld : host.state = some (.held state)) (haccepted : request.Accepted host.balance)
    (hcheck : request.check host.balance = .ok ())
    (hmeets : payout.Meets host state request)
    (hstorable : Storage.Storable (state.record (payout.delivery replies))) :
    ∃ after, (award request).Yields host (payout.delivery replies) after ∧
      after.events = host.events ++
        .callerIs [.system] :: payout.sent replies Recipient.all ∧
      after.balance = host.balance - (Recipient.all.map (payout.arrived replies)).sum ∧
      after.state = some (.held (state.record (payout.delivery replies))) := by
  have hvalidated := hserves.validateIs (List.mem_singleton.mpr hcaller)
  have hstarted : Serves { host with
      expectations := { host.expectations with callerAddresses := none }
      events := host.events ++ [.callerIs [.system]] } replies :=
    ⟨hserves.inCall, hserves.outside, hserves.quiet, hserves.replies⟩
  have hpenalty : payout.penalty =
      payout.request.penalty * host.policy.penaltyMultiplier := by
    rw [hmeets.requested, hmeets.multiplied]
  obtain ⟨paid, hpayOut, hpaid⟩ :=
    Payout.payOut_yields host.policy hstarted hpenalty hmeets.told
    hmeets.nonneg hmeets.covered
  have hstate : paid.state = some (.held state) :=
    (state_of_unfunded_eq hpaid.kept).trans hheld
  have hchange : (modify fun state => state.record (payout.delivery replies) :
      Action State Failure Unit).Yields state () (state.record (payout.delivery replies)) :=
    yields_modify.mpr rfl
  have hrecorded := yields_transaction hpaid.serves.outside hstate hchange hstorable
  refine ⟨{ paid with
    inTransaction := false
    state := some (.held (state.record (payout.delivery replies))) }, ?_, ?_,
    hpaid.balance, rfl⟩
  · refine hvalidated.andThen ?_
    refine Yields.bind (yields_currentBalance.mpr ⟨hserves.inCall, rfl, rfl⟩) ?_
    refine Yields.andThen (yields_ofExcept.mpr ⟨hcheck, rfl⟩) ?_
    refine Yields.bind (yields_readState hheld) ?_
    refine Yields.bind (yields_currentPolicy.mpr ⟨rfl, rfl⟩) ?_
    refine Yields.bind (yields_checked.mpr ⟨blockReward_of_accepted haccepted, rfl⟩) ?_
    refine Yields.bind (yields_currentSupply.mpr ⟨rfl, rfl⟩) ?_
    refine Yields.bind (yields_checked.mpr ⟨hmeets.split, rfl⟩) ?_
    rw [← hmeets.requested]
    exact hpayOut.bind (hrecorded.andThen (yields_pure.mpr ⟨rfl, rfl⟩))
  · exact hpaid.events.trans (List.append_assoc _ _ _)

/-- The messages, the answer and what is left once an award is done. -/
structure Payout.Accounts (payout : Payout) (replies : List Reply)
    (before after : Host State) (state : State) (delivery : Delivery) : Prop where
  nonneg : ∀ recipient message, payout.message? recipient = some message → 0 ≤ message.value
  sent : after.events = .callerIs [.system] :: payout.sent replies Recipient.all
  received : ∀ recipient, ¬payout.Misses replies recipient →
    recipient.partOf delivery = payout.amount recipient
  missed : ∀ recipient, payout.Misses replies recipient → recipient.partOf delivery = 0
  power : delivery.power = if payout.Misses replies .miner then 0 else payout.split.power
  gas : delivery.gas = if payout.Misses replies .miner then 0 else payout.request.gas
  undelivered : delivery.undelivered =
    ((Recipient.all.filter (payout.Misses replies ·)).map payout.amount).sum
  total : delivery.power + delivery.gas + delivery.vote + delivery.expert +
    delivery.knowledge + delivery.bandwidth + delivery.undelivered = payout.total
  balance : after.balance = before.balance - (Recipient.all.map (·.partOf delivery)).sum
  recorded : after.state = some (.held (state.record delivery))

theorem Payout.sum_missed (payout : Payout) (replies : List Reply)
    (recipients : List Recipient) : (recipients.map (payout.missed replies)).sum =
      ((recipients.filter (payout.Misses replies ·)).map payout.amount).sum := by
  induction recipients with
  | nil => rfl
  | cons recipient rest induction =>
      rw [List.map_cons, List.sum_cons, induction, Payout.missed]
      by_cases hmisses : payout.Misses replies recipient
      · simp [hmisses]
      · simp [hmisses]

/-- The accounts of an award under every way in which its messages may end. -/
theorem award_accounts {params : Bytes} (hidle : before.Idle)
    (hcaller : before.caller = .system)
    (hheld : before.state = some (.held state)) (hreward : 0 ≤ state.epochReward)
    (hfair : before.policy.Fair)
    (hparams : AwardRequest.format.methodParameters params = .ok request)
    (hcheck : request.check before.balance = .ok ())
    (hwritable : Writable state request before.policy before.balance) :
    ∃ payout : Payout, payout.Meets before state request ∧
      (∀ codes : Recipient → ExitCode, ∃ replies, ∀ recipient,
        (payout.message? recipient).isSome →
          payout.codeFor replies recipient = codes recipient) ∧
      ∀ replies : List Reply,
        ∃ (delivery : Delivery) (returned : Bytes) (after : Host State),
        Delivery.format.encode delivery = .ok returned ∧
          call code (some replies) Method.award params before = .ok (.ok returned, after) ∧
            payout.Accounts replies before after state delivery := by
  have haccepted := accepted_of_check hcheck
  obtain ⟨payout, hmeets⟩ := exists_meets hreward hfair haccepted hwritable
  refine ⟨payout, hmeets, payout.exists_replies, fun replies => ?_⟩
  have hwithin := hmeets.within replies
  obtain ⟨returned, hreturned⟩ := encode_of_within hwritable.funds hwithin
  have hstorable := hwritable.record hwithin.funds hwithin.power
  obtain ⟨after, haward, hevents, hbalance, hstate⟩ := award_yields_delivery
    (hidle.serves replies) hcaller hheld haccepted hcheck (hmeets.entered _) hstorable
  have hcode : (code Method.award params).Yields
      (before.entered (some replies)) returned after := by
    rw [code, if_neg (by decide), if_pos rfl]
    refine Yields.bind (yields_ofExcept.mpr ⟨hparams, rfl⟩) (haward.bind ?_)
    rw [hreturned]
    exact yields_ofExcept.mpr ⟨rfl, rfl⟩
  refine ⟨payout.delivery replies, returned, _, hreturned, call_of_yields hcode, ?_⟩
  constructor
  · intro recipient message hmessage
    rw [Payout.value_of_message? hmessage]
    exact hmeets.nonneg recipient
  · exact hevents
  · intro recipient hreceives
    rw [Payout.partOf_delivery, Payout.arrived, if_neg hreceives]
  · intro recipient hmisses
    rw [Payout.partOf_delivery, Payout.arrived, if_pos hmisses]
  · rfl
  · rfl
  · exact payout.sum_missed replies Recipient.all
  · exact payout.delivery_total replies
  · simp only [Payout.partOf_delivery]
    exact hbalance
  · exact hstate

def tightState : State := ⟨2000, 0, 5, .zero⟩

def tightHost : Host State :=
  { (.init .reward .standard : Host State) with
    state := some (.held tightState)
    balance := 600
    circulatingSupply := 1000 }

def tightRequest : AwardRequest := ⟨.id 1000, 10, 50, 1, 2, 300⟩

def tightParams : Bytes := [134, 67, 0, 232, 7, 66, 0, 10, 66, 0, 50, 1, 2, 67, 0, 1, 44]

def tightReplies : List Reply := [⟨.forbidden, []⟩, .silent, ⟨.illegalState, []⟩]

theorem tightParams_read :
    AwardRequest.format.methodParameters tightParams = .ok tightRequest := by
  decide +kernel

theorem tight_writable :
    Writable tightState tightRequest tightHost.policy tightHost.balance := by
  constructor <;> decide +kernel

theorem award_accounts_tight :
    ∃ (delivery : Delivery) (returned : Bytes) (after : Host State),
      Delivery.format.encode delivery = .ok returned ∧
        call code (some tightReplies) Method.award tightParams tightHost =
          .ok (.ok returned, after) ∧
        delivery = ⟨0, 0, 5, 0, 49, 33, 513⟩ ∧ after.balance = 513 := by
  obtain ⟨payout, hmeets, _, haccounts⟩ := award_accounts ⟨rfl, rfl⟩ rfl rfl (by decide)
    Policy.fair_standard tightParams_read (by decide +kernel) tight_writable
  obtain ⟨delivery, returned, after, hreturned, hcall, haccounts⟩ := haccounts tightReplies
  have hrequest := hmeets.requested
  have hsplit := hmeets.split
  have hknown : RewardSplit.ofBlock tightHost.policy
      (blockOf tightState tightRequest tightHost.balance) tightHost.circulatingSupply
      tightRequest.pledged = .ok ⟨414, 5, 49, 49, 33⟩ := by
    decide +kernel
  rw [hknown] at hsplit
  have hfine := hmeets.multiplied
  obtain ⟨request, split, penalty, told⟩ := payout
  cases hrequest
  cases hsplit
  cases hfine
  have hforbidden : ¬ExitCode.forbidden.IsSuccess := by decide
  have hillegal : ¬ExitCode.illegalState.IsSuccess := by decide
  have hpower : delivery.power = 0 := haccounts.power.trans (if_pos ⟨rfl, hforbidden⟩)
  have hgas : delivery.gas = 0 := haccounts.gas.trans (if_pos ⟨rfl, hforbidden⟩)
  have hvote : delivery.vote = 5 := haccounts.received .vote fun hmisses => hmisses.2 rfl
  have hexpert : delivery.expert = 0 := haccounts.missed .expert ⟨rfl, hillegal⟩
  have hknowledge : delivery.knowledge = 49 :=
    haccounts.received .knowledge fun hmisses => hmisses.2 rfl
  have hretrieval : delivery.bandwidth = 33 :=
    haccounts.received .retrieval fun hmisses => hmisses.2 rfl
  have hundelivered : delivery.undelivered = 513 := by
    have htotal : delivery.power + delivery.gas + delivery.vote + delivery.expert +
        delivery.knowledge + delivery.bandwidth + delivery.undelivered = 600 :=
          haccounts.total
    omega
  have hdelivery : delivery = ⟨0, 0, 5, 0, 49, 33, 513⟩ := by
    calc
      delivery = ⟨delivery.power, delivery.gas, delivery.vote, delivery.expert,
          delivery.knowledge, delivery.bandwidth, delivery.undelivered⟩ := rfl
      _ = ⟨0, 0, 5, 0, 49, 33, 513⟩ := by
        rw [hpower, hgas, hvote, hexpert, hknowledge, hretrieval, hundelivered]
  refine ⟨delivery, returned, after, hreturned, hcall, hdelivery, ?_⟩
  rw [haccounts.balance, hdelivery]
  rfl

end RewardVesting.Reward
