import Kinet.Eth.Accounting
import Kinet.Eth.CommitProgress

/-!
# Nonces of a chain

The nonces that a new block starts from can be had in two ways: replay the
transactions and authorizations of the blocks since the base block, as the coherency check
does inside a block, or merge the nonce usages recorded for these blocks.  Both ways read
the same stream of events, and the record of an event acts as the event does.

Main results:

- `replayBlock_eq`: the checks of the block policy replay the events of a block.
- `nonceUsages_eq`: the validator records the events of a block.
- `act_foldl_record`: the record acts as the replay does.
- `getAccountBaseNonces_eq_replay`: the computed nonces are those of the replay.
-/

namespace Kinet.Eth

open FiniteMap NonceUsageMap List Option EthBlockPolicy EthValidatedBlock AList Except EthAccount

variable {K : TypeParams}

/-! ## Events -/

/-- A use of an account's nonce. -/
inductive NonceEvent where
  /-- a transaction, which has to have the next nonce -/
  | send (nonce : Nonce)
  /-- an authorization, which counts if it has the next nonce -/
  | authorize (nonce : Nonce)
deriving DecidableEq

variable {nonces' : FiniteMap Address Nonce}

namespace NonceEvent

def advance : NonceEvent → Nonce → Option Nonce
  | send nonce, next => if nonce = next then some (next + 1) else none
  | authorize nonce, next => some (if next = nonce then next + 1 else next)

/-- The nonces of all accounts after an event of one of them. -/
def apply (nonces : FiniteMap Address Nonce) (a : Address) :
    NonceEvent → Except Failure (FiniteMap Address Nonce)
  | send nonce =>
    match nonces.lookup a with
    | none => .error .panic
    | some next =>
      if nonce ≠ next then .error (.error .blockNotCoherent)
      else .ok (nonces.insert a (next + 1))
  | authorize nonce =>
    match nonces.lookup a with
    | none => .error .panic
    | some next => .ok (if next ≠ nonce then nonces else nonces.insert a (next + 1))

def record (usages : NonceUsageMap) (event : Address × NonceEvent) : NonceUsageMap :=
  match event.2 with
  | send nonce => usages.insert event.1 (.known nonce)
  | authorize nonce =>
    match usages.lookup event.1 with
    | some (.known last) =>
      if last + 1 = nonce then usages.insert event.1 (.known (last + 1)) else usages
    | some (.possible nonces) => usages.insert event.1 (.possible (nonces ++ [nonce]))
    | none => usages.insert event.1 (.possible [nonce])

variable {a : Address}

/-- An event acts on its account alone. -/
lemma lookup_apply {nonces : FiniteMap Address Nonce} {e : NonceEvent}
    (h : e.apply nonces a = .ok nonces') (b : Address) :
    (nonces'.lookup b).map some =
      (nonces.lookup b).map fun next => if a = b then e.advance next else some next := by
  have hinsert : ∀ {next next'}, nonces.lookup a = some next → e.advance next = some next' →
      ((nonces.insert a next').lookup b).map some =
        (nonces.lookup b).map fun next => if a = b then e.advance next else some next := by
    intro next next' hnext hadvance
    by_cases hab : a = b
    · subst hab
      simp [hnext, hadvance]
    · simp [hab, Ne.symm hab]
  cases e with
  | send nonce =>
    simp only [apply] at h
    split at h
    · cases h
    next next hnext =>
    split at h
    · cases h
    next hnonce =>
    cases h
    exact hinsert hnext (if_pos (not_not.1 hnonce))
  | authorize nonce =>
    simp only [apply] at h
    split at h
    · cases h
    next next hnext =>
    cases h
    split
    · next hnonce =>
      by_cases hab : a = b
      · subst hab
        simp [hnext, advance, hnonce]
      · simp [hab]
    · next hnonce => exact hinsert hnext (by simp [advance, not_not.1 hnonce])

variable {usages : NonceUsageMap}

lemma act_record {e : NonceEvent} {start next' : Nonce}
    (h : e.advance (usages.act a start) = some next') :
    (record usages (a, e)).act a start = next' := by
  cases e with
  | send nonce =>
    simp only [advance] at h
    split at h
    · next hnonce =>
      cases h
      simp [record, act, NonceUsage.applyToAccountNonce, hnonce]
    · cases h
  | authorize nonce =>
    simp only [advance, some.injEq] at h
    rw [← h]
    cases husage : usages.lookup a with
    | none =>
      simp [record, husage, act, NonceUsage.applyToAccountNonce,
        NonceUsage.applyPossibleNoncesToAccountNonce, eq_comm]
    | some usage =>
      cases usage with
      | known last =>
        by_cases hnonce : last + 1 = nonce
        · simp [record, husage, hnonce, act, NonceUsage.applyToAccountNonce]
        · simp [record, husage, hnonce, act, NonceUsage.applyToAccountNonce]
      | possible nonces =>
        simp [record, husage, act, NonceUsage.applyToAccountNonce,
          NonceUsage.applyPossibleNoncesToAccountNonce, eq_comm]

lemma act_record_of_ne {b : Address} (hab : b ≠ a) (e : NonceEvent)
    (start : Nonce) : (record usages (b, e)).act a start = usages.act a start := by
  have hinsert : ∀ usage, act (usages.insert b usage) a start = usages.act a start := by
    intro usage
    unfold act
    rw [lookup_insert_ne (Ne.symm hab)]
  unfold record
  cases e with
  | send nonce => exact hinsert _
  | authorize nonce =>
    dsimp only
    split
    · split
      · exact hinsert _
      · rfl
    · exact hinsert _
    · exact hinsert _

end NonceEvent

def replayEvents : List (Address × NonceEvent) → FiniteMap Address Nonce →
    Except Failure (FiniteMap Address Nonce)
  | [], nonces => .ok nonces
  | (a, e) :: events, nonces =>
    match e.apply nonces a with
    | .error err => .error err
    | .ok nonces' => replayEvents events nonces'

def accountReplay (a : Address) : List (Address × NonceEvent) → Nonce → Option Nonce
  | [], next => some next
  | (b, e) :: events, next =>
    if b = a then (e.advance next).bind (accountReplay a events) else accountReplay a events next

lemma replayEvents_append (es₁ es₂ : List (Address × NonceEvent))
    (nonces : FiniteMap Address Nonce) :
    replayEvents (es₁ ++ es₂) nonces = match replayEvents es₁ nonces with
      | .error err => .error err
      | .ok nonces' => replayEvents es₂ nonces' := by
  induction es₁ generalizing nonces with
  | nil => rfl
  | cons event es₁ ih =>
    obtain ⟨a, e⟩ := event
    rw [cons_append, replayEvents, replayEvents]
    cases e.apply nonces a with
    | error err => rfl
    | ok nonces' => exact ih nonces'

variable {events : List (Address × NonceEvent)} {nonces : FiniteMap Address Nonce} {a : Address}
  {usages : NonceUsageMap}

lemma accountReplay_append (a : Address) (es₁ es₂ : List (Address × NonceEvent)) (next : Nonce) :
    accountReplay a (es₁ ++ es₂) next = (accountReplay a es₁ next).bind (accountReplay a es₂) := by
  induction es₁ generalizing next with
  | nil => rfl
  | cons event es₁ ih =>
    obtain ⟨b, e⟩ := event
    rw [cons_append, accountReplay, accountReplay]
    split
    · cases e.advance next with
      | none => rfl
      | some next' => exact ih next'
    · exact ih next

/-- The nonce with which the account sends a transaction. -/
def sendNonce (a : Address) : Address × NonceEvent → Option Nonce
  | (b, .send nonce) => if b = a then some nonce else none
  | (_, .authorize _) => none

/-- The transactions that an account replays have increasing nonces, as long as these do not
wrap around. -/
lemma accountReplay_increasing {next next' : Nonce}
    (hlen : next.toNat + events.countP (·.1 = a) < 2 ^ 64)
    (h : accountReplay a events next = some next') :
    (events.filterMap (sendNonce a)).Pairwise (· < ·) ∧
      ∀ nonce ∈ events.filterMap (sendNonce a), next ≤ nonce := by
  induction events generalizing next with
  | nil => simp
  | cons event events ih =>
    obtain ⟨b, e⟩ := event
    rw [countP_cons] at hlen
    rw [accountReplay] at h
    by_cases hab : b = a
    · simp only [hab, decide_true, if_true] at hlen
      have hsucc : (next + 1).toNat = next.toNat + 1 := by
        rw [UInt64.toNat_add, UInt64.toNat_one, Nat.mod_eq_of_lt (by omega)]
      rw [if_pos hab] at h
      obtain ⟨next1, hadvance, hrest⟩ := bind_eq_some_iff.1 h
      cases e with
      | send nonce =>
        simp only [NonceEvent.advance] at hadvance
        split at hadvance
        · next heq =>
          cases hadvance
          obtain ⟨hpairs, hle⟩ := ih (by omega) hrest
          have hlt : ∀ n ∈ events.filterMap (sendNonce a), next < n := fun n hn => by
            have hsuccLe := UInt64.le_iff_toNat_le.1 (hle n hn)
            exact UInt64.lt_iff_toNat_lt.2 (by omega)
          have hsend : sendNonce a (b, .send nonce) = some next := by simp [sendNonce, hab, heq]
          rw [filterMap_cons_some hsend]
          refine ⟨pairwise_cons.2 ⟨hlt, hpairs⟩, fun n hn => ?_⟩
          rcases mem_cons.1 hn with rfl | hn
          · exact UInt64.le_refl _
          · exact UInt64.le_of_lt (hlt n hn)
        · cases hadvance
      | authorize nonce =>
        have hnext : next ≤ next1 ∧ next1.toNat ≤ next.toNat + 1 := by
          cases hadvance
          rw [UInt64.le_iff_toNat_le]
          split <;> omega
        obtain ⟨hpairs, hle⟩ := ih (by omega) hrest
        exact ⟨hpairs, fun n hn => UInt64.le_trans hnext.1 (hle n hn)⟩
    · rw [if_neg hab] at h
      rw [filterMap_cons_none (by cases e <;> simp [sendNonce, hab])]
      exact ih (by simpa [hab] using hlen) h

/-- A replay acts on every account by itself. -/
lemma lookup_replayEvents (h : replayEvents events nonces = .ok nonces') (a : Address) :
    (nonces'.lookup a).map some = (nonces.lookup a).map (accountReplay a events) := by
  induction events generalizing nonces with
  | nil =>
    cases h
    rfl
  | cons event events ih =>
    unfold replayEvents at h
    split at h
    · cases h
    next nonces1 hnonces1 =>
    have hstep := congrArg (Option.map (Option.bind · (accountReplay a events)))
      (NonceEvent.lookup_apply hnonces1 a)
    simp only [Option.map_map, Function.comp_def, bind_some] at hstep
    rw [ih h, hstep]
    congr 1
    funext next
    rw [accountReplay]
    split <;> rfl

lemma mem_replayEvents
    (h : replayEvents events nonces = .ok nonces') (a : Address) : a ∈ nonces' ↔ a ∈ nonces := by
  rw [← lookup_isSome, ← lookup_isSome, ← isSome_map (f := some), lookup_replayEvents h, isSome_map]

lemma exists_accountReplay (h : replayEvents events nonces = .ok nonces') {next : Nonce}
    (hnext : nonces.lookup a = some next) :
    ∃ next', accountReplay a events next = some next' ∧ nonces'.lookup a = some next' := by
  have hlookup := lookup_replayEvents h a
  rw [hnext] at hlookup
  obtain ⟨next', hnext', heq⟩ := map_eq_some_iff.1 hlookup
  exact ⟨next', heq.symm, hnext'⟩

lemma exists_replayEvents (hmem : ∀ event ∈ events, event.1 ∈ nonces)
    (hruns : ∀ a next, nonces.lookup a = some next →
      ∃ next', accountReplay a events next = some next') :
    ∃ nonces', replayEvents events nonces = .ok nonces' := by
  induction events generalizing nonces with
  | nil => exact ⟨nonces, rfl⟩
  | cons event events ih =>
    obtain ⟨b, e⟩ := event
    obtain ⟨next, hnext⟩ := mem_iff_lookup.1 (hmem _ mem_cons_self)
    have hstep : ∃ nonces1, e.apply nonces b = .ok nonces1 := by
      cases e with
      | send nonce =>
        obtain ⟨next', hrun⟩ := hruns b next hnext
        by_cases hnonce : nonce = next
        · simp [NonceEvent.apply, hnext, hnonce]
        · simp [accountReplay, NonceEvent.advance, hnonce] at hrun
      | authorize nonce => simp [NonceEvent.apply, hnext]
    obtain ⟨nonces1, hnonces1⟩ := hstep
    have hone : replayEvents [(b, e)] nonces = .ok nonces1 := by rw [replayEvents, hnonces1]; rfl
    rw [replayEvents, hnonces1]
    refine ih (fun event hevent => ?_) fun a next1 hnext1 => ?_
    · exact (mem_replayEvents hone _).2 (hmem event (mem_cons_of_mem _ hevent))
    · have hlookup := lookup_replayEvents hone a
      rw [hnext1] at hlookup
      obtain ⟨next0, hnext0, hrun1⟩ := map_eq_some_iff.1 hlookup.symm
      have hrun := hruns a next0 hnext0
      rwa [← singleton_append, accountReplay_append, hrun1] at hrun

theorem act_foldl_record {start next' : Nonce}
    (h : accountReplay a events (usages.act a start) = some next') :
    (events.foldl NonceEvent.record usages).act a start = next' := by
  induction events generalizing usages with
  | nil => exact Option.some.inj h
  | cons event events ih =>
    unfold accountReplay at h
    split at h
    · next hab =>
      subst hab
      obtain ⟨next1, hadvance, hrest⟩ := bind_eq_some_iff.1 h
      refine ih ?_
      rw [NonceEvent.act_record hadvance]
      exact hrest
    · next hab =>
      refine ih ?_
      rw [NonceEvent.act_record_of_ne hab]
      exact h

/-! ## Events of a block -/

def authorizationEvents (chainId : Nat) (auths : List RecoveredAuthorization) :
    List (Address × NonceEvent) :=
  auths.filterMap fun auth =>
    auth.authority.bind fun authority =>
      if auth.inner.isForChain chainId then some (authority, .authorize auth.inner.nonce) else none

def transactionEvents (chainId : Nat) (txn : ValidatedTx) : List (Address × NonceEvent) :=
  (txn.signer, .send txn.nonce) ::
    if txn.tx.inner.isEip7702 then authorizationEvents chainId txn.authorizations7702 else []

def systemTransactionEvent (txn : ValidatedTx) : Address × NonceEvent :=
  (txn.signer, .send txn.nonce)

def EthValidatedBlock.nonceEvents (b : EthValidatedBlock K) (chainId : Nat) :
    List (Address × NonceEvent) :=
  b.systemTxns.map systemTransactionEvent ++ b.validatedTxns.flatMap (transactionEvents chainId)

/-- Use the nonces of the transactions of a block, as its coherency check does. -/
def replayBlock (chainId : Nat) (b : EthValidatedBlock K) (nonces : FiniteMap Address Nonce) :
    Except Failure (FiniteMap Address Nonce) :=
  match systemTransactionNonceCheck b.systemTxns nonces with
  | .error e => .error e
  | .ok nonces' => transactionNonceUpdates chainId b.validatedTxns nonces'

def replayBlocks (chainId : Nat) : List (EthValidatedBlock K) → FiniteMap Address Nonce →
    Except Failure (FiniteMap Address Nonce)
  | [], nonces => .ok nonces
  | b :: blocks, nonces =>
    match replayBlock chainId b nonces with
    | .error e => .error e
    | .ok nonces' => replayBlocks chainId blocks nonces'

lemma nonceCheckAndUpdate_eq (txn : ValidatedTx) (nonces : FiniteMap Address Nonce) :
    nonceCheckAndUpdate txn nonces = NonceEvent.apply nonces txn.signer (.send txn.nonce) :=
  rfl

lemma systemTransactionNonceCheck_eq (txns : List ValidatedTx) (nonces : FiniteMap Address Nonce) :
    systemTransactionNonceCheck txns nonces =
      replayEvents (txns.map systemTransactionEvent) nonces := by
  induction txns generalizing nonces with
  | nil => rfl
  | cons txn txns ih =>
    rw [systemTransactionNonceCheck, map_cons, systemTransactionEvent, replayEvents,
      nonceCheckAndUpdate_eq]
    cases NonceEvent.apply nonces txn.signer (.send txn.nonce) with
    | error e => rfl
    | ok nonces' => exact ih nonces'

section

variable (chainId : Nat)
include chainId

lemma eip7702ValidNonceUpdate_eq (auths : List RecoveredAuthorization)
    (nonces : FiniteMap Address Nonce) :
    eip7702ValidNonceUpdate chainId auths nonces =
      replayEvents (authorizationEvents chainId auths) nonces := by
  induction auths generalizing nonces with
  | nil => rfl
  | cons auth auths ih =>
    unfold eip7702ValidNonceUpdate authorizationEvents
    cases hauthority : auth.authority with
    | none =>
      rw [filterMap_cons_none (by rw [hauthority]; rfl)]
      exact ih nonces
    | some authority =>
      by_cases hchain : auth.inner.isForChain chainId = true
      · rw [filterMap_cons_some (by rw [hauthority, bind_some, if_pos hchain])]
        simp only [hchain, Bool.not_true, Bool.false_eq_true, if_false, replayEvents,
          NonceEvent.apply]
        cases nonces.lookup authority with
        | none => rfl
        | some next => exact ih _
      · rw [filterMap_cons_none (by rw [hauthority, bind_some, if_neg hchain])]
        simp only [hchain, Bool.not_false, if_true]
        exact ih nonces

lemma transactionNonceUpdate_eq (txn : ValidatedTx) (nonces : FiniteMap Address Nonce) :
    transactionNonceUpdate chainId txn nonces =
      replayEvents (transactionEvents chainId txn) nonces := by
  rw [transactionNonceUpdate, transactionEvents, replayEvents, nonceCheckAndUpdate_eq]
  cases NonceEvent.apply nonces txn.signer (.send txn.nonce) with
  | error e => rfl
  | ok nonces' =>
    dsimp only
    split
    · exact eip7702ValidNonceUpdate_eq _ _ _
    · rfl

lemma transactionNonceUpdates_eq (txns : List ValidatedTx) (nonces : FiniteMap Address Nonce) :
    transactionNonceUpdates chainId txns nonces =
      replayEvents (txns.flatMap (transactionEvents chainId)) nonces := by
  induction txns generalizing nonces with
  | nil => rfl
  | cons txn txns ih =>
    rw [transactionNonceUpdates, transactionNonceUpdate_eq, flatMap_cons, replayEvents_append]
    cases replayEvents (transactionEvents chainId txn) nonces with
    | error e => rfl
    | ok nonces' => exact ih nonces'

theorem replayBlock_eq (b : EthValidatedBlock K) (nonces : FiniteMap Address Nonce) :
    replayBlock chainId b nonces = replayEvents (b.nonceEvents chainId) nonces := by
  rw [replayBlock, nonceEvents, replayEvents_append, systemTransactionNonceCheck_eq]
  cases replayEvents (b.systemTxns.map systemTransactionEvent) nonces with
  | error e => rfl
  | ok nonces' => exact transactionNonceUpdates_eq chainId b.validatedTxns nonces'

lemma replayBlocks_eq (blocks : List (EthValidatedBlock K)) (nonces : FiniteMap Address Nonce) :
    replayBlocks chainId blocks nonces =
      replayEvents (blocks.flatMap fun b => b.nonceEvents chainId) nonces := by
  induction blocks generalizing nonces with
  | nil => rfl
  | cons b blocks ih =>
    rw [replayBlocks, replayBlock_eq, flatMap_cons, replayEvents_append]
    cases replayEvents (b.nonceEvents chainId) nonces with
    | error e => rfl
    | ok nonces' => exact ih nonces'

end

/-! ## What the validator records -/

variable {txns : List ValidatedTx} {usages' : NonceUsageMap}

lemma addSystemTransactions_eq (h : addSystemTransactions usages txns = .ok usages') :
    usages' = (txns.map systemTransactionEvent).foldl NonceEvent.record usages := by
  induction txns generalizing usages with
  | nil =>
    cases h
    rfl
  | cons txn txns ih =>
    unfold addSystemTransactions at h
    split at h
    · cases h
    next usages1 hstep =>
    rw [ih h, map_cons, foldl_cons]
    congr 1
    unfold addSystemTransaction addKnown at hstep
    simp only at hstep
    split at hstep
    · cases hstep
    split at hstep
    · cases hstep
    · cases hstep
      rfl

lemma addAuthorizationNonce_eq {authority : Address} {nonce : Nonce}
    (h : addAuthorizationNonce usages authority nonce = .ok usages') :
    usages' = NonceEvent.record usages (authority, .authorize nonce) := by
  unfold addAuthorizationNonce at h
  unfold NonceEvent.record
  cases husage : usages.lookup authority with
  | none =>
    simp only [husage, ok.injEq] at h ⊢
    exact h.symm
  | some usage =>
    cases usage with
    | possible nonces =>
      simp only [husage, ok.injEq] at h ⊢
      exact h.symm
    | known last =>
      simp only [husage] at h ⊢
      cases hnext : checkedSucc last with
      | none =>
        rw [hnext] at h
        cases h
      | some next =>
        rw [hnext] at h
        cases h
        rw [checkedSucc_eq_some hnext]

variable {chainId : Nat}

lemma nonceUsages_addAuthorizations {auths : List RecoveredAuthorization}
    {summary summary' : BodySummary} (h : addAuthorizations chainId summary auths = .ok summary') :
    summary'.nonceUsages =
      (authorizationEvents chainId auths).foldl NonceEvent.record summary.nonceUsages := by
  induction auths generalizing summary with
  | nil =>
    cases h
    rfl
  | cons auth auths ih =>
    unfold addAuthorizations at h
    split at h
    · cases h
    next summary1 hstep =>
    rw [ih h]
    unfold addAuthorization at hstep
    unfold authorizationEvents
    cases hauthority : auth.authority with
    | none =>
      rw [hauthority] at hstep
      cases hstep
      rw [filterMap_cons_none (by rw [hauthority]; rfl)]
    | some authority =>
      rw [hauthority] at hstep
      simp only at hstep
      split at hstep
      · cases hstep
      by_cases hchain : auth.inner.isForChain chainId = true
      · rw [filterMap_cons_some (by rw [hauthority, bind_some, if_pos hchain]), foldl_cons]
        simp only [hchain, Bool.not_true, Bool.false_eq_true, if_false] at hstep
        split at hstep
        · cases hstep
        next nonceUsages hnonce =>
        cases hstep
        rw [addAuthorizationNonce_eq hnonce]
      · rw [filterMap_cons_none (by rw [hauthority, bind_some, if_neg hchain])]
        simp only [hchain, Bool.not_false, if_true, ok.injEq] at hstep
        rw [← hstep]

lemma nonceUsages_addTransactions {baseFee : Nat} {summary summary' : BodySummary}
    (h : addTransactions chainId baseFee summary txns = .ok summary') :
    summary'.nonceUsages =
      (txns.flatMap (transactionEvents chainId)).foldl NonceEvent.record summary.nonceUsages := by
  induction txns generalizing summary with
  | nil =>
    cases h
    rfl
  | cons txn txns ih =>
    unfold addTransactions at h
    split at h
    · cases h
    next summary1 hstep =>
    rw [ih h, flatMap_cons, foldl_append]
    congr 1
    unfold addTransaction addKnown at hstep
    simp only at hstep
    split at hstep
    · cases hstep
    split at hstep
    · cases hstep
    split at hstep
    · cases hstep
    next summary2 hauths =>
    cases hstep
    rw [transactionEvents, foldl_cons]
    split at hauths
    · next heip =>
      rw [if_pos heip, nonceUsages_addAuthorizations hauths]
      rfl
    · next heip =>
      cases hauths
      rw [if_neg heip]
      rfl

variable {b : EthValidatedBlock K}

theorem EthValidatedBlock.Validated.nonceUsages_eq [TxCodec]
    {chainConfig : ChainConfig} (h : b.Validated chainConfig) :
    b.nonceUsages = (b.nonceEvents chainConfig.chainId).foldl NonceEvent.record ∅ := by
  obtain ⟨body, hbody⟩ := h
  obtain ⟨ethTxns, usages, htxns, hchecks⟩ := validateBlockBody_spec hbody
  dsimp only at htxns hchecks
  have hsummary := nonceUsages_addTransactions hchecks.summary
  dsimp only at hsummary
  rw [hsummary, nonceEvents, foldl_append, htxns, addSystemTransactions_eq hchecks.systemNonces]

/-! ## Nonces at the start of a block -/

def nonceOf (status : Option EthAccount) : Nonce := (status.map nonce).getD 0

lemma accountReplay_of_notMem (h : ∀ event ∈ events, event.1 ≠ a) (next : Nonce) :
    accountReplay a events next = some next := by
  induction events with
  | nil => rfl
  | cons event events ih =>
    rw [accountReplay, if_neg (h _ mem_cons_self)]
    exact ih fun event hevent => h event (mem_cons_of_mem _ hevent)

lemma mem_signers_of_mem_nonceEvents
    {event : Address × NonceEvent} (h : event ∈ b.nonceEvents chainId) : event.1 ∈ b.signers := by
  rcases mem_append.1 h with h | h
  · obtain ⟨txn, hmem, rfl⟩ := mem_map.1 h
    exact mem_append_right _ (mem_map.2 ⟨txn, hmem, rfl⟩)
  · refine mem_append_left _ ?_
    obtain ⟨txn, hmem, hevent⟩ := mem_flatMap.1 h
    rcases mem_cons.1 hevent with rfl | hevent
    · exact mem_append_left _ (mem_map.2 ⟨txn, hmem, rfl⟩)
    · refine mem_append_right _ (mem_flatMap.2 ⟨txn, hmem, ?_⟩)
      split at hevent
      · obtain ⟨auth, hauth, heq⟩ := mem_filterMap.1 hevent
        obtain ⟨authority, hauthority, heq⟩ := bind_eq_some_iff.1 heq
        split at heq
        · cases heq
          exact mem_filterMap.2 ⟨auth, hauth, hauthority⟩
        · cases heq
      · cases hevent

variable {statuses : Address → Option EthAccount} {p : EthBlockPolicy K}

/-- The computed nonces: the usages of the blocks after the base block act on the nonce in
the execution state. -/
lemma Split.getAccountBaseNonces_eq {k : Nat}
    {chain committed extending : List (EthValidatedBlock K)}
    (h : Split p k chain committed extending) {stateRead : ExecutionStateRead K}
    (hstatuses : p.getAccountStatuses stateRead (some extending)
      (baseSeqNum (chain.length + 1) k) = .ok statuses) (addresses : List Address) :
    ∃ nonces, p.getAccountBaseNonces (chain.length + 1) stateRead extending addresses = .ok nonces ∧
      ∀ a ∈ addresses, nonces.lookup a = some ((chain.drop (baseSeqNum (chain.length + 1) k)).foldl
          (fun nonce b => b.nonceUsages.act a nonce) (nonceOf (statuses a))) := by
  unfold getAccountBaseNonces
  simp only [h.tracks.executionDelay, h.nonceBlocks_eq, hstatuses]
  have hcollect : ∃ nonces, collectKeys (fun a =>
      match (mergeBlocks (fun a => addresses.contains a)
          ((chain.drop (baseSeqNum (chain.length + 1) k)).map nonceUsages)).lookup a with
      | some (.known nonce) => (.ok (nonce + 1) : Except Failure Nonce)
      | some (.possible possible) =>
        .ok (NonceUsage.applyPossibleNoncesToAccountNonce
          (((statuses a).map nonce).getD 0) possible)
      | none => .ok (((statuses a).map nonce).getD 0)) addresses = .ok nonces :=
    exists_collectKeys fun a _ => by split <;> exact ⟨_, rfl⟩
  obtain ⟨nonces, hnonces⟩ := hcollect
  refine ⟨nonces, hnonces, fun a ha => ?_⟩
  rw [lookup_collectKeys hnonces]
  refine ⟨ha, ?_⟩
  have hact := @act_mergeBlocks a (fun a => addresses.contains a) (by simpa using ha)
    ((chain.drop (baseSeqNum (chain.length + 1) k)).map nonceUsages)
    (nonceOf (statuses a))
  rw [foldl_map] at hact
  rw [← hact]
  unfold act
  split <;> simp_all [NonceUsage.applyToAccountNonce, nonceOf]

variable {blocks : List (EthValidatedBlock K)}

lemma foldl_act_of_accountReplay [TxCodec] {chainConfig : ChainConfig}
    (hvalid : ∀ b ∈ blocks, b.Validated chainConfig) {start next : Nonce}
    (h : accountReplay a (blocks.flatMap fun b => b.nonceEvents chainConfig.chainId) start
      = some next) : blocks.foldl (fun nonce b => b.nonceUsages.act a nonce) start = next := by
  induction blocks generalizing start with
  | nil => exact Option.some.inj h
  | cons b blocks ih =>
    rw [flatMap_cons, accountReplay_append] at h
    obtain ⟨next1, hblock, hrest⟩ := bind_eq_some_iff.1 h
    have hact : b.nonceUsages.act a start = next1 := by
      rw [(hvalid b mem_cons_self).nonceUsages_eq]
      refine act_foldl_record ?_
      exact hblock
    rw [foldl_cons, hact]
    exact ih (fun b' hb' => hvalid b' (mem_cons_of_mem _ hb')) hrest

/-- The execution states of the blocks of a chain have the nonces `state`: executing a block
takes the nonces to where its replay takes them. -/
structure FollowsChain (chainConfig : ChainConfig) (stateRead : ExecutionStateRead K)
    (chain : List (EthValidatedBlock K)) (state : Nat → Address → Nonce) : Prop where
  read : ∀ h index, chainBlockIndex chain h = some index → ∀ isFinalized statuses,
    stateRead.getAccountStatuses index.1 h isFinalized = .ok statuses →
      ∀ a, nonceOf (statuses a) = state h a
  step : ∀ h b, chain[h]? = some b → ∀ nonces nonces',
    (∀ a next, nonces.lookup a = some next → next = state h a) →
      replayBlock chainConfig.chainId b nonces = .ok nonces' →
        ∀ a next, nonces'.lookup a = some next → next = state (h + 1) a

/-- The block replays on the nonces of the state before it. -/
def ReplaysAt (chainId : Nat) (state : Nat → Address → Nonce) (h : Nat)
    (b : EthValidatedBlock K) : Prop :=
  ∀ nonces : FiniteMap Address Nonce, (∀ a ∈ b.signers, a ∈ nonces) →
    (∀ a next, nonces.lookup a = some next → next = state h a) →
      ∃ nonces', replayBlock chainId b nonces = .ok nonces'

section

variable {chainConfig : ChainConfig} {stateRead : ExecutionStateRead K}
  {chain : List (EthValidatedBlock K)} {state : Nat → Address → Nonce}

lemma FollowsChain.of_append {rest : List (EthValidatedBlock K)}
    (h : FollowsChain chainConfig stateRead (chain ++ rest) state) :
    FollowsChain chainConfig stateRead chain state where
  read := by
    intro n index hindex
    refine h.read n index ?_
    unfold chainBlockIndex at hindex ⊢
    split at hindex
    · next hgenesis => rw [if_pos hgenesis, hindex]
    · next hgenesis =>
      rw [if_neg hgenesis]
      obtain ⟨b, hb, rfl⟩ := map_eq_some_iff.1 hindex
      rw [List.getElem?_append_left (List.getElem?_eq_some_iff.1 hb).1, hb, Option.map_some]
  step := by
    intro n b hb
    refine h.step n b ?_
    rw [List.getElem?_append_left (List.getElem?_eq_some_iff.1 hb).1, hb]

lemma FollowsChain.exists_replayBlocks (hfollows : FollowsChain chainConfig stateRead chain state)
    (hreplays : ∀ h b, chain[h]? = some b → ReplaysAt chainConfig.chainId state h b) {h : Nat}
    (hblocks : chain.drop h = blocks) (hsigners : ∀ b ∈ blocks, ∀ a ∈ b.signers, a ∈ nonces)
    (hstate : ∀ a next, nonces.lookup a = some next → next = state h a) :
    ∃ final, replayBlocks chainConfig.chainId blocks nonces = .ok final ∧
      ∀ a next, final.lookup a = some next → next = state (h + blocks.length) a := by
  induction blocks generalizing h nonces with
  | nil => exact ⟨nonces, rfl, hstate⟩
  | cons b blocks ih =>
    have hb : chain[h]? = some b := by
      rw [← head?_drop, hblocks, head?_cons]
    have hrest : chain.drop (h + 1) = blocks := by
      rw [← drop_drop, hblocks, drop_succ_cons, drop_zero]
    obtain ⟨nonces', hreplay⟩ := hreplays h b hb nonces (hsigners b mem_cons_self) hstate
    have hmem : ∀ a, a ∈ nonces' ↔ a ∈ nonces :=
      mem_replayEvents (replayBlock_eq chainConfig.chainId b nonces ▸ hreplay)
    obtain ⟨final, hfinal, hstate'⟩ := ih hrest
      (fun b' hb' a ha => (hmem a).2 (hsigners b' (mem_cons_of_mem _ hb') a ha))
      (hfollows.step h b hb nonces nonces' hstate hreplay)
    refine ⟨final, by rw [replayBlocks, hreplay]; exact hfinal, fun a next hnext => ?_⟩
    rw [length_cons, hstate' a next hnext]
    congr 1
    omega

/-- The nonces that are read for the base block are those of its state. -/
lemma FollowsChain.nonceOf_eq (hfollows : FollowsChain chainConfig stateRead chain state)
    {k : Nat} {committed extending : List (EthValidatedBlock K)}
    (hs : Split p k chain committed extending)
    (hstatuses : p.getAccountStatuses stateRead (some extending)
      (baseSeqNum (chain.length + 1) k) = .ok statuses) (a : Address) :
    nonceOf (statuses a) = state (baseSeqNum (chain.length + 1) k) a := by
  obtain ⟨index, hindex, hchainIndex, -⟩ := hs.getBlockIndex_eq hs.base_le Split.base_recent
  unfold getAccountStatuses at hstatuses
  rw [hindex] at hstatuses
  dsimp only at hstatuses
  cases hread : stateRead.getAccountStatuses index.blockId (baseSeqNum (chain.length + 1) k)
      index.isFinalized with
  | error e =>
    rw [hread] at hstatuses
    cases hstatuses
  | ok statuses' =>
    rw [hread] at hstatuses
    cases hstatuses
    exact hfollows.read _ _ hchainIndex _ _ hread a

end

section

variable [TxCodec] {chainConfig : ChainConfig} {k : Nat} {stateRead : ExecutionStateRead K}
  {chain committed extending : List (EthValidatedBlock K)} {p : EthBlockPolicy K}

/-- The computed nonces agree with a replay that goes through. -/
lemma Split.lookup_getAccountBaseNonces (hs : Split p k chain committed extending)
    (hvalid : ∀ b ∈ chain, b.Validated chainConfig)
    (hstatuses : p.getAccountStatuses stateRead (some extending)
      (baseSeqNum (chain.length + 1) k) = .ok statuses) {addresses : List Address}
    (hnonces : p.getAccountBaseNonces (chain.length + 1) stateRead extending addresses
      = .ok nonces) {start final : FiniteMap Address Nonce}
    (hstart : ∀ a next, start.lookup a = some next → next = nonceOf (statuses a))
    (hreplay : replayBlocks chainConfig.chainId
      (chain.drop (baseSeqNum (chain.length + 1) k)) start = .ok final)
    (ha : a ∈ addresses) (hmem : a ∈ start) : nonces.lookup a = final.lookup a := by
  obtain ⟨nonces', hnonces', hlookup⟩ := hs.getAccountBaseNonces_eq hstatuses addresses
  rw [hnonces, ok.injEq] at hnonces'
  subst hnonces'
  obtain ⟨next, hnext⟩ := mem_iff_lookup.1 hmem
  rw [replayBlocks_eq] at hreplay
  obtain ⟨next', hrun, hfinal⟩ := exists_accountReplay hreplay hnext
  rw [hlookup a ha, hfinal, ← hstart a next hnext]
  exact congrArg some (foldl_act_of_accountReplay (fun b hb => hvalid b (mem_of_mem_drop hb)) hrun)

/-- Every block of a coherent chain replays on the state before it. -/
lemma CoherentChain.replaysAt [ExtractEthAddress K] (hk : 1 ≤ k)
    (hcoherent : CoherentChain chainConfig k stateRead chain) {state : Nat → Address → Nonce}
    (hfollows : FollowsChain chainConfig stateRead chain state) :
    ∀ h b, chain[h]? = some b → ReplaysAt chainConfig.chainId state h b := by
  induction hcoherent with
  | nil => simp
  | @snoc chain committed extending block p root hchain hvalid hsplit hcommit hroot hblock ih =>
    have hfollows' := hfollows.of_append
    have hreplays := ih hfollows'
    intro h b hb
    rw [getElem?_append] at hb
    split at hb
    · exact hreplays h b hb
    -- the new block: its own check replays it on the computed nonces
    next hge =>
    rw [getElem?_singleton] at hb
    split at hb
    · next heq =>
      cases hb
      have hlen : h = chain.length := by omega
      subst hlen
      have hs := split_of_updateCommittedBlocks hk (hchain.isChain hk) hsplit hcommit
      have hseq : block.getSeqNum = chain.length + 1 := by
        rw [getSeqNum_of_checkCoherency hblock, hs.extendedBlock_fst hroot]
      obtain ⟨accountNonces, accountNonces', finalNonces, hnonces, hsystem, hfinal⟩ :=
        (checkAccounts_of_checkCoherency hblock).nonces
      rw [hseq] at hnonces
      have hstatuses : ∃ statuses, p.getAccountStatuses stateRead (some extending)
          (baseSeqNum (chain.length + 1) k) = .ok statuses := by
        unfold getAccountBaseNonces at hnonces
        rw [hs.tracks.executionDelay] at hnonces
        cases hread : p.getAccountStatuses stateRead (some extending)
            (baseSeqNum (chain.length + 1) k) with
        | error e => simp [hread] at hnonces
        | ok statuses => exact ⟨statuses, rfl⟩
      obtain ⟨statuses, hstatuses⟩ := hstatuses
      -- a map with all accounts that the blocks since the base block and the new block name
      obtain ⟨start, hstart⟩ := exists_collectKeys
        (show ∀ a ∈ (chain.drop (baseSeqNum (chain.length + 1) k)).flatMap signers ++ block.signers,
          ∃ next, (fun a => (.ok (state (baseSeqNum (chain.length + 1) k) a) :
            Except Failure Nonce)) a = .ok next from fun a _ => ⟨_, rfl⟩)
      have hmem := mem_collectKeys hstart
      have hvalues : ∀ a next, start.lookup a = some next →
          next = state (baseSeqNum (chain.length + 1) k) a := by
        intro a next hnext
        have hvalue := ((lookup_collectKeys hstart a next).1 hnext).2
        cases hvalue
        rfl
      obtain ⟨final, hreplay, hstate⟩ := hfollows'.exists_replayBlocks hreplays rfl
        (fun b' hb' a ha => (hmem a).2 (mem_append_left _ (mem_flatMap.2 ⟨b', hb', ha⟩)))
        hvalues
      have hbase := hs.base_le
      have hend : baseSeqNum (chain.length + 1) k +
          (chain.drop (baseSeqNum (chain.length + 1) k)).length = chain.length := by
        rw [length_drop]
        omega
      rw [hend] at hstate
      have haccount : ∀ a ∈ block.signers, accountNonces.lookup a = some (state chain.length a) := by
        intro a ha
        have hin := (hmem a).2 (mem_append_right _ ha)
        rw [hs.lookup_getAccountBaseNonces hchain.validated hstatuses hnonces (fun b next hnext =>
            (hvalues b next hnext).trans (hfollows'.nonceOf_eq hs hstatuses b).symm) hreplay ha hin]
        have hin' : a ∈ final := by
          rw [replayBlocks_eq] at hreplay
          exact (mem_replayEvents hreplay a).2 hin
        obtain ⟨next, hnext⟩ := mem_iff_lookup.1 hin'
        rw [hnext, hstate a next hnext]
      have hcheck : replayEvents (block.nonceEvents chainConfig.chainId) accountNonces
          = .ok finalNonces := by
        rw [← replayBlock_eq, replayBlock, hsystem]
        exact hfinal
      intro nonces hsigners hvalues'
      rw [replayBlock_eq]
      refine exists_replayEvents
        (fun event hevent => hsigners _ (mem_signers_of_mem_nonceEvents hevent))
        fun a next hnext => ?_
      rw [hvalues' a next hnext]
      by_cases ha : a ∈ block.signers
      · obtain ⟨next', hrun, -⟩ := exists_accountReplay hcheck (haccount a ha)
        exact ⟨next', hrun⟩
      · refine ⟨_, accountReplay_of_notMem (fun event hevent heq => ha ?_) _⟩
        exact heq ▸ mem_signers_of_mem_nonceEvents hevent
    · cases hb

/-- On a coherent chain, the nonces computed for the next block are those of a replay of the
transactions and authorizations since the base block.  The replay goes through if the
execution states follow the chain. -/
theorem getAccountBaseNonces_eq_replay [ExtractEthAddress K] (hk : 1 ≤ k)
    (hcoherent : CoherentChain chainConfig k stateRead chain)
    (hsplit : chain = committed ++ extending)
    (hcommit : (EthBlockPolicy.new genesisSeqNum k).updateCommittedBlocks committed = some p)
    {statuses : Address → Option EthAccount}
    (hstatuses : p.getAccountStatuses stateRead (some extending)
      (baseSeqNum (chain.length + 1) k) = .ok statuses) (addresses : List Address) :
    ∃ nonces, p.getAccountBaseNonces (chain.length + 1) stateRead extending addresses = .ok nonces ∧
      ∀ start : FiniteMap Address Nonce,
        (∀ a next, start.lookup a = some next → next = nonceOf (statuses a)) →
        (∀ b ∈ chain.drop (baseSeqNum (chain.length + 1) k), ∀ a ∈ b.signers, a ∈ start) →
        (∀ final, replayBlocks chainConfig.chainId
            (chain.drop (baseSeqNum (chain.length + 1) k)) start = .ok final →
          ∀ a ∈ addresses, a ∈ start → nonces.lookup a = final.lookup a) ∧
        ∀ state, FollowsChain chainConfig stateRead chain state →
          ∃ final, replayBlocks chainConfig.chainId
            (chain.drop (baseSeqNum (chain.length + 1) k)) start = .ok final := by
  have hs := split_of_updateCommittedBlocks hk (hcoherent.isChain hk) hsplit hcommit
  obtain ⟨nonces, hnonces, -⟩ := hs.getAccountBaseNonces_eq hstatuses addresses
  refine ⟨nonces, hnonces, fun start hstart hsigners => ⟨fun final hreplay a ha hmem => ?_,
    fun state hfollows => ?_⟩⟩
  · exact hs.lookup_getAccountBaseNonces hcoherent.validated hstatuses hnonces hstart hreplay ha hmem
  · obtain ⟨final, hreplay, -⟩ := hfollows.exists_replayBlocks (hcoherent.replaysAt hk hfollows) rfl
      hsigners fun a next hnext =>
        (hstart a next hnext).trans (hfollows.nonceOf_eq hs hstatuses a)
    exact ⟨final, hreplay⟩

/-- On a coherent chain whose execution states follow it, the transactions of an account have
increasing nonces, so that no transaction is in the chain twice, as long as its transactions
and authorizations do not exhaust the nonces. -/
theorem CoherentChain.nonces_increasing [ExtractEthAddress K] (hk : 1 ≤ k)
    (hcoherent : CoherentChain chainConfig k stateRead chain) {state : Nat → Address → Nonce}
    (hfollows : FollowsChain chainConfig stateRead chain state) {a : Address}
    (hlen : (state 0 a).toNat +
      (chain.flatMap fun b => b.nonceEvents chainConfig.chainId).countP (·.1 = a) < 2 ^ 64) :
    ((chain.flatMap fun b => b.nonceEvents chainConfig.chainId).filterMap
      (sendNonce a)).Pairwise (· < ·) := by
  -- replay the chain on a map with all accounts that it names
  obtain ⟨start, hstart⟩ := exists_collectKeys (show ∀ b ∈ a :: chain.flatMap signers,
    ∃ next, (fun b => (.ok (state 0 b) : Except Failure Nonce)) b = .ok next from fun b _ => ⟨_, rfl⟩)
  have hmem := mem_collectKeys hstart
  have hvalues : ∀ b next, start.lookup b = some next → next = state 0 b := by
    intro b next hnext
    cases ((lookup_collectKeys hstart b next).1 hnext).2
    rfl
  obtain ⟨final, hreplay, -⟩ := hfollows.exists_replayBlocks (hcoherent.replaysAt hk hfollows)
    chain.drop_zero (fun b hb c hc => (hmem c).2 (mem_cons_of_mem _ (mem_flatMap.2 ⟨b, hb, hc⟩)))
    hvalues
  obtain ⟨next, hnext⟩ := mem_iff_lookup.1 ((hmem a).2 mem_cons_self)
  rw [replayBlocks_eq] at hreplay
  obtain ⟨_, hrun, -⟩ := exists_accountReplay hreplay hnext
  rw [← hvalues a next hnext] at hlen
  exact (accountReplay_increasing hlen hrun).1

end

namespace Sample

def freshNonces : FiniteMap Address Nonce := insert alice 0 (insert bob 0 ∅)

/-- A second block, in which both send a transaction. -/
def following : EthValidatedBlock mockTypes :=
  blockOf (header delegating.header.getId 2 10 (feesAfter delegating.getTotalGas firstFees) [])
    [transfer alice 2 1, transfer bob 2 0]

/-- Nonces before and after the two blocks. -/
def delegatedNonces (h : Nat) (a : Address) : Nonce :=
  if a = alice ∨ a = bob then if h = 0 then 0 else if h = 1 then 2 else 3 else 0

def delegatedReads : ExecutionStateRead mockTypes :=
  reads fun h a =>
    if a = alice ∨ a = bob then
      some ⟨delegatedNonces h a, 10000000000000000000, false, tenTokens_le_balanceMax⟩
    else none

lemma nonceEvents_delegating : delegating.nonceEvents chainConfig.chainId =
    [(alice, .send 0), (alice, .send 1), (bob, .authorize 0), (bob, .send 1)] := by
  decide +kernel

lemma nonceEvents_following : following.nonceEvents chainConfig.chainId =
    [(alice, .send 2), (bob, .send 2)] := by
  decide +kernel

/-- A block of Alice and Bob leads from one height to the next, if it does so for both. -/
lemma delegatedNonces_of_replay {h : Nat} {events : List (Address × NonceEvent)}
    (hevents : ∀ e ∈ events, e.1 = alice ∨ e.1 = bob)
    (halice : accountReplay alice events (delegatedNonces h alice)
      = some (delegatedNonces (h + 1) alice))
    (hbob : accountReplay bob events (delegatedNonces h bob) = some (delegatedNonces (h + 1) bob))
    {nonces nonces' : FiniteMap Address Nonce}
    (hvalues : ∀ a next, nonces.lookup a = some next → next = delegatedNonces h a)
    (hreplay : replayEvents events nonces = .ok nonces') {a : Address} {next : Nonce}
    (hnext : nonces'.lookup a = some next) : next = delegatedNonces (h + 1) a := by
  obtain ⟨start, hstart⟩ := mem_iff_lookup.1
    ((mem_replayEvents hreplay a).1 (mem_iff_lookup.2 ⟨next, hnext⟩))
  obtain ⟨next', hrun, hnext'⟩ := exists_accountReplay hreplay hstart
  rw [hnext, some.injEq] at hnext'
  subst hnext'
  rw [hvalues a start hstart] at hrun
  by_cases ha : a = alice ∨ a = bob
  · rcases ha with rfl | rfl
    · exact Option.some.inj (hrun.symm.trans halice)
    · exact Option.some.inj (hrun.symm.trans hbob)
  · have habsent : ∀ e ∈ events, e.1 ≠ a := by
      rintro e he rfl
      exact ha (hevents e he)
    rw [accountReplay_of_notMem habsent] at hrun
    simpa [delegatedNonces, ha, eq_comm] using hrun

lemma followsChain_delegating :
    FollowsChain chainConfig delegatedReads [delegating, following] delegatedNonces where
  read := by
    rintro h index - isFinalized statuses ⟨⟩ a
    by_cases ha : a = alice ∨ a = bob <;> simp [nonceOf, ha, delegatedNonces]
  step := by
    intro h b hb nonces nonces' hvalues hreplay a next hnext
    rw [replayBlock_eq] at hreplay
    rcases h with _ | _ | h
    · rw [← Option.some.inj hb, nonceEvents_delegating] at hreplay
      exact delegatedNonces_of_replay (by decide) (by decide) (by decide) hvalues hreplay hnext
    · rw [← Option.some.inj hb, nonceEvents_following] at hreplay
      exact delegatedNonces_of_replay (by decide) (by decide) (by decide) hvalues hreplay hnext
    · simp at hb

lemma coherentChain_delegating :
    @CoherentChain _ codec _ chainConfig 3 delegatedReads [delegating, following] := by
  have hfirst : @CoherentChain _ codec _ chainConfig 3 delegatedReads [delegating] :=
    @CoherentChain.snoc _ codec _ _ _ _ [] [] [] _ _ (root 0 0)
      (@CoherentChain.nil _ codec _ _ _ _) (validated_blockOf (by decide +kernel)) rfl rfl rfl
      (by decide +kernel)
  exact @CoherentChain.snoc _ codec _ _ _ _ [delegating] [] [delegating] _ _ (root 0 0) hfirst
    (validated_blockOf (by decide +kernel)) rfl rfl rfl (by decide +kernel)

/-- After a block with Bob's authorization and his transaction, and another block, the nonces
computed for the third block are those of the replay of both. -/
theorem getAccountBaseNonces_eq_replay_delegating :
    ∃ nonces final, (EthBlockPolicy.new genesisSeqNum 3).getAccountBaseNonces 3 delegatedReads
        [delegating, following] [alice, bob] = .ok nonces ∧
      replayBlocks chainConfig.chainId [delegating, following] freshNonces = .ok final ∧
      nonces.lookup alice = final.lookup alice ∧ nonces.lookup bob = final.lookup bob := by
  obtain ⟨nonces, hnonces, hreplay⟩ := @getAccountBaseNonces_eq_replay _ codec _ _ _ _ _ _ _ _
    (show 1 ≤ 3 by decide) coherentChain_delegating
    (show [delegating, following] = [] ++ [delegating, following] from rfl) rfl _ rfl [alice, bob]
  have hsigners : ∀ b ∈ [delegating, following], ∀ a ∈ b.signers, a ∈ freshNonces := by
    have hall : ([delegating, following].flatMap signers).all
        (fun a => (freshNonces.lookup a).isSome) = true := by
      decide +kernel
    intro b hb a ha
    exact lookup_isSome.1 (all_eq_true.1 hall a (mem_flatMap.2 ⟨b, hb, ha⟩))
  obtain ⟨hagree, hexists⟩ := hreplay freshNonces (fun a next hnext => by
    rw [freshNonces, lookup_insert_eq_ite, lookup_insert_eq_ite] at hnext
    have hzero : next = 0 := by split_ifs at hnext <;> simp_all
    rw [hzero]
    by_cases ha : a = alice ∨ a = bob <;> simp [nonceOf, ha, delegatedNonces, baseSeqNum]) hsigners
  obtain ⟨final, hfinal⟩ := hexists delegatedNonces followsChain_delegating
  exact ⟨nonces, final, hnonces, hfinal,
    hagree final hfinal alice (by simp) (lookup_isSome.1 (by decide +kernel)),
    hagree final hfinal bob (by simp) (lookup_isSome.1 (by decide +kernel))⟩

/-- Alice's transactions of both blocks. -/
theorem nonces_increasing_delegating :
    (([delegating, following].flatMap fun b => b.nonceEvents chainConfig.chainId).filterMap
      (sendNonce alice)).Pairwise (· < ·) :=
  @CoherentChain.nonces_increasing _ codec _ _ _ _ _ (show 1 ≤ 3 by decide)
    coherentChain_delegating _ followsChain_delegating alice (by decide +kernel)

end Sample

end Kinet.Eth
