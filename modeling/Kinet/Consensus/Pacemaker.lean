import Kinet.Consensus.Safety

/-!
# The pacemaker

Rounds advance with certificates.  A local timer, or timeouts of enough other
nodes, makes a node send a timeout; a supermajority of timeouts becomes the
timeout certificate of the round.

Main results:

- `Pacemaker.processCertificate_spec`: a certificate is ignored or starts its
  next round.
-/

namespace Kinet

variable {K : TypeParams}

/-- Whether an honest timeout of the round is known. -/
inductive PhaseHonest where
  | zero
  | one
deriving DecidableEq

structure Pacemaker (K : TypeParams) where
  currentEpoch : Nat
  /-- certificate that started the current round -/
  highCertificate : RoundCertificate K
  pendingTimeouts : FiniteMap K.NodeId (Timeout K)
  invalidTimeoutSenders : Finset K.NodeId
  phase : PhaseHonest

inductive PacemakerCommand (K : TypeParams) where
  | enterRound (epoch round : Nat) (certificate : RoundCertificate K)
  | prepareTimeout (info : TimeoutInfo) (highExtend : HighExtend K) (safeToVote : Bool)
      (lastRoundCertificate : Option (RoundCertificate K))
  | schedule (round duration : Nat)
  | scheduleReset

namespace Pacemaker

/-- The start of the round after `highCertificate`. -/
def entered (epoch : Nat) (highCertificate : RoundCertificate K) : Pacemaker K :=
  ⟨epoch, highCertificate, ∅, ∅, .zero⟩

def new (epochManager : EpochManager) (highCertificate : RoundCertificate K) :
    Except Panic (Pacemaker K) :=
  match epochManager.getEpoch (highCertificate.round + 1) with
  | none => .error .epochUnknown
  | some epoch => .ok (entered epoch highCertificate)

/-- The round after the high certificate. -/
def getCurrentRound (p : Pacemaker K) : Nat := p.highCertificate.round + 1

def enterCommands (env : Env K) (epoch : Nat) (certificate : RoundCertificate K) :
    List (PacemakerCommand K) :=
  [.enterRound epoch (certificate.round + 1) certificate,
    .schedule (certificate.round + 1) (env.getRoundTimer (certificate.round + 1))]

/-- Enter the next round of a certificate that is higher than the last one. -/
def processCertificate (env : Env K) (epochManager : EpochManager) (p : Pacemaker K)
    (safety : Safety K) (certificate : RoundCertificate K) :
    Except Panic (List (PacemakerCommand K) × Pacemaker K × Safety K) :=
  if certificate.round ≤ p.highCertificate.round then .ok ([], p, safety)
  else
    match epochManager.getEpoch (certificate.round + 1) with
    | none => .error .epochUnknown
    | some epoch =>
      .ok (enterCommands env epoch certificate, entered epoch certificate,
        safety.processCertificate certificate)

variable (p : Pacemaker K) (safety : Safety K)

/-- What a timeout reports: the high tip, or else the certificate of the high
certificate. -/
def highExtend : HighExtend K :=
  match safety.maybeHighTip with
  | some tip => .tip tip
  | none => .qc p.highCertificate.getQc

def timeoutInfo : TimeoutInfo where
  epoch := p.currentEpoch
  round := p.getCurrentRound
  highTipRound :=
    match p.highExtend safety with
    | .tip tip => tip.blockHeader.blockRound
    | .qc _ => genesisRound
  highQcRound := (p.highExtend safety).getQc.getRound

/-- The certificate of the previous round, unless the report carries it. -/
def lastRoundCertificate : Option (RoundCertificate K) :=
  if (p.timeoutInfo safety).highQcRound + 1 = p.getCurrentRound then none
  else some p.highCertificate

section

variable (env : Env K) (p : Pacemaker K) (safety : Safety K)

def timeoutCommands (safeToVote : Bool) : List (PacemakerCommand K) :=
  [.scheduleReset, .prepareTimeout (p.timeoutInfo safety) (p.highExtend safety) safeToVote
      (p.lastRoundCertificate safety),
    .schedule p.getCurrentRound (env.getRoundTimer p.getCurrentRound)]

def localTimeoutRound : Except Panic (List (PacemakerCommand K) × Safety K) := do
  let (safeToIncludeVote, safety) ← safety.timeout p.getCurrentRound
  pure (p.timeoutCommands env safety safeToIncludeVote, safety)

def processLocalTimeout : Except Panic (List (PacemakerCommand K) × Pacemaker K × Safety K) := do
  let p := { p with phase := .one }
  let (cmds, safety) ← p.localTimeoutRound env safety
  pure (cmds, p, safety)

end

/-- Drop timeouts with invalid signatures and remember their senders. -/
def handleInvalidTimeout (p : Pacemaker K) (invalidTimeouts : List (K.NodeId × K.SignatureType)) :
    Pacemaker K :=
  { p with
    invalidTimeoutSenders := p.invalidTimeoutSenders ∪ (invalidTimeouts.map Prod.fst).toFinset
    pendingTimeouts := p.pendingTimeouts.retain fun node _ =>
      decide (node ∉ invalidTimeouts.map Prod.fst) }

/-- Build a timeout certificate from the pending timeouts, dropping invalid ones. -/
def buildTcLoop (env : Env K) (validators : ValidatorSet K) (mapping : ValidatorMapping K)
    (epoch round : Nat) : Nat → Pacemaker K →
      Except Panic (Option (TimeoutCertificate K) × Pacemaker K)
  | 0, _ => .error .outOfFuel
  | fuel + 1, p =>
    match validators.hasSuperMajorityVotes (p.pendingTimeouts.sortedPairs.map Prod.fst) with
    | .error _ => .error .duplicateSigners
    | .ok false => .ok (none, p)
    | .ok true =>
      match TimeoutCertificate.new env.scheme env.groupOrder epoch round
          p.pendingTimeouts.sortedPairs mapping with
      | .ok tc => .ok (some tc, p)
      | .error (.invalidSignaturesCreate invalidSigs) =>
        buildTcLoop env validators mapping epoch round fuel (p.handleInvalidTimeout invalidSigs)
      | .error _ => .error .timeoutCollection

/-- With timeouts of more than a third of the stake, time out as well. -/
def joinTimeout (env : Env K) (validators : ValidatorSet K) (p : Pacemaker K) (safety : Safety K) :
    Except Panic (List (PacemakerCommand K) × Pacemaker K × Safety K) :=
  match p.phase with
  | .one => .ok ([], p, safety)
  | .zero =>
    match validators.hasHonestVote (p.pendingTimeouts.sortedPairs.map Prod.fst) with
    | .error _ => .error .duplicateSigners
    | .ok false => .ok ([], p, safety)
    | .ok true => do
      let (cmds, safety) ← p.localTimeoutRound env safety
      pure (cmds, { p with phase := .one }, safety)

/-- A timeout of another node.  The result includes the timeout certificate that it
completes, with the timeouts in it. -/
def processRemoteTimeout (env : Env K) (epochManager : EpochManager)
    (validators : ValidatorSet K) (mapping : ValidatorMapping K) (p : Pacemaker K)
    (safety : Safety K) (author : K.NodeId) (timeoutMsg : Timeout K) :
    Except Panic (List (PacemakerCommand K) ×
      Option (TimeoutCertificate K × List (K.NodeId × Timeout K)) × Pacemaker K × Safety K) :=
  let tmInfo := timeoutMsg.tminfo
  if tmInfo.round < p.getCurrentRound then .ok ([], none, p, safety)
  else if tmInfo.round ≠ p.getCurrentRound then .error .timeoutRoundMismatch
  else if author ∈ p.invalidTimeoutSenders then .ok ([], none, p, safety)
  else do
    let p := { p with pendingTimeouts := p.pendingTimeouts.insert author timeoutMsg }
    let (cmds, p, safety) ← p.joinTimeout env validators safety
    match p.phase with
    | .zero => pure (cmds, none, p, safety)
    | .one => do
      let (tc, p) ← buildTcLoop env validators mapping tmInfo.epoch tmInfo.round
        (p.pendingTimeouts.keys.length + 1) p
      match tc with
      | none => pure (cmds, none, p, safety)
      | some tc => do
        let timeouts := p.pendingTimeouts.sortedPairs
        let (cmds', p, safety) ← p.processCertificate env epochManager safety (.tc tc)
        if p.phase ≠ .zero then .error .timeoutPhase
        else pure (cmds ++ cmds', some (tc, timeouts), p, safety)

/-! ## Certificates -/

section

open Effect

variable {env : Env K} {epochManager : EpochManager} {p p' : Pacemaker K} {safety safety' : Safety K}
  {cmds : List (PacemakerCommand K)} {certificate : RoundCertificate K}

theorem processCertificate_spec :
    Ends (p.processCertificate env epochManager safety certificate) (fun (cmds, p', safety') =>
      (certificate.round < p.getCurrentRound ∧ cmds = [] ∧ p' = p ∧ safety' = safety) ∨
      (p.getCurrentRound ≤ certificate.round ∧ ∃ epoch,
        cmds = enterCommands env epoch certificate ∧ p' = entered epoch certificate ∧
        safety' = safety.processCertificate certificate)) (·.isAssertion = false) := by
  unfold processCertificate
  split
  · next hle => exact .inl ⟨Nat.lt_succ_of_le hle, rfl, rfl, rfl⟩
  · next hlt =>
    split
    · rfl
    · next epoch _ =>
      exact .inr ⟨Nat.succ_le_of_lt (Nat.lt_of_not_le hlt), epoch, rfl, rfl, rfl⟩

/-! ## Timeouts -/

lemma localTimeoutRound_of_le (h : safety.highestVote ≤ p.getCurrentRound) :
    p.localTimeoutRound env safety =
      .ok (p.timeoutCommands env safety (safety.safeToIncludeVote p.getCurrentRound),
        { safety with highestVote := p.getCurrentRound }) := by
  unfold localTimeoutRound
  rw [Safety.timeout_of_le h]
  rfl

lemma processLocalTimeout_of_le (h : safety.highestVote ≤ p.getCurrentRound) :
    p.processLocalTimeout env safety =
      .ok (p.timeoutCommands env safety (safety.safeToIncludeVote p.getCurrentRound),
        { p with phase := .one }, { safety with highestVote := p.getCurrentRound }) := by
  have hlocal : ({ p with phase := .one } : Pacemaker K).localTimeoutRound env safety = _ :=
    localTimeoutRound_of_le h
  unfold processLocalTimeout
  simp only
  rw [hlocal]
  rfl

/-- Timeouts with invalid signatures were dropped, any number of times. -/
def Dropped : Pacemaker K → Pacemaker K → Prop :=
  Relation.ReflTransGen fun p p' => ∃ invalid, p' = p.handleInvalidTimeout invalid

lemma Dropped.highCertificate_eq (h : Dropped p p') : p'.highCertificate = p.highCertificate := by
  induction h with
  | refl => rfl
  | tail _ hstep ih =>
    obtain ⟨invalid, rfl⟩ := hstep
    exact ih

variable {validators : ValidatorSet K} {mapping : ValidatorMapping K} {epoch round fuel : Nat}

/-- A certificate is built from the pending timeouts of a supermajority. -/
lemma buildTcLoop_spec :
    Ends (buildTcLoop env validators mapping epoch round fuel p) (fun (tc, p') =>
      Dropped p p' ∧ ∀ c, tc = some c →
        validators.hasSuperMajorityVotes (p'.pendingTimeouts.sortedPairs.map Prod.fst) = .ok true ∧
        TimeoutCertificate.new env.scheme env.groupOrder epoch round
          p'.pendingTimeouts.sortedPairs mapping = .ok c) (·.isAssertion = false) := by
  induction fuel generalizing p with
  | zero => rfl
  | succ fuel ih =>
    rw [buildTcLoop]
    split
    · rfl
    · exact ⟨.refl, fun c hc => by cases hc⟩
    · next hmaj =>
      split
      · next c hnew => exact ⟨.refl, fun c' hc' => by cases hc'; exact ⟨hmaj, hnew⟩⟩
      · next invalid _ =>
        refine ih.mono ?_
        rintro ⟨tc, p'⟩ ⟨hdrop, hbuilt⟩
        exact ⟨Relation.ReflTransGen.head ⟨invalid, rfl⟩ hdrop, hbuilt⟩
      · rfl

/-- With enough other timeouts, the node times out as well. -/
inductive Joined (env : Env K) (p : Pacemaker K) (safety : Safety K) :
    List (PacemakerCommand K) → Pacemaker K → Safety K → Prop where
  | unchanged : Joined env p safety [] p safety
  | timedOut : Joined env p safety
        (p.timeoutCommands env safety (safety.safeToIncludeVote p.getCurrentRound))
        { p with phase := .one } { safety with highestVote := p.getCurrentRound }

lemma joinTimeout_spec (hvote : safety.highestVote ≤ p.getCurrentRound) :
    Ends (p.joinTimeout env validators safety)
      (fun (cmds, p', safety') => Joined env p safety cmds p' safety') (·.isAssertion = false) := by
  unfold joinTimeout
  split
  · exact Joined.unchanged
  · split
    · rfl
    · exact Joined.unchanged
    · rw [localTimeoutRound_of_le hvote]
      exact Joined.timedOut

lemma Joined.highCertificate_eq (h : Joined env p safety cmds p' safety') :
    p'.highCertificate = p.highCertificate := by
  cases h <;> rfl

/-- What a timeout of another node leads to. -/
inductive RemoteTimeout (env : Env K) (validators : ValidatorSet K) (mapping : ValidatorMapping K)
    (p : Pacemaker K) (safety : Safety K) (author : K.NodeId) (t : Timeout K) :
    List (PacemakerCommand K) → Option (TimeoutCertificate K × List (K.NodeId × Timeout K)) →
      Pacemaker K → Safety K → Prop where
  | ignored : RemoteTimeout env validators mapping p safety author t [] none p safety
  | collected {cmds : List (PacemakerCommand K)} {p₁ p₂ : Pacemaker K} {safety₁ : Safety K}
      (hround : t.tminfo.round = p.getCurrentRound)
      (hjoin : Joined env { p with pendingTimeouts := p.pendingTimeouts.insert author t } safety
        cmds p₁ safety₁)
      (hdrop : Dropped p₁ p₂) :
      RemoteTimeout env validators mapping p safety author t cmds none p₂ safety₁
  | built {cmds : List (PacemakerCommand K)} {p₁ p₂ : Pacemaker K} {safety₁ : Safety K}
      {tc : TimeoutCertificate K} {epoch : Nat}
      (hround : t.tminfo.round = p.getCurrentRound)
      (hjoin : Joined env { p with pendingTimeouts := p.pendingTimeouts.insert author t } safety
        cmds p₁ safety₁)
      (hdrop : Dropped p₁ p₂)
      (hmaj : validators.hasSuperMajorityVotes (p₂.pendingTimeouts.sortedPairs.map Prod.fst) =
        .ok true)
      (hnew : TimeoutCertificate.new env.scheme env.groupOrder t.tminfo.epoch t.tminfo.round
        p₂.pendingTimeouts.sortedPairs mapping = .ok tc) :
      RemoteTimeout env validators mapping p safety author t
        (cmds ++ enterCommands env epoch (.tc tc)) (some (tc, p₂.pendingTimeouts.sortedPairs))
        (entered epoch (.tc tc)) (safety₁.processCertificate (.tc tc))

variable {validators : ValidatorSet K} {mapping : ValidatorMapping K} {author : K.NodeId}
  {t : Timeout K}

/-- The asserted conditions on the round and on the last vote hold for a timeout of a
round that was reached. -/
theorem processRemoteTimeout_spec (hvote : safety.highestVote ≤ p.getCurrentRound) :
    Ends (p.processRemoteTimeout env epochManager validators mapping safety author t)
      (fun (cmds, built, p', safety') =>
        RemoteTimeout env validators mapping p safety author t cmds built p' safety')
      (fun e => t.tminfo.round ≤ p.getCurrentRound → e.isAssertion = false) := by
  unfold processRemoteTimeout
  simp only
  split
  · exact RemoteTimeout.ignored
  next hge =>
  split
  · next hne => exact fun hle => absurd (Nat.le_antisymm hle (Nat.le_of_not_lt hge)) hne
  next hround =>
  rw [not_not] at hround
  split
  · exact RemoteTimeout.ignored
  refine (joinTimeout_spec (p := { p with
    pendingTimeouts := p.pendingTimeouts.insert author t }) hvote).bind (fun _ he _ => he) ?_
  rintro ⟨cmds1, p1, safety1⟩ hjoin
  split
  · exact RemoteTimeout.collected hround hjoin .refl
  refine buildTcLoop_spec.bind (fun _ he _ => he) ?_
  rintro ⟨tc, p2⟩ ⟨hdrop, hbuilt⟩
  dsimp only
  split
  · exact RemoteTimeout.collected hround hjoin hdrop
  next tc =>
  obtain ⟨hmaj, hnew⟩ := hbuilt tc rfl
  refine processCertificate_spec.bind (fun _ he _ => he) ?_
  rintro ⟨cmds2, p3, safety3⟩ hcert
  split
  · exact fun _ => rfl
  -- the certificate is of the current round, so it is not ignored
  have hcurrent : p2.getCurrentRound = tc.round := by
    have hhigh := hdrop.highCertificate_eq.trans hjoin.highCertificate_eq
    rw [(TimeoutCertificate.new_eq_ok hnew).2.1, hround, getCurrentRound, hhigh]
    rfl
  rcases hcert with ⟨hlt, _⟩ | ⟨_, epoch, rfl, rfl, rfl⟩
  · rw [hcurrent] at hlt
    exact absurd hlt (lt_irrefl _)
  · exact RemoteTimeout.built hround hjoin hdrop hmaj hnew

end

end Pacemaker

end Kinet
