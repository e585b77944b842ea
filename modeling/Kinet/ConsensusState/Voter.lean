import Kinet.ConsensusState.Runs

/-!
# The voter inside a node

What a node signs depends on a small part of its state: the certificate of the last
round, the safety state, and the votes, timeouts and refusals so far.  `Voter` is that
part, with four kinds of steps.
-/

namespace Kinet

open List Event

variable {K : TypeParams}

/-- Votes, timeouts and refusals. -/
def Event.isBallot : Event K → Bool
  | .cast _ _ _ => true
  | .timedOut _ _ _ _ => true
  | .refused _ _ => true
  | _ => false

variable {e : Event K}

lemma Event.isBallot_of_isQuiet (h : e.isQuiet = true) : e.isBallot = false := by
  cases e <;> simp_all [isQuiet, isBallot]

def embeddedVote (info : TimeoutInfo) (tip : ConsensusTip K) : Vote K :=
  ⟨tip.blockHeader.getId, info.round, info.epoch⟩

/-- The statements that a vote, a timeout or a refusal commits the node to. -/
def Event.statements : Event K → List (SignedMessage K)
  | .cast v _ _ => [.vote v]
  | .timedOut info (.tip tip) true _ => [.timeout info, .vote (embeddedVote info tip)]
  | .timedOut info _ _ _ => [.timeout info]
  | .refused msg _ => [.noEndorsement msg]
  | _ => []

def ProtocolMessage.statements : ProtocolMessage K → List (SignedMessage K)
  | .vote m => [.vote m.vote]
  | .timeout t =>
    match t.highExtend with
    | .tip tip (some _) => [.timeout t.tminfo, .vote (embeddedVote t.tminfo tip)]
    | _ => [.timeout t.tminfo]
  | .noEndorsement m => [.noEndorsement m.msg]
  | _ => []

/-- The statements that a node signs when it returns a command. -/
def Event.signs : Event K → List (SignedMessage K)
  | .command (.publish _ m) => m.message.statements
  | _ => []

lemma Event.isBallot_of_mem_statements {x : SignedMessage K}
    (h : x ∈ e.statements) : e.isBallot = true := by
  cases e <;> simp_all [statements, isBallot]

lemma Event.signs_of_isQuiet (h : e.isQuiet = true) : e.signs = [] := by
  unfold isQuiet at h
  unfold signs
  split at h
  · rfl
  · cases h
  · rfl
  · rfl
  · split
    · simp_all
    · rfl
  · cases h

def ConsensusState.signed (s : ConsensusState K) : List (SignedMessage K) :=
  s.log.flatMap Event.signs

/-- The part of the safety state that votes, timeouts and refusals depend on. -/
def Safety.voting (s : Safety K) : Safety K :=
  { s with highestPropose := 0, highestRecoveryRequest := 0, handledProposals := [] }

/-- The state that a node's votes depend on. -/
structure Voter (K : TypeParams) where
  /-- certificate that started the current round -/
  highCertificate : RoundCertificate K
  safety : Safety K
  /-- votes, timeouts and refusals in the order they were made -/
  history : List (Event K)

def ConsensusState.voter (s : ConsensusState K) : Voter K :=
  ⟨s.pacemaker.highCertificate, s.safety.voting, s.log.filter Event.isBallot⟩

namespace Voter

def round (v : Voter K) : Nat := v.highCertificate.round + 1

/-- What a timeout of the current round reports. -/
def highExtend (v : Voter K) : HighExtend K :=
  match v.safety.maybeHighTip with
  | some tip => .tip tip
  | none => .qc v.highCertificate.getQc

/-- The contents of a timeout of the current round. -/
def timeoutInfo (v : Voter K) (epoch : Nat) : TimeoutInfo where
  epoch := epoch
  round := v.round
  highTipRound :=
    match v.highExtend with
    | .tip tip => tip.blockHeader.blockRound
    | .qc _ => genesisRound
  highQcRound := v.highExtend.getQc.getRound

/-- The steps of a voter. -/
inductive Step (T : Trust K) : Voter K → Voter K → Prop where
  /-- a certificate starts its next round -/
  | enter {v : Voter K} {c : RoundCertificate K} (hround : v.round ≤ c.round)
      (hcert : T.roundCertificate c) :
      Step T v ⟨c, v.safety.processCertificate c, v.history⟩
  /-- a proposal of the current round is voted for -/
  | cast {v : Voter K} {author : K.NodeId} {p : ProposalMessage K} {epoch : Nat}
      (hsent : T.sent author (.proposal p)) (hmsg : T.message v.round (.proposal p))
      (hround : p.proposalRound = v.round) (hqc : p.tip.blockHeader.qc.getRound < v.round)
      (hsafe : v.safety.isSafeToVote v.round (ConsensusState.tcTip p.lastRoundTc) = true) :
      Step T v ⟨v.highCertificate, v.safety.voted v.round p.tip,
        v.history ++ [.cast ⟨p.tip.blockHeader.getId, v.round, epoch⟩ p.tip p.lastRoundTc]⟩
  /-- the current round is timed out -/
  | timeout {v : Voter K} {epoch : Nat} (hvote : v.safety.highestVote ≤ v.round) :
      Step T v ⟨v.highCertificate, { v.safety with highestVote := v.round },
        v.history ++ [.timedOut (v.timeoutInfo epoch) v.highExtend
          (v.safety.safeToIncludeVote v.round) v.safety.highCertificateQcRound]⟩
  /-- the tip of a recovery request is refused -/
  | refuse {v : Voter K} {author : K.NodeId} {m : RoundRecoveryMessage K} {epoch : Nat}
      {tip : ConsensusTip K} (hsent : T.sent author (.roundRecovery m))
      (hmsg : T.message v.round (.roundRecovery m)) (hround : m.round = v.round)
      (htip : m.tc.highExtend = .tip tip) (hsafe : v.safety.isSafeToNoEndorse m.round = true) :
      Step T v ⟨v.highCertificate,
        { v.safety with highestNoEndorse := ⟨m.round, tip.blockHeader.getId⟩ },
        v.history ++ [.refused ⟨epoch, m.round, tip.blockHeader.qc.getRound⟩ tip]⟩

abbrev Steps (T : Trust K) : Voter K → Voter K → Prop := Relation.ReflTransGen (Step T)

end Voter

namespace ConsensusState

variable {env : Env K} {T : Trust K} {s s' : ConsensusState K}

/-- The certificates that the node builds itself are good. -/
structure Sound (env : Env K) (T : Trust K) (s : ConsensusState K) : Prop where
  qc : ∀ qc, s.Known T qc → T.qc qc
  tc : ∀ {validators : ValidatorSet K} {mapping : ValidatorMapping K}
    {lookupEpoch tcEpoch : Nat} {tc : TimeoutCertificate K},
    env.valEpochMap.lookup lookupEpoch = some (validators, mapping) →
    validators.hasSuperMajorityVotes
      (s.pacemaker.pendingTimeouts.sortedPairs.map Prod.fst) = .ok true →
    TimeoutCertificate.new env.scheme env.groupOrder tcEpoch s.getCurrentRound
      s.pacemaker.pendingTimeouts.sortedPairs mapping = .ok tc → T.tc tc

lemma sound_any (s : ConsensusState K) : Sound env .any s :=
  ⟨fun _ _ => trivial, fun _ _ _ => trivial⟩

variable {events : List (Event K)} {x : SignedMessage K}

lemma filter_isBallot_of_isQuiet (h : ∀ e ∈ events, e.isQuiet = true) :
    events.filter isBallot = [] := by
  rw [filter_eq_nil_iff]
  intro e he
  rw [isBallot_of_isQuiet (h e he)]
  decide

variable {safety : Safety K} {ballots : List (Event K)}

lemma voter_eq {highCertificate : RoundCertificate K}
    (hcert : s'.pacemaker.highCertificate = highCertificate) (hsafety : s'.safety.voting = safety)
    (hlog : s'.log = s.log ++ events) (hballots : events.filter isBallot = ballots) :
    s'.voter = ⟨highCertificate, safety, s.voter.history ++ ballots⟩ := by
  unfold voter
  rw [hcert, hsafety, hlog, filter_append, hballots]

/-- A step of the voter, read off the new state of the node. -/
lemma voterStep_of {c : RoundCertificate K}
    (hlog : s'.log = s.log ++ events) (hballots : events.filter isBallot = ballots)
    (hcert : s'.pacemaker.highCertificate = c) (hsafety : s'.safety.voting = safety)
    (hstep : Voter.Step T s.voter ⟨c, safety, s.voter.history ++ ballots⟩) :
    Voter.Step T s.voter s'.voter := by
  rw [voter_eq hcert hsafety hlog hballots]
  exact hstep

lemma voter_eq_of_no_ballot (hcert : s'.pacemaker.highCertificate = s.pacemaker.highCertificate)
    (hsafety : s'.safety.voting = s.safety.voting) (hlog : s'.log = s.log ++ events)
    (hballots : events.filter isBallot = []) : s'.voter = s.voter := by
  rw [voter_eq hcert hsafety hlog hballots, append_nil]
  rfl

/-- A step of a node is a step of its voter or does not concern it. -/
theorem Step.voter (h : Step env T s s') (hsound : Sound env T s) :
    s'.voter = s.voter ∨ Voter.Step T s.voter s'.voter := by
  cases h with
  | background h =>
    obtain ⟨events, hlog, hevents⟩ := h.log
    refine .inl (voter_eq_of_no_ballot (by rw [h.pacemaker]) (by rw [h.safety]) hlog ?_)
    rw [filter_eq_nil_iff]
    intro e he
    rcases hevents e he with hquiet | ⟨b, rfl, _⟩
    · simp [isBallot_of_isQuiet hquiet]
    · simp [isBallot]
  | @certificate c _ _ hround hcert hquiet =>
    have hgood : T.roundCertificate c := by
      rcases hcert with hgood | ⟨qc, rfl, hknown⟩
      · exact hgood
      · exact hsound.qc qc hknown
    refine .inr (voterStep_of rfl (filter_isBallot_of_isQuiet hquiet) rfl rfl ?_)
    rw [append_nil]
    exact .enter hround hgood
  | @buildTc validators mapping _ _ _ tc events hlookup hmaj hnew hquiet =>
    have hround := (TimeoutCertificate.new_eq_ok hnew).2.1
    have henter : Voter.Step T s.voter ⟨.tc tc, _, s.voter.history⟩ :=
      .enter (Nat.le_of_eq hround.symm) (hsound.tc hlookup hmaj hnew)
    have hnone : (events ++ [createdTc tc s.pacemaker.pendingTimeouts.sortedPairs
        validators mapping]).filter isBallot = [] := by
      rw [filter_append, filter_isBallot_of_isQuiet hquiet]
      rfl
    refine .inr (voterStep_of rfl hnone rfl rfl ?_)
    rw [append_nil]
    exact henter
  | cast hsent hmsg hround hqc hsafe =>
    exact .inr (voterStep_of rfl rfl rfl rfl (.cast hsent hmsg hround hqc hsafe))
  | timeout hvote =>
    exact .inr (voterStep_of rfl rfl rfl rfl (.timeout hvote))
  | refuse hsent hmsg hround htip _ _ hsafe =>
    exact .inr (voterStep_of rfl rfl rfl rfl (.refuse hsent hmsg hround htip hsafe))
  | schedule hquiet _ =>
    exact .inl (voter_eq_of_no_ballot rfl rfl rfl (filter_isBallot_of_isQuiet hquiet))
  | noEndorsement _ _ _ _ =>
    refine .inl (voter_eq_of_no_ballot rfl rfl rfl ?_)
    simp [isBallot]
  | propose _ hproposes =>
    refine .inl (voter_eq_of_no_ballot rfl rfl rfl ?_)
    cases hproposes <;> rfl
  | startNewRound _ | collectTimeout _ _ _ _ | dropTimeouts | handleProposal => exact .inl rfl
  | _ => exact .inl (voter_eq_of_no_ballot rfl rfl rfl rfl)

theorem Steps.voter (h : Steps env T s s')
    (hsound : ∀ t, Steps env T s t → Sound env T t) : Voter.Steps T s.voter s'.voter := by
  induction h with
  | refl => exact .refl
  | tail hsteps hstep ih =>
    rcases hstep.voter (hsound _ hsteps) with heq | hvoter
    · rw [heq]
      exact ih
    · exact ih.tail hvoter

/-! ## Signatures -/

/-- A vote, timeout or refusal in the log commits the node to the statement. -/
def Decided (s : ConsensusState K) (x : SignedMessage K) : Prop :=
  ∃ e ∈ s.voter.history, x ∈ e.statements

lemma decided_of_mem_log (he : e ∈ s.log) (hx : x ∈ e.statements) : s.Decided x :=
  ⟨e, mem_filter.mpr ⟨he, isBallot_of_mem_statements hx⟩, hx⟩

/-- The timeout message of a node signs what the timeout commits it to. -/
lemma statements_timeout (sign : SignedMessage K → K.SignatureType) (info : TimeoutInfo)
    (highExtend : HighExtend K) (safeToVote : Bool)
    (lastRoundCertificate : Option (RoundCertificate K)) (highCertificateQcRound : Nat) :
    (ProtocolMessage.timeout (Timeout.new sign info highExtend safeToVote
      lastRoundCertificate)).statements =
      (timedOut info highExtend safeToVote highCertificateQcRound).statements := by
  cases highExtend with
  | qc _ | tip _ => cases safeToVote <;> rfl

lemma mem_signed_of_append (hlog : s'.log = s.log ++ events) (hx : x ∈ s'.signed) :
    x ∈ s.signed ∨ ∃ e ∈ events, x ∈ e.signs := by
  unfold signed at hx ⊢
  rw [hlog, flatMap_append, mem_append] at hx
  exact hx.imp_right mem_flatMap.mp

lemma mem_signed_of_silent (hlog : s'.log = s.log ++ events)
    (hsilent : ∀ e ∈ events, e.signs = []) (hx : x ∈ s'.signed) : x ∈ s.signed := by
  rcases mem_signed_of_append hlog hx with hold | ⟨e, he, hxe⟩
  · exact hold
  · rw [hsilent e he] at hxe
    cases hxe

theorem Step.signed (h : Step env T s s') (hx : x ∈ s'.signed) : x ∈ s.signed ∨ s'.Decided x := by
  cases h with
  | background h =>
    obtain ⟨events, hlog, hevents⟩ := h.log
    refine .inl (mem_signed_of_silent hlog (fun e he => ?_) hx)
    rcases hevents e he with hquiet | ⟨b, rfl, _⟩
    · exact signs_of_isQuiet hquiet
    · rfl
  | certificate _ _ hquiet =>
    exact .inl (mem_signed_of_silent rfl (fun e he => signs_of_isQuiet (hquiet e he)) hx)
  | buildTc _ _ _ hquiet =>
    refine .inl (mem_signed_of_silent rfl (fun e he => ?_) hx)
    rcases mem_append.mp he with hold | hnew
    · exact signs_of_isQuiet (hquiet e hold)
    · rw [mem_singleton.mp hnew]
      rfl
  | publishVote hcast =>
    rcases mem_signed_of_append rfl hx with hold | ⟨e, he, hxe⟩
    · exact .inl hold
    · rw [mem_singleton.mp he] at hxe
      exact .inr (decided_of_mem_log (mem_append_left _ hcast) hxe)
  | timeout hvote =>
    rcases mem_signed_of_append rfl hx with hold | ⟨e, he, hxe⟩
    · exact .inl hold
    refine .inr (decided_of_mem_log (mem_append_right _ (mem_cons_of_mem _ mem_cons_self)) ?_)
    rw [← statements_timeout env.certSign _ _ _ (s.pacemaker.lastRoundCertificate s.safety)]
    simp only [Pacemaker.timeoutCommands, flatMap_cons, flatMap_nil,
      fromPacemakerCommand, cons_append, nil_append, append_nil, mem_cons,
      not_mem_nil, or_false] at he
    rcases he with rfl | rfl | rfl | rfl
    · cases hxe
    · cases hxe
    · exact hxe
    · cases hxe
  | refuse _ _ _ _ _ _ _ =>
    rcases mem_signed_of_append rfl hx with hold | ⟨e, he, hxe⟩
    · exact .inl hold
    refine .inr (decided_of_mem_log (mem_append_right _ mem_cons_self) ?_)
    simp only [mem_cons, not_mem_nil, or_false] at he
    rcases he with rfl | rfl
    · cases hxe
    · exact hxe
  | schedule hquiet _ =>
    exact .inl (mem_signed_of_silent rfl (fun e he => signs_of_isQuiet (hquiet e he)) hx)
  | noEndorsement _ _ _ _ =>
    refine .inl (mem_signed_of_silent rfl (fun e he => ?_) hx)
    obtain ⟨nec, _, rfl⟩ := mem_map.mp he
    rfl
  | propose _ hproposes =>
    refine .inl (mem_signed_of_silent rfl (fun e he => ?_) hx)
    rw [mem_singleton.mp he]
    cases hproposes <;> rfl
  | startNewRound _ | collectTimeout _ _ _ _ | dropTimeouts | handleProposal => exact .inl hx
  | _ =>
    refine .inl (mem_signed_of_silent rfl (fun e he => ?_) hx)
    rw [mem_singleton.mp he]
    rfl

lemma Decided.mono (hlog : ∀ e ∈ s.log, e ∈ s'.log) (h : s.Decided x) : s'.Decided x := by
  obtain ⟨e, he, hx⟩ := h
  exact decided_of_mem_log (hlog e (mem_filter.mp he).1) hx

/-- A node signs only what its voter decided. -/
theorem Steps.signed (h : Steps env T s s') (hs : ∀ x ∈ s.signed, s.Decided x)
    (hx : x ∈ s'.signed) : s'.Decided x := by
  induction h with
  | refl => exact hs x hx
  | tail _ hstep ih =>
    rcases hstep.signed hx with hold | hnew
    · exact (ih hold).mono fun _ he => hstep.mem_log he
    · exact hnew

end ConsensusState

end Kinet
