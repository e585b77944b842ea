import Kinet.Consensus.Signing

/-!
# What validation establishes

Certificates are verified against the validator sets that the node knows, or found in the
cache.  `Trust` is any notion of good certificates that the uncached checks establish;
validation then only lets good certificates through, and only caches good ones.

Main results:

- `verifyQc_accepted`: a certificate that passes the uncached checks is accepted
  with every cache.
- `exec_cacheAfter_iff`: after any verifications the cache does not change what is
  accepted.
-/

namespace Kinet

open CertificateCache

variable {K : TypeParams}

/-! ## The uncached checks -/

variable {validators : ValidatorSet K}

lemma checkSuperMajority_eq_ok {nodeIds : List K.NodeId} :
    checkSuperMajority validators nodeIds = .ok () ↔
      validators.hasSuperMajorityVotes nodeIds = .ok true := by
  unfold checkSuperMajority
  split <;> simp_all

lemma checkSignatures_eq_ok {S : SignatureScheme K}
    {mapping : ValidatorMapping K} {sct : K.SCT} {msg : SignedMessage K} :
    checkSignatures S validators mapping sct msg = .ok () ↔
      ∃ nodeIds, S.verify sct mapping msg = .ok nodeIds ∧
        validators.hasSuperMajorityVotes nodeIds = .ok true := by
  unfold checkSignatures
  split
  · next h => simp [h]
  · next nodeIds h => simp [h, checkSuperMajority_eq_ok]

variable {qc : QuorumCertificate K}

section

variable {S : SignatureScheme K} {lookup : EpochToValidators K}

lemma checkQc_eq_ok {cache : Bool} : checkQc S lookup qc = .ok cache ↔ ∃ validators mapping leader,
        lookup qc.getEpoch qc.getRound = .ok (validators, mapping, leader) ∧
        ((qc.getRound = genesisRound ∧ qc = QuorumCertificate.genesisQc S ∧ cache = false) ∨
          (qc.getRound ≠ genesisRound ∧
            checkSignatures S validators mapping qc.signatures (.vote qc.info) = .ok () ∧
            cache = true)) := by
  unfold checkQc
  simp only [Effect.bind_eq_ok, Prod.exists]
  refine exists_congr fun validators => exists_congr fun mapping => exists_congr fun leader =>
    and_congr_right fun _ => ?_
  by_cases hround : qc.getRound = genesisRound
  · by_cases hgen : qc = QuorumCertificate.genesisQc S
    · simp [hround, ← hgen, pure, Except.pure, eq_comm]
    · simp [hround, hgen]
  · rw [if_neg hround, Effect.unit_bind_eq_ok]
    simp [hround, pure, Except.pure, eq_comm]

end

/-! ## Well-formed messages -/

/-- A timeout reports its rank, and a certificate of the previous round is in the
report or next to it. -/
lemma Timeout.wellFormedTimeout_eq_ok {t : Timeout K} :
    t.wellFormedTimeout = .ok () ↔ t.highExtend.rank = t.tminfo.rank ∧
        ((t.tminfo.round = t.highExtend.getQc.getRound + 1 ∧ t.lastRoundCertificate = none) ∨
          (t.tminfo.round ≠ t.highExtend.getQc.getRound + 1 ∧
            ∃ c, t.lastRoundCertificate = some c ∧ t.tminfo.round = c.round + 1)) := by
  unfold wellFormedTimeout
  by_cases hrank : t.highExtend.rank = t.tminfo.rank
  case neg => simp [hrank]
  by_cases hqc : t.tminfo.round = t.highExtend.getQc.getRound + 1
  · cases hlast : t.lastRoundCertificate <;> simp [hrank, hqc]
  cases hlast : t.lastRoundCertificate with
  | none => simp [hrank, hqc]
  | some c => by_cases hround : t.tminfo.round = c.round + 1 <;> simp [hrank, hqc, hround]

lemma RoundRecoveryMessage.wellFormedRoundRecovery_eq_ok {m : RoundRecoveryMessage K} :
    m.wellFormedRoundRecovery = .ok () ↔
      m.round = m.tc.round + 1 ∧ ∃ tip, m.tc.highExtend = .tip tip := by
  unfold wellFormedRoundRecovery
  by_cases hround : m.round = m.tc.round + 1
  · cases m.tc.highExtend <;> simp [hround]
  · simp [hround]

/-! ## Trusted certificates -/

/-- A notion of good certificates, of good tips apart from their certificates, and of
the messages that an author may have sent. -/
structure Trust (K : TypeParams) where
  qc : QuorumCertificate K → Prop
  /-- the certificate of a block in the tree, which need not have been verified -/
  block : QuorumCertificate K → Prop
  block_of_qc : ∀ q, qc q → block q
  nec : NoEndorsementCertificate K → Prop
  tc : TimeoutCertificate K → Prop
  header : ConsensusTip K → Prop
  sent : K.NodeId → ProtocolMessage K → Prop

variable {nec : NoEndorsementCertificate K} {p : CertificateCache K → Prop}
  {tc : TimeoutCertificate K} {m : ValidateM K Unit}

namespace Trust

variable (T : Trust K)

def fresh : Option (FreshProposalCertificate K) → Prop
  | none => True
  | some (.nec nec) => T.nec nec
  | some (.noTip noTip) => T.tc noTip.toTc

structure tip (t : ConsensusTip K) : Prop where
  header : T.header t
  qc : T.qc t.blockHeader.qc
  fresh : T.fresh t.freshCertificate

/-- A report is good. -/
def highExtend : HighExtend K → Prop
  | .qc qc => T.qc qc
  | .tip tip => T.tip tip

lemma qc_of_highExtend {T : Trust K} {h : HighExtend K} (hext : T.highExtend h) : T.qc h.getQc := by
  cases h with
  | qc _ => exact hext
  | tip _ => exact hext.qc

def roundCertificate : RoundCertificate K → Prop
  | .qc qc => T.qc qc
  | .tc tc => T.tc tc

/-- Whatever passes the uncached checks is good. -/
structure Accepts (S : SignatureScheme K) (lookup : EpochToValidators K) : Prop where
  qc : ∀ qc cache, checkQc S lookup qc = .ok cache → T.qc qc
  nec : ∀ nec, checkNec S lookup nec = .ok () → T.nec nec
  header : ∀ tip, checkTip S lookup tip = .ok () → T.header tip
  tc : ∀ tc, checkTcSigners S lookup tc = .ok tc.highExtend.rank → T.highExtend tc.highExtend →
    T.tc tc

structure Caches (c : CertificateCache K) : Prop where
  qcs : ∀ qc ∈ c.qcs, T.qc qc
  tcs : ∀ tc ∈ c.tcs, T.tc tc
  necs : ∀ nec ∈ c.necs, T.nec nec

lemma caches_empty : T.Caches .empty where
  qcs qc h := absurd h ((lawful_put _).not_holds_empty qc)
  tcs tc h := absurd h ((lawful_put _).not_holds_empty tc)
  necs nec h := absurd h ((lawful_put _).not_holds_empty nec)

/-- A check keeps the cache good and only succeeds with `Q`. -/
def Ensures {α : Type} (m : ValidateM K α) (Q : α → Prop) : Prop :=
  ∀ c, T.Caches c → T.Caches (m.exec c).2 ∧ ∀ a, (m.exec c).1 = .ok a → Q a

section

variable {T} {α β : Type} {Q : α → Prop} {R : β → Prop}

lemma ensures_pure {a : α} (ha : Q a) : T.Ensures (pure a) Q :=
  fun _ hc => ⟨hc, fun _ h => by cases h; exact ha⟩

lemma ensures_throw {e : ValidationError} : T.Ensures (throw e : ValidateM K α) Q :=
  fun _ hc => ⟨hc, fun _ h => by cases h⟩

lemma ensures_ofExcept {r : Except ValidationError α} (hr : ∀ a, r = .ok a → Q a) :
    T.Ensures (ValidateM.ofExcept r) Q :=
  fun _ hc => ⟨hc, hr⟩

lemma Ensures.bind {m : ValidateM K α} {f : α → ValidateM K β} (hm : T.Ensures m Q)
    (hf : ∀ a, Q a → T.Ensures (f a) R) : T.Ensures (m >>= f) R := by
  intro c hc
  obtain ⟨hc', hok⟩ := hm c hc
  rw [ValidateM.exec_bind]
  cases hm : m.exec c with
  | mk r c' =>
    rw [hm] at hc' hok
    cases r with
    | error e => exact ⟨hc', fun _ h => by cases h⟩
    | ok a => exact hf a (hok a rfl) c' hc'

end

/-! ### Certificates -/

section

variable {T} {S : SignatureScheme K} {lookup : EpochToValidators K} {c : CertificateCache K}

lemma Caches.cacheValidatedQc (hc : T.Caches c)
    (hqc : T.qc qc) : T.Caches (c.cacheValidatedQc qc) := by
  refine ⟨fun q hq => ?_, hc.tcs, hc.necs⟩
  rcases (lawful_put _).holds_put hq with rfl | hold
  · exact hqc
  · exact hc.qcs q hold

lemma Caches.cacheValidatedTc (hc : T.Caches c)
    (htc : T.tc tc) : T.Caches (c.cacheValidatedTc tc) := by
  refine ⟨hc.qcs, fun t ht => ?_, hc.necs⟩
  rcases (lawful_put _).holds_put ht with rfl | hold
  · exact htc
  · exact hc.tcs t hold

lemma Caches.cacheValidatedNec (hc : T.Caches c) (hnec : T.nec nec) :
    T.Caches (c.cacheValidatedNec nec) := by
  refine ⟨hc.qcs, hc.tcs, fun n hn => ?_⟩
  rcases (lawful_put _).holds_put hn with rfl | hold
  · exact hnec
  · exact hc.necs n hold

/-- A change of the cache that keeps it good. -/
lemma ensures_modify {f : CertificateCache K → CertificateCache K} {Q : Unit → Prop}
    (hf : ∀ c, T.Caches c → T.Caches (f c)) (hQ : Q ()) :
    T.Ensures (modify f : ValidateM K Unit) Q :=
  fun c hc => ⟨hf c hc, fun _ _ => hQ⟩

/-- A cached certificate is good already; another one is checked. -/
lemma ensures_cached [DecidablePred p]
    {P : Prop} (hcached : ∀ c, T.Caches c → p c → P) (hm : T.Ensures m fun _ => P) :
    T.Ensures (do if p (← get) then pure () else m : ValidateM K Unit) fun _ => P := by
  intro c hc
  change T.Caches ((if p c then pure () else m : ValidateM K Unit).exec c).2 ∧
    ∀ a, ((if p c then pure () else m : ValidateM K Unit).exec c).1 = .ok a → P
  split
  · next hp => exact ⟨hc, fun _ _ => hcached c hc hp⟩
  · exact hm c hc

section

variable (hT : T.Accepts S lookup)
include hT

lemma Accepts.verifyQc (qc : QuorumCertificate K) :
    T.Ensures (verifyQc S lookup qc) fun _ => T.qc qc := by
  refine ensures_cached (fun c hc hqc => hc.qcs qc hqc) ?_
  refine (ensures_ofExcept (hT.qc qc)).bind fun cache hqc => ?_
  split
  · exact ensures_modify (fun c hc => hc.cacheValidatedQc hqc) hqc
  · exact ensures_pure hqc

lemma Accepts.verifyNec (nec : NoEndorsementCertificate K) :
    T.Ensures (verifyNec S lookup nec) fun _ => T.nec nec := by
  refine ensures_cached (fun c hc hnec => hc.necs nec hnec) ?_
  refine (ensures_ofExcept fun _ => hT.nec nec).bind fun _ hnec => ?_
  exact ensures_modify (fun c hc => hc.cacheValidatedNec hnec) hnec

lemma Accepts.verifyTcWith {verifyExtend : ValidateM K Unit}
    (tc : TimeoutCertificate K) (hextend : T.Ensures verifyExtend fun _ => T.highExtend tc.highExtend) :
    T.Ensures (verifyTcWith S lookup verifyExtend tc) fun _ => T.tc tc := by
  refine ensures_cached (fun c hc htc => hc.tcs tc htc) ?_
  refine (ensures_ofExcept (Q := fun rank => checkTcSigners S lookup tc = .ok rank)
    fun _ h => h).bind fun rank hrank => ?_
  refine hextend.bind fun _ hhe => ?_
  split
  · exact ensures_throw
  · next heq =>
    have htc : T.tc tc := hT.tc tc (by rw [hrank, not_not.mp heq]) hhe
    exact ensures_modify (fun c hc => hc.cacheValidatedTc htc) htc

lemma Accepts.verifyTip (tip : ConsensusTip K) :
    T.Ensures (verifyTip S lookup tip) fun _ => T.tip tip := by
  refine (ensures_ofExcept fun _ => hT.header tip).bind fun _ hheader => ?_
  refine (hT.verifyQc tip.blockHeader.qc).bind fun _ hqc => ?_
  have hmk (hfresh : T.fresh tip.freshCertificate) : T.tip tip := ⟨hheader, hqc, hfresh⟩
  split
  · next nec hfresh =>
    intro c hc
    obtain ⟨hc', hok⟩ := hT.verifyNec nec c hc
    exact ⟨hc', fun a ha => hmk (by rw [hfresh]; exact hok a ha)⟩
  · next noTip hfresh =>
    intro c hc
    obtain ⟨hc', hok⟩ := hT.verifyTcWith noTip.toTc (hT.verifyQc noTip.highQc) c hc
    exact ⟨hc', fun a ha => hmk (by rw [hfresh]; exact hok a ha)⟩
  · next hfresh => exact ensures_pure (hmk (by rw [hfresh]; trivial))

lemma Accepts.verifyHighExtend (highExtend : HighExtend K) :
    T.Ensures (verifyHighExtend S lookup highExtend) fun _ => T.highExtend highExtend := by
  cases highExtend with
  | qc qc => exact hT.verifyQc qc
  | tip tip => exact hT.verifyTip tip

lemma Accepts.verifyTc (tc : TimeoutCertificate K) :
    T.Ensures (verifyTc S lookup tc) fun _ => T.tc tc :=
  hT.verifyTcWith tc (hT.verifyHighExtend tc.highExtend)

lemma Accepts.verifyRoundCertificate (certificate : RoundCertificate K) :
    T.Ensures (verifyRoundCertificate S lookup certificate) fun _ =>
      T.roundCertificate certificate := by
  cases certificate with
  | qc qc => exact hT.verifyQc qc
  | tc tc => exact hT.verifyTc tc

end

end

/-! ### Messages -/

/-- A message whose certificates are good, for a node in `currentRound`.  A timeout
is of a round that the node has reached, or carries a certificate that leads
there. -/
def message (T : Trust K) (currentRound : Nat) : ProtocolMessage K → Prop
  | .proposal p =>
    p.wellFormedProposal = .ok () ∧ T.tip p.tip ∧ ∀ tc, p.lastRoundTc = some tc → T.tc tc
  | .vote _ => True
  | .timeout t =>
    t.highExtend.rank = t.tminfo.rank ∧
    (t.tminfo.round ≤ currentRound ∨ t.tminfo.round = t.highExtend.getQc.getRound + 1 ∨
      ∃ c, t.lastRoundCertificate = some c ∧ t.tminfo.round = c.round + 1) ∧
    T.highExtend t.highExtend.toHighExtend ∧
    ∀ c, t.lastRoundCertificate = some c → T.roundCertificate c
  | .roundRecovery r => r.wellFormedRoundRecovery = .ok () ∧ T.tc r.tc
  | .noEndorsement _ => True
  | .advanceRound a => T.roundCertificate a.lastRoundCertificate

lemma message_mono {T : Trust K} {currentRound currentRound' : Nat} {m : ProtocolMessage K}
    (h : T.message currentRound m) (hle : currentRound ≤ currentRound') :
    T.message currentRound' m := by
  cases m with
  | timeout t =>
    obtain ⟨hrank, henters, hext, hlast⟩ := h
    exact ⟨hrank, henters.imp_left fun hr => le_trans hr hle, hext, hlast⟩
  | proposal _ | vote _ | roundRecovery _ | noEndorsement _ | advanceRound _ => exact h

section

variable {T : Trust K}

lemma Ensures.weaken {α : Type} {m : ValidateM K α} {P Q : α → Prop} (h : T.Ensures m P)
    (hPQ : ∀ a, P a → Q a) : T.Ensures m Q := by
  intro c hc
  obtain ⟨hc', hok⟩ := h c hc
  exact ⟨hc', fun a ha => hPQ a (hok a ha)⟩

variable {S : SignatureScheme K} {lookup : EpochToValidators K} {epochManager : EpochManager}

lemma Accepts.validateProposal (hT : T.Accepts S lookup) (p : ProposalMessage K)
    (currentRound : Nat) :
    T.Ensures (p.validate S lookup epochManager) fun _ => T.message currentRound (.proposal p) := by
  refine (ensures_ofExcept (Q := fun _ => p.wellFormedProposal = .ok ()) fun _ h => h).bind
    fun _ hwf => ?_
  refine (ensures_ofExcept (Q := fun _ => True) fun _ _ => trivial).bind fun _ _ => ?_
  refine (hT.verifyTip p.tip).bind fun _ htip => ?_
  split
  · next tc hlast =>
    refine (hT.verifyTc tc).weaken fun _ htc => ⟨hwf, htip, ?_⟩
    rw [hlast]
    rintro _ ⟨⟩
    exact htc
  · next hlast =>
    refine ensures_pure ⟨hwf, htip, ?_⟩
    rw [hlast]
    rintro _ ⟨⟩

lemma Accepts.validateTimeout (hT : T.Accepts S lookup) (t : Timeout K) (currentRound : Nat) :
    T.Ensures (t.validate S lookup epochManager currentRound) fun t' =>
      T.message currentRound (.timeout t') := by
  unfold Timeout.validate
  split
  · exact ensures_throw
  refine (ensures_ofExcept (Q := fun _ => t.wellFormedTimeout = .ok ()) fun _ h => h).bind
    fun _ hwf => ?_
  refine (ensures_ofExcept (Q := fun _ => True) fun _ _ => trivial).bind fun _ _ => ?_
  rw [Timeout.wellFormedTimeout_eq_ok] at hwf
  obtain ⟨hrank, hcert⟩ := hwf
  -- the certificate is dropped when the node is in the timeout's round
  split
  · next hreached =>
    refine (hT.verifyHighExtend _).bind fun _ hext => ensures_pure ?_
    exact ⟨hrank, Or.inl hreached, hext, fun c hc => by cases hc⟩
  · next hahead =>
    have htail (hlast : ∀ c, t.lastRoundCertificate = some c → T.roundCertificate c) :
        T.Ensures (do Kinet.verifyHighExtend S lookup t.highExtend.toHighExtend; pure t)
          fun t' => T.message currentRound (.timeout t') := by
      refine (hT.verifyHighExtend _).bind fun _ hext => ensures_pure ?_
      refine ⟨hrank, Or.inr ?_, hext, hlast⟩
      exact hcert.imp (·.1) (·.2)
    dsimp only
    cases hc : t.lastRoundCertificate with
    | some c =>
      refine (hT.verifyRoundCertificate c).bind fun _ hgood => htail ?_
      rw [hc]
      rintro _ ⟨⟩
      exact hgood
    | none =>
      refine htail ?_
      rw [hc]
      rintro _ ⟨⟩

lemma Accepts.validateRoundRecovery (hT : T.Accepts S lookup) (m : RoundRecoveryMessage K)
    (currentRound : Nat) :
    T.Ensures (m.validate S lookup epochManager) fun _ =>
      T.message currentRound (.roundRecovery m) := by
  refine (ensures_ofExcept (Q := fun _ => m.wellFormedRoundRecovery = .ok ()) fun _ h => h).bind
    fun _ hwf => ?_
  refine (ensures_ofExcept (Q := fun _ => True) fun _ _ => trivial).bind fun _ _ => ?_
  exact (hT.verifyTc m.tc).weaken fun _ htc => ⟨hwf, htc⟩

/-- A message that passes validation has good certificates. -/
theorem Accepts.validate {env : Env K}
    (hT : T.Accepts env.scheme (epochToValidators env epochManager)) (m : ConsensusMessage K)
    (currentRound : Nat) :
    T.Ensures (m.validate env epochManager currentRound) (T.message currentRound) := by
  unfold ConsensusMessage.validate
  split
  · exact ensures_throw
  cases hm : m.message with
  | proposal p => exact (hT.validateProposal p currentRound).bind fun _ hp => ensures_pure hp
  | vote v =>
    exact (ensures_ofExcept (Q := fun _ => True) fun _ _ => trivial).bind fun _ _ =>
      ensures_pure trivial
  | timeout t => exact (hT.validateTimeout t currentRound).bind fun _ ht => ensures_pure ht
  | roundRecovery r =>
    exact (hT.validateRoundRecovery r currentRound).bind fun _ hr => ensures_pure hr
  | noEndorsement n =>
    exact (ensures_ofExcept (Q := fun _ => True) fun _ _ => trivial).bind fun _ _ =>
      ensures_pure trivial
  | advanceRound a =>
    exact (hT.verifyRoundCertificate a.lastRoundCertificate).bind fun _ ha => ensures_pure ha

end

end Trust

/-! ## Acceptance -/

/-- A check that succeeds with every cache. -/
def ValidateM.Accepted {α : Type} (m : ValidateM K α) : Prop :=
  ∀ c, ∃ a, (m.exec c).1 = .ok a

namespace ValidateM.Accepted

variable {α β : Type}

lemma ofExcept_bind {r : Except ValidationError α} {f : α → ValidateM K β} {a : α}
    (hr : r = .ok a) (hf : (f a).Accepted) : (ofExcept r >>= f).Accepted := by
  intro c
  rw [exec_bind, hr]
  exact hf c

lemma bind {m : ValidateM K α} {f : α → ValidateM K β} (hm : m.Accepted)
    (hf : ∀ a, (f a).Accepted) : (m >>= f).Accepted := by
  intro c
  obtain ⟨a, ha⟩ := hm c
  rw [exec_bind]
  cases hexec : m.exec c with
  | mk r c' =>
    rw [hexec] at ha
    subst ha
    exact hf a c'

lemma pure (a : α) : (Pure.pure a : ValidateM K α).Accepted :=
  fun _ => ⟨a, rfl⟩

lemma modify (f : CertificateCache K → CertificateCache K) :
    (MonadState.modifyGet fun c => ((), f c) : ValidateM K Unit).Accepted :=
  fun _ => ⟨(), rfl⟩

/-- A certificate is accepted from the cache, or because its check succeeds. -/
lemma cached [DecidablePred p]
    (hm : m.Accepted) : (do if p (← get) then Pure.pure () else m : ValidateM K Unit).Accepted := by
  intro c
  change ∃ a, ((if p c then Pure.pure () else m : ValidateM K Unit).exec c).1 = .ok a
  split
  · exact ⟨(), rfl⟩
  · exact hm c

end ValidateM.Accepted

section

variable {S : SignatureScheme K} {lookup : EpochToValidators K}

theorem verifyQc_accepted {cache : Bool}
    (h : checkQc S lookup qc = .ok cache) : (verifyQc S lookup qc).Accepted := by
  refine .cached (.ofExcept_bind h ?_)
  split
  · exact .modify _
  · exact .pure ()

lemma verifyNec_accepted (h : checkNec S lookup nec = .ok ()) : (verifyNec S lookup nec).Accepted :=
  .cached (.ofExcept_bind h (.modify _))

lemma verifyTc_accepted (h : checkTcSigners S lookup tc = .ok tc.highExtend.rank)
    (hextend : (verifyHighExtend S lookup tc.highExtend).Accepted) :
    (verifyTc S lookup tc).Accepted := by
  refine .cached (.ofExcept_bind h (hextend.bind fun _ => ?_))
  rw [if_neg (not_not.mpr rfl)]
  exact .modify _

variable (S lookup)

/-- The certificates that are accepted with every cache. -/
def Trust.accepted : Trust K where
  qc qc := (verifyQc S lookup qc).Accepted
  block _ := True
  block_of_qc _ _ := trivial
  nec nec := (verifyNec S lookup nec).Accepted
  tc tc := (verifyTc S lookup tc).Accepted
  header tip := checkTip S lookup tip = .ok ()
  sent _ _ := True

variable {S lookup}

lemma Trust.tip.verifyTip_accepted {tip : ConsensusTip K}
    (h : (Trust.accepted S lookup).tip tip) : (verifyTip S lookup tip).Accepted := by
  refine .ofExcept_bind h.header (h.qc.bind fun _ => ?_)
  have hfresh := h.fresh
  revert hfresh
  -- a certificate without a tip is verified as the timeout certificate it stands for
  rcases tip.freshCertificate with _ | nec | noTip
  · exact fun _ => .pure ()
  · exact id
  · exact id

lemma Trust.accepts_accepted : (Trust.accepted S lookup).Accepts S lookup where
  qc _ _ h := verifyQc_accepted h
  nec _ h := verifyNec_accepted h
  header _ h := h
  tc tc h hextend := by
    refine verifyTc_accepted h ?_
    cases hhigh : tc.highExtend with
    | qc qc => exact (hhigh ▸ hextend :)
    | tip tip => exact Trust.tip.verifyTip_accepted (hhigh ▸ hextend :)

variable (S lookup)

inductive Verification (K : TypeParams) where
  | qc (qc : QuorumCertificate K)
  | tc (tc : TimeoutCertificate K)
  | nec (nec : NoEndorsementCertificate K)
  | tip (tip : ConsensusTip K)

def Verification.verify : Verification K → ValidateM K Unit
  | .qc q => verifyQc S lookup q
  | .tc t => verifyTc S lookup t
  | .nec n => verifyNec S lookup n
  | .tip t => verifyTip S lookup t

lemma Verification.ensures_accepted (v : Verification K) :
    (Trust.accepted S lookup).Ensures (v.verify S lookup) fun _ =>
      (v.verify S lookup).Accepted := by
  cases v with
  | qc qc => exact Trust.accepts_accepted.verifyQc qc
  | tc tc => exact Trust.accepts_accepted.verifyTc tc
  | nec nec => exact Trust.accepts_accepted.verifyNec nec
  | tip tip =>
    exact (Trust.accepts_accepted.verifyTip tip).weaken fun _ htip => htip.verifyTip_accepted

/-- The cache after verifications, with the empty one at first. -/
def cacheAfter (calls : List (Verification K)) : CertificateCache K :=
  calls.foldl (fun c v => ((v.verify S lookup).exec c).2) .empty

lemma caches_cacheAfter (calls : List (Verification K)) :
    (Trust.accepted S lookup).Caches (cacheAfter S lookup calls) := by
  induction calls using List.reverseRecOn with
  | nil => exact Trust.caches_empty _
  | append_singleton calls v ih =>
    rw [cacheAfter, List.foldl_concat]
    exact (v.ensures_accepted S lookup _ ih).1

lemma Verification.exec_eq_ok_iff (v : Verification K) {c : CertificateCache K}
    (hc : (Trust.accepted S lookup).Caches c) :
    ((v.verify S lookup).exec c).1 = .ok () ↔ (v.verify S lookup).Accepted :=
  ⟨(v.ensures_accepted S lookup c hc).2 (), fun h => (h c).choose_spec⟩

/-- After any verifications, successful or not, the cache does not change which
certificates and tips are accepted. -/
theorem exec_cacheAfter_iff (calls : List (Verification K)) (v : Verification K) :
    ((v.verify S lookup).exec (cacheAfter S lookup calls)).1 = .ok () ↔
      ((v.verify S lookup).exec .empty).1 = .ok () := by
  rw [v.exec_eq_ok_iff S lookup (caches_cacheAfter S lookup calls),
    v.exec_eq_ok_iff S lookup (Trust.caches_empty _)]

end

end Kinet
