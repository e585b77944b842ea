import Kinet.Mcp.Sound
import Kinet.Mcp.Stub

/-!
# Agreement on a slot

A slot instance casts at most three ballots: a vote on all proposals, and then a vote to
commit or a vote to fall back.  Two certificates share an honest voter, so that at most one
verdict is committed, and none together with a certificate for the fallback path.

Main results:

- `Network.fast_fallback_exclusion`: no commit certificate and no certificate for
  the fallback path in one slot.
- `Network.slot_agreement`: honest instances finalize with one verdict.
-/

namespace Kinet

open List

namespace Mcp

variable {E : Types}

/-! ## Ballots -/

/-- Votes that an instance casts for its slot. -/
inductive Ballot (E : Types) where
  | batchVote (msg : BatchVoteMsg E)
  | fastCommitVote (msg : FastCommitVoteMsg E)
  | fallbackVote (msg : FallbackVoteMsg E)

inductive BallotKind where
  | batchVote
  | fastCommitVote
  | fallbackVote
deriving DecidableEq

def Ballot.kind : Ballot E → BallotKind
  | .batchVote _ => .batchVote
  | .fastCommitVote _ => .fastCommitVote
  | .fallbackVote _ => .fallbackVote

def SlotOutput.ballot : SlotOutput E → Option (Ballot E)
  | .broadcast (.batchVote msg) => some (.batchVote msg)
  | .broadcast (.fastCommitVote msg) => some (.fastCommitVote msg)
  | .broadcast (.fallbackVote msg) => some (.fallbackVote msg)
  | _ => none

lemma SlotOutput.ballot_of_isQuiet {out : SlotOutput E} (h : out.isQuiet = true) :
    out.ballot = none := by
  cases out with
  | broadcast message => cases message <;> simp_all [isQuiet, ballot]
  | _ => rfl

def Ballot.signed : Ballot E → List (VoteData E)
  | .batchVote msg => msg.split.map fun v => IsVote.serialize v.vote v.scope
  | .fastCommitVote msg => [IsVote.serialize msg.vote msg.scope]
  | .fallbackVote msg =>
    IsVote.serialize msg.enterFallbackVote.vote msg.enterFallbackVote.scope ::
      msg.evidences.zipIdx.filterMap fun evidence =>
        match evidence.1 with
        | .certified _ => none
        | .fallbackSignedEntry entry =>
          some (.fallbackEntry msg.enterFallbackVote.scope evidence.2 entry.entry)

/-- The ballots that may have been cast in a phase, in order. -/
inductive Phase.Allows : Phase → List (Ballot E) → Prop where
  | propose : Allows .propose []
  | vote (msg : BatchVoteMsg E) : Allows .vote [.batchVote msg]
  | commit (msg : FastCommitVoteMsg E) : Allows .fastCommit [.fastCommitVote msg]
  | voteCommit (msg : BatchVoteMsg E) (msg' : FastCommitVoteMsg E) :
      Allows .fastCommit [.batchVote msg, .fastCommitVote msg']
  | voteFallback (msg : BatchVoteMsg E) (msg' : FallbackVoteMsg E) :
      Allows .transitionToFallback [.batchVote msg, .fallbackVote msg']

namespace Chorus

variable {context : ChorusContext E} {A : Admission E} {c c' : Chorus E}

def ballots (c : Chorus E) : List (Ballot E) := c.outputs.filterMap SlotOutput.ballot

lemma Step.allows (hstep : Step context A c c') (h : c.fast.phase.Allows c.ballots) :
    c'.fast.phase.Allows c'.ballots := by
  cases hstep with
  | fast hstep =>
    rw [hstep.phase_eq]
    exact h
  | emit hquiet =>
    unfold ballots at h ⊢
    simpa [SlotOutput.ballot_of_isQuiet hquiet] using h
  | castVote hphase _ =>
    unfold ballots at h ⊢
    rw [filterMap_append]
    rw [hphase] at h
    generalize c.outputs.filterMap SlotOutput.ballot = cast at h ⊢
    cases h
    exact .vote _
  | castCommitVote hphase _ =>
    unfold ballots at h ⊢
    rw [filterMap_append]
    generalize c.outputs.filterMap SlotOutput.ballot = cast at h ⊢
    rcases hphase with hphase | hphase
    · rw [hphase] at h
      cases h
      exact .commit _
    · rw [hphase] at h
      cases h
      exact .voteCommit _ _
  | castFallbackVote hphase _ =>
    unfold ballots at h ⊢
    rw [filterMap_append]
    rw [hphase] at h
    generalize c.outputs.filterMap SlotOutput.ballot = cast at h ⊢
    cases h
    exact .voteFallback _ _
  | finalize _ _ =>
    unfold ballots at h ⊢
    rw [filterMap_append]
    exact (append_nil _).symm ▸ h
  | enterFallback _ _ _ => exact h

lemma Steps.allows (hsteps : Steps context A c c') (h : c.fast.phase.Allows c.ballots) :
    c'.fast.phase.Allows c'.ballots := by
  induction hsteps with
  | refl => exact h
  | tail _ hstep ih => exact hstep.allows ih

end Chorus

namespace SlotRun

variable {context : ChorusContext E} {config : ChorusConfig} {slot : Nat}
  {inputs : List (SlotInput E)} {r : SlotRun E}

/-- The ballots that were cast so far. -/
def ballots (r : SlotRun E) : List (Ballot E) := r.emitted.filterMap SlotOutput.ballot

/-- What the instance signed so far. -/
def signed (r : SlotRun E) : List (VoteData E) := r.ballots.flatMap Ballot.signed

/-- In every run, the ballots cast so far fit the phase. -/
theorem run_ballots (h : run context config slot inputs = .ok r) :
    r.chorus.fast.phase.Allows r.ballots :=
  (run_steps h fun input _ => Admission.any_input slot input).allows .propose

end SlotRun

namespace Phase.Allows

variable {phase : Phase} {cast : List (Ballot E)}

section

variable (h : phase.Allows cast)
include h

lemma count_kind_le (kind : BallotKind) : (cast.map Ballot.kind).count kind ≤ 1 := by
  cases h <;> cases kind <;> simp [Ballot.kind]

lemma batchVote_unique {msg msg' : BatchVoteMsg E}
    (hmsg : .batchVote msg ∈ cast) (hmsg' : .batchVote msg' ∈ cast) : msg = msg' := by
  cases h <;> simp_all

variable {msg : FastCommitVoteMsg E}

lemma fastCommitVote_unique {msg' : FastCommitVoteMsg E}
    (hmsg : .fastCommitVote msg ∈ cast) (hmsg' : .fastCommitVote msg' ∈ cast) : msg = msg' := by
  cases h <;> simp_all

lemma not_commit_and_fallback {msg' : FallbackVoteMsg E} (hmsg : .fastCommitVote msg ∈ cast) :
    .fallbackVote msg' ∉ cast := by
  cases h <;> simp_all

end

end Phase.Allows

/-! ## What is signed -/

variable {j : Nat} {vote : FastCommitVote E}

namespace Ballot

variable {b : Ballot E} {slot : Nat}

lemma entry_mem_signed {vote : Entry E} (h : .entry slot j vote ∈ b.signed) :
    ∃ msg, b = .batchVote msg ∧ (msg.votes[j]?).map Prod.fst = some vote := by
  cases b with
  | batchVote msg =>
    refine ⟨msg, rfl, ?_⟩
    simp only [signed, BatchVoteMsg.split, mem_map, mem_mapIdx] at h
    obtain ⟨_, ⟨i, hi, rfl⟩, heq⟩ := h
    cases heq
    rw [getElem?_eq_getElem hi]
    rfl
  | fastCommitVote msg => cases mem_singleton.mp h
  | fallbackVote msg =>
    rcases mem_cons.mp h with heq | hin
    · cases heq
    · obtain ⟨evidence, _, heq⟩ := mem_filterMap.mp hin
      split at heq <;> cases heq

lemma fastCommit_mem_signed
    (h : .fastCommit slot vote ∈ b.signed) : ∃ msg, b = .fastCommitVote msg ∧ msg.vote = vote := by
  cases b with
  | batchVote msg =>
    obtain ⟨_, _, heq⟩ := mem_map.mp h
    cases heq
  | fastCommitVote msg =>
    cases mem_singleton.mp h
    exact ⟨msg, rfl, rfl⟩
  | fallbackVote msg =>
    rcases mem_cons.mp h with heq | hin
    · cases heq
    · obtain ⟨evidence, _, heq⟩ := mem_filterMap.mp hin
      split at heq <;> cases heq

lemma enterFallback_mem_signed {vote : EnterFallbackVote}
    (h : .enterFallback slot vote ∈ b.signed) : ∃ msg, b = .fallbackVote msg := by
  cases b with
  | batchVote msg =>
    obtain ⟨_, _, heq⟩ := mem_map.mp h
    cases heq
  | fastCommitVote msg => cases mem_singleton.mp h
  | fallbackVote msg => exact ⟨msg, rfl⟩

end Ballot

namespace SlotRun

variable {context : ChorusContext E} {config : ChorusConfig} {slot : Nat}
  {inputs : List (SlotInput E)} {r : SlotRun E}

section

variable (h : run context config slot inputs = .ok r)
include h

variable {slot' slot'' : Nat}

lemma entry_unique {vote vote' : Entry E} (hvote : .entry slot' j vote ∈ r.signed)
    (hvote' : .entry slot'' j vote' ∈ r.signed) : vote = vote' := by
  obtain ⟨b, hb, hin⟩ := mem_flatMap.mp hvote
  obtain ⟨b', hb', hin'⟩ := mem_flatMap.mp hvote'
  obtain ⟨msg, rfl, hentry⟩ := Ballot.entry_mem_signed hin
  obtain ⟨msg', rfl, hentry'⟩ := Ballot.entry_mem_signed hin'
  rw [(run_ballots h).batchVote_unique hb hb', hentry'] at hentry
  exact (Option.some.inj hentry).symm

lemma fastCommit_unique {vote' : FastCommitVote E} (hvote : .fastCommit slot' vote ∈ r.signed)
    (hvote' : .fastCommit slot'' vote' ∈ r.signed) : vote = vote' := by
  obtain ⟨b, hb, hin⟩ := mem_flatMap.mp hvote
  obtain ⟨b', hb', hin'⟩ := mem_flatMap.mp hvote'
  obtain ⟨msg, rfl, rfl⟩ := Ballot.fastCommit_mem_signed hin
  obtain ⟨msg', rfl, rfl⟩ := Ballot.fastCommit_mem_signed hin'
  rw [(run_ballots h).fastCommitVote_unique hb hb']

/-- An instance that signs a vote to commit signs no vote to fall back. -/
lemma not_commit_and_fallback {vote' : EnterFallbackVote}
    (hvote : .fastCommit slot' vote ∈ r.signed) : .enterFallback slot'' vote' ∉ r.signed := by
  intro hvote'
  obtain ⟨b, hb, hin⟩ := mem_flatMap.mp hvote
  obtain ⟨b', hb', hin'⟩ := mem_flatMap.mp hvote'
  obtain ⟨msg, rfl, rfl⟩ := Ballot.fastCommit_mem_signed hin
  obtain ⟨msg', rfl⟩ := Ballot.enterFallback_mem_signed hin'
  exact (run_ballots h).not_commit_and_fallback hb hb'

end

end SlotRun

/-! ## The validators of a slot -/

/-- The validators of a slot.  Honest ones run an instance, on any inputs in any
order. -/
structure Network (E : Types) where
  scheme : VoteScheme E
  lawful : scheme.Lawful
  slot : Nat
  config : ChorusConfig
  honest : E.NodeId → Bool
  minority : scheme.validatorData.ByzantineMinority honest
  context : E.NodeId → ChorusContext E
  scheme_eq : ∀ node, (context node).scheme = scheme
  inputs : E.NodeId → List (SlotInput E)
  state : E.NodeId → SlotRun E
  run_eq : ∀ node, honest node = true →
    SlotRun.run (context node) config slot (inputs node) = .ok (state node)

namespace Network

variable (net : Network E)

/-- A signature of an honest validator was made by its instance. -/
def Signed (node : E.NodeId) (data : VoteData E) : Prop :=
  net.honest node = true → data ∈ (net.state node).signed

def Genuine (sigcol : E.SignatureCollection) (data : VoteData E) : Prop :=
  ∀ node ∈ (net.scheme.verify sigcol data).getD ∅, net.Signed node data

/-- A certificate for a scope that verifies and is not forged. -/
structure Valid {V Scope : Type} [IsVote E V Scope] (scope : Scope) (qc : StrongQc E V Scope) :
    Prop where
  scope_eq : qc.scope = scope
  verify : qc.verify net.scheme = true
  genuine : net.Genuine qc.sigcol (IsVote.serialize qc.verdict qc.scope)

/-- Authentic votes and certificates for the scope under which they are delivered. -/
def admission : Admission E where
  vote := net.Signed
  cert j
    | .fastQc qc => net.Valid (net.slot, j) qc
    | _ => True
  commitQc := net.Valid net.slot
  enterFallbackCert := net.Valid net.slot

/-- Votes and certificates are authenticated before they reach an honest instance. -/
def Authenticated : Prop :=
  ∀ node, net.honest node = true → ∀ input ∈ net.inputs node, net.admission.input net.slot input

instance (node : E.NodeId) (data : VoteData E) : Decidable (net.Signed node data) :=
  inferInstanceAs (Decidable (_ → _))

instance (sigcol : E.SignatureCollection) (data : VoteData E) :
    Decidable (net.Genuine sigcol data) :=
  inferInstanceAs (Decidable (∀ node ∈ _, net.Signed node data))

instance {V Scope : Type} [IsVote E V Scope] [DecidableEq Scope] (scope : Scope)
    (qc : StrongQc E V Scope) : Decidable (net.Valid scope qc) :=
  decidable_of_iff (qc.scope = scope ∧ qc.verify net.scheme = true ∧
      net.Genuine qc.sigcol (IsVote.serialize qc.verdict qc.scope))
    ⟨fun h => ⟨h.1, h.2.1, h.2.2⟩, fun h => ⟨h.scope_eq, h.verify, h.genuine⟩⟩

instance (slot : Nat) (input : SlotInput E) : Decidable (net.admission.input slot input) :=
  have (j : Nat) (cert : CertifiedEntry E) : Decidable (net.admission.cert j cert) :=
    cert.casesOn (fun qc => inferInstanceAs (Decidable (net.Valid (net.slot, j) qc)))
      (fun _ => isTrue trivial) fun _ => isTrue trivial
  have (node : E.NodeId) (data : VoteData E) : Decidable (net.admission.vote node data) :=
    inferInstanceAs (Decidable (net.Signed node data))
  have (qc : FastCommitQc E) : Decidable (net.admission.commitQc qc) :=
    inferInstanceAs (Decidable (net.Valid net.slot qc))
  have (cert : EnterFallbackCert E) : Decidable (net.admission.enterFallbackCert cert) :=
    inferInstanceAs (Decidable (net.Valid net.slot cert))
  inferInstance

variable {net}

section

variable {V V' Scope Scope' : Type} [IsVote E V Scope] [IsVote E V' Scope']
  {qc : StrongQc E V Scope}

lemma Valid.exists_common {scope : Scope} {scope' : Scope'}
    {qc' : StrongQc E V' Scope'} (h : net.Valid scope qc) (h' : net.Valid scope' qc') :
    ∃ node, net.honest node = true ∧ IsVote.serialize qc.verdict scope ∈ (net.state node).signed ∧
      IsVote.serialize qc'.verdict scope' ∈ (net.state node).signed := by
  obtain ⟨signers, hsigners, hstake⟩ := verifyAbove_eq_true.mp h.verify
  obtain ⟨signers', hsigners', hstake'⟩ := verifyAbove_eq_true.mp h'.verify
  obtain ⟨node, hmem, hmem', hhonest⟩ := ValidatorData.exists_honest_common net.minority
    (ValidatorData.isSuperMajority_iff.mpr hstake) (ValidatorData.isSuperMajority_iff.mpr hstake')
  have hsigned := h.genuine node (by rw [hsigners]; exact hmem) hhonest
  have hsigned' := h'.genuine node (by rw [hsigners']; exact hmem') hhonest
  rw [h.scope_eq] at hsigned
  rw [h'.scope_eq] at hsigned'
  exact ⟨node, hhonest, hsigned, hsigned'⟩

lemma valid_of_form [DecidableEq V] {context : ChorusContext E}
    (hcontext : context.scheme = net.scheme) {scope : Scope} {pool : VotePool E V Scope}
    (hscope : pool.scope = scope)
    (hvotes : ∀ vote, ∀ node ∈ pool.voters vote, net.Signed node (IsVote.serialize vote scope))
    (hform : pool.tryFormStrongQc context.scheme context.bucketOrder = .ok (some qc)) :
    net.Valid scope qc := by
  rw [hcontext] at hform
  obtain ⟨hqc, hverify, signers, hsigners, hsub⟩ :=
    VotePool.tryFormStrongQc_ok net.lawful context.bucketOrder_perm hform
  refine ⟨hqc.trans hscope, hverify, fun node hnode => ?_⟩
  rw [hsigners] at hnode
  rw [hqc, hscope]
  exact hvotes qc.verdict node (hsub hnode)

end

lemma admission_closed (node : E.NodeId) : net.admission.Closed (net.context node) net.slot where
  fastQc _ _ _ hscope hvotes hform := valid_of_form (net.scheme_eq node) hscope hvotes hform
  fallbackQc _ _ _ _ _ _ _ _ := trivial
  commitQc _ _ hscope hvotes hform := valid_of_form (net.scheme_eq node) hscope hvotes hform
  enterFallbackCert _ _ hscope hvotes hform :=
    valid_of_form (net.scheme_eq node) hscope hvotes hform

lemma sound (hauth : net.Authenticated) {node : E.NodeId} (hhonest : net.honest node = true) :
    (net.state node).total.Sound net.admission net.slot :=
  (SlotRun.run_steps (net.run_eq node hhonest) (hauth node hhonest)).sound (admission_closed node)
    (Chorus.sound_new _)

lemma certs_length {node : E.NodeId} (hhonest : net.honest node = true) :
    (net.state node).chorus.fast.certs.length = net.config.numProposals := by
  have hsteps := SlotRun.run_steps (net.run_eq node hhonest) fun input _ =>
    Admission.any_input net.slot input
  rw [← length_replicate (n := net.config.numProposals) (a := LocalCertifiedEntry.absent)]
  exact hsteps.certs_length

/-- Valid certificates of one proposal have one verdict. -/
lemma Valid.fastQc_unique {qc qc' : FastQc E} (h : net.Valid (net.slot, j) qc)
    (h' : net.Valid (net.slot, j) qc') : qc.verdict = qc'.verdict := by
  obtain ⟨node, hhonest, hsigned, hsigned'⟩ := h.exists_common h'
  exact SlotRun.entry_unique (net.run_eq node hhonest) hsigned hsigned'

variable {qc : FastCommitQc E}

lemma Valid.fastCommitQc_unique {qc' : FastCommitQc E} (h : net.Valid net.slot qc)
    (h' : net.Valid net.slot qc') : qc.verdict = qc'.verdict := by
  obtain ⟨node, hhonest, hsigned, hsigned'⟩ := h.exists_common h'
  exact SlotRun.fastCommit_unique (net.run_eq node hhonest) hsigned hsigned'

/-- A valid certificate to commit excludes one for the fallback path. -/
lemma Valid.not_enterFallback {cert : EnterFallbackCert E}
    (h : net.Valid net.slot qc) : ¬ net.Valid net.slot cert := by
  intro h'
  obtain ⟨node, hhonest, hsigned, hsigned'⟩ := h.exists_common h'
  exact SlotRun.not_commit_and_fallback (net.run_eq node hhonest) hsigned hsigned'

/-- A valid certificate to commit is for a block of valid certificates. -/
lemma Valid.exists_block (hauth : net.Authenticated) (h : net.Valid net.slot qc) :
    ∃ block : FastBlock E, qc.verdict = block.toVote ∧ block.qcs.length = net.config.numProposals ∧
      ∀ j (fastQc : FastQc E), block.qcs[j]? = some fastQc → net.Valid (net.slot, j) fastQc := by
  obtain ⟨node, hhonest, hsigned, _⟩ := h.exists_common h
  obtain ⟨b, hb, hin⟩ := mem_flatMap.mp hsigned
  obtain ⟨msg, rfl, hvote⟩ := Ballot.fastCommit_mem_signed hin
  obtain ⟨out, hout, hballot⟩ := mem_filterMap.mp hb
  have heq : out = .broadcast (.fastCommitVote msg) := by
    cases out with
    | broadcast message => cases message <;> simp_all [SlotOutput.ballot]
    | _ => cases hballot
  subst heq
  obtain ⟨_, block, hblock, hlength, hqcs⟩ := (sound hauth hhonest).committed msg hout
  exact ⟨block, hvote ▸ hblock, hlength.trans (certs_length hhonest), hqcs⟩

/-- Honest instances that finalize have one verdict, which is for a block of certificates
for all proposals.  No honest instance holds a certificate with another verdict for one of
them. -/
theorem slot_agreement (net : Network E) (hauth : net.Authenticated) {node node' : E.NodeId}
    (hnode : net.honest node = true) (hnode' : net.honest node' = true) {qc qc' : FastCommitQc E}
    (hqc : .finalize qc ∈ (net.state node).emitted)
    (hqc' : .finalize qc' ∈ (net.state node').emitted) :
    qc.verdict = qc'.verdict ∧ ∃ block : FastBlock E, qc.verdict = block.toVote ∧
        block.qcs.length = net.config.numProposals ∧
        (∀ j (fastQc : FastQc E), block.qcs[j]? = some fastQc → net.Valid (net.slot, j) fastQc) ∧
        ∀ holder, net.honest holder = true → ∀ (j : Nat) (fastQc : FastQc E),
          (net.state holder).chorus.fast.certs[j]? =
              some (LocalCertifiedEntry.certified (.fastQc fastQc)) →
            qc.verdict.entries[j]? = some fastQc.verdict := by
  have hvalid : net.Valid net.slot qc := (sound hauth hnode).finalized qc hqc
  have hvalid' : net.Valid net.slot qc' := (sound hauth hnode').finalized qc' hqc'
  obtain ⟨block, hverdict, hlength, hqcs⟩ := hvalid.exists_block hauth
  refine ⟨hvalid.fastCommitQc_unique hvalid', block, hverdict, hlength, hqcs, ?_⟩
  intro holder hholder j fastQc hfast
  have hheld : net.Valid (net.slot, j) fastQc := (sound hauth hholder).fast.certs j _ hfast
  have hj : j < block.qcs.length := by
    rw [hlength, ← certs_length hholder]
    exact (List.getElem?_eq_some_iff.mp hfast).1
  have hget := getElem?_eq_getElem hj
  have hsame := (hqcs j _ hget).fastQc_unique hheld
  rw [hverdict, FastBlock.toVote, getElem?_map, hget, Option.map_some, hsame]

/-- An instance casts no kind of ballot twice, and not both a vote to commit and a vote to
fall back.  Hence no certificate to commit and certificate for the fallback path are both
valid in a slot. -/
theorem fast_fallback_exclusion :
    (∀ (context : ChorusContext E) (config : ChorusConfig) (slot : Nat)
      (inputs : List (SlotInput E)) (r : SlotRun E),
      SlotRun.run context config slot inputs = .ok r →
        (∀ kind, (r.ballots.map Ballot.kind).count kind ≤ 1) ∧
        ¬ (.fastCommitVote ∈ r.ballots.map Ballot.kind ∧
          .fallbackVote ∈ r.ballots.map Ballot.kind)) ∧
    ∀ (net : Network E) (qc : FastCommitQc E) (cert : EnterFallbackCert E),
      net.Valid net.slot qc → ¬ net.Valid net.slot cert := by
  refine ⟨fun context config slot inputs r hrun => ?_, fun net qc cert h => h.not_enterFallback⟩
  have hallows := SlotRun.run_ballots hrun
  refine ⟨hallows.count_kind_le, ?_⟩
  rintro ⟨hcommit, hfallback⟩
  obtain ⟨b, hb, hkind⟩ := mem_map.mp hcommit
  obtain ⟨b', hb', hkind'⟩ := mem_map.mp hfallback
  cases b <;> cases hkind
  cases b' <;> cases hkind'
  exact hallows.not_commit_and_fallback hb hb'

end Network

/-! ## Four validators -/

namespace Stub

def honest (node : Nat) : Bool := decide (node < 3)

/-- The vote of a node that sees no proposal. -/
def batchVote (slot node : Nat) : BatchVoteMsg types :=
  ⟨slot, [(.negative, sign node (.entry slot 0 .negative))]⟩

/-- The vote to commit that there is no proposal. -/
def commitVote (slot node : Nat) : FastCommitVoteMsg types :=
  VoteMsg.newSigned slot ⟨[.negative]⟩ (sign node)

/-- The certificate that there is no proposal. -/
def fastQc (slot : Nat) : FastQc types :=
  ⟨(slot, 0), .negative, collect [0, 1, 2] (.entry slot 0 .negative)⟩

/-- The certificate to commit that there is no proposal. -/
def commitQc (slot : Nat) : FastCommitQc types :=
  ⟨slot, ⟨[.negative]⟩, collect [0, 1, 2] (.fastCommit slot ⟨[.negative]⟩)⟩

def fallbackCert (slot : Nat) : EnterFallbackCert types :=
  ⟨slot, .mk, collect [0, 1, 2] (.enterFallback slot .mk)⟩

/-- All nodes see all votes, except that node 2 receives a certificate instead of the
votes to commit. -/
def inputs (node : Nat) : List (SlotInput types) :=
  [.deadline .stub] ++ [0, 1, 2].map (fun n => .message n (.batchVote (batchVote 7 n))) ++
    if node = 2 then [.message 0 (.fastCommitQc (commitQc 7))]
    else [0, 1, 2].map fun n => .message n (.fastCommitVote (commitVote 7 n))

/-- The instance of a node after its inputs. -/
def state (node : Nat) : SlotRun types :=
  match SlotRun.run (context node) config 7 (inputs node) with
  | .ok r => r
  | .error _ => ⟨Chorus.new 7 config, []⟩

def network : Network types where
  scheme := fourScheme
  lawful := lawful _ _
  slot := 7
  config := config
  honest := honest
  minority := by
    change 3 * ∑ node ∈ fourNodes.nodes.filter _, fourNodes.stakeOf node < _
    decide +kernel
  context := context
  scheme_eq _ := rfl
  inputs := inputs
  state := state
  run_eq := by
    intro node hnode
    have hlt : node < 3 := of_decide_eq_true hnode
    have hok : (SlotRun.run (context node) config 7 (inputs node)).isOk = true := by
      match node, hlt with
      | 0, _ | 1, _ | 2, _ => decide +kernel
    unfold state
    cases hrun : SlotRun.run (context node) config 7 (inputs node) with
    | ok r => rfl
    | error _ =>
      rw [hrun] at hok
      cases hok

lemma network_authenticated : network.Authenticated := by
  intro node hnode
  have hlt : node < 3 := of_decide_eq_true hnode
  match node, hlt with
  | 0, _ | 1, _ | 2, _ => decide +kernel

/-- Node 0 forms the certificate with which node 2 finalizes. -/
theorem slot_agreement_network : .finalize (commitQc 7) ∈ (network.state 0).emitted ∧
    .finalize (commitQc 7) ∈ (network.state 2).emitted ∧
    ∃ block : FastBlock types, (commitQc 7).verdict = block.toVote ∧ block.qcs.length = 1 := by
  have h0 : .finalize (commitQc 7) ∈ (network.state 0).emitted := by decide +kernel
  have h2 : .finalize (commitQc 7) ∈ (network.state 2).emitted := by decide +kernel
  obtain ⟨_, block, hverdict, hlength, _⟩ :=
    network.slot_agreement network_authenticated (by decide) (by decide) h0 h2
  exact ⟨h0, h2, block, hverdict, hlength⟩

/-- Node 0 casts two ballots, and no certificate for the fallback path is valid. -/
theorem fast_fallback_exclusion_network :
    (state 0).ballots.map Ballot.kind = [.batchVote, .fastCommitVote] ∧
    ((state 0).ballots.map Ballot.kind).count .fastCommitVote ≤ 1 ∧
    network.Valid network.slot (commitQc 7) ∧ ¬ network.Valid network.slot (fallbackCert 7) := by
  have hvalid : network.Valid network.slot (commitQc 7) := by decide +kernel
  have hkinds : (state 0).ballots.map Ballot.kind = [.batchVote, .fastCommitVote] := by
    decide +kernel
  obtain ⟨hlocal, hglobal⟩ := Network.fast_fallback_exclusion (E := types)
  have hcount := (hlocal _ _ _ _ _ (network.run_eq 0 (by decide))).1 .fastCommitVote
  exact ⟨hkinds, hcount, hvalid, hglobal network _ _ hvalid⟩

end Stub

end Mcp

end Kinet
