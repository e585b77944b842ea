import Kinet.ConsensusState.Conforms
import Kinet.ConsensusState.MockNode

/-!
# Runs of a node take elementary steps

A node that validates what it receives handles only messages with good certificates.
So a run of a node is a sequence of elementary steps, and the assertions of the round
state machine hold in every run.

Main results:

- `NodeInit.run_assertion_free`: no run fails an assertion of the round state
  machine.
-/

namespace Kinet

open Effect List ConsensusState.Reached NoEndorsementState

variable {K : TypeParams}

/-- Nothing is asked of certificates and senders. -/
def Trust.any : Trust K where
  qc _ := True
  block _ := True
  block_of_qc _ _ := trivial
  nec _ := True
  tc _ := True
  header _ := True
  sent _ _ := True

lemma Trust.any_accepts (S : SignatureScheme K) (lookup : EpochToValidators K) :
    (Trust.any : Trust K).Accepts S lookup :=
  ⟨fun _ _ _ => trivial, fun _ _ => trivial, fun _ _ => trivial, fun _ _ _ => trivial⟩

variable {inputs : List (NodeInput K)}

namespace Node

/-- Invariant of a run: the state was reached by steps, the cached certificates are
good in the sense of `V`, and the validated messages in the sense of `T`. -/
structure Reached (env : Env K) (V T : Trust K) (s₀ : ConsensusState K) (n : Node K) : Prop where
  state : ConsensusState.Reached env T s₀ 0 n.state
  cache : V.Caches n.certCache
  pool : ∀ x ∈ n.validated, T.sent x.1 x.2 ∧ T.message n.state.getCurrentRound x.2

/-- The validated form of a message that a node receives. -/
def Validates (env : Env K) (n : Node K) (author : K.NodeId) (m : ConsensusMessage K)
    (m' : ProtocolMessage K) : Prop :=
  m.verify env n.state.epochManager author = .ok () ∧
    ((m.validate env n.state.epochManager n.state.getCurrentRound).exec n.certCache).1 = .ok m'

/-- Inputs under which the invariant is kept: what is validated is good, and synced
blocks are. -/
def Admits (env : Env K) (V T : Trust K) (n : Node K) : NodeInput K → Prop
  | .receive author m =>
    V.Accepts env.scheme (epochToValidators env n.state.epochManager) ∧
      ∀ m', n.Validates env author m m' → V.message n.state.getCurrentRound m' →
        T.sent author m' ∧ T.message n.state.getCurrentRound m'
  | .blockSync _ fullBlocks => ∀ b ∈ fullBlocks, T.block b.getQc
  | _ => True

variable {env : Env K} {V T : Trust K} {s₀ : ConsensusState K} {n n' : Node K}

section

variable (h : n.Reached env V T s₀)
include h

lemma Reached.receive {author : K.NodeId} {m : ConsensusMessage K}
    (hadmits : n.Admits env V T (.receive author m)) :
    (n.receive env author m).Reached env V T s₀ := by
  obtain ⟨haccepts, hgood⟩ := hadmits
  unfold Node.receive
  split
  · exact h
  next hverify =>
  obtain ⟨hcache, hmessage⟩ := haccepts.validate m n.state.getCurrentRound n.certCache h.cache
  split
  · next hvalidate =>
    rw [hvalidate] at hcache
    exact ⟨h.state, hcache, h.pool⟩
  · next m' certCache hvalidate =>
    have hresult : ((m.validate env n.state.epochManager n.state.getCurrentRound).exec
        n.certCache).1 = .ok m' := by rw [hvalidate]
    rw [hvalidate] at hcache
    refine ⟨h.state, hcache, fun x hx => ?_⟩
    rcases mem_append.mp hx with hold | hnew
    · exact h.pool x hold
    · obtain rfl := mem_singleton.mp hnew
      exact hgood m' ⟨hverify, hresult⟩ (hmessage m' hresult)

/-- Running a handler that takes elementary steps. -/
lemma Reached.exec {handler : ConsensusM K Unit} (hhandler : wp handler
      (fun _ s' => ConsensusState.Reached env T s₀ n.state.getCurrentRound s') Unasserted n.state) :
    (∀ n', n.exec handler = .ok n' → n'.Reached env V T s₀) ∧
      ∀ p, n.exec handler = .error p → Unasserted p := by
  unfold Node.exec
  split
  · next state hrun =>
    have hstate := wp_of_ok hhandler hrun
    refine ⟨?_, fun p hp => by cases hp⟩
    rintro _ ⟨⟩
    refine ⟨hstate.mono (Nat.zero_le _), h.cache, fun x hx => ?_⟩
    obtain ⟨hsent, hmsg⟩ := h.pool x hx
    exact ⟨hsent, Trust.message_mono hmsg hstate.round_le⟩
  · next p hrun =>
    refine ⟨fun n' hn' => (by cases hn'), ?_⟩
    rintro _ ⟨⟩
    exact wp_of_error hhandler hrun

/-- One input keeps the invariant and fails no assertion. -/
theorem Reached.step {input : NodeInput K} (hadmits : n.Admits env V T input) :
    (∀ n', n.step env input = .ok n' → n'.Reached env V T s₀) ∧
      ∀ p, n.step env input = .error p → Unasserted p := by
  have hstate : ConsensusState.Reached env T s₀ n.state.getCurrentRound n.state :=
    h.state.mono le_rfl
  have hquiet {n' : Node K} (hn' : n'.Reached env V T s₀) :
      (∀ n'', (.ok n' : Except Panic (Node K)) = .ok n'' → n''.Reached env V T s₀) ∧
        ∀ p, (.ok n' : Except Panic (Node K)) = .error p → Unasserted p :=
    ⟨fun _ heq => by cases heq; exact hn', fun _ heq => by cases heq⟩
  have hbackground {s' : ConsensusState K} (hback : ConsensusState.Background T n.state s') :
      ({ n with state := s' } : Node K).Reached env V T s₀ := by
    have hstep : ConsensusState.Step env T n.state s' := .background hback
    refine ⟨h.state.step hstep hback.voteState, h.cache, fun x hx => ?_⟩
    obtain ⟨hsent, hmsg⟩ := h.pool x hx
    exact ⟨hsent, Trust.message_mono hmsg hstep.round_le⟩
  cases input with
  | receive author m => exact hquiet (h.receive hadmits)
  | handle index =>
    simp only [Node.step]
    split
    · exact hquiet h
    · next author m hget =>
      obtain ⟨hsent, hmsg⟩ := h.pool _ (mem_of_getElem? hget)
      exact h.exec (handleMessage hsent hmsg _ hstate)
  | timeoutExpiry round => exact h.exec (handleTimeoutExpiry round _ hstate)
  | voteTimer => exact h.exec (handleVoteTimer _ hstate)
  | blockSync blockRange fullBlocks =>
    exact h.exec (handleBlockSync hadmits _ hstate)
  | mempool index proposal =>
    simp only [Node.step]
    split
    · exact hquiet h
    · next cmd hget =>
      obtain ⟨e, hmem, he⟩ := mem_filterMap.mp (mem_of_getElem? hget)
      have hcmd : e = .command (.createProposal cmd) := by
        unfold Event.createProposals at he
        split at he
        · cases he
          rfl
        · cases he
      subst hcmd
      exact h.exec (hstate.step (.mempool hmem) rfl)
  | updateTime time | execution stateRead => exact hquiet (hbackground (.silent h.state.ok.tree))

end

/-- A run all of whose inputs are admitted keeps the invariant. -/
theorem run_reached (hn : n.Reached env V T s₀)
    (hadmits : ∀ inputs' input n', inputs' ++ [input] <+: inputs → n.run env inputs' = .ok n' →
      n'.Admits env V T input) :
    (∀ n', n.run env inputs = .ok n' → n'.Reached env V T s₀) ∧
      ∀ p, n.run env inputs = .error p → Unasserted p := by
  induction inputs using reverseRecOn with
  | nil => exact ⟨fun _ heq => by cases heq; exact hn, fun _ heq => by cases heq⟩
  | append_singleton inputs input ih =>
    obtain ⟨hok, herror⟩ := ih fun inputs' input' n' hearlier hrun =>
      hadmits inputs' input' n' (hearlier.trans (prefix_append _ _)) hrun
    have happend : n.run env (inputs ++ [input]) =
        n.run env inputs >>= fun n' => n'.step env input := by simp [run, foldlM_append]
    rw [happend]
    cases hrun : n.run env inputs with
    | error p =>
      refine ⟨fun _ heq => (by cases heq), ?_⟩
      rintro _ ⟨⟩
      exact herror p hrun
    | ok n' =>
      exact (hok n' hrun).step (hadmits inputs input n' (prefix_refl _) hrun)

end Node

namespace NodeInit

variable {env : Env K} {init : NodeInit K} {n : Node K}

lemma start_reached (V T : Trust K) (h : init.start = .ok n) : n.Reached env V T n.state := by
  unfold start ConsensusState.new Pacemaker.new at h
  split at h
  · cases h
  cases h
  refine ⟨⟨⟨?_, le_rfl, ?_, ?_⟩, .refl, le_rfl, Nat.zero_le _⟩, V.caches_empty,
    fun x hx => (by cases hx)⟩
  · intro id b hb
    simp [Node.new, BlockTree.new, Tree.blockAt, Tree.get, Tree.empty] at hb
  · intro v hv
    cases hv
  · intro r nec hnec
    simp [Node.new, new, getNec, NoEndorsementState.round, RoundNoEndorsementState.empty] at hnec

lemma start_log (h : init.start = .ok n) : n.state.log = [] := by
  unfold start ConsensusState.new Pacemaker.new at h
  split at h
  · cases h
  · cases h
    rfl

lemma start_error {p : Panic} (h : init.start = .error p) : Unasserted p := by
  unfold start ConsensusState.new Pacemaker.new at h
  split at h
  · cases h
    rfl
  · cases h

/-- Every input is admitted if nothing is asked of certificates and senders. -/
lemma admits_any (n : Node K) (input : NodeInput K) : n.Admits env .any .any input := by
  cases input with
  | receive author m => exact ⟨Trust.any_accepts _ _, fun m' _ hm' => ⟨trivial, hm'⟩⟩
  | blockSync _ _ => exact fun _ _ => trivial
  | _ => exact trivial

/-- A run without conditions takes elementary steps from the initial state. -/
lemma run_steps (h : init.run env inputs = .ok n) :
    ∃ n₀, init.start = .ok n₀ ∧ n.Reached env .any .any n₀.state := by
  obtain ⟨n₀, hstart, hrun⟩ := bind_eq_ok.mp h
  exact ⟨n₀, hstart, (Node.run_reached (start_reached .any .any hstart)
    fun _ _ n' _ _ => admits_any n' _).1 n hrun⟩

/-- No run fails an assertion of the round state machine. -/
theorem run_assertion_free (env : Env K) (init : NodeInit K) (inputs : List (NodeInput K))
    {p : Panic} (hp : p.isAssertion = true) : init.run env inputs ≠ .error p := by
  intro h
  have hnot : Unasserted p := by
    cases hstart : init.start with
    | error p' =>
      rw [run, hstart] at h
      cases h
      exact start_error hstart
    | ok n0 =>
      rw [run, hstart] at h
      exact (Node.run_reached (start_reached .any .any hstart)
        fun _ _ n' _ _ => admits_any n' _).2 p h
  rw [Unasserted, hp] at hnot
  cases hnot

/-- A timeout of round 2 is validated in round 1 and handled twice: its certificate
brings the node to round 2. -/
theorem run_assertion_free_early_timeout : (Mock.init 1000 10 (by decide)).run Mock.node0
      [.receive 1 (Mock.timeout 1 ⟨1, 2, 0, 0⟩ (.qc Mock.genesisQc) (some (.tc Mock.firstTc))),
        .handle 0, .handle 0] ≠ .error .timeoutRoundMismatch :=
  run_assertion_free _ _ _ rfl

end NodeInit

/-! ## Commits -/

/-- The certificate passes the checks of the node in a state of the run, with the epochs that
it knows there. -/
def NodeInit.Verifies (env : Env K) (init : NodeInit K) (inputs : List (NodeInput K))
    (qc : QuorumCertificate K) : Prop :=
  ∃ earlier n cache, earlier <+: inputs ∧ init.run env earlier = .ok n ∧
    checkQc env.scheme (epochToValidators env n.state.epochManager) qc = .ok cache

/-- Certificates that were verified in the run, or came in a synced block. -/
def Trust.verified (env : Env K) (init : NodeInit K) (inputs : List (NodeInput K)) : Trust K where
  qc := init.Verifies env inputs
  block qc := init.Verifies env inputs qc ∨
    ∃ range blocks, .blockSync range blocks ∈ inputs ∧ ∃ b ∈ blocks, b.getQc = qc
  block_of_qc _ := .inl
  nec _ := True
  tc _ := True
  header _ := True
  sent _ _ := True

variable {env : Env K} {n : Node K}

lemma NodeInit.admits_verified {init : NodeInit K} {earlier : List (NodeInput K)}
    {input : NodeInput K} (hrun : init.run env earlier = .ok n)
    (hearlier : earlier ++ [input] <+: inputs) :
    n.Admits env (.verified env init inputs) (.verified env init inputs) input := by
  have h : input ∈ inputs := hearlier.subset (by simp)
  cases input with
  | receive author m =>
    have hprefix : earlier <+: inputs := (prefix_append _ _).trans hearlier
    exact ⟨⟨fun _ cache hqc => ⟨earlier, n, cache, hprefix, hrun, hqc⟩, fun _ _ => trivial,
      fun _ _ => trivial, fun _ _ _ => trivial⟩, fun m' _ hm' => ⟨trivial, hm'⟩⟩
  | blockSync range blocks => exact fun b hb => .inr ⟨range, blocks, h, b, hb, rfl⟩
  | _ => exact trivial

namespace ConsensusState

variable {T : Trust K} {s s' : ConsensusState K} {b : ConsensusFullBlock K}

lemma Commits.mono (hlog : ∀ e ∈ s.log, e ∈ s'.log) {id : BlockId K} (h : s.Commits T id) :
    s'.Commits T id := by
  obtain ⟨qc, parent, hqc, hrest⟩ := h
  exact ⟨qc, parent, hqc.imp_left (·.mono hlog), hrest⟩

/-- A step finalizes only what two certificates commit. -/
lemma Step.commits (h : Step env T s s')
    (hb : .command (.commitBlocks (.finalized b)) ∈ s'.log) :
    .command (.commitBlocks (.finalized b)) ∈ s.log ∨ s.Commits T b.getId := by
  have hquiet {events : List (Event K)} (hall : ∀ e ∈ events, e.isQuiet = true) :
      .command (.commitBlocks (.finalized b)) ∉ events := fun hmem => by cases hall _ hmem
  cases h with
  | background h =>
    obtain ⟨events, hlog, hevents⟩ := h.log
    rw [hlog, mem_append] at hb
    refine hb.imp_right fun hnew => ?_
    rcases hevents _ hnew with hfalse | ⟨b', heq, hcommits⟩
    · cases hfalse
    · cases heq
      exact hcommits
  | certificate _ _ hall | schedule hall _ =>
    exact .inl ((mem_append.mp hb).resolve_right (hquiet hall))
  | buildTc _ _ _ hall =>
    rcases mem_append.mp hb with hold | hnew
    · exact .inl hold
    · simp [hquiet hall] at hnew
  | propose _ hproposes => cases hproposes <;> simpa using Or.inl hb
  | _ => simp_all [Pacemaker.timeoutCommands, fromPacemakerCommand]

lemma Steps.commits (h : Steps env T s s')
    (hb : .command (.commitBlocks (.finalized b)) ∈ s'.log) :
    .command (.commitBlocks (.finalized b)) ∈ s.log ∨ s'.Commits T b.getId := by
  induction h with
  | refl => exact .inl hb
  | tail _ hstep ih =>
    rcases hstep.commits hb with hold | hnew
    · exact (ih hold).imp_right (·.mono fun _ he => hstep.mem_log he)
    · exact .inr (hnew.mono fun _ he => hstep.mem_log he)

end ConsensusState

namespace NodeInit

/-- In every run a block is finalized only if it is an ancestor of a block that two
certificates of consecutive rounds commit, each verified in the run, built by the node or
synced. -/
theorem run_commits {init : NodeInit K} (h : init.run env inputs = .ok n)
    {b : ConsensusFullBlock K} (hb : .command (.commitBlocks (.finalized b)) ∈ n.state.log) :
    n.state.Commits (.verified env init inputs) b.getId := by
  obtain ⟨n₀, hstart, hrun⟩ := bind_eq_ok.mp h
  have hreached := (Node.run_reached (start_reached _ _ hstart)
    fun inputs' input n' hearlier hrun' =>
      admits_verified (bind_eq_ok.mpr ⟨n₀, hstart, hrun'⟩) hearlier).1 n hrun
  rcases hreached.state.steps.commits hb with hold | hcommits
  · rw [start_log hstart] at hold
    cases hold
  · exact hcommits

end NodeInit

def Event.finalized : Event K → Option (ConsensusFullBlock K)
  | .command (.commitBlocks (.finalized b)) => some b
  | _ => none

open Mock

/-- Blocks of rounds 2, 3 and 4; the certificate in the last one commits the first one. -/
def Mock.threeProposals : List (NodeInput mockTypes) :=
  deliver 0 (proposal 2 secondTip (some firstTc)) ++ deliver 1 (proposal 3 hiddenTip none) ++
    deliver 2 (proposal 4 (tip (header 4 3 (qc hiddenTip.blockHeader.getId 3 [0, 1, 3]) [4]) none)
      none)

namespace NodeInit

theorem run_commits_second : ∃ n, ∃ b : ConsensusFullBlock mockTypes,
    (init 1000 10 (by decide)).run node0 threeProposals = .ok n ∧
      b.getId = secondTip.blockHeader.getId ∧
      n.state.Commits (.verified node0 (init 1000 10 (by decide)) threeProposals) b.getId := by
  have hcheck : (init 1000 10 (by decide)).runSatisfies node0 threeProposals (fun n =>
      decide ((n.state.log.filterMap Event.finalized).map (·.getId) =
        [secondTip.blockHeader.getId])) = true := by
    decide +kernel
  obtain ⟨n, hrun, hn⟩ := exists_of_runSatisfies hcheck
  have hmem : secondTip.blockHeader.getId ∈
      (n.state.log.filterMap Event.finalized).map (·.getId) := by
    rw [of_decide_eq_true hn]
    exact mem_singleton_self _
  obtain ⟨b, hb, hid⟩ := mem_map.mp hmem
  obtain ⟨e, he, hfinal⟩ := mem_filterMap.mp hb
  unfold Event.finalized at hfinal
  split at hfinal
  · cases hfinal
    exact ⟨n, _, hrun, hid, run_commits hrun he⟩
  · cases hfinal

end NodeInit

end Kinet
