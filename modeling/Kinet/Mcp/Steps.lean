import Kinet.Mcp.Chorus

/-!
# Elementary steps of a slot instance

Everything a slot instance does is a sequence of elementary steps: it adds votes to
pools, upgrades evidence, casts a ballot, finalizes, enters the fallback path, or queues
other outputs.  `Admission` says what is known of the messages it handles.

Main results:

- `Chorus.handleMessage_steps`, `Chorus.handleDeadline_steps`,
  `Chorus.handleTimer_steps`: handlers take elementary steps.
-/

namespace Kinet.Mcp

open Effect List FastPath IsVote ProposalMap

variable {E : Types}

/-- What is known of votes by their voters, and of certificates. -/
structure Admission (E : Types) where
  vote : E.NodeId → VoteData E → Prop
  /-- evidence for the proposal with this index -/
  cert : Nat → CertifiedEntry E → Prop
  commitQc : FastCommitQc E → Prop
  enterFallbackCert : EnterFallbackCert E → Prop

/-- Nothing is known. -/
def Admission.any : Admission E where
  vote _ _ := True
  cert _ _ := True
  commitQc _ := True
  enterFallbackCert _ := True

def Admission.message (A : Admission E) (slot : Nat) (author : E.NodeId) : Message E → Prop
  | .batchVote msg => ∀ v ∈ msg.split, A.vote author (serialize v.vote v.scope)
  | .fastCommitVote msg => A.vote author (serialize msg.vote msg.scope)
  | .fastBlock block => ∀ entry ∈ block.qcs.zipIdx, A.cert entry.2 (.fastQc entry.1)
  | .fallbackVote msg =>
    A.vote author (serialize msg.enterFallbackVote.vote msg.enterFallbackVote.scope) ∧
      ∀ evidence ∈ msg.evidences.zipIdx, match evidence.1 with
        | .certified cert => A.cert evidence.2 cert
        | .fallbackSignedEntry entry =>
          A.vote author (.fallbackEntry slot evidence.2 entry.entry)
  | .fastCommitQc qc => A.commitQc qc
  | .enterFallbackCert cert => A.enterFallbackCert cert

def Admission.input (A : Admission E) (slot : Nat) : SlotInput E → Prop
  | .message author message => A.message slot author message
  | _ => True

section

variable (A : Admission E) [∀ node data, Decidable (A.vote node data)]
  [∀ j cert, Decidable (A.cert j cert)] [∀ qc, Decidable (A.commitQc qc)]
  [∀ cert, Decidable (A.enterFallbackCert cert)]

instance Admission.decidableMessage (slot : Nat) (author : E.NodeId) (message : Message E) :
    Decidable (A.message slot author message) :=
  match message with
  | .batchVote msg =>
    inferInstanceAs (Decidable (∀ v ∈ msg.split, A.vote author (serialize v.vote v.scope)))
  | .fastCommitVote _ => inferInstanceAs (Decidable (A.vote author _))
  | .fastBlock block =>
    inferInstanceAs (Decidable (∀ entry ∈ block.qcs.zipIdx, A.cert entry.2 (.fastQc entry.1)))
  | .fallbackVote msg =>
    have (evidence : ProposalEvidence E × Nat) : Decidable (match evidence.1 with
        | .certified cert => A.cert evidence.2 cert
        | .fallbackSignedEntry entry =>
          A.vote author (.fallbackEntry slot evidence.2 entry.entry)) :=
      match evidence with
      | (.certified cert, j) => inferInstanceAs (Decidable (A.cert j cert))
      | (.fallbackSignedEntry _, _) => inferInstanceAs (Decidable (A.vote author _))
    inferInstanceAs (Decidable (A.vote author _ ∧ ∀ evidence ∈ msg.evidences.zipIdx, _))
  | .fastCommitQc qc => inferInstanceAs (Decidable (A.commitQc qc))
  | .enterFallbackCert cert => inferInstanceAs (Decidable (A.enterFallbackCert cert))

instance Admission.decidableInput (slot : Nat) (input : SlotInput E) :
    Decidable (A.input slot input) :=
  match input with
  | .message author message => inferInstanceAs (Decidable (A.message slot author message))
  | .deadline _ => isTrue trivial
  | .timer _ _ => isTrue trivial
  | .poll => isTrue trivial

end

lemma Admission.any_input (slot : Nat) (input : SlotInput E) :
    (Admission.any : Admission E).input slot input := by
  cases input with
  | message author m =>
    cases m with
    | fallbackVote msg =>
      refine ⟨trivial, fun evidence _ => ?_⟩
      split <;> trivial
    | batchVote msg | fastBlock block => exact fun _ _ => trivial
    | _ => exact trivial
  | _ => exact trivial

/-! ## Steps of the fast path -/

variable {block : FastBlock E}

namespace FastPath

/-- Evidence that can be formed from the votes for a proposal. -/
inductive Forms (context : ChorusContext E) (f : FastPath E) (j : Nat) : CertifiedEntry E → Prop
    where
  | fastQc {pool : VotePool E (Entry E) (Nat × Nat)} {qc : FastQc E}
      (hpool : f.votes[j]? = some pool)
      (hform : pool.tryFormStrongQc context.scheme context.bucketOrder = .ok (some qc)) :
      Forms context f j (.fastQc qc)
  | fallbackQc {pool : VotePool E (FallbackEntry E) (Nat × Nat)}
      {qcs : FallbackQc E ⊕ FallbackQc E × FallbackQc E} {qc : FallbackQc E}
      (hpool : f.fallbackEntryVotes[j]? = some pool)
      (hform : pool.tryFormWeakQc context.scheme context.bucketOrder = .ok (some qcs))
      (hchoose : chooseFallbackQc qcs = .ok qc) : Forms context f j (.fallbackQc qc)

/-- Elementary steps that leave the phase as it is. -/
inductive Step (context : ChorusContext E) (A : Admission E) : FastPath E → FastPath E → Prop where
  | vote {f f' : FastPath E} {j : Nat} {node : E.NodeId} {msg : VoteMsg E (Entry E) (Nat × Nat)}
      (hinsert : f.insertVote context.scheme j node msg = .ok f')
      (hvote : A.vote node (.entry f.slot j msg.vote)) : Step context A f f'
  | fallbackEntryVote {f f' : FastPath E} {j : Nat} {node : E.NodeId}
      {msg : VoteMsg E (FallbackEntry E) (Nat × Nat)}
      (hinsert : f.insertFallbackEntryVote context.scheme j node msg = .ok f')
      (hvote : A.vote node (.fallbackEntry f.slot j msg.vote)) : Step context A f f'
  | commitVote {f f' : FastPath E} {node : E.NodeId} {msg : FastCommitVoteMsg E}
      (hinsert : f.insertCommitVote context.scheme node msg = .ok f')
      (hvote : A.vote node (.fastCommit f.slot msg.vote)) : Step context A f f'
  | enterFallbackVote {f f' : FastPath E} {node : E.NodeId}
      {msg : VoteMsg E EnterFallbackVote Nat}
      (hinsert : f.insertEnterFallbackVote context.scheme node msg = .ok f')
      (hvote : A.vote node (.enterFallback f.slot msg.vote)) : Step context A f f'
  | upgrade {f : FastPath E} {j : Nat} {cert : LocalCertifiedEntry E} {newEv : CertifiedEntry E}
      (hcert : f.certs[j]? = some cert) (hnew : A.cert j newEv ∨ f.Forms context j newEv) :
      Step context A f (f.setCert j (cert.tryUpgrade newEv))

abbrev Steps (context : ChorusContext E) (A : Admission E) : FastPath E → FastPath E → Prop :=
  Relation.ReflTransGen (Step context A)

variable {context : ChorusContext E} {A : Admission E} {f f' f₀ : FastPath E}

lemma Step.frame (h : Step context A f f') :
    f'.slot = f.slot ∧ f'.phase = f.phase ∧ f'.certs.length = f.certs.length := by
  cases h with
  | upgrade _ _ => exact ⟨rfl, rfl, length_set⟩
  | vote h _ | fallbackEntryVote h _ | commitVote h _ | enterFallbackVote h _ =>
    obtain ⟨_, -, ⟨⟩⟩ := bind_eq_ok.mp h
    exact ⟨rfl, rfl, rfl⟩

lemma Step.slot_eq (h : Step context A f f') : f'.slot = f.slot := h.frame.1

lemma Step.phase_eq (h : Step context A f f') : f'.phase = f.phase := h.frame.2.1

lemma Step.certs_length (h : Step context A f f') : f'.certs.length = f.certs.length :=
  h.frame.2.2

lemma Steps.slot_eq (h : Steps context A f f') : f'.slot = f.slot := by
  induction h with
  | refl => rfl
  | tail _ hstep ih => rw [hstep.slot_eq, ih]

variable {j : Nat}

lemma scope_of_getElem? {V : Type} [DecidableEq V] {pools : ProposalMap (VotePool E V (Nat × Nat))}
    {slot n : Nat} {pool : VotePool E V (Nat × Nat)}
    (hpools : pools.map VotePool.scope = (range n).map fun j => (slot, j))
    (h : pools[j]? = some pool) : pool.scope = (slot, j) := by
  have hscope : (pools.map VotePool.scope)[j]? = some pool.scope := by
    rw [getElem?_map, h]
    rfl
  rw [hpools, getElem?_map, Option.map_eq_some_iff] at hscope
  obtain ⟨i, hi, hpair⟩ := hscope
  obtain ⟨hlt, heq⟩ := List.getElem?_eq_some_iff.mp hi
  rw [getElem_range] at heq
  rw [← hpair, heq]

lemma scope_of_votes {pool : VotePool E (Entry E) (Nat × Nat)}
    (h : f.votes[j]? = some pool) : pool.scope = (f.slot, j) := by
  refine scope_of_getElem? (n := f.certs.length) ?_ h
  rw [f.votes_scope, f.proposals_eq]

lemma scope_of_fallbackEntryVotes {pool : VotePool E (FallbackEntry E) (Nat × Nat)}
    (h : f.fallbackEntryVotes[j]? = some pool) : pool.scope = (f.slot, j) := by
  refine scope_of_getElem? (n := f.certs.length) ?_ h
  rw [f.fallbackEntryVotes_scope, f.proposals_eq]

/-- Votes are inserted for the slot and the proposals of the fast path. -/
lemma scope_of_insertVote {node : E.NodeId} {msg : VoteMsg E (Entry E) (Nat × Nat)}
    (h : f.insertVote context.scheme j node msg = .ok f') : msg.scope = (f.slot, j) := by
  obtain ⟨_, hvotes, -⟩ := bind_eq_ok.mp h
  obtain ⟨pool, hpool, hscope, -⟩ := ProposalMap.addVote_eq_ok.mp hvotes
  rw [hscope, scope_of_votes hpool]

lemma scope_of_insertCommitVote {node : E.NodeId} {msg : FastCommitVoteMsg E}
    (h : f.insertCommitVote context.scheme node msg = .ok f') : msg.scope = f.slot := by
  obtain ⟨_, hvotes, -⟩ := bind_eq_ok.mp h
  rw [(VotePool.addVote_eq_ok.mp hvotes).1, f.commitVotes_scope]

lemma scope_of_insertEnterFallbackVote {node : E.NodeId} {msg : VoteMsg E EnterFallbackVote Nat}
    (h : f.insertEnterFallbackVote context.scheme node msg = .ok f') : msg.scope = f.slot := by
  obtain ⟨_, hvotes, -⟩ := bind_eq_ok.mp h
  rw [(VotePool.addVote_eq_ok.mp hvotes).1, f.enterFallbackVotes_scope]

/-! ## Handlers of the fast path -/

lemma tryUpgrade_steps {newEv : CertifiedEntry E} (hf : Steps context A f₀ f)
    (hnew : A.cert j newEv ∨ f.Forms context j newEv) :
    wp (tryUpgrade j newEv) (fun _ f' => Steps context A f₀ f') (fun _ => True) f := by
  unfold tryUpgrade
  rw [wp_bind, wp_get, wp_lift_bind]
  intro cert hcert
  exact hf.tail (.upgrade (index_eq_ok.mp hcert) hnew)

lemma tryFormFastQc_steps (j : Nat) :
    Keeps (Steps context A f₀) (fun _ => True) (tryFormFastQc context j) := by
  refine keeps_get fun f hf => ?_
  rw [wp_lift_bind]
  intro cert _
  rw [wp_ite]
  refine ⟨fun _ => hf, fun _ => ?_⟩
  rw [wp_lift_bind]
  intro pool hpool
  rw [wp_lift_bind]
  intro qc hqc
  cases qc with
  | none => exact hf
  | some qc =>
    exact tryUpgrade_steps hf (.inr (.fastQc (index_eq_ok.mp hpool) hqc))

lemma tryFormFallbackQc_steps (j : Nat) :
    Keeps (Steps context A f₀) (fun _ => True) (tryFormFallbackQc context j) := by
  refine keeps_get fun f hf => ?_
  rw [wp_lift_bind]
  intro cert _
  rw [wp_ite]
  refine ⟨fun _ => hf, fun _ => ?_⟩
  rw [wp_lift_bind]
  intro pool hpool
  rw [wp_lift_bind]
  intro qcs hqcs
  cases qcs with
  | none => exact hf
  | some qcs =>
    rw [wp_lift_bind]
    intro qc hqc
    exact tryUpgrade_steps hf (.inr (.fallbackQc (index_eq_ok.mp hpool) hqcs hqc))

/-- A vote to commit is cast or not. -/
inductive Casts (f : FastPath E) : Option (FastBlock E) → FastPath E → Prop where
  | none : Casts f none f
  | some {block : FastBlock E} (hphase : f.phase = .propose ∨ f.phase = .vote)
      (hblock : f.tryFormFastBlock = some block) :
      Casts f (some block) (f.setPhase .fastCommit)

lemma tryCastFastCommitVote_casts :
    wp tryCastFastCommitVote (fun r f' => Casts f r f') (fun _ => True) f := by
  unfold tryCastFastCommitVote
  rw [wp_bind, wp_get, wp_ite]
  refine ⟨fun _ => .none, fun hphase => ?_⟩
  split
  · exact .none
  · next block hblock =>
    refine Casts.some ?_ hblock
    cases hp : f.phase <;> simp_all

variable {node : E.NodeId}

lemma handleVote_steps {msg : VoteMsg E (Entry E) (Nat × Nat)}
    (hvote : A.vote node (serialize msg.vote msg.scope)) :
    Keeps (Steps context A f₀) (fun _ => True) (handleVote context node msg) := by
  refine keeps_get fun f hf => ?_
  rw [wp_lift_bind]
  intro f' hinsert
  have hslot : msg.scope.1 = f.slot := congrArg Prod.fst (scope_of_insertVote hinsert)
  refine tryFormFastQc_steps _ _ (hf.tail (.vote hinsert ?_))
  rw [← hslot]
  exact hvote

lemma handleBatchVote_steps {msg : BatchVoteMsg E}
    (hmsg : ∀ v ∈ msg.split, A.vote node (serialize v.vote v.scope)) :
    wp (handleBatchVote context node msg)
      (fun r f' => ∃ f₁, Steps context A f f₁ ∧ Casts f₁ r f') (fun _ => True) f := by
  unfold handleBatchVote
  rw [wp_bind]
  refine wp_weaken (keeps_forM (fun v hv => handleVote_steps (hmsg v hv)) f .refl) fun _ f₁ hf1 => ?_
  exact wp_weaken tryCastFastCommitVote_casts fun _ _ hcasts => ⟨f₁, hf1, hcasts⟩

lemma handleFastBlock_steps (context : ChorusContext E)
    (hblock : ∀ entry ∈ block.qcs.zipIdx, A.cert entry.2 (.fastQc entry.1)) :
    wp (handleFastBlock block)
      (fun r f' => ∃ f₁, Steps context A f f₁ ∧ Casts f₁ r f') (fun _ => True) f := by
  unfold handleFastBlock
  rw [wp_bind]
  refine wp_weaken (keeps_forM (I := Steps context A f) (fun entry hentry f₁ hf1 =>
    tryUpgrade_steps hf1 (.inl (hblock entry hentry))) f .refl) fun _ f₁ hf1 => ?_
  exact wp_weaken tryCastFastCommitVote_casts fun _ _ hcasts => ⟨f₁, hf1, hcasts⟩

/-- A vote to commit is added, and a certificate is formed from the pool with it. -/
lemma handleCommitVote_steps {msg : FastCommitVoteMsg E}
    (hvote : A.vote node (serialize msg.vote msg.scope)) :
    wp (handleCommitVote context node msg) (fun r f' => Steps context A f f' ∧
        f'.commitVotes.tryFormStrongQc context.scheme context.bucketOrder = .ok r)
      (fun _ => True) f := by
  unfold handleCommitVote
  rw [wp_bind, wp_get, wp_lift_bind]
  intro f' hinsert
  rw [scope_of_insertCommitVote hinsert] at hvote
  rw [wp_bind, wp_set, wp_lift]
  exact ⟨fun r hr => ⟨.single (.commitVote hinsert hvote), hr⟩, fun _ _ => trivial⟩

lemma handleEvidence_steps {slot : Nat} {evidence : ProposalEvidence E} (hslot : f₀.slot = slot)
    (hevidence : match evidence with
      | .certified cert => A.cert j cert
      | .fallbackSignedEntry entry => A.vote node (.fallbackEntry slot j entry.entry)) :
    Keeps (Steps context A f₀) (fun _ => True) (handleEvidence context node j evidence) := by
  cases evidence with
  | certified cert => exact fun f hf => tryUpgrade_steps hf (.inl hevidence)
  | fallbackSignedEntry entry =>
    refine keeps_get fun f hf => ?_
    rw [wp_lift_bind]
    intro f' hinsert
    refine tryFormFallbackQc_steps _ _ (hf.tail (.fallbackEntryVote hinsert ?_))
    rw [hf.slot_eq, hslot]
    exact hevidence

lemma handleFallbackVote_steps {msg : FallbackVoteMsg E}
    (hmsg : A.message f.slot node (.fallbackVote msg)) :
    wp (handleFallbackVote context node msg) (fun _ f' => Steps context A f f') (fun _ => True)
      f := by
  obtain ⟨hvote, hevidences⟩ := hmsg
  unfold handleFallbackVote
  rw [wp_bind, wp_get, wp_lift_bind]
  intro f' hinsert
  rw [scope_of_insertEnterFallbackVote hinsert] at hvote
  exact keeps_forM (I := Steps context A f)
    (fun evidence hin => handleEvidence_steps rfl (hevidences evidence hin)) _
    (.single (.enterFallbackVote hinsert hvote))

lemma onProposeDeadline_casts {da : DAHandle E} : wp (onProposeDeadline context da)
      (fun r f' => (r = none ∧ f' = f) ∨
        ∃ msg, r = some msg ∧ f.phase = .propose ∧ msg.slot = f.slot ∧ f' = f.setPhase .vote)
      (fun _ => True) f := by
  unfold onProposeDeadline
  rw [wp_bind, wp_get, wp_ite]
  refine ⟨fun _ => .inl ⟨rfl, rfl⟩, fun hphase => ?_⟩
  rw [wp_bind, wp_set, wp_lift_bind]
  intro votes _
  exact .inr ⟨⟨f.slot, votes⟩, rfl, not_not.mp hphase, rfl, rfl⟩

lemma onCommitVoteDeadline_casts {da : DAHandle E} : wp (onCommitVoteDeadline context da)
      (fun r f' => ((∀ msg, r ≠ .fallbackVote msg) ∧ f' = f) ∨
        ∃ msg, r = .fallbackVote msg ∧ f.phase = .vote ∧ msg.enterFallbackVote.scope = f.slot ∧
          f' = f.setPhase .transitionToFallback)
      (fun _ => True) f := by
  unfold onCommitVoteDeadline
  rw [wp_bind, wp_get, wp_ite]
  refine ⟨fun _ => .inl ⟨fun _ h => (by cases h), rfl⟩, fun hphase => ?_⟩
  rw [wp_lift_bind]
  intro enough _
  rw [wp_ite]
  refine ⟨fun _ => .inl ⟨fun _ h => (by cases h), rfl⟩, fun _ => ?_⟩
  rw [wp_bind, wp_set]
  rw [wp_lift_bind]
  intro evidences _
  exact .inr ⟨_, rfl, not_not.mp hphase, rfl, rfl⟩

end FastPath

/-! ## Steps of an instance -/

/-- Outputs that are neither a ballot of this node nor a decision. -/
def SlotOutput.isQuiet : SlotOutput E → Bool
  | .broadcast (.batchVote _) => false
  | .broadcast (.fastCommitVote _) => false
  | .broadcast (.fallbackVote _) => false
  | .finalize _ => false
  | _ => true

namespace Chorus

/-- The changes of a whole instance. -/
inductive Step (context : ChorusContext E) (A : Admission E) : Chorus E → Chorus E → Prop where
  | fast {c : Chorus E} {f : FastPath E} (h : FastPath.Step context A c.fast f) :
      Step context A c { c with fast := f }
  | emit {c : Chorus E} {out : SlotOutput E} (hquiet : out.isQuiet = true) :
      Step context A c { c with outputs := c.outputs ++ [out] }
  | castVote {c : Chorus E} {msg : BatchVoteMsg E} (hphase : c.fast.phase = .propose)
      (hslot : msg.slot = c.fast.slot) :
      Step context A c { c with
        fast := c.fast.setPhase .vote
        outputs := c.outputs ++ [.broadcast (.batchVote msg)] }
  | castCommitVote {c : Chorus E} {block : FastBlock E}
      (hphase : c.fast.phase = .propose ∨ c.fast.phase = .vote)
      (hblock : c.fast.tryFormFastBlock = some block) :
      Step context A c { c with
        fast := c.fast.setPhase .fastCommit
        outputs := c.outputs ++ [.commitOptimistic block,
          .broadcast (.fastCommitVote (block.commitVote c.slot context.sign))] }
  | castFallbackVote {c : Chorus E} {msg : FallbackVoteMsg E} (hphase : c.fast.phase = .vote)
      (hslot : msg.enterFallbackVote.scope = c.fast.slot) :
      Step context A c { c with
        fast := c.fast.setPhase .transitionToFallback
        outputs := c.outputs ++ [.broadcast (.fallbackVote msg)] }
  | finalize {c : Chorus E} {qc : FastCommitQc E} (hopen : c.decided = false) (hqc : A.commitQc qc ∨
        c.fast.commitVotes.tryFormStrongQc context.scheme context.bucketOrder = .ok (some qc)) :
      Step context A c { c with decided := true, outputs := c.outputs ++ [.finalize qc] }
  | enterFallback {c : Chorus E} {inputs : MVBAInputs E} (hfirst : c.fallback = none)
      (hcert : A.enterFallbackCert inputs.enterFallbackCert ∨
        c.fast.enterFallbackVotes.tryFormStrongQc context.scheme context.bucketOrder =
          .ok (some inputs.enterFallbackCert))
      (hinputs : c.fast.tryBuildMvbaInputs inputs.enterFallbackCert = some inputs) :
      Step context A c { c with fallback := some ⟨c.fast.slot, 0, inputs⟩ }

abbrev Steps (context : ChorusContext E) (A : Admission E) : Chorus E → Chorus E → Prop :=
  Relation.ReflTransGen (Step context A)

variable {context : ChorusContext E} {A : Admission E} {c c' c₀ : Chorus E}

lemma Steps.fast {f : FastPath E} (hc : Steps context A c₀ c)
    (h : FastPath.Steps context A c.fast f) : Steps context A c₀ { c with fast := f } := by
  induction h with
  | refl => exact hc
  | tail _ hstep ih => exact ih.tail (.fast hstep)

/-! ## Handlers -/

lemma wp_onFast {α : Type} {m : FastM E α} {Q : α → Chorus E → Prop} :
    wp (onFast m) Q (fun _ => True) c ↔
      wp m (fun a f => Q a { c with fast := f }) (fun _ => True) c.fast := by
  unfold onFast
  rw [wp_bind, wp_get, wp_bind, wp_lift]
  unfold wp
  cases hm : m c.fast with
  | error e => simp
  | ok r =>
    constructor
    · exact fun h => h.1 r rfl
    · intro h
      refine ⟨fun r' hr' => ?_, fun e he => (by cases he)⟩
      cases hr'
      exact h

lemma push_steps {out : SlotOutput E} (hquiet : out.isQuiet = true) :
    Keeps (Steps context A c₀) (fun _ => True) (push out) :=
  fun _ hc => hc.tail (.emit hquiet)

lemma scheduleTimer_steps (event : TimerEvent) :
    Keeps (Steps context A c₀) (fun _ => True) (scheduleTimer event) :=
  keeps_get fun _ hc => push_steps rfl _ hc

section

variable (hc : Steps context A c₀ c)
include hc

lemma finalize_steps {qc : FastCommitQc E} (hqc : A.commitQc qc ∨
      c.fast.commitVotes.tryFormStrongQc context.scheme context.bucketOrder = .ok (some qc)) :
    wp (finalize qc) (fun _ c' => Steps context A c₀ c') (fun _ => True) c := by
  unfold finalize
  rw [wp_bind, wp_get, wp_ite]
  refine ⟨fun _ => hc, fun hopen => ?_⟩
  exact hc.tail (.finalize (Bool.not_eq_true _ ▸ hopen) hqc)

lemma enterFallback_steps {cert : EnterFallbackCert E} {inputs : MVBAInputs E}
    (hcert : A.enterFallbackCert cert ∨ c.fast.enterFallbackVotes.tryFormStrongQc context.scheme
      context.bucketOrder = .ok (some cert))
    (hinputs : c.fast.tryBuildMvbaInputs cert = some inputs) :
    wp (enterFallback inputs) (fun _ c' => Steps context A c₀ c') (fun _ => True) c := by
  have hbuilt := hinputs
  obtain ⟨block, _, rfl⟩ := Option.map_eq_some_iff.mp hbuilt
  unfold enterFallback
  rw [wp_bind, wp_get, wp_ite]
  refine ⟨fun _ => hc, fun hfirst => ?_⟩
  have hnone : c.fallback = none := Option.not_isSome_iff_eq_none.mp hfirst
  have htick : (SlotOutput.scheduleTimer c.delta .fallbackTick : SlotOutput E).isQuiet = true := rfl
  exact (hc.tail (.emit htick)).tail (.enterFallback hnone hcert hinputs)

/-- After the fast path may have cast the commit vote, the instance publishes it. -/
lemma castCommitVote_steps {f₁ f' : FastPath E} (hf : FastPath.Steps context A c.fast f₁)
    (hcasts : FastPath.Casts f₁ (some block) f') :
    Steps context A c₀ { c with
      fast := f'
      outputs := c.outputs ++ [.commitOptimistic block] ++
        [.broadcast (.fastCommitVote (block.commitVote c.slot context.sign))] } := by
  cases hcasts with
  | some hphase hblock =>
    rw [append_assoc]
    exact (hc.fast hf).tail (.castCommitVote hphase hblock)

end

section

variable {author : E.NodeId} {message : Message E} (hmessage : A.message c.fast.slot author message)
  (hc : Steps context A c₀ c)
include hmessage hc

lemma dispatch_steps :
    wp (dispatch context author message) (fun _ c' => Steps context A c₀ c') (fun _ => True) c := by
  cases message with
  | batchVote msg =>
    unfold dispatch
    rw [wp_bind, wp_onFast]
    refine wp_weaken (handleBatchVote_steps hmessage) fun r f' h => ?_
    obtain ⟨f1, hf1, hcasts⟩ := h
    cases r with
    | none =>
      cases hcasts
      exact hc.fast hf1
    | some block =>
      exact (castCommitVote_steps hc hf1 hcasts).tail (.emit rfl)
  | fastCommitVote msg =>
    unfold dispatch
    rw [wp_bind, wp_onFast]
    refine wp_weaken (handleCommitVote_steps hmessage) fun r f' h => ?_
    obtain ⟨hf, hform⟩ := h
    cases r with
    | none => exact hc.fast hf
    | some qc =>
      exact finalize_steps ((hc.fast hf).tail (.emit rfl)) (.inr hform)
  | fastBlock block =>
    unfold dispatch
    rw [wp_bind, wp_onFast]
    refine wp_weaken (handleFastBlock_steps context hmessage) fun r f' h => ?_
    obtain ⟨f1, hf1, hcasts⟩ := h
    cases r with
    | none =>
      cases hcasts
      exact hc.fast hf1
    | some block => exact castCommitVote_steps hc hf1 hcasts
  | fallbackVote msg =>
    unfold dispatch
    rw [wp_onFast]
    exact wp_weaken (handleFallbackVote_steps hmessage) fun _ f' hf' => hc.fast hf'
  | fastCommitQc qc => exact finalize_steps hc (.inl hmessage)
  | enterFallbackCert cert =>
    unfold dispatch
    rw [wp_bind, wp_get]
    split
    · exact hc
    · next inputs hinputs =>
      exact enterFallback_steps hc (.inl hmessage) hinputs

theorem handleMessage_steps :
    wp (handleMessage context author message) (fun _ c' => Steps context A c₀ c') (fun _ => True)
      c := by
  unfold handleMessage
  rw [wp_bind, wp_get, wp_ite]
  exact ⟨fun _ => hc, fun _ => dispatch_steps hmessage hc⟩

end

theorem handleDeadline_steps (da : DAHandle E) :
    Keeps (Steps context A c₀) (fun _ => True) (handleDeadline context da) := by
  refine keeps_get fun c hc => ?_
  rw [wp_ite]
  refine ⟨fun _ => hc, fun _ => ?_⟩
  rw [wp_bind]
  refine wp_weaken (scheduleTimer_steps _ _ hc) fun _ c1 hc1 => ?_
  rw [wp_bind, wp_onFast]
  refine wp_weaken onProposeDeadline_casts fun r f' h => ?_
  rcases h with ⟨rfl, rfl⟩ | ⟨msg, rfl, hphase, hslot, rfl⟩
  · exact hc1
  · exact hc1.tail (.castVote hphase hslot)

theorem handleTimer_steps (da : DAHandle E) (event : TimerEvent) :
    Keeps (Steps context A c₀) (fun _ => True) (handleTimer context da event) := by
  cases event with
  | fallbackTransitionTimeout =>
    intro c hc
    unfold handleTimer
    rw [wp_bind]
    refine wp_weaken (scheduleTimer_steps _ _ hc) fun _ c1 hc1 => ?_
    rw [wp_bind, wp_onFast]
    refine wp_weaken onCommitVoteDeadline_casts fun r f' h => ?_
    rcases h with ⟨hr, rfl⟩ | ⟨msg, rfl, hphase, hslot, rfl⟩
    · cases r with
      | alreadyVoted => exact hc1
      | notEnoughVotes => exact scheduleTimer_steps _ _ hc1
      | fallbackVote msg => exact absurd rfl (hr msg)
    · exact hc1.tail (.castFallbackVote hphase hslot)
  | fallbackDecisionDelayElapsed =>
    refine keeps_get fun c hc => ?_
    rw [wp_lift_bind]
    intro r hr
    cases r with
    | none => exact scheduleTimer_steps _ _ hc
    | some inputs =>
      obtain ⟨qc, hqc, hr⟩ := bind_eq_ok.mp hr
      cases qc with
      | none => cases hr
      | some qc =>
        exact enterFallback_steps (hc.tail (.emit rfl)) (.inr hqc) (Except.ok.inj hr)
  | fallbackTick =>
    refine keeps_get fun c hc => ?_
    rw [wp_ite]
    exact ⟨fun _ => trivial, fun _ => trivial⟩

lemma Step.prepend (h : Step context A c c') (outs : List (SlotOutput E)) :
    Step context A { c with outputs := outs ++ c.outputs }
      { c' with outputs := outs ++ c'.outputs } := by
  cases h with
  | fast h => exact .fast h
  | enterFallback hfirst hcert hinputs => exact .enterFallback hfirst hcert hinputs
  | _ =>
    simp only [← append_assoc]
    constructor <;> assumption

lemma Steps.prepend (h : Steps context A c c') (outs : List (SlotOutput E)) :
    Steps context A { c with outputs := outs ++ c.outputs }
      { c' with outputs := outs ++ c'.outputs } := by
  induction h with
  | refl => exact .refl
  | tail _ hstep ih => exact ih.tail (hstep.prepend outs)

lemma Step.fast_slot_eq (h : Step context A c c') : c'.fast.slot = c.fast.slot := by
  cases h with
  | fast h => exact h.slot_eq
  | _ => rfl

lemma Steps.fast_slot_eq (h : Steps context A c c') : c'.fast.slot = c.fast.slot := by
  induction h with
  | refl => rfl
  | tail _ hstep ih => rw [hstep.fast_slot_eq, ih]

lemma Step.certs_length (h : Step context A c c') : c'.fast.certs.length = c.fast.certs.length := by
  cases h with
  | fast h => exact h.certs_length
  | _ => rfl

lemma Steps.certs_length (h : Steps context A c c') :
    c'.fast.certs.length = c.fast.certs.length := by
  induction h with
  | refl => rfl
  | tail _ hstep ih => rw [hstep.certs_length, ih]

end Chorus

/-! ## Runs -/

namespace SlotRun

variable {context : ChorusContext E} {config : ChorusConfig} {slot : Nat} {A : Admission E}
  {r r' : SlotRun E}

/-- The instance as if nothing had been taken from its outputs. -/
def total (r : SlotRun E) : Chorus E := { r.chorus with outputs := r.emitted }

lemma exec_total {handler : ChorusM E Unit}
    (hhandler : wp handler (fun _ c' => Chorus.Steps context A r.chorus c') (fun _ => True) r.chorus)
    (h : r.exec handler = .ok r') : Chorus.Steps context A r.total r'.total := by
  unfold exec at h
  split at h
  · next chorus hrun =>
    cases h
    exact (wp_of_ok hhandler hrun).prepend r.polled
  · cases h

lemma step_total {input : SlotInput E} (hinput : A.input r.chorus.fast.slot input)
    (h : r.step context input = .ok r') : Chorus.Steps context A r.total r'.total := by
  cases input with
  | message author message => exact exec_total (Chorus.handleMessage_steps hinput .refl) h
  | deadline da => exact exec_total (Chorus.handleDeadline_steps da _ .refl) h
  | timer event da => exact exec_total (Chorus.handleTimer_steps da event _ .refl) h
  | poll =>
    cases h
    have heq : (mk r.chorus.poll.2 (r.polled ++ r.chorus.poll.1.toList)).total = r.total := by
      unfold total emitted Chorus.poll
      cases hout : r.chorus.outputs <;> simp
    rw [heq]

/-- A run whose messages are admitted takes elementary steps. -/
theorem run_steps {inputs : List (SlotInput E)} (h : run context config slot inputs = .ok r)
    (hinputs : ∀ input ∈ inputs, A.input slot input) :
    Chorus.Steps context A (Chorus.new slot config) r.total := by
  induction inputs using reverseRecOn generalizing r with
  | nil =>
    cases h
    exact .refl
  | append_singleton inputs input ih =>
    unfold run at h
    rw [foldlM_append] at h
    obtain ⟨r1, hrun, hstep⟩ := bind_eq_ok.mp h
    have hsteps := ih hrun fun input' hin => hinputs input' (mem_append_left _ hin)
    have hslot : r1.chorus.fast.slot = slot := hsteps.fast_slot_eq
    have hinput := hinputs input (mem_append_right _ (mem_singleton_self _))
    rw [← hslot] at hinput
    simp only [foldlM_cons, foldlM_nil, bind_pure] at hstep
    exact hsteps.trans (step_total hinput hstep)

end SlotRun

end Kinet.Mcp
