import Kinet.Mcp.Steps

/-!
# Admitted certificates

If what is admitted is closed under forming certificates, then everything that a slot
instance holds, votes for, finalizes with or enters the fallback path with is admitted.

Main results:

- `Chorus.Step.sound`: one step.
- `Chorus.Steps.sound`: any number of steps.
-/

namespace Kinet

open Effect List Option

namespace Mcp

variable {E : Types}

/-- Certificates of admitted votes are admitted. -/
structure Admission.Closed (A : Admission E) (context : ChorusContext E) (slot : Nat) : Prop where
  fastQc : ∀ j (pool : VotePool E (Entry E) (Nat × Nat)) qc, pool.scope = (slot, j) →
    (∀ vote, ∀ node ∈ pool.voters vote, A.vote node (.entry slot j vote)) →
    pool.tryFormStrongQc context.scheme context.bucketOrder = .ok (some qc) → A.cert j (.fastQc qc)
  fallbackQc : ∀ j (pool : VotePool E (FallbackEntry E) (Nat × Nat)) qcs qc,
    pool.scope = (slot, j) →
    (∀ vote, ∀ node ∈ pool.voters vote, A.vote node (.fallbackEntry slot j vote)) →
    pool.tryFormWeakQc context.scheme context.bucketOrder = .ok (some qcs) →
    FastPath.chooseFallbackQc qcs = .ok qc → A.cert j (.fallbackQc qc)
  commitQc : ∀ (pool : VotePool E (FastCommitVote E) Nat) qc, pool.scope = slot →
    (∀ vote, ∀ node ∈ pool.voters vote, A.vote node (.fastCommit slot vote)) →
    pool.tryFormStrongQc context.scheme context.bucketOrder = .ok (some qc) → A.commitQc qc
  enterFallbackCert : ∀ (pool : VotePool E EnterFallbackVote Nat) qc, pool.scope = slot →
    (∀ vote, ∀ node ∈ pool.voters vote, A.vote node (.enterFallback slot vote)) →
    pool.tryFormStrongQc context.scheme context.bucketOrder = .ok (some qc) →
    A.enterFallbackCert qc

/-- All votes and all evidence of a fast path are admitted. -/
structure FastPath.Sound (A : Admission E) (slot : Nat) (f : FastPath E) : Prop where
  slot_eq : f.slot = slot
  votes : ∀ j pool, f.votes[j]? = some pool → ∀ vote, ∀ node ∈ pool.voters vote,
    A.vote node (.entry slot j vote)
  fallbackEntryVotes : ∀ j pool, f.fallbackEntryVotes[j]? = some pool → ∀ vote,
    ∀ node ∈ pool.voters vote, A.vote node (.fallbackEntry slot j vote)
  commitVotes : ∀ vote, ∀ node ∈ f.commitVotes.voters vote, A.vote node (.fastCommit slot vote)
  enterFallbackVotes : ∀ vote, ∀ node ∈ f.enterFallbackVotes.voters vote,
    A.vote node (.enterFallback slot vote)
  certs : ∀ j cert, f.certs[j]? = some (.certified cert) → A.cert j cert

namespace FastPath

variable {context : ChorusContext E} {A : Admission E} {slot : Nat} {f f' : FastPath E}

lemma sound_new (numProposals : Nat) : (new slot numProposals).Sound A slot := by
  have hnew {V Scope : Type} [DecidableEq V] (scope : Scope) (vote : V) (node : E.NodeId) :
      node ∉ (VotePool.new scope : VotePool E V Scope).voters vote := by
    simp [VotePool.new, VotePool.voters]
  have hpools {V : Type} [DecidableEq V] {j : Nat} {pool : VotePool E V (Nat × Nat)}
      (h : ((range numProposals).map fun j => VotePool.new (slot, j))[j]? = some pool)
      (vote : V) (node : E.NodeId) : node ∉ pool.voters vote := by
    rw [getElem?_map, map_eq_some_iff] at h
    obtain ⟨i, _, rfl⟩ := h
    exact hnew _ _ _
  refine ⟨rfl, ?_, ?_, ?_, ?_, ?_⟩
  · exact fun j pool h vote node hnode => absurd hnode (hpools h vote node)
  · exact fun j pool h vote node hnode => absurd hnode (hpools h vote node)
  · exact fun vote node hnode => absurd hnode (hnew _ _ _)
  · exact fun vote node hnode => absurd hnode (hnew _ _ _)
  · intro j cert h
    obtain ⟨_, h⟩ := List.getElem?_eq_some_iff.mp h
    simp [new] at h

variable {j : Nat}

lemma forall_voters_addVote {V : Type} [DecidableEq V]
    {pools : ProposalMap (VotePool E V (Nat × Nat))} {S : VoteScheme E}
    {pools' : { pools' : ProposalMap (VotePool E V (Nat × Nat)) //
      pools'.map VotePool.scope = pools.map VotePool.scope }}
    {node : E.NodeId} {msg : VoteMsg E V (Nat × Nat)} {P : Nat → V → E.NodeId → Prop}
    (hvotes : pools.addVote S j node msg = .ok pools')
    (hpools : ∀ i pool, pools[i]? = some pool → ∀ vote, ∀ node ∈ pool.voters vote, P i vote node)
    (hnew : P j msg.vote node) {i : Nat} {pool : VotePool E V (Nat × Nat)}
    (h : pools'.1[i]? = some pool) : ∀ vote, ∀ node ∈ pool.voters vote, P i vote node := by
  obtain ⟨old, hold, -, heq⟩ := ProposalMap.addVote_eq_ok.mp hvotes
  rw [heq] at h
  by_cases hi : j = i
  · subst hi
    rw [List.getElem?_set_self (List.getElem?_eq_some_iff.mp hold).1, Option.some.injEq] at h
    subst h
    intro vote node' hnode'
    rcases VotePool.mem_voters_recordVote hnode' with hin | ⟨rfl, rfl⟩
    · exact hpools j old hold vote node' hin
    · exact hnew
  · rw [List.getElem?_set_ne hi] at h
    exact hpools i pool h

lemma Sound.forms (h : f.Sound A slot) (hA : A.Closed context slot)
    {cert : CertifiedEntry E} (hforms : f.Forms context j cert) : A.cert j cert := by
  cases hforms with
  | fastQc hpool hform =>
    refine hA.fastQc j _ _ ?_ (h.votes j _ hpool) hform
    rw [scope_of_votes hpool, h.slot_eq]
  | fallbackQc hpool hform hchoose =>
    refine hA.fallbackQc j _ _ _ ?_ (h.fallbackEntryVotes j _ hpool) hform hchoose
    rw [scope_of_fallbackEntryVotes hpool, h.slot_eq]

theorem Step.sound (hstep : Step context A f f') (hA : A.Closed context slot)
    (h : f.Sound A slot) : f'.Sound A slot := by
  have hslot := h.slot_eq
  cases hstep with
  | vote hinsert hvote =>
    rw [hslot] at hvote
    obtain ⟨votes, hvotes, ⟨⟩⟩ := bind_eq_ok.mp hinsert
    exact { h with
      votes := fun i pool hpool => forall_voters_addVote hvotes
        (P := fun i vote node => A.vote node (.entry slot i vote)) h.votes hvote hpool }
  | fallbackEntryVote hinsert hvote =>
    rw [hslot] at hvote
    obtain ⟨votes, hvotes, ⟨⟩⟩ := bind_eq_ok.mp hinsert
    exact { h with
      fallbackEntryVotes := fun i pool hpool => forall_voters_addVote hvotes
        (P := fun i vote node => A.vote node (.fallbackEntry slot i vote)) h.fallbackEntryVotes
        hvote hpool }
  | commitVote hinsert hvote =>
    rw [hslot] at hvote
    obtain ⟨votes, hvotes, ⟨⟩⟩ := bind_eq_ok.mp hinsert
    refine { h with commitVotes := fun vote node hnode => ?_ }
    dsimp only at hnode
    rw [(VotePool.addVote_eq_ok.mp hvotes).2] at hnode
    rcases VotePool.mem_voters_recordVote hnode with hin | ⟨rfl, rfl⟩
    · exact h.commitVotes vote node hin
    · exact hvote
  | enterFallbackVote hinsert hvote =>
    rw [hslot] at hvote
    obtain ⟨votes, hvotes, ⟨⟩⟩ := bind_eq_ok.mp hinsert
    refine { h with enterFallbackVotes := fun vote node hnode => ?_ }
    dsimp only at hnode
    rw [(VotePool.addVote_eq_ok.mp hvotes).2] at hnode
    rcases VotePool.mem_voters_recordVote hnode with hin | ⟨rfl, rfl⟩
    · exact h.enterFallbackVotes vote node hin
    · exact hvote
  | @upgrade j cert newEv hcert hnew =>
    have hgood : A.cert j newEv := hnew.elim id fun hforms => h.forms hA hforms
    refine { h with certs := fun i cert' hi => ?_ }
    change (f.certs.set j (cert.tryUpgrade newEv))[i]? = some (.certified cert') at hi
    rw [getElem?_set] at hi
    split at hi
    · next heq =>
      subst heq
      rcases cert.tryUpgrade_cases newEv with hsame | hupgraded
      · rw [hsame] at hi
        refine h.certs j cert' ?_
        split at hi
        · rw [hcert, hi]
        · cases hi
      · rw [hupgraded] at hi
        split at hi
        · cases hi
          exact hgood
        · cases hi
    · exact h.certs i cert' hi

section

variable {α β : Type} {g : α → Option β} {l : List α} {l' : List β} (h : l.mapM g = some l')
include h

/-- A successful traversal maps every element. -/
lemma map_eq_of_mapM : l.map g = l'.map some := by
  induction l generalizing l' with
  | nil =>
    cases h
    rfl
  | cons a l ih =>
    rw [mapM_cons] at h
    obtain ⟨b, hb, h⟩ := bind_eq_some_iff.mp h
    obtain ⟨rest, hrest, h⟩ := bind_eq_some_iff.mp h
    cases h
    rw [map_cons, map_cons, hb, ih hrest]

lemma getElem?_of_mapM {b : β} (hb : l'[j]? = some b) : ∃ a, l[j]? = some a ∧ g a = some b := by
  have hmap : (l.map g)[j]? = some (some b) := by
    rw [map_eq_of_mapM h, getElem?_map, hb]
    rfl
  rwa [getElem?_map, map_eq_some_iff] at hmap

end

variable {block : FastBlock E}

lemma length_of_tryFormFastBlock (h : f.tryFormFastBlock = some block) :
    block.qcs.length = f.certs.length := by
  obtain ⟨qcs, hqcs, rfl⟩ := map_eq_some_iff.mp h
  have hlength := congrArg length (map_eq_of_mapM hqcs)
  rw [length_map, length_map] at hlength
  exact hlength.symm

lemma Sound.fastBlock (h : f.Sound A slot) (hblock : f.tryFormFastBlock = some block)
    {qc : FastQc E} (hqc : block.qcs[j]? = some qc) : A.cert j (.fastQc qc) := by
  obtain ⟨qcs, hqcs, rfl⟩ := map_eq_some_iff.mp hblock
  obtain ⟨cert, hcert, hfast⟩ := getElem?_of_mapM hqcs hqc
  refine h.certs j _ ?_
  rw [hcert]
  unfold LocalCertifiedEntry.fastQc at hfast
  split at hfast
  · cases hfast
    rfl
  · cases hfast

lemma Sound.mvbaInputs (h : f.Sound A slot) {cert : EnterFallbackCert E} {inputs : MVBAInputs E}
    (hinputs : f.tryBuildMvbaInputs cert = some inputs) {entry : CertifiedEntry E}
    (hentry : inputs.block[j]? = some entry) : A.cert j entry := by
  obtain ⟨block, hblock, rfl⟩ := map_eq_some_iff.mp hinputs
  obtain ⟨local', hlocal, hcert⟩ := getElem?_of_mapM hblock hentry
  refine h.certs j _ ?_
  rw [hlocal]
  cases local' with
  | absent => cases hcert
  | certified cert' =>
    cases hcert
    rfl

end FastPath

namespace Chorus

variable {context : ChorusContext E} {A : Admission E} {slot : Nat} {c c' : Chorus E}

/-- All certificates that an instance holds, votes for, or finalizes with are admitted. -/
structure Sound (A : Admission E) (slot : Nat) (c : Chorus E) : Prop where
  slot_eq : c.slot = slot
  fast : c.fast.Sound A slot
  committed : ∀ msg, .broadcast (.fastCommitVote msg) ∈ c.outputs →
    msg.scope = slot ∧ ∃ block : FastBlock E, msg.vote = block.toVote ∧
      block.qcs.length = c.fast.certs.length ∧
      ∀ j qc, block.qcs[j]? = some qc → A.cert j (.fastQc qc)
  finalized : ∀ qc, .finalize qc ∈ c.outputs → A.commitQc qc
  fallback : ∀ path, c.fallback = some path → A.enterFallbackCert path.input.enterFallbackCert ∧
      ∀ j cert, path.input.block[j]? = some cert → A.cert j cert

lemma sound_new (config : ChorusConfig) : (new slot config).Sound A slot :=
  ⟨rfl, FastPath.sound_new _, fun _ h => (by cases h), fun _ h => (by cases h),
    fun _ h => (by cases h)⟩

/-- New outputs with neither a commit vote nor a decision. -/
lemma Sound.append (h : c.Sound A slot) {f : FastPath E} (hf : f.Sound A slot)
    (hlength : f.certs.length = c.fast.certs.length) {outs : List (SlotOutput E)}
    (hvote : ∀ msg, .broadcast (.fastCommitVote msg) ∉ outs) (hfinal : ∀ qc, .finalize qc ∉ outs) :
    Sound A slot { c with fast := f, outputs := c.outputs ++ outs } where
  slot_eq := h.slot_eq
  fast := hf
  committed msg hmsg := by
    rw [hlength]
    exact (mem_append.mp hmsg).elim (h.committed msg) fun hnew => absurd hnew (hvote msg)
  finalized qc hqc := (mem_append.mp hqc).elim (h.finalized qc) fun hnew => absurd hnew (hfinal qc)
  fallback := h.fallback

theorem Step.sound (hstep : Step context A c c') (hA : A.Closed context slot)
    (h : c.Sound A slot) : c'.Sound A slot := by
  have hphase (phase : Phase) : (c.fast.setPhase phase).Sound A slot :=
    ⟨h.fast.slot_eq, h.fast.votes, h.fast.fallbackEntryVotes, h.fast.commitVotes,
      h.fast.enterFallbackVotes, h.fast.certs⟩
  cases hstep with
  | fast hstep =>
    refine { h with fast := hstep.sound hA h.fast, committed := fun msg hmsg => ?_ }
    rw [hstep.certs_length]
    exact h.committed msg hmsg
  | @emit out hquiet =>
    refine h.append h.fast rfl (fun msg hin => ?_) fun qc hin => ?_
    · obtain rfl := mem_singleton.mp hin
      cases hquiet
    · obtain rfl := mem_singleton.mp hin
      cases hquiet
  | castVote _ _ => exact h.append (hphase .vote) rfl (by simp) (by simp)
  | castFallbackVote _ _ =>
    exact h.append (hphase .transitionToFallback) rfl (by simp) (by simp)
  | @castCommitVote block _ hblock =>
    refine ⟨h.slot_eq, hphase _, fun msg hmsg => ?_, fun qc hqc => ?_, h.fallback⟩
    · rcases mem_append.mp hmsg with hold | hnew
      · exact h.committed msg hold
      · simp only [mem_cons, reduceCtorEq, SlotOutput.broadcast.injEq,
          Message.fastCommitVote.injEq, not_mem_nil, or_false, false_or] at hnew
        subst hnew
        exact ⟨h.slot_eq, block, rfl, FastPath.length_of_tryFormFastBlock hblock,
          fun j qc hqc => h.fast.fastBlock hblock hqc⟩
    · rcases mem_append.mp hqc with hold | hnew
      · exact h.finalized qc hold
      · simp at hnew
  | @finalize qc _ hqc =>
    refine ⟨h.slot_eq, h.fast, fun msg hmsg => ?_, fun qc' hqc' => ?_, h.fallback⟩
    · rcases mem_append.mp hmsg with hold | hnew
      · exact h.committed msg hold
      · simp at hnew
    · rcases mem_append.mp hqc' with hold | hnew
      · exact h.finalized qc' hold
      · cases mem_singleton.mp hnew
        refine hqc.elim id fun hform => hA.commitQc _ _ ?_ h.fast.commitVotes hform
        rw [c.fast.commitVotes_scope, h.fast.slot_eq]
  | @enterFallback inputs _ hcert hinputs =>
    refine { h with fallback := fun path hpath => ?_ }
    cases hpath
    refine ⟨hcert.elim id fun hform => ?_, fun j cert hj => h.fast.mvbaInputs hinputs hj⟩
    refine hA.enterFallbackCert _ _ ?_ h.fast.enterFallbackVotes hform
    rw [c.fast.enterFallbackVotes_scope, h.fast.slot_eq]

theorem Steps.sound (hsteps : Steps context A c c') (hA : A.Closed context slot)
    (h : c.Sound A slot) : c'.Sound A slot := by
  induction hsteps with
  | refl => exact h
  | tail _ hstep ih => exact hstep.sound hA ih

end Chorus

end Mcp

end Kinet
