import Kinet.Mcp.Agreement

/-!
# Scopes of certificates

A certificate is verified for the scope that it names.  An instance does not compare that
scope with its own slot, or with the index under which the certificate was delivered; it
relies on those who deliver messages to do so.

Main results:

- `SlotRun.run_scoped`: certificates that are delivered under their own scope keep
  it.
- `Stub.run_of_other_slot`: an instance that finalizes, and enters the fallback
  path, with certificates of another slot.
-/

namespace Kinet.Mcp

open SlotRun

variable {E : Types}

/-- Evidence for proposal `j` of a slot.  Proof of an equivocation names no slot. -/
def CertifiedEntry.InScope (slot j : Nat) : CertifiedEntry E → Prop
  | .fastQc qc => qc.scope = (slot, j)
  | .equivCert _ => True
  | .fallbackQc qc => qc.scope = (slot, j)

/-- Certificates of a slot, delivered for the proposal that they name. -/
def Admission.scoped (slot : Nat) : Admission E where
  vote _ _ := True
  cert j cert := cert.InScope slot j
  commitQc qc := qc.scope = slot
  enterFallbackCert cert := cert.scope = slot

section

variable {V Scope : Type} [DecidableEq V] [IsVote E V Scope] {S : VoteScheme E}
  {order : List (V × Finset E.NodeId) → List (V × Finset E.NodeId)} {pool : VotePool E V Scope}

lemma VotePool.tryFormStrongQc_scope {qc : StrongQc E V Scope}
    (h : pool.tryFormStrongQc S order = .ok (some qc)) : qc.scope = pool.scope := by
  obtain ⟨aggs, _, h⟩ := Effect.bind_eq_ok.mp h
  cases aggs with
  | nil => cases h
  | cons agg rest =>
    cases h
    rfl

lemma VotePool.tryFormWeakQc_scope {qcs : WeakQc E V Scope ⊕ WeakQc E V Scope × WeakQc E V Scope}
    (h : pool.tryFormWeakQc S order = .ok (some qcs)) :
    match qcs with
    | .inl qc => qc.scope = pool.scope
    | .inr (qc₁, qc₂) => qc₁.scope = pool.scope ∧ qc₂.scope = pool.scope := by
  obtain ⟨aggs, _, h⟩ := Effect.bind_eq_ok.mp h
  match aggs with
  | [] => cases h
  | [_] =>
    cases h
    rfl
  | _ :: _ :: _ =>
    cases h
    exact ⟨rfl, rfl⟩

end

lemma Admission.scoped_closed (context : ChorusContext E) (slot : Nat) :
    (Admission.scoped slot).Closed context slot where
  fastQc _ _ _ hscope _ hform := (VotePool.tryFormStrongQc_scope hform).trans hscope
  fallbackQc j pool qcs qc hscope _ hform hchoose := by
    have hqcs := VotePool.tryFormWeakQc_scope hform
    unfold FastPath.chooseFallbackQc at hchoose
    split at hchoose
    · cases hchoose
      exact hqcs.trans hscope
    · split at hchoose <;> cases hchoose
      · exact hqcs.1.trans hscope
      · exact hqcs.2.trans hscope
  commitQc _ _ hscope _ hform := (VotePool.tryFormStrongQc_scope hform).trans hscope
  enterFallbackCert _ _ hscope _ hform := (VotePool.tryFormStrongQc_scope hform).trans hscope

/-- If certificates are delivered under their own scope, then an instance holds them,
finalizes and enters the fallback path only under that scope. -/
theorem SlotRun.run_scoped (context : ChorusContext E) (config : ChorusConfig) (slot : Nat)
    (inputs : List (SlotInput E)) (r : SlotRun E) (hrun : run context config slot inputs = .ok r)
    (hinputs : ∀ input ∈ inputs, (Admission.scoped slot).input slot input) :
    (∀ (j : Nat) (cert : CertifiedEntry E),
      r.chorus.fast.certs[j]? = some (LocalCertifiedEntry.certified cert) → cert.InScope slot j) ∧
    (∀ qc, .finalize qc ∈ r.emitted → qc.scope = slot) ∧
    ∀ path, r.chorus.fallback = some path → path.input.enterFallbackCert.scope = slot ∧
        ∀ (j : Nat) (cert : CertifiedEntry E), path.input.block[j]? = some cert →
          cert.InScope slot j := by
  have hsound : r.total.Sound (.scoped slot) slot :=
    (run_steps hrun hinputs).sound (Admission.scoped_closed context slot) (Chorus.sound_new config)
  exact ⟨hsound.fast.certs, hsound.finalized, hsound.fallback⟩

namespace Stub

def certificates (slot : Nat) : List (SlotInput types) :=
  [.message 1 (.fastBlock ⟨[fastQc slot]⟩), .message 1 (.enterFallbackCert (fallbackCert slot)),
    .message 1 (.fastCommitQc (commitQc slot))]

/-- A run of node 0 in slot 8 that ends in a state with `p`. -/
def reaches (inputs : List (SlotInput types)) (p : SlotRun types → Bool) : Bool :=
  match run (context 0) config 8 inputs with
  | .ok r => p r
  | .error _ => false

lemma exists_of_reaches {inputs : List (SlotInput types)} {p : SlotRun types → Bool}
    (h : reaches inputs p = true) :
    ∃ r, run (context 0) config 8 inputs = .ok r ∧ p r = true := by
  unfold reaches at h
  split at h
  · next r hr => exact ⟨r, hr, h⟩
  · cases h

/-- The certificates of slot 8 are accepted in slot 8. -/
theorem run_scoped_certificates : ∃ r, run (context 0) config 8 (certificates 8) = .ok r ∧
      .finalize (commitQc 8) ∈ r.emitted ∧ (commitQc 8).scope = 8 := by
  have hreaches : reaches (certificates 8) (fun r => decide (.finalize (commitQc 8) ∈ r.emitted)) =
      true := by
    decide +kernel
  obtain ⟨r, hrun, hfinal⟩ := exists_of_reaches hreaches
  have hinputs : ∀ input ∈ certificates 8, (Admission.scoped 8).input 8 input := by
    intro input hin
    simp only [certificates, List.mem_cons, List.not_mem_nil, or_false] at hin
    rcases hin with rfl | rfl | rfl
    · intro entry hentry
      cases List.mem_singleton.mp hentry
      rfl
    · rfl
    · rfl
  obtain ⟨_, hscope, _⟩ := run_scoped (context 0) config 8 _ r hrun hinputs
  exact ⟨r, hrun, of_decide_eq_true hfinal, hscope _ (of_decide_eq_true hfinal)⟩

/-- In slot 8, node 0 holds, enters the fallback path with and finalizes with verified
certificates of slot 7. -/
theorem run_of_other_slot :
    (fastQc 7).verify fourScheme = true ∧ (fallbackCert 7).verify fourScheme = true ∧
    (commitQc 7).verify fourScheme = true ∧
    ∃ r, run (context 0) config 8 (certificates 7) = .ok r ∧
      r.chorus.fast.certs = [.certified (.fastQc (fastQc 7))] ∧
      (r.chorus.fallback.map (·.input.enterFallbackCert)) = some (fallbackCert 7) ∧
      .finalize (commitQc 7) ∈ r.emitted ∧
      (fastQc 7).scope ≠ (8, 0) ∧ (fallbackCert 7).scope ≠ 8 ∧ (commitQc 7).scope ≠ 8 := by
  have hreaches : reaches (certificates 7) (fun r => decide (
      r.chorus.fast.certs = [.certified (.fastQc (fastQc 7))] ∧
      (r.chorus.fallback.map (·.input.enterFallbackCert)) = some (fallbackCert 7) ∧
      .finalize (commitQc 7) ∈ r.emitted)) = true := by
    decide +kernel
  obtain ⟨r, hrun, hp⟩ := exists_of_reaches hreaches
  obtain ⟨hcerts, hfallback, hfinal⟩ := of_decide_eq_true hp
  refine ⟨by decide +kernel, by decide +kernel, by decide +kernel, r, hrun, hcerts, hfallback,
    hfinal, ?_⟩
  decide

end Stub

end Kinet.Mcp
