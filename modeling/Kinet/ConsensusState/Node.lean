import Kinet.Consensus.Signing
import Kinet.ConsensusState.Handlers

/-!
# Runs of a node

A node validates the messages it receives and handles a validated message at any
later time.  Its timers fire, requested blocks arrive, the transaction pool answers
with a block, and the clock and the execution state change, in any order.
-/

namespace Kinet

open ConsensusState

variable {K : TypeParams}

def Event.createProposals : Event K → Option (CreateProposal K)
  | .command (.createProposal cmd) => some cmd
  | _ => none

inductive NodeInput (K : TypeParams) where
  /-- a message arrives -/
  | receive (author : K.NodeId) (message : ConsensusMessage K)
  /-- the validated message with this index is handled -/
  | handle (index : Nat)
  | timeoutExpiry (round : Nat)
  | voteTimer
  | blockSync (blockRange : BlockRange K) (fullBlocks : List (ConsensusFullBlock K))
  /-- the transaction pool answers the proposal request with this index -/
  | mempool (index : Nat) (proposal : MempoolProposal K)
  | updateTime (time : Nat)
  | execution (stateRead : K.ESRT)

/-- A node with its certificate cache and the messages that passed validation. -/
structure Node (K : TypeParams) where
  state : ConsensusState K
  certCache : CertificateCache K
  validated : List (K.NodeId × ProtocolMessage K)

namespace Node

/-- A node before its first input. -/
def new (state : ConsensusState K) : Node K := ⟨state, .empty, []⟩

variable (env : Env K) (n : Node K)

/-- Validate a message and keep it for handling. -/
def receive (author : K.NodeId) (m : ConsensusMessage K) : Node K :=
  match m.verify env n.state.epochManager author with
  | .error _ => n
  | .ok () =>
    match (m.validate env n.state.epochManager n.state.getCurrentRound).exec n.certCache with
    | (.error _, certCache) => { n with certCache := certCache }
    | (.ok message, certCache) =>
      { n with certCache := certCache, validated := n.validated ++ [(author, message)] }

def exec (n : Node K) (handler : ConsensusM K Unit) : Except Panic (Node K) :=
  match handler n.state with
  | .ok (_, state) => .ok { n with state := state }
  | .error p => .error p

def step : NodeInput K → Except Panic (Node K)
  | .receive author m => .ok (n.receive env author m)
  | .handle index =>
    match n.validated[index]? with
    | none => .ok n
    | some (author, m) => n.exec (handleMessage env author m)
  | .timeoutExpiry round => n.exec (handleTimeoutExpiry env round)
  | .voteTimer => n.exec (handleVoteTimer env)
  | .blockSync blockRange fullBlocks =>
    n.exec (handleBlockSync env blockRange fullBlocks)
  | .mempool index proposal =>
    match (n.state.log.filterMap Event.createProposals)[index]? with
    | none => .ok n
    | some cmd => n.exec (handleMempoolEvent env cmd proposal)
  | .updateTime time => .ok { n with state := { n.state with currentTime := time } }
  | .execution stateRead => .ok { n with state := { n.state with stateRead := stateRead } }

def run (inputs : List (NodeInput K)) : Except Panic (Node K) :=
  inputs.foldlM (fun n input => n.step env input) n

end Node

/-- What a node starts with. -/
structure NodeInit (K : TypeParams) where
  epochManager : EpochManager
  root : RootInfo K
  highCertificate : RoundCertificate K
  blockPolicy : K.BPT
  stateRead : K.ESRT
  currentTime : Nat

namespace NodeInit

/-- The state of a node at its start. -/
def start (init : NodeInit K) : Except Panic (Node K) := do
  let state ← new init.epochManager init.root init.highCertificate init.blockPolicy
    init.stateRead init.currentTime
  pure (Node.new state)

variable (env : Env K) (init : NodeInit K) (inputs : List (NodeInput K))

def run : Except Panic (Node K) := do
  let n ← init.start
  n.run env inputs

/-- The run does not stop, and its last state passes the check. -/
def runSatisfies (check : Node K → Bool) : Bool :=
  match init.run env inputs with
  | .ok n => check n
  | .error _ => false

lemma exists_of_runSatisfies {env : Env K} {init : NodeInit K} {inputs : List (NodeInput K)}
    {check : Node K → Bool} (h : init.runSatisfies env inputs check = true) :
    ∃ n, init.run env inputs = .ok n ∧ check n = true := by
  unfold runSatisfies at h
  split at h
  · next n hrun => exact ⟨n, hrun, h⟩
  · cases h

end NodeInit

end Kinet
