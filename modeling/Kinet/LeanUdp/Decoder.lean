import Kinet.LeanUdp.Pool

/-!
# The decoder

The decoder has a pool for each dedicated identity and two shared pools.  A fragment goes to
the pool that holds its message; a new message goes to the pool of its identity, or to a
shared one by the score of the identity.  Clock, score and random choice are arguments.
-/

namespace Kinet.LeanUdp

open MessagePool

open Fallible (ofChecked)

inductive PoolSelection where
  | dedicated
  | priority
  | regular
deriving DecidableEq

def PoolSelection.ofPolicy : FragmentPolicy → PoolSelection
  | .prioritized => priority
  | .regular => regular

structure Decoder (I : Type) where
  dedicatedPools : FiniteMap I (MessagePool I)
  dedicatedPoolConfig : PoolConfig
  maxMessagesPerDedicatedIdentity : Nat
  priorityPool : MessagePool I
  regularPool : MessagePool I

abbrev DecoderM (I : Type) := ExceptT DecodeError (StateT (Decoder I) Checked)

namespace Decoder

variable {I : Type} [LinearOrder I]

def new (config : Config) : Decoder I where
  dedicatedPools := ∅
  dedicatedPoolConfig := .fromConfig config config.maxMessagesPerDedicatedIdentity
  maxMessagesPerDedicatedIdentity := config.maxMessagesPerDedicatedIdentity
  priorityPool := .new (.fromConfig config config.maxPriorityMessages) (.new config)
  regularPool := .new (.fromConfig config config.maxRegularMessages) (.new config)

variable (d : Decoder I) (selected : PoolSelection) (identity : I)

def pool? : Option (MessagePool I) :=
  match selected with
  | .dedicated => d.dedicatedPools.lookup identity
  | .priority => some d.priorityPool
  | .regular => some d.regularPool

def setPool (pool : MessagePool I) : Decoder I :=
  match selected with
  | .dedicated => { d with dedicatedPools := d.dedicatedPools.insert identity pool }
  | .priority => { d with priorityPool := pool }
  | .regular => { d with regularPool := pool }

def poolMut {α : Type} (selected : PoolSelection) (identity : I) (m : PoolM I α) : DecoderM I α := do
  let d ← get
  let pool ← ofChecked (Checked.unwrap (d.pool? selected identity))
  let (result, pool) ← ofChecked (m.run.run pool)
  set (d.setPool selected identity pool)
  match result with
  | .ok a => pure a
  | .error e => throw e

def dedicatedStatus (identity : I) (key : MessageKey I) (now : Nat) : DecoderM I MessageStatus := do
  if ((← get).dedicatedPools.lookup identity).isSome then
    poolMut .dedicated identity (messageStatus key now)
  else pure .missing

/-- The pool that holds the message, or the pool for new messages of the identity. -/
def selectPool (identity : I) (key : MessageKey I) (now : Nat) (score : FragmentPolicy) :
    DecoderM I PoolSelection := do
  let isDedicated := ((← get).dedicatedPools.lookup identity).isSome
  if (← dedicatedStatus identity key now) = .active then pure .dedicated
  else
    if (← poolMut .priority identity (messageStatus key now)) = .active then
      pure .priority
    else if (← poolMut .regular identity (messageStatus key now)) = .active then
      pure .regular
    else if isDedicated then pure .dedicated
    else pure (.ofPolicy score)

/-- Add a fragment in a pool, unless its identity has too many messages. -/
def decodeInPool (now choice : Nat) (key : MessageKey I) (input : FragmentInput I) :
    PoolM I DecodeOutcome := do
  if !(← get).hasMessage key then
    let _ ← evictOneStaleForIdentityIfLimited input.identity now
    match (← get).identityUsage.ensureIdentityCapacity input.identity with
    | .ok () => pure ()
    | .error e => throw e
  decodeWithAdmission now choice key input

/-- Handle a packet; `packet` is what the bytes were read as. -/
def decode (now : Nat) (score : FragmentPolicy) (choice : Nat) (identity : I)
    (packet : Except DecodeError Packet) : DecoderM I DecodeOutcome :=
  match packet with
  | .error e => throw e
  | .ok ⟨header, payload⟩ =>
    if header.version ≠ protocolVersion then
      throw (.unsupportedVersion header.version protocolVersion)
    else if !header.hasKnownFlags then throw .invalidHeader
    else do
      let key := (identity, header.msgId)
      let selectedPool ← selectPool identity key now score
      let input : FragmentInput I :=
        { identity := identity
          msgId := header.msgId
          seqNum := header.seqNum
          fragmentType := header.fragmentType
          payload := payload }
      poolMut selectedPool identity (decodeInPool now choice key input)

/-- Replace the identities that have a pool of their own. -/
def setDedicatedIdentities (identities : List I) : DecoderM I Unit :=
  modify fun d =>
    let kept := d.dedicatedPools.retain fun identity _ => identities.contains identity
    { d with
      dedicatedPools := identities.foldl (fun pools identity =>
          if identity ∈ pools then pools
          else pools.insert identity
            (.new d.dedicatedPoolConfig (.withLimit d.maxMessagesPerDedicatedIdentity)))
        kept }

end Decoder

/-! ## Runs -/

/-- Calls of the decoder with what they read. -/
inductive Call (I : Type) where
  | decode (now : Nat) (score : FragmentPolicy) (choice : Nat) (identity : I)
      (packet : Except DecodeError Packet)
  | setDedicatedIdentities (identities : List I)

/-- What a call returns, if it is a packet. -/
abbrev Outcome := Option (Except DecodeError DecodeOutcome)

namespace Decoder

variable {I : Type} [LinearOrder I]

def step (d : Decoder I) (call : Call I) : Checked (Outcome × Decoder I) :=
  match call with
  | .decode now score choice identity packet => do
    let (result, d) ← (decode now score choice identity packet).run.run d
    pure (some result, d)
  | .setDedicatedIdentities identities => do
    let (_, d) ← (setDedicatedIdentities identities).run.run d
    pure (none, d)

def run (d : Decoder I) : List (Call I) → Checked (List Outcome × Decoder I)
  | [] => pure ([], d)
  | call :: calls => do
    let (outcome, d) ← d.step call
    let (outcomes, d) ← d.run calls
    pure (outcome :: outcomes, d)

end Decoder

end Kinet.LeanUdp
