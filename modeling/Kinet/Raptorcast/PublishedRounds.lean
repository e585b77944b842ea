import Mathlib.Data.Finset.Max

/-!
# Published rounds

Receivers commit to one raptorcast message per round, so a node that builds two is taken
for an equivocator.  The router claims a round before it builds a message for it, and
remembers the hundred largest rounds that were claimed.

Main results:

- `Router.published_once`: one message for a round, if no round is claimed after a
  hundred larger ones.
- `Router.published_twice`: a round that was forgotten is claimed again.
-/

namespace Kinet.Raptorcast

open Finset Function List

def publishedRoundsCacheSize : Nat := 100

/-- The claimed rounds that are remembered. -/
abbrev PublishedRounds := Finset Nat

namespace PublishedRounds

/-- Forget the smallest round while there are too many, at most `fuel` times. -/
def popFirst : Nat → PublishedRounds → PublishedRounds
  | 0, p => p
  | fuel + 1, p =>
    if h : publishedRoundsCacheSize < p.card then
      popFirst fuel (p.erase (p.min' (card_pos.mp (Nat.zero_lt_of_lt h))))
    else p

def tryClaim (p : PublishedRounds) (round : Nat) : Bool × PublishedRounds :=
  if round ∈ p then (false, p) else (true, popFirst (insert round p).card (insert round p))

variable {p : PublishedRounds} {claimed : Finset Nat}

/-- A round is forgotten for a hundred larger ones. -/
lemma popFirst_spec (fuel : Nat) (p : PublishedRounds) : popFirst fuel p ⊆ p ∧
    (publishedRoundsCacheSize ≤ p.card → publishedRoundsCacheSize ≤ (popFirst fuel p).card) ∧
    ∀ r ∈ p, r ∉ popFirst fuel p →
      publishedRoundsCacheSize ≤ (popFirst fuel p).card ∧ ∀ s ∈ popFirst fuel p, r < s := by
  induction fuel generalizing p with
  | zero => exact ⟨Subset.rfl, id, fun r hr hnot => absurd hr hnot⟩
  | succ fuel ih =>
    rw [popFirst]
    split
    · next hfull =>
      have hmin := p.min'_mem (card_pos.mp (Nat.zero_lt_of_lt hfull))
      obtain ⟨hsub, hcard, hforgot⟩ := ih (p.erase (p.min' (card_pos.mp (Nat.zero_lt_of_lt hfull))))
      have hfull' := hcard (by rw [card_erase_of_mem hmin]; omega)
      refine ⟨hsub.trans (erase_subset _ _), fun _ => hfull', fun r hr hnot => ?_⟩
      by_cases heq : r = p.min' (card_pos.mp (Nat.zero_lt_of_lt hfull))
      · exact ⟨hfull', fun s hs => heq ▸ p.min'_lt_of_mem_erase_min' _ (hsub hs)⟩
      · exact hforgot r (mem_erase.mpr ⟨heq, hr⟩) hnot
    · exact ⟨Subset.rfl, id, fun r hr hnot => absurd hr hnot⟩

def above (claimed : Finset Nat) (round : Nat) : Finset Nat := claimed.filter (round < ·)

/-- A claimed round is remembered, or a hundred larger ones were claimed. -/
structure Remembers (claimed : Finset Nat) (p : PublishedRounds) : Prop where
  subset : p ⊆ claimed
  mem_or_above : ∀ r ∈ claimed, r ∈ p ∨ publishedRoundsCacheSize ≤ (above claimed r).card

lemma Remembers.tryClaim (h : Remembers claimed p) (round : Nat) :
    Remembers (insert round claimed) (tryClaim p round).2 := by
  have hmono : ∀ r, (above claimed r).card ≤ (above (insert round claimed) r).card :=
    fun r => card_le_card (filter_subset_filter _ (subset_insert _ _))
  unfold PublishedRounds.tryClaim
  split
  · next hmem =>
    refine ⟨h.subset.trans (subset_insert _ _), fun r hr => ?_⟩
    rcases mem_insert.mp hr with rfl | hr
    · exact .inl hmem
    · exact (h.mem_or_above r hr).imp_right fun hle => hle.trans (hmono r)
  · obtain ⟨hsub, -, hforgot⟩ := popFirst_spec (insert round p).card (insert round p)
    have hsub' := hsub.trans (insert_subset_insert round h.subset)
    refine ⟨hsub', fun r hr => ?_⟩
    by_cases hkept : r ∈ popFirst (insert round p).card (insert round p)
    · exact .inl hkept
    by_cases hold : r ∈ insert round p
    · obtain ⟨hfull, habove⟩ := hforgot r hold hkept
      exact .inr (hfull.trans (card_le_card fun s hs => mem_filter.mpr ⟨hsub' hs, habove s hs⟩))
    · rw [mem_insert, not_or] at hold
      have hr := (mem_insert.mp hr).resolve_left hold.1
      exact .inr (((h.mem_or_above r hr).resolve_left hold.2).trans (hmono r))

end PublishedRounds

/-- The groups that raptorcast messages are built for. -/
inductive Kind where
  | primary
  | secondary
deriving DecidableEq

/-- How messages reach full nodes. -/
inductive FullnodeBroadcastMode where
  | secondaryRaptorcast
  | broadcast

inductive Publish where
  /-- to the validators of an epoch, if it is known and this node is one of them -/
  | raptorcast (validator : Bool) (round : Nat)
  | broadcast
  | sendToGroup (mode : FullnodeBroadcastMode) (round : Nat)

/-- The round that is claimed before a message is built. -/
def Publish.claim : Publish → Option (Kind × Nat)
  | .raptorcast true round => some (.primary, round)
  | .sendToGroup .secondaryRaptorcast round => some (.secondary, round)
  | _ => none

abbrev Router := Kind → PublishedRounds

namespace Router

open PublishedRounds

/-- The raptorcast messages that are built after claims, by kind and round. -/
def build : Router → List (Kind × Nat) → List (Kind × Nat)
  | _, [] => []
  | r, (kind, round) :: claims =>
    let (claimed, rounds) := tryClaim (r kind) round
    let built := build (update r kind rounds) claims
    if claimed then (kind, round) :: built else built

def run (events : List Publish) : List (Kind × Nat) :=
  build (fun _ => ∅) (events.filterMap Publish.claim)

/-- Whenever a round is claimed again, fewer than a hundred larger ones have been claimed. -/
def Recent : (Kind → Finset Nat) → List (Kind × Nat) → Prop
  | _, [] => True
  | claimed, (kind, round) :: claims =>
    (round ∈ claimed kind → (above (claimed kind) round).card < publishedRoundsCacheSize) ∧
      Recent (update claimed kind (insert round (claimed kind))) claims

lemma build_spec {r : Router} {claimed : Kind → Finset Nat} {claims : List (Kind × Nat)}
    (hr : ∀ kind, Remembers (claimed kind) (r kind)) (hrecent : Recent claimed claims) :
    (build r claims).Nodup ∧ ∀ m ∈ build r claims, m.2 ∉ claimed m.1 := by
  induction claims generalizing r claimed with
  | nil => exact ⟨nodup_nil, fun m hm => by cases hm⟩
  | cons claim claims ih =>
    obtain ⟨kind, round⟩ := claim
    obtain ⟨hfew, hrecent⟩ := hrecent
    have hnext : ∀ kind', Remembers (update claimed kind (insert round (claimed kind)) kind')
        (update r kind (tryClaim (r kind) round).2 kind') := by
      intro kind'
      by_cases heq : kind' = kind
      · subst heq
        simpa using (hr kind').tryClaim round
      · simpa [heq] using hr kind'
    obtain ⟨hnodup, hnew⟩ := ih hnext hrecent
    have hnew' : ∀ m ∈ build (update r kind (tryClaim (r kind) round).2) claims,
        m.2 ∉ claimed m.1 ∧ m ≠ (kind, round) := by
      intro m hm
      have hm := hnew m hm
      by_cases heq : m.1 = kind
      · rw [heq, update_self, mem_insert, not_or] at hm
        exact ⟨heq ▸ hm.2, fun h => hm.1 (congrArg Prod.snd h)⟩
      · rw [update_of_ne heq] at hm
        exact ⟨hm, fun h => heq (congrArg Prod.fst h)⟩
    change (if (tryClaim (r kind) round).1 then (kind, round) :: build _ claims
      else build _ claims).Nodup ∧ ∀ m ∈ (if (tryClaim (r kind) round).1 then
        (kind, round) :: build _ claims else build _ claims), _
    split
    · next hclaimed =>
      refine ⟨nodup_cons.mpr ⟨fun hm => (hnew' _ hm).2 rfl, hnodup⟩, fun m hm => ?_⟩
      rcases mem_cons.mp hm with rfl | hm
      · intro hmem
        rcases (hr kind).mem_or_above round hmem with hin | hfull
        · rw [tryClaim, if_pos hin] at hclaimed
          cases hclaimed
        · exact absurd hfull (Nat.not_le_of_lt (hfew hmem))
      · exact (hnew' m hm).1
    · exact ⟨hnodup, fun m hm => (hnew' m hm).1⟩

/-- At most one raptorcast message of each kind is built for a round. -/
theorem published_once (events : List Publish)
    (hrecent : Recent (fun _ => ∅) (events.filterMap Publish.claim)) : (run events).Nodup :=
  (build_spec (fun _ => ⟨Subset.rfl, fun r hr => by cases hr⟩) hrecent).1

/-- A second message for a round is not built, but one of the other kind is. -/
theorem published_once_sample : run [.raptorcast true 7, .raptorcast true 7,
      .sendToGroup .secondaryRaptorcast 7] = [(.primary, 7), (.secondary, 7)] ∧
    (run [.raptorcast true 7, .raptorcast true 7, .sendToGroup .secondaryRaptorcast 7]).Nodup :=
  ⟨by decide, published_once _ ⟨by decide, by decide, by decide, trivial⟩⟩

/-- Two messages are built for round 1, with messages for a hundred other rounds between
them. -/
theorem published_twice :
    (run ((range' 1 101 ++ [1]).map (.raptorcast true))).count (.primary, 1) = 2 := by
  decide +kernel

end Router

end Kinet.Raptorcast
