import Kinet.Foundation.Checked

/-!
# Archive workers

The archiver and the indexer pass over the blocks of a source in ranges and store the
last block below which everything has been processed.  Block numbers are 64-bit.  A
pass stops at its first failing block; of the blocks after it, those in flight may
still succeed.

Main results:

- `Worker.run_sound`: every marker and every start block is sound, if no pass of the
  indexer that begins at block 0 fails there.
- `Worker.index_underflow`: the indexer computes the block before block 0.
-/

namespace Kinet.Archive

open Checked List

def firstFailure (fails : Nat → Bool) (start stop : Nat) : Option Nat :=
  (range' start (stop + 1 - start)).find? fails

/-- The last block of a range, or the block that is returned for the first failing one. -/
def processBlocks (beforeFailure : Nat → Checked Nat) (fails : Nat → Bool) (start stop : Nat) :
    Checked Nat :=
  match firstFailure fails start stop with
  | none => pure stop
  | some errBlock => beforeFailure errBlock

def archiveBlocks : (Nat → Bool) → Nat → Nat → Checked Nat :=
  processBlocks fun errBlock => pure (errBlock - 1)

def indexBlocks : (Nat → Bool) → Nat → Nat → Checked Nat :=
  processBlocks fun errBlock => sub errBlock 1

inductive Worker where
  | archive
  | index

/-- Stored marker, block to continue from, and the blocks that have been processed. -/
structure State where
  startBlock : Nat
  latest : Option Nat
  done : Nat → Bool

/-- What a worker meets: a pass with the height of the source, the blocks that fail and
those that succeed in flight, or a restart that can or cannot read the marker. -/
inductive Event where
  | pass (latestSource : Nat) (fails inFlight : Nat → Bool)
  | restart (readable : Bool)

/-- Marker 0 stands for nothing done. -/
def startAfter (latest : Nat) : Checked Nat :=
  if latest = 0 then pure 0 else add 64 latest 1

namespace Worker

def blocks : Worker → (Nat → Bool) → Nat → Nat → Checked Nat
  | .archive => archiveBlocks
  | .index => indexBlocks

/-- One round of the loop of a worker, or its start. -/
def step (w : Worker) (maxBlocks : Nat) (stopBlock : Option Nat) (s : State) : Event → Checked State
  | .restart readable => do
    let startBlock ← startAfter (if readable then s.latest.getD 0 else 0)
    pure { s with startBlock := startBlock }
  | .pass latestSource fails inFlight =>
    if stopBlock.any (· < s.startBlock) then pure s
    else do
      let next ← add 64 s.startBlock maxBlocks
      let lastBlock ← sub next 1
      let endBlock := min latestSource lastBlock
      if endBlock < s.startBlock then pure s
      else do
        let latest ← w.blocks fails s.startBlock endBlock
        let startBlock ← startAfter latest
        pure
          { startBlock := startBlock
            latest := if latest = 0 then s.latest else some latest
            done := fun b => s.done b || (s.startBlock ≤ b && b ≤ endBlock && !fails b &&
              ((firstFailure fails s.startBlock endBlock).all (b < ·) || inFlight b)) }

def run (w : Worker) (maxBlocks : Nat) (stopBlock latest : Option Nat) (done : Nat → Bool)
    (events : List Event) : Checked State :=
  (.restart true :: events).foldlM (w.step maxBlocks stopBlock) ⟨0, latest, done⟩

end Worker

/-- All blocks up to the marker and all blocks before the start block are processed. -/
structure State.Sound (s : State) : Prop where
  latest : ∀ m, s.latest = some m → m < 2 ^ 62 ∧ ∀ b ≤ m, s.done b = true
  start : s.startBlock ≤ 2 ^ 62 ∧ ∀ b < s.startBlock, s.done b = true

/-- Heights are bounded, and a pass of the indexer over block 0 does not fail there. -/
def Event.Allowed (w : Worker) (s : State) : Event → Prop
  | .pass latestSource fails _ =>
    latestSource < 2 ^ 62 ∧ (w = .index → s.startBlock = 0 → fails 0 = false)
  | .restart _ => True

variable {w : Worker} {maxBlocks : Nat} {stopBlock : Option Nat} {s : State} {e : Event}

/-- Every event is allowed in the state it meets. -/
def Worker.Allows (w : Worker) (maxBlocks : Nat) (stopBlock : Option Nat) (s : State) :
    List Event → Prop
  | [] => True
  | e :: events => e.Allowed w s ∧
    ∀ s', w.step maxBlocks stopBlock s e = .ok s' → w.Allows maxBlocks stopBlock s' events

/-- The range succeeds up to the block that is returned, unless that is block 0. -/
lemma Worker.blocks_spec {fails : Nat → Bool} {start stop : Nat} (h : start ≤ stop)
    (hw : w = .index → start = 0 → fails 0 = false) :
    ∃ latest, w.blocks fails start stop = .ok latest ∧ latest ≤ stop ∧
      (latest ≠ 0 → ∀ b, start ≤ b → b ≤ latest → fails b = false ∧
        (firstFailure fails start stop).all (b < ·) = true) := by
  cases hfirst : firstFailure fails start stop with
  | none =>
    refine ⟨stop, ?_, le_rfl, fun _ b hb hle => ⟨?_, rfl⟩⟩
    · cases w <;> simp only [blocks, archiveBlocks, indexBlocks, processBlocks, hfirst] <;> rfl
    · simpa using find?_range'_eq_none.mp hfirst b hb (by omega)
  | some errBlock =>
    obtain ⟨hfail, hmem, hbefore⟩ := find?_range'_eq_some.mp hfirst
    rw [mem_range'_1] at hmem
    refine ⟨errBlock - 1, ?_, by omega, fun hne b hb hle => ⟨?_, ?_⟩⟩
    · cases w with
      | archive => simp only [blocks, archiveBlocks, processBlocks, hfirst]; rfl
      | index =>
        have hpos : errBlock ≠ 0 := by
          rintro rfl
          rw [hw rfl (by omega)] at hfail
          cases hfail
        simp only [blocks, indexBlocks, processBlocks, hfirst]
        exact sub_of_le (by omega)
    · simpa using hbefore b hb (by omega)
    · simp only [Option.all_some, decide_eq_true_eq]
      omega

/-- Continuing after a sound marker is sound. -/
lemma startAfter_spec {latest : Nat} {done : Nat → Bool} (h : latest < 2 ^ 62)
    (hdone : latest ≠ 0 → ∀ b ≤ latest, done b = true) :
    ∃ start, startAfter latest = .ok start ∧ start ≤ 2 ^ 62 ∧ ∀ b < start, done b = true := by
  unfold startAfter
  split
  · exact ⟨0, rfl, Nat.zero_le _, fun b hb => absurd hb (Nat.not_lt_zero b)⟩
  · next hne =>
    exact ⟨latest + 1, fits_of_lt (by omega), by omega,
      fun b hb => hdone hne b (Nat.le_of_lt_succ hb)⟩

lemma State.Sound.step (h : s.Sound) (hmax : 1 ≤ maxBlocks ∧ maxBlocks < 2 ^ 62)
    (he : e.Allowed w s) : ∃ s', w.step maxBlocks stopBlock s e = .ok s' ∧ s'.Sound := by
  cases e with
  | restart readable =>
    have hread : (if readable then s.latest.getD 0 else 0) < 2 ^ 62 ∧
        ((if readable then s.latest.getD 0 else 0) ≠ 0 →
          ∀ b ≤ (if readable then s.latest.getD 0 else 0), s.done b = true) := by
      cases hlatest : s.latest with
      | none => simp
      | some m =>
        have hm := h.latest m hlatest
        cases readable with
        | false => simp
        | true => exact ⟨hm.1, fun _ => hm.2⟩
    obtain ⟨start, hstart, hsound⟩ := startAfter_spec hread.1 hread.2
    exact ⟨{ s with startBlock := start }, by rw [Worker.step, hstart]; rfl, h.latest, hsound⟩
  | pass latestSource fails inFlight =>
    obtain ⟨hsource, hw⟩ := he
    have hbound := h.start.1
    have hnext : add 64 s.startBlock maxBlocks = .ok (s.startBlock + maxBlocks) :=
      fits_of_lt (by omega)
    rw [Worker.step, hnext, ok_bind, sub_of_le (by omega), ok_bind]
    dsimp only
    split
    · exact ⟨s, rfl, h⟩
    split
    · exact ⟨s, rfl, h⟩
    next hrange =>
    obtain ⟨latest, hblocks, hle, hrun⟩ := w.blocks_spec (Nat.le_of_not_lt hrange) hw
    -- the blocks up to the marker were processed before this pass or succeed in it
    generalize hdone' : (fun b => s.done b || _) = done'
    have hold : ∀ b, s.done b = true → done' b = true := fun b hb => by simp [← hdone', hb]
    have hdone : latest ≠ 0 → ∀ b ≤ latest, done' b = true := by
      intro hne b hb
      by_cases hlt : b < s.startBlock
      · exact hold b (h.start.2 b hlt)
      · obtain ⟨hok, hfirst⟩ := hrun hne b (Nat.le_of_not_lt hlt) hb
        simp [← hdone', hok, hfirst, Nat.le_of_not_lt hlt]
        omega
    obtain ⟨start, hstart, hsound⟩ := startAfter_spec (by omega) hdone
    rw [hblocks, ok_bind, hstart]
    refine ⟨_, rfl, fun m hm => ?_, hsound⟩
    split at hm
    · exact ⟨(h.latest m hm).1, fun b hb => hold b ((h.latest m hm).2 b hb)⟩
    · next hne =>
      cases hm
      exact ⟨by omega, hdone hne⟩

/-- Every marker a worker stores has only processed blocks up to it, every start block has
only processed blocks before it, and no block number leaves its range. -/
theorem Worker.run_sound (w : Worker) (stopBlock : Option Nat) {latest : Option Nat}
    {done : Nat → Bool} {events : List Event} (hmax : 1 ≤ maxBlocks ∧ maxBlocks < 2 ^ 62)
    (hlatest : ∀ m, latest = some m → m < 2 ^ 62 ∧ ∀ b ≤ m, done b = true)
    (hevents : w.Allows maxBlocks stopBlock ⟨0, latest, done⟩ (.restart true :: events)) :
    ∃ s, w.run maxBlocks stopBlock latest done events = .ok s ∧ s.Sound := by
  have hinit : (⟨0, latest, done⟩ : State).Sound :=
    ⟨hlatest, Nat.zero_le _, fun b hb => absurd hb (Nat.not_lt_zero b)⟩
  unfold run
  generalize (⟨0, latest, done⟩ : State) = s at hinit hevents ⊢
  generalize (Event.restart true :: events) = events at hevents ⊢
  induction events generalizing s with
  | nil => exact ⟨s, rfl, hinit⟩
  | cons e events ih =>
    obtain ⟨s', hstep, hs'⟩ := hinit.step hmax hevents.1
    rw [foldlM_cons, hstep]
    exact ih s' hs' (hevents.2 s' hstep)

/-- Both workers, with a failure at block 3.  After the restart, block 0 is not read again, and
it does not matter that it fails. -/
theorem Worker.run_sound_failure :
    (∃ s, Worker.archive.run 10 none none (fun _ => false) [.pass 5 (· == 3) fun _ => false] =
      .ok s ∧ s.Sound) ∧
    ∃ s, Worker.index.run 10 none none (fun _ => false)
        [.pass 5 (· == 3) fun _ => false, .restart true, .pass 6 (· == 0) fun _ => false] = .ok s ∧
      s.Sound := by
  refine ⟨run_sound .archive none (by decide) (by simp) ⟨trivial, ?_⟩,
    run_sound .index none (by decide) (by simp) ⟨trivial, ?_⟩⟩
  · rintro _ ⟨⟩
    exact ⟨⟨by decide, by simp⟩, fun _ _ => trivial⟩
  · rintro _ ⟨⟩
    refine ⟨⟨by decide, by simp⟩, ?_⟩
    rintro _ ⟨⟩
    refine ⟨trivial, ?_⟩
    rintro _ ⟨⟩
    exact ⟨⟨by decide, by simp⟩, fun _ _ => trivial⟩

/-- The indexer stops at a failing block 0; without the check it stores the largest number. -/
theorem Worker.index_underflow :
    Worker.index.run 10 none none (fun _ => false) [.pass 5 (· == 0) fun _ => false] =
      .error .overflow :=
  rfl

end Kinet.Archive
