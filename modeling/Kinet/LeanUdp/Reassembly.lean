import Kinet.LeanUdp.Entries

/-!
# Soundness of reassembly

The fragments that a decoder accepts for a message are recorded beside its run.  The entry
of the message has the recorded fragments, and what is returned is made of them.

The number of the last fragment is compared with later fragments only.  When a fragment
with a larger number came before, the message is complete too early, with a gap.

Main results:

- `Decoder.Recorded.step`: the record describes the entry, call by call.
- `reassembly_sound`: a message that is returned has the fragments from the first to
  the one that ended it, in order, if none came before the end with a larger number.
- `reassembly_gap`: otherwise fragments can be missing.
-/

namespace Kinet.LeanUdp

open Fallible List Packet

variable {I : Type} [LinearOrder I]

def Packet.isEnd (packet : Packet) : Bool := packet.header.fragmentType.isEnd

def Packet.seq (packet : Packet) : Nat := packet.header.seqNum.val

/-! ## The record of a message -/

namespace Decoder

/-- The fragments that were accepted for a message: one more with every call that takes one,
and a new beginning when there was no entry. -/
def record (key : MessageKey I) (d : Decoder I) (accepted : List Packet) :
    Call I → Outcome → List Packet
  | .decode now _ _ identity (.ok packet), some (.ok _) =>
    if (identity, packet.header.msgId) = key then
      if (d.held key now).isSome then accepted ++ [packet] else [packet]
    else accepted
  | _, _ => accepted

/-- The record after a run. -/
def accepted (key : MessageKey I) (d : Decoder I) (before : List Packet) :
    List (Call I) → Checked (List Packet)
  | [] => pure before
  | call :: calls => do
    let (outcome, d') ← d.step call
    d'.accepted key (d.record key before call outcome) calls

end Decoder

/-- The entry of a message has the recorded fragments. -/
structure Tracks (accepted : List Packet) (state : MessageState) : Prop where
  fragments : state.fragments.pairs.Perm (accepted.map fun p => (p.header.seqNum, p.payload))
  totalFrags : ∀ total, state.totalFrags = some total ↔
    ∃ p ∈ accepted, p.isEnd = true ∧ p.seq + 1 = total
  after_end : accepted.Pairwise fun p q => p.isEnd = true → q.seq ≤ p.seq

lemma tracks_new (deadline : Nat) : Tracks [] (.new deadline) where
  fragments := .refl _
  totalFrags _ := by simp [MessageState.new]
  after_end := .nil

variable {cfg : PoolConfig} {identity : I} {packet : Packet}
  {accepted : List Packet} {state : MessageState}

omit [LinearOrder I] in
lemma Tracks.add (h : Tracks accepted state)
    (haccepts : state.Accepts cfg (packet.input identity)) :
    Tracks (accepted ++ [packet]) (state.add (packet.input identity)) where
  fragments := by
    have hnew : packet.header.seqNum ∉ state.fragments := AList.lookup_eq_none.mp haccepts.new
    have hpairs : (state.add (packet.input identity)).fragments.pairs =
        (packet.header.seqNum, packet.payload) :: state.fragments.pairs :=
      FiniteMap.pairs_insert_of_notMem hnew packet.payload
    rw [hpairs, map_append, map_singleton]
    exact ((perm_append_singleton _ _).trans (h.fragments.symm.cons _)).symm
  totalFrags total := by
    have hone : packet.isEnd = true → state.totalFrags = none := haccepts.one_end
    have htotal : (state.add (packet.input identity)).totalFrags =
        if packet.isEnd = true then some (packet.seq + 1) else state.totalFrags := rfl
    simp only [htotal, mem_append, mem_singleton, or_and_right, exists_or, exists_eq_left]
    by_cases hend : packet.isEnd = true
    · have hnone : ∀ p ∈ accepted, ¬ (p.isEnd = true ∧ p.seq + 1 = total) := by
        intro p hp hend'
        have := (h.totalFrags total).mpr ⟨p, hp, hend'⟩
        rw [hone hend] at this
        cases this
      rw [if_pos hend, Option.some.injEq]
      constructor
      · exact fun heq => .inr ⟨hend, heq⟩
      · rintro (⟨p, hp, hend'⟩ | ⟨-, heq⟩)
        · exact absurd hend' (hnone p hp)
        · exact heq
    · rw [if_neg hend, h.totalFrags]
      simp [hend]
  after_end := by
    refine pairwise_append.mpr ⟨h.after_end, pairwise_singleton _ _, ?_⟩
    intro p hp q hq hend
    rw [mem_singleton] at hq
    subst hq
    have htotal : state.totalFrags = some (p.seq + 1) := (h.totalFrags _).mpr ⟨p, hp, hend, rfl⟩
    have hnotEnd : ¬ q.isEnd = true := by
      intro hend'
      have := haccepts.one_end hend'
      rw [htotal] at this
      cases this
    have hnewTotal : state.newTotal (q.input identity) = some (p.seq + 1) := by
      rw [← htotal]
      exact if_neg hnotEnd
    exact Nat.le_of_lt_succ (haccepts.below _ hnewTotal)

/-- A message that is returned, with its record. -/
def Returned (accepted : List Packet) (m : Bytes) : Prop :=
  ∃ state, Tracks accepted state ∧ state.totalFrags = some state.fragments.keys.length ∧
    m = state.extract

variable {outcome : Outcome}

namespace Decoder

/-- The record of a message after a call with one of its fragments. -/
def extend (packet : Packet) (entry : Option MessageState) (accepted : List Packet) :
    Except DecodeError DecodeOutcome → List Packet
  | .ok _ => if entry.isSome then accepted ++ [packet] else [packet]
  | .error _ => accepted

variable {r : Except DecodeError DecodeOutcome} {entry : Option MessageState}

omit [LinearOrder I] in
/-- A fragment for an entry that has the fragments `before`. -/
lemma tracks_of_added {before : List Packet} (hstate : Tracks before state)
    (hadded : MessagePool.Added cfg state (packet.input identity) r entry) :
    (∀ outcome, r = .ok outcome → ∀ state', entry = some state' → Tracks (before ++ [packet]) state') ∧
      (∀ m, r = .ok (.complete m) → Returned (before ++ [packet]) m) ∧
      (∀ e, r = .error e → ∀ state', entry = some state' →
        state' = state ∧ state.fragments.lookup packet.header.seqNum ≠ none) := by
  cases hadded with
  | pending accepts incomplete =>
    refine ⟨?_, nofun, nofun⟩
    rintro _ _ _ ⟨⟩
    exact hstate.add accepts
  | complete accepts complete =>
    refine ⟨nofun, ?_, nofun⟩
    rintro m ⟨⟩
    exact ⟨_, hstate.add accepts, complete, rfl⟩
  | duplicate present =>
    refine ⟨nofun, nofun, ?_⟩
    rintro _ _ _ ⟨⟩
    exact ⟨rfl, present⟩
  | refused => exact ⟨nofun, nofun, nofun⟩

omit [LinearOrder I] in
lemma EntryStep.tracks {now : Nat} {entry' : Option MessageState}
    (h : EntryStep cfg now (packet.input identity) entry r entry')
    (htracks : ∀ state, entry = some state → Tracks accepted state) :
    (∀ state, entry' = some state → Tracks (extend packet entry accepted r) state) ∧
      ∀ m, r = .ok (.complete m) → Returned (extend packet entry accepted r) m := by
  cases h with
  | @added state _ _ hadded =>
    obtain ⟨hok, hcomplete, herror⟩ := tracks_of_added (htracks state rfl) hadded
    cases r with
    | ok outcome => exact ⟨hok outcome rfl, hcomplete⟩
    | error e =>
      refine ⟨fun state' hstate' => ?_, nofun⟩
      rw [(herror e rfl state' hstate').1]
      exact htracks state rfl
  | created hadded =>
    obtain ⟨hok, hcomplete, herror⟩ := tracks_of_added (tracks_new _) hadded
    cases r with
    | ok outcome => exact ⟨hok outcome rfl, hcomplete⟩
    | error e =>
      refine ⟨fun state' hstate' => ?_, nofun⟩
      -- a new entry has no fragment that could be repeated
      exact absurd rfl (herror e rfl state' hstate').2
  | refused _ => exact ⟨nofun, nofun⟩

/-- The decoder is in order, and the record describes the entry of the message. -/
structure Recorded (config : Config) (key : MessageKey I) (accepted : List Packet)
    (d : Decoder I) : Prop where
  wellFormed : d.WellFormed config
  tracks : ∀ state, d.find key = some state → Tracks accepted state

lemma recorded_new (config : Config) (key : MessageKey I) :
    Recorded config key [] (new config) := by
  refine ⟨wellFormed_new config, fun state hstate => ?_⟩
  obtain ⟨selected, hlookup⟩ := (wellFormed_new config).find_eq_some.mp hstate
  cases selected <;> cases hlookup

section

variable {config : Config} {key : MessageKey I} {accepted : List Packet} {d d' : Decoder I}

lemma Recorded.of_lookup (h : Recorded config key accepted d) (hd' : d'.WellFormed config)
    (hlookup : ∀ selected state, d'.lookup selected key = some state →
      d.lookup selected key = some state) : Recorded config key accepted d' := by
  refine ⟨hd', fun state hstate => ?_⟩
  obtain ⟨selected, hstate⟩ := hd'.find_eq_some.mp hstate
  exact h.tracks state (h.wellFormed.find_eq_some.mpr ⟨selected, hlookup selected state hstate⟩)

lemma record_decode (now choice : Nat) (score : FragmentPolicy) (packet : Packet)
    (r : Except DecodeError DecodeOutcome) :
    d.record (identity, packet.header.msgId) accepted
        (.decode now score choice identity (.ok packet)) (some r) =
      extend packet (d.held (identity, packet.header.msgId) now) accepted r := by
  cases r with
  | ok outcome => exact if_pos rfl
  | error e => rfl

theorem Recorded.step (h : Recorded config key accepted d) {call : Call I}
    (hstep : d.Stepped config call outcome d') :
    Recorded config key (d.record key accepted call outcome) d' ∧
      ∀ now score choice packet m, call = .decode now score choice key.1 (.ok packet) →
        packet.header.msgId = key.2 → outcome = some (.ok (.complete m)) →
        Returned (d.record key accepted call outcome) m := by
  cases hstep with
  | @handled now score choice identity packet r d' supported handled =>
    by_cases heq : (identity, packet.header.msgId) = key
    · subst heq
      obtain ⟨selected, hentry⟩ := handled.entry
      have htracks : ∀ state, d.held (identity, packet.header.msgId) now = some state →
          Tracks accepted state := by
        intro state hstate
        exact h.tracks state (Option.filter_eq_some_iff.mp hstate).1
      obtain ⟨hkept, hcomplete⟩ := hentry.tracks htracks
      rw [record_decode]
      refine ⟨⟨handled.wellFormed, hkept⟩, ?_⟩
      rintro _ _ _ _ m ⟨⟩ - hr
      exact hcomplete m (Option.some.inj hr)
    · have hrecord : d.record key accepted (.decode now score choice identity (.ok packet)) (some r) =
          accepted := by
        cases r with
        | ok outcome => exact if_neg heq
        | error e => rfl
      rw [hrecord]
      refine ⟨h.of_lookup handled.wellFormed (handled.others key fun hkey => heq hkey.symm), ?_⟩
      rintro _ _ _ _ m ⟨⟩ hmsgId -
      exact (heq (Prod.ext rfl hmsgId)).elim
  | @ignored now score choice identity packet e notSupported =>
    have hrecord : d.record key accepted (.decode now score choice identity packet)
        (some (.error e)) = accepted := by
      cases packet <;> rfl
    rw [hrecord]
    exact ⟨h, nofun⟩
  | rededicated hd' =>
    exact ⟨h.of_lookup (h.wellFormed.rededicated hd') fun _ _ => hd'.lookup, nofun⟩

lemma Recorded.run (h : Recorded config key accepted d) {calls rest : List (Call I)}
    {outcomes : List Outcome} {log : List Packet} (hrun : d.run calls = .ok (outcomes, d'))
    (hlog : d.accepted key accepted (calls ++ rest) = .ok log) :
    ∃ accepted', Recorded config key accepted' d' ∧ d'.accepted key accepted' rest = .ok log := by
  induction calls generalizing d accepted outcomes with
  | nil =>
    cases hrun
    exact ⟨accepted, h, hlog⟩
  | cons call calls ih =>
    simp only [cons_append, Decoder.run, Decoder.accepted, Checked.bind_eq_ok] at hrun hlog
    obtain ⟨⟨outcome, d1⟩, hstep, ⟨outcomes', d2⟩, hrun, hpure⟩ := hrun
    obtain ⟨_, hstep', hlog⟩ := hlog
    rw [hstep] at hstep'
    cases hstep'
    cases hpure
    exact ih (h.step (h.wellFormed.step hstep)).1 hrun hlog

end

end Decoder

/-! ## What is returned -/

/-- The message is made of the received fragments with the numbers from the first to that of
the fragment that ended it, in order. -/
def Reassembles (received : List Packet) (m : Bytes) : Prop :=
  ∃ (fragments : List Packet) (n : Nat), fragments ⊆ received ∧
    fragments.map seq = List.range (n + 1) ∧
    (∃ p ∈ received, p.isEnd = true) ∧ (∀ p ∈ received, p.isEnd = true → p.seq = n) ∧
    m = (fragments.map payload).flatten

/-- No fragment came before the end with a larger number. -/
def EndsHighest (received : List Packet) : Prop :=
  received.Pairwise fun p q => q.isEnd = true → p.seq ≤ q.seq

def inOrder (packets : List Packet) : List Packet := packets.mergeSort fun p q => p.seq ≤ q.seq

lemma inOrder_perm (packets : List Packet) : (inOrder packets).Perm packets :=
  mergeSort_perm _ _

lemma inOrder_sorted (packets : List Packet) :
    (inOrder packets).Pairwise fun p q => p.seq ≤ q.seq := by
  have hsorted : (inOrder packets).Pairwise fun p q => decide (p.seq ≤ q.seq) = true :=
    pairwise_mergeSort (fun _ _ _ => by simpa using le_trans)
      (fun _ _ => by simpa using le_total _ _) packets
  simpa only [decide_eq_true_eq] using hsorted

section

variable {accepted : List Packet} {state : MessageState} (h : Tracks accepted state)

include h

lemma Tracks.keys_perm : state.fragments.keys.Perm (accepted.map (·.header.seqNum)) := by
  have := h.fragments.map Prod.fst
  rwa [FiniteMap.map_fst_pairs, map_map] at this

/-- Distinct numbers up to that of the end, and as many as there are: all of them. -/
lemma Tracks.seq_perm {n : Nat} (hle : ∀ p ∈ accepted, p.seq ≤ n)
    (hlength : n + 1 = state.fragments.keys.length) :
    (accepted.map seq).Perm (range (n + 1)) := by
  have hnodup : (accepted.map seq).Nodup := by
    have := (h.keys_perm.nodup_iff.mp state.fragments.keys_nodup).map Fin.val_injective
    rwa [map_map] at this
  have hsubset : accepted.map seq ⊆ range (n + 1) := by
    intro i hi
    obtain ⟨p, hp, rfl⟩ := mem_map.mp hi
    exact mem_range.mpr (Nat.lt_succ_of_le (hle p hp))
  refine (subperm_of_subset hnodup hsubset).perm_of_length_le ?_
  rw [length_range, hlength, h.keys_perm.length_eq, length_map, length_map]

lemma Tracks.extract_eq {fragments : List Packet} (hperm : fragments.Perm accepted)
    (hsorted : fragments.Pairwise fun p q => p.seq ≤ q.seq) :
    state.extract = (fragments.map payload).flatten := by
  have hpairs : state.fragments.sortedPairs =
      fragments.map fun p => (p.header.seqNum, p.payload) := by
    refine FiniteMap.sortedPairs_eq ((hperm.map _).trans h.fragments.symm) ?_
    rw [pairwise_map]
    exact hsorted
  rw [MessageState.extract, hpairs, map_map]
  rfl

end

lemma Returned.reassembles {m : Bytes} (h : Returned accepted m)
    (hends : EndsHighest accepted) : Reassembles accepted m := by
  obtain ⟨state, htracks, htotal, rfl⟩ := h
  obtain ⟨last, hlast, hend, hlength⟩ := (htracks.totalFrags _).mp htotal
  -- fragments before the end and after it
  have hsymm : Std.Symm fun p q : Packet =>
      (q.isEnd = true → p.seq ≤ q.seq) ∧ (p.isEnd = true → q.seq ≤ p.seq) :=
    ⟨fun _ _ hpq => hpq.symm⟩
  have hle : ∀ p ∈ accepted, p.seq ≤ last.seq := by
    intro p hp
    obtain rfl | hne := eq_or_ne p last
    · exact le_rfl
    · exact ((hends.and htracks.after_end).forall hp hlast hne).1 hend
  have hends_eq : ∀ p ∈ accepted, p.isEnd = true → p.seq = last.seq := by
    intro p hp hend'
    have := (htracks.totalFrags _).mpr ⟨p, hp, hend', rfl⟩
    rw [htotal, ← hlength, Option.some.injEq] at this
    omega
  have hperm := inOrder_perm accepted
  have hseq : (inOrder accepted).map seq = range (last.seq + 1) := by
    refine Perm.eq_of_pairwise' (r := (· ≤ ·)) ?_ ?_ ?_
    · exact pairwise_map.mpr (inOrder_sorted accepted)
    · exact pairwise_le_range
    · exact (hperm.map _).trans (htracks.seq_perm hle hlength)
  exact ⟨inOrder accepted, last.seq, hperm.subset, hseq, ⟨last, hlast, hend⟩, hends_eq,
    htracks.extract_eq hperm (inOrder_sorted accepted)⟩

theorem reassembly_sound (config : Config) (calls : List (Call I)) (key : MessageKey I)
    {now choice : Nat} {score : FragmentPolicy} {packet : Packet} {outcomes : List Outcome}
    {d d' : Decoder I} {m : Bytes} {received : List Packet}
    (hrun : (Decoder.new config).run calls = .ok (outcomes, d))
    (hmsgId : packet.header.msgId = key.2)
    (hcomplete : d.step (.decode now score choice key.1 (.ok packet)) =
      .ok (some (.ok (.complete m)), d'))
    (hreceived : (Decoder.new config).accepted key []
      (calls ++ [.decode now score choice key.1 (.ok packet)]) = .ok received)
    (hends : EndsHighest received) : Reassembles received m := by
  obtain ⟨accepted, hrecorded, haccepted⟩ :=
    (Decoder.recorded_new config key).run hrun hreceived
  simp only [Decoder.accepted, hcomplete] at haccepted
  cases haccepted
  have hstep := hrecorded.step (hrecorded.wellFormed.step hcomplete)
  exact (hstep.2 _ _ _ _ m rfl hmsgId rfl).reassembles hends

/-! ## Sample runs -/

def sampleFragment (seqNum : U16) (fragmentType : FragmentType) (payload : Bytes) : Packet :=
  ⟨.new 7 seqNum fragmentType, payload⟩

def sampleCall (packet : Packet) : Call Nat := .decode 0 .regular 0 1 (.ok packet)

/-- What the last of some fragments gives, and the record then. -/
def sampleRun (packets : List Packet) (last : Packet) : Checked (Outcome × List Packet) := do
  let (_, d) ← (Decoder.new .default).run (packets.map sampleCall)
  let (outcome, _) ← d.step (sampleCall last)
  let received ← (Decoder.new .default).accepted (1, 7) [] (packets.map sampleCall ++ [sampleCall last])
  pure (outcome, received)

lemma sampleRun_eq_ok {packets : List Packet} {last : Packet}
    {received : List Packet} (h : sampleRun packets last = .ok (outcome, received)) :
    ∃ outcomes d d', (Decoder.new .default).run (packets.map sampleCall) = .ok (outcomes, d) ∧
      d.step (sampleCall last) = .ok (outcome, d') ∧
      (Decoder.new .default).accepted (1, 7) [] (packets.map sampleCall ++ [sampleCall last]) =
        .ok received := by
  simp only [sampleRun, Checked.bind_eq_ok] at h
  obtain ⟨⟨outcomes, d⟩, hrun, ⟨outcome', d'⟩, hstep, received', hreceived, hpure⟩ := h
  cases hpure
  exact ⟨outcomes, d, d', hrun, hstep, hreceived⟩

theorem reassembly_sound_sample : Reassembles
    [sampleFragment 1 .last [20], sampleFragment 0 .start [10]] [10, 20] := by
  have heval : sampleRun [sampleFragment 1 .last [20]] (sampleFragment 0 .start [10]) =
      .ok (some (.ok (.complete [10, 20])),
        [sampleFragment 1 .last [20], sampleFragment 0 .start [10]]) := by decide +kernel
  obtain ⟨outcomes, d, d', hrun, hstep, hreceived⟩ := sampleRun_eq_ok heval
  refine reassembly_sound .default _ (1, 7) hrun rfl hstep hreceived ?_
  unfold EndsHighest
  decide

/-- Fragment 5 comes before the end, which is fragment 1: the message is returned without its
first fragment and with one that is none of its own. -/
theorem reassembly_gap : ∃ (calls : List (Call Nat)) (packet : Packet) (outcomes : List Outcome)
    (d d' : Decoder Nat) (m : Bytes) (received : List Packet),
    (Decoder.new .default).run calls = .ok (outcomes, d) ∧
      d.step (.decode 0 .regular 0 1 (.ok packet)) = .ok (some (.ok (.complete m)), d') ∧
      (Decoder.new .default).accepted (1, packet.header.msgId) []
        (calls ++ [.decode 0 .regular 0 1 (.ok packet)]) = .ok received ∧
      ¬ Reassembles received m := by
  have heval : sampleRun [sampleFragment 5 .middle [50]] (sampleFragment 1 .last [10]) =
      .ok (some (.ok (.complete [10, 50])),
        [sampleFragment 5 .middle [50], sampleFragment 1 .last [10]]) := by decide +kernel
  obtain ⟨outcomes, d, d', hrun, hstep, hreceived⟩ := sampleRun_eq_ok heval
  refine ⟨_, _, outcomes, d, d', _, _, hrun, hstep, hreceived, ?_⟩
  rintro ⟨fragments, n, hsubset, hseq, -⟩
  have hzero : 0 ∈ fragments.map seq := by
    rw [hseq]
    exact mem_range.mpr (Nat.succ_pos n)
  obtain ⟨p, hp, hpseq⟩ := mem_map.mp hzero
  have hp := hsubset hp
  simp only [mem_cons, not_mem_nil, or_false] at hp
  obtain rfl | rfl := hp
  · cases hpseq
  · cases hpseq

end Kinet.LeanUdp
