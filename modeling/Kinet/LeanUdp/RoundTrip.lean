import Mathlib.Data.List.Perm.Basic
import Kinet.LeanUdp.Encoder
import Kinet.LeanUdp.Reassembly

/-!
# Round trip of fragments

The packets of a message, delivered once each in any order and between other calls, give the
message with the last of them.

Main results:

- `Encoder.fragmented`: the packets that the encoder makes.
- `fragments_round_trip`: the delivery of a message.
- `fragments_refused`: an identity with too many messages gets no other one through.
-/

namespace Kinet.LeanUdp

open List Option Decoder FragmentIter Except Encoder Checked

variable {I : Type} [LinearOrder I]

/-! ## The packets of a message -/

structure Fragmented (packets : List Packet) (msgId : U16) (payload : Bytes) : Prop where
  nonempty : packets ≠ []
  length_le : packets.length ≤ maxFragments
  seq : packets.map Packet.seq = List.range packets.length
  isEnd : ∀ p ∈ packets, p.isEnd = true ↔ p.seq + 1 = packets.length
  msgId : ∀ p ∈ packets, p.header.msgId = msgId
  supported : ∀ p ∈ packets, p.Supported
  payload : (packets.map Packet.payload).flatten = payload

variable {it : FragmentIter}

namespace FragmentIter

lemma seq_packetAt (hcount : it.count ≤ maxFragments) {i : Nat}
    (hi : i < it.count) : (it.packetAt i).seq = i := by
  have hlt : i < 2 ^ 16 := by
    unfold maxFragments at hcount
    omega
  exact Nat.mod_eq_of_lt hlt

lemma fragmentType_first (i count : Nat) :
    fragmentType i count = .start ∨ fragmentType i count = .complete ↔ i = 0 := by
  unfold fragmentType
  by_cases hfirst : i = 0
  · cases decide (i = count - 1) <;> simp [hfirst]
  · cases decide (i = count - 1) <;> simp [hfirst]

lemma isEnd_fragmentType (i count : Nat) :
    (fragmentType i count).isEnd = true ↔ i = count - 1 := by
  unfold fragmentType
  by_cases hlast : i = count - 1
  · cases decide (i = 0) <;> simp [hlast, FragmentType.isEnd]
  · cases decide (i = 0) <;> simp [hlast, FragmentType.isEnd]

lemma isEnd_packetAt (hcount : it.count ≤ maxFragments) {i : Nat}
    (hi : i < it.count) : (it.packetAt i).isEnd = true ↔ i + 1 = it.count := by
  have hzero : (Fin.ofNat (2 ^ 16) i = 0) ↔ i = 0 := by
    rw [← Fin.val_inj]
    exact (seq_packetAt hcount hi).congr_left
  have htype := fragmentType_first i it.count
  rw [← hzero] at htype
  rw [Packet.isEnd, packetAt, PacketHeader.fragmentType_new _ _ _ htype, isEnd_fragmentType]
  omega

end FragmentIter

theorem Encoder.fragmented {e e' : Encoder} {payload : Bytes}
    {packets : List Packet} (h : (e.fragment payload).run = .ok (.ok (it, e')))
    (hlength : payload.length ≤ usizeMax) (hyields : it.Yields packets) :
    Fragmented packets it.msgId payload := by
  obtain ⟨hfits, rfl, -, hcurrent, hpos, hcount⟩ := fragment_eq_ok h hlength
  have hpackets : packets = (range it.count).map it.packetAt := by
    have hall := hfits.yields (show it.current + it.count = it.count by omega)
    rw [hcurrent, ← range_eq_range'] at hall
    exact hyields.unique hall
  have hmem : ∀ p ∈ packets, ∃ i < it.count, p = it.packetAt i := by
    intro p hp
    rw [hpackets] at hp
    obtain ⟨i, hi, rfl⟩ := mem_map.mp hp
    exact ⟨i, mem_range.mp hi, rfl⟩
  have hlen : packets.length = it.count := by
    rw [hpackets, length_map, length_range]
  refine ⟨?_, hlen.trans_le hcount, ?_, ?_, ?_, ?_, ?_⟩
  · intro hnil
    rw [hnil] at hlen
    exact hpos.ne hlen
  · rw [hlen, hpackets, List.map_map]
    refine (map_congr_left fun i hi => ?_).trans (map_id _)
    exact seq_packetAt hcount (mem_range.mp hi)
  · intro p hp
    obtain ⟨i, hi, rfl⟩ := hmem p hp
    rw [hlen, seq_packetAt hcount hi]
    exact isEnd_packetAt hcount hi
  · intro p hp
    obtain ⟨i, hi, rfl⟩ := hmem p hp
    rfl
  · intro p hp
    obtain ⟨i, hi, rfl⟩ := hmem p hp
    exact ⟨rfl, PacketHeader.hasKnownFlags_new _ _ _⟩
  · rw [hpackets, List.map_map]
    have hparts := flatten_parts it.payload it.maxPayload it.count
    rw [take_of_length_le hfits.length_le_mul] at hparts
    exact hparts

/-! ## One more packet -/

variable {r : Except DecodeError DecodeOutcome}

section

variable {packets done todo : List Packet} {p : Packet} {msgId : U16} {payload : Bytes}
  (h : Fragmented packets msgId payload)

include h

lemma Fragmented.seq_lt {q : Packet} (hq : q ∈ packets) : q.seq < packets.length := by
  have hseq : q.seq ∈ packets.map Packet.seq := mem_map.mpr ⟨q, hq, rfl⟩
  rwa [h.seq, mem_range] at hseq

lemma Fragmented.exists_end : ∃ q ∈ packets, q.isEnd = true ∧ q.seq + 1 = packets.length := by
  have hpos := length_pos_iff.mpr h.nonempty
  have hlast : packets.length - 1 ∈ packets.map Packet.seq := by
    rw [h.seq, mem_range]
    omega
  obtain ⟨q, hq, hseq⟩ := mem_map.mp hlast
  have hseq : q.seq + 1 = packets.length := by omega
  exact ⟨q, hq, (h.isEnd q hq).mpr hseq, hseq⟩

variable (hperm : (done ++ p :: todo).Perm packets)

include hperm

lemma Fragmented.notMem : ∀ q ∈ done, q.seq ≠ p.seq := by
  intro q hq heq
  have hnodup : ((done ++ p :: todo).map Packet.seq).Nodup := by
    rw [(hperm.map Packet.seq).nodup_iff, h.seq]
    exact nodup_range
  rw [map_append, nodup_append] at hnodup
  exact hnodup.2.2 q.seq (mem_map_of_mem hq) p.seq (by simp) heq

variable {state : MessageState} (htracks : Tracks done state) {cfg : PoolConfig} {identity : I}

include htracks

lemma Fragmented.size_le (hstate : state.WellFormed cfg) :
    state.totalSize + p.payload.length ≤ payload.length := by
  have hsum : state.totalSize = (done.map (·.payload.length)).sum := by
    rw [hstate.totalSize_eq, (htracks.fragments.map _).sum_nat, List.map_map]
    rfl
  have hall : payload.length = ((done ++ p :: todo).map (·.payload.length)).sum := by
    rw [← h.payload, List.length_flatten, List.map_map, (hperm.map _).sum_nat]
    rfl
  rw [hall, map_append, sum_append, map_cons, sum_cons, hsum]
  omega

omit [LinearOrder I] in
lemma Fragmented.accepts (hstate : state.WellFormed cfg)
    (hsize : payload.length ≤ cfg.maxMessageSize.val) : state.Accepts cfg (p.input identity) where
  seqNum_lt := (h.seq_lt (hperm.subset (by simp))).trans_le h.length_le
  new := by
    refine AList.lookup_eq_none.mpr fun hmem => ?_
    obtain ⟨q, hq, heq⟩ := mem_map.mp (htracks.keys_perm.subset (AList.mem_keys.mp hmem))
    exact h.notMem hperm q hq (congrArg Fin.val heq)
  one_end := by
    intro hend
    refine eq_none_iff_forall_ne_some.mpr fun total htotal => ?_
    obtain ⟨q, hq, hqend, -⟩ := (htracks.totalFrags total).mp htotal
    have hqseq := (h.isEnd q (hperm.subset (by simp [hq]))).mp hqend
    have hpseq := (h.isEnd p (hperm.subset (by simp))).mp hend
    exact h.notMem hperm q hq (by omega)
  below := by
    intro total htotal
    by_cases hend : p.isEnd = true
    · have : some (p.seq + 1) = some total := (if_pos hend).symm.trans htotal
      cases this
      exact Nat.lt_succ_self _
    · have : state.totalFrags = some total := (if_neg hend).symm.trans htotal
      obtain ⟨q, hq, hqend, rfl⟩ := (htracks.totalFrags total).mp this
      rw [(h.isEnd q (hperm.subset (by simp [hq]))).mp hqend]
      exact h.seq_lt (hperm.subset (by simp))
  size_le := (h.size_le hperm htracks hstate).trans hsize

omit [LinearOrder I] in
/-- A packet of the message is taken; the last one completes the message. -/
theorem Fragmented.deliver (hstate : state.WellFormed cfg)
    (hsize : payload.length ≤ cfg.maxMessageSize.val) {entry : Option MessageState}
    (hadded : MessagePool.Added cfg state (p.input identity) r entry) :
    (todo ≠ [] → r = .ok .pending ∧ ∃ state', entry = some state' ∧ Tracks (done ++ [p]) state') ∧
      (todo = [] → r = .ok (.complete payload)) := by
  have haccepts : state.Accepts cfg (p.input identity) := h.accepts hperm htracks hstate hsize
  have hadd := htracks.add haccepts
  have hlength : (state.add (p.input identity)).fragments.keys.length = done.length + 1 := by
    rw [hadd.keys_perm.length_eq, length_map, length_append, length_singleton]
  have hpackets : packets.length = done.length + 1 + todo.length := by
    rw [← hperm.length_eq, length_append, length_cons]
    omega
  cases hadded with
  | pending _ incomplete =>
    refine ⟨fun _ => ⟨rfl, _, rfl, hadd⟩, fun hnil => ?_⟩
    -- all packets are there, the end among them
    obtain ⟨q, hq, hend, hseq⟩ := h.exists_end
    have hq : q ∈ done ++ [p] := by
      rw [hnil] at hperm
      exact hperm.symm.subset hq
    refine absurd ((hadd.totalFrags _).mpr ⟨q, hq, hend, ?_⟩) incomplete
    rw [hseq, hlength, hpackets, hnil]
    rfl
  | complete _ complete =>
    -- as many packets as the end says
    obtain ⟨q, hq, hend, hseq⟩ := (hadd.totalFrags _).mp complete
    have hq : q ∈ packets := by
      refine hperm.subset ?_
      rw [mem_append, mem_singleton] at hq
      rw [mem_append, mem_cons]
      tauto
    have hqseq := (h.isEnd q hq).mp hend
    have hnil : todo = [] := eq_nil_of_length_eq_zero (by omega)
    refine ⟨fun hne => absurd hnil hne, fun _ => ?_⟩
    have hsorted : packets.Pairwise fun p q => p.seq ≤ q.seq := by
      rw [← pairwise_map, h.seq]
      exact pairwise_le_range
    rw [hnil] at hperm
    rw [hadd.extract_eq hperm.symm hsorted, h.payload]
  | duplicate present => exact absurd haccepts.new present
  | refused refused => exact absurd haccepts refused

end

/-! ## Deliveries -/

def Call.fragmentOf (key : MessageKey I) : Call I → Option (Nat × Packet)
  | .decode now _ _ identity (.ok packet) =>
    if (identity, packet.header.msgId) = key then some (now, packet) else none
  | _ => none

def deliveries (key : MessageKey I) (calls : List (Call I)) : List Packet :=
  calls.filterMap fun call => (call.fragmentOf key).map Prod.snd

def results (key : MessageKey I) (calls : List (Call I)) (outcomes : List Outcome) :
    List (Except DecodeError DecodeOutcome) :=
  (calls.zip outcomes).filterMap fun (call, outcome) => (call.fragmentOf key).bind fun _ => outcome

variable {now : Nat}

namespace Decoder

/-- A call does not forget a message: the deadline of the message has not passed when a
fragment of it comes, and other calls do not evict it. -/
def keeps (key : MessageKey I) (d : Decoder I) (call : Call I) (d' : Decoder I) : Bool :=
  match call.fragmentOf key with
  | some (now, _) => (d.find key).all fun state => now < state.evictionDeadline
  | none => (d.find key).isNone || (d'.find key).isSome

def unforgotten (key : MessageKey I) (d : Decoder I) : List (Call I) → Checked Bool
  | [] => pure true
  | call :: calls => do
    let (_, d') ← d.step call
    let rest ← d'.unforgotten key calls
    pure (d.keeps key call d' && rest)

lemma WellFormed.state {config : Config} {d : Decoder I} (h : d.WellFormed config)
    {key : MessageKey I} {state : MessageState} (hstate : d.find key = some state)
    (cfg : PoolConfig) (hcfg : cfg.maxMessageSize = config.maxMessageSize) :
    state.WellFormed cfg := by
  obtain ⟨selected, hlookup⟩ := h.find_eq_some.mp hstate
  obtain ⟨pool, hpool, hstate⟩ := bind_eq_some_iff.mp hlookup
  have hwell := (h.pools hpool).messages key state hstate
  refine ⟨hwell.totalSize_eq, ?_, hwell.seqNum_lt⟩
  have hle := hwell.totalSize_le
  rw [h.cfg hpool] at hle
  rw [hcfg]
  cases selected <;> exact hle

section

variable {config : Config} {key : MessageKey I} {d d' : Decoder I} {call : Call I}
  {outcome : Outcome} (hstep : d.Stepped config call outcome d')

include hstep

lemma Stepped.own {packet : Packet} (hown : call.fragmentOf key = some (now, packet))
    (hsupported : packet.Supported) : ∃ r selected, outcome = some r ∧
      EntryStep (config.poolConfig selected) now (packet.input key.1) (d.held key now) r
        (d'.find key) := by
  cases hstep with
  | @handled _ _ _ identity packet' r _ supported handled =>
    simp only [Call.fragmentOf, ite_none_right_eq_some, some.injEq, Prod.mk.injEq] at hown
    obtain ⟨rfl, rfl, rfl⟩ := hown
    obtain ⟨selected, hentry⟩ := handled.entry
    exact ⟨r, selected, rfl, hentry⟩
  | @ignored _ _ _ identity packet' e notSupported =>
    cases packet' with
    | error e => cases hown
    | ok packet' =>
      simp only [Call.fragmentOf, ite_none_right_eq_some, some.injEq, Prod.mk.injEq] at hown
      obtain ⟨-, -, rfl⟩ := hown
      exact absurd hsupported (notSupported packet' rfl)
  | rededicated => cases hown

lemma Stepped.other (h : d.WellFormed config) (hother : call.fragmentOf key = none)
    {state : MessageState} (hstate : d'.find key = some state) : d.find key = some state := by
  obtain ⟨selected, hlookup⟩ := (hstep.wellFormed h).find_eq_some.mp hstate
  refine h.find_eq_some.mpr ⟨selected, ?_⟩
  cases hstep with
  | @handled _ _ _ identity packet r _ supported handled =>
    simp only [Call.fragmentOf, ite_eq_right_iff, reduceCtorEq, imp_false] at hother
    exact handled.others key (fun heq => hother heq.symm) selected state hlookup
  | ignored => exact hlookup
  | rededicated hd' => exact hd'.lookup hlookup

end

end Decoder

/-- What the deliveries of the last `n` packets return. -/
def progress (payload : Bytes) : Nat → List (Except DecodeError DecodeOutcome)
  | 0 => []
  | 1 => [.ok (.complete payload)]
  | n + 2 => .ok .pending :: progress payload (n + 1)

lemma progress_succ (payload : Bytes) (n : Nat) :
    progress payload (n + 1) = replicate n (.ok .pending) ++ [.ok (.complete payload)] := by
  induction n with
  | zero => rfl
  | succ n ih => rw [progress, ih, replicate_succ, cons_append]

section

variable {config : Config} {key : MessageKey I} {packets done : List Packet} {payload : Bytes}
  {calls : List (Call I)} {call : Call I} {d d₁ : Decoder I} {p : Packet}

lemma deliveries_cons_of_some (hown : call.fragmentOf key = some (now, p)) :
    deliveries key (call :: calls) = p :: deliveries key calls := by
  simp [deliveries, hown]

lemma results_cons_of_some (hown : call.fragmentOf key = some (now, p))
    (r : Except DecodeError DecodeOutcome) (outcomes : List Outcome) :
    results key (call :: calls) (some r :: outcomes) = r :: results key calls outcomes := by
  simp [results, hown]

variable (h : Fragmented packets key.2 payload) (hsize : payload.length ≤ config.maxMessageSize.val)

include h hsize

/-- A packet for an entry, and then the rest of the run. -/
lemma Fragmented.resume {state : MessageState} {selected : PoolSelection}
    (hperm : (done ++ p :: deliveries key calls).Perm packets) (htracks : Tracks done state)
    (hstate : state.WellFormed (config.poolConfig selected))
    (hadded : MessagePool.Added (config.poolConfig selected) state (p.input key.1) r (d₁.find key))
    (hrest : (deliveries key calls ≠ [] →
        ∃ state', d₁.find key = some state' ∧ Tracks (done ++ [p]) state') →
      ∃ outcomes d', d₁.run calls = .ok (outcomes, d') ∧
        results key calls outcomes = progress payload (deliveries key calls).length) :
    ∃ outcomes d', d₁.run calls = .ok (outcomes, d') ∧
      r :: results key calls outcomes = progress payload ((deliveries key calls).length + 1) := by
  have hsize : payload.length ≤ (config.poolConfig selected).maxMessageSize.val := by
    cases selected <;> exact hsize
  obtain ⟨hpending, hcomplete⟩ := h.deliver hperm htracks hstate hsize hadded
  obtain ⟨outcomes, d', hrun, hresults⟩ := hrest fun hne => (hpending hne).2
  refine ⟨outcomes, d', hrun, ?_⟩
  rw [hresults]
  cases htodo : deliveries key calls with
  | nil =>
    rw [hcomplete htodo]
    rfl
  | cons q todo =>
    rw [(hpending (by simp [htodo])).1]
    rfl

lemma Fragmented.run (hd : d.WellFormed config)
    (hperm : (done ++ deliveries key calls).Perm packets)
    (hstate : deliveries key calls ≠ [] → ∃ state, d.find key = some state ∧ Tracks done state)
    (hkept : d.unforgotten key calls = .ok true) :
    ∃ outcomes d', d.run calls = .ok (outcomes, d') ∧
      results key calls outcomes = progress payload (deliveries key calls).length := by
  induction calls generalizing done d with
  | nil => exact ⟨[], d, rfl, rfl⟩
  | cons call calls ih =>
    simp only [unforgotten, bind_eq_ok] at hkept
    obtain ⟨⟨outcome, d₁⟩, hstep, rest, hrest, hpure⟩ := hkept
    have hboth : (d.keeps key call d₁ && rest) = true := ok.inj hpure
    obtain ⟨hkeeps, rfl⟩ := Bool.and_eq_true_iff.mp hboth
    have hstepped := hd.step hstep
    have hd1 := hstepped.wellFormed hd
    -- the run is the call and the rest
    suffices hrun : ∃ outcomes d', d₁.run calls = .ok (outcomes, d') ∧
        results key (call :: calls) (outcome :: outcomes) =
          progress payload (deliveries key (call :: calls)).length by
      obtain ⟨outcomes, d', hrun, hresults⟩ := hrun
      exact ⟨outcome :: outcomes, d', run_cons hstep hrun, hresults⟩
    cases hcall : call.fragmentOf key with
    | none =>
      have hdeliveries : deliveries key (call :: calls) = deliveries key calls := by
        simp [deliveries, hcall]
      have hresults : ∀ outcomes, results key (call :: calls) (outcome :: outcomes) =
          results key calls outcomes := by simp [results, hcall]
      rw [hdeliveries] at hperm hstate ⊢
      simp only [hresults]
      refine ih hd1 hperm (fun hne => ?_) hrest
      obtain ⟨state, hfind, htracks⟩ := hstate hne
      rw [keeps, hcall, hfind] at hkeeps
      obtain ⟨state', hfind'⟩ := isSome_iff_exists.mp hkeeps
      have hsame := hstepped.other hd hcall hfind'
      rw [hfind] at hsame
      cases hsame
      exact ⟨state, hfind', htracks⟩
    | some own =>
      obtain ⟨now, p⟩ := own
      rw [deliveries_cons_of_some hcall] at hperm hstate ⊢
      obtain ⟨state, hfind, htracks⟩ := hstate (cons_ne_nil _ _)
      have hheld : d.held key now = some state := by
        rw [keeps, hcall, hfind] at hkeeps
        rw [held, hfind]
        exact filter_eq_some_iff.mpr ⟨rfl, hkeeps⟩
      have hp : p ∈ packets := hperm.subset (by simp)
      obtain ⟨r, selected, rfl, hentry⟩ := hstepped.own hcall (h.supported p hp)
      rw [hheld] at hentry
      cases hentry with
      | added hadded =>
        simp only [results_cons_of_some hcall, length_cons]
        have hwell := hd.state hfind (config.poolConfig selected) (by cases selected <;> rfl)
        refine h.resume hsize hperm htracks hwell hadded fun hnext => ?_
        refine ih hd1 ?_ hnext hrest
        rwa [append_assoc]

end

/-- The packets of a message are delivered, each of them once and in any order, between any
other calls, and the message is not forgotten.  The decoder is in any state that it can reach;
when the first packet comes there is no entry of the message, and room for one. -/
theorem fragments_round_trip (config : Config) (before : List (Call I)) {earlier : List Outcome}
    {d : Decoder I} (hbefore : (Decoder.new config).run before = .ok (earlier, d))
    {e e' : Encoder} {payload : Bytes} {it : FragmentIter} {packets : List Packet}
    (hfragment : (e.fragment payload).run = .ok (.ok (it, e'))) (hyields : it.Yields packets)
    (hsize : payload.length ≤ config.maxMessageSize.val) (identity : I) (first : Call I)
    (calls : List (Call I)) {now : Nat} {p : Packet}
    (hfirst : first.fragmentOf (identity, it.msgId) = some (now, p))
    (hdelivered : ((deliveries (identity, it.msgId) (first :: calls)).map ok).Perm
      (packets.map fun packet => Packet.tryFrom packet.toBytes))
    (hfresh : d.held (identity, it.msgId) now = none)
    (hroom : ∀ error d₁, Decoder.NoRoom error → d.step first ≠ .ok (some (.error error), d₁))
    (hkept : (do
      let (_, d₁) ← d.step first
      d₁.unforgotten (identity, it.msgId) calls) = .ok true) :
    ∃ outcomes d', d.run (first :: calls) = .ok (outcomes, d') ∧
      results (identity, it.msgId) (first :: calls) outcomes =
        List.replicate (packets.length - 1) (.ok .pending) ++ [.ok (.complete payload)] := by
  have hlength : payload.length ≤ usizeMax :=
    hsize.trans (Nat.le_of_lt_succ config.maxMessageSize.isLt)
  have h : Fragmented packets (identity, it.msgId).2 payload :=
    fragmented hfragment hlength hyields
  have hperm : (deliveries (identity, it.msgId) (first :: calls)).Perm packets := by
    simp only [Packet.tryFrom_toBytes] at hdelivered
    exact (map_perm_map_iff fun _ _ => ok.inj).mp hdelivered
  rw [deliveries_cons_of_some hfirst] at hperm
  obtain ⟨_, _, hreturns, hd⟩ := (wellFormed_new config).returns_run before
  cases hbefore.symm.trans hreturns
  rw [bind_eq_ok] at hkept
  obtain ⟨⟨outcome, d₁⟩, hstep, hkept⟩ := hkept
  have hstepped := hd.step hstep
  have hp : p ∈ packets := hperm.subset (mem_cons_self)
  obtain ⟨r, selected, rfl, hentry⟩ := hstepped.own hfirst (h.supported p hp)
  rw [hfresh] at hentry
  obtain hadded | ⟨error, hnoRoom, rfl⟩ := hentry.of_none
  · obtain ⟨outcomes, d', hrun, hresults⟩ :=
      h.resume hsize hperm (tracks_new _) (MessageState.wellFormed_new _ _) hadded
        fun hnext => h.run hsize (hstepped.wellFormed hd) hperm hnext hkept
    refine ⟨_, d', run_cons hstep hrun, ?_⟩
    rw [results_cons_of_some hfirst, hresults, progress_succ]
    rw [← hperm.length_eq, length_cons, Nat.add_sub_cancel]
  · exact absurd hstep (hroom error d₁ hnoRoom)

/-! ## Sample runs -/

/-- The iterator over the packets of a message of three bytes. -/
def sampleIter : FragmentIter where
  payload := [1, 2, 3]
  maxPayload := 2
  msgId := 0
  current := 0
  count := 2

lemma yields_sampleIter : sampleIter.Yields [⟨.new 0 0 .start, [1, 2]⟩, ⟨.new 0 1 .last, [3]⟩] :=
  .next rfl (.next rfl (.done rfl))

def deliver (identity : Nat) (packet : Packet) : Call Nat :=
  .decode 0 .regular 0 identity (.ok packet)

/-- The last packet first, and a packet of another identity between the two. -/
theorem fragments_round_trip_sample : ∃ outcomes d',
    (Decoder.new .default).run [deliver 1 ⟨.new 0 1 .last, [3]⟩, deliver 2 ⟨.new 0 0 .start, [9]⟩,
      deliver 1 ⟨.new 0 0 .start, [1, 2]⟩] = .ok (outcomes, d') ∧
    results (1, 0) [deliver 1 ⟨.new 0 1 .last, [3]⟩, deliver 2 ⟨.new 0 0 .start, [9]⟩,
      deliver 1 ⟨.new 0 0 .start, [1, 2]⟩] outcomes = [.ok .pending, .ok (.complete [1, 2, 3])] := by
  have hpending : (do
      let first ← (new .default).step (deliver 1 ⟨.new 0 1 .last, [3]⟩)
      pure first.1) = .ok (some (.ok .pending)) := by decide +kernel
  simp only [bind_eq_ok] at hpending
  obtain ⟨⟨outcome, d₁⟩, hstep, hpure⟩ := hpending
  cases hpure
  have hfragment : ((new 8).fragment [1, 2, 3]).run =
      .ok (.ok (sampleIter, { new 8 with nextMsgId := 1 })) := rfl
  refine fragments_round_trip .default [] rfl hfragment yields_sampleIter (by decide) 1
    (deliver 1 ⟨.new 0 1 .last, [3]⟩)
    [deliver 2 ⟨.new 0 0 .start, [9]⟩, deliver 1 ⟨.new 0 0 .start, [1, 2]⟩]
    rfl (by decide +kernel) (by decide +kernel) ?_ (by decide +kernel)
  intro error d₁ hnoRoom hstep'
  cases hstep'

def oneMessage : Config := { Config.default with maxMessagesPerIdentity := 1 }

/-- While another message of the identity is unfinished, the only packet of a message is
refused; nothing was forgotten. -/
theorem fragments_refused : oneMessage.Valid ∧ ∃ (before : List (Call Nat)) (earlier : List Outcome)
    (d d' : Decoder Nat) (it : FragmentIter) (e' : Encoder) (packet : Packet),
    (Decoder.new oneMessage).run before = .ok (earlier, d) ∧
      ((new 8).fragment [1]).run = .ok (.ok (it, e')) ∧ it.Yields [packet] ∧
      d.find (1, it.msgId) = none ∧
      d.step (deliver 1 packet) = .ok (some (.error (.identityLimitExceeded 1)), d') := by
  refine ⟨by constructor <;> decide, ?_⟩
  have heval : (do
      let first ← (new oneMessage).run [deliver 1 ⟨.new 5 0 .start, [7]⟩]
      let second ← first.2.step (deliver 1 ⟨.new 0 0 .complete, [1]⟩)
      pure (first.1, decide (first.2.find (1, 0) = none), second.1)) =
      .ok ([some (.ok .pending)], true, some (.error (.identityLimitExceeded 1))) := by
    decide +kernel
  simp only [bind_eq_ok] at heval
  obtain ⟨⟨earlier, d⟩, hrun, ⟨outcome, d'⟩, hstep, hpure⟩ := heval
  have hfacts := ok.inj hpure
  simp only [Prod.mk.injEq, decide_eq_true_eq] at hfacts
  obtain ⟨-, hfind, rfl⟩ := hfacts
  exact ⟨_, earlier, d, d', _, _, _, hrun, rfl, .next rfl (.done rfl), hfind, hstep⟩

end Kinet.LeanUdp
