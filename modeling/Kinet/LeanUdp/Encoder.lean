import Kinet.Foundation.Checked
import Kinet.LeanUdp.Packet

/-!
# Cutting messages into fragments

`Encoder.fragment` gives an iterator over the packets of a message.

Main results:

- `FragmentIter.Fits.yields`: packet number `i` carries part `i` of the payload.
-/

namespace Kinet.LeanUdp

open Checked List

inductive EncodeError where
  | payloadTooLarge (payloadLen fragmentCount : Nat)
deriving DecidableEq

structure Encoder where
  maxFragmentPayload : Nat
  nextMsgId : U16

/-- Iterator over the packets of a message. -/
structure FragmentIter where
  payload : Bytes
  maxPayload : Nat
  msgId : U16
  current : Nat
  count : Nat

namespace Encoder

def new (maxFragmentPayload : Nat) : Encoder where
  maxFragmentPayload := maxFragmentPayload - PacketHeader.size
  nextMsgId := 0

/-- Quotient rounded up. -/
def divCeil (a b : Nat) : Checked Nat := do
  let q ← div a b
  pure (if a % b = 0 then q else q + 1)

def fragment (e : Encoder) (payload : Bytes) :
    ExceptT EncodeError Checked (FragmentIter × Encoder) := do
  let payloadLen := payload.length
  let count ← ExceptT.lift (divCeil (max payloadLen 1) e.maxFragmentPayload)
  if count > maxFragments then throw (.payloadTooLarge payloadLen count)
  pure
    ({ payload := payload
       maxPayload := e.maxFragmentPayload
       msgId := e.nextMsgId
       current := 0
       count := count },
      { e with nextMsgId := e.nextMsgId + 1 })

end Encoder

namespace FragmentIter

def fragmentType (i count : Nat) : FragmentType :=
  match decide (i = 0), decide (i = count - 1) with
  | true, true => .complete
  | true, false => .start
  | false, true => .last
  | false, false => .middle

def next (it : FragmentIter) : Checked (Option (Packet × FragmentIter)) :=
  if it.current ≥ it.count then pure none
  else do
    let i := it.current
    let start := min (i * it.maxPayload) usizeMax
    let stop := min (min (start + it.maxPayload) usizeMax) it.payload.length
    let data ← slice it.payload start stop
    let header := PacketHeader.new it.msgId (Fin.ofNat _ i) (fragmentType i it.count)
    pure (some (⟨header, data⟩, { it with current := it.current + 1 }))

/-- The packets that an iterator yields until it is exhausted. -/
inductive Yields : FragmentIter → List Packet → Prop
  | done {it : FragmentIter} (exhausted : it.next = .ok none) : Yields it []
  | next {it it' : FragmentIter} {packet : Packet} {packets : List Packet}
      (yields : it.next = .ok (some (packet, it'))) (rest : Yields it' packets) :
      Yields it (packet :: packets)

def packetAt (it : FragmentIter) (i : Nat) : Packet where
  header := .new it.msgId (Fin.ofNat _ i) (fragmentType i it.count)
  payload := (it.payload.drop (i * it.maxPayload)).take it.maxPayload

/-- The number of packets is right for the payload. -/
structure Fits (it : FragmentIter) : Prop where
  length_le : it.payload.length ≤ usizeMax
  start_le : ∀ i < it.count, i * it.maxPayload ≤ it.payload.length
  length_le_mul : it.payload.length ≤ it.count * it.maxPayload

variable {it : FragmentIter}

lemma Fits.next_eq (h : it.Fits) (hcurrent : it.current < it.count) :
    it.next = .ok (some (it.packetAt it.current, { it with current := it.current + 1 })) := by
  have hstart := h.start_le it.current hcurrent
  have hlength := h.length_le
  have hmin : min (it.current * it.maxPayload) usizeMax = it.current * it.maxPayload := by omega
  have hstop : min (min (it.current * it.maxPayload + it.maxPayload) usizeMax) it.payload.length =
      min (it.current * it.maxPayload + it.maxPayload) it.payload.length := by omega
  have hslice : (it.payload.take
      (min (it.current * it.maxPayload + it.maxPayload) it.payload.length)).drop
        (it.current * it.maxPayload) =
      (it.payload.drop (it.current * it.maxPayload)).take it.maxPayload := by
    rw [drop_take, take_eq_take_iff, length_drop]
    omega
  unfold next
  rw [if_neg (by omega)]
  simp only [hmin, hstop]
  rw [slice_of_le (by omega) (by omega), hslice]
  rfl

theorem Fits.yields (h : it.Fits) {rest : Nat} (hrest : it.current + rest = it.count) :
    it.Yields ((range' it.current rest).map it.packetAt) := by
  induction rest generalizing it with
  | zero =>
    refine .done ?_
    unfold next
    rw [if_pos (by omega)]
    rfl
  | succ rest ih =>
    refine .next (h.next_eq (by omega)) ?_
    have hfits : Fits { it with current := it.current + 1 } :=
      ⟨h.length_le, h.start_le, h.length_le_mul⟩
    exact ih hfits (by simp only; omega)

lemma Yields.unique {packets packets' : List Packet}
    (h : it.Yields packets) (h' : it.Yields packets') : packets = packets' := by
  induction h generalizing packets' with
  | done exhausted =>
    cases h' with
    | done => rfl
    | next yields _ =>
      rw [exhausted] at yields
      cases yields
  | next yields _ ih =>
    cases h' with
    | done exhausted =>
      rw [exhausted] at yields
      cases yields
    | next yields' rest' =>
      rw [yields] at yields'
      cases yields'
      rw [ih rest']

lemma flatten_parts {α : Type} (l : List α) (m n : Nat) :
    ((range n).map fun i => (l.drop (i * m)).take m).flatten = l.take (n * m) := by
  induction n with
  | zero => simp
  | succ n ih =>
    rw [range_succ, map_append, flatten_append, ih, Nat.succ_mul, take_add]
    simp

end FragmentIter

namespace Encoder

lemma divCeil_eq_ok {a b q : Nat} (h : divCeil a b = .ok q) :
    0 < b ∧ a ≤ q * b ∧ (0 < a → (q - 1) * b < a) := by
  unfold divCeil at h
  rw [bind_eq_ok] at h
  obtain ⟨d, hd, hq⟩ := h
  have hb : 0 < b := by
    by_contra hzero
    have : b = 0 := by omega
    rw [this] at hd
    cases hd
  rw [div_of_pos hb] at hd
  cases hd
  have hdiv := Nat.div_add_mod a b
  have hmod := Nat.mod_lt a hb
  cases hq
  refine ⟨hb, ?_, fun ha => ?_⟩
  · split
    · rw [mul_comm]; omega
    · rw [Nat.succ_mul, mul_comm (a / b)]; omega
  · split
    · next hzero =>
      rw [Nat.sub_mul, mul_comm (a / b)]
      omega
    · rw [Nat.add_sub_cancel, mul_comm]
      omega

/-- What `fragment` gives for a payload that it accepts. -/
theorem fragment_eq_ok {e e' : Encoder} {payload : Bytes} {it : FragmentIter}
    (h : (e.fragment payload).run = .ok (.ok (it, e'))) (hlength : payload.length ≤ usizeMax) :
    it.Fits ∧ it.payload = payload ∧ it.msgId = e.nextMsgId ∧ it.current = 0 ∧
      0 < it.count ∧ it.count ≤ maxFragments := by
  simp only [fragment, run_bind_eq_ok, run_lift_eq_ok] at h
  obtain ⟨count, hcount, h⟩ := h
  obtain ⟨hpos, hle, hlt⟩ := divCeil_eq_ok hcount
  have hlt := hlt (by omega)
  split at h
  · cases h
  · next hmax =>
    cases h
    have hcount_pos : 0 < count := by
      by_contra hzero
      have : count = 0 := by omega
      rw [this] at hle
      omega
    refine ⟨⟨hlength, fun i hi => ?_, le_trans (le_max_left _ _) hle⟩, rfl, rfl, rfl,
      hcount_pos, le_of_not_gt hmax⟩
    dsimp only at hi ⊢
    have hmul : i * e.maxFragmentPayload ≤ (count - 1) * e.maxFragmentPayload :=
      Nat.mul_le_mul_right _ (by omega)
    obtain hempty | hnonempty := eq_zero_or_pos payload.length
    · -- the empty payload has one packet
      have hone : count - 1 = 0 := by
        by_contra hne
        have := Nat.le_mul_of_pos_left e.maxFragmentPayload (Nat.pos_of_ne_zero hne)
        omega
      omega
    · omega

end Encoder

end Kinet.LeanUdp
