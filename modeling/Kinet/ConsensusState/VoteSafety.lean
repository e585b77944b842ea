import Kinet.ConsensusState.Voter

/-!
# What a node signs in a round

A node votes for at most one block in a round.  A node that refuses a tip has not
voted in that round, and votes in it only on top of that tip.

Main results:

- `NodeInit.run_one_vote`: no run signs two votes of a round.
- `NodeInit.run_refusal_consistent`: votes agree with refusals, as long as no
  proposal is voted for before the round of its tip.
-/

namespace Kinet

open List Event Mock Safety

variable {K : TypeParams}

/-! ## Statements of ballots -/

variable {msg : NoEndorsement} {e : Event K}

section

variable {x : Vote K} {m : NoEndorsement}
  {lastRoundTc : Option (TimeoutCertificate K)} {tip : ConsensusTip K}

@[simp]
lemma vote_mem_cast {v : Vote K} : .vote x ∈ (Event.cast v tip lastRoundTc).statements ↔ x = v := by
  simp [statements]

variable {info : TimeoutInfo} {highExtend : HighExtend K} {safeToVote : Bool}

@[simp]
lemma vote_mem_timedOut {qcRound : Nat} :
    .vote x ∈ (timedOut info highExtend safeToVote qcRound).statements ↔
      safeToVote = true ∧ ∃ tip, highExtend = .tip tip ∧ x = embeddedVote info tip := by
  cases highExtend <;> cases safeToVote <;> simp [statements]

@[simp]
lemma vote_mem_refused : .vote x ∉ (Event.refused msg tip).statements := by
  simp [statements]

@[simp]
lemma noEndorsement_mem_cast {v : Vote K} :
    .noEndorsement m ∉ (Event.cast v tip lastRoundTc).statements := by
  simp [statements]

@[simp]
lemma noEndorsement_mem_timedOut {qcRound : Nat} :
    .noEndorsement m ∉ (timedOut info highExtend safeToVote qcRound).statements := by
  cases highExtend <;> cases safeToVote <;> simp [statements]

@[simp]
lemma noEndorsement_mem_refused :
    .noEndorsement m ∈ (Event.refused msg tip).statements ↔ m = msg := by
  simp [statements]

lemma eq_refused_of_mem_statements (h : .noEndorsement m ∈ e.statements) :
    ∃ tip, e = .refused m tip := by
  cases e with
  | refused msg tip =>
    rw [noEndorsement_mem_refused.mp h]
    exact ⟨tip, rfl⟩
  | cast _ _ _ => exact absurd h noEndorsement_mem_cast
  | timedOut _ _ _ _ => exact absurd h noEndorsement_mem_timedOut
  | _ => cases h

end

namespace Voter

def Voted (v : Voter K) (x : Vote K) : Prop := ∃ e ∈ v.history, .vote x ∈ e.statements

variable {T : Trust K} {v v' : Voter K}
  {c : RoundCertificate K} {history : List (Event K)} {safety : Safety K} {x : Vote K}

lemma voted_append : (Voter.mk c safety (history ++ [e])).Voted x ↔
      (Voter.mk c safety history).Voted x ∨ .vote x ∈ e.statements := by
  simp [Voted, or_and_right, exists_or]

variable {tip : ConsensusTip K}

lemma voted_of_refused (h : (Voter.mk c safety (history ++ [.refused msg tip])).Voted x) :
    (Voter.mk c safety history).Voted x :=
  (voted_append.mp h).resolve_right vote_mem_refused

lemma maybeHighTip_of_highExtend (h : v.highExtend = .tip tip) :
    v.safety.maybeHighTip = some tip := by
  unfold highExtend at h
  split at h
  · next htip =>
    cases h
    exact htip
  · cases h

/-! ## One vote in a round -/

/-- Votes are not ahead of the current round; those of the current round are for the
high tip, if there is one; and no round has two. -/
structure OneVote (v : Voter K) : Prop where
  vote_le : v.safety.highestVote ≤ v.round
  voted_le : ∀ x, v.Voted x → x.round ≤ v.safety.highestVote
  current : ∀ x tip, v.Voted x → x.round = v.round → v.safety.maybeHighTip = some tip →
    x.id = tip.blockHeader.getId
  unique : ∀ x y, v.Voted x → v.Voted y → x.round = y.round → x.id = y.id

/-- After a ballot of the current round there is still one vote in a round, if the votes
of the current round agree with each other and with the high tip. -/
lemma OneVote.append (hv : v.OneVote) {safety : Safety K}
    (hvote : safety.highestVote = v.round) (hnew : ∀ x, .vote x ∈ e.statements → x.round = v.round)
    (hid : ∀ x y, v.Voted x ∨ .vote x ∈ e.statements → .vote y ∈ e.statements →
      x.round = v.round → x.id = y.id)
    (htip : ∀ x tip, v.Voted x ∨ .vote x ∈ e.statements → x.round = v.round →
      safety.maybeHighTip = some tip → x.id = tip.blockHeader.getId) :
    (Voter.mk v.highCertificate safety (v.history ++ [e])).OneVote := by
  refine ⟨hvote.le, ?_, fun x tip hx => htip x tip (voted_append.mp hx), ?_⟩
  · intro x hx
    rcases voted_append.mp hx with hx | hx
    · exact (hv.voted_le x hx).trans (hv.vote_le.trans hvote.ge)
    · exact (hnew x hx).le.trans hvote.ge
  · intro x y hx hy hxy
    rcases voted_append.mp hx with hx | hx <;> rcases voted_append.mp hy with hy | hy
    · exact hv.unique x y hx hy hxy
    · exact hid x y (.inl hx) hy (hxy.trans (hnew y hy))
    · exact (hid y x (.inl hy) hx (hxy.symm.trans (hnew x hx))).symm
    · exact hid x y (.inr hx) hy (hnew x hx)

/-- Every step of a voter keeps the votes of a round unique. -/
theorem Step.oneVote (h : Step T v v') (hv : v.OneVote) : v'.OneVote := by
  cases h with
  | @enter c hround hcert =>
    -- no vote is of the new round
    have hlt : v.round < c.round + 1 := Nat.lt_succ_of_le hround
    refine ⟨?_, hv.voted_le, ?_, hv.unique⟩
    · exact le_of_lt (lt_of_le_of_lt hv.vote_le hlt)
    · intro x tip hx hxround
      have hle := hv.voted_le x hx
      have hvote := hv.vote_le
      have hxround : x.round = c.round + 1 := hxround
      omega
  | @cast author p epoch hsent hmsg hround hqc hsafe =>
    -- the vote is the first one of its round
    have hcurrent : ∀ x, v.Voted x ∨ .vote x ∈ (Event.cast ⟨p.tip.blockHeader.getId, v.round,
        epoch⟩ p.tip p.lastRoundTc).statements → x.round = v.round →
        x.id = p.tip.blockHeader.getId := by
      rintro x (hx | hx) hxround
      · exact absurd hxround (ne_of_lt (lt_of_le_of_lt (hv.voted_le x hx)
          (lt_of_isSafeToVote hsafe)))
      · rw [vote_mem_cast.mp hx]
    refine hv.append rfl (fun x hx => by rw [vote_mem_cast.mp hx])
      (fun x y hx hy hxround => ?_) fun x tip hx hxround htip => ?_
    · rw [hcurrent x hx hxround, vote_mem_cast.mp hy]
    · simp only [voted] at htip
      split at htip
      · cases htip
        exact hcurrent x hx hxround
      · cases htip
  | @timeout epoch hvote =>
    -- the vote in a timeout is for the high tip
    have hnew : ∀ x, .vote x ∈ (timedOut (v.timeoutInfo epoch) v.highExtend
        (v.safety.safeToIncludeVote v.round) v.safety.highCertificateQcRound).statements →
        x.round = v.round ∧ ∃ tip, v.safety.maybeHighTip = some tip ∧
          x.id = tip.blockHeader.getId := by
      intro x hx
      obtain ⟨_, tip, hext, rfl⟩ := vote_mem_timedOut.mp hx
      exact ⟨rfl, tip, maybeHighTip_of_highExtend hext, rfl⟩
    have hcurrent : ∀ x tip, v.Voted x ∨ .vote x ∈ (timedOut (v.timeoutInfo epoch) v.highExtend
        (v.safety.safeToIncludeVote v.round) v.safety.highCertificateQcRound).statements →
        x.round = v.round → v.safety.maybeHighTip = some tip → x.id = tip.blockHeader.getId := by
      rintro x tip (hx | hx) hxround htip
      · exact hv.current x tip hx hxround htip
      · obtain ⟨_, tip', htip', hid⟩ := hnew x hx
        rw [htip] at htip'
        cases htip'
        exact hid
    refine hv.append rfl (fun x hx => (hnew x hx).1) (fun x y hx hy hxround => ?_) hcurrent
    obtain ⟨_, tip, htip, hid⟩ := hnew y hy
    rw [hid, hcurrent x tip hx hxround htip]
  | refuse _ _ _ _ _ =>
    exact ⟨hv.vote_le, fun x hx => hv.voted_le x (voted_of_refused hx),
      fun x tip hx => hv.current x tip (voted_of_refused hx),
      fun x y hx hy => hv.unique x y (voted_of_refused hx) (voted_of_refused hy)⟩

theorem Steps.oneVote (h : Steps T v v') (hv : v.OneVote) : v'.OneVote := by
  induction h with
  | refl => exact hv
  | tail _ hstep ih => exact hstep.oneVote ih

/-! ## Votes and refusals -/

/-- Votes are for tips whose round has been reached. -/
def TipsReached (v : Voter K) : Prop :=
  ∀ x tip lastRoundTc, Event.cast x tip lastRoundTc ∈ v.history →
    tip.blockHeader.blockRound ≤ x.round

/-- The vote was cast in its round, after the timeout certificate with the given tip. -/
def CastOnTip (v : Voter K) (x : Vote K) (tip : BlockId K) : Prop :=
  ∃ c tip' lastRoundTc, Event.cast c tip' lastRoundTc ∈ v.history ∧ c.round = x.round ∧
    c.id = x.id ∧ ConsensusState.tcTip lastRoundTc = some tip

lemma CastOnTip.append {safety' : Safety K} {tip : BlockId K}
    (h : (Voter.mk c safety history).CastOnTip x tip) (e : Event K) :
    (Voter.mk c safety' (history ++ [e])).CastOnTip x tip := by
  obtain ⟨x', tip', lastRoundTc, hmem, hrest⟩ := h
  exact ⟨x', tip', lastRoundTc, mem_append_left _ hmem, hrest⟩

/-- Between a refusal and the votes of its round: the refusal came first, and the votes
were cast on top of the refused tip. -/
structure RefusalOk (v : Voter K) : Prop where
  noEndorse_le : v.safety.highestNoEndorse.round ≤ v.round
  refused_le : ∀ msg tip, Event.refused msg tip ∈ v.history →
    msg.round ≤ v.safety.highestNoEndorse.round
  refused_tip : ∀ msg tip, Event.refused msg tip ∈ v.history →
    msg.round = v.safety.highestNoEndorse.round →
      v.safety.highestNoEndorse.tip = tip.blockHeader.getId
  highTip : ∀ tip, v.safety.maybeHighTip = some tip → ∃ x lastRoundTc,
    Event.cast x tip lastRoundTc ∈ v.history ∧ x.id = tip.blockHeader.getId
  consistent : v.TipsReached → ∀ msg tip x, Event.refused msg tip ∈ v.history → v.Voted x →
    x.round = msg.round → v.CastOnTip x tip.blockHeader.getId
  order : v.history.Pairwise fun e e' => ∀ x m, .vote x ∈ e.statements →
    .noEndorsement m ∈ e'.statements → x.round ≠ m.round

lemma pairwise_append_of {R : Event K → Event K → Prop} (h : history.Pairwise R)
    (he : ∀ e' ∈ history, R e' e) : (history ++ [e]).Pairwise R := by
  rw [pairwise_append]
  refine ⟨h, pairwise_singleton _ _, fun a ha b hb => ?_⟩
  rw [mem_singleton.mp hb]
  exact he a ha

/-- A vote in the round of a refusal was cast on top of the refused tip, also when it is
repeated in a timeout. -/
lemma RefusalOk.castOnTip_of_highTip (hv : v.RefusalOk) (hone : v.OneVote) (htips : v.TipsReached)
    {tip' : ConsensusTip K} (hrefused : Event.refused msg tip ∈ v.history)
    (hround : msg.round = v.round) (htip' : v.safety.maybeHighTip = some tip')
    (hsafe : v.safety.safeToIncludeVote v.round = true) (hx : x.round = v.round)
    (hid : x.id = tip'.blockHeader.getId) : v.CastOnTip x tip.blockHeader.getId := by
  have hle := hv.refused_le msg tip hrefused
  -- the shortcut of the code: the high tip is of the current round
  have htipRound : tip'.blockHeader.blockRound = v.round := by
    unfold safeToIncludeVote at hsafe
    rw [htip', Option.any_some, Bool.or_eq_true, decide_eq_true_iff, decide_eq_true_iff] at hsafe
    rcases hsafe with hlt | heq
    · omega
    · exact heq
  obtain ⟨y, lastRoundTc, hcast, hyid⟩ := hv.highTip tip' htip'
  have hvoted : v.Voted y := ⟨_, hcast, vote_mem_cast.mpr rfl⟩
  have hy : y.round = v.round := by
    have hreached := htips y tip' lastRoundTc hcast
    have hyle := hone.voted_le y hvoted
    have hvote := hone.vote_le
    omega
  obtain ⟨c, tip'', lastRoundTc', hmem, hcround, hcid, htc⟩ :=
    hv.consistent htips msg tip y hrefused hvoted (hy.trans hround.symm)
  exact ⟨c, tip'', lastRoundTc', hmem, by omega, by rw [hcid, hyid, hid], htc⟩

/-- Every step of a voter keeps its votes and refusals consistent. -/
lemma Step.refusalOk (h : Step T v v') (hone : v.OneVote) (hv : v.RefusalOk) : v'.RefusalOk := by
  have hearlier {c : RoundCertificate K} {safety : Safety K} {e : Event K}
      (htips : (Voter.mk c safety (v.history ++ [e])).TipsReached) : v.TipsReached :=
    fun x tip lastRoundTc hcast => htips x tip lastRoundTc (mem_append_left _ hcast)
  cases h with
  | @enter c hround hcert =>
    refine ⟨?_, hv.refused_le, hv.refused_tip, ?_, hv.consistent, hv.order⟩
    · exact le_trans hv.noEndorse_le (Nat.le_succ_of_le hround)
    · intro tip htip
      exact hv.highTip tip (maybeHighTip_processCertificate htip)
  | @cast author p epoch hsent hmsg hround hqc hsafe =>
    refine ⟨hv.noEndorse_le, fun msg tip he => hv.refused_le msg tip (by simpa using he),
      fun msg tip he => hv.refused_tip msg tip (by simpa using he), ?_, ?_, ?_⟩
    · intro tip htip
      simp only [voted] at htip
      split at htip
      · cases htip
        exact ⟨_, _, mem_append_right _ (mem_singleton_self _), rfl⟩
      · cases htip
    · intro htips msg tip x he hx hxround
      have he : Event.refused msg tip ∈ v.history := by simpa using he
      rcases voted_append.mp hx with hx | hx
      · exact (hv.consistent (hearlier htips) msg tip x he hx hxround).append _
      · -- a vote in the round of a refusal needs the refused tip's certificate
        obtain rfl := vote_mem_cast.mp hx
        have hle := hv.refused_le msg tip he
        have hround : v.round = v.safety.highestNoEndorse.round := by
          have hnoEndorse := hv.noEndorse_le
          have hxround : v.round = msg.round := hxround
          omega
        refine ⟨_, _, _, mem_append_right _ (mem_singleton_self _), rfl, rfl, ?_⟩
        rw [tip_of_isSafeToVote hsafe hround, hv.refused_tip msg tip he (hxround.symm.trans hround)]
    · refine pairwise_append_of hv.order fun e' _ x m _ hm => ?_
      exact absurd hm noEndorsement_mem_cast
  | @timeout epoch hvote =>
    refine ⟨hv.noEndorse_le, fun msg tip he => hv.refused_le msg tip (by simpa using he),
      fun msg tip he => hv.refused_tip msg tip (by simpa using he), ?_, ?_, ?_⟩
    · intro tip htip
      obtain ⟨x, lastRoundTc, hcast, hid⟩ := hv.highTip tip htip
      exact ⟨x, lastRoundTc, mem_append_left _ hcast, hid⟩
    · intro htips msg tip x he hx hxround
      have he : Event.refused msg tip ∈ v.history := by simpa using he
      rcases voted_append.mp hx with hx | hx
      · exact (hv.consistent (hearlier htips) msg tip x he hx hxround).append _
      · obtain ⟨hsafe, tip', hext, rfl⟩ := vote_mem_timedOut.mp hx
        have htip' : v.safety.maybeHighTip = some tip' := maybeHighTip_of_highExtend hext
        exact (hv.castOnTip_of_highTip hone (hearlier htips) he hxround.symm htip'
          hsafe rfl rfl).append _
    · refine pairwise_append_of hv.order fun e' _ x m _ hm => ?_
      exact absurd hm noEndorsement_mem_timedOut
  | @refuse author m epoch tip hsent hmsg hround htip hsafe =>
    obtain ⟨hltNoEndorse, hltVote⟩ := lt_of_isSafeToNoEndorse hsafe
    have hmem {msg : NoEndorsement} {tip' : ConsensusTip K}
        (he : refused msg tip' ∈ v.history ++ [refused
          ⟨epoch, m.round, tip.blockHeader.qc.getRound⟩ tip]) :
        refused msg tip' ∈ v.history ∨ msg.round = m.round ∧ tip' = tip := by
      rcases mem_append.mp he with hold | hnew
      · exact Or.inl hold
      · cases mem_singleton.mp hnew
        exact Or.inr ⟨rfl, rfl⟩
    refine ⟨le_of_eq hround, ?_, ?_, ?_, ?_, ?_⟩
    · intro msg tip' he
      rcases hmem he with hold | ⟨heq, _⟩
      · exact le_trans (hv.refused_le msg tip' hold) (le_of_lt hltNoEndorse)
      · exact le_of_eq heq
    · intro msg tip' he heq
      rcases hmem he with hold | ⟨_, rfl⟩
      · exact absurd heq (ne_of_lt (lt_of_le_of_lt (hv.refused_le msg tip' hold) hltNoEndorse))
      · rfl
    · intro tip' htip'
      obtain ⟨x, lastRoundTc, hcast, hid⟩ := hv.highTip tip' htip'
      exact ⟨x, lastRoundTc, mem_append_left _ hcast, hid⟩
    · intro htips msg tip' x he hx hxround
      have hx : v.Voted x := voted_of_refused hx
      rcases hmem he with hold | ⟨heq, _⟩
      · exact (hv.consistent (hearlier htips) msg tip' x hold hx hxround).append _
      · -- every vote so far is of an earlier round
        exact absurd (hxround.trans heq) (ne_of_lt (lt_of_le_of_lt (hone.voted_le x hx) hltVote))
    · refine pairwise_append_of hv.order fun e' he' x msg hx hmsg => ?_
      rw [noEndorsement_mem_refused.mp hmsg]
      exact ne_of_lt (lt_of_le_of_lt (hone.voted_le x ⟨e', he', hx⟩) hltVote)

lemma Steps.refusalOk (h : Steps T v v') (hone : v.OneVote) (hv : v.RefusalOk) : v'.RefusalOk := by
  induction h with
  | refl => exact hv
  | tail hsteps hstep ih => exact hstep.refusalOk (Steps.oneVote hsteps hone) ih

/-- A voter that has done nothing yet. -/
lemma oneVote_new (c : RoundCertificate K) : (Voter.mk c (new c none).voting []).OneVote := by
  have hnone (x : Vote K) : ¬ (Voter.mk c (new c none).voting []).Voted x := by
    simp [Voted]
  exact ⟨le_rfl, fun x hx => absurd hx (hnone x), fun x _ hx => absurd hx (hnone x),
    fun x _ hx => absurd hx (hnone x)⟩

lemma refusalOk_new (c : RoundCertificate K) : (Voter.mk c (new c none).voting []).RefusalOk where
  noEndorse_le := le_rfl
  refused_le _ _ he := by cases he
  refused_tip _ _ he := by cases he
  highTip _ htip := by cases htip
  consistent _ _ _ _ he := by cases he
  order := Pairwise.nil

end Voter

/-! ## Runs of a node -/

namespace NodeInit

variable {env : Env K} {init : NodeInit K} {n : Node K} {inputs : List (NodeInput K)}

lemma start_voter (h : init.start = .ok n) :
    n.state.voter = ⟨init.highCertificate, (new init.highCertificate none).voting, []⟩ := by
  unfold start ConsensusState.new Pacemaker.new at h
  split at h
  · cases h
  · cases h
    rfl

/-- In every run the voter of a node takes steps from its initial state. -/
lemma run_voter (h : init.run env inputs = .ok n) :
    Voter.Steps .any ⟨init.highCertificate, (new init.highCertificate none).voting, []⟩
      n.state.voter := by
  obtain ⟨n0, hstart, hreached⟩ := run_steps h
  rw [← start_voter hstart]
  exact hreached.state.steps.voter fun t _ => ConsensusState.sound_any t

/-- In every run a node signs only what its voter decided. -/
lemma run_signed (h : init.run env inputs = .ok n) {x : SignedMessage K}
    (hx : x ∈ n.state.signed) : n.state.Decided x := by
  obtain ⟨n0, hstart, hreached⟩ := run_steps h
  refine hreached.state.steps.signed (fun y hy => ?_) hx
  rw [ConsensusState.signed, start_log hstart] at hy
  cases hy

/-- No run signs votes for two blocks in one round. -/
theorem run_one_vote (h : init.run env inputs = .ok n) {x y : Vote K}
    (hx : .vote x ∈ n.state.signed) (hy : .vote y ∈ n.state.signed) (hround : x.round = y.round) :
    x.id = y.id :=
  ((run_voter h).oneVote (Voter.oneVote_new _)).unique x y (run_signed h hx) (run_signed h hy)
    hround

/-- If every vote is for a tip whose round has been reached, then a node that refused a
tip in a round votes in that round only for proposals after that tip's timeout
certificate, and it has not voted in the round before. -/
theorem run_refusal_consistent (h : init.run env inputs = .ok n)
    (htips : ∀ x tip lastRoundTc, Event.cast x tip lastRoundTc ∈ n.state.log →
      tip.blockHeader.blockRound ≤ x.round) :
    (∀ m, .noEndorsement m ∈ n.state.signed → ∃ tip, Event.refused m tip ∈ n.state.log) ∧
    (∀ m tip, Event.refused m tip ∈ n.state.log →
      ∀ x, .vote x ∈ n.state.signed → x.round = m.round →
        ∃ c tip' lastRoundTc, Event.cast c tip' lastRoundTc ∈ n.state.log ∧
          c.round = m.round ∧ c.id = x.id ∧
          ConsensusState.tcTip lastRoundTc = some tip.blockHeader.getId) ∧
    n.state.log.Pairwise fun e e' => ∀ x m, .vote x ∈ e.statements →
      .noEndorsement m ∈ e'.statements → x.round ≠ m.round := by
  have hok := (run_voter h).refusalOk (Voter.oneVote_new _) (Voter.refusalOk_new _)
  have hreached : n.state.voter.TipsReached := fun x tip lastRoundTc hcast =>
    htips x tip lastRoundTc (mem_filter.mp hcast).1
  refine ⟨fun m hm => ?_, fun m tip he x hx hround => ?_, ?_⟩
  · obtain ⟨e, he, hme⟩ := run_signed h hm
    obtain ⟨tip, rfl⟩ := eq_refused_of_mem_statements hme
    exact ⟨tip, (mem_filter.mp he).1⟩
  · obtain ⟨c, tip', lastRoundTc, hcast, hcround, hid, htip⟩ :=
      hok.consistent hreached m tip x (mem_filter.mpr ⟨he, rfl⟩) (run_signed h hx) hround
    exact ⟨c, tip', lastRoundTc, (mem_filter.mp hcast).1, hcround.trans hround, hid, htip⟩
  · refine (pairwise_filter.mp hok.order).imp fun horder x m hx hm => ?_
    exact horder (isBallot_of_mem_statements hx) (isBallot_of_mem_statements hm) x m hx hm

end NodeInit

def Event.refusal : Event K → Option (NoEndorsement × ConsensusTip K)
  | .refused msg tip => some (msg, tip)
  | _ => none

def Event.castRound : Event K → Option Nat
  | .cast v _ _ => some v.round
  | _ => none

def Event.tipReached : Event K → Bool
  | .cast v tip _ => decide (tip.blockHeader.blockRound ≤ v.round)
  | _ => true

namespace Mock

/-- A timeout certificate of round 3 in which no tip is reported. -/
def noTipTc : TimeoutCertificate mockTypes := tc 3 [⟨2, 0, [1, 2, 3]⟩] (.qc secondQc)

/-- A block of round 4 after the certificate without a tip. -/
def earlyTip : ConsensusTip mockTypes :=
  tip (header 4 2 secondQc [4]) (some (noTip noTipTc secondQc))

/-- A vote in round 2 that the timeout of the round repeats. -/
def repeatVote : List (NodeInput mockTypes) :=
  deliver 0 (proposal 2 secondTip (some firstTc)) ++ [.timeoutExpiry 2]

/-- The refusal of the hidden block in round 4, and its proposal in that round. -/
def refuseAndVote : List (NodeInput mockTypes) :=
  deliver 0 (proposal 2 secondTip (some firstTc)) ++
    deliver 1 ⟨1, .roundRecovery ⟨4, 1, hiddenTc⟩⟩ ++
    deliver 2 (proposal 4 hiddenTip (some hiddenTc))

/-- A block of round 4 is proposed in round 3; the hidden block is refused in round 4,
and round 4 times out. -/
def voteBeforeRound : List (NodeInput mockTypes) :=
  deliver 0 (proposal 2 secondTip (some firstTc)) ++ deliver 1 (proposal 3 earlyTip none) ++
    deliver 2 ⟨1, .roundRecovery ⟨4, 1, hiddenTc⟩⟩ ++ [.timeoutExpiry 4]

end Mock

namespace NodeInit

/-- The vote of round 2 and its repetition in the timeout are for one block. -/
theorem run_one_vote_repeated : ∃ n, (init 1000 10 (by decide)).run node0 repeatVote = .ok n ∧
      n.state.signed = [.vote ⟨secondTip.blockHeader.getId, 2, 1⟩, .timeout ⟨1, 2, 0, 2⟩,
        .vote ⟨secondTip.blockHeader.getId, 2, 1⟩] ∧
      secondTip.blockHeader.getId = secondTip.blockHeader.getId := by
  have hcheck : (init 1000 10 (by decide)).runSatisfies node0 repeatVote
      (fun n => decide (n.state.signed = [.vote ⟨secondTip.blockHeader.getId, 2, 1⟩,
        .timeout ⟨1, 2, 0, 2⟩, .vote ⟨secondTip.blockHeader.getId, 2, 1⟩])) = true := by
    decide +kernel
  obtain ⟨n, hrun, hsigned⟩ := exists_of_runSatisfies hcheck
  have hsigned := of_decide_eq_true hsigned
  have hmem : .vote ⟨secondTip.blockHeader.getId, 2, 1⟩ ∈ n.state.signed := by
    rw [hsigned]
    exact mem_cons_self
  exact ⟨n, hrun, hsigned, run_one_vote hrun hmem hmem rfl⟩

/-- The hidden block is refused in round 4 and then voted for in that round, after its
timeout certificate. -/
theorem run_refusal_consistent_reproposal :
    ∃ n, (init 1000 10 (by decide)).run node0 refuseAndVote = .ok n ∧
      .noEndorsement ⟨1, 4, 2⟩ ∈ n.state.signed ∧
      .vote ⟨hiddenTip.blockHeader.getId, 4, 1⟩ ∈ n.state.signed ∧
      ∃ tip, Event.refused ⟨1, 4, 2⟩ tip ∈ n.state.log ∧
        ∃ c tip' lastRoundTc, Event.cast c tip' lastRoundTc ∈ n.state.log ∧ c.round = 4 ∧
          c.id = hiddenTip.blockHeader.getId ∧
          ConsensusState.tcTip lastRoundTc = some tip.blockHeader.getId := by
  have hcheck : (init 1000 10 (by decide)).runSatisfies node0 refuseAndVote
      (fun n => n.state.log.all tipReached && decide (.noEndorsement ⟨1, 4, 2⟩ ∈ n.state.signed) &&
        decide (.vote ⟨hiddenTip.blockHeader.getId, 4, 1⟩ ∈ n.state.signed)) = true := by
    decide +kernel
  obtain ⟨n, hrun, hn⟩ := exists_of_runSatisfies hcheck
  simp only [Bool.and_eq_true, all_eq_true, decide_eq_true_eq] at hn
  obtain ⟨⟨htips, hrefused⟩, hvoted⟩ := hn
  obtain ⟨hexists, hvotes, -⟩ := run_refusal_consistent hrun fun x tip lastRoundTc hcast =>
    of_decide_eq_true (htips _ hcast)
  obtain ⟨tip, hmem⟩ := hexists _ hrefused
  exact ⟨n, hrun, hrefused, hvoted, tip, hmem, hvotes _ tip hmem _ hvoted rfl⟩

/-- A block of round 4 that is proposed in round 3 is voted for in round 3.  After the
refusal of the hidden block in round 4, the timeout of round 4 repeats that vote, although
nothing was voted for in round 4. -/
theorem refused_round_voted : ∃ n, (init 1000 10 (by decide)).run node0 voteBeforeRound = .ok n ∧
      Event.refused ⟨1, 4, 2⟩ hiddenTip ∈ n.state.log ∧
      .vote ⟨earlyTip.blockHeader.getId, 4, 1⟩ ∈ n.state.signed ∧
      ∀ c tip lastRoundTc, Event.cast c tip lastRoundTc ∈ n.state.log → c.round ≠ 4 := by
  have hcheck : (init 1000 10 (by decide)).runSatisfies node0 voteBeforeRound
      (fun n => decide ((⟨1, 4, 2⟩, hiddenTip) ∈ n.state.log.filterMap refusal) &&
        decide (.vote ⟨earlyTip.blockHeader.getId, 4, 1⟩ ∈ n.state.signed) &&
        decide (4 ∉ n.state.log.filterMap castRound)) = true := by
    decide +kernel
  obtain ⟨n, hrun, hn⟩ := exists_of_runSatisfies hcheck
  simp only [Bool.and_eq_true, decide_eq_true_eq] at hn
  obtain ⟨⟨hrefused, hvoted⟩, hcasts⟩ := hn
  refine ⟨n, hrun, ?_, hvoted, fun c tip lastRoundTc hcast hround => hcasts ?_⟩
  · obtain ⟨e, he, hrefusal⟩ := mem_filterMap.mp hrefused
    cases e <;> cases hrefusal
    exact he
  · exact mem_filterMap.mpr ⟨_, hcast, congrArg some hround⟩

end NodeInit

end Kinet
