import Mathlib.Data.List.Sort

/-!
# Reading logs by time

Logs are read in the order of their first time stamps.  Those that begin after the range are
left out, and so are those before the last one that begins at or before its start.

Main results:

- `eventsIterInRange_spec`: when logs that at most touch lose nothing of a range.
- `eventsIterInRange_touching`: of two logs that touch where the range starts, the first
  is left out.
-/

namespace Kinet.Wal

open List

variable {E Ts : Type} [LinearOrder Ts] (eventToTs : E → Ts)

/-- The log with its first time stamp, unless it is empty or begins after the range. -/
def fuse (stop : Ts) : List E → Option (Ts × List E)
  | [] => none
  | first :: log =>
    if eventToTs first ≤ stop then some (eventToTs first, first :: log) else none

def fusedEvents (logs : List (List E)) (stop : Ts) : List (Ts × List E) :=
  (logs.filterMap (fuse eventToTs stop)).insertionSort (Order.Preimage Prod.fst (· ≤ ·))

/-- Drop the logs before the last one that begins at or before `start`. -/
def truncateBefore (start : Ts) : List (Ts × List E) → List (Ts × List E)
  | [] => []
  | log :: logs => if logs.any (·.1 ≤ start) then truncateBefore start logs else log :: logs

def eventsIterInRange (logs : List (List E)) (start stop : Ts) : List E :=
  (((truncateBefore start (fusedEvents eventToTs logs stop)).flatMap Prod.snd).dropWhile
    (eventToTs · < start)).takeWhile (eventToTs · ≤ stop)

def inRange (start stop : Ts) (e : E) : Bool := start ≤ eventToTs e ∧ eventToTs e ≤ stop

def InOrder (events : List E) : Prop := events.Pairwise fun a b => eventToTs a ≤ eventToTs b

def NotAfter (a b : List E) : Prop := ∀ x ∈ a, ∀ y ∈ b, eventToTs x ≤ eventToTs y

/-- One log is over when the other begins; they may share the time stamp where they touch. -/
def Touch (a b : List E) : Prop := NotAfter eventToTs a b ∨ NotAfter eventToTs b a

def BeginsBy (a b : List E) : Prop := ∀ x ∈ a.head?, ∀ y ∈ b.head?, eventToTs x ≤ eventToTs y

/-- What the range needs of a log that is read before `b`: nothing, if it is left out as `b`
begins by the start of the range, and otherwise it is over when `b` begins. -/
def Precedes (start stop : Ts) (a b : List E) : Prop :=
  ∀ y ∈ b.head?, eventToTs y ≤ stop → ∀ x ∈ a,
    if eventToTs y ≤ start then inRange eventToTs start stop x = false
    else eventToTs x ≤ eventToTs y

/-- Every two logs can be read one after the other; those that begin together are read in the
given order. -/
def Complete (start stop : Ts) (logs : List (List E)) : Prop :=
  logs.Pairwise fun a b =>
    (BeginsBy eventToTs a b → Precedes eventToTs start stop a b) ∧
      (¬ BeginsBy eventToTs a b → Precedes eventToTs start stop b a)

variable {eventToTs} {logs : List (List E)} {start stop : Ts}

/-- In an ordered list, what comes first is what is small. -/
lemma while_eq_filter {p : E → Bool} {l : List E} (h : l.Pairwise fun a b => p b → p a) :
    l.takeWhile p = l.filter p ∧ l.dropWhile p = l.filter (!p ·) := by
  induction h with
  | nil => exact ⟨rfl, rfl⟩
  | @cons a l ha _ ih =>
    cases hp : p a with
    | true => simp [hp, ih]
    | false =>
      have hnone : ∀ b ∈ l, p b = false := by simpa [hp] using ha
      have hall : l.filter (!p ·) = l := filter_eq_self.mpr (by simpa using hnone)
      simpa [hp, takeWhile_cons, dropWhile_cons, filter_cons, hall] using hnone

lemma InOrder.read_eq_filter {events : List E} (h : InOrder eventToTs events) :
    (events.dropWhile (eventToTs · < start)).takeWhile (eventToTs · ≤ stop) =
      events.filter (inRange eventToTs start stop) := by
  have hdrop := (while_eq_filter (p := (eventToTs · < start))
    (h.imp fun hab => by simpa using hab.trans_lt)).2
  rw [hdrop, (while_eq_filter ((Pairwise.filter _ h).imp fun hab => by simpa using hab.trans)).1,
    filter_filter]
  refine filter_congr fun e _ => ?_
  simp only [inRange, ← not_lt, Bool.decide_and, decide_not, Bool.and_comm]

lemma fuse_eq_some {log : List E} {p : Ts × List E} (h : fuse eventToTs stop log = some p) :
    p.2 = log ∧ p.1 ≤ stop ∧ ∃ first rest, log = first :: rest ∧ eventToTs first = p.1 := by
  unfold fuse at h
  split at h
  · cases h
  · next first rest =>
    split at h
    · next hle =>
      cases h
      exact ⟨rfl, hle, first, rest, rfl, rfl⟩
    · cases h

lemma mem_fusedEvents {p : Ts × List E} (h : p ∈ fusedEvents eventToTs logs stop) :
    p.2 ∈ logs ∧ p.1 ≤ stop ∧ ∃ first rest, p.2 = first :: rest ∧ eventToTs first = p.1 := by
  obtain ⟨log, hlog, hp⟩ := mem_filterMap.mp ((mem_insertionSort _).mp h)
  obtain ⟨rfl, hp⟩ := fuse_eq_some hp
  exact ⟨hlog, hp⟩

/-! ## The order of reading -/

section

variable {α : Type} {r : α → α → Prop} [DecidableRel r] {R : α → α → Prop}

lemma pairwise_orderedInsert_iff [IsTrans α r] {a : α} {l : List α} (hl : l.Pairwise r) :
    (l.orderedInsert r a).Pairwise R ↔
      (∀ b ∈ l, (r a b → R a b) ∧ (¬ r a b → R b a)) ∧ l.Pairwise R := by
  induction hl with
  | nil => simp
  | @cons b l hb _ ih =>
    by_cases hab : r a b
    · have hall : ∀ c ∈ b :: l, r a c :=
        forall_mem_cons.mpr ⟨hab, fun c hc => Trans.trans hab (hb c hc)⟩
      rw [orderedInsert_cons_of_le _ _ hab, pairwise_cons]
      refine and_congr_left fun _ => forall₂_congr fun c hc => ?_
      simp [hall c hc]
    · rw [orderedInsert_of_not_le _ _ hab, pairwise_cons, ih, pairwise_cons, forall_mem_cons]
      simp only [mem_orderedInsert, forall_eq_or_imp, hab, false_imp_iff, not_false_eq_true,
        true_imp_iff, true_and]
      tauto

/-- Insertion sort keeps the order of what it need not exchange. -/
lemma pairwise_insertionSort_iff [IsTrans α r] [Std.Total r] {l : List α} :
    (l.insertionSort r).Pairwise R ↔
      l.Pairwise fun a b => (r a b → R a b) ∧ (¬ r a b → R b a) := by
  induction l with
  | nil => simp
  | cons a l ih =>
    rw [insertionSort_cons, pairwise_orderedInsert_iff (pairwise_insertionSort _ _), pairwise_cons, ih]
    simp only [mem_insertionSort]

end

variable (eventToTs start stop) in
/-- The logs `a` and `b` of the order of reading go together. -/
def Joins (a b : Ts × List E) : Prop :=
  ∀ e ∈ a.2, if b.1 ≤ start then inRange eventToTs start stop e = false else eventToTs e ≤ b.1

lemma complete_iff : Complete eventToTs start stop logs ↔
    (fusedEvents eventToTs logs stop).Pairwise (Joins eventToTs start stop) := by
  rw [fusedEvents, pairwise_insertionSort_iff, pairwise_filterMap, Complete]
  refine iff_of_eq (congrArg (Pairwise · logs) (funext₂ fun a b => propext ?_))
  cases a with
  | nil => simp [BeginsBy, Precedes, fuse]
  | cons x a =>
    cases b with
    | nil => simp [BeginsBy, Precedes, fuse]
    | cons y b =>
      by_cases hx : eventToTs x ≤ stop <;> by_cases hy : eventToTs y ≤ stop
      · simp [BeginsBy, Precedes, fuse, Joins, hx, hy]
      · have hlt : eventToTs x ≤ eventToTs y := hx.trans (not_le.mp hy).le
        simp [BeginsBy, Precedes, fuse, hx, hy, hlt]
      · have hlt : ¬ eventToTs x ≤ eventToTs y := fun h => hx (h.trans hy)
        simp [BeginsBy, Precedes, fuse, hx, hlt]
      · simp [BeginsBy, Precedes, fuse, hx, hy]

lemma truncateBefore_suffix (start : Ts) (fused : List (Ts × List E)) :
    truncateBefore start fused <:+ fused := by
  induction fused with
  | nil => exact suffix_rfl
  | cons log fused ih =>
    unfold truncateBefore
    split
    · exact ih.trans (suffix_cons _ _)
    · exact suffix_rfl

/-- Only the first log that is read begins by `start`. -/
lemma pairwise_truncateBefore (start : Ts) (fused : List (Ts × List E)) :
    (truncateBefore start fused).Pairwise fun _ b => start < b.1 := by
  induction fused with
  | nil => exact .nil
  | cons log fused ih =>
    unfold truncateBefore
    split
    · exact ih
    · next hlater =>
      have hlater : ∀ b ∈ fused, start < b.1 := by simpa using hlater
      exact pairwise_cons.mpr ⟨hlater, pairwise_of_forall_mem_list fun _ _ b hb => hlater b hb⟩

/-- What is dropped is before a log that begins by `start`. -/
lemma filter_truncateBefore {fused : List (Ts × List E)}
    (hjoins : fused.Pairwise (Joins eventToTs start stop)) :
    ((truncateBefore start fused).flatMap Prod.snd).filter (inRange eventToTs start stop) =
      (fused.flatMap Prod.snd).filter (inRange eventToTs start stop) := by
  induction hjoins with
  | nil => rfl
  | @cons log fused hlog _ ih =>
    unfold truncateBefore
    split
    · next hlater =>
      obtain ⟨later, hmem, hle⟩ := any_eq_true.mp hlater
      have hnone : log.2.filter (inRange eventToTs start stop) = [] := by
        refine filter_eq_nil_iff.mpr fun e he => ?_
        have hout := hlog later hmem e he
        rw [if_pos (of_decide_eq_true hle)] at hout
        simp [hout]
      rw [flatMap_cons, filter_append, hnone, nil_append]
      exact ih
    · rfl

/-- What is left out for beginning too late has nothing of the range. -/
lemma filter_fused {p : E → Bool} (hp : ∀ e, p e = true → eventToTs e ≤ stop)
    (hsorted : ∀ log ∈ logs, InOrder eventToTs log) :
    ((logs.filterMap (fuse eventToTs stop)).flatMap Prod.snd).filter p = logs.flatten.filter p := by
  induction logs with
  | nil => rfl
  | cons log logs ih =>
    have ih := ih fun log hlog => hsorted log (mem_cons_of_mem _ hlog)
    cases log with
    | nil => exact ih
    | cons first log =>
      rw [flatten_cons, filter_append, filterMap_cons, fuse]
      by_cases hfirst : eventToTs first ≤ stop
      · rw [if_pos hfirst]
        simp only [flatMap_cons, filter_append, ih]
      · have hlate : ∀ e ∈ first :: log, ¬ eventToTs e ≤ stop :=
          forall_mem_cons.mpr ⟨hfirst, fun e he hle =>
            hfirst (((pairwise_cons.mp (hsorted _ mem_cons_self)).1 e he).trans hle)⟩
        have hnone : (first :: log).filter p = [] :=
          filter_eq_nil_iff.mpr fun e he hpe => hlate e he (hp e hpe)
        rw [if_neg hfirst, hnone]
        exact ih

lemma filter_fusedEvents (hsorted : ∀ log ∈ logs, InOrder eventToTs log) :
    (((fusedEvents eventToTs logs stop).flatMap Prod.snd).filter
      (inRange eventToTs start stop)).Perm (logs.flatten.filter (inRange eventToTs start stop)) := by
  rw [← filter_fused (fun e he => (of_decide_eq_true he).2) hsorted]
  exact ((perm_insertionSort _ _).flatMap_right _).filter _

lemma le_of_mem_fusedEvents (hsorted : ∀ log ∈ logs, InOrder eventToTs log) {p : Ts × List E}
    (h : p ∈ fusedEvents eventToTs logs stop) : ∀ e ∈ p.2, p.1 ≤ eventToTs e := by
  obtain ⟨hlog, -, first, rest, hp, hts⟩ := mem_fusedEvents h
  have horder := hsorted _ hlog
  rw [hp] at horder ⊢
  rw [← hts]
  exact forall_mem_cons.mpr ⟨le_rfl, (pairwise_cons.mp horder).1⟩

lemma eventsIterInRange_of_joins (hsorted : ∀ log ∈ logs, InOrder eventToTs log)
    (hjoins : (fusedEvents eventToTs logs stop).Pairwise (Joins eventToTs start stop)) :
    (eventsIterInRange eventToTs logs start stop).Perm
      (logs.flatten.filter (inRange eventToTs start stop)) ∧
    InOrder eventToTs (eventsIterInRange eventToTs logs start stop) := by
  have hsuffix := truncateBefore_suffix start (fusedEvents eventToTs logs stop)
  have hread : InOrder eventToTs _ := pairwise_flatMap.mpr
    ⟨fun p hp => hsorted _ (mem_fusedEvents (hsuffix.mem hp)).1,
      ((hjoins.sublist hsuffix.sublist).and (pairwise_truncateBefore _ _)).imp_of_mem
        fun {a b} _ hb hab x hx y hy => by
          have hle := hab.1 x hx
          rw [if_neg (not_le.mpr hab.2)] at hle
          exact hle.trans (le_of_mem_fusedEvents hsorted (hsuffix.mem hb) y hy)⟩
  rw [eventsIterInRange, hread.read_eq_filter]
  refine ⟨?_, Pairwise.filter _ hread⟩
  rw [filter_truncateBefore hjoins]
  exact filter_fusedEvents hsorted

/-! ## What a complete reading says about the logs -/

lemma pairwise_of_takeWhile {events : List E}
    (h : events.takeWhile (eventToTs · ≤ stop) = events.filter (inRange eventToTs start stop))
    (horder : InOrder eventToTs (events.filter (inRange eventToTs start stop))) :
    events.Pairwise fun x y => inRange eventToTs start stop y = true → eventToTs x ≤ eventToTs y := by
  induction events with
  | nil => exact .nil
  | cons x events ih =>
    by_cases hx : eventToTs x ≤ stop
    · have hin : inRange eventToTs start stop x = true := by
        have hmem : x ∈ (x :: events).takeWhile (eventToTs · ≤ stop) := by simp [hx]
        rw [h] at hmem
        exact (mem_filter.mp hmem).2
      rw [filter_cons_of_pos hin] at h horder
      rw [takeWhile_cons_of_pos (by simpa using hx), cons_inj_right] at h
      rw [InOrder, pairwise_cons] at horder
      exact pairwise_cons.mpr
        ⟨fun y hy hr => horder.1 y (mem_filter.mpr ⟨hy, hr⟩), ih h horder.2⟩
    · rw [takeWhile_cons_of_neg (by simpa using hx)] at h
      have hnone := filter_eq_nil_iff.mp h.symm
      exact pairwise_of_forall_mem_list fun _ _ y hy hr => absurd hr (hnone y hy)

/-- If skipping and taking keep what is in the range, an event of the range has no later one
before it. -/
lemma pairwise_of_read {events : List E}
    (h : (events.dropWhile (eventToTs · < start)).takeWhile (eventToTs · ≤ stop) =
      events.filter (inRange eventToTs start stop))
    (horder : InOrder eventToTs (events.filter (inRange eventToTs start stop))) :
    events.Pairwise fun x y => inRange eventToTs start stop y = true → eventToTs x ≤ eventToTs y := by
  induction events with
  | nil => exact .nil
  | cons x events ih =>
    by_cases hx : eventToTs x < start
    · have hout : ¬ inRange eventToTs start stop x = true :=
        fun hin => hx.not_ge (of_decide_eq_true hin).1
      rw [filter_cons_of_neg hout] at h horder
      rw [dropWhile_cons_of_pos (by simpa using hx)] at h
      exact pairwise_cons.mpr ⟨fun y _ hr => hx.le.trans (of_decide_eq_true hr).1, ih h horder⟩
    · rw [dropWhile_cons_of_neg (by simpa using hx)] at h
      exact pairwise_of_takeWhile h horder

/-- What is read is a part of what the remaining logs have in the range, so nothing of the
range was in the dropped logs and nothing was skipped. -/
lemma read_eq_filter_of_perm {dropped kept : List E}
    (h : ((kept.dropWhile (eventToTs · < start)).takeWhile (eventToTs · ≤ stop)).Perm
      ((dropped ++ kept).filter (inRange eventToTs start stop))) :
    dropped.filter (inRange eventToTs start stop) = [] ∧
      (kept.dropWhile (eventToTs · < start)).takeWhile (eventToTs · ≤ stop) =
        kept.filter (inRange eventToTs start stop) := by
  have hall : ∀ e ∈ (kept.dropWhile (eventToTs · < start)).takeWhile (eventToTs · ≤ stop),
      inRange eventToTs start stop e = true := fun e he => (mem_filter.mp (h.mem_iff.mp he)).2
  have hsub : ((kept.dropWhile (eventToTs · < start)).takeWhile (eventToTs · ≤ stop)).Sublist
      (kept.filter (inRange eventToTs start stop)) := by
    rw [← filter_eq_self.mpr hall]
    exact ((takeWhile_sublist _).trans (dropWhile_sublist _)).filter _
  have hlength := h.length_eq
  rw [filter_append, length_append] at hlength
  have hle := hsub.length_le
  exact ⟨length_eq_zero_iff.mp (by omega), hsub.eq_of_length (by omega)⟩

/-- If logs are dropped, one that is kept begins by `start`. -/
lemma exists_dropped (start : Ts) (fused : List (Ts × List E)) :
    ∃ dropped, fused = dropped ++ truncateBefore start fused ∧
      (dropped = [] ∨ ∃ b ∈ truncateBefore start fused, b.1 ≤ start) := by
  induction fused with
  | nil => exact ⟨[], rfl, .inl rfl⟩
  | cons log fused ih =>
    unfold truncateBefore
    split
    · next hlater =>
      obtain ⟨dropped, heq, hkept⟩ := ih
      refine ⟨log :: dropped, congrArg (log :: ·) heq, .inr ?_⟩
      rcases hkept with rfl | hkept
      · obtain ⟨b, hb, hle⟩ := any_eq_true.mp hlater
        rw [nil_append] at heq
        exact ⟨b, by rwa [← heq], of_decide_eq_true hle⟩
      · exact hkept
    · exact ⟨[], rfl, .inl rfl⟩

lemma pairwise_touch_fusedEvents (htouch : logs.Pairwise (Touch eventToTs)) :
    (fusedEvents eventToTs logs stop).Pairwise fun a b => Touch eventToTs a.2 b.2 := by
  have hkept : (logs.filterMap (fuse eventToTs stop)).Pairwise fun a b =>
      Touch eventToTs a.2 b.2 := by
    refine htouch.filterMap _ fun a b h p hp q hq => ?_
    rwa [(fuse_eq_some hp).1, (fuse_eq_some hq).1]
  exact ((perm_insertionSort (Order.Preimage Prod.fst (· ≤ ·)) _).pairwise_iff
    fun {_ _} h => h.symm).mpr hkept

lemma joins_of_eventsIterInRange (hsorted : ∀ log ∈ logs, InOrder eventToTs log)
    (htouch : logs.Pairwise (Touch eventToTs))
    (hperm : (eventsIterInRange eventToTs logs start stop).Perm
      (logs.flatten.filter (inRange eventToTs start stop)))
    (horder : InOrder eventToTs (eventsIterInRange eventToTs logs start stop)) :
    (fusedEvents eventToTs logs stop).Pairwise (Joins eventToTs start stop) := by
  obtain ⟨dropped, hfused, hfirst⟩ := exists_dropped start (fusedEvents eventToTs logs stop)
  have hperm := hperm.trans (filter_fusedEvents hsorted).symm
  rw [eventsIterInRange] at hperm horder
  have hbegins := pairwise_insertionSort (Order.Preimage Prod.fst (· ≤ ·))
    (logs.filterMap (fuse eventToTs stop))
  rw [← fusedEvents] at hbegins
  have htouch := @pairwise_touch_fusedEvents _ _ _ _ _ stop htouch
  have hmem {p} (hp : p ∈ truncateBefore start (fusedEvents eventToTs logs stop)) :=
    mem_fusedEvents ((truncateBefore_suffix _ _).mem hp)
  have hlater := pairwise_truncateBefore start (fusedEvents eventToTs logs stop)
  have hall := @mem_fusedEvents _ _ _ eventToTs logs stop
  generalize truncateBefore start (fusedEvents eventToTs logs stop) = kept at *
  rw [hfused] at hperm hbegins htouch hall ⊢
  rw [flatMap_append] at hperm
  obtain ⟨hnone, hread⟩ := read_eq_filter_of_perm hperm
  rw [hread] at horder
  have hpair := pairwise_of_read hread horder
  have hkept : kept.Pairwise (Joins eventToTs start stop) := by
    refine ((pairwise_flatMap.mp hpair).2.and hlater).imp_of_mem fun {a b} _ hb hab e he => ?_
    obtain ⟨-, hle, first, rest, hlog, hts⟩ := hmem hb
    rw [if_neg (not_le.mpr hab.2), ← hts]
    rw [← hts] at hab hle
    exact hab.1 e he first (hlog ▸ mem_cons_self) (decide_eq_true ⟨hab.2.le, hle⟩)
  have hout : ∀ a ∈ dropped, ∀ e ∈ a.2, inRange eventToTs start stop e = false :=
    fun a ha e he => by simpa using filter_eq_nil_iff.mp hnone e (mem_flatMap.mpr ⟨a, ha, he⟩)
  have hby : ∀ a ∈ dropped, a.1 ≤ start := by
    intro a ha
    rcases hfirst with rfl | ⟨b, hb, hle⟩
    · cases ha
    · exact ((pairwise_append.mp hbegins).2.2 a ha b hb).trans hle
  refine pairwise_append.mpr ⟨?_, hkept, fun a ha b hb e he => ?_⟩
  · refine pairwise_of_forall_mem_list fun a ha b hb e he => ?_
    rw [if_pos (hby b hb)]
    exact hout a ha e he
  · by_cases hb' : b.1 ≤ start
    · rw [if_pos hb']
      exact hout a ha e he
    -- `b` begins after `start` and `a` does not, so that `a` is the one that is over
    obtain ⟨-, -, x, _, hax, hx⟩ := hall (mem_append_left _ ha)
    obtain ⟨-, -, y, _, hby', hy⟩ := hall (mem_append_right _ hb)
    rw [if_neg hb', ← hy]
    rcases (pairwise_append.mp htouch).2.2 a ha b hb with h | h
    · exact h e he y (hby' ▸ mem_cons_self)
    · have hle := h y (hby' ▸ mem_cons_self) x (hax ▸ mem_cons_self)
      rw [hx, hy] at hle
      exact absurd (hle.trans (hby a ha)) hb'

/-- Of logs that at most touch, every event of the range is read once and in order exactly if
the logs are complete for the range. -/
theorem eventsIterInRange_spec (eventToTs : E → Ts) (logs : List (List E)) (start stop : Ts)
    (hsorted : ∀ log ∈ logs, InOrder eventToTs log) (htouch : logs.Pairwise (Touch eventToTs)) :
    ((eventsIterInRange eventToTs logs start stop).Perm
        (logs.flatten.filter (inRange eventToTs start stop)) ∧
      InOrder eventToTs (eventsIterInRange eventToTs logs start stop)) ↔
      Complete eventToTs start stop logs := by
  rw [complete_iff]
  exact ⟨fun h => joins_of_eventsIterInRange hsorted htouch h.1 h.2, eventsIterInRange_of_joins hsorted⟩

/-- The logs touch at 5, which is within the range: nothing is lost, though they are given in
the wrong order. -/
theorem eventsIterInRange_spec_sample :
    (eventsIterInRange (id : Nat → Nat) [[5, 6], [1, 5]] 1 5).Perm [5, 1, 5] ∧
      InOrder id (eventsIterInRange (id : Nat → Nat) [[5, 6], [1, 5]] 1 5) :=
  (eventsIterInRange_spec id [[5, 6], [1, 5]] 1 5 (by unfold InOrder; decide) (by
    unfold Touch NotAfter; decide)).mpr (by simp [Complete, BeginsBy, Precedes])

/-- The logs touch at 5, and the first 5 is lost. -/
theorem eventsIterInRange_touching :
    eventsIterInRange (id : Nat → Nat) [[1, 5], [5, 6]] 5 6 = [5, 6] ∧
      [[1, 5], [5, 6]].flatten.filter (inRange (id : Nat → Nat) 5 6) = [5, 5, 6] := by
  decide

end Kinet.Wal
