import Mathlib.Data.List.Infix
import Mathlib.Tactic.Ring

/-!
# Parent-linked forests

Nodes are stored under keys and each node names the key of its parent; a parent
need not be stored.  `PathTo parent get root i l` says that following parent
links from key `i` visits the stored nodes `l` and then arrives at `root`.
-/

namespace Forest

open List

variable {ι β : Type} {parent : β → ι} {get get' : ι → Option β} {root : ι}

/-- Following parent links from `i` visits `l` and then arrives at `root`. -/
inductive PathTo (parent : β → ι) (get : ι → Option β) (root : ι) : ι → List β → Prop
  | last {i : ι} {b : β} (hget : get i = some b) (hroot : parent b = root) :
      PathTo parent get root i [b]
  | step {i : ι} {b : β} {l : List β} (hget : get i = some b) (hne : parent b ≠ root)
      (hrest : PathTo parent get root (parent b) l) : PathTo parent get root i (b :: l)

variable {i : ι} {b : β}

namespace PathTo

variable {l : List β}

lemma get_head (h : PathTo parent get root i (b :: l)) :
    get i = some b := by
  cases h with
  | last hget _ | step hget _ _ => exact hget

variable {i : ι} {l : List β}

lemma exists_cons (h : PathTo parent get root i l) : ∃ b l', l = b :: l' ∧ get i = some b := by
  cases h with
  | last hget _ | step hget _ _ => exact ⟨_, _, rfl, hget⟩

/-- Either the head is a child of the root or the rest is its parent's path. -/
lemma tail_cases (h : PathTo parent get root i (b :: l)) :
    (parent b = root ∧ l = []) ∨ (parent b ≠ root ∧ PathTo parent get root (parent b) l) := by
  cases h with
  | last _ hroot => exact Or.inl ⟨hroot, rfl⟩
  | step _ hne hrest => exact Or.inr ⟨hne, hrest⟩

/-- A key has at most one path. -/
theorem unique {l' : List β} (h : PathTo parent get root i l)
    (h' : PathTo parent get root i l') : l = l' := by
  induction h generalizing l' with
  | last hget hroot =>
    cases h' with
    | last hget' _ =>
      rw [hget] at hget'
      cases hget'
      rfl
    | step hget' hne' _ =>
      rw [hget] at hget'
      cases hget'
      exact absurd hroot hne'
  | step hget hne _ ih =>
    cases h' with
    | last hget' hroot' =>
      rw [hget] at hget'
      cases hget'
      exact absurd hroot' hne
    | step hget' _ hrest' =>
      rw [hget] at hget'
      cases hget'
      rw [ih hrest']

/-- A path depends only on the nodes on it. -/
theorem congr_of_mem (h : PathTo parent get root i l)
    (hsub : ∀ j b, get j = some b → b ∈ l → get' j = some b) :
    PathTo parent get' root i l := by
  induction h with
  | last hget hroot => exact .last (hsub _ _ hget (by simp)) hroot
  | step hget hne _ ih =>
    refine .step (hsub _ _ hget (by simp)) hne (ih ?_)
    intro j b hj hmem
    exact hsub j b hj (mem_cons_of_mem _ hmem)

/-- Storing more nodes keeps every path. -/
lemma mono (h : PathTo parent get root i l)
    (hsub : ∀ j b, get j = some b → get' j = some b) : PathTo parent get' root i l :=
  h.congr_of_mem fun j b hj _ => hsub j b hj

/-- A node on a path starts a path of its own. -/
theorem suffix_of_mem (h : PathTo parent get root i l)
    (hmem : b ∈ l) : ∃ j l', PathTo parent get root j (b :: l') ∧ (b :: l') <:+ l := by
  induction h with
  | last hget hroot =>
    rw [mem_singleton] at hmem
    subst hmem
    exact ⟨_, [], .last hget hroot, suffix_refl _⟩
  | step hget hne hrest ih =>
    rw [mem_cons] at hmem
    rcases hmem with hb | hmem
    · subst hb
      exact ⟨_, _, .step hget hne hrest, suffix_refl _⟩
    · obtain ⟨j, l', hpath, hsuffix⟩ := ih hmem
      exact ⟨j, l', hpath, hsuffix.trans (suffix_cons _ _)⟩

/-- The part of a path from one of its nodes on is a path. -/
lemma of_append {l' : List β}
    (h : PathTo parent get root i (l ++ b :: l')) : ∃ j, PathTo parent get root j (b :: l') := by
  induction l generalizing i with
  | nil => exact ⟨i, h⟩
  | cons c l ih =>
    rcases h.tail_cases with ⟨_, hnil⟩ | ⟨_, hrest⟩
    · simp at hnil
    · exact ih hrest

lemma get_of_mem (h : PathTo parent get root i l) (hmem : b ∈ l) : ∃ j, get j = some b := by
  obtain ⟨j, l', hpath, _⟩ := h.suffix_of_mem hmem
  exact ⟨j, hpath.get_head⟩

/-- Paths are no longer than the rank of their key. -/
lemma length_le_rank {rank : ι → ℕ} (hrank : ∀ j b, get j = some b → rank (parent b) < rank j)
    {i : ι} {l : List β} (h : PathTo parent get root i l) : l.length ≤ rank i := by
  induction h with
  | last hget _ =>
    have hlt := hrank _ _ hget
    rw [length_singleton]
    omega
  | step hget _ _ ih =>
    have hlt := hrank _ _ hget
    rw [length_cons]
    omega

end PathTo

/-- If every marked node has the root or a marked node as parent, then every
marked node has a path of marked nodes. -/
theorem exists_path_of_parent_closed (marked : β → Prop) {rank : ι → ℕ}
    (hrank : ∀ j b, get j = some b → rank (parent b) < rank j)
    (hclosed : ∀ j b, get j = some b → marked b →
      parent b = root ∨ ∃ b', get (parent b) = some b' ∧ marked b')
    (hget : get i = some b) (hmark : marked b) :
    ∃ l, PathTo parent get root i (b :: l) ∧ ∀ b' ∈ b :: l, marked b' := by
  induction hn : rank i using Nat.strong_induction_on generalizing i b with
  | _ n ih =>
    by_cases hroot : parent b = root
    · refine ⟨[], .last hget hroot, ?_⟩
      intro b' hb'
      rw [mem_singleton] at hb'
      rw [hb']
      exact hmark
    · rcases hclosed i b hget hmark with h | ⟨b', hget', hmark'⟩
      · exact absurd h hroot
      · have hlt : rank (parent b) < n := hn ▸ hrank i b hget
        obtain ⟨l, hpath, hall⟩ := ih _ hlt hget' hmark' rfl
        refine ⟨b' :: l, .step hget hroot hpath, ?_⟩
        intro c hc
        rw [mem_cons] at hc
        rcases hc with rfl | hc
        · exact hmark
        · exact hall c hc

end Forest
