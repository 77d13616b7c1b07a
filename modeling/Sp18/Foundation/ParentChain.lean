import Mathlib.Data.Nat.Notation
import Mathlib.Logic.Basic

/-!
# Chains of parent pointers

A node of a forest that is given by parent pointers is healthy when its chain of parents passes
acceptable nodes only and ends at the root. `ChainTo ok parent root depth a` says this with the
number of steps to the root.

The depth of a node is determined by the pointers (`depth_unique`), so that the nodes of the chain
of `a` other than `a` itself have a smaller depth. This is what makes a chain survive a change to
one node: a change outside the chain leaves it alone (`ChainTo.congr`), and a node may be taken
away without harm to the chain of its parent (`ChainTo.congr_parent`).
-/

set_option autoImplicit false
set_option relaxedAutoImplicit false

namespace Sp18.Foundation

variable {Node : Type*}

/-- The parents of a node lead to the root in `depth` steps, through acceptable nodes only. -/
inductive ChainTo (ok : Node → Prop) (parent : Node → Node) (root : Node) : ℕ → Node → Prop
  | root (hroot : ok root) : ChainTo ok parent root 0 root
  | step {depth : ℕ} {a : Node} (ha : ok a) (hne : a ≠ root)
      (hparent : ChainTo ok parent root depth (parent a)) : ChainTo ok parent root (depth + 1) a

namespace ChainTo

variable {ok ok' : Node → Prop} {parent parent' : Node → Node} {root : Node}

theorem ok_self {depth : ℕ} {a : Node} (h : ChainTo ok parent root depth a) : ok a := by
  cases h with
  | root hroot => exact hroot
  | step ha _ _ => exact ha

theorem ok_root {depth : ℕ} {a : Node} (h : ChainTo ok parent root depth a) : ok root := by
  induction h with
  | root hroot => exact hroot
  | step _ _ _ ih => exact ih

/-- Below the root a chain goes on with the parent. -/
theorem of_ne_root {depth : ℕ} {a : Node} (h : ChainTo ok parent root depth a) (hne : a ≠ root) :
    ∃ depth', depth = depth' + 1 ∧ ChainTo ok parent root depth' (parent a) := by
  cases h with
  | root _ => exact absurd rfl hne
  | step _ _ hparent => exact ⟨_, rfl, hparent⟩

/-- The number of steps to the root is determined by the pointers. -/
theorem depth_unique {depth depth' : ℕ} {a : Node} (h : ChainTo ok parent root depth a)
    (h' : ChainTo ok parent root depth' a) : depth = depth' := by
  induction h generalizing depth' with
  | root _ =>
    cases h' with
    | root _ => rfl
    | step _ hne _ => exact absurd rfl hne
  | step _ hne _ ih =>
    obtain ⟨depth'', rfl, hparent⟩ := h'.of_ne_root hne
    rw [ih hparent]

/-- A chain stays where its nodes, which have at most its depth, stay acceptable and keep their
parents. -/
theorem congr_of_depth {depth : ℕ} {a : Node} (h : ChainTo ok parent root depth a)
    (hkeep : ∀ (b : Node) (below : ℕ), below ≤ depth → ChainTo ok parent root below b →
      ok' b ∧ parent' b = parent b) : ChainTo ok' parent' root depth a := by
  induction h with
  | root hroot => exact .root (hkeep root 0 (Nat.le_refl 0) (.root hroot)).1
  | @step depth a ha hne hparent ih =>
    obtain ⟨ha', hparent'⟩ := hkeep a (depth + 1) (Nat.le_refl _) (.step ha hne hparent)
    refine .step ha' hne ?_
    rw [hparent']
    exact ih fun b below hbelow hb ↦ hkeep b below (Nat.le_succ_of_le hbelow) hb

/-- A chain stays where all nodes that were acceptable stay so and keep their parents. -/
theorem congr {depth : ℕ} {a : Node} (h : ChainTo ok parent root depth a)
    (hkeep : ∀ b, ok b → ok' b ∧ parent' b = parent b) : ChainTo ok' parent' root depth a :=
  h.congr_of_depth fun b _ _ hb ↦ hkeep b hb.ok_self

/-- The parent of a node keeps its chain where everything but the node itself stays. -/
theorem congr_parent {depth : ℕ} {a : Node} (h : ChainTo ok parent root (depth + 1) a)
    (hkeep : ∀ b, b ≠ a → ok b → ok' b ∧ parent' b = parent b) :
    ChainTo ok' parent' root depth (parent a) := by
  cases h with
  | step ha hne hparent =>
    refine hparent.congr_of_depth fun b below hbelow hb ↦ hkeep b ?_ hb.ok_self
    rintro rfl
    -- the node itself has a greater depth than the nodes of its parent's chain
    have hdepth := hb.depth_unique (.step ha hne hparent)
    omega

end ChainTo

end Sp18.Foundation
