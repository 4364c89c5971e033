import Mathlib.Logic.Function.Iterate

/-!
Parent links. From the nodes of a tree the links lead to its root, and go on
doing so when links are cut and tied to the root, and when leaves come and go.
-/
namespace Psys.Climbing
universe u

variable {α : Type u} {inside inside' : α → Prop} {parent parent' : α → α} {root : α}

/-- Following the links through nodes of the tree leads from a node to the root. -/
inductive Climbs (inside : α → Prop) (parent : α → α) (root : α) : α → Prop
  | root : Climbs inside parent root root
  | up {a : α} : inside a → Climbs inside parent root (parent a) → Climbs inside parent root a

/-- The root is found after some number of links. -/
theorem Climbs.iterate {a : α} (climbs : Climbs inside parent root a) : ∃ n, parent^[n] a = root := by
  induction climbs with
  | root => exact ⟨0,rfl⟩
  | up _ _ ih =>
    obtain ⟨n,found⟩ := ih
    exact ⟨n + 1,found⟩

/-- The new links of a tree: an old node keeps its link or is tied to the root,
    and a new one is tied to an old one. -/
structure Relinked (inside inside' : α → Prop) (parent parent' : α → α) (root : α) : Prop where
  old : ∀ a, inside' a → a ≠ root → inside a → parent' a = root ∨ parent' a = parent a
  new : ∀ a, inside' a → a ≠ root → ¬ inside a → inside (parent' a)
  /-- No link leads out of the tree. -/
  closed : ∀ a, inside' a → a ≠ root → inside' (parent' a)

/-- What is left of an old path. -/
theorem Climbs.relink (relinked : Relinked inside inside' parent parent' root) {a : α}
    (climbs : Climbs inside parent root a) (stays : inside' a) : Climbs inside' parent' root a := by
  induction climbs with
  | root => exact .root
  | @up a before _ ih =>
    by_cases top : a = root
    · exact top ▸ .root
    · refine .up stays ?_
      have next := relinked.closed a stays top
      rcases relinked.old a stays top before with cut | kept
      · rw [cut]; exact .root
      · rw [kept] at next ⊢; exact ih next

theorem Relinked.climbs (relinked : Relinked inside inside' parent parent' root)
    (climbs : ∀ a, inside a → Climbs inside parent root a) {a : α} (here : inside' a) :
    Climbs inside' parent' root a := by
  by_cases old : inside a
  · exact (climbs a old).relink relinked here
  · by_cases top : a = root
    · exact top ▸ .root
    · have below := relinked.new a here top old
      exact .up here ((climbs _ below).relink relinked (relinked.closed a here top))

end Psys.Climbing
