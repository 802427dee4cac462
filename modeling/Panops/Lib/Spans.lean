import Mathlib.Order.Basic

/-!
# Spans in order

Lists of things that start and stop on a line.  Lists that keep to adjacent
stretches of the line can be put one after the other.
-/

namespace Panops
namespace Lib
namespace Spans

variable {α τ : Type} [Preorder τ] (start stop : α → τ)

/-- In order of their starts, and none reaching out of `lo` to `hi`. -/
structure Within (lo hi : τ) (xs : List α) : Prop where
  sorted : xs.Pairwise fun a b => start a ≤ start b
  ordered : ∀ x ∈ xs, start x ≤ stop x
  from_lo : ∀ x ∈ xs, lo ≤ start x
  to_hi : ∀ x ∈ xs, stop x ≤ hi

variable {start stop} {lo mid hi : τ}

theorem Within.nil : Within start stop lo hi [] where
  sorted := List.Pairwise.nil
  ordered := by simp
  from_lo := by simp
  to_hi := by simp

theorem Within.append {xs ys : List α} (hxs : Within start stop lo mid xs)
    (hys : Within start stop mid hi ys) (hlo : lo ≤ mid) (hhi : mid ≤ hi) :
    Within start stop lo hi (xs ++ ys) where
  sorted := by
    refine List.pairwise_append.mpr ⟨hxs.sorted, hys.sorted, fun x hx y hy => ?_⟩
    calc start x ≤ stop x := hxs.ordered x hx
      _ ≤ mid := hxs.to_hi x hx
      _ ≤ start y := hys.from_lo y hy
  ordered := by
    intro x hx
    rcases List.mem_append.mp hx with hx | hx
    · exact hxs.ordered x hx
    · exact hys.ordered x hx
  from_lo := by
    intro x hx
    rcases List.mem_append.mp hx with hx | hx
    · exact hxs.from_lo x hx
    · exact le_trans hlo (hys.from_lo x hx)
  to_hi := by
    intro x hx
    rcases List.mem_append.mp hx with hx | hx
    · exact le_trans (hxs.to_hi x hx) hhi
    · exact hys.to_hi x hx

theorem Within.mono {lo' hi' : τ} {xs : List α} (hxs : Within start stop lo hi xs)
    (hlo : lo' ≤ lo) (hhi : hi ≤ hi') : Within start stop lo' hi' xs where
  sorted := hxs.sorted
  ordered := hxs.ordered
  from_lo := fun x hx => le_trans hlo (hxs.from_lo x hx)
  to_hi := fun x hx => le_trans (hxs.to_hi x hx) hhi

end Spans
end Lib
end Panops
