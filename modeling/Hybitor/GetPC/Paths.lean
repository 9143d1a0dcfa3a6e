import Hybitor.GetPC.Search

/-!
# GetPC.Paths — backward paths and their nearest markers

What `getPC` is for, stated without its worklist. A backward path from `p` first scans `p`'s block
before `p` (`p` itself when it opens its block), then repeatedly moves to a non-empty predecessor
and scans it from its last instruction, and it stops at the first call to `newpc`: the path's
nearest marker. A path is recorded here by its number of moves and the last iterator it scans;
its nearest marker, if it has one, is what that last scan finds.
-/

namespace Hybitor

namespace Function

/-- `F.BackwardPath p n c`: some backward path from `p` moves `n` times to a predecessor and
scans `c` last, every scan before `c` having met no `newpc` call. -/
inductive BackwardPath (F : Function) (p : Position) : Nat → Cursor → Prop
  | first : BackwardPath F p 0 (seed p)
  | pred {n : Nat} {c : Cursor} {q : BlockId} : BackwardPath F p n c → F.scan c = none →
      q ∈ (F.block c.block).preds → (F.block q).insts ≠ [] →
      BackwardPath F p (n + 1) (F.rbegin q)

variable {F : Function} {p : Position} {n : Nat} {c : Cursor}

theorem BackwardPath.zero (h : F.BackwardPath p 0 c) : c = seed p := by
  cases h; rfl

theorem BackwardPath.succ (h : F.BackwardPath p (n + 1) c) :
    ∃ c₀ q, F.BackwardPath p n c₀ ∧ F.scan c₀ = none ∧ q ∈ (F.block c₀.block).preds ∧
      (F.block q).insts ≠ [] ∧ c = F.rbegin q := by
  cases h with
  | pred h₀ hs hq hne => exact ⟨_, _, h₀, hs, hq, hne, rfl⟩

/-- Every scan of a path covers at least one instruction. -/
theorem BackwardPath.upTo_pos (h : F.BackwardPath p n c) : 0 < c.upTo := by
  cases h with
  | first => simp only [seed]; split <;> omega
  | pred _ _ _ hne => exact List.length_pos.mpr hne

/-- When the seed's own scan meets a marker, the seed is the only path. -/
theorem BackwardPath.eq_seed (h : F.BackwardPath p n c) (hs : (F.scan (seed p)).isSome) :
    n = 0 ∧ c = seed p := by
  induction h with
  | first => exact ⟨rfl, rfl⟩
  | pred _ hs₀ _ _ ih => obtain ⟨-, rfl⟩ := ih; simp [hs₀] at hs

end Function

end Hybitor
