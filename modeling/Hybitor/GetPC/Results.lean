import Mathlib.Data.List.GetD
import Hybitor.GetPC.Levels
import Hybitor.GetPC.Termination

/-!
# GetPC.Results — what `getPC` returns

`loop_spec` and `getPC_terminates` together say what `getPC` returns for every function and
instruction: its Dispatcher assertion fires only on a malformed graph, it finds the unique
nearest marker when there is one, and a found pair is the nearest marker of every shortest
marker-meeting path. It is not the nearest marker of every path: once the first marker is found
the search queues no more predecessors, so a marker one level deeper on another path goes
unseen (`getPC_misses_deeper_marker`). The answer `(0, 0)` comes back when no path meets a
marker or two paths meet different ones, and it does come back when two shortest such paths
disagree (`getPC_zero`).
-/

namespace Hybitor

namespace Function

variable {F : Function} {dispatcher : Option BlockId} {p : Position}

/-! ## 1. From the loop to `getPC` -/

/-- `getPC` is `finish` applied to a result of the loop that `loop_spec` describes. -/
theorem getPC_eq_spec (F : Function) (dispatcher : Option BlockId) (p : Position) :
    ∃ r, F.getPC dispatcher p = some (finish r) ∧ F.LoopSpec dispatcher p r ∧
      F.LevelSpec dispatcher p r := by
  obtain ⟨r, hr⟩ := Option.isSome_iff_exists.mp
    (@loop_isSome F dispatcher (F.blocks.length + 2) (start p) ⟨List.nodup_nil, by simp [start]⟩
      (by simp [measure, start]))
  exact ⟨r, by simp [getPC, hr], loop_spec hr⟩

theorem getPC_eq (F : Function) (dispatcher : Option BlockId) (p : Position) :
    ∃ r, F.getPC dispatcher p = some (finish r) ∧ F.LoopSpec dispatcher p r :=
  let ⟨r, h, hs, _⟩ := F.getPC_eq_spec dispatcher p
  ⟨r, h, hs⟩

/-- Every `newpc` call of `F` has a nonzero size. -/
def SizesNonZero (F : Function) : Prop :=
  ∀ B ∈ F.blocks, ∀ i ∈ B.insts, ∀ a ∈ i.newpcArgs, a.2 ≠ 0

/-- Every block that has the Dispatcher among its predecessors begins with a `newpc` call. -/
def SuccessorsBeginWithNewPC (F : Function) (dispatcher : Option BlockId) : Prop :=
  ∀ B ∈ F.blocks, F.HasDispatcherPred dispatcher B.id → (B.insts.head? >>= (·.newpcArgs)).isSome

instance (F : Function) : Decidable F.SizesNonZero :=
  inferInstanceAs (Decidable (∀ B ∈ F.blocks, _))

instance (F : Function) (dispatcher : Option BlockId) :
    Decidable (F.SuccessorsBeginWithNewPC dispatcher) :=
  inferInstanceAs (Decidable (∀ B ∈ F.blocks, _))

/-- A marker a scan finds is a `newpc` call of a block of `F`. -/
theorem scan_mem {c : Cursor} {M : Marker} (h : F.scan c = some M) :
    ∃ B ∈ F.blocks, ∃ i ∈ B.insts, i.newpcArgs = some (M.pc, M.size) := by
  obtain ⟨-, -, hi⟩ := scanFrom_some h
  have hmem : (F.block c.block).insts.getD M.index .other ∈ (F.block c.block).insts := by
    by_cases hlt : M.index < (F.block c.block).insts.length
    · rw [List.getD_eq_getElem _ _ hlt]; exact List.getElem_mem hlt
    · rw [List.getD_eq_default _ _ (Nat.le_of_not_lt hlt)] at hi; cases hi
  exact ⟨_, F.block_mem (List.ne_nil_of_mem hmem), _, hmem, hi⟩

theorem scan_size_ne_zero (hF : F.SizesNonZero) {c : Cursor} {M : Marker}
    (h : F.scan c = some M) : M.size ≠ 0 := by
  obtain ⟨B, hB, i, hi, ha⟩ := scan_mem h
  exact hF B hB i hi _ ha

/-- On a graph whose Dispatcher successors begin with a marker, a path never scans a
successor of the Dispatcher without meeting a marker. -/
theorem scan_isSome_of_dispatcherPred (hF : F.SuccessorsBeginWithNewPC dispatcher) {n : Nat}
    {c : Cursor} (hc : F.BackwardPath p n c) (hd : F.HasDispatcherPred dispatcher c.block) :
    (F.scan c).isSome := by
  have ⟨_, _, hdm⟩ := hd
  have hhead := hF _ (F.block_mem_of_preds (List.ne_nil_of_mem hdm)) (by simpa using hd)
  cases hi : (F.block c.block).insts with
  | nil => simp [hi] at hhead
  | cons i is =>
    refine @scanFrom_isSome _ _ 0 _ ?_ hc.upTo_pos
    simpa [hi] using hhead

theorem finish_eq_dispatcherReached {r : Except Exit (Option Marker)}
    (h : finish r = .error .dispatcherReached) : r = .error .dispatcherReached := by
  rcases r with (_ | _) | (_ | M)
  · cases h
  · rfl
  · cases h
  · by_cases hM : M.size = 0 <;> simp [finish, hM] at h

theorem finish_eq_ok {r : Except Exit (Option Marker)} {a s : UInt64}
    (h : finish r = .ok (a, s)) (hs : s ≠ 0) : ∃ M, r = .ok (some M) ∧ M.pc = a ∧ M.size = s := by
  rcases r with (_ | _) | (_ | M)
  · simp only [finish, Except.ok.injEq, Prod.mk.injEq] at h; exact absurd h.2.symm hs
  · cases h
  · simp only [finish, Except.ok.injEq, Prod.mk.injEq] at h; exact absurd h.2.symm hs
  · by_cases hM : M.size = 0
    · simp [finish, hM] at h
    · simp only [finish, ne_eq, hM, not_false_eq_true, ite_true, Except.ok.injEq,
        Prod.mk.injEq] at h
      exact ⟨M, rfl, h⟩

/-! ## 2. `getPC` where its answer is determined by the paths -/

/-- When no path meets a marker, a path reaching a successor of the Dispatcher makes `getPC`
fail its assertion, ... -/
theorem getPC_of_no_marker_of_dispatcher
    (hnone : ∀ n c, F.BackwardPath p n c → F.scan c = none)
    (hadj : ∃ n c, F.BackwardPath p n c ∧ F.HasDispatcherPred dispatcher c.block) :
    F.getPC dispatcher p = some (.error .dispatcherReached) := by
  obtain ⟨r, hget, hspec⟩ := F.getPC_eq dispatcher p
  rw [hget]
  obtain ⟨n, c, hc, hd⟩ := hadj
  rcases r with (_ | _) | (_ | M)
  · obtain ⟨_, _, _, _, _, _, h₁, hs₁, -⟩ := hspec
    simp [hnone _ _ h₁] at hs₁
  · rfl
  · exact absurd hd (hspec n c hc).2
  · obtain ⟨_, _, h₁, hs₁, -⟩ := hspec
    simp [hnone _ _ h₁] at hs₁

/-- ... and otherwise it returns `(0, 0)`. -/
theorem getPC_of_no_marker (hnone : ∀ n c, F.BackwardPath p n c → F.scan c = none)
    (hadj : ∀ n c, F.BackwardPath p n c → ¬ F.HasDispatcherPred dispatcher c.block) :
    F.getPC dispatcher p = some (.ok (0, 0)) := by
  obtain ⟨r, hget, hspec⟩ := F.getPC_eq dispatcher p
  rw [hget]
  rcases r with (_ | _) | (_ | M)
  · rfl
  · obtain ⟨n, c, hc, -, hd⟩ := hspec
    exact absurd hd (hadj n c hc)
  · rfl
  · obtain ⟨_, _, h₁, hs₁, -⟩ := hspec
    simp [hnone _ _ h₁] at hs₁

/-- When `M` is the nearest marker of every path that meets one, and no path reaches a successor
of the Dispatcher before a marker, `getPC` finishes on `M`. -/
theorem getPC_of_unique_marker {M : Marker}
    (hdisp : ∀ n c, F.BackwardPath p n c → F.scan c = none →
      ¬ F.HasDispatcherPred dispatcher c.block)
    (hM : ∃ n c, F.BackwardPath p n c ∧ F.scan c = some M)
    (huniq : ∀ n c M', F.BackwardPath p n c → F.scan c = some M' → M' = M) :
    F.getPC dispatcher p = some (finish (.ok (some M))) := by
  obtain ⟨r, hget, hspec⟩ := F.getPC_eq dispatcher p
  rw [hget]
  rcases r with (_ | _) | (_ | M')
  · obtain ⟨_, _, _, _, _, _, h₁, hs₁, h₂, hs₂, hne⟩ := hspec
    exact absurd ((huniq _ _ _ h₁ hs₁).trans (huniq _ _ _ h₂ hs₂).symm) hne
  · obtain ⟨n, c, hc, hs, hd⟩ := hspec
    exact absurd hd (hdisp n c hc hs)
  · obtain ⟨n, c, hc, hs⟩ := hM
    simp [(hspec n c hc).1] at hs
  · obtain ⟨_, _, h₁, hs₁, -⟩ := hspec
    rw [huniq _ _ _ h₁ hs₁]

/-! ## 3. The results -/

/-- `getPC` fails its Dispatcher assertion only when a backward path from `p` reaches, before
meeting any marker, a block with the Dispatcher among its predecessors; so it never fails it
when every successor of the Dispatcher begins with a `newpc` call. -/
theorem getPC_dispatcherReached (F : Function) (dispatcher : Option BlockId) (p : Position) :
    (F.getPC dispatcher p = some (.error .dispatcherReached) →
      ∃ n c, F.BackwardPath p n c ∧ F.scan c = none ∧ F.HasDispatcherPred dispatcher c.block) ∧
    (F.SuccessorsBeginWithNewPC dispatcher →
      F.getPC dispatcher p ≠ some (.error .dispatcherReached)) := by
  obtain ⟨r, hget, hspec⟩ := F.getPC_eq dispatcher p
  have hfault : F.getPC dispatcher p = some (.error .dispatcherReached) →
      ∃ n c, F.BackwardPath p n c ∧ F.scan c = none ∧
        F.HasDispatcherPred dispatcher c.block := by
    rw [hget]
    intro h
    obtain rfl := finish_eq_dispatcherReached (Option.some.inj h)
    exact hspec
  refine ⟨hfault, fun hF h => ?_⟩
  obtain ⟨n, c, hc, hs, hd⟩ := hfault h
  simpa [hs] using scan_isSome_of_dispatcherPred hF hc hd

/-- The first instruction of a jump target whose only predecessor is the Dispatcher. -/
theorem getPC_dispatcherReached_example :
    exampleFunction.SuccessorsBeginWithNewPC (some 0) ∧
      exampleFunction.getPC (some 0) ⟨3, 0⟩ ≠ some (.error .dispatcherReached) :=
  ⟨by decide, (getPC_dispatcherReached exampleFunction (some 0) ⟨3, 0⟩).2 (by decide)⟩

/-- `getPC` is complete where its answer is well defined: when no path reaches a successor of
the Dispatcher before a marker and every `newpc` call has a nonzero size, it fails no assertion,
returns `(0, 0)` when no path meets a marker, and returns `M`'s operands when `M` is the
nearest marker of every path that meets one. -/
theorem getPC_complete (F : Function) (dispatcher : Option BlockId) (p : Position)
    (hdisp : ∀ n c, F.BackwardPath p n c → F.scan c = none →
      ¬ F.HasDispatcherPred dispatcher c.block)
    (hsize : F.SizesNonZero) :
    (∃ a s, F.getPC dispatcher p = some (.ok (a, s))) ∧
    ((∀ n c, F.BackwardPath p n c → F.scan c = none) →
      F.getPC dispatcher p = some (.ok (0, 0))) ∧
    (∀ M, (∃ n c, F.BackwardPath p n c ∧ F.scan c = some M) →
      (∀ n c M', F.BackwardPath p n c → F.scan c = some M' → M' = M) →
      F.getPC dispatcher p = some (.ok (M.pc, M.size))) := by
  refine ⟨?_, fun hnone => getPC_of_no_marker hnone fun n c hc => hdisp n c hc (hnone n c hc),
    fun M hM huniq => ?_⟩
  · obtain ⟨r, hget, hspec⟩ := F.getPC_eq dispatcher p
    rw [hget]
    rcases r with (_ | _) | (_ | M)
    · exact ⟨0, 0, rfl⟩
    · obtain ⟨n, c, hc, hs, hd⟩ := hspec
      exact absurd hd (hdisp n c hc hs)
    · exact ⟨0, 0, rfl⟩
    · obtain ⟨_, _, -, hs, -⟩ := hspec
      exact ⟨M.pc, M.size, by simp [finish, scan_size_ne_zero hsize hs]⟩
  · obtain ⟨n, c, hc, hs⟩ := hM
    rw [getPC_of_unique_marker hdisp ⟨n, c, hc, hs⟩ huniq]
    simp [finish, scan_size_ne_zero hsize hs]

theorem getPC_complete_example :
    (∀ n c, exampleFunction.BackwardPath ⟨4, 1⟩ n c → exampleFunction.scan c = none →
      ¬ exampleFunction.HasDispatcherPred (some 0) c.block) ∧ exampleFunction.SizesNonZero ∧
    ∃ a s, exampleFunction.getPC (some 0) ⟨4, 1⟩ = some (.ok (a, s)) :=
  have hdisp : ∀ n c, exampleFunction.BackwardPath ⟨4, 1⟩ n c → exampleFunction.scan c = none →
      ¬ exampleFunction.HasDispatcherPred (some 0) c.block := fun _ _ hc hs hd => by
    simpa [hs] using scan_isSome_of_dispatcherPred (by decide) hc hd
  ⟨hdisp, by decide, (getPC_complete exampleFunction (some 0) ⟨4, 1⟩ hdisp (by decide)).1⟩

/-- A found pair with a nonzero size is the operands of the nearest marker `M` of a path of
some `k` moves, and every path of at most `k` moves that meets a marker meets `M`: every
shortest path that meets a marker meets `M`. -/
theorem getPC_found_nearest (F : Function) (dispatcher : Option BlockId) (p : Position)
    {a s : UInt64} (h : F.getPC dispatcher p = some (.ok (a, s))) (hs : s ≠ 0) :
    ∃ k c M, F.BackwardPath p k c ∧ F.scan c = some M ∧ M.pc = a ∧ M.size = s ∧
      ∀ n ≤ k, ∀ c' M', F.BackwardPath p n c' → F.scan c' = some M' → M' = M := by
  obtain ⟨r, hget, hspec⟩ := F.getPC_eq dispatcher p
  obtain ⟨M, rfl, ha, hs'⟩ := finish_eq_ok (Option.some.inj (hget.symm.trans h)) hs
  obtain ⟨k, c, hc, hsc, hnear⟩ := hspec
  exact ⟨k, c, M, hc, hsc, ha, hs', hnear⟩

/-- Block `0` has predecessors `1` and `2`; `1` opens with a marker at `16`, `2` has none and is
entered from `3`, which opens with a marker at `32`. -/
def deeperMarkers : Function :=
  ⟨[⟨0, [.other], [1, 2]⟩, ⟨1, [.call (some "newpc") 16 4], []⟩, ⟨2, [.other], [3]⟩,
    ⟨3, [.call (some "newpc") 32 4], []⟩], by decide⟩

/-- From the first instruction of block `0`, which holds no marker, `getPC` returns `1`'s marker,
one move away. -/
theorem getPC_found_nearest_example :
    deeperMarkers.getPC none ⟨0, 0⟩ = some (.ok (16, 4)) ∧
    ∃ k c M, deeperMarkers.BackwardPath ⟨0, 0⟩ k c ∧ deeperMarkers.scan c = some M ∧
      M.pc = 16 ∧ M.size = 4 ∧ ∀ n ≤ k, ∀ c' M', deeperMarkers.BackwardPath ⟨0, 0⟩ n c' →
        deeperMarkers.scan c' = some M' → M' = M :=
  ⟨by decide, getPC_found_nearest deeperMarkers none ⟨0, 0⟩ (by decide) (by decide)⟩

/-- From the first instruction of block `0`, `getPC` returns the marker of `1`, although the
path through `2` and `3` meets the marker of `3`: the search stops queueing predecessors once
it has found `1`'s marker, and never scans `3`. -/
theorem getPC_misses_deeper_marker :
    ¬ ∀ (F : Function) (dispatcher : Option BlockId) (p : Position) (a s : UInt64),
      F.getPC dispatcher p = some (.ok (a, s)) → s ≠ 0 →
      ∃ M : Marker, M.pc = a ∧ M.size = s ∧
        ∀ n c M', F.BackwardPath p n c → F.scan c = some M' → M' = M := by
  intro h
  obtain ⟨M, -, -, hM⟩ := h deeperMarkers none ⟨0, 0⟩ 16 4 (by decide) (by decide)
  have h₁ : deeperMarkers.BackwardPath ⟨0, 0⟩ 1 (deeperMarkers.rbegin 1) :=
    .pred .first (by decide) (by decide) (by decide)
  have h₂ : deeperMarkers.BackwardPath ⟨0, 0⟩ 1 (deeperMarkers.rbegin 2) :=
    .pred .first (by decide) (by decide) (by decide)
  have h₃ : deeperMarkers.BackwardPath ⟨0, 0⟩ 2 (deeperMarkers.rbegin 3) :=
    .pred h₂ (by decide) (by decide) (by decide)
  have hA := hM 1 _ ⟨1, 0, 16, 4⟩ h₁ (by decide)
  have hC := hM 2 _ ⟨3, 0, 32, 4⟩ h₃ (by decide)
  exact absurd (hA.trans hC.symm) (by decide)

/-! ## 4. The answer `(0, 0)` -/

/-- What `(0, 0)` means. It comes back only when no path meets a marker or two paths meet
different markers; and when two paths with the fewest moves of any marker-meeting path meet
different markers, and no path reaches a successor of the Dispatcher before a marker, it does
come back, whatever the markers' sizes. -/
theorem getPC_zero (F : Function) (dispatcher : Option BlockId) (p : Position) :
    (F.getPC dispatcher p = some (.ok (0, 0)) →
      (∀ n c, F.BackwardPath p n c → F.scan c = none) ∨
      ∃ n₁ c₁ M₁ n₂ c₂ M₂, F.BackwardPath p n₁ c₁ ∧ F.scan c₁ = some M₁ ∧
        F.BackwardPath p n₂ c₂ ∧ F.scan c₂ = some M₂ ∧ M₁ ≠ M₂) ∧
    ((∀ n c, F.BackwardPath p n c → F.scan c = none →
        ¬ F.HasDispatcherPred dispatcher c.block) →
      ∀ n c₁ M₁ c₂ M₂, F.BackwardPath p n c₁ → F.scan c₁ = some M₁ →
        F.BackwardPath p n c₂ → F.scan c₂ = some M₂ → M₁ ≠ M₂ →
        (∀ m c M, F.BackwardPath p m c → F.scan c = some M → n ≤ m) →
        F.getPC dispatcher p = some (.ok (0, 0))) := by
  obtain ⟨r, hget, hspec⟩ := F.getPC_eq dispatcher p
  rw [hget]
  refine ⟨fun h => ?_, fun hdisp n c₁ M₁ c₂ M₂ h₁ hs₁ h₂ hs₂ hne hmin => ?_⟩
  · rcases r with (_ | _) | (_ | M)
    · exact .inr hspec
    · cases h
    · exact .inl fun n c hc => (hspec n c hc).1
    · simp only [finish, Option.some.injEq] at h
      split at h <;> simp_all
  · rcases r with (_ | _) | (_ | M)
    · rfl
    · obtain ⟨n, c, hc, hs, hd⟩ := hspec
      exact absurd hd (hdisp n c hc hs)
    · simp [(hspec n c₁ h₁).1] at hs₁
    · obtain ⟨k, c, hc, hs, hnear⟩ := hspec
      have hk := hmin k c M hc hs
      exact absurd ((hnear n hk c₁ M₁ h₁ hs₁).trans (hnear n hk c₂ M₂ h₂ hs₂).symm) hne

/-- Block `0` is entered from `1` and from `2`, which open with markers at `16` and `32`. -/
def twoMarkers : Function :=
  ⟨[⟨0, [.other], [1, 2]⟩, ⟨1, [.call (some "newpc") 16 4], []⟩,
    ⟨2, [.call (some "newpc") 32 4], []⟩], by decide⟩

/-- The first instruction of block `0` is reached from two original instructions. -/
theorem getPC_zero_twoMarkers : twoMarkers.getPC none ⟨0, 0⟩ = some (.ok (0, 0)) :=
  (getPC_zero twoMarkers none ⟨0, 0⟩).2 (fun _ _ _ _ ⟨_, h, _⟩ => Option.noConfusion h) 1
    (twoMarkers.rbegin 1) ⟨1, 0, 16, 4⟩ (twoMarkers.rbegin 2) ⟨2, 0, 32, 4⟩
    (.pred .first (by decide) (by decide) (by decide)) (by decide)
    (.pred .first (by decide) (by decide) (by decide)) (by decide) (by decide)
    fun m c M hc hs => Nat.pos_of_ne_zero fun hm => by
      subst hm
      rw [hc.zero, (by decide : twoMarkers.scan (seed ⟨0, 0⟩) = none)] at hs
      cases hs

end Function

end Hybitor
