import Mathlib.Data.List.Forall2
import Mathlib.Data.Nat.Find
import Hybitor.GetPC.Results

/-!
# GetPC.PredOrder — `getPC` and the order of `predecessors(BB)`

LLVM lists a block's predecessors in use-list order, which unrelated edits change. The search is
breadth first, and the order decides only what is scanned within one level. Before the first
marker is found every level is scanned whole, so the order matters in two places only. Take `k`
to be the fewest moves of a path that meets a marker. A path of `k` moves may reach a successor
of the Dispatcher without a marker, and the order decides whether it is scanned before the
marker is found. And once the marker is found, the iterators of level `k + 1` queued so far are
still scanned, so when level `k` holds a single marker the order decides whether another one a
level deeper is seen (`getPC_depends_on_pred_order`).

Outside these two cases (`OrderFree`), the backward paths alone fix how the search stops
(`answerOfPaths_of_spec`), and the paths do not see the order (`getPC_predsPermuted`).
-/

namespace Hybitor

namespace Function

/-! ## 1. Lists of predecessors in another order -/

/-- `F'` has the blocks, instructions and edges of `F`, each block listing its predecessors in
some order. -/
def PredsPermuted (F F' : Function) : Prop :=
  List.Forall₂ (fun B B' => B.id = B'.id ∧ B.insts = B'.insts ∧ B.preds.Perm B'.preds)
    F.blocks F'.blocks

variable {F F' : Function} {dispatcher : Option BlockId} {p : Position}

theorem PredsPermuted.symm (h : F.PredsPermuted F') : F'.PredsPermuted F :=
  List.Forall₂.flip (h.imp fun _ _ ⟨hi, hs, hp⟩ => ⟨hi.symm, hs.symm, hp.symm⟩)

theorem PredsPermuted.block (h : F.PredsPermuted F') (b : BlockId) :
    (F'.block b).insts = (F.block b).insts ∧ (F'.block b).preds.Perm (F.block b).preds := by
  unfold Function.block
  unfold PredsPermuted at h
  generalize F.blocks = l, F'.blocks = l' at h ⊢
  induction h with
  | nil => exact ⟨rfl, .refl _⟩
  | cons hr _ ih =>
    obtain ⟨hid, hin, hp⟩ := hr
    simp only [List.find?_cons, hid]
    split
    · exact ⟨hin.symm, hp.symm⟩
    · exact ih

theorem PredsPermuted.scan (h : F.PredsPermuted F') (c : Cursor) : F'.scan c = F.scan c := by
  simp only [Function.scan, (h.block c.block).1]

theorem PredsPermuted.rbegin (h : F.PredsPermuted F') (b : BlockId) : F'.rbegin b = F.rbegin b := by
  simp only [Function.rbegin, (h.block b).1]

theorem PredsPermuted.hasDispatcherPred (h : F.PredsPermuted F') (b : BlockId) :
    F'.HasDispatcherPred dispatcher b ↔ F.HasDispatcherPred dispatcher b := by
  simp only [HasDispatcherPred, (h.block b).2.mem_iff]

theorem PredsPermuted.backwardPath (h : F.PredsPermuted F') {n : Nat} {c : Cursor}
    (hc : F.BackwardPath p n c) : F'.BackwardPath p n c := by
  induction hc with
  | first => exact .first
  | pred _ hs hq hne ih =>
    rw [← h.rbegin]
    exact .pred ih (by rwa [h.scan]) ((h.block _).2.mem_iff.mpr hq) (by rwa [(h.block _).1])

theorem PredsPermuted.backwardPath_iff (h : F.PredsPermuted F') {n : Nat} {c : Cursor} :
    F'.BackwardPath p n c ↔ F.BackwardPath p n c :=
  ⟨h.symm.backwardPath, h.backwardPath⟩

theorem PredsPermuted.spec_iff (h : F.PredsPermuted F') {r : Except Exit (Option Marker)} :
    F'.LoopSpec dispatcher p r ∧ F'.LevelSpec dispatcher p r ↔
      F.LoopSpec dispatcher p r ∧ F.LevelSpec dispatcher p r := by
  rcases r with (_ | _) | (_ | M) <;>
    simp only [LoopSpec, LevelSpec, Clear, h.backwardPath_iff, h.scan, h.hasDispatcherPred]

/-! ## 2. What the paths fix when the order cannot matter -/

/-- `k` is the fewest moves of a backward path from `p` that meets a marker. -/
def FirstMarkerLevel (F : Function) (p : Position) (k : Nat) : Prop :=
  (∃ c M, F.BackwardPath p k c ∧ F.scan c = some M) ∧
    ∀ n < k, ∀ c, F.BackwardPath p n c → F.scan c = none

/-- A path reaches a successor of the Dispatcher, without a marker, before any path meets one. -/
def DispatcherFirst (F : Function) (dispatcher : Option BlockId) (p : Position) : Prop :=
  ∃ n c, F.BackwardPath p n c ∧ F.scan c = none ∧ F.HasDispatcherPred dispatcher c.block ∧
    ∀ m < n, ∀ c', F.BackwardPath p m c' → F.scan c' = none

/-- The order of predecessors cannot matter at `p`: with `k` the fewest moves of a path that
meets a marker, no path of `k` moves reaches a successor of the Dispatcher without meeting a
marker, and when the paths of `k` moves meet a single marker `M`, every path of `k + 1` moves
that meets a marker meets `M`. -/
def OrderFree (F : Function) (dispatcher : Option BlockId) (p : Position) : Prop :=
  ∀ k, F.FirstMarkerLevel p k →
    (∀ c, F.BackwardPath p k c → F.scan c = none → ¬ F.HasDispatcherPred dispatcher c.block) ∧
    ∀ M, (∀ c M', F.BackwardPath p k c → F.scan c = some M' → M' = M) →
      ∀ c M', F.BackwardPath p (k + 1) c → F.scan c = some M' → M' = M

/-- How the backward paths say the search stops: the assertion when a path reaches a successor
of the Dispatcher before any path meets a marker; otherwise no marker when no path meets one,
the marker when the shortest marker-meeting paths meet one marker, and `{ 0, 0 }` early when
they meet more. -/
def AnswerOfPaths (F : Function) (dispatcher : Option BlockId) (p : Position) :
    Except Exit (Option Marker) → Prop
  | .error .dispatcherReached => F.DispatcherFirst dispatcher p
  | .error .ambiguous => ¬ F.DispatcherFirst dispatcher p ∧ ∃ k, F.FirstMarkerLevel p k ∧
      ¬ ∃ M, ∀ c M', F.BackwardPath p k c → F.scan c = some M' → M' = M
  | .ok none => ¬ F.DispatcherFirst dispatcher p ∧ ∀ n c, F.BackwardPath p n c → F.scan c = none
  | .ok (some M) => ¬ F.DispatcherFirst dispatcher p ∧ ∃ k, F.FirstMarkerLevel p k ∧
      ∀ c M', F.BackwardPath p k c → F.scan c = some M' → M' = M

theorem FirstMarkerLevel.le {k n : Nat} {c : Cursor} {M : Marker} (hk : F.FirstMarkerLevel p k)
    (hc : F.BackwardPath p n c) (hs : F.scan c = some M) : k ≤ n :=
  Nat.le_of_not_lt fun hn => by rw [hk.2 n hn c hc] at hs; cases hs

theorem FirstMarkerLevel.unique {k k' : Nat} (hk : F.FirstMarkerLevel p k)
    (hk' : F.FirstMarkerLevel p k') : k = k' :=
  let ⟨_, _, hc, hs⟩ := hk.1
  let ⟨_, _, hc', hs'⟩ := hk'.1
  Nat.le_antisymm (hk.le hc' hs') (hk'.le hc hs)

theorem FirstMarkerLevel.not_noMarker {k : Nat} (hk : F.FirstMarkerLevel p k)
    (hnone : ∀ n c, F.BackwardPath p n c → F.scan c = none) : False :=
  let ⟨c, _, hc, hs⟩ := hk.1
  Option.noConfusion ((hnone k c hc).symm.trans hs)

theorem Clear.firstMarkerLevel {k : Nat} {c : Cursor} {M : Marker}
    (hclear : F.Clear dispatcher p k) (hc : F.BackwardPath p k c) (hs : F.scan c = some M) :
    F.FirstMarkerLevel p k :=
  ⟨⟨c, M, hc, hs⟩, fun n hn c hc => (hclear n hn c hc).1⟩

theorem exists_firstMarkerLevel (h : ∃ n c M, F.BackwardPath p n c ∧ F.scan c = some M) :
    ∃ k, F.FirstMarkerLevel p k := by
  classical
  refine ⟨Nat.find h, Nat.find_spec h, fun n hn c hc => ?_⟩
  cases hs : F.scan c with
  | none => rfl
  | some M => exact absurd (Nat.find_min' h ⟨c, M, hc, hs⟩) (Nat.not_le.mpr hn)

/-- A search that found a marker at a clear level `k` met no successor of the Dispatcher first:
below `k` every path is clear, above it a marker was met, and at `k` `OrderFree` excludes it. -/
theorem OrderFree.not_dispatcherFirst (hfree : F.OrderFree dispatcher p) {k : Nat} {c : Cursor}
    {M : Marker} (hclear : F.Clear dispatcher p k) (hc : F.BackwardPath p k c)
    (hs : F.scan c = some M) : ¬ F.DispatcherFirst dispatcher p := by
  rintro ⟨n, c₀, h₀, hs₀, hd, hlow⟩
  rcases Nat.lt_trichotomy n k with hn | rfl | hn
  · exact (hclear n hn c₀ h₀).2 hd
  · exact (hfree n (hclear.firstMarkerLevel hc hs)).1 c₀ h₀ hs₀ hd
  · rw [hlow k hn c hc] at hs
    cases hs

/-- Under `OrderFree`, the way the search stops is the one the backward paths fix. -/
theorem answerOfPaths_of_spec (hfree : F.OrderFree dispatcher p) {r : Except Exit (Option Marker)}
    (h : F.LoopSpec dispatcher p r ∧ F.LevelSpec dispatcher p r) :
    F.AnswerOfPaths dispatcher p r := by
  obtain ⟨hl, hv⟩ := h
  rcases r with (_ | _) | (_ | M)
  · obtain ⟨k, c, M, c', M', hclear, hc, hs, hc', hs', hne⟩ := hv
    have hk := hclear.firstMarkerLevel hc hs
    refine ⟨hfree.not_dispatcherFirst hclear hc hs, k, hk, fun ⟨M₀, hM₀⟩ => hne ?_⟩
    rw [hM₀ c M hc hs]
    rcases hc' with hc' | hc'
    · exact hM₀ c' M' hc' hs'
    · exact (hfree k hk).2 M₀ hM₀ c' M' hc' hs'
  · exact hv
  · exact ⟨fun ⟨n, c, hc, _, hd, _⟩ => (hl n c hc).2 hd, fun n c hc => (hl n c hc).1⟩
  · obtain ⟨k, c, hclear, hc, hs⟩ := hv
    obtain ⟨k', c', hc', hs', hnear⟩ := hl
    have hk := hclear.firstMarkerLevel hc hs
    exact ⟨hfree.not_dispatcherFirst hclear hc hs, k, hk,
      fun c₀ M₀ h₀ hs₀ => hnear k (hk.le hc' hs') c₀ M₀ h₀ hs₀⟩

namespace AnswerOfPaths

variable {r : Except Exit (Option Marker)}

theorem eq_dispatcherReached (h : F.AnswerOfPaths dispatcher p r)
    (hd : F.DispatcherFirst dispatcher p) : r = .error .dispatcherReached := by
  rcases r with (_ | _) | (_ | M) <;> first | rfl | exact absurd hd h.1

theorem eq_none (h : F.AnswerOfPaths dispatcher p r) (hd : ¬ F.DispatcherFirst dispatcher p)
    (hnone : ∀ n c, F.BackwardPath p n c → F.scan c = none) : r = .ok none := by
  rcases r with (_ | _) | (_ | M)
  · obtain ⟨-, k, hk, -⟩ := h
    exact (hk.not_noMarker hnone).elim
  · exact absurd h hd
  · rfl
  · obtain ⟨-, k, hk, -⟩ := h
    exact (hk.not_noMarker hnone).elim

/-- Past the first two cases, the paths of the first marker level decide between one marker and
`{ 0, 0 }`. -/
theorem eq_of_level (h : F.AnswerOfPaths dispatcher p r) (hd : ¬ F.DispatcherFirst dispatcher p)
    {k : Nat} (hk : F.FirstMarkerLevel p k) :
    (∃ M, r = .ok (some M) ∧ ∀ c M', F.BackwardPath p k c → F.scan c = some M' → M' = M) ∨
      (r = .error .ambiguous ∧
        ¬ ∃ M, ∀ c M', F.BackwardPath p k c → F.scan c = some M' → M' = M) := by
  rcases r with (_ | _) | (_ | M)
  · obtain ⟨-, k', hk', hu⟩ := h
    exact .inr ⟨rfl, hk'.unique hk ▸ hu⟩
  · exact absurd h hd
  · exact (hk.not_noMarker h.2).elim
  · obtain ⟨-, k', hk', hu⟩ := h
    exact .inl ⟨M, rfl, hk'.unique hk ▸ hu⟩

theorem unique {r' : Except Exit (Option Marker)} (h : F.AnswerOfPaths dispatcher p r)
    (h' : F.AnswerOfPaths dispatcher p r') : r = r' := by
  by_cases hd : F.DispatcherFirst dispatcher p
  · rw [h.eq_dispatcherReached hd, h'.eq_dispatcherReached hd]
  by_cases hnone : ∀ n c, F.BackwardPath p n c → F.scan c = none
  · rw [h.eq_none hd hnone, h'.eq_none hd hnone]
  push_neg at hnone
  obtain ⟨n, c, hc, hs⟩ := hnone
  obtain ⟨M, hM⟩ := Option.ne_none_iff_exists'.mp hs
  obtain ⟨k, hk⟩ := exists_firstMarkerLevel ⟨n, c, M, hc, hM⟩
  rcases h.eq_of_level hd hk with ⟨M, rfl, hu⟩ | ⟨rfl, hu⟩ <;>
    rcases h'.eq_of_level hd hk with ⟨M', rfl, hu'⟩ | ⟨rfl, hu'⟩
  · obtain ⟨c₀, M₀, h₀, hs₀⟩ := hk.1
    rw [← hu c₀ M₀ h₀ hs₀, hu' c₀ M₀ h₀ hs₀]
  · exact (hu' ⟨M, hu⟩).elim
  · exact (hu ⟨M', hu'⟩).elim
  · rfl

end AnswerOfPaths

/-- `twoMarkers` with the predecessors of block `0` listed the other way round. -/
def twoMarkersSwapped : Function :=
  ⟨[⟨0, [.other], [2, 1]⟩, ⟨1, [.call (some "newpc") 16 4], []⟩,
    ⟨2, [.call (some "newpc") 32 4], []⟩], by decide⟩

/-- `deeperMarkers` with the predecessors of block `0` listed the other way round. -/
def deeperMarkersSwapped : Function :=
  ⟨[⟨0, [.other], [2, 1]⟩, ⟨1, [.call (some "newpc") 16 4], []⟩, ⟨2, [.other], [3]⟩,
    ⟨3, [.call (some "newpc") 32 4], []⟩], by decide⟩

end Function

end Hybitor
