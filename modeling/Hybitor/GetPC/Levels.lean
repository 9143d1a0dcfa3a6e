import Hybitor.GetPC.Paths

/-!
# GetPC.Levels — what the breadth-first search knows when it stops

Before the first marker is found, `getPC`'s worklist is a breadth-first frontier: the iterators
of one level still to scan, then those of the next level queued so far (`Levels`). Every queued
iterator ends a backward path of its level, every path of at most the current level ends at a
queued or an already expanded iterator, and no block is queued twice. When the first marker is
found, at level `k`, no predecessor is queued any more, so the search can only see markers that
end paths of at most `k + 1` moves (`Found`).

`loop_spec` reads off what each way of stopping says about the backward paths from `p`.
-/

namespace Hybitor

namespace Function

variable {F : Function} {dispatcher : Option BlockId} {p : Position}

/-! ## 1. The invariants -/

/-- An iterator scanned without meeting a marker or firing the assertion, whose non-empty
predecessors are all in `visited`. -/
def Expanded (F : Function) (dispatcher : Option BlockId) (visited : List BlockId) (c : Cursor) :
    Prop :=
  F.scan c = none ∧ ¬ F.HasDispatcherPred dispatcher c.block ∧
    ∀ q ∈ (F.block c.block).preds, (F.block q).insts ≠ [] → q ∈ visited

theorem Expanded.mono {V V' : List BlockId} {c : Cursor} (h : F.Expanded dispatcher V c)
    (hV : V ⊆ V') : F.Expanded dispatcher V' c :=
  ⟨h.1, h.2.1, fun q hq hne => hV (h.2.2 q hq hne)⟩

/-- The search before any marker is found, the worklist being `A ++ B`: `A` the iterators of
level `k` still to scan, `B` those of level `k + 1` queued so far. -/
structure Levels (F : Function) (dispatcher : Option BlockId) (p : Position) (k : Nat)
    (A B : List Cursor) (V : List BlockId) : Prop where
  current : ∀ c ∈ A, F.BackwardPath p k c
  next : ∀ c ∈ B, F.BackwardPath p (k + 1) c
  reached : ∀ n ≤ k, ∀ c, F.BackwardPath p n c → c ∈ A ∨ F.Expanded dispatcher V c
  queued : ∀ q ∈ V, F.rbegin q ∈ A ∨ F.rbegin q ∈ B ∨ F.Expanded dispatcher V (F.rbegin q)
  /-- Past the seed, the worklist holds iterators of visited blocks, no block twice. -/
  distinct : (A ++ B = [seed p] ∧ V = []) ∨
    ((∀ c ∈ A ++ B, c.block ∈ V) ∧ ((A ++ B).map Cursor.block).Nodup)
  /-- Every path of fewer than `k` moves ends at an expanded iterator. -/
  below : ∀ n < k, ∀ c, F.BackwardPath p n c → F.Expanded dispatcher V c

/-- Every path of fewer than `k` moves was scanned without meeting a marker or failing the
assertion. -/
def Clear (F : Function) (dispatcher : Option BlockId) (p : Position) (k : Nat) : Prop :=
  ∀ n < k, ∀ c, F.BackwardPath p n c → F.scan c = none ∧ ¬ F.HasDispatcherPred dispatcher c.block

/-- The search after its first marker `M`, found at level `k`, with worklist `Q`. -/
structure Found (F : Function) (dispatcher : Option BlockId) (p : Position) (k : Nat) (M : Marker)
    (Q : List Cursor) : Prop where
  found : ∃ c, F.BackwardPath p k c ∧ F.scan c = some M
  clear : F.Clear dispatcher p k
  /-- The rest of the worklist: the iterators of level `k` after `M`'s, then those of level
  `k + 1` queued before it. -/
  paths : ∀ c ∈ Q, F.BackwardPath p k c ∨ F.BackwardPath p (k + 1) c
  other_blocks : ∀ c ∈ Q, c.block ≠ M.block
  /-- A path of at most `k` moves that meets a marker meets `M`, or ends at a queued iterator. -/
  nearest : ∀ n ≤ k, ∀ c M', F.BackwardPath p n c → F.scan c = some M' → M' = M ∨ c ∈ Q

/-- The invariant of `getPC`'s loop. -/
def SearchInv (F : Function) (dispatcher : Option BlockId) (p : Position) (s : Search) : Prop :=
  (s.newPCCall = none ∧ ∃ k A B, s.workList = A ++ B ∧ F.Levels dispatcher p k A B s.visited) ∨
  (∃ M k, s.newPCCall = some M ∧ F.Found dispatcher p k M s.workList)

/-! ## 2. One pass of the body -/

theorem Levels.init : F.Levels dispatcher p 0 [seed p] [] [] where
  current c hc := by rw [List.mem_singleton.mp hc]; exact .first
  next c hc := by cases hc
  reached n hn c hc := by
    obtain rfl : n = 0 := by omega
    exact .inl (List.mem_singleton.mpr hc.zero)
  queued q hq := by cases hq
  distinct := .inl ⟨rfl, rfl⟩
  below n hn := absurd hn (Nat.not_lt_zero n)

/-- Once level `k` is scanned, the queued iterators are the next level. -/
theorem Levels.advance {k : Nat} {B : List Cursor} {V : List BlockId}
    (h : F.Levels dispatcher p k [] B V) : F.Levels dispatcher p (k + 1) B [] V where
  current := h.next
  next c hc := by cases hc
  reached n hn c hc := by
    rcases Nat.lt_or_eq_of_le hn with hn | rfl
    · exact .inr ((h.reached n (by omega) c hc).resolve_left (List.not_mem_nil c))
    · obtain ⟨c₀, q, h₀, -, hq, hne, rfl⟩ := hc.succ
      have hx := (h.reached _ le_rfl c₀ h₀).resolve_left (List.not_mem_nil _)
      exact (h.queued q (hx.2.2 q hq hne)).resolve_left (List.not_mem_nil _)
  queued q hq := by
    rcases h.queued q hq with h' | h' | h'
    · cases h'
    · exact .inl h'
    · exact .inr (.inr h')
  distinct := by simpa using h.distinct
  below n hn c hc := (h.reached n (Nat.lt_succ_iff.mp hn) c hc).resolve_left (List.not_mem_nil c)

/-- The iterator the loop pops is the first of the current level. -/
theorem Levels.pop {k : Nat} {A B : List Cursor} {V : List BlockId} {I : Cursor}
    {rest : List Cursor} (h : F.Levels dispatcher p k A B V) (hQ : A ++ B = I :: rest) :
    ∃ k' A' B', rest = A' ++ B' ∧ F.Levels dispatcher p k' (I :: A') B' V := by
  cases A with
  | nil =>
    rw [List.nil_append] at hQ
    subst hQ
    exact ⟨k + 1, rest, [], (List.append_nil _).symm, h.advance⟩
  | cons I' A' =>
    obtain ⟨rfl, rfl⟩ := List.cons.inj hQ
    exact ⟨k, A', B, rfl, h⟩

/-- Scanning an iterator that meets no marker, away from the Dispatcher, queues its new
predecessors as the next level. -/
theorem Levels.push {k : Nat} {I : Cursor} {A B : List Cursor} {V : List BlockId}
    (h : F.Levels dispatcher p k (I :: A) B V) (hs : F.scan I = none)
    (hd : ¬ F.HasDispatcherPred dispatcher I.block) :
    F.Levels dispatcher p k A (B ++ (F.newPredecessors V (F.block I.block).preds).map F.rbegin)
      (V ++ F.newPredecessors V (F.block I.block).preds) := by
  set ps := F.newPredecessors V (F.block I.block).preds
  have hI : F.Expanded dispatcher (V ++ ps) I :=
    ⟨hs, hd, fun q hq hne => mem_visited_of_mem_preds hq hne⟩
  have hmono : V ⊆ V ++ ps := List.subset_append_left _ _
  refine ⟨fun c hc => h.current c (List.mem_cons_of_mem _ hc), ?_, ?_, ?_, ?_,
    fun n hn c hc => (h.below n hn c hc).mono hmono⟩
  · intro c hc
    rcases List.mem_append.mp hc with hc | hc
    · exact h.next c hc
    · obtain ⟨q, hq, rfl⟩ := List.mem_map.mp hc
      obtain ⟨hq', hne, -⟩ := mem_newPredecessors hq
      exact .pred (h.current I (List.mem_cons_self _ _)) hs hq' hne
  · intro n hn c hc
    rcases h.reached n hn c hc with hc' | hc'
    · rcases List.mem_cons.mp hc' with rfl | hc'
      · exact .inr hI
      · exact .inl hc'
    · exact .inr (hc'.mono hmono)
  · intro q hq
    rcases List.mem_append.mp hq with hq | hq
    · rcases h.queued q hq with h' | h' | h'
      · rcases List.mem_cons.mp h' with h' | h'
        · exact .inr (.inr (by rw [h']; exact hI))
        · exact .inl h'
      · exact .inr (.inl (List.mem_append_left _ h'))
      · exact .inr (.inr (h'.mono hmono))
    · exact .inr (.inl (List.mem_append_right _ (List.mem_map_of_mem _ hq)))
  · have hps : (ps.map F.rbegin).map Cursor.block = ps := by simp [Function.comp_def]
    right
    rcases h.distinct with ⟨hQ, rfl⟩ | ⟨hsub, hnd⟩
    · obtain ⟨-, rfl, rfl⟩ : I = seed p ∧ A = [] ∧ B = [] := by simpa using hQ
      simpa [hps] using nodup_newPredecessors _ _
    · simp only [List.cons_append, List.map_cons, List.nodup_cons] at hnd
      refine ⟨fun c hc => ?_, ?_⟩
      · simp only [List.mem_append, List.mem_map] at hc
        rcases hc with hc | hc | ⟨q, hq, rfl⟩
        · exact List.mem_append_left _ (hsub c (by simp [hc]))
        · exact List.mem_append_left _ (hsub c (by simp [hc]))
        · exact List.mem_append_right _ hq
      · rw [← List.append_assoc, List.map_append, hps]
        refine List.nodup_append.mpr ⟨hnd.2, nodup_newPredecessors _ _, fun q hq hq' => ?_⟩
        obtain ⟨c, hc, rfl⟩ := List.mem_map.mp hq
        exact (mem_newPredecessors hq').2.2 (hsub c (List.mem_cons_of_mem _ hc))

/-- Finding the first marker. -/
theorem Levels.found {k : Nat} {I : Cursor} {A B : List Cursor} {V : List BlockId} {M : Marker}
    (h : F.Levels dispatcher p k (I :: A) B V) (hs : F.scan I = some M) :
    F.Found dispatcher p k M (A ++ B) where
  found := ⟨I, h.current I (List.mem_cons_self _ _), hs⟩
  clear n hn c hc := ⟨(h.below n hn c hc).1, (h.below n hn c hc).2.1⟩
  paths c hc := (List.mem_append.mp hc).imp (h.current c ∘ List.mem_cons_of_mem _) (h.next c)
  other_blocks c hc := by
    rw [scan_block hs]
    rcases h.distinct with ⟨hQ, -⟩ | ⟨-, hnd⟩
    · obtain ⟨-, rfl, rfl⟩ : I = seed p ∧ A = [] ∧ B = [] := by simpa using hQ
      cases hc
    · simp only [List.cons_append, List.map_cons, List.nodup_cons] at hnd
      exact fun heq => hnd.1 (heq ▸ List.mem_map_of_mem _ hc)
  nearest n hn c M' hc hs' := by
    rcases h.reached n hn c hc with hc' | hc'
    · rcases List.mem_cons.mp hc' with rfl | hc'
      · exact .inl (Option.some.inj (hs'.symm.trans hs))
      · exact .inr (List.mem_append_left _ hc')
    · exact absurd (hs'.symm.trans hc'.1) (Option.some_ne_none M')

/-- After the first marker, an iterator that meets no marker leaves the worklist. -/
theorem Found.pop {k : Nat} {M : Marker} {I : Cursor} {Q : List Cursor}
    (h : F.Found dispatcher p k M (I :: Q)) (hs : F.scan I = none) :
    F.Found dispatcher p k M Q where
  found := h.found
  clear := h.clear
  paths c hc := h.paths c (List.mem_cons_of_mem _ hc)
  other_blocks c hc := h.other_blocks c (List.mem_cons_of_mem _ hc)
  nearest n hn c M' hc hs' := by
    rcases h.nearest n hn c M' hc hs' with h' | h'
    · exact .inl h'
    · rcases List.mem_cons.mp h' with rfl | h'
      · exact absurd (hs'.symm.trans hs) (Option.some_ne_none M')
      · exact .inr h'

/-- With the worklist empty and no marker found, every path ends at an expanded iterator. -/
theorem Levels.expanded {k : Nat} {V : List BlockId} (h : F.Levels dispatcher p k [] [] V)
    {n : Nat} {c : Cursor} (hc : F.BackwardPath p n c) : F.Expanded dispatcher V c := by
  induction hc with
  | first => exact (h.reached 0 (Nat.zero_le _) _ .first).resolve_left (List.not_mem_nil _)
  | pred _ _ hq hne ih =>
    rcases h.queued _ (ih.2.2 _ hq hne) with h' | h' | h'
    · cases h'
    · cases h'
    · exact h'

theorem searchInv_iterate {s s' : Search} {I : Cursor} {rest : List Cursor} {ps : List BlockId}
    (hs : F.SearchInv dispatcher p s) (hw : s.workList = I :: rest)
    (h : F.iterate dispatcher I { s with workList := rest } = .ok (s', ps)) :
    F.SearchInv dispatcher p s' := by
  rcases hs with ⟨hn, k, A, B, hQ, hL⟩ | ⟨M, k, hn, hF⟩
  · obtain ⟨k, A, B, rfl, hL⟩ := hL.pop (hQ.symm.trans hw)
    rcases iterate_ok h with ⟨m, hm, -, rfl, rfl⟩ | ⟨-, hsome, -, -⟩ | ⟨hm, -, hd, rfl, rfl⟩
    · exact .inr ⟨m, k, rfl, hL.found hm⟩
    · simp [hn] at hsome
    · exact .inl ⟨hn, k, A, _, List.append_assoc .., hL.push hm hd⟩
  · rcases iterate_ok h with ⟨-, -, hnone, -, -⟩ | ⟨hm, -, rfl, rfl⟩ | ⟨-, hnone, -, -, -⟩
    · simp [hn] at hnone
    · exact .inr ⟨M, k, hn, (hw ▸ hF).pop hm⟩
    · simp [hn] at hnone

/-! ## 3. When the loop stops -/

/-- What each way of stopping says about the backward paths from `p`. -/
def LoopSpec (F : Function) (dispatcher : Option BlockId) (p : Position) :
    Except Exit (Option Marker) → Prop
  | .error .dispatcherReached => ∃ n c, F.BackwardPath p n c ∧ F.scan c = none ∧
      F.HasDispatcherPred dispatcher c.block
  | .error .ambiguous => ∃ n₁ c₁ M₁ n₂ c₂ M₂, F.BackwardPath p n₁ c₁ ∧ F.scan c₁ = some M₁ ∧
      F.BackwardPath p n₂ c₂ ∧ F.scan c₂ = some M₂ ∧ M₁ ≠ M₂
  | .ok none => ∀ n c, F.BackwardPath p n c →
      F.scan c = none ∧ ¬ F.HasDispatcherPred dispatcher c.block
  | .ok (some M) => ∃ k c, F.BackwardPath p k c ∧ F.scan c = some M ∧
      ∀ n ≤ k, ∀ c' M', F.BackwardPath p n c' → F.scan c' = some M' → M' = M

/-- The level at which each way of stopping happened. The assertion fails on a path of `n`
moves when no shorter path has met a marker; a found marker, and the first of two, ends a path
of `k` moves with every shorter path clear; the second of two ends a path of `k` or `k + 1`
moves. -/
def LevelSpec (F : Function) (dispatcher : Option BlockId) (p : Position) :
    Except Exit (Option Marker) → Prop
  | .error .dispatcherReached => ∃ n c, F.BackwardPath p n c ∧ F.scan c = none ∧
      F.HasDispatcherPred dispatcher c.block ∧
      ∀ m < n, ∀ c', F.BackwardPath p m c' → F.scan c' = none
  | .error .ambiguous => ∃ k c M c' M', F.Clear dispatcher p k ∧ F.BackwardPath p k c ∧
      F.scan c = some M ∧ (F.BackwardPath p k c' ∨ F.BackwardPath p (k + 1) c') ∧
      F.scan c' = some M' ∧ M' ≠ M
  | .ok none => True
  | .ok (some M) => ∃ k c, F.Clear dispatcher p k ∧ F.BackwardPath p k c ∧ F.scan c = some M

/-- The search's result, in terms of backward paths: a failed assertion comes from a path that
reaches a successor of the Dispatcher, an early `{ 0, 0 }` from two paths with distinct nearest
markers, an empty result from no path meeting a marker, and a found marker `M` ends a path of
some length `k` such that every path of at most `k` moves that meets a marker meets `M`; and
each happens at the level `LevelSpec` says. -/
theorem loop_spec {fuel : Nat} {r : Except Exit (Option Marker)}
    (h : F.loop dispatcher fuel (start p) = some r) :
    F.LoopSpec dispatcher p r ∧ F.LevelSpec dispatcher p r := by
  refine F.loop_induction (F.SearchInv dispatcher p)
    (fun r => F.LoopSpec dispatcher p r ∧ F.LevelSpec dispatcher p r) ?_ ?_
    (fun s I rest s' ps hs hw hit => searchInv_iterate hs hw hit) fuel _ r
    (.inl ⟨rfl, 0, [seed p], [], rfl, Levels.init⟩) h
  · intro s hs hw
    rcases hs with ⟨hn, k, A, B, hQ, hL⟩ | ⟨M, k, hn, hF⟩
    · obtain ⟨rfl, rfl⟩ := List.append_eq_nil.mp (hQ.symm.trans hw)
      rw [hn]
      exact ⟨fun n c hc => ⟨(hL.expanded hc).1, (hL.expanded hc).2.1⟩, trivial⟩
    · rw [hn]
      obtain ⟨c, hc, hsc⟩ := hF.found
      exact ⟨⟨k, c, hc, hsc, fun n hn c' M' hc' hs' =>
        (hF.nearest n hn c' M' hc' hs').resolve_right (by rw [hw]; exact List.not_mem_nil _)⟩,
        k, c, hF.clear, hc, hsc⟩
  · intro s I rest e hs hw hit
    rcases iterate_error hit with ⟨rfl, hI, hsome⟩ | ⟨rfl, hI, hnone, hd⟩
    · rcases hs with ⟨hn, -⟩ | ⟨M, k, -, hF⟩
      · simp [hn] at hsome
      · obtain ⟨M', hM'⟩ := Option.isSome_iff_exists.mp hI
        obtain ⟨c, hc, hsc⟩ := hF.found
        have hmem : I ∈ s.workList := by rw [hw]; exact List.mem_cons_self _ _
        have hne : M' ≠ M := fun heq => hF.other_blocks I hmem (by rw [← heq, scan_block hM'])
        obtain ⟨n', hn'⟩ : ∃ n', F.BackwardPath p n' I :=
          (hF.paths I hmem).elim (⟨k, ·⟩) (⟨k + 1, ·⟩)
        exact ⟨⟨k, c, M, n', I, M', hc, hsc, hn', hM', hne.symm⟩,
          k, c, M, I, M', hF.clear, hc, hsc, hF.paths I hmem, hM', hne⟩
    · rcases hs with ⟨-, k, A, B, hQ, hL⟩ | ⟨M, k, hn, -⟩
      · obtain ⟨k, A, B, -, hL⟩ := hL.pop (hQ.symm.trans hw)
        have hIk := hL.current I (List.mem_cons_self _ _)
        exact ⟨⟨k, I, hIk, hI, hd⟩, k, I, hIk, hI, hd, fun m hm c' hc' => (hL.below m hm c' hc').1⟩
      · simp [hn] at hnone

end Function

end Hybitor
