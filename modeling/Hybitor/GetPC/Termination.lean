import Hybitor.GetPC.Search

/-!
# GetPC.Termination — the worklist loop ends on every graph

The variant is the number of blocks not yet in `Visited` plus the length of `WorkList`. A pass of
the body pops one iterator and pushes only blocks it inserts into `Visited` at the same time,
which are blocks of the function not there before, so every pass lowers the variant by one. The
seed iterator is the one push that `Visited` does not record; it is why `p`'s own block can be
scanned twice.
-/

namespace Hybitor

namespace Function

variable {F : Function} {dispatcher : Option BlockId}

/-- Blocks still to visit plus iterators still to scan. -/
def measure (F : Function) (s : Search) : Nat :=
  F.blocks.length - s.visited.length + s.workList.length

/-- `Visited` holds distinct blocks of `F`. -/
def VisitedOk (F : Function) (s : Search) : Prop :=
  s.visited.Nodup ∧ ∀ q ∈ s.visited, q ∈ F.blocks.map BasicBlock.id

/-- One pass of the body: `Visited` grows by exactly the blocks pushed, stays a set of blocks of
`F`, and the variant drops. -/
theorem iterate_measure {s s' : Search} {I : Cursor} {rest : List Cursor} {ps : List BlockId}
    (hw : s.workList = I :: rest) (hs : F.VisitedOk s)
    (h : F.iterate dispatcher I { s with workList := rest } = .ok (s', ps)) :
    F.VisitedOk s' ∧ s'.visited = s.visited ++ ps ∧ F.measure s' < F.measure s := by
  obtain ⟨hnd, hids⟩ := hs
  rcases iterate_ok h with ⟨m, -, -, rfl, rfl⟩ | ⟨-, -, rfl, rfl⟩ | ⟨-, -, -, rfl, rfl⟩
  · exact ⟨⟨hnd, hids⟩, by simp, by simp [measure, hw]⟩
  · exact ⟨⟨hnd, hids⟩, by simp, by simp [measure, hw]⟩
  · have hnd' : (s.visited ++ F.newPredecessors s.visited (F.block I.block).preds).Nodup :=
      List.nodup_append.mpr ⟨hnd, nodup_newPredecessors _ _,
        fun q hV hps => (mem_newPredecessors hps).2.2 hV⟩
    have hsub : ∀ q ∈ s.visited ++ F.newPredecessors s.visited (F.block I.block).preds,
        q ∈ F.blocks.map BasicBlock.id := by
      intro q hq
      rcases List.mem_append.mp hq with hq | hq
      · exact hids q hq
      · exact F.mem_ids_of_ne_nil (mem_newPredecessors hq).2.1
    have hlen := (List.subperm_of_subset hnd' hsub).length_le
    simp only [List.length_append, List.length_map] at hlen
    refine ⟨⟨hnd', hsub⟩, rfl, ?_⟩
    simp only [measure, hw, List.length_append, List.length_map, List.length_cons]
    omega

/-- With more fuel than the variant, the loop stops on its own. -/
theorem loop_isSome : ∀ (fuel : Nat) (s : Search), F.VisitedOk s → F.measure s < fuel →
    (F.loop dispatcher fuel s).isSome
  | 0, _, _, h => absurd h (Nat.not_lt_zero _)
  | fuel + 1, s, hs, h => by
    simp only [loop]
    split
    · rfl
    · rename_i I rest hw
      split
      · rfl
      · rename_i s' ps hit
        obtain ⟨hs', -, hlt⟩ := iterate_measure hw hs hit
        exact loop_isSome fuel s' hs' (by omega)

/-- `F.Run dispatcher s ps s'`: whole passes of the body take the locals from `s` to `s'`, pushing
the blocks `ps` in order. -/
inductive Run (F : Function) (dispatcher : Option BlockId) :
    Search → List BlockId → Search → Prop
  | refl (s : Search) : Run F dispatcher s [] s
  | step {s s₁ s₂ : Search} {I : Cursor} {rest : List Cursor} {ps₁ ps₂ : List BlockId} :
      s.workList = I :: rest →
      F.iterate dispatcher I { s with workList := rest } = .ok (s₁, ps₁) →
      Run F dispatcher s₁ ps₂ s₂ → Run F dispatcher s (ps₁ ++ ps₂) s₂

/-- Along a run, `Visited` records exactly the blocks pushed. -/
theorem Run.visited {s s' : Search} {ps : List BlockId} (h : F.Run dispatcher s ps s')
    (hs : F.VisitedOk s) : F.VisitedOk s' ∧ s'.visited = s.visited ++ ps := by
  induction h with
  | refl => simp [hs]
  | step hw hit _ ih =>
    obtain ⟨hs₁, hv₁, -⟩ := iterate_measure hw hs hit
    obtain ⟨hs₂, hv₂⟩ := ih hs₁
    exact ⟨hs₂, by rw [hv₂, hv₁, List.append_assoc]⟩

/-- The loop of `getPC` ends for every function, including cyclic ones, and every instruction.
Over any run it pushes each block at most once, except `p`'s own block, which is pushed as the
seed and may be pushed once more when a cycle reaches its end. -/
theorem getPC_terminates (F : Function) (dispatcher : Option BlockId) (p : Position) :
    (F.getPC dispatcher p).isSome ∧
    ∀ ps s, F.Run dispatcher (start p) ps s →
      ∀ b, ((seed p).block :: ps).count b ≤ if b = p.block then 2 else 1 := by
  refine ⟨?_, fun ps s h b => ?_⟩
  · simpa [getPC] using @loop_isSome F dispatcher _ (start p)
      ⟨List.nodup_nil, by simp [start]⟩ (by simp [measure, start])
  · obtain ⟨⟨hnd, -⟩, hv⟩ := h.visited ⟨List.nodup_nil, by simp [start]⟩
    simp only [start, List.nil_append] at hv
    have hle : ps.count b ≤ 1 := List.nodup_iff_count_le_one.mp (hv ▸ hnd) b
    by_cases hb : b = p.block
    · subst hb; simp only [seed, List.count_cons_self, if_true]; omega
    · simpa [seed, List.count_cons, Ne.symm hb, hb] using hle

end Function

end Hybitor
