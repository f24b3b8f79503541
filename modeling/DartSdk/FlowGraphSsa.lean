import DartSdk.FlowGraphDominatorsSound
import DartSdk.FlowGraphPhis

/-! `FlowGraph::ComputeSSA` up to the insertion of phis. The renaming after it hands the variables
at the end of a block to the blocks that it immediately dominates. -/
namespace DartSdk.FlowGraph
open Dominance Relation

/-- What `InsertPhis` is called with. `BitVector::Iterator` visits the elements of a frontier in
ascending order. -/
def Traversal.assignments (t : Traversal) (assignedVars : Fin t.preorder.length → ℕ → Bool)
    (variableCount : ℕ) (alwaysLive : ℕ → Bool) : Assignments t.preorder.length where
  assignedVars := assignedVars
  domFrontier b := (List.finRange _).filter fun c => c.val ∈ t.computeDominators.frontier b
  variableCount := variableCount
  alwaysLive := alwaysLive

/-- A variable without a phi in a block keeps, on every path from the immediate dominator of the
block, the value that it has at the end of the dominator. -/
theorem phis_suffice (g : ControlFlow) (number : ℕ → ℤ) (predecessors : ℕ → List ℕ) :
    ∃ t, g.discoverBlocks number predecessors = some t ∧
      ∀ assignedVars variableCount alwaysLive,
        ∃ s, (t.assignments assignedVars variableCount alwaysLive).insertPhis = some s ∧
          ∀ v < variableCount, ∀ b c : Fin t.preorder.length, 0 < b.val → v ∉ s.phis b →
            c.val ≠ t.computeDominators.idom b →
            TransGen (fun i j => t.Edge g i j ∧ j ≠ t.computeDominators.idom b) c b →
            ¬ assignedVars c v ∧ v ∉ s.phis c := by
  obtain ⟨t,ht,h,hstack⟩ := g.discoverBlocks_inv number predecessors
  refine ⟨t,ht,fun assignedVars variableCount alwaysLive => ?_⟩
  obtain ⟨s,hrun,hs⟩ := Iteration.foldlM_range_total
    (Assignments.Before (t.assignments assignedVars variableCount alwaysLive))
    (s := ⟨fun _ => -1,fun _ => -1,[],fun _ => [],[]⟩)
    (by constructor <;> simp) fun v _ s hs => Assignments.insertPhisFor_total hs
  refine ⟨s,hrun,fun v hv b c hb hnot hne hpath => ?_⟩
  have hmem : ∀ b, v ∈ s.phis b ↔
      (t.assignments assignedVars variableCount alwaysLive).InIteratedFrontier v b := fun b =>
    (hs.mem_phis b v).trans (and_iff_right hv)
  have hidom := h.settled hstack b hb b.isLt
  have hno := hidom.not_of_path (A := fun i => ∃ hi, assignedVars ⟨i,hi⟩ v)
    (P := fun i => ∃ hi, v ∈ s.phis ⟨i,hi⟩) ?_ (by simpa using hnot) (h.reachable hstack c.isLt)
    hne hpath
  · simpa using hno
  · rintro i j ha hj
    obtain ⟨⟨_, -,he, -⟩, -⟩ := id hj
    have hlt := ((h.depthFirst hstack).edge_lt he).2
    have hfront := (h.mem_frontier_iff hstack).2 ⟨hlt,hj⟩
    refine ⟨hlt,(hmem _).2 ?_⟩
    rcases ha with ⟨hi,ha⟩ | ⟨hi,ha⟩
    · exact .assigned ha (by simpa [Traversal.assignments] using hfront)
    · exact .step ((hmem _).1 ha) (by simpa [Traversal.assignments] using hfront)

end DartSdk.FlowGraph
