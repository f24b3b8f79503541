import DartSdk.FlowGraphDominatorsSound

/-! `FlowGraph::FindLoop` and `ComputeLoops` of `vm/flow_graph.cc`, with preorder numbers for the
blocks. -/
namespace DartSdk.FlowGraph
open Dominance Relation Finset
open Function (update update_apply)

/-- The variables of `FindLoop`, with the last element of the stack first. -/
structure LoopSearch where
  stack : List ℕ
  loop : Finset ℕ

namespace LoopSearch

def add (s : LoopSearch) (q : ℕ) : LoopSearch :=
  if q ∈ s.loop then s else ⟨q :: s.stack,insert q s.loop⟩

/-- The `while` loop, for at most `fuel` blocks. -/
def run (preds : ℕ → List ℕ) : ℕ → LoopSearch → Option (Finset ℕ)
  | 0, s => if s.stack = [] then some s.loop else none
  | fuel+1, s =>
    match s.stack with
    | [] => some s.loop
    | p :: rest => run preds fuel ((preds p).foldl add { s with stack := rest })

end LoopSearch

structure Loops where
  headers : List ℕ
  loopInfo : ℕ → Finset ℕ

/-- Loops that share the same loop header are treated as one loop. -/
def Loops.record (s : Loops) (block : ℕ) (loop : Finset ℕ) : Loops :=
  if block ∈ s.headers then
    { s with loopInfo := update s.loopInfo block (s.loopInfo block ∪ loop) }
  else ⟨s.headers ++ [block],update s.loopInfo block loop⟩

namespace Traversal
variable (t : Traversal)

def preds (i : ℕ) : List ℕ := (t.predecessors (t.block i)).map fun p => (t.number p).toNat

def findLoop (m n : ℕ) : Option (Finset ℕ) :=
  LoopSearch.run t.preds t.preorder.length (LoopSearch.add ⟨[],{n}⟩ m)

/-- `BlockEntryInstr::Dominates`; dominators are smaller, so `fuel` is at least `current`. -/
def dominates (block : ℕ) : ℕ → ℕ → Bool
  | 0, current => current = block
  | fuel+1, current =>
    if current = block then true
    else current ≠ 0 && dominates block fuel (t.computeDominators.idom current)

def visitEdge (s : Loops) (e : ℕ × ℕ) : Option Loops :=
  if t.dominates e.2 e.1 e.1 then (t.findLoop e.1 e.2).map (s.record e.2) else some s

/-- The edges to the blocks in postorder. -/
def edges : List (ℕ × ℕ) :=
  t.postorder.flatMap fun b =>
    (t.preds (t.number b).toNat).map fun p => (p,(t.number b).toNat)

/-- `ComputeLoops`; the loops of the blocks are left from earlier. -/
def computeLoops (loopInfo : ℕ → Finset ℕ) : Option Loops :=
  t.edges.foldlM t.visitEdge ⟨[],loopInfo⟩

end Traversal

/-- The blocks of the natural loop for the edge from `m` to `n`: `n`, and those from which `m` is
reached without passing through `n`. -/
def NaturalLoop (E : ℕ → ℕ → Prop) (m n b : ℕ) : Prop :=
  b = n ∨ ReflTransGen (fun i j => E i j ∧ j ≠ n) b m

namespace LoopSearch
variable {E : ℕ → ℕ → Prop} {preds : ℕ → List ℕ} {s : LoopSearch} {size m n b : ℕ} {todo : List ℕ}

/-- The predecessors `todo` of the current block are left. -/
structure Inv (E : ℕ → ℕ → Prop) (m n size : ℕ) (s : LoopSearch) (todo : List ℕ) : Prop where
  ends : m ∈ s.loop ∧ n ∈ s.loop
  natural : ∀ b ∈ s.loop, b < size ∧ NaturalLoop E m n b
  left : ∀ b ∈ todo, b < size ∧ NaturalLoop E m n b
  stack : ∀ p ∈ s.stack, p ∈ s.loop ∧ p ≠ n
  closed : ∀ p ∈ s.loop, p ≠ n → p ∈ s.stack ∨ ∀ q, E q p → q ∈ s.loop ∨ q ∈ todo

lemma Inv.foldl_add (h : Inv E m n size s todo) : Inv E m n size (todo.foldl add s) [] ∧
    (todo.foldl add s).stack.length+s.loop.card = s.stack.length+(todo.foldl add s).loop.card := by
  induction todo generalizing s with
  | nil => exact ⟨h,rfl⟩
  | cons q todo ih =>
    have hadd : Inv E m n size (s.add q) todo ∧
        (s.add q).stack.length+s.loop.card = s.stack.length+(s.add q).loop.card := by
      unfold add
      split_ifs with hq
      · refine ⟨?_,rfl⟩
        constructor <;> grind [Inv]
      · refine ⟨?_,by simp [hq]; omega⟩
        constructor <;> grind [Inv]
    have hrest := ih hadd.1
    exact ⟨hrest.1,by rw [List.foldl_cons]; omega⟩

lemma Inv.mem_iff (h : Inv E m n size s []) (hs : s.stack = []) :
    b ∈ s.loop ↔ NaturalLoop E m n b := by
  refine ⟨fun hb => (h.natural b hb).2,?_⟩
  rintro (rfl | hpath)
  · exact h.ends.2
  · induction hpath using ReflTransGen.head_induction_on with
    | refl => exact h.ends.1
    | head he _ ih => simpa [hs,he.1] using (h.closed _ ih he.2).imp_right fun hq => hq _ he.1

/-- Every block leaves the stack at most once. -/
lemma run_exact (hpreds : ∀ q p, p < size → (q ∈ preds p ↔ E q p)) (hlt : ∀ q p, E q p → q < size)
    (fuel : ℕ) (h : Inv E m n size s []) (hfuel : s.stack.length+size ≤ fuel+s.loop.card) :
    ∃ loop, run preds fuel s = some loop ∧ ∀ b, b ∈ loop ↔ NaturalLoop E m n b := by
  induction fuel generalizing s with
  | zero =>
    have hcard : s.loop.card ≤ size := by
      simpa using card_le_card fun b hb => mem_range.2 (h.natural b hb).1
    have hs : s.stack = [] := List.length_eq_zero_iff.1 (by omega)
    exact ⟨s.loop,by simp [run,hs],fun b => h.mem_iff hs⟩
  | succ fuel ih =>
    cases hs : s.stack with
    | nil => exact ⟨s.loop,by simp [run,hs],fun b => h.mem_iff hs⟩
    | cons p rest =>
      obtain ⟨hp,hne⟩ := h.stack p (by simp [hs])
      have hnatural := h.natural p hp
      have hpop : Inv E m n size { s with stack := rest } (preds p) := by
        have hpred : ∀ q, E q p → NaturalLoop E m n q := fun q he =>
          .inr (.head ⟨he,hne⟩ (hnatural.2.resolve_left hne))
        constructor <;> grind [Inv]
      obtain ⟨hinv,hcard⟩ := hpop.foldl_add
      simp only [hs,List.length_cons] at hfuel
      obtain ⟨loop,hrun,hloop⟩ := ih hinv (by simp only at hcard; omega)
      exact ⟨loop,by rw [run,hs]; exact hrun,hloop⟩

end LoopSearch

/-- A traversal has each discovered block in postorder or on the stack. -/
lemma ControlFlow.runTraversal_perm (g : ControlFlow) {t u : Traversal} (fuel : ℕ)
    (h : t.preorder.Perm (t.postorder ++ t.stack.map Prod.fst))
    (hrun : g.runTraversal fuel t = some u) : u.preorder.Perm u.postorder := by
  induction fuel generalizing t with
  | zero =>
    unfold runTraversal at hrun
    split_ifs at hrun with hs
    cases hrun
    simpa [hs] using h
  | succ fuel ih =>
    unfold runTraversal at hrun
    split_ifs at hrun with hs
    · cases hrun
      simpa [hs] using h
    · refine ih ?_ hrun
      unfold step
      split
      · exact h
      · simp_all [Traversal.setStack,Traversal.finish]
      · next block succ more rest hs =>
        simp only [hs,List.map_cons] at h
        dsimp only
        split_ifs
        · exact h
        · simpa [Traversal.setStack,Traversal.discover,frame] using
            (h.append_right [succ]).trans
              (by simpa using (List.perm_append_singleton succ (block :: _)).append_left t.postorder)

namespace Traversal
variable {g : ControlFlow} {t : Traversal} (h : Inv g t) (hs : t.stack = [])
include h hs

lemma Inv.dominates_iff {n c : ℕ} (fuel : ℕ) (hc : c < t.preorder.length) (hfuel : c ≤ fuel) :
    t.dominates n fuel c ↔ Dominates (t.Edge g) 0 n c := by
  have hroot : Dominates (t.Edge g) 0 n 0 ↔ n = 0 :=
    ⟨fun hn => by simpa using hn _ .root,fun hn => hn ▸ .refl n⟩
  induction fuel generalizing c with
  | zero =>
    obtain rfl := Nat.le_zero.1 hfuel
    simp [dominates,hroot,eq_comm]
  | succ fuel ih =>
    rcases Nat.eq_zero_or_pos c with rfl | hpos
    · simp [dominates,hroot,eq_comm]
    · have hidom := h.settled hs
      have hlt := hidom.lt (h.depthFirst hs) le_rfl hpos hc
      have hrest := ih (hlt.trans hc) (by omega)
      simp [(hidom c hpos hc).dominates_iff,← hrest,dominates,hpos.ne',eq_comm (a := n)]

lemma Inv.findLoop_exact {m n : ℕ} (hm : m < t.preorder.length) (hn : n < t.preorder.length) :
    ∃ loop, t.findLoop m n = some loop ∧ ∀ b, b ∈ loop ↔ NaturalLoop (t.Edge g) m n b := by
  refine LoopSearch.run_exact (fun q p hp => h.mem_preds_iff hs hp)
    (fun q p he => ((h.depthFirst hs).edge_lt he).1) _ ?_ ?_
  · unfold LoopSearch.add
    split_ifs <;> constructor <;> grind [NaturalLoop]
  · unfold LoopSearch.add
    split_ifs with hmn
    · simp
    · simp [card_insert_of_notMem hmn]
      omega

/-- What is recorded once the edges in `done` have been visited. -/
structure Recorded (t : Traversal) (g : ControlFlow) (done : List (ℕ × ℕ)) (s : Loops) : Prop where
  nodup : s.headers.Nodup
  header : ∀ n, n ∈ s.headers ↔ ∃ m, (m,n) ∈ done ∧ Dominates (t.Edge g) 0 n m
  info : ∀ n ∈ s.headers, ∀ b, b ∈ s.loopInfo n ↔
    ∃ m, (m,n) ∈ done ∧ Dominates (t.Edge g) 0 n m ∧ NaturalLoop (t.Edge g) m n b

lemma Inv.visitEdge_spec {s : Loops} {done : List (ℕ × ℕ)} (hr : t.Recorded g done s) {m n : ℕ}
    (he : t.Edge g m n) : ∃ u, t.visitEdge s (m,n) = some u ∧ t.Recorded g (done ++ [(m,n)]) u := by
  obtain ⟨hm,hn⟩ := (h.depthFirst hs).edge_lt he
  obtain ⟨loop,hfind,hloop⟩ := h.findLoop_exact hs hm hn
  have hdom := h.dominates_iff hs (n := n) m hm le_rfl
  unfold visitEdge
  split_ifs with hd
  · refine ⟨s.record n loop,by simp [hfind],?_⟩
    unfold Loops.record
    split_ifs <;> constructor <;> grind [Recorded]
  · refine ⟨s,rfl,?_⟩
    constructor <;> grind [Recorded]

lemma Inv.foldlM_visitEdge {s : Loops} {done : List (ℕ × ℕ)} (hr : t.Recorded g done s)
    (edges : List (ℕ × ℕ)) (hedges : ∀ e ∈ edges, t.Edge g e.1 e.2) :
    ∃ u, edges.foldlM t.visitEdge s = some u ∧ t.Recorded g (done ++ edges) u := by
  induction edges generalizing s done with
  | nil => exact ⟨s,rfl,by simpa using hr⟩
  | cons e edges ih =>
    obtain ⟨u,hu,hdone⟩ := h.visitEdge_spec hs hr (hedges e (by simp))
    obtain ⟨w,hw,hlast⟩ := ih hdone fun e he => hedges e (by simp [he])
    exact ⟨w,by simp [hu,hw],by simpa using hlast⟩

lemma Inv.mem_edges_iff (hperm : t.preorder.Perm t.postorder) {m n : ℕ} :
    (m,n) ∈ t.edges ↔ t.Edge g m n := by
  simp only [edges,List.mem_flatMap,List.mem_map,Prod.mk.injEq,← hperm.mem_iff]
  constructor
  · rintro ⟨b,hb,_,hm,rfl,rfl⟩
    obtain ⟨i,hi⟩ := List.mem_iff_getElem?.1 hb
    rw [h.number i b hi,Int.toNat_natCast] at hm ⊢
    exact (h.mem_preds_iff hs (List.getElem?_eq_some_iff.1 hi).1).1 hm
  · intro he
    obtain ⟨_,b, -,hb, -⟩ := id he
    have hnum : (t.number b).toNat = n := by simp [h.number n b hb]
    refine ⟨b,List.mem_of_getElem? hb,m,?_,rfl,hnum⟩
    rw [hnum]
    exact (h.mem_preds_iff hs (List.getElem?_eq_some_iff.1 hb).1).2 he

end Traversal

/-- The loop headers are the targets of back edges, each once, and the loop of a header consists
of the natural loops for its back edges, which it dominates. -/
theorem computeLoops_exact (g : ControlFlow) (number : ℕ → ℤ) (predecessors : ℕ → List ℕ)
    (loopInfo : ℕ → Finset ℕ) : ∃ t s, g.discoverBlocks number predecessors = some t ∧
      t.computeLoops loopInfo = some s ∧ s.headers.Nodup ∧
      ∀ n, (n ∈ s.headers ↔ ∃ m, t.Edge g m n ∧ Dominates (t.Edge g) 0 n m) ∧
        (n ∈ s.headers → ∀ b, (b ∈ s.loopInfo n ↔
            ∃ m, t.Edge g m n ∧ Dominates (t.Edge g) 0 n m ∧ NaturalLoop (t.Edge g) m n b) ∧
          (b ∈ s.loopInfo n → Dominates (t.Edge g) 0 n b)) := by
  obtain ⟨t,ht,h,hs⟩ := g.discoverBlocks_inv number predecessors
  have hedges := fun m n => h.mem_edges_iff hs (m := m) (n := n) (g.runTraversal_perm _ (.refl _) ht)
  have hstart : t.Recorded g [] ⟨[],loopInfo⟩ := by constructor <;> simp
  obtain ⟨s,hrun,hr⟩ := h.foldlM_visitEdge hs hstart t.edges fun e => (hedges e.1 e.2).1
  refine ⟨t,s,ht,hrun,hr.nodup,fun n => ⟨by simp [hr.header,hedges],fun hn b => ?_⟩⟩
  have hinfo := hr.info n hn b
  simp only [List.nil_append,hedges] at hinfo
  refine ⟨hinfo,fun hb => ?_⟩
  obtain ⟨m, -,hdom,rfl | hpath⟩ := hinfo.1 hb
  · exact .refl b
  · exact hdom.of_path hpath

end DartSdk.FlowGraph
