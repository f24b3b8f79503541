import DartSdk.Iteration

/-! `FlowGraph::InsertPhis` of `vm/flow_graph.cc`. Blocks are given by their preorder numbers, and a
dominance frontier by the numbers that its iterator visits. -/
namespace DartSdk.FlowGraph
open List Finset
open Function (update update_apply)

/-- What the insertion reads; `alwaysLive` is `!FLAG_prune_dead_locals` or the variable is the
current context. -/
structure Assignments (n : ℕ) where
  assignedVars : Fin n → ℕ → Bool
  domFrontier : Fin n → List (Fin n)
  variableCount : ℕ
  alwaysLive : ℕ → Bool

/-- The arrays, with the last element of the worklist first. `phis` has the variables for which
a phi was inserted in a block. -/
structure PhiInsertion (n : ℕ) where
  hasAlready : Fin n → ℤ
  work : Fin n → ℤ
  worklist : List (Fin n)
  phis : Fin n → List ℕ
  livePhis : List (Fin n × ℕ)

namespace Assignments
variable {n : ℕ} (g : Assignments n) (v : ℕ) (s : PhiInsertion n) (b : Fin n)

def push : PhiInsertion n := { s with work := update s.work b v, worklist := b :: s.worklist }

/-- A block with an assignment goes on the worklist. -/
def addAssigned : PhiInsertion n := if g.assignedVars b v then push v s b else s

def insertPhi : PhiInsertion n :=
  { s with
    phis := update s.phis b (v :: s.phis b)
    livePhis := if g.alwaysLive v then s.livePhis ++ [(b,v)] else s.livePhis
    hasAlready := update s.hasAlready b v }

/-- One block of the dominance frontier of the current block. -/
def ensurePhi : PhiInsertion n :=
  if s.hasAlready b < v then
    if s.work b < v then push v (g.insertPhi v s b) b else g.insertPhi v s b
  else s

/-- The worklist loop, for at most `fuel` blocks. -/
def drain (v : ℕ) : ℕ → PhiInsertion n → Option (PhiInsertion n)
  | 0, s => if s.worklist = [] then some s else none
  | fuel+1, s =>
    match s.worklist with
    | [] => some s
    | current :: rest =>
      drain v fuel ((g.domFrontier current).foldl (g.ensurePhi v) { s with worklist := rest })

def insertPhisFor : Option (PhiInsertion n) :=
  g.drain v n ((List.finRange n).foldl (g.addAssigned v) s)

def insertPhis : Option (PhiInsertion n) :=
  (List.range g.variableCount).foldlM (fun s v => g.insertPhisFor v s)
    ⟨fun _ => -1,fun _ => -1,[],fun _ => [],[]⟩

/-- The least set with the frontiers of the blocks that assign `v` and of its own blocks. -/
inductive InIteratedFrontier : Fin n → Prop
  | assigned {a b : Fin n} : g.assignedVars a v → b ∈ g.domFrontier a → InIteratedFrontier b
  | step {a b : Fin n} : InIteratedFrontier a → b ∈ g.domFrontier a → InIteratedFrontier b

/-- The state while phis for `v` are inserted. The blocks `seeds` are still to be tested for an
assignment, the blocks `todo` are left in the frontier of the current block, and `phis` is from
the earlier variables. -/
structure Inv (phis : Fin n → List ℕ) (seeds todo : List (Fin n)) : Prop where
  work_le : ∀ b, s.work b ≤ v
  already_le : ∀ b, s.hasAlready b ≤ v
  phis_eq : ∀ b, s.phis b = if s.hasAlready b = v then v :: phis b else phis b
  already : ∀ b, s.hasAlready b = v → g.InIteratedFrontier v b ∧ s.work b = v
  work : ∀ b, s.work b = v → g.assignedVars b v ∨ g.InIteratedFrontier v b
  seeded : ∀ b, if b ∈ seeds then s.work b < v else g.assignedVars b v → s.work b = v
  left : ∀ b ∈ todo, g.InIteratedFrontier v b
  listed : ∀ b ∈ s.worklist, s.work b = v
  done : ∀ b, s.work b = v → b ∈ s.worklist ∨ ∀ c ∈ g.domFrontier b, s.hasAlready c = v ∨ c ∈ todo

/-- The number of blocks that are or can be put on the worklist. -/
def load : ℕ := s.worklist.length+(Finset.univ.filter fun b => s.work b < v).card

variable {g v s b} {phis : Fin n → List ℕ} {seeds todo : List (Fin n)}

lemma load_push (h : s.work b < v) : load v (push v s b) = load v s := by
  have hfilter : (univ.filter fun c => (push v s b).work c < v) =
      (univ.filter fun c => s.work c < v).erase b := by
    ext c
    rw [Finset.mem_erase,Finset.mem_filter,Finset.mem_filter]
    rcases eq_or_ne c b with rfl | hc <;> simp [push, *]
  have hb : b ∈ Finset.univ.filter fun c => s.work c < v := by simpa using h
  have hpos := Finset.card_pos.2 ⟨b,hb⟩
  rw [load,load,hfilter,Finset.card_erase_of_mem hb]
  simp only [push,length_cons]
  omega

lemma Inv.addAssigned (h : g.Inv v s phis (b :: seeds) []) (hb : b ∉ seeds) :
    g.Inv v (g.addAssigned v s b) phis seeds [] ∧ load v (g.addAssigned v s b) = load v s := by
  have hwork : s.work b < v := by simpa using h.seeded b
  unfold Assignments.addAssigned
  split_ifs with ha
  · refine ⟨?_,load_push hwork⟩
    unfold push
    constructor <;> grind [Inv,update_apply]
  · refine ⟨?_,rfl⟩
    constructor <;> grind [Inv]

lemma Inv.ensurePhi (h : g.Inv v s phis [] (b :: todo)) :
    g.Inv v (g.ensurePhi v s b) phis [] todo ∧ load v (g.ensurePhi v s b) = load v s := by
  unfold Assignments.ensurePhi
  split_ifs with ha hw
  · refine ⟨?_,load_push hw⟩
    unfold push insertPhi
    constructor <;> grind [Inv,update_apply]
  · refine ⟨?_,rfl⟩
    unfold insertPhi
    constructor <;> grind [Inv,update_apply]
  · refine ⟨?_,rfl⟩
    constructor <;> grind [Inv]

lemma Inv.foldl_addAssigned (hseeds : seeds.Nodup) (h : g.Inv v s phis seeds []) :
    g.Inv v (seeds.foldl (g.addAssigned v) s) phis [] [] ∧
      load v (seeds.foldl (g.addAssigned v) s) = load v s := by
  induction seeds generalizing s with
  | nil => exact ⟨h,rfl⟩
  | cons b seeds ih =>
    rw [nodup_cons] at hseeds
    obtain ⟨hb,hload⟩ := h.addAssigned hseeds.1
    rw [foldl_cons,← hload]
    exact ih hseeds.2 hb

lemma Inv.foldl_ensurePhi (h : g.Inv v s phis [] todo) :
    g.Inv v (todo.foldl (g.ensurePhi v) s) phis [] [] ∧
      load v (todo.foldl (g.ensurePhi v) s) = load v s := by
  induction todo generalizing s with
  | nil => exact ⟨h,rfl⟩
  | cons b todo ih =>
    obtain ⟨hb,hload⟩ := h.ensurePhi
    rw [foldl_cons,← hload]
    exact ih hb

lemma Inv.pop {rest : List (Fin n)} (h : g.Inv v s phis [] []) (hs : s.worklist = b :: rest) :
    g.Inv v { s with worklist := rest } phis [] (g.domFrontier b) := by
  constructor <;> grind [Inv,InIteratedFrontier]

/-- A block leaves the worklist at each round and comes back for no other variable. -/
lemma drain_total (fuel : ℕ) (h : g.Inv v s phis [] []) (hload : load v s ≤ fuel) :
    ∃ t, g.drain v fuel s = some t ∧ g.Inv v t phis [] [] ∧ t.worklist = [] := by
  induction fuel generalizing s with
  | zero =>
    have hs : s.worklist = [] := length_eq_zero_iff.1 (by unfold load at hload; omega)
    exact ⟨s,by simp [drain,hs],h,hs⟩
  | succ fuel ih =>
    cases hs : s.worklist with
    | nil => exact ⟨s,by simp [drain,hs],h,hs⟩
    | cons b rest =>
      obtain ⟨hinv,hl⟩ := (h.pop hs).foldl_ensurePhi
      have hpop : load v { s with worklist := rest }+1 = load v s := by
        simp only [load,hs,length_cons]
        omega
      rw [drain,hs]
      exact ih hinv (by omega)

/-- The state before the phis for `v` are inserted. -/
structure Before (g : Assignments n) (v : ℕ) (s : PhiInsertion n) : Prop where
  already_lt : ∀ b, s.hasAlready b < v
  work_lt : ∀ b, s.work b < v
  worklist : s.worklist = []
  nodup : ∀ b, (s.phis b).Nodup
  mem_phis : ∀ b u, u ∈ s.phis b ↔ u < v ∧ g.InIteratedFrontier u b

lemma insertPhisFor_total (h : Before g v s) :
    ∃ t, g.insertPhisFor v s = some t ∧ Before g (v+1) t := by
  have hinit : g.Inv v s s.phis (finRange n) [] := by
    constructor <;> grind [Before]
  obtain ⟨hinv,hload⟩ := hinit.foldl_addAssigned (nodup_finRange n)
  have hle : load v s ≤ n := by
    simpa [load,h.worklist] using card_filter_le (univ : Finset (Fin n)) _
  obtain ⟨t,hrun,ht,hnil⟩ := drain_total n hinv (hload.trans_le hle)
  have hclosed : ∀ b, t.work b = v → ∀ c ∈ g.domFrontier b, t.hasAlready c = v := by
    simpa [hnil] using ht.done
  have hfrontier : ∀ b, g.InIteratedFrontier v b → t.hasAlready b = v := by
    intro b hb
    induction hb with
    | assigned ha hb => exact hclosed _ (by simpa using ht.seeded _ ha) _ hb
    | step _ hb ih => exact hclosed _ (ht.already _ ih).2 _ hb
  refine ⟨t,hrun,?_⟩
  constructor <;> grind [Inv,Before]

theorem insertPhis_exact (g : Assignments n) :
    ∃ s, g.insertPhis = some s ∧ ∀ v < g.variableCount, ∀ b,
      (v ∈ s.phis b ↔ g.InIteratedFrontier v b) ∧ (v ∈ s.phis b → (s.phis b).count v = 1) := by
  obtain ⟨s,hrun,hs⟩ := Iteration.foldlM_range_total (Before g)
    (s := ⟨fun _ => -1,fun _ => -1,[],fun _ => [],[]⟩)
    (by constructor <;> simp) fun v _ s hs => insertPhisFor_total hs
  refine ⟨s,hrun,fun v hv b => ⟨by simp [hs.mem_phis,hv],List.count_eq_one_of_mem (hs.nodup b)⟩⟩

end Assignments
end DartSdk.FlowGraph
