import DartSdk.SpanningTree

/-! `FlowGraph::DiscoverBlocks` of `vm/flow_graph.cc` traverses the blocks depth first with an
explicit stack, starting from whatever an earlier traversal left in the blocks. The result is a
depth-first spanning tree of the reachable blocks. -/
namespace DartSdk.FlowGraph
open Function (update update_of_ne update_self)
open SpanningTree Dominance List

/-- Blocks are `0, …, size - 1`; block 0 is the graph entry, which has no predecessors. -/
structure ControlFlow where
  size : ℕ
  successors : ℕ → List ℕ
  size_pos : 0 < size
  successor_lt : ∀ b < size, ∀ c ∈ successors b, c < size
  entry : ∀ b < size, 0 ∉ successors b

/-- The arrays of the traversal, the fields of the blocks, and the stack. A frame has the
successors that are still to be read, the next one first. -/
structure Traversal where
  preorder : List ℕ
  parent : List ℕ
  postorder : List ℕ
  number : ℕ → ℤ
  predecessors : ℕ → List ℕ
  stack : List (ℕ × List ℕ)

namespace Traversal

variable (t : Traversal)

/-- The block has a number in the range of the array and is in the array at that index. -/
def isMarked (block : ℕ) : Bool :=
  0 ≤ t.number block ∧ t.number block < t.preorder.length ∧
    t.preorder[(t.number block).toNat]? = some block

/-- `AddPredecessor` keeps the predecessors sorted. -/
def insertPredecessor (pred : ℕ) : List ℕ → List ℕ
  | [] => [pred]
  | q :: qs => if q < pred then q :: insertPredecessor pred qs else pred :: q :: qs

def addPredecessor (block pred : ℕ) : Traversal :=
  { t with
    predecessors := update t.predecessors block
      (insertPredecessor pred (t.predecessors block)) }

/-- The first visit of a block. The graph entry has no predecessor; its parent, -1 in the
source, is never used. -/
def discover (block : ℕ) (pred : Option ℕ) : Traversal :=
  { t with
    predecessors := update t.predecessors block pred.toList
    parent := t.parent ++ [(pred.map fun p => (t.number p).toNat).getD 0]
    number := update t.number block t.preorder.length
    preorder := t.preorder ++ [block] }

def setStack (stack : List (ℕ × List ℕ)) : Traversal := { t with stack := stack }

def finish (block : ℕ) : Traversal := { t with postorder := t.postorder ++ [block] }

end Traversal

namespace ControlFlow
variable (g : ControlFlow)

/-- A new frame reads the successors from the last to the first. -/
def frame (block : ℕ) : ℕ × List ℕ := (block,(g.successors block).reverse)

def step (t : Traversal) : Traversal :=
  match t.stack with
  | [] => t
  | (block,[]) :: rest => (t.setStack rest).finish block
  | (block,succ :: more) :: rest =>
    let t := t.setStack ((block,more) :: rest)
    if t.isMarked succ then t.addPredecessor succ block
    else (t.discover succ (some block)).setStack (g.frame succ :: t.stack)

/-- The loop, for at most `fuel` steps. -/
def runTraversal : ℕ → Traversal → Option Traversal
  | 0, t => if t.stack = [] then some t else none
  | fuel+1, t => if t.stack = [] then some t else runTraversal fuel (g.step t)

/-- One step for each frame and one for each successor. -/
def traversalSteps : ℕ := ∑ b ∈ Finset.range g.size, ((g.successors b).length+1)

/-- `DiscoverBlocks`; the numbers and predecessors of the blocks are left from earlier. -/
def startTraversal (number : ℕ → ℤ) (predecessors : ℕ → List ℕ) : Traversal :=
  (Traversal.discover ⟨[],[],[],number,predecessors,[]⟩ 0 none).setStack [g.frame 0]

def discoverBlocks (number : ℕ → ℤ) (predecessors : ℕ → List ℕ) : Option Traversal :=
  g.runTraversal g.traversalSteps (g.startTraversal number predecessors)

end ControlFlow

namespace Traversal
variable {t t' : Traversal} {a b c i j : ℕ}

/-- The spanning-tree parent by preorder numbers. -/
def parentOf (t : Traversal) (i : ℕ) : ℕ := t.parent.getD i 0

/-- The edge from `a` to `c` was followed. -/
def Seen (t : Traversal) (a c : ℕ) : Prop :=
  ∃ i j, t.preorder[i]? = some a ∧ t.preorder[j]? = some c ∧ (i < j → Anc t.parentOf i j) ∧
    a ∈ t.predecessors c

/-- The block of a frame is an ancestor of all later blocks, and the successors that are not
left have been followed. -/
structure Open (g : ControlFlow) (t : Traversal) (f : ℕ × List ℕ) : Prop where
  anc : ∃ i, t.preorder[i]? = some f.1 ∧ ∀ j, i ≤ j → j < t.preorder.length → Anc t.parentOf i j
  followed : ∃ done, (g.successors f.1).reverse = done ++ f.2 ∧ ∀ c ∈ done, t.Seen f.1 c

/-- A vertex with its place in the tree. -/
structure Placed (g : ControlFlow) (t : Traversal) (i : ℕ) : Prop where
  parent_lt : t.parentOf i < i
  preorder : Anc t.parentOf (t.parentOf i) (i-1)
  edge : ∃ a b, t.preorder[t.parentOf i]? = some a ∧ t.preorder[i]? = some b ∧ b ∈ g.successors a

structure Inv (g : ControlFlow) (t : Traversal) : Prop where
  length : t.parent.length = t.preorder.length
  entry : t.preorder[0]? = some 0
  nodup : t.preorder.Nodup
  number : ∀ (i : ℕ) (b : ℕ), t.preorder[i]? = some b → t.number b = i
  lt_size : ∀ b ∈ t.preorder, b < g.size
  placed : ∀ i, 0 < i → i < t.preorder.length → Placed g t i
  frames : ∀ f ∈ t.stack, Open g t f
  order : t.stack.Pairwise fun f f' => t.number f'.1 < t.number f.1
  finished : ∀ a ∈ t.preorder, (∀ f ∈ t.stack, f.1 ≠ a) → ∀ c ∈ g.successors a, t.Seen a c
  predecessors : ∀ c ∈ t.preorder, ∀ a ∈ t.predecessors c, a ∈ t.preorder ∧ c ∈ g.successors a

lemma mem_insertPredecessor {p q : ℕ} {l : List ℕ} : q ∈ insertPredecessor p l ↔ q = p ∨ q ∈ l := by
  induction l with
  | nil => simp [insertPredecessor]
  | cons x l ih =>
    unfold insertPredecessor
    split_ifs
    · rw [mem_cons,ih,mem_cons]
      tauto
    · exact mem_cons

lemma Inv.isMarked_iff {g : ControlFlow} (h : Inv g t) : t.isMarked b = true ↔ b ∈ t.preorder := by
  unfold isMarked
  rw [decide_eq_true_eq]
  constructor
  · rintro ⟨-, -,hb⟩
    exact mem_of_getElem? hb
  · intro hb
    obtain ⟨i,hi⟩ := mem_iff_getElem?.1 hb
    have hnum := h.number i b hi
    obtain ⟨hlt, -⟩ := List.getElem?_eq_some_iff.1 hi
    rw [hnum]
    exact ⟨by omega,by exact_mod_cast hlt,hi⟩

/-- `t'` has what `t` has, and maybe more. -/
structure Ext (t t' : Traversal) : Prop where
  preorder : ∀ {i b : ℕ}, t.preorder[i]? = some b → t'.preorder[i]? = some b
  anc : ∀ {i j : ℕ}, j < t.preorder.length → Anc t.parentOf i j → Anc t'.parentOf i j
  predecessors : ∀ {a c}, c ∈ t.preorder → a ∈ t.predecessors c → a ∈ t'.predecessors c

lemma Seen.mono (h : t.Seen a c) (he : Ext t t') : t'.Seen a c := by
  obtain ⟨i,j,hi,hj,hanc,hpred⟩ := h
  obtain ⟨hlt, -⟩ := List.getElem?_eq_some_iff.1 hj
  exact ⟨i,j,he.preorder hi,he.preorder hj,fun hij => he.anc hlt (hanc hij),
    he.predecessors (List.mem_of_getElem? hj) hpred⟩

section Steps
variable {g : ControlFlow} {block : ℕ} {more : List ℕ} {rest : List (ℕ × List ℕ)}

lemma Inv.pop (h : Inv g t) (hs : t.stack = (block,[]) :: rest) :
    Inv g ((t.setStack rest).finish block) := by
  have hframe := h.frames (block,[]) (hs ▸ mem_cons_self)
  have hrest : ∀ f ∈ rest, f ∈ t.stack := fun f hf => hs ▸ mem_cons_of_mem _ hf
  have horder := h.order
  rw [hs] at horder
  refine ⟨h.length,h.entry,h.nodup,h.number,h.lt_size,
    fun i hpos hi => ⟨(h.placed i hpos hi).parent_lt,(h.placed i hpos hi).preorder,
      (h.placed i hpos hi).edge⟩,
    fun f hf => ⟨(h.frames f (hrest f hf)).anc,(h.frames f (hrest f hf)).followed⟩,
    horder.of_cons,?_,h.predecessors⟩
  intro a ha hnot c hc
  by_cases hab : a = block
  · -- The popped block has no successors left.
    subst hab
    obtain ⟨done,hdone,hseen⟩ := hframe.followed
    rw [append_nil] at hdone
    exact hseen c (hdone ▸ mem_reverse.2 hc)
  · refine h.finished a ha (fun f hf => ?_) c hc
    rw [hs] at hf
    rcases mem_cons.1 hf with rfl | hf
    · exact fun heq => hab heq.symm
    · exact hnot f hf

lemma ext_addPredecessor (t : Traversal) (stack : List (ℕ × List ℕ)) (c block : ℕ) :
    Ext t ((t.setStack stack).addPredecessor c block) := by
  refine ⟨fun h => h,fun _ h => h,fun {a c'} _ ha => ?_⟩
  change a ∈ update t.predecessors c _ c'
  by_cases heq : c' = c
  · subst heq
    rw [update_self]
    exact mem_insertPredecessor.2 (.inr ha)
  · rwa [update_of_ne heq]

lemma Open.seen (hopen : Open g t (block,c :: more)) (hc : c ∈ t.preorder) :
    (t.addPredecessor c block).Seen block c := by
  obtain ⟨i,hi,hanc⟩ := hopen.anc
  obtain ⟨j,hj⟩ := List.mem_iff_getElem?.1 hc
  obtain ⟨hlt, -⟩ := List.getElem?_eq_some_iff.1 hj
  refine ⟨i,j,hi,hj,fun hij => hanc j hij.le hlt,?_⟩
  change block ∈ update t.predecessors c _ c
  rw [update_self]
  exact mem_insertPredecessor.2 (.inl rfl)

lemma followed_next {succs done : List ℕ} (hdone : succs = done ++ c :: more)
    (hseen : ∀ e ∈ done, t.Seen block e) (hc : t.Seen block c) :
    ∃ done, succs = done ++ more ∧ ∀ e ∈ done, t.Seen block e := by
  refine ⟨done ++ [c],by rw [hdone,append_assoc,singleton_append],fun e he => ?_⟩
  rcases mem_append.1 he with he | he
  · exact hseen e he
  · rwa [mem_singleton.1 he]

lemma Inv.successor_mem (h : Inv g t) (hs : t.stack = (block,c :: more) :: rest) :
    block ∈ t.preorder ∧ c ∈ g.successors block := by
  have hopen := h.frames _ (hs ▸ mem_cons_self)
  obtain ⟨i,hi, -⟩ := hopen.anc
  obtain ⟨done,hdone, -⟩ := hopen.followed
  refine ⟨mem_of_getElem? hi,mem_reverse.1 ?_⟩
  rw [hdone]
  exact mem_append_right _ mem_cons_self

lemma Inv.revisit (h : Inv g t) (hs : t.stack = (block,c :: more) :: rest) (hc : c ∈ t.preorder) :
    Inv g ((t.setStack ((block,more) :: rest)).addPredecessor c block) := by
  have hopen := h.frames _ (hs ▸ mem_cons_self)
  have hrest : ∀ f ∈ rest, f ∈ t.stack := fun f hf => hs ▸ mem_cons_of_mem _ hf
  have hext := ext_addPredecessor t ((block,more) :: rest) c block
  have horder := h.order
  rw [hs] at horder
  refine ⟨h.length,h.entry,h.nodup,h.number,h.lt_size,
    fun i hpos hi => ⟨(h.placed i hpos hi).parent_lt,(h.placed i hpos hi).preorder,
      (h.placed i hpos hi).edge⟩,?_,?_,?_,?_⟩
  · intro f hf
    rcases mem_cons.1 hf with rfl | hf
    · obtain ⟨done,hdone,hseen⟩ := hopen.followed
      exact ⟨hopen.anc,followed_next hdone (fun e he => (hseen e he).mono hext) (hopen.seen hc)⟩
    · have hf' := h.frames f (hrest f hf)
      obtain ⟨done,hdone,hseen⟩ := hf'.followed
      exact ⟨hf'.anc,done,hdone,fun e he => (hseen e he).mono hext⟩
  · exact horder.of_cons.cons fun f hf => (pairwise_cons.1 horder).1 f hf
  · intro a ha hnot e he
    refine (h.finished a ha (fun f hf => ?_) e he).mono hext
    rw [hs] at hf
    rcases mem_cons.1 hf with rfl | hf
    · exact hnot (block,more) mem_cons_self
    · exact hnot f (mem_cons_of_mem _ hf)
  · intro c' hc' a ha
    change a ∈ update t.predecessors c _ c' at ha
    by_cases heq : c' = c
    · subst heq
      rw [update_self] at ha
      rcases mem_insertPredecessor.1 ha with rfl | ha
      · exact h.successor_mem hs
      · exact h.predecessors c' hc' a ha
    · rw [update_of_ne heq] at ha
      exact h.predecessors c' hc' a ha

/-! A newly discovered block. -/

lemma parentOf_discover {p : Option ℕ} (hlen : t.parent.length = t.preorder.length)
    (hi : i < t.preorder.length) : (t.discover c p).parentOf i = t.parentOf i := by
  unfold parentOf discover
  rw [getD_append _ _ _ _ (by omega)]

lemma parentOf_discover_self {p : ℕ} (hlen : t.parent.length = t.preorder.length) :
    (t.discover c (some p)).parentOf t.preorder.length = (t.number p).toNat := by
  unfold parentOf discover
  rw [getD_append_right _ _ _ _ (by omega),hlen,Nat.sub_self]
  rfl

lemma anc_congr {p q : ℕ → ℕ} (h : Anc p a b) (hlt : ∀ i, 0 < i → i ≤ b → p i < i)
    (heq : ∀ i, 0 < i → i ≤ b → q i = p i) : Anc q a b := by
  induction h with
  | refl => exact .refl
  | @step b hpos _ ih =>
    have hb := hlt b hpos le_rfl
    refine .step hpos ?_
    rw [heq b hpos le_rfl]
    exact ih (fun i hi hib => hlt i hi (by omega)) fun i hi hib => heq i hi (by omega)

variable (h : Inv g t)
include h

lemma Inv.anc_discover {p : Option ℕ} (hj : j < t.preorder.length)
    (hanc : Anc t.parentOf i j) : Anc (t.discover c p).parentOf i j :=
  anc_congr hanc (fun k hk hkj => (h.placed k hk (by omega)).parent_lt)
    fun k _ hkj => parentOf_discover h.length (by omega)

lemma Inv.ext_discover (hc : c ∉ t.preorder) (p : Option ℕ) : Ext t (t.discover c p) := by
  refine ⟨fun {i b} hi => ?_,fun hj hanc => h.anc_discover hj hanc,fun {a e} he ha => ?_⟩
  · obtain ⟨hlt, -⟩ := List.getElem?_eq_some_iff.1 hi
    exact (List.getElem?_append_left hlt).trans hi
  · change a ∈ update t.predecessors c _ e
    rwa [update_of_ne fun heq : e = c => hc (heq ▸ he)]

omit h in
lemma getElem?_discover_self (t : Traversal) (c : ℕ) (p : Option ℕ) :
    (t.discover c p).preorder[t.preorder.length]? = some c :=
  getElem?_concat_length

variable (hs : t.stack = (block,c :: more) :: rest)
include hs

lemma Inv.anc_new {f : ℕ × List ℕ} (hf : f ∈ t.stack) (hi : t.preorder[i]? = some f.1) :
    Anc (t.discover c (some block)).parentOf i t.preorder.length := by
  have hopen := h.frames f hf
  obtain ⟨i',hi',hanc⟩ := hopen.anc
  obtain ⟨k,hk, -⟩ := (h.frames _ (hs ▸ mem_cons_self)).anc
  have hnum := h.number k block hk
  obtain ⟨hlt, -⟩ := List.getElem?_eq_some_iff.1 hk
  obtain ⟨hpos, -⟩ := List.getElem?_eq_some_iff.1 h.entry
  have hii' : i' = i := by
    have h1 := h.number i' f.1 hi'
    have h2 := h.number i f.1 hi
    omega
  subst hii'
  have hik : i' ≤ k := by
    rw [hs] at hf
    rcases mem_cons.1 hf with rfl | hf
    · have h1 := h.number i' block hi
      omega
    · have horder := h.order
      rw [hs] at horder
      have h1 := (pairwise_cons.1 horder).1 f hf
      have h2 := h.number i' f.1 hi
      dsimp only at h1
      omega
  refine .step hpos ?_
  rw [parentOf_discover_self h.length,hnum,Int.toNat_natCast]
  exact h.anc_discover hlt (hanc k hik hlt)

variable (hc : c ∉ t.preorder)
include hc

lemma Inv.open_discover {f : ℕ × List ℕ} (hf : f ∈ t.stack) : ∃ i,
      (t.discover c (some block)).preorder[i]? = some f.1 ∧ ∀ j, i ≤ j → j <
      (t.discover c (some block)).preorder.length →
      Anc (t.discover c (some block)).parentOf i j := by
  obtain ⟨i,hi,hanc⟩ := (h.frames f hf).anc
  refine ⟨i,(h.ext_discover hc (some block)).preorder hi,fun j hij hj => ?_⟩
  change j < (t.preorder ++ [c]).length at hj
  rw [length_append,length_singleton] at hj
  rcases (Nat.lt_succ_iff.1 hj).lt_or_eq with hlt | rfl
  · exact h.anc_discover hlt (hanc j hij hlt)
  · exact h.anc_new hs hf hi

lemma Inv.placed_discover (hpos : 0 < i) (hi : i < t.preorder.length+1) :
    Placed g (t.discover c (some block)) i := by
  have hext := h.ext_discover hc (some block)
  rcases (Nat.lt_succ_iff.1 hi).lt_or_eq with hlt | rfl
  · have hp := h.placed i hpos hlt
    have heq : (t.discover c (some block)).parentOf i = t.parentOf i :=
      parentOf_discover h.length hlt
    obtain ⟨a,b,ha,hb,hedge⟩ := hp.edge
    refine ⟨by rw [heq]; exact hp.parent_lt,?_,a,b,by rw [heq]; exact hext.preorder ha,
      hext.preorder hb,hedge⟩
    rw [heq]
    exact h.anc_discover (by omega) hp.preorder
  · obtain ⟨k,hk,hanc⟩ := (h.frames _ (hs ▸ List.mem_cons_self)).anc
    obtain ⟨hlt, -⟩ := List.getElem?_eq_some_iff.1 hk
    have heq : (t.discover c (some block)).parentOf t.preorder.length = k := by
      rw [parentOf_discover_self h.length,h.number k block hk,Int.toNat_natCast]
    refine ⟨by rw [heq]; exact hlt,?_,block,c,by rw [heq]; exact hext.preorder hk,
      getElem?_discover_self t c _,(h.successor_mem hs).2⟩
    rw [heq]
    exact h.anc_discover (by omega) (hanc _ (by omega) (by omega))

lemma Inv.seen_discover : (t.discover c (some block)).Seen block c := by
  obtain ⟨k,hk, -⟩ := (h.frames _ (hs ▸ mem_cons_self)).anc
  refine ⟨k,_,(h.ext_discover hc _).preorder hk,getElem?_discover_self t c _,
    fun _ => h.anc_new hs (hs ▸ mem_cons_self) hk,?_⟩
  change block ∈ update t.predecessors c _ c
  rw [update_self]
  exact mem_singleton_self block

omit hc

omit hs in
lemma Inv.number_discover (hc : c ∉ t.preorder) (p : Option ℕ)
    (hi : (t.discover c p).preorder[i]? = some b) : (t.discover c p).number b = i := by
  change (t.preorder ++ [c])[i]? = some b at hi
  change update t.number c t.preorder.length b = i
  rcases lt_or_ge i t.preorder.length with hlt | hge
  · rw [getElem?_append_left hlt] at hi
    rw [update_of_ne fun heq : b = c => hc (heq ▸ mem_of_getElem? hi)]
    exact h.number i b hi
  · rw [getElem?_append_right hge,getElem?_singleton] at hi
    split_ifs at hi with h0
    cases hi
    rw [update_self]
    omega

lemma Inv.enter (hc : c ∉ t.preorder) :
    Inv g (((t.setStack ((block,more) :: rest)).discover c (some block)).setStack
      (g.frame c :: (block,more) :: rest)) := by
  have hext := h.ext_discover hc (some block)
  have hext' : Ext t (((t.setStack ((block,more) :: rest)).discover c (some block)).setStack
      (g.frame c :: (block,more) :: rest)) := ⟨hext.preorder,hext.anc,hext.predecessors⟩
  have hrest : ∀ f ∈ rest, f ∈ t.stack := fun f hf => hs ▸ mem_cons_of_mem _ hf
  have htop : (block,c :: more) ∈ t.stack := hs ▸ mem_cons_self
  obtain ⟨hmem,hsucc⟩ := h.successor_mem hs
  have hmem' : ∀ e, e ∈ t.preorder ++ [c] ↔ e ∈ t.preorder ∨ e = c := fun e => by simp
  have hlength : (t.preorder ++ [c]).length = t.preorder.length+1 := by simp
  -- Numbers of blocks on the stack are those before the discovery.
  have hnum : ∀ f ∈ t.stack, update t.number c t.preorder.length f.1 = t.number f.1 ∧
      t.number f.1 < t.preorder.length := by
    intro f hf
    obtain ⟨i,hi, -⟩ := (h.frames f hf).anc
    obtain ⟨hlt, -⟩ := List.getElem?_eq_some_iff.1 hi
    rw [update_of_ne fun heq : f.1 = c => hc (heq ▸ List.mem_of_getElem? hi),h.number i f.1 hi]
    exact ⟨rfl,by exact_mod_cast hlt⟩
  refine ⟨?_,hext.preorder h.entry,?_,fun i b hi => h.number_discover hc (some block) hi,?_,?_,?_,?_,?_,?_⟩
  · change (t.parent ++ [_]).length = (t.preorder ++ [c]).length
    rw [List.length_append,List.length_append,h.length]
    rfl
  · exact nodup_append.2 ⟨h.nodup,nodup_singleton c,fun x hx y hy heq =>
      hc (by rw [← mem_singleton.1 hy,← heq]; exact hx)⟩
  · intro e he
    rcases (hmem' e).1 he with he | rfl
    · exact h.lt_size e he
    · exact g.successor_lt block (h.lt_size block hmem) e hsucc
  · intro i hpos hi
    change i < (t.preorder ++ [c]).length at hi
    rw [hlength] at hi
    have hp := h.placed_discover hs hc hpos hi
    exact ⟨hp.parent_lt,hp.preorder,hp.edge⟩
  · intro f hf
    rcases mem_cons.1 hf with rfl | hf
    · refine ⟨⟨t.preorder.length,getElem?_discover_self t c (some block),fun j hj hlt => ?_⟩,
        [],rfl,fun e he => by cases he⟩
      change j < (t.preorder ++ [c]).length at hlt
      rw [hlength] at hlt
      rw [Nat.le_antisymm (Nat.lt_succ_iff.1 hlt) hj]
      exact .refl
    rcases mem_cons.1 hf with rfl | hf
    · obtain ⟨done,hdone,hseen⟩ := (h.frames _ htop).followed
      exact ⟨h.open_discover hs hc (f := (block,c :: more)) htop,followed_next hdone
        (fun e he => (hseen e he).mono hext') (h.seen_discover hs hc)⟩
    · obtain ⟨done,hdone,hseen⟩ := (h.frames f (hrest f hf)).followed
      exact ⟨h.open_discover hs hc (hrest f hf),done,hdone,fun e he => (hseen e he).mono hext'⟩
  · have horder := h.order
    rw [hs] at horder
    change List.Pairwise (fun f f' : ℕ × List ℕ => update t.number c t.preorder.length f'.1 <
      update t.number c t.preorder.length f.1) (g.frame c :: (block,more) :: rest)
    have hself : update t.number c (t.preorder.length : ℤ) (g.frame c).1 =
      t.preorder.length := update_self _ _ _
    refine pairwise_cons.2 ⟨fun f hf => ?_,pairwise_cons.2 ⟨fun f hf => ?_,?_⟩⟩
    · rw [hself]
      rcases mem_cons.1 hf with rfl | hf
      · rw [(hnum _ htop).1]
        exact (hnum _ htop).2
      · rw [(hnum f (hrest f hf)).1]
        exact (hnum f (hrest f hf)).2
    · rw [(hnum f (hrest f hf)).1,(hnum _ htop).1]
      exact (pairwise_cons.1 horder).1 f hf
    · refine horder.of_cons.imp_of_mem fun {f f'} hf hf' hlt => ?_
      rw [(hnum f (hrest f hf)).1,(hnum f' (hrest f' hf')).1]
      exact hlt
  · intro a ha hnot e he
    have hac : a ≠ c := fun heq => hnot (g.frame c) mem_cons_self heq.symm
    refine (h.finished a (((hmem' a).1 ha).resolve_right hac) (fun f hf => ?_) e he).mono hext'
    rw [hs] at hf
    rcases mem_cons.1 hf with rfl | hf
    · exact hnot (block,more) (mem_cons_of_mem _ mem_cons_self)
    · exact hnot f (mem_cons_of_mem _ (mem_cons_of_mem _ hf))
  · intro e he a ha
    change a ∈ update t.predecessors c [block] e at ha
    by_cases heq : e = c
    · subst heq
      rw [update_self,mem_singleton] at ha
      subst ha
      exact ⟨(hmem' a).2 (.inl hmem),hsucc⟩
    · rw [update_of_ne heq] at ha
      obtain ⟨h1,h2⟩ := h.predecessors e (((hmem' e).1 he).resolve_right heq) a ha
      exact ⟨(hmem' a).2 (.inl h1),h2⟩

omit hs

omit h

variable (g)

lemma Inv.start (number : ℕ → ℤ) (predecessors : ℕ → List ℕ) :
    Inv g (g.startTraversal number predecessors) := by
  refine ⟨rfl,rfl,nodup_singleton 0,fun i b hi => ?_,fun b hb => ?_,fun i hpos hi => ?_,
    fun f hf => ?_,pairwise_singleton _ _,fun a ha hnot => ?_,fun e he a ha => ?_⟩
  · change [0][i]? = some b at hi
    rw [getElem?_singleton] at hi
    split_ifs at hi with h0
    cases hi
    subst h0
    exact update_self 0 _ number
  · rw [mem_singleton.1 hb]
    exact g.size_pos
  · exact absurd (show i < 1 from hi) (by omega)
  · rw [mem_singleton.1 hf]
    refine ⟨⟨0,rfl,fun j _ hj => ?_⟩,[],rfl,fun e he => by cases he⟩
    rw [Nat.lt_one_iff.1 hj]
    exact .refl
  · rw [mem_singleton.1 ha] at hnot
    exact absurd rfl (hnot (g.frame 0) (mem_singleton_self _))
  · rw [mem_singleton.1 he] at ha
    change a ∈ update predecessors 0 [] 0 at ha
    simp at ha

def pending (t : Traversal) : ℕ :=
  (∑ b ∈ (Finset.range g.size).filter (· ∉ t.preorder), ((g.successors b).length+1)) +
    (t.stack.map fun f => f.2.length+1).sum

lemma pending_start (number : ℕ → ℤ) (predecessors : ℕ → List ℕ) :
    pending g (g.startTraversal number predecessors) = g.traversalSteps := by
  have hfilter : (Finset.range g.size).filter (· ∉ [0]) = (Finset.range g.size).erase 0 := by
    ext b
    simp [and_comm]
  unfold pending ControlFlow.traversalSteps
  change (∑ b ∈ (Finset.range g.size).filter (· ∉ [0]), _)+([g.frame 0].map _).sum = _
  rw [hfilter,← Finset.sum_erase_add _ _ (Finset.mem_range.2 g.size_pos)]
  simp [ControlFlow.frame]

variable {g}

lemma Inv.step (h : Inv g t) (hs : t.stack ≠ []) :
    Inv g (g.step t) ∧ pending g (g.step t)+1 = pending g t := by
  unfold ControlFlow.step
  match hstack : t.stack with
  | [] => exact absurd hstack hs
  | (block,[]) :: rest =>
    refine ⟨h.pop hstack,?_⟩
    unfold pending
    rw [hstack]
    rw [map_cons,sum_cons]
    change _ = _+(0+1+_)
    rw [add_comm (0+1),← add_assoc]
    rfl
  | (block,c :: more) :: rest =>
    have hmarked : (t.setStack ((block,more) :: rest)).isMarked c = true ↔ c ∈ t.preorder :=
      h.isMarked_iff
    dsimp only
    split_ifs with hc
    · refine ⟨h.revisit hstack (hmarked.1 hc),?_⟩
      unfold pending
      rw [hstack]
      change (∑ b ∈ (Finset.range g.size).filter (· ∉ t.preorder), _) +
        (((block,more) :: rest).map _).sum+1 = _
      simp only [map_cons,sum_cons,length_cons]
      omega
    · have hc' : c ∉ t.preorder := fun hmem => hc (hmarked.2 hmem)
      obtain ⟨hmem,hsucc⟩ := h.successor_mem hstack
      have hlt := g.successor_lt block (h.lt_size block hmem) c hsucc
      refine ⟨h.enter hstack hc',?_⟩
      have hfilter : (Finset.range g.size).filter (· ∉ t.preorder ++ [c]) =
          ((Finset.range g.size).filter (· ∉ t.preorder)).erase c := by
        ext b
        simp
        tauto
      unfold pending
      rw [hstack]
      change (∑ b ∈ (Finset.range g.size).filter (· ∉ t.preorder ++ [c]), _) +
        ((g.frame c :: (block,more) :: rest).map _).sum+1 = _
      rw [hfilter,← Finset.sum_erase_add _ _ (Finset.mem_filter.2 ⟨Finset.mem_range.2 hlt,hc'⟩)]
      simp only [map_cons,sum_cons,ControlFlow.frame,length_reverse,length_cons]
      omega

lemma runTraversal_total (fuel : ℕ) (h : Inv g t) (hp : pending g t ≤ fuel) :
    ∃ t', g.runTraversal fuel t = some t' ∧ Inv g t' ∧ t'.stack = [] := by
  induction fuel generalizing t with
  | zero =>
    have hs : t.stack = [] := by
      by_contra hs
      have := (h.step hs).2
      omega
    exact ⟨t,if_pos hs,h,hs⟩
  | succ fuel ih =>
    unfold ControlFlow.runTraversal
    split_ifs with hs
    · exact ⟨t,rfl,h,hs⟩
    · obtain ⟨hinv,hpend⟩ := h.step hs
      exact ih hinv (by omega)

end Steps

end Traversal

lemma ControlFlow.discoverBlocks_inv (g : ControlFlow) (number : ℕ → ℤ)
    (predecessors : ℕ → List ℕ) : ∃ t, g.discoverBlocks number predecessors = some t ∧
      Traversal.Inv g t ∧ t.stack = [] :=
  Traversal.runTraversal_total _ (Traversal.Inv.start g number predecessors)
    (Traversal.pending_start g number predecessors).le

def ControlFlow.Edge (g : ControlFlow) (a b : ℕ) : Prop := b ∈ g.successors a

/-- The edges between discovered blocks, by preorder numbers. -/
def Traversal.Edge (g : ControlFlow) (t : Traversal) (i j : ℕ) : Prop :=
  ∃ a b, t.preorder[i]? = some a ∧ t.preorder[j]? = some b ∧ g.Edge a b

def Traversal.block (t : Traversal) (i : ℕ) : ℕ := t.preorder.getD i 0

namespace Traversal
variable {g : ControlFlow} {t : Traversal} {a b i j : ℕ}

lemma block_eq (h : t.preorder[i]? = some b) : t.block i = b := by
  unfold block
  rw [getD_eq_getElem?_getD,h]
  rfl

variable (h : Inv g t)
include h

lemma Inv.index_unique (hi : t.preorder[i]? = some b) (hj : t.preorder[j]? = some b) : i = j := by
  have h1 := h.number i b hi
  have h2 := h.number j b hj
  omega

variable (hs : t.stack = [])
include hs

lemma Inv.seen_all (ha : t.preorder[i]? = some a) (hab : g.Edge a b) : t.Seen a b :=
  h.finished a (mem_of_getElem? ha) (fun f hf => by rw [hs] at hf; cases hf) b hab

lemma Inv.depthFirst : DepthFirst t.preorder.length (t.Edge g) t.parentOf := by
  refine ⟨?_,fun hpos hi => (h.placed _ hpos hi).parent_lt,fun hpos hi => (h.placed _ hpos hi).edge,
    fun hpos hi => (h.placed _ hpos hi).preorder,?_⟩
  · rintro u v ⟨a,b,ha,hb, -⟩
    exact ⟨(List.getElem?_eq_some_iff.1 ha).1,(List.getElem?_eq_some_iff.1 hb).1⟩
  · rintro u v ⟨a,b,ha,hb,hab⟩ huv
    obtain ⟨i,j,hi,hj,hanc, -⟩ := h.seen_all hs ha hab
    obtain rfl := h.index_unique hi ha
    obtain rfl := h.index_unique hj hb
    exact hanc huv

/-- The discovered blocks are the reachable ones, with the same edges. -/
lemma Inv.renaming : Renaming (t.Edge g) 0 g.Edge 0 t.block := by
  have hnum : ∀ {i}, Reachable (t.Edge g) 0 i → t.preorder[i]? = some (t.block i) := by
    rintro i ⟨l,hl⟩
    cases hl with
    | root => rw [h.entry,block_eq h.entry]
    | step _ he =>
      obtain ⟨a,b, -,hb, -⟩ := he
      rw [hb,block_eq hb]
  refine ⟨block_eq h.entry,?_,fun {i c} hi hc => ?_,fun {i j} hi hj heq => ?_⟩
  · rintro i j ⟨a,b,ha,hb,hab⟩
    rwa [block_eq ha,block_eq hb]
  · obtain ⟨-,j, -,hj, -, -⟩ := h.seen_all hs (hnum hi) hc
    exact ⟨j,⟨_,c,hnum hi,hj,hc⟩,block_eq hj⟩
  · exact h.index_unique (hnum hi) (heq ▸ hnum hj)

lemma Inv.reachable (hi : i < t.preorder.length) : Reachable (t.Edge g) 0 i := by
  obtain ⟨l,hl, -⟩ := (h.depthFirst hs).pathTo_root hi
  exact ⟨l,hl⟩

lemma Inv.mem_predecessors_iff (hb : t.preorder[j]? = some b) :
    a ∈ t.predecessors b ↔ ∃ i, t.preorder[i]? = some a ∧ t.Edge g i j := by
  constructor
  · intro ha
    obtain ⟨hmem,hedge⟩ := h.predecessors b (mem_of_getElem? hb) a ha
    obtain ⟨i,hi⟩ := mem_iff_getElem?.1 hmem
    exact ⟨i,hi,a,b,hi,hb,hedge⟩
  · rintro ⟨i,hi,a',b',ha',hb',hedge⟩
    rw [hi] at ha'
    rw [hb] at hb'
    cases ha'
    cases hb'
    obtain ⟨-, -, -, -, -,hpred⟩ := h.seen_all hs hi hedge
    exact hpred

end Traversal

end DartSdk.FlowGraph
