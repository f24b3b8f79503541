import DartSdk.IntegerSelector

/-! A selected definition is exact, because it is a mask into the range of a Uint32 or the box of an
exact definition, or all its users are selected. -/
namespace DartSdk.IntegerSelector
open Utils RangeAnalysis TruncatedArithmetic List FlowGraph Value

variable {g : FlowGraph} {selected : Finset ℕ} {defn : ℕ} {op : Operation}

lemma eq_of_nodup_filterMap {α β : Type*} {f : α → Option β} {l : List α} {i j : α} {d : β}
    (h : (l.filterMap f).Nodup) (hi : i ∈ l) (hj : j ∈ l) (hfi : f i = some d)
    (hfj : f j = some d) : i = j := by
  induction l with
  | nil => cases hi
  | cons a l ih =>
    have hmem : ∀ k ∈ l, f k = some d → f a ≠ some d := by
      intro k hk hfk hfa
      rw [filterMap_cons_some hfa,nodup_cons] at h
      exact h.1 (mem_filterMap.2 ⟨k,hk,hfk⟩)
    have hl : (l.filterMap f).Nodup := h.sublist ((sublist_cons_self a l).filterMap f)
    rcases mem_cons.1 hi with hi | hi <;> rcases mem_cons.1 hj with hj | hj
    · exact hi.trans hj.symm
    · exact absurd (hi ▸ hfi) (hmem j hj hfj)
    · exact absurd (hj ▸ hfj) (hmem i hi hfi)
    · exact ih hl hi hj

def Block.members (b : Block) : List (Phi ⊕ Instruction) :=
  b.phis.map .inl ++ b.instructions.map .inr

def memberIndex : Phi ⊕ Instruction → Option ℕ
  | .inl phi => some phi.ssaTempIndex
  | .inr i => i.ssaTempIndex

lemma members_nodup (g : FlowGraph) :
    ((g.blocks.flatMap Block.members).filterMap memberIndex).Nodup := by
  have h : ∀ b : Block, b.members.filterMap memberIndex = b.definitions := by
    intro b
    unfold Block.members Block.definitions
    rw [filterMap_append,filterMap_map,filterMap_map]
    congr 1
    exact congrFun filterMap_eq_map b.phis
  rw [filterMap_flatMap,funext h]
  exact g.nodup

lemma mem_members_inr {b : Block} {i : Instruction} (hb : b ∈ g.blocks)
    (hi : i ∈ b.instructions) : .inr i ∈ g.blocks.flatMap Block.members :=
  mem_flatMap.2 ⟨b,hb,mem_append_right _ (mem_map_of_mem hi)⟩

lemma mem_members_inl {b : Block} {phi : Phi} (hb : b ∈ g.blocks)
    (hphi : phi ∈ b.phis) : .inl phi ∈ g.blocks.flatMap Block.members :=
  mem_flatMap.2 ⟨b,hb,mem_append_left _ (mem_map_of_mem hphi)⟩

/-- `op` is the operation of the potential definition `defn`. -/
def FlowGraph.Potential (g : FlowGraph) (defn : ℕ) (op : Operation) : Prop :=
  (defn,op) ∈ g.findPotentialUint32Definitions

lemma potential_iff : g.Potential defn op ↔ ∃ b ∈ g.blocks, ∃ i ∈ b.instructions,
    i.ssaTempIndex = some defn ∧ i.operation = op ∧ isPotentialUint32Definition op = true := by
  unfold FlowGraph.Potential findPotentialUint32Definitions
  simp only [mem_flatMap,mem_filterMap,Option.bind_eq_some_iff,
    Option.ite_none_right_eq_some,Option.some.injEq,Prod.mk.injEq]
  constructor
  · rintro ⟨b,hb,i,hi,d,hd,hpot,rfl,rfl⟩
    exact ⟨b,hb,i,hi,hd,rfl,hpot⟩
  · rintro ⟨b,hb,i,hi,hd,rfl,hpot⟩
    exact ⟨b,hb,i,hi,defn,hd,hpot,rfl,rfl⟩

/-- An SSA temporary belongs to one instruction. -/
lemma FlowGraph.Potential.operation_eq {b : Block} {i : Instruction} (h : g.Potential defn op)
    (hb : b ∈ g.blocks) (hi : i ∈ b.instructions) (hd : i.ssaTempIndex = some defn) :
    i.operation = op ∧ isPotentialUint32Definition op = true := by
  obtain ⟨b',hb',j,hj,hdj,rfl,hpot⟩ := potential_iff.1 h
  have heq := eq_of_nodup_filterMap (members_nodup g) (mem_members_inr hb hi)
    (mem_members_inr hb' hj) hd hdj
  cases heq
  exact ⟨rfl,hpot⟩

lemma FlowGraph.Potential.ne_phi {b : Block} {phi : Phi} (h : g.Potential defn op) (hb : b ∈ g.blocks)
    (hphi : phi ∈ b.phis) : phi.ssaTempIndex ≠ defn := by
  intro hd
  obtain ⟨b',hb',j,hj,hdj, -, -⟩ := potential_iff.1 h
  have heq := eq_of_nodup_filterMap (members_nodup g) (mem_members_inl hb hphi)
    (mem_members_inr hb' hj) (congrArg some hd) hdj
  cases heq

lemma mem_inputUseList {b : Block} {i : Instruction} (hb : b ∈ g.blocks) (hi : i ∈ b.instructions)
    (hd : defn ∈ i.operation.inputs) : i.ssaTempIndex ∈ g.inputUseList defn :=
  mem_flatMap.2 ⟨b,hb,mem_append_right _
    (mem_map_of_mem (mem_filter.2 ⟨hi,decide_eq_true hd⟩))⟩

lemma mem_inputUseList_phi {b : Block} {phi : Phi} (hb : b ∈ g.blocks) (hphi : phi ∈ b.phis)
    (hd : defn ∈ phi.inputs) : some phi.ssaTempIndex ∈ g.inputUseList defn :=
  mem_flatMap.2 ⟨b,hb,mem_append_left _
    (mem_map.2 ⟨phi,mem_filter.2 ⟨hphi,decide_eq_true hd⟩,rfl⟩)⟩

lemma mem_envUseList {b : Block} {i : Instruction} (hb : b ∈ g.blocks)
    (hi : i ∈ b.instructions) (hd : defn ∈ i.env) : i.ssaTempIndex ∈ g.envUseList defn :=
  mem_flatMap.2 ⟨b,hb,mem_map_of_mem (mem_filter.2 ⟨hi,decide_eq_true hd⟩)⟩

/-- Definitions whose value is a Uint32 for its own sake. -/
inductive Exact (g : FlowGraph) : ℕ → Prop
  | narrowing {defn : ℕ} {op : Operation} : g.Potential defn op →
      g.isUint32NarrowingDefinition defn op = true → Exact g defn
  | box {defn value : ℕ} : g.Potential defn (.boxInt64 value) → Exact g value → Exact g defn

def UsersSelected (g : FlowGraph) (selected : Finset ℕ) (defn : ℕ) : Prop :=
  ∀ use ∈ g.inputUseList defn ++ g.envUseList defn, ∃ user ∈ selected, use = some user

/-- Why a definition may be selected. -/
structure Selectable (g : FlowGraph) (selected : Finset ℕ) (defn : ℕ) (op : Operation) : Prop where
  potential : g.Potential defn op
  reason : Exact g defn ∨ UsersSelected g selected defn ∧ ∀ value, op ≠ .boxInt64 value
  highBits : g.needsHighBits op = false

def Closed (g : FlowGraph) (selected : Finset ℕ) : Prop :=
  ∀ defn ∈ selected, ∃ op, Selectable g selected defn op

lemma UsersSelected.mono {s t : Finset ℕ} (h : s ⊆ t) (hu : UsersSelected g s defn) :
    UsersSelected g t defn := fun use huse => by
  obtain ⟨user,hmem,heq⟩ := hu use huse
  exact ⟨user,h hmem,heq⟩

lemma allUsesAreUint32Narrowing_iff {uses : List (Option ℕ)} :
    allUsesAreUint32Narrowing selected uses = true ↔
      ∀ use ∈ uses, ∃ user ∈ selected, use = some user := by
  unfold allUsesAreUint32Narrowing
  rw [all_eq_true]
  refine forall₂_congr fun use _ => ?_
  cases use <;> simp

lemma findUint32NarrowingDefinitions_closed (g : FlowGraph) :
    Closed g g.findUint32NarrowingDefinitions := by
  intro defn hdefn
  unfold findUint32NarrowingDefinitions at hdefn
  rw [mem_toFinset,mem_map] at hdefn
  obtain ⟨⟨d,op⟩,hmem,rfl⟩ := hdefn
  obtain ⟨hpot,hnarrow⟩ := mem_filter.1 hmem
  refine ⟨op,hpot,.inl (.narrowing hpot hnarrow),?_⟩
  unfold isUint32NarrowingDefinition at hnarrow
  split at hnarrow
  · next heq =>
    dsimp only at heq
    rw [heq]
    rfl
  · cases hnarrow

variable (hc : Closed g selected)
include hc

/-- The input of a box that is not selected yet is exact. -/
lemma Closed.canBecomeUint32 (hpot : g.Potential defn op)
    (hnot : defn ∉ selected) (h : g.canBecomeUint32 selected defn op = true) :
    Selectable g (insert defn selected) defn op := by
  unfold FlowGraph.canBecomeUint32 at h
  split at h
  · next value =>
    obtain ⟨op',hsel⟩ := hc value (of_decide_eq_true h)
    refine ⟨hpot,.inl (.box hpot ?_),rfl⟩
    rcases hsel.reason with hexact | ⟨husers, -⟩
    · exact hexact
    · obtain ⟨b,hb,i,hi,hd,hop, -⟩ := potential_iff.1 hpot
      have huse : i.ssaTempIndex ∈ g.inputUseList value :=
        mem_inputUseList hb hi (by rw [hop]; exact mem_singleton_self value)
      obtain ⟨user,hmem,heq⟩ := husers _ (mem_append_left _ huse)
      rw [hd,Option.some.injEq] at heq
      exact absurd (heq ▸ hmem) hnot
  · next hbox =>
    split_ifs at h with hhigh huses
    rw [Bool.and_eq_true,allUsesAreUint32Narrowing_iff,allUsesAreUint32Narrowing_iff] at h
    refine ⟨hpot,.inr ⟨?_,fun value heq => hbox value heq⟩,Bool.eq_false_iff.2 hhigh⟩
    refine UsersSelected.mono (Finset.subset_insert _ _) fun use huse => ?_
    exact (mem_append.1 huse).elim (h.1 use) (h.2 use)

lemma Closed.insert (h : Selectable g (insert defn selected) defn op) :
    Closed g (insert defn selected) := by
  intro d hd
  rcases Finset.mem_insert.1 hd with rfl | hd
  · exact ⟨op,h⟩
  · obtain ⟨op',hsel⟩ := hc d hd
    exact ⟨op',hsel.potential,
      hsel.reason.imp_right fun ⟨husers,hbox⟩ => ⟨husers.mono (Finset.subset_insert _ _),hbox⟩,
      hsel.highBits⟩

omit hc in
lemma propagateStep_closed {s : Finset ℕ × Bool} (hc : Closed g s.1)
    (hpot : g.Potential defn op) : Closed g (g.propagateStep s (defn,op)).1 := by
  unfold propagateStep
  split_ifs with hmem hcan
  · exact hc
  · exact hc.insert (hc.canBecomeUint32 hpot hmem hcan)
  · exact hc

lemma propagatePass_closed : Closed g (g.propagatePass selected).1 := by
  exact foldlRecOn _ _ (motive := fun (s : Finset ℕ × Bool) => Closed g s.1) hc
    fun s hs d hd => propagateStep_closed hs hd

lemma propagateAux_closed {fuel : ℕ} {result : Finset ℕ}
    (h : g.propagateAux fuel selected = some result) : Closed g result := by
  induction fuel generalizing selected with
  | zero => cases h
  | succ fuel ih =>
    unfold propagateAux at h
    dsimp only at h
    split_ifs at h with hchanged
    · exact ih (propagatePass_closed hc) h
    · cases h
      exact propagatePass_closed hc

omit hc

def pending (g : FlowGraph) (selected : Finset ℕ) : Finset ℕ :=
  (g.findPotentialUint32Definitions.map Prod.fst).toFinset \ selected

lemma propagatePass_grows (g : FlowGraph) (selected : Finset ℕ) :
    selected ⊆ (g.propagatePass selected).1 ∧ ((g.propagatePass selected).2 = true →
      ∃ d ∈ pending g selected, d ∈ (g.propagatePass selected).1) := by
  refine foldlRecOn _ _ (motive := fun (s : Finset ℕ × Bool) =>
    selected ⊆ s.1 ∧ (s.2 = true → ∃ d ∈ pending g selected, d ∈ s.1))
    ⟨Finset.Subset.refl _,by simp⟩ fun s hs d hd => ?_
  unfold propagateStep
  split_ifs with hmem
  · exact hs
  · refine ⟨hs.1.trans (Finset.subset_insert _ _),fun _ => ⟨d.1,?_,Finset.mem_insert_self _ _⟩⟩
    exact Finset.mem_sdiff.2 ⟨mem_toFinset.2 (mem_map_of_mem hd),fun h => hmem (hs.1 h)⟩
  · exact hs

lemma propagatePass_pending (h : (g.propagatePass selected).2 = true) :
    (pending g (g.propagatePass selected).1).card < (pending g selected).card := by
  obtain ⟨hsub,hnew⟩ := propagatePass_grows g selected
  obtain ⟨d,hd,hmem⟩ := hnew h
  refine Finset.card_lt_card (Finset.ssubset_iff_subset_ne.2
    ⟨Finset.sdiff_subset_sdiff (Finset.Subset.refl _) hsub,fun heq => ?_⟩)
  rw [← heq] at hd
  exact (Finset.mem_sdiff.1 hd).2 hmem

lemma propagateAux_total {fuel : ℕ} (h : (pending g selected).card < fuel) :
    ∃ result, g.propagateAux fuel selected = some result := by
  induction fuel generalizing selected with
  | zero => omega
  | succ fuel ih =>
    unfold propagateAux
    dsimp only
    split_ifs with hchanged
    · have := propagatePass_pending hchanged
      exact ih (by omega)
    · exact ⟨_,rfl⟩

lemma selectedUint32Defs_closed (g : FlowGraph) :
    ∃ selected, g.selectedUint32Defs = some selected ∧ Closed g selected := by
  have hcard : (pending g g.findUint32NarrowingDefinitions).card ≤
      g.findPotentialUint32Definitions.length :=
    calc _ ≤ (g.findPotentialUint32Definitions.map Prod.fst).toFinset.card :=
          Finset.card_le_card Finset.sdiff_subset
      _ ≤ (g.findPotentialUint32Definitions.map Prod.fst).length := toFinset_card_le _
      _ = _ := length_map _
  obtain ⟨selected,hs⟩ := propagateAux_total (Nat.lt_succ_of_le hcard)
  exact ⟨selected,hs,propagateAux_closed (findUint32NarrowingDefinitions_closed g) hs⟩

section Values
variable {α : Type}

def truncate : Value α → Value α
  | .int n => .int (n%2^32)
  | .object o => .object o

lemma truncate_int_eq {n : ℤ} (h0 : 0 ≤ n) (h : n < 2^32) :
    truncate (.int n : Value α) = .int n := by
  change int (n%2^32) = _
  rw [Int.emod_eq_of_lt h0 h]

/-- What a use of `a` may see: the value itself or its low bits. -/
def Sees (a b : Value α) : Prop := b = a ∨ b = truncate a

lemma Sees.int {l : ℤ} {b : Value α} (h : Sees (.int l) b) :
    ∃ k : ℤ, b = .int k ∧ (k = l ∨ k = l%2^32) := by
  rcases h with rfl | rfl
  · exact ⟨l,rfl,.inl rfl⟩
  · exact ⟨l%2^32,rfl,.inr rfl⟩

lemma Sees.one {l : ℤ} {ws : List (Value α)} (h : List.Forall₂ Sees [.int l] ws) :
    ∃ k : ℤ, ws = [.int k] ∧ (k = l ∨ k = l%2^32) := by
  obtain ⟨b,_,hb,hnil,rfl⟩ := forall₂_cons_left_iff.1 h
  obtain ⟨k,rfl,hk⟩ := hb.int
  exact ⟨k,by rw [forall₂_nil_left_iff.1 hnil],hk⟩

lemma Sees.two {l r : ℤ} {ws : List (Value α)} (h : List.Forall₂ Sees [.int l,.int r] ws) :
    ∃ k m : ℤ, ws = [.int k,.int m] ∧ (k = l ∨ k = l%2^32) ∧ (m = r ∨ m = r%2^32) := by
  obtain ⟨b,_,hb,htail,rfl⟩ := forall₂_cons_left_iff.1 h
  obtain ⟨k,rfl,hk⟩ := hb.int
  obtain ⟨m,rfl,hm⟩ := Sees.one htail
  exact ⟨k,m,rfl,hk,hm⟩

lemma emod_eq_of_sees {k l : ℤ} (h : k = l ∨ k = l%2^32) : k%2^32 = l%2^32 := by
  rcases h with rfl | rfl
  · rfl
  · exact Int.emod_emod_of_dvd l (dvd_refl _)

lemma BinaryKind.exact_emod (opKind : BinaryKind) (l r : ℤ) :
    opKind.token.exact (l%2^32) (r%2^32)%2^32 = opKind.token.exact l r%2^32 := by
  cases opKind with
  | bitAnd => exact land_emod l r 32
  | bitOr => exact lor_emod l r 32
  | bitXor => exact xor_emod l r 32
  | add => exact (Int.add_emod l r _).symm
  | sub => exact (Int.sub_emod l r _).symm
  | mul => exact (Int.mul_emod l r _).symm

lemma fit_eq_some {n : ℤ} {v : Value α} (h : fit n = some v) : v = .int n := by
  unfold fit at h
  rw [Option.ite_none_right_eq_some] at h
  exact (Option.some.inj h.2).symm

/-- The count of a shift is small and is not changed by truncation. -/
lemma shiftUint32Op_eq {opKind : ShiftKind} {left right : ℕ} {k l m r : ℤ}
    (hk : k = l ∨ k = l%2^32) (hm : m = r ∨ m = r%2^32)
    (hcount : 0 ≤ r ∧ r ≤ kMintShiftCountLimit) (hshr : opKind = .shr → l%2^32 = l) :
    eval (.shiftUint32Op opKind left right) [(.int k : Value α),.int m] =
      some (truncate (.int (opKind.token.exact l r))) := by
  have hmr : m = r := by
    unfold kMintShiftCountLimit at hcount
    omega
  subst hmr
  change (if 0 ≤ m then some (int (opKind.token.exact (k%2^32) m%2^32)) else none) =
    some (.int (opKind.token.exact l m%2^32))
  rw [if_pos hcount.1,emod_eq_of_sees hk]
  cases opKind with
  | shl => exact congrArg (some ∘ int) (shiftLeft_emod l m.toNat 32)
  | shr => rw [hshr rfl]

/-- A replacement computes the low bits, from inputs of which some may be truncated. -/
lemma eval_replacement {vs ws : List (Value α)} {v : Value α}
    (hpot : isPotentialUint32Definition op = true) (hsees : List.Forall₂ Sees vs ws)
    (hshr : ∀ left right, op = .shiftMintOp .shr left right → ∀ a ∈ vs.head?, truncate a = a)
    (h : eval op vs = some v) : eval (constructReplacementFor op) ws = some (truncate v) := by
  unfold eval at h
  split at h
  · obtain ⟨k,rfl,hk⟩ := Sees.one hsees
    cases h
    exact congrArg (some ∘ int) (emod_eq_of_sees hk)
  · obtain ⟨k,rfl,hk⟩ := Sees.one hsees
    rw [fit_eq_some h]
    exact congrArg (some ∘ int) (emod_eq_of_sees hk)
  · next opKind _ _ l r =>
    obtain ⟨k,m,rfl,hk,hm⟩ := Sees.two hsees
    rw [fit_eq_some h]
    refine congrArg (some ∘ int) ?_
    rw [emod_eq_of_sees hk,emod_eq_of_sees hm,opKind.exact_emod]
  · next opKind left right l r =>
    obtain ⟨k,m,rfl,hk,hm⟩ := Sees.two hsees
    rw [Option.ite_none_right_eq_some] at h
    rw [fit_eq_some h.2]
    refine shiftUint32Op_eq hk hm h.1 fun hkind => ?_
    subst hkind
    exact int.inj (hshr left right rfl (.int l) rfl)
  · obtain ⟨k,rfl,hk⟩ := Sees.one hsees
    cases h
    refine congrArg (some ∘ int) ?_
    rw [emod_eq_of_sees hk,lnot_emod]
  all_goals first | cases hpot | cases h

end Values

end DartSdk.IntegerSelector
