import DartSdk.IntegerSelectorSound

/-! A run of the graph and a run after the selection go through the same positions. The stores agree
up to the high bits of selected definitions. -/
namespace DartSdk.IntegerSelector
open Function (update_of_ne update_self)
open Utils RangeAnalysis List Option Instruction FlowGraph

variable {α W : Type} {g : FlowGraph} {selected : Finset ℕ} {defn : ℕ} {op : Operation}

/-- The stores of the two runs: `s` of the given graph, `t` after the selection. -/
structure Agree (g : FlowGraph) (selected : Finset ℕ) (s t : ℕ → Option (Value α)) : Prop where
  same : ∀ d ∉ selected, t d = s d
  low : ∀ d ∈ selected, t d = (s d).map truncate
  exact : ∀ d, Exact g d → ∀ v ∈ s d, truncate v = v

section Stores
variable {s t : ℕ → Option (Value α)}

section
variable (h : Agree g selected s t)
include h

lemma Agree.eq_of_exact (hd : Exact g defn) : t defn = s defn := by
  by_cases hmem : defn ∈ selected
  · rw [h.low defn hmem]
    cases hs : s defn with
    | none => rfl
    | some v => exact congrArg some (h.exact defn hd v hs)
  · exact h.same defn hmem

/-- A user that is not selected sees no truncated value. -/
lemma Agree.eq_of_use (hc : Closed g selected) {user : Option ℕ}
    (huse : user ∈ g.inputUseList defn ++ g.envUseList defn)
    (hnot : ∀ d ∈ selected, user ≠ some d) : t defn = s defn := by
  by_cases hmem : defn ∈ selected
  · obtain ⟨op,hsel⟩ := hc defn hmem
    rcases hsel.reason with hexact | ⟨husers, -⟩
    · exact h.eq_of_exact hexact
    · obtain ⟨d,hd,heq⟩ := husers user huse
      exact absurd heq (hnot d hd)
  · exact h.same defn hmem

lemma Agree.sees {a : Value α} (ha : s defn = some a) : ∃ b, t defn = some b ∧ Sees a b := by
  by_cases hmem : defn ∈ selected
  · exact ⟨truncate a,by rw [h.low defn hmem,ha]; rfl,.inr rfl⟩
  · exact ⟨a,by rw [h.same defn hmem,ha],.inl rfl⟩

lemma Agree.mapM {ds : List ℕ} {vs : List (Value α)}
    (hvs : ds.mapM s = some vs) : ∃ ws, ds.mapM t = some ws ∧ List.Forall₂ Sees vs ws := by
  induction ds generalizing vs with
  | nil =>
    cases hvs
    exact ⟨[],rfl,.nil⟩
  | cons d ds ih =>
    rw [mapM_cons] at hvs
    obtain ⟨a,ha,hvs⟩ := bind_eq_some_iff.1 hvs
    obtain ⟨as,has,hvs⟩ := bind_eq_some_iff.1 hvs
    cases hvs
    obtain ⟨b,hb,hsees⟩ := h.sees ha
    obtain ⟨bs,hbs,hrest⟩ := ih has
    exact ⟨b :: bs,by simp [hb,hbs],.cons hsees hrest⟩

end

/-- A recorded range within Uint32 leaves nothing to truncate. -/
lemma truncate_of_isWithinUint32 (hrange : g.RangesHold s) (h : g.isWithinUint32 defn = true)
    {v : Value α} (hv : s defn = some v) : truncate v = v := by
  cases v with
  | object o => rfl
  | int n =>
    unfold isWithinUint32 at h
    split at h
    · cases h
    · next range hr =>
      have hvalid := g.ranges.valid defn range hr
      obtain ⟨hmin,hmax⟩ := hrange defn range n hr hv
      unfold RangeAnalysis.Graph.isWithin at h
      rw [Bool.and_eq_true] at h
      have h0 := g.ranges.le_constantMin hvalid h.1
      have h1 := g.ranges.constantMax_le hvalid h.2
      unfold kMaxUint32 at h1
      exact truncate_int_eq (by omega) (by omega)

lemma agree_assign (h : Agree g selected s t) {i : Instruction} {v w : Value α}
    (hlow : ∀ d ∈ selected, i.ssaTempIndex = some d → w = truncate v)
    (hsame : (∀ d ∈ selected, i.ssaTempIndex ≠ some d) → w = v)
    (hexact : ∀ d, Exact g d → i.ssaTempIndex = some d → truncate v = v) :
    Agree g selected (i.assign v s) ((i.replace selected).assign w t) := by
  unfold assign
  rw [replace_ssaTempIndex]
  cases hd : i.ssaTempIndex with
  | none => exact h
  | some d =>
    dsimp only
    refine ⟨fun e he => ?_,fun e he => ?_,fun e he u hu => ?_⟩
    · by_cases heq : e = d
      · subst heq
        rw [update_self,update_self,hsame fun d' hd' heq => ?_]
        rw [hd,some.injEq] at heq
        exact he (heq ▸ hd')
      · rw [update_of_ne heq,update_of_ne heq]
        exact h.same e he
    · by_cases heq : e = d
      · subst heq
        rw [update_self,update_self,hlow e he hd]
        rfl
      · rw [update_of_ne heq,update_of_ne heq]
        exact h.low e he
    · by_cases heq : e = d
      · subst heq
        rw [update_self] at hu
        cases hu
        exact hexact e he hd
      · rw [update_of_ne heq] at hu
        exact h.exact e he u hu

end Stores

section Step
variable {β : Behaviour α W} {s t : State α W} {b : Block} {i : Instruction}

structure Simulates (g : FlowGraph) (selected : Finset ℕ) (s t : State α W) : Prop where
  block : t.block = s.block
  predecessor : t.predecessor = s.predecessor
  position : t.position = s.position
  world : t.world = s.world
  store : Agree g selected s.store t.store

/-- Not a selected definition. -/
def Unselected (selected : Finset ℕ) (i : Instruction) : Prop :=
  ∀ d ∈ selected, i.ssaTempIndex ≠ some d

lemma Unselected.replace (h : Unselected selected i) : i.replace selected = i := by
  unfold Instruction.replace
  split
  · rfl
  · next d hd => exact if_neg fun hmem => h d hmem hd

lemma replace_of_mem (hd : i.ssaTempIndex = some defn) (hmem : defn ∈ selected) :
    (i.replace selected).operation = constructReplacementFor i.operation := by
  unfold Instruction.replace
  rw [hd]
  dsimp only
  rw [if_pos hmem]

lemma Unselected.inputs_eq (hu : Unselected selected i) (hc : Closed g selected)
    (hb : b ∈ g.blocks) (hi : i ∈ b.instructions) (h : Agree g selected s.store t.store) :
    ∀ d ∈ i.operation.inputs, t.store d = s.store d :=
  fun _ hd => h.eq_of_use hc (mem_append_left _ (mem_inputUseList hb hi hd)) hu

lemma Unselected.env_eq (hu : Unselected selected i) (hc : Closed g selected)
    (hb : b ∈ g.blocks) (hi : i ∈ b.instructions) (h : Agree g selected s.store t.store) :
    ∀ d ∈ i.env, t.store d = s.store d :=
  fun _ hd => h.eq_of_use hc (mem_append_right _ (mem_envUseList hb hi hd)) hu

lemma execute_of_ne_other (β : Behaviour α W) (s : State α W)
    (h : ∀ inputs, i.operation ≠ .other inputs) :
    i.execute β s = ((i.operation.inputs.mapM s.store).bind (eval i.operation)).map
      fun v => s.continueWith i (s.world,v,.next) := by
  unfold execute
  split
  · next inputs hop => exact absurd hop (h inputs)
  · rfl

lemma constructReplacementFor_inputs (h : isPotentialUint32Definition op = true) :
    (constructReplacementFor op).inputs = op.inputs ∧
      ∀ inputs, constructReplacementFor op ≠ .other inputs := by
  cases op <;> simp [isPotentialUint32Definition,constructReplacementFor,Operation.inputs] at h ⊢

lemma mapM_congr {f f' : ℕ → Option (Value α)} {ds : List ℕ} (h : ∀ d ∈ ds, f' d = f d) :
    ds.mapM f' = ds.mapM f := by
  induction ds with
  | nil => rfl
  | cons d ds ih =>
    rw [mapM_cons,mapM_cons,h d mem_cons_self,ih fun e he => h e (mem_cons_of_mem d he)]

lemma Exact.potential (h : Exact g defn) : ∃ op, g.Potential defn op := by
  cases h with
  | narrowing hpot _ => exact ⟨_,hpot⟩
  | box hpot _ => exact ⟨_,hpot⟩

lemma exact_result (hagree : Agree g selected s.store t.store) (hb : b ∈ g.blocks)
    (hi : i ∈ b.instructions) (hd : i.ssaTempIndex = some defn) (hexact : Exact g defn)
    {vs : List (Value α)} {v : Value α} (hvs : i.operation.inputs.mapM s.store = some vs)
    (hv : eval i.operation vs = some v) (hrange : g.RangesHold (i.assign v s.store)) :
    truncate v = v := by
  cases hexact with
  | narrowing hpot hnarrow =>
    have hwithin : g.isWithinUint32 defn = true := by
      unfold isUint32NarrowingDefinition at hnarrow
      split at hnarrow
      · exact hnarrow
      · cases hnarrow
    refine truncate_of_isWithinUint32 hrange hwithin ?_
    unfold assign
    rw [hd]
    exact update_self defn (some v) s.store
  | @box _ value hpot hvalue =>
    rw [(hpot.operation_eq hb hi hd).1] at hvs hv
    change [value].mapM s.store = some vs at hvs
    rw [mapM_cons] at hvs
    obtain ⟨a,ha,hvs⟩ := bind_eq_some_iff.1 hvs
    cases hvs
    have hva : v = a := by
      cases a with
      | object o => cases hv
      | int n => exact (some.inj hv).symm
    rw [hva]
    exact hagree.exact value hvalue a ha

lemma continueWith_simulates (h : Simulates g selected s t) {v w : Value α}
    (hagree : Agree g selected (i.assign v s.store) ((i.replace selected).assign w t.store))
    (world : W) (target : Target) : Simulates g selected (s.continueWith i (world,v,target))
      (t.continueWith (i.replace selected) (world,w,target)) := by
  cases target with
  | next => exact ⟨h.block,h.predecessor,congrArg (·+1) h.position,rfl,hagree⟩
  | jump block predecessor => exact ⟨rfl,rfl,rfl,rfl,hagree⟩

section
variable (hc : Closed g selected)
include hc

lemma execute_other_simulates (hb : b ∈ g.blocks)
    (hi : i ∈ b.instructions) (h : Simulates g selected s t) {inputs : List ℕ}
    (hop : i.operation = .other inputs) {s' : State α W} (hs : i.execute β s = some s') :
    ∃ t', (i.replace selected).execute β t = some t' ∧ Simulates g selected s' t' := by
  have hnot : ∀ {d op}, g.Potential d op → i.ssaTempIndex ≠ some d := by
    intro d op hpot hd
    obtain ⟨heq,hpotential⟩ := hpot.operation_eq hb hi hd
    rw [← heq,hop] at hpotential
    cases hpotential
  have hu : Unselected selected i := fun d hd => by
    obtain ⟨op,hsel⟩ := hc d hd
    exact hnot hsel.potential
  have hinputs : inputs.map t.store = inputs.map s.store := by
    have hall := hu.inputs_eq hc hb hi h.store
    rw [hop] at hall
    exact map_congr_left hall
  have henv : i.env.map t.store = i.env.map s.store :=
    map_congr_left (hu.env_eq hc hb hi h.store)
  unfold execute at hs
  rw [hop] at hs
  obtain ⟨⟨world,v,target⟩,hrespond,rfl⟩ := map_eq_some_iff.1 hs
  have hagree : Agree g selected (i.assign v s.store) ((i.replace selected).assign v t.store) := by
    refine agree_assign h.store (fun d hd heq => absurd heq (hu d hd)) (fun _ => rfl) ?_
    intro d hexact heq
    obtain ⟨op,hpot⟩ := hexact.potential
    exact absurd heq (hnot hpot)
  refine ⟨_,?_,continueWith_simulates h hagree world target⟩
  rw [hu.replace]
  unfold execute
  rw [hop]
  dsimp only
  rw [hinputs,henv,h.block,h.position,h.world,hrespond]
  rfl

lemma execute_integer_simulates (hb : b ∈ g.blocks)
    (hi : i ∈ b.instructions) (h : Simulates g selected s t) (hrange : g.RangesHold s.store)
    (hop : ∀ inputs, i.operation ≠ .other inputs) {s' : State α W}
    (hrange' : g.RangesHold s'.store) (hs : i.execute β s = some s') :
    ∃ t', (i.replace selected).execute β t = some t' ∧ Simulates g selected s' t' := by
  rw [execute_of_ne_other β s hop] at hs
  obtain ⟨v,hv,rfl⟩ := map_eq_some_iff.1 hs
  obtain ⟨vs,hvs,hv⟩ := bind_eq_some_iff.1 hv
  have hexact : ∀ d, Exact g d → i.ssaTempIndex = some d → truncate v = v := fun d hd heq =>
    exact_result h.store hb hi heq hd hvs hv hrange'
  by_cases hu : Unselected selected i
  · have hagree : Agree g selected (i.assign v s.store) ((i.replace selected).assign v t.store) :=
      agree_assign h.store (fun d hd heq => absurd heq (hu d hd)) (fun _ => rfl) hexact
    refine ⟨_,?_,continueWith_simulates h hagree s.world .next⟩
    rw [hu.replace,execute_of_ne_other β t hop,mapM_congr (hu.inputs_eq hc hb hi h.store),hvs,
      bind_some,hv,h.world]
    rfl
  · unfold Unselected at hu
    push Not at hu
    obtain ⟨d,hmem,hd⟩ := hu
    obtain ⟨op,hsel⟩ := hc d hmem
    obtain ⟨rfl,hpot⟩ := hsel.potential.operation_eq hb hi hd
    have hagree : Agree g selected (i.assign v s.store)
        ((i.replace selected).assign (truncate v) t.store) :=
      agree_assign h.store (fun _ _ _ => rfl) (fun hnot => absurd hd (hnot d hmem)) hexact
    obtain ⟨hinputs,hother⟩ := constructReplacementFor_inputs hpot
    obtain ⟨ws,hws,hsees⟩ := h.store.mapM hvs
    -- The left input of a selected right shift has nothing to truncate.
    have hshr : ∀ left right, i.operation = .shiftMintOp .shr left right →
        ∀ a ∈ vs.head?, truncate a = a := by
      intro left right heq a ha
      have hhigh := hsel.highBits
      rw [heq] at hhigh hvs
      change [left,right].mapM s.store = some vs at hvs
      rw [mapM_cons] at hvs
      obtain ⟨c,hleft,hvs⟩ := bind_eq_some_iff.1 hvs
      obtain ⟨cs, -,hvs⟩ := bind_eq_some_iff.1 hvs
      cases hvs
      cases ha
      refine truncate_of_isWithinUint32 hrange ?_ hleft
      simpa [needsHighBits] using hhigh
    refine ⟨_,?_,continueWith_simulates h hagree s.world .next⟩
    rw [execute_of_ne_other β t (by rwa [replace_of_mem hd hmem]),replace_of_mem hd hmem,hinputs,
      hws,bind_some,eval_replacement hpot hsees hshr hv,h.world]
    rfl

/-- Phis are not selected, so they read exact values. -/
lemma enter_agree (hb : b ∈ g.blocks) (h : Agree g selected s.store t.store) (predecessor : ℕ) :
    Agree g selected (b.enter predecessor s.store) (b.enter predecessor t.store) := by
  have hpotential : ∀ {d op}, g.Potential d op → ∀ store : ℕ → Option (Value α),
      b.enter predecessor store d = store d := by
    intro d op hpot store
    unfold Block.enter
    rw [find?_eq_none.2 fun phi hphi => by simpa using hpot.ne_phi hb hphi]
  refine ⟨fun d hd => ?_,fun d hd => ?_,fun d hd => ?_⟩
  · unfold Block.enter
    cases hfind : b.phis.find? fun phi => phi.ssaTempIndex = d with
    | none => exact h.same d hd
    | some phi =>
      have hphi := mem_of_find?_eq_some hfind
      dsimp only
      cases hx : phi.inputs[predecessor]? with
      | none => rfl
      | some x =>
        refine h.eq_of_use hc (mem_append_left _
          (mem_inputUseList_phi hb hphi (mem_of_getElem? hx))) fun e he heq => ?_
        obtain ⟨op,hsel⟩ := hc e he
        exact hsel.potential.ne_phi hb hphi (some.inj heq)
  · obtain ⟨op,hsel⟩ := hc d hd
    rw [hpotential hsel.potential,hpotential hsel.potential]
    exact h.low d hd
  · obtain ⟨op,hpot⟩ := hd.potential
    rw [hpotential hpot]
    exact h.exact d hd

lemma step_simulates (h : Simulates g selected s t) {s' : State α W}
    (hrange : g.RangesHold s.store) (hrange' : g.RangesHold s'.store) (hs : g.step β s = some s') :
    ∃ t', (g.replaceInstructions selected).step β t = some t' ∧ Simulates g selected s' t' := by
  obtain ⟨b,hblock,hs⟩ := bind_eq_some_iff.1 hs
  have hb : b ∈ g.blocks := mem_of_getElem? hblock
  have hblock' : (g.replaceInstructions selected).blocks[t.block]? = some (b.replace selected) := by
    unfold replaceInstructions
    rw [h.block,getElem?_map,hblock]
    rfl
  unfold step
  rw [hblock',bind_some,h.position]
  cases hp : s.position with
  | zero =>
    rw [hp] at hs
    cases hs
    refine ⟨_,rfl,h.block,h.predecessor,rfl,h.world,?_⟩
    rw [h.predecessor]
    exact enter_agree hc hb h.store s.predecessor
  | succ k =>
    rw [hp] at hs
    obtain ⟨i,hik,hs⟩ := bind_eq_some_iff.1 hs
    have hi : i ∈ b.instructions := mem_of_getElem? hik
    have hik' : (b.replace selected).instructions[k]? = some (i.replace selected) := by
      unfold Block.replace
      rw [getElem?_map,hik]
      rfl
    dsimp only
    rw [hik',bind_some]
    by_cases hop : ∃ inputs, i.operation = .other inputs
    · obtain ⟨inputs,hop⟩ := hop
      exact execute_other_simulates hc hb hi h hop hs
    · push Not at hop
      exact execute_integer_simulates hc hb hi h hrange hop hrange' hs

lemma observed_eq (h : Simulates g selected s t) (hat : ¬ g.AtSelected selected s) :
    (g.replaceInstructions selected).observed t = g.observed s := by
  unfold observed
  rw [h.block,h.position,h.predecessor]
  have hblocks : (g.replaceInstructions selected).blocks[s.block]? =
      (g.blocks[s.block]?).map (Block.replace selected) := getElem?_map
  rw [hblocks]
  cases hblock : g.blocks[s.block]? with
  | none => rfl
  | some b =>
    have hb : b ∈ g.blocks := mem_of_getElem? hblock
    cases hp : s.position with
    | zero =>
      refine Prod.ext (map_congr_left fun phi hphi => ?_) rfl
      cases hx : phi.inputs[s.predecessor]? with
      | none => rfl
      | some x =>
        refine h.store.eq_of_use hc (mem_append_left _
          (mem_inputUseList_phi hb hphi (mem_of_getElem? hx))) fun e he heq => ?_
        obtain ⟨op,hsel⟩ := hc e he
        exact hsel.potential.ne_phi hb hphi (some.inj heq)
    | succ k =>
      have hinstr : (b.replace selected).instructions[k]? =
          (b.instructions[k]?).map (replace selected) := getElem?_map
      dsimp only [map_some]
      rw [hinstr]
      cases hik : b.instructions[k]? with
      | none => rfl
      | some i =>
        have hi : i ∈ b.instructions := mem_of_getElem? hik
        have hu : Unselected selected i := fun d hd heq =>
          hat ⟨b,k,i,d,hblock,hp,hik,heq,hd⟩
        dsimp only [map_some]
        rw [hu.replace]
        exact Prod.ext (map_congr_left (hu.inputs_eq hc hb hi h.store))
          (map_congr_left (hu.env_eq hc hb hi h.store))

end

end Step

lemma FlowGraph.Potential.mem_definitions (h : g.Potential defn op) :
    defn ∈ g.blocks.flatMap Block.definitions := by
  obtain ⟨b,hb,i,hi,hd, -, -⟩ := potential_iff.1 h
  exact mem_flatMap.2 ⟨b,hb,mem_append_right _ (mem_filterMap.2 ⟨i,hi,hd⟩)⟩

lemma initial_simulates (hc : Closed g selected) {s : State α W}
    (hinit : ∀ d ∈ g.blocks.flatMap Block.definitions, s.store d = none) :
    Simulates g selected s s := by
  refine ⟨rfl,rfl,rfl,rfl,fun _ _ => rfl,fun d hd => ?_,fun d hd v hv => ?_⟩
  · obtain ⟨op,hsel⟩ := hc d hd
    rw [hinit d hsel.potential.mem_definitions]
    rfl
  · obtain ⟨op,hpot⟩ := hd.potential
    rw [hinit d hpot.mem_definitions] at hv
    cases hv

lemma runFor_simulates {β : Behaviour α W} {s₀ : State α W} (hc : Closed g selected)
    (hinit : ∀ d ∈ g.blocks.flatMap Block.definitions, s₀.store d = none)
    (hrange : ∀ n s, g.runFor β n s₀ = some s → g.RangesHold s.store) {n : ℕ} {s : State α W}
    (hs : g.runFor β n s₀ = some s) :
    ∃ t, (g.replaceInstructions selected).runFor β n s₀ = some t ∧ Simulates g selected s t := by
  induction n generalizing s with
  | zero =>
    cases hs
    exact ⟨s₀,rfl,initial_simulates hc hinit⟩
  | succ n ih =>
    have hrange' := hrange (n+1) s hs
    obtain ⟨u,hu,hs⟩ := bind_eq_some_iff.1 hs
    obtain ⟨t,ht,hsim⟩ := ih hu
    obtain ⟨t',ht',hsim'⟩ := step_simulates hc hsim (hrange n u hu) hrange' hs
    refine ⟨t',?_,hsim'⟩
    change ((g.replaceInstructions selected).runFor β n s₀).bind _ = _
    rw [ht]
    exact ht'

lemma maskRanges_depth_lt (_ v : ℕ) (h : RangeAnalysis.DefinitionKind.other = .constraint v) :
    0 < 0 := by cases h

/-- The recorded range of the mask in `maskGraph`. -/
def maskRanges : RangeAnalysis.Graph where
  kind _ := .other
  range d := if d = 4 then some ⟨.constant 0,.constant 255⟩ else none
  rank _ := 0
  depth _ := 0
  valid d r h := by
    rw [Option.ite_none_right_eq_some,Option.some.injEq] at h
    obtain ⟨-,rfl⟩ := h
    exact ⟨(by decide : IsInt64 0),(by decide : IsInt64 255)⟩
  rank_lt d r h s hs := by
    rw [Option.ite_none_right_eq_some,Option.some.injEq] at h
    obtain ⟨-,rfl⟩ := h
    obtain ⟨_,hs⟩ | ⟨_,hs⟩ := hs <;> cases hs
  depth_lt := maskRanges_depth_lt

/-- Return the box of `(v0 + v1) & v2`. -/
def maskGraph : FlowGraph where
  blocks := [⟨[],[⟨some 3,.binaryMintOp .add 0 1,[]⟩,⟨some 4,.binaryMintOp .bitAnd 3 2,[]⟩,
    ⟨some 5,.boxInt64 4,[]⟩,⟨none,.other [5],[5]⟩]⟩]
  ranges := maskRanges
  nodup := by decide

def maskBehaviour : Behaviour Unit Unit := ⟨fun _ _ _ _ _ => none⟩

def maskState : State Unit Unit :=
  ⟨0,0,0,fun d => [Value.int (2^32+5),.int 7,.int 255][d]?,()⟩

lemma runFor_eq_none {β : Behaviour α W} {s : State α W} {m n : ℕ} (hmn : m ≤ n)
    (h : g.runFor β m s = none) : g.runFor β n s = none := by
  induction hmn with
  | refl => exact h
  | step _ ih =>
    change (g.runFor β _ s).bind _ = none
    rw [ih]
    rfl

lemma maskGraph_rangesHold (n : ℕ) (s : State Unit Unit)
    (hs : maskGraph.runFor maskBehaviour n maskState = some s) : maskGraph.RangesHold s.store := by
  have hend : maskGraph.runFor maskBehaviour 5 maskState = none :=
    isNone_iff_eq_none.1 (by decide +kernel)
  have hlt : n < 5 := by
    by_contra hge
    rw [runFor_eq_none (not_lt.1 hge) hend] at hs
    cases hs
  have hall : ∀ n < 5, (maskGraph.runFor maskBehaviour n maskState).all
      (fun s => s.store 4 = none ∨ s.store 4 = some (.int 12)) = true := by decide +kernel
  have hvalue := hall n hlt
  rw [hs,all_some,decide_eq_true_eq] at hvalue
  intro d range v hrange hv
  change (if d = 4 then some _ else none) = some range at hrange
  rw [ite_none_right_eq_some,some.injEq] at hrange
  obtain ⟨rfl,rfl⟩ := hrange
  rw [hv] at hvalue
  rcases hvalue with hnone | hsome
  · cases hnone
  · cases hsome
    exact ⟨by decide +kernel,by decide +kernel⟩

end DartSdk.IntegerSelector
