import DartSdk.BitSet

/-! `LivenessAnalysis` of `vm/flow_graph.cc` over the bit vectors of `vm/bit_vector.cc`, which have
the words of a `BitSet`. Blocks are given by their postorder numbers. -/
namespace DartSdk.BitSet
variable {N : ℕ}

deriving instance DecidableEq for BitSet

/-- The loop over the words of two bit vectors. -/
def zipWords (f : BitVec 64 → BitVec 64 → BitVec 64) (s t : BitSet N) : BitSet N :=
  ⟨List.zipWith f s.data t.data,by simp [s.length_eq,t.length_eq]⟩

/-- `AddAll`, and whether a word changed. -/
def addAll (s other : BitSet N) : BitSet N × Bool :=
  let after := zipWords (· ||| ·) s other
  (after,after ≠ s)

/-- `KillAndAdd`, and whether a word changed. -/
def killAndAdd (s kill gen : BitSet N) : BitSet N × Bool :=
  let after := zipWords (· ||| ·) s (zipWords (fun g k => g &&& ~~~k) gen kill)
  (after,after ≠ s)

lemma zipWords_word {f : BitVec 64 → BitVec 64 → BitVec 64} (hf : f 0#64 0#64 = 0#64)
    (s t : BitSet N) (w : ℕ) : (zipWords f s t).word w = f (s.word w) (t.word w) := by
  have hs := s.length_eq
  have ht := t.length_eq
  by_cases hw : w < 1+(N-1)/64
  · simp [zipWords,word,hs,ht,hw]
  · simp [zipWords,word,hs,ht,not_lt.1 hw,hf]

@[simp] lemma addAll_test (s other : BitSet N) (i : ℕ) :
    (s.addAll other).1.test i = (s.test i || other.test i) := by
  simp [addAll,test_eq,zipWords_word]

@[simp] lemma killAndAdd_test (s kill gen : BitSet N) (i : ℕ) :
    (s.killAndAdd kill gen).1.test i = (s.test i || (gen.test i && !kill.test i)) := by
  have hi : i%64 < 64 := Nat.mod_lt _ (by norm_num)
  simp [killAndAdd,test_eq,zipWords_word,hi]

lemma test_lt {s : BitSet N} {i : ℕ} (h : s.test i = true) : i < 64*(1+(N-1)/64) := by
  by_contra hi
  have hw : s.data.length ≤ i/64 := by rw [s.length_eq]; omega
  simp [test_eq,word,hw] at h

lemma ext_test {s t : BitSet N} (h : ∀ i, s.test i = t.test i) : s = t := by
  rw [mk.injEq]
  refine List.ext_getElem (by rw [s.length_eq,t.length_eq]) fun w hs ht => ?_
  have hw : s.word w = t.word w := by
    refine BitVec.eq_of_getLsbD_eq fun b hb => ?_
    rw [← test_word s w hb,← test_word t w hb,h]
  simpa [word,hs,ht] using hw

lemma addAll_unchanged {s other : BitSet N} (h : (s.addAll other).2 = false) :
    (s.addAll other).1 = s := by
  simpa [addAll] using h

end DartSdk.BitSet

namespace DartSdk.Liveness
open Function (update)

variable {n N : ℕ}

/-- The sets of all blocks. -/
structure LiveSets (n N : ℕ) where
  liveIn : Fin n → BitSet N
  liveOut : Fin n → BitSet N

variable (successors : Fin n → List (Fin n)) (kill : Fin n → BitSet N) (s : LiveSets n N)

/-- One successor in `UpdateLiveOut`. -/
def addSuccessor (r : BitSet N × Bool) (succ : Fin n) : BitSet N × Bool :=
  let (out,changed) := r.1.addAll (s.liveIn succ)
  (out,r.2 || changed)

/-- The new set and whether it changed. -/
def updateLiveOut (block : Fin n) : BitSet N × Bool :=
  (successors block).foldl (addSuccessor s) (s.liveOut block,false)

def updateLiveIn (block : Fin n) : BitSet N × Bool :=
  (s.liveIn block).killAndAdd (kill block) (s.liveOut block)

/-- The body of the loop over the blocks; the flag is `changed`. -/
def visitBlock (r : LiveSets n N × Bool) (block : Fin n) : LiveSets n N × Bool :=
  let out := updateLiveOut successors r.1 block
  let s : LiveSets n N := ⟨r.1.liveIn,update r.1.liveOut block out.1⟩
  if out.2 then
    let inn := updateLiveIn kill s block
    (⟨update s.liveIn block inn.1,s.liveOut⟩,r.2 || inn.2)
  else (s,r.2)

/-- The loop, for at most `rounds` rounds. -/
def computeLiveInAndLiveOutSets : ℕ → LiveSets n N → Option (LiveSets n N)
  | 0, _ => none
  | rounds+1, s =>
    let (s,changed) := (List.finRange n).foldl (visitBlock successors kill) (s,false)
    if changed then computeLiveInAndLiveOutSets rounds s else some s

/-- The variable is in the initial set `live` of a block that some path leads to, and no block
on the path before it kills the variable. -/
def LiveOnPath (live : Fin n → BitSet N) (b : Fin n) (v : ℕ) : Prop :=
  ∃ u, Relation.ReflTransGen (fun b c => c ∈ successors b ∧ (kill b).test v = false) b u ∧
    (live u).test v

/-- The pairs of a block and an element of its set. -/
def elements (f : Fin n → BitSet N) : Finset (Fin n × ℕ) :=
  (Finset.univ ×ˢ Finset.range (64*(1+(N-1)/64))).filter fun p => (f p.1).test p.2

@[simp] lemma mem_elements {f : Fin n → BitSet N} {p : Fin n × ℕ} :
    p ∈ elements f ↔ (f p.1).test p.2 := by
  simpa [elements] using BitSet.test_lt

lemma elements_injective : Function.Injective (elements (n := n) (N := N)) := by
  intro f g h
  funext b
  refine BitSet.ext_test fun v => ?_
  have hv := Finset.ext_iff.1 h (b,v)
  rw [Bool.eq_iff_iff]
  simpa using hv

structure LiveSets.Inv (live : Fin n → BitSet N) (s : LiveSets n N) : Prop where
  initial : ∀ b v, (live b).test v → (s.liveIn b).test v
  sound : ∀ b v, (s.liveIn b).test v → LiveOnPath successors kill live b v
  out : ∀ b v, (s.liveOut b).test v → ∃ c ∈ successors b, (s.liveIn c).test v
  flow : ∀ b v, (s.liveOut b).test v → (kill b).test v = false → (s.liveIn b).test v

variable {successors kill} {live : Fin n → BitSet N} {s : LiveSets n N} {r : LiveSets n N × Bool}

lemma foldl_addSuccessor (l : List (Fin n)) (r : BitSet N × Bool) :
    (∀ v, (l.foldl (addSuccessor s) r).1.test v ↔ r.1.test v ∨ ∃ c ∈ l, (s.liveIn c).test v) ∧
      ((l.foldl (addSuccessor s) r).2 = false → r.2 = false ∧ (l.foldl (addSuccessor s) r).1 = r.1) := by
  induction l generalizing r with
  | nil => simp
  | cons c l ih =>
    obtain ⟨htest,hflag⟩ := ih (addSuccessor s r c)
    refine ⟨fun v => ?_,fun h => ?_⟩
    · rw [List.foldl_cons,htest]
      simp [addSuccessor,or_assoc]
    · obtain ⟨hc,hl⟩ := hflag h
      simp only [addSuccessor,Bool.or_eq_false_iff] at hc
      rw [List.foldl_cons,hl]
      exact ⟨hc.1,BitSet.addAll_unchanged hc.2⟩

/-- What a visit does where everything live out is killed or live in. -/
lemma visitBlock_spec (successors : Fin n → List (Fin n)) (b : Fin n)
    (hflow : ∀ b v, (r.1.liveOut b).test v → (kill b).test v = false → (r.1.liveIn b).test v) :
    let t := visitBlock successors kill r b
    (∀ c v, (t.1.liveOut c).test v ↔
      (r.1.liveOut c).test v ∨ c = b ∧ ∃ d ∈ successors b, (r.1.liveIn d).test v) ∧
    (∀ c v, (t.1.liveIn c).test v ↔ (r.1.liveIn c).test v ∨
      c = b ∧ (t.1.liveOut b).test v ∧ (kill b).test v = false) ∧
    (t.2 = (r.2 || decide (t.1.liveIn ≠ r.1.liveIn))) := by
  obtain ⟨hout,hsame⟩ := foldl_addSuccessor (successors b) (r.1.liveOut b,false)
  rw [← updateLiveOut] at hout hsame
  unfold visitBlock
  by_cases h : (updateLiveOut successors r.1 b).2 = true
  · simp only [h]
    refine ⟨fun c v => ?_,fun c v => ?_,?_⟩
    · rcases eq_or_ne c b with rfl | hc <;> simp [*]
    · rcases eq_or_ne c b with rfl | hc <;> simp [*,updateLiveIn]
    · simp [updateLiveIn,BitSet.killAndAdd]
  · simp only [h]
    have hr := (hsame (by simpa using h)).2
    have hu : update r.1.liveOut b (updateLiveOut successors r.1 b).1 = r.1.liveOut := by
      simp [hr]
    rw [hr] at hout
    simp only [hu]
    refine ⟨fun c v => ?_,fun c v => ?_,by simp⟩
    · rcases eq_or_ne c b with rfl | hc
      · simpa using hout v
      · simp [hc]
    · rcases eq_or_ne c b with rfl | hc
      · grind
      · simp [hc]

lemma LiveSets.Inv.visit (hr : Inv successors kill live r.1) (b : Fin n) :
    Inv successors kill live (visitBlock successors kill r b).1 := by
  obtain ⟨hout,hin, -⟩ := visitBlock_spec successors b hr.flow
  have hsucc : ∀ c v, ((visitBlock successors kill r b).1.liveOut c).test v →
      ∃ d ∈ successors c, (r.1.liveIn d).test v := by
    intro c v h
    rcases (hout c v).1 h with h | ⟨rfl,h⟩
    · exact hr.out c v h
    · exact h
  refine ⟨fun c v h => (hin c v).2 (.inl (hr.initial c v h)),fun c v h => ?_,fun c v h => ?_,
    fun c v h hk => ?_⟩
  · rcases (hin c v).1 h with h | ⟨rfl,h,hk⟩
    · exact hr.sound c v h
    · obtain ⟨d,hd,h⟩ := hsucc c v h
      obtain ⟨u,hpath,hu⟩ := hr.sound d v h
      exact ⟨u,hpath.head ⟨hd,hk⟩,hu⟩
  · obtain ⟨d,hd,h⟩ := hsucc c v h
    exact ⟨d,hd,(hin d v).2 (.inl h)⟩
  · rcases (hout c v).1 h with h' | ⟨rfl, -⟩
    · exact (hin c v).2 (.inl (hr.flow c v h' hk))
    · exact (hin c v).2 (.inr ⟨rfl,h,hk⟩)

/-- What the visits of some blocks do to the sets and to the flag. -/
structure Visited (successors : Fin n → List (Fin n)) (l : List (Fin n))
    (r t : LiveSets n N × Bool) : Prop where
  grows : elements r.1.liveIn ⊆ elements t.1.liveIn
  out : ∀ b v, (r.1.liveOut b).test v → (t.1.liveOut b).test v
  changed : t.2 = true → r.2 = true ∨ elements r.1.liveIn ⊂ elements t.1.liveIn
  same : t.2 = false → r.2 = false ∧ t.1.liveIn = r.1.liveIn ∧
    ∀ b ∈ l, ∀ d ∈ successors b, ∀ v, (t.1.liveIn d).test v → (t.1.liveOut b).test v

lemma visited_visitBlock (hr : LiveSets.Inv successors kill live r.1) (b : Fin n) :
    Visited successors [b] r (visitBlock successors kill r b) := by
  obtain ⟨hout,hin,hflag⟩ := visitBlock_spec successors b hr.flow
  have hgrows : elements r.1.liveIn ⊆ elements (visitBlock successors kill r b).1.liveIn :=
    fun p hp => by simp_all
  refine ⟨hgrows,fun c v h => (hout c v).2 (.inl h),fun h => ?_,fun h => ?_⟩
  · rw [hflag,Bool.or_eq_true,decide_eq_true_eq] at h
    exact h.imp_right fun hne => hgrows.ssubset_of_ne fun he => hne (elements_injective he.symm)
  · rw [hflag,Bool.or_eq_false_iff,decide_eq_false_iff_not,not_not] at h
    refine ⟨h.1,h.2,fun c hc d hd v hv => ?_⟩
    obtain rfl := List.mem_singleton.1 hc
    rw [h.2] at hv
    exact (hout c v).2 (.inr ⟨rfl,d,hd,hv⟩)

lemma visited_foldl (l : List (Fin n)) (hr : LiveSets.Inv successors kill live r.1) :
    LiveSets.Inv successors kill live (l.foldl (visitBlock successors kill) r).1 ∧
      Visited successors l r (l.foldl (visitBlock successors kill) r) := by
  induction l generalizing r with
  | nil => exact ⟨hr,by simp,by simp,by simp,by simp⟩
  | cons b l ih =>
    have hb := visited_visitBlock hr b
    obtain ⟨hinv,hl⟩ := ih (hr.visit b)
    refine ⟨hinv,hb.grows.trans hl.grows,fun c v h => hl.out c v (hb.out c v h),fun h => ?_,
      fun h => ?_⟩
    · rcases hl.changed h with h | h
      · exact (hb.changed h).imp_right fun hs => hs.trans_subset hl.grows
      · exact .inr (hb.grows.trans_ssubset h)
    · obtain ⟨hflag,hsame,hdone⟩ := hl.same h
      obtain ⟨hflag',hsame',hdone'⟩ := hb.same hflag
      refine ⟨hflag',hsame.trans hsame',List.forall_mem_cons.2 ⟨fun d hd v hv => ?_,hdone⟩⟩
      rw [List.foldl_cons,hsame] at hv
      exact hl.out b v (hdone' b List.mem_cons_self d hd v hv)

/-- Every round but the last adds an element to a live-in set. -/
lemma computeLiveInAndLiveOutSets_total (rounds : ℕ) (hs : LiveSets.Inv successors kill live s)
    (hr : n*(64*(1+(N-1)/64)) < (elements s.liveIn).card+rounds) :
    ∃ t, computeLiveInAndLiveOutSets successors kill rounds s = some t ∧
      LiveSets.Inv successors kill live t ∧
      ∀ b, ∀ c ∈ successors b, ∀ v, (t.liveIn c).test v → (t.liveOut b).test v := by
  induction rounds generalizing s with
  | zero =>
    have hcard := Finset.card_filter_le (Finset.univ ×ˢ Finset.range (64*(1+(N-1)/64)))
      fun p : Fin n × ℕ => (s.liveIn p.1).test p.2
    rw [Finset.card_product,Finset.card_univ,Fintype.card_fin,Finset.card_range] at hcard
    exact absurd hcard (not_le.2 hr)
  | succ rounds ih =>
    obtain ⟨hinv,hv⟩ := visited_foldl (r := (s,false)) (List.finRange n) hs
    rw [computeLiveInAndLiveOutSets]
    cases h : ((List.finRange n).foldl (visitBlock successors kill) (s,false)).2 with
    | false => exact ⟨_,by simp [h],hinv,by simpa using (hv.same h).2.2⟩
    | true =>
      have hcard := Finset.card_lt_card ((hv.changed h).resolve_left (by simp))
      simpa [h] using ih hinv (by simp at hcard; omega)

theorem computeLiveInAndLiveOutSets_exact (successors : Fin n → List (Fin n))
    (kill live : Fin n → BitSet N) :
    ∃ rounds s, computeLiveInAndLiveOutSets successors kill rounds ⟨live,fun _ => BitSet.reset⟩ =
        some s ∧
      (∀ b v, (s.liveIn b).test v ↔ LiveOnPath successors kill live b v) ∧
      ∀ b v, (s.liveOut b).test v ↔ ∃ c ∈ successors b, (s.liveIn c).test v := by
  have hinit : LiveSets.Inv successors kill live ⟨live,fun _ => BitSet.reset⟩ :=
    ⟨fun _ _ h => h,fun b v h => ⟨b,.refl,h⟩,by simp,by simp⟩
  obtain ⟨s,hrun,hs,hdone⟩ := computeLiveInAndLiveOutSets_total _ hinit (Nat.lt_add_left _
    (Nat.lt_succ_self _))
  refine ⟨_,s,hrun,fun b v => ⟨hs.sound b v,?_⟩,fun b v => ⟨hs.out b v,?_⟩⟩
  · rintro ⟨u,hpath,hu⟩
    induction hpath using Relation.ReflTransGen.head_induction_on with
    | refl => exact hs.initial u v hu
    | head h _ ih => exact hs.flow _ v (hdone _ _ h.1 v ih) h.2
  · rintro ⟨c,hc,hv⟩
    exact hdone b c hc v hv

end DartSdk.Liveness
