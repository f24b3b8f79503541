import DartSdk.ParallelMoveSound

/-! A call of `PerformMove` performs its move without letting a waiting move start to block one of
the moves that are pending above it. -/
namespace DartSdk.ParallelMove
open MoveOperands (blocks eliminated isEliminated isPending isRedundant)
open Location Resolver List

variable {V : Type*} {S : Set Location}

section Drop
variable {m₀ : List MoveOperands} {stk : List ℕ} {r r' : Resolver} {index : ℕ}

/-- Dropping the innermost pending move, whatever code performed it. -/
lemma Inv.drop (hi : Inv S m₀ (index :: stk) r) (hlen : r'.moves.length = r.moves.length)
    (hat : ∀ i, r'.moveAt i = if i = index then .eliminated else r.moveAt i) : Inv S m₀ stk r' := by
  have hn := nodup_cons.1 hi.stack_nodup
  have hne : ∀ a ∈ stk, a ≠ index := fun a ha h => hn.1 (h ▸ ha)
  have hlive : ∀ i, Live r' i → i ≠ index ∧ Live r i := by
    intro i h
    by_cases he : i = index
    · simp [Live,hat,he,eliminated] at h
    · exact ⟨he,by simpa [Live,hat,he] using h⟩
  have hat' : ∀ i, i ≠ index → r'.moveAt i = r.moveAt i := fun i h => by rw [hat,if_neg h]
  refine ⟨hlen.trans hi.length_eq,?_,hn.2,?_,?_,?_,?_,?_,?_⟩
  · intro a ha
    rw [Live,hat' a (hne a ha)]
    exact hi.stack_live a (mem_cons_of_mem _ ha)
  · intro i h
    by_cases he : i = index
    · rw [hat,if_pos he]; rfl
    · rw [hat' i he]
      exact hi.dest_pending i (by simpa [he,Live,hat' i he] using h)
  · intro i h hl'
    obtain ⟨he,hl⟩ := hlive i hl'
    rw [hat' i he]
    exact hi.dest_waiting i (by simp [he,h]) hl
  · refine hi.chain.tail.imp_of_mem_imp ?_
    intro a b ha _ h
    rw [hat' a (hne a ha)]
    exact h
  · intro i h hl'
    obtain ⟨he,hl⟩ := hlive i hl'
    rw [hat' i he]
    exact hi.proper i (by simp [he,h]) hl
  · intro i hl'
    obtain ⟨he,hl⟩ := hlive i hl'
    rw [hat' i he]
    exact hi.src_scratch i hl
  · intro i hl'
    obtain ⟨he,hl⟩ := hlive i hl'
    rw [hat' i he]
    exact hi.src_constant i hl

/-- A swap drops the innermost pending move and renames its source to its destination.
No waiting move reads that destination, so only the bottom of the stack is renamed. -/
lemma Inv.swap (hw : Moves S m₀) {b : ℕ} {rest : List ℕ} (hi : Inv S m₀ (index :: b :: rest) r)
    (hfree : ∀ i ∉ index :: b :: rest, Live r i → (r.moveAt i).src ≠ (original m₀ index).dest)
    (hlen : r'.moves.length = r.moves.length) (hlive : ∀ i, Live r' i ↔ i ≠ index ∧ Live r i)
    (hdest : ∀ i, (r'.moveAt i).dest = if i = index then .invalid else (r.moveAt i).dest)
    (hsrc : ∀ i, i ≠ index → Live r i → (r'.moveAt i).src =
      if (r.moveAt i).src = (original m₀ b).dest then (original m₀ index).dest
      else if (r.moveAt i).src = (original m₀ index).dest then (original m₀ b).dest
      else (r.moveAt i).src) : Inv S m₀ (b :: rest) r' := by
  have hn := nodup_cons.1 hi.stack_nodup
  have hne : ∀ a ∈ b :: rest, a ≠ index := fun a ha h => hn.1 (h ▸ ha)
  have hsl : ∀ a ∈ b :: rest, Live r a := fun a ha => hi.stack_live a (mem_cons_of_mem _ ha)
  have hil : Live r index := hi.stack_live index (by simp)
  have hbl : Live r b := hi.stack_live b (by simp)
  refine ⟨hlen.trans hi.length_eq,fun a ha => (hlive a).2 ⟨hne a ha,hsl a ha⟩,hn.2,
    ?_,?_,?_,?_,?_,?_⟩
  · intro i h
    rw [hdest]
    split_ifs with he
    · rfl
    · exact hi.dest_pending i (by simpa [he,hlive] using h)
  · intro i h hl'
    obtain ⟨he,hl⟩ := (hlive i).1 hl'
    rw [hdest,if_neg he]
    exact hi.dest_waiting i (by simpa [he] using h) hl
  · refine hi.chain.tail.imp_of_mem_tail_imp ?_
    intro a c ha hc h
    have hc' : c ∈ b :: rest := mem_cons_of_mem _ hc
    have hcb : c ≠ b := fun h => (nodup_cons.1 hn.2).1 (h ▸ hc)
    have hcl := (hsl c hc').lt hi
    rw [hsrc a (hne a ha) (hsl a ha),h,if_neg fun he => hcb (hw.dest_inj hcl (hbl.lt hi) he),
      if_neg fun he => hne c hc' (hw.dest_inj hcl (hil.lt hi) he)]
  · intro i h hl'
    obtain ⟨he,hl⟩ := (hlive i).1 hl'
    have hni : i ∉ index :: b :: rest := by simpa [he] using h
    rw [hsrc i he hl,if_neg (hfree i hni hl)]
    split_ifs with h1
    · exact fun hd => he (hw.dest_inj (hil.lt hi) (hl.lt hi) hd).symm
    · exact hi.proper i hni hl
  · intro i hl'
    obtain ⟨he,hl⟩ := (hlive i).1 hl'
    rw [hsrc i he hl]
    split_ifs
    · exact hi.dest_scratch hw hil
    · exact hi.dest_scratch hw hbl
    · exact hi.src_scratch i hl
  · intro i hl'
    obtain ⟨he,hl⟩ := (hlive i).1 hl'
    rw [hsrc i he hl,← hi.src_constant i hl]
    have h1 := isStorage_not_constant (hi.dest_storage hw hil)
    have h2 := isStorage_not_constant (hi.dest_storage hw hbl)
    split_ifs with hb hx
    · rw [hb,h1,h2]
    · rw [hx,h1,h2]
    · rfl

end Drop

/-- What a call made while `stk` is pending guarantees to its caller: the invariant still
holds, no move comes back to life, and no waiting move starts to block a pending one. -/
structure Progress (V : Type*) (S : Set Location) (m₀ : List MoveOperands) (stk : List ℕ)
    (r r' : Resolver) : Prop where
  inv : Inv S m₀ stk r'
  meaning : Meaning V S m₀ r'
  live : ∀ i, Live r' i → Live r i
  blockers : ∀ b ∈ stk, ∀ i ∉ stk, Live r' i → (r'.moveAt i).src = (original m₀ b).dest →
    (r.moveAt i).src = (original m₀ b).dest

section Perform
variable {m₀ : List MoveOperands} {stk : List ℕ} {r r' r'' : Resolver} {index : ℕ}

lemma Progress.refl (hi : Inv S m₀ stk r) (hm : Meaning V S m₀ r) : Progress V S m₀ stk r r :=
  ⟨hi,hm,fun _ h => h,fun _ _ _ _ _ h => h⟩

lemma Progress.trans (h : Progress V S m₀ stk r r') (h' : Progress V S m₀ stk r' r'') :
    Progress V S m₀ stk r r'' := by
  refine ⟨h'.inv,h'.meaning,fun i hl => h.live i (h'.live i hl),?_⟩
  intro b hb i hn hl hs
  exact h.blockers b hb i hn (h'.live i hl) (h'.blockers b hb i hn hl hs)

lemma Progress.of_drop (hi : Inv S m₀ (index :: stk) r) (hm : Meaning V S m₀ r')
    (hlen : r'.moves.length = r.moves.length)
    (hat : ∀ i, r'.moveAt i = if i = index then .eliminated else r.moveAt i) :
    ¬ Live r' index ∧ Progress V S m₀ stk r r' := by
  have hdead : ¬ Live r' index := by simp [Live,hat,eliminated]
  have hne : ∀ i, Live r' i → r'.moveAt i = r.moveAt i := by
    intro i h
    rw [hat,if_neg fun he : i = index => hdead (he ▸ h)]
  refine ⟨hdead,hi.drop hlen hat,hm,?_,?_⟩
  · intro i h
    rw [Live,← hne i h]
    exact h
  · intro b _ i _ h hs
    rw [← hne i h]
    exact hs

/-- The innermost move closes a cycle through the bottom of the stack. -/
lemma Progress.of_swap (hw : Moves S m₀) {b : ℕ} {rest : List ℕ}
    (hi : Inv S m₀ (index :: b :: rest) r) (hm : Meaning V S m₀ r)
    (hs : (r.moveAt index).src ≠ (original m₀ index).dest)
    (hfree : ∀ i ∉ index :: b :: rest, Live r i → (r.moveAt i).src ≠ (original m₀ index).dest) :
    ¬ Live ((r.clearPending index (original m₀ index).dest).emitSwap index) index ∧
      Progress V S m₀ (b :: rest) r
        ((r.clearPending index (original m₀ index).dest).emitSwap index) := by
  set c := r.clearPending index (original m₀ index).dest with hc
  have hn := nodup_cons.1 hi.stack_nodup
  have hl : Live r index := hi.stack_live index (by simp)
  have hbi : b ≠ index := fun h => hn.1 (by simp [h])
  have hsb : (r.moveAt index).src = (original m₀ b).dest :=
    (isChain_cons_cons.1 hi.chain).1
  have hlc : ∀ i, Live c i ↔ Live r i := fun i => setDest_live hl _
  have hsc : ∀ i, (c.moveAt i).src = (r.moveAt i).src := setDest_src hl _
  have hdc : (c.moveAt index).dest = (original m₀ index).dest := by
    rw [hc,clearPending,setDest_moveAt hl,if_pos rfl]
  have hdv : (c.moveAt index).dest ≠ .invalid := by
    rw [hdc]
    exact isStorage_ne_invalid (hi.dest_storage hw hl)
  have hlive : ∀ i, Live (c.emitSwap index) i ↔ i ≠ index ∧ Live r i := by
    intro i
    rw [emitSwap_live ((hlc index).2 hl) hdv,hlc]
  have hsrc : ∀ i, i ≠ index → Live r i → ((c.emitSwap index).moveAt i).src =
        if (r.moveAt i).src = (original m₀ b).dest then (original m₀ index).dest
        else if (r.moveAt i).src = (original m₀ index).dest then (original m₀ b).dest
        else (r.moveAt i).src := by
    intro i h hil
    rw [emitSwap_src ((hlc index).2 hl) h ((hlc i).2 hil),hdc,hsc,hsc,hsb]
  refine ⟨by simp [hlive],?_,?_,fun i h => ((hlive i).1 h).2,?_⟩
  · refine hi.swap hw hfree (by simp [hc,clearPending]) hlive ?_ hsrc
    intro i
    rw [emitSwap_moveAt,renameSource_dest,eliminate_moveAt ((hlc index).2 hl),hc,clearPending,
      setDest_moveAt hl]
    split_ifs <;> rfl
  · refine (hm.setDest hl _).emitSwap hw (hi.clear hs) ((hlc index).2 hl) hn.1
      ((hlc b).2 (hi.stack_live b (by simp))) hbi ?_
    rw [hsc,hsb]
  · intro c hc i hin h hsrc'
    obtain ⟨he,hil⟩ := (hlive i).1 h
    rw [hsrc i he hil,if_neg (hfree i (by simpa [he] using hin) hil)] at hsrc'
    split_ifs at hsrc' with h1
    · have hci : index = c := hw.dest_inj (hl.lt hi)
        ((hi.stack_live c (mem_cons_of_mem _ hc)).lt hi) hsrc'
      exact absurd hc (hci ▸ hn.1)
    · exact hsrc'

/-- The tail of `PerformMove` once only pending moves read the destination. -/
lemma finishMove_spec (hw : Moves S m₀) (hi : Inv S m₀ (index :: stk) r) (hm : Meaning V S m₀ r)
    (hfree : ∀ i ∉ index :: stk, Live r i → (r.moveAt i).src ≠ (original m₀ index).dest) :
    ∃ r', r.finishMove index (original m₀ index).dest = some r' ∧ ¬ Live r' index ∧
      Progress V S m₀ stk r r' := by
  have hl : Live r index := hi.stack_live index (by simp)
  set c := r.clearPending index (original m₀ index).dest with hc
  have hlc : ∀ i, Live c i ↔ Live r i := fun i => setDest_live hl _
  have hsc : ∀ i, (c.moveAt i).src = (r.moveAt i).src := setDest_src hl _
  have hat : ∀ i, (c.eliminate index).moveAt i = if i = index then .eliminated else r.moveAt i := by
    intro i
    rw [eliminate_moveAt ((hlc index).2 hl),hc,clearPending,setDest_moveAt hl]
    split_ifs <;> rfl
  by_cases hs : (r.moveAt index).src = (original m₀ index).dest
  · refine ⟨c.eliminate index,by simp [finishMove,← hc,hsc,hs],?_⟩
    exact Progress.of_drop hi ((hm.setDest hl _).eliminate ((hlc index).2 hl) ((hsc index).trans hs))
      (by simp [hc,clearPending]) hat
  · cases hf : c.moves.find? (·.blocks (original m₀ index).dest) with
    | none =>
      refine ⟨c.emitMove index,by simp [finishMove,← hc,hsc,hs,hf],?_⟩
      refine Progress.of_drop hi ?_ (by simp [hc,clearPending]) hat
      refine (hm.setDest hl _).emitMove hw (hi.clear hs) ((hlc index).2 hl)
        (nodup_cons.1 hi.stack_nodup).1 ?_
      intro i hil _ he
      have hb := find?_eq_none.1 hf _ ((mem_moves_iff _ _).2 ⟨i,hil.lt_length,rfl⟩)
      have hv : (original m₀ index).dest ≠ .invalid := he ▸ hil
      simp [blocks,isEliminated,he,hv] at hb
    | some other =>
      obtain ⟨k,hk,hko⟩ := (mem_moves_iff _ other).1 (mem_of_find?_eq_some hf)
      have hblock : other.blocks (original m₀ index).dest = true := by
        simpa using find?_some hf
      simp only [blocks,isEliminated,Bool.and_eq_true,
        Bool.not_eq_true',isInvalid_eq_false,decide_eq_true_eq,← hko,hsc] at hblock
      have hki : k ≠ index := fun h => hs (h ▸ hblock.2)
      have hks : k ∈ stk := by
        by_contra hkn
        exact hfree k (by simp [hki,hkn]) hblock.1 hblock.2
      have hpend : other.isPending = true := by
        have hd := hi.dest_pending k (Or.inl (mem_cons_of_mem _ hks))
        rw [← hko,hc,clearPending,setDest_moveAt hl,if_neg hki]
        simpa [isPending,hd] using hblock.1
      cases stk with
      | nil => simp at hks
      | cons b rest =>
        exact ⟨c.emitSwap index,by simp [finishMove,← hc,hsc,hs,hf,hpend],
          Progress.of_swap hw hi hm hs hfree⟩

instance (r : Resolver) (i : ℕ) : Decidable (Live r i) :=
  inferInstanceAs (Decidable (_ ≠ _))

/-- The moves that a recursive call may still start. -/
def waiting (m₀ : List MoveOperands) (stk : List ℕ) (r : Resolver) : Finset ℕ :=
  (Finset.range m₀.length).filter fun i => i ∉ stk ∧ Live r i

lemma mem_waiting (hi : Inv S m₀ stk r) {i : ℕ} : i ∈ waiting m₀ stk r ↔ i ∉ stk ∧ Live r i := by
  simp only [waiting,Finset.mem_filter,Finset.mem_range,and_iff_right_iff_imp]
  exact fun h => h.2.lt hi

/-- Every recursive call starts a waiting move, so their number bounds the depth. -/
lemma waiting_card_lt (hi : Inv S m₀ stk r) (hn : index ∉ stk) (hl : Live r index)
    (hi' : Inv S m₀ (index :: stk) r') (hlive : ∀ i, Live r' i → Live r i) :
    (waiting m₀ (index :: stk) r').card < (waiting m₀ stk r).card := by
  apply Finset.card_lt_card
  refine ⟨?_,?_⟩
  · intro i h
    obtain ⟨hin,hil⟩ := (mem_waiting hi').1 h
    exact (mem_waiting hi).2 ⟨fun hs => hin (mem_cons_of_mem _ hs),hlive i hil⟩
  · intro hsub
    have h := hsub ((mem_waiting hi).2 ⟨hn,hl⟩)
    exact ((mem_waiting hi').1 h).1 (by simp)

/-- The contract of one call of `PerformMove` made while `stk` is pending. -/
def Performs (V : Type*) (S : Set Location) (m₀ : List MoveOperands) (fuel : ℕ) (stk : List ℕ)
    (r : Resolver) (index : ℕ) : Prop :=
  ∃ r', r.performMove fuel index = some r' ∧ ¬ Live r' index ∧ Progress V S m₀ stk r r'

/-- The loop over the blocking moves. Its invariant is that the moves already passed do not
read the destination of `index`, unless they are pending. -/
lemma blockingLoop_spec (hw : Moves S m₀) (fuel : ℕ) (hi : Inv S m₀ (index :: stk) r)
    (hm : Meaning V S m₀ r)
    (ih : ∀ t i, Progress V S m₀ (index :: stk) r t → i ∉ index :: stk → Live t i →
      (t.moveAt i).src = (original m₀ index).dest → Performs V S m₀ fuel (index :: stk) t i) :
    ∃ t, (range r.moves.length).foldlM (fun t i =>
        if (t.moveAt i).blocks (original m₀ index).dest && !(t.moveAt i).isPending then
          t.performMove fuel i
        else some t) r = some t ∧ Progress V S m₀ (index :: stk) r t ∧
      ∀ j ∉ index :: stk, Live t j → (t.moveAt j).src ≠ (original m₀ index).dest := by
  obtain ⟨t,ht,hpt,hfree⟩ := Iteration.foldlM_range_total
    (f := fun t i => if (t.moveAt i).blocks (original m₀ index).dest &&
      !(t.moveAt i).isPending then t.performMove fuel i else some t)
    (fun i t => Progress V S m₀ (index :: stk) r t ∧
      ∀ j < i, j ∉ index :: stk → Live t j → (t.moveAt j).src ≠ (original m₀ index).dest)
    ⟨.refl hi hm,by simp⟩ (by
      rintro i-t ⟨hpt,hfree⟩
      by_cases hb : i ∉ index :: stk ∧ Live t i ∧ (t.moveAt i).src = (original m₀ index).dest
      · obtain ⟨hin,hil,his⟩ := hb
        obtain ⟨u,hu,hdead,hpu⟩ := ih t i hpt hin hil his
        refine ⟨u,?_,hpt.trans hpu,?_⟩
        · have hd : (t.moveAt i).dest ≠ .invalid := hpt.inv.dest_waiting i hin hil ▸
            isStorage_ne_invalid (hpt.inv.dest_storage hw hil)
          have hv : (original m₀ index).dest ≠ .invalid := his ▸ hil
          simp [blocks,isEliminated,isPending,his,hd,hv,hu]
        · intro j hj hjn hjl hjs
          rcases Nat.lt_succ_iff_lt_or_eq.1 hj with hj | rfl
          · exact hfree j hj hjn (hpu.live j hjl) (hpu.blockers index (by simp) j hjn hjl hjs)
          · exact hdead hjl
      · refine ⟨t,?_,hpt,?_⟩
        · rw [if_neg]
          intro hcond
          simp only [blocks,isEliminated,isPending,
            Bool.and_eq_true,Bool.not_eq_true',isInvalid_eq_false,decide_eq_true_eq,
            Bool.and_eq_false_iff,Bool.not_eq_false',isInvalid_iff] at hcond
          obtain ⟨⟨hil,his⟩,hp⟩ := hcond
          refine hb ⟨fun hin => ?_,hil,his⟩
          rcases hp with hp | hp
          · exact hp (hpt.inv.dest_pending i (Or.inl hin))
          · exact hil hp
        · intro j hj hjn hjl hjs
          rcases Nat.lt_succ_iff_lt_or_eq.1 hj with hj | rfl
          · exact hfree j hj hjn hjl hjs
          · exact hb ⟨hjn,hjl,hjs⟩)
  exact ⟨t,ht,hpt,fun j hjn hjl =>
    hfree j (by rw [hi.length_eq]; exact hjl.lt hpt.inv) hjn hjl⟩

/-- `PerformMove` succeeds, performs its move and keeps the promise to its caller. -/
lemma performMove_spec (hw : Moves S m₀) (fuel : ℕ) : ∀ {index : ℕ} {stk : List ℕ} {r : Resolver},
      Inv S m₀ stk r → Meaning V S m₀ r → index ∉ stk → Live r index →
      ((index :: stk).IsChain fun a b => (r.moveAt a).src = (original m₀ b).dest) →
      (waiting m₀ stk r).card ≤ fuel → Performs V S m₀ fuel stk r index := by
  induction fuel with
  | zero =>
    intro index stk r hi _ hn hl _ hfuel
    have := Finset.card_pos.2 ⟨index,(mem_waiting hi).2 ⟨hn,hl⟩⟩
    omega
  | succ fuel ih =>
    intro index stk r hi hm hn hl hc hfuel
    have hd := hi.dest_waiting index hn hl
    have hml : ∀ i, Live (r.markPending index) i ↔ Live r i := fun i => setDest_live hl _
    have hms : ∀ i, ((r.markPending index).moveAt i).src = (r.moveAt i).src := setDest_src hl _
    have hguard : ((r.moveAt index).isPending || (r.moveAt index).isRedundant ||
        (r.moveAt index).src.isInvalid) = false := by
      have h1 : (r.moveAt index).dest ≠ .invalid := hd ▸ isStorage_ne_invalid (hi.dest_storage hw hl)
      have h2 : (r.moveAt index).src ≠ (r.moveAt index).dest := hd ▸ hi.proper index hn hl
      have h3 : (r.moveAt index).src ≠ .invalid := hl
      simp [isPending,isRedundant,isEliminated,h1,h2,h3]
    obtain ⟨t,ht,hpt,hfree⟩ := blockingLoop_spec hw fuel (hi.mark hn hl hc)
      (hm.setDest hl _) fun t i hpt hin hil his => by
        have hcard := waiting_card_lt hi hn hl hpt.inv fun j h => (hml j).1 (hpt.live j h)
        exact ih hpt.inv hpt.meaning hin hil (isChain_cons_cons.2 ⟨his,hpt.inv.chain⟩)
          (by omega)
    obtain ⟨u,hu,hdead,hpu⟩ := finishMove_spec hw hpt.inv hpt.meaning hfree
    refine ⟨u,?_,hdead,hpu.inv,hpu.meaning,?_,?_⟩
    · rw [performMove,if_neg (by rw [hguard]; simp)]
      simp only [markPending,setDest_length] at ht
      simp only [hd,markPending,ht]
      exact hu
    · exact fun i h => (hml i).1 (hpt.live i (hpu.live i h))
    · intro b hb i hin hil his
      have hne : i ≠ index := fun h => hdead (h ▸ hil)
      rw [← hms]
      exact hpt.blockers b (mem_cons_of_mem _ hb) i (by simp [hne,hin]) (hpu.live i hil)
        (hpu.blockers b hb i hin hil his)

end Perform

/-- A parallel move as the register allocator builds it: moves without a destination are
ignored, the other destinations are distinct, and nothing uses the scratch registers. -/
structure ParallelMoveInstr (S : Set Location) (moves : List MoveOperands) : Prop where
  dest_storage : ∀ m ∈ moves, m.dest ≠ .invalid → m.dest.isStorage = true
  dest_scratch : ∀ m ∈ moves, m.dest ≠ .invalid → m.dest ∉ S
  src_operand : ∀ m ∈ moves, m.dest ≠ .invalid → m.src.isStorage = true ∨ m.src.isConstant = true
  src_scratch : ∀ m ∈ moves, m.dest ≠ .invalid → m.src ∉ S
  distinct : moves.Pairwise fun a b => a.dest ≠ .invalid → a.dest ≠ b.dest

section Emit
variable {moves m₀ : List MoveOperands} {r : Resolver}

lemma mem_buildInitialMoveList {m : MoveOperands} : m ∈ buildInitialMoveList moves ↔
    m ∈ moves ∧ m.src ≠ .invalid ∧ m.dest ≠ .invalid ∧ m.src ≠ m.dest := by
  simp [buildInitialMoveList,isRedundant,isEliminated,and_assoc]

lemma buildInitialMoveList_moves (h : ParallelMoveInstr S moves) :
    Moves S (buildInitialMoveList moves) := by
  refine ⟨?_,?_,?_,?_,?_,?_⟩
  · intro m hm
    obtain ⟨hm, -,hd, -⟩ := mem_buildInitialMoveList.1 hm
    exact h.dest_storage m hm hd
  · intro m hm
    obtain ⟨hm, -,hd, -⟩ := mem_buildInitialMoveList.1 hm
    exact h.dest_scratch m hm hd
  · intro m hm
    exact (mem_buildInitialMoveList.1 hm).2.1
  · intro m hm
    obtain ⟨hm, -,hd, -⟩ := mem_buildInitialMoveList.1 hm
    exact h.src_scratch m hm hd
  · intro m hm
    exact (mem_buildInitialMoveList.1 hm).2.2.2
  · refine pairwise_map.2 ((h.distinct.filter _).imp_of_mem ?_)
    intro a b ha _ hab
    exact hab (mem_buildInitialMoveList.1 ha).2.2.1

variable (hw : Moves S m₀)
include hw

/-- Before any code is emitted every move is waiting at its original operands. -/
lemma initial_inv : Inv S m₀ [] ⟨m₀,[]⟩ := by
  have hmem : ∀ i, Live ⟨m₀,[]⟩ i → original m₀ i ∈ m₀ := fun i h => original_mem h.lt_length
  refine ⟨rfl,by simp,nodup_nil,?_,fun _ _ _ => rfl,isChain_nil,?_,?_,fun _ _ => rfl⟩
  · rintro i (h | h)
    · simp at h
    · by_cases hi : i < m₀.length
      · exact absurd (hw.src_valid _ (original_mem hi)) h
      · simp [moveAt,getElem?_eq_none (not_lt.1 hi),eliminated]
  · exact fun i _ h => hw.proper _ (hmem i h)
  · exact fun i h => hw.src_scratch _ (hmem i h)

lemma initial_meaning : Meaning V S m₀ ⟨m₀,[]⟩ := by
  refine ⟨?_,?_,?_⟩
  · rintro σ₀ σ rfl i -
    rfl
  · intro σ₀ σ _ i hi hd
    exact absurd (hw.src_valid _ (original_mem hi)) hd
  · rintro σ₀ σ rfl l - -
    rfl

/-- The first loop leaves only moves with constant sources. -/
lemma performMoves_spec (hi : Inv S m₀ [] r) (hm : Meaning V S m₀ r) :
    ∃ t, performMoves r = some t ∧ Inv S m₀ [] t ∧ Meaning V S m₀ t ∧
      ∀ j, Live t j → (t.moveAt j).src.isConstant = true := by
  obtain ⟨t,ht,hti,htm,hc⟩ := Iteration.foldlM_range_total
    (f := fun t i => if !(t.moveAt i).isEliminated && !(t.moveAt i).src.isConstant then
      t.performMove (t.moves.length+1) i else some t)
    (fun i t => Inv S m₀ [] t ∧ Meaning V S m₀ t ∧
      ∀ j < i, Live t j → (t.moveAt j).src.isConstant = true)
    ⟨hi,hm,by simp⟩ (by
      rintro i-t ⟨hti,htm,hc⟩
      by_cases hb : Live t i ∧ (t.moveAt i).src.isConstant = false
      · have hfuel : (waiting m₀ [] t).card ≤ t.moves.length+1 := by
          calc (waiting m₀ [] t).card ≤ (Finset.range m₀.length).card := Finset.card_filter_le _ _
            _ = t.moves.length := by rw [Finset.card_range,hti.length_eq]
            _ ≤ t.moves.length+1 := Nat.le_succ _
        obtain ⟨u,hu,hdead,hpu⟩ := performMove_spec hw (t.moves.length+1) hti htm
          not_mem_nil hb.1 (isChain_singleton i) hfuel
        refine ⟨u,?_,hpu.inv,hpu.meaning,?_⟩
        · have he : (t.moveAt i).src ≠ .invalid := hb.1
          simp [isEliminated,he,hb.2,hu]
        · intro j hj hjl
          rcases Nat.lt_succ_iff_lt_or_eq.1 hj with hj | rfl
          · rw [hpu.inv.src_constant j hjl,← hti.src_constant j (hpu.live j hjl)]
            exact hc j hj (hpu.live j hjl)
          · exact absurd hjl hdead
      · refine ⟨t,?_,hti,htm,?_⟩
        · rw [if_neg]
          intro hcond
          simp only [isEliminated,Bool.and_eq_true,Bool.not_eq_true',isInvalid_eq_false] at hcond
          exact hb hcond
        · intro j hj hjl
          rcases Nat.lt_succ_iff_lt_or_eq.1 hj with hj | rfl
          · exact hc j hj hjl
          · simpa [hjl] using hb)
  exact ⟨t,ht,hti,htm,fun j hj => hc j (by rw [hi.length_eq]; exact hj.lt hti) hj⟩

/-- The second loop performs the remaining moves; constants block nobody. -/
lemma emitConstants_spec (hi : Inv S m₀ [] r) (hm : Meaning V S m₀ r)
    (hc : ∀ j, Live r j → (r.moveAt j).src.isConstant = true) :
    ∃ t, emitConstants r = some t ∧ Meaning V S m₀ t ∧ ∀ j, ¬ Live t j := by
  obtain ⟨t,ht,hti,htm, -,hdone⟩ := Iteration.foldlM_range_total
    (f := fun t i => if !(t.moveAt i).isEliminated then
      if (t.moveAt i).src.isConstant then some (t.emitMove i) else none else some t)
    (fun i t => Inv S m₀ [] t ∧ Meaning V S m₀ t ∧
      (∀ j, Live t j → (t.moveAt j).src.isConstant = true) ∧ ∀ j < i, ¬ Live t j)
    ⟨hi,hm,hc,by simp⟩ (by
      rintro i-t ⟨hti,htm,hc,hdone⟩
      by_cases hl : Live t i
      · refine ⟨t.emitMove i,?_,?_,?_,?_,?_⟩
        · have he : (t.moveAt i).src ≠ .invalid := hl
          simp [isEliminated,he,hc i hl]
        · refine (hti.mark not_mem_nil hl (isChain_singleton i)).drop
            (by simp [markPending]) fun j => ?_
          rw [emitMove_moveAt,eliminate_moveAt hl,markPending,setDest_moveAt hl]
          split_ifs <;> rfl
        · refine htm.emitMove hw hti hl not_mem_nil fun j hj _ he => ?_
          have h := hc j hj
          rw [he,isStorage_not_constant (hti.dest_storage hw hl)] at h
          exact absurd h (by simp)
        · intro j hj
          obtain ⟨hne,hj⟩ := (eliminate_live hl).1 hj
          rw [emitMove_moveAt,eliminate_moveAt hl,if_neg hne]
          exact hc j hj
        · intro j hj hjl
          obtain ⟨hne,hjl⟩ := (eliminate_live hl).1 hjl
          exact hdone j (by omega) hjl
      · refine ⟨t,?_,hti,htm,hc,?_⟩
        · have he : (t.moveAt i).src = .invalid := not_not.1 hl
          simp [isEliminated,he]
        · intro j hj
          rcases Nat.lt_succ_iff_lt_or_eq.1 hj with hj | rfl
          · exact hdone j hj
          · exact hl)
  exact ⟨t,ht,htm,fun j hj => hdone j (by rw [hi.length_eq]; exact hj.lt hti) hj⟩

omit hw

/-- `EmitNativeCode` never fails an assertion, and its code is a simultaneous assignment:
every destination receives the value that its source held at the start, and every location
that is neither a destination nor scratch keeps its value. -/
theorem emitNativeCode_simultaneous (h : ParallelMoveInstr S moves) :
    ∃ code, emitNativeCode moves = some code ∧ ∀ σ₀ : Location → V,
      (∃ σ, Exec S code σ₀ σ) ∧ ∀ σ, Exec S code σ₀ σ →
        (∀ m ∈ moves, m.dest ≠ .invalid → σ m.dest = σ₀ m.src) ∧
        ∀ l ∉ S, (∀ m ∈ moves, m.dest ≠ l) → σ l = σ₀ l := by
  have hw := buildInitialMoveList_moves h
  obtain ⟨r,hr,hri,hrm,hrc⟩ := performMoves_spec hw (initial_inv hw)
    (initial_meaning hw)
  obtain ⟨t,ht,htm,hdone⟩ := emitConstants_spec hw hri hrm hrc
  refine ⟨t.code,by simp [emitNativeCode,hr,ht],fun σ₀ => ⟨exec_exists S t.code σ₀,?_⟩⟩
  intro σ hx
  have horig : ∀ i < (buildInitialMoveList moves).length,
      original (buildInitialMoveList moves) i ∈ moves :=
    fun i hi => (mem_buildInitialMoveList.1 (original_mem hi)).1
  refine ⟨?_,fun l hl hd => htm.frame σ₀ σ hx l hl fun i hi => hd _ (horig i hi)⟩
  intro m hm hd
  by_cases hs : m.src = m.dest
  · -- A self-move is dropped; its destination belongs to no other move.
    rw [hs]
    refine htm.frame σ₀ σ hx _ (h.dest_scratch m hm hd) fun i hi he => ?_
    have hmem := mem_buildInitialMoveList.1 (original_mem hi)
    have hne : original (buildInitialMoveList moves) i ≠ m :=
      fun heq => hmem.2.2.2 (by rw [heq,hs])
    have hsymm : Std.Symm fun a b : MoveOperands => a.dest ≠ .invalid → a.dest ≠ b.dest :=
      ⟨fun a b hab hb hba => hab (hba ▸ hb) hba.symm⟩
    exact h.distinct.forall (horig i hi) hm hne hmem.2.2.1 he
  · have hv : m.src ≠ .invalid := by
      rcases h.src_operand m hm hd with ho | ho
      · exact isStorage_ne_invalid ho
      · rintro he
        simp [he,isConstant] at ho
    obtain ⟨i,hi,rfl⟩ := List.mem_iff_getElem.1 (mem_buildInitialMoveList.2 ⟨hm,hv,hd,hs⟩)
    have := htm.done σ₀ σ hx i hi (hdone i)
    simpa [original,hi] using this

/-- Two cycles sharing a source with a third move, a chain, a constant and a self-move. -/
def sampleMoves : List MoveOperands :=
  [⟨.register 0,.register 1⟩,⟨.register 1,.stackSlot 5 2⟩,⟨.stackSlot 5 2,.register 0⟩,
   ⟨.register 3,.register 0⟩,⟨.fpuRegister 1,.doubleStackSlot 4⟩,
   ⟨.doubleStackSlot 4,.fpuRegister 1⟩,⟨.register 6,.constant 9⟩,⟨.register 7,.register 7⟩]

theorem emitNativeCode_sampleMoves :
    ∃ code, emitNativeCode sampleMoves = some code ∧ ∀ σ₀ : Location → ℕ,
      (∃ σ, Exec {.fpuRegister 0} code σ₀ σ) ∧ ∀ σ, Exec {.fpuRegister 0} code σ₀ σ →
        (∀ m ∈ sampleMoves, m.dest ≠ .invalid → σ m.dest = σ₀ m.src) ∧
        ∀ l ∉ ({.fpuRegister 0} : Set Location), (∀ m ∈ sampleMoves, m.dest ≠ l) → σ l = σ₀ l :=
  emitNativeCode_simultaneous
    ⟨by decide,by simp [sampleMoves],by decide,by simp [sampleMoves],by decide⟩

end Emit

end DartSdk.ParallelMove
