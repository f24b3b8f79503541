import DartSdk.Iteration
import DartSdk.ParallelMove

/-! The recursion of `PerformMove` keeps a stack of pending moves in which every move reads the
destination of the move below it, so that a swap only exchanges destinations that are not final yet.
-/
namespace DartSdk.ParallelMove
open MoveOperands (blocks dest eliminated isEliminated)
open Location Resolver List

variable {V : Type*} {S : Set Location}

/-- Effect of one operation on everything except the scratch registers `S` and those
the operation itself was given. Constants are read like any other location, and distinct
locations do not overlap: a spill slot index is never both a double and a quad slot. -/
def Op.Effect (S : Set Location) (σ σ' : Location → V) : Op → Prop
  | .move d s scratch => ∀ l ∉ S, l ∉ scratch → σ' l = if l = d then σ s else σ l
  | .swap d s scratch => ∀ l ∉ S, l ∉ scratch →
      σ' l = if l = d then σ s else if l = s then σ d else σ l

def Exec (S : Set Location) : List Op → (Location → V) → (Location → V) → Prop
  | [], σ, σ' => σ' = σ
  | op :: code, σ, σ' => ∃ τ, op.Effect S σ τ ∧ Exec S code τ σ'

lemma exec_append (code code' : List Op) (σ σ' : Location → V) :
    Exec S (code ++ code') σ σ' ↔ ∃ τ, Exec S code σ τ ∧ Exec S code' τ σ' := by
  induction code generalizing σ with
  | nil => simp [Exec]
  | cons op code ih =>
    simp only [cons_append,Exec,ih]
    constructor
    · rintro ⟨τ,hop,ρ,hc,hc'⟩
      exact ⟨ρ,⟨τ,hop,hc⟩,hc'⟩
    · rintro ⟨ρ,⟨τ,hop,hc⟩,hc'⟩
      exact ⟨τ,hop,ρ,hc,hc'⟩

lemma exec_snoc (code : List Op) (op : Op) (σ σ' : Location → V) :
    Exec S (code ++ [op]) σ σ' ↔ ∃ τ, Exec S code σ τ ∧ op.Effect S τ σ' := by
  simp [exec_append,Exec]

lemma exec_exists (S : Set Location) (code : List Op) (σ : Location → V) :
    ∃ σ', Exec S code σ σ' := by
  induction code generalizing σ with
  | nil => exact ⟨σ,rfl⟩
  | cons op code ih =>
    cases op with
    | move d s scratch =>
      obtain ⟨σ',h⟩ := ih fun l => if l = d then σ s else σ l
      exact ⟨σ',_,fun _ _ _ => rfl,h⟩
    | swap d s scratch =>
      obtain ⟨σ',h⟩ := ih fun l => if l = d then σ s else if l = s then σ d else σ l
      exact ⟨σ',_,fun _ _ _ => rfl,h⟩

/-- The move has not been performed yet. -/
def Live (r : Resolver) (i : ℕ) : Prop := (r.moveAt i).src ≠ .invalid

section Access
variable {r : Resolver} {i j : ℕ}

lemma Live.lt_length (h : Live r i) : i < r.moves.length := by
  by_contra hge
  apply h
  simp [moveAt,getElem?_eq_none (by omega : r.moves.length ≤ i),eliminated]

variable (r)

lemma mem_moves_iff (m : MoveOperands) : m ∈ r.moves ↔ ∃ i < r.moves.length, r.moveAt i = m := by
  rw [mem_iff_getElem]
  constructor
  · rintro ⟨i,hi,rfl⟩
    exact ⟨i,hi,by simp [moveAt,hi]⟩
  · rintro ⟨i,hi,rfl⟩
    exact ⟨i,hi,by simp [moveAt,hi]⟩

lemma moveAt_set (i j : ℕ) (m : MoveOperands) : (r.set i m).moveAt j =
    if i = j ∧ i < r.moves.length then m else r.moveAt j := by
  simp only [Resolver.set,moveAt]
  by_cases hij : i = j
  · subst hij
    by_cases hi : i < r.moves.length <;> simp [hi]
  · simp [hij]

@[simp] lemma setDest_length (i : ℕ) (l : Location) :
    (r.setDest i l).moves.length = r.moves.length := by
  simp [setDest,Resolver.set]

variable {r}

variable (h : Live r i)
include h

lemma setDest_moveAt (l : Location) :
    (r.setDest i l).moveAt j = if j = i then ⟨l,(r.moveAt i).src⟩ else r.moveAt j := by
  rw [setDest,moveAt_set]
  by_cases hij : j = i
  · simp [hij,h.lt_length]
  · simp [hij,Ne.symm hij]

lemma setDest_src (l : Location) (j : ℕ) : ((r.setDest i l).moveAt j).src = (r.moveAt j).src := by
  rw [setDest_moveAt h]
  split_ifs with hij
  · rw [hij]
  · rfl

lemma setDest_live (l : Location) : Live (r.setDest i l) j ↔ Live r j := by
  simp [Live,setDest_src h]

omit h in
@[simp] lemma eliminate_length (r : Resolver) (i : ℕ) :
    (r.eliminate i).moves.length = r.moves.length := by
  simp [Resolver.eliminate,Resolver.set]

lemma eliminate_moveAt : (r.eliminate i).moveAt j = if j = i then .eliminated else r.moveAt j := by
  rw [Resolver.eliminate,moveAt_set]
  by_cases hij : j = i
  · simp [hij,h.lt_length]
  · simp [hij,Ne.symm hij]

lemma eliminate_live : Live (r.eliminate i) j ↔ j ≠ i ∧ Live r j := by
  by_cases hij : j = i
  · simp [Live,eliminate_moveAt h,hij,eliminated]
  · simp [Live,eliminate_moveAt h,hij]

omit h

variable (r)

@[simp] lemma emitMove_length (i : ℕ) : (r.emitMove i).moves.length = r.moves.length := by
  simp [emitMove]

lemma emitMove_moveAt (i j : ℕ) : (r.emitMove i).moveAt j = (r.eliminate i).moveAt j := rfl

@[simp] lemma emitSwap_length (i : ℕ) : (r.emitSwap i).moves.length = r.moves.length := by
  simp [emitSwap]

lemma renameSource_eliminated (s d : Location) : renameSource s d .eliminated = .eliminated := by
  simp [renameSource,blocks,isEliminated,eliminated]

lemma renameSource_dest (s d : Location) (m : MoveOperands) :
    (renameSource s d m).dest = m.dest := by
  unfold renameSource
  split_ifs <;> rfl

lemma renameSource_src {s d : Location} {m : MoveOperands} (h : m.src ≠ .invalid) :
    (renameSource s d m).src = if m.src = s then d else if m.src = d then s else m.src := by
  have he : m.isEliminated = false := by simpa [isEliminated] using h
  simp only [renameSource,blocks,he,Bool.not_false,Bool.true_and,decide_eq_true_eq]
  split_ifs <;> rfl

lemma renameSource_live {s d : Location} (hs : s ≠ .invalid) (hd : d ≠ .invalid)
    (m : MoveOperands) : (renameSource s d m).src ≠ .invalid ↔ m.src ≠ .invalid := by
  by_cases h : m.src = .invalid
  · simp [renameSource,blocks,isEliminated,h]
  · rw [renameSource_src h]
    split_ifs <;> simp [hs,hd,h]

lemma emitSwap_moveAt (i j : ℕ) : (r.emitSwap i).moveAt j =
    renameSource (r.moveAt i).src (r.moveAt i).dest ((r.eliminate i).moveAt j) := by
  simp only [emitSwap,moveAt,getD_eq_getElem?_getD,getElem?_map]
  cases (r.eliminate i).moves[j]? with
  | none => simp [renameSource_eliminated]
  | some m => rfl

variable {r}

lemma emitSwap_live (h : Live r i) (hd : (r.moveAt i).dest ≠ .invalid) :
    Live (r.emitSwap i) j ↔ j ≠ i ∧ Live r j := by
  rw [Live,emitSwap_moveAt,renameSource_live h hd]
  exact eliminate_live h

lemma emitSwap_src (h : Live r i) (hij : j ≠ i) (hj : Live r j) : ((r.emitSwap i).moveAt j).src =
      if (r.moveAt j).src = (r.moveAt i).src then (r.moveAt i).dest else if (r.moveAt j).src =
      (r.moveAt i).dest then (r.moveAt i).src else (r.moveAt j).src := by
  rw [emitSwap_moveAt,eliminate_moveAt h,if_neg hij,renameSource_src hj]

end Access

/-- Conditions on the moves that the resolver works on: all of them do something, their
destinations are distinct storage locations, and none touches the scratch registers. -/
structure Moves (S : Set Location) (m₀ : List MoveOperands) : Prop where
  dest_storage : ∀ m ∈ m₀, m.dest.isStorage = true
  dest_scratch : ∀ m ∈ m₀, m.dest ∉ S
  src_valid : ∀ m ∈ m₀, m.src ≠ .invalid
  src_scratch : ∀ m ∈ m₀, m.src ∉ S
  proper : ∀ m ∈ m₀, m.src ≠ m.dest
  distinct : (m₀.map dest).Nodup

def original (m₀ : List MoveOperands) (i : ℕ) : MoveOperands := m₀.getD i .eliminated

lemma original_mem {m₀ : List MoveOperands} {i : ℕ} (h : i < m₀.length) : original m₀ i ∈ m₀ := by
  simp [original,h]

lemma Moves.dest_inj {m₀ : List MoveOperands} (h : Moves S m₀) {i j : ℕ} (hi : i < m₀.length)
    (hj : j < m₀.length) (he : (original m₀ i).dest = (original m₀ j).dest) : i = j := by
  have hn := nodup_iff_injective_getElem.mp h.distinct
  have hij : (⟨i,by simpa using hi⟩ : Fin (m₀.map dest).length) =
      ⟨j,by simpa using hj⟩ := by
    apply hn
    simpa [original,hi,hj] using he
  exact congrArg Fin.val hij

/-- What the code emitted so far has achieved: unperformed moves find their value in their
current source, performed moves have delivered it, and nothing else has changed. -/
structure Meaning (V : Type*) (S : Set Location) (m₀ : List MoveOperands) (r : Resolver) :
    Prop where
  live : ∀ σ₀ σ : Location → V, Exec S r.code σ₀ σ → ∀ i, Live r i →
    σ (r.moveAt i).src = σ₀ (original m₀ i).src
  done : ∀ σ₀ σ : Location → V, Exec S r.code σ₀ σ → ∀ i < m₀.length, ¬ Live r i →
    σ (original m₀ i).dest = σ₀ (original m₀ i).src
  frame : ∀ σ₀ σ : Location → V, Exec S r.code σ₀ σ → ∀ l ∉ S,
    (∀ i < m₀.length, (original m₀ i).dest ≠ l) → σ l = σ₀ l

/-- Invariant of the resolver while the moves on `stk` are pending, innermost call first. -/
structure Inv (S : Set Location) (m₀ : List MoveOperands) (stk : List ℕ) (r : Resolver) : Prop where
  length_eq : r.moves.length = m₀.length
  stack_live : ∀ a ∈ stk, Live r a
  stack_nodup : stk.Nodup
  dest_pending : ∀ i, (i ∈ stk ∨ ¬ Live r i) → (r.moveAt i).dest = .invalid
  dest_waiting : ∀ i ∉ stk, Live r i → (r.moveAt i).dest = (original m₀ i).dest
  chain : stk.IsChain fun a b => (r.moveAt a).src = (original m₀ b).dest
  proper : ∀ i ∉ stk, Live r i → (r.moveAt i).src ≠ (original m₀ i).dest
  src_scratch : ∀ i, Live r i → (r.moveAt i).src ∉ S
  src_constant : ∀ i, Live r i → (r.moveAt i).src.isConstant = (original m₀ i).src.isConstant

section Steps
variable {m₀ : List MoveOperands} {stk : List ℕ} {r r' : Resolver} {index : ℕ}

lemma Live.lt (hi : Inv S m₀ stk r) {i : ℕ} (h : Live r i) : i < m₀.length :=
  hi.length_eq ▸ h.lt_length

variable (hw : Moves S m₀)
include hw

lemma Inv.dest_storage (hi : Inv S m₀ stk r) {i : ℕ} (h : Live r i) :
    (original m₀ i).dest.isStorage = true := hw.dest_storage _ (original_mem (h.lt hi))

lemma Inv.dest_scratch (hi : Inv S m₀ stk r) {i : ℕ} (h : Live r i) :
    (original m₀ i).dest ∉ S := hw.dest_scratch _ (original_mem (h.lt hi))

omit hw in
/-- Scratch registers are destinations of unperformed moves that no such move reads. -/
lemma mem_scratchRegisters (hi : Inv S m₀ stk r) {d s l : Location}
    (h : l ∈ r.scratchRegisters d s) : l ≠ d ∧ l ≠ s ∧ (∀ i, Live r i → (r.moveAt i).src ≠ l) ∧ ∃ k,
      Live r k ∧ (original m₀ k).dest = l := by
  simp only [scratchRegisters,mem_filter,mem_map,isScratchLocation,
    Bool.and_eq_true,decide_eq_true_eq,Bool.not_eq_true',any_eq_false] at h
  obtain ⟨⟨m,hm,rfl⟩,⟨⟨hreg,hfree, -⟩,hd⟩,hs⟩ := h
  refine ⟨hd,hs,?_,?_⟩
  · intro i hl he
    have hmem : r.moveAt i ∈ r.moves := (mem_moves_iff r _).2 ⟨i,hl.lt_length,rfl⟩
    have hv : m.dest ≠ .invalid := he ▸ hl
    exact hfree _ hmem (by simp [blocks,isEliminated,he,hv])
  · obtain ⟨k, -,rfl⟩ := (mem_moves_iff r m).1 hm
    have hv : (r.moveAt k).dest ≠ .invalid := isStorage_ne_invalid (by simp [isStorage,hreg])
    have hk : k ∉ stk ∧ Live r k := by
      by_contra hn
      exact hv (hi.dest_pending k (by tauto))
    exact ⟨k,hk.2,(hi.dest_waiting k hk.1 hk.2).symm⟩

lemma done_not_scratch (hi : Inv S m₀ stk r) {i : ℕ} {d s : Location}
    (hlt : i < m₀.length) (hn : ¬ Live r i) : (original m₀ i).dest ∉ r.scratchRegisters d s := by
  intro h
  obtain ⟨-, -, -,k,hk,hkd⟩ := mem_scratchRegisters hi h
  exact hn (hw.dest_inj (hk.lt hi) hlt hkd ▸ hk)

variable (hi : Inv S m₀ stk r)
include hi

omit hw in
lemma other_not_scratch {d s l : Location}
    (h : ∀ i < m₀.length, (original m₀ i).dest ≠ l) : l ∉ r.scratchRegisters d s := by
  intro hs
  obtain ⟨-, -, -,k,hk,hkd⟩ := mem_scratchRegisters hi hs
  exact h k (hk.lt hi) hkd

/-- A plain move is safe once no unperformed move reads its destination. -/
lemma Meaning.emitMove (hm : Meaning V S m₀ r) (hl : Live r index) (hn : index ∉ stk)
    (hfree : ∀ i, Live r i → i ≠ index → (r.moveAt i).src ≠ (original m₀ index).dest) :
    Meaning V S m₀ (r.emitMove index) := by
  have hlt := hl.lt hi
  have hd := hi.dest_waiting index hn hl
  have hcode : (r.emitMove index).code = r.code ++ [.move (r.moveAt index).dest
      (r.moveAt index).src (r.scratchRegisters (r.moveAt index).dest (r.moveAt index).src)] := rfl
  refine ⟨?_,?_,?_⟩
  · intro σ₀ σ hx i hil
    rw [hcode,exec_snoc] at hx
    obtain ⟨τ,hτ,heff⟩ := hx
    obtain ⟨hne,hil⟩ := (eliminate_live hl).1 hil
    rw [emitMove_moveAt,eliminate_moveAt hl,if_neg hne,heff _ (hi.src_scratch i hil)
      (fun hs => (mem_scratchRegisters hi hs).2.2.1 i hil rfl),hd,if_neg (hfree i hil hne)]
    exact hm.live σ₀ τ hτ i hil
  · intro σ₀ σ hx i hlt' hil
    rw [hcode,exec_snoc] at hx
    obtain ⟨τ,hτ,heff⟩ := hx
    by_cases he : i = index
    · subst he
      rw [heff _ (hi.dest_scratch hw hl) (fun hs => (mem_scratchRegisters hi hs).1 hd.symm),
        if_pos hd.symm]
      exact hm.live σ₀ τ hτ i hl
    · have hnl : ¬ Live r i := fun h => hil ((eliminate_live hl).2 ⟨he,h⟩)
      rw [heff _ (hw.dest_scratch _ (original_mem hlt')) (done_not_scratch hw hi hlt' hnl),hd,
        if_neg fun h => he (hw.dest_inj hlt' hlt h)]
      exact hm.done σ₀ τ hτ i hlt' hnl
  · intro σ₀ σ hx l hlS hld
    rw [hcode,exec_snoc] at hx
    obtain ⟨τ,hτ,heff⟩ := hx
    rw [heff l hlS (other_not_scratch hi hld),hd,if_neg (hld index hlt).symm]
    exact hm.frame σ₀ τ hτ l hlS hld

/-- A swap is safe when its source is the destination of a move that is still to be
performed: that location has no final value yet. -/
lemma Meaning.emitSwap (hm : Meaning V S m₀ r)
    (hl : Live r index) (hn : index ∉ stk) {b : ℕ} (hb : Live r b) (hbi : b ≠ index)
    (hs : (r.moveAt index).src = (original m₀ b).dest) : Meaning V S m₀ (r.emitSwap index) := by
  have hlt := hl.lt hi
  have hd := hi.dest_waiting index hn hl
  have hdv : (r.moveAt index).dest ≠ .invalid := hd ▸ isStorage_ne_invalid (hi.dest_storage hw hl)
  have hcode : (r.emitSwap index).code = r.code ++ [.swap (r.moveAt index).dest
      (r.moveAt index).src (r.scratchRegisters (r.moveAt index).dest (r.moveAt index).src)] := rfl
  have hdS : (r.moveAt index).dest ∉ S := hd ▸ hi.dest_scratch hw hl
  have hsS : (r.moveAt index).src ∉ S := hi.src_scratch index hl
  have hds := fun h => (mem_scratchRegisters (d := (r.moveAt index).dest)
    (s := (r.moveAt index).src) hi h).1 rfl
  have hss := fun h => (mem_scratchRegisters (d := (r.moveAt index).dest)
    (s := (r.moveAt index).src) hi h).2.1 rfl
  have hne : (r.moveAt index).src ≠ (r.moveAt index).dest := by
    rw [hs,hd]
    exact fun h => hbi (hw.dest_inj (hb.lt hi) hlt h)
  refine ⟨?_,?_,?_⟩
  · intro σ₀ σ hx i hil
    rw [hcode,exec_snoc] at hx
    obtain ⟨τ,hτ,heff⟩ := hx
    obtain ⟨hni,hil⟩ := (emitSwap_live hl hdv).1 hil
    have hv := hm.live σ₀ τ hτ i hil
    rw [emitSwap_src hl hni hil]
    split_ifs with h1 h2
    · rw [heff _ hdS hds,if_pos rfl,← hv,h1]
    · rw [heff _ hsS hss,if_neg hne,if_pos rfl,← hv,h2]
    · rw [heff _ (hi.src_scratch i hil)
        (fun hs => (mem_scratchRegisters hi hs).2.2.1 i hil rfl),if_neg h2,if_neg h1,hv]
  · intro σ₀ σ hx i hlt' hil
    rw [hcode,exec_snoc] at hx
    obtain ⟨τ,hτ,heff⟩ := hx
    by_cases he : i = index
    · subst he
      rw [← hd,heff _ hdS hds,if_pos rfl]
      exact hm.live σ₀ τ hτ i hl
    · have hnl : ¬ Live r i := fun h => hil ((emitSwap_live hl hdv).2 ⟨he,h⟩)
      rw [heff _ (hw.dest_scratch _ (original_mem hlt')) (done_not_scratch hw hi hlt' hnl),hd,hs,
        if_neg fun h => he (hw.dest_inj hlt' hlt h),
        if_neg fun h => hnl (hw.dest_inj hlt' (hb.lt hi) h ▸ hb)]
      exact hm.done σ₀ τ hτ i hlt' hnl
  · intro σ₀ σ hx l hlS hld
    rw [hcode,exec_snoc] at hx
    obtain ⟨τ,hτ,heff⟩ := hx
    rw [heff l hlS (other_not_scratch hi hld),hd,hs,if_neg (hld index hlt).symm,
      if_neg (hld b (hb.lt hi)).symm]
    exact hm.frame σ₀ τ hτ l hlS hld

omit hi

omit hw

/-- Marking and unmarking a move as pending leaves every source and the code alone. -/
lemma Meaning.setDest (hm : Meaning V S m₀ r) (hl : Live r index) (l : Location) :
    Meaning V S m₀ (r.setDest index l) := by
  refine ⟨?_,?_,hm.frame⟩
  · intro σ₀ σ hx i hil
    rw [setDest_src hl]
    exact hm.live σ₀ σ hx i ((setDest_live hl l).1 hil)
  · intro σ₀ σ hx i hlt hil
    exact hm.done σ₀ σ hx i hlt (fun h => hil ((setDest_live hl l).2 h))

/-- A move whose source has become its destination needs no code. -/
lemma Meaning.eliminate (hm : Meaning V S m₀ r)
    (hl : Live r index) (hs : (r.moveAt index).src = (original m₀ index).dest) :
    Meaning V S m₀ (r.eliminate index) := by
  refine ⟨?_,?_,hm.frame⟩
  · intro σ₀ σ hx i hil
    obtain ⟨hne,hil⟩ := (eliminate_live hl).1 hil
    rw [eliminate_moveAt hl,if_neg hne]
    exact hm.live σ₀ σ hx i hil
  · intro σ₀ σ hx i hlt hil
    by_cases he : i = index
    · subst he
      rw [← hs]
      exact hm.live σ₀ σ hx i hl
    · exact hm.done σ₀ σ hx i hlt fun h => hil ((eliminate_live hl).2 ⟨he,h⟩)

/-- `MarkPending`: the move joins the stack of pending moves. -/
lemma Inv.mark (hi : Inv S m₀ stk r) (hn : index ∉ stk) (hl : Live r index)
    (hc : (index :: stk).IsChain fun a b => (r.moveAt a).src = (original m₀ b).dest) :
    Inv S m₀ (index :: stk) (r.markPending index) := by
  have hsrc := setDest_src hl .invalid
  have hlive : ∀ i, Live (r.markPending index) i ↔ Live r i := fun i => setDest_live hl .invalid
  refine ⟨by simp [markPending,hi.length_eq],?_,nodup_cons.2 ⟨hn,hi.stack_nodup⟩,
    ?_,?_,hc.imp fun a b h => by rw [markPending,hsrc]; exact h,?_,?_,?_⟩
  · intro a ha
    rw [hlive]
    rcases mem_cons.1 ha with rfl | ha
    · exact hl
    · exact hi.stack_live a ha
  · intro i h
    rw [markPending,setDest_moveAt hl]
    split_ifs with he
    · rfl
    · exact hi.dest_pending i (by simpa [he,hlive] using h)
  · intro i h hl'
    rw [mem_cons,not_or] at h
    rw [markPending,setDest_moveAt hl,if_neg h.1]
    exact hi.dest_waiting i h.2 ((hlive i).1 hl')
  · intro i h hl'
    rw [markPending,hsrc]
    exact hi.proper i (fun hm => h (mem_cons_of_mem _ hm)) ((hlive i).1 hl')
  · intro i hl'
    rw [markPending,hsrc]
    exact hi.src_scratch i ((hlive i).1 hl')
  · intro i hl'
    rw [markPending,hsrc]
    exact hi.src_constant i ((hlive i).1 hl')

lemma Inv.clear (hi : Inv S m₀ (index :: stk) r)
    (hs : (r.moveAt index).src ≠ (original m₀ index).dest) :
    Inv S m₀ stk (r.clearPending index (original m₀ index).dest) := by
  have hl : Live r index := hi.stack_live index (by simp)
  have hn := nodup_cons.1 hi.stack_nodup
  have hsrc := setDest_src hl (original m₀ index).dest
  have hlive : ∀ i, Live (r.clearPending index (original m₀ index).dest) i ↔ Live r i :=
    fun i => setDest_live hl _
  refine ⟨by simp [clearPending,hi.length_eq],?_,hn.2,?_,?_,
    hi.chain.tail.imp fun a b h => by rw [clearPending,hsrc]; exact h,?_,?_,?_⟩
  · intro a ha
    exact (hlive a).2 (hi.stack_live a (mem_cons_of_mem _ ha))
  · intro i h
    have he : i ≠ index := by
      rintro rfl
      rcases h with h | h
      · exact hn.1 h
      · exact h ((hlive i).2 hl)
    rw [clearPending,setDest_moveAt hl,if_neg he]
    exact hi.dest_pending i (by simpa [he,hlive] using h)
  · intro i h hl'
    rw [clearPending,setDest_moveAt hl]
    split_ifs with he
    · rw [he]
    · exact hi.dest_waiting i (by simp [he,h]) ((hlive i).1 hl')
  · intro i h hl'
    rw [clearPending,hsrc]
    by_cases he : i = index
    · rw [he]; exact hs
    · exact hi.proper i (by simp [he,h]) ((hlive i).1 hl')
  · intro i hl'
    rw [clearPending,hsrc]
    exact hi.src_scratch i ((hlive i).1 hl')
  · intro i hl'
    rw [clearPending,hsrc]
    exact hi.src_constant i ((hlive i).1 hl')

end Steps

end DartSdk.ParallelMove
