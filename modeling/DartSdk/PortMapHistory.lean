import DartSdk.PortMapRefines

/-! The counters of the port map are exact, its load stays within bounds, and every operation acts
on the map from open ports to their handler and state. -/
namespace DartSdk.PortMap
open Iteration (Legal exec run)
open Function (update update_apply update_of_ne)
open LinearProbing Ports List Option

variable {H : Type} [DecidableEq H] {s : Ports H} {M : ℤ → Option (H × PortState)}

/-- Number of open ports of `h` in state `kLivePort`. -/
noncomputable def liveCount (M : ℤ → Option (H × PortState)) (h : H) : ℕ :=
  {p | M p = some (h,.livePort)}.ncard

omit [DecidableEq H] in
lemma liveCount_eq (hM : {p | M p ≠ none}.Finite) (p : ℤ) (h : H)
    [Decidable (M p = some (h,.livePort))] :
    liveCount M h = {p' | p' ≠ p ∧ M p' = some (h,.livePort)}.ncard +
      if M p = some (h,.livePort) then 1 else 0 := by
  have hfin : {p' | p' ≠ p ∧ M p' = some (h,.livePort)}.Finite :=
    hM.subset fun p' hp' => by simp [hp'.2]
  unfold liveCount
  split_ifs with hp
  · rw [← Set.ncard_insert_of_notMem (a := p) (by simp) hfin]
    congr 1
    ext p'
    by_cases h' : p' = p <;> simp [h',hp]
  · rw [Nat.add_zero]
    congr 1
    ext p'
    by_cases h' : p' = p <;> simp [h',hp]

lemma liveCount_update (hM : {p | M p ≠ none}.Finite) (p : ℤ) (x : Option (H × PortState)) (h : H) :
    liveCount (update M p x) h+(if M p = some (h,.livePort) then 1 else 0) =
      liveCount M h+if x = some (h,.livePort) then 1 else 0 := by
  have hM' : {p' | update M p x p' ≠ none}.Finite :=
    (hM.insert p).subset fun p' hp' => by
      by_cases h' : p' = p
      · exact Or.inl h'
      · exact Or.inr (by simpa [update_of_ne h'] using hp')
  have hset : {p' | p' ≠ p ∧ update M p x p' = some (h,.livePort)} =
      {p' | p' ≠ p ∧ M p' = some (h,.livePort)} := by
    ext p'
    by_cases h' : p' = p <;> simp [h']
  rw [liveCount_eq hM' p h,liveCount_eq hM p h,hset,Function.update_self]
  omega

/-- The slots hold the open ports `M`, and the counters are exact. -/
structure Table (s : Ports H) (M : ℤ → Option (H × PortState)) : Prop where
  length : s.map.length = s.capacity
  eight_dvd : 8 ∣ s.capacity
  slots : Slots s.map M
  used : s.used = size M
  deleted : s.deleted = countSlots s.capacity (gone s.map)

lemma Table.pos (ht : Table s M) : 0 < s.capacity := ht.length ▸ ht.slots.pos

lemma Table.finite (ht : Table s M) : {p | M p ≠ none}.Finite := ht.slots.represents.finite

lemma Table.size_le (ht : Table s M) : size M ≤ s.capacity := by
  rw [ht.slots.layout.size_eq ht.slots.represents,ht.length]
  exact countSlots_le _ _

/-- One iteration of `Rehash` that moves a port. -/
def rehashStep (n : ℕ) (map : List (Entry H)) (x : ℤ × H × PortState) : Option (List (Entry H)) := do
  let i ← findUnused map n x.1
  return map.set i ⟨x.1,.handler x.2.1,x.2.2⟩

omit [DecidableEq H] in
lemma rehashLoop_eq_foldlM (n : ℕ) (es : List (Entry H)) :
    (∀ e ∈ es, e.Wf) → ∀ map : List (Entry H),
      rehashLoop n es map = (es.filterMap Entry.item).foldlM (rehashStep n) map := by
  induction es with
  | nil => exact fun _ _ => rfl
  | cons e es ih =>
    intro hw map
    have ih := ih fun e' he' => hw e' (mem_cons_of_mem _ he')
    have hwe := hw e mem_cons_self
    cases hit : e.item with
    | none => simp [rehashLoop,hwe.port_eq_zero.2 hit,hit,ih]
    | some x =>
      obtain ⟨p,h,st⟩ := x
      obtain ⟨h1,h2,h3⟩ := Entry.item_eq_some.1 hit
      have hp : p ≠ 0 := by simp [← h1,hwe.port_eq_zero,hit]
      have he : e = ⟨p,.handler h,st⟩ := by
        cases e
        simp_all
      simp only [rehashLoop,h1,hp,if_false,filterMap_cons,hit,foldlM_cons,rehashStep]
      cases findUnused map n p <;> simp [ih,he]

lemma rehash_spec (ht : Table s M) {n : ℕ} (hn : 8 ∣ n) (hpos : 0 < n) (hroom : size M ≤ n) :
    ∃ s', s.rehash n = some s' ∧ Table s' M ∧ s'.capacity = n ∧ s'.deleted = 0 ∧
      s'.used = s.used ∧ s'.livePorts = s.livePorts := by
  have hwf : ∀ e ∈ s.map, e.Wf := by
    intro e he
    obtain ⟨i,hi,rfl⟩ := mem_iff_getElem.1 he
    simpa [slot,hi] using ht.slots.wf i
  have hmap : Lists Prod.fst Prod.snd (s.map.filterMap Entry.item) M ∧
      (s.map.filterMap Entry.item).length = size M :=
    ht.slots.layout.lists (e := .free) ht.slots.represents fun i _ => by simp [item,slot]
  obtain ⟨hlists,hlen⟩ := hmap
  obtain ⟨map,hmap,⟨hslots,hlength,hgone⟩⟩ := rebuild (f := rehashStep n)
   
    (fun t M => Slots t M ∧ t.length = n ∧ ∀ i, gone t i = false)
    ⟨.empty hpos,by simp,fun i => by rw [gone,slot_replicate]; simp [Entry.free]⟩ (by
      rintro t M ⟨p,h,st⟩ hx ⟨ht',hlt,hg⟩ habs hsize
      have hp : 0 < p := ht.slots.port_pos ((hlists.2 p (h,st)).2 ⟨_,hx,rfl,rfl⟩)
      obtain ⟨i,hi,d,hd,hid,hfind,hun,hpath⟩ :=
        ht'.findUnused (ht'.exists_unused (hlt ▸ hsize)) hp
      refine ⟨_,by simp only [rehashStep,← hlt,hfind]; rfl,
        ht'.insert hd hid hpath hun hp habs h st,by simp [hlt],fun i => ?_⟩
      rw [gone,slot_set hi]
      split_ifs
      · simp
      · exact hg i)
    hlists (by rw [hlen]; exact hroom)
  refine ⟨{ s with map := map, capacity := n, deleted := 0 },?_,⟨hlength,hn,hslots,ht.used,?_⟩,
    rfl,rfl,rfl,rfl⟩
  · simp [rehash,rehashLoop_eq_foldlM n s.map hwf,hmap]
  · simp [countSlots_false fun i _ => hgone i]

/-- Between operations at most three quarters of the slots are in use, and no more are
deleted than free. -/
structure Loaded (s : Ports H) : Prop where
  used_le : s.used ≤ (s.capacity/4 : ℕ)*3
  deleted_le : s.deleted ≤ s.capacity-s.used-s.deleted

lemma maintainInvariants_spec (ht : Table s M) :
    ∃ s', s.maintainInvariants = some s' ∧ Table s' M ∧ Loaded s' ∧ s'.livePorts = s.livePorts := by
  have hsize := ht.size_le
  have hpos := ht.pos
  have hused := ht.used
  obtain ⟨k,hk⟩ := ht.eight_dvd
  unfold maintainInvariants
  simp only
  split_ifs with h1 h2
  · obtain ⟨s',hs',ht',hc,hd,hu,hl⟩ := rehash_spec ht
      (Dvd.dvd.mul_right ht.eight_dvd 2) (by omega) (by omega)
    refine ⟨s',hs',ht',⟨?_,?_⟩,hl⟩
    · rw [hc,hu]
      omega
    · rw [hc,hu,hd]
      omega
  · obtain ⟨s',hs',ht',hc,hd,hu,hl⟩ := rehash_spec ht ht.eight_dvd hpos hsize
    refine ⟨s',hs',ht',⟨?_,?_⟩,hl⟩
    · rw [hc,hu]
      omega
    · rw [hc,hu,hd]
      omega
  · exact ⟨s,rfl,ht,⟨by omega,by omega⟩,rfl⟩

/-- The table together with the handlers' counts; `base` is what they counted at the start. -/
structure Counted (base : H → ℤ) (s : Ports H) (M : ℤ → Option (H × PortState)) : Prop
    extends Table s M where
  live : ∀ h, s.livePorts h = base h+liveCount M h

structure Inv (base : H → ℤ) (s : Ports H) (M : ℤ → Option (H × PortState)) : Prop
    extends Counted base s M where
  load : Loaded s

variable {base : H → ℤ} {p : ℤ}

lemma Counted.maintain (hc : Counted base s M) :
    ∃ s', s.maintainInvariants = some s' ∧ Inv base s' M := by
  obtain ⟨s',hs',ht,hl,hlive⟩ := maintainInvariants_spec hc.toTable
  exact ⟨s',hs',⟨⟨ht,fun h => by rw [hlive,hc.live]⟩,hl⟩⟩

variable (hi : Inv base s M)
include hi

lemma Inv.exists_vacant : ∃ i < s.capacity, vacant s.map i = true := by
  have hpos := hi.pos
  have hu := hi.used
  have hd := hi.deleted
  have h1 := hi.load.used_le
  have h2 := hi.load.deleted_le
  obtain ⟨k,hk⟩ := hi.eight_dvd
  rw [← hi.length]
  refine hi.slots.exists_vacant ?_
  rw [hi.length]
  omega

lemma Inv.size_lt : size M < s.capacity := by
  have hpos := hi.pos
  have hu := hi.used
  have h1 := hi.load.used_le
  obtain ⟨k,hk⟩ := hi.eight_dvd
  omega

lemma Inv.findPort_none (hp : 0 ≤ p) (hM : M p = none) : s.findPort p = some none := by
  unfold findPort
  split_ifs with h0
  · rfl
  obtain ⟨i,hil,hs,⟨x, -,hx⟩ | ⟨hv, -⟩⟩ := hi.slots.find
    (hi.length.symm ▸ hi.exists_vacant) (show 0 < p by omega)
  · simp [hM] at hx
  · rw [hi.length] at hs
    have hnull : (s.entry i).handler = .null := by simpa [vacant,entry] using hv
    rw [slotIndex_eq hp hi.pos]
    change (search _ s.capacity s.capacity _).bind _ = _
    rw [show search (s.findStops p) s.capacity s.capacity (home s.capacity p) = some i from hs]
    simp [hnull]

lemma Inv.findPort_some {h : H} {st : PortState} (hM : M p = some (h,st)) :
    ∃ i < s.map.length, item s.map i = some (p,h,st) ∧ s.findPort p = some (some i) := by
  have hp := hi.slots.port_pos hM
  obtain ⟨i,hil,hs,⟨x,hit,hx⟩ | ⟨-,hx⟩⟩ := hi.slots.find
    (hi.length.symm ▸ hi.exists_vacant) hp
  · rw [hM] at hx
    cases hx
    rw [hi.length] at hs
    have hh : (s.entry i).handler = .handler h := (Entry.item_eq_some.1 hit).2.1
    refine ⟨i,hil,hit,?_⟩
    rw [findPort,if_neg hp.ne',slotIndex_eq hp.le hi.pos]
    change (search _ s.capacity s.capacity _).bind _ = _
    rw [show search (s.findStops p) s.capacity s.capacity (home s.capacity p) = some i from hs]
    simp [hh]
  · simp [hM] at hx

/-- The port that `AllocatePort` settles on, as a function of the open ports. -/
def freshPort (M : ℤ → Option (H × PortState)) (draws : List UInt32) : Option ℤ :=
  (draws.map fun draw => ((draw &&& kMask).toNat : ℤ)).find? fun p => p ≠ 0 && (M p).isNone

lemma Inv.allocatePort_eq (draws : List UInt32) : s.allocatePort draws = freshPort M draws := by
  induction draws with
  | nil => rfl
  | cons draw draws ih =>
    have hp : (0 : ℤ) ≤ (draw &&& kMask).toNat := Int.natCast_nonneg _
    unfold freshPort at ih ⊢
    rw [map_cons,find?_cons,allocatePort,ih]
    generalize ((draw &&& kMask).toNat : ℤ) = p at *
    by_cases h0 : p = 0
    · simp [h0]
    · cases hM : M p with
      | none => simp [h0,hi.findPort_none hp hM]
      | some x =>
        obtain ⟨h,st⟩ := x
        obtain ⟨i, -, -,hf⟩ := hi.findPort_some hM
        simp [hf]

omit hi

omit [DecidableEq H] in
lemma freshPort_spec {draws : List UInt32} (h : freshPort M draws = some p) :
    0 < p ∧ M p = none := by
  have hmem := mem_of_find?_eq_some h
  have hcond := find?_some h
  obtain ⟨draw, -,rfl⟩ := mem_map.1 hmem
  simp only [Bool.and_eq_true,decide_eq_true_eq,isNone_iff_eq_none] at hcond
  exact ⟨by omega,hcond.2⟩

variable (hi : Inv base s M)
include hi

lemma Inv.createPort (h : H) {draws : List UInt32} (hf : freshPort M draws = some p) : ∃ s',
      s.createPort h draws = some (s',p) ∧ Inv base s' (update M p (some (h,.newPort))) := by
  obtain ⟨hp,hM⟩ := freshPort_spec hf
  obtain ⟨i,hil,d,hd,hid,hfind,hun,hpath⟩ :=
    hi.slots.findUnused (hi.slots.exists_unused (hi.length.symm ▸ hi.size_lt)) hp
  have hgone := countGone_set hil ⟨p,.handler h,.newPort⟩
  have hocc : Counted base (s.occupy i ⟨p,.handler h,.newPort⟩)
      (update M p (some (h,.newPort))) := by
    refine ⟨⟨?_,hi.eight_dvd,hi.slots.insert hd hid hpath hun hp hM h .newPort,?_,?_⟩,?_⟩
    · simp [occupy,setEntry,hi.length]
    · simp [occupy,size_update_absent hi.finite hM,hi.used]
    · have hdel := hi.deleted
      have hg : gone s.map i = decide ((s.entry i).handler = .deletedEntry) := rfl
      change (if (s.entry i).handler = .deletedEntry then s.deleted-1 else s.deleted) =
        (countSlots s.capacity (gone (s.map.set i _)) : ℤ)
      rw [← hi.length] at hdel ⊢
      simp only [hg,decide_eq_true_eq,reduceCtorEq,if_false] at hgone
      split_ifs at hgone ⊢ <;> omega
    · intro h'
      have := liveCount_update hi.finite p (some (h,.newPort)) h'
      simp only [hM] at this
      simp at this
      simp [occupy,setEntry,hi.live,this]
  obtain ⟨s',hs',hi'⟩ := hocc.maintain
  refine ⟨s',?_,hi'⟩
  rw [hi.length] at hfind
  simp [Ports.createPort,hi.allocatePort_eq,hf,hfind,hs']

lemma Inv.setPortState {h : H} (hM : M p = some (h,.newPort)) (st : PortState) : ∃ s',
      s.setPortState p st = some s' ∧ Inv base s' (update M p (some (h,st))) := by
  obtain ⟨i,hil,hit,hf⟩ := hi.findPort_some hM
  obtain ⟨hport,hh,hstate⟩ := Entry.item_eq_some.1 hit
  have hgone := countGone_set hil ((slot s.map i).setState st)
  have hcount := liveCount_update hi.finite p (some (h,st))
  have htable : Table (s.setEntry i ((slot s.map i).setState st))
      (update M p (some (h,st))) := by
    refine ⟨by simp [setEntry,hi.length],hi.eight_dvd,hi.slots.setState hil hit st,?_,?_⟩
    · rw [size_update_present (by simp [hM])]
      exact hi.used
    · have hdel := hi.deleted
      have hg : gone s.map i = false := by simp [gone,hh]
      have he : ((slot s.map i).setState st).handler ≠ .deletedEntry := by simp [Entry.setState,hh]
      change s.deleted = (countSlots s.capacity (gone (s.map.set i _)) : ℤ)
      rw [← hi.length] at hdel ⊢
      simp only [hg,he,Bool.false_eq_true] at hgone
      omega
  by_cases hst : st = .livePort
  · subst hst
    refine ⟨{ s.setEntry i ((slot s.map i).setState .livePort) with
        livePorts := update s.livePorts h (s.livePorts h+1) },?_,
      ⟨⟨⟨htable.length,htable.eight_dvd,htable.slots,htable.used,htable.deleted⟩,?_⟩,?_⟩⟩
    · simp [Ports.setPortState,hf,entry,hstate,hh]
    · intro h'
      have := hcount h'
      have hlive := hi.live h'
      change update s.livePorts h (s.livePorts h+1) h' = _
      rw [update_apply]
      simp only [hM] at this
      by_cases hh' : h' = h
      · subst hh'
        simp at this ⊢
        omega
      · simp [hh',Ne.symm hh'] at this ⊢
        omega
    · exact ⟨hi.load.used_le,hi.load.deleted_le⟩
  · refine ⟨s.setEntry i ((slot s.map i).setState st),?_,⟨⟨htable,?_⟩,?_⟩⟩
    · simp [Ports.setPortState,hf,entry,hstate,hst]
    · intro h'
      have := hcount h'
      simp [hM,hst] at this
      rw [this]
      exact hi.live h'
    · exact ⟨hi.load.used_le,hi.load.deleted_le⟩

omit hi in
lemma Counted.markDeleted (hc : Counted base s M) {i : ℕ} (hil : i < s.map.length) {h : H}
    {st : PortState} (hit : item s.map i = some (p,h,st)) :
    Counted base (s.markDeleted i h) (update M p none) := by
  obtain ⟨hport,hh,hstate⟩ := Entry.item_eq_some.1 hit
  have hM : M p = some (h,st) := (hc.slots.represents p (h,st)).2 ⟨i,hil,hit⟩
  refine ⟨⟨by simp [Ports.markDeleted,setEntry,hc.length],hc.eight_dvd,
    hc.slots.delete hil hit,?_,?_⟩,?_⟩
  · have hsize := size_update_none hc.finite (k := p) (by simp [hM])
    have hused := hc.used
    change s.used-1 = _
    omega
  · have hgone := countGone_set hil (slot s.map i).delete
    have hdel := hc.deleted
    have hg : gone s.map i = false := by simp [gone,hh]
    have he : (slot s.map i).delete.handler = .deletedEntry := rfl
    change s.deleted+1 = (countSlots s.capacity (gone (s.map.set i (slot s.map i).delete)) : ℤ)
    rw [← hc.length] at hdel ⊢
    simp only [hg,he,Bool.false_eq_true,if_false,if_true] at hgone
    omega
  · intro h'
    have hcount := liveCount_update hc.finite p none h'
    have hlive := hc.live h'
    change (if (slot s.map i).state = .livePort then
      update s.livePorts h (s.livePorts h-1) else s.livePorts) h' = _
    rw [hstate]
    simp only [hM] at hcount
    by_cases hst : st = .livePort
    · by_cases hh' : h' = h
      · subst hh'
        simp [hst] at hcount ⊢
        omega
      · simp [Ne.symm hh'] at hcount
        simp [hst,hh',hlive,hcount]
    · simp [hst] at hcount
      simp [hst,hlive,hcount]

lemma Inv.closePort {h : H} {st : PortState} (hM : M p = some (h,st)) :
    ∃ s', s.closePort p = some (s',true) ∧ Inv base s' (update M p none) := by
  obtain ⟨i,hil,hit,hf⟩ := hi.findPort_some hM
  obtain ⟨hport,hh, -⟩ := Entry.item_eq_some.1 hit
  have hp := hi.slots.port_pos hM
  obtain ⟨s',hs',hi'⟩ := (hi.toCounted.markDeleted hil hit).maintain
  exact ⟨s',by simp [Ports.closePort,hf,entry,hh,hport,hp.ne',hs'],hi'⟩

/-- The open ports that `ClosePorts` leaves. -/
def withoutHandler (M : ℤ → Option (H × PortState)) (handler : H) (p : ℤ) : Option (H × PortState) :=
  (M p).filter fun x => x.1 ≠ handler

omit hi in
/-- The loop of `ClosePorts`: the slots passed no longer belong to the handler, and the ports
of other handlers are kept. -/
lemma Counted.closeLoop (hc : Counted base s M) (handler : H) (n : ℕ) (hn : n ≤ s.capacity) :
    ∃ t M', (range n).foldl (fun s i =>
        if (s.entry i).handler = .handler handler then s.markDeleted i handler else s) s = t ∧
      t.capacity = s.capacity ∧ Counted base t M' ∧
      (∀ p x, M' p = some x → M p = some x) ∧
      (∀ p x, M p = some x → x.1 ≠ handler → M' p = some x) ∧
      ∀ j < n, (slot t.map j).handler ≠ .handler handler := by
  induction n with
  | zero => exact ⟨s,M,rfl,rfl,hc,fun _ _ h => h,fun _ _ h _ => h,by simp⟩
  | succ n ih =>
    obtain ⟨t,M',ht,hcap,hct,hsub,hkeep,hdone⟩ := ih (by omega)
    rw [range_succ,foldl_append,ht]
    simp only [foldl_cons]
    split_ifs with hh
    · have hil : n < t.map.length := by
        rw [hct.length,hcap]
        omega
      have hit : item t.map n = some ((slot t.map n).port,handler,(slot t.map n).state) :=
        Entry.item_eq_some.2 ⟨rfl,hh,rfl⟩
      have hM' := (hct.slots.represents _ _).2 ⟨n,hil,hit⟩
      refine ⟨_,_,rfl,hcap,hct.markDeleted hil hit,?_,?_,?_⟩
      · intro p x hx
        rw [update_apply] at hx
        split_ifs at hx
        exact hsub p x hx
      · intro p x hx hne
        rw [update_of_ne,hkeep p x hx hne]
        rintro rfl
        have := hkeep _ x hx hne
        rw [hM'] at this
        cases this
        exact hne rfl
      · intro j hj
        change (slot (t.map.set n (slot t.map n).delete) j).handler ≠ _
        rw [slot_set hil]
        split_ifs with hjn
        · simp [Entry.delete]
        · exact hdone j (by omega)
    · refine ⟨t,M',rfl,hcap,hct,hsub,hkeep,?_⟩
      intro j hj
      rcases Nat.lt_succ_iff_lt_or_eq.1 hj with hj | rfl
      · exact hdone j hj
      · exact hh

lemma Inv.closePorts (handler : H) :
    ∃ s', s.closePorts handler = some s' ∧ Inv base s' (withoutHandler M handler) := by
  obtain ⟨t,M',ht,hcap,hct,hsub,hkeep,hdone⟩ :=
    hi.toCounted.closeLoop handler s.capacity le_rfl
  have hM' : M' = withoutHandler M handler := by
    funext p
    refine ext fun x => ?_
    rw [withoutHandler,filter_eq_some_iff,decide_eq_true_eq]
    constructor
    · intro hx
      refine ⟨hsub p x hx,fun hxh => ?_⟩
      obtain ⟨i,hil,hit⟩ := (hct.slots.represents p x).1 hx
      exact hdone i (by rw [← hcap,← hct.length]; exact hil)
        (hxh ▸ (Entry.item_eq_some.1 hit).2.1)
    · rintro ⟨hx,hne⟩
      exact hkeep p x hx hne
  obtain ⟨s',hs',hi'⟩ := hct.maintain
  exact ⟨s',by rw [Ports.closePorts,ht,hs'],hM' ▸ hi'⟩

lemma Inv.findHandler (hp : 0 ≤ p) : s.findHandler p = some ((M p).map Prod.fst) := by
  cases hM : M p with
  | none => simp [Ports.findHandler,hi.findPort_none hp hM]
  | some x =>
    obtain ⟨h,st⟩ := x
    obtain ⟨i, -,hit,hf⟩ := hi.findPort_some hM
    simp [Ports.findHandler,hf,entry,(Entry.item_eq_some.1 hit).2.1]

omit hi

/-- The public operations; `draws` are the random numbers drawn during the call. -/
inductive Op (H : Type)
  | createPort (handler : H) (draws : List UInt32)
  | setPortState (port : ℤ) (state : PortState)
  | closePort (port : ℤ)
  | closePorts (handler : H)
  | lookup (port : ℤ)

inductive Result (H : Type)
  | port (p : ℤ)
  | closed (b : Bool)
  | handler (h : Option H)
  | done

def step (s : Ports H) : Op H → Option (Ports H × Result H)
  | .createPort handler draws => do
    let (s,port) ← s.createPort handler draws
    return (s,.port port)
  | .setPortState port state => do
    let s ← s.setPortState port state
    return (s,.done)
  | .closePort port => do
    let (s,b) ← s.closePort port
    return (s,.closed b)
  | .closePorts handler => do
    let s ← s.closePorts handler
    return (s,.done)
  | .lookup port => do
    let h ← s.findHandler port
    return (s,.handler h)

variable (M)

/-- The same operations on the map of open ports. -/
def spec : Op H → (ℤ → Option (H × PortState)) × Result H
  | .createPort handler draws =>
    let port := (freshPort M draws).getD 0
    (update M port (some (handler,.newPort)),.port port)
  | .setPortState port state =>
    (update M port ((M port).map fun x => (x.1,state)),.done)
  | .closePort port => (update M port none,.closed (M port).isSome)
  | .closePorts handler => (withoutHandler M handler,.done)
  | .lookup port => (M,.handler ((M port).map Prod.fst))

/-- What the callers owe: the generator comes up with a fresh port, `SetPortState` is called
once on an open port, and port numbers are not negative. -/
def Allowed : Op H → Prop
  | .createPort _ draws => (freshPort M draws).isSome = true
  | .setPortState port _ => (M port).map Prod.snd = some .newPort
  | .closePort port => 0 ≤ port
  | .closePorts _ => True
  | .lookup port => 0 ≤ port

variable {M}

instance (M : ℤ → Option (H × PortState)) : ∀ op, Decidable (Allowed M op)
  | .createPort _ draws => inferInstanceAs (Decidable ((freshPort M draws).isSome = true))
  | .setPortState port _ => inferInstanceAs (Decidable ((M port).map Prod.snd = some .newPort))
  | .closePort port => inferInstanceAs (Decidable (0 ≤ port))
  | .closePorts _ => inferInstanceAs (Decidable True)
  | .lookup port => inferInstanceAs (Decidable (0 ≤ port))

lemma Inv.step (hi : Inv base s M) (op : Op H) (hop : Allowed M op) :
    ∃ s', PortMap.step s op = some (s',(spec M op).2) ∧ Inv base s' (spec M op).1 := by
  cases op with
  | createPort handler draws =>
    obtain ⟨p,hp⟩ := isSome_iff_exists.1 hop
    obtain ⟨s',hs',hi'⟩ := hi.createPort handler hp
    refine ⟨s',by simp [PortMap.step,spec,hs',hp],?_⟩
    simpa [spec,hp] using hi'
  | setPortState port state =>
    obtain ⟨⟨h,st⟩,hM,rfl⟩ := map_eq_some_iff.1 hop
    obtain ⟨s',hs',hi'⟩ := hi.setPortState hM state
    refine ⟨s',by simp [PortMap.step,spec,hs'],?_⟩
    simpa [spec,hM] using hi'
  | closePort port =>
    cases hM : M port with
    | none =>
      have hself : update M port none = M := by rw [← hM,Function.update_eq_self]
      refine ⟨s,by simp [PortMap.step,spec,Ports.closePort,hi.findPort_none hop hM,hM],?_⟩
      simpa [spec,hself] using hi
    | some x =>
      obtain ⟨h,st⟩ := x
      obtain ⟨s',hs',hi'⟩ := hi.closePort hM
      exact ⟨s',by simp [PortMap.step,spec,hs',hM],hi'⟩
  | closePorts handler =>
    obtain ⟨s',hs',hi'⟩ := hi.closePorts handler
    exact ⟨s',by simp [PortMap.step,spec,hs'],hi'⟩
  | lookup port => exact ⟨s,by simp [PortMap.step,spec,hi.findHandler hop],hi⟩

lemma initOnce_inv (base : H → ℤ) : Inv base (initOnce base) fun _ => none := by
  refine ⟨⟨⟨rfl,⟨1,rfl⟩,.empty (by norm_num),by simp [initOnce,size_empty],?_⟩,?_⟩,⟨?_,?_⟩⟩
  · have : ∀ i < 8, gone (replicate 8 (Entry.free : Entry H)) i = false := by
      intro i _
      rw [gone,slot_replicate]
      simp [Entry.free]
    change (0 : ℤ) = countSlots 8 (gone (replicate 8 Entry.free))
    rw [countSlots_false this]
    rfl
  · simp [initOnce,liveCount]
  · simp [initOnce]
  · simp [initOnce]

/-- What is visible of the port map after an operation. -/
structure Consistent (base : H → ℤ) (s : Ports H) (M : ℤ → Option (H × PortState)) : Prop where
  used : s.used = countSlots s.capacity fun i => (s.entry i).port ≠ 0
  deleted : s.deleted = countSlots s.capacity fun i => (s.entry i).handler = .deletedEntry
  free : ∃ i < s.capacity, (s.entry i).handler = .null
  found : ∀ p h st, M p = some (h,st) →
    ∃ i < s.capacity, s.findPort p = some (some i) ∧ s.entry i = ⟨p,.handler h,st⟩
  absent : ∀ p ≥ 0, M p = none → s.findPort p = some none
  unique : ∀ i < s.capacity, ∀ j < s.capacity, (s.entry i).port ≠ 0 →
    (s.entry i).port = (s.entry j).port → i = j
  live : ∀ h, s.livePorts h = base h+liveCount M h

lemma Inv.consistent (hi : Inv base s M) : Consistent base s M := by
  have hport : ∀ i, (s.entry i).port ≠ 0 → ∃ x, item s.map i = some ((s.entry i).port,x) := by
    intro i h0
    rcases hi.slots.wf i with ⟨h, -⟩ | ⟨-,h,hh⟩
    · exact absurd h h0
    · exact ⟨(h,_),Entry.item_eq_some.2 ⟨rfl,hh,rfl⟩⟩
  refine ⟨?_,?_,?_,?_,fun p hp hM => hi.findPort_none hp hM,?_,hi.live⟩
  · rw [hi.used,hi.slots.layout.size_eq hi.slots.represents,hi.length]
    congr 1
    refine countSlots_congr fun i _ => ?_
    have := (hi.slots.wf i).port_eq_zero
    unfold item
    cases hit : (slot s.map i).item with
    | none => simp [entry,this.2 hit]
    | some x =>
      have h0 : (slot s.map i).port ≠ 0 := by simp [this,hit]
      simp [entry,h0]
  · rw [hi.deleted]
    rfl
  · obtain ⟨i,hil,hv⟩ := hi.exists_vacant
    exact ⟨i,hil,by simpa [vacant,entry] using hv⟩
  · intro p h st hM
    obtain ⟨i,hil,hit,hf⟩ := hi.findPort_some hM
    obtain ⟨h1,h2,h3⟩ := Entry.item_eq_some.1 hit
    refine ⟨i,hi.length ▸ hil,hf,?_⟩
    rw [entry]
    cases hs : slot s.map i
    simp_all
  · intro i hil j hjl h0 he
    obtain ⟨x,hx⟩ := hport i h0
    obtain ⟨y,hy⟩ := hport j (he ▸ h0)
    rw [← he] at hy
    exact hi.slots.layout.unique i (hi.length ▸ hil) j (hi.length ▸ hjl) _ x y hx hy

/-- Two handlers, a collision, a live port, a closed port and a bulk close. -/
def sampleOps : List (Op Bool) :=
  [.createPort true [0,3],.createPort false [3,11],.setPortState 3 .livePort,.closePort 11,
   .lookup 3,.createPort false [19],.closePorts true,.lookup 3,.lookup 19]

end DartSdk.PortMap
