import DartSdk.PortMap

/-! `Slots` is the invariant of the bare table, shared by the live table and the one that `Rehash`
builds. -/
namespace DartSdk.PortMap
open LinearProbing Ports List Entry

variable {H : Type}

def home (c : ℕ) (p : ℤ) : ℕ := (p%c).toNat

lemma home_lt {c : ℕ} (hc : 0 < c) (p : ℤ) : home c p < c := by
  have h2 := Int.emod_lt_of_pos p (b := c) (by omega)
  unfold home
  omega

lemma slotIndex_eq {p : ℤ} (hp : 0 ≤ p) {c : ℕ} (hc : 0 < c) : slotIndex p c = some (home c p) := by
  have h1 := Int.emod_nonneg p (b := c) (by omega)
  rw [slotIndex,Int.tmod_eq_emod_of_nonneg hp]
  simp [home,h1]

section Slots
variable {map : List (Entry H)} {M : ℤ → Option (H × PortState)} {i : ℕ} {p : ℤ}

def Entry.item (e : Entry H) : Option (ℤ × H × PortState) :=
  match e.handler with
  | .handler h => some (e.port,h,e.state)
  | _ => none

def item (map : List (Entry H)) (i : ℕ) : Option (ℤ × H × PortState) := (slot map i).item

lemma slot_set (hi : i < map.length) (e : Entry H) (j : ℕ) :
    slot (map.set i e) j = if j = i then e else slot map j := by
  unfold slot
  by_cases h : j = i
  · subst h
    simp [hi]
  · simp [getElem?_set_ne (Ne.symm h),h]

lemma item_set (hi : i < map.length) (e : Entry H) (j : ℕ) :
    item (map.set i e) j = if j = i then e.item else item map j := by
  unfold item
  rw [slot_set hi]
  split_ifs <;> rfl

lemma slot_replicate (n i : ℕ) : slot (replicate n (free : Entry H)) i = .free := by
  unfold slot
  by_cases hi : i < n
  · simp [hi]
  · simp

/-- Free and deleted entries have port zero, the others a positive port and a handler. -/
def Entry.Wf (e : Entry H) : Prop :=
  (e.port = 0 ∧ (e.handler = .null ∨ e.handler = .deletedEntry)) ∨
    (0 < e.port ∧ ∃ h, e.handler = .handler h)

lemma Entry.Wf.port_eq_zero {e : Entry H} (hw : e.Wf) : e.port = 0 ↔ e.item = none := by
  rcases hw with ⟨hp,hh | hh⟩ | ⟨hp,h,hh⟩
  · simp [hp,item,hh]
  · simp [hp,item,hh]
  · simp [hp.ne',item,hh]

lemma Entry.item_eq_some {e : Entry H} {h : H} {st : PortState} :
    e.item = some (p,h,st) ↔ e.port = p ∧ e.handler = .handler h ∧ e.state = st := by
  unfold item
  cases e.handler <;> simp

variable [DecidableEq H]

def vacant (map : List (Entry H)) (i : ℕ) : Bool := (slot map i).handler = .null

def gone (map : List (Entry H)) (i : ℕ) : Bool := (slot map i).handler = .deletedEntry

structure Slots (map : List (Entry H)) (M : ℤ → Option (H × PortState)) : Prop where
  wf : ∀ i, (slot map i).Wf
  layout : Layout map.length (home map.length) (vacant map) (item map)
  represents : Represents map.length (item map) M

section
variable (hs : Slots map M)
include hs

lemma Slots.pos : 0 < map.length :=
  (Nat.zero_le _).trans_lt (hs.layout.home_lt 0)

lemma Slots.port_pos {x : H × PortState} (hp : M p = some x) : 0 < p := by
  obtain ⟨i, -,hit⟩ := (hs.represents p x).1 hp
  obtain ⟨h1,h2, -⟩ := item_eq_some.1 hit
  rcases hs.wf i with ⟨-,h | h⟩ | ⟨h, -⟩
  · simp [h] at h2
  · simp [h] at h2
  · exact h1 ▸ h

lemma Slots.find (hex : ∃ i < map.length, vacant map i = true) (hp : 0 < p) :
    ∃ i < map.length, search (fun i => (slot map i).handler = .null || (slot map i).port = p)
        map.length map.length (home map.length p) = some i ∧
      ((∃ x, item map i = some (p,x) ∧ M p = some x) ∨ vacant map i = true ∧ M p = none) := by
  obtain ⟨d, -,hsearch, -,hend⟩ := hs.layout.find hs.represents hex p
    (p := fun i => (slot map i).handler = .null || (slot map i).port = p) (by
      intro i _
      simp only [vacant,Bool.or_eq_true,decide_eq_true_eq]
      refine or_congr_right ?_
      rcases hs.wf i with ⟨h0,hh⟩ | ⟨hpos,h,hh⟩
      · have hne : (slot map i).port ≠ p := by omega
        have hn : item map i = none := ((hs.wf i).port_eq_zero).1 h0
        simp [hne,hn]
      · constructor
        · intro he
          exact ⟨(h,(slot map i).state),item_eq_some.2 ⟨he,hh,rfl⟩⟩
        · rintro ⟨⟨h',st⟩,hx⟩
          exact (item_eq_some.1 hx).1)
  exact ⟨_,Nat.mod_lt _ hs.pos,hsearch,hend⟩

/-- The first slot without a port is one where a new port can be reached. -/
lemma Slots.findUnused (hex : ∃ i < map.length, item map i = none) (hp : 0 < p) :
    ∃ i < map.length, ∃ d < map.length, (home map.length p+d)%map.length = i ∧
      findUnused map map.length p = some i ∧ item map i = none ∧ ∀ j < d,
      vacant map ((home map.length p+j)%map.length) = false := by
  obtain ⟨e,he,hen⟩ := hex
  have hport : ∀ i, decide ((slot map i).port = 0) = true ↔ item map i = none := by
    intro i
    rw [decide_eq_true_eq]
    exact (hs.wf i).port_eq_zero
  obtain ⟨d,hd,hsearch,hstop,hmin⟩ := search_first (home_lt hs.pos p)
    (p := fun i => decide ((slot map i).port = 0)) ⟨e,he,(hport e).2 hen⟩
  refine ⟨_,Nat.mod_lt _ hs.pos,d,hd,rfl,?_,(hport _).1 hstop,?_⟩
  · rw [Ports.findUnused,slotIndex_eq hp.le hs.pos]
    exact hsearch
  · intro j hj
    by_contra hv
    have hn := hs.layout.free_item _ (Nat.mod_lt _ hs.pos) (by simpa using hv)
    have := hmin j hj
    rw [(hport _).2 hn] at this
    simp at this

lemma Slots.exists_vacant (hlt : size M+countSlots map.length (gone map) < map.length) :
    ∃ i < map.length, vacant map i = true := by
  rw [hs.layout.size_eq hs.represents] at hlt
  obtain ⟨i,hi,h1,h2⟩ := exists_slot_of_count_lt hlt
  refine ⟨i,hi,?_⟩
  rcases hs.wf i with ⟨-,hh | hh⟩ | ⟨-,h,hh⟩
  · simp [vacant,hh]
  · simp [gone,hh] at h2
  · simp [item,Entry.item,hh] at h1

lemma Slots.exists_unused (hlt : size M < map.length) : ∃ i < map.length, item map i = none := by
  rw [hs.layout.size_eq hs.represents] at hlt
  obtain ⟨i,hi,hn⟩ := exists_not_of_count_lt hlt
  exact ⟨i,hi,by simpa using hn⟩

lemma Slots.set_wf (hi : i < map.length) {e : Entry H} (he : e.Wf) (j : ℕ) :
    (slot (map.set i e) j).Wf := by
  rw [slot_set hi]
  split_ifs
  · exact he
  · exact hs.wf j

lemma Slots.insert {d : ℕ} (hd : d < map.length) (hi : (home map.length p+d)%map.length = i)
    (hpath : ∀ j < d, vacant map ((home map.length p+j)%map.length) = false)
    (hun : item map i = none) (hp : 0 < p) (habs : M p = none) (h : H) (st : PortState) :
    Slots (map.set i ⟨p,.handler h,st⟩) (Function.update M p (some (h,st))) := by
  have hil : i < map.length := hi ▸ Nat.mod_lt _ hs.pos
  have hitem : ∀ j < map.length, item (map.set i ⟨p,.handler h,st⟩) j =
      if j = i then some (p,h,st) else item map j := fun j _ => item_set hil _ j
  have hk := (hs.represents.absent_iff p).1 habs
  refine ⟨hs.set_wf hil (Or.inr ⟨hp,h,rfl⟩),?_,?_⟩
  · rw [length_set]
    refine hs.layout.insert hd hi hpath hk (fun j _ hv => ?_) hitem
    rw [vacant,slot_set hil] at hv
    split_ifs at hv with hji
    · simp at hv
    · exact ⟨hji,hv⟩
  · rw [length_set]
    refine hs.represents.set hil (fun j hj _ => hk j hj) ?_ hitem
    intro p' x hx
    simp [hun] at hx

lemma Slots.setState (hi : i < map.length) {h : H} {st : PortState}
    (hit : item map i = some (p,h,st)) (st' : PortState) :
    Slots (map.set i ((slot map i).setState st')) (Function.update M p (some (h,st'))) := by
  obtain ⟨hp,hh, -⟩ := item_eq_some.1 hit
  have hitem : ∀ j < map.length, item (map.set i ((slot map i).setState st')) j =
      if j = i then some (p,h,st') else item map j := by
    intro j _
    rw [item_set hi]
    split_ifs
    · exact item_eq_some.2 ⟨hp,hh,rfl⟩
    · rfl
  refine ⟨hs.set_wf hi (hs.wf i),?_,?_⟩
  · rw [length_set]
    refine hs.layout.mono (fun j _ hv => ?_) fun j hj p' x hx => ?_
    · rw [vacant,slot_set hi] at hv
      split_ifs at hv with hji
      · rw [hji]
        exact hv
      · exact hv
    · rw [hitem j hj] at hx
      split_ifs at hx with hji
      · cases hx
        exact ⟨(h,st),hji ▸ hit⟩
      · exact ⟨x,hx⟩
  · rw [length_set]
    refine hs.represents.set hi (fun j hj hji x hx => ?_) (fun p' x hx => ?_) hitem
    · exact hji (hs.layout.unique j hj i hi p x (h,st) hx hit)
    · rw [hit] at hx
      cases hx
      rfl

lemma Slots.delete (hi : i < map.length) {x : H × PortState} (hit : item map i = some (p,x)) :
    Slots (map.set i (slot map i).delete) (Function.update M p none) := by
  have hitem : ∀ j < map.length,
      item (map.set i (slot map i).delete) j =
        if j = i then none else item map j := fun j _ => item_set hi _ j
  refine ⟨hs.set_wf hi (Or.inl ⟨rfl,Or.inr rfl⟩),?_,?_⟩
  · rw [length_set]
    refine hs.layout.mono (fun j _ hv => ?_) fun j hj p' y hy => ?_
    · rw [vacant,slot_set hi] at hv
      split_ifs at hv with hji
      · simp [Entry.delete] at hv
      · exact hv
    · rw [hitem j hj] at hy
      split_ifs at hy
      exact ⟨y,hy⟩
  · rw [length_set]
    exact hs.represents.erase hs.layout hi hit hitem

end

lemma Slots.empty {n : ℕ} (hn : 0 < n) : Slots (replicate n (free : Entry H)) fun _ => none := by
  have hitem : ∀ i < (replicate n (free : Entry H)).length,
      item (replicate n (free : Entry H)) i = none := by
    intro i _
    rw [item,slot_replicate]
    rfl
  refine ⟨fun i => ?_,.empty (home_lt (by simpa using hn)) hitem,.empty hitem⟩
  rw [slot_replicate]
  exact Or.inl ⟨rfl,Or.inl rfl⟩

lemma countGone_set (hi : i < map.length) (e : Entry H) :
    countSlots map.length (gone (map.set i e))+(if gone map i then 1 else 0) =
      countSlots map.length (gone map)+if e.handler = .deletedEntry then 1 else 0 := by
  have hset : ∀ j, gone (map.set i e) j =
      if j = i then decide (e.handler = .deletedEntry) else gone map j := by
    intro j
    unfold gone
    rw [slot_set hi]
    split_ifs <;> rfl
  have := countSlots_change (q := gone (map.set i e)) hi fun j _ hj => by
    rw [hset,if_neg hj]
  rw [hset i,if_pos rfl] at this
  simpa using this

end Slots

end DartSdk.PortMap
