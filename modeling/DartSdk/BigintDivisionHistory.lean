import DartSdk.BigintDivisionExact

/-! The cache of divisions stays correct because an array never changes: there is one magnitude for
each identity. -/
namespace DartSdk.Bigint.Store

open Iteration List Nat

/-- Digit arrays contain the magnitudes `mag`, and the cache belongs to two of them. -/
structure Valid (mag : ℕ → ℕ) (s : Store) : Prop where
  empty : mag emptyDigits = 0
  next_pos : emptyDigits < s.next
  objects : ∀ o ∈ s.objects, o.ref < s.next ∧ o.val.magnitude = mag o.ref
  cache : ∀ c ∈ s.cache, c.dividendDigits < s.next ∧ c.divisorDigits < s.next ∧
    c.quoRem.Correct (mag c.dividendDigits) (mag c.divisorDigits)

variable (s : Store)

def values : List ℤ := s.objects.map fun o => o.val.toInt

def Refines (l : List ℤ) : Prop := s.values = l ∧ ∃ mag, s.Valid mag

@[simp] lemma values_share (x : Bigint) (ref : ℕ) :
    (s.share x ref).values = s.values ++ [x.toInt] := by
  simp [values,share]

@[simp] lemma values_create (x : Bigint) : (s.create x).values = s.values ++ [x.toInt] :=
  values_share s x s.next

lemma start_valid : start.Valid fun _ => 0 where
  empty := rfl
  next_pos := zero_lt_one
  objects := fun o h => absurd h (by simp [start])
  cache := fun c h => absurd h (by simp [start])

section Step
variable {mag : ℕ → ℕ} {s : Store}

variable (h : s.Valid mag)
include h

lemma Valid.share {x : Bigint} {ref : ℕ} (href : ref < s.next)
    (hx : x.used ≠ 0 → x.magnitude = mag ref) : (s.share x ref).Valid mag where
  empty := h.empty
  next_pos := h.next_pos
  cache := h.cache
  objects := by
    intro o ho
    rcases mem_append.mp ho with ho | ho
    · exact h.objects o ho
    · rw [mem_singleton] at ho
      subst ho
      by_cases h0 : x.used = 0
      · simp only [if_pos h0]
        exact ⟨h.next_pos,by rw [h.empty,x.used_eq_zero_iff.mp h0]⟩
      · simp only [if_neg h0]
        exact ⟨href,hx h0⟩

lemma Valid.create (x : Bigint) : (s.create x).Valid (Function.update mag s.next x.magnitude) := by
  have hold : ∀ ref < s.next, Function.update mag s.next x.magnitude ref = mag ref :=
    fun ref hlt => Function.update_of_ne hlt.ne _ _
  have hnext : Valid (Function.update mag s.next x.magnitude) { s with next := s.next+1 } :=
    { empty := (hold _ h.next_pos).trans h.empty
      next_pos := lt_succ_of_lt h.next_pos
      objects := fun o ho => by
        obtain ⟨hlt,hmag⟩ := h.objects o ho
        exact ⟨lt_succ_of_lt hlt,by rw [hold _ hlt,hmag]⟩
      cache := fun c hc => by
        obtain ⟨h1,h2,hq⟩ := h.cache c hc
        exact ⟨lt_succ_of_lt h1,lt_succ_of_lt h2,by rwa [hold _ h1,hold _ h2]⟩ }
  exact hnext.share (lt_succ_self _) fun _ => by rw [Function.update_self]

/-- With a cached result or without it, the digits belong to the operands. -/
lemma Valid.divRem {x a : Object} (hx : x ∈ s.objects) (ha : a ∈ s.objects)
    (hpos : 0 < a.val.used) (hle : a.val.used ≤ x.val.used) : ∃ t q, s.divRem x a = some (t,q) ∧
      t.values = s.values ∧ t.Valid mag ∧ q.Correct x.val.magnitude a.val.magnitude := by
  obtain ⟨hxr,hxm⟩ := h.objects x hx
  obtain ⟨har,ham⟩ := h.objects a ha
  obtain ⟨q,hq,hcorrect⟩ := divRemDigits_spec hpos hle x.val.used_le_length a.val.used_le_length
    (a.val.clamped hpos)
  have hnew : Valid mag { s with cache := some ⟨x.ref,x.val.used,a.ref,a.val.used,q⟩ } := by
    refine ⟨h.empty,h.next_pos,h.objects,fun c hc => ?_⟩
    obtain rfl := Option.some.inj hc
    exact ⟨hxr,har,by rw [← hxm,← ham]; exact hcorrect⟩
  unfold Store.divRem
  cases hc : s.cache with
  | none =>
    refine ⟨_,q,?_,?_,hnew,hcorrect⟩
    · simp only [hq]
      rfl
    · rfl
  | some c =>
    by_cases hhit : x.val.used = c.dividendUsed ∧ a.val.used = c.divisorUsed ∧
        x.ref = c.dividendDigits ∧ a.ref = c.divisorDigits
    · refine ⟨s,c.quoRem,by simp [if_pos hhit],rfl,h,?_⟩
      rw [hxm,ham,hhit.2.2.1,hhit.2.2.2]
      exact (h.cache c hc).2.2
    · refine ⟨_,q,?_,?_,hnew,hcorrect⟩
      · simp only [hq,if_neg hhit]
        rfl
      · rfl

omit h in
lemma magnitude_lt_of_used_lt {x a : Bigint} (h : x.used < a.used) : x.magnitude < a.magnitude :=
  calc x.magnitude < digitBase^x.used := x.magnitude_lt
    _ ≤ digitBase^(a.used-1) := Nat.pow_le_pow_right (by norm_num) (by omega)
    _ ≤ a.magnitude := pow_le_magnitude (by omega)

omit h in
lemma used_pos_of_toInt_ne_zero {a : Bigint} (h : a.toInt ≠ 0) : 0 < a.used := by
  rw [Nat.pos_iff_ne_zero,Ne,used_eq_zero_iff,← natAbs_toInt,Int.natAbs_eq_zero]
  exact h

lemma Valid.div {x a : Object} (hx : x ∈ s.objects) (ha : a ∈ s.objects)
    (h0 : a.val.toInt ≠ 0) : ∃ t r, s.div x a = some (t,r) ∧ r.toInt =
      x.val.toInt.tdiv a.val.toInt ∧ t.values = s.values ++ [r.toInt] ∧ ∃ mag', t.Valid mag' := by
  unfold Store.div
  rw [tdiv_toInt]
  by_cases hlt : x.val.used < a.val.used
  · rw [if_pos hlt]
    have hsmall := magnitude_lt_of_used_lt hlt
    refine ⟨_,_,rfl,by rw [div_eq_of_lt hsmall,withSign_zero]; rfl,values_share ..,mag,
      h.share h.next_pos fun hne => absurd rfl hne⟩
  · rw [if_neg hlt]
    obtain ⟨t,q,hq,hobj,hv,hc⟩ := h.divRem hx ha (used_pos_of_toInt_ne_zero h0) (by omega)
    obtain ⟨r,hr,hrv⟩ := quotient_spec hc (x.val.neg != a.val.neg)
    exact ⟨_,r,by simp [hq,hr],hrv,by rw [values_create,hobj],_,hv.create r⟩

lemma Valid.rem {x a : Object} (hx : x ∈ s.objects) (ha : a ∈ s.objects)
    (h0 : a.val.toInt ≠ 0) : ∃ t r, s.rem x a = some (t,r) ∧ r.toInt =
      x.val.toInt-a.val.toInt*x.val.toInt.tdiv a.val.toInt ∧ t.values = s.values ++ [r.toInt] ∧
      ∃ mag', t.Valid mag' := by
  unfold Store.rem
  rw [tmod_toInt]
  by_cases hlt : x.val.used < a.val.used
  · rw [if_pos hlt]
    have hsmall := magnitude_lt_of_used_lt hlt
    refine ⟨_,_,rfl,by rw [mod_eq_of_lt hsmall]; rfl,values_share ..,mag,
      h.share (h.objects x hx).1 fun _ => (h.objects x hx).2⟩
  · rw [if_neg hlt]
    obtain ⟨t,q,hq,hobj,hv,hc⟩ := h.divRem hx ha (used_pos_of_toInt_ne_zero h0) (by omega)
    obtain ⟨r,hr,hrv⟩ := remainder_spec hc x.val.neg
    exact ⟨_,r,by simp [hq,hr],hrv,by rw [values_create,hobj],_,hv.create r⟩

end Step

lemma Refines.operand {s : Store} {l : List ℤ} (h : s.Refines l) {i : ℕ} (hi : i < l.length) :
    ∃ o ∈ s.objects, s.objects[i]? = some o ∧ l[i]?.getD 0 = o.val.toInt := by
  obtain ⟨rfl, -⟩ := h
  rw [values,length_map] at hi
  exact ⟨s.objects[i],getElem_mem hi,getElem?_eq_getElem hi,by simp [values,hi]⟩

lemma step_refines (s : Store) (l : List ℤ) (c : Command) (h : s.Refines l) (hc : Allowed l c) :
    ∃ t, step s c = some (t,(spec l c).2) ∧ t.Refines (spec l c).1 := by
  have hrel := h.1
  obtain ⟨mag,hv⟩ := h.2
  cases c with
  | create x =>
    exact ⟨_,rfl,by rw [values_create,hrel]; rfl,_,hv.create x⟩
  | negate i =>
    obtain ⟨o,ho,hget,hval⟩ := h.operand hc
    obtain ⟨r,hr,hrv⟩ := o.val.negate_spec
    refine ⟨s.share r o.ref,by simp [step,spec,hget,hr,hrv,hval],
      by simp [spec,hrel,hrv,hval],mag,hv.share (hv.objects o ho).1 fun _ => ?_⟩
    rw [← (hv.objects o ho).2,← natAbs_toInt,← natAbs_toInt,hrv,Int.natAbs_neg]
  | div i j =>
    obtain ⟨hi,hj,h0⟩ := hc
    obtain ⟨x,hx,hgx,hvx⟩ := h.operand hi
    obtain ⟨a,ha,hga,hva⟩ := h.operand hj
    obtain ⟨t,r,ht,hr,hobj,hmag⟩ := hv.div hx ha (by simpa [hva] using h0)
    refine ⟨t,by simp [step,spec,hgx,hga,ht,hr,hvx,hva],?_,hmag⟩
    simp [hobj,hrel,hr,spec,hvx,hva]
  | rem i j =>
    obtain ⟨hi,hj,h0⟩ := hc
    obtain ⟨x,hx,hgx,hvx⟩ := h.operand hi
    obtain ⟨a,ha,hga,hva⟩ := h.operand hj
    obtain ⟨t,r,ht,hr,hobj,hmag⟩ := hv.rem hx ha (by simpa [hva] using h0)
    refine ⟨t,by simp [step,spec,hgx,hga,ht,hr,hvx,hva],?_,hmag⟩
    simp [hobj,hrel,hr,spec,hvx,hva]

/-- In every history of divisions with other divisors than zero, every call returns, and quotients
are truncated and remainders are the matching ones. -/
theorem division_history_exact (cs : List Command) (h : Legal Allowed spec [] cs) :
    ∃ s, run step start cs = some (s,(exec spec [] cs).2) ∧
      s.values = (exec spec [] cs).1 := by
  obtain ⟨s,hs,hr, -⟩ := run_refines Refines step_refines cs
    (⟨rfl,_,start_valid⟩ : start.Refines []) h
  exact ⟨s,hs,hr⟩

/-- Two numbers, quotient and remainder of the same operands, and a division by the negated
divisor, which shares its digits with the divisor. -/
def sampleDivisions : List Command :=
  [.create ⟨false,2,[7,9],by decide,by decide,by decide,by decide⟩,
    .create ⟨true,1,[3,0],by decide,by decide,by decide,minusOne.zero_nonneg⟩,
    .div 0 1,.rem 0 1,.negate 1,.div 0 4]

theorem division_history_sample :
    ∃ s, run step start sampleDivisions = some (s,(exec spec [] sampleDivisions).2) ∧
      s.values = (exec spec [] sampleDivisions).1 :=
  division_history_exact sampleDivisions (by
    simp [sampleDivisions,Legal,Allowed,spec,toInt,withSign,magnitude,Uint32List.value,
      Uint32List.digit])

end DartSdk.Bigint.Store
