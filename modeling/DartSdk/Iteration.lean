import Mathlib

/-! Induction rules. A loop over an index range or over a list of operations is a monadic left fold
in `Option`, where `none` is an aborted run; an invariant of one iteration becomes an invariant of
the loop. -/
namespace DartSdk

lemma some_bind {α β : Type _} (a : α) (f : α → Option β) : (some a >>= f) = f a := rfl

lemma exists_fuel (n : ℕ) (h : 0 < n := by omega) : ∃ m, n = m+1 := ⟨n-1,by omega⟩

end DartSdk

namespace DartSdk.Iteration

variable {σ α : Type*}

/-- A loop body that succeeds under `P i` and establishes `P (i + 1)` makes the whole
loop succeed and establishes `P n`. -/
lemma foldlM_range_total {f : σ → ℕ → Option σ} {n : ℕ} {s : σ} (P : ℕ → σ → Prop) (hinit : P 0 s)
    (hstep : ∀ i < n, ∀ t, P i t → ∃ u, f t i = some u ∧ P (i+1) u) :
    ∃ u, (List.range n).foldlM f s = some u ∧ P n u := by
  induction n with
  | zero => exact ⟨s,by simp,hinit⟩
  | succ n ih =>
    obtain ⟨t,ht,hpt⟩ := ih fun i hi => hstep i (by omega)
    obtain ⟨u,hu,hpu⟩ := hstep n (by omega) t hpt
    exact ⟨u,by simp [List.range_succ,ht,hu],hpu⟩

lemma foldl_range {f : σ → ℕ → σ} {n : ℕ} {s : σ} (P : ℕ → σ → Prop) (hinit : P 0 s)
    (hstep : ∀ i < n, ∀ t, P i t → P (i+1) (f t i)) : P n ((List.range n).foldl f s) := by
  induction n with
  | zero => exact hinit
  | succ n ih =>
    rw [List.range_succ,List.foldl_append]
    exact hstep n (by omega) _ (ih fun i hi => hstep i (by omega))

/-- The loop `for (i = lo; i < hi; i++)`. -/
def forUp (lo hi : ℕ) (s : σ) (f : σ → ℕ → Option σ) : Option σ :=
  (List.range (hi-lo)).foldlM (fun t k => f t (lo+k)) s

/-- The loop `i = n; while (--i >= 0)`. -/
def forDown (f : σ → ℕ → Option σ) : ℕ → σ → Option σ
  | 0, s => some s
  | n+1, s => (f s n).bind (forDown f n)

lemma forUp_total {f : σ → ℕ → Option σ} {lo hi : ℕ} {s : σ} (P : ℕ → σ → Prop) (hle : lo ≤ hi)
    (hinit : P lo s) (hstep : ∀ i, lo ≤ i → i < hi → ∀ t, P i t → ∃ u, f t i = some u ∧ P (i+1) u) :
    ∃ u, forUp lo hi s f = some u ∧ P hi u := by
  obtain ⟨u,hu,hp⟩ := foldlM_range_total (n := hi-lo)
    (fun k => P (lo+k)) hinit fun k hk t ht => hstep (lo+k) (by omega) (by omega) t ht
  exact ⟨u,hu,by rwa [Nat.add_sub_cancel' hle] at hp⟩

lemma forDown_total {f : σ → ℕ → Option σ} {n : ℕ} {s : σ} (P : ℕ → σ → Prop) (hinit : P n s)
    (hstep : ∀ i < n, ∀ t, P (i+1) t → ∃ u, f t i = some u ∧ P i u) :
    ∃ u, forDown f n s = some u ∧ P 0 u := by
  induction n generalizing s with
  | zero => exact ⟨s,rfl,hinit⟩
  | succ n ih =>
    obtain ⟨t,ht,hp⟩ := hstep n (by omega) s hinit
    obtain ⟨u,hu,hq⟩ := ih hp fun i hi => hstep i (by omega)
    exact ⟨u,by rw [forDown,ht,Option.bind_some,hu],hq⟩

section History
variable {τ ο ρ : Type*} {step : σ → ο → Option (σ × ρ)} {spec : τ → ο → τ × ρ}
  {ok : τ → ο → Prop}

/-- Perform a history of operations and collect their results. -/
def run (step : σ → ο → Option (σ × ρ)) : σ → List ο → Option (σ × List ρ)
  | s, [] => some (s,[])
  | s, o :: os => do
    let (t,r) ← step s o
    let (u,rs) ← run step t os
    return (u,r :: rs)

/-- The same history against a total specification. -/
def exec (spec : τ → ο → τ × ρ) : τ → List ο → τ × List ρ
  | a, [] => (a,[])
  | a, o :: os => ((exec spec (spec a o).1 os).1,(spec a o).2 :: (exec spec (spec a o).1 os).2)

/-- Every operation is allowed in the specification state that it is applied to. -/
def Legal (ok : τ → ο → Prop) (spec : τ → ο → τ × ρ) : τ → List ο → Prop
  | _, [] => True
  | a, o :: os => ok a o ∧ Legal ok spec (spec a o).1 os

lemma run_append (os os' : List ο) (s : σ) : run step s (os ++ os') =
    (run step s os).bind fun x => (run step x.1 os').map fun y => (y.1,x.2 ++ y.2) := by
  induction os generalizing s with
  | nil => cases h : run step s os' <;> simp [run]
  | cons o os ih =>
    cases hs : step s o with
    | none => simp [run,hs]
    | some x =>
      simp only [List.cons_append,run,hs,ih,Option.bind_eq_bind,Option.bind_some]
      cases run step x.1 os with
      | none => simp
      | some y => cases h : run step y.1 os' <;> simp [h]

lemma exec_append (os os' : List ο) (a : τ) :
    (exec spec a (os ++ os')).1 = (exec spec (exec spec a os).1 os').1 := by
  induction os generalizing a with
  | nil => rfl
  | cons o os ih => exact ih _

/-- Simulation of one operation, by a relation that knows how many operations were performed,
gives simulation of every legal history of at most `b` operations. -/
lemma run_refines_upto {b : ℕ} (R : ℕ → σ → τ → Prop) (hstep : ∀ n < b, ∀ s a o, R n s a → ok a o →
      ∃ t, step s o = some (t,(spec a o).2) ∧ R (n+1) t (spec a o).1)
    (os : List ο) : ∀ {n s a}, R n s a → n+os.length ≤ b → Legal ok spec a os →
      ∃ t, run step s os = some (t,(exec spec a os).2) ∧ R (n+os.length) t (exec spec a os).1 := by
  induction os with
  | nil =>
    intro n s a hr _ _
    exact ⟨s,rfl,hr⟩
  | cons o os ih =>
    intro n s a hr hb hl
    rw [List.length_cons] at hb
    obtain ⟨t,ht,hrt⟩ := hstep n (by omega) s a o hr hl.1
    obtain ⟨u,hu,hru⟩ := ih hrt (by omega) hl.2
    refine ⟨u,by simp [run,exec,ht,hu],?_⟩
    rw [List.length_cons,Nat.add_comm os.length 1,← Nat.add_assoc]
    exact hru

/-- Simulation of one operation gives simulation of every legal history. -/
lemma run_refines (R : σ → τ → Prop)
    (hstep : ∀ s a o, R s a → ok a o → ∃ t, step s o = some (t,(spec a o).2) ∧ R t (spec a o).1)
    (os : List ο) {s : σ} {a : τ} (hr : R s a) (hl : Legal ok spec a os) :
    ∃ t, run step s os = some (t,(exec spec a os).2) ∧ R t (exec spec a os).1 :=
  run_refines_upto (fun _ => R) (fun _ _ => hstep) os hr (Nat.zero_add _).le hl

/-- The states that allowed operations lead to from `s`. -/
inductive Reach (step : σ → ο → Option (σ × ρ)) (allowed : σ → ο → Prop) (s : σ) : σ → Prop
  | start : Reach step allowed s s
  | next {t u : σ} {o : ο} {r : ρ} :
      Reach step allowed s t → allowed t o → step t o = some (u,r) → Reach step allowed s u

/-- An invariant that allowed operations keep holds in every reachable state. -/
lemma Reach.invariant {allowed : σ → ο → Prop} {s t : σ} (P : σ → Prop) (hinit : P s)
    (hstep : ∀ t o u r, P t → allowed t o → step t o = some (u,r) → P u)
    (h : Reach step allowed s t) : P t := by
  induction h with
  | start => exact hinit
  | next _ ha hs ih => exact hstep _ _ _ _ ih ha hs

end History

end DartSdk.Iteration

/-! Computations that may fail with an error. -/
namespace DartSdk.Outcome

variable {ε α β : Type}

lemma ok_bind (a : α) (f : α → Except ε β) : (Except.ok a >>= f) = f a := rfl

lemma bind_eq_ok {x : Except ε α} {f : α → Except ε β} {b : β} (h : (x >>= f) = .ok b) :
    ∃ a, x = .ok a ∧ f a = .ok b := by
  cases x with
  | error e => cases h
  | ok a => exact ⟨a,rfl,h⟩

lemma foldlM_invariant {ι : Type} {f : α → ι → Except ε α} (P : α → Prop) {l : List ι}
    (hstep : ∀ i ∈ l, ∀ a b, P a → f a i = .ok b → P b) {a b : α} (ha : P a)
    (h : l.foldlM f a = .ok b) : P b := by
  induction l generalizing a with
  | nil =>
    cases h
    exact ha
  | cons i l ih =>
    rw [List.foldlM_cons] at h
    obtain ⟨c,hc,hrest⟩ := bind_eq_ok h
    exact ih (fun j hj => hstep j (List.mem_cons_of_mem i hj))
      (hstep i List.mem_cons_self a c ha hc) hrest

end DartSdk.Outcome
