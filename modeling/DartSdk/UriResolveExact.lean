import DartSdk.Iteration
import DartSdk.ReferenceResolution
import DartSdk.UriResolve

/-! The removal of dot segments works on a list of segments. It differs from the rewriting of RFC
3986 when a path without a leading slash climbs above its first segment: the RFC goes on with a
slash. -/
namespace DartSdk.Uri

open List
open ReferenceResolution (Reference Segment Whole slashed joined slash rewriteLoop dropLastSegment mergePaths
  transform slashed_cons joined_append joined_splitOn rewriteLoop_nil rewriteLoop_succ rewriteStep_dot
  rewriteStep_slashed rewriteStep_start rewriteStep_up)

/-- What is known of the start of a path whose segments are removed: it has a slash, nothing is kept
of it, or some segments are kept above a first one, which may be empty. It is lost once the first
segment of a path without a slash was removed. -/
inductive Root
  | held
  | bare (lost : Bool)
  | above (lost empty : Bool) (depth : ℕ)

namespace Root

def visit (root : Root) (segment : Text) : Root :=
  match root with
  | held => held
  | bare lost =>
    if segment = [charDot] ∨ segment = [charDot,charDot] then bare lost
    else if segment ≠ [] then above lost false 0
    else if lost then above true true 0
    else held
  | above lost empty depth =>
    if segment = [charDot] then above lost empty depth
    else if segment ≠ [charDot,charDot] then above lost empty (depth+1)
    else
      match depth with
      | depth+1 => above lost empty depth
      | 0 => if empty then held else bare true

def lost : Root → Bool
  | held => false
  | bare lost => lost
  | above lost _ _ => lost

/-- Segments that are kept in a state. -/
def Shape : Root → List Segment → Prop
  | held, kept => ∃ out, kept = [] :: out
  | bare _, kept => kept = []
  | above lost empty depth, kept =>
    ∃ first out, kept = first :: out ∧ out.length = depth ∧ (first = [] ↔ empty = true) ∧
      (empty = true → lost = true)

/-- The text of the kept segments after the rewriting of the RFC. -/
def print (root : Root) (kept : List Segment) : Text :=
  if root.lost then slashed kept else joined kept

end Root

variable (path : Text)

/-- Whether a path climbs above its first segment and does not get back to a slash. -/
def losesRoot : Bool :=
  ((path.splitOn charSlash).foldl Root.visit (.bare false)).lost

section Visit

variable {root : Root} {kept : List Segment} {segment : Segment} {segments : List Segment} {b : Bool}

def finish (state : List Text × Bool) : List Text :=
  if state.2 then state.1 ++ [[]] else state.1

lemma print_append (h : root.lost = true ∨ kept ≠ []) :
    root.print (kept ++ [segment]) = root.print kept ++ slash :: segment := by
  unfold Root.print
  split_ifs with hlost
  · simp
  · rw [joined_append (h.resolve_left hlost)]
    simp

lemma shape_ne_nil (hs : root.Shape kept) (hr : root ≠ .bare false) :
    root.lost = true ∨ kept ≠ [] := by
  cases root with
  | held =>
    obtain ⟨out,rfl⟩ := hs
    exact .inr (cons_ne_nil _ _)
  | bare lost =>
    cases lost with
    | false => exact absurd rfl hr
    | true => exact .inl rfl
  | above lost empty depth =>
    obtain ⟨first,out,rfl, -⟩ := hs
    exact .inr (cons_ne_nil _ _)

lemma visit_dot (root : Root) : root.visit [charDot] = root := by
  cases root <;> simp [Root.visit]

lemma visitSegment_dot : visitSegment (kept,b) [charDot] = (kept,true) := rfl

lemma visitSegment_push (hdot : segment ≠ [charDot]) (hup : segment ≠ [charDot,charDot]) :
    visitSegment (kept,b) segment = (kept ++ [segment],false) := by
  simp [visitSegment,hdot,hup]

lemma visit_push (hs : root.Shape kept) (hdot : segment ≠ [charDot]) (hup : segment ≠ [charDot,charDot])
    (hr : root ≠ .bare false) :
    (root.visit segment).Shape (kept ++ [segment]) ∧ (root.visit segment).lost = root.lost ∧
      root.visit segment ≠ .bare false := by
  cases root with
  | held =>
    obtain ⟨out,rfl⟩ := hs
    exact ⟨⟨out ++ [segment],rfl⟩,rfl,nofun⟩
  | bare lost =>
    cases lost with
    | false => exact absurd rfl hr
    | true =>
      obtain rfl : kept = [] := hs
      by_cases hnil : segment = []
      · subst hnil
        exact ⟨⟨[],[],rfl,rfl,by simp,by simp⟩,rfl,nofun⟩
      · have hvisit : (Root.bare true).visit segment = .above true false 0 := by
          simp [Root.visit,hdot,hup,hnil]
        rw [hvisit]
        exact ⟨⟨segment,[],rfl,rfl,by simp [hnil],nofun⟩,rfl,nofun⟩
  | above lost empty depth =>
    obtain ⟨first,out,rfl,hlength,hempty⟩ := hs
    have hvisit : (Root.above lost empty depth).visit segment = .above lost empty (depth+1) := by
      simp [Root.visit,hdot,hup]
    rw [hvisit]
    exact ⟨⟨first,out ++ [segment],rfl,by simp [hlength],hempty⟩,rfl,nofun⟩

def pop (output : List Text) : List Text :=
  if output ≠ [] ∧ (output.length ≠ 1 ∨ output[0]? ≠ some []) then output.dropLast else output

lemma visitSegment_up : visitSegment (kept,b) [charDot,charDot] = (pop kept,true) := rfl

lemma pop_append (h : kept ≠ []) : pop (kept ++ [segment]) = kept := by
  have hlength : (kept ++ [segment]).length ≠ 1 := by
    have := length_pos_iff.2 h
    rw [length_append,length_singleton]
    omega
  rw [pop,if_pos ⟨by simp,.inl hlength⟩,dropLast_concat]

lemma pop_singleton (h : segment ≠ []) : pop [segment] = [] := by
  rw [pop,if_pos ⟨by simp,.inr (by simpa using h)⟩]
  rfl

lemma dropLastSegment_print (hw : Whole segment) (h : root.lost = true ∨ kept ≠ []) :
    dropLastSegment (root.print (kept ++ [segment])) = root.print kept := by
  rw [print_append h,ReferenceResolution.dropLastSegment_append hw]

lemma visit_up (hs : root.Shape kept) (hw : ∀ s ∈ kept, Whole s) (hr : root ≠ .bare false) :
    (root.visit [charDot,charDot]).Shape (pop kept) ∧
      (root.visit [charDot,charDot]).print (pop kept) = dropLastSegment (root.print kept) ∧
        root.visit [charDot,charDot] ≠ .bare false := by
  cases root with
  | held =>
    obtain ⟨out,rfl⟩ := hs
    obtain rfl | ⟨out,last,rfl⟩ := out.eq_nil_or_concat'
    · exact ⟨⟨[],rfl⟩,rfl,nofun⟩
    · have hpop : pop ([] :: (out ++ [last])) = [] :: out := pop_append (cons_ne_nil [] out)
      rw [hpop]
      refine ⟨⟨out,rfl⟩,?_,nofun⟩
      exact (dropLastSegment_print (hw last (by simp)) (.inr (cons_ne_nil [] out))).symm
  | bare lost =>
    obtain rfl : kept = [] := hs
    cases lost with
    | false => exact absurd rfl hr
    | true => exact ⟨rfl,rfl,nofun⟩
  | above lost empty depth =>
    obtain ⟨first,out,rfl,hlength,hempty,hlost⟩ := hs
    obtain rfl | ⟨out,last,rfl⟩ := out.eq_nil_or_concat'
    · obtain rfl : depth = 0 := hlength.symm
      cases empty with
      | true =>
        obtain rfl : first = [] := hempty.2 rfl
        obtain rfl : lost = true := hlost rfl
        exact ⟨⟨[],rfl⟩,rfl,nofun⟩
      | false =>
        have hfirst : first ≠ [] := fun h => nomatch hempty.1 h
        have hwhole : Whole first := hw first mem_cons_self
        rw [pop_singleton hfirst]
        refine ⟨rfl,?_,nofun⟩
        cases lost with
        | false =>
          have hdrop := ReferenceResolution.dropLastSegment_of_whole hwhole
          simpa [Root.print,Root.visit,Root.lost,joined] using hdrop.symm
        | true =>
          have hdrop : dropLastSegment ((Root.above true false 0).print ([] ++ [first])) = _ :=
            dropLastSegment_print hwhole (.inl rfl)
          exact hdrop.symm
    · have hpop : pop (first :: (out ++ [last])) = first :: out := pop_append (cons_ne_nil first out)
      obtain rfl : depth = out.length+1 := by simpa using hlength.symm
      rw [hpop]
      refine ⟨⟨first,out,rfl,rfl,hempty,hlost⟩,?_,Root.noConfusion⟩
      exact (dropLastSegment_print (hw last (by simp)) (.inr (cons_ne_nil first out))).symm

lemma rewriteLoop_last {output : Text} (fuel : ℕ) :
    rewriteLoop (fuel+1) (slashed [[]]) output = output ++ [slash] := by
  rw [rewriteLoop_succ (by simp),rewriteStep_slashed (by simp [Whole]) (by simp) (by simp)]
  exact rewriteLoop_nil fuel

lemma rewriteLoop_visit (hw : ∀ s ∈ segments, Whole s) (hne : segments ≠ []) (hs : root.Shape kept)
    (hk : ∀ s ∈ kept, Whole s) (hr : root ≠ .bare false) {fuel : ℕ}
    (hfuel : (slashed segments).length ≤ fuel) :
    rewriteLoop fuel (slashed segments) (root.print kept) =
      (segments.foldl Root.visit root).print (finish (segments.foldl visitSegment (kept,b))) := by
  induction segments generalizing root kept b fuel with
  | nil => exact absurd rfl hne
  | cons segment segments ih =>
    have hlength : segment.length+(slashed segments).length+1 ≤ fuel := by
      simpa using hfuel
    have hseg : Whole segment := hw segment mem_cons_self
    have hrest : ∀ s ∈ segments, Whole s := fun s h => hw s (mem_cons_of_mem segment h)
    obtain ⟨fuel,rfl⟩ := exists_fuel fuel
    rw [rewriteLoop_succ (by simp),foldl_cons,foldl_cons]
    by_cases hdot : segment = [charDot]
    · subst hdot
      rw [visit_dot,visitSegment_dot]
      cases segments with
      | nil =>
        obtain ⟨fuel,rfl⟩ := exists_fuel fuel (by simp at hlength; omega)
        rw [ReferenceResolution.rewriteStep_dot_last,rewriteLoop_last]
        exact (print_append (shape_ne_nil hs hr)).symm
      | cons next segments =>
        rw [rewriteStep_dot (cons_ne_nil next segments)]
        exact ih hrest (cons_ne_nil next segments) hs hk hr (by omega)
    by_cases hup : segment = [charDot,charDot]
    · subst hup
      obtain ⟨hs',hprint,hr'⟩ := visit_up hs hk hr
      have hk' : ∀ s ∈ pop kept, Whole s := by
        intro s h
        unfold pop at h
        split_ifs at h
        · exact hk s (dropLast_subset kept h)
        · exact hk s h
      rw [visitSegment_up]
      cases segments with
      | nil =>
        obtain ⟨fuel,rfl⟩ := exists_fuel fuel (by simp at hlength; omega)
        rw [ReferenceResolution.rewriteStep_up_last,rewriteLoop_last,← hprint]
        exact (print_append (shape_ne_nil hs' hr')).symm
      | cons next segments =>
        rw [rewriteStep_up (cons_ne_nil next segments),← hprint]
        exact ih hrest (cons_ne_nil next segments) hs' hk' hr' (by omega)
    · obtain ⟨hs',hlost,hr'⟩ := visit_push hs hdot hup hr
      have hprint : (root.visit segment).print (kept ++ [segment]) = root.print kept ++ slash :: segment := by
        rw [← print_append (shape_ne_nil hs hr),Root.print,Root.print,hlost]
      have hk' : ∀ s ∈ kept ++ [segment], Whole s := by
        intro s h
        obtain h | h := mem_append.1 h
        · exact hk s h
        · exact mem_singleton.1 h ▸ hseg
      rw [rewriteStep_slashed hseg hdot hup,visitSegment_push hdot hup,← hprint]
      cases segments with
      | nil => exact rewriteLoop_nil fuel
      | cons next segments => exact ih hrest (cons_ne_nil next segments) hs' hk' hr' (by omega)

lemma rewriteLoop_start (hw : ∀ s ∈ segments, Whole s) (hne : segments ≠ []) {fuel : ℕ}
    (hfuel : (joined segments).length ≤ fuel) : rewriteLoop fuel (joined segments) [] =
      (segments.foldl Root.visit (.bare false)).print
        (finish (segments.foldl visitSegment ([],b))) := by
  induction segments generalizing b fuel with
  | nil => exact absurd rfl hne
  | cons segment segments ih =>
    have hlength : segment.length+(slashed segments).length ≤ fuel := by
      simpa [joined] using hfuel
    have hseg : Whole segment := hw segment mem_cons_self
    have hrest : ∀ s ∈ segments, Whole s := fun s h => hw s (mem_cons_of_mem segment h)
    rw [foldl_cons,foldl_cons]
    by_cases hnil : segment = []
    · subst hnil
      cases segments with
      | nil => exact rewriteLoop_nil fuel
      | cons next segments =>
        have hs : Root.held.Shape [[]] := ⟨[],rfl⟩
        exact rewriteLoop_visit hrest (cons_ne_nil next segments) hs (by simp [Whole])
          Root.noConfusion (by simpa using hlength)
    have hpos := length_pos_iff.2 hnil
    obtain ⟨fuel,rfl⟩ := exists_fuel fuel
    rw [rewriteLoop_succ (by simp [joined,hnil])]
    have hbare : ∀ s : Segment, s = [charDot] ∨ s = [charDot,charDot] →
        (Root.bare false).visit s = .bare false ∧ visitSegment ([],b) s = ([],true) := by
      rintro s (rfl | rfl)
      · exact ⟨rfl,rfl⟩
      · exact ⟨rfl,rfl⟩
    by_cases hdot : segment = [charDot]
    · subst hdot
      cases segments with
      | nil => exact rewriteLoop_nil fuel
      | cons next segments =>
        rw [(hbare _ (.inl rfl)).1,(hbare _ (.inl rfl)).2,
          ReferenceResolution.rewriteStep_start_dot (cons_ne_nil next segments)]
        refine ih hrest (cons_ne_nil next segments) ?_
        simp only [joined,slashed_cons,length_cons] at hlength ⊢
        omega
    by_cases hup : segment = [charDot,charDot]
    · subst hup
      cases segments with
      | nil => exact rewriteLoop_nil fuel
      | cons next segments =>
        rw [(hbare _ (.inr rfl)).1,(hbare _ (.inr rfl)).2,
          ReferenceResolution.rewriteStep_start_up (cons_ne_nil next segments)]
        refine ih hrest (cons_ne_nil next segments) ?_
        simp only [joined,slashed_cons,length_cons] at hlength ⊢
        omega
    · have hvisit : (Root.bare false).visit segment = .above false false 0 := by
        simp [Root.visit,hdot,hup,hnil]
      rw [hvisit,visitSegment_push hdot hup,rewriteStep_start hseg hnil hdot hup]
      have hs : (Root.above false false 0).Shape [segment] :=
        ⟨segment,[],rfl,rfl,by simp [hnil],Bool.noConfusion⟩
      have hprint : (Root.above false false 0).print [segment] = segment := by
        simp [Root.print,Root.lost,joined]
      cases segments with
      | nil => exact (rewriteLoop_nil fuel).trans hprint.symm
      | cons next segments =>
        have hloop := rewriteLoop_visit (b := false) hrest (cons_ne_nil next segments) hs
          (by simpa using hseg) Root.noConfusion (show _ ≤ fuel by omega)
        rw [hprint] at hloop
        exact hloop

end Visit

def remaining : List Text :=
  finish ((path.splitOn charSlash).foldl visitSegment ([],false))

lemma rfc_removeDotSegments : ReferenceResolution.removeDotSegments path =
    ((path.splitOn charSlash).foldl Root.visit (.bare false)).print (remaining path) := by
  have hsplit : ∀ s ∈ path.splitOn charSlash, Whole s := fun s => ReferenceResolution.whole_of_mem_splitOn
  have hlength : (joined (path.splitOn charSlash)).length ≤ path.length :=
    (congrArg length (joined_splitOn path)).le
  have hloop := rewriteLoop_start (b := false) hsplit (splitOn_ne_nil _ _) hlength
  rw [joined_splitOn] at hloop
  exact hloop

lemma finish_visitSegment_ne_nil (state : List Text × Bool) (segment : Text) :
    finish (visitSegment state segment) ≠ [] := by
  by_cases hup : segment = [charDot,charDot]
  · simp [hup,finish,visitSegment]
  by_cases hdot : segment = [charDot]
  · simp [hdot,finish,visitSegment]
  · simp [hup,hdot,finish,visitSegment]

lemma remaining_ne_nil : remaining path ≠ [] := by
  obtain ⟨segments,last,hsplit⟩ := (path.splitOn charSlash).eq_nil_or_concat'.resolve_left
    (splitOn_ne_nil _ _)
  rw [remaining,hsplit,foldl_append,foldl_cons,foldl_nil]
  exact finish_visitSegment_ne_nil _ last

lemma containsSlashDot_append (left right : Text) :
    containsSlashDot (left ++ charSlash :: charDot :: right) = true := by
  induction left with
  | nil => simp [containsSlashDot]
  | cons c left ih =>
    cases left with
    | nil => simp [containsSlashDot]
    | cons d left =>
      rw [cons_append,cons_append,containsSlashDot,Bool.or_eq_true]
      exact .inr ih

lemma head?_ne_dot {path segment : Text} (h : hasDotSegments path = false)
    (hs : segment ∈ path.splitOn charSlash) : segment.head? ≠ some charDot := by
  intro hhead
  obtain ⟨rest,rfl⟩ := head?_eq_some_iff.1 hhead
  obtain ⟨left,right,hsplit⟩ := append_of_mem hs
  have hpath := joined_splitOn path
  rw [hsplit] at hpath
  obtain ⟨hfirst,hcontains⟩ := Bool.or_eq_false_iff.1 h
  cases left with
  | nil => simp [← hpath,joined] at hfirst
  | cons first left =>
    rw [joined_append (cons_ne_nil first left),slashed_cons,cons_append] at hpath
    rw [← hpath,containsSlashDot_append] at hcontains
    cases hcontains

lemma foldl_visitSegment_plain {segments kept : List Text} {b : Bool} (hne : segments ≠ [])
    (h : ∀ s ∈ segments, s.head? ≠ some charDot) :
    finish (segments.foldl visitSegment (kept,b)) = kept ++ segments := by
  induction segments generalizing kept b with
  | nil => exact absurd rfl hne
  | cons segment segments ih =>
    have hhead := h segment mem_cons_self
    have hdot : segment ≠ [charDot] := fun heq => hhead (heq ▸ rfl)
    have hup : segment ≠ [charDot,charDot] := fun heq => hhead (heq ▸ rfl)
    rw [foldl_cons,visitSegment_push hdot hup]
    cases segments with
    | nil => rfl
    | cons next segments =>
      rw [ih (cons_ne_nil next segments) fun s hs => h s (mem_cons_of_mem segment hs),
        append_assoc,singleton_append]

/-- The shortcut for paths without dot segments makes no difference. -/
lemma removeDotSegments_eq : removeDotSegments path = joined (remaining path) := by
  unfold removeDotSegments
  cases hdots : hasDotSegments path with
  | true => exact ReferenceResolution.joined_eq_intercalate.symm
  | false =>
    have hplain : remaining path = path.splitOn charSlash :=
      foldl_visitSegment_plain (splitOn_ne_nil _ _) fun s => head?_ne_dot hdots
    rw [hplain,joined_splitOn]
    rfl

/-- Dot segments are removed as the RFC does unless the path loses its root. -/
lemma removeDotSegments_eq_rfc_iff :
    removeDotSegments path = ReferenceResolution.removeDotSegments path ↔ losesRoot path = false := by
  rw [removeDotSegments_eq,rfc_removeDotSegments,losesRoot,Root.print]
  cases hlost : ((path.splitOn charSlash).foldl Root.visit (.bare false)).lost with
  | false => simp
  | true =>
    rw [if_pos rfl,ReferenceResolution.slashed_eq_slash_joined (remaining_ne_nil path)]
    refine iff_of_false (fun heq => ?_) nofun
    simpa using congrArg length heq

lemma foldl_visit_held (segments : List Text) : segments.foldl Root.visit .held = .held := by
  induction segments with
  | nil => rfl
  | cons segment segments ih => exact ih

lemma splitOn_slash_cons :
    (charSlash :: path).splitOn charSlash = [] :: path.splitOn charSlash := by
  rw [splitOn_cons_eq_if_modifyHead,if_pos (beq_self_eq_true charSlash)]

lemma losesRoot_slash : losesRoot (charSlash :: path) = false := by
  rw [losesRoot,splitOn_slash_cons,foldl_cons]
  exact congrArg Root.lost (foldl_visit_held _)

lemma losesRoot_of_head {path : Text} (h : path.head? = some charSlash) : losesRoot path = false := by
  obtain ⟨rest,rfl⟩ := head?_eq_some_iff.1 h
  exact losesRoot_slash rest

def ups : ℕ → Text
  | 0 => []
  | n+1 => charDot :: charDot :: charSlash :: ups n

lemma length_ups (n : ℕ) : (ups n).length = 3*n := by
  induction n with
  | zero => rfl
  | succ n ih =>
    rw [ups,length_cons,length_cons,length_cons,ih]
    omega

lemma ups_add (m n : ℕ) : ups (m+n) = ups m ++ ups n := by
  induction m with
  | zero => simp [ups]
  | succ m ih => rw [Nat.succ_add,ups,ups,ih]; rfl

lemma ups_backCount (reference : Text) : ∃ rest, reference = ups (backCount reference) ++ rest := by
  induction reference using backCount.induct with
  | case1 c d e rest h ih =>
    obtain ⟨tail,htail⟩ := ih
    obtain ⟨rfl,rfl,rfl⟩ := h
    refine ⟨tail,?_⟩
    rw [backCount,if_pos ⟨rfl,rfl,rfl⟩,ups,cons_append,cons_append,cons_append,← htail]
  | case2 c d e rest h => exact ⟨c :: d :: e :: rest,by rw [backCount,if_neg h]; rfl⟩
  | case3 reference h => exact ⟨reference,by rw [backCount]; exacts [rfl,h]⟩

lemma foldl_visitSegment_root {segments out : List Text} {b : Bool} :
    ∃ out' b', segments.foldl visitSegment ([] :: out,b) = ([] :: out',b') := by
  induction segments generalizing out b with
  | nil => exact ⟨out,b,rfl⟩
  | cons segment segments ih =>
    rw [foldl_cons]
    by_cases hup : segment = [charDot,charDot]
    · subst hup
      rw [visitSegment_up]
      obtain rfl | ⟨out,last,rfl⟩ := out.eq_nil_or_concat'
      · exact ih
      · have hpop : pop ([] :: (out ++ [last])) = [] :: out := pop_append (cons_ne_nil [] out)
        rw [hpop]
        exact ih
    by_cases hdot : segment = [charDot]
    · subst hdot
      exact ih
    · rw [visitSegment_push hdot hup]
      exact ih

/-- The flag only depends on the last segment. -/
lemma foldl_visitSegment_flag {segments kept : List Text} (hne : segments ≠ []) (b b' : Bool) :
    segments.foldl visitSegment (kept,b) = segments.foldl visitSegment (kept,b') := by
  cases segments with
  | nil => exact absurd rfl hne
  | cons segment segments => rfl

/-- A segment and the `..` after it can be dropped. -/
lemma remaining_cancel {left segment : Text} (hleft : left = [] ∨ left.head? = some charSlash)
    (hw : Whole segment) (hdot : segment ≠ [charDot]) (hup : segment ≠ [charDot,charDot]) (right : Text) :
    remaining (left ++ charSlash :: (segment ++ charSlash :: charDot :: charDot :: charSlash :: right)) =
      remaining (left ++ charSlash :: right) := by
  have hroot : ∃ out b, (left.splitOn charSlash).foldl visitSegment ([],false) = ([] :: out,b) := by
    obtain rfl | hhead := hleft
    · exact ⟨[],false,rfl⟩
    · obtain ⟨rest,rfl⟩ := head?_eq_some_iff.1 hhead
      rw [splitOn_slash_cons]
      exact foldl_visitSegment_root
  obtain ⟨out,b,hout⟩ := hroot
  have hups : (charDot :: charDot :: charSlash :: right).splitOn charSlash =
      [charDot,charDot] :: right.splitOn charSlash :=
    splitOn_append_cons_self_of_not_mem (show charSlash ∉ [charDot,charDot] by decide) right
  have hpop : pop ([] :: out ++ [segment]) = [] :: out := pop_append (cons_ne_nil [] out)
  unfold remaining
  rw [splitOn_append_cons_self,splitOn_append_cons_self,splitOn_append_cons_self,
    splitOn_eq_singleton (show charSlash ∉ segment from hw),hups,foldl_append,
    foldl_append,foldl_append,hout,foldl_cons,foldl_cons,foldl_nil,
    visitSegment_push hdot hup,visitSegment_up,hpop,
    foldl_visitSegment_flag (splitOn_ne_nil _ _) true b]

section LastSlash

variable {base : Text} {start k e : ℕ}

lemma lastSlash_some (h : lastSlash base start = some k) :
    k ≤ start ∧ base[k]? = some charSlash ∧ ∀ j, k < j → j ≤ start → base[j]? ≠ some charSlash := by
  induction start with
  | zero =>
    rw [lastSlash] at h
    split_ifs at h with hslash
    cases h
    exact ⟨le_rfl,hslash,fun j hj hle => absurd hj (by omega)⟩
  | succ start ih =>
    rw [lastSlash] at h
    split_ifs at h with hslash
    · cases h
      exact ⟨le_rfl,hslash,fun j hj hle => absurd hj (by omega)⟩
    · obtain ⟨hle,hk,hlast⟩ := ih h
      refine ⟨by omega,hk,fun j hj hjle => ?_⟩
      obtain rfl | hlt : j = start+1 ∨ j ≤ start := by omega
      · exact hslash
      · exact hlast j hj hlt

lemma lastSlash_ne_none (h : base[0]? = some charSlash) : lastSlash base start ≠ none := by
  induction start with
  | zero => simp [lastSlash,h]
  | succ start ih =>
    rw [lastSlash]
    split_ifs
    · nofun
    · exact ih

lemma take_succ_eq (h : base[k]? = some charSlash) : base.take (k+1) = base.take k ++ [charSlash] := by
  rw [take_add_one,h]
  rfl

lemma take_eq_append (h : base[k]? = some charSlash) (hlt : k < e) :
    base.take e = base.take k ++ charSlash :: (base.take e).drop (k+1) := by
  have htake : (base.take e).take (k+1) = base.take k ++ [charSlash] := by
    rw [take_take,min_eq_left (by omega),take_succ_eq h]
  calc base.take e = (base.take e).take (k+1) ++ (base.take e).drop (k+1) :=
        (take_append_drop _ _).symm
    _ = base.take k ++ charSlash :: (base.take e).drop (k+1) := by rw [htake]; simp

lemma whole_between (hlast : ∀ j, k < j → j ≤ e-1 → base[j]? ≠ some charSlash) :
    Whole ((base.take e).drop (k+1)) := by
  intro hmem
  obtain ⟨i,hi⟩ := mem_iff_getElem?.1 hmem
  rw [getElem?_drop,getElem?_take] at hi
  split_ifs at hi with hlt
  exact hlast (k+1+i) (by omega) (by omega) hi

lemma isDotSegment_of_eq (he : base[e]? = some charSlash) (hlt : k < e)
    (h : (base.take e).drop (k+1) = [charDot] ∨ (base.take e).drop (k+1) = [charDot,charDot]) :
    isDotSegment base k e = true := by
  have hlength : ((base.take e).drop (k+1)).length = e-(k+1) := by
    have hbound := (List.getElem?_eq_some_iff.1 he).1
    rw [List.length_drop,List.length_take,min_eq_left hbound.le]
  have hget : ∀ i, k+1+i < e → base[k+1+i]? = ((base.take e).drop (k+1))[i]? := by
    intro i hi
    rw [List.getElem?_drop,List.getElem?_take,if_pos hi]
  obtain h | h := h
  · rw [h,List.length_singleton] at hlength
    have hfirst := hget 0 (by omega)
    rw [h] at hfirst
    have hdelta : e-k = 2 := by omega
    simp [isDotSegment,hdelta,show base[k+1]? = some charDot from hfirst]
  · rw [h] at hlength
    have hfirst := hget 0 (by simp at hlength; omega)
    have hsecond := hget 1 (by simp at hlength; omega)
    rw [h] at hfirst hsecond
    have hdelta : e-k = 3 := by simp at hlength; omega
    simp [isDotSegment,hdelta,show base[k+1]? = some charDot from hfirst,
      show base[k+2]? = some charDot from hsecond]

lemma head?_take (h : base[0]? = some charSlash) (k : ℕ) : base.take k = [] ∨ (base.take k).head? = some charSlash := by
  cases base with
  | nil => cases h
  | cons c base =>
    cases k with
    | zero => exact .inl rfl
    | succ k => exact .inr h

/-- Dropping segments of the base for the leading `../` of the reference does not change what is
left. -/
lemma remaining_dropBack {count : ℕ} (hbase : base[0]? = some charSlash) (he : base[e]? = some charSlash)
    (right : Text) : (dropBack base count e).2 ≤ count ∧
    remaining (base.take ((dropBack base count e).1+1) ++ (ups (dropBack base count e).2 ++ right)) =
      remaining (base.take (e+1) ++ (ups count ++ right)) := by
  induction count generalizing e with
  | zero => exact ⟨le_rfl,rfl⟩
  | succ count ih =>
    rw [dropBack]
    split_ifs with hzero
    · exact ⟨le_rfl,rfl⟩
    cases hslash : lastSlash base (e-1) with
    | none => exact ⟨le_rfl,rfl⟩
    | some k =>
      obtain ⟨hle,hk,hlast⟩ := lastSlash_some hslash
      have hlt : k < e := by omega
      dsimp only
      split_ifs with hsegment
      · exact ⟨le_rfl,rfl⟩
      obtain ⟨hcount,hremaining⟩ := ih hk
      refine ⟨by omega,hremaining.trans ?_⟩
      have hdots := mt (isDotSegment_of_eq he hlt) hsegment
      rw [not_or] at hdots
      rw [take_succ_eq hk,take_succ_eq he,take_eq_append hk hlt,ups,append_assoc,singleton_append]
      rw [← remaining_cancel (head?_take hbase k) (whole_between hlast) hdots.1 hdots.2]
      simp

lemma dropWhile_lastSlash (h : lastSlash base base.length = some k) :
    (base.reverse.dropWhile (· != slash)).reverse = base.take (k+1) := by
  obtain ⟨-,hk,hlast⟩ := lastSlash_some h
  have hall : ∀ c ∈ (base.drop (k+1)).reverse, (c != slash) = true := by
    intro c hc
    obtain ⟨i,hi⟩ := mem_iff_getElem?.1 (mem_reverse.1 hc)
    rw [List.getElem?_drop] at hi
    have hbound := (List.getElem?_eq_some_iff.1 hi).1
    refine bne_iff_ne.2 fun heq => hlast (k+1+i) (by omega) (by omega) ?_
    rw [hi,heq]
  have hreverse : base.reverse.dropWhile (· != slash) = (base.take (k+1)).reverse := by
    calc base.reverse.dropWhile (· != slash)
        = ((base.drop (k+1)).reverse ++ (base.take (k+1)).reverse).dropWhile (· != slash) := by
          rw [← List.reverse_append,List.take_append_drop]
      _ = (base.take (k+1)).reverse := by
          rw [dropWhile_append_of_pos hall,take_succ_eq hk]
          simp
  rw [hreverse,reverse_reverse]

lemma drop_backCount {count left : ℕ} (h : left ≤ count) (right : Text) :
    (ups count ++ right).drop (3*count-3*left) = ups left ++ right := by
  obtain ⟨n,rfl⟩ := Nat.exists_eq_add_of_le' h
  have hlength : 3*(n+left)-3*left = (ups n).length := by
    rw [length_ups]
    omega
  rw [hlength,ups_add,append_assoc,drop_left]

lemma removeDotSegments_slash :
    removeDotSegments (charSlash :: path) = ReferenceResolution.removeDotSegments (charSlash :: path) :=
  (removeDotSegments_eq_rfc_iff _).2 (losesRoot_slash path)

/-- The shortcut of the merge is not seen once dot segments are removed. -/
lemma removeDotSegments_merge {r : Reference} (hauthority : r.authority.isSome)
    (hpath : r.path = [] ∨ r.path.head? = some charSlash) (reference : Text) :
    removeDotSegments (merge r.path reference) =
      ReferenceResolution.removeDotSegments (mergePaths r reference) := by
  rw [mergePaths]
  obtain hempty | hhead := hpath
  · rw [if_pos ⟨hauthority,hempty⟩,hempty]
    exact removeDotSegments_slash reference
  generalize r.path = base at hhead ⊢
  obtain ⟨rest,hrest⟩ := head?_eq_some_iff.1 hhead
  have hzero : base[0]? = some charSlash := by rw [hrest]; rfl
  have hne : base ≠ [] := by rw [hrest]; exact cons_ne_nil _ _
  obtain ⟨k,hlast⟩ := Option.ne_none_iff_exists'.1 (lastSlash_ne_none hzero)
  obtain ⟨tail,htail⟩ := ups_backCount reference
  obtain ⟨hcount,hremaining⟩ := remaining_dropBack hzero (lastSlash_some hlast).2.1 tail
  have hmerge : remaining (merge base reference) = remaining (base.take (k+1) ++ reference) := by
    rw [merge,if_neg (by simpa using hne),hlast]
    dsimp only
    conv_lhs =>
      enter [1,2,2]
      rw [htail]
    rw [drop_backCount hcount,hremaining,← htail]
  have hslash : base.take (k+1) ++ reference = charSlash :: (rest.take k ++ reference) := by
    rw [hrest]
    rfl
  rw [if_neg fun h => hne h.2,dropWhile_lastSlash hlast,removeDotSegments_eq,hmerge,
    ← removeDotSegments_eq,hslash,removeDotSegments_slash]

end LastSlash

/-- The components of a URI in the sense of the RFC. -/
def components (u : Uri) : Reference where
  scheme := if u.scheme = [] then none else some u.scheme
  authority := u._host.map fun h => ⟨u.userInfo,h,u._port⟩
  path := u.path
  query := u._query
  fragment := u._fragment

/-- The components without a port that is the default of the scheme. -/
def withoutDefaultPort (r : Reference) : Reference :=
  { r with authority := r.authority.map fun a => { a with port := makePort a.port (r.scheme.getD []) } }

section Getters

variable (u : Uri)

lemma some_port : (if u.hasPort then some u.port else none) = u._port := by
  unfold hasPort port
  cases u._port <;> rfl

lemma some_query : (if u.hasQuery then some u.query else none) = u._query := by
  unfold hasQuery query
  cases u._query <;> rfl

lemma query_or (q : Option Text) : (if u.hasQuery then some u.query else q) = u._query.or q := by
  unfold hasQuery query
  cases u._query <;> rfl

lemma some_fragment : (if u.hasFragment then some u.fragment else none) = u._fragment := by
  unfold hasFragment fragment
  cases u._fragment <;> rfl

lemma host_eq_iff {u : Uri} {h : Text} (hhost : u._host = some h) :
    u.host = h ↔ h.head? ≠ some charLeftBracket := by
  rw [host,hhost]
  dsimp only
  split_ifs with hhead
  · refine iff_of_false (fun heq => ?_) fun hne => hne hhead
    have hpos : 0 < h.length := length_pos_iff.2 (ne_nil_of_mem (mem_of_head? hhead))
    have hlength := congrArg length heq
    rw [length_dropLast,length_drop] at hlength
    omega
  · exact iff_of_true rfl hhead

lemma makePort_makePort (port : Option ℤ) (scheme : Text) :
    makePort (makePort port scheme) scheme = makePort port scheme := by
  unfold makePort
  split_ifs <;> simp

end Getters

/-- The host of a reference is not an address in brackets, and if the path of the reference is not
resolved against the base, it does not climb above its first segment. -/
def Resolvable (reference : Uri) : Prop :=
  (∀ h, reference._host = some h → h.head? ≠ some charLeftBracket) ∧
    (reference.scheme ≠ [] ∨ reference._host ≠ none → losesRoot reference.path = false)

section Cases

variable {base reference : Uri} {h : Text}

/-- The components of the URI a reference is resolved to, but for a default port. -/
def resolved (base reference : Uri) : Reference :=
  withoutDefaultPort (components (resolveUri base reference))

/-- The components the RFC gives, but for a default port. -/
def transformed (base reference : Uri) : Reference :=
  withoutDefaultPort (transform (components base) (components reference))

lemma resolved_scheme (hs : reference.scheme ≠ []) : resolved base reference =
      transformed base reference ↔ reference._host.map (fun _ => reference.host) = reference._host ∧
      losesRoot reference.path = false := by
  rw [← removeDotSegments_eq_rfc_iff]
  cases hh : reference._host with
  | none =>
    simp [resolved,transformed,withoutDefaultPort,components,resolveUri,transform,
      hasAuthority,hs,hh,some_query,some_fragment]
  | some h =>
    simp [resolved,transformed,withoutDefaultPort,components,resolveUri,transform,
      hasAuthority,hs,hh,some_query,some_fragment,some_port]

lemma resolved_authority (hscheme : base.scheme ≠ []) (hs : reference.scheme = [])
    (hh : reference._host = some h) : resolved base reference = transformed base reference ↔
      reference.host = h ∧ losesRoot reference.path = false := by
  rw [← removeDotSegments_eq_rfc_iff]
  simp [resolved,transformed,withoutDefaultPort,components,resolveUri,transform,
    hasAuthority,hscheme,hs,hh,some_query,some_fragment,
    some_port,makePort_makePort]

lemma resolved_path (hauthority : base._host ≠ none)
    (hpath : base.path = [] ∨ base.path.head? = some charSlash) (hs : reference.scheme = [])
    (hh : reference._host = none) : resolved base reference = transformed base reference := by
  by_cases hempty : reference.path = []
  · simp [resolved,transformed,components,resolveUri,
      transform,hasAuthority,hs,hh,query_or,some_fragment,hempty]
  by_cases hslash : reference.path.head? = some charSlash
  · have hremove := (removeDotSegments_eq_rfc_iff _).2 (losesRoot_of_head hslash)
    simp [resolved,transformed,components,resolveUri,
      transform,hasAuthority,hs,hh,some_query,some_fragment,hempty,hslash,
      hremove]
  · have hsome : (components base).authority.isSome := by
      simpa [components,Option.isSome_iff_ne_none] using hauthority
    have hremove : removeDotSegments (merge base.path reference.path) = _ :=
      removeDotSegments_merge hsome hpath reference.path
    simp [resolved,transformed,components,resolveUri,
      transform,hasAuthority,hs,hh,some_query,some_fragment,hempty,hslash,
      hremove]

end Cases

/-- A reference is resolved as the RFC says, up to a default port, exactly when it is resolvable. -/
theorem resolveUri_follows_iff (base reference : Uri) (hscheme : base.scheme ≠ [])
    (hauthority : base._host ≠ none) (hpath : base.path = [] ∨ base.path.head? = some charSlash) :
    withoutDefaultPort (components (resolveUri base reference)) =
        withoutDefaultPort (transform (components base) (components reference)) ↔
      Resolvable reference := by
  change resolved base reference = transformed base reference ↔ _
  unfold Resolvable
  by_cases hs : reference.scheme = []
  · cases hh : reference._host with
    | none =>
      refine iff_of_true (resolved_path hauthority hpath hs hh) ⟨nofun,?_⟩
      rintro (h | h)
      · exact absurd hs h
      · exact absurd rfl h
    | some h => simp [resolved_authority hscheme hs hh,host_eq_iff hh]
  · cases hh : reference._host with
    | none => simp [resolved_scheme hs,hh,hs]
    | some h => simp [resolved_scheme hs,hh,host_eq_iff hh]

/-- `http://h/a/b`. -/
def sampleBase : Uri := ⟨http,[],some [0x68],none,[0x2F,0x61,0x2F,0x62],none,none⟩

/-- `../c?q`. -/
def sampleReference : Uri := ⟨[],[],none,none,[0x2E,0x2E,0x2F,0x63],some [0x71],none⟩

theorem resolveUri_follows_sample :
    withoutDefaultPort (components (resolveUri sampleBase sampleReference)) =
      withoutDefaultPort
        (transform (components sampleBase) (components sampleReference)) :=
  (resolveUri_follows_iff sampleBase sampleReference (by decide) (by decide) (by decide)).2
    ⟨nofun,by rintro (h | h) <;> exact absurd rfl h⟩

/-- `x:a/../b` is resolved to the path `b` and not to `/b`, and `//[::]` to the host `::`. -/
theorem resolveUri_climbs :
    (resolveUri sampleBase ⟨[0x78],[],none,none,[0x61,0x2F,0x2E,0x2E,0x2F,0x62],none,none⟩).path =
        [0x62] ∧
      (transform (components sampleBase) (components
        ⟨[0x78],[],none,none,[0x61,0x2F,0x2E,0x2E,0x2F,0x62],none,none⟩)).path =
        [0x2F,0x62] ∧
      (resolveUri sampleBase ⟨[],[],some [0x5B,0x3A,0x3A,0x5D],none,[],none,none⟩)._host =
        some [0x3A,0x3A] := by
  decide

end DartSdk.Uri
