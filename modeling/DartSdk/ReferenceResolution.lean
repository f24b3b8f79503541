import Mathlib.Data.Int.Notation
import Mathlib.Data.List.Basic

/-! The transformation of references of RFC 3986, section 5.2, on references given by their
components, and what its removal of dot segments does to a path. -/
namespace DartSdk.ReferenceResolution
open List

abbrev Text := List ℕ

abbrev slash : ℕ := 0x2F

abbrev dot : ℕ := 0x2E

@[ext]
structure Authority where
  userInfo : Text
  host : Text
  port : Option ℤ

@[ext]
structure Reference where
  scheme : Option Text
  authority : Option Authority
  path : Text
  query : Option Text
  fragment : Option Text

/-- What is left of an output buffer without its last segment and the slash before it. -/
def dropLastSegment (output : Text) : Text :=
  ((output.reverse.dropWhile (· != slash)).drop 1).reverse

/-- One round of the algorithm of section 5.2.4. -/
def rewriteStep (input output : Text) : Text × Text :=
  if [dot,dot,slash] <+: input then (input.drop 3,output)
  else if [dot,slash] <+: input then (input.drop 2,output)
  else if [slash,dot,slash] <+: input then (input.drop 2,output)
  else if input = [slash,dot] then ([slash],output)
  else if [slash,dot,dot,slash] <+: input then (input.drop 3,dropLastSegment output)
  else if input = [slash,dot,dot] then ([slash],dropLastSegment output)
  else if input = [dot] ∨ input = [dot,dot] then ([],output)
  else
    let first := input.take 1 ++ (input.drop 1).takeWhile (· != slash)
    (input.drop first.length,output ++ first)

/-- Rounds until the input buffer is empty. -/
def rewriteLoop : ℕ → Text → Text → Text
  | 0, _, output => output
  | fuel+1, input, output =>
    if input = [] then output
    else rewriteLoop fuel (rewriteStep input output).1 (rewriteStep input output).2

/-- Every round makes the input buffer shorter. -/
def removeDotSegments (path : Text) : Text :=
  rewriteLoop path.length path []

/-- The merge of section 5.2.3. -/
def mergePaths (base : Reference) (reference : Text) : Text :=
  if base.authority.isSome ∧ base.path = [] then slash :: reference
  else (base.path.reverse.dropWhile (· != slash)).reverse ++ reference

/-- Section 5.2.2. -/
def transform (base reference : Reference) : Reference :=
  match reference.scheme with
  | some scheme =>
    { scheme := some scheme
      authority := reference.authority
      path := removeDotSegments reference.path
      query := reference.query
      fragment := reference.fragment }
  | none =>
    match reference.authority with
    | some authority =>
      { scheme := base.scheme
        authority := some authority
        path := removeDotSegments reference.path
        query := reference.query
        fragment := reference.fragment }
    | none =>
      if reference.path = [] then
        { scheme := base.scheme
          authority := base.authority
          path := base.path
          query := reference.query.or base.query
          fragment := reference.fragment }
      else
        { scheme := base.scheme
          authority := base.authority
          path :=
            if reference.path.head? = some slash then removeDotSegments reference.path
            else removeDotSegments (mergePaths base reference.path)
          query := reference.query
          fragment := reference.fragment }

abbrev Segment := Text

def Whole (segment : Segment) : Prop := slash ∉ segment

def slashed (segments : List Segment) : Text := segments.flatMap (slash :: ·)

def joined : List Segment → Text
  | [] => []
  | segment :: segments => segment ++ slashed segments

variable {segment : Segment} {segments out : List Segment} {input output : Text}

@[simp] lemma slashed_nil : slashed [] = [] := rfl

@[simp] lemma slashed_cons : slashed (segment :: segments) = slash :: (segment ++ slashed segments) :=
  rfl

@[simp] lemma slashed_append : slashed (segments ++ out) = slashed segments ++ slashed out :=
  flatMap_append

lemma joined_append (h : segments ≠ []) : joined (segments ++ out) = joined segments ++ slashed out := by
  cases segments with
  | nil => exact absurd rfl h
  | cons segment segments => simp [joined]

lemma slashed_eq_slash_joined (h : segments ≠ []) : slashed segments = slash :: joined segments := by
  cases segments with
  | nil => exact absurd rfl h
  | cons segment segments => rfl

lemma dropLastSegment_of_whole (h : Whole segment) : dropLastSegment segment = [] := by
  have hall : ∀ c ∈ segment.reverse, (c != slash) = true := by
    intro c hc
    exact bne_iff_ne.2 fun heq => h (heq ▸ mem_reverse.1 hc)
  have hnil : (segment.reverse ++ []).dropWhile (· != slash) = [] := dropWhile_append_of_pos hall
  rw [append_nil] at hnil
  rw [dropLastSegment,hnil]
  rfl

lemma dropLastSegment_append (h : Whole segment) :
    dropLastSegment (output ++ slash :: segment) = output := by
  have hall : ∀ c ∈ segment.reverse, (c != slash) = true := by
    intro c hc
    exact bne_iff_ne.2 fun heq => h (heq ▸ mem_reverse.1 hc)
  rw [dropLastSegment,reverse_append,reverse_cons,append_assoc,dropWhile_append_of_pos hall]
  simp

lemma takeWhile_whole (h : Whole segment) :
    (segment ++ slashed segments).takeWhile (· != slash) = segment := by
  have hall : ∀ c ∈ segment, (c != slash) = true := fun c hc =>
    bne_iff_ne.2 fun heq => h (heq ▸ hc)
  rw [takeWhile_append_of_pos hall]
  cases segments <;> simp

lemma rewriteLoop_nil (fuel : ℕ) : rewriteLoop fuel [] output = output := by
  cases fuel <;> simp [rewriteLoop]

lemma rewriteLoop_succ {fuel : ℕ} (h : input ≠ []) : rewriteLoop (fuel+1) input output =
    rewriteLoop fuel (rewriteStep input output).1 (rewriteStep input output).2 := by
  rw [rewriteLoop,if_neg h]

lemma append_slash_prefix_iff {a : Segment} (ha : Whole a) (hw : Whole segment) :
    a ++ [slash] <+: segment ++ slashed segments ↔ segment = a ∧ segments ≠ [] := by
  constructor
  · rintro ⟨t,ht⟩
    have htake := congrArg (takeWhile (· != slash)) ht
    have hleft : (a ++ slashed [t]).takeWhile (· != slash) = a := takeWhile_whole ha
    rw [slashed_cons,slashed_nil,append_nil] at hleft
    rw [append_assoc,singleton_append] at htake
    rw [hleft,takeWhile_whole hw] at htake
    refine ⟨htake.symm,?_⟩
    rintro rfl
    have hlength := congrArg length ht
    simp [htake] at hlength
  · rintro ⟨rfl,hne⟩
    rw [slashed_eq_slash_joined hne]
    exact ⟨joined segments,by simp⟩

lemma append_slashed_eq_iff {a : Segment} (ha : Whole a) (hw : Whole segment) :
    segment ++ slashed segments = a ↔ segment = a ∧ segments = [] := by
  constructor
  · intro heq
    have htake := congrArg (takeWhile (· != slash)) heq
    have ha' : (a ++ slashed []).takeWhile (· != slash) = a := takeWhile_whole ha
    rw [slashed_nil,append_nil] at ha'
    rw [takeWhile_whole hw,ha'] at htake
    refine ⟨htake,?_⟩
    cases segments with
    | nil => rfl
    | cons t ts =>
      have hlength := congrArg length heq
      simp [htake] at hlength
  · rintro ⟨rfl,rfl⟩
    simp

lemma whole_dot : Whole [dot] := by
  unfold Whole
  decide

lemma whole_up : Whole [dot,dot] := by
  unfold Whole
  decide

lemma not_dot_start (hw : Whole segment) (hdot : segment ≠ [dot]) (hup : segment ≠ [dot,dot])
    (segments : List Segment) :
    ¬ [dot,slash] <+: segment ++ slashed segments ∧ ¬ [dot,dot,slash] <+: segment ++ slashed segments ∧
      segment ++ slashed segments ≠ [dot] ∧ segment ++ slashed segments ≠ [dot,dot] :=
  ⟨fun h => hdot ((append_slash_prefix_iff whole_dot hw).1 h).1,
    fun h => hup ((append_slash_prefix_iff whole_up hw).1 h).1,
    fun h => hdot ((append_slashed_eq_iff whole_dot hw).1 h).1,
    fun h => hup ((append_slashed_eq_iff whole_up hw).1 h).1⟩

section Rounds

lemma not_prefix_slash {c : ℕ} {rest t : Text} (hc : c ≠ slash) : ¬ c :: rest <+: slash :: t := by
  rw [cons_prefix_cons]
  exact fun h => hc h.1

/-- A segment that is not a dot segment moves to the output. -/
lemma rewriteStep_slashed (hw : Whole segment) (hdot : segment ≠ [dot]) (hup : segment ≠ [dot,dot]) :
    rewriteStep (slashed (segment :: segments)) output =
      (slashed segments,output ++ slash :: segment) := by
  obtain ⟨hp1,hp2,he1,he2⟩ := not_dot_start hw hdot hup segments
  rw [rewriteStep,slashed_cons,if_neg (not_prefix_slash (by decide)),
    if_neg (not_prefix_slash (by decide)),if_neg (by simpa using hp1),
    if_neg (by simpa using he1),if_neg (by simpa using hp2),
    if_neg (by simpa using he2),if_neg (by simp)]
  simp [takeWhile_whole hw]

lemma rewriteStep_dot_last : rewriteStep (slashed [[dot]]) output = (slashed [[]],output) := rfl

variable (h : segments ≠ [])
include h

lemma rewriteStep_dot :
    rewriteStep (slashed ([dot] :: segments)) output = (slashed segments,output) := by
  rw [slashed_cons,slashed_eq_slash_joined h]
  rfl

omit h in
lemma rewriteStep_up_last :
    rewriteStep (slashed [[dot,dot]]) output = (slashed [[]],dropLastSegment output) := rfl

lemma rewriteStep_up : rewriteStep (slashed ([dot,dot] :: segments)) output =
      (slashed segments,dropLastSegment output) := by
  rw [slashed_cons,slashed_eq_slash_joined h]
  rfl

lemma rewriteStep_start_dot :
    rewriteStep (joined ([dot] :: segments)) output = (joined segments,output) := by
  rw [joined,slashed_eq_slash_joined h]
  rfl

lemma rewriteStep_start_up :
    rewriteStep (joined ([dot,dot] :: segments)) output = (joined segments,output) := by
  rw [joined,slashed_eq_slash_joined h]
  rfl

omit h

lemma rewriteStep_start (hw : Whole segment) (hne : segment ≠ []) (hdot : segment ≠ [dot])
    (hup : segment ≠ [dot,dot]) :
    rewriteStep (joined (segment :: segments)) output = (slashed segments,output ++ segment) := by
  obtain ⟨hp1,hp2,he1,he2⟩ := not_dot_start hw hdot hup segments
  obtain ⟨c,rest,rfl⟩ := exists_cons_of_ne_nil hne
  have hc : slash ≠ c := fun heq => hw (heq ▸ mem_cons_self)
  have hrest : Whole rest := fun h => hw (mem_cons_of_mem c h)
  have hslash : ∀ t : Text, ¬ slash :: t <+: c :: rest ++ slashed segments := by
    intro t h
    exact hc (cons_prefix_cons.1 h).1
  rw [joined,rewriteStep,if_neg hp2,if_neg hp1,if_neg (hslash _),if_neg (by simp [hc.symm]),
    if_neg (hslash _),if_neg (by simp [hc.symm]),if_neg (not_or.2 ⟨he1,he2⟩)]
  simp [takeWhile_whole hrest]

end Rounds

lemma whole_of_mem_splitOn {path : Text} (h : segment ∈ path.splitOn slash) : Whole segment := by
  induction path generalizing segment with
  | nil =>
    obtain rfl := mem_singleton.1 h
    exact not_mem_nil
  | cons c path ih =>
    rw [splitOn_cons_eq_if_modifyHead] at h
    split_ifs at h with hc
    · obtain rfl | h := mem_cons.1 h
      · exact not_mem_nil
      · exact ih h
    · obtain ⟨first,rest,hsplit⟩ := exists_cons_of_ne_nil (splitOn_ne_nil slash path)
      rw [hsplit] at h ih
      obtain rfl | h := mem_cons.1 h
      · intro hmem
        obtain rfl | hmem := mem_cons.1 hmem
        · exact hc (beq_self_eq_true slash)
        · exact ih mem_cons_self hmem
      · exact ih (mem_cons_of_mem first h)

lemma joined_eq_intercalate : joined segments = [slash].intercalate segments := by
  induction segments with
  | nil => rfl
  | cons segment segments ih =>
    cases segments with
    | nil => simp [joined]
    | cons next segments =>
      rw [intercalate_cons_cons,← ih]
      simp [joined]

lemma joined_splitOn (path : Text) : joined (path.splitOn slash) = path := by
  rw [joined_eq_intercalate,intercalate_splitOn]

end DartSdk.ReferenceResolution
