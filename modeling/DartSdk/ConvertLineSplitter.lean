import Mathlib

/-! Model of `LineSplitter` and `_LineSplitterSink` in `sdk/lib/convert/line_splitter.dart`. A text is
a list of code units, and the positions `start` and `pos` are kept as the text between them and the
text after them. -/
namespace DartSdk.Convert.LineSplitter
open List

abbrev Text := List ℕ

def kLF : ℕ := 10

def kCR : ℕ := 13

/-- The loop of `_addSlice`: the lines that are added and the text that is returned. -/
def scan (isLast : Bool) (line : Text) : Text → List Text × Option Text
  | [] =>
    if line = [] then ([],none) else if isLast then ([line],none) else ([],some line)
  | char :: rest =>
    if char = kLF then
      let (lines,carry) := scan isLast [] rest
      (line :: lines,carry)
    else if char = kCR then
      match rest with
      | [] => if isLast then ([line],none) else ([],some (line ++ [char]))
      | next :: rest' =>
        let (lines,carry) := if next = kLF then scan isLast [] rest' else scan isLast [] (next :: rest')
        (line :: lines,carry)
    else scan isLast (line ++ [char]) rest

def addSlice (chunk : Text) (isLast : Bool) : List Text × Option Text := scan isLast [] chunk

def convert (data : Text) : List Text := (addSlice data true).1

/-- A slice after the text that was carried over; the lines go to the sink. -/
def sinkAddSlice (carry : Option Text) (slice : Text) (isLast : Bool) : List Text × Option Text :=
  addSlice (carry.getD [] ++ slice) isLast

/-- The lines that slices and a `close` add. -/
def sinkLines (carry : Option Text) : List Text → List Text
  | [] => (sinkAddSlice carry [] true).1
  | slice :: slices =>
    let (lines,carry) := sinkAddSlice carry slice false
    lines ++ sinkLines carry slices

/-- The segments of a text between LF, CR and CRLF, without a last one that is empty. -/
inductive Lines : Text → List Text → Prop
  | nil : Lines [] []
  | last {line : Text} : line ≠ [] → kLF ∉ line → kCR ∉ line → Lines line [line]
  | lf {line rest : Text} {lines : List Text} : kLF ∉ line → kCR ∉ line → Lines rest lines →
      Lines (line ++ kLF :: rest) (line :: lines)
  | cr {line rest : Text} {lines : List Text} : kLF ∉ line → kCR ∉ line → rest.head? ≠ some kLF →
      Lines rest lines → Lines (line ++ kCR :: rest) (line :: lines)
  | crlf {line rest : Text} {lines : List Text} : kLF ∉ line → kCR ∉ line → Lines rest lines →
      Lines (line ++ kCR :: kLF :: rest) (line :: lines)

/-- A character that ends no line. -/
def Plain (char : ℕ) : Prop := char ≠ kLF ∧ char ≠ kCR

lemma plain_append {line : Text} {char : ℕ} (hline : ∀ c ∈ line, Plain c) (hlf : ¬ char = kLF)
    (hcr : ¬ char = kCR) : ∀ c ∈ line ++ [char], Plain c := by
  simpa [or_imp,forall_and] using ⟨hline,hlf,hcr⟩

lemma scan_lines (line text : Text) (hline : ∀ c ∈ line, Plain c) :
    Lines (line ++ text) (scan true line text).1 := by
  have hlf : kLF ∉ line := fun h => (hline _ h).1 rfl
  have hcr : kCR ∉ line := fun h => (hline _ h).2 rfl
  fun_induction scan true line text with
  | case1 => exact .nil
  | case2 line hne => simpa using Lines.last hne hlf hcr
  | case3 _ _ h => exact absurd rfl h
  | case4 line rest lines carry hscan ih =>
    rw [hscan] at ih
    exact .lf hlf hcr (ih (by simp) (by simp) (by simp))
  | case5 line => exact .cr hlf hcr (by simp) .nil
  | case6 _ h => exact absurd rfl h
  | case7 line next rest lines carry hscan _ ihlf ih =>
    by_cases hnext : next = kLF
    · subst hnext
      rw [if_pos rfl] at hscan
      rw [hscan] at ihlf
      exact .crlf hlf hcr (ihlf (by simp) (by simp) (by simp))
    · rw [if_neg hnext] at hscan
      rw [hscan] at ih
      exact .cr hlf hcr (by simpa using hnext) (ih (by simp) (by simp) (by simp))
  | case8 line char rest hchar hchar' ih =>
    have hplain := plain_append hline hchar hchar'
    simpa using ih hplain (fun h => (hplain _ h).1 rfl) (fun h => (hplain _ h).2 rfl)

variable (isLast : Bool)

lemma scan_plain (line rest : Text) {c : ℕ} (hlf : ¬ c = kLF) (hcr : ¬ c = kCR) :
    scan isLast line (c :: rest) = scan isLast (line ++ [c]) rest := by
  rw [scan.eq_def]
  simp [hlf,hcr]

lemma scan_lf (line rest : Text) : scan isLast line (kLF :: rest) =
    (line :: (scan isLast [] rest).1,(scan isLast [] rest).2) := by
  rw [scan.eq_def]
  simp

lemma scan_append (line before text : Text) (hline : ∀ c ∈ line, Plain c) :
    scan isLast before (line ++ text) = scan isLast (before ++ line) text := by
  induction line generalizing before with
  | nil => simp
  | cons c line ih =>
    obtain ⟨hlf,hcr⟩ := hline c mem_cons_self
    rw [cons_append,scan_plain isLast before _ hlf hcr,ih _ fun d hd => hline d (mem_cons_of_mem c hd)]
    simp

/-- What is carried over from a slice is scanned again in front of the next one. -/
lemma scan_resume (line text more : Text) (hline : ∀ c ∈ line, Plain c) :
    (scan true line (text ++ more)).1 = (scan false line text).1 ++
      (scan true [] ((scan false line text).2.getD [] ++ more)).1 := by
  have hcarry (rest : Text) : scan true [] (line ++ rest) = scan true line rest :=
    scan_append true line [] rest hline
  fun_induction scan false line text with
  | case1 => simp
  | case2 _ _ h => cases h
  | case3 line => simp [hcarry]
  | case4 line rest lines carry hscan ih =>
    rw [hscan] at ih
    rw [cons_append,scan_lf,ih (by simp) (by simp)]
    rfl
  | case5 _ h => cases h
  | case6 line => simp [hcarry]
  | case7 line next rest lines carry hscan hne ihlf ih =>
    by_cases hnext : next = kLF
    · rw [if_pos hnext] at hscan
      rw [hscan] at ihlf
      simp [scan,hnext,hne,ihlf]
    · rw [if_neg hnext] at hscan
      rw [hscan,cons_append] at ih
      rw [cons_append,cons_append,scan,if_neg hne,if_pos rfl]
      simp [hnext,ih]
  | case8 line char rest hchar hchar' ih =>
    have hplain := plain_append hline hchar hchar'
    rw [cons_append,scan_plain true line _ hchar hchar']
    exact ih hplain fun rest => scan_append true _ [] rest hplain

lemma sinkLines_eq (carry : Option Text) (slices : List Text) :
    sinkLines carry slices = convert (carry.getD [] ++ slices.flatten) := by
  induction slices generalizing carry with
  | nil => rfl
  | cons slice slices ih =>
    change (sinkAddSlice carry slice false).1 ++ sinkLines (sinkAddSlice carry slice false).2 slices = _
    rw [ih,flatten_cons,← append_assoc]
    exact (scan_resume [] _ _ (by simp)).symm

/-- However a text is cut into slices, the sink adds the lines of the whole text, which are its
segments between line ends. -/
theorem chunks_independent (slices : List Text) : sinkLines none slices = convert slices.flatten ∧
    Lines slices.flatten (convert slices.flatten) :=
  ⟨sinkLines_eq none slices,scan_lines [] _ (by simp)⟩

lemma convert_of_lines {text : Text} {lines : List Text} (h : Lines text lines) :
    convert text = lines := by
  have hstart : ∀ {line : Text}, kLF ∉ line → kCR ∉ line → ∀ rest,
      convert (line ++ rest) = (scan true line rest).1 := fun hlf hcr rest =>
    congrArg Prod.fst (scan_append true _ [] rest fun c hc =>
      ⟨fun h => hlf (h ▸ hc),fun h => hcr (h ▸ hc)⟩)
  induction h with
  | nil => rfl
  | @last line hne hlf hcr => simpa [scan,hne] using hstart hlf hcr []
  | lf hlf hcr _ ih => rw [hstart hlf hcr,scan_lf,← ih,convert,addSlice]
  | @cr _ rest _ hlf hcr hrest _ ih =>
    rw [hstart hlf hcr,← ih]
    cases rest <;> simp_all [scan,convert,addSlice,kLF,kCR]
  | crlf hlf hcr _ ih =>
    rw [hstart hlf hcr,← ih]
    simp [scan,convert,addSlice,kLF,kCR]

/-- Lines that are sent with any line ends between them, in any slices, are found again, and no
others are. -/
theorem sinkLines_eq_iff (slices lines : List Text) :
    sinkLines none slices = lines ↔ Lines slices.flatten lines := by
  rw [sinkLines_eq,Option.getD_none,nil_append]
  exact ⟨fun h => h ▸ scan_lines [] _ (by simp),convert_of_lines⟩

end DartSdk.Convert.LineSplitter
