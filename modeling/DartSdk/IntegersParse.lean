import DartSdk.Positional

/-! Model of `int.parse` in `runtime/lib/integers_patch.dart` and of `toString` on integers. Digits
are read in blocks there, which is one fold here. -/
namespace DartSdk.IntParse
open List Numeral

def isWhitespace (c : ℕ) : Bool :=
  if c ≤ 32 then c == 32 || (decide (c ≤ 13) && decide (9 ≤ c))
  else if c < 0x85 then false
  else if c == 0x85 || c == 0xA0 then true
  else if c ≤ 0x200A then c == 0x1680 || c == 0x180E || decide (0x2000 ≤ c)
  else c == 0x2028 || c == 0x2029 || c == 0x202F || c == 0x205F || c == 0x3000 || c == 0xFEFF

/-- A digit as `_parseBlock` reads it. -/
def digit (radix c : ℕ) : Option ℕ :=
  let d := c ^^^ 0x30
  if radix ≤ 10 then if d ≥ radix then none else some d
  else if d > 9 then
    let d : ℤ := (c ||| 0x20 : ℕ)-(0x61-10)
    if d < 10 ∨ d ≥ radix then none else some d.toNat
  else some d

def parseRadix (radix : ℕ) (s : List ℕ) : Option ℕ :=
  s.foldlM (fun n c => (digit radix c).map (radix*n+·)) 0

/-- The sign of a text and what follows. -/
def splitSign : List ℕ → ℤ × List ℕ
  | 0x2B :: s => (1,s)
  | 0x2D :: s => (-1,s)
  | s => (1,s)

variable (source : List ℕ)

/-- `_tryParseSmi` where small integers have 64 bits. -/
def tryParseSmi : Option ℤ :=
  let (sign,s) := splitSign source
  if s.isEmpty then none
  else if s.length-1 ≥ 18 then none
  else (parseRadix 10 s).map fun n : ℕ => sign*(n : ℤ)

/-- `_parse` after the white space has been cut off. -/
def parseTrimmed : Option ℤ :=
  let (sign,s) := splitSign source
  match s with
  | [] => none
  | [0x30] => some 0
  | 0x30 :: c :: rest =>
    if c ||| 0x20 = 0x78 then
      if rest.isEmpty then none else (parseRadix 16 rest).map fun n : ℕ => sign*(n : ℤ)
    else (parseRadix 10 s).map fun n : ℕ => sign*(n : ℤ)
  | s => (parseRadix 10 s).map fun n : ℕ => sign*(n : ℤ)

def trim (s : List ℕ) : List ℕ := (s.dropWhile isWhitespace).rdropWhile isWhitespace

/-- `int.parse` with a radix other than ten, where a `FormatException` is `none`. -/
def parseInRadix (radix : ℕ) (source : List ℕ) : Option ℤ :=
  let (sign,s) := splitSign (trim source)
  if s.isEmpty then none else (parseRadix radix s).map fun n : ℕ => sign*(n : ℤ)

/-- `int.parse` without a radix, where a `FormatException` is `none`. -/
def parse : Option ℤ :=
  if source.isEmpty then none
  else (tryParseSmi source).orElse fun _ => parseTrimmed (trim source)

def decimal (n : ℤ) : List ℕ :=
  (if n < 0 then [0x2D] else []) ++ (Numeral.digits 10 n.natAbs).map (·+0x30)

/-- The number that a text of digits stands for. -/
def Denotes (s : List ℕ) (n : ℕ) : Prop :=
  s ≠ [] ∧ (∀ c ∈ s, 0x30 ≤ c ∧ c ≤ 0x39) ∧ Numeral.number 10 (s.map (·-0x30)) = n

lemma denotes_decimal (n : ℕ) : Denotes (decimal n) n := by
  have htext : decimal n = (digits 10 n).map (·+0x30) := by
    rw [decimal,if_neg (by omega),nil_append,Int.natAbs_natCast]
  rw [htext]
  refine ⟨?_,?_,?_⟩
  · rw [Ne,map_eq_nil_iff]
    exact digits_ne_nil
  · intro c hc
    obtain ⟨d,hd,rfl⟩ := mem_map.1 hc
    have hlt := digits_lt (by norm_num) d hd
    exact ⟨by omega,by omega⟩
  · rw [map_map]
    have hid : ((·-0x30) ∘ (·+0x30) : ℕ → ℕ) = id := by
      funext d
      exact Nat.add_sub_cancel d 0x30
    rw [hid,map_id]
    exact number_digits

lemma Denotes.unique {s : List ℕ} {m n : ℕ} (hm : Denotes s m) (hn : Denotes s n) : m = n :=
  hm.2.2.symm.trans hn.2.2

lemma digit_ten {c : ℕ} (hc : 0x30 ≤ c ∧ c ≤ 0x39) : digit 10 c = some (c-0x30) := by
  obtain ⟨h0,h1⟩ := hc
  interval_cases c <;> rfl

lemma parseRadix_ten {s : List ℕ} (hs : ∀ c ∈ s, 0x30 ≤ c ∧ c ≤ 0x39) :
    parseRadix 10 s = some (number 10 (s.map (·-0x30))) := by
  induction s using reverseRecOn with
  | nil => rfl
  | append_singleton s c ih =>
    have hhead := ih fun d hd => hs d (mem_append_left _ hd)
    have hlast := digit_ten (hs c (by simp))
    unfold parseRadix at hhead ⊢
    rw [foldlM_append,hhead,map_append,number_append]
    simp [hlast,Nat.mul_comm,number_cons]

lemma splitSign_digits {s : List ℕ} (hs : ∀ c ∈ s, 0x30 ≤ c ∧ c ≤ 0x39) : splitSign s = (1,s) := by
  unfold splitSign
  split
  · have h := hs 0x2B (by simp)
    omega
  · have h := hs 0x2D (by simp)
    omega
  · rfl

lemma not_isWhitespace_digit {c : ℕ} (hc : 0x30 ≤ c ∧ c ≤ 0x39) : isWhitespace c = false := by
  rw [isWhitespace,if_neg (by omega),if_pos (by omega)]

lemma trim_digits {s : List ℕ} (hs : ∀ c ∈ s, 0x30 ≤ c ∧ c ≤ 0x39) : trim s = s := by
  have hfirst : s.dropWhile isWhitespace = s := by
    cases s with
    | nil => rfl
    | cons c s => rw [dropWhile_cons_of_neg (by simp [not_isWhitespace_digit (hs c (by simp))])]
  rw [trim,hfirst,rdropWhile_eq_self_iff]
  intro hne
  simp [not_isWhitespace_digit (hs _ (getLast_mem hne))]

lemma parseTrimmed_digits {s : List ℕ} (hne : s ≠ []) (hs : ∀ c ∈ s, 0x30 ≤ c ∧ c ≤ 0x39) :
    parseTrimmed s = some (number 10 (s.map (·-0x30)) : ℤ) := by
  have hradix : ((parseRadix 10 s).map fun n : ℕ => (1 : ℤ)*(n : ℤ)) =
      some (number 10 (s.map (·-0x30)) : ℤ) := by
    rw [parseRadix_ten hs,Option.map_some,one_mul]
  unfold parseTrimmed
  rw [splitSign_digits hs]
  dsimp only
  split
  · exact absurd rfl hne
  · rfl
  · rename_i c rest
    have hc := hs c (by simp)
    have hmark : c ||| 0x20 ≠ 0x78 := by
      obtain ⟨h0,h1⟩ := hc
      interval_cases c <;> decide
    rw [if_neg hmark]
    exact hradix
  · exact hradix

lemma parse_digits {s : List ℕ} {n : ℕ} (h : Denotes s n) : parse s = some (n : ℤ) := by
  obtain ⟨hne,hs,rfl⟩ := h
  have hempty : ¬s.isEmpty = true := by rwa [List.isEmpty_iff]
  rw [parse,if_neg hempty,trim_digits hs,parseTrimmed_digits hne hs]
  unfold tryParseSmi
  rw [splitSign_digits hs]
  dsimp only
  rw [if_neg hempty]
  split_ifs with hlong
  · rfl
  · rw [parseRadix_ten hs,Option.map_some,one_mul]
    rfl

end DartSdk.IntParse
