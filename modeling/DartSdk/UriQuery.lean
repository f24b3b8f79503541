import DartSdk.UriComponentExact
import Mathlib.Data.Finset.Max

/-! `splitQueryString` reads the query of a map of parameters back, when no key and no value starts
with a byte order mark. -/
namespace DartSdk.Uri

open Outcome (ok_bind)
open DartSdk.RuneEncoding List Function
open DartSdk.Convert (codeUnits codeUnits_le head?_codeUnits)

def parameter (entry : Text × Text) : Text :=
  encoded unreservedTable true entry.1 ++
    if entry.2.isEmpty then [] else charEqual :: encoded unreservedTable true entry.2

def Wide (entry : Text × Text) : Prop :=
  (∀ u ∈ entry.1, u ≤ 0xFFFF) ∧ ∀ u ∈ entry.2, u ≤ 0xFFFF

variable {entry : Text × Text} {entries : List (Text × Text)}

lemma encodeQueryComponent_eq {s : Text} (hs : ∀ u ∈ s, u ≤ 0xFFFF) :
    encodeQueryComponent s = .ok (encoded unreservedTable true s) :=
  uriEncode_eq hs

lemma writeParameter_eq (hw : Wide entry) (first : Bool) (result : Text) :
    writeParameter (first,result) entry =
      .ok (false,result ++ (if first then [] else [charAmpersand]) ++ parameter entry) := by
  unfold writeParameter parameter
  rw [encodeQueryComponent_eq hw.1,ok_bind]
  split_ifs
  all_goals simp [encodeQueryComponent_eq hw.2,Except.pure,pure,Outcome.ok_bind]

lemma foldlM_writeParameter (hw : ∀ e ∈ entries, Wide e) (result : Text) :
    entries.foldlM writeParameter (false,result) =
      .ok (false,result ++ (entries.map parameter).flatMap (charAmpersand :: ·)) := by
  induction entries generalizing result with
  | nil => simp [pure,Except.pure]
  | cons entry entries ih =>
    rw [foldlM_cons,writeParameter_eq (hw entry mem_cons_self),ok_bind,
      ih fun e he => hw e (mem_cons_of_mem entry he)]
    simp

lemma intercalate_singleton_cons (a : ℕ) (x : Text) (xs : List Text) :
    [a].intercalate (x :: xs) = x ++ xs.flatMap (a :: ·) := by
  induction xs generalizing x with
  | nil => simp
  | cons y xs ih =>
    rw [intercalate_cons_cons,ih]
    simp

lemma makeQuery_eq (hw : ∀ e ∈ entries, Wide e) :
    makeQuery entries = .ok ([charAmpersand].intercalate (entries.map parameter)) := by
  unfold makeQuery
  cases entries with
  | nil => rfl
  | cons entry entries =>
    rw [foldlM_cons,writeParameter_eq (hw entry mem_cons_self),ok_bind,
      foldlM_writeParameter fun e he => hw e (mem_cons_of_mem entry he),ok_bind,map_cons,
      intercalate_singleton_cons]
    simp [pure,Except.pure]

lemma encoded_ne_nil {table : List ℕ} {flag : Bool} {s : Text} (hs : ∀ u ∈ s, u ≤ 0xFFFF)
    (hne : s ≠ []) : encoded table flag s ≠ [] := by
  intro hnil
  have hbytes : (runes s).flatMap bytes = [] := by
    rw [encoded,flatMap_eq_nil_iff] at hnil
    refine eq_nil_iff_forall_not_mem.2 fun b hb => ?_
    have hb' := hnil b hb
    unfold encodeByte at hb'
    split_ifs at hb'
  have hrunes : runes s = [] := by
    rw [flatMap_eq_nil_iff] at hbytes
    exact eq_nil_iff_forall_not_mem.2 fun r hr => bytes_ne_nil r (hbytes r hr)
  have hunits := flatMap_units_runes hs
  rw [hrunes] at hunits
  exact hne hunits.symm

def readBack (entry : Text × Text) : Text × Text :=
  (dropBom entry.1,dropBom entry.2)

lemma findIdx?_encoded {s : Text} (hs : ∀ u ∈ s, u ≤ 0xFFFF) :
    (encoded unreservedTable true s).findIdx? (· == charEqual) = none := by
  rw [findIdx?_eq_none_iff]
  intro c hc
  exact beq_false_of_ne (encoded_plain unreservedTable_plain hs c hc).2.2

lemma decodeQueryComponent_encoded {s : Text} (hs : ∀ u ∈ s, u ≤ 0xFFFF) :
    decodeQueryComponent (encoded unreservedTable true s) = .ok (dropBom s) :=
  uriDecode_encoded unreservedTable_plain hs

lemma readParameter_parameter (hw : Wide entry) (hkey : entry.1 ≠ []) (map : Text → Option Text) :
    readParameter map (parameter entry) =
      .ok (update map (readBack entry).1 (some (readBack entry).2)) := by
  have hne : encoded unreservedTable true entry.1 ≠ [] := encoded_ne_nil hw.1 hkey
  have hnone := findIdx?_encoded hw.1
  by_cases hvalue : entry.2.isEmpty
  · have hnil : entry.2 = [] := isEmpty_iff.1 hvalue
    have hparameter : parameter entry = encoded unreservedTable true entry.1 := by
      rw [parameter,if_pos hvalue,append_nil]
    rw [hparameter,readParameter,hnone]
    rw [if_neg (by simpa using hne),decodeQueryComponent_encoded hw.1,ok_bind,readBack,hnil]
    rfl
  · obtain ⟨n,hn⟩ := Nat.exists_eq_succ_of_ne_zero (mt length_eq_zero_iff.1 hne)
    have hindex : (encoded unreservedTable true entry.1 ++
        charEqual :: encoded unreservedTable true entry.2).findIdx? (· == charEqual) = some (n+1) := by
      rw [findIdx?_append,hnone,← Nat.succ_eq_add_one,← hn,findIdx?_cons,
        if_pos (beq_self_eq_true charEqual)]
      simp
    rw [parameter,if_neg hvalue,readParameter,hindex]
    change (decodeQueryComponent _ >>= fun key => _) = _
    rw [← Nat.succ_eq_add_one,← hn,take_left,drop_length_add_append,
      decodeQueryComponent_encoded hw.1,ok_bind]
    simp only [drop_succ_cons,drop_zero]
    rw [decodeQueryComponent_encoded hw.2,ok_bind]
    rfl

def insertEntry (map : Text → Option Text) (entry : Text × Text) : Text → Option Text :=
  Function.update map entry.1 (some entry.2)

/-- The map that associates each key with its last value. -/
def mapOf (entries : List (Text × Text)) : Text → Option Text :=
  entries.foldl insertEntry fun _ => none

lemma foldlM_readParameter (hw : ∀ e ∈ entries, Wide e) (hkeys : ∀ e ∈ entries, e.1 ≠ [])
    (map : Text → Option Text) : (entries.map parameter).foldlM readParameter map =
      .ok ((entries.map readBack).foldl insertEntry map) := by
  induction entries generalizing map with
  | nil => rfl
  | cons entry entries ih =>
    rw [map_cons,foldlM_cons,readParameter_parameter (hw entry mem_cons_self)
      (hkeys entry mem_cons_self),ok_bind,ih (fun e he => hw e (mem_cons_of_mem entry he))
      fun e he => hkeys e (mem_cons_of_mem entry he)]
    rfl

lemma parameter_ne (hw : Wide entry) : charAmpersand ∉ parameter entry := by
  intro hmem
  have hplain : ∀ s : Text, (∀ u ∈ s, u ≤ 0xFFFF) → charAmpersand ∉ encoded unreservedTable true s :=
    fun s hs hc => (encoded_plain unreservedTable_plain hs _ hc).2.1 rfl
  unfold parameter at hmem
  rw [mem_append] at hmem
  obtain hmem | hmem := hmem
  · exact hplain _ hw.1 hmem
  · split_ifs at hmem
    · cases hmem
    · obtain heq | hmem := mem_cons.1 hmem
      · exact absurd heq (by decide)
      · exact hplain _ hw.2 hmem

lemma splitQueryString_makeQuery (hw : ∀ e ∈ entries, Wide e) (hkeys : ∀ e ∈ entries, e.1 ≠ []) :
    (makeQuery entries >>= splitQueryString) = .ok (mapOf (entries.map readBack)) := by
  rw [makeQuery_eq hw,ok_bind]
  cases entries with
  | nil => rfl
  | cons entry entries =>
    unfold splitQueryString
    rw [splitOn_intercalate charAmpersand,foldlM_readParameter hw hkeys,mapOf]
    · intro element helement
      obtain ⟨e,he,rfl⟩ := mem_map.1 helement
      exact parameter_ne (hw e he)
    · exact cons_ne_nil _ _

section Maps

variable {key value : Text} {map : Text → Option Text}

lemma foldl_insertEntry_of_notMem (h : key ∉ entries.map Prod.fst) :
    entries.foldl insertEntry map key = map key := by
  induction entries generalizing map with
  | nil => rfl
  | cons entry entries ih =>
    rw [map_cons,mem_cons,not_or] at h
    rw [foldl_cons,ih h.2,insertEntry,update_of_ne h.1]

lemma foldl_insertEntry_of_mem (hnodup : (entries.map Prod.fst).Nodup)
    (h : (key,value) ∈ entries) : entries.foldl insertEntry map key = some value := by
  induction entries generalizing map with
  | nil => cases h
  | cons entry entries ih =>
    rw [map_cons,nodup_cons] at hnodup
    rw [foldl_cons]
    obtain rfl | h := mem_cons.1 h
    · rw [foldl_insertEntry_of_notMem hnodup.1,insertEntry,update_self]
    · exact ih hnodup.2 h

lemma mapOf_of_mem (hnodup : (entries.map Prod.fst).Nodup) (h : (key,value) ∈ entries) :
    mapOf entries key = some value :=
  foldl_insertEntry_of_mem hnodup h

lemma mem_of_mapOf (h : mapOf entries key ≠ none) : key ∈ entries.map Prod.fst := by
  by_contra hmem
  exact h (foldl_insertEntry_of_notMem hmem)

lemma mapOf_ne_none (h : key ∈ entries.map Prod.fst) : mapOf entries key ≠ none := by
  unfold mapOf
  induction entries using reverseRecOn with
  | nil => cases h
  | append_singleton entries entry ih =>
    rw [foldl_append,foldl_cons,foldl_nil,insertEntry]
    by_cases heq : key = entry.1
    · rw [heq,update_self]
      nofun
    · rw [update_of_ne heq]
      refine ih ?_
      simpa [heq] using h

/-- Keys that are permuted by dropping marks have none: of those that start with one, a longest is
what another leaves. -/
lemma head?_ne_bom_of_image {keys : List Text} (h : ∀ k ∈ keys, ∃ k' ∈ keys, dropBom k' = k) :
    ∀ k ∈ keys, k.head? ≠ some bom := by
  intro k hk hhead
  obtain ⟨longest,hmem,hmax⟩ := (keys.toFinset.filter fun k => k.head? = some bom).exists_max_image
    length ⟨k,by simpa using ⟨hk,hhead⟩⟩
  simp only [Finset.mem_filter,mem_toFinset] at hmem hmax
  obtain ⟨k',hk',hdrop⟩ := h longest hmem.1
  have hhead' : k'.head? = some bom := by
    by_contra hne
    rw [dropBom_eq_self_iff.2 hne] at hdrop
    exact hne (hdrop ▸ hmem.2)
  have hlength := hmax k' ⟨hk',hhead'⟩
  cases k' with
  | nil => cases hhead'
  | cons u k' =>
    rw [dropBom,if_pos hhead',tail_cons] at hdrop
    rw [hdrop,length_cons] at hlength
    omega

lemma readBack_eq_self_iff : readBack entry = entry ↔
    entry.1.head? ≠ some bom ∧ entry.2.head? ≠ some bom := by
  rw [readBack,Prod.ext_iff,dropBom_eq_self_iff,dropBom_eq_self_iff]

lemma mapOf_readBack_eq_iff (hnodup : (entries.map Prod.fst).Nodup) : mapOf (entries.map readBack) =
      mapOf entries ↔ ∀ e ∈ entries, e.1.head? ≠ some bom ∧ e.2.head? ≠ some bom := by
  constructor
  · intro heq
    have hkeys : ∀ k ∈ entries.map Prod.fst, k.head? ≠ some bom := by
      refine head?_ne_bom_of_image fun k hk => ?_
      have hmem := mem_of_mapOf (heq ▸ mapOf_ne_none hk)
      rw [map_map,mem_map] at hmem
      obtain ⟨e,he,hdrop⟩ := hmem
      exact ⟨e.1,mem_map_of_mem he,hdrop⟩
    have hfirst : ∀ e ∈ entries, (Prod.fst ∘ readBack) e = e.1 := fun e he =>
      dropBom_eq_self_iff.2 (hkeys e.1 (mem_map_of_mem he))
    have hnodup' : ((entries.map readBack).map Prod.fst).Nodup := by
      rw [map_map,map_congr_left hfirst]
      exact hnodup
    intro e he
    refine ⟨hkeys e.1 (mem_map_of_mem he),dropBom_eq_self_iff.1 ?_⟩
    have hread : mapOf (entries.map readBack) e.1 = some (dropBom e.2) := by
      refine mapOf_of_mem hnodup' (mem_map.2 ⟨e,he,?_⟩)
      exact Prod.ext (hfirst e he) rfl
    rw [heq,mapOf_of_mem hnodup he] at hread
    exact (Option.some_inj.1 hread).symm
  · intro h
    rw [map_congr_left fun e he => readBack_eq_self_iff.2 (h e he),map_id']

end Maps

/-- A map from strings that are not empty to strings, with the order its entries are visited in. -/
structure QueryMap where
  entries : List (List UInt16 × List UInt16)
  nodup : (entries.map Prod.fst).Nodup
  nonempty : ∀ e ∈ entries, e.1 ≠ []

variable (m : QueryMap)

/-- The entries as code units. -/
def QueryMap.units : List (Text × Text) :=
  m.entries.map (Prod.map codeUnits codeUnits)

lemma codeUnits_injective : Function.Injective codeUnits :=
  map_injective_iff.2 fun _ _ => UInt16.toNat_inj.1

lemma QueryMap.units_nodup : (m.units.map Prod.fst).Nodup := by
  have hmap : m.units.map Prod.fst = (m.entries.map Prod.fst).map codeUnits := by
    simp [units]
  rw [hmap]
  exact m.nodup.map codeUnits_injective

lemma QueryMap.units_spec : ∀ e ∈ m.units, Wide e ∧ e.1 ≠ [] := by
  intro e he
  obtain ⟨e,hmem,rfl⟩ := mem_map.1 he
  refine ⟨⟨codeUnits_le,codeUnits_le⟩,?_⟩
  simpa [codeUnits] using m.nonempty e hmem

/-- Components, query components and queries are read back exactly when no string involved starts
with a byte order mark. -/
theorem encoding_undone_iff (s : List UInt16) (m : QueryMap) :
    ((encodeComponent (codeUnits s) >>= decodeComponent) = .ok (codeUnits s) ↔
      s.head? ≠ some 0xFEFF) ∧
    ((encodeQueryComponent (codeUnits s) >>= decodeQueryComponent) = .ok (codeUnits s) ↔
      s.head? ≠ some 0xFEFF) ∧
    ((makeQuery m.units >>= splitQueryString) = .ok (mapOf m.units) ↔
      ∀ e ∈ m.entries, e.1.head? ≠ some 0xFEFF ∧ e.2.head? ≠ some 0xFEFF) := by
  have hcomponent : ∀ (table : List ℕ) (flag : Bool), Plain table →
      ((uriEncode table (codeUnits s) flag >>= fun text => uriDecode text flag) = .ok (codeUnits s) ↔
        s.head? ≠ some 0xFEFF) := by
    intro table flag ht
    rw [uriEncode_eq codeUnits_le,ok_bind,uriDecode_encoded ht codeUnits_le,Except.ok.injEq,
      dropBom_eq_self_iff,Ne,head?_codeUnits]
  refine ⟨hcomponent _ _ unreserved2396Table_plain,hcomponent _ _ unreservedTable_plain,?_⟩
  rw [splitQueryString_makeQuery (fun e he => (m.units_spec e he).1) fun e he => (m.units_spec e he).2,
    Except.ok.injEq,mapOf_readBack_eq_iff m.units_nodup,QueryMap.units,List.forall_mem_map]
  simp only [Prod.map_fst,Prod.map_snd,Ne,head?_codeUnits]

/-- A byte order mark alone is read back as the empty string. -/
theorem decodeComponent_mark :
    (encodeComponent (codeUnits [0xFEFF]) >>= decodeComponent) = .ok [] := by
  rfl

end DartSdk.Uri
