import DartSdk.ConvertUtf8Exact
import DartSdk.Iteration
import DartSdk.UriComponent

/-! Decoding undoes encoding up to a byte order mark at the start, which the decoder of UTF-8 drops.
-/
namespace DartSdk.Uri

open Outcome (ok_bind)
open DartSdk.Convert (Utf8Encoder.convert Utf8Decoder.convert)
open DartSdk.RuneEncoding List

variable {table : List ℕ} {flag : Bool} {bytes : List ℕ} {s : Text}

/-- A table whose characters stand for themselves. -/
def Plain (table : List ℕ) : Prop :=
  ∀ c < 128, inTable table c = true →
    c ≠ charPercent ∧ c ≠ charPlus ∧ c ≠ charAmpersand ∧ c ≠ charEqual

lemma unreservedTable_plain : Plain unreservedTable := by
  unfold Plain
  decide +kernel

lemma unreserved2396Table_plain : Plain unreserved2396Table := by
  unfold Plain
  decide +kernel

lemma inTable_lt {c : ℕ} (h : inTable table c = true) : c < 128 := by
  simp only [inTable,Bool.and_eq_true,decide_eq_true_eq] at h
  exact h.1

lemma hexDigits_plain : ∀ n < 16, hexDigits.getD n 0 < 128 ∧ hexDigits.getD n 0 ≠ charPlus ∧
    hexDigits.getD n 0 ≠ charAmpersand ∧ hexDigits.getD n 0 ≠ charEqual := by
  decide +kernel

lemma hexCharPairToByte_byteToHex {b : ℕ} (hb : b < 256) :
    hexCharPairToByte (hexDigits.getD (b >>> 4) 0) (hexDigits.getD (b &&& 0x0F) 0) = .ok b := by
  have hall : ∀ b < 256, (hexCharPairToByte (hexDigits.getD (b >>> 4) 0)
      (hexDigits.getD (b &&& 0x0F) 0)).toOption = some b := by decide +kernel
  have h := hall b hb
  cases hpair : hexCharPairToByte (hexDigits.getD (b >>> 4) 0) (hexDigits.getD (b &&& 0x0F) 0) with
  | error f =>
    rw [hpair] at h
    cases h
  | ok x =>
    rw [hpair] at h
    cases h
    rfl

lemma encodeByte_plain (ht : Plain table) {b : ℕ} (hb : b < 256) : ∀ c ∈ encodeByte table flag b,
      c < 128 ∧ c ≠ charAmpersand ∧ c ≠ charEqual ∧ (flag = false → c ≠ charPlus) := by
  intro c hc
  unfold encodeByte at hc
  split_ifs at hc with htable hspace
  · obtain rfl := mem_singleton.1 hc
    have hlt := inTable_lt htable
    obtain ⟨-,hplus,hamp,hequal⟩ := ht c hlt htable
    exact ⟨hlt,hamp,hequal,fun _ => hplus⟩
  · obtain rfl := mem_singleton.1 hc
    refine ⟨by decide,by decide,by decide,fun hflag => ?_⟩
    rw [hflag] at hspace
    exact absurd hspace.1 (by decide)
  · have hhi : b >>> 4 < 16 := by
      rw [Nat.shiftRight_eq_div_pow]
      omega
    have hlo : b &&& 0x0F < 16 := Nat.lt_of_le_of_lt Nat.and_le_right (by decide)
    simp only [byteToHex,mem_cons,not_mem_nil,or_false] at hc
    obtain rfl | rfl | rfl := hc
    · exact ⟨by decide,by decide,by decide,fun _ => by decide⟩
    · obtain ⟨h1,h2,h3,h4⟩ := hexDigits_plain _ hhi
      exact ⟨h1,h3,h4,fun _ => h2⟩
    · obtain ⟨h1,h2,h3,h4⟩ := hexDigits_plain _ hlo
      exact ⟨h1,h3,h4,fun _ => h2⟩

lemma decodeBytes_cons {c : ℕ} (hlt : c < 128) (hc : c ≠ charPercent) (rest : Text) :
    decodeBytes flag (c :: rest) =
      (decodeBytes flag rest).map ((if flag ∧ c = charPlus then charSpace else c) :: ·) := by
  rw [decodeBytes.eq_def]
  dsimp only
  rw [if_neg (by omega),if_neg hc]
  cases decodeBytes flag rest <;> rfl

lemma decodeBytes_percent (first second : ℕ) (rest : Text) :
    decodeBytes flag (charPercent :: first :: second :: rest) =
      (hexCharPairToByte first second >>= fun b => (decodeBytes flag rest).map (b :: ·)) := by
  rw [decodeBytes,if_neg (by decide),if_pos rfl]
  cases decodeBytes flag rest <;> rfl

lemma decodeBytes_encodeByte (ht : Plain table) {b : ℕ} (hb : b < 256) (rest : Text) :
    decodeBytes flag (encodeByte table flag b ++ rest) = (decodeBytes flag rest).map (b :: ·) := by
  unfold encodeByte
  split_ifs with htable hspace
  · have hlt := inTable_lt htable
    obtain ⟨hpercent,hplus, -⟩ := ht b hlt htable
    rw [singleton_append,decodeBytes_cons hlt hpercent,if_neg (by simp [hplus])]
  · rw [singleton_append,decodeBytes_cons (by decide) (by decide),if_pos ⟨hspace.1,rfl⟩,hspace.2]
  · rw [byteToHex,cons_append,cons_append,cons_append,nil_append,
      decodeBytes_percent,hexCharPairToByte_byteToHex hb,ok_bind]

lemma decodeBytes_encode (ht : Plain table) (hb : ∀ b ∈ bytes, b < 256) :
    decodeBytes flag (bytes.flatMap (encodeByte table flag)) = .ok bytes := by
  induction bytes with
  | nil => rfl
  | cons b bytes ih =>
    rw [flatMap_cons,decodeBytes_encodeByte ht (hb b mem_cons_self),
      ih fun c hc => hb c (mem_cons_of_mem b hc)]
    rfl

lemma encode_eq (hs : ∀ u ∈ s, u ≤ 0xFFFF) : encode s = .ok ((runes s).flatMap RuneEncoding.bytes) := by
  rw [encode,Convert.Utf8Encoder.convert_all hs]
  rfl

lemma decode_eq (hs : ∀ u ∈ s, u ≤ 0xFFFF) :
    decode ((runes s).flatMap RuneEncoding.bytes) = .ok (dropBom s) := by
  have hdecode := Convert.Utf8Decoder.convert_runes false (runes_le hs)
  rw [flatMap_units_dropBom (runes_le hs),flatMap_units_runes hs] at hdecode
  rw [decode]
  exact congrArg (Except.mapError Failure.encoding) hdecode

lemma dropBom_of_lt (h : ∀ u ∈ s, u < 128) : dropBom s = s := by
  unfold dropBom
  rw [if_neg]
  intro hhead
  have := h bom (mem_of_head? hhead)
  exact absurd this (by decide)

lemma flatMap_singleton_of_forall {f : ℕ → List ℕ} (h : ∀ u ∈ s, f u = [u]) : s.flatMap f = s := by
  induction s with
  | nil => rfl
  | cons u s ih =>
    rw [flatMap_cons,h u mem_cons_self,ih fun v hv => h v (mem_cons_of_mem u hv)]
    rfl

lemma decode_ascii (h : ∀ u ∈ s, u < 128) : decode s = .ok s := by
  have hle : ∀ r ∈ s, r ≤ maxRune := fun r hr => (h r hr).le.trans (by decide)
  have hbytes : s.flatMap RuneEncoding.bytes = s :=
    flatMap_singleton_of_forall fun u hu => bytes_one (Nat.le_of_lt_succ (h u hu))
  have hunits : s.flatMap units = s :=
    flatMap_singleton_of_forall fun u hu => units_of_le ((h u hu).le.trans (by decide))
  have hdecode := Convert.Utf8Decoder.convert_runes false hle
  rw [hbytes,dropBom_of_lt h,hunits] at hdecode
  rw [decode]
  exact congrArg (Except.mapError Failure.encoding) hdecode

lemma decodeBytes_simple (h : ∀ c ∈ s, c < 128) (hs : ∀ c ∈ s, c ≠ charPercent ∧ c ≠ charPlus) :
    decodeBytes flag s = .ok s := by
  induction s with
  | nil => rfl
  | cons c s ih =>
    obtain ⟨hpercent,hplus⟩ := hs c mem_cons_self
    rw [decodeBytes_cons (h c mem_cons_self) hpercent,if_neg (by simp [hplus]),
      ih (fun d hd => h d (mem_cons_of_mem c hd)) fun d hd => hs d (mem_cons_of_mem c hd)]
    rfl

/-- The shortcut for text without escapes makes no difference. -/
lemma uriDecode_eq (h : ∀ c ∈ s, c < 128) : uriDecode s flag = decodeBytes flag s >>= decode := by
  unfold uriDecode
  split_ifs with hsimple
  · have hs : ∀ c ∈ s, c ≠ charPercent ∧ c ≠ charPlus := by
      simpa using hsimple
    rw [decodeBytes_simple h hs,ok_bind,decode_ascii h]
  · rfl

lemma bytes_lt_of_units (hs : ∀ u ∈ s, u ≤ 0xFFFF) :
    ∀ b ∈ (runes s).flatMap RuneEncoding.bytes, b < 256 := by
  intro b hb
  obtain ⟨r,hr,hbr⟩ := mem_flatMap.1 hb
  exact Convert.Encoder.bytes_lt (runes_le hs r hr) b hbr

/-- Encoded text. -/
def encoded (table : List ℕ) (flag : Bool) (s : Text) : Text :=
  ((runes s).flatMap RuneEncoding.bytes).flatMap (encodeByte table flag)

lemma uriEncode_eq (hs : ∀ u ∈ s, u ≤ 0xFFFF) : uriEncode table s flag = .ok (encoded table flag s) := by
  rw [uriEncode,encode_eq hs]
  rfl

lemma encoded_plain (ht : Plain table) (hs : ∀ u ∈ s, u ≤ 0xFFFF) :
    ∀ c ∈ encoded table flag s, c < 128 ∧ c ≠ charAmpersand ∧ c ≠ charEqual := by
  intro c hc
  obtain ⟨b,hb,hcb⟩ := mem_flatMap.1 hc
  obtain ⟨hlt,hamp,hequal, -⟩ := encodeByte_plain ht (bytes_lt_of_units hs b hb) c hcb
  exact ⟨hlt,hamp,hequal⟩

/-- Decoding undoes encoding, but for a mark at the start. -/
lemma uriDecode_encoded (ht : Plain table) (hs : ∀ u ∈ s, u ≤ 0xFFFF) :
    uriDecode (encoded table flag s) flag = .ok (dropBom s) := by
  rw [uriDecode_eq fun c hc => (encoded_plain ht hs c hc).1,encoded,
    decodeBytes_encode ht (bytes_lt_of_units hs),ok_bind,decode_eq hs]

end DartSdk.Uri
