import DartSdk.UriParseNormal

/-! A URI that was parsed, printed and parsed again comes back as it was unless it is a file URI
without an authority, or has an authority that is printed as nothing and has nothing after it. -/
namespace DartSdk.Uri

open List Option Nat Except
open Outcome (ok_bind bind_eq_ok)

structure Normal (u : Uri) : Prop where
  scheme : NormalScheme u.scheme
  userInfo : NormalText (inTableBelow 127 userinfoTable) u.userInfo
  host : ∀ h, u._host = some h → NormalHost h
  port : ∀ p, u._port = some p → 0 ≤ p ∧ p ≠ defaultPort u.scheme
  path : NormalPath u.path
  query : ∀ q, u._query = some q → NormalQuery q
  fragment : ∀ f, u._fragment = some f → NormalQuery f
  noAuthority : u._host = none → u.userInfo = [] ∧ u._port = none ∧ ¬ [charSlash,charSlash] <+: u.path
  rooted : u._host ≠ none → u.path = [] ∨ u.path.head? = some charSlash
  noColon : u.scheme = [] → u._host = none → NoColonFirst u.path
  filePath : u.scheme = file → u.path.head? = some charSlash

section Parts

variable {n : ℕ} {s scheme text : Text} {u : Uri} {auth : Auth}

lemma parseAuth_cases (h : parseAuth n scheme text = .ok auth) :
    (text = [] ∧ auth = ⟨[],none,none,[]⟩) ∨
      text ≠ [] ∧ ∃ index lastColon lastAt userInfo port host,
        scanAuth text 0 false none none = (index,lastColon,lastAt) ∧
        authUserInfo text lastAt = .ok userInfo ∧ authPort scheme text index lastColon = .ok port ∧
        makeHost n ((text.take (lastColon.getD index)).drop (hostStart lastAt)) true = .ok host ∧
        auth = ⟨userInfo,some host,port,text.drop index⟩ := by
  unfold parseAuth at h
  split_ifs at h with hempty
  · cases h
    exact .inl ⟨isEmpty_iff.1 hempty,rfl⟩
  · obtain ⟨⟨index,lastColon,lastAt⟩,hscan⟩ : ∃ r, scanAuth text 0 false none none = r := ⟨_,rfl⟩
    rw [hscan] at h
    obtain ⟨userInfo,huser,h⟩ := bind_eq_ok h
    obtain ⟨port,hport,h⟩ := bind_eq_ok h
    obtain ⟨host,hhost,h⟩ := bind_eq_ok h
    refine .inr ⟨fun hnil => hempty (isEmpty_iff.2 hnil),index,lastColon,lastAt,userInfo,port,host,
      hscan,huser,hport,hhost,?_⟩
    exact (ok.inj h).symm

lemma authUserInfo_normal {lastAt : Option ℕ} {t : Text} (h : authUserInfo text lastAt = .ok t) :
    NormalText (inTableBelow 127 userinfoTable) t := by
  cases lastAt with
  | none =>
    cases h
    exact .nil
  | some k => exact normalize_normal userinfoTable_component h

lemma authPort_spec {index : ℕ} {lastColon : Option ℕ} {port : Option ℤ}
    (h : authPort scheme text index lastColon = .ok port) :
    ∀ p, port = some p → 0 ≤ p ∧ p ≠ defaultPort scheme := by
  rintro p rfl
  cases lastColon with
  | none => cases h
  | some k =>
    obtain ⟨portNumber,hnumber,h⟩ := bind_eq_ok h
    obtain ⟨hport,hdefault⟩ := makePort_eq_some (ok.inj h)
    refine ⟨?_,hdefault⟩
    obtain ⟨-,hdigits⟩ := parsePort_spec hnumber
    rw [hport] at hdigits
    split_ifs at hdigits
    rw [some_inj.1 hdigits]
    exact Int.natCast_nonneg _

lemma parseSlashes_cases (h : parseSlashes n scheme text = .ok auth) :
    (∃ rest, text = charSlash :: charSlash :: rest ∧ parseAuth n scheme rest = .ok auth) ∨
      (¬ [charSlash,charSlash] <+: text) ∧ auth = ⟨[],none,none,text⟩ := by
  match text with
  | [] =>
    cases h
    exact .inr ⟨by simp,rfl⟩
  | [c] =>
    cases h
    exact .inr ⟨fun hpre => by simpa using hpre.length_le,rfl⟩
  | first :: second :: rest =>
    rw [parseSlashes] at h
    split_ifs at h with hslashes
    · obtain ⟨rfl,rfl⟩ := hslashes
      exact .inl ⟨rest,rfl,h⟩
    · cases h
      refine .inr ⟨fun hpre => hslashes ?_,rfl⟩
      rw [cons_prefix_cons,cons_prefix_cons] at hpre
      exact ⟨hpre.1.symm,hpre.2.1.symm⟩

lemma parseAfterScheme_cases (h : parseAfterScheme n scheme text = .ok u) :
    ∃ auth path query fragment, parseSlashes n scheme text = .ok auth ∧
      makePath (auth.rest.takeWhile fun c => !isPathEnd c) auth.host.isSome (scheme == file) = .ok path ∧
      parseTail (auth.rest.dropWhile fun c => !isPathEnd c) = .ok (query,fragment) ∧
      u = ⟨scheme,auth.userInfo,auth.host,auth.port,path,query,fragment⟩ := by
  obtain ⟨auth,hauth,h⟩ := bind_eq_ok h
  obtain ⟨path,hpath,h⟩ := bind_eq_ok h
  obtain ⟨⟨query,fragment⟩,htail,h⟩ := bind_eq_ok h
  exact ⟨auth,path,query,fragment,hauth,hpath,htail,(ok.inj h).symm⟩

/-- The scheme of a text in lower case and what follows it; everything if there is none. -/
def schemeAndRest (uri : Text) : Text × Text :=
  match uri.dropWhile fun c => !(isAuthorityEnd c || c == charColon) with
  | char :: rest =>
    if char = charColon then
      (toLowerCase (uri.takeWhile fun c => !(isAuthorityEnd c || c == charColon)),rest)
    else ([],uri)
  | [] => ([],uri)

/-- No colon ends a scheme at the start of a text. -/
def NoScheme (s : Text) : Prop :=
  ∀ rest, (s.dropWhile fun c => !(isAuthorityEnd c || c == charColon)) ≠ charColon :: rest

lemma noScheme_cons {c : ℕ} : NoScheme (c :: s) ↔ c ≠ charColon ∧ (isAuthorityEnd c = true ∨ NoScheme s) := by
  unfold NoScheme
  rw [dropWhile_cons]
  by_cases hend : isAuthorityEnd c = true
  · simp [hend]
  · by_cases hcolon : c = charColon <;> simp [hend,hcolon]

lemma parse_cases (h : parse s = .ok u) :
    parseAfterScheme s.length (schemeAndRest s).1 (schemeAndRest s).2 = .ok u ∧
      NormalScheme (schemeAndRest s).1 ∧
      ((schemeAndRest s).1 = [] → (schemeAndRest s).2 = s ∧ NoScheme s) := by
  unfold parse at h
  rw [span_eq_takeWhile_dropWhile] at h
  unfold schemeAndRest NoScheme
  cases hdrop : s.dropWhile fun c => !(isAuthorityEnd c || c == charColon) with
  | nil =>
    rw [hdrop] at h
    exact ⟨h,⟨nofun,nofun⟩,fun _ => ⟨rfl,nofun⟩⟩
  | cons c rest =>
    rw [hdrop] at h
    dsimp only at h ⊢
    split_ifs at h ⊢ with hcolon hempty
    · obtain ⟨t,ht,h⟩ := bind_eq_ok h
      have hnormal := makeScheme_normal ht
      obtain ⟨rfl, -⟩ := makeScheme_eq ht
      refine ⟨h,hnormal,fun hnil => ?_⟩
      exact absurd (isEmpty_iff.2 (map_eq_nil_iff.1 hnil)) hempty
    · exact ⟨h,⟨nofun,nofun⟩,fun _ => ⟨rfl,fun rest' heq => hcolon (cons.inj heq).1⟩⟩

/-- What an authority and the text after it are like. -/
lemma parseSlashes_normal (h : parseSlashes n scheme text = .ok auth) :
    NormalText (inTableBelow 127 userinfoTable) auth.userInfo ∧
      (∀ h, auth.host = some h → NormalHost h) ∧
      (∀ p, auth.port = some p → 0 ≤ p ∧ p ≠ defaultPort scheme) ∧
      (auth.host = none → auth.userInfo = [] ∧ auth.port = none ∧
        ¬ [charSlash,charSlash] <+: auth.rest ∧ (auth.rest = [] ∨ auth.rest = text)) := by
  obtain ⟨rest,rfl,hauth⟩ | ⟨hslashes,rfl⟩ := parseSlashes_cases h
  · obtain ⟨rfl,rfl⟩ | ⟨-,index,lastColon,lastAt,userInfo,port,host, -,huser,hport,hhost,rfl⟩ :=
      parseAuth_cases hauth
    · exact ⟨.nil,nofun,nofun,fun _ => ⟨rfl,rfl,by simp,.inl rfl⟩⟩
    · refine ⟨authUserInfo_normal huser,?_,authPort_spec hport,nofun⟩
      rintro _ ⟨⟩
      exact makeHost_normal hhost
  · exact ⟨.nil,nofun,nofun,fun _ => ⟨rfl,rfl,hslashes,.inr rfl⟩⟩

lemma noColonFirst_takeWhile (h : NoScheme s) : NoColonFirst (s.takeWhile fun c => !isPathEnd c) := by
  induction s with
  | nil => exact not_mem_nil
  | cons c s ih =>
    obtain ⟨hcolon,hrest⟩ := noScheme_cons.1 h
    rw [takeWhile_cons]
    split_ifs with hinside
    · rw [noColonFirst_cons,or_iff_not_imp_left]
      intro hslash
      refine ⟨hcolon,ih (hrest.resolve_left ?_)⟩
      simp_all [isAuthorityEnd]
    · exact not_mem_nil

lemma takeWhile_double_slash {p : ℕ → Bool} (h : [charSlash,charSlash] <+: s.takeWhile p) :
    [charSlash,charSlash] <+: s :=
  h.trans ( takeWhile_prefix p)

/-- Normalization does not make two slashes. -/
lemma Normalizes.double_slash {keep : ℕ → Bool} {t : Text} (h : Normalizes keep id s t)
    (ht : [charSlash,charSlash] <+: t) : [charSlash,charSlash] <+: s := by
  obtain ⟨rest,rfl⟩ := ht
  obtain ⟨s',rfl,h'⟩ := h.slash_cons
  obtain ⟨s'',rfl, -⟩ := h'.slash_cons
  exact ⟨s'',rfl⟩

end Parts

lemma parse_normal {s : Text} {u : Uri} (h : parse s = .ok u) : Normal u := by
  obtain ⟨hafter,hscheme,hnone⟩ := parse_cases h
  obtain ⟨auth,path,query,fragment,hauth,hpath,htail,rfl⟩ := parseAfterScheme_cases hafter
  obtain ⟨huser,hhost,hport,hno⟩ := parseSlashes_normal hauth
  obtain ⟨hquery,hfragment, -⟩ := parseTail_normal htail
  obtain ⟨t,ht,hpath⟩ := makePath_eq hpath
  have hspec := normalize_spec pathCharOrSlashTable_component ht
  have hnormal : NormalPath t := normalize_normal pathCharOrSlashTable_component ht
  refine ⟨hscheme,huser,hhost,hport,?_,hquery,hfragment,fun hh => ?_,fun hh => ?_,fun hs hh => ?_,
    fun hs => ?_⟩
  all_goals dsimp only at *
  · rw [hpath]
    split_ifs
    · exact NormalText.nil.slash_cons
    · exact .nil
    · exact hnormal.slash_cons
    · exact hnormal
  · obtain ⟨hu,hp,hslashes, -⟩ := hno hh
    refine ⟨hu,hp,fun hpre => ?_⟩
    rw [hpath] at hpre
    split_ifs at hpre with hempty hfile hflag
    · simpa using hpre.length_le
    · simpa using hpre.length_le
    · rw [cons_prefix_cons] at hpre
      obtain ⟨rest,rfl⟩ := hpre.2
      exact hflag.2 rfl
    · exact hslashes (takeWhile_double_slash (hspec.double_slash hpre))
  · have hsome : auth.host.isSome = true := isSome_iff_ne_none.2 hh
    rw [hpath]
    split_ifs with hempty hfile hflag
    · exact .inr rfl
    · exact .inl rfl
    · exact .inr rfl
    · exact .inr (not_not.1 fun hne => hflag ⟨.inr hsome,hne⟩)
  · obtain ⟨-, -, -,hrest⟩ := hno hh
    obtain ⟨htext,hcolon⟩ := hnone hs
    have hraw : NoColonFirst (auth.rest.takeWhile fun c => !isPathEnd c) := by
      obtain hrest | hrest := hrest
      · rw [hrest]
        exact not_mem_nil
      · rw [hrest,htext]
        exact noColonFirst_takeWhile hcolon
    have hnofile : ((schemeAndRest s).1 == file) = false := by
      rw [hs]
      decide
    have hsome : auth.host.isSome = false := by
      rw [hh]
      rfl
    have hsame : path = t := by
      rw [hpath,hnofile,hsome]
      by_cases hempty : t = [] <;> simp
    rw [hsame]
    exact hspec.noColonFirst hraw
  · have hfile : ((schemeAndRest s).1 == file) = true := beq_iff_eq.2 hs
    rw [hpath,hfile]
    by_cases hempty : t = []
    · simp [hempty]
    · by_cases hhead : t.head? = some charSlash <;> simp [hempty,hhead]

section Scan

variable {a s t h : Text} {i : ℕ} {lastColon lastAt : Option ℕ}

/-- The end of the input, or a character that ends an authority. -/
def AuthorityEnd (t : Text) : Prop := ∀ c, t.head? = some c → isAuthorityEnd c = true

lemma scanAuth_end (ht : AuthorityEnd t) : scanAuth t i false lastColon lastAt = (i,lastColon,lastAt) := by
  cases t with
  | nil => rfl
  | cons c t => rw [scanAuth,if_pos (ht c rfl)]

lemma scanAuth_plain (hs : ∀ c ∈ s, isAuthorityEnd c = false ∧ c ≠ charAtSign ∧ c ≠ charColon ∧
    c ≠ charLeftBracket) :
    scanAuth (s ++ t) i false lastColon lastAt = scanAuth t (i+s.length) false lastColon lastAt := by
  induction s generalizing i with
  | nil => rfl
  | cons c s ih =>
    obtain ⟨hend,hat,hcolon,hbracket⟩ := hs c mem_cons_self
    rw [cons_append,scanAuth,if_neg (by simp [hend]),if_neg hat,if_neg hcolon,if_neg hbracket,
      ih fun d hd => hs d (mem_cons_of_mem c hd),length_cons,add_assoc,add_comm 1]

lemma scanAuth_userInfo (hs : ∀ c ∈ s, isAuthorityEnd c = false ∧ c ≠ charAtSign ∧ c ≠ charLeftBracket) :
    scanAuth (s ++ charAtSign :: t) i false lastColon lastAt =
      scanAuth t (i+s.length+1) false none (some (i+s.length)) := by
  induction s generalizing i lastColon with
  | nil => rfl
  | cons c s ih =>
    obtain ⟨hend,hat,hbracket⟩ := hs c mem_cons_self
    have hrest := fun d hd => hs d (mem_cons_of_mem c hd)
    have hlength : i+1+s.length = i+(c :: s).length := by
      rw [length_cons]
      omega
    rw [cons_append,scanAuth,if_neg (by simp [hend]),if_neg hat]
    split_ifs
    · rw [ih hrest,hlength]
    · rw [ih hrest,hlength]

lemma scanAuth_inside (ha : charRightBracket ∉ a) :
    scanAuth (a ++ charRightBracket :: t) i true lastColon lastAt =
      scanAuth t (i+a.length+1) false lastColon lastAt := by
  induction a generalizing i with
  | nil => rfl
  | cons c a ih =>
    rw [mem_cons,not_or] at ha
    have hc : (c != charRightBracket) = true := bne_iff_ne.2 (Ne.symm ha.1)
    rw [cons_append,scanAuth,hc,ih ha.2,length_cons,add_assoc i 1,add_comm 1]

lemma scanAuth_host (hh : NormalHost h) :
    scanAuth (h ++ t) i false none lastAt = scanAuth t (i+h.length) false none lastAt := by
  cases hh with
  | name hname =>
    have hall := hname.forall_notMem [charSlash,charQuestion,charNumberSign,charAtSign,charColon,
      charLeftBracket] (by decide)
    refine scanAuth_plain fun c hc => ?_
    simpa [isAuthorityEnd,isPathEnd,and_assoc] using hall c hc
  | @address a bytes haddress hlower =>
    have hbracket := bracket_notMem_parseIPv6Address haddress
    have hcontains : (a ++ ([charRightBracket] ++ t)).contains charRightBracket = true := by
      simp
    rw [cons_append,append_assoc,scanAuth,if_neg (by decide),if_neg (by decide),
      if_neg (by decide),if_pos rfl,if_pos hcontains,singleton_append,scanAuth_inside hbracket]
    congr 1
    simp
    omega

lemma scanAuth_port (hs : Digits s) : scanAuth (charColon :: s ++ t) i false lastColon lastAt =
      scanAuth t (i+(charColon :: s).length) false (some i) lastAt := by
  have hplain : ∀ c ∈ s, isAuthorityEnd c = false ∧ c ≠ charAtSign ∧ c ≠ charColon ∧ c ≠ charLeftBracket := by
    intro c hc
    obtain ⟨hlow,hhigh⟩ := hs c hc
    refine ⟨?_,by unfold charAtSign; omega,by unfold charColon; omega,by unfold charLeftBracket; omega⟩
    simp only [isAuthorityEnd,isPathEnd,Bool.or_eq_false_iff,beq_eq_false_iff_ne]
    unfold charSlash charQuestion charNumberSign
    omega
  rw [cons_append,scanAuth,if_neg (by decide),if_neg (by decide),if_pos rfl,scanAuth_plain hplain,
    length_cons]
  congr 1
  omega

end Scan

section Print

variable {u : Uri} {n : ℕ} {h t scheme text : Text}

def userInfoText (userInfo : Text) : Text :=
  if userInfo ≠ [] then userInfo ++ [charAtSign] else []

def portText : Option ℤ → Text
  | none => []
  | some port => charColon :: IntParse.decimal port

lemma writeAuthority_eq (hh : u._host = some h) :
    u.writeAuthority = userInfoText u.userInfo ++ (h ++ portText u._port) := by
  rw [writeAuthority,hh,append_assoc]
  cases u._port <;> rfl

lemma userinfo_notMem {s : Text} (hs : NormalText (inTableBelow 127 userinfoTable) s) :
    ∀ c ∈ s, isAuthorityEnd c = false ∧ c ≠ charAtSign ∧ c ≠ charLeftBracket := by
  intro c hc
  have hall := hs.forall_notMem [charSlash,charQuestion,charNumberSign,charAtSign,charLeftBracket]
    (by decide) c hc
  simpa [isAuthorityEnd,isPathEnd,and_assoc] using hall

lemma digits_decimal {p : ℤ} (hp : 0 ≤ p) : Digits (IntParse.decimal p) := by
  obtain ⟨k,rfl⟩ := Int.eq_ofNat_of_zero_le hp
  exact (IntParse.denotes_decimal k).2.1

/-- The place of the at sign and that of the colon in a printed authority. -/
lemma scanAuth_authority (hn : Normal u) (hh : u._host = some h) (ht : AuthorityEnd t) :
    scanAuth (userInfoText u.userInfo ++ (h ++ (portText u._port ++ t))) 0 false none none =
      ((userInfoText u.userInfo).length+h.length+(portText u._port).length,
        u._port.map fun _ => (userInfoText u.userInfo).length+h.length,
        if u.userInfo = [] then none else some u.userInfo.length) := by
  have hafter : ∀ i lastAt, scanAuth (h ++ (portText u._port ++ t)) i false none lastAt =
      (i+h.length+(portText u._port).length,u._port.map fun _ => i+h.length,lastAt) := by
    intro i lastAt
    rw [scanAuth_host (hn.host h hh)]
    cases hport : u._port with
    | none => exact scanAuth_end ht
    | some p =>
      rw [portText,scanAuth_port (digits_decimal (hn.port p hport).1),scanAuth_end ht]
      rfl
  by_cases huser : u.userInfo = []
  · rw [userInfoText,if_neg (not_not.2 huser),if_pos huser,nil_append,hafter]
    simp
  · rw [userInfoText,if_pos huser,if_neg huser,append_assoc,singleton_append,
      scanAuth_userInfo (userinfo_notMem hn.userInfo),hafter]
    simp

lemma parseAuth_authority (hn : Normal u) (hh : u._host = some h) (ht : AuthorityEnd t)
    (hne : u.writeAuthority ++ t ≠ []) (hlength : 2 ≤ n) :
    parseAuth n u.scheme (u.writeAuthority ++ t) = .ok ⟨u.userInfo,some h,u._port,t⟩ := by
  rw [writeAuthority_eq hh,append_assoc,append_assoc] at hne ⊢
  have huser : authUserInfo (userInfoText u.userInfo ++ (h ++ (portText u._port ++ t)))
      (if u.userInfo = [] then none else some u.userInfo.length) = .ok u.userInfo := by
    by_cases hempty : u.userInfo = []
    · rw [if_pos hempty,hempty]
      rfl
    · rw [if_neg hempty,authUserInfo,userInfoText,if_pos hempty,append_assoc,take_left,
        makeUserInfo,hn.userInfo.normalize userinfoTable_component]
  have hstart : hostStart (if u.userInfo = [] then none else some u.userInfo.length) =
      (userInfoText u.userInfo).length := by
    by_cases hempty : u.userInfo = []
    · rw [if_pos hempty,userInfoText,if_neg (not_not.2 hempty)]
      rfl
    · rw [if_neg hempty,userInfoText,if_pos hempty,length_append]
      rfl
  rw [parseAuth,if_neg (by simpa using hne),scanAuth_authority hn hh ht]
  dsimp only
  rw [huser,ok_bind,hstart]
  generalize userInfoText u.userInfo = userInfo
  have hrest : drop (userInfo.length+h.length+(portText u._port).length)
      (userInfo ++ (h ++ (portText u._port ++ t))) = t := by
    rw [← append_assoc,← append_assoc,← length_append,← length_append,drop_left]
  have hport : authPort u.scheme (userInfo ++ (h ++ (portText u._port ++ t)))
      (userInfo.length+h.length+(portText u._port).length)
      (u._port.map fun _ => userInfo.length+h.length) = .ok u._port := by
    cases hp : u._port with
    | none => rfl
    | some p =>
      obtain ⟨hpos,hdefault⟩ := hn.port p hp
      have hdigits : drop (userInfo.length+h.length+1)
          (take (userInfo.length+h.length+(portText (some p)).length)
            (userInfo ++ (h ++ (portText (some p) ++ t)))) = IntParse.decimal p := by
        rw [← append_assoc,← append_assoc,← length_append,← length_append,
          take_left,drop_length_add_append]
        rfl
      rw [map_some,authPort,hdigits,parsePort_decimal hpos,ok_bind,
        makePort_eq_self fun heq => hdefault (some_inj.1 heq)]
      rfl
  have hend : (u._port.map fun _ => userInfo.length+h.length).getD
      (userInfo.length+h.length+(portText u._port).length) = (userInfo ++ h).length := by
    rw [length_append]
    cases u._port <;> rfl
  have hhost : drop userInfo.length (take (userInfo ++ h).length
      (userInfo ++ (h ++ (portText u._port ++ t)))) = h := by
    rw [← append_assoc,take_left,drop_left]
  rw [hport,ok_bind,hend,hhost,(hn.host h hh).makeHost hlength,ok_bind,hrest]
  rfl

lemma parse_scheme (hs : NormalScheme scheme) (hne : scheme ≠ []) (text : Text) :
    parse (scheme ++ charColon :: text) =
      parseAfterScheme (scheme ++ charColon :: text).length scheme text := by
  have hspan : (scheme ++ charColon :: text).span (fun c => !(isAuthorityEnd c || c == charColon)) =
      (scheme,charColon :: text) := by
    rw [span_eq_takeWhile_dropWhile,takeWhile_append_of_pos hs.not_end,
      dropWhile_append_of_pos hs.not_end]
    simp
  rw [parse,hspan]
  dsimp only
  rw [if_pos rfl,if_neg (by simpa using hne),hs.makeScheme,ok_bind]

lemma parse_noScheme (h : NoScheme text) : parse text = parseAfterScheme text.length [] text := by
  rw [parse,span_eq_takeWhile_dropWhile]
  cases hdrop : text.dropWhile fun c => !(isAuthorityEnd c || c == charColon) with
  | nil => rfl
  | cons c rest =>
    dsimp only
    rw [if_neg]
    rintro rfl
    exact h rest hdrop

/-- The end of the input, or a character that ends a path. -/
def PathEnd (t : Text) : Prop := ∀ c, t.head? = some c → isPathEnd c = true

lemma pathEnd_writeTail (query fragment : Option Text) : PathEnd (writeTail query fragment) := by
  intro c hc
  cases query with
  | some q =>
    obtain rfl := some_inj.1 hc
    rfl
  | none =>
    cases fragment with
    | some f =>
      obtain rfl := some_inj.1 hc
      rfl
    | none => cases hc

lemma NormalText.not_pathEnd {path : Text} (hp : NormalPath path) :
    ∀ c ∈ path, (!isPathEnd c) = true := by
  intro c hc
  have hall := hp.forall_notMem [charQuestion,charNumberSign] (by decide) c hc
  simpa [isPathEnd] using hall

lemma PathEnd.split {path : Text} (hp : NormalPath path) (ht : PathEnd t) :
    ((path ++ t).takeWhile fun c => !isPathEnd c) = path ∧
      ((path ++ t).dropWhile fun c => !isPathEnd c) = t := by
  rw [takeWhile_append_of_pos hp.not_pathEnd,dropWhile_append_of_pos hp.not_pathEnd]
  cases t with
  | nil => simp
  | cons c t => simp [ht c rfl]

lemma noScheme_append {path : Text} (hc : NoColonFirst path) (ht : PathEnd t) : NoScheme (path ++ t) := by
  induction path with
  | nil =>
    cases t with
    | nil => nofun
    | cons c t =>
      have hend := ht c rfl
      refine noScheme_cons.2 ⟨?_,.inl (by simp [isAuthorityEnd,hend])⟩
      rintro rfl
      exact absurd hend (by decide)
  | cons c path ih =>
    rw [cons_append,noScheme_cons]
    obtain rfl | ⟨hcolon,hrest⟩ := noColonFirst_cons.1 hc
    · exact ⟨by decide,.inl rfl⟩
    · exact ⟨hcolon,.inr (ih hrest)⟩

lemma PathEnd.authorityEnd {path : Text} (hpath : path = [] ∨ path.head? = some charSlash)
    (ht : PathEnd t) : AuthorityEnd (path ++ t) := by
  intro c hc
  obtain rfl | hhead := hpath
  · rw [isAuthorityEnd,ht c hc,Bool.or_true]
  · rw [head?_append,hhead] at hc
    obtain rfl := some_inj.1 hc
    rfl

lemma not_double_slash {path : Text} (hpath : ¬ [charSlash,charSlash] <+: path) (ht : PathEnd t) :
    ¬ [charSlash,charSlash] <+: path ++ t := by
  have hhead : ∀ rest : Text, ¬ charSlash :: rest <+: t := by
    intro rest hpre
    obtain ⟨tail,rfl⟩ := hpre
    exact absurd (ht charSlash rfl) (by decide)
  match path with
  | [] => exact hhead _
  | [c] =>
    rw [singleton_append,cons_prefix_cons]
    exact fun h => hhead _ h.2
  | c :: d :: path =>
    rw [cons_prefix_cons,cons_prefix_cons] at hpath
    rw [cons_append,cons_append,cons_prefix_cons,cons_prefix_cons]
    exact fun h => hpath ⟨h.1,h.2.1, nil_prefix⟩

lemma parseSlashes_none (h : ¬ [charSlash,charSlash] <+: text) :
    parseSlashes n scheme text = .ok ⟨[],none,none,text⟩ := by
  match text with
  | [] => rfl
  | [c] => rfl
  | first :: second :: rest =>
    rw [parseSlashes,if_neg]
    rintro ⟨rfl,rfl⟩
    exact h ⟨rest,rfl⟩

def authorityText (u : Uri) : Text :=
  match u._host with
  | none => []
  | some _ => charSlash :: charSlash :: u.writeAuthority

lemma parseAfterScheme_print (hn : Normal u) (hlength : u._host ≠ none → 2 ≤ n)
    (hne : u._host ≠ none → u.writeAuthority ++ (u.path ++ writeTail u._query u._fragment) ≠ []) :
    parseAfterScheme n u.scheme (authorityText u ++ (u.path ++ writeTail u._query u._fragment)) = .ok u := by
  have hend := pathEnd_writeTail u._query u._fragment
  obtain ⟨htake,hdrop⟩ := hend.split hn.path
  have hslashes : parseSlashes n u.scheme (authorityText u ++ (u.path ++ writeTail u._query u._fragment)) =
      .ok ⟨u.userInfo,u._host,u._port,u.path ++ writeTail u._query u._fragment⟩ := by
    unfold authorityText
    cases hh : u._host with
    | none =>
      obtain ⟨huser,hport,hpath⟩ := hn.noAuthority hh
      rw [huser,hport,nil_append]
      exact parseSlashes_none (not_double_slash hpath hend)
    | some h =>
      have hauth := parseAuth_authority hn hh (hend.authorityEnd (hn.rooted (by simp [hh])))
        (hne (by simp [hh])) (hlength (by simp [hh]))
      rw [cons_append,cons_append,parseSlashes,if_pos ⟨rfl,rfl⟩,hauth]
  have hpath : makePath u.path u._host.isSome (u.scheme == file) = .ok u.path :=
    hn.path.makePath (fun hfile => hn.filePath (beq_iff_eq.1 hfile))
      fun hsome => hn.rooted (isSome_iff_ne_none.1 hsome)
  rw [parseAfterScheme,hslashes,ok_bind]
  rw [htake,hdrop,hpath,ok_bind,parseTail_writeTail hn.query hn.fragment,ok_bind]
  rfl

lemma toString_eq (hn : Normal u) (hfile : u.scheme = file → u._host ≠ none) :
    u.toString = (if u.scheme ≠ [] then u.scheme ++ [charColon] else []) ++
      (authorityText u ++ (u.path ++ writeTail u._query u._fragment)) := by
  have hslashes : (if u.hasAuthority ∨ [charSlash,charSlash] <+: u.path ∨ u.scheme = file then
      charSlash :: charSlash :: u.writeAuthority else []) = authorityText u := by
    unfold hasAuthority authorityText
    cases hh : u._host with
    | none =>
      rw [if_neg]
      rintro (h | h | h)
      · cases h
      · exact (hn.noAuthority hh).2.2 h
      · exact hfile h hh
    | some h => rw [if_pos (.inl rfl)]
  rw [toString,hslashes,writeTail]
  simp [append_assoc]

/-- An authority that is printed as nothing, with nothing after it. -/
def PrintsNothing (u : Uri) : Prop :=
  u.userInfo = [] ∧ u._host = some [] ∧ u._port = none ∧ u.path = [] ∧ u._query = none ∧ u._fragment = none

lemma authority_ne_nil (hn : ¬ PrintsNothing u) (hh : u._host ≠ none) :
    u.writeAuthority ++ (u.path ++ writeTail u._query u._fragment) ≠ [] := by
  intro hnil
  obtain ⟨h,hh⟩ := ne_none_iff_exists'.1 hh
  rw [writeAuthority_eq hh] at hnil
  simp only [append_eq_nil_iff] at hnil
  obtain ⟨⟨huser,hhost,hport⟩,hpath,htail⟩ := hnil
  refine hn ⟨?_,?_,?_,hpath,?_,?_⟩
  · by_contra hne
    rw [userInfoText,if_pos hne] at huser
    simp at huser
  · rw [hh,hhost]
  · cases hp : u._port with
    | none => rfl
    | some p =>
      rw [hp] at hport
      cases hport
  · cases hq : u._query with
    | none => rfl
    | some q =>
      rw [hq] at htail
      cases htail
  · cases hf : u._fragment with
    | none => rfl
    | some f =>
      rw [hf,writeTail] at htail
      have h := (append_eq_nil_iff.1 htail).2
      cases h

lemma parse_toString (hn : Normal u) (hnothing : ¬ PrintsNothing u)
    (hfile : u.scheme = file → u._host ≠ none) : parse u.toString = .ok u := by
  have hne := authority_ne_nil hnothing
  rw [toString_eq hn hfile]
  by_cases hs : u.scheme = []
  · have hcolon : NoScheme (authorityText u ++ (u.path ++ writeTail u._query u._fragment)) := by
      unfold authorityText
      cases hh : u._host with
      | none =>
        rw [nil_append]
        exact noScheme_append (hn.noColon hs hh) (pathEnd_writeTail _ _)
      | some h => exact noScheme_cons.2 ⟨by decide,.inl rfl⟩
    have hlength : u._host ≠ none →
        2 ≤ (authorityText u ++ (u.path ++ writeTail u._query u._fragment)).length := by
      intro hh
      obtain ⟨h,hh⟩ := ne_none_iff_exists'.1 hh
      simp [authorityText,hh]
    have hafter := parseAfterScheme_print hn hlength hne
    rw [hs] at hafter
    rw [if_neg (not_not.2 hs),nil_append,parse_noScheme hcolon]
    exact hafter
  · rw [if_pos hs,append_assoc,singleton_append,parse_scheme hn.scheme hs]
    refine parseAfterScheme_print hn (fun _ => ?_) hne
    have hpos := length_pos_iff.2 hs
    rw [length_append,length_cons]
    omega

end Print

/-- A URI that is equal to what its string is parsed to, with the same string. -/
def Stable (u : Uri) : Prop :=
  ∃ v, parse u.toString = .ok v ∧ v.equals u = true ∧ v.toString = u.toString

section Unstable

variable {u : Uri}

lemma equals_self (u : Uri) : u.equals u = true := by
  simp [equals]

lemma hasAuthority_of_equals {v : Uri} (h : v.equals u = true) : v.hasAuthority = u.hasAuthority := by
  simp only [equals,Bool.and_eq_true,beq_iff_eq] at h
  exact h.1.1.1.1.1.1.1.1.2

/-- A file URI without an authority is printed with one. -/
lemma parse_file (hn : Normal u) (hs : u.scheme = file) (hh : u._host = none) :
    parse u.toString = .ok { u with _host := some [] } := by
  obtain ⟨huser,hport, -⟩ := hn.noAuthority hh
  have hhead := hn.filePath hs
  have hnormal : Normal { u with _host := some [] } :=
    { scheme := hn.scheme
      userInfo := hn.userInfo
      host := by
        rintro _ ⟨⟩
        exact .name .nil
      port := hn.port
      path := hn.path
      query := hn.query
      fragment := hn.fragment
      noAuthority := nofun
      rooted := fun _ => .inr hhead
      noColon := nofun
      filePath := hn.filePath }
  have hsome : ¬ PrintsNothing { u with _host := some [] } := by
    rintro ⟨-, -, -,hpath, -⟩
    rw [show u.path = [] from hpath] at hhead
    cases hhead
  have hstring : ({ u with _host := some [] } : Uri).toString = u.toString := by
    simp [toString,writeAuthority,hs,hh]
  rw [← hstring]
  exact parse_toString hnormal hsome nofun

lemma parse_nothing (hn : Normal u) (h : PrintsNothing u) :
    parse u.toString = .ok { u with _host := none } := by
  obtain ⟨huser,hhost,hport,hpath,hquery,hfragment⟩ := h
  have hs : (u.scheme == file) = false := by
    refine beq_false_of_ne fun hs => ?_
    have hhead := hn.filePath hs
    rw [hpath] at hhead
    cases hhead
  have hafter : ∀ n, parseAfterScheme n u.scheme [charSlash,charSlash] = .ok { u with _host := none } := by
    intro n
    have hparse : parseAfterScheme n u.scheme [charSlash,charSlash] =
        .ok ⟨u.scheme,[],none,none,[],none,none⟩ := by
      simp only [parseAfterScheme,parseSlashes,parseAuth,and_self,if_true,isEmpty_nil,ok_bind]
      rw [isSome_none,hs]
      rfl
    rw [hparse,huser,hport,hpath,hquery,hfragment]
  have hstring : u.toString = (if u.scheme ≠ [] then u.scheme ++ [charColon] else []) ++
      [charSlash,charSlash] := by
    simp [toString,writeAuthority,writeAfter,hasAuthority,huser,hhost,hport,hpath,hquery,hfragment]
  rw [hstring]
  by_cases hempty : u.scheme = []
  · rw [if_neg (not_not.2 hempty),nil_append,parse_noScheme]
    · have h := hafter [charSlash,charSlash].length
      rw [hempty] at h ⊢
      exact h
    · exact noScheme_cons.2 ⟨by decide,.inl rfl⟩
  · rw [if_pos hempty,append_assoc,singleton_append,parse_scheme hn.scheme hempty]
    exact hafter _

lemma stable_iff (hn : Normal u) :
    Stable u ↔ ¬(PrintsNothing u ∨ u.scheme = file ∧ u._host = none) := by
  constructor
  · rintro ⟨v,hparse,hequals, -⟩ (hnothing | ⟨hs,hh⟩)
    · rw [parse_nothing hn hnothing] at hparse
      obtain rfl := ok.inj hparse
      have hauthority := hasAuthority_of_equals hequals
      rw [hasAuthority,hasAuthority,hnothing.2.1] at hauthority
      cases hauthority
    · rw [parse_file hn hs hh] at hparse
      obtain rfl := ok.inj hparse
      have hauthority := hasAuthority_of_equals hequals
      rw [hasAuthority,hasAuthority,hh] at hauthority
      cases hauthority
  · intro h
    rw [not_or,not_and] at h
    exact ⟨u,parse_toString hn h.1 h.2,equals_self u,rfl⟩

end Unstable

/-- An authority without user information and host, and with no port, an empty one or the default. -/
def EmptyAuthority (scheme a : Text) : Prop :=
  ∃ at' port, a = at' ++ port ∧ (at' = [] ∨ at' = [charAtSign]) ∧
    (port = [] ∨ ∃ digits, port = charColon :: digits ∧ Digits digits ∧
      (digits = [] ∨ digitsNumber digits = defaultPort scheme))

/-- A file URI without an authority, or an authority that is not empty but says nothing, at the end. -/
def Unstable (s : Text) : Prop :=
  if (schemeAndRest s).1 = file then
    ¬ ∃ c rest, (schemeAndRest s).2 = charSlash :: charSlash :: c :: rest
  else
    ∃ a, (schemeAndRest s).2 = charSlash :: charSlash :: a ∧ a ≠ [] ∧ EmptyAuthority (schemeAndRest s).1 a

section Texts

variable {s full text scheme : Text} {u : Uri}

lemma scanAuth_spec {i index : ℕ} {inside : Bool} {lastColon lastAt colon' at' : Option ℕ}
    (h : scanAuth text i inside lastColon lastAt = (index,colon',at')) (htext : full.drop i = text)
    (hi : i ≤ full.length)
    (hcolon : ∀ k, lastColon = some k → k < i ∧ full[k]? = some charColon ∧ ∀ j, lastAt = some j → j < k)
    (hat : ∀ k, lastAt = some k → k < i ∧ full[k]? = some charAtSign) : index ≤ full.length ∧
      (∀ k, colon' = some k → k < index ∧ full[k]? = some charColon ∧ ∀ j, at' = some j → j < k) ∧
      ∀ k, at' = some k → k < index ∧ full[k]? = some charAtSign := by
  induction text generalizing i inside lastColon lastAt with
  | nil =>
    cases h
    exact ⟨hi,hcolon,hat⟩
  | cons c rest ih =>
    have hget : full[i]? = some c := by
      rw [← head?_drop,htext]
      rfl
    have hrest : full.drop (i+1) = rest := by
      rw [← tail_drop,htext]
      rfl
    have hi' : i+1 ≤ full.length := (List.getElem?_eq_some_iff.1 hget).1
    have hcolon' : ∀ k, lastColon = some k →
        k < i+1 ∧ full[k]? = some charColon ∧ ∀ j, lastAt = some j → j < k := fun k hk =>
      ⟨(hcolon k hk).1.trans (lt_succ_self i),(hcolon k hk).2⟩
    have hat' : ∀ k, lastAt = some k → k < i+1 ∧ full[k]? = some charAtSign := fun k hk =>
      ⟨(hat k hk).1.trans (lt_succ_self i),(hat k hk).2⟩
    cases inside with
    | true =>
      rw [scanAuth] at h
      exact ih h hrest hi' hcolon' hat'
    | false =>
      rw [scanAuth] at h
      split_ifs at h with hend hsign hmark hbracket hclosed
      · cases h
        exact ⟨hi,hcolon,hat⟩
      · refine ih h hrest hi' nofun ?_
        rintro k ⟨⟩
        exact ⟨lt_succ_self i,hget.trans (congrArg some hsign)⟩
      · refine ih h hrest hi' ?_ hat'
        rintro k ⟨⟩
        exact ⟨lt_succ_self i,hget.trans (congrArg some hmark),fun j hj => (hat j hj).1⟩
      · exact ih h hrest hi' nofun hat'
      · have hlength : i+1+rest.length = full.length := by
          rw [← hrest,length_drop]
          omega
        cases h
        refine ⟨hlength.le,nofun,fun k hk => ⟨?_,(hat k hk).2⟩⟩
        have := (hat k hk).1
        omega
      · exact ih h hrest hi' hcolon' hat'

lemma authUserInfo_nil {lastAt : Option ℕ} (h : authUserInfo text lastAt = .ok []) :
    ∀ k, lastAt = some k → text.take k = [] := by
  rintro k rfl
  exact (normalize_spec userinfoTable_component h).eq_nil

lemma authPort_none {index : ℕ} {lastColon : Option ℕ} (h : authPort scheme text index lastColon = .ok none) :
    ∀ k, lastColon = some k → Digits ((text.take index).drop (k+1)) ∧
      ((text.take index).drop (k+1) = [] ∨
        digitsNumber ((text.take index).drop (k+1)) = defaultPort scheme) := by
  rintro k rfl
  obtain ⟨portNumber,hnumber,h⟩ := bind_eq_ok h
  obtain ⟨hdigits,rfl⟩ := parsePort_spec hnumber
  refine ⟨hdigits,?_⟩
  have hport : makePort _ scheme = none := ok.inj h
  by_cases hempty : (text.take index).drop (k+1) = []
  · exact .inl hempty
  · rw [if_neg hempty,makePort] at hport
    split_ifs at hport with hdefault
    exact .inr (some_inj.1 hdefault)

lemma cons_of_getElem? {a : Text} {c : ℕ} (h : a[0]? = some c) : a = c :: a.drop 1 := by
  cases a with
  | nil => cases h
  | cons d a =>
    cases h
    rfl

/-- An authority that is printed as nothing and ends the text is an empty one. -/
lemma emptyAuthority_of_parseAuth {n : ℕ} {a : Text} {auth : Auth} (h : parseAuth n scheme a = .ok auth)
    (hhost : auth.host = some []) (huser : auth.userInfo = []) (hport : auth.port = none)
    (hrest : auth.rest = []) : a ≠ [] ∧ EmptyAuthority scheme a := by
  obtain ⟨rfl,rfl⟩ | ⟨hne,index,lastColon,lastAt,userInfo,port,host,hscan,hu,hp,hh,rfl⟩ :=
    parseAuth_cases h
  · cases hhost
  · dsimp only at hhost huser hport hrest
    subst huser hport
    obtain rfl := some_inj.1 hhost
    obtain ⟨hindex,hcolon,hat⟩ := scanAuth_spec hscan rfl (zero_le _) nofun nofun
    have htake : a.take index = a := by
      have happend := take_append_drop index a
      rwa [hrest,append_nil] at happend
    have hzero : ∀ k, lastAt = some k → k = 0 := by
      intro k hk
      have htaken := congrArg length (authUserInfo_nil hu k hk)
      have hbound := (hat k hk).1
      rw [length_take,length_nil] at htaken
      omega
    have hdigits := authPort_none hp
    rw [htake] at hdigits
    have hhostText := makeHost_nil hh
    refine ⟨hne,?_⟩
    cases lastAt with
    | none =>
      cases lastColon with
      | none =>
        rw [getD_none,htake] at hhostText
        exact absurd hhostText hne
      | some k =>
        obtain ⟨hk,hmark, -⟩ := hcolon k rfl
        have hlength := congrArg length hhostText
        rw [hostStart,getD_some,drop_zero,length_take,length_nil] at hlength
        obtain rfl : k = 0 := by omega
        exact ⟨[],a,rfl,.inl rfl,.inr ⟨a.drop 1,cons_of_getElem? hmark,hdigits 0 rfl⟩⟩
    | some j =>
      obtain rfl := hzero j rfl
      have ha := cons_of_getElem? (hat 0 rfl).2
      cases lastColon with
      | none =>
        rw [getD_none,htake] at hhostText
        rw [show a.drop 1 = [] from hhostText] at ha
        exact ⟨[charAtSign],[],ha,.inr rfl,.inl rfl⟩
      | some k =>
        obtain ⟨hk,hmark,hafter⟩ := hcolon k rfl
        have hpos := hafter 0 rfl
        have hlength := congrArg length hhostText
        rw [hostStart,getD_some,length_drop,length_take,length_nil] at hlength
        obtain rfl : k = 1 := by omega
        have hsecond : (a.drop 1)[0]? = some charColon := by rwa [getElem?_drop]
        refine ⟨[charAtSign],a.drop 1,ha,.inr rfl,.inr ⟨(a.drop 1).drop 1,cons_of_getElem? hsecond,?_⟩⟩
        have h := hdigits 1 rfl
        rwa [drop_drop]

/-- An empty authority is parsed to nothing. -/
lemma parseAuth_emptyAuthority {a : Text} (n : ℕ) (hne : a ≠ []) (h : EmptyAuthority scheme a) :
    parseAuth n scheme a = .ok ⟨[],some [],none,[]⟩ := by
  obtain ⟨at',port,rfl,hat,hport⟩ := h
  have hend : AuthorityEnd [] := nofun
  have hport' : ∀ i lastAt, ∃ lastColon,
      scanAuth port i false none lastAt = (i+port.length,lastColon,lastAt) ∧
        (lastColon.getD (i+port.length) = i) ∧
        ∀ text, text.length = i → authPort scheme (text ++ port) (i+port.length) lastColon = .ok none := by
    intro i lastAt
    obtain rfl | ⟨digits,rfl,hdigits,hdefault⟩ := hport
    · exact ⟨none,rfl,rfl,fun _ _ => rfl⟩
    · refine ⟨some i,?_,rfl,?_⟩
      · have hscan : scanAuth (charColon :: digits ++ []) i false none lastAt = _ := scanAuth_port hdigits
        rwa [append_nil,scanAuth_end hend] at hscan
      · rintro text rfl
        have hdrop : drop (text.length+1) (take (text.length+(charColon :: digits).length)
            (text ++ charColon :: digits)) = digits := by
          rw [← length_append,take_length,drop_length_add_append]
          rfl
        rw [authPort,hdrop,parsePort_digits hdigits,ok_bind]
        by_cases hempty : digits = []
        · rw [if_pos hempty]
          rfl
        · rw [if_neg hempty,hdefault.resolve_left hempty,makePort,if_pos rfl]
          rfl
  obtain rfl | rfl := hat
  · obtain ⟨lastColon,hscan,hhost,hnone⟩ := hport' 0 none
    have hp := hnone [] rfl
    rw [zero_add] at hscan hhost hp
    rw [nil_append] at hne hp ⊢
    rw [parseAuth,if_neg (by simpa using hne),hscan]
    dsimp only
    rw [authUserInfo,ok_bind,hp,ok_bind,hhost,take_zero,drop_nil,drop_length]
    rfl
  · obtain ⟨lastColon,hscan,hhost,hnone⟩ := hport' 1 (some 0)
    have hp := hnone [charAtSign] rfl
    have hscan' : scanAuth ([charAtSign] ++ port) 0 false none none =
        (1+port.length,lastColon,some 0) := hscan
    have hrest : ([charAtSign] ++ port).drop (1+port.length) = [] :=
      drop_eq_nil_iff.2 (by rw [length_append]; rfl)
    rw [parseAuth,if_neg (by simp),hscan']
    dsimp only
    rw [hp,hhost,hrest]
    rfl

/-- Which texts are parsed to URIs that are not stable. -/
lemma unstable_iff (h : parse s = .ok u) :
    (PrintsNothing u ∨ u.scheme = file ∧ u._host = none) ↔ Unstable s := by
  have hnormal := parse_normal h
  obtain ⟨hafter, -, -⟩ := parse_cases h
  obtain ⟨auth,path,query,fragment,hauth,hpath,htail,rfl⟩ := parseAfterScheme_cases hafter
  obtain ⟨-, -,hempty⟩ := parseTail_normal htail
  unfold Unstable
  generalize (schemeAndRest s).1 = scheme at *
  generalize (schemeAndRest s).2 = text at *
  by_cases hs : scheme = file
  · have hnothing : ¬ PrintsNothing ⟨scheme,auth.userInfo,auth.host,auth.port,path,query,fragment⟩ := by
      rintro ⟨-, -, -,hnil, -⟩
      have hhead := hnormal.filePath hs
      rw [hnil] at hhead
      cases hhead
    rw [if_pos hs,or_iff_right hnothing,and_iff_right hs]
    obtain ⟨rest,rfl,ha⟩ | ⟨hslashes,rfl⟩ := parseSlashes_cases hauth
    · obtain ⟨rfl,rfl⟩ | ⟨hne,index,lastColon,lastAt,userInfo,port,host, -, -, -, -,rfl⟩ :=
        parseAuth_cases ha
      · refine iff_of_true rfl ?_
        rintro ⟨c,rest,heq⟩
        cases heq
      · refine iff_of_false nofun (not_not.2 ?_)
        obtain ⟨c,rest',rfl⟩ := exists_cons_of_ne_nil hne
        exact ⟨c,rest',rfl⟩
    · refine iff_of_true rfl ?_
      rintro ⟨c,rest,rfl⟩
      exact hslashes ⟨c :: rest,rfl⟩
  · rw [if_neg hs,or_iff_left fun hfile => hs hfile.1]
    obtain ⟨t,ht,hpath⟩ := makePath_eq hpath
    constructor
    · rintro ⟨huser,hhost,hport,hnil,hquery,hfragment⟩
      dsimp only at huser hhost hport hnil hquery hfragment
      have hnone : t = [] := by
        by_contra hne
        rw [hnil,if_neg hne] at hpath
        split_ifs at hpath
        exact hne hpath.symm
      have hbefore : (auth.rest.takeWhile fun c => !isPathEnd c) = [] :=
        (normalize_spec pathCharOrSlashTable_component (hnone ▸ ht)).eq_nil
      have hrest : auth.rest = [] := by
        rw [← takeWhile_append_dropWhile (l := auth.rest),hbefore,
          hempty hquery hfragment,nil_append]
      obtain ⟨rest,rfl,ha⟩ | ⟨-,rfl⟩ := parseSlashes_cases hauth
      · exact ⟨rest,rfl,emptyAuthority_of_parseAuth ha hhost huser hport hrest⟩
      · cases hhost
    · rintro ⟨a,rfl,hne,ha⟩
      rw [parseSlashes,if_pos ⟨rfl,rfl⟩,parseAuth_emptyAuthority _ hne ha] at hauth
      obtain rfl := ok.inj hauth
      obtain rfl : [] = t := ok.inj ht
      cases htail
      refine ⟨rfl,rfl,rfl,?_,rfl,rfl⟩
      rw [hpath,if_pos rfl,if_neg (by simpa using hs)]

end Texts

/-- A text that is parsed is printed and parsed again without a change exactly when it is neither a
file URI without an authority nor ends in an authority that says nothing. -/
theorem parse_stable_iff (s : Text) (u : Uri) (h : parse s = .ok u) : Stable u ↔ ¬ Unstable s := by
  rw [stable_iff (parse_normal h),unstable_iff h]

/-- `http://a/b?c`. -/
def sampleText : Text := [0x68,0x74,0x74,0x70,0x3A,0x2F,0x2F,0x61,0x2F,0x62,0x3F,0x63]

theorem parse_stable_sample :
    Stable ⟨http,[],some [0x61],none,[0x2F,0x62],some [0x63],none⟩ ↔ ¬ Unstable sampleText :=
  parse_stable_iff sampleText _ rfl

/-- `file:/x` is printed as `file:///x`, which has an authority. -/
theorem parse_file_unstable :
    parse [0x66,0x69,0x6C,0x65,0x3A,0x2F,0x78] = .ok ⟨file,[],none,none,[0x2F,0x78],none,none⟩ ∧
      parse (toString ⟨file,[],none,none,[0x2F,0x78],none,none⟩) =
        .ok ⟨file,[],some [],none,[0x2F,0x78],none,none⟩ ∧
      equals ⟨file,[],some [],none,[0x2F,0x78],none,none⟩
        ⟨file,[],none,none,[0x2F,0x78],none,none⟩ = false :=
  ⟨rfl,rfl,rfl⟩

end DartSdk.Uri
