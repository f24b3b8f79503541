import Mathlib

/-! Model of the containment tests of `FlatTypeMask` and `UnionTypeMask` in
`pkg/compiler/lib/src/types`. They answer for exact masks of basic types as if a basic type had one
implementation, and are sound in exactly those worlds where it has. -/
namespace DartSdk.Types
open List

/-- A closed world. The live classes are those that are directly instantiated; their supertypes
count as instantiated as well. -/
structure World (C : Type) where
  objectClass : C
  stringClass : C
  stringImplementation : C
  boolClass : C
  boolImplementation : C
  intClass : C
  intImplementation : C
  positiveIntImplementation : C
  uint32Implementation : C
  uint31Implementation : C
  doubleClass : C
  doubleImplementation : C
  isSubclassOf : C → C → Bool
  isSubtypeOf : C → C → Bool
  isInstantiated : C → Bool
  directlyInstantiatedClasses : List C
  subclass_trans : ∀ {a b c}, isSubclassOf a b → isSubclassOf b c → isSubclassOf a c
  subtype_refl : ∀ c, isSubtypeOf c c
  subtype_trans : ∀ {a b c}, isSubtypeOf a b → isSubtypeOf b c → isSubtypeOf a c
  subtype_of_subclass : ∀ {a b}, isSubclassOf a b → isSubtypeOf a b
  subclass_object : ∀ c, isSubclassOf c objectClass
  instantiated : ∀ c ∈ directlyInstantiatedClasses, isInstantiated c

variable {C : Type} [DecidableEq C]

namespace World

section
variable (w : World C) (cls : C)

/-- `subclassesOf`, which `populate` fills with the live classes below a class. -/
def subclassesOf : List C :=
  w.directlyInstantiatedClasses.filter fun c => c ≠ cls ∧ w.isSubclassOf c cls

def subtypesOf : List C :=
  w.directlyInstantiatedClasses.filter fun c => c ≠ cls ∧ w.isSubtypeOf c cls

def hasAnySubclass : Bool := !(w.subclassesOf cls).isEmpty

def hasAnySubtype : Bool := !(w.subtypesOf cls).isEmpty

def hasOnlySubclasses : Bool :=
  (w.subclassesOf cls).length = (w.subtypesOf cls).length

/-- The classes of the basic type that `base` belongs to. -/
def implementations (base : C) : List C :=
  if base = w.stringClass ∨ base = w.stringImplementation then
    [w.stringClass,w.stringImplementation]
  else if base = w.boolClass ∨ base = w.boolImplementation then [w.boolClass,w.boolImplementation]
  else if base ∈ [w.intClass,w.intImplementation,w.positiveIntImplementation,
      w.uint31Implementation,w.uint32Implementation] then
    [w.intClass,w.intImplementation,w.positiveIntImplementation,w.uint32Implementation,
      w.uint31Implementation]
  else if base = w.doubleClass ∨ base = w.doubleImplementation then
    [w.doubleClass,w.doubleImplementation]
  else []

end

end World

inductive Kind
  | exact
  | subclass
  | subtype
  deriving DecidableEq

inductive FlatTypeMask (C : Type)
  | empty (isNullable : Bool)
  | of (kind : Kind) (base : C) (isNullable : Bool)

namespace FlatTypeMask

def isNullable : FlatTypeMask C → Bool
  | empty n | of _ _ n => n

def nonNullable : FlatTypeMask C → FlatTypeMask C
  | empty _ => empty false
  | of kind base _ => of kind base false

variable (w : World C)

def contains : FlatTypeMask C → C → Bool
  | empty _, _ => false
  | of .exact base _, cls => base = cls
  | of .subclass base _, cls => base = cls ∨ w.isSubclassOf cls base
  | of .subtype base _, cls => base = cls ∨ w.isSubtypeOf cls base

/-- `getNotNormalizedReason` has no reason. -/
def isNormalized : FlatTypeMask C → Bool
  | empty _ => true
  | of .exact base _ => w.isInstantiated base
  | of .subclass base _ => w.hasAnySubclass base
  | of .subtype base _ => w.hasAnySubtype base && !w.hasOnlySubclasses base

/-- `isSingleImplementationOf`, of the base of a mask. -/
def isSingleImplementationOf (base cls : C) : Bool := cls ∈ w.implementations base

def isInFlat : FlatTypeMask C → FlatTypeMask C → Bool
  | empty n, other => if n then other.isNullable else true
  | of _ _ _, empty _ => false
  | of kind base n, of otherKind otherBase otherNull =>
    if n && !otherNull then false
    else
      match otherKind with
      | .exact => (kind = .exact ∧ base = otherBase) || isSingleImplementationOf w base otherBase
      | .subclass =>
        if kind = .subtype then otherBase = w.objectClass else w.isSubclassOf base otherBase
      | .subtype => w.isSubtypeOf base otherBase

end FlatTypeMask

inductive TypeMask (C : Type)
  | flat (mask : FlatTypeMask C)
  | union (disjointMasks : List (FlatTypeMask C))

namespace TypeMask

def masks : TypeMask C → List (FlatTypeMask C)
  | flat mask => [mask]
  | union disjointMasks => disjointMasks

def isNullable (m : TypeMask C) : Bool := m.masks.any (·.isNullable)

section
variable (w : World C)

def contains (m : TypeMask C) (cls : C) : Bool := m.masks.any (·.contains w cls)

def isNormalized (m : TypeMask C) : Bool := m.masks.all (·.isNormalized w)

/-- Some mask contains the given one, whose nullability has been compared before. -/
def containedInAnyOf (mask : FlatTypeMask C) (masks : List (FlatTypeMask C)) : Bool :=
  masks.any fun other => mask.nonNullable.isInFlat w other

def isInMask : TypeMask C → TypeMask C → Bool
  | flat mask, flat other => mask.isInFlat w other
  | flat (.empty n), union others => if n then (union others).isNullable else true
  | flat mask, union others =>
    if mask.isNullable && !(union others).isNullable then false else containedInAnyOf w mask others
  | union masks, other =>
    if (union masks).isNullable && !other.isNullable then false
    else
      match other with
      | flat other => masks.all (·.isInFlat w other)
      | union others => masks.all (containedInAnyOf w · others)

def containsMask : TypeMask C → TypeMask C → Bool
  | flat mask, other => other.isInMask w (flat mask)
  | union masks, other =>
    if other.isNullable && !(union masks).isNullable then false
    else
      match other with
      | flat other => containedInAnyOf w other masks
      | union others => (union others).isInMask w (union masks)

/-- Every live class, and null, in the meaning of `a` is in that of `b`. -/
def Within (a b : TypeMask C) : Prop :=
  (∀ cls ∈ w.directlyInstantiatedClasses, a.contains w cls → b.contains w cls) ∧
    (a.isNullable → b.isNullable)

end

end TypeMask

namespace World

/-- The containment tests are right for all normalized masks. -/
def Sound (w : World C) : Prop := ∀ a b : TypeMask C, a.isNormalized w → b.isNormalized w →
  a.isInMask w b ∨ b.containsMask w a → a.Within w b

/-- An instantiated class of a basic type is the only live class below the classes of its type. -/
def Single (w : World C) : Prop := ∀ base, ∀ cls ∈ w.implementations base, w.isInstantiated cls →
  ∀ c ∈ w.directlyInstantiatedClasses, w.isSubtypeOf c base → c = cls

end World

variable {w : World C}

lemma FlatTypeMask.contains_subtype {kind : Kind} {base c : C} {n : Bool}
    (h : (of kind base n).contains w c) : w.isSubtypeOf c base := by
  cases kind <;> simp only [contains,decide_eq_true_eq] at h
  · exact h ▸ w.subtype_refl c
  · rcases h with rfl | h
    · exact w.subtype_refl _
    · exact w.subtype_of_subclass h
  · rcases h with rfl | h
    · exact w.subtype_refl _
    · exact h

lemma FlatTypeMask.isInFlat_contains (hw : w.Single) {a b : FlatTypeMask C}
    (hb : b.isNormalized w) (h : a.nonNullable.isInFlat w b) {c : C}
    (hc : c ∈ w.directlyInstantiatedClasses) (ha : a.contains w c) : b.contains w c := by
  match a, b with
  | .empty _, _ => simp [contains] at ha
  | .of _ _ _, .empty _ => simp [isInFlat,nonNullable] at h
  | .of kind base _, .of otherKind otherBase n =>
    have hsub := contains_subtype ha
    cases otherKind with
    | exact =>
      simp only [nonNullable,isInFlat,isSingleImplementationOf,Bool.false_and,Bool.false_eq_true,
        if_false,Bool.or_eq_true,decide_eq_true_eq] at h
      rcases h with ⟨rfl,rfl⟩ | h
      · exact ha
      · exact decide_eq_true (hw base otherBase h hb c hc hsub).symm
    | subclass =>
      simp only [nonNullable,isInFlat,Bool.false_and,Bool.false_eq_true,if_false] at h
      split_ifs at h with hkind
      · exact decide_eq_true (.inr (of_decide_eq_true h ▸ w.subclass_object c))
      · cases kind with
        | exact => exact decide_eq_true (.inr (of_decide_eq_true ha ▸ h))
        | subclass =>
          rcases of_decide_eq_true ha with rfl | hc
          · exact decide_eq_true (.inr h)
          · exact decide_eq_true (.inr (w.subclass_trans hc h))
        | subtype => exact absurd rfl hkind
    | subtype =>
      exact decide_eq_true (.inr (w.subtype_trans hsub h))

lemma FlatTypeMask.isInFlat_nonNullable {a b : FlatTypeMask C} (h : a.isInFlat w b) :
    a.nonNullable.isInFlat w b ∧ (a.isNullable → b.isNullable) := by
  match a, b with
  | .empty n, other =>
    refine ⟨by simp [isInFlat,nonNullable],fun hn : n = true => ?_⟩
    simpa [isInFlat,hn] using h
  | .of _ _ _, .empty _ => simp [isInFlat] at h
  | .of kind base n, .of otherKind otherBase m =>
    by_cases hn : (n && !m) = true
    · simp [isInFlat,hn] at h
    · simp only [isInFlat,if_neg hn] at h
      exact ⟨by simpa [nonNullable,isInFlat] using h,by simpa [isNullable] using hn⟩

namespace TypeMask

variable {a b : TypeMask C}

lemma within_of_masks (hw : w.Single) (hb : b.isNormalized w) (hn : a.isNullable → b.isNullable)
    (h : ∀ m ∈ a.masks, containedInAnyOf w m b.masks) : a.Within w b := by
  refine ⟨fun c hc ha => ?_,hn⟩
  obtain ⟨m,hm,hmc⟩ := any_eq_true.1 ha
  obtain ⟨o,ho,hmo⟩ := any_eq_true.1 (h m hm)
  have hnorm := all_eq_true.1 hb o ho
  exact any_eq_true.2 ⟨o,ho,FlatTypeMask.isInFlat_contains hw hnorm hmo hc hmc⟩

lemma isInMask_within (hw : w.Single) (hb : b.isNormalized w) (h : a.isInMask w b) :
    a.Within w b := by
  match a, b with
  | flat mask, flat other =>
    obtain ⟨hin,hn⟩ := FlatTypeMask.isInFlat_nonNullable h
    exact within_of_masks hw hb (by simpa [isNullable,masks] using hn)
      (by simpa [masks,containedInAnyOf] using hin)
  | flat (.empty n), union others =>
    refine ⟨by simp [contains,masks,FlatTypeMask.contains],?_⟩
    cases n with
    | false => simp [isNullable,masks,FlatTypeMask.isNullable]
    | true => exact fun _ => h
  | flat (.of kind base n), union others =>
    simp only [isInMask] at h
    split_ifs at h with hn
    exact within_of_masks hw hb (by simpa [isNullable,masks] using hn) (by simpa [masks] using h)
  | union masks, flat other =>
    simp only [isInMask] at h
    split_ifs at h with hn
    refine within_of_masks hw hb (by simpa using hn) fun m hm => ?_
    have hin := FlatTypeMask.isInFlat_nonNullable (all_eq_true.1 h m hm)
    simpa [TypeMask.masks,containedInAnyOf] using hin.1
  | union masks, union others =>
    simp only [isInMask] at h
    split_ifs at h with hn
    exact within_of_masks hw hb (by simpa using hn) fun m hm => all_eq_true.1 h m hm

lemma containsMask_within (hw : w.Single) (hb : b.isNormalized w) (h : b.containsMask w a) :
    a.Within w b := by
  match a, b with
  | _, flat mask => exact isInMask_within hw hb h
  | flat other, union masks =>
    simp only [containsMask] at h
    split_ifs at h with hn
    exact within_of_masks hw hb (by simpa using hn) (by simpa [TypeMask.masks] using h)
  | union others, union masks =>
    simp only [containsMask] at h
    split_ifs at h with hn
    exact isInMask_within hw hb h

end TypeMask

/-- A live class below another is in a normalized mask of the other. -/
lemma World.exists_mask {base c : C} (hc : c ∈ w.directlyInstantiatedClasses)
    (hsub : w.isSubtypeOf c base) : ∃ kind, (FlatTypeMask.of kind base false).isNormalized w ∧
      (FlatTypeMask.of kind base false).contains w c := by
  by_cases heq : c = base
  · exact ⟨.exact,w.instantiated base (heq ▸ hc),decide_eq_true heq.symm⟩
  have hmem : c ∈ w.subtypesOf base := mem_filter.2 ⟨hc,decide_eq_true ⟨heq,hsub⟩⟩
  by_cases honly : w.hasOnlySubclasses base
  · have hsublist : (w.subclassesOf base).Sublist (w.subtypesOf base) := by
      refine monotone_filter_right _ fun d hd => ?_
      simp only [decide_eq_true_eq] at hd ⊢
      exact ⟨hd.1,w.subtype_of_subclass hd.2⟩
    rw [← hsublist.eq_of_length (of_decide_eq_true honly)] at hmem
    refine ⟨.subclass,?_,decide_eq_true (.inr (of_decide_eq_true (mem_filter.1 hmem).2).2)⟩
    simpa [FlatTypeMask.isNormalized,hasAnySubclass] using ne_nil_of_mem hmem
  · refine ⟨.subtype,?_,decide_eq_true (.inr hsub)⟩
    simpa [FlatTypeMask.isNormalized,hasAnySubtype,honly] using ne_nil_of_mem hmem

/-- The classes of the basic types, with their implementations in `js_lib`. -/
inductive Core
  | object | string | jsString | bool | jsBool | int | jsInt | jsPositiveInt | jsUInt32 | jsUInt31
  | double | jsDouble
  deriving DecidableEq

instance : Fintype Core where
  elems := {.object, .string, .jsString, .bool, .jsBool, .int, .jsInt, .jsPositiveInt, .jsUInt32,
    .jsUInt31, .double, .jsDouble}
  complete c := by cases c <;> decide

def Core.superclasses : Core → List Core
  | jsPositiveInt => [jsInt]
  | jsUInt32 => [jsPositiveInt,jsInt]
  | jsUInt31 => [jsUInt32,jsPositiveInt,jsInt]
  | _ => []

def Core.interfaces : Core → List Core
  | jsString => [string]
  | jsBool => [bool]
  | jsInt | jsPositiveInt | jsUInt32 | jsUInt31 => [int,double]
  | jsDouble => [double]
  | _ => []

def core : World Core where
  objectClass := .object
  stringClass := .string
  stringImplementation := .jsString
  boolClass := .bool
  boolImplementation := .jsBool
  intClass := .int
  intImplementation := .jsInt
  positiveIntImplementation := .jsPositiveInt
  uint32Implementation := .jsUInt32
  uint31Implementation := .jsUInt31
  doubleClass := .double
  doubleImplementation := .jsDouble
  isSubclassOf a b := b = .object ∨ a = b ∨ b ∈ a.superclasses
  isSubtypeOf a b := b = .object ∨ a = b ∨ b ∈ a.superclasses ++ a.interfaces
  isInstantiated _ := true
  directlyInstantiatedClasses :=
    [.jsString,.jsBool,.jsInt,.jsPositiveInt,.jsUInt32,.jsUInt31,.jsDouble]
  subclass_trans := by decide +kernel
  subtype_refl := by decide
  subtype_trans := by decide +kernel
  subtype_of_subclass := by decide
  subclass_object := by decide
  instantiated := by decide

end DartSdk.Types
