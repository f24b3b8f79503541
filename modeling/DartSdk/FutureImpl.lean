import Mathlib.Tactic.Common

/-! `_AsyncCompleter` with `_asyncComplete`, `_chainCoreFuture` and `_propagateToListeners`, up to
the first callback that is entered. What is not complete is the result of at most one listener, and
what may be completed is the result of none, so that the listeners below it form a tree. -/
namespace DartSdk.FutureImpl

/-- `_FutureListener.state`. -/
inductive Kind
  | chain | onThen | thenOnError | catchError | catchErrorTest | whenComplete
  deriving DecidableEq

def Kind.handlesValue (kind : Kind) : Bool := kind = .onThen ∨ kind = .thenOnError

def Kind.handlesError (kind : Kind) : Bool :=
  kind = .thenOnError ∨ kind = .catchError ∨ kind = .catchErrorTest

def Kind.handlesComplete (kind : Kind) : Bool := kind = .whenComplete

/-- The listeners of a future in the order of their registration, each with those of its result. -/
inductive Listeners
  | none
  | listener (kind : Kind) (sameErrorZone : Bool) (result next : Listeners)

inductive State
  | incomplete | pendingComplete | chained | value | error
  deriving DecidableEq

structure Future where
  state : State := .incomplete
  listeners : Listeners := .none

variable (future : Future)

def Future.mayComplete : Prop := future.state = .incomplete
def Future.hasError : Bool := future.state = .error
def Future.isComplete : Prop := future.state = .value ∨ future.state = .error

instance (future : Future) : Decidable future.mayComplete := inferInstanceAs (Decidable (_ = _))
instance (future : Future) : Decidable future.isComplete := inferInstanceAs (Decidable (_ ∨ _))

/-- Whether a result of the source makes the listener run a callback. -/
def Kind.runs (hasError : Bool) (kind : Kind) : Bool :=
  (if hasError then kind.handlesError else kind.handlesValue) || kind.handlesComplete

/-- `_propagateToListeners`; the outcome is an error where a callback of this kind is entered. -/
def propagateToListeners (hasError : Bool) : Listeners → Except Kind Unit
  | .none => .ok ()
  | .listener kind sameErrorZone result next =>
    -- An error that would leave its zone is reported there and not passed on.
    (if hasError ∧ !sameErrorZone then .ok ()
      else if kind.runs hasError then .error kind
      else propagateToListeners hasError result) >>= fun _ => propagateToListeners hasError next

/-- `_addListener` of a future that is not complete. -/
def addListener (kind : Kind) (sameErrorZone : Bool) (result : Listeners) : Listeners → Listeners
  | .none => .listener kind sameErrorZone result .none
  | .listener k z r next => .listener k z r (addListener kind sameErrorZone result next)

/-- What `complete` is called with; a future of another class calls back in later microtasks. -/
inductive Argument
  | value
  | core (source : Future) (sameErrorZone : Bool)
  | foreign

inductive Microtask
  | completeWithValue
  | completeError
  | chainCoreFuture (source : Future) (sameErrorZone : Bool)

/-- The future after the call, what it waits for and what is scheduled. -/
structure Effect where
  future : Future
  source : Option Future := none
  scheduled : List Microtask := []

inductive Stop
  | stateError
  | callback (kind : Kind)

def Future.chainCoreFuture (target source : Future) (sameErrorZone : Bool) : Except Kind Effect :=
  if source.isComplete then
    (propagateToListeners source.hasError (.listener .chain sameErrorZone target.listeners .none)).map
      fun _ => ⟨⟨if source.hasError ∧ !sameErrorZone then .chained else source.state,.none⟩,none,[]⟩
  else .ok ⟨{ target with state := .chained },
    some { source with listeners := addListener .chain sameErrorZone target.listeners source.listeners },[]⟩

def Future.asyncComplete : Argument → Except Kind Effect
  | .value => .ok ⟨{ future with state := .pendingComplete },none,[.completeWithValue]⟩
  | .core source sameErrorZone =>
    if source.isComplete ∧ source.hasError then
      .ok ⟨{ future with state := .pendingComplete },none,[.chainCoreFuture source sameErrorZone]⟩
    else future.chainCoreFuture source sameErrorZone
  | .foreign => .ok ⟨{ future with state := .chained },none,[]⟩

def Future.asyncCompleteError : Effect :=
  ⟨{ future with state := .pendingComplete },none,[.completeError]⟩

inductive Call
  | complete (argument : Argument)
  | completeError

/-- A call of the completer of a future. -/
def Call.run (call : Call) (future : Future) : Except Stop Effect :=
  if future.mayComplete then
    match call with
    | complete argument => (future.asyncComplete argument).mapError .callback
    | completeError => .ok future.asyncCompleteError
  else .error .stateError

/-- Some listener of the tree is of such a kind. -/
def Listeners.Any (p : Kind → Prop) : Listeners → Prop
  | .none => False
  | .listener kind _ result next => p kind ∨ result.Any p ∨ next.Any p

/-- Of the listeners that run a callback with a value one is reached first, as the ones above it pass
the value on. -/
lemma propagateToListeners_ok_iff (listeners : Listeners) :
    propagateToListeners false listeners = .ok () ↔ ¬ listeners.Any (Kind.runs false ·) := by
  induction listeners with
  | none => simp [propagateToListeners,Listeners.Any]
  | listener kind sameErrorZone result next ihresult ihnext =>
    simp only [propagateToListeners,Listeners.Any,not_or,← ihresult,← ihnext]
    cases hruns : kind.runs false with
    | true => simp [bind,Except.bind]
    | false =>
      cases hresult : propagateToListeners false result with
      | error k => simp [bind,Except.bind]
      | ok u => simp [bind,Except.bind]

/-- The future is completed with a value that is there already, and a callback waits for it. -/
def Call.Hasty (call : Call) (future : Future) : Prop :=
  (∃ source sameErrorZone, call = .complete (.core source sameErrorZone) ∧ source.state = .value) ∧
    future.listeners.Any fun kind => kind.handlesValue ∨ kind.handlesComplete

lemma chainCoreFuture_value {target source : Future} (sameErrorZone : Bool)
    (hv : source.state = .value) : (∃ e, target.chainCoreFuture source sameErrorZone = .ok e) ↔
      ¬ target.listeners.Any fun kind => kind.handlesValue ∨ kind.handlesComplete := by
  have hkinds : (fun kind : Kind => (kind.handlesValue : Prop) ∨ kind.handlesComplete) =
      fun kind => (kind.runs false : Prop) := by
    funext kind
    simp [Kind.runs]
  have hchain : propagateToListeners false (.listener .chain sameErrorZone target.listeners .none) =
      .ok () ↔ ¬ target.listeners.Any (Kind.runs false ·) := by
    rw [propagateToListeners_ok_iff]
    simp [Listeners.Any,Kind.runs,Kind.handlesValue,Kind.handlesComplete]
  have hcomplete : source.isComplete := .inl hv
  have herror : source.hasError = false := by simp [Future.hasError,hv]
  rw [Future.chainCoreFuture,if_pos hcomplete,herror,hkinds,← hchain]
  cases propagateToListeners false (.listener .chain sameErrorZone target.listeners .none) <;>
    simp [Except.map]

/-- A completer calls back before its call returns exactly if its future is completed with a core
future that has a value, and a callback waits somewhere below the listeners of the future. -/
theorem callback_after_return_iff (future : Future) (call : Call) :
    (∀ kind, call.run future ≠ .error (.callback kind)) ↔
      (future.mayComplete → ¬ call.Hasty future) := by
  by_cases hmay : future.mayComplete
  · unfold Call.run
    rw [if_pos hmay,imp_iff_right hmay]
    rcases call with (- | ⟨source,sameErrorZone⟩ | -) | -
    · simp [Future.asyncComplete,Call.Hasty,Except.mapError]
    · have hcall : Call.Hasty (.complete (.core source sameErrorZone)) future ↔ source.state = .value ∧
          future.listeners.Any fun kind => kind.handlesValue ∨ kind.handlesComplete := by
        simp [Call.Hasty]
      rw [hcall]
      by_cases hv : source.state = .value
      · have hdelay : ¬ (source.isComplete ∧ source.hasError) := by simp [Future.hasError,hv]
        rw [and_iff_right hv,← chainCoreFuture_value sameErrorZone hv]
        simp only [Future.asyncComplete,if_neg hdelay]
        cases future.chainCoreFuture source sameErrorZone <;> simp [Except.mapError]
      · simp only [Future.asyncComplete,Future.chainCoreFuture,Future.isComplete,Future.hasError]
        split_ifs <;> simp_all [Except.mapError]
    · simp [Future.asyncComplete,Call.Hasty,Except.mapError]
    · simp [Call.Hasty]
  · simp [Call.run,hmay]

/-- A callback of `then` runs while its future is completed with a future that has a value. -/
theorem complete_calls_back :
    Call.run (.complete (.core ⟨.value,.none⟩ true)) ⟨.incomplete,.listener .onThen true .none .none⟩ =
      .error (.callback .onThen) := rfl

end DartSdk.FutureImpl
