import Spreadsheet.Expression.StandardLibrary
import Spreadsheet.Proofs.Expression.Stepwise

/-!
# What stops an evaluation

An evaluation stops at a name without a value, or at a failure. Most failures are
raised by the functions and operators themselves. That a function is called with
a wrong number of arguments depends on the call, and some failures belong to the
text of a formula or to its result and are raised nowhere in an evaluation. What
the functions of a library stop at is up to the library.
-/
namespace Spreadsheet

/-- Whether a result that is an error is one of a given kind. -/
def ErrsOnly {ε α : Type} (P : ε → Prop) (x : Except ε α) : Prop :=
  ∀ e, x = .error e → P e

section
variable {ε α β : Type} {P Q : ε → Prop} {x : Except ε α}

theorem errsOnly_ok (P : ε → Prop) (a : α) : ErrsOnly P (.ok a : Except ε α) := nofun

theorem errsOnly_error {e : ε} (h : P e) : ErrsOnly P (.error e : Except ε α) := by
  rintro _ ⟨⟩
  exact h

theorem ErrsOnly.mono (h : ErrsOnly P x) (hPQ : ∀ e, P e → Q e) : ErrsOnly Q x :=
  fun e he => hPQ e (h e he)

theorem ErrsOnly.map (h : ErrsOnly P x) (g : α → β) : ErrsOnly P (x.map g) := by
  cases x with
  | error e => exact errsOnly_error (h e rfl)
  | ok a => exact errsOnly_ok P _

theorem ErrsOnly.bind {g : α → Except ε β} (h : ErrsOnly P x)
    (hg : ∀ a, x = .ok a → ErrsOnly P (g a)) : ErrsOnly P (x >>= g) := by
  cases x with
  | error e => exact errsOnly_error (h e rfl)
  | ok a => exact hg a rfl

end

/-! ## What functions and operators fail with -/

/-- Whether functions and operators fail so whatever they are called with. -/
def Failure.IsRaised : Failure → Bool
  | unknownFunction _ | unknownLiteral _ | unresolved _ | argumentCount _ | unsupportedResult _ =>
    false
  | _ => true

/-- Whether a result is a failure only if functions and operators fail so. -/
def Raises {α : Type} (x : Except Failure α) : Prop := ErrsOnly (fun e => e.IsRaised = true) x

theorem raises_ok {α : Type} (a : α) : Raises (.ok a : Except Failure α) := errsOnly_ok _ a

theorem raises_error {α : Type} {failure : Failure} (h : failure.IsRaised = true) :
    Raises (.error failure : Except Failure α) := errsOnly_error h

theorem raises_orUnsupported {op : Operator} {a b : Datum} {d : Option Datum} :
    Raises (Datum.orUnsupported op a b d) := by
  cases d with
  | none => exact raises_error rfl
  | some d => exact raises_ok d

theorem raises_checked {op : Operator} {a b n : Int} : Raises (Whole.checked op a b n) := by
  unfold Whole.checked
  split
  · exact raises_ok _
  · exact raises_error rfl

theorem raises_combineWholes {op : Operator} {a b : Int} {x : Except Failure Datum}
    (h : Whole.combine? a b op = some x) : Raises x := by
  have hraised : Raises (Whole.raised a b) := by
    unfold Whole.raised
    split
    · exact raises_error rfl
    · split
      · exact raises_error rfl
      · exact raises_checked
  have hremainder : Raises (Whole.remainder a b) := by
    unfold Whole.remainder
    split
    · exact raises_error rfl
    · exact raises_ok _
  unfold Whole.combine? at h
  split at h <;> cases h
  case h_4 =>
    split
    · exact raises_error rfl
    · exact raises_checked
  all_goals first
    | exact raises_checked
    | exact hremainder
    | exact hraised
    | exact raises_ok _

theorem raises_apply (op : Operator) (a b : Datum) : Raises (Datum.apply op a b) := by
  have hcombine : Raises (Datum.combine op a b) := by
    unfold Datum.combine
    split
    · exact raises_orUnsupported
    · split
      · exact raises_combineWholes ‹_›
      · exact raises_error rfl
    · split
      · exact raises_orUnsupported
      · split
        · exact raises_orUnsupported
        · exact raises_orUnsupported
        · exact raises_error rfl
  unfold Datum.apply
  split
  · split
    · exact raises_ok _
    · exact raises_error rfl
  · split
    · exact raises_ok _
    · exact raises_error rfl
  · split
    · exact raises_orUnsupported
    · exact hcombine

theorem raises_applySign (s : Sign) (d : Datum) : Raises (d.applySign s) := by
  unfold Datum.applySign
  split
  · exact raises_ok _
  · split
    · exact raises_error rfl
    · exact raises_ok _
  all_goals first | exact raises_ok _ | exact raises_error rfl

theorem raises_property (name : String) (d : Datum) : Raises (d.property name) := by
  unfold Datum.property
  split
  · exact raises_ok _
  · split
    · exact raises_ok _
    · exact raises_error rfl

theorem raises_element (base index : Datum) : Raises (base.element index) := by
  have hdigits : ∀ m first last p, Raises (Datum.digitsIn m first last p) := by
    intro m first last p
    unfold Datum.digitsIn
    split
    · exact raises_error rfl
    · split
      · exact raises_error rfl
      · exact raises_ok _
  have hdigit : ∀ m n, Raises (Datum.digitAt m n) := by
    intro m n
    unfold Datum.digitAt
    split
    · exact raises_ok _
    · exact raises_error rfl
  unfold Datum.element
  split
  · split
    · exact raises_ok _
    · exact raises_error rfl
  · split
    · exact raises_ok _
    · exact raises_error rfl
  · exact hdigit _ _
  · exact hdigits _ _ _ _
  all_goals first | exact raises_ok _ | exact raises_error rfl

theorem raises_numberArgument (f : Builtin) (d : Datum) : Raises (numberArgument f d) := by
  unfold numberArgument
  split
  case h_4 =>
    split
    · exact raises_ok _
    · exact raises_error rfl
  all_goals first | exact raises_ok _ | exact raises_error rfl

theorem raises_numberArguments (f : Builtin) (ds : List Datum) :
    Raises (numberArguments f ds) := by
  induction ds with
  | nil => exact raises_ok _
  | cons d ds ih =>
    rw [numberArguments]
    split
    · exact errsOnly_error (raises_numberArgument f d _ ‹_›)
    · exact ih.map _

namespace Tree

/-! ## What stops the parts stops the whole -/

variable [Library]

/-- Whether an interruption is of a given kind whenever it is a name without a value, a failure that
functions and operators raise whatever they are called with, or one at which a function of the
library stops that has one of the given names. -/
structure Admits (P : Interruption → Prop) (calls : List String) : Prop where
  needs : ∀ n, P (.needs n)
  raised : ∀ failure, failure.IsRaised = true → P (.failed failure)
  library : ∀ name ∈ calls, ∀ ω b ds outcome, Library.call ω b name ds = some outcome →
    ErrsOnly P outcome

section
variable {P : Interruption → Prop} {calls : List String} {ω : Occasion} {b : Bindings}
  {name : String} {ds : List Datum}

omit [Library] in
theorem errsOnly_orFailed {x : Except Failure Datum}
    (h : ErrsOnly (fun failure => P (.failed failure)) x) : ErrsOnly P (orFailed x) := by
  cases x with
  | error failure => exact errsOnly_error (h failure rfl)
  | ok d => exact errsOnly_ok P d

namespace Admits
variable (hP : Admits P calls)
include hP

theorem orFailed {x : Except Failure Datum} (h : Raises x) : ErrsOnly P (orFailed x) :=
  errsOnly_orFailed (h.mono hP.raised)

theorem asCondition (d : Datum) : ErrsOnly P (asCondition d) := by
  have hmismatch := hP.raised (.mismatch d.type .truth) rfl
  cases d
  case truth => exact errsOnly_ok P _
  all_goals exact errsOnly_error hmismatch

theorem value (name : String) : ErrsOnly P (b.value name) := by
  unfold Bindings.value
  split
  · exact errsOnly_ok P _
  · exact errsOnly_error (hP.needs name)

theorem qualifiedValue (path : List String) (name : String) :
    ErrsOnly P (qualifiedValue path name) := by
  unfold Spreadsheet.qualifiedValue
  split
  · exact errsOnly_error (hP.needs _)
  · exact errsOnly_error (hP.raised _ rfl)

theorem qualifiedResult (path : List String) (name : String) (ds : List Datum) :
    ErrsOnly P (qualifiedResult path name ds) := by
  unfold Spreadsheet.qualifiedResult
  split <;> exact errsOnly_error (hP.raised _ rfl)

theorem mapM_value (names : List String) : ErrsOnly P (names.mapM b.value) := by
  induction names with
  | nil => exact errsOnly_ok P _
  | cons name names ih =>
    rw [List.mapM_cons]
    exact (hP.value name).bind fun d _ => ih.bind fun ds _ => errsOnly_ok P _

/-- A wrong number of arguments is found by a function of a formula only in one list. -/
theorem callFunction (hname : name ∈ calls) (hcount : ∀ f items, callable? name = some f →
    ds = [.list items] → f.arity.accepts items.length ≠ true → P (.failed (.argumentCount f))) :
    ErrsOnly P (callFunction ω b name ds) := by
  unfold Spreadsheet.callFunction
  split
  · rename_i f items hf
    refine errsOnly_orFailed ?_
    unfold Builtin.apply
    split
    · exact ErrsOnly.mono ((raises_numberArguments f items).map _) hP.raised
    · exact errsOnly_error (hcount f items hf rfl ‹_›)
  · split
    · refine hP.orFailed (ErrsOnly.map ?_ _)
      unfold truthArgument
      split
      · exact errsOnly_ok _ _
      · exact (raises_numberArgument _ _).map _
    · split
      · exact hP.library name hname ω b _ _ ‹_›
      · exact errsOnly_error (hP.raised _ rfl)

theorem call (hname : name ∈ calls) (hcount : ∀ f items, callable? name = some f →
    ds = [.list items] → f.arity.accepts items.length ≠ true → P (.failed (.argumentCount f))) :
    ErrsOnly P (b.call ω name ds) := by
  unfold Bindings.call
  split
  · exact errsOnly_ok _ _
  · exact errsOnly_error (hP.raised _ rfl)
  · exact hP.callFunction hname hcount

/-- The base of a method comes before its arguments, so that only one without arguments is called
with a list alone. -/
theorem applyAll {d : Datum} {links : List (Link Datum)}
    (hnames : ∀ link ∈ links, link.called ⊆ calls)
    (hcount : ∀ isOptional name f, .method isOptional name [] ∈ links → callable? name = some f →
      P (.failed (.argumentCount f))) : ErrsOnly P (Link.applyAll ω b d links) := by
  induction links generalizing ω d with
  | nil => exact errsOnly_ok P d
  | cons link links ih =>
    obtain ⟨hname, hnames⟩ := List.forall_mem_cons.1 hnames
    have hlink : ErrsOnly P (link.apply (ω.stage 0) b d) := by
      cases link with
      | property isOptional name => exact hP.orFailed (raises_property name d)
      | element isOptional index => exact hP.orFailed (raises_element d index)
      | method isOptional name ds =>
        refine hP.callFunction (hname (List.mem_singleton_self name)) fun f items hf he _ => ?_
        cases he
        exact hcount isOptional name f List.mem_cons_self hf
    unfold Link.applyAll
    split
    · exact errsOnly_ok P _
    · exact hlink.bind fun e _ => ih hnames fun isOptional name f hmem =>
        hcount isOptional name f (List.mem_cons_of_mem _ hmem)

end Admits

section
variable {ts : List Tree} (hts : ∀ t ∈ ts, ∀ ω, ErrsOnly P (t.evaluate ω b))
include hts

theorem errsOnly_evaluateAll : ErrsOnly P (evaluate.evaluateAll ω b ts) := by
  induction ts generalizing ω with
  | nil => exact errsOnly_ok P _
  | cons t ts ih =>
    obtain ⟨ht, hts⟩ := List.forall_mem_cons.1 hts
    exact (ht _).bind fun d _ => (ih hts).bind fun ds _ => errsOnly_ok P _

theorem errsOnly_evaluateArguments (isOrdered : Bool) :
    ErrsOnly P (evaluate.evaluateArguments ω b isOrdered ts) := by
  cases ts with
  | nil => exact errsOnly_ok P _
  | cons t ts =>
    obtain ⟨ht, hts⟩ := List.forall_mem_cons.1 hts
    rw [evaluate.evaluateArguments]
    split
    · exact (errsOnly_evaluateAll hts).bind fun ds _ => (ht _).bind fun d _ => errsOnly_ok P _
    · exact (ht _).bind fun d _ => (errsOnly_evaluateAll hts).bind fun ds _ => errsOnly_ok P _

theorem Admits.holdAll (hP : Admits P calls) : ErrsOnly P (evaluate.holdAll ω b ts) := by
  induction ts generalizing ω with
  | nil => exact errsOnly_ok P _
  | cons t ts ih =>
    obtain ⟨ht, hts⟩ := List.forall_mem_cons.1 hts
    refine (ht _).bind fun d _ => (hP.asCondition d).bind fun p _ => ?_
    split
    · exact ih hts
    · exact errsOnly_ok P _

theorem Admits.holdAny (hP : Admits P calls) : ErrsOnly P (evaluate.holdAny ω b ts) := by
  induction ts generalizing ω with
  | nil => exact errsOnly_ok P _
  | cons t ts ih =>
    obtain ⟨ht, hts⟩ := List.forall_mem_cons.1 hts
    refine (ht _).bind fun d _ => (hP.asCondition d).bind fun p _ => ?_
    split
    · exact errsOnly_ok P _
    · exact ih hts

theorem errsOnly_firstPresent : ErrsOnly P (evaluate.firstPresent ω b ts) := by
  induction ts generalizing ω with
  | nil => exact errsOnly_ok P _
  | cons t ts ih =>
    obtain ⟨ht, hts⟩ := List.forall_mem_cons.1 hts
    refine (ht _).bind fun d _ => ?_
    split
    · exact ih hts
    · exact errsOnly_ok P _

end

theorem errsOnly_evaluateFields {fields : List (String × Tree)}
    (h : ∀ field ∈ fields, ∀ ω, ErrsOnly P (field.2.evaluate ω b)) :
    ErrsOnly P (evaluate.evaluateFields ω b fields) := by
  induction fields generalizing ω with
  | nil => exact errsOnly_ok P _
  | cons field fields ih =>
    obtain ⟨hfield, hfields⟩ := List.forall_mem_cons.1 h
    exact (hfield _).bind fun d _ => (ih hfields).bind fun ds _ => errsOnly_ok P _

theorem errsOnly_evaluateLinks {links : List (Link Tree)}
    (h : ∀ link ∈ links, ∀ t ∈ link.operands, ∀ ω, ErrsOnly P (t.evaluate ω b)) :
    ErrsOnly P (evaluate.evaluateLinks ω b links) := by
  induction links generalizing ω with
  | nil => exact errsOnly_ok P _
  | cons link links ih =>
    obtain ⟨hlink, hlinks⟩ := List.forall_mem_cons.1 h
    cases link with
    | property isOptional name => exact (ih hlinks).bind fun rest _ => errsOnly_ok P _
    | method isOptional name arguments =>
      exact (errsOnly_evaluateAll hlink).bind fun ds _ =>
        (ih hlinks).bind fun rest _ => errsOnly_ok P _
    | element isOptional index =>
      exact (hlink index (List.mem_singleton_self _) _).bind fun d _ =>
        (ih hlinks).bind fun rest _ => errsOnly_ok P _

end

end Tree

/-! ## The common functions -/

namespace StandardLibrary

theorem raises_readWhole (s : String) : Raises (readWhole s) := by
  unfold readWhole
  extract_lets body
  split
  extract_lets n
  repeat' split
  all_goals first | exact raises_ok _ | exact raises_error rfl

theorem raises_callOne {name : String} {d : Datum} {x : Except Failure Datum}
    (h : callOne? name d = some x) : Raises x := by
  have hwhole : ∀ x, Raises (toWhole x) := by
    intro x
    unfold toWhole
    split
    · exact raises_error rfl
    · exact raises_ok _
  have hsign : ∀ x, Raises (signOf x) := by
    intro x
    unfold signOf
    split
    · exact raises_error rfl
    · exact raises_ok _
  have hnumber : ∀ s, Raises (readNumber s) := by
    intro s
    unfold readNumber
    extract_lets body
    split
    · exact raises_ok _
    · exact raises_error rfl
  unfold callOne? at h
  split at h
  case h_12 =>
    obtain ⟨_, -, rfl⟩ := Option.map_eq_some_iff.1 h
    exact raises_ok _
  all_goals cases h
  case h_1 => exact hwhole _
  case h_2 => exact hsign _
  case h_3 => exact raises_readWhole _
  case h_4 => exact hnumber _
  all_goals first | exact raises_ok _ | exact raises_error rfl

theorem raises_callTwo {name : String} {a b : Datum} {x : Except Failure Datum}
    (h : callTwo? name a b = some x) : Raises x := by
  unfold callTwo? at h
  split at h
  · obtain ⟨_, -, rfl⟩ := Option.map_eq_some_iff.1 h
    exact raises_ok _
  · cases h
    unfold isDefined
    split <;> first | exact raises_ok _ | exact raises_error rfl
  · obtain ⟨_, -, rfl⟩ := Option.map_eq_some_iff.1 h
    exact raises_ok _

theorem raises_call {name : String} {ds : List Datum} {x : Except Failure Datum}
    (h : call? name ds = some x) : Raises x := by
  unfold call? at h
  split at h
  · unfold callNone? at h
    split at h <;> cases h <;> exact raises_ok _
  · exact raises_callOne h
  · exact raises_callTwo h
  · unfold callThree? at h
    split at h <;> cases h <;> exact raises_ok _
  · cases h

end StandardLibrary

end Spreadsheet
