import Chatsy.Cloud.Documents
import Mathlib.Logic.Function.Basic

/-!
# RegistrationScreen: the fields and the Register button

Each field starts as null and takes the text of every edit. A press of Register
compares the fields with null, not with the empty text, and then sends the
account creation, the preference and the profile document without looking at
the answer of the first. The document is written with `setData` and no merge,
so it replaces whatever its path held. The path is cut out of the typed address:
it can lead to the document of another address, or below one.

## Implementation notes

When Firestore refuses the path, `setData` leaves the documents alone. When a
field is null the press only looks for a `Scaffold` to show a message, so it
sends nothing.
-/

namespace Chatsy

/-- The documents of the collection `User`, by their ids. -/
abbrev Users := Text → Option UserDoc

/-- The documents that are there when only the collection `User` has any. -/
def Users.documents (users : Users) : Documents
  | [collection, id] => if collection = text "User" then users id else none
  | _ => none

namespace RegistrationScreen

/-- The fields of the screen's state. -/
structure Fields where
  name : Option Text
  gender : Option Text
  email : Option Text
  password : Option Text
  deriving DecidableEq, Repr

/-- The fields before any edit. -/
def fields : Fields where
  name := none
  gender := none
  email := none
  password := none

/-- An edit of a text field, or a choice of the radio buttons. -/
inductive Edit
  | name (value : Text)
  | gender (value : Text)
  | email (value : Text)
  | password (value : Text)
  deriving DecidableEq, Repr

/-- The `onChanged` handlers. -/
def onChanged (f : Fields) : Edit → Fields
  | .name value => { f with name := some value }
  | .gender value => { f with gender := some value }
  | .email value => { f with email := some value }
  | .password value => { f with password := some value }

/-- The fields after a sequence of edits. -/
def edited (es : List Edit) : Fields := es.foldl onChanged fields

/-- What a press of Register sends. -/
structure Requests where
  createUser : Text × Text
  doProfilePicExists : Bool
  setData : Text × UserDoc
  deriving DecidableEq, Repr

/-- The `onPressed` handler of Register: nothing when a field is null. -/
def onPressed (f : Fields) : Option Requests :=
  match f.email, f.password, f.name with
  | some email, some password, some name =>
      some {
        createUser := (email, password)
        doProfilePicExists := false
        setData := (email, ⟨some name, f.gender, some email, none⟩) }
  | _, _, _ => none

/-- `document("$email").setData` without merge. -/
def setData (documents : Documents) (email : Text) (d : UserDoc) : Documents :=
  match userDocument email with
  | some path => Function.update documents path (some d)
  | none => documents

/-- Whether the account creation and the profile write succeed. -/
structure Outcome where
  created : Bool
  written : Bool
  deriving DecidableEq, Repr

/-- The document that a press has put, and its path, if the write took effect. -/
def put (f : Fields) (o : Outcome) : Option (Path × UserDoc) :=
  (onPressed f).bind fun r =>
    if o.written then (userDocument r.setData.1).map fun path => (path, r.setData.2) else none

/-- The documents after a press and its outcome. -/
def register (documents : Documents) (f : Fields) (o : Outcome) : Documents :=
  match onPressed f with
  | some r => if o.written then setData documents r.setData.1 r.setData.2 else documents
  | none => documents

/-- The three texts of the press are there and not empty. -/
def Filled (f : Fields) : Prop :=
  ∃ name email password, f.name = some name ∧ f.email = some email ∧
    f.password = some password ∧ name ≠ [] ∧ email ≠ [] ∧ password ≠ []

/-- A document is put only for a filled form whose account was created, and in every other case
all documents are as before the press. -/
def Harmless (documents : Documents) (f : Fields) (o : Outcome) : Prop :=
  ((put f o).isSome = true → Filled f ∧ o.created = true) ∧
  (¬ (Filled f ∧ o.created = true) → register documents f o = documents)

/-- A field is still null. -/
def Untouched (f : Fields) : Prop := f.name = none ∨ f.email = none ∨ f.password = none

/-- A field that only edits of one kind write is null until the first of them. -/
theorem field_edited_eq_none (field : Fields → Option Text) (edit : Text → Edit)
    (hinit : field fields = none) (hedit : ∀ f value, field (onChanged f (edit value)) = some value)
    (hother : ∀ f e, (∀ value, e ≠ edit value) → field (onChanged f e) = field f)
    (es : List Edit) : field (edited es) = none ↔ ∀ value, edit value ∉ es := by
  induction es using List.reverseRecOn with
  | nil => exact iff_of_true hinit fun _ => List.not_mem_nil
  | append_singleton es e ih =>
      have hlast : edited (es ++ [e]) = onChanged (edited es) e := by simp [edited]
      rw [hlast]
      by_cases he : ∃ value, e = edit value
      · obtain ⟨value, rfl⟩ := he
        rw [hedit]
        exact iff_of_false (Option.some_ne_none value) fun h => h value (by simp)
      · have hne : ∀ value, e ≠ edit value := not_exists.mp he
        rw [hother _ e hne, ih]
        constructor
        · intro h value hmem
          rcases List.mem_append.mp hmem with hmem | hmem
          · exact h value hmem
          · exact hne value (List.mem_singleton.mp hmem).symm
        · exact fun h value hmem => h value (List.mem_append_left _ hmem)

/-- A press finds a field untouched exactly when one of the three was never edited. -/
theorem untouched_edited_iff (es : List Edit) :
    Untouched (edited es) ↔
      (∀ value, .name value ∉ es) ∨ (∀ value, .email value ∉ es) ∨
        (∀ value, .password value ∉ es) := by
  have hname := field_edited_eq_none Fields.name Edit.name rfl
    (fun _ _ => rfl) (fun f e he => by cases e <;> first | rfl | exact absurd rfl (he _)) es
  have hemail := field_edited_eq_none Fields.email Edit.email rfl
    (fun _ _ => rfl) (fun f e he => by cases e <;> first | rfl | exact absurd rfl (he _)) es
  have hpassword := field_edited_eq_none Fields.password Edit.password rfl
    (fun _ _ => rfl) (fun f e he => by cases e <;> first | rfl | exact absurd rfl (he _)) es
  rw [Untouched, hname, hemail, hpassword]

theorem onPressed_eq_none {f : Fields} : onPressed f = none ↔ Untouched f := by
  obtain ⟨name, gender, email, password⟩ := f
  cases name <;> cases email <;> cases password <;> simp [onPressed, Untouched]

theorem onPressed_eq_some {f : Fields} {r : Requests} (h : onPressed f = some r) :
    ∃ name password, f.name = some name ∧ f.password = some password ∧
      f.email = some r.setData.1 ∧ r.createUser = (r.setData.1, password) ∧
      r.setData.2 = ⟨some name, f.gender, some r.setData.1, none⟩ := by
  obtain ⟨name, gender, email, password⟩ := f
  cases name <;> cases email <;> cases password <;> simp only [onPressed, reduceCtorEq,
    Option.some.injEq] at h
  subst h
  exact ⟨_, _, rfl, rfl, rfl, rfl, rfl⟩

/-- The documents change by the one put, and by nothing else. -/
theorem register_eq (documents : Documents) (f : Fields) (o : Outcome) :
    register documents f o =
      match put f o with
      | some (path, d) => Function.update documents path (some d)
      | none => documents := by
  cases hr : onPressed f with
  | none => simp [register, put, hr]
  | some r =>
      cases hw : o.written with
      | false => simp [register, put, hr, hw]
      | true =>
          cases hpath : userDocument r.setData.1 with
          | none => simp [register, put, hr, hw, hpath, setData]
          | some path => simp [register, put, hr, hw, hpath, setData]

/-- Nothing is put exactly when a field is untouched, the write fails, or the path is refused. -/
theorem put_eq_none {f : Fields} {o : Outcome} :
    put f o = none ↔ Untouched f ∨ o.written = false ∨
      ∃ email, f.email = some email ∧ userDocument email = none := by
  cases hr : onPressed f with
  | none =>
      have huntouched := onPressed_eq_none.mp hr
      simp [put, hr, huntouched]
  | some r =>
      obtain ⟨_, _, _, _, hemail, _⟩ := onPressed_eq_some hr
      have htouched : ¬ Untouched f := by
        rw [← onPressed_eq_none, hr]
        exact Option.some_ne_none r
      have hput : put f o = if o.written then
          (userDocument r.setData.1).map fun path => (path, r.setData.2) else none := by
        rw [put, hr, Option.bind_some]
      rw [hput, hemail]
      simp only [htouched, Option.some.injEq, exists_eq_left', false_or]
      cases o.written <;> cases userDocument r.setData.1 <;> simp

/-- A press of Register harms no profile exactly when it puts no document, or its form is
filled and the account is created. -/
theorem harmless_iff (documents : Documents) (es : List Edit) (o : Outcome) :
    Harmless documents (edited es) o ↔
      ((∀ value, .name value ∉ es) ∨ (∀ value, .email value ∉ es) ∨
        ∀ value, .password value ∉ es) ∨
      o.written = false ∨
      (∃ email, (edited es).email = some email ∧ userDocument email = none) ∨
      (Filled (edited es) ∧ o.created = true) := by
  rw [← untouched_edited_iff]
  have hnone : put (edited es) o = none ↔ Untouched (edited es) ∨ o.written = false ∨
      ∃ email, (edited es).email = some email ∧ userDocument email = none := put_eq_none
  have hcases : Harmless documents (edited es) o ↔
      put (edited es) o = none ∨ (Filled (edited es) ∧ o.created = true) := by
    constructor
    · intro h
      cases hput : put (edited es) o with
      | none => exact Or.inl rfl
      | some p => exact Or.inr (h.1 (by rw [hput]; rfl))
    · rintro (hput | hfilled)
      · refine ⟨fun h => ?_, fun _ => ?_⟩
        · rw [hput] at h
          exact Bool.noConfusion h
        · rw [register_eq, hput]
      · exact ⟨fun _ => hfilled, fun h => absurd hfilled h⟩
  rw [hcases, hnone, or_assoc, or_assoc]

/-- `ann` is registered and has a location. -/
def annOnly : Users := fun key =>
  if key = text "ann@mail.com" then
    some ⟨some (text "Ann"), some (text "FEMALE"), some (text "ann@mail.com"), some ⟨48, 16⟩⟩
  else none

/-- Somebody types the address of `ann`: the account creation fails, and her document is
replaced by one with another name and without her location. -/
theorem register_used_address :
    ¬ Harmless annOnly.documents
      (edited [.name (text "Eve"), .email (text "ann@mail.com"), .password (text "secret")])
      ⟨false, true⟩ ∧
    register annOnly.documents
      (edited [.name (text "Eve"), .email (text "ann@mail.com"), .password (text "secret")])
      ⟨false, true⟩ (userPath (text "ann@mail.com")) =
        some ⟨some (text "Eve"), none, some (text "ann@mail.com"), none⟩ := by
  constructor
  · intro h
    have hcreated := (h.1 (by decide)).2
    exact Bool.noConfusion hcreated
  · rfl

end RegistrationScreen

end Chatsy
