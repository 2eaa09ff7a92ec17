import Chatsy.Foundation.Simulation
import Chatsy.Systems.Uploads
import Mathlib.Logic.Function.Basic

/-!
# The uploads of all users of a device

The users who sign in on a device share its two preferences, and each has one
object in the storage. An upload deletes and puts the object of its user, and
writes the preferences whatever they hold, also the address of somebody else's
object.

## Implementation notes

A download address contains the name of its object, so it belongs to one user:
`owner` reads the user off the address, and a put gives an address of its user.
The calls of each user are numbered by themselves.
-/

namespace Chatsy

open Foundation ProfileScreen

/-- The object of each user, the preferences of the device, and the calls of each user. -/
structure SharedUploads where
  objects : Text → Option StoredObject
  prefs : SharedPrefs
  calls : Text → List UploadCall

namespace Uploads

/-- The address that a put gives. -/
def Label.gives : Label → Option Text
  | .event _ (.put url) => some url
  | _ => none

/-- The address is that of the object, or the answer to a call. -/
def Served (s : Uploads) (url : Text) : Prop :=
  s.picture.address = some url ∨ ∃ c ∈ s.calls, c.progress = .answered url

/-- An address is served because it was, or because a put has given it. -/
theorem served_or_gives {s t : Uploads} {l : Label} {url : Text} (h : step s l = some t)
    (hurl : t.Served url) : s.Served url ∨ l.gives = some url := by
  cases l with
  | upload =>
      obtain rfl := Option.some.inj h
      refine Or.inl (hurl.imp_right ?_)
      rintro ⟨c, hc, hanswered⟩
      rcases List.mem_append.mp hc with hold | hnew
      · exact ⟨c, hold, hanswered⟩
      · rw [List.mem_singleton.mp hnew] at hanswered
        exact UploadProgress.noConfusion hanswered
  | event i e =>
      obtain ⟨_, c, c', p, hc, hstep, rfl⟩ := step_event.mp h
      have haddress : p.address = some url →
          s.picture.address = some url ∨ (Label.event i e).gives = some url := by
        intro hurl
        rw [StoredPicture.address] at hurl
        rcases UploadCall.object_of_step hstep with
          ⟨_, _, hnone⟩ | ⟨w, image, rfl, hsome⟩ | ⟨_, _, hsame⟩
        · rw [hnone] at hurl
          exact absurd hurl.symm (Option.some_ne_none url)
        · rw [hsome] at hurl
          exact Or.inr hurl
        · rw [hsame] at hurl
          exact Or.inl hurl
      rcases hurl with hurl | ⟨d, hd, hanswered⟩
      · exact (haddress hurl).imp_left Or.inl
      · rcases List.mem_or_eq_of_mem_set hd with hold | rfl
        · exact Or.inl (Or.inr ⟨d, hold, hanswered⟩)
        · rcases UploadCall.answered_of_step hstep hanswered with ⟨_, hold⟩ | ⟨_, hlocated⟩
          · exact Or.inl (Or.inr ⟨c, List.mem_of_getElem? hc, hold⟩)
          · exact (haddress hlocated).imp_left Or.inl

/-- Without a put the object stays until a delete takes effect. -/
theorem objectFollows_step {o : Option StoredObject} {ls : List Label} {s t : Uploads} {l : Label}
    (h : ObjectFollows o ls s.picture) (ht : step s l = some t) (hl : l.gives = none) :
    ObjectFollows o (ls ++ [l]) t.picture := by
  cases l with
  | upload =>
      obtain rfl := Option.some.inj ht
      simpa [ObjectFollows] using h
  | event k e =>
      obtain ⟨_, c, c', p, _, hstep, rfl⟩ := step_event.mp ht
      refine objectFollows_concat h hstep fun url he => ?_
      rw [he] at hl
      exact Option.some_ne_none url hl

end Uploads

namespace SharedUploads

/-- No call has been made. -/
def start (objects : Text → Option StoredObject) (prefs : SharedPrefs) : SharedUploads :=
  ⟨objects, prefs, fun _ => []⟩

/-- A step of the uploads of a user. -/
structure Label where
  user : Text
  label : Uploads.Label
  deriving DecidableEq, Repr

/-- The uploads of one user. -/
def uploads (s : SharedUploads) (u : Text) : Uploads := ⟨⟨s.objects u, s.prefs⟩, s.calls u⟩

/-- The download address of the object of a user. -/
def address (s : SharedUploads) (u : Text) : Option Text := (s.objects u).map StoredObject.url

/-- The uploads of one user have made a step. -/
def withUploads (s : SharedUploads) (u : Text) (t : Uploads) : SharedUploads where
  objects := Function.update s.objects u t.picture.object
  prefs := t.picture.prefs
  calls := Function.update s.calls u t.calls

/-- The labels of one user. -/
def own (u : Text) (ls : List Label) : List Uploads.Label :=
  ls.filterMap fun l => if l.user = u then some l.label else none

/-- No request is pending. -/
def Quiet (s : SharedUploads) : Prop := ∀ u, (s.uploads u).Quiet

/-- The flag is set only together with the address of an existing object. -/
def Consistent (s : SharedUploads) : Prop :=
  s.prefs.doProfilePicExists = some true →
    ∃ url, s.prefs.storageImageURL = some url ∧ ∃ u, s.address u = some url

variable (owner : Text → Text)

def step (s : SharedUploads) (l : Label) : Option SharedUploads :=
  if l.label.gives.all fun url => owner url = l.user then
    (Uploads.step (s.uploads l.user) l.label).map (s.withUploads l.user)
  else none

/-- The stored objects have addresses of their users, and so have the answers on their way. -/
def Owned (s : SharedUploads) : Prop := ∀ u url, (s.uploads u).Served url → owner url = u

variable {owner} {s t : SharedUploads} {l : Label} {ls : List Label} {u v : Text}

theorem own_concat_self (l : Uploads.Label) : own u (ls ++ [⟨u, l⟩]) = own u ls ++ [l] := by
  rw [own, filterMap_concat]
  simp [own]

theorem own_concat_other (h : l.user ≠ u) : own u (ls ++ [l]) = own u ls := by
  rw [own, filterMap_concat]
  simp [own, h]

theorem mem_own {m : Uploads.Label} : m ∈ own u ls ↔ ⟨u, m⟩ ∈ ls := by
  rw [own, List.mem_filterMap]
  constructor
  · rintro ⟨⟨v, m'⟩, hl, h⟩
    obtain ⟨rfl, rfl⟩ := guarded_eq_some.mp h
    exact hl
  · exact fun h => ⟨_, h, if_pos rfl⟩

/-- A step is one of the uploads of its user, with an address of the user where it puts one. -/
theorem uploads_step (h : step owner s l = some t) :
    Uploads.step (s.uploads l.user) l.label = some (t.uploads l.user) ∧
      ∀ url, l.label.gives = some url → owner url = l.user := by
  obtain ⟨hgives, h⟩ := Option.ite_none_right_eq_some.mp h
  obtain ⟨t', ht', rfl⟩ := Option.map_eq_some_iff.mp h
  constructor
  · rw [ht']
    simp [uploads, withUploads]
  · intro url hurl
    rw [hurl] at hgives
    exact of_decide_eq_true hgives

/-- It leaves the objects and the calls of the others alone. -/
theorem other_step (h : step owner s l = some t) (hu : l.user ≠ u) :
    t.objects u = s.objects u ∧ t.calls u = s.calls u := by
  obtain ⟨_, h⟩ := Option.ite_none_right_eq_some.mp h
  obtain ⟨t', _, rfl⟩ := Option.map_eq_some_iff.mp h
  exact ⟨Function.update_of_ne (Ne.symm hu) _ _, Function.update_of_ne (Ne.symm hu) _ _⟩

/-- A user without a step in a run is left alone by it. -/
theorem other_run (hr : run (step owner) s ls = some t) (hu : ∀ l ∈ ls, l.user ≠ u) :
    t.objects u = s.objects u ∧ t.calls u = s.calls u := by
  refine run_induction (step owner) (motive := fun ls t => (∀ l ∈ ls, l.user ≠ u) →
    t.objects u = s.objects u ∧ t.calls u = s.calls u) (fun _ => ⟨rfl, rfl⟩) ?_ hr hu
  intro ls l t t' _ ih h hu
  obtain ⟨hobjects, hcalls⟩ := ih fun l' hl' => hu l' (List.mem_append_left _ hl')
  obtain ⟨hobjects', hcalls'⟩ := other_step h (hu l (by simp))
  exact ⟨hobjects'.trans hobjects, hcalls'.trans hcalls⟩

theorem owned_start {objects : Text → Option StoredObject} {prefs : SharedPrefs}
    (h : ∀ u o, objects u = some o → owner o.url = u) : (start objects prefs).Owned owner := by
  rintro u url (hurl | ⟨c, hc, _⟩)
  · obtain ⟨o, ho, rfl⟩ := Option.map_eq_some_iff.mp hurl
    exact h u o ho
  · exact absurd hc List.not_mem_nil

theorem owned_step (hs : s.Owned owner) (h : step owner s l = some t) : t.Owned owner := by
  intro u url hurl
  by_cases hu : l.user = u
  · subst hu
    obtain ⟨hstep, hgives⟩ := uploads_step h
    exact (Uploads.served_or_gives hstep hurl).elim (hs l.user url) (hgives url)
  · obtain ⟨hobjects, hcalls⟩ := other_step h hu
    have hserved : (s.uploads u).Served url := by
      rw [Uploads.Served, uploads, StoredPicture.address, hobjects, hcalls] at hurl
      exact hurl
    exact hs u url hserved

end SharedUploads

end Chatsy
