import Chatsy.Foundation.Runs
import Chatsy.Screens.ProfileScreen

/-!
# Uploads of a profile picture

All pictures of a user are stored under one name. An upload asks for the delete
of the old object and does not wait for it, puts the picked image under the same
name, asks for the address of what is stored there, and writes that address and
the flag into the preferences. The delete can take effect at any later moment,
also after the put, and after the upload has returned.

## Implementation notes

The uploads of one user on one device. A request takes effect in the storage in
one step, and the answer to `getDownloadURL` reaches the app in a later one. Each
put gives its object a new address. The delete is requested before the image is
looked at, and without an image nothing follows it. `onComplete` completes after
a put that has failed, or not at all.
-/

namespace Chatsy

open Foundation ProfileScreen

/-- The content of an image file. -/
abbrev ImageFile := List UInt8

/-- The object at `<email>+profileImage`, with its download address. -/
structure StoredObject where
  image : ImageFile
  url : Text
  deriving DecidableEq, Repr

/-- What is stored of the user's picture: the object, and the preferences that point to it. -/
@[ext] structure StoredPicture where
  object : Option StoredObject
  prefs : SharedPrefs
  deriving DecidableEq, Repr

/-- The download address of the object. -/
def StoredPicture.address (p : StoredPicture) : Option Text := p.object.map StoredObject.url

/-- Where an `uploadImage` call is. -/
inductive UploadProgress
  | picking
  | putting
  | locating
  | answered (url : Text)
  | returned
  | failed
  deriving DecidableEq, Repr

/-- An `uploadImage` call: the picked image, its delete request, and the rest. -/
structure UploadCall where
  tempImage : Option ImageFile
  deletePending : Bool
  progress : UploadProgress
  deriving DecidableEq, Repr

/-- What can happen to a call: to the picker, the delete and the put, and to `getDownloadURL`, whose
answer is received after it has been given. -/
inductive UploadEvent
  | picked (image : Option ImageFile)
  | pickFails
  | deleted
  | deleteFails
  | put (url : Text)
  | putFails (completes : Bool)
  | located
  | notFound
  | locatingFails
  | received
  deriving DecidableEq, Repr

namespace UploadCall

/-- `uploadImage` has been called. -/
def begin : UploadCall := ⟨none, false, .picking⟩

/-- The call goes no further. Its delete request may still be on the way. -/
def Ended (c : UploadCall) : Prop := c.progress = .returned ∨ c.progress = .failed

instance (c : UploadCall) : Decidable c.Ended :=
  inferInstanceAs (Decidable (_ ∨ _))

/-- One event of the call. -/
def step (c : UploadCall) (p : StoredPicture) : UploadEvent → Option (UploadCall × StoredPicture)
  | .picked image =>
      if c.progress = .picking then
        some (⟨image, true, if image.isSome then .putting else .failed⟩, p)
      else none
  | .pickFails =>
      if c.progress = .picking then some ({ c with progress := .failed }, p) else none
  | .deleted =>
      if c.deletePending = true ∧ p.object.isSome = true then
        some ({ c with deletePending := false }, { p with object := none })
      else none
  | .deleteFails =>
      if c.deletePending = true then some ({ c with deletePending := false }, p) else none
  | .put url =>
      if c.progress = .putting then
        c.tempImage.map fun image =>
          ({ c with progress := .locating }, { p with object := some ⟨image, url⟩ })
      else none
  | .putFails completes =>
      if c.progress = .putting then
        some ({ c with progress := if completes then .locating else .failed }, p)
      else none
  | .located =>
      if c.progress = .locating then
        p.address.map fun url => ({ c with progress := .answered url }, p)
      else none
  | .notFound =>
      if c.progress = .locating ∧ p.object = none then
        some ({ c with progress := .failed }, p)
      else none
  | .locatingFails =>
      if c.progress = .locating then some ({ c with progress := .failed }, p) else none
  | .received =>
      match c.progress with
      | .answered url =>
          some ({ c with progress := .returned }, { p with prefs := uploadImage url p.prefs })
      | _ => none

variable {c c' : UploadCall} {p p' : StoredPicture}

theorem step_put {url : Text} :
    c.step p (.put url) = some (c', p') ↔ c.progress = .putting ∧ ∃ image,
      c.tempImage = some image ∧ c' = { c with progress := .locating } ∧
        p' = { p with object := some ⟨image, url⟩ } := by
  simp only [step, Option.ite_none_right_eq_some, Option.map_eq_some_iff, Prod.mk.injEq,
    eq_comm (b := c'), eq_comm (b := p')]

theorem step_located :
    c.step p .located = some (c', p') ↔ c.progress = .locating ∧ ∃ url,
      p.address = some url ∧ c' = { c with progress := .answered url } ∧ p' = p := by
  simp only [step, Option.ite_none_right_eq_some, Option.map_eq_some_iff, Prod.mk.injEq,
    eq_comm (b := c'), eq_comm (b := p')]

theorem step_received :
    c.step p .received = some (c', p') ↔ ∃ url, c.progress = .answered url ∧
      c' = { c with progress := .returned } ∧ p' = { p with prefs := uploadImage url p.prefs } := by
  simp only [step]
  split
  · rename_i url h
    simp only [h, Option.some.injEq, Prod.mk.injEq, UploadProgress.answered.injEq, exists_eq_left',
      eq_comm (b := c'), eq_comm (b := p')]
  · rename_i h
    exact iff_of_false (Option.some_ne_none _).symm fun ⟨url, hurl, _⟩ => h url hurl

/-- The object is removed by a delete, replaced by a put, and left by everything else. -/
theorem object_of_step {e : UploadEvent} (h : c.step p e = some (c', p')) :
    (e = .deleted ∧ p.object ≠ none ∧ p'.object = none) ∨
      (∃ url image, e = .put url ∧ p'.object = some ⟨image, url⟩) ∨
        (e ≠ .deleted ∧ (∀ url, e ≠ .put url) ∧ p'.object = p.object) := by
  cases e with
  | deleted =>
      obtain ⟨⟨_, hobject⟩, heq⟩ := guarded_eq_some.mp h
      obtain ⟨rfl, rfl⟩ := Prod.mk.inj heq
      exact Or.inl ⟨rfl, Option.isSome_iff_ne_none.mp hobject, rfl⟩
  | put url =>
      obtain ⟨_, image, _, rfl, rfl⟩ := step_put.mp h
      exact Or.inr (Or.inl ⟨url, image, rfl, rfl⟩)
  | located =>
      obtain ⟨_, _, _, rfl, rfl⟩ := step_located.mp h
      exact Or.inr (Or.inr ⟨by simp, by simp, rfl⟩)
  | received =>
      obtain ⟨_, _, rfl, rfl⟩ := step_received.mp h
      exact Or.inr (Or.inr ⟨by simp, by simp, rfl⟩)
  | picked _ | pickFails | deleteFails | putFails _ | notFound | locatingFails =>
      obtain ⟨_, heq⟩ := guarded_eq_some.mp h
      obtain ⟨rfl, rfl⟩ := Prod.mk.inj heq
      exact Or.inr (Or.inr ⟨by simp, by simp, rfl⟩)

/-- Only the end of an upload writes the preferences. -/
theorem prefs_of_step {e : UploadEvent} (h : c.step p e = some (c', p')) :
    (e = .received ∧ ∃ url, c.progress = .answered url ∧ p'.prefs = uploadImage url p.prefs) ∨
      (e ≠ .received ∧ p'.prefs = p.prefs) := by
  cases e with
  | received =>
      obtain ⟨url, hurl, rfl, rfl⟩ := step_received.mp h
      exact Or.inl ⟨rfl, url, hurl, rfl⟩
  | put url =>
      obtain ⟨_, _, _, rfl, rfl⟩ := step_put.mp h
      exact Or.inr ⟨by simp, rfl⟩
  | located =>
      obtain ⟨_, _, _, rfl, rfl⟩ := step_located.mp h
      exact Or.inr ⟨by simp, rfl⟩
  | picked _ | pickFails | deleted | deleteFails | putFails _ | notFound | locatingFails =>
      obtain ⟨_, heq⟩ := guarded_eq_some.mp h
      obtain ⟨rfl, rfl⟩ := Prod.mk.inj heq
      exact Or.inr ⟨by simp, rfl⟩

/-- An answer that a call holds is an old one, or has just been given by the storage. -/
theorem answered_of_step {e : UploadEvent} {url : Text} (h : c.step p e = some (c', p'))
    (hanswered : c'.progress = .answered url) :
    (e ≠ .located ∧ c.progress = .answered url) ∨ (e = .located ∧ p'.address = some url) := by
  cases e with
  | located =>
      obtain ⟨_, w, hw, rfl, rfl⟩ := step_located.mp h
      obtain rfl := UploadProgress.answered.inj hanswered
      exact Or.inr ⟨rfl, hw⟩
  | deleted | deleteFails =>
      obtain ⟨_, heq⟩ := guarded_eq_some.mp h
      obtain ⟨rfl, rfl⟩ := Prod.mk.inj heq
      exact Or.inl ⟨by simp, hanswered⟩
  | put w =>
      obtain ⟨_, _, _, rfl, rfl⟩ := step_put.mp h
      exact UploadProgress.noConfusion hanswered
  | received =>
      obtain ⟨_, _, rfl, rfl⟩ := step_received.mp h
      exact UploadProgress.noConfusion hanswered
  | pickFails | notFound | locatingFails =>
      obtain ⟨_, heq⟩ := guarded_eq_some.mp h
      obtain ⟨rfl, rfl⟩ := Prod.mk.inj heq
      exact UploadProgress.noConfusion hanswered
  | picked image =>
      obtain ⟨_, heq⟩ := guarded_eq_some.mp h
      obtain ⟨rfl, rfl⟩ := Prod.mk.inj heq
      cases image <;> exact UploadProgress.noConfusion hanswered
  | putFails completes =>
      obtain ⟨_, heq⟩ := guarded_eq_some.mp h
      obtain ⟨rfl, rfl⟩ := Prod.mk.inj heq
      cases completes <;> exact UploadProgress.noConfusion hanswered

/-- Nothing happens to an ended call but the end of its delete request. -/
theorem step_of_ended {e : UploadEvent} (hc : c.Ended) (h : c.step p e = some (c', p')) :
    c'.progress = c.progress ∧ c'.tempImage = c.tempImage ∧
      (e = .deleted ∨ e = .deleteFails) := by
  have hne : ∀ q : UploadProgress, c.progress = q → q = .returned ∨ q = .failed := by
    rintro q rfl
    exact hc
  cases e with
  | picked image => simpa using hne _ (guarded_eq_some.mp h).1
  | pickFails => simpa using hne _ (guarded_eq_some.mp h).1
  | deleted =>
      obtain ⟨_, heq⟩ := guarded_eq_some.mp h
      obtain ⟨rfl, rfl⟩ := Prod.mk.inj heq
      exact ⟨rfl, rfl, Or.inl rfl⟩
  | deleteFails =>
      obtain ⟨_, heq⟩ := guarded_eq_some.mp h
      obtain ⟨rfl, rfl⟩ := Prod.mk.inj heq
      exact ⟨rfl, rfl, Or.inr rfl⟩
  | put url => simpa using hne _ (step_put.mp h).1
  | putFails completes => simpa using hne _ (guarded_eq_some.mp h).1
  | located => simpa using hne _ (step_located.mp h).1
  | notFound => simpa using hne _ (guarded_eq_some.mp h).1.1
  | locatingFails => simpa using hne _ (guarded_eq_some.mp h).1
  | received =>
      obtain ⟨url, hurl, _⟩ := step_received.mp h
      simpa using hne _ hurl

end UploadCall

/-- What is stored, and the calls so far. -/
structure Uploads where
  picture : StoredPicture
  calls : List UploadCall
  deriving DecidableEq, Repr

namespace Uploads

/-- No call has been made. -/
def start (picture : StoredPicture) : Uploads := ⟨picture, []⟩

/-- A press of the upload button, or an event of a call. -/
inductive Label
  | upload
  | event (number : Nat) (e : UploadEvent)
  deriving DecidableEq, Repr

/-- The preferences hold the address, or a call is about to write it. -/
def Known (s : Uploads) (url : Text) : Prop :=
  s.picture.prefs.storageImageURL = some url ∨ ∃ c ∈ s.calls, c.progress = .answered url

instance (s : Uploads) (url : Text) : Decidable (s.Known url) :=
  inferInstanceAs (Decidable (_ ∨ _))

/-- A put gives a new address. -/
def Fresh (s : Uploads) : UploadEvent → Prop
  | .put url => ¬ s.Known url
  | _ => True

instance : ∀ s e, Decidable (Fresh s e)
  | s, .put url => inferInstanceAs (Decidable (¬ s.Known url))
  | _, .picked _ | _, .pickFails | _, .deleted | _, .deleteFails | _, .putFails _ | _, .located
  | _, .notFound | _, .locatingFails | _, .received => isTrue trivial

def step (s : Uploads) : Label → Option Uploads
  | .upload => some { s with calls := s.calls ++ [UploadCall.begin] }
  | .event i e =>
      if s.Fresh e then
        s.calls[i]?.bind fun c =>
          (c.step s.picture e).map fun r => ⟨r.2, s.calls.set i r.1⟩
      else none

/-- No request is pending. -/
def Quiet (s : Uploads) : Prop := ∀ c ∈ s.calls, c.Ended ∧ c.deletePending = false

instance (s : Uploads) : Decidable s.Quiet :=
  inferInstanceAs (Decidable (∀ _ ∈ _, _ ∧ _))

/-- The button is pressed only when every call so far has ended. -/
def OneAtATime (s : Uploads) : Label → Prop
  | .upload => ∀ c ∈ s.calls, c.Ended
  | .event _ _ => True

instance : ∀ s l, Decidable (OneAtATime s l)
  | s, .upload => inferInstanceAs (Decidable (∀ c ∈ s.calls, c.Ended))
  | _, .event _ _ => isTrue trivial

/-- The image picked in the call is stored, and the preferences hold its address. -/
def Stored (i : Nat) (s : Uploads) : Prop :=
  ∃ c o, s.calls[i]? = some c ∧ c.tempImage = some o.image ∧ s.picture.object = some o ∧
    s.picture.prefs.storageImageURL = some o.url

/-- After the put of the call no delete takes effect, and its address is not refused. -/
def PutLast (i : Nat) (post : List Label) : Prop :=
  (∀ j, .event j .deleted ∉ post) ∧ .event i .locatingFails ∉ post

theorem step_event {s t : Uploads} {i : Nat} {e : UploadEvent} :
    step s (.event i e) = some t ↔ s.Fresh e ∧ ∃ c c' p, s.calls[i]? = some c ∧
      c.step s.picture e = some (c', p) ∧ t = ⟨p, s.calls.set i c'⟩ := by
  simp only [step, Option.ite_none_right_eq_some, Option.bind_eq_some_iff,
    Option.map_eq_some_iff, Prod.exists, eq_comm (b := t), exists_and_left]

/-- The calls after an event of one of them. -/
theorem getElem?_set_eq_some {calls : List UploadCall} {i j : Nat} {c c' d : UploadCall}
    (hc : calls[i]? = some c) :
    (calls.set i c')[j]? = some d ↔ i = j ∧ d = c' ∨ i ≠ j ∧ calls[j]? = some d := by
  obtain ⟨hlength, _⟩ := List.getElem?_eq_some_iff.mp hc
  rw [List.getElem?_set]
  by_cases hij : i = j
  · rw [if_pos hij, if_pos hlength, Option.some.injEq]
    simp [hij, eq_comm]
  · rw [if_neg hij]
    simp [hij]

theorem getElem?_concat_eq_some {calls : List UploadCall} {i : Nat} {c d : UploadCall} :
    (calls ++ [d])[i]? = some c ↔ calls[i]? = some c ∨ i = calls.length ∧ c = d := by
  rcases Nat.lt_trichotomy i calls.length with hlt | rfl | hgt
  · rw [List.getElem?_append_left hlt]
    exact (or_iff_left fun h => Nat.ne_of_lt hlt h.1).symm
  · simp [eq_comm]
  · rw [List.getElem?_eq_none (by simpa using Nat.succ_le_of_lt hgt),
      List.getElem?_eq_none (Nat.le_of_lt hgt)]
    simp [Nat.ne_of_gt hgt]

/-- At most one call has not ended. -/
def OneOpen (s : Uploads) : Prop :=
  ∀ (i j : Nat) (c d : UploadCall), s.calls[i]? = some c → s.calls[j]? = some d →
    ¬ c.Ended → ¬ d.Ended → i = j

theorem oneOpen_step {s t : Uploads} {l : Label} (h : s.OneOpen) (hl : OneAtATime s l)
    (ht : step s l = some t) : t.OneOpen := by
  cases l with
  | upload =>
      obtain rfl := Option.some.inj ht
      have hnew : ∀ {i : Nat} {c : UploadCall},
          (s.calls ++ [UploadCall.begin])[i]? = some c → ¬ c.Ended → i = s.calls.length := by
        intro i c hc hopen
        rcases getElem?_concat_eq_some.mp hc with hc | ⟨hi, _⟩
        · exact absurd (hl c (List.mem_of_getElem? hc)) hopen
        · exact hi
      intro i j c d hc hd hcopen hdopen
      exact (hnew hc hcopen).trans (hnew hd hdopen).symm
  | event k e =>
      obtain ⟨_, b, b', p, hb, hstep, rfl⟩ := step_event.mp ht
      have hold : ∀ {i : Nat} {c : UploadCall}, (s.calls.set k b')[i]? = some c → ¬ c.Ended →
          ∃ d, s.calls[i]? = some d ∧ ¬ d.Ended := by
        intro i c hc hopen
        rcases (getElem?_set_eq_some hb).mp hc with ⟨rfl, rfl⟩ | ⟨_, hc⟩
        · refine ⟨b, hb, fun hended => hopen ?_⟩
          rw [UploadCall.Ended, (UploadCall.step_of_ended hended hstep).1]
          exact hended
        · exact ⟨c, hc, hopen⟩
      intro i j c d hc hd hcopen hdopen
      obtain ⟨c₀, hc₀, hc₀open⟩ := hold hc hcopen
      obtain ⟨d₀, hd₀, hd₀open⟩ := hold hd hdopen
      exact h i j c₀ d₀ hc₀ hd₀ hc₀open hd₀open

/-- How far the call has come after its put at `url`, and whether the preferences hold that
address. -/
def AddressFollows (i : Nat) (url : Text) (ls : List Label) (p : StoredPicture) :
    UploadProgress → Prop
  | .picking | .putting => False
  | .locating => p.prefs.storageImageURL ≠ some url ∧ .event i .locatingFails ∉ ls
  | .answered w => w = url ∧ .event i .locatingFails ∉ ls
  | .returned => p.prefs.storageImageURL = some url ∧ .event i .locatingFails ∉ ls
  | .failed => p.prefs.storageImageURL ≠ some url ∧
      (.event i .locatingFails ∈ ls ∨ ∃ j, .event j .deleted ∈ ls)

/-- The object is the given one, unless a delete has taken effect since. -/
def ObjectFollows (o : Option StoredObject) (ls : List Label) (p : StoredPicture) : Prop :=
  (∀ j, .event j .deleted ∉ ls) ∧ p.object = o ∨
    (∃ j, .event j .deleted ∈ ls) ∧ o ≠ none ∧ p.object = none

/-- What has happened since the put of call `i`, the last call. -/
structure PutFollows (i : Nat) (o : StoredObject) (ls : List Label) (s : Uploads) : Prop where
  others : ∀ (j : Nat) (c : UploadCall), s.calls[j]? = some c → i ≠ j → c.Ended
  call : ∃ c, s.calls[i]? = some c ∧ c.tempImage = some o.image ∧
    AddressFollows i o.url ls s.picture c.progress
  object : ObjectFollows (some o) ls s.picture

theorem addressFollows_concat {i : Nat} {url : Text} {ls : List Label} {l : Label}
    {p p' : StoredPicture} {q : UploadProgress} (h : AddressFollows i url ls p q)
    (hl : l ≠ .event i .locatingFails) (hp : p'.prefs = p.prefs) :
    AddressFollows i url (ls ++ [l]) p' q := by
  have hrefused : .event i .locatingFails ∈ ls ++ [l] ↔ .event i .locatingFails ∈ ls := by
    simp [hl.symm]
  cases q with
  | picking => exact h
  | putting => exact h
  | locating => exact ⟨hp ▸ h.1, fun hmem => h.2 (hrefused.mp hmem)⟩
  | answered w => exact ⟨h.1, fun hmem => h.2 (hrefused.mp hmem)⟩
  | returned => exact ⟨hp ▸ h.1, fun hmem => h.2 (hrefused.mp hmem)⟩
  | failed =>
      refine ⟨hp ▸ h.1, h.2.imp hrefused.mpr ?_⟩
      exact fun ⟨j, hj⟩ => ⟨j, List.mem_append_left _ hj⟩

theorem objectFollows_concat {o : Option StoredObject} {ls : List Label} {i : Nat} {e : UploadEvent}
    {c c' : UploadCall} {p p' : StoredPicture} (h : ObjectFollows o ls p)
    (hstep : c.step p e = some (c', p')) (hput : ∀ url, e ≠ .put url) :
    ObjectFollows o (ls ++ [.event i e]) p' := by
  rcases UploadCall.object_of_step hstep with
    ⟨rfl, hobject, hnone⟩ | ⟨url, _, rfl, _⟩ | ⟨hne, _, hsame⟩
  · refine Or.inr ⟨⟨i, by simp⟩, ?_, hnone⟩
    rcases h with ⟨_, heq⟩ | ⟨_, ho, _⟩
    · exact heq ▸ hobject
    · exact ho
  · exact absurd rfl (hput url)
  · have hmem : ∀ j, .event j .deleted ∈ ls ++ [.event i e] ↔ .event j .deleted ∈ ls := by
      intro j
      simp [hne.symm]
    simp only [ObjectFollows, hmem, hsame]
    exact h

/-- One event of the last call after its put. -/
theorem callFollows_step {i : Nat} {o : StoredObject} {ls : List Label} {e : UploadEvent}
    {c c' : UploadCall} {p p' : StoredPicture} (hobject : ObjectFollows (some o) ls p)
    (hc : c.tempImage = some o.image) (h : AddressFollows i o.url ls p c.progress)
    (hstep : c.step p e = some (c', p')) :
    (∀ url, e ≠ .put url) ∧ c'.tempImage = some o.image ∧
      AddressFollows i o.url (ls ++ [.event i e]) p' c'.progress := by
  have hpicking : c.progress ≠ .picking := fun hq => by simp [hq, AddressFollows] at h
  have hputting : c.progress ≠ .putting := fun hq => by simp [hq, AddressFollows] at h
  cases e with
  | picked image => exact absurd (guarded_eq_some.mp hstep).1 hpicking
  | pickFails => exact absurd (guarded_eq_some.mp hstep).1 hpicking
  | put url => exact absurd (UploadCall.step_put.mp hstep).1 hputting
  | putFails completes => exact absurd (guarded_eq_some.mp hstep).1 hputting
  | deleted | deleteFails =>
      obtain ⟨_, heq⟩ := guarded_eq_some.mp hstep
      obtain ⟨rfl, rfl⟩ := Prod.mk.inj heq
      exact ⟨by simp, hc, addressFollows_concat h (by simp) rfl⟩
  | located =>
      obtain ⟨hlocating, url, hurl, rfl, rfl⟩ := UploadCall.step_located.mp hstep
      rw [hlocating] at h
      refine ⟨by simp, hc, ?_, fun hmem => h.2 (by simpa using hmem)⟩
      rcases hobject with ⟨_, hsome⟩ | ⟨_, _, hnone⟩
      · rw [StoredPicture.address, hsome] at hurl
        exact (Option.some.inj hurl).symm
      · rw [StoredPicture.address, hnone] at hurl
        exact absurd hurl (Option.some_ne_none url).symm
  | notFound =>
      obtain ⟨⟨hlocating, hnone⟩, heq⟩ := guarded_eq_some.mp hstep
      obtain ⟨rfl, rfl⟩ := Prod.mk.inj heq
      rw [hlocating] at h
      refine ⟨by simp, hc, h.1, Or.inr ?_⟩
      rcases hobject with ⟨_, hsome⟩ | ⟨⟨j, hj⟩, _, _⟩
      · exact absurd (hsome.symm.trans hnone) (Option.some_ne_none o)
      · exact ⟨j, List.mem_append_left _ hj⟩
  | locatingFails =>
      obtain ⟨hlocating, heq⟩ := guarded_eq_some.mp hstep
      obtain ⟨rfl, rfl⟩ := Prod.mk.inj heq
      rw [hlocating] at h
      exact ⟨by simp, hc, h.1, Or.inl (by simp)⟩
  | received =>
      obtain ⟨url, hanswered, rfl, rfl⟩ := UploadCall.step_received.mp hstep
      rw [hanswered] at h
      obtain ⟨rfl, hnot⟩ := h
      exact ⟨by simp, hc, rfl, fun hmem => hnot (by simpa using hmem)⟩

theorem putFollows_step {i : Nat} {o : StoredObject} {ls : List Label} {s t : Uploads} {l : Label}
    (h : PutFollows i o ls s) (hl : l ≠ .upload) (ht : step s l = some t) :
    PutFollows i o (ls ++ [l]) t := by
  cases l with
  | upload => exact absurd rfl hl
  | event k e =>
      obtain ⟨_, b, b', p, hb, hstep, rfl⟩ := step_event.mp ht
      obtain ⟨c, hc, himage, haddress⟩ := h.call
      by_cases hk : k = i
      · subst hk
        obtain rfl := Option.some.inj (hb.symm.trans hc)
        obtain ⟨hput, himage', haddress'⟩ := callFollows_step h.object himage haddress hstep
        refine ⟨fun j d hd hj => ?_, ⟨b', ?_, himage', haddress'⟩,
          objectFollows_concat h.object hstep hput⟩
        · rcases (getElem?_set_eq_some hb).mp hd with ⟨hkj, _⟩ | ⟨_, hd⟩
          · exact absurd hkj hj
          · exact h.others j d hd hj
        · exact (getElem?_set_eq_some hb).mpr (Or.inl ⟨rfl, rfl⟩)
      · have hended := h.others k b hb (Ne.symm hk)
        obtain ⟨hprogress, _, he⟩ := UploadCall.step_of_ended hended hstep
        have hput : ∀ url, e ≠ .put url := by
          rcases he with rfl | rfl <;> simp
        have hprefs : p.prefs = s.picture.prefs := by
          rcases UploadCall.prefs_of_step hstep with ⟨rfl, _⟩ | ⟨_, hprefs⟩
          · simp at he
          · exact hprefs
        refine ⟨fun j d hd hj => ?_, ⟨c, ?_, himage, ?_⟩, objectFollows_concat h.object hstep hput⟩
        · rcases (getElem?_set_eq_some hb).mp hd with ⟨_, rfl⟩ | ⟨_, hd⟩
          · rw [UploadCall.Ended, hprogress]
            exact hended
          · exact h.others j d hd hj
        · exact (getElem?_set_eq_some hb).mpr (Or.inr ⟨hk, hc⟩)
        · exact addressFollows_concat haddress (by simp [hk]) hprefs

/-- Before the put the address is in no preference, and no other call is open. -/
theorem putFollows_put {i : Nat} {url : Text} {s t : Uploads} (h : s.OneOpen)
    (ht : step s (.event i (.put url)) = some t) : ∃ image, PutFollows i ⟨image, url⟩ [] t := by
  obtain ⟨hfresh, c, c', p, hc, hstep, rfl⟩ := step_event.mp ht
  obtain ⟨hputting, image, himage, rfl, rfl⟩ := UploadCall.step_put.mp hstep
  have hopen : ¬ c.Ended := by simp [UploadCall.Ended, hputting]
  refine ⟨image, fun j d hd hj => ?_, ⟨{ c with progress := .locating }, ?_, himage, ?_, by simp⟩,
    Or.inl ⟨by simp, rfl⟩⟩
  · rcases (getElem?_set_eq_some hc).mp hd with ⟨hij, _⟩ | ⟨_, hd⟩
    · exact absurd hij hj
    · by_contra hdopen
      exact hj (h i j c d hc hd hopen hdopen)
  · exact (getElem?_set_eq_some hc).mpr (Or.inl ⟨rfl, rfl⟩)
  · exact fun hurl => hfresh (Or.inl hurl)

/-- What has followed the put of the last call decides whether its image is stored in the end. -/
theorem stored_iff_of_putFollows {i : Nat} {o : StoredObject} {ls : List Label} {s : Uploads}
    (h : PutFollows i o ls s) (hquiet : s.Quiet) : Stored i s ↔ PutLast i ls := by
  obtain ⟨c, hc, himage, haddress⟩ := h.call
  have hended := (hquiet c (List.mem_of_getElem? hc)).1
  constructor
  · rintro ⟨_, o', _, _, hobject', hurl⟩
    rcases h.object with ⟨hnone, hobject⟩ | ⟨_, _, hobject⟩
    · obtain rfl := Option.some.inj (hobject.symm.trans hobject')
      rcases hended with hreturned | hfailed
      · rw [hreturned] at haddress
        exact ⟨hnone, haddress.2⟩
      · rw [hfailed] at haddress
        exact absurd hurl haddress.1
    · exact absurd (hobject'.symm.trans hobject) (Option.some_ne_none o')
  · rintro ⟨hnone, haccepted⟩
    rcases h.object with ⟨_, hobject⟩ | ⟨⟨j, hj⟩, _, _⟩
    · rcases hended with hreturned | hfailed
      · rw [hreturned] at haddress
        exact ⟨c, o, hc, himage, hobject, haddress.1⟩
      · rw [hfailed] at haddress
        rcases haddress.2 with hrefused | ⟨j, hj⟩
        · exact absurd hrefused haccepted
        · exact absurd hj (hnone j)
    · exact absurd hj (hnone j)

/-- After uploads one at a time, the image and the address of the last one are stored exactly when
no delete takes effect after its put and the address is not refused. -/
theorem stored_iff_put_last {picture : StoredPicture} {pre post : List Label} {i : Nat}
    {url : Text} {s : Uploads}
    (hr : run step (start picture) (pre ++ .event i (.put url) :: post) = some s)
    (hone : Meets step OneAtATime (start picture) pre) (hlast : .upload ∉ post)
    (hquiet : s.Quiet) : Stored i s ↔ PutLast i post := by
  obtain ⟨t, hpre, hrest⟩ := (run_append_eq_some step).mp hr
  obtain ⟨u, hput, hpost⟩ := Option.bind_eq_some_iff.mp hrest
  have hopen : t.OneOpen :=
    meets_preserves (I := OneOpen) (fun _ _ _ => oneOpen_step) (by simp [OneOpen, start]) hone hpre
  obtain ⟨image, hstart⟩ := putFollows_put hopen hput
  refine stored_iff_of_putFollows (o := ⟨image, url⟩) ?_ hquiet
  refine run_induction step (motive := fun ls s => .upload ∉ ls → PutFollows i ⟨image, url⟩ ls s)
    (fun _ => hstart) (fun ls l s' t' _ ih ht hnot => ?_) hpost hlast
  simp only [List.mem_append, List.mem_singleton, not_or] at hnot
  exact putFollows_step (ih hnot.1) (Ne.symm hnot.2) ht

/-- An object of an earlier upload, and the preferences that point to it. -/
def oldPicture : StoredPicture where
  object := some ⟨[1], text "old"⟩
  prefs := ⟨some true, some (text "old")⟩

/-- The second of two uploads: its delete takes effect before its put. -/
def uploadedTwice : List Label :=
  [.upload, .event 0 (.picked (some [2])), .event 0 .deleted, .event 0 (.put (text "first")),
    .event 0 .located, .event 0 .received, .upload, .event 1 (.picked (some [3])),
    .event 1 .deleted]

theorem second_stored :
    ∃ s, run step (start oldPicture) (uploadedTwice ++ .event 1 (.put (text "second")) ::
        [.event 1 .located, .event 1 .received]) = some s ∧ Stored 1 s :=
  ⟨_, rfl, (stored_iff_put_last
    (rfl : run step (start oldPicture) (uploadedTwice ++ .event 1 (.put (text "second")) ::
      [.event 1 .located, .event 1 .received]) = some _)
    (by decide) (by decide) (by decide)).mpr ⟨by simp, by simp⟩⟩

/-- The put takes effect before the delete of the same upload: nothing is stored in the end. -/
theorem put_deleted :
    ∃ s, run step (start oldPicture) [.upload, .event 0 (.picked (some [2])),
        .event 0 (.put (text "new")), .event 0 .deleted, .event 0 .notFound] = some s ∧
      s.Quiet ∧ s.picture.object = none ∧ ¬ Stored 0 s :=
  ⟨_, rfl, by decide, rfl, fun ⟨_, o, _, _, hobject, _⟩ => Option.some_ne_none o hobject.symm⟩

end Uploads

end Chatsy
