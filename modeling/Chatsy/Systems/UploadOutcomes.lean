import Chatsy.Cloud.Paths
import Chatsy.Systems.SharedUploads

/-!
# What an upload leaves behind

The flag promises that the address in the preferences is that of an existing
object, of whichever user of the device. An upload that is given up keeps neither
the object nor this promise when its delete takes effect, and no way out of
`uploadImage` writes the preferences back. Here the calls may overlap, of one
user or of several, and end in any way.

## Implementation notes

The statements hold at every moment of a run, so also once no request is pending.
An address is worth what the storage held when it was located, not when it was
received.
-/

namespace Chatsy

open Foundation ProfileScreen

namespace Uploads

/-- A put or a delete takes effect. -/
def Label.changesObject : Label → Bool
  | .event _ (.put _) | .event _ .deleted => true
  | _ => false

/-- The call that a label gives its address. -/
def receiver : Label → Option Nat
  | .event i .received => some i
  | _ => none

/-- The call has located its address after every put and every delete. -/
def LocatedLast (i : Nat) (ls : List Label) : Prop :=
  ∃ pre l post, ls = pre ++ l :: post ∧ l = .event i .located ∧
    ∀ m ∈ post, m.changesObject = false

theorem receiver_eq_some {l : Label} {i : Nat} : receiver l = some i ↔ l = .event i .received := by
  constructor
  · intro h
    match l, h with
    | .event _ .received, h => rw [Option.some.inj h]
  · rintro rfl
    rfl

theorem locatedLast_concat {i : Nat} {ls : List Label} {l : Label} :
    LocatedLast i (ls ++ [l]) ↔
      l = .event i .located ∨ LocatedLast i ls ∧ l.changesObject = false := by
  rw [LocatedLast, exists_split_concat (p := fun _ x post =>
    x = Label.event i .located ∧ ∀ m ∈ post, m.changesObject = false)]
  simp only [List.not_mem_nil, false_imp_iff, implies_true, and_true, List.mem_append,
    List.mem_singleton, or_imp, forall_and, forall_eq, LocatedLast]
  refine or_congr_right ⟨?_, ?_⟩
  · rintro ⟨pre, x, post, hsplit, hx, hpost, hl⟩
    exact ⟨⟨pre, x, post, hsplit, hx, hpost⟩, hl⟩
  · rintro ⟨⟨pre, x, post, hsplit, hx, hpost⟩, hl⟩
    exact ⟨pre, x, post, hsplit, hx, hpost, hl⟩

theorem locatedLast_of_mem {i : Nat} {ls : List Label} (h : .event i .located ∈ ls)
    (hsame : ∀ l ∈ ls, l.changesObject = false) : LocatedLast i ls := by
  obtain ⟨pre, post, rfl⟩ := List.append_of_mem h
  exact ⟨pre, _, post, rfl, rfl, fun m hm => hsame m (by simp [hm])⟩

/-- An address that the preferences or a call hold is that of the object until the next put or
delete takes effect, and never again. -/
theorem address_of_step {s t : Uploads} {l : Label} {url : Text} (h : s.Known url)
    (ht : step s l = some t) :
    t.picture.address = some url ↔ s.picture.address = some url ∧ l.changesObject = false := by
  cases l with
  | upload =>
      obtain rfl := Option.some.inj ht
      exact (and_iff_left rfl).symm
  | event i e =>
      obtain ⟨hfresh, c, c', p, _, hstep, rfl⟩ := step_event.mp ht
      rcases UploadCall.object_of_step hstep with
        ⟨rfl, _, hnone⟩ | ⟨w, image, rfl, hsome⟩ | ⟨hdelete, hput, hsame⟩
      · simp [StoredPicture.address, hnone, Label.changesObject]
      · have hne : w ≠ url := by
          rintro rfl
          exact hfresh h
        simp [StoredPicture.address, hsome, hne, Label.changesObject]
      · have hkept : (Label.event i e).changesObject = false := by
          cases e with
          | deleted => exact absurd rfl hdelete
          | put w => exact absurd rfl (hput w)
          | _ => rfl
        rw [StoredPicture.address, hsame, StoredPicture.address]
        exact (and_iff_left hkept).symm

/-- The address that call `i` has located is that of the object as long as nothing has changed the
object since. -/
def AddressOf (i : Nat) (ls : List Label) (address : Option Text) (url : Text) : Prop :=
  .event i .located ∈ ls ∧ (address = some url ↔ LocatedLast i ls)

theorem addressOf_concat {i : Nat} {ls : List Label} {s t : Uploads} {l : Label} {url : Text}
    (h : AddressOf i ls s.picture.address url) (hknown : s.Known url)
    (hl : l ≠ .event i .located) (ht : step s l = some t) :
    AddressOf i (ls ++ [l]) t.picture.address url := by
  refine ⟨List.mem_append_left _ h.1, ?_⟩
  rw [address_of_step hknown ht, h.2, locatedLast_concat, or_iff_right hl]

/-- The answers on their way point to what they have located. -/
def AnswersPoint (ls : List Label) (s : Uploads) : Prop :=
  ∀ (i : Nat) (c : UploadCall) (url : Text), s.calls[i]? = some c →
    c.progress = .answered url → AddressOf i ls s.picture.address url

theorem answersPoint_step {ls : List Label} {s t : Uploads} {l : Label} (h : AnswersPoint ls s)
    (ht : step s l = some t) : AnswersPoint (ls ++ [l]) t := by
  intro i c url hc hanswered
  cases l with
  | upload =>
      obtain rfl := Option.some.inj ht
      rcases getElem?_concat_eq_some.mp hc with hc | ⟨_, rfl⟩
      · exact addressOf_concat (h i c url hc hanswered)
          (Or.inr ⟨c, List.mem_of_getElem? hc, hanswered⟩) (by simp) ht
      · exact UploadProgress.noConfusion hanswered
  | event k e =>
      obtain ⟨_, b, b', p, hb, hstep, rfl⟩ := step_event.mp ht
      rcases (getElem?_set_eq_some hb).mp hc with ⟨rfl, rfl⟩ | ⟨hk, hc⟩
      · rcases UploadCall.answered_of_step hstep hanswered with ⟨he, hold⟩ | ⟨rfl, haddress⟩
        · exact addressOf_concat (h k b url hb hold)
            (Or.inr ⟨b, List.mem_of_getElem? hb, hold⟩) (by simpa using he) ht
        · exact ⟨by simp, iff_of_true haddress (locatedLast_concat.mpr (Or.inl rfl))⟩
      · exact addressOf_concat (h i c url hc hanswered)
          (Or.inr ⟨c, List.mem_of_getElem? hc, hanswered⟩) (by simp [hk]) ht

theorem prefs_of_step {s t : Uploads} {l : Label} (hl : receiver l = none)
    (ht : step s l = some t) : t.picture.prefs = s.picture.prefs := by
  cases l with
  | upload =>
      obtain rfl := Option.some.inj ht
      rfl
  | event k e =>
      obtain ⟨_, b, b', p, _, hstep, rfl⟩ := step_event.mp ht
      rcases UploadCall.prefs_of_step hstep with ⟨rfl, _⟩ | ⟨_, hprefs⟩
      · exact absurd hl (Option.some_ne_none k)
      · exact hprefs

/-- A call that has returned stays so, and locates nothing any more. -/
theorem returned_step {s t : Uploads} {l : Label} {i : Nat}
    (h : ∃ c, s.calls[i]? = some c ∧ c.progress = .returned) (ht : step s l = some t) :
    (∃ c, t.calls[i]? = some c ∧ c.progress = .returned) ∧ l ≠ .event i .located := by
  obtain ⟨c, hc, hreturned⟩ := h
  cases l with
  | upload =>
      obtain rfl := Option.some.inj ht
      exact ⟨⟨c, getElem?_concat_eq_some.mpr (Or.inl hc), hreturned⟩, by simp⟩
  | event k e =>
      obtain ⟨_, b, b', p, hb, hstep, rfl⟩ := step_event.mp ht
      by_cases hk : k = i
      · subst hk
        obtain rfl := Option.some.inj (hb.symm.trans hc)
        obtain ⟨hprogress, _, he⟩ := UploadCall.step_of_ended (Or.inl hreturned) hstep
        refine ⟨⟨b', (getElem?_set_eq_some hb).mpr (Or.inl ⟨rfl, rfl⟩),
          hprogress.trans hreturned⟩, ?_⟩
        rcases he with rfl | rfl <;> simp
      · exact ⟨⟨c, (getElem?_set_eq_some hb).mpr (Or.inr ⟨hk, hc⟩), hreturned⟩, by simp [hk]⟩

/-- The call receives its address: the preferences are those of an answer that it held. -/
theorem received_step {s t : Uploads} {i : Nat} (ht : step s (.event i .received) = some t) :
    ∃ c url, s.calls[i]? = some c ∧ c.progress = .answered url ∧
      t.picture.prefs = ⟨some true, some url⟩ ∧
      ∃ c', t.calls[i]? = some c' ∧ c'.progress = .returned := by
  obtain ⟨_, c, c', p, hc, hstep, rfl⟩ := step_event.mp ht
  obtain ⟨url, hanswered, rfl, rfl⟩ := UploadCall.step_received.mp hstep
  exact ⟨c, url, hc, hanswered, rfl, _, (getElem?_set_eq_some hc).mpr (Or.inl ⟨rfl, rfl⟩), rfl⟩

theorem changesObject_eq_false {ls : List Label} (hput : ∀ i url, .event i (.put url) ∉ ls)
    (hdeleted : ∀ i, .event i .deleted ∉ ls) : ∀ l ∈ ls, l.changesObject = false := by
  intro l hl
  match l with
  | .upload => rfl
  | .event i e =>
      cases e with
      | put url => exact absurd hl (hput i url)
      | deleted => exact absurd hl (hdeleted i)
      | _ => rfl

end Uploads

namespace SharedUploads

open Uploads (LocatedLast AddressOf AnswersPoint ObjectFollows)

variable {owner : Text → Text} {objects : Text → Option StoredObject} {prefs : SharedPrefs}
  {ls : List Label} {s t : SharedUploads} {l : Label} {u : Text} {i : Nat}

/-- The user and the call that a label gives its address. -/
def receiver (l : Label) : Option (Text × Nat) :=
  (Uploads.receiver l.label).map fun i => (l.user, i)

/-- The user and the call that has received its address last. -/
def lastReceiver (ls : List Label) : Option (Text × Nat) := (ls.filterMap receiver).getLast?

/-- The last address received was located after every put and every delete of its user. Where none
has been received and the flag was set, there was no put and no delete of the user whose object the
preferences point to. -/
def AddressCurrent (objects : Text → Option StoredObject) (prefs : SharedPrefs)
    (ls : List Label) : Prop :=
  match lastReceiver ls with
  | none => prefs.doProfilePicExists = some true →
      ∀ u, (objects u).map StoredObject.url = prefs.storageImageURL →
        ∀ l ∈ own u ls, l.changesObject = false
  | some (u, i) => LocatedLast i (own u ls)

/-- No delete takes effect, and an address received last is the one that the preferences held with
a set flag. -/
def NothingTaken (objects : Text → Option StoredObject) (prefs : SharedPrefs)
    (ls : List Label) : Prop :=
  (∀ u i, ⟨u, .event i .deleted⟩ ∉ ls) ∧ ∀ u i, lastReceiver ls = some (u, i) →
    prefs = ⟨some true, (objects u).map StoredObject.url⟩

theorem lastReceiver_concat (ls : List Label) (l : Label) :
    lastReceiver (ls ++ [l]) = (receiver l).or (lastReceiver ls) :=
  getLast?_filterMap_concat receiver ls l

theorem receiver_eq_some : receiver l = some (u, i) ↔ l = ⟨u, .event i .received⟩ := by
  obtain ⟨v, m⟩ := l
  simp only [receiver, Option.map_eq_some_iff, Prod.mk.injEq, Label.mk.injEq,
    Uploads.receiver_eq_some]
  constructor
  · rintro ⟨j, rfl, rfl, rfl⟩
    exact ⟨rfl, rfl⟩
  · rintro ⟨rfl, rfl⟩
    exact ⟨i, rfl, rfl, rfl⟩

theorem receiver_eq_none (h : receiver l = none) : Uploads.receiver l.label = none :=
  Option.map_eq_none_iff.mp h

/-- An address that the preferences hold, or an answer to the user, points to what it has located,
whoever makes the next step. -/
theorem addressOf_step {url : Text} (h : AddressOf i (own u ls) (s.address u) url)
    (hknown : (s.uploads u).Known url) (hl : l ≠ ⟨u, .event i .located⟩)
    (ht : step owner s l = some t) : AddressOf i (own u (ls ++ [l])) (t.address u) url := by
  obtain ⟨v, m⟩ := l
  by_cases hu : v = u
  · subst hu
    rw [own_concat_self]
    exact Uploads.addressOf_concat h hknown (fun heq => hl (heq ▸ rfl)) (uploads_step ht).1
  · rw [own_concat_other hu, address, (other_step ht hu).1]
    exact h

/-- Where the preferences and the answers on their way point after a run. -/
structure Points (owner : Text → Text) (objects : Text → Option StoredObject) (prefs : SharedPrefs)
    (ls : List Label) (s : SharedUploads) : Prop where
  owned : s.Owned owner
  answered : ∀ u, AnswersPoint (own u ls) (s.uploads u)
  unwritten : lastReceiver ls = none → s.prefs = prefs ∧
    ∀ u url, prefs.storageImageURL = some url → (s.address u = some url ↔
      (objects u).map StoredObject.url = some url ∧ ∀ l ∈ own u ls, l.changesObject = false)
  written : ∀ u i, lastReceiver ls = some (u, i) →
    (∃ c, (s.calls u)[i]? = some c ∧ c.progress = .returned) ∧
      ∃ url, s.prefs = ⟨some true, some url⟩ ∧ owner url = u ∧
        AddressOf i (own u ls) (s.address u) url

theorem points_start (hobjects : (start objects prefs).Owned owner) :
    Points owner objects prefs [] (start objects prefs) where
  owned := hobjects
  answered := fun u i c url hc => absurd hc (by simp [uploads, start])
  unwritten := fun _ =>
    ⟨rfl, fun _ _ _ => (and_iff_left fun _ hl => absurd hl List.not_mem_nil).symm⟩
  written := fun _ _ hlast => absurd hlast.symm (Option.some_ne_none _)

theorem answersPoint_step (h : ∀ u, AnswersPoint (own u ls) (s.uploads u))
    (ht : step owner s l = some t) : ∀ u, AnswersPoint (own u (ls ++ [l])) (t.uploads u) := by
  intro u
  obtain ⟨v, m⟩ := l
  by_cases hu : v = u
  · subst hu
    rw [own_concat_self]
    exact Uploads.answersPoint_step (h v) (uploads_step ht).1
  · obtain ⟨hobjects, hcalls⟩ := other_step ht hu
    rw [own_concat_other hu]
    intro i c url hc hanswered
    change (t.calls u)[i]? = some c at hc
    rw [hcalls] at hc
    change AddressOf i (own u ls) (t.address u) url
    rw [address, hobjects]
    exact h u i c url hc hanswered

theorem prefs_of_step (hl : receiver l = none) (ht : step owner s l = some t) :
    t.prefs = s.prefs :=
  Uploads.prefs_of_step (receiver_eq_none hl) (uploads_step ht).1

theorem unwritten_step (h : Points owner objects prefs ls s) (ht : step owner s l = some t)
    (hl : receiver l = none) (hnone : lastReceiver ls = none) :
    t.prefs = prefs ∧ ∀ u url, prefs.storageImageURL = some url → (t.address u = some url ↔
      (objects u).map StoredObject.url = some url ∧
        ∀ m ∈ own u (ls ++ [l]), m.changesObject = false) := by
  obtain ⟨hprefs, haddress⟩ := h.unwritten hnone
  refine ⟨(prefs_of_step hl ht).trans hprefs, fun u url hurl => ?_⟩
  obtain ⟨v, m⟩ := l
  by_cases hu : v = u
  · subst hu
    have hknown : (s.uploads v).Known url := Or.inl (by rw [uploads, hprefs, hurl])
    have hstep := Uploads.address_of_step hknown (uploads_step ht).1
    have hbefore := haddress v url hurl
    rw [own_concat_self]
    simp only [List.mem_append, List.mem_singleton, or_imp, forall_and, forall_eq]
    rw [← and_assoc, ← hbefore]
    exact hstep
  · rw [own_concat_other hu, address, (other_step ht hu).1]
    exact haddress u url hurl

theorem written_step (h : Points owner objects prefs ls s) (ht : step owner s l = some t)
    (hl : receiver l = none) (hlast : lastReceiver ls = some (u, i)) :
    (∃ c, (t.calls u)[i]? = some c ∧ c.progress = .returned) ∧
      ∃ url, t.prefs = ⟨some true, some url⟩ ∧ owner url = u ∧
        AddressOf i (own u (ls ++ [l])) (t.address u) url := by
  obtain ⟨hreturned, url, hprefs, howner, haddress⟩ := h.written u i hlast
  have hknown : (s.uploads u).Known url := Or.inl (by rw [uploads, hprefs])
  have hkept : (∃ c, (t.calls u)[i]? = some c ∧ c.progress = .returned) ∧
      l ≠ ⟨u, .event i .located⟩ := by
    obtain ⟨v, m⟩ := l
    by_cases hu : v = u
    · subst hu
      obtain ⟨hreturned', hlocated⟩ := Uploads.returned_step hreturned (uploads_step ht).1
      exact ⟨hreturned', fun heq => hlocated (Label.mk.inj heq).2⟩
    · rw [(other_step ht hu).2]
      exact ⟨hreturned, fun heq => hu (Label.mk.inj heq).1⟩
  exact ⟨hkept.1, url, (prefs_of_step hl ht).trans hprefs, howner,
    addressOf_step haddress hknown hkept.2 ht⟩

theorem received_step (h : Points owner objects prefs ls s)
    (ht : step owner s ⟨u, .event i .received⟩ = some t) :
    (∃ c, (t.calls u)[i]? = some c ∧ c.progress = .returned) ∧
      ∃ url, t.prefs = ⟨some true, some url⟩ ∧ owner url = u ∧
        AddressOf i (own u (ls ++ [⟨u, .event i .received⟩])) (t.address u) url := by
  obtain ⟨c, url, hc, hanswered, hprefs, hreturned⟩ := Uploads.received_step (uploads_step ht).1
  have haddress := h.answered u i c url hc hanswered
  have hmem : ∃ c ∈ s.calls u, c.progress = .answered url :=
    ⟨c, List.mem_of_getElem? hc, hanswered⟩
  exact ⟨hreturned, url, hprefs, h.owned u url (Or.inr hmem),
    addressOf_step haddress (Or.inr hmem) (by simp) ht⟩

theorem points_step (h : Points owner objects prefs ls s) (ht : step owner s l = some t) :
    Points owner objects prefs (ls ++ [l]) t := by
  refine ⟨owned_step h.owned ht, answersPoint_step h.answered ht, ?_, ?_⟩
  · rw [lastReceiver_concat, Option.or_eq_none_iff]
    exact fun hnone => unwritten_step h ht hnone.1 hnone.2
  · intro u i hlast
    rw [lastReceiver_concat] at hlast
    cases hl : receiver l with
    | none =>
        rw [hl, Option.none_or] at hlast
        exact written_step h ht hl hlast
    | some r =>
        rw [hl, Option.some_or] at hlast
        obtain rfl := Option.some.inj hlast
        obtain rfl := receiver_eq_some.mp hl
        exact received_step h ht

theorem points_run (hobjects : (start objects prefs).Owned owner)
    (hr : run (step owner) (start objects prefs) ls = some s) :
    Points owner objects prefs ls s :=
  run_induction (step owner) (motive := Points owner objects prefs) (points_start hobjects)
    (fun _ _ _ _ _ ih ht => points_step ih ht) hr

/-- The preferences are consistent after a run exactly when the address that they hold is
current. -/
theorem consistent_iff_addressCurrent (hobjects : (start objects prefs).Owned owner)
    (hstart : (start objects prefs).Consistent)
    (hr : run (step owner) (start objects prefs) ls = some s) :
    s.Consistent ↔ AddressCurrent objects prefs ls := by
  have hpoints := points_run hobjects hr
  have hown : ∀ {u v url}, s.address u = some url → owner url = v → u = v := by
    rintro u v url hu rfl
    exact (hpoints.owned u url (Or.inl hu)).symm
  rw [AddressCurrent]
  cases hlast : lastReceiver ls with
  | none =>
      obtain ⟨hprefs, haddress⟩ := hpoints.unwritten hlast
      rw [Consistent, hprefs]
      refine forall_congr' fun hflag => ?_
      obtain ⟨url, hurl, v, hv⟩ := hstart hflag
      change prefs.storageImageURL = some url at hurl
      change (objects v).map StoredObject.url = some url at hv
      have howner : owner url = v := hobjects v url (Or.inl hv)
      constructor
      · rintro ⟨url', hurl', u, hu⟩ w hw l hl
        obtain rfl := Option.some.inj (hurl'.symm.trans hurl)
        have hwv : w = v := by
          rw [hurl] at hw
          exact (hobjects w url' (Or.inl hw)).symm.trans howner
        have huv : u = v := hown hu howner
        subst hwv huv
        exact ((haddress u url' hurl).mp hu).2 l hl
      · intro hsame
        exact ⟨url, hurl, v, (haddress v url hurl).mpr ⟨hv, hsame v (hv.trans hurl.symm)⟩⟩
  | some r =>
      obtain ⟨u, i⟩ := r
      obtain ⟨_, url, hprefs, howner, _, haddress⟩ := hpoints.written u i hlast
      rw [Consistent, hprefs]
      refine Iff.trans ?_ haddress
      constructor
      · intro h
        obtain ⟨url', hurl', v, hv⟩ := h rfl
        obtain rfl : url = url' := Option.some.inj hurl'
        exact hown hv howner ▸ hv
      · exact fun h _ => ⟨url, rfl, u, h⟩

/-- Without a put each object stays until a delete of its user takes effect. -/
theorem objectFollows_run (hr : run (step owner) (start objects prefs) ls = some s)
    (hput : ∀ l ∈ ls, l.label.gives = none) :
    ∀ u, ObjectFollows (objects u) (own u ls) (s.uploads u).picture := by
  refine run_induction (step owner) (motive := fun ls s => (∀ l ∈ ls, l.label.gives = none) →
    ∀ u, ObjectFollows (objects u) (own u ls) (s.uploads u).picture)
    (fun _ u => Or.inl ⟨fun _ => List.not_mem_nil, rfl⟩) (fun ls l s t _ ih ht hput u => ?_) hr hput
  have hfollows := ih (fun l' hl' => hput l' (List.mem_append_left _ hl')) u
  obtain ⟨v, m⟩ := l
  by_cases hu : v = u
  · subst hu
    rw [own_concat_self]
    exact Uploads.objectFollows_step hfollows (uploads_step ht).1 (hput ⟨v, m⟩ (by simp))
  · rw [own_concat_other hu]
    have hobject : (t.uploads u).picture.object = (s.uploads u).picture.object :=
      (other_step ht hu).1
    rwa [ObjectFollows, hobject]

/-- Without a put everything stays as it was exactly when nothing has been taken. -/
theorem unchanged_iff_nothingTaken (hobjects : (start objects prefs).Owned owner)
    (hr : run (step owner) (start objects prefs) ls = some s)
    (hput : ∀ l ∈ ls, l.label.gives = none) :
    s.objects = objects ∧ s.prefs = prefs ↔ NothingTaken objects prefs ls := by
  have hpoints := points_run hobjects hr
  have hfollows := objectFollows_run hr hput
  have hunchanged : (∀ u i, ⟨u, .event i .deleted⟩ ∉ ls) →
      ∀ u, ∀ l ∈ own u ls, l.changesObject = false := by
    intro hdeleted u
    apply Uploads.changesObject_eq_false
    · intro i url hmem
      exact Option.some_ne_none url (hput _ (mem_own.mp hmem))
    · exact fun i hmem => hdeleted u i (mem_own.mp hmem)
  have hread : ∀ u i, lastReceiver ls = some (u, i) → s.objects = objects →
      (∀ u i, ⟨u, .event i .deleted⟩ ∉ ls) →
      s.prefs = ⟨some true, (objects u).map StoredObject.url⟩ := by
    intro u i hlast hsame hdeleted
    obtain ⟨_, url, hprefs, _, hlocated, haddress⟩ := hpoints.written u i hlast
    have hurl := haddress.mpr (Uploads.locatedLast_of_mem hlocated (hunchanged hdeleted u))
    rw [hprefs, ← hurl, address, hsame]
  constructor
  · rintro ⟨hsame, hprefs⟩
    have hdeleted : ∀ u i, ⟨u, .event i .deleted⟩ ∉ ls := by
      intro u i hmem
      rcases hfollows u with ⟨hnone, _⟩ | ⟨_, hsome, hgone⟩
      · exact hnone i (mem_own.mpr hmem)
      · exact hsome ((congrFun hsame u).symm.trans hgone)
    exact ⟨hdeleted, fun u i hlast => hprefs.symm.trans (hread u i hlast hsame hdeleted)⟩
  · rintro ⟨hdeleted, hreceived⟩
    have hsame : s.objects = objects := by
      funext u
      rcases hfollows u with ⟨_, hkept⟩ | ⟨⟨i, hi⟩, _, _⟩
      · exact hkept
      · exact absurd (mem_own.mp hi) (hdeleted u i)
    refine ⟨hsame, ?_⟩
    cases hlast : lastReceiver ls with
    | none => exact (hpoints.unwritten hlast).1
    | some r => exact (hread r.1 r.2 hlast hsame hdeleted).trans (hreceived r.1 r.2 hlast).symm

/-- What uploads leave behind. Those that put no image leave everything as it was exactly when
nothing is taken, and after any uploads the preferences are consistent exactly when the address
that they hold is current. -/
theorem unchanged_and_consistent_iff (hobjects : ∀ u o, objects u = some o → owner o.url = u)
    (hstart : (start objects prefs).Consistent)
    (hr : run (step owner) (start objects prefs) ls = some s) :
    ((∀ l ∈ ls, l.label.gives = none) →
      (s.objects = objects ∧ s.prefs = prefs ↔ NothingTaken objects prefs ls)) ∧
      (s.Consistent ↔ AddressCurrent objects prefs ls) :=
  ⟨unchanged_iff_nothingTaken (owned_start hobjects) hr,
    consistent_iff_addressCurrent (owned_start hobjects) hstart hr⟩

/-- The user named by an address such as `ann@mail.com/a`. -/
def addressUser (url : Text) : Text := url.takeWhile fun unit => unit ≠ slash

/-- The objects of `ann` and of `bob`. -/
def stored (u : Text) : Option StoredObject :=
  if u = text "ann@mail.com" then some ⟨[1], text "ann@mail.com/a"⟩
  else if u = text "bob@mail.com" then some ⟨[2], text "bob@mail.com/b"⟩
  else none

theorem addressUser_stored (u : Text) (o : StoredObject) (h : stored u = some o) :
    addressUser o.url = u := by
  unfold stored at h
  split at h
  · next hu =>
    obtain rfl := Option.some.inj h
    exact hu ▸ rfl
  · obtain ⟨hu, rfl⟩ := guarded_eq_some.mp h
    exact hu ▸ rfl

/-- `ann` cancels the picker, and the delete fails. -/
def cancelled : List Label :=
  [⟨text "ann@mail.com", .upload⟩, ⟨text "ann@mail.com", .event 0 (.picked none)⟩,
    ⟨text "ann@mail.com", .event 0 .deleteFails⟩]

/-- The preferences point to the object of `bob`, and stay so. -/
theorem cancelled_unchanged :
    ∃ s, run (step addressUser) (start stored ⟨some true, some (text "bob@mail.com/b")⟩)
        cancelled = some s ∧
      (s.objects = stored ∧ s.prefs = ⟨some true, some (text "bob@mail.com/b")⟩) ∧
      s.Consistent := by
  have hiff := unchanged_and_consistent_iff addressUser_stored
    (fun _ => ⟨_, rfl, text "bob@mail.com", rfl⟩)
    (rfl : run (step addressUser) (start stored ⟨some true, some (text "bob@mail.com/b")⟩)
      cancelled = some _)
  refine ⟨_, rfl, (hiff.1 (by decide)).mpr ⟨?_, ?_⟩, hiff.2.mpr fun _ u _ l hl => ?_⟩
  · simp [cancelled]
  · exact fun u i hlast => absurd hlast.symm (Option.some_ne_none _)
  · have hsame : ∀ l ∈ cancelled, l.label.changesObject = false := by decide
    exact hsame _ (mem_own.mp hl)

/-- She cancels it again, and the delete takes effect. -/
def deleted : List Label :=
  [⟨text "ann@mail.com", .upload⟩, ⟨text "ann@mail.com", .event 0 (.picked none)⟩,
    ⟨text "ann@mail.com", .event 0 .deleted⟩]

/-- The preferences point to the object of `ann`: the flag stays set, and the object is gone. -/
theorem cancelled_deleted :
    ∃ s, run (step addressUser) (start stored ⟨some true, some (text "ann@mail.com/a")⟩)
        deleted = some s ∧
      s.Quiet ∧ (start stored ⟨some true, some (text "ann@mail.com/a")⟩).Consistent ∧
      s.objects ≠ stored ∧ ¬ s.Consistent := by
  have hr : run (step addressUser) (start stored ⟨some true, some (text "ann@mail.com/a")⟩)
      deleted = some _ := rfl
  have hother : ∀ u, u ≠ text "ann@mail.com" → ∀ l ∈ deleted, l.user ≠ u := by
    intro u hu l hl heq
    have hann : ∀ l ∈ deleted, l.user = text "ann@mail.com" := by decide
    exact hu (heq.symm.trans (hann l hl))
  refine ⟨_, hr, fun u => ?_, fun _ => ⟨_, rfl, text "ann@mail.com", rfl⟩, fun h => ?_, fun h => ?_⟩
  · by_cases hu : u = text "ann@mail.com"
    · subst hu
      decide
    · rw [Uploads.Quiet, uploads, (other_run hr (hother u hu)).2]
      exact fun c hc => absurd hc List.not_mem_nil
  · exact absurd (congrFun h (text "ann@mail.com")) (by decide)
  · obtain ⟨url, hurl, u, haddress⟩ := h rfl
    obtain rfl : text "ann@mail.com/a" = url := Option.some.inj hurl
    by_cases hu : u = text "ann@mail.com"
    · subst hu
      exact absurd haddress (by decide)
    · rw [address, (other_run hr (hother u hu)).1] at haddress
      obtain ⟨o, ho, hourl⟩ := Option.map_eq_some_iff.mp haddress
      have huser := addressUser_stored u o ho
      rw [hourl] at huser
      exact hu (huser.symm.trans (by decide))

end SharedUploads

/-- The flag is set only together with the address of the own object. -/
def StoredPicture.OwnConsistent (p : StoredPicture) : Prop :=
  p.prefs.doProfilePicExists = some true →
    ∃ url, p.prefs.storageImageURL = some url ∧ p.address = some url

namespace Uploads

/-- The call that has received its address last. -/
def lastReceiver (ls : List Label) : Option Nat := (ls.filterMap receiver).getLast?

/-- The last address received was located after every put and every delete. Where none has been
received and the flag was set, there was no put and no delete. -/
def AddressCurrent (picture : StoredPicture) (ls : List Label) : Prop :=
  match lastReceiver ls with
  | none => picture.prefs.doProfilePicExists = some true → ∀ l ∈ ls, l.changesObject = false
  | some i => LocatedLast i ls

/-- The uploads of one user, with no object of anybody else. -/
def alone (s : Uploads) : SharedUploads :=
  (SharedUploads.start (fun _ => none) s.picture.prefs).withUploads [] s

theorem alone_step {s t : Uploads} {l : Label} (h : step s l = some t) :
    SharedUploads.step (fun _ => []) s.alone ⟨[], l⟩ = some t.alone := by
  have hview : s.alone.uploads [] = s := by
    simp [alone, SharedUploads.uploads, SharedUploads.withUploads]
  have hgives : (l.gives.all fun url => decide ((fun _ => []) url = ([] : Text))) = true := by
    cases l.gives <;> rfl
  rw [SharedUploads.step, if_pos hgives]
  change (step (s.alone.uploads []) l).map (s.alone.withUploads []) = some t.alone
  rw [hview, h]
  simp [alone, SharedUploads.withUploads, SharedUploads.start]

theorem alone_run {picture : StoredPicture} {ls : List Label} {s : Uploads}
    (hr : run step (start picture) ls = some s) :
    run (SharedUploads.step fun _ => []) (start picture).alone
      (ls.map (SharedUploads.Label.mk [])) = some s.alone := by
  refine run_induction step (motive := fun ls s =>
    run (SharedUploads.step fun _ => []) (start picture).alone
      (ls.map (SharedUploads.Label.mk [])) = some s.alone) rfl ?_ hr
  intro ls l s t _ ih h
  rw [List.map_append]
  exact (run_append_eq_some _).mpr ⟨s.alone, ih, (run_singleton _ _ _).trans (alone_step h)⟩

theorem alone_start (picture : StoredPicture) : (start picture).alone =
    SharedUploads.start (Function.update (fun _ => none) [] picture.object) picture.prefs := by
  simp [alone, SharedUploads.withUploads, SharedUploads.start, start]

@[simp] theorem address_alone (s : Uploads) : s.alone.address [] = s.picture.address := by
  simp [alone, SharedUploads.withUploads, SharedUploads.address, StoredPicture.address]

theorem address_alone_other (s : Uploads) {u : Text} (hu : u ≠ []) : s.alone.address u = none := by
  simp [alone, SharedUploads.withUploads, SharedUploads.address, SharedUploads.start, hu]

theorem alone_consistent_iff (s : Uploads) :
    s.alone.Consistent ↔ s.picture.OwnConsistent := by
  refine forall_congr' fun _ => exists_congr fun url => and_congr_right fun _ => ?_
  constructor
  · rintro ⟨u, haddress⟩
    by_cases hu : u = []
    · subst hu
      exact s.address_alone ▸ haddress
    · rw [address_alone_other s hu] at haddress
      exact absurd haddress.symm (Option.some_ne_none url)
  · exact fun h => ⟨[], (address_alone s).trans h⟩

theorem own_alone (ls : List Label) :
    SharedUploads.own [] (ls.map (SharedUploads.Label.mk [])) = ls := by
  simp [SharedUploads.own, List.filterMap_map]

theorem lastReceiver_alone (ls : List Label) :
    SharedUploads.lastReceiver (ls.map (SharedUploads.Label.mk [])) =
      (lastReceiver ls).map fun i => ([], i) := by
  rw [SharedUploads.lastReceiver, lastReceiver, List.filterMap_map, ← List.getLast?_map,
    List.map_filterMap]
  rfl

/-- With one user alone the preferences are consistent after a run exactly when the address that
they hold is current. -/
theorem consistent_iff_addressCurrent {picture : StoredPicture}
    (hpicture : picture.OwnConsistent) {ls : List Label} {s : Uploads}
    (hr : run step (start picture) ls = some s) :
    s.picture.OwnConsistent ↔ AddressCurrent picture ls := by
  have hshared := alone_run hr
  have hconsistent := (alone_consistent_iff (start picture)).mpr hpicture
  have haddress := alone_start picture
  rw [haddress] at hshared hconsistent
  have howned : (SharedUploads.start (Function.update (fun _ => none) [] picture.object)
      picture.prefs).Owned fun _ => [] := by
    apply SharedUploads.owned_start
    intro u o ho
    by_contra hu
    rw [Function.update_of_ne (Ne.symm hu)] at ho
    exact Option.some_ne_none o ho.symm
  rw [← alone_consistent_iff,
    SharedUploads.consistent_iff_addressCurrent howned hconsistent hshared,
    SharedUploads.AddressCurrent, AddressCurrent, lastReceiver_alone]
  cases lastReceiver ls with
  | none =>
      refine forall_congr' fun hflag => ⟨fun h => ?_, fun h u _ l hl => ?_⟩
      · obtain ⟨url, hurl, hown⟩ := hpicture hflag
        have hsame := h [] (by simpa [StoredPicture.address, hurl] using hown)
        rwa [own_alone] at hsame
      · obtain ⟨m, hm, heq⟩ := List.mem_map.mp (SharedUploads.mem_own.mp hl)
        exact (SharedUploads.Label.mk.inj heq).2 ▸ h m hm
  | some i =>
      change LocatedLast i (SharedUploads.own [] (ls.map (SharedUploads.Label.mk []))) ↔ _
      rw [own_alone]

end Uploads

end Chatsy
