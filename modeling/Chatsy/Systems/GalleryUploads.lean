import Chatsy.Systems.GallerySafety

/-!
# A phone whose uploads are those of one user

The machine of the uploads of one user on one device is what the world does on a
phone from which one user uploads, and on no other. All that happens besides, the
other phones and their uploads, the screens, sign-ins and restarts of the phone,
does not count. So what is known of that machine holds in the world.

## Implementation notes

A registration sent from the phone resets the flag, so there is none. The user
has no object before the first upload, and the flag is not yet set then.
-/

namespace Chatsy.Gallery

open Foundation RegistrationScreen ProfileScreen

variable {norm : Text → Text} {n : Nat} {ls : List Label} {g g' : Gallery} {k : Nat} {u : Text}

/-- The user for whom a press of the upload button on the phone begins an upload. -/
def uploader (g : Gallery) (k : Nat) : Option Text :=
  (g.world.phones[k]?.bind fun p => p.session.profilePage).join

/-- The phone uploads for `u` and no other phone does, and it sends no registration. -/
def Alone (k : Nat) (u : Text) (g : Gallery) : Label → Prop
  | .upload j => ∀ v ∈ g.uploader j, (j = k ↔ v = u)
  | .world (.phone j (.register es)) => j = k → onPressed (edited es) = none
  | _ => True

instance (k : Nat) (u : Text) (g : Gallery) : ∀ l, Decidable (Alone k u g l)
  | .upload j => inferInstanceAs (Decidable (∀ v ∈ g.uploader j, (j = k ↔ v = u)))
  | .world (.phone j l) =>
      match l with
      | .register es => inferInstanceAs (Decidable (j = k → onPressed (edited es) = none))
      | .session _ | .lateUser _ | .position _ _ | .tapTile _ _ | .compose _ _ | .press
      | .located _ | .emit _ _ _ | .write _ | .fail _ | .accountCreated _ | .accountFails _
      | .profileWritten _ | .profileFails _ => isTrue trivial
  | .world (.lateWrite _) | .world (.lateAccount _) | .world (.lateProfile _) => isTrue trivial
  | .check _ | .event _ _ _ => isTrue trivial

/-- What a step means for the uploads from the phone. -/
def uploadActs (k : Nat) (g : Gallery) : Label → List Uploads.Label
  | .upload j => if j = k then (g.uploader k).toList.map fun _ => .upload else []
  | .event j i e => if j = k then [.event i e] else []
  | _ => []

/-- The state of the uploads of `u` from the phone. -/
def uploads (g : Gallery) (k : Nat) (u : Text) : Uploads :=
  ⟨g.picture k u, (g.albums k).uploads.map Upload.call⟩

/-- The uploads from the phone are those of `u`. -/
def OnlyUser (k : Nat) (u : Text) (g : Gallery) : Prop :=
  ∀ j, ∀ x ∈ (g.albums j).uploads, (j = k ↔ x.owner = u)

theorem uploads_congr (hobject : g'.storage.objects u = g.storage.objects u)
    (hprefs : (g'.albums k).prefs = (g.albums k).prefs)
    (hcalls : (g'.albums k).uploads.map Upload.call = (g.albums k).uploads.map Upload.call) :
    g'.uploads k u = g.uploads k u := by
  rw [uploads, uploads, picture, picture, hobject, hprefs, hcalls]

/-- The uploads stay with the phone, also when its process ends. -/
theorem uploads_follow (a : Album) (s : Session) (l : Phone.Label) :
    (a.follow s l).uploads.map Upload.call = a.uploads.map Upload.call ∧
      (a.follow s l).uploads.map Upload.owner = a.uploads.map Upload.owner := by
  unfold Album.follow
  split
  · simp [Upload.detach]
  · exact ⟨rfl, rfl⟩
  · split <;> exact ⟨rfl, rfl⟩
  · exact ⟨rfl, rfl⟩

/-- The preferences change by a registration only. -/
theorem prefs_follow (a : Album) (s : Session) {l : Phone.Label}
    (hl : ∀ es, l = .register es → onPressed (edited es) = none) :
    (a.follow s l).prefs = a.prefs := by
  unfold Album.follow
  split
  · rfl
  · rfl
  · rename_i es
    rw [hl es rfl]
  · rfl

/-- A step of the world leaves the uploads of the phone alone. -/
theorem uploads_world {l : World.Label} (halone : Alone k u g (.world l)) (w : World) :
    (⟨w, g.follow l, g.storage⟩ : Gallery).uploads k u = g.uploads k u := by
  have halbum : (g.follow l k).prefs = (g.albums k).prefs ∧
      (g.follow l k).uploads.map Upload.call = (g.albums k).uploads.map Upload.call := by
    rcases follow_cases g l k with hsame | ⟨p, l', rfl, _, hfollow⟩
    · rw [hsame]
      exact ⟨rfl, rfl⟩
    · rw [hfollow]
      refine ⟨prefs_follow _ _ ?_, (uploads_follow _ _ _).1⟩
      rintro es rfl
      exact halone rfl
  exact uploads_congr rfl halbum.1 halbum.2

/-- A put gives an address that neither the preferences nor an answer holds. -/
theorem fresh_of_fresh {W : Nat → Text → Prop} (hkept : Kept W g) {e : UploadEvent}
    (h : g.storage.fresh e = true) : (g.uploads k u).Fresh e := by
  cases e with
  | put url =>
      rintro (hurl | ⟨c, hc, hurl⟩)
      · obtain ⟨v, _, hmem⟩ := (hkept.albums k).prefs url hurl
        exact Storage.not_mem_given_of_fresh h v hmem
      · obtain ⟨x, hx, rfl⟩ := List.mem_map.mp hc
        exact Storage.not_mem_given_of_fresh h x.owner ((hkept.albums k).answered x hx url hurl)
  | picked _ | pickFails | deleted | deleteFails | putFails _ | located | notFound
  | locatingFails | received => trivial

/-- Each step is, for the uploads of `u` from the phone, what the labels it sends them say. -/
theorem uploads_step {W : Nat → Text → Prop} {l : Label} (hkept : Kept W g)
    (honly : OnlyUser k u g) (halone : Alone k u g l) (h : step norm g l = some g') :
    run Uploads.step (g.uploads k u) (uploadActs k g l) = some (g'.uploads k u) := by
  cases l with
  | world l =>
      obtain ⟨w, _, rfl⟩ := Option.map_eq_some_iff.mp h
      exact congrArg some (uploads_world halone w).symm
  | check j =>
      obtain ⟨_, rfl⟩ := guarded_eq_some.mp h
      refine congrArg some (Eq.symm ?_)
      by_cases hjk : k = j
      · subst hjk
        refine uploads_congr rfl ?_ ?_ <;> simp [Album.check]
      · refine uploads_congr rfl ?_ ?_ <;> simp [hjk]
  | upload j =>
      obtain ⟨p, user, hp, hpage, rfl⟩ := step_upload.mp h
      by_cases hjk : j = k
      · subst hjk
        cases user with
        | none =>
            have hacts : uploadActs j g (.upload j) = [] := by
              simp [uploadActs, uploader, hp, hpage]
            rw [hacts]
            refine congrArg some (Eq.symm ?_)
            refine uploads_congr rfl ?_ ?_ <;> simp [Album.upload]
        | some v =>
            have hacts : uploadActs j g (.upload j) = [.upload] := by
              simp [uploadActs, uploader, hp, hpage]
            rw [hacts, run_singleton]
            simp [Uploads.step, uploads, picture, Album.upload]
      · have hacts : uploadActs k g (.upload j) = [] := if_neg hjk
        rw [hacts]
        refine congrArg some (Eq.symm ?_)
        refine uploads_congr rfl ?_ ?_ <;> simp [Ne.symm hjk]
  | event j i e =>
      obtain ⟨x, c, p, hx, _, hfresh, hcall, rfl⟩ := step_event.mp h
      by_cases hjk : j = k
      · subst hjk
        have hacts : uploadActs j g (.event j i e) = [.event i e] := if_pos rfl
        obtain rfl := (honly j x (List.mem_of_getElem? hx)).mp rfl
        rw [hacts, run_singleton]
        refine Uploads.step_event.mpr ⟨fresh_of_fresh hkept hfresh, x.call, c, p, ?_, hcall, ?_⟩
        · simp [uploads, hx]
        · simp [uploads, picture, Storage.serve, Album.answer, List.map_set]
      · have hacts : uploadActs k g (.event j i e) = [] := if_neg hjk
        have howner : u ≠ x.owner := fun hu =>
          hjk ((honly j x (List.mem_of_getElem? hx)).mpr hu.symm)
        rw [hacts]
        refine congrArg some (Eq.symm ?_)
        refine uploads_congr ?_ ?_ ?_ <;> simp [Ne.symm hjk, Storage.serve, howner]

end Chatsy.Gallery
