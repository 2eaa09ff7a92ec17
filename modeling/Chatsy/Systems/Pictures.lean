import Chatsy.Foundation.Runs
import Chatsy.Screens.ProfileScreen
import Chatsy.Screens.RegistrationScreen

/-!
# The profile picture on a shared device

Users register, log in and out, open their profile and upload pictures on one
device. What a profile shows is decided by the last registration or upload on
the device, whoever made it, and by nothing at all on a device that has seen
neither.

## Implementation notes

A download address names the stored object of its user, so two users never have
the same one, and none is the default picture. An upload is made for the user of
its profile, who may have signed out before it ends. The sign-in that comes with
a created account is a login of the run.
-/

namespace Chatsy

open Foundation RegistrationScreen ProfileScreen

/-- The signed-in user, the preferences and the global variable `url`. -/
structure Pictures where
  currentUser : Option Text
  prefs : SharedPrefs
  url : Option Text
  deriving DecidableEq, Repr

namespace Pictures

/-- A new device on which the app has started. -/
def start : Pictures := ⟨none, unset, some []⟩

/-- The steps of a device. -/
inductive Label
  | register (es : List Edit)
  | login (user : Text)
  | signOut
  | openProfile
  | upload (user : Text) (url : Text)
  deriving DecidableEq, Repr

def step (s : Pictures) : Label → Option Pictures
  | .register es =>
      match onPressed (edited es) with
      | some r =>
          some { s with prefs :=
            { s.prefs with doProfilePicExists := some r.doProfilePicExists } }
      | none => some s
  | .login user => some { s with currentUser := some user }
  | .signOut => some { s with currentUser := none }
  | .openProfile =>
      if s.currentUser.isSome then some { s with url := checkSharedPrefs s.prefs s.url } else none
  | .upload _ url => some { s with prefs := uploadImage url s.prefs }

/-- What writes the preferences: a registration that is sent, or an upload. -/
inductive Change
  | registration
  | upload (user : Text) (url : Text)
  deriving DecidableEq, Repr

/-- The change that a label makes. -/
def change : Label → Option Change
  | .register es => (onPressed (edited es)).map fun _ => .registration
  | .upload user url => some (.upload user url)
  | _ => none

/-- The changes of a run, in their order. -/
def changes (ls : List Label) : List Change := ls.filterMap change

/-- The addresses of the pictures that `u` has uploaded, in their order. -/
def uploads (u : Text) (ls : List Label) : List Text :=
  (changes ls).filterMap fun
    | .upload user url => if user = u then some url else none
    | .registration => none

/-- The picture that `u` should be shown: the latest own one, or the default picture. -/
def expected (u : Text) (ls : List Label) : Text := (uploads u ls).getLast?.getD defaultPicture

/-- The picture that an opened profile settles on. -/
def settled (s : Pictures) : Option Text := checkSharedPrefs s.prefs s.url

/-- No two users have uploaded to one address, and none to the address of the default picture. -/
def UrlsOwn (ls : List Label) : Prop :=
  ∀ user url, .upload user url ∈ changes ls → url ≠ defaultPicture ∧
    ∀ other, .upload other url ∈ changes ls → other = user

/-- The last change on the device is an upload of `u`, or a registration while `u` has uploaded
nothing. -/
def LastOwn (u : Text) (ls : List Label) : Prop :=
  match (changes ls).getLast? with
  | some (.upload user _) => user = u
  | some .registration => uploads u ls = []
  | none => False

theorem changes_concat (ls : List Label) (l : Label) :
    changes (ls ++ [l]) = changes ls ++ (change l).toList :=
  filterMap_concat change ls l

/-- The preferences and the variable, as the last change decides them. -/
def Decided (ls : List Label) (s : Pictures) : Prop :=
  match (changes ls).getLast? with
  | some (.upload _ url) => s.prefs = ⟨some true, some url⟩
  | some .registration => s.prefs.doProfilePicExists = some false
  | none => s.prefs.doProfilePicExists = none ∧ s.url = some []

theorem decided_of_change {ls : List Label} {s : Pictures} {l : Label} {c : Change}
    (hc : change l = some c)
    (h : match c with
      | .upload _ url => s.prefs = ⟨some true, some url⟩
      | .registration => s.prefs.doProfilePicExists = some false) :
    Decided (ls ++ [l]) s := by
  rw [Decided, changes_concat, hc, Option.toList_some, List.getLast?_concat]
  cases c <;> exact h

theorem decided_of_silent {ls : List Label} {s t : Pictures} {l : Label} (h : Decided ls s)
    (hc : change l = none) (hprefs : t.prefs = s.prefs)
    (hurl : s.prefs.doProfilePicExists = none → t.url = s.url) : Decided (ls ++ [l]) t := by
  rw [Decided, changes_concat, hc, Option.toList_none, List.append_nil]
  unfold Decided at h
  cases hlast : (changes ls).getLast? with
  | none =>
      rw [hlast] at h
      exact ⟨hprefs ▸ h.1, (hurl h.1).trans h.2⟩
  | some c =>
      rw [hlast] at h
      cases c with
      | registration => exact hprefs ▸ h
      | upload user url => exact hprefs.trans h

theorem decided_step {ls : List Label} {s t : Pictures} {l : Label} (h : Decided ls s)
    (hl : step s l = some t) : Decided (ls ++ [l]) t := by
  cases l with
  | register es =>
      cases hr : onPressed (edited es) with
      | none =>
          simp only [step, hr, Option.some.injEq] at hl
          subst hl
          exact decided_of_silent h (by simp [change, hr]) rfl fun _ => rfl
      | some r =>
          simp only [step, hr, Option.some.injEq] at hl
          subst hl
          have hfalse : r.doProfilePicExists = false := by
            obtain ⟨name, password, hname, hpassword, hemail, _⟩ := onPressed_eq_some hr
            rw [onPressed, hname, hpassword, hemail] at hr
            rw [← Option.some.inj hr]
          exact decided_of_change (c := .registration) (by simp [change, hr])
            (congrArg some hfalse)
  | login user =>
      obtain rfl := Option.some.inj hl
      exact decided_of_silent h rfl rfl fun _ => rfl
  | signOut =>
      obtain rfl := Option.some.inj hl
      exact decided_of_silent h rfl rfl fun _ => rfl
  | openProfile =>
      obtain ⟨_, rfl⟩ := guarded_eq_some.mp hl
      refine decided_of_silent h rfl rfl fun hnone => ?_
      simp only [checkSharedPrefs, hnone]
  | upload user url =>
      obtain rfl := Option.some.inj hl
      exact decided_of_change (c := .upload user url) rfl rfl

theorem decided_run {ls : List Label} {s : Pictures} (hr : run step start ls = some s) :
    Decided ls s :=
  run_induction step (motive := Decided) ⟨rfl, rfl⟩
    (fun _ _ _ _ _ ih hl => decided_step ih hl) hr

theorem mem_uploads {u url : Text} {ls : List Label} :
    url ∈ uploads u ls ↔ .upload u url ∈ changes ls := by
  simp only [uploads, List.mem_filterMap]
  constructor
  · rintro ⟨c, hc, hurl⟩
    cases c with
    | registration => exact absurd hurl (Option.some_ne_none url).symm
    | upload user url' =>
        obtain ⟨rfl, rfl⟩ := guarded_eq_some.mp hurl
        exact hc
  · exact fun h => ⟨_, h, if_pos rfl⟩

/-- The picture expected is the default one, or an upload of the user. -/
theorem expected_cases (u : Text) (ls : List Label) :
    (uploads u ls = [] ∧ expected u ls = defaultPicture) ∨
      .upload u (expected u ls) ∈ changes ls := by
  unfold expected
  cases hlast : (uploads u ls).getLast? with
  | none => exact Or.inl ⟨List.getLast?_eq_none_iff.mp hlast, Option.getD_none⟩
  | some url => exact Or.inr (mem_uploads.mp (List.mem_of_getLast? hlast))

/-- An upload at the end of the changes is the one expected for its user, and for nobody else. -/
theorem expected_of_last_upload {u user url : Text} {ls : List Label} (hurls : UrlsOwn ls)
    (hlast : (changes ls).getLast? = some (.upload user url)) :
    expected u ls = url ↔ user = u := by
  have hmem : Change.upload user url ∈ changes ls := List.mem_of_getLast? hlast
  obtain ⟨hdefault, hown⟩ := hurls user url hmem
  constructor
  · intro hexpected
    rcases expected_cases u ls with ⟨_, hcase⟩ | hcase
    · exact absurd (hexpected.symm.trans hcase) hdefault
    · rw [hexpected] at hcase
      exact (hown u hcase).symm
  · rintro rfl
    obtain ⟨cs, hcs⟩ := List.getLast?_eq_some_iff.mp hlast
    simp [expected, uploads, hcs]

/-- A registration at the end of the changes shows the default picture, which is expected for
a user without uploads. -/
theorem expected_eq_default_iff {u : Text} {ls : List Label} (hurls : UrlsOwn ls) :
    expected u ls = defaultPicture ↔ uploads u ls = [] := by
  constructor
  · intro hexpected
    rcases expected_cases u ls with ⟨hnil, _⟩ | hcase
    · exact hnil
    · exact absurd hexpected (hurls u _ hcase).1
  · intro hnil
    rw [expected, hnil, List.getLast?_nil, Option.getD_none]

/-- The profile settles on the picture expected for `u` exactly when the last change on the
device is the own upload of `u`, or a registration before any upload of `u`. -/
theorem settled_iff_lastOwn {u : Text} {ls : List Label} {s : Pictures}
    (hr : run step start ls = some s) (hurls : UrlsOwn ls) :
    s.settled = some (expected u ls) ↔ LastOwn u ls := by
  have hdecided := decided_run hr
  unfold Decided at hdecided
  unfold LastOwn settled
  cases hlast : (changes ls).getLast? with
  | none =>
      rw [hlast] at hdecided
      obtain ⟨hflag, hurl⟩ := hdecided
      have hnil : changes ls = [] := List.getLast?_eq_none_iff.mp hlast
      have hexpected : expected u ls = defaultPicture := by
        rw [expected, uploads, hnil, List.filterMap_nil, List.getLast?_nil, Option.getD_none]
      have hne : ([] : Text) ≠ defaultPicture := ne_defaultPicture (by decide)
      rw [checkSharedPrefs, hflag, hexpected, hurl]
      exact iff_of_false (fun h => hne (Option.some.inj h)) id
  | some c =>
      rw [hlast] at hdecided
      cases c with
      | registration =>
          rw [checkSharedPrefs, hdecided, Option.some.injEq, eq_comm]
          exact expected_eq_default_iff hurls
      | upload user url =>
          rw [hdecided]
          change some url = some (expected u ls) ↔ user = u
          rw [Option.some.injEq, eq_comm]
          exact expected_of_last_upload hurls hlast

/-- The signed-in user is shown the own picture, whatever the others do, exactly when the last
change on the device is the user's own upload or a registration before it. -/
theorem own_picture_iff {ls : List Label} {s : Pictures} (hr : run step start ls = some s)
    (hurls : UrlsOwn ls) :
    ∀ u, s.currentUser = some u →
      (s.settled = some (expected u ls) ↔ LastOwn u ls) ∧
      ∀ ls' s', run step start ls' = some s' → s'.currentUser = some u → UrlsOwn ls' →
        uploads u ls' = uploads u ls → LastOwn u ls → LastOwn u ls' → s'.settled = s.settled := by
  intro u _
  refine ⟨settled_iff_lastOwn hr hurls, ?_⟩
  intro ls' s' hr' _ hurls' huploads hown hown'
  rw [(settled_iff_lastOwn hr hurls).mpr hown, (settled_iff_lastOwn hr' hurls').mpr hown',
    expected, expected, huploads]

/-- `ann` registers, `bob` uploads a picture, and then `ann` uploads hers. -/
def annUploadsLast : List Label :=
  [.register [.name (text "Ann"), .email (text "ann@mail.com"), .password (text "secret")],
    .login (text "bob@mail.com"), .upload (text "bob@mail.com") (text "b"), .signOut,
    .login (text "ann@mail.com"), .openProfile, .upload (text "ann@mail.com") (text "a")]

theorem ann_sees_own_picture :
    ∃ s, run step start annUploadsLast = some s ∧ s.currentUser = some (text "ann@mail.com") ∧
      s.settled = some (expected (text "ann@mail.com") annUploadsLast) := by
  have hurls : UrlsOwn annUploadsLast := by
    have hchanges : changes annUploadsLast =
        [.registration, .upload (text "bob@mail.com") (text "b"),
          .upload (text "ann@mail.com") (text "a")] := rfl
    intro user url hmem
    rw [hchanges] at hmem ⊢
    simp only [List.mem_cons, reduceCtorEq, Change.upload.injEq, List.not_mem_nil, or_false,
      false_or] at hmem ⊢
    rcases hmem with ⟨rfl, rfl⟩ | ⟨rfl, rfl⟩
    · refine ⟨ne_defaultPicture (by decide), fun other hother => ?_⟩
      rcases hother with ⟨rfl, _⟩ | ⟨_, hurl⟩
      · rfl
      · exact absurd hurl (by decide)
    · refine ⟨ne_defaultPicture (by decide), fun other hother => ?_⟩
      rcases hother with ⟨_, hurl⟩ | ⟨rfl, _⟩
      · exact absurd hurl (by decide)
      · rfl
  have hown : LastOwn (text "ann@mail.com") annUploadsLast := rfl
  exact ⟨_, rfl, rfl,
    ((own_picture_iff (rfl : run step start annUploadsLast = some _) hurls _ rfl).1).mpr hown⟩

/-- `bob` uploads a picture, and `ann`, who has uploaded none, is shown it; without his upload
she is shown the default picture. -/
theorem bob_shown_to_ann :
    ∃ s t, run step start
        [.register [.name (text "Ann"), .email (text "ann@mail.com"), .password (text "secret")],
          .login (text "bob@mail.com"), .upload (text "bob@mail.com") (text "b"), .signOut,
          .login (text "ann@mail.com"), .openProfile] = some s ∧
      run step start
        [.register [.name (text "Ann"), .email (text "ann@mail.com"), .password (text "secret")],
          .login (text "bob@mail.com"), .signOut, .login (text "ann@mail.com"),
          .openProfile] = some t ∧
      s.settled = some (text "b") ∧ t.settled = some defaultPicture ∧
      s.settled ≠ some (expected (text "ann@mail.com")
        [.register [.name (text "Ann"), .email (text "ann@mail.com"), .password (text "secret")],
          .login (text "bob@mail.com"), .upload (text "bob@mail.com") (text "b"), .signOut,
          .login (text "ann@mail.com"), .openProfile]) := by
  refine ⟨_, _, rfl, rfl, rfl, rfl, ?_⟩
  have hne : text "b" ≠ defaultPicture := ne_defaultPicture (by decide)
  exact fun h => hne (Option.some.inj h)

end Pictures

end Chatsy
