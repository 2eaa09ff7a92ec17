import Chatsy.Foundation.Runs
import Chatsy.Systems.Session
import Mathlib.Data.List.DropRight
import Mathlib.Data.List.Infix

/-!
# When the session is sound

The preference, the screens and the user of Firebase Auth are changed by
different presses and answers, in any order. Which of them a state shows follows
from the labels of the run alone: from the last write of the preference, from
the last screen pushed and from the last answer of Firebase Auth that changed
the user. So does whether a request is pending, from the presses and answers
since the last app start.

## Implementation notes

A run without Back never takes a screen off, except at an app start. The screens
that Back uncovers are a matter of the navigator.
-/

namespace Chatsy.Session

open Foundation

/-- The value that a label writes into the preference. -/
def pref : Label → Option Bool
  | .loginPrefsWritten => some true
  | .signOutContinues _ => some false
  | _ => none

/-- The user that a label leaves signed in, or nobody. -/
def auth : Label → Option (Option Text)
  | .signInSucceeds _ user => some (some user)
  | .accountCreated user => some (some user)
  | .signOutDone => some none
  | _ => none

/-- A label that brings a screen on top: `true` for the `MainScreen` of a Login press. -/
def pushes : Label → Option Bool
  | .loginPress _ _ => some true
  | .appStart => some false
  | .openLogin => some false
  | .openRegistration => some false
  | .registered _ => some false
  | .openChat _ => some false
  | .signOutContinues _ => some false
  | _ => none

/-- The label sends a sign-in request. -/
def asksSignIn : Label → Bool
  | .loginPress _ _ => true
  | _ => false

/-- The label answers a sign-in request. -/
def answersSignIn : Label → Bool
  | .signInSucceeds _ _ => true
  | .signInFails _ => true
  | _ => false

/-- The label sends a sign-out request. -/
def asksSignOut : Label → Bool
  | .signOutContinues _ => true
  | _ => false

/-- The label answers a sign-out request. -/
def answersSignOut : Label → Bool
  | .signOutDone => true
  | .signOutFails => true
  | _ => false

/-- The labels since the last app start. -/
def process (ls : List Label) : List Label := ls.rtakeWhile fun l => l ≠ .appStart

/-- Every request sent since the last app start has been answered. -/
def Settled (ls : List Label) : Prop :=
  (process ls).countP asksSignIn = (process ls).countP answersSignIn ∧
    (process ls).countP asksSignOut = (process ls).countP answersSignOut

/-- The last value written into the preference. -/
def lastPref (ls : List Label) : Option Bool := (ls.filterMap pref).getLast?

/-- The user left by the last answer of Firebase Auth that changed it. -/
def lastUser (ls : List Label) : Option Text := (ls.filterMap auth).getLast?.join

/-- Whether the last screen pushed is the `MainScreen` of a Login press. -/
def lastPush (ls : List Label) : Option Bool := (ls.filterMap pushes).getLast?

/-- Once every request has been answered, and a Login press has written the preference or pushed the
screen last, the last answer to change the user is a sign-in or a new account. -/
def Attested (ls : List Label) : Prop :=
  Settled ls → lastPref ls = some true ∨ lastPush ls = some true → (lastUser ls).isSome = true

instance (ls : List Label) : Decidable (Settled ls) := inferInstanceAs (Decidable (_ ∧ _))

instance (ls : List Label) : Decidable (Attested ls) := inferInstanceAs (Decidable (_ → _ → _))

@[simp] theorem currentUser_pushFrom (s : Session) (id : Nat) (screen : Screen) :
    (s.pushFrom id screen).currentUser = s.currentUser := by
  unfold pushFrom
  split <;> rfl

@[simp] theorem isLoggedIn_pushFrom (s : Session) (id : Nat) (screen : Screen) :
    (s.pushFrom id screen).isLoggedIn = s.isLoggedIn := by
  unfold pushFrom
  split <;> rfl

theorem remembered_maybePop {s t : Session} (h : s.maybePop = some t) :
    t.isLoggedIn = s.isLoggedIn ∧ t.currentUser = s.currentUser := by
  unfold maybePop at h
  split at h
  · exact absurd h (Option.some_ne_none t).symm
  · split at h
    · obtain rfl := Option.some.inj h
      exact ⟨rfl, rfl⟩
    · obtain ⟨_, h⟩ := Option.ite_none_left_eq_some.mp h
      obtain rfl := Option.some.inj h
      exact ⟨rfl, rfl⟩

/-- The preference and the user after a step. -/
theorem remembered_step {s t : Session} {l : Label} (h : step s l = some t) :
    t.isLoggedIn = (pref l).or s.isLoggedIn ∧ t.currentUser = (auth l).getD s.currentUser := by
  cases l with
  | appStart =>
      obtain rfl := Option.some.inj h
      exact ⟨rfl, rfl⟩
  | openLogin | openRegistration | registered _ | openChat _ | loginPress _ _ =>
      obtain ⟨_, rfl⟩ := guarded_eq_some.mp h
      exact ⟨rfl, rfl⟩
  | accountCreated user =>
      obtain rfl := Option.some.inj h
      exact ⟨rfl, rfl⟩
  | back => exact remembered_maybePop h
  | loginPrefsWritten | signInSucceeds _ _ | signInFails _ | signOutDone | signOutFails =>
      obtain ⟨_, rfl⟩ := guarded_eq_some.mp h
      exact ⟨rfl, rfl⟩
  | main id e =>
      obtain ⟨_, h⟩ := Option.ite_none_right_eq_some.mp h
      obtain ⟨⟨m, signsOut⟩, _, rfl⟩ := Option.map_eq_some_iff.mp h
      exact ⟨rfl, rfl⟩
  | signOutContinues i =>
      obtain ⟨id, _, rfl⟩ := Option.map_eq_some_iff.mp h
      rw [signOut, isLoggedIn_pushFrom, currentUser_pushFrom]
      exact ⟨rfl, rfl⟩

@[simp] theorem signIns_pushFrom (s : Session) (id : Nat) (screen : Screen) :
    (s.pushFrom id screen).signIns = s.signIns := by
  unfold pushFrom
  split <;> rfl

@[simp] theorem signOutCalls_pushFrom (s : Session) (id : Nat) (screen : Screen) :
    (s.pushFrom id screen).signOutCalls = s.signOutCalls := by
  unfold pushFrom
  split <;> rfl

/-- A sign-out from a screen in the navigator brings the Welcome screen on top. -/
theorem signOut_of_mounted {s : Session} {id : Nat} (h : s.mounted id = true) :
    s.signOut id =
      ({ s with isLoggedIn := some false, signOuts := s.signOuts + 1 } : Session).push .welcome :=
  if_pos h

theorem pending_maybePop {s t : Session} (h : s.maybePop = some t) :
    t.signIns = s.signIns ∧ t.signOuts = s.signOuts := by
  unfold maybePop at h
  split at h
  · exact absurd h (Option.some_ne_none t).symm
  · split at h
    · obtain rfl := Option.some.inj h
      exact ⟨rfl, rfl⟩
    · obtain ⟨_, h⟩ := Option.ite_none_left_eq_some.mp h
      obtain rfl := Option.some.inj h
      exact ⟨rfl, rfl⟩

/-- A step within a process sends a request, answers one that is pending, or does neither. -/
theorem pending_step {s t : Session} {l : Label} (h : step s l = some t) (hl : l ≠ .appStart) :
    t.signIns.length + (answersSignIn l).toNat = s.signIns.length + (asksSignIn l).toNat ∧
      t.signOuts + (answersSignOut l).toNat = s.signOuts + (asksSignOut l).toNat := by
  cases l with
  | appStart => exact absurd rfl hl
  | openLogin | openRegistration | registered _ | openChat _ | loginPrefsWritten =>
      obtain ⟨_, rfl⟩ := guarded_eq_some.mp h
      exact ⟨rfl, rfl⟩
  | accountCreated user =>
      obtain rfl := Option.some.inj h
      exact ⟨rfl, rfl⟩
  | back =>
      obtain ⟨hsignIns, hsignOuts⟩ := pending_maybePop h
      rw [hsignIns, hsignOuts]
      exact ⟨rfl, rfl⟩
  | loginPress email password =>
      obtain ⟨_, rfl⟩ := guarded_eq_some.mp h
      exact ⟨List.length_append, rfl⟩
  | signInSucceeds i _ | signInFails i =>
      obtain ⟨hi, rfl⟩ := guarded_eq_some.mp h
      have hlength := List.length_eraseIdx_of_lt hi
      refine ⟨?_, rfl⟩
      simp only [answersSignIn, asksSignIn, Bool.toNat_true, Bool.toNat_false, hlength]
      omega
  | main id e =>
      obtain ⟨_, h⟩ := Option.ite_none_right_eq_some.mp h
      obtain ⟨⟨m, signsOut⟩, _, rfl⟩ := Option.map_eq_some_iff.mp h
      exact ⟨rfl, rfl⟩
  | signOutContinues i =>
      obtain ⟨id, _, rfl⟩ := Option.map_eq_some_iff.mp h
      rw [signOut, signIns_pushFrom, signOuts_pushFrom]
      exact ⟨rfl, rfl⟩
  | signOutDone | signOutFails =>
      obtain ⟨hpos, rfl⟩ := guarded_eq_some.mp h
      exact ⟨rfl, Nat.sub_add_cancel hpos⟩

/-- The screens that are signing out are in the navigator. -/
def CallsMounted (s : Session) : Prop := ∀ id ∈ s.signOutCalls, s.mounted id = true

theorem mounted_setMain (s : Session) (k id : Nat) (m : MainScreen) :
    (s.setMain k m).mounted id = s.mounted id := by
  simp only [mounted, setMain, List.any_map, Function.comp_def, Route.id_setMain]

/-- Without Back they stay there. -/
theorem callsMounted_step {s t : Session} {l : Label} (hs : s.CallsMounted)
    (h : step s l = some t) (hl : l ≠ .back) : t.CallsMounted := by
  cases l with
  | back => exact absurd rfl hl
  | appStart =>
      obtain rfl := Option.some.inj h
      exact fun id hid => absurd hid List.not_mem_nil
  | openLogin | openRegistration | registered _ | openChat _ | loginPress _ _ =>
      obtain ⟨_, rfl⟩ := guarded_eq_some.mp h
      exact fun id hid => mounted_push (hs id hid) _
  | accountCreated user =>
      obtain rfl := Option.some.inj h
      exact hs
  | loginPrefsWritten | signInSucceeds _ _ | signInFails _ | signOutDone | signOutFails =>
      obtain ⟨_, rfl⟩ := guarded_eq_some.mp h
      exact hs
  | main k e =>
      obtain ⟨_, h⟩ := Option.ite_none_right_eq_some.mp h
      obtain ⟨⟨m, signsOut⟩, hm, rfl⟩ := Option.map_eq_some_iff.mp h
      obtain ⟨m₀, hm₀, _⟩ := Option.bind_eq_some_iff.mp hm
      intro id hid
      refine (mounted_setMain s k id m).trans ?_
      rcases List.mem_append.mp hid with hold | hnew
      · exact hs id hold
      · obtain ⟨_, hnew⟩ := List.mem_ite_nil_right.mp hnew
        obtain rfl := List.mem_singleton.mp hnew
        exact mounted_of_mainAt hm₀
  | signOutContinues i =>
      obtain ⟨k, hk, rfl⟩ := Option.map_eq_some_iff.mp h
      intro id hid
      rw [signOut, signOutCalls_pushFrom] at hid
      rw [signOut_of_mounted (s := { s with signOutCalls := s.signOutCalls.eraseIdx i })
        (hs k (List.mem_of_getElem? hk))]
      exact mounted_push (hs id (List.mem_of_mem_eraseIdx hid)) _

/-- The screen on top after a step within a process. -/
theorem showsMain_step {s t : Session} {l : Label} (hs : s.CallsMounted) (h : step s l = some t)
    (hback : l ≠ .back) (hstart : l ≠ .appStart) :
    t.showsMain = (pushes l).getD s.showsMain := by
  cases l with
  | back => exact absurd rfl hback
  | appStart => exact absurd rfl hstart
  | openLogin | openRegistration | registered _ | openChat _ | loginPress _ _ =>
      obtain ⟨_, rfl⟩ := guarded_eq_some.mp h
      rfl
  | accountCreated user =>
      obtain rfl := Option.some.inj h
      rfl
  | loginPrefsWritten | signInSucceeds _ _ | signInFails _ | signOutDone | signOutFails =>
      obtain ⟨_, rfl⟩ := guarded_eq_some.mp h
      rfl
  | main k e =>
      obtain ⟨_, h⟩ := Option.ite_none_right_eq_some.mp h
      obtain ⟨⟨m, signsOut⟩, _, rfl⟩ := Option.map_eq_some_iff.mp h
      exact showsMain_setMain s k m
  | signOutContinues i =>
      obtain ⟨k, hk, rfl⟩ := Option.map_eq_some_iff.mp h
      rw [signOut_of_mounted (s := { s with signOutCalls := s.signOutCalls.eraseIdx i })
        (hs k (List.mem_of_getElem? hk))]
      rfl

/-- A label that clears the preference brings a screen on top. -/
theorem pref_of_pushes {l : Label} (h : pushes l = none) {b : Bool} (hb : pref l = some b) :
    b = true := by
  cases l with
  | loginPrefsWritten => exact (Option.some.inj hb).symm
  | signOutContinues i => exact absurd h (Option.some_ne_none false)
  | _ => exact absurd hb (Option.some_ne_none b).symm

/-- What a state shows is what the labels of its run say. -/
structure Follows (ls : List Label) (s : Session) : Prop where
  isLoggedIn : s.isLoggedIn = lastPref ls
  currentUser : s.currentUser = lastUser ls
  signIns : s.signIns.length + (process ls).countP answersSignIn =
    (process ls).countP asksSignIn
  signOuts : s.signOuts + (process ls).countP answersSignOut = (process ls).countP asksSignOut
  calls : s.CallsMounted
  pushed : lastPush ls = some true → s.showsMain = true
  shown : s.showsMain = true → lastPush ls = some true ∨ s.isLoggedIn = some true

theorem process_concat {l : Label} (h : l ≠ .appStart) (ls : List Label) :
    process (ls ++ [l]) = process ls ++ [l] := by
  rw [process, List.rtakeWhile_concat, if_pos (by simpa using h), process]

theorem process_appStart (ls : List Label) : process (ls ++ [.appStart]) = [] := by
  rw [process, List.rtakeWhile_concat]
  rfl

theorem lastPush_concat (ls : List Label) (l : Label) :
    lastPush (ls ++ [l]) = (pushes l).or (lastPush ls) :=
  getLast?_filterMap_concat pushes ls l

/-- The preference and the user after one more label. -/
theorem follows_remembered {ls : List Label} {s t : Session} {l : Label} (hs : Follows ls s)
    (h : step s l = some t) :
    t.isLoggedIn = lastPref (ls ++ [l]) ∧ t.currentUser = lastUser (ls ++ [l]) := by
  obtain ⟨hpref, huser⟩ := remembered_step h
  rw [hpref, huser, hs.isLoggedIn, hs.currentUser, lastPref, lastPref, lastUser, lastUser,
    getLast?_filterMap_concat, getLast?_filterMap_concat]
  refine ⟨rfl, ?_⟩
  cases auth l <;> rfl

theorem follows_appStart {ls : List Label} {s t : Session} (hs : Follows ls s)
    (h : step s .appStart = some t) : Follows (ls ++ [.appStart]) t := by
  obtain ⟨hpref, huser⟩ := follows_remembered hs h
  have hcalls := callsMounted_step hs.calls h (by simp)
  obtain rfl := Option.some.inj h
  refine ⟨hpref, huser, ?_, ?_, hcalls, ?_, ?_⟩
  · rw [process_appStart]
    rfl
  · rw [process_appStart]
    rfl
  · rw [lastPush_concat]
    exact fun hpushed => absurd (Option.some.inj hpushed) Bool.false_ne_true
  · exact fun hmain => Or.inr ((isMain_home s.isLoggedIn).mp hmain)

theorem follows_step {ls : List Label} {s t : Session} {l : Label} (hs : Follows ls s)
    (h : step s l = some t) (hback : l ≠ .back) : Follows (ls ++ [l]) t := by
  by_cases hstart : l = .appStart
  · subst hstart
    exact follows_appStart hs h
  · obtain ⟨hpref, huser⟩ := follows_remembered hs h
    obtain ⟨hsignIns, hsignOuts⟩ := pending_step h hstart
    have hmain := showsMain_step hs.calls h hback hstart
    have hcount : ∀ p : Label → Bool,
        (process (ls ++ [l])).countP p = (process ls).countP p + (p l).toNat := by
      intro p
      rw [process_concat hstart, List.countP_append, List.countP_singleton]
      cases p l <;> rfl
    refine ⟨hpref, huser, ?_, ?_, callsMounted_step hs.calls h hback, ?_, ?_⟩
    · have hbefore := hs.signIns
      rw [hcount, hcount]
      omega
    · have hbefore := hs.signOuts
      rw [hcount, hcount]
      omega
    · rw [lastPush_concat, hmain]
      cases hp : pushes l with
      | some b => exact fun hpushed => Option.some.inj hpushed
      | none => exact hs.pushed
    · rw [lastPush_concat, hmain]
      cases hp : pushes l with
      | some b => exact fun hshown => Or.inl (congrArg some hshown)
      | none =>
          intro hshown
          refine (hs.shown hshown).imp_right fun hflag => ?_
          rw [(remembered_step h).1]
          cases hb : pref l with
          | some b => rw [pref_of_pushes hp hb, Option.some_or]
          | none => exact hflag

theorem follows_run {ls : List Label} {s : Session} (hr : run step installed ls = some s)
    (hback : .back ∉ ls) : Follows ls s := by
  refine run_induction step (motive := fun ls s => .back ∉ ls → Follows ls s) ?_ ?_ hr hback
  · intro _
    refine ⟨rfl, rfl, rfl, rfl, fun id hid => absurd hid List.not_mem_nil, ?_, ?_⟩
    · exact fun hpushed => absurd hpushed (Option.some_ne_none true).symm
    · exact fun hmain => Bool.noConfusion hmain
  · intro ls l s t _ ih h hback
    obtain ⟨hls, hl⟩ := not_or.mp (mt List.mem_append.mpr hback)
    exact follows_step (ih hls) h fun heq => hl (by simp [heq])

/-- A state is sound exactly when the labels of its run attest a user. -/
theorem sound_iff_attested {ls : List Label} {s : Session} (hs : Follows ls s) :
    s.Sound ↔ Attested ls := by
  have hquiet : s.Quiet ↔ Settled ls := by
    have hsignIns := hs.signIns
    have hsignOuts := hs.signOuts
    rw [Quiet, Settled, ← List.length_eq_zero_iff]
    omega
  have hpresents : s.Presents ↔ lastPref ls = some true ∨ lastPush ls = some true := by
    rw [Presents, hs.isLoggedIn]
    constructor
    · rintro (hflag | hmain)
      · exact Or.inl hflag
      · exact (hs.isLoggedIn ▸ hs.shown hmain).symm
    · exact Or.imp_right hs.pushed
  rw [sound_iff, hquiet, hpresents, hs.currentUser, Attested]

/-- A run without Back is sound in every state exactly when the labels up to each state attest a
user: whenever every request has been answered and the preference was last written, or the last
screen pushed, by a Login press, the last answer to change the user has signed one in. -/
theorem session_sound_iff {ls : List Label} {s : Session} (hr : run step installed ls = some s)
    (hback : .back ∉ ls) :
    (∀ pre post t, ls = pre ++ post → run step installed pre = some t → t.Sound) ↔
      ∀ pre, pre <+: ls → Attested pre := by
  have hsound : ∀ pre post t, ls = pre ++ post → run step installed pre = some t →
      (t.Sound ↔ Attested pre) := by
    rintro pre post t rfl ht
    exact sound_iff_attested (follows_run ht fun hmem => hback (List.mem_append_left post hmem))
  constructor
  · rintro h pre ⟨post, rfl⟩
    obtain ⟨t, ht, _⟩ := (run_append_eq_some step).mp hr
    exact (hsound pre post t rfl ht).mp (h pre post t rfl ht)
  · intro h pre post t hsplit ht
    exact (hsound pre post t hsplit ht).mpr (h pre ⟨post, hsplit.symm⟩)

/-- A login succeeds, the user signs out again, and the app is restarted. -/
def loginAndSignOut : List Label :=
  [.appStart, .openLogin, .loginPress (text "ann@mail.com") (text "secret"), .loginPrefsWritten,
    .signInSucceeds 0 (text "ann@mail.com"), .main 2 (.onTap 3), .main 2 .frame,
    .signOutContinues 0, .signOutDone, .appStart]

theorem session_sound_login_signOut :
    ∃ s, run step installed loginAndSignOut = some s ∧
      ∀ pre post t, loginAndSignOut = pre ++ post →
        run step installed pre = some t → t.Sound := by
  have hattested : ∀ pre ∈ loginAndSignOut.inits, Attested pre := by decide
  have hrun := (rfl : run step installed loginAndSignOut = some _)
  refine ⟨_, rfl, (session_sound_iff hrun (by decide)).mpr ?_⟩
  exact fun pre hpre => hattested pre ((List.mem_inits pre loginAndSignOut).mpr hpre)

/-- The sign-in request of a Login press fails: the flag stays set and `MainScreen` on top,
with nobody signed in. -/
theorem failed_login_presents :
    ∃ s, run step installed
        [.appStart, .openLogin, .loginPress (text "ann@mail.com") (text "wrong"),
          .loginPrefsWritten, .signInFails 0] = some s ∧ ¬ s.Sound :=
  ⟨_, rfl, fun hs => absurd ((hs (by decide)).1 (by decide)) (by decide)⟩

end Chatsy.Session
