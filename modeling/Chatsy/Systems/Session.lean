import Chatsy.Screens.MainScreen

/-!
# The session of a device

Firebase Auth keeps a current user, the preference `isLoggedIn` survives
restarts, and the navigator keeps a stack of screens. One press of Login sends
the sign-in request, starts the write of the preference and pushes `MainScreen`
without waiting for either; Sign Out clears the preference after an await and
sends the sign-out request without waiting for it.

## Implementation notes

Requests that are sent and not answered are kept in the state, and each answer
is a step of its own. An app start drops them, as the process that waited for
them is gone, and shows the screen that `getPrefs` answers; the Welcome screen
shown until that answer is not a state of the model. A screen that is popped is
no longer mounted, and a push through its context has no effect. Back on the
last screen leaves the app and is not a step.
-/

namespace Chatsy

/-- The screens of the navigator. -/
inductive Screen
  | welcome
  | login
  | registration
  | main (m : MainScreen)
  | chat (friendEmail : Text)
  deriving DecidableEq, Repr

/-- The screen is a `MainScreen`. -/
def Screen.isMain : Screen → Bool
  | .main _ => true
  | _ => false

/-- One entry of the navigator. -/
structure Route where
  id : Nat
  screen : Screen
  deriving DecidableEq, Repr

/-- Updates the `MainScreen` of the route with the given number. -/
def Route.setMain (id : Nat) (m : MainScreen) (r : Route) : Route :=
  match r.screen with
  | .main _ => if r.id = id then { r with screen := .main m } else r
  | _ => r

/-- The `MainScreen` of the route, if it has one and the number is its own. -/
def Route.mainAt (id : Nat) (r : Route) : Option MainScreen :=
  match r.screen with
  | .main m => if r.id = id then some m else none
  | _ => none

theorem Route.id_setMain (id : Nat) (m : MainScreen) (r : Route) : (r.setMain id m).id = r.id := by
  unfold Route.setMain
  split
  · split <;> rfl
  · rfl

/-- The device: the auth session, the preference, the screens with the topmost first,
and the requests that are not answered. -/
structure Session where
  currentUser : Option Text
  isLoggedIn : Option Bool
  stack : List Route
  routes : Nat
  signIns : List (Text × Text)
  loginPrefs : Nat
  signOutCalls : List Nat
  signOuts : Nat
  deriving DecidableEq, Repr

namespace Session

/-- The app is installed, nobody is signed in and nothing has been started. -/
def installed : Session where
  currentUser := none
  isLoggedIn := none
  stack := []
  routes := 0
  signIns := []
  loginPrefs := 0
  signOutCalls := []
  signOuts := 0

/-- `Navigator.push`. -/
def push (s : Session) (screen : Screen) : Session :=
  { s with stack := ⟨s.routes, screen⟩ :: s.stack, routes := s.routes + 1 }

/-- The route is in the navigator. -/
def mounted (s : Session) (id : Nat) : Bool := s.stack.any fun r => r.id = id

/-- `Navigator.push` through the context of a screen. -/
def pushFrom (s : Session) (id : Nat) (screen : Screen) : Session :=
  if s.mounted id then s.push screen else s

/-- The `MainScreen` of a route. -/
def mainAt (s : Session) (id : Nat) : Option MainScreen := s.stack.findSome? (Route.mainAt id)

/-- Updates the `MainScreen` of a route. -/
def setMain (s : Session) (id : Nat) (m : MainScreen) : Session :=
  { s with stack := s.stack.map (Route.setMain id m) }

/-- The screen on top. -/
def top (s : Session) : Option Screen := s.stack.head?.map Route.screen

/-- `MainScreen` is on top. -/
def showsMain (s : Session) : Bool := s.top.any Screen.isMain

/-- `MyApp.build`, once `getPrefs` has answered. -/
def home (page : Option Bool) : Screen :=
  if page = some true then .main (MainScreen.start none).1 else .welcome

/-- The steps of a device. -/
inductive Label
  | appStart
  | openLogin
  | openRegistration
  | registered (id : Nat)
  | accountCreated (user : Text)
  | openChat (friendEmail : Text)
  | back
  | loginPress (email password : Text)
  | loginPrefsWritten
  | signInSucceeds (i : Nat) (user : Text)
  | signInFails (i : Nat)
  | main (id : Nat) (e : MainScreen.Event)
  | signOutContinues (i : Nat)
  | signOutDone
  | signOutFails
  deriving DecidableEq, Repr

/-- Only the topmost screen is tapped, and `currentUser()` answers the current user. -/
def admits (s : Session) (id : Nat) : MainScreen.Event → Bool
  | .currentUser user => user = s.currentUser
  | .thenCallback => true
  | .onTap _ => s.stack.head?.any fun r => r.id = id
  | .frame => true

/-- The friends list is on top, so that one of its tiles can be tapped. -/
def showsFriends (s : Session) : Bool :=
  match s.top with
  | some (.main m) =>
      match m.page with
      | some (.homeScreen (some _)) => true
      | _ => false
  | _ => false

/-- The route is a mounted `RegistrationScreen`. -/
def showsRegistration (s : Session) (id : Nat) : Bool :=
  s.stack.any fun r => r.id = id && r.screen = .registration

/-- `Navigator.maybePop`: the Welcome screen vetoes it. -/
def maybePop (s : Session) : Option Session :=
  match s.stack with
  | [] => none
  | r :: below =>
      if r.screen = .welcome then some s
      else if below = [] then none
      else some { s with stack := below }

/-- The continuation of `signOut` after the preferences have been awaited. -/
def signOut (s : Session) (id : Nat) : Session :=
  ({ s with isLoggedIn := some false, signOuts := s.signOuts + 1 } : Session).pushFrom id .welcome

def step (s : Session) : Label → Option Session
  | .appStart =>
      some { s with
        stack := [⟨s.routes, home s.isLoggedIn⟩]
        routes := s.routes + 1
        signIns := []
        loginPrefs := 0
        signOutCalls := []
        signOuts := 0 }
  | .openLogin => if s.top = some .welcome then some (s.push .login) else none
  | .openRegistration => if s.top = some .welcome then some (s.push .registration) else none
  | .registered id => if s.showsRegistration id then some (s.push .login) else none
  | .accountCreated user => some { s with currentUser := some user }
  | .openChat friendEmail => if s.showsFriends then some (s.push (.chat friendEmail)) else none
  | .back => s.maybePop
  | .loginPress email password =>
      if s.top = some .login then
        some (({ s with
          signIns := s.signIns ++ [(email, password)]
          loginPrefs := s.loginPrefs + 1 } : Session).push (.main (MainScreen.start none).1))
      else none
  | .loginPrefsWritten =>
      if 0 < s.loginPrefs then
        some { s with isLoggedIn := some true, loginPrefs := s.loginPrefs - 1 }
      else none
  | .signInSucceeds i user =>
      if i < s.signIns.length then
        some { s with currentUser := some user, signIns := s.signIns.eraseIdx i }
      else none
  | .signInFails i =>
      if i < s.signIns.length then some { s with signIns := s.signIns.eraseIdx i } else none
  | .main id e =>
      if s.admits id e then
        ((s.mainAt id).bind fun m => m.handle e).map fun (m, signsOut) =>
          { s.setMain id m with
            signOutCalls := s.signOutCalls ++ if signsOut then [id] else [] }
      else none
  | .signOutContinues i =>
      s.signOutCalls[i]?.map fun id =>
        ({ s with signOutCalls := s.signOutCalls.eraseIdx i } : Session).signOut id
  | .signOutDone =>
      if 0 < s.signOuts then some { s with currentUser := none, signOuts := s.signOuts - 1 }
      else none
  | .signOutFails =>
      if 0 < s.signOuts then some { s with signOuts := s.signOuts - 1 } else none

/-- No sign-in and no sign-out request is pending. -/
def Quiet (s : Session) : Prop := s.signIns = [] ∧ s.signOuts = 0

instance (s : Session) : Decidable s.Quiet := inferInstanceAs (Decidable (_ ∧ _))

/-- The device presents itself as signed in, by its flag or by its screen. -/
def Presents (s : Session) : Prop := s.isLoggedIn = some true ∨ s.showsMain = true

instance (s : Session) : Decidable s.Presents := inferInstanceAs (Decidable (_ ∨ _))

/-- With no request pending, the flag, the next app start and the screen on top speak of a
signed-in user only when there is one. -/
def Sound (s : Session) : Prop :=
  s.Quiet →
    (s.isLoggedIn = some true → s.currentUser.isSome = true) ∧
    ((home s.isLoggedIn).isMain = true → s.currentUser.isSome = true) ∧
    (s.showsMain = true → s.currentUser.isSome = true)

@[simp] theorem isMain_home (page : Option Bool) :
    (home page).isMain = true ↔ page = some true := by
  unfold home
  by_cases h : page = some true
  · simp [h, Screen.isMain]
  · simp [h, Screen.isMain]

/-- Soundness in one line: whoever is presented is there. -/
theorem sound_iff {s : Session} :
    s.Sound ↔ (s.Quiet → s.Presents → s.currentUser.isSome = true) := by
  simp only [Sound, Presents, isMain_home]
  constructor
  · rintro h hq (hflag | hmain)
    · exact (h hq).1 hflag
    · exact (h hq).2.2 hmain
  · intro h hq
    exact ⟨fun hflag => h hq (Or.inl hflag), fun hflag => h hq (Or.inl hflag),
      fun hmain => h hq (Or.inr hmain)⟩

@[simp] theorem showsMain_push (s : Session) (screen : Screen) :
    (s.push screen).showsMain = screen.isMain := rfl

@[simp] theorem signOuts_pushFrom (s : Session) (id : Nat) (screen : Screen) :
    (s.pushFrom id screen).signOuts = s.signOuts := by
  unfold pushFrom
  split <;> rfl

@[simp] theorem isMain_setMain (id : Nat) (m : MainScreen) (r : Route) :
    (r.setMain id m).screen.isMain = r.screen.isMain := by
  obtain ⟨k, screen⟩ := r
  cases screen with
  | main n =>
      by_cases hk : k = id
      · simp [Route.setMain, hk, Screen.isMain]
      · simp [Route.setMain, hk]
  | welcome => rfl
  | login => rfl
  | registration => rfl
  | chat friendEmail => rfl

@[simp] theorem showsMain_setMain (s : Session) (id : Nat) (m : MainScreen) :
    (s.setMain id m).showsMain = s.showsMain := by
  obtain ⟨currentUser, isLoggedIn, stack, routes, signIns, loginPrefs, calls, signOuts⟩ := s
  cases stack with
  | nil => rfl
  | cons r below => simp [showsMain, top, setMain]

theorem mounted_push {s : Session} {id : Nat} (h : s.mounted id = true) (screen : Screen) :
    (s.push screen).mounted id = true := by
  obtain ⟨r, hr, hid⟩ := List.any_eq_true.mp h
  exact List.any_eq_true.mpr ⟨r, List.mem_cons_of_mem _ hr, hid⟩

theorem mounted_of_mainAt {s : Session} {id : Nat} {m : MainScreen} (h : s.mainAt id = some m) :
    s.mounted id = true := by
  obtain ⟨r, hr, hm⟩ := List.exists_of_findSome?_eq_some h
  refine List.any_eq_true.mpr ⟨r, hr, ?_⟩
  unfold Route.mainAt at hm
  split at hm
  · exact decide_eq_true (Option.ite_none_right_eq_some.mp hm).1
  · exact absurd hm (Option.some_ne_none m).symm

end Session

end Chatsy
