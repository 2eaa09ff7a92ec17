import Chatsy.Systems.Device
import Chatsy.Systems.SessionSound

/-!
# The users that a device holds

A `MainScreen` gets its user from the answer of `currentUser()`, and hands it on
to its pages, to the presses of Discover and to the chats opened from its
friends list. There is no other way by which an address becomes the user of a
screen, so whoever a device holds has been its signed-in user.
-/

namespace Chatsy

/-- The user is in a field of the screen or in the future of its page. -/
def MainScreen.Holds (m : MainScreen) (u : Text) : Prop :=
  m.user = some u ∨ m.transferUser = some u ∨ m.page.bind Page.user = some u

/-- The screen is a `MainScreen` that holds the user. -/
def Screen.Holds : Screen → Text → Prop
  | .main m, u => m.Holds u
  | _, _ => False

namespace MainScreen

theorem not_holds_start (transferIndex : Option Nat) (u : Text) :
    ¬ (start transferIndex).1.Holds u := by
  rw [start_eq]
  rintro (h | h | h)
  · exact Option.some_ne_none u h.symm
  · exact Option.some_ne_none u h.symm
  · exact Option.some_ne_none u h.symm

/-- A build hands the page the field `user`, and nothing else. -/
theorem holds_build {m : MainScreen} {u : Text} (h : m.build.1.Holds u) : m.Holds u := by
  obtain ⟨user, transferUser, index, page, rebuild, currentUserPending, thenPending⟩ := m
  rcases index with _ | _ | _ | index
  · rcases h with h | h | h <;> exact Or.inl h
  · rcases h with h | h | h <;> exact Or.inl h
  · rcases h with h | h | h <;> exact Or.inl h
  · rcases h with h | h | h
    · exact Or.inl h
    · exact Or.inr (Or.inl h)
    · exact absurd h (Option.some_ne_none u).symm

/-- Only the answer of `currentUser()` brings a screen a user that it does not hold. -/
theorem holds_handle {m n : MainScreen} {e : Event} {signsOut : Bool} {u : Text}
    (h : m.handle e = some (n, signsOut)) (hu : n.Holds u) :
    m.Holds u ∨ e = .currentUser (some u) := by
  cases e with
  | currentUser user =>
      obtain ⟨_, h⟩ := Option.ite_none_right_eq_some.mp h
      obtain ⟨rfl, _⟩ := Prod.mk.inj (Option.some.inj h)
      rcases hu with hu | hu
      · obtain rfl : user = some u := hu
        exact Or.inr rfl
      · exact Or.inl (Or.inr hu)
  | thenCallback =>
      obtain ⟨_, h⟩ := Option.ite_none_right_eq_some.mp h
      obtain ⟨rfl, _⟩ := Prod.mk.inj (Option.some.inj h)
      rcases hu with hu | hu | hu
      · exact Or.inl (Or.inl hu)
      · exact Or.inl (Or.inl hu)
      · exact Or.inl (Or.inr (Or.inr hu))
  | onTap value =>
      obtain ⟨rfl, _⟩ := Prod.mk.inj (Option.some.inj h)
      exact Or.inl hu
  | frame =>
      obtain ⟨_, h⟩ := Option.ite_none_right_eq_some.mp h
      obtain rfl : m.build.1 = n := congrArg Prod.fst (Option.some.inj h)
      exact Or.inl (holds_build hu)

end MainScreen

/-- The `MainScreen` of a route, found under its number. -/
theorem Route.mainAt_eq_some {id : Nat} {r : Route} {m : MainScreen} :
    r.mainAt id = some m ↔ r.screen = .main m ∧ r.id = id := by
  obtain ⟨k, screen⟩ := r
  cases screen with
  | main n =>
      by_cases hk : k = id
      · simp [Route.mainAt, hk]
      · simp [Route.mainAt, hk]
  | welcome => simp [Route.mainAt]
  | login => simp [Route.mainAt]
  | registration => simp [Route.mainAt]
  | chat friendEmail => simp [Route.mainAt]

/-- An updated route is the route itself, or shows the new `MainScreen`. -/
theorem Route.setMain_cases (id : Nat) (m : MainScreen) (r : Route) :
    r.setMain id m = r ∨ (r.setMain id m).screen = .main m := by
  obtain ⟨k, screen⟩ := r
  cases screen with
  | main n =>
      by_cases hk : k = id
      · exact Or.inr (by simp [Route.setMain, hk])
      · exact Or.inl (by simp [Route.setMain, hk])
  | welcome => exact Or.inl rfl
  | login => exact Or.inl rfl
  | registration => exact Or.inl rfl
  | chat friendEmail => exact Or.inl rfl

/-- Some of the routes holds the user. -/
def RoutesHold (routes : List Route) (u : Text) : Prop := ∃ r ∈ routes, r.screen.Holds u

theorem routesHold_append {routes routes' : List Route} {u : Text} :
    RoutesHold (routes ++ routes') u ↔ RoutesHold routes u ∨ RoutesHold routes' u := by
  simp only [RoutesHold, List.mem_append, or_and_right, exists_or]

theorem RoutesHold.mono {routes routes' : List Route} {u : Text} (h : RoutesHold routes u)
    (hsub : routes ⊆ routes') : RoutesHold routes' u := by
  obtain ⟨r, hr, hu⟩ := h
  exact ⟨r, hsub hr, hu⟩

theorem routesHold_of_mainAt {routes : List Route} {id : Nat} {m : MainScreen} {u : Text}
    (h : routes.findSome? (Route.mainAt id) = some m) (hu : m.Holds u) : RoutesHold routes u := by
  obtain ⟨r, hr, hm⟩ := List.exists_of_findSome?_eq_some h
  refine ⟨r, hr, ?_⟩
  rw [(Route.mainAt_eq_some.mp hm).1]
  exact hu

/-- One event on one `MainScreen` of some routes brings them a user only as the answer of
`currentUser()`. -/
theorem routesHold_handle {routes : List Route} {id : Nat} {m n : MainScreen}
    {e : MainScreen.Event} {signsOut : Bool} {u : Text}
    (hm : routes.findSome? (Route.mainAt id) = some m) (h : m.handle e = some (n, signsOut))
    (hu : RoutesHold (routes.map (Route.setMain id n)) u) :
    RoutesHold routes u ∨ e = .currentUser (some u) := by
  obtain ⟨_, hmem, hu⟩ := hu
  obtain ⟨r, hr, rfl⟩ := List.mem_map.mp hmem
  rcases Route.setMain_cases id n r with hsame | hnew
  · rw [hsame] at hu
    exact Or.inl ⟨r, hr, hu⟩
  · rw [hnew] at hu
    rcases MainScreen.holds_handle h hu with hold | hanswer
    · exact Or.inl (routesHold_of_mainAt hm hold)
    · exact Or.inr hanswer

namespace Session

/-- The user of the friends list on top. -/
def homePage (s : Session) : Option Text :=
  match s.top with
  | some (.main m) =>
      match m.page with
      | some (.homeScreen user) => user
      | _ => none
  | _ => none

/-- The route of the `RegistrationScreen` on top. -/
def registrationPage (s : Session) : Option Nat :=
  match s.stack with
  | ⟨id, .registration⟩ :: _ => some id
  | _ => none

theorem routesHold_push {s : Session} {screen : Screen} {u : Text}
    (h : RoutesHold (s.push screen).stack u) (hscreen : ¬ screen.Holds u) :
    RoutesHold s.stack u := by
  obtain ⟨r, hr, hu⟩ := h
  rcases List.mem_cons.mp hr with rfl | hr
  · exact absurd hu hscreen
  · exact ⟨r, hr, hu⟩

theorem routesHold_pushFrom {s : Session} {id : Nat} {screen : Screen} {u : Text}
    (h : RoutesHold (s.pushFrom id screen).stack u) (hscreen : ¬ screen.Holds u) :
    RoutesHold s.stack u := by
  unfold pushFrom at h
  split at h
  · exact routesHold_push h hscreen
  · exact h

theorem routesHold_pushPicked {s : Session} {pr : Press} {event : List UserDoc} {draw : Nat}
    {u : Text} (h : RoutesHold (s.pushPicked pr event draw).stack u) : RoutesHold s.stack u := by
  unfold pushPicked at h
  split at h
  · exact routesHold_pushFrom h (MainScreen.not_holds_start (some 1) u)
  · exact h

theorem stack_maybePop {s t : Session} (h : s.maybePop = some t) :
    t.stack ⊆ s.stack ∧ t.currentUser = s.currentUser := by
  unfold maybePop at h
  cases hstack : s.stack with
  | nil => simp [hstack] at h
  | cons r below =>
      simp only [hstack] at h
      by_cases hr : r.screen = .welcome
      · rw [if_pos hr] at h
        obtain rfl := Option.some.inj h
        exact ⟨hstack ▸ List.Subset.refl _, rfl⟩
      · rw [if_neg hr] at h
        obtain ⟨_, h⟩ := Option.ite_none_left_eq_some.mp h
        obtain rfl := Option.some.inj h
        exact ⟨List.subset_cons_self r below, rfl⟩

/-- The screens come to hold a user only as the signed-in user. -/
theorem routesHold_step {s t : Session} {l : Label} (h : step s l = some t) {u : Text}
    (hu : RoutesHold t.stack u) : RoutesHold s.stack u ∨ s.currentUser = some u := by
  cases l with
  | appStart =>
      obtain rfl := Option.some.inj h
      obtain ⟨r, hr, hu⟩ := hu
      obtain rfl := List.mem_singleton.mp hr
      unfold home at hu
      split at hu
      · exact absurd hu (MainScreen.not_holds_start none u)
      · exact False.elim hu
  | openLogin =>
      obtain ⟨_, rfl⟩ := Foundation.guarded_eq_some.mp h
      exact Or.inl (routesHold_push hu not_false)
  | openRegistration =>
      obtain ⟨_, rfl⟩ := Foundation.guarded_eq_some.mp h
      exact Or.inl (routesHold_push hu not_false)
  | registered id =>
      obtain ⟨_, rfl⟩ := Foundation.guarded_eq_some.mp h
      exact Or.inl (routesHold_push hu not_false)
  | accountCreated user =>
      obtain rfl := Option.some.inj h
      exact Or.inl hu
  | openChat friendEmail =>
      obtain ⟨_, rfl⟩ := Foundation.guarded_eq_some.mp h
      exact Or.inl (routesHold_push hu not_false)
  | back => exact Or.inl (hu.mono (stack_maybePop h).1)
  | loginPress email password =>
      obtain ⟨_, rfl⟩ := Foundation.guarded_eq_some.mp h
      exact Or.inl (routesHold_push hu (MainScreen.not_holds_start none u))
  | loginPrefsWritten =>
      obtain ⟨_, rfl⟩ := Foundation.guarded_eq_some.mp h
      exact Or.inl hu
  | signInSucceeds i user =>
      obtain ⟨_, rfl⟩ := Foundation.guarded_eq_some.mp h
      exact Or.inl hu
  | signInFails i =>
      obtain ⟨_, rfl⟩ := Foundation.guarded_eq_some.mp h
      exact Or.inl hu
  | main id e =>
      obtain ⟨hadmits, ht⟩ := Option.ite_none_right_eq_some.mp h
      obtain ⟨⟨n, signsOut⟩, hhandle, rfl⟩ := Option.map_eq_some_iff.mp ht
      obtain ⟨m, hm, hhandle⟩ := Option.bind_eq_some_iff.mp hhandle
      rcases routesHold_handle hm hhandle hu with hold | rfl
      · exact Or.inl hold
      · exact Or.inr (of_decide_eq_true hadmits).symm
  | signOutContinues i =>
      obtain ⟨id, _, rfl⟩ := Option.map_eq_some_iff.mp h
      rw [signOut] at hu
      have hold := routesHold_pushFrom hu not_false
      exact Or.inl hold
  | signOutDone =>
      obtain ⟨_, rfl⟩ := Foundation.guarded_eq_some.mp h
      exact Or.inl hu
  | signOutFails =>
      obtain ⟨_, rfl⟩ := Foundation.guarded_eq_some.mp h
      exact Or.inl hu

@[simp] theorem currentUser_pushPicked (s : Session) (pr : Press) (event : List UserDoc)
    (draw : Nat) : (s.pushPicked pr event draw).currentUser = s.currentUser := by
  unfold pushPicked
  split
  · exact currentUser_pushFrom s _ _
  · rfl

/-- Somebody becomes the signed-in user by a sign-in or by a new account. -/
theorem currentUser_step {s t : Session} {l : Label} (h : step s l = some t) {u : Text}
    (hu : t.currentUser = some u) : s.currentUser = some u ∨
      (∃ i, l = .signInSucceeds i u) ∨ l = .accountCreated u := by
  cases l with
  | appStart =>
      obtain rfl := Option.some.inj h
      exact Or.inl hu
  | openLogin =>
      obtain ⟨_, rfl⟩ := Foundation.guarded_eq_some.mp h
      exact Or.inl hu
  | openRegistration =>
      obtain ⟨_, rfl⟩ := Foundation.guarded_eq_some.mp h
      exact Or.inl hu
  | registered id =>
      obtain ⟨_, rfl⟩ := Foundation.guarded_eq_some.mp h
      exact Or.inl hu
  | accountCreated user =>
      obtain rfl := Option.some.inj h
      obtain rfl := Option.some.inj hu
      exact Or.inr (Or.inr rfl)
  | openChat friendEmail =>
      obtain ⟨_, rfl⟩ := Foundation.guarded_eq_some.mp h
      exact Or.inl hu
  | back => exact Or.inl ((stack_maybePop h).2.symm.trans hu)
  | loginPress email password =>
      obtain ⟨_, rfl⟩ := Foundation.guarded_eq_some.mp h
      exact Or.inl hu
  | loginPrefsWritten =>
      obtain ⟨_, rfl⟩ := Foundation.guarded_eq_some.mp h
      exact Or.inl hu
  | signInSucceeds i user =>
      obtain ⟨_, rfl⟩ := Foundation.guarded_eq_some.mp h
      obtain rfl := Option.some.inj hu
      exact Or.inr (Or.inl ⟨i, rfl⟩)
  | signInFails i =>
      obtain ⟨_, rfl⟩ := Foundation.guarded_eq_some.mp h
      exact Or.inl hu
  | main id e =>
      obtain ⟨_, ht⟩ := Option.ite_none_right_eq_some.mp h
      obtain ⟨_, _, rfl⟩ := Option.map_eq_some_iff.mp ht
      exact Or.inl hu
  | signOutContinues i =>
      obtain ⟨id, _, rfl⟩ := Option.map_eq_some_iff.mp h
      rw [signOut, currentUser_pushFrom] at hu
      exact Or.inl hu
  | signOutDone =>
      obtain ⟨_, rfl⟩ := Foundation.guarded_eq_some.mp h
      exact absurd hu (Option.some_ne_none u).symm
  | signOutFails =>
      obtain ⟨_, rfl⟩ := Foundation.guarded_eq_some.mp h
      exact Or.inl hu

/-- The `MainScreen` on top holds the user of its page. -/
theorem routesHold_of_top {s : Session} {m : MainScreen} {p : Page} {u : Text}
    (htop : s.top = some (.main m)) (hpage : m.page = some p) (hu : p.user = some u) :
    RoutesHold s.stack u := by
  obtain ⟨r, hr, hscreen⟩ := Option.map_eq_some_iff.mp htop
  have hmain : (Screen.main m).Holds u :=
    Or.inr (Or.inr ((congrArg (Option.bind · Page.user) hpage).trans hu))
  exact ⟨r, List.mem_of_head? hr, hscreen ▸ hmain⟩

theorem top_of_homePage {s : Session} {u : Text} (h : s.homePage = some u) :
    ∃ m, s.top = some (.main m) ∧ m.page = some (.homeScreen (some u)) := by
  unfold homePage at h
  split at h
  · next m htop =>
    split at h
    · next user hpage => exact ⟨m, htop, h ▸ hpage⟩
    · exact absurd h (Option.some_ne_none u).symm
  · exact absurd h (Option.some_ne_none u).symm

theorem top_of_discoverPage {s : Session} {id : Nat} {user : Option Text}
    (h : s.discoverPage = some (id, user)) :
    ∃ m, s.top = some (.main m) ∧ m.page = some (.discoverScreen user) := by
  unfold discoverPage at h
  split at h
  · next k m below hstack =>
    split at h
    · next future hpage =>
      obtain ⟨rfl, rfl⟩ := Prod.mk.inj (Option.some.inj h)
      exact ⟨m, by rw [top, hstack]; rfl, hpage⟩
    · exact absurd h (Option.some_ne_none (id, user)).symm
  · exact absurd h (Option.some_ne_none (id, user)).symm

theorem holds_of_homePage {s : Session} {u : Text} (h : s.homePage = some u) :
    RoutesHold s.stack u ∧ s.showsFriends = true := by
  obtain ⟨m, htop, hpage⟩ := top_of_homePage h
  exact ⟨routesHold_of_top htop hpage rfl, by simp [showsFriends, htop, hpage]⟩

theorem holds_of_discoverPage {s : Session} {id : Nat} {u : Text}
    (h : s.discoverPage = some (id, some u)) : RoutesHold s.stack u := by
  obtain ⟨m, htop, hpage⟩ := top_of_discoverPage h
  exact routesHold_of_top htop hpage rfl

end Session

end Chatsy
