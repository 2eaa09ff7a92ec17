import Chatsy.Foundation.Simulation
import Chatsy.Systems.Discovery
import Chatsy.Systems.Session

/-!
# One device: its screens and its discovery

The navigator and the subscriptions act on each other. A press of Discover is
possible only on the page on top, a pick pushes a `MainScreen` from the screen
of its press, and every change of the screens disposes the Discover pages that
are no longer shown. Subscriptions and calls outlive their screens; only the
end of the process ends them.

## Implementation notes

An app start begins with no subscription, and `process` is the number of calls
that earlier processes have started. Their awaits no longer continue, but a
write that was under way can still take effect, and is then the last of its
call. The composers of the chats are left out, so that a press of Send may be
one of any user to any friend.
-/

namespace Chatsy

/-- The screen shows a `DiscoverScreen`. -/
def Screen.showsDiscover : Screen → Bool
  | .main m => m.page.any fun page => page = .discoverScreen page.user
  | _ => false

namespace Session

/-- The route shows a `DiscoverScreen`. -/
def showsDiscover (s : Session) (id : Nat) : Bool :=
  s.stack.any fun r => r.id = id && r.screen.showsDiscover

/-- The route on top with the future's value, when it shows a `DiscoverScreen`. -/
def discoverPage (s : Session) : Option (Nat × Option Text) :=
  match s.stack with
  | ⟨id, .main m⟩ :: _ =>
      match m.page with
      | some (.discoverScreen user) => some (id, user)
      | _ => none
  | _ => none

/-- A `MainScreen` lies above the topmost Welcome screen. -/
def exposed (s : Session) : Bool :=
  (s.stack.takeWhile fun r => r.screen ≠ .welcome).any fun r => r.screen.isMain

/-- The push of a listener that has picked a friend. -/
def pushPicked (s : Session) (pr : Press) (event : List UserDoc) (draw : Nat) : Session :=
  if pr.mounted ∧ (DiscoverScreen.picked pr.subscription event draw).isSome then
    s.pushFrom pr.route (.main (MainScreen.start (some 1)).1)
  else s

theorem exposed_push (s : Session) (screen : Screen) :
    (s.push screen).exposed =
      if screen = .welcome then false else screen.isMain || s.exposed := by
  by_cases h : screen = .welcome
  · simp [exposed, push, h]
  · simp [exposed, push, h]

theorem exposed_push_of_not_main {s : Session} {screen : Screen} (hs : s.exposed = false)
    (hscreen : screen.isMain = false) : (s.push screen).exposed = false := by
  rw [exposed_push, hs, hscreen]
  split <;> rfl

theorem exposed_pushFrom_of_not_main {s : Session} {id : Nat} {screen : Screen}
    (hs : s.exposed = false) (hscreen : screen.isMain = false) :
    (s.pushFrom id screen).exposed = false := by
  unfold pushFrom
  split
  · exact exposed_push_of_not_main hs hscreen
  · exact hs

theorem setMain_eq_welcome {id : Nat} {m : MainScreen} {r : Route} :
    (r.setMain id m).screen = .welcome ↔ r.screen = .welcome := by
  obtain ⟨k, screen⟩ := r
  cases screen with
  | main n =>
      by_cases hk : k = id
      · simp [Route.setMain, hk]
      · simp [Route.setMain, hk]
  | welcome => simp [Route.setMain]
  | login => simp [Route.setMain]
  | registration => simp [Route.setMain]
  | chat friendEmail => simp [Route.setMain]

theorem exposed_setMain (s : Session) (id : Nat) (m : MainScreen) :
    (s.setMain id m).exposed = s.exposed := by
  have hpred : ((fun r : Route => decide (r.screen ≠ .welcome)) ∘ Route.setMain id m) =
      fun r => decide (r.screen ≠ .welcome) := by
    funext r
    simp only [Function.comp_apply, ne_eq, setMain_eq_welcome]
  simp only [exposed, setMain, List.takeWhile_map, hpred, List.any_map]
  congr 1
  funext r
  exact isMain_setMain id m r

theorem exposed_of_showsMain {s : Session} (h : s.showsMain = true) : s.exposed = true := by
  obtain ⟨currentUser, isLoggedIn, stack, routes, signIns, loginPrefs, calls, signOuts⟩ := s
  cases stack with
  | nil => exact Bool.noConfusion h
  | cons r below =>
      have hmain : r.screen.isMain = true := h
      have hwelcome : r.screen ≠ .welcome := by
        intro heq
        rw [heq] at hmain
        exact Bool.noConfusion hmain
      simp [exposed, hwelcome, hmain]

/-- The label is a Login press or an app start. -/
def Label.starts : Label → Bool
  | .appStart => true
  | .loginPress _ _ => true
  | _ => false

theorem exposed_maybePop {s t : Session} (hs : s.exposed = false) (h : s.maybePop = some t) :
    t.exposed = false := by
  obtain ⟨currentUser, isLoggedIn, stack, routes, signIns, loginPrefs, calls, signOuts⟩ := s
  cases stack with
  | nil => simp [maybePop] at h
  | cons r below =>
      by_cases hr : r.screen = .welcome
      · simp only [maybePop, hr, if_true, Option.some.injEq] at h
        exact h ▸ hs
      · simp only [maybePop, hr, if_false] at h
        obtain ⟨_, ht⟩ := Option.ite_none_left_eq_some.mp h
        obtain rfl := Option.some.inj ht
        simp only [exposed, List.takeWhile_cons, ne_eq, hr, not_false_eq_true, decide_true,
          if_true, List.any_cons, Bool.or_eq_false_iff] at hs
        exact hs.2

/-- Only a Login press and an app start bring a `MainScreen` above the Welcome screen. -/
theorem exposed_step {s t : Session} {l : Label} (hs : s.exposed = false)
    (hl : l.starts = false) (h : step s l = some t) : t.exposed = false := by
  cases l with
  | appStart => exact Bool.noConfusion hl
  | openLogin =>
      obtain ⟨_, rfl⟩ := Foundation.guarded_eq_some.mp h
      exact exposed_push_of_not_main hs rfl
  | openRegistration =>
      obtain ⟨_, rfl⟩ := Foundation.guarded_eq_some.mp h
      exact exposed_push_of_not_main hs rfl
  | registered id =>
      obtain ⟨_, rfl⟩ := Foundation.guarded_eq_some.mp h
      exact exposed_push_of_not_main hs rfl
  | accountCreated user =>
      obtain rfl := Option.some.inj h
      exact hs
  | openChat friendEmail =>
      obtain ⟨_, rfl⟩ := Foundation.guarded_eq_some.mp h
      exact exposed_push_of_not_main hs rfl
  | back => exact exposed_maybePop hs h
  | loginPress email password => exact Bool.noConfusion hl
  | loginPrefsWritten =>
      obtain ⟨_, rfl⟩ := Foundation.guarded_eq_some.mp h
      exact hs
  | signInSucceeds i user =>
      obtain ⟨_, rfl⟩ := Foundation.guarded_eq_some.mp h
      exact hs
  | signInFails i =>
      obtain ⟨_, rfl⟩ := Foundation.guarded_eq_some.mp h
      exact hs
  | main id e =>
      obtain ⟨_, ht⟩ := Option.ite_none_right_eq_some.mp h
      obtain ⟨⟨m, signsOut⟩, _, rfl⟩ := Option.map_eq_some_iff.mp ht
      exact (exposed_setMain s id m).trans hs
  | signOutContinues i =>
      obtain ⟨id, _, rfl⟩ := Option.map_eq_some_iff.mp h
      exact exposed_pushFrom_of_not_main hs rfl
  | signOutDone =>
      obtain ⟨_, rfl⟩ := Foundation.guarded_eq_some.mp h
      exact hs
  | signOutFails =>
      obtain ⟨_, rfl⟩ := Foundation.guarded_eq_some.mp h
      exact hs

theorem mounted_of_showsDiscover {s : Session} {id : Nat} (h : s.showsDiscover id = true) :
    s.mounted id = true := by
  obtain ⟨r, hr, hshows⟩ := List.any_eq_true.mp h
  exact List.any_eq_true.mpr ⟨r, hr, (Bool.and_eq_true_iff.mp hshows).1⟩

theorem showsDiscover_push {s : Session} {id : Nat} (h : s.showsDiscover id = true)
    (screen : Screen) : (s.push screen).showsDiscover id = true := by
  obtain ⟨r, hr, hshows⟩ := List.any_eq_true.mp h
  exact List.any_eq_true.mpr ⟨r, List.mem_cons_of_mem _ hr, hshows⟩

theorem showsDiscover_pushPicked {s : Session} {id : Nat} (h : s.showsDiscover id = true)
    (pr : Press) (event : List UserDoc) (draw : Nat) :
    (s.pushPicked pr event draw).showsDiscover id = true := by
  unfold pushPicked pushFrom
  split
  · split
    · exact showsDiscover_push h _
    · exact h
  · exact h

/-- The page on top is a `MainScreen` that shows a `DiscoverScreen`. -/
theorem discoverPage_eq_some {s : Session} {id : Nat} {user : Option Text}
    (h : s.discoverPage = some (id, user)) :
    s.showsMain = true ∧ s.showsDiscover id = true := by
  obtain ⟨currentUser, isLoggedIn, stack, routes, signIns, loginPrefs, calls, signOuts⟩ := s
  rcases stack with _ | ⟨⟨k, screen⟩, below⟩
  · simp [discoverPage] at h
  · cases screen with
    | main m =>
        cases hpage : m.page with
        | none => simp [discoverPage, hpage] at h
        | some page =>
            cases page with
            | discoverScreen user' =>
                simp only [discoverPage, hpage, Option.some.injEq, Prod.mk.injEq] at h
                obtain ⟨rfl, rfl⟩ := h
                exact ⟨rfl, by simp [showsDiscover, Screen.showsDiscover, hpage, Page.user]⟩
            | homeScreen user' => simp [discoverPage, hpage] at h
            | profileScreen user' => simp [discoverPage, hpage] at h
    | welcome => simp [discoverPage] at h
    | login => simp [discoverPage] at h
    | registration => simp [discoverPage] at h
    | chat friendEmail => simp [discoverPage] at h

end Session

/-- The navigator and the discovery of one device, and the calls of earlier processes. -/
structure Device where
  session : Session
  discovery : Discovery
  process : Nat

namespace Device

open Foundation

/-- The app is installed, and no collection has a document. -/
def installed : Device where
  session := Session.installed
  discovery := Discovery.start Backend.empty
  process := 0

/-- The steps of a device. -/
inductive Label
  | session (l : Session.Label)
  | press
  | located (p : Nat)
  | emit (p : Nat) (event : List UserDoc) (draw : Nat)
  | write (call : Nat)
  | fail (call : Nat)
  | lateWrite (call : Nat)
  | send (user friendEmail : Text) (message : Option Text) (now : Nat)
  deriving DecidableEq, Repr

/-- The device with another backend. -/
def withBackend (s : Device) (b : Backend) : Device :=
  { s with discovery := { s.discovery with backend := b } }

/-- The device after its screens have changed: an app start leaves the discovery of the old
process behind, and otherwise the pages no longer shown are disposed. -/
def withSession (s : Device) (l : Session.Label) (t : Session) : Device :=
  if l = .appStart then
    { session := t
      discovery := Discovery.start s.discovery.backend
      process := s.discovery.backend.calls.length }
  else { s with session := t, discovery := s.discovery.keepMounted t.showsDiscover }

def step (s : Device) : Label → Option Device
  | .session l => (Session.step s.session l).map (s.withSession l)
  | .press =>
      s.session.discoverPage.bind fun (id, user) =>
        (Discovery.step s.discovery (.press id user)).map fun d => { s with discovery := d }
  | .located p =>
      (Discovery.step s.discovery (.located p)).map fun d => { s with discovery := d }
  | .emit p event draw =>
      s.discovery.presses[p]?.bind fun pr =>
        (Discovery.step s.discovery (.emit p event draw)).map fun d =>
          { s with session := s.session.pushPicked pr event draw, discovery := d }
  | .write i =>
      if s.process ≤ i then
        (Backend.request s.discovery.backend (.write i)).map s.withBackend
      else none
  | .fail i =>
      if s.process ≤ i then
        (Backend.request s.discovery.backend (.fail i)).map s.withBackend
      else none
  | .lateWrite i =>
      if i < s.process then
        (run Backend.request s.discovery.backend (s.discovery.backend.lateWrite i)).map
          s.withBackend
      else none
  | .send user friendEmail message now =>
      (Backend.request s.discovery.backend (.send user friendEmail message now)).map
        s.withBackend

theorem step_session {s t : Device} {l : Session.Label} :
    step s (.session l) = some t ↔
      ∃ t', Session.step s.session l = some t' ∧ s.withSession l t' = t :=
  Option.map_eq_some_iff

theorem step_press {s t : Device} (h : step s .press = some t) :
    ∃ id user, s.session.discoverPage = some (id, user) ∧
      Discovery.step s.discovery (.press id user) = some t.discovery ∧
      t = { s with discovery := t.discovery } := by
  obtain ⟨⟨id, user⟩, hpage, hstep⟩ := Option.bind_eq_some_iff.mp h
  obtain ⟨d, hd, rfl⟩ := Option.map_eq_some_iff.mp hstep
  exact ⟨id, user, hpage, hd, rfl⟩

theorem step_located {s t : Device} {p : Nat} (h : step s (.located p) = some t) :
    Discovery.step s.discovery (.located p) = some t.discovery ∧
      t = { s with discovery := t.discovery } := by
  obtain ⟨d, hd, rfl⟩ := Option.map_eq_some_iff.mp h
  exact ⟨hd, rfl⟩

theorem step_emit {s t : Device} {p : Nat} {event : List UserDoc} {draw : Nat}
    (h : step s (.emit p event draw) = some t) :
    ∃ pr, s.discovery.presses[p]? = some pr ∧
      Discovery.step s.discovery (.emit p event draw) = some t.discovery ∧
      t = { s with
        session := s.session.pushPicked pr event draw
        discovery := t.discovery } := by
  obtain ⟨pr, hpr, hstep⟩ := Option.bind_eq_some_iff.mp h
  obtain ⟨d, hd, rfl⟩ := Option.map_eq_some_iff.mp hstep
  exact ⟨pr, hpr, hd, rfl⟩

/-- A request that starts no call leaves all but the backend alone. -/
theorem exists_run_of_request {s t : Device} {l : Backend.Label}
    (h : (Backend.request s.discovery.backend l).map s.withBackend = some t)
    (hl : ∀ user friendUser, l ≠ .addToFriends user friendUser) :
    ∃ ls b, run Backend.request s.discovery.backend ls = some b ∧ t = s.withBackend b ∧
      ∀ user friendUser, .addToFriends user friendUser ∉ ls := by
  obtain ⟨b, hb, rfl⟩ := Option.map_eq_some_iff.mp h
  refine ⟨[l], b, (run_singleton _ _ _).trans hb, rfl, fun user friendUser hmem => ?_⟩
  exact hl user friendUser (List.mem_singleton.mp hmem).symm

/-- What a step of a device is: new screens, a press of Discover on the page on top, an answer to a
press, which may push from its screen, or requests of its own. -/
theorem step_cases {s t : Device} {l : Label} (h : step s l = some t) :
    (∃ l' t', l = .session l' ∧ Session.step s.session l' = some t' ∧ t = s.withSession l' t') ∨
    (∃ id user, s.session.discoverPage = some (id, user) ∧
      Discovery.step s.discovery (.press id user) = some t.discovery ∧
      t = { s with discovery := t.discovery }) ∨
    (∃ l', l'.answers = true ∧ Discovery.step s.discovery l' = some t.discovery ∧
      t.process = s.process ∧
      (t.session = s.session ∨ ∃ pr ∈ s.discovery.presses, ∃ event draw,
        t.session = s.session.pushPicked pr event draw)) ∨
    ∃ ls b, run Backend.request s.discovery.backend ls = some b ∧ t = s.withBackend b ∧
      ∀ user friendUser, .addToFriends user friendUser ∉ ls := by
  cases l with
  | session l =>
      obtain ⟨t', ht', rfl⟩ := step_session.mp h
      exact Or.inl ⟨l, t', rfl, ht', rfl⟩
  | press =>
      obtain ⟨id, user, hpage, hd, ht⟩ := step_press h
      exact Or.inr (Or.inl ⟨id, user, hpage, hd, ht⟩)
  | located p =>
      obtain ⟨hd, ht⟩ := step_located h
      refine Or.inr (Or.inr (Or.inl ⟨.located p, rfl, hd, ?_, Or.inl ?_⟩))
      · rw [ht]
      · rw [ht]
  | emit p event draw =>
      obtain ⟨pr, hpr, hd, ht⟩ := step_emit h
      refine Or.inr (Or.inr (Or.inl ⟨.emit p event draw, rfl, hd, ?_, Or.inr ?_⟩))
      · rw [ht]
      · exact ⟨pr, List.mem_of_getElem? hpr, event, draw, by rw [ht]⟩
  | write i =>
      obtain ⟨_, h⟩ := Option.ite_none_right_eq_some.mp h
      exact Or.inr (Or.inr (Or.inr (exists_run_of_request h (by simp))))
  | fail i =>
      obtain ⟨_, h⟩ := Option.ite_none_right_eq_some.mp h
      exact Or.inr (Or.inr (Or.inr (exists_run_of_request h (by simp))))
  | lateWrite i =>
      obtain ⟨_, h⟩ := Option.ite_none_right_eq_some.mp h
      obtain ⟨b, hb, rfl⟩ := Option.map_eq_some_iff.mp h
      refine Or.inr (Or.inr (Or.inr ⟨_, b, hb, rfl, fun user friendUser hmem => ?_⟩))
      rcases Backend.mem_lateWrite hmem with heq | heq
      · exact Backend.Label.noConfusion heq
      · exact Backend.Label.noConfusion heq
  | send user friendEmail message now =>
      exact Or.inr (Or.inr (Or.inr (exists_run_of_request h (by simp))))

/-- A device with new screens keeps its backend. -/
@[simp] theorem backend_withSession (s : Device) (l : Session.Label) (t : Session) :
    (s.withSession l t).discovery.backend = s.discovery.backend := by
  unfold withSession
  split <;> rfl

/-- The backend of a device goes on by requests, with calls for the users of its presses. -/
theorem backend_step {s t : Device} {l : Label} (h : step s l = some t) :
    ∃ ls, run Backend.request s.discovery.backend ls = some t.discovery.backend ∧
      ∀ user friendUser, .addToFriends user friendUser ∈ ls →
        ∃ pr ∈ s.discovery.presses, pr.subscription.user = some user := by
  rcases step_cases h with ⟨l', t', _, _, rfl⟩ | ⟨_, _, _, hd, _⟩ |
    ⟨l', hanswers, hd, _, _⟩ | ⟨ls, b, hb, rfl, hcall⟩
  · exact ⟨[], congrArg some (backend_withSession s l' t').symm,
      fun _ _ hmem => absurd hmem List.not_mem_nil⟩
  · obtain hsame := congrArg Discovery.backend (Option.some.inj hd)
    exact ⟨[], congrArg some hsame, fun _ _ hmem => absurd hmem List.not_mem_nil⟩
  · exact Discovery.exists_requests hd hanswers
  · exact ⟨ls, hb, fun user friendUser hmem => absurd hmem (hcall user friendUser)⟩

end Device

end Chatsy
