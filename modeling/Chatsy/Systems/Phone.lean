import Chatsy.Systems.Cloud
import Chatsy.Systems.Composer
import Chatsy.Systems.Holding

/-!
# One phone as a client of the servers

A phone has its screens, its presses of Discover, the chats opened on it, and
what its process still waits for. A step changes the phone and sends requests,
each taking effect with the step. What a phone sends follows from what it holds:
a call is made for the user of a press and a document of an emission, a message
for the user of an opened chat and the friend of its tile.

## Implementation notes

An emission is named by the ids of its documents, in their current versions. Of
a document only the e-mail is read, which changes only when its address is typed
again with a slash; an emission older than such a change is left out. The tiles
of the friends list are those of any snapshot: some of the entries that are
there, in any order. A location takes effect with the step that answers it. A
screen taken off the navigator still gets the answers it waits for. An app start
ends the process, and with it all that is not on the servers.
-/

namespace Chatsy

open Foundation DiscoverScreen RegistrationScreen

/-- A chat opened from the friends list of a user. -/
structure ChatPage where
  route : Nat
  user : Text
  friendEmail : Text
  composer : Composer
  deriving DecidableEq, Repr

/-- The request of a step of the composer. -/
def ChatPage.requests (page : ChatPage) : Composer.Label → List Request
  | .send now => [.backend (.send page.user page.friendEmail page.composer.message now)]
  | _ => []

/-- The screens, the presses, the chats, the calls and registrations of the process with the
routes of the latter, the screens that Back has taken away, and the `MainScreen`s whose position
has been answered. -/
structure Phone where
  session : Session
  presses : List Press
  pages : List ChatPage
  calls : List Nat
  registrations : List (Nat × Nat)
  popped : List Route
  positioned : List Nat

namespace Phone

/-- The app is installed. -/
def installed : Phone where
  session := Session.installed
  presses := []
  pages := []
  calls := []
  registrations := []
  popped := []
  positioned := []

/-- The steps of a phone. -/
inductive Label
  | session (l : Session.Label)
  | lateUser (id : Nat)
  | position (id : Nat) (pos : GeoPoint)
  | tapTile (snapshot : List FriendDoc) (index : Nat)
  | compose (k : Nat) (l : Composer.Label)
  | press
  | located (k : Nat)
  | emit (k : Nat) (keys : List Text) (draw : Nat)
  | write (i : Nat)
  | fail (i : Nat)
  | register (es : List Edit)
  | accountCreated (i : Nat)
  | accountFails (i : Nat)
  | profileWritten (i : Nat)
  | profileFails (i : Nat)
  deriving DecidableEq, Repr

/-- All the `MainScreen`s of the process are among these routes. -/
def screens (p : Phone) : List Route := p.session.stack ++ p.popped

/-- A step of the screens that the phone makes by itself. A sign-in succeeds for an account, under
the address that the request had typed. -/
def permits (norm : Text → Text) (c : Cloud) (p : Phone) : Session.Label → Bool
  | .registered _ => false
  | .accountCreated _ => false
  | .openChat _ => false
  | .signInSucceeds i user =>
      (p.session.signIns[i]?.any fun r => norm r.1 = user) &&
        c.registry.accounts.any fun k => k = user
  | _ => true

/-- The phone after its screens have changed. -/
def withSession (p : Phone) (l : Session.Label) (t : Session) : Phone :=
  if l = .appStart then { installed with session := t }
  else
    { p with
      session := t
      presses := p.presses.map (Press.keep t.showsDiscover)
      popped := p.popped ++ p.session.stack.filter fun r => !t.mounted r.id }

/-- The page on top is used, or an `add` completes, which needs a path that Firestore takes. -/
def admits (page : ChatPage) (s : Session) : Composer.Label → Bool
  | .added _ => (chatsCollection (ChatScreen.getDocumentName page.user page.friendEmail)).isSome
  | _ => s.stack.head?.any fun r => r.id = page.route

/-- The documents of an emission are those of the collection with a location. -/
def hits (c : Cloud) (keys : List Text) : Bool :=
  keys.all fun key => (c.registry.users key).any fun d => d.location.isSome

/-- The documents of an emission. -/
def event (c : Cloud) (keys : List Text) : List UserDoc := keys.filterMap c.registry.users

/-- The call of `addToFriends` that a pick makes. -/
def callRequests (pick : Option (Text × Text)) : List Request :=
  pick.toList.map fun (user, friendUser) => .backend (.addToFriends user friendUser)

/-- The number of the registration is one that the process waits for. -/
def registers (p : Phone) (i : Nat) : Bool := p.registrations.any fun r => r.1 = i

variable (norm : Text → Text)

def step (c : Cloud) (p : Phone) : Label → Option (Phone × List Request)
  | .session l =>
      if p.permits norm c l then
        (Session.step p.session l).map fun t => (p.withSession l t, [])
      else none
  | .lateUser id =>
      (p.popped.findSome? (Route.mainAt id)).bind fun m =>
        (m.handle (.currentUser p.session.currentUser)).map fun (n, _) =>
          ({ p with popped := p.popped.map (Route.setMain id n) }, [])
  | .position id pos =>
      if id ∈ p.positioned then none
      else
        (p.screens.findSome? (Route.mainAt id)).map fun m =>
          ({ p with positioned := p.positioned ++ [id] },
            m.user.toList.map fun user => .registry (.locate user pos))
  | .tapTile snapshot index =>
      p.session.homePage.bind fun user =>
        if snapshot.all (c.lists user) then
          (HomeScreen.itemBuilder snapshot index).bind fun friendEmail =>
            (Session.step p.session (.openChat friendEmail)).map fun t =>
              ({ p with
                session := t
                pages := p.pages ++ [⟨p.session.routes, user, friendEmail, Composer.start⟩] }, [])
        else none
  | .compose k l =>
      p.pages[k]?.bind fun page =>
        if admits page p.session l then
          (Composer.step page.user page.friendEmail page.composer l).map fun composer =>
            ({ p with pages := p.pages.set k { page with composer := composer } },
              page.requests l)
        else none
  | .press =>
      p.session.discoverPage.bind fun (id, user) =>
        (Discovery.step ⟨p.presses, c.backend⟩ (.press id user)).map fun d =>
          ({ p with presses := d.presses }, [])
  | .located k =>
      (Discovery.step ⟨p.presses, c.backend⟩ (.located k)).map fun d =>
        ({ p with presses := d.presses }, [])
  | .emit k keys draw =>
      p.presses[k]?.bind fun pr =>
        if hits c keys then
          (Discovery.step ⟨p.presses, c.backend⟩ (.emit k (event c keys) draw)).map fun d =>
            ({ p with
              session := p.session.pushPicked pr (event c keys) draw
              presses := d.presses
              calls := p.calls ++ (picked pr.subscription (event c keys) draw).toList.map fun _ =>
                c.backend.calls.length },
              callRequests (picked pr.subscription (event c keys) draw))
        else none
  | .write i => if i ∈ p.calls then some (p, [.backend (.write i)]) else none
  | .fail i => if i ∈ p.calls then some (p, [.backend (.fail i)]) else none
  | .register es =>
      p.session.registrationPage.map fun id =>
        ({ p with registrations := p.registrations ++
          (onPressed (edited es)).toList.map fun _ => (c.registry.registrations.length, id) },
          [.registry (.press es)])
  | .accountCreated i =>
      if p.registers i then
        c.registry.registrations[i]?.bind fun r =>
          (Session.step p.session (.accountCreated (norm r.requests.createUser.1))).map fun t =>
            ({ p with session := t }, [.registry (.accountCreated i)])
      else none
  | .accountFails i =>
      if p.registers i then some (p, [.registry (.accountFails i)]) else none
  | .profileWritten i =>
      (p.registrations.find? fun r => r.1 = i).map fun (_, route) =>
        ({ p with session := (Session.step p.session (.registered route)).getD p.session },
          [.registry (.profileWritten i)])
  | .profileFails i =>
      if p.registers i then some (p, [.registry (.profileFails i)]) else none

/-- What a step of a phone does: its guard, the phone afterwards and the requests sent. -/
inductive Stepped (c : Cloud) (p : Phone) : Label → Phone → List Request → Prop
  | session {l : Session.Label} {t : Session} (hpermits : p.permits norm c l = true)
      (ht : Session.step p.session l = some t) : Stepped c p (.session l) (p.withSession l t) []
  | lateUser {id : Nat} {m n : MainScreen} {signsOut : Bool}
      (hm : p.popped.findSome? (Route.mainAt id) = some m)
      (hn : m.handle (.currentUser p.session.currentUser) = some (n, signsOut)) :
      Stepped c p (.lateUser id) { p with popped := p.popped.map (Route.setMain id n) } []
  | position {id : Nat} {m : MainScreen} (pos : GeoPoint)
      (hm : p.screens.findSome? (Route.mainAt id) = some m) :
      Stepped c p (.position id pos) { p with positioned := p.positioned ++ [id] }
        (m.user.toList.map fun user => .registry (.locate user pos))
  | tapTile {snapshot : List FriendDoc} {index : Nat} {user friendEmail : Text} {t : Session}
      (huser : p.session.homePage = some user) (hsnapshot : ∀ d ∈ snapshot, c.lists user d = true)
      (htile : HomeScreen.itemBuilder snapshot index = some friendEmail)
      (ht : Session.step p.session (.openChat friendEmail) = some t) :
      Stepped c p (.tapTile snapshot index) { p with
        session := t
        pages := p.pages ++ [⟨p.session.routes, user, friendEmail, Composer.start⟩] } []
  | compose {k : Nat} {l : Composer.Label} {page : ChatPage} {composer : Composer}
      (hpage : p.pages[k]? = some page)
      (hcomposer : Composer.step page.user page.friendEmail page.composer l = some composer) :
      Stepped c p (.compose k l)
        { p with pages := p.pages.set k { page with composer := composer } } (page.requests l)
  | press {id : Nat} {user : Option Text} (hpage : p.session.discoverPage = some (id, user)) :
      Stepped c p .press { p with presses := p.presses ++ [Press.start id user] } []
  | located {k : Nat} {pr : Press} (hpr : p.presses[k]? = some pr) :
      Stepped c p (.located k)
        { p with presses := p.presses.set k { pr with listening := true } } []
  | emit {k : Nat} {pr : Press} (keys : List Text) (draw : Nat) (hpr : p.presses[k]? = some pr)
      (hhits : hits c keys = true) :
      Stepped c p (.emit k keys draw) { p with
        session := p.session.pushPicked pr (event c keys) draw
        presses := p.presses.set k (pr.received (event c keys) draw)
        calls := p.calls ++ (picked pr.subscription (event c keys) draw).toList.map fun _ =>
          c.backend.calls.length }
        (callRequests (picked pr.subscription (event c keys) draw))
  | write {i : Nat} (hi : i ∈ p.calls) : Stepped c p (.write i) p [.backend (.write i)]
  | fail {i : Nat} (hi : i ∈ p.calls) : Stepped c p (.fail i) p [.backend (.fail i)]
  | register (es : List Edit) (registrations : List (Nat × Nat)) :
      Stepped c p (.register es) { p with registrations := registrations } [.registry (.press es)]
  | accountCreated {i : Nat} {reg : Registration} {t : Session}
      (hreg : c.registry.registrations[i]? = some reg)
      (ht : Session.step p.session (.accountCreated (norm reg.requests.createUser.1)) = some t) :
      Stepped c p (.accountCreated i) { p with session := t } [.registry (.accountCreated i)]
  | accountFails (i : Nat) : Stepped c p (.accountFails i) p [.registry (.accountFails i)]
  | profileWritten (i : Nat) {route : Nat} {t : Session}
      (ht : t = p.session ∨ Session.step p.session (.registered route) = some t) :
      Stepped c p (.profileWritten i) { p with session := t } [.registry (.profileWritten i)]
  | profileFails (i : Nat) : Stepped c p (.profileFails i) p [.registry (.profileFails i)]

/-- The phone holds the user on a `MainScreen`, for a press of Discover or on a chat. -/
def Holds (p : Phone) (u : Text) : Prop :=
  RoutesHold p.screens u ∨ (∃ pr ∈ p.presses, pr.subscription.user = some u) ∨
    ∃ page ∈ p.pages, page.user = u

/-- The address is the e-mail of a document of the collection with a location. -/
def Listed (c : Cloud) (f : Text) : Prop :=
  ∃ k d, c.registry.users k = some d ∧ d.location.isSome = true ∧ toStringOrNull d.email = f

/-- What a phone may ask, by what it holds: a call for the user of a press and another user found
by it, a message for the user and the friend of a chat, a location for a user it holds. -/
def MayAsk (c : Cloud) (p : Phone) : Request → Prop
  | .backend (.addToFriends user friendUser) =>
      ∃ pr ∈ p.presses, pr.subscription.user = some user ∧
        (friendUser ∈ pr.subscription.randomUserString ∨
          (friendUser ≠ user ∧ Listed c friendUser))
  | .backend (.send user friendEmail _ _) =>
      ∃ page ∈ p.pages, page.user = user ∧ page.friendEmail = friendEmail
  | .backend (.write i) => i ∈ p.calls
  | .backend (.fail i) => i ∈ p.calls
  | .registry (.locate user _) => p.Holds user
  | .registry _ => True

variable {norm}

theorem listed_of_mem_others {c : Cloud} {keys : List Text} (hhits : hits c keys = true)
    {u f : Text} (h : f ∈ others u (event c keys)) : f ≠ u ∧ Listed c f := by
  obtain ⟨hmem, hne⟩ := List.mem_filter.mp h
  obtain ⟨d, hd, rfl⟩ := List.mem_map.mp hmem
  obtain ⟨k, hkey, hk⟩ := List.mem_filterMap.mp hd
  have hlocation := List.all_eq_true.mp hhits k hkey
  rw [hk] at hlocation
  exact ⟨of_decide_eq_true hne, k, d, hk, hlocation, rfl⟩

theorem routesHold_screens_iff {p : Phone} {u : Text} :
    RoutesHold p.screens u ↔ RoutesHold p.session.stack u ∨ RoutesHold p.popped u :=
  routesHold_append

/-- What a step of a phone does to the users it holds, to the lists its presses have collected and
to its chats, and what it may ask for. -/
structure Spec (norm : Text → Text) (c : Cloud) (p p' : Phone) (rs : List Request) : Prop where
  holds : ∀ u, p'.Holds u → p.Holds u ∨ p.session.currentUser = some u
  currentUser : ∀ u, p'.session.currentUser = some u → p.session.currentUser = some u ∨
    u ∈ c.registry.accounts ∨ ∃ i r, rs = [.registry (.accountCreated i)] ∧
      c.registry.registrations[i]? = some r ∧ norm r.requests.createUser.1 = u
  presses : ∀ pr' ∈ p'.presses, pr'.subscription.randomUserString = [] ∨ ∃ pr ∈ p.presses,
    pr'.subscription.user = pr.subscription.user ∧
      ∀ f ∈ pr'.subscription.randomUserString, f ∈ pr.subscription.randomUserString ∨
        (pr.subscription.user ≠ some f ∧ Listed c f)
  pages : ∀ page' ∈ p'.pages,
    (∃ page ∈ p.pages, page'.user = page.user ∧ page'.friendEmail = page.friendEmail) ∨
      c.HasTile page'.user page'.friendEmail
  calls : ∀ i ∈ p'.calls, i ∈ p.calls ∨ (i = c.backend.calls.length ∧
    ∃ user friendUser, rs = [.backend (.addToFriends user friendUser)])
  requests : ∀ r ∈ rs, p.MayAsk c r

/-- A step that opens no chat and extends no list keeps the presses and the chats as they are. -/
theorem spec_of_frame {c : Cloud} {p p' : Phone} {rs : List Request}
    (hscreens : ∀ u, RoutesHold p'.screens u →
      RoutesHold p.screens u ∨ p.session.currentUser = some u)
    (hpresses : ∀ pr' ∈ p'.presses, ∃ pr ∈ p.presses, pr'.subscription = pr.subscription)
    (hpages : ∀ page' ∈ p'.pages, ∃ page ∈ p.pages,
      page'.user = page.user ∧ page'.friendEmail = page.friendEmail)
    (hcalls : p'.calls ⊆ p.calls)
    (hcurrent : ∀ u, p'.session.currentUser = some u → p.session.currentUser = some u ∨
      u ∈ c.registry.accounts ∨ ∃ i r, rs = [.registry (.accountCreated i)] ∧
        c.registry.registrations[i]? = some r ∧ norm r.requests.createUser.1 = u)
    (hrequests : ∀ r ∈ rs, p.MayAsk c r) : Spec norm c p p' rs where
  holds := by
    rintro u (hu | ⟨pr', hpr', hu⟩ | ⟨page', hpage', hu⟩)
    · rcases hscreens u hu with hold | hcurrent
      · exact Or.inl (Or.inl hold)
      · exact Or.inr hcurrent
    · obtain ⟨pr, hpr, hsame⟩ := hpresses pr' hpr'
      exact Or.inl (Or.inr (Or.inl ⟨pr, hpr, hsame ▸ hu⟩))
    · obtain ⟨page, hpage, huser, _⟩ := hpages page' hpage'
      exact Or.inl (Or.inr (Or.inr ⟨page, hpage, huser.symm.trans hu⟩))
  currentUser := hcurrent
  presses := by
    intro pr' hpr'
    obtain ⟨pr, hpr, hsame⟩ := hpresses pr' hpr'
    exact Or.inr ⟨pr, hpr, by rw [hsame], fun f hf => Or.inl (hsame ▸ hf)⟩
  pages := fun page' hpage' => Or.inl (hpages page' hpage')
  calls := fun i hi => Or.inl (hcalls hi)
  requests := hrequests

/-- A step that only sends a request. -/
theorem spec_of_request {c : Cloud} {p : Phone} {r : Request} (hr : p.MayAsk c r) :
    Spec norm c p p [r] := by
  apply spec_of_frame
  · exact fun u hu => Or.inl hu
  · exact fun pr hpr => ⟨pr, hpr, rfl⟩
  · exact fun page hpage => ⟨page, hpage, rfl, rfl⟩
  · exact List.Subset.refl _
  · exact fun u hu => Or.inl hu
  · intro r' hr'
    obtain rfl := List.mem_singleton.mp hr'
    exact hr

/-- New screens hold nobody that the screens did not hold or that was not signed in. -/
theorem routesHold_withSession {p : Phone} {l : Session.Label} {t : Session}
    (h : Session.step p.session l = some t) {u : Text}
    (hu : RoutesHold (p.withSession l t).screens u) :
    RoutesHold p.screens u ∨ p.session.currentUser = some u := by
  have hstack : RoutesHold t.stack u →
      RoutesHold p.screens u ∨ p.session.currentUser = some u := fun hu =>
    (Session.routesHold_step h hu).imp_left fun hold =>
      routesHold_screens_iff.mpr (Or.inl hold)
  unfold withSession at hu
  split at hu
  · rcases routesHold_screens_iff.mp hu with hu | ⟨r, hr, _⟩
    · exact hstack hu
    · exact absurd hr List.not_mem_nil
  · rcases routesHold_screens_iff.mp hu with hu | hu
    · exact hstack hu
    · rcases routesHold_append.mp hu with hu | hu
      · exact Or.inl (routesHold_screens_iff.mpr (Or.inr hu))
      · exact Or.inl (routesHold_screens_iff.mpr (Or.inl (hu.mono (List.filter_subset_self _))))

@[simp] theorem session_withSession (p : Phone) (l : Session.Label) (t : Session) :
    (p.withSession l t).session = t := by
  unfold withSession
  split <;> rfl

theorem spec_session {c : Cloud} {p : Phone} {l : Session.Label} {t : Session}
    (hpermits : p.permits norm c l = true) (h : Session.step p.session l = some t) :
    Spec norm c p (p.withSession l t) [] := by
  apply spec_of_frame
  · exact fun u hu => routesHold_withSession h hu
  · intro pr' hpr'
    unfold withSession at hpr'
    split at hpr'
    · exact absurd hpr' List.not_mem_nil
    · obtain ⟨pr, hpr, rfl⟩ := List.mem_map.mp hpr'
      exact ⟨pr, hpr, rfl⟩
  · intro page hpage
    unfold withSession at hpage
    split at hpage
    · exact absurd hpage List.not_mem_nil
    · exact ⟨page, hpage, rfl, rfl⟩
  · unfold withSession
    split
    · exact List.nil_subset _
    · exact List.Subset.refl _
  · intro u hu
    rw [session_withSession] at hu
    rcases Session.currentUser_step h hu with hold | ⟨i, rfl⟩ | rfl
    · exact Or.inl hold
    · obtain ⟨k, hk, hku⟩ := List.any_eq_true.mp (Bool.and_eq_true_iff.mp hpermits).2
      exact Or.inr (Or.inl (of_decide_eq_true hku ▸ hk))
    · exact Bool.noConfusion hpermits
  · exact fun r hr => absurd hr List.not_mem_nil

/-- A chat is opened on a friend of the user of the friends list. -/
theorem spec_tapTile {c : Cloud} {p : Phone} {snapshot : List FriendDoc} {index : Nat}
    {user friendEmail : Text} {t : Session} (huser : p.session.homePage = some user)
    (hsnapshot : ∀ d ∈ snapshot, c.lists user d = true)
    (htile : HomeScreen.itemBuilder snapshot index = some friendEmail)
    (h : Session.step p.session (.openChat friendEmail) = some t) :
    Spec norm c p { p with
      session := t
      pages := p.pages ++ [⟨p.session.routes, user, friendEmail, Composer.start⟩] } [] := by
  have hheld : RoutesHold p.screens user :=
    routesHold_screens_iff.mpr (Or.inl (Session.holds_of_homePage huser).1)
  have hfriend : c.HasTile user friendEmail := by
    obtain ⟨name, hname, hshown⟩ := Option.bind_eq_some_iff.mp htile
    obtain ⟨_, hname'⟩ := Option.ite_none_left_eq_some.mp hshown
    obtain rfl := Option.some.inj hname'
    obtain ⟨d, hd, hdname⟩ := List.mem_map.mp (List.mem_of_getElem? hname)
    exact ⟨d, hsnapshot d hd, hdname⟩
  constructor
  · rintro u (hu | hu | ⟨page, hpage, hu⟩)
    · rcases routesHold_screens_iff.mp hu with hu | hu
      · rcases Session.routesHold_step h hu with hold | hcurrent
        · exact Or.inl (Or.inl (routesHold_screens_iff.mpr (Or.inl hold)))
        · exact Or.inr hcurrent
      · exact Or.inl (Or.inl (routesHold_screens_iff.mpr (Or.inr hu)))
    · exact Or.inl (Or.inr (Or.inl hu))
    · rcases List.mem_append.mp hpage with hpage | hpage
      · exact Or.inl (Or.inr (Or.inr ⟨page, hpage, hu⟩))
      · obtain rfl := List.mem_singleton.mp hpage
        obtain rfl : user = u := hu
        exact Or.inl (Or.inl hheld)
  · intro u hu
    rcases Session.currentUser_step h hu with hold | ⟨i, hi⟩ | hi
    · exact Or.inl hold
    · exact Session.Label.noConfusion hi
    · exact Session.Label.noConfusion hi
  · exact fun pr hpr => Or.inr ⟨pr, hpr, rfl, fun f hf => Or.inl hf⟩
  · intro page hpage
    rcases List.mem_append.mp hpage with hpage | hpage
    · exact Or.inl ⟨page, hpage, rfl, rfl⟩
    · obtain rfl := List.mem_singleton.mp hpage
      exact Or.inr hfriend
  · exact fun i hi => Or.inl hi
  · exact fun r hr => absurd hr List.not_mem_nil

/-- A press of Discover has the user of its page and an empty list. -/
theorem spec_press {c : Cloud} {p : Phone} {id : Nat} {user : Option Text}
    (hpage : p.session.discoverPage = some (id, user)) :
    Spec norm c p { p with presses := p.presses ++ [Press.start id user] } [] := by
  constructor
  · rintro u (hu | ⟨pr, hpr, hu⟩ | hu)
    · exact Or.inl (Or.inl hu)
    · rcases List.mem_append.mp hpr with hpr | hpr
      · exact Or.inl (Or.inr (Or.inl ⟨pr, hpr, hu⟩))
      · obtain rfl := List.mem_singleton.mp hpr
        obtain rfl : user = some u := hu
        have hheld := Session.holds_of_discoverPage hpage
        exact Or.inl (Or.inl (routesHold_screens_iff.mpr (Or.inl hheld)))
    · exact Or.inl (Or.inr (Or.inr hu))
  · exact fun u hu => Or.inl hu
  · intro pr hpr
    rcases List.mem_append.mp hpr with hpr | hpr
    · exact Or.inr ⟨pr, hpr, rfl, fun f hf => Or.inl hf⟩
    · obtain rfl := List.mem_singleton.mp hpr
      exact Or.inl rfl
  · exact fun page hpage => Or.inl ⟨page, hpage, rfl, rfl⟩
  · exact fun i hi => Or.inl hi
  · exact fun r hr => absurd hr List.not_mem_nil

/-- The list of a press grows by addresses of the collection that are not its user's. -/
theorem collected_of_received {c : Cloud} {pr : Press} {keys : List Text} {draw : Nat} {f : Text}
    (hhits : hits c keys = true)
    (hf : f ∈ (pr.received (event c keys) draw).subscription.randomUserString) :
    f ∈ pr.subscription.randomUserString ∨ (pr.subscription.user ≠ some f ∧ Listed c f) := by
  rw [Discovery.subscription_received] at hf
  cases huser : pr.subscription.user with
  | none =>
      have hsame : (listener pr.subscription (event c keys) draw).1 = pr.subscription := by
        unfold listener
        rw [huser]
        cases event c keys <;> rfl
      exact Or.inl (hsame ▸ hf)
  | some user =>
      rw [listener_fst huser] at hf
      rcases List.mem_append.mp hf with hf | hf
      · exact Or.inl hf
      · obtain ⟨hne, hlisted⟩ := listed_of_mem_others hhits hf
        exact Or.inr ⟨fun heq => hne (Option.some.inj heq).symm, hlisted⟩

/-- A call is made for the user of the press, with an address that the press has found. -/
theorem mayAsk_callRequests {c : Cloud} {p : Phone} {pr : Press} (hpr : pr ∈ p.presses)
    {keys : List Text} {draw : Nat} (hhits : hits c keys = true) :
    ∀ r ∈ callRequests (picked pr.subscription (event c keys) draw), p.MayAsk c r := by
  intro r hr
  obtain ⟨⟨user, friendUser⟩, hpick, rfl⟩ := List.mem_map.mp hr
  obtain ⟨huser, _, hindex⟩ := picked_eq_some.mp (Option.mem_toList.mp hpick)
  refine ⟨pr, hpr, huser, ?_⟩
  rcases List.mem_append.mp (List.mem_of_getElem? hindex) with hold | hnew
  · exact Or.inl hold
  · exact Or.inr (listed_of_mem_others hhits hnew)

theorem spec_emit {c : Cloud} {p : Phone} {k : Nat} {pr : Press} {keys : List Text} {draw : Nat}
    (hpr : p.presses[k]? = some pr) (hhits : hits c keys = true) :
    Spec norm c p { p with
      session := p.session.pushPicked pr (event c keys) draw
      presses := p.presses.set k (pr.received (event c keys) draw)
      calls := p.calls ++ (picked pr.subscription (event c keys) draw).toList.map fun _ =>
        c.backend.calls.length }
      (callRequests (picked pr.subscription (event c keys) draw)) := by
  have hmem : pr ∈ p.presses := List.mem_of_getElem? hpr
  constructor
  · rintro u (hu | ⟨pr', hpr', hu⟩ | hu)
    · rcases routesHold_screens_iff.mp hu with hu | hu
      · have hold := Session.routesHold_pushPicked hu
        exact Or.inl (Or.inl (routesHold_screens_iff.mpr (Or.inl hold)))
      · exact Or.inl (Or.inl (routesHold_screens_iff.mpr (Or.inr hu)))
    · rcases List.mem_or_eq_of_mem_set hpr' with hpr' | rfl
      · exact Or.inl (Or.inr (Or.inl ⟨pr', hpr', hu⟩))
      · rw [Discovery.user_received] at hu
        exact Or.inl (Or.inr (Or.inl ⟨pr, hmem, hu⟩))
    · exact Or.inl (Or.inr (Or.inr hu))
  · intro u hu
    exact Or.inl ((Session.currentUser_pushPicked _ _ _ _).symm.trans hu)
  · intro pr' hpr'
    rcases List.mem_or_eq_of_mem_set hpr' with hpr' | rfl
    · exact Or.inr ⟨pr', hpr', rfl, fun f hf => Or.inl hf⟩
    · exact Or.inr ⟨pr, hmem, Discovery.user_received _ _ _, fun f hf =>
        collected_of_received hhits hf⟩
  · exact fun page hpage => Or.inl ⟨page, hpage, rfl, rfl⟩
  · intro i hi
    rcases List.mem_append.mp hi with hi | hi
    · exact Or.inl hi
    · obtain ⟨⟨user, friendUser⟩, hpick, rfl⟩ := List.mem_map.mp hi
      rw [Option.mem_toList.mp hpick]
      exact Or.inr ⟨rfl, user, friendUser, rfl⟩
  · exact mayAsk_callRequests hmem hhits

/-- The answer of `currentUser()` to a screen that Back has taken away. -/
theorem spec_lateUser {c : Cloud} {p : Phone} {id : Nat} {m n : MainScreen} {signsOut : Bool}
    (hm : p.popped.findSome? (Route.mainAt id) = some m)
    (h : m.handle (.currentUser p.session.currentUser) = some (n, signsOut)) :
    Spec norm c p { p with popped := p.popped.map (Route.setMain id n) } [] := by
  apply spec_of_frame
  · intro u hu
    rcases routesHold_screens_iff.mp hu with hu | hu
    · exact Or.inl (routesHold_screens_iff.mpr (Or.inl hu))
    · rcases routesHold_handle hm h hu with hold | hanswer
      · exact Or.inl (routesHold_screens_iff.mpr (Or.inr hold))
      · exact Or.inr (MainScreen.Event.currentUser.inj hanswer)
  · exact fun pr hpr => ⟨pr, hpr, rfl⟩
  · exact fun page hpage => ⟨page, hpage, rfl, rfl⟩
  · exact List.Subset.refl _
  · exact fun u hu => Or.inl hu
  · exact fun r hr => absurd hr List.not_mem_nil

/-- A location is recorded for the user in the field of the screen that asked for it. -/
theorem spec_position {c : Cloud} {p : Phone} {id : Nat} {m : MainScreen}
    (hm : p.screens.findSome? (Route.mainAt id) = some m) (pos : GeoPoint) (positioned : List Nat) :
    Spec norm c p { p with positioned := positioned }
      (m.user.toList.map fun user => .registry (.locate user pos)) := by
  apply spec_of_frame
  · exact fun u hu => Or.inl hu
  · exact fun pr hpr => ⟨pr, hpr, rfl⟩
  · exact fun page hpage => ⟨page, hpage, rfl, rfl⟩
  · exact List.Subset.refl _
  · exact fun u hu => Or.inl hu
  · intro r hr
    obtain ⟨user, huser, rfl⟩ := List.mem_map.mp hr
    exact Or.inl (routesHold_of_mainAt hm (Or.inl (Option.mem_toList.mp huser)))

/-- A message goes from the user of the chat to its friend. -/
theorem spec_compose {c : Cloud} {p : Phone} {k : Nat} {page : ChatPage}
    (hpage : p.pages[k]? = some page) (l : Composer.Label) (composer : Composer) :
    Spec norm c p { p with pages := p.pages.set k { page with composer := composer } }
      (page.requests l) := by
  have hmem : page ∈ p.pages := List.mem_of_getElem? hpage
  apply spec_of_frame
  · exact fun u hu => Or.inl hu
  · exact fun pr hpr => ⟨pr, hpr, rfl⟩
  · intro page' hpage'
    rcases List.mem_or_eq_of_mem_set hpage' with hold | rfl
    · exact ⟨page', hold, rfl, rfl⟩
    · exact ⟨page, hmem, rfl, rfl⟩
  · exact List.Subset.refl _
  · exact fun u hu => Or.inl hu
  · intro r hr
    cases l with
    | edit value => exact absurd hr List.not_mem_nil
    | send now =>
        obtain rfl := List.mem_singleton.mp hr
        exact ⟨page, hmem, rfl, rfl⟩
    | added number => exact absurd hr List.not_mem_nil

theorem spec_located {c : Cloud} {p : Phone} {k : Nat} {pr : Press}
    (hpr : p.presses[k]? = some pr) :
    Spec norm c p { p with presses := p.presses.set k { pr with listening := true } } [] := by
  apply spec_of_frame
  · exact fun u hu => Or.inl hu
  · intro pr' hpr'
    rcases List.mem_or_eq_of_mem_set hpr' with hold | rfl
    · exact ⟨pr', hold, rfl⟩
    · exact ⟨pr, List.mem_of_getElem? hpr, rfl⟩
  · exact fun page hpage => ⟨page, hpage, rfl, rfl⟩
  · exact List.Subset.refl _
  · exact fun u hu => Or.inl hu
  · exact fun r hr => absurd hr List.not_mem_nil

theorem spec_register {c : Cloud} {p : Phone} (es : List Edit) (registrations : List (Nat × Nat)) :
    Spec norm c p { p with registrations := registrations } [.registry (.press es)] := by
  apply spec_of_frame
  · exact fun u hu => Or.inl hu
  · exact fun pr hpr => ⟨pr, hpr, rfl⟩
  · exact fun page hpage => ⟨page, hpage, rfl, rfl⟩
  · exact List.Subset.refl _
  · exact fun u hu => Or.inl hu
  · intro r hr
    obtain rfl := List.mem_singleton.mp hr
    trivial

/-- The answers to a registration: new screens at most, and for a new account its user. -/
theorem spec_registered {c : Cloud} {p : Phone} {l : Session.Label} {t : Session} {r : Request}
    (h : Session.step p.session l = some t) (hl : ∀ i u, l ≠ .signInSucceeds i u)
    (hcreated : ∀ u, l = .accountCreated u → ∃ i reg, r = .registry (.accountCreated i) ∧
      c.registry.registrations[i]? = some reg ∧ norm reg.requests.createUser.1 = u)
    (hr : p.MayAsk c r) : Spec norm c p { p with session := t } [r] := by
  apply spec_of_frame
  · intro u hu
    rcases routesHold_screens_iff.mp hu with hu | hu
    · exact (Session.routesHold_step h hu).imp_left fun hold =>
        routesHold_screens_iff.mpr (Or.inl hold)
    · exact Or.inl (routesHold_screens_iff.mpr (Or.inr hu))
  · exact fun pr hpr => ⟨pr, hpr, rfl⟩
  · exact fun page hpage => ⟨page, hpage, rfl, rfl⟩
  · exact List.Subset.refl _
  · intro u hu
    rcases Session.currentUser_step h hu with hold | ⟨i, hi⟩ | hi
    · exact Or.inl hold
    · exact absurd hi (hl i u)
    · obtain ⟨i, reg, rfl, hreg, hu⟩ := hcreated u hi
      exact Or.inr (Or.inr ⟨i, reg, rfl, hreg, hu⟩)
  · intro r' hr'
    obtain rfl := List.mem_singleton.mp hr'
    exact hr

theorem stepped_of_step {c : Cloud} {p p' : Phone} {l : Label} {rs : List Request}
    (h : step norm c p l = some (p', rs)) : Stepped norm c p l p' rs := by
  cases l with
  | session l =>
      obtain ⟨hpermits, h⟩ := Option.ite_none_right_eq_some.mp h
      obtain ⟨t, ht, heq⟩ := Option.map_eq_some_iff.mp h
      obtain ⟨rfl, rfl⟩ := Prod.mk.inj heq
      exact .session hpermits ht
  | lateUser id =>
      obtain ⟨m, hm, h⟩ := Option.bind_eq_some_iff.mp h
      obtain ⟨⟨n, signsOut⟩, hn, heq⟩ := Option.map_eq_some_iff.mp h
      obtain ⟨rfl, rfl⟩ := Prod.mk.inj heq
      exact .lateUser hm hn
  | position id pos =>
      obtain ⟨_, h⟩ := Option.ite_none_left_eq_some.mp h
      obtain ⟨m, hm, heq⟩ := Option.map_eq_some_iff.mp h
      obtain ⟨rfl, rfl⟩ := Prod.mk.inj heq
      exact .position pos hm
  | tapTile snapshot index =>
      obtain ⟨user, huser, h⟩ := Option.bind_eq_some_iff.mp h
      obtain ⟨hsnapshot, h⟩ := Option.ite_none_right_eq_some.mp h
      obtain ⟨friendEmail, htile, h⟩ := Option.bind_eq_some_iff.mp h
      obtain ⟨t, ht, heq⟩ := Option.map_eq_some_iff.mp h
      obtain ⟨rfl, rfl⟩ := Prod.mk.inj heq
      exact .tapTile huser (List.all_eq_true.mp hsnapshot) htile ht
  | compose k l =>
      obtain ⟨page, hpage, h⟩ := Option.bind_eq_some_iff.mp h
      obtain ⟨_, h⟩ := Option.ite_none_right_eq_some.mp h
      obtain ⟨composer, hcomposer, heq⟩ := Option.map_eq_some_iff.mp h
      obtain ⟨rfl, rfl⟩ := Prod.mk.inj heq
      exact .compose hpage hcomposer
  | press =>
      obtain ⟨⟨id, user⟩, hpage, h⟩ := Option.bind_eq_some_iff.mp h
      obtain ⟨d, hd, heq⟩ := Option.map_eq_some_iff.mp h
      obtain ⟨rfl, rfl⟩ := Prod.mk.inj heq
      obtain rfl := Option.some.inj hd
      exact .press hpage
  | located k =>
      obtain ⟨d, hd, heq⟩ := Option.map_eq_some_iff.mp h
      obtain ⟨rfl, rfl⟩ := Prod.mk.inj heq
      obtain ⟨pr, hpr, _, rfl⟩ := Discovery.step_located.mp hd
      exact .located hpr
  | emit k keys draw =>
      obtain ⟨pr, hpr, h⟩ := Option.bind_eq_some_iff.mp h
      obtain ⟨hhits, h⟩ := Option.ite_none_right_eq_some.mp h
      obtain ⟨d, hd, heq⟩ := Option.map_eq_some_iff.mp h
      obtain ⟨rfl, rfl⟩ := Prod.mk.inj heq
      obtain ⟨pr', hpr', _, rfl⟩ := Discovery.step_emit.mp hd
      obtain rfl : pr = pr' := Option.some.inj (hpr.symm.trans hpr')
      exact .emit keys draw hpr hhits
  | write i =>
      obtain ⟨hi, h⟩ := Option.ite_none_right_eq_some.mp h
      obtain ⟨rfl, rfl⟩ := Prod.mk.inj (Option.some.inj h)
      exact .write hi
  | fail i =>
      obtain ⟨hi, h⟩ := Option.ite_none_right_eq_some.mp h
      obtain ⟨rfl, rfl⟩ := Prod.mk.inj (Option.some.inj h)
      exact .fail hi
  | register es =>
      obtain ⟨id, _, heq⟩ := Option.map_eq_some_iff.mp h
      obtain ⟨rfl, rfl⟩ := Prod.mk.inj heq
      exact .register es _
  | accountCreated i =>
      obtain ⟨_, h⟩ := Option.ite_none_right_eq_some.mp h
      obtain ⟨reg, hreg, h⟩ := Option.bind_eq_some_iff.mp h
      obtain ⟨t, ht, heq⟩ := Option.map_eq_some_iff.mp h
      obtain ⟨rfl, rfl⟩ := Prod.mk.inj heq
      exact .accountCreated hreg ht
  | accountFails i =>
      obtain ⟨_, h⟩ := Option.ite_none_right_eq_some.mp h
      obtain ⟨rfl, rfl⟩ := Prod.mk.inj (Option.some.inj h)
      exact .accountFails i
  | profileWritten i =>
      obtain ⟨⟨_, route⟩, _, heq⟩ := Option.map_eq_some_iff.mp h
      obtain ⟨rfl, rfl⟩ := Prod.mk.inj heq
      refine @Stepped.profileWritten norm c p i route _ ?_
      cases ht : Session.step p.session (.registered route) with
      | none => exact Or.inl rfl
      | some t => exact Or.inr rfl
  | profileFails i =>
      obtain ⟨_, h⟩ := Option.ite_none_right_eq_some.mp h
      obtain ⟨rfl, rfl⟩ := Prod.mk.inj (Option.some.inj h)
      exact .profileFails i

/-- A registration is requested by a press of Register alone. -/
theorem register_of_press {c : Cloud} {p p' : Phone} {l : Label} {rs : List Request}
    (h : step norm c p l = some (p', rs)) {es : List Edit} (hes : .registry (.press es) ∈ rs) :
    l = .register es := by
  cases stepped_of_step h with
  | @position id m pos hm =>
      obtain ⟨user, _, heq⟩ := List.mem_map.mp hes
      exact Registry.Label.noConfusion (Request.registry.inj heq)
  | @compose k l page composer _ _ => cases l <;> simp [ChatPage.requests] at hes
  | @emit k pr keys draw _ _ =>
      obtain ⟨pick, _, heq⟩ := List.mem_map.mp hes
      exact Request.noConfusion heq
  | register es' registrations =>
      have heq := Request.registry.inj (List.mem_singleton.mp hes)
      rw [Registry.Label.press.inj heq]
  | session _ _ => exact absurd hes List.not_mem_nil
  | lateUser _ _ => exact absurd hes List.not_mem_nil
  | tapTile _ _ _ _ => exact absurd hes List.not_mem_nil
  | press _ => exact absurd hes List.not_mem_nil
  | located _ => exact absurd hes List.not_mem_nil
  | write _ => simp at hes
  | fail _ => simp at hes
  | accountCreated _ _ => simp at hes
  | accountFails i => simp at hes
  | profileWritten i _ => simp at hes
  | profileFails i => simp at hes

/-- What a step of a phone does, whichever it is. -/
theorem spec_step {c : Cloud} {p p' : Phone} {l : Label} {rs : List Request}
    (h : step norm c p l = some (p', rs)) : Spec norm c p p' rs := by
  cases stepped_of_step h with
  | session hpermits ht => exact spec_session hpermits ht
  | lateUser hm hn => exact spec_lateUser hm hn
  | position pos hm => exact spec_position hm pos _
  | tapTile huser hsnapshot htile ht => exact spec_tapTile huser hsnapshot htile ht
  | compose hpage hcomposer => exact spec_compose hpage _ _
  | press hpage => exact spec_press hpage
  | located hpr => exact spec_located hpr
  | emit keys draw hpr hhits => exact spec_emit hpr hhits
  | write hi => exact spec_of_request hi
  | fail hi => exact spec_of_request hi
  | register es registrations => exact spec_register es registrations
  | @accountCreated i reg t hreg ht =>
      apply spec_registered ht (by simp)
      · exact fun u hu => ⟨i, reg, rfl, hreg, Session.Label.accountCreated.inj hu⟩
      · trivial
  | accountFails i => exact spec_of_request trivial
  | profileWritten i ht =>
      rcases ht with rfl | ht
      · exact spec_of_request trivial
      · exact spec_registered ht (by simp) (by simp) trivial
  | profileFails i => exact spec_of_request trivial

end Phone

end Chatsy
