import Chatsy.Foundation.Runs
import Chatsy.Screens.HomeScreen

/-!
# MainScreen: the signed-in user and the page shown

`initState` starts `FirebaseAuth.currentUser()` and a callback on `getUser()`,
and the first build follows at once. A build hands the page a future of what
the field `user` holds at that moment, so the page keeps that value until the
next build. Only the callback and the taps request a build; the completion of
`currentUser()`, which fills the field, does not.

## Implementation notes

A `FirebaseUser` is named by its address. A future that an async function
returns without awaiting completes with the value at the call, so a page is
modelled with that value. `index` is the number of the bottom bar item, and
`getPage` answers null for the fourth, after it has called `signOut`.
-/

namespace Chatsy

/-- The page in the body, with the value of the future it was given. -/
inductive Page
  | discoverScreen (user : Option Text)
  | homeScreen (user : Option Text)
  | profileScreen (user : Option Text)
  deriving DecidableEq, Repr

/-- The value of the page's future. -/
def Page.user : Page → Option Text
  | .discoverScreen user => user
  | .homeScreen user => user
  | .profileScreen user => user

/-- The state of one `MainScreen`. -/
structure MainScreen where
  user : Option Text
  transferUser : Option Text
  index : Nat
  page : Option Page
  rebuild : Bool
  currentUserPending : Bool
  thenPending : Bool
  deriving DecidableEq, Repr

namespace MainScreen

/-- `getUser`, with the value its future completes with. -/
def getUser (m : MainScreen) : MainScreen × Option Text :=
  ({ m with transferUser := m.user }, m.user)

/-- `getPage`, with the page it builds and whether it has called `signOut`. -/
def getPage (m : MainScreen) (index : Nat) : MainScreen × Option Page × Bool :=
  match index with
  | 0 => (m.getUser.1, some (.discoverScreen m.getUser.2), false)
  | 1 => (m.getUser.1, some (.homeScreen m.getUser.2), false)
  | 2 => (m.getUser.1, some (.profileScreen m.getUser.2), false)
  | _ => (m, none, true)

/-- `build`, with whether it has called `signOut`. -/
def build (m : MainScreen) : MainScreen × Bool :=
  match m.getPage m.index with
  | (m, page, signsOut) => ({ m with page := page, rebuild := false }, signsOut)

/-- `getCurrentUser` up to its await. -/
def getCurrentUser (m : MainScreen) : MainScreen :=
  if m.user = none then { m with currentUserPending := true } else m

/-- `getTransferedPage`: the page it computes is dropped. -/
def getTransferedPage (m : MainScreen) (transferIndex : Option Nat) : MainScreen × Bool :=
  match transferIndex with
  | some index => ((m.getPage index).1, (m.getPage index).2.2)
  | none => (m, false)

/-- The field initializers. -/
def fields : MainScreen where
  user := none
  transferUser := none
  index := 1
  page := none
  rebuild := false
  currentUserPending := false
  thenPending := false

/-- `initState` and the first build. -/
def start (transferIndex : Option Nat) : MainScreen × Bool :=
  let m := { fields.getCurrentUser.getUser.1 with thenPending := true }
  ((m.getTransferedPage transferIndex).1.build.1,
    (m.getTransferedPage transferIndex).2 || (m.getTransferedPage transferIndex).1.build.2)

/-- What happens to a `MainScreen`: its two futures complete, an item of the bottom
bar is tapped, a frame runs the requested build. -/
inductive Event
  | currentUser (user : Option Text)
  | thenCallback
  | onTap (value : Nat)
  | frame
  deriving DecidableEq, Repr

/-- One event, with whether it has called `signOut`. -/
def handle (m : MainScreen) : Event → Option (MainScreen × Bool)
  | .currentUser user =>
      if m.currentUserPending then
        some ({ m with user := user, currentUserPending := false }, false)
      else none
  | .thenCallback =>
      if m.thenPending then
        some ({ m with transferUser := m.user, rebuild := true, thenPending := false }, false)
      else none
  | .onTap value => some ({ m with index := value, rebuild := true }, false)
  | .frame => if m.rebuild then some m.build else none

/-- The step of a `MainScreen` looked at on its own. -/
def step (m : MainScreen) (e : Event) : Option MainScreen := (m.handle e).map Prod.fst

/-- The event calls `setState`. -/
def Event.requests : Event → Bool
  | .currentUser _ => false
  | .thenCallback => true
  | .onTap _ => true
  | .frame => false

/-- Both futures have completed and no requested build is outstanding. -/
def Settled (m : MainScreen) : Prop :=
  m.currentUserPending = false ∧ m.thenPending = false ∧ m.rebuild = false

instance (m : MainScreen) : Decidable m.Settled :=
  inferInstanceAs (Decidable (_ ∧ _ ∧ _))

/-- The page displayed holds the user, and a friends list shown is the user's. -/
def BoundTo (u : Text) (m : MainScreen) : Prop :=
  m.page.map Page.user = some (some u) ∧
  ∀ user, m.page = some (.homeScreen user) → HomeScreen.body user = .friends u

/-- A build is requested and not run yet after the events. -/
def outstanding (es : List Event) : Bool :=
  es.foldl (fun requested e => if e = .frame then false else requested || e.requests) false

/-- A build is outstanding when `currentUser()` completes, or is requested afterwards. -/
def Refreshed (es : List Event) : Prop :=
  ∃ before user after, es = before ++ .currentUser user :: after ∧
    (outstanding before ∨ ∃ e ∈ after, e.requests)

/-- The answer of `currentUser()` is the signed-in user `u`, and taps stay on the three pages. -/
def Event.InSession (u : Text) : Event → Prop
  | .currentUser user => user = some u
  | .thenCallback => True
  | .onTap value => value < 3
  | .frame => True

instance (u : Text) : ∀ e, Decidable (Event.InSession u e)
  | .currentUser user => inferInstanceAs (Decidable (user = some u))
  | .thenCallback => isTrue trivial
  | .onTap value => inferInstanceAs (Decidable (value < 3))
  | .frame => isTrue trivial

/-- Whatever the transferred index, a new screen shows the chats page with no user. -/
theorem start_eq (transferIndex : Option Nat) :
    (start transferIndex).1 =
      { fields with
        page := some (.homeScreen none)
        currentUserPending := true
        thenPending := true } := by
  rcases transferIndex with _ | _ | _ | _ | index <;> rfl

theorem build_of_index_lt {m : MainScreen} (h : m.index < 3) :
    m.build.1.page.map Page.user = some m.user ∧ m.build.1.user = m.user ∧
      m.build.1.index = m.index ∧ m.build.1.rebuild = false ∧
      m.build.1.currentUserPending = m.currentUserPending ∧
      m.build.1.thenPending = m.thenPending := by
  obtain ⟨user, transferUser, index, page, rebuild, currentUserPending, thenPending⟩ := m
  obtain rfl | rfl | rfl : index = 0 ∨ index = 1 ∨ index = 2 := by
    change index < 3 at h
    omega
  · exact ⟨rfl, rfl, rfl, rfl, rfl, rfl⟩
  · exact ⟨rfl, rfl, rfl, rfl, rfl, rfl⟩
  · exact ⟨rfl, rfl, rfl, rfl, rfl, rfl⟩

theorem step_currentUser {m n : MainScreen} {user : Option Text} :
    step m (.currentUser user) = some n ↔
      m.currentUserPending = true ∧ n = { m with user := user, currentUserPending := false } := by
  by_cases h : m.currentUserPending <;> simp [step, handle, h, eq_comm]

theorem step_thenCallback {m n : MainScreen} :
    step m .thenCallback = some n ↔ m.thenPending = true ∧
      n = { m with transferUser := m.user, rebuild := true, thenPending := false } := by
  by_cases h : m.thenPending <;> simp [step, handle, h, eq_comm]

theorem step_onTap {m n : MainScreen} {value : Nat} :
    step m (.onTap value) = some n ↔ n = { m with index := value, rebuild := true } := by
  simp [step, handle, eq_comm]

theorem step_frame {m n : MainScreen} :
    step m .frame = some n ↔ m.rebuild = true ∧ n = m.build.1 := by
  by_cases h : m.rebuild <;> simp [step, handle, h, eq_comm]

theorem user_build (m : MainScreen) : m.build.1.user = m.user ∧
    m.build.1.currentUserPending = m.currentUserPending := by
  obtain ⟨user, transferUser, index, page, rebuild, currentUserPending, thenPending⟩ := m
  rcases index with _ | _ | _ | index <;> exact ⟨rfl, rfl⟩

/-- Only the completion of `currentUser()` changes the field `user`. -/
theorem user_step {m n : MainScreen} {e : Event} (he : ∀ user, e ≠ .currentUser user)
    (hn : step m e = some n) :
    n.user = m.user ∧ n.currentUserPending = m.currentUserPending := by
  cases e with
  | currentUser user => exact absurd rfl (he user)
  | thenCallback =>
      obtain ⟨_, rfl⟩ := step_thenCallback.mp hn
      exact ⟨rfl, rfl⟩
  | onTap value =>
      obtain rfl := step_onTap.mp hn
      exact ⟨rfl, rfl⟩
  | frame =>
      obtain ⟨_, rfl⟩ := step_frame.mp hn
      exact user_build m

/-- The page holds the user, or a requested build will give it the user. -/
def Fresh (u : Text) (m : MainScreen) : Prop :=
  m.page.map Page.user = some (some u) ∨ m.rebuild = true

/-- `currentUser()` has not completed: the page holds no user. -/
structure Waiting (es : List Event) (m : MainScreen) : Prop where
  pending : m.currentUserPending = true
  user : m.user = none
  page : m.page.map Page.user = some none
  rebuild : m.rebuild = outstanding es
  unanswered : ∀ user, .currentUser user ∉ es

/-- `currentUser()` has completed with `u`: the screen is fresh when a build came or will come
after it. -/
structure Answered (u : Text) (es : List Event) (m : MainScreen) : Prop where
  pending : m.currentUserPending = false
  user : m.user = some u
  answered : ∃ user, .currentUser user ∈ es
  fresh : Fresh u m ↔ Refreshed es

theorem outstanding_concat (es : List Event) (e : Event) :
    outstanding (es ++ [e]) = if e = .frame then false else outstanding es || e.requests := by
  simp [outstanding]

/-- A last event makes a difference as the completion of `currentUser()` with a build outstanding,
or as a request that comes after it. -/
theorem refreshed_concat {es : List Event} {e : Event} :
    Refreshed (es ++ [e]) ↔ ((∃ user, e = .currentUser user) ∧ outstanding es = true) ∨
      Refreshed es ∨ ((∃ user, .currentUser user ∈ es) ∧ e.requests = true) := by
  have hsplit : ∀ es, Refreshed es ↔ ∃ before x after, es = before ++ x :: after ∧
      (∃ user, x = Event.currentUser user) ∧
        (outstanding before = true ∨ ∃ e ∈ after, e.requests = true) := by
    intro es
    constructor
    · rintro ⟨before, user, after, hes, href⟩
      exact ⟨before, _, after, hes, ⟨user, rfl⟩, href⟩
    · rintro ⟨before, _, after, hes, ⟨user, rfl⟩, href⟩
      exact ⟨before, user, after, hes, href⟩
  rw [hsplit, Foundation.exists_split_concat (p := fun before x after =>
    (∃ user, x = Event.currentUser user) ∧
      (outstanding before = true ∨ ∃ e ∈ after, e.requests = true)), hsplit]
  simp only [List.not_mem_nil, false_and, exists_false, or_false, List.mem_append,
    List.mem_singleton, or_and_right, exists_or, exists_eq_left]
  apply or_congr_right
  constructor
  · rintro ⟨before, x, after, hes, hx, hout | href | hreq⟩
    · exact Or.inl ⟨before, x, after, hes, hx, Or.inl hout⟩
    · exact Or.inl ⟨before, x, after, hes, hx, Or.inr href⟩
    · obtain ⟨user, rfl⟩ := hx
      exact Or.inr ⟨⟨user, by simp [hes]⟩, hreq⟩
  · rintro (⟨before, x, after, hes, hx, hout | href⟩ | ⟨⟨user, huser⟩, hreq⟩)
    · exact ⟨before, x, after, hes, hx, Or.inl hout⟩
    · exact ⟨before, x, after, hes, hx, Or.inr (Or.inl href)⟩
    · obtain ⟨before, after, rfl⟩ := List.append_of_mem huser
      exact ⟨before, _, after, rfl, ⟨user, rfl⟩, Or.inr (Or.inr hreq)⟩

theorem refreshed_concat_currentUser {es : List Event} (h : ∀ user, .currentUser user ∉ es)
    (user : Option Text) :
    Refreshed (es ++ [.currentUser user]) ↔ outstanding es = true := by
  have hnot : ¬ Refreshed es := by
    rintro ⟨before, user', after, rfl, _⟩
    exact h user' (by simp)
  rw [refreshed_concat, and_iff_right ⟨user, rfl⟩, or_iff_left]
  rintro (href | ⟨⟨user', huser'⟩, _⟩)
  · exact hnot href
  · exact h user' huser'

theorem refreshed_concat_of_answered {es : List Event} {e : Event}
    (h : ∃ user, .currentUser user ∈ es) (he : ∀ user, e ≠ .currentUser user) :
    Refreshed (es ++ [e]) ↔ Refreshed es ∨ e.requests = true := by
  rw [refreshed_concat, and_iff_right h]
  exact or_iff_right fun ⟨⟨user, heq⟩, _⟩ => he user heq

/-- The completion of `currentUser()` changes no page: it is fresh only by an outstanding build. -/
theorem answered_of_waiting {u : Text} {es : List Event} {m : MainScreen}
    (h : Waiting es m) : Answered u (es ++ [.currentUser (some u)])
      { m with user := some u, currentUserPending := false } where
  pending := rfl
  user := rfl
  answered := ⟨some u, by simp⟩
  fresh := by
    rw [refreshed_concat_currentUser h.unanswered, ← h.rebuild, Fresh, h.page]
    simp

theorem waiting_step {es : List Event} {m n : MainScreen} {e : Event} (h : Waiting es m)
    (hm : m.index < 3) (he : ∀ user, e ≠ .currentUser user) (hn : step m e = some n) :
    Waiting (es ++ [e]) n := by
  have hunanswered : ∀ user, Event.currentUser user ∉ es ++ [e] := by
    intro user hmem
    rcases List.mem_append.mp hmem with hmem | hmem
    · exact h.unanswered user hmem
    · exact he user (List.mem_singleton.mp hmem).symm
  cases e with
  | currentUser user => exact absurd rfl (he user)
  | thenCallback =>
      obtain ⟨_, rfl⟩ := step_thenCallback.mp hn
      exact ⟨h.pending, h.user, h.page, by simp [outstanding_concat, Event.requests],
        hunanswered⟩
  | onTap value =>
      obtain rfl := step_onTap.mp hn
      exact ⟨h.pending, h.user, h.page, by simp [outstanding_concat, Event.requests],
        hunanswered⟩
  | frame =>
      obtain ⟨_, rfl⟩ := step_frame.mp hn
      obtain ⟨hpage, huser, _, hrebuild, hpending, _⟩ := build_of_index_lt hm
      exact ⟨hpending.trans h.pending, huser.trans h.user, by rw [hpage, h.user],
        by rw [hrebuild, outstanding_concat, if_pos rfl], hunanswered⟩

theorem answered_step {u : Text} {es : List Event} {m n : MainScreen} {e : Event}
    (h : Answered u es m) (hm : m.index < 3) (hn : step m e = some n) :
    Answered u (es ++ [e]) n := by
  have hanswered : ∃ user, Event.currentUser user ∈ es ++ [e] := by
    obtain ⟨user, huser⟩ := h.answered
    exact ⟨user, List.mem_append_left _ huser⟩
  cases e with
  | currentUser user =>
      obtain ⟨hpending, _⟩ := step_currentUser.mp hn
      rw [h.pending] at hpending
      contradiction
  | thenCallback =>
      obtain ⟨_, rfl⟩ := step_thenCallback.mp hn
      refine ⟨h.pending, h.user, hanswered, ?_⟩
      rw [refreshed_concat_of_answered h.answered (by simp)]
      exact iff_of_true (Or.inr rfl) (Or.inr rfl)
  | onTap value =>
      obtain rfl := step_onTap.mp hn
      refine ⟨h.pending, h.user, hanswered, ?_⟩
      rw [refreshed_concat_of_answered h.answered (by simp)]
      exact iff_of_true (Or.inr rfl) (Or.inr rfl)
  | frame =>
      obtain ⟨hrebuild, rfl⟩ := step_frame.mp hn
      obtain ⟨hpage, huser, _, _, hpending, _⟩ := build_of_index_lt hm
      refine ⟨hpending.trans h.pending, huser.trans h.user, hanswered, ?_⟩
      rw [refreshed_concat_of_answered h.answered (by simp)]
      exact iff_of_true (Or.inl (by rw [hpage, h.user]))
        (Or.inl (h.fresh.mp (Or.inr hrebuild)))

theorem index_step {u : Text} {m n : MainScreen} {e : Event} (hm : m.index < 3)
    (he : e.InSession u) (hn : step m e = some n) : n.index < 3 := by
  cases e with
  | currentUser user =>
      obtain ⟨_, rfl⟩ := step_currentUser.mp hn
      exact hm
  | thenCallback =>
      obtain ⟨_, rfl⟩ := step_thenCallback.mp hn
      exact hm
  | onTap value =>
      obtain rfl := step_onTap.mp hn
      exact he
  | frame =>
      obtain ⟨_, rfl⟩ := step_frame.mp hn
      exact (build_of_index_lt hm).2.2.1.trans_lt hm

/-- Along every run the screen waits for `currentUser()` or has its answer. -/
theorem waiting_or_answered {u : Text} {transferIndex : Option Nat} {es : List Event}
    {m : MainScreen} (hr : Foundation.run step (start transferIndex).1 es = some m)
    (hes : ∀ e ∈ es, e.InSession u) :
    m.index < 3 ∧ (Waiting es m ∨ Answered u es m) := by
  rw [start_eq] at hr
  refine Foundation.run_induction step
    (motive := fun es m => (∀ e ∈ es, e.InSession u) →
      m.index < 3 ∧ (Waiting es m ∨ Answered u es m)) ?_ ?_ hr hes
  · intro _
    exact ⟨by decide, Or.inl ⟨rfl, rfl, rfl, rfl, by simp⟩⟩
  · intro es e m n _ ih hn hes
    have he : e.InSession u := hes e (by simp)
    obtain ⟨hindex, hstate⟩ := ih fun e' he' => hes e' (List.mem_append_left _ he')
    refine ⟨index_step hindex he hn, ?_⟩
    rcases hstate with hwaiting | hanswered
    · by_cases hcurrent : ∃ user, e = .currentUser user
      · obtain ⟨user, rfl⟩ := hcurrent
        obtain rfl : user = some u := he
        obtain ⟨_, rfl⟩ := step_currentUser.mp hn
        exact Or.inr (answered_of_waiting hwaiting)
      · exact Or.inl (waiting_step hwaiting hindex (not_exists.mp hcurrent) hn)
    · exact Or.inr (answered_step hanswered hindex hn)

/-- Once everything has completed, the page displayed is bound to the signed-in
user exactly when a build came after the completion of `currentUser()`. -/
theorem bound_iff_refreshed {u : Text} {i : Option Nat} {es : List Event} {m : MainScreen}
    (hr : Foundation.run step (start i).1 es = some m) (hes : ∀ e ∈ es, e.InSession u)
    (hsettled : m.Settled) :
    BoundTo u m ↔ Refreshed es := by
  obtain ⟨hcurrent, _, hrebuild⟩ := hsettled
  obtain ⟨_, hwaiting | hanswered⟩ := waiting_or_answered hr hes
  · rw [hwaiting.pending] at hcurrent
    contradiction
  · rw [← hanswered.fresh, Fresh, hrebuild]
    simp only [Bool.false_eq_true, or_false, BoundTo, and_iff_left_iff_imp]
    intro hpage user huser
    rw [huser] at hpage
    exact HomeScreen.body_eq_friends.mpr (Option.some.inj hpage)

/-- The Chats item is tapped again after `currentUser()` has completed. -/
theorem bound_after_tap :
    ∃ m, Foundation.run step (start none).1 [.thenCallback, .frame,
        .currentUser (some (text "ann@mail.com")), .onTap 1, .frame] = some m ∧
      BoundTo (text "ann@mail.com") m :=
  ⟨_, rfl, (bound_iff_refreshed (i := none) rfl (by decide) (by decide)).mpr
    ⟨[.thenCallback, .frame], _, [.onTap 1, .frame], rfl, Or.inr ⟨.onTap 1, by simp, rfl⟩⟩⟩

/-- The callback and its build come first: the page keeps the null user. -/
theorem not_bound_of_late_answer :
    ∃ m, Foundation.run step (start none).1 [.thenCallback, .frame,
        .currentUser (some (text "ann@mail.com"))] = some m ∧
      m.Settled ∧ ¬ BoundTo (text "ann@mail.com") m :=
  ⟨_, rfl, by decide, fun h => absurd h.1 (by decide)⟩

end MainScreen

end Chatsy
