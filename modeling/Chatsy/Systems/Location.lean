import Chatsy.Screens.MainScreen
import Chatsy.Systems.Registration

/-!
# The location update of a new MainScreen

`initState` asks Firebase Auth for the current user and Geolocator for the
position side by side. The continuation of the position reads the field `user`
that the other answer fills, and does not wait for it: an answer of the position
that comes first finds null there, and nothing asks for the position again.

## Implementation notes

The update is sent by the continuation of the position and takes effect with
it. The other events of the screen come in any order between the two answers.
-/

namespace Chatsy

/-- A `MainScreen` with its open position request, whether `user.email` has been read from null,
and the profiles. -/
structure Locating where
  screen : MainScreen
  positionPending : Bool
  nullDereferenced : Bool
  users : Users

namespace Locating

open Foundation

/-- `initState`, over the profiles of that moment. -/
def start (transferIndex : Option Nat) (users : Users) : Locating where
  screen := (MainScreen.start transferIndex).1
  positionPending := true
  nullDereferenced := false
  users := users

/-- An event of the screen, or the answer of `getCurrentPosition()`. -/
inductive Event
  | screen (e : MainScreen.Event)
  | position (pos : GeoPoint)
  deriving DecidableEq, Repr

/-- `getCurrentLocation` after its first await. -/
def getCurrentLocation (s : Locating) (pos : GeoPoint) : Locating :=
  match s.screen.user with
  | some email => { s with users := Registry.updateLocation s.users email pos }
  | none => { s with nullDereferenced := true }

def step (s : Locating) : Event → Option Locating
  | .screen e => (MainScreen.step s.screen e).map fun m => { s with screen := m }
  | .position pos =>
      if s.positionPending then
        some (({ s with positionPending := false } : Locating).getCurrentLocation pos)
      else none

/-- The answer of `currentUser()` is the signed-in user `u`. -/
def Event.Answers (u : Text) : Event → Prop
  | .screen (.currentUser user) => user = some u
  | _ => True

/-- Both requests of `initState` have been answered. -/
def Completed (s : Locating) : Prop :=
  s.screen.currentUserPending = false ∧ s.positionPending = false

/-- Null was not dereferenced, and of the profiles only the location of `u` has changed, to the
position. -/
def Recorded (u : Text) (d : UserDoc) (pos : GeoPoint) (users : Users) (s : Locating) : Prop :=
  s.nullDereferenced = false ∧
    s.users = Function.update users u (some { d with location := some pos })

/-- `currentUser()` has answered among the events. -/
def Answered (es : List Event) : Prop := ∃ user, .screen (.currentUser user) ∈ es

/-- The position has answered after `currentUser()`. -/
def UserFirst (es : List Event) : Prop :=
  ∃ before e after, es = before ++ e :: after ∧ (∃ pos, e = .position pos) ∧ Answered before

theorem userFirst_concat {es : List Event} {e : Event} :
    UserFirst (es ++ [e]) ↔ ((∃ pos, e = .position pos) ∧ Answered es) ∨ UserFirst es :=
  exists_split_concat
    (p := fun before e _ => (∃ pos, e = Event.position pos) ∧ Answered before)

theorem answered_concat {es : List Event} {e : Event} :
    Answered (es ++ [e]) ↔ Answered es ∨ ∃ user, e = .screen (.currentUser user) := by
  simp only [Answered, List.mem_append, List.mem_singleton, exists_or]
  exact or_congr_right (exists_congr fun _ => eq_comm)

/-- What a run has done to the screen's user: nothing until `currentUser()` answers. -/
structure UserFollows (u : Text) (es : List Event) (s : Locating) : Prop where
  pending : s.screen.currentUserPending = true → s.screen.user = none ∧ ¬ Answered es
  answered : s.screen.currentUserPending = false → s.screen.user = some u ∧ Answered es

/-- What a run has done to the profiles: nothing until the position answers, and then by the user
known at that moment. -/
structure PositionFollows (u : Text) (d : UserDoc) (users : Users) (es : List Event)
    (s : Locating) : Prop where
  waiting : s.positionPending = true → (∀ pos, .position pos ∉ es) ∧ ¬ UserFirst es ∧
    s.users = users ∧ s.nullDereferenced = false
  located : s.positionPending = false → (s.nullDereferenced = false ↔ UserFirst es) ∧
    (UserFirst es → ∀ pos, .position pos ∈ es →
      s.users = Function.update users u (some { d with location := some pos }))

theorem userFollows_step {u : Text} {es : List Event} {s t : Locating} {e : Event}
    (h : UserFollows u es s) (he : e.Answers u) (ht : step s e = some t) :
    UserFollows u (es ++ [e]) t := by
  cases e with
  | screen e =>
      obtain ⟨m, hm, rfl⟩ := Option.map_eq_some_iff.mp ht
      by_cases hcurrent : ∃ user, e = .currentUser user
      · obtain ⟨user, rfl⟩ := hcurrent
        obtain rfl : user = some u := he
        obtain ⟨_, rfl⟩ := MainScreen.step_currentUser.mp hm
        exact ⟨fun hpending => Bool.noConfusion hpending,
          fun _ => ⟨rfl, answered_concat.mpr (Or.inr ⟨some u, rfl⟩)⟩⟩
      · have hne := not_exists.mp hcurrent
        obtain ⟨huser, hpending⟩ := MainScreen.user_step hne hm
        have hsame : Answered (es ++ [.screen e]) ↔ Answered es := by
          rw [answered_concat]
          exact or_iff_left fun ⟨user, heq⟩ => hne user (Event.screen.inj heq)
        constructor
        · intro hn
          rw [hsame, huser]
          exact h.pending (hpending ▸ hn)
        · intro hn
          rw [hsame, huser]
          exact h.answered (hpending ▸ hn)
  | position pos =>
      obtain ⟨_, rfl⟩ := guarded_eq_some.mp ht
      have hscreen : (({ s with positionPending := false } : Locating).getCurrentLocation
          pos).screen = s.screen := by
        unfold getCurrentLocation
        split <;> rfl
      have hsame : Answered (es ++ [.position pos]) ↔ Answered es := by
        rw [answered_concat]
        exact or_iff_left fun ⟨_, heq⟩ => Event.noConfusion heq
      constructor
      · rw [hscreen, hsame]
        exact h.pending
      · rw [hscreen, hsame]
        exact h.answered

theorem getCurrentLocation_of_none {s : Locating} (h : s.screen.user = none) (pos : GeoPoint) :
    s.getCurrentLocation pos = { s with nullDereferenced := true } := by
  rw [getCurrentLocation, h]

theorem getCurrentLocation_of_some {s : Locating} {u : Text} {d : UserDoc}
    (h : s.screen.user = some u) (hd : s.users u = some d) (pos : GeoPoint) :
    s.getCurrentLocation pos =
      { s with users := Function.update s.users u (some { d with location := some pos }) } := by
  simp only [getCurrentLocation, h, Registry.updateLocation, hd]

/-- The answer of the position, by the user known at that moment. -/
theorem positionFollows_position {u : Text} {d : UserDoc} {users : Users} (hd : users u = some d)
    {es : List Event} {s : Locating} {pos : GeoPoint} (h : PositionFollows u d users es s)
    (hu : UserFollows u es s) (hwaiting : s.positionPending = true) :
    PositionFollows u d users (es ++ [.position pos])
      (({ s with positionPending := false } : Locating).getCurrentLocation pos) := by
  obtain ⟨hnone, hnot, husers, hnull⟩ := h.waiting hwaiting
  have hfirst : UserFirst (es ++ [.position pos]) ↔ Answered es := by
    rw [userFirst_concat, or_iff_left hnot]
    exact and_iff_right ⟨pos, rfl⟩
  have hmem : ∀ p, Event.position p ∈ es ++ [.position pos] → p = pos := by
    intro p hp
    rcases List.mem_append.mp hp with hp | hp
    · exact absurd hp (hnone p)
    · exact Event.position.inj (List.mem_singleton.mp hp)
  cases hpending : s.screen.currentUserPending with
  | true =>
      obtain ⟨huser, hunanswered⟩ := hu.pending hpending
      rw [getCurrentLocation_of_none (s := { s with positionPending := false }) huser]
      refine ⟨fun hn => Bool.noConfusion hn, fun _ => ⟨?_, ?_⟩⟩
      · rw [hfirst]
        exact iff_of_false Bool.noConfusion hunanswered
      · intro hn
        exact absurd (hfirst.mp hn) hunanswered
  | false =>
      obtain ⟨huser, hanswered⟩ := hu.answered hpending
      rw [getCurrentLocation_of_some (s := { s with positionPending := false }) huser (husers ▸ hd)]
      refine ⟨fun hn => Bool.noConfusion hn, fun _ => ⟨?_, ?_⟩⟩
      · rw [hfirst]
        exact iff_of_true hnull hanswered
      · intro _ p hp
        rw [hmem p hp, husers]

theorem positionFollows_step {u : Text} {d : UserDoc} {users : Users} (hd : users u = some d)
    {es : List Event} {s t : Locating} {e : Event} (h : PositionFollows u d users es s)
    (hu : UserFollows u es s) (ht : step s e = some t) :
    PositionFollows u d users (es ++ [e]) t := by
  cases e with
  | screen e =>
      obtain ⟨m, hm, rfl⟩ := Option.map_eq_some_iff.mp ht
      have hfirst : UserFirst (es ++ [.screen e]) ↔ UserFirst es := by
        rw [userFirst_concat]
        exact or_iff_right fun ⟨⟨_, heq⟩, _⟩ => Event.noConfusion heq
      have hmem : ∀ pos, Event.position pos ∈ es ++ [.screen e] ↔ .position pos ∈ es := by simp
      constructor
      · simp only [hfirst, hmem]
        exact h.waiting
      · simp only [hfirst, hmem]
        exact h.located
  | position pos =>
      obtain ⟨hwaiting, rfl⟩ := guarded_eq_some.mp ht
      exact positionFollows_position hd h hu hwaiting

theorem follows_run {u : Text} {d : UserDoc} {users : Users} (hd : users u = some d)
    {i : Option Nat} {es : List Event} {s : Locating}
    (hr : run step (start i users) es = some s) (hes : ∀ e ∈ es, e.Answers u) :
    UserFollows u es s ∧ PositionFollows u d users es s := by
  refine run_induction step (motive := fun es s => (∀ e ∈ es, e.Answers u) →
    UserFollows u es s ∧ PositionFollows u d users es s) ?_ ?_ hr hes
  · intro _
    have hscreen := MainScreen.start_eq i
    have hnone : ¬ Answered [] := fun ⟨_, hmem⟩ => List.not_mem_nil hmem
    have hfirst : ¬ UserFirst [] := fun ⟨before, e, after, hsplit, _⟩ => by simp at hsplit
    refine ⟨⟨fun _ => ⟨?_, hnone⟩, fun hpending => ?_⟩,
      ⟨fun _ => ⟨fun _ => List.not_mem_nil, hfirst, rfl, rfl⟩, fun h => Bool.noConfusion h⟩⟩
    · rw [start, hscreen]
      rfl
    · rw [start, hscreen] at hpending
      exact Bool.noConfusion hpending
  · intro es e s t _ ih ht hes
    obtain ⟨huser, hposition⟩ := ih fun e' he' => hes e' (List.mem_append_left _ he')
    exact ⟨userFollows_step huser (hes e (by simp)) ht, positionFollows_step hd hposition huser ht⟩

/-- Once both requests have been answered, the position is recorded for the signed-in user
exactly when `currentUser()` has answered before the position. -/
theorem recorded_iff_userFirst {u : Text} {d : UserDoc} {users : Users} (hd : users u = some d)
    {i : Option Nat} {es : List Event} {s : Locating}
    (hr : run step (start i users) es = some s) (hes : ∀ e ∈ es, e.Answers u)
    (hcompleted : s.Completed) {pos : GeoPoint} (hpos : .position pos ∈ es) :
    Recorded u d pos users s ↔ UserFirst es := by
  obtain ⟨_, hposition⟩ := follows_run hd hr hes
  obtain ⟨hnull, husers⟩ := hposition.located hcompleted.2
  constructor
  · exact fun h => hnull.mp h.1
  · exact fun h => ⟨hnull.mpr h, husers h pos hpos⟩

/-- `currentUser()` answers before the position. -/
def annLocated : List Event :=
  [.screen .thenCallback, .screen (.currentUser (some (text "ann@mail.com"))), .screen .frame,
    .position ⟨50, 14⟩]

theorem ann_recorded :
    ∃ s, run step (start none RegistrationScreen.annOnly) annLocated = some s ∧
      Recorded (text "ann@mail.com")
        ⟨some (text "Ann"), some (text "FEMALE"), some (text "ann@mail.com"), some ⟨48, 16⟩⟩
        ⟨50, 14⟩ RegistrationScreen.annOnly s := by
  have hanswers : ∀ e ∈ annLocated, e.Answers (text "ann@mail.com") := by
    intro e he
    simp only [annLocated, List.mem_cons, List.not_mem_nil, or_false] at he
    rcases he with rfl | rfl | rfl | rfl
    · trivial
    · rfl
    · trivial
    · trivial
  exact ⟨_, rfl, (recorded_iff_userFirst rfl
    (rfl : run step (start none RegistrationScreen.annOnly) annLocated = some _) hanswers
    ⟨rfl, rfl⟩ (by decide)).mpr
      ⟨[.screen .thenCallback, .screen (.currentUser (some (text "ann@mail.com"))),
        .screen .frame], .position ⟨50, 14⟩, [], rfl, ⟨_, rfl⟩, some (text "ann@mail.com"),
        by decide⟩⟩

/-- The position answers first: null is dereferenced, and the location stays the old one. -/
theorem position_first :
    ∃ s, run step (start none RegistrationScreen.annOnly)
        [.position ⟨50, 14⟩, .screen (.currentUser (some (text "ann@mail.com")))] = some s ∧
      s.Completed ∧ s.nullDereferenced = true ∧
      s.users (text "ann@mail.com") = RegistrationScreen.annOnly (text "ann@mail.com") ∧
      ¬ Recorded (text "ann@mail.com")
        ⟨some (text "Ann"), some (text "FEMALE"), some (text "ann@mail.com"), some ⟨48, 16⟩⟩
        ⟨50, 14⟩ RegistrationScreen.annOnly s :=
  ⟨_, rfl, ⟨rfl, rfl⟩, rfl, rfl, fun h => Bool.noConfusion h.1⟩

end Locating

end Chatsy
