import Chatsy.Systems.Backend

/-!
# Discover presses and the emissions that follow them

Each press opens a subscription that is never cancelled. Every emission runs
the listener again on the list it has collected so far, and a pick calls
`addToFriends` and pushes a `MainScreen`. Emissions come in any order and
number to any of the open subscriptions, between the awaited writes of the
calls they have started.

## Implementation notes

The position is awaited between the press and the first emission. A press whose
screen has been disposed keeps its subscription and its calls, but its pushes
go through a context that is no longer mounted. `addToFriends` awaits the
future of the page once more; a page that was given a user is never given
another, so the user captured by the listener stands for both.
-/

namespace Chatsy

open DiscoverScreen

/-- One press of Discover: the route of its screen, what its listener has captured, whether
the screen is still mounted and the stream listened to, and the calls of `addToFriends` and
pushes of `MainScreen` it has made. -/
structure Press where
  route : Nat
  subscription : Subscription
  mounted : Bool
  listening : Bool
  calls : Nat
  pushes : Nat
  deriving DecidableEq, Repr

/-- Before its position has arrived a press has an empty list. -/
def Press.start (route : Nat) (user : Option Text) : Press :=
  ⟨route, ⟨user, []⟩, true, false, 0, 0⟩

/-- A press after its listener has run on one emission. -/
def Press.received (pr : Press) (event : List UserDoc) (draw : Nat) : Press :=
  match picked pr.subscription event draw with
  | some _ =>
      { pr with
        subscription := (listener pr.subscription event draw).1
        calls := pr.calls + 1
        pushes := if pr.mounted then pr.pushes + 1 else pr.pushes }
  | none => { pr with subscription := (listener pr.subscription event draw).1 }

/-- The press is still mounted if its route is kept. -/
def Press.keep (kept : Nat → Bool) (pr : Press) : Press :=
  { pr with mounted := pr.mounted && kept pr.route }

/-- The presses so far and the collections they write to. -/
structure Discovery where
  presses : List Press
  backend : Backend

namespace Discovery

/-- No press has been made. -/
def start (b : Backend) : Discovery := ⟨[], b⟩

/-- The steps of a device on its Discover page. -/
inductive Label
  | press (route : Nat) (user : Option Text)
  | located (p : Nat)
  | emit (p : Nat) (event : List UserDoc) (draw : Nat)
  | dispose (route : Nat)
  | write (call : Nat)
  | fail (call : Nat)
  deriving DecidableEq, Repr

/-- The backend after the listener of a press has run on one emission. -/
def called (b : Backend) (pr : Press) (event : List UserDoc) (draw : Nat) : Backend :=
  match picked pr.subscription event draw with
  | some (user, friendUser) => b.call user friendUser
  | none => b

/-- The screens of all routes but the kept ones are disposed. -/
def keepMounted (s : Discovery) (kept : Nat → Bool) : Discovery :=
  { s with presses := s.presses.map (Press.keep kept) }

def step (s : Discovery) : Label → Option Discovery
  | .press route user => some { s with presses := s.presses ++ [Press.start route user] }
  | .located p =>
      s.presses[p]?.bind fun pr =>
        if pr.listening then none
        else some { s with presses := s.presses.set p { pr with listening := true } }
  | .emit p event draw =>
      s.presses[p]?.bind fun pr =>
        if pr.listening then
          some { presses := s.presses.set p (pr.received event draw)
                 backend := called s.backend pr event draw }
        else none
  | .dispose route => some (s.keepMounted fun id => id ≠ route)
  | .write i => (Backend.step s.backend (.write i)).map fun b => { s with backend := b }
  | .fail i => (Backend.step s.backend (.fail i)).map fun b => { s with backend := b }

theorem subscription_received (pr : Press) (event : List UserDoc) (draw : Nat) :
    (pr.received event draw).subscription = (listener pr.subscription event draw).1 := by
  unfold Press.received
  cases picked pr.subscription event draw <;> rfl

theorem user_received (pr : Press) (event : List UserDoc) (draw : Nat) :
    (pr.received event draw).subscription.user = pr.subscription.user := by
  rw [subscription_received, listener_user]

theorem step_located {s t : Discovery} {p : Nat} :
    step s (.located p) = some t ↔ ∃ pr, s.presses[p]? = some pr ∧ pr.listening = false ∧
      t = { s with presses := s.presses.set p { pr with listening := true } } := by
  simp only [step, Option.bind_eq_some_iff]
  constructor
  · rintro ⟨pr, hpr, h⟩
    obtain ⟨hlistening, ht⟩ := Option.ite_none_left_eq_some.mp h
    exact ⟨pr, hpr, Bool.eq_false_iff.mpr hlistening, (Option.some.inj ht).symm⟩
  · rintro ⟨pr, hpr, hlistening, rfl⟩
    exact ⟨pr, hpr, by rw [if_neg (Bool.eq_false_iff.mp hlistening)]⟩

theorem step_emit {s t : Discovery} {p : Nat} {event : List UserDoc} {draw : Nat} :
    step s (.emit p event draw) = some t ↔
      ∃ pr, s.presses[p]? = some pr ∧ pr.listening = true ∧
        t = { presses := s.presses.set p (pr.received event draw)
              backend := called s.backend pr event draw } := by
  simp only [step, Option.bind_eq_some_iff]
  constructor
  · rintro ⟨pr, hpr, h⟩
    obtain ⟨hlistening, ht⟩ := Option.ite_none_right_eq_some.mp h
    exact ⟨pr, hpr, hlistening, (Option.some.inj ht).symm⟩
  · rintro ⟨pr, hpr, hlistening, rfl⟩
    exact ⟨pr, hpr, by rw [if_pos hlistening]⟩

/-- The label is an answer to a press, of the position or of the geoquery. -/
def Label.answers : Label → Bool
  | .located _ => true
  | .emit _ _ _ => true
  | _ => false

/-- An answer to a press makes at most one call, for the user of the press. -/
theorem exists_requests {s t : Discovery} {l : Label} (h : step s l = some t)
    (hl : l.answers = true) :
    ∃ ls, Foundation.run Backend.request s.backend ls = some t.backend ∧
      ∀ user friendUser, .addToFriends user friendUser ∈ ls →
        ∃ pr ∈ s.presses, pr.subscription.user = some user := by
  cases l with
  | press route user => exact Bool.noConfusion hl
  | located p =>
      obtain ⟨pr, _, _, rfl⟩ := step_located.mp h
      exact ⟨[], rfl, fun _ _ hmem => absurd hmem List.not_mem_nil⟩
  | emit p event draw =>
      obtain ⟨pr, hpr, _, rfl⟩ := step_emit.mp h
      unfold called
      split
      · next user friendUser hpick =>
        refine ⟨[.addToFriends user friendUser], rfl, fun v f hmem => ?_⟩
        obtain ⟨rfl, _⟩ := Backend.Label.addToFriends.inj (List.mem_singleton.mp hmem)
        exact ⟨pr, List.mem_of_getElem? hpr, (picked_eq_some.mp hpick).1⟩
      · exact ⟨[], rfl, fun _ _ hmem => absurd hmem List.not_mem_nil⟩
  | dispose route => exact Bool.noConfusion hl
  | write i => exact Bool.noConfusion hl
  | fail i => exact Bool.noConfusion hl

end Discovery

end Chatsy
