import Chatsy.Cloud.Documents
import Chatsy.Foundation.WordPairs

/-!
# DiscoverScreen: the geoquery listener and addToFriends

A press of Discover runs `getRandomUser`, which opens a geoquery stream and
listens to it. The lists `randomUser` and `randomUserString` are created once
for each press, outside the listener, so every emission appends to the same
lists. The listener draws an index below the length of the current emission
minus one and hands the entry at that index to `addToFriends`.

## Implementation notes

`randomUser` holds the same addresses as `Text` widgets and is never read, so
only `randomUserString` is kept. The value drawn by `Random` is an input of the
listener: `nextInt max` answers every number below `max` for some draw.
-/

namespace Chatsy.DiscoverScreen

/-- What the captured variables of one press hold: the awaited user, which is
null when the page's future was, and the list filled by the listener. -/
structure Subscription where
  user : Option Text
  randomUserString : List Text
  deriving DecidableEq, Repr

/-- The ways the listener ends without a friend. -/
inductive ListenerError
  | noSuchMethod
  | nextIntRange (max : Int)
  | indexRange (index length : Nat)
  deriving DecidableEq, Repr

/-- `Random().nextInt(max)`: a range error unless `max` is positive. -/
def nextInt (max : Int) (draw : Nat) : Except ListenerError Nat :=
  if 0 < max then .ok (draw % max.toNat) else .error (.nextIntRange max)

/-- The loop over one emission: appends every e-mail but the user's own. -/
def collect (user : Text) (event : List UserDoc) (randomUserString : List Text) : List Text :=
  event.foldl (fun list d =>
    if toStringOrNull d.email ≠ user then list ++ [toStringOrNull d.email] else list)
    randomUserString

/-- `randomUserString[random]`. -/
def elementAt (list : List Text) (index : Nat) : Except ListenerError Text :=
  match list[index]? with
  | some friendUser => .ok friendUser
  | none => .error (.indexRange index list.length)

/-- The listener on one emission: the captured list afterwards, and the friend
passed to `addToFriends` or the error that ends it. With a null user the first
document already fails on `user.email`. -/
def listener (sub : Subscription) (event : List UserDoc) (draw : Nat) :
    Subscription × Except ListenerError Text :=
  match sub.user with
  | none =>
      match event with
      | [] => (sub, (nextInt (-1) draw).bind (elementAt sub.randomUserString))
      | _ :: _ => (sub, .error .noSuchMethod)
  | some user =>
      let randomUserString := collect user event sub.randomUserString
      ({ sub with randomUserString := randomUserString },
        (nextInt (event.length - 1) draw).bind (elementAt randomUserString))

/-- The other users of an emission, in its order. -/
def others (user : Text) (event : List UserDoc) : List Text :=
  (event.map fun d => toStringOrNull d.email).filter (· ≠ user)

theorem collect_eq_append (user : Text) (event : List UserDoc) (list : List Text) :
    collect user event list = list ++ others user event := by
  induction event generalizing list with
  | nil => simp [collect, others]
  | cons d event ih =>
      simp only [collect, List.foldl_cons] at ih ⊢
      rw [ih]
      by_cases h : toStringOrNull d.email = user <;>
        simp [others, h]

theorem others_append (user : Text) (event event' : List UserDoc) :
    others user (event ++ event') = others user event ++ others user event' := by
  simp only [others, List.map_append, List.filter_append]

/-- The call of `addToFriends` that the listener makes on an emission, with the user it is
made for. -/
def picked (sub : Subscription) (event : List UserDoc) (draw : Nat) : Option (Text × Text) :=
  match sub.user, (listener sub event draw).2 with
  | some user, .ok friendUser => some (user, friendUser)
  | _, _ => none

/-- The captured list after an emission. -/
theorem listener_fst {sub : Subscription} {user : Text} (h : sub.user = some user)
    (event : List UserDoc) (draw : Nat) :
    (listener sub event draw).1 =
      { sub with randomUserString := sub.randomUserString ++ others user event } := by
  simp only [listener, h, collect_eq_append]

/-- The listener never changes the captured user. -/
theorem listener_user (sub : Subscription) (event : List UserDoc) (draw : Nat) :
    (listener sub event draw).1.user = sub.user := by
  cases hsub : sub.user with
  | none => cases event <;> simp [listener, hsub]
  | some user => rw [listener_fst hsub]; exact hsub

theorem nextInt_eq_ok {length draw index : Nat} :
    nextInt (length - 1) draw = .ok index ↔ 2 ≤ length ∧ draw % (length - 1) = index := by
  unfold nextInt
  by_cases h : (0 : Int) < length - 1
  · have hnat : ((length : Int) - 1).toNat = length - 1 := by omega
    have htwo : 2 ≤ length := by omega
    simp only [if_pos h, hnat, htwo, true_and, Except.ok.injEq]
  · have htwo : ¬ 2 ≤ length := by omega
    rw [if_neg h]
    simp [htwo]

theorem elementAt_eq_ok {list : List Text} {index : Nat} {friendUser : Text} :
    elementAt list index = .ok friendUser ↔ list[index]? = some friendUser := by
  unfold elementAt
  cases list[index]? <;> simp

/-- The listener picks the drawn entry of everything it has collected, whenever the emission
has two documents and the entry is there. -/
theorem picked_eq_some {sub : Subscription} {event : List UserDoc} {draw : Nat}
    {user friendUser : Text} :
    picked sub event draw = some (user, friendUser) ↔
      sub.user = some user ∧ 2 ≤ event.length ∧
        (sub.randomUserString ++ others user event)[draw % (event.length - 1)]? =
          some friendUser := by
  cases hsub : sub.user with
  | none => simp [picked, hsub]
  | some user' =>
      have hbind : ∀ (x : Except ListenerError Nat) (f : Nat → Except ListenerError Text),
          x.bind f = .ok friendUser ↔ ∃ index, x = .ok index ∧ f index = .ok friendUser := by
        intro x f
        cases x <;> simp [Except.bind]
      have hlistener : (listener sub event draw).2 = .ok friendUser ↔
          2 ≤ event.length ∧
            (sub.randomUserString ++ others user' event)[draw % (event.length - 1)]? =
              some friendUser := by
        simp only [listener, hsub, collect_eq_append, hbind, nextInt_eq_ok, elementAt_eq_ok]
        constructor
        · rintro ⟨index, ⟨htwo, rfl⟩, hindex⟩
          exact ⟨htwo, hindex⟩
        · rintro ⟨htwo, hindex⟩
          exact ⟨_, ⟨htwo, rfl⟩, hindex⟩
      have hpicked : picked sub event draw = some (user, friendUser) ↔
          user' = user ∧ (listener sub event draw).2 = .ok friendUser := by
        unfold picked
        rw [hsub]
        cases (listener sub event draw).2 <;> simp
      rw [hpicked]
      constructor
      · rintro ⟨rfl, hok⟩
        exact ⟨rfl, hlistener.mp hok⟩
      · rintro ⟨huser, hok⟩
        obtain rfl := Option.some.inj huser
        exact ⟨rfl, hlistener.mpr hok⟩

/-- The room name computed inside `addToFriends`. -/
def chatRoomName (user friendUser : Text) : Text :=
  let chatRoomName := sortStrings [user, friendUser]
  chatRoomName.getD 0 [] ++ chatRoomName.getD 1 []

theorem chatRoomName_eq_sortedJoin (a b : Text) :
    chatRoomName a b = Foundation.sortedJoin a b := by
  simp only [chatRoomName, sortStrings_pair, Foundation.sortedJoin]
  split <;> rfl

theorem chatRoomName_comm (a b : Text) : chatRoomName a b = chatRoomName b a := by
  rw [chatRoomName_eq_sortedJoin, chatRoomName_eq_sortedJoin, Foundation.sortedJoin_comm]

/-- One write request: a new document of a friends collection or of a chat room. -/
inductive Write
  | addFriend (owner : Text) (d : FriendDoc)
  | setChat (room : Text) (d : ChatDoc)
  deriving DecidableEq, Repr

/-- The collection that a write goes to, unless Firestore refuses it. -/
def Write.collection : Write → Option Path
  | .addFriend owner _ => friendsCollection owner
  | .setChat room _ => chatsCollection room

/-- The placeholder document of a chat room. -/
def placeholder (id : DocId) : ChatDoc where
  id := id
  sender := none
  receiver := none
  text := none
  time := none

/-- The awaited writes of `addToFriends(friendUser)` for the signed-in `user`. -/
def addToFriends (number : Nat) (user friendUser : Text) : FriendWrite → Write
  | .own => .addFriend user ⟨.call number .own, friendUser⟩
  | .friend => .addFriend friendUser ⟨.call number .friend, user⟩
  | .room => .setChat (chatRoomName user friendUser) (placeholder (.call number .room))

/-- Where a call of `addToFriends` stands. -/
inductive Progress
  | awaiting (w : FriendWrite)
  | returned
  | failed (w : FriendWrite)
  deriving DecidableEq, Repr

/-- The call still awaits a write. -/
def Progress.inProgress : Progress → Bool
  | .awaiting _ => true
  | .returned => false
  | .failed _ => false

/-- The writes before a given one. -/
def before : FriendWrite → List FriendWrite
  | .own => []
  | .friend => [.own]
  | .room => [.own, .friend]

/-- The writes of a call that have taken effect. -/
def Progress.written : Progress → List FriendWrite
  | .awaiting w => before w
  | .returned => [.own, .friend, .room]
  | .failed w => before w

/-- The progress once the awaited write has succeeded. -/
def next : FriendWrite → Progress
  | .own => .awaiting .friend
  | .friend => .awaiting .room
  | .room => .returned

theorem written_next (w : FriendWrite) : (next w).written = before w ++ [w] := by
  cases w <;> rfl

/-- A call of `addToFriends`. -/
structure Call where
  user : Text
  friendUser : Text
  progress : Progress
  deriving DecidableEq, Repr

/-- The write a call performs at a given await. -/
def Call.write (c : Call) (number : Nat) (w : FriendWrite) : Write :=
  addToFriends number c.user c.friendUser w

end Chatsy.DiscoverScreen
