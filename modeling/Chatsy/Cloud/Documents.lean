import Chatsy.Cloud.Paths
import Mathlib.Data.Rat.Defs

/-!
# Firestore documents the app reads and writes

Collections `User`, `User/<email>/friends` and `chatroom/<id>/chats`. A field
that a document lacks and a field that holds null read the same through
`documents[i]["field"]`, so both are `none`.

## Implementation notes

Firestore draws a fresh id for every `add` and every `document()`. The model
names such a document by the write that created it: the number of the
`addToFriends` call together with the write inside that call, or the number of
the Send press. A registration can create a document of a friends collection
under an id that was typed; nobody types an id that Firestore has drawn.
-/

namespace Chatsy

/-- The three awaited writes of one `addToFriends` call, in source order. -/
inductive FriendWrite
  | own
  | friend
  | room
  deriving DecidableEq, Repr

/-- The identity of a document: created under an automatic id, or under an id that was typed. -/
inductive DocId
  | call (number : Nat) (write : FriendWrite)
  | send (number : Nat)
  | typed (id : Text)
  deriving DecidableEq, Repr

/-- A document of `User/<email>/friends`. -/
structure FriendDoc where
  id : DocId
  name : Text
  deriving DecidableEq, Repr

/-- A document of `chatroom/<id>/chats`. -/
structure ChatDoc where
  id : DocId
  sender : Option Text
  receiver : Option Text
  text : Option Text
  time : Option Nat
  deriving DecidableEq, Repr

/-- The geo point of `GeoFirePoint.data`. -/
structure GeoPoint where
  latitude : ℚ
  longitude : ℚ
  deriving DecidableEq, Repr

/-- A document of `User`. -/
structure UserDoc where
  name : Option Text
  gender : Option Text
  email : Option Text
  location : Option GeoPoint
  deriving DecidableEq, Repr

/-- The documents that registrations write, by their paths: those of `User`, and any below them. -/
abbrev Documents := Path → Option UserDoc

end Chatsy
