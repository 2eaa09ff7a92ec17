import Chatsy.Dart.Strings
import Chatsy.Foundation.Segments
import Mathlib.Data.Option.Basic

/-!
# Firestore paths

The app names a document or a collection by one string, into which it pastes an
address. The Firestore client refuses a string with two slashes in a row, cuts
any other at its slashes and skips the empty pieces, and then wants an even
number of segments for a document and an odd one for a collection. So an
address with a slash can name another document than its own, at another depth,
or none.

## Implementation notes

The client cuts the UTF-8 bytes of the string. The slash is one unit in both
encodings, so that the segments are the same. A request with a refused path
throws before anything is sent, and is a request that fails.
-/

namespace Chatsy

open Foundation

/-- The code unit of the slash. -/
def slash : CodeUnit := ⟨47, by decide⟩

/-- No capital letter becomes a slash. -/
theorem slash_not_mem_lowerCase {s : Text} (h : slash ∉ s) : slash ∉ lowerCase s := by
  intro hmem
  obtain ⟨u, hu, heq⟩ := List.mem_map.mp hmem
  split at heq
  · next hletter =>
    have hval : (u.val + 32) % 65536 = 47 := congrArg Fin.val heq
    omega
  · exact h (heq ▸ hu)

/-- The segments of a path, from the root. -/
abbrev Path := List Text

/-- `ResourcePath::FromString`. -/
def resourcePath (path : Text) : Option Path :=
  if Doubled slash path then none else some (segments slash path)

/-- The path of a `DocumentReference`. -/
def documentPath (path : Text) : Option Path :=
  (resourcePath path).filter fun segments => segments.length % 2 = 0

/-- The path of a `CollectionReference`. -/
def collectionPath (path : Text) : Option Path :=
  (resourcePath path).filter fun segments => segments.length % 2 = 1

/-- The path of a document of the collection `User`. -/
def userPath (id : Text) : Path := [text "User", id]

/-- The document `User/<email>`. -/
def userDocument (email : Text) : Option Path := documentPath (text "User/" ++ email)

/-- The collection `User/<email>/friends`. -/
def friendsCollection (email : Text) : Option Path :=
  collectionPath (text "User/" ++ email ++ text "/friends")

/-- The collection `chatroom/<room>/chats`. -/
def chatsCollection (room : Text) : Option Path :=
  collectionPath (text "chatroom/" ++ room ++ text "/chats")

theorem resourcePath_eq_some {path : Text} {p : Path} (h : resourcePath path = some p) :
    p = segments slash path := by
  obtain ⟨_, hp⟩ := Option.ite_none_left_eq_some.mp h
  exact (Option.some.inj hp).symm

/-- Paths of two segments are the same when their ids are. -/
theorem userPath_injective {id id' : Text} (h : userPath id = userPath id') : id = id' :=
  (List.cons.inj (List.cons.inj h).2).1

theorem head_ne_slash {xs : Text} (h : slash ∉ xs) (ys : Text) (hne : xs ≠ []) :
    (xs ++ ys).head? ≠ some slash := by
  cases xs with
  | nil => exact absurd rfl hne
  | cons x xs =>
      intro hx
      obtain rfl : x = slash := Option.some.inj hx
      exact h List.mem_cons_self

theorem segments_user {email : Text} (h : slash ∉ email) (hne : email ≠ []) :
    segments slash (text "User" ++ slash :: email) = userPath email := by
  rw [segments_append_cons, segments_of_not_mem h hne,
    segments_of_not_mem (by decide) (by decide)]
  rfl

/-- An address without a slash names the document that has it for its id. -/
theorem userDocument_of_slashless {email : Text} (h : slash ∉ email) :
    userDocument email = if email = [] then none else some (userPath email) := by
  by_cases hempty : email = []
  · subst hempty
    rfl
  · have hpath : text "User/" ++ email = text "User" ++ slash :: email := rfl
    have hdoubled : ¬ Doubled slash (text "User" ++ slash :: email) := by
      apply not_doubled_append_cons (by decide) (not_doubled_of_not_mem h)
      rw [← List.append_nil email]
      exact head_ne_slash h [] hempty
    rw [userDocument, hpath, documentPath, resourcePath, if_neg hdoubled,
      segments_user h hempty, if_neg hempty]
    simp [userPath]

/-- A slash at the end of such an address makes no difference. -/
theorem userDocument_concat_slash {email : Text} (h : slash ∉ email) (hne : email ≠ []) :
    userDocument (email ++ [slash]) = userDocument email := by
  have hpath : text "User/" ++ (email ++ [slash]) =
      (text "User" ++ slash :: email) ++ [slash] := by
    rw [List.append_assoc]
    rfl
  have hdoubled : ¬ Doubled slash ((text "User" ++ slash :: email) ++ [slash]) := by
    rw [List.append_assoc, List.cons_append]
    apply not_doubled_append_cons (by decide)
    · exact not_doubled_append_cons h (not_doubled_of_not_mem List.not_mem_nil) (by simp)
    · exact head_ne_slash h _ hne
  rw [userDocument_of_slashless h, if_neg hne, userDocument, hpath, documentPath, resourcePath,
    if_neg hdoubled, segments_concat, segments_user h hne]
  simp [userPath]

/-- Other slashes can lead below the profiles. -/
example : userDocument (text "ann@mail.com/friends/x") =
    (friendsCollection (text "ann@mail.com")).map (· ++ [text "x"]) := rfl

/-- A friends collection ends in its own name. -/
theorem getLast_friendsCollection {email : Text} {p : Path}
    (h : friendsCollection email = some p) : ∃ q, p = q ++ [text "friends"] := by
  obtain ⟨hp, _⟩ := Option.filter_eq_some_iff.mp h
  have hpath : text "User/" ++ email ++ text "/friends" =
      (text "User/" ++ email) ++ slash :: text "friends" := rfl
  rw [resourcePath_eq_some hp, hpath, segments_append_cons]
  exact ⟨_, rfl⟩

/-- No document of a friends collection is one of `User`. -/
theorem friendsCollection_ne_userPath {email id id' : Text} {p : Path}
    (h : friendsCollection email = some p) : p ++ [id] ≠ userPath id' := by
  obtain ⟨q, rfl⟩ := getLast_friendsCollection h
  intro heq
  have hpath : userPath id' = [text "User"] ++ [id'] := rfl
  rw [hpath] at heq
  have hfriends : q ++ [text "friends"] = [] ++ [text "User"] := (List.append_inj' heq rfl).1
  have hname := (List.append_inj' hfriends rfl).2
  exact absurd hname (by decide)

/-- Firestore takes the room of a name without a slash. -/
theorem isSome_chatsCollection {room : Text} (h : slash ∉ room) (hne : room ≠ []) :
    (chatsCollection room).isSome = true := by
  have hpath : text "chatroom/" ++ room ++ text "/chats" =
      text "chatroom" ++ slash :: (room ++ slash :: text "chats") := by
    change text "chatroom" ++ [slash] ++ room ++ slash :: text "chats" = _
    simp only [List.append_assoc, List.cons_append, List.nil_append]
  have hdoubled :
      ¬ Doubled slash (text "chatroom" ++ slash :: (room ++ slash :: text "chats")) := by
    apply not_doubled_append_cons (by decide)
    · exact not_doubled_append_cons h (not_doubled_of_not_mem (by decide)) (by decide)
    · exact head_ne_slash h _ hne
  have hsegments : segments slash (text "chatroom" ++ slash :: (room ++ slash :: text "chats")) =
      [text "chatroom", room, text "chats"] := by
    rw [segments_append_cons, segments_append_cons, segments_of_not_mem h hne,
      segments_of_not_mem (by decide) (by decide), segments_of_not_mem (by decide) (by decide)]
    rfl
  rw [chatsCollection, hpath, collectionPath, resourcePath, if_neg hdoubled, hsegments]
  simp

end Chatsy
