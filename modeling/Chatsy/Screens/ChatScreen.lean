import Chatsy.Cloud.Documents
import Chatsy.Foundation.WordPairs

/-!
# ChatScreen: the room id, the message list and Send

`getDocumentName` names the chat room. The stream reads its `chats` collection
ordered by `time`; the builder copies texts and senders into two lists of
strings and shows one bubble for each index whose strings are not the word
`null`.
-/

namespace Chatsy.ChatScreen

/-- `getDocumentName`: the two addresses sorted and concatenated. -/
def getDocumentName (currentUser friendUser : Text) : Text :=
  let chatroomname := sortStrings [currentUser, friendUser]
  chatroomname.getD 0 [] ++ chatroomname.getD 1 []

theorem getDocumentName_eq_sortedJoin (a b : Text) :
    getDocumentName a b = Foundation.sortedJoin a b := by
  simp only [getDocumentName, sortStrings_pair, Foundation.sortedJoin]
  split <;> rfl

theorem getDocumentName_comm (a b : Text) : getDocumentName a b = getDocumentName b a := by
  rw [getDocumentName_eq_sortedJoin, getDocumentName_eq_sortedJoin,
    Foundation.sortedJoin_comm]

theorem mem_getDocumentName {u : CodeUnit} {a b : Text} :
    u ∈ getDocumentName a b ↔ u ∈ a ∨ u ∈ b := by
  rw [getDocumentName_eq_sortedJoin, Foundation.sortedJoin]
  split
  · exact List.mem_append
  · rw [List.mem_append, or_comm]

/-- Firestore's order on a field: null comes before every timestamp. -/
def timeLE : Option Nat → Option Nat → Prop
  | none, _ => True
  | some _, none => False
  | some s, some t => s ≤ t

instance : ∀ s t, Decidable (timeLE s t)
  | none, _ => isTrue trivial
  | some _, none => isFalse id
  | some s, some t => Nat.decLe s t

theorem timeLE_total (s t : Option Nat) : timeLE s t ∨ timeLE t s := by
  cases s <;> cases t <;> simp only [timeLE, true_or, or_true]
  exact Nat.le_total _ _

theorem timeLE_trans {s t u : Option Nat} (hst : timeLE s t) (htu : timeLE t u) :
    timeLE s u := by
  cases s <;> cases t <;> cases u <;> simp only [timeLE] at *
  exact hst.trans htu

/-- The order of two documents by their `time` field. -/
def noLater (a b : ChatDoc) : Prop := timeLE a.time b.time

instance : DecidableRel noLater := fun a b =>
  inferInstanceAs (Decidable (timeLE a.time b.time))

instance : Std.Total noLater := ⟨fun a b => timeLE_total a.time b.time⟩

instance : IsTrans ChatDoc noLater := ⟨fun _ _ _ => timeLE_trans⟩

/-- `.orderBy("time", descending: false)`. -/
def orderByTime (documents : List ChatDoc) : List ChatDoc := documents.insertionSort noLater

/-- A message bubble: its text, and whether margin and colour are those of the viewer. -/
structure Bubble where
  text : Text
  own : Bool
  deriving DecidableEq, Repr

/-- The list `messageText` that the builder fills. -/
def messageText (documents : List ChatDoc) : List Text :=
  documents.map fun d => toStringOrNull d.text

/-- The list `sender` that the builder fills. -/
def sender (documents : List ChatDoc) : List Text :=
  documents.map fun d => toStringOrNull d.sender

/-- `itemBuilder`: an empty container, or a bubble. -/
def itemBuilder (currentUser : Text) (sender messageText : List Text) (index : Nat) :
    Option Bubble :=
  if sender.getD index [] = text "null" ∨ messageText.getD index [] = text "null" then none
  else some ⟨messageText.getD index [], currentUser = sender.getD index []⟩

/-- The bubbles of the list view over one snapshot. -/
def listView (currentUser : Text) (documents : List ChatDoc) : List Bubble :=
  (List.range documents.length).filterMap
    (itemBuilder currentUser (sender documents) (messageText documents))

/-- The bubbles shown by the screen of `currentUser` opened on `friendEmail`. -/
def bubbles (chats : Text → List ChatDoc) (currentUser friendEmail : Text) : List Bubble :=
  listView currentUser (orderByTime (chats (getDocumentName currentUser friendEmail)))

/-- The document that a Send press adds. -/
def sendDocument (id : DocId) (user friendEmail : Text) (message : Option Text) (now : Nat) :
    ChatDoc where
  id := id
  sender := some user
  receiver := some friendEmail
  text := message
  time := some now

/-- The bubble of one document, if it has one. -/
def bubble (currentUser : Text) (d : ChatDoc) : Option Bubble :=
  if toStringOrNull d.sender = text "null" ∨ toStringOrNull d.text = text "null" then none
  else some ⟨toStringOrNull d.text, currentUser = toStringOrNull d.sender⟩

theorem itemBuilder_eq_bubble (currentUser : Text) {documents : List ChatDoc} {i : Nat}
    {d : ChatDoc} (h : documents[i]? = some d) :
    itemBuilder currentUser (sender documents) (messageText documents) i =
      bubble currentUser d := by
  simp only [itemBuilder, bubble, sender, messageText, List.getD_eq_getElem?_getD,
    List.getElem?_map, h, Option.map_some, Option.getD_some]

/-- The index loop shows each document's own bubble, in snapshot order. -/
theorem listView_eq_filterMap (currentUser : Text) (documents : List ChatDoc) :
    listView currentUser documents = documents.filterMap (bubble currentUser) := by
  have hmap : documents.map (bubble currentUser) =
      (List.range documents.length).map
        (itemBuilder currentUser (sender documents) (messageText documents)) := by
    apply List.ext_getElem (by simp)
    intro i hi _
    have hi' : i < documents.length := by simpa using hi
    simp only [List.getElem_map, List.getElem_range]
    exact (itemBuilder_eq_bubble currentUser (List.getElem?_eq_getElem hi')).symm
  calc
    listView currentUser documents =
        ((List.range documents.length).map
          (itemBuilder currentUser (sender documents) (messageText documents))).filterMap id := by
      simp only [listView, List.filterMap_map, Function.id_comp]
    _ = (documents.map (bubble currentUser)).filterMap id := by rw [hmap]
    _ = documents.filterMap (bubble currentUser) := by
      simp only [List.filterMap_map, Function.id_comp]

end Chatsy.ChatScreen
