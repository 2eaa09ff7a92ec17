import Chatsy.Foundation.SortedSelection
import Chatsy.Systems.RoomPrivacy

/-!
# What the two sides of a conversation see

The abstract conversation of two users is the list of messages sent between
them, in increasing time, with the ones whose text is null left out. Each
viewer computes the room on their own, sorts its documents and filters them by
their converted strings. With room ids distinct and times distinct, the screen
shows the abstract conversation exactly when no message of it has the word
`null` for its text.
-/

namespace Chatsy.Conversation

open Foundation ChatScreen Backend Messages RoomPrivacy

/-- The messages between two users, in the order of the presses. -/
def conversation (u f : Text) (ms : List Message) : List Message :=
  ms.filter fun m => s(m.sender, m.receiver) = s(u, f)

/-- Messages by increasing time. -/
def inTimeOrder (ms : List Message) : List Message :=
  ms.insertionSort fun m n => m.time ≤ n.time

/-- The bubbles a viewer should see: each text that is not null, and whose it is. -/
def shown (viewer : Text) (ms : List Message) : List Bubble :=
  ms.filterMap fun m => m.text.map fun t => ⟨t, viewer = m.sender⟩

/-- Both screens show the conversation, and the same texts as each other. -/
def Delivered (s : Backend) (ms : List Message) (u f : Text) : Prop :=
  bubbles s.chats u f = shown u (inTimeOrder (conversation u f ms)) ∧
  bubbles s.chats f u = shown f (inTimeOrder (conversation u f ms)) ∧
  (bubbles s.chats u f).map Bubble.text = (bubbles s.chats f u).map Bubble.text

/-- No message between `u` and `f` reads as the word `null`, by its text or its sender. -/
def NoNullWord (ms : List Message) (u f : Text) : Prop :=
  ∀ m ∈ conversation u f ms, ∀ t, m.text = some t → m.sender ≠ text "null" ∧ t ≠ text "null"

instance (ms : List Message) (u f : Text) : Decidable (NoNullWord ms u f) :=
  decidable_of_iff (∀ m ∈ conversation u f ms, ∀ t ∈ m.text, m.sender ≠ text "null" ∧
    t ≠ text "null") Iff.rfl

instance : Std.Total fun m n : Message => m.time ≤ n.time := ⟨fun _ _ => Nat.le_total _ _⟩

instance : IsTrans Message fun m n => m.time ≤ n.time := ⟨fun _ _ _ => Nat.le_trans⟩

theorem mem_inTimeOrder {ms : List Message} {m : Message} : m ∈ inTimeOrder ms ↔ m ∈ ms :=
  List.mem_insertionSort _

theorem conversation_comm (u f : Text) (ms : List Message) :
    conversation u f ms = conversation f u ms := by
  simp only [conversation, Sym2.eq_swap (a := u)]

/-- The bubble that the builder makes of a message. -/
def messageBubble (viewer : Text) (m : Message) : Option Bubble :=
  if m.sender = text "null" ∨ toStringOrNull m.text = text "null" then none
  else some ⟨toStringOrNull m.text, viewer = m.sender⟩

theorem bubble_of_message {viewer : Text} {d : ChatDoc} {m : Message}
    (h : d.message? = some m) : bubble viewer d = messageBubble viewer m := by
  obtain ⟨hs, _, ht, _⟩ := message?_eq_some.mp h
  simp only [bubble, messageBubble, hs, ht, toStringOrNull_some]

theorem bubble_placeholder (viewer : Text) (id : DocId) :
    bubble viewer (DiscoverScreen.placeholder id) = none := rfl

/-- The bubble of a message, when it has one, is the one to be shown. -/
theorem messageBubble_eq {viewer : Text} {m : Message} (h : messageBubble viewer m ≠ none) :
    messageBubble viewer m = m.text.map fun t => ⟨t, viewer = m.sender⟩ := by
  unfold messageBubble at h ⊢
  cases ht : m.text with
  | none => exact absurd (if_pos (Or.inr (by rw [ht]; rfl))) h
  | some t =>
      have hnull : ¬ (m.sender = text "null" ∨ toStringOrNull m.text = text "null") :=
        fun hnull => h (if_pos hnull)
      rw [ht] at hnull
      exact if_neg hnull

/-- The builder shows a message as it should exactly when none of its strings is `null`. -/
theorem messageBubble_eq_iff {viewer : Text} {m : Message} :
    (messageBubble viewer m = m.text.map fun t => ⟨t, viewer = m.sender⟩) ↔
      ∀ t, m.text = some t → m.sender ≠ text "null" ∧ t ≠ text "null" := by
  constructor
  · intro h t ht
    have hshown : messageBubble viewer m ≠ none := by
      intro hnone
      rw [ht, hnone] at h
      exact Option.some_ne_none _ h.symm
    have hnull : ¬ (m.sender = text "null" ∨ toStringOrNull m.text = text "null") :=
      fun hnull => hshown (if_pos hnull)
    rw [ht, toStringOrNull_some] at hnull
    exact not_or.mp hnull
  · intro h
    cases ht : m.text with
    | none => exact if_pos (Or.inr (by rw [ht]; rfl))
    | some t =>
        have hnull : ¬ (m.sender = text "null" ∨ toStringOrNull m.text = text "null") := by
          rw [ht, toStringOrNull_some]
          exact not_or.mpr (h t ht)
        rw [messageBubble, if_neg hnull, ht, toStringOrNull_some, Option.map_some]

/-- In a room of users with distinct ids, the messages are those of the pair. -/
theorem filter_room_eq_conversation {U : Set Text} (hids : RoomIdsDistinct U)
    {ls : List Label} (hU : ∀ l ∈ ls, Within U l) {u f : Text} (hu : u ∈ U) (hf : f ∈ U)
    (huf : u ≠ f) :
    (sent ls).filter (roomOf · = getDocumentName u f) = conversation u f (sent ls) := by
  apply List.filter_congr
  intro m hm
  obtain ⟨hs, hr, hne⟩ := hU _ (mem_sent.mp hm)
  apply decide_eq_decide.mpr
  constructor
  · exact fun h => hids _ hs _ hr u hu f hf hne huf (Or.inl h)
  · intro h
    rcases Sym2.eq_iff.mp h with ⟨hsu, hrf⟩ | ⟨hsf, hru⟩
    · rw [roomOf, hsu, hrf]
    · rw [roomOf, hsf, hru, getDocumentName_comm]

/-- The screen shows the messages of its room, by time, each as the builder makes it. -/
theorem bubbles_eq_filterMap {s : Backend} {ls : List Label}
    (hr : run step empty ls = some s) (htimes : ((sent ls).map Message.time).Nodup)
    (viewer other : Text) :
    bubbles s.chats viewer other =
      (inTimeOrder ((sent ls).filter (roomOf · = getDocumentName viewer other))).filterMap
        (messageBubble viewer) := by
  have hrooms := inRooms_run hr (getDocumentName viewer other)
  have hdocs : ∀ d ∈ orderByTime (s.chats (getDocumentName viewer other)),
      bubble viewer d = d.message?.bind (messageBubble viewer) := by
    intro d hd
    cases hm : d.message? with
    | none =>
        obtain ⟨id, rfl⟩ := shaped_run hr _ d ((List.mem_insertionSort _).mp hd) hm
        exact bubble_placeholder viewer id
    | some m => exact bubble_of_message hm
  have hsort : (orderByTime (s.chats (getDocumentName viewer other))).filterMap
      ChatDoc.message? =
        inTimeOrder ((sent ls).filter (roomOf · = getDocumentName viewer other)) := by
    rw [← hrooms]
    apply filterMap_insertionSort
    · intro d m e n hd he hle
      rw [noLater, (message?_eq_some.mp hd).2.2.2, (message?_eq_some.mp he).2.2.2] at hle
      exact hle
    · intro m hm n hn hmn hnm
      rw [hrooms] at hm hn
      exact List.inj_on_of_nodup_map htimes (List.mem_of_mem_filter hm)
        (List.mem_of_mem_filter hn) (Nat.le_antisymm hmn hnm)
  rw [bubbles, listView_eq_filterMap, List.filterMap_congr hdocs, ← hsort,
    List.filterMap_filterMap]

/-- One screen shows the conversation exactly when no message of it reads as `null`. -/
theorem bubbles_eq_shown_iff {U : Set Text} (hids : RoomIdsDistinct U) {ls : List Label}
    (hU : ∀ l ∈ ls, Within U l) {s : Backend} (hr : run step empty ls = some s)
    (htimes : ((sent ls).map Message.time).Nodup) {u f : Text} (hu : u ∈ U) (hf : f ∈ U)
    (huf : u ≠ f) :
    bubbles s.chats u f = shown u (inTimeOrder (conversation u f (sent ls))) ↔
      NoNullWord (sent ls) u f := by
  rw [bubbles_eq_filterMap hr htimes, filter_room_eq_conversation hids hU hu hf huf, shown,
    filterMap_eq_filterMap_iff fun m => messageBubble_eq]
  simp only [mem_inTimeOrder, messageBubble_eq_iff, NoNullWord]

theorem map_text_shown (viewer : Text) (ms : List Message) :
    (shown viewer ms).map Bubble.text = ms.filterMap Message.text := by
  simp only [shown, List.map_filterMap, Option.map_map]
  exact List.filterMap_congr fun m _ => by cases m.text <;> rfl

/-- Messages are delivered to both screens, completely, once and in order,
exactly when none of them reads as the word `null`. -/
theorem delivered_iff {U : Set Text} (hids : RoomIdsDistinct U) {ls : List Label}
    (hU : ∀ l ∈ ls, Within U l) {s : Backend} (hr : run step empty ls = some s)
    (htimes : ((sent ls).map Message.time).Nodup) {u f : Text} (hu : u ∈ U) (hf : f ∈ U)
    (huf : u ≠ f) :
    Delivered s (sent ls) u f ↔ NoNullWord (sent ls) u f := by
  have hu_iff := bubbles_eq_shown_iff hids hU hr htimes hu hf huf
  have hf_iff := bubbles_eq_shown_iff hids hU hr htimes hf hu huf.symm
  rw [← conversation_comm u f] at hf_iff
  constructor
  · exact fun h => hu_iff.mp h.1
  · intro h
    have hf' : NoNullWord (sent ls) f u := by
      rw [NoNullWord, ← conversation_comm u f]
      exact h
    refine ⟨hu_iff.mpr h, hf_iff.mpr hf', ?_⟩
    rw [hu_iff.mpr h, hf_iff.mpr hf', map_text_shown, map_text_shown]

/-- Users with addresses of one length have distinct rooms. -/
theorem roomIdsDistinct_of_length {U : Set Text} {n : Nat} (hU : ∀ a ∈ U, a.length = n) :
    RoomIdsDistinct U := by
  apply (roomIdsDistinct_iff_not_overlap U).mpr
  apply not_overlap_of_prefixFree
  intro a ha w haw
  have hlength := hU _ haw
  rw [List.length_append, hU a ha] at hlength
  exact List.length_eq_zero_iff.mp (by omega)

/-- The room ids of `ann` and `bob` are distinct. -/
theorem roomIdsDistinct_ann_bob :
    RoomIdsDistinct {text "ann@mail.com", text "bob@mail.com"} := by
  apply roomIdsDistinct_of_length (n := 12)
  rintro a (rfl | rfl) <;> decide

/-- `ann` and `bob` become friends and write to each other, once with a null text. -/
def annAndBob : List Label :=
  [.addToFriends (text "ann@mail.com") (text "bob@mail.com"), .write 0, .write 0,
    .send (text "ann@mail.com") (text "bob@mail.com") (some (text "hi")) 2, .write 0,
    .send (text "bob@mail.com") (text "ann@mail.com") (some (text "yo")) 1,
    .send (text "bob@mail.com") (text "ann@mail.com") none 3]

theorem ann_bob_delivered :
    ∃ s, run step empty annAndBob = some s ∧
      Delivered s (sent annAndBob) (text "ann@mail.com") (text "bob@mail.com") := by
  have hwithin : ∀ l ∈ annAndBob, Within {text "ann@mail.com", text "bob@mail.com"} l := by
    have hne : text "ann@mail.com" ≠ text "bob@mail.com" := by decide
    intro l hl
    simp only [annAndBob, List.mem_cons, List.not_mem_nil, or_false] at hl
    rcases hl with rfl | rfl | rfl | rfl | rfl | rfl | rfl
    · exact ⟨Or.inl rfl, Or.inr rfl, hne⟩
    · trivial
    · trivial
    · exact ⟨Or.inl rfl, Or.inr rfl, hne⟩
    · trivial
    · exact ⟨Or.inr rfl, Or.inl rfl, hne.symm⟩
    · exact ⟨Or.inr rfl, Or.inl rfl, hne.symm⟩
  have hword : NoNullWord (sent annAndBob) (text "ann@mail.com") (text "bob@mail.com") := by
    decide
  exact ⟨_, rfl, (delivered_iff roomIdsDistinct_ann_bob hwithin rfl (by decide) (Or.inl rfl)
    (Or.inr rfl) (by decide)).mpr hword⟩

/-- `ann` sends the word `null`. -/
def nullWord : List Label :=
  [.send (text "ann@mail.com") (text "bob@mail.com") (some (text "null")) 1]

/-- The room ids and the times are distinct, and no screen shows the word `null`. -/
theorem null_word_not_delivered :
    RoomIdsDistinct {text "ann@mail.com", text "bob@mail.com"} ∧
      (∀ l ∈ nullWord, Within {text "ann@mail.com", text "bob@mail.com"} l) ∧
      ((sent nullWord).map Message.time).Nodup ∧
      ∃ s, run step empty nullWord = some s ∧
        ¬ Delivered s (sent nullWord) (text "ann@mail.com") (text "bob@mail.com") := by
  refine ⟨roomIdsDistinct_ann_bob, ?_, by decide, _, rfl, fun h => ?_⟩
  · intro l hl
    obtain rfl := List.mem_singleton.mp hl
    exact ⟨Or.inl rfl, Or.inr rfl, by decide⟩
  · exact absurd h.1 (by decide)

end Chatsy.Conversation
