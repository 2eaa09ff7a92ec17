import Chatsy.Systems.Backend

/-!
# The messages behind the chat documents

Every chat document is either the placeholder of an `addToFriends` call or the
message of a Send press. The rooms hold, in the order of the presses, exactly
the messages whose pair has the room's id.
-/

namespace Chatsy

open Foundation DiscoverScreen ChatScreen Backend

/-- A message as its Send press saw it. -/
structure Message where
  sender : Text
  receiver : Text
  text : Option Text
  time : Nat
  deriving DecidableEq, Repr

/-- The message of a chat document; a placeholder has none. -/
def ChatDoc.message? (d : ChatDoc) : Option Message :=
  match d.sender, d.receiver, d.time with
  | some sender, some receiver, some time => some ⟨sender, receiver, d.text, time⟩
  | _, _, _ => none

namespace Messages

@[simp] theorem message?_placeholder (id : DocId) : (placeholder id).message? = none := rfl

@[simp] theorem message?_sendDocument (id : DocId) (user friendEmail : Text)
    (message : Option Text) (now : Nat) :
    (sendDocument id user friendEmail message now).message? =
      some ⟨user, friendEmail, message, now⟩ := rfl

theorem message?_eq_some {d : ChatDoc} {m : Message} :
    d.message? = some m ↔ d.sender = some m.sender ∧ d.receiver = some m.receiver ∧
      d.text = m.text ∧ d.time = some m.time := by
  cases m
  cases hs : d.sender <;> cases hr : d.receiver <;> cases ht : d.time <;>
    simp [ChatDoc.message?, hs, hr, ht]

/-- The message of a Send press. -/
def ofLabel : Label → Option Message
  | .send user friendEmail message now => some ⟨user, friendEmail, message, now⟩
  | _ => none

theorem ofLabel_eq_some {l : Label} {m : Message} :
    ofLabel l = some m ↔ l = .send m.sender m.receiver m.text m.time := by
  constructor
  · intro h
    cases l with
    | send user friendEmail message now =>
        obtain rfl := Option.some.inj h
        rfl
    | addToFriends _ _ => simp [ofLabel] at h
    | write _ => simp [ofLabel] at h
    | fail _ => simp [ofLabel] at h
  · rintro rfl
    rfl

/-- The messages sent in a run, in the order of the presses. -/
def sent (ls : List Label) : List Message := ls.filterMap ofLabel

theorem sent_concat (ls : List Label) (l : Label) :
    sent (ls ++ [l]) = sent ls ++ (ofLabel l).toList :=
  Foundation.filterMap_concat ofLabel ls l

theorem mem_sent {ls : List Label} {m : Message} :
    m ∈ sent ls ↔ .send m.sender m.receiver m.text m.time ∈ ls := by
  simp only [sent, List.mem_filterMap, ofLabel_eq_some, exists_eq_right]

/-- The room that a message is sent to and read from. -/
def roomOf (m : Message) : Text := getDocumentName m.sender m.receiver

/-- Each document without a message is a placeholder. -/
def Shaped (s : Backend) : Prop :=
  ∀ room, ∀ d ∈ s.chats room, d.message? = none → ∃ id, d = placeholder id

/-- The rooms hold the messages `ms`, each in its own room and in their order. -/
def InRooms (ms : List Message) (s : Backend) : Prop :=
  ∀ room, (s.chats room).filterMap ChatDoc.message? = ms.filter (roomOf · = room)

theorem shaped_apply {s : Backend} {wr : Write} (hs : Shaped s)
    (hwr : ∀ room d, wr = .setChat room d → d.message? = none → ∃ id, d = placeholder id) :
    Shaped (s.apply wr) := by
  intro room d hd hm
  rcases (holds_apply (v := .setChat room d)).mp hd with h | h
  · exact hs room d h hm
  · exact hwr room d h.symm hm

theorem shaped_step {s t : Backend} {l : Label} (hs : Shaped s) (hl : step s l = some t) :
    Shaped t := by
  cases l with
  | addToFriends user friendUser =>
      obtain rfl := Option.some.inj hl
      exact hs
  | write i =>
      obtain ⟨c, w, _, _, rfl⟩ := step_write.mp hl
      apply shaped_apply hs
      intro room d hwr _
      cases w with
      | own => exact Write.noConfusion hwr
      | friend => exact Write.noConfusion hwr
      | room => exact ⟨_, (Write.setChat.inj hwr).2.symm⟩
  | fail i =>
      obtain ⟨c, w, _, _, rfl⟩ := step_fail.mp hl
      exact hs
  | send user friendEmail message now =>
      obtain rfl := Option.some.inj hl
      apply shaped_apply (s := { s with sends := s.sends + 1 }) hs
      intro room d hwr hm
      obtain ⟨_, rfl⟩ := Write.setChat.inj hwr
      simp at hm

theorem inRooms_step {s t : Backend} {l : Label} {ms : List Message} (hs : InRooms ms s)
    (hl : step s l = some t) : InRooms (ms ++ (ofLabel l).toList) t := by
  intro room
  cases l with
  | addToFriends user friendUser =>
      obtain rfl := Option.some.inj hl
      simpa [ofLabel, call] using hs room
  | write i =>
      obtain ⟨c, w, _, _, rfl⟩ := step_write.mp hl
      simp only [ofLabel, Option.toList_none, List.append_nil, ← hs room]
      cases w with
      | own => rfl
      | friend => rfl
      | room =>
          refine (filterMap_addDocument _ _ _ _ _).trans ?_
          simp
  | fail i =>
      obtain ⟨c, w, _, _, rfl⟩ := step_fail.mp hl
      simpa [ofLabel, setProgress] using hs room
  | send user friendEmail message now =>
      obtain rfl := Option.some.inj hl
      rw [List.filter_append]
      refine (filterMap_addDocument _ _ _ _ _).trans (congrArg₂ (· ++ ·) (hs room) ?_)
      by_cases h : room = getDocumentName user friendEmail
      · simp [h, ofLabel, roomOf]
      · have h' : getDocumentName user friendEmail ≠ room := fun e => h e.symm
        simp [h, h', ofLabel, roomOf]

theorem shaped_run {s : Backend} {ls : List Label} (hr : run step empty ls = some s) :
    Shaped s :=
  run_preserves step (fun _ _ _ => shaped_step)
    (fun _ _ hd => absurd hd List.not_mem_nil) hr

/-- After any run the rooms hold exactly the messages sent in it. -/
theorem inRooms_run {s : Backend} {ls : List Label} (hr : run step empty ls = some s) :
    InRooms (sent ls) s := by
  refine run_induction step (motive := fun ls s => InRooms (sent ls) s) (fun _ => rfl) ?_ hr
  intro ls l t u _ ih hu
  rw [sent_concat]
  exact inRooms_step ih hu

/-- The message of a document was sent in the run, to the room of the document. -/
theorem mem_sent_of_mem {s : Backend} {ls : List Label} (hr : run step empty ls = some s)
    {room : Text} {d : ChatDoc} (hd : d ∈ s.chats room) {m : Message} (hm : d.message? = some m) :
    m ∈ sent ls ∧ roomOf m = room := by
  have hmem : m ∈ (sent ls).filter (roomOf · = room) :=
    inRooms_run hr room ▸ List.mem_filterMap.mpr ⟨d, hd, hm⟩
  obtain ⟨hsent, hroom⟩ := List.mem_filter.mp hmem
  exact ⟨hsent, of_decide_eq_true hroom⟩

/-- A document with a sender is a message sent in the run, in the room it was sent to. -/
theorem exists_sent_of_mem {s : Backend} {ls : List Label} (hr : run step empty ls = some s)
    {room : Text} {d : ChatDoc} (hd : d ∈ s.chats room) {x y : Text}
    (hx : d.sender = some x) (hy : d.receiver = some y) :
    ∃ m ∈ sent ls, m.sender = x ∧ m.receiver = y ∧ roomOf m = room := by
  cases hm : d.message? with
  | none =>
      obtain ⟨id, rfl⟩ := shaped_run hr room d hd hm
      simp [placeholder] at hx
  | some m =>
      obtain ⟨hsent, hroom⟩ := mem_sent_of_mem hr hd hm
      obtain ⟨hms, hmr, _⟩ := message?_eq_some.mp hm
      exact ⟨m, hsent, Option.some.inj (hms.symm.trans hx),
        Option.some.inj (hmr.symm.trans hy), hroom⟩

end Messages

end Chatsy
