import Chatsy.Foundation.Ledgers
import Chatsy.Systems.Friendship
import Chatsy.Systems.Messages

/-!
# Every write is stored exactly once

The writes of the calls and of the Send presses are made by many parties at a
time, on shared collections. The ledger of a state lists each write that a call
has performed, and the ledger of a run each press of Send. Whatever the
interleaving and the failures, every collection holds exactly the documents of
the two ledgers: none is lost, none is stored twice, and none comes from
elsewhere.
-/

namespace Chatsy.ExactlyOnce

open Foundation DiscoverScreen Backend

/-- The document that a write request puts into the friends collection of `k`. -/
def entry (k : Text) : Write → Option FriendDoc
  | .addFriend owner d => if owner = k then some d else none
  | .setChat _ _ => none

/-- The document that a write request puts into a chat room. -/
def letter (room : Text) : Write → Option ChatDoc
  | .addFriend _ _ => none
  | .setChat room' d => if room' = room then some d else none

/-- The writes that a call has performed. -/
def writes (c : Call) (i : Nat) : List Write := c.progress.written.map (c.write i)

/-- The writes that the calls of a state have performed. -/
def performed (s : Backend) : List Write := ledger writes s.calls

/-- The write of the `number`-th press of Send. -/
def posted (m : Message) (number : Nat) : List Write :=
  [sendWrite number m.sender m.receiver m.text m.time]

/-- The writes of the Send presses of a run. -/
def pressed (ls : List Label) : List Write := ledger posted (Messages.sent ls)

/-- The collections hold the documents of some writes, each as often as it is written. -/
structure Balanced (ws : List Write) (s : Backend) : Prop where
  friends : ∀ k, (s.friends k).Perm (ws.filterMap (entry k))
  chats : ∀ room, (s.chats room).Perm (ws.filterMap (letter room))

theorem Balanced.perm {ws ws' : List Write} {s : Backend} (h : Balanced ws s)
    (hws : ws.Perm ws') : Balanced ws' s where
  friends := fun k => (h.friends k).trans (hws.filterMap _)
  chats := fun room => (h.chats room).trans (hws.filterMap _)

theorem friends_apply (s : Backend) (wr : Write) (k : Text) :
    (s.apply wr).friends k = s.friends k ++ (entry k wr).toList := by
  cases wr with
  | addFriend owner d =>
      by_cases h : owner = k
      · subst h
        simp [apply, addDocument, entry]
      · simp [apply, addDocument, entry, h, Function.update_of_ne (Ne.symm h)]
  | setChat room d => exact (List.append_nil _).symm

theorem chats_apply (s : Backend) (wr : Write) (room : Text) :
    (s.apply wr).chats room = s.chats room ++ (letter room wr).toList := by
  cases wr with
  | addFriend owner d => exact (List.append_nil _).symm
  | setChat room' d =>
      by_cases h : room' = room
      · subst h
        simp [apply, addDocument, letter]
      · simp [apply, addDocument, letter, h, Function.update_of_ne (Ne.symm h)]

/-- A write that takes effect is one more. -/
theorem Balanced.apply {ws : List Write} {s : Backend} (h : Balanced ws s) (wr : Write) :
    Balanced (ws ++ [wr]) (s.apply wr) where
  friends := by
    intro k
    rw [friends_apply, filterMap_concat]
    exact (h.friends k).append_right _
  chats := by
    intro room
    rw [chats_apply, filterMap_concat]
    exact (h.chats room).append_right _

theorem performed_call (s : Backend) (user friendUser : Text) :
    performed (s.call user friendUser) = performed s := by
  rw [performed, call, ledger_concat]
  exact List.append_nil _

/-- The ledger after the awaited write of a call has succeeded. -/
theorem performed_write {s : Backend} {i : Nat} {c : Call} {w : FriendWrite}
    (hc : s.calls[i]? = some c) (hp : c.progress = .awaiting w) :
    (performed ((s.apply (c.write i w)).setProgress i c (next w))).Perm
      (performed s ++ [c.write i w]) := by
  have hitems : writes { c with progress := next w } i = writes c i ++ [c.write i w] := by
    rw [writes, writes, written_next, List.map_append, hp]
    rfl
  have hset := ledger_set writes hc hitems
  rwa [performed, setProgress, apply_calls]

theorem performed_fail {s : Backend} {i : Nat} {c : Call} {w : FriendWrite}
    (hc : s.calls[i]? = some c) (hp : c.progress = .awaiting w) :
    (performed (s.setProgress i c (.failed w))).Perm (performed s) := by
  have hitems : writes { c with progress := .failed w } i = writes c i ++ [] := by
    rw [writes, writes, hp, List.append_nil]
    rfl
  have hset := ledger_set writes hc hitems
  rwa [List.append_nil] at hset

/-- What the two ledgers say of a state and of the run that leads to it. -/
structure Follows (ls : List Label) (s : Backend) : Prop where
  sends : s.sends = (Messages.sent ls).length
  balanced : Balanced (performed s ++ pressed ls) s

theorem pressed_concat (ls : List Label) (l : Label) :
    pressed (ls ++ [l]) = pressed ls ++
      (Messages.ofLabel l).toList.flatMap fun m => posted m (Messages.sent ls).length := by
  rw [pressed, Messages.sent_concat]
  cases Messages.ofLabel l with
  | none => simp [pressed]
  | some m => simp [pressed, ledger_concat]

/-- A step of a call touches the ledger of the run no more than the order of the writes. -/
theorem follows_of_perm {ls : List Label} {t : Backend} {l : Label} {ws : List Write}
    (hsilent : Messages.ofLabel l = none) (hsends : t.sends = (Messages.sent ls).length)
    (hws : ws.Perm (performed t ++ pressed ls)) (hbalanced : Balanced ws t) :
    Follows (ls ++ [l]) t where
  sends := by rw [hsends, Messages.sent_concat, hsilent, Option.toList_none, List.append_nil]
  balanced := by
    rw [pressed_concat, hsilent, Option.toList_none, List.flatMap_nil, List.append_nil]
    exact hbalanced.perm hws

theorem follows_step {ls : List Label} {s t : Backend} {l : Label} (h : Follows ls s)
    (hl : step s l = some t) : Follows (ls ++ [l]) t := by
  cases l with
  | addToFriends user friendUser =>
      obtain rfl := Option.some.inj hl
      have hcalled : Balanced (performed s ++ pressed ls) (s.call user friendUser) :=
        ⟨h.balanced.friends, h.balanced.chats⟩
      refine follows_of_perm rfl h.sends ?_ hcalled
      rw [performed_call]
  | write i =>
      obtain ⟨c, w, hc, hp, rfl⟩ := step_write.mp hl
      have hwrite : Balanced (performed s ++ pressed ls ++ [c.write i w])
          ((s.apply (c.write i w)).setProgress i c (next w)) := by
        have happly := h.balanced.apply (c.write i w)
        exact ⟨happly.friends, happly.chats⟩
      refine follows_of_perm rfl ?_ ?_ hwrite
      · rw [← h.sends]
        cases w <;> rfl
      · calc
          performed s ++ pressed ls ++ [c.write i w]
          _ = performed s ++ (pressed ls ++ [c.write i w]) := List.append_assoc _ _ _
          (performed s ++ (pressed ls ++ [c.write i w])).Perm
              (performed s ++ ([c.write i w] ++ pressed ls)) :=
                List.Perm.append_left _ List.perm_append_comm
          _ = performed s ++ [c.write i w] ++ pressed ls := (List.append_assoc _ _ _).symm
          List.Perm _ (performed _ ++ pressed ls) :=
                (performed_write hc hp).symm.append_right _
  | fail i =>
      obtain ⟨c, w, hc, hp, rfl⟩ := step_fail.mp hl
      have hfailed : Balanced (performed s ++ pressed ls) (s.setProgress i c (.failed w)) :=
        ⟨h.balanced.friends, h.balanced.chats⟩
      exact follows_of_perm rfl h.sends ((performed_fail hc hp).symm.append_right _) hfailed
  | send user friendEmail message now =>
      obtain rfl := Option.some.inj hl
      have hsent : (Messages.sent (ls ++ [.send user friendEmail message now])).length =
          (Messages.sent ls).length + 1 := by
        rw [Messages.sent_concat, List.length_append]
        rfl
      refine ⟨by rw [hsent, ← h.sends]; rfl, ?_⟩
      rw [pressed_concat, ← List.append_assoc, ← h.sends]
      have hstart : Balanced (performed s ++ pressed ls)
          ({ s with sends := s.sends + 1 } : Backend) :=
        ⟨h.balanced.friends, h.balanced.chats⟩
      exact hstart.apply (sendWrite s.sends user friendEmail message now)

theorem follows_run {ls : List Label} {s : Backend} (hr : run step empty ls = some s) :
    Follows ls s := by
  refine run_induction step (motive := Follows) ⟨rfl, ?_⟩ ?_ hr
  · exact ⟨fun k => List.Perm.refl _, fun room => List.Perm.refl _⟩
  · exact fun ls l t u _ ih hu => follows_step ih hu

theorem nodup_written (p : Progress) : p.written.Nodup := by
  cases p with
  | awaiting w => cases w <;> decide
  | returned => decide
  | failed w => cases w <;> decide

/-- No write is performed twice. -/
theorem nodup_performed (s : Backend) : (performed s).Nodup := by
  apply nodup_ledger
  · intro i c _
    exact (nodup_written c.progress).map fun w v h => (Friendship.write_injective h).2
  · intro i j c d wr _ _ hwr hwr'
    obtain ⟨w, _, rfl⟩ := List.mem_map.mp hwr
    obtain ⟨v, _, hv⟩ := List.mem_map.mp hwr'
    exact (Friendship.write_injective hv.symm).1

/-- No two presses make the same write. -/
theorem nodup_pressed (ls : List Label) : (pressed ls).Nodup := by
  apply nodup_ledger
  · exact fun i m _ => List.nodup_singleton _
  · intro i j m m' wr _ _ hwr hwr'
    obtain rfl := List.mem_singleton.mp hwr
    have hsame := List.mem_singleton.mp hwr'
    have hid := congrArg ChatDoc.id (Write.setChat.inj hsame).2
    exact DocId.send.inj hid

/-- A call and a press make different writes. -/
theorem performed_disjoint_pressed (s : Backend) (ls : List Label) :
    ∀ wr ∈ performed s, ∀ wr' ∈ pressed ls, wr ≠ wr' := by
  rintro wr hwr _ hwr' rfl
  obtain ⟨i, c, _, hwr⟩ := (mem_ledger writes).mp hwr
  obtain ⟨w, _, rfl⟩ := List.mem_map.mp hwr
  obtain ⟨n, m, _, hsame⟩ := (mem_ledger posted).mp hwr'
  have hcall := ofCall_write c i w
  rw [List.mem_singleton.mp hsame] at hcall
  exact not_ofCall_sendWrite n m.sender m.receiver m.text m.time hcall

/-- A document without a message is the placeholder of a call that has returned. -/
theorem exists_call_of_placeholder {ls : List Label} {s : Backend}
    (hr : run step empty ls = some s) {room : Text} {d : ChatDoc} (hd : d ∈ s.chats room)
    (hm : d.message? = none) : ∃ i c, s.calls[i]? = some c ∧ c.progress = .returned ∧
      room = chatRoomName c.user c.friendUser ∧ d = placeholder (.call i .room) := by
  obtain ⟨wr, hwr, hletter⟩ :=
    List.mem_filterMap.mp (((follows_run hr).balanced.chats room).mem_iff.mp hd)
  rcases List.mem_append.mp hwr with hwr | hwr
  · obtain ⟨i, c, hc, hwr⟩ := (mem_ledger writes).mp hwr
    obtain ⟨w, hw, rfl⟩ := List.mem_map.mp hwr
    cases w with
    | own => exact absurd hletter (Option.some_ne_none d).symm
    | friend => exact absurd hletter (Option.some_ne_none d).symm
    | room =>
        obtain ⟨hroom, hplaceholder⟩ := Option.ite_none_right_eq_some.mp hletter
        refine ⟨i, c, hc, ?_, hroom.symm, (Option.some.inj hplaceholder).symm⟩
        cases hp : c.progress with
        | awaiting w => cases w <;> simp [hp, Progress.written, before] at hw
        | returned => rfl
        | failed w => cases w <;> simp [hp, Progress.written, before] at hw
  · obtain ⟨n, m, _, hwr⟩ := (mem_ledger posted).mp hwr
    obtain rfl := List.mem_singleton.mp hwr
    obtain ⟨_, hd⟩ := Option.ite_none_right_eq_some.mp hletter
    obtain rfl := Option.some.inj hd
    exact absurd hm (Option.some_ne_none _)

/-- After any interleaving of calls, failures and Send presses, the writes performed by the calls
and made by the presses are all different, and each friends collection and each chat room holds
exactly one document for each of them that is made to it, and no other. -/
theorem stored_exactly_once {ls : List Label} {s : Backend} (hr : run step empty ls = some s) :
    (performed s ++ pressed ls).Nodup ∧
      (∀ k, (s.friends k).Perm ((performed s ++ pressed ls).filterMap (entry k))) ∧
      ∀ room, (s.chats room).Perm ((performed s ++ pressed ls).filterMap (letter room)) := by
  refine ⟨List.nodup_append.mpr ?_, (follows_run hr).balanced.friends,
    (follows_run hr).balanced.chats⟩
  exact ⟨nodup_performed s, nodup_pressed ls, performed_disjoint_pressed s ls⟩

/-- `ann` befriends `bob` twice at a time, the second call fails on the way, and she writes to
him. -/
def twoCalls : List Label :=
  [.addToFriends (text "ann@mail.com") (text "bob@mail.com"),
    .addToFriends (text "ann@mail.com") (text "bob@mail.com"), .write 1, .write 0, .fail 1,
    .send (text "ann@mail.com") (text "bob@mail.com") (some (text "hi")) 1, .write 0, .write 0]

theorem two_calls_stored :
    ∃ s, run step empty twoCalls = some s ∧ (s.friends (text "ann@mail.com")).Perm
      ((performed s ++ pressed twoCalls).filterMap (entry (text "ann@mail.com"))) :=
  ⟨_, rfl, (stored_exactly_once (rfl : run step empty twoCalls = some _)).2.1 _⟩

end Chatsy.ExactlyOnce
