import Chatsy.Systems.ExactlyOnce
import Chatsy.Systems.World

/-!
# What the servers can come to hold

Along every run of every number of phones in which no address is registered with
a slash, a friends entry joins an account and an address with a profile, never
one user with themselves, and each document of a chat room belongs to two such
friends. The privacy of the rooms and the delivery of the messages, proved for
the stores alone, thereby hold of the phones.
-/

namespace Chatsy.World

open Foundation DiscoverScreen ChatScreen Friendship

variable {norm : Text → Text} {n : Nat} {ls : List Label} {w : World}

/-- What a run has asked of the backend is proper in the end. -/
theorem proper_of_asked (hr : run (step norm) (start n) ls = some w) (hls : Plain ls) :
    ∀ l, .backend l ∈ (toCloud norm).sent (start n) ls → Proper w.cloud l := by
  refine run_induction (step norm) (motive := fun ls w => Plain ls →
    ∀ l, .backend l ∈ (toCloud norm).sent (start n) ls → Proper w.cloud l) ?_ ?_ hr hls
  · exact fun _ l hl => absurd hl List.not_mem_nil
  · intro ls l w w' hw ih h hls l' hl'
    obtain ⟨hls, _⟩ := plain_concat.mp hls
    rw [Simulation.sent, trace_concat _ _ hw] at hl'
    rcases List.mem_append.mp hl' with hold | hnew
    · exact (ih hls l' hold).mono (grows_step h)
    · have hproper := proper_of_mem_requests (sound_run hw hls) (plainRegistry_run hw hls) h hnew
      exact hproper.mono (grows_step h)

/-- What a run has sent to the backend is proper in the end. -/
theorem proper_of_mem_sent (hr : run (step norm) (start n) ls = some w) (hls : Plain ls) :
    ∀ l ∈ (toBackend norm).sent (start n) ls, Proper w.cloud l := by
  intro l hl
  rw [toBackend, Simulation.sent_comp _ _ hr] at hl
  exact proper_of_asked hr hls l (Cloud.mem_of_mem_sent hl)

/-- In a reachable world the calls account for their documents. -/
theorem traced_of_run (hr : run (step norm) (start n) ls = some w) : w.cloud.backend.Traced :=
  Backend.traced_run ((toBackend norm).run_sent hr)

/-- A friends entry comes from a call for the two. -/
theorem exists_call_of_friend {b : Backend} (ht : b.Traced) {u : Text} {d : FriendDoc}
    (hd : d ∈ b.friends u) : ∃ i c, b.calls[i]? = some c ∧
      ((d.id = .call i .own ∧ c.user = u ∧ c.friendUser = d.name ∧ .own ∈ c.progress.written) ∨
        (d.id = .call i .friend ∧ c.friendUser = u ∧ c.user = d.name ∧
          .friend ∈ c.progress.written)) := by
  obtain ⟨i, c, w, hc, hw, hwrite⟩ := (ht (.addFriend u d) trivial).mp hd
  refine ⟨i, c, hc, ?_⟩
  cases w with
  | own =>
      obtain ⟨rfl, rfl⟩ := Write.addFriend.inj hwrite
      exact Or.inl ⟨rfl, rfl, rfl, hw⟩
  | friend =>
      obtain ⟨rfl, rfl⟩ := Write.addFriend.inj hwrite
      exact Or.inr ⟨rfl, rfl, rfl, hw⟩
  | room => exact Write.noConfusion hwrite

/-- Two friends are different, and both are registered. -/
theorem registered_of_hasFriend (hr : run (step norm) (start n) ls = some w) (hls : Plain ls)
    {u f : Text} (h : HasFriend w.cloud.backend u f) :
    Registered w.cloud u ∧ Registered w.cloud f ∧ u ≠ f := by
  obtain ⟨d, hd, rfl⟩ := h
  obtain ⟨i, c, hc, hcases⟩ := exists_call_of_friend (traced_of_run hr) hd
  obtain ⟨haccount, hprofile, hne⟩ := (sound_run hr hls).calls c (List.mem_of_getElem? hc)
  rcases hcases with ⟨_, rfl, hname, _⟩ | ⟨_, rfl, hname, _⟩
  · rw [← hname]
    exact ⟨Or.inl haccount, Or.inr hprofile, hne.symm⟩
  · rw [← hname]
    exact ⟨Or.inr hprofile, Or.inl haccount, hne⟩

/-- What is proper is between two registered users. -/
theorem within_of_proper (hr : run (step norm) (start n) ls = some w) (hls : Plain ls)
    {l : Backend.Label} (h : Proper w.cloud l) :
    RoomPrivacy.Within {a | Registered w.cloud a} l := by
  cases l with
  | addToFriends user friendUser => exact ⟨Or.inl h.1, Or.inr h.2.1, h.2.2.symm⟩
  | send user friendEmail message now => exact registered_of_hasFriend hr hls h.2
  | write i => trivial
  | fail i => trivial

/-- Whatever is sent to the backend is sent between two registered users. -/
theorem within_of_mem_sent (hr : run (step norm) (start n) ls = some w) (hls : Plain ls) :
    ∀ l ∈ (toBackend norm).sent (start n) ls,
      RoomPrivacy.Within {a | Registered w.cloud a} l :=
  fun l hl => within_of_proper hr hls (proper_of_mem_sent hr hls l hl)

/-- What is stored is what a run of the backend stores, in which accounts call for other addresses
with a profile and write to their friends, and nobody acts on themselves. -/
def ActsAsBackend (c : Cloud) : Prop :=
  (∀ u d, c.lists u d = true ↔ d ∈ c.backend.friends u) ∧
    ∃ ls, run Backend.step Backend.empty ls = some c.backend ∧
      ∀ l ∈ ls, Proper c l ∧ RoomPrivacy.Within {a | Registered c a} l

/-- The friends collections are those of the calls. -/
theorem lists_iff (hr : run (step norm) (start n) ls = some w) (hls : Plain ls) (u : Text)
    (d : FriendDoc) : w.cloud.lists u d = true ↔ d ∈ w.cloud.backend.friends u := by
  constructor
  · exact Cloud.mem_friends_of_lists (plainRegistry_run hr hls)
  · intro hd
    obtain ⟨i, c, _, ⟨hid, _⟩ | ⟨hid, _⟩⟩ := exists_call_of_friend (traced_of_run hr) hd
    · exact Cloud.lists_of_mem_friends hd hid
    · exact Cloud.lists_of_mem_friends hd hid

/-- The entry is the first or second write of a call, made by an account for another address with
a profile, and it stands in the collection of one of the two and names the other. -/
def EntryOfCall (c : Cloud) (u : Text) (d : FriendDoc) : Prop :=
  ∃ i call, c.backend.calls[i]? = some call ∧
    ((d.id = .call i .own ∧ call.user = u ∧ call.friendUser = d.name) ∨
      (d.id = .call i .friend ∧ call.friendUser = u ∧ call.user = d.name)) ∧
    call.user ∈ c.registry.accounts ∧ c.registry.HasProfile call.friendUser ∧
    call.friendUser ≠ call.user

/-- The document stands in the room of two different registered users, one of whom has the other
for a friend: it is a placeholder and they are friends of each other, or it is a message from an
account to its friend. -/
def BetweenFriends (c : Cloud) (room : Text) (d : ChatDoc) : Prop :=
  ∃ x y, room = getDocumentName x y ∧ x ≠ y ∧ x ∈ c.registry.accounts ∧ Registered c y ∧
    HasFriend c.backend x y ∧
    ((HasFriend c.backend y x ∧ ∃ id, d = placeholder id) ∨
      (d.sender = some x ∧ d.receiver = some y ∧ d.time.isSome = true))

/-- A user registers on a phone and logs in. -/
def signUp (k registration : Nat) (user : Text) : List Label :=
  [.phone k (.session .appStart), .phone k (.session .openRegistration),
    .phone k (.register [.name user, .email user, .password (text "secret")]),
    .phone k (.accountCreated registration), .phone k (.profileWritten registration),
    .phone k (.session (.loginPress user (text "secret"))),
    .phone k (.session .loginPrefsWritten), .phone k (.session (.signInSucceeds 0 user))]

/-- A `MainScreen` gets its user, shows the friends list and records the location. -/
def arrive (k id : Nat) (user : Text) : List Label :=
  [.phone k (.session (.main id (.currentUser (some user)))),
    .phone k (.session (.main id .thenCallback)), .phone k (.session (.main id .frame)),
    .phone k (.position id ⟨48, 16⟩)]

/-- `ann` and `bob` register on two phones, `ann` discovers `bob`, and she writes to him. -/
def annMeetsBob : List Label :=
  signUp 0 0 (text "ann@mail.com") ++ arrive 0 3 (text "ann@mail.com") ++
    (signUp 1 1 (text "bob@mail.com") ++ arrive 1 3 (text "bob@mail.com")) ++
    [.phone 0 (.session (.main 3 (.onTap 0))), .phone 0 (.session (.main 3 .frame)),
      .phone 0 .press, .phone 0 (.located 0),
      .phone 0 (.emit 0 [text "ann@mail.com", text "bob@mail.com"] 0), .phone 0 (.write 0),
      .phone 0 (.write 0), .phone 0 (.write 0)] ++
    arrive 0 4 (text "ann@mail.com") ++
    [.phone 0 (.tapTile [⟨.call 0 .own, text "bob@mail.com"⟩] 0),
      .phone 0 (.compose 0 (.edit (text "hi"))), .phone 0 (.compose 0 (.send 1))]

/-- What the run asks of the accounts and profiles. -/
def annAndBobRegister : List Registry.Label :=
  [.press [.name (text "ann@mail.com"), .email (text "ann@mail.com"), .password (text "secret")],
    .accountCreated 0, .profileWritten 0, .locate (text "ann@mail.com") ⟨48, 16⟩,
    .press [.name (text "bob@mail.com"), .email (text "bob@mail.com"), .password (text "secret")],
    .accountCreated 1, .profileWritten 1, .locate (text "bob@mail.com") ⟨48, 16⟩,
    .locate (text "ann@mail.com") ⟨48, 16⟩]

theorem sent_annMeetsBob :
    (toRegistry lowerCase).sent (start 2) annMeetsBob = annAndBobRegister := by
  decide +kernel

/-- Both registrations of the run have their profile written. -/
theorem written_of_created {k : Text} (h : Registry.Created lowerCase annAndBobRegister k) :
    Registry.Written annAndBobRegister (userPath k) := by
  obtain ⟨i, r, hmem, hr, rfl⟩ := h
  have hi : i = 0 ∨ i = 1 := by simpa [annAndBobRegister] using hmem
  rcases hi with rfl | rfl
  · obtain rfl := Option.some.inj hr
    exact ⟨0, _, by decide, rfl, by decide⟩
  · obtain rfl := Option.some.inj hr
    exact ⟨1, _, by decide, rfl, by decide⟩

/-- The rooms and friends collections of a reachable world are those of a proper run of the
backend. -/
theorem acts_as_backend (hr : run (step norm) (start n) ls = some w) (hls : Plain ls) :
    ActsAsBackend w.cloud :=
  ⟨lists_iff hr hls, _, (toBackend norm).run_sent hr,
    fun l hl => ⟨proper_of_mem_sent hr hls l hl, within_of_mem_sent hr hls l hl⟩⟩

theorem annMeetsBob_acts :
    ∃ w, run (step lowerCase) (start 2) annMeetsBob = some w ∧ ActsAsBackend w.cloud :=
  ⟨_, rfl, acts_as_backend (rfl : run (step lowerCase) (start 2) annMeetsBob = some _)
    (by decide)⟩

/-- However many phones interleave, each friends entry is one of the two that a proper call
writes. -/
theorem entries_of_calls (hr : run (step norm) (start n) ls = some w) (hls : Plain ls)
    (u : Text) : ∀ d, w.cloud.lists u d = true → EntryOfCall w.cloud u d := by
  intro d hd
  obtain ⟨i, c, hc, hcases⟩ :=
    exists_call_of_friend (traced_of_run hr) ((lists_iff hr hls u d).mp hd)
  refine ⟨i, c, hc, ?_, (sound_run hr hls).calls c (List.mem_of_getElem? hc)⟩
  rcases hcases with ⟨hid, hu, hname, _⟩ | ⟨hid, hu, hname, _⟩
  · exact Or.inl ⟨hid, hu, hname⟩
  · exact Or.inr ⟨hid, hu, hname⟩

theorem annMeetsBob_entries :
    ∃ w, run (step lowerCase) (start 2) annMeetsBob = some w ∧
      w.cloud.lists (text "bob@mail.com") ⟨.call 0 .friend, text "ann@mail.com"⟩ = true ∧
      ∀ d, w.cloud.lists (text "bob@mail.com") d = true →
        EntryOfCall w.cloud (text "bob@mail.com") d :=
  ⟨_, rfl, rfl, entries_of_calls (rfl : run (step lowerCase) (start 2) annMeetsBob = some _)
    (by decide) _⟩

/-- However many phones interleave, each document of a chat room is between two friends. -/
theorem rooms_between_friends (hr : run (step norm) (start n) ls = some w) (hls : Plain ls)
    (room : Text) : ∀ d ∈ w.cloud.backend.chats room, BetweenFriends w.cloud room d := by
  intro d hd
  have hrun := (toBackend norm).run_sent hr
  cases hm : d.message? with
  | none =>
      obtain ⟨i, c, hc, hreturned, rfl, rfl⟩ := ExactlyOnce.exists_call_of_placeholder hrun hd hm
      have hstored := holds_of_returned (traced_of_run hr) hc hreturned
      have hfriend : HasFriend w.cloud.backend c.user c.friendUser := ⟨_, hstored .own, rfl⟩
      obtain ⟨_, hregistered, hne⟩ := registered_of_hasFriend hr hls hfriend
      have haccount := ((sound_run hr hls).calls c (List.mem_of_getElem? hc)).1
      exact ⟨c.user, c.friendUser, RoomPrivacy.chatRoomName_eq_getDocumentName _ _, hne, haccount,
        hregistered, hfriend, Or.inl ⟨⟨_, hstored .friend, rfl⟩, _, rfl⟩⟩
  | some m =>
      obtain ⟨hsender, hreceiver, _, htime⟩ := Messages.message?_eq_some.mp hm
      obtain ⟨hsent, hroom⟩ := Messages.mem_sent_of_mem hrun hd hm
      obtain ⟨haccount, hfriend⟩ := proper_of_mem_sent hr hls _ (Messages.mem_sent.mp hsent)
      obtain ⟨_, hregistered, hne⟩ := registered_of_hasFriend hr hls hfriend
      exact ⟨m.sender, m.receiver, hroom.symm, hne, haccount, hregistered, hfriend,
        Or.inr ⟨hsender, hreceiver, by rw [htime]; rfl⟩⟩

theorem annMeetsBob_rooms :
    ∃ w, run (step lowerCase) (start 2) annMeetsBob = some w ∧
      (w.cloud.backend.chats (text "ann@mail.combob@mail.com")).length = 2 ∧
      ∀ d ∈ w.cloud.backend.chats (text "ann@mail.combob@mail.com"),
        BetweenFriends w.cloud (text "ann@mail.combob@mail.com") d :=
  ⟨_, rfl, rfl,
    rooms_between_friends (rfl : run (step lowerCase) (start 2) annMeetsBob = some _)
      (by decide) _⟩

/-- Every friend shown by anyone has a title exactly when the address of each account that has come
so far as to be entered by a call of its own leads to a profile. -/
theorem titles_found_iff (hr : run (step norm) (start n) ls = some w) (hls : Plain ls) :
    (∀ u d, w.cloud.lists u d = true →
      (HomeScreen.title w.cloud.registry.documents d.name).isSome = true) ↔
      ∀ c ∈ w.cloud.backend.calls, .friend ∈ c.progress.written →
        w.cloud.registry.HasDocument c.user := by
  have htitle : ∀ f, (HomeScreen.title w.cloud.registry.documents f).isSome = true ↔
      w.cloud.registry.HasDocument f := by
    intro f
    simp only [HomeScreen.title, Option.isSome_map, Option.isSome_iff_exists,
      Option.bind_eq_some_iff, Registry.HasDocument]
    exact ⟨fun ⟨d, path, hpath, hd⟩ => ⟨path, d, hpath, hd⟩,
      fun ⟨path, d, hpath, hd⟩ => ⟨d, path, hpath, hd⟩⟩
  simp only [htitle, lists_iff hr hls]
  constructor
  · intro h c hc hw
    obtain ⟨i, hi⟩ := List.mem_iff_getElem?.mp hc
    have hstored := (traced_of_run hr (c.write i .friend) trivial).mpr ⟨i, c, .friend, hi, hw, rfl⟩
    exact h c.friendUser _ hstored
  · intro h u d hd
    obtain ⟨i, c, hc, ⟨_, _, hname, _⟩ | ⟨_, _, hname, hw⟩⟩ :=
      exists_call_of_friend (traced_of_run hr) hd
    · rw [← hname]
      obtain ⟨_, hprofile, _⟩ := (sound_run hr hls).calls c (List.mem_of_getElem? hc)
      exact (plainRegistry_run hr hls).hasDocument hprofile
    · rw [← hname]
      exact h c (List.mem_of_getElem? hc) hw

theorem annMeetsBob_titles :
    ∃ w, run (step lowerCase) (start 2) annMeetsBob = some w ∧
      ∀ u d, w.cloud.lists u d = true →
        (HomeScreen.title w.cloud.registry.documents d.name).isSome = true := by
  have hr : run (step lowerCase) (start 2) annMeetsBob = some _ := rfl
  have hls : Plain annMeetsBob := by decide
  have hfollows := Registry.follows_run ((toRegistry lowerCase).run_sent hr)
  refine ⟨_, hr, (titles_found_iff hr hls).mpr fun c hc _ => ?_⟩
  apply (plainRegistry_run hr hls).hasDocument
  apply (hfollows.documents (userPath c.user)).mpr
  have haccount := (hfollows.accounts c.user).mp ((sound_run hr hls).calls c hc).1
  rw [sent_annMeetsBob] at haccount ⊢
  exact written_of_created haccount

/-- The registered addresses are those of the requests answered in the run. -/
theorem registered_iff (hr : run (step norm) (start n) ls = some w) (a : Text) :
    Registered w.cloud a ↔ Registry.Created norm ((toRegistry norm).sent (start n) ls) a ∨
      Registry.Written ((toRegistry norm).sent (start n) ls) (userPath a) := by
  have hfollows := Registry.follows_run ((toRegistry norm).run_sent hr)
  exact or_congr (hfollows.accounts a) (hfollows.documents (userPath a))

/-- The addresses of `ann` and `bob` are the only ones, and have no overlap. -/
theorem not_overlap_annMeetsBob (hr : run (step lowerCase) (start 2) annMeetsBob = some w) :
    ¬ Overlap {a | Registered w.cloud a} := by
  apply (RoomPrivacy.roomIdsDistinct_iff_not_overlap _).mp
  apply Conversation.roomIdsDistinct_of_length (n := 12)
  intro a ha
  have hkeys : ∀ r ∈ Registry.requests annAndBobRegister,
      userDocument r.setData.1 = some (userPath r.setData.1) ∧ r.setData.1.length = 12 ∧
        (lowerCase r.createUser.1).length = 12 := by decide
  change Registered w.cloud a at ha
  rw [registered_iff hr, sent_annMeetsBob] at ha
  rcases ha with ⟨i, r, _, hr, rfl⟩ | ⟨i, r, _, hr, ha⟩
  · exact (hkeys r (List.mem_of_getElem? hr)).2.2
  · obtain ⟨hpath, hlength, _⟩ := hkeys r (List.mem_of_getElem? hr)
    rw [← userPath_injective (Option.some.inj (hpath.symm.trans ha))]
    exact hlength

/-- As long as the registered addresses have no overlap, nobody is shown the messages of others,
whatever the phones do. -/
theorem world_private (hr : run (step norm) (start n) ls = some w) (hls : Plain ls)
    (hoverlap : ¬ Overlap {a | Registered w.cloud a}) :
    RoomPrivacy.Private {a | Registered w.cloud a} w.cloud.backend :=
  (RoomPrivacy.noLeak_iff_not_overlap _).mpr hoverlap _ _ (within_of_mem_sent hr hls)
    ((toBackend norm).run_sent hr)

theorem annMeetsBob_private :
    ∃ w, run (step lowerCase) (start 2) annMeetsBob = some w ∧
      RoomPrivacy.Private {a | Registered w.cloud a} w.cloud.backend := by
  have hr : run (step lowerCase) (start 2) annMeetsBob = some _ := rfl
  exact ⟨_, hr, world_private hr (by decide) (not_overlap_annMeetsBob hr)⟩

/-- The messages of the presses of Send in a run, in their order. -/
def posts (norm : Text → Text) (n : Nat) (ls : List Label) : List Message :=
  ((toCloud norm).sent (start n) ls).filterMap Request.message?

/-- The messages that the backend is sent are those of the presses whose room Firestore takes. -/
theorem sent_eq_filter_posts (hr : run (step norm) (start n) ls = some w) :
    Messages.sent ((toBackend norm).sent (start n) ls) =
      (posts norm n ls).filter fun m => (chatsCollection (Messages.roomOf m)).isSome := by
  rw [toBackend, Simulation.sent_comp _ _ hr]
  exact Cloud.messages_sent ((toCloud norm).run_sent hr)

/-- An account has no slash in its address, when none was typed and none comes from the
normalisation. -/
theorem slash_not_mem_account (hr : run (step norm) (start n) ls = some w) (hls : Plain ls)
    (hnorm : ∀ e, slash ∉ e → slash ∉ norm e) :
    ∀ k ∈ w.cloud.registry.accounts, slash ∉ k := by
  intro k hk
  have hfollows := Registry.follows_run ((toRegistry norm).run_sent hr)
  obtain ⟨i, r, _, hreq, rfl⟩ := (hfollows.accounts k).mp hk
  obtain ⟨l, hl, hlr⟩ := List.mem_filterMap.mp (List.mem_of_getElem? hreq)
  obtain ⟨pre, l', post, t, rfl, ht, hmem⟩ := exists_step_of_mem_trace _ _ hl
  obtain ⟨t', hstep, _⟩ := exists_step_of_split _ hr ht
  have hplain :=
    plain_of_mem_requests (hls l' (by simp)) hstep (Cloud.mem_of_mem_sent_registry hmem)
  exact hnorm _ (Registry.slash_not_mem_of_requested hplain hlr)

theorem slash_not_mem_registered (hr : run (step norm) (start n) ls = some w) (hls : Plain ls)
    (hnorm : ∀ e, slash ∉ e → slash ∉ norm e) {a : Text} (ha : Registered w.cloud a) :
    slash ∉ a := by
  rcases ha with haccount | ⟨d, hd⟩
  · exact slash_not_mem_account hr hls hnorm a haccount
  · obtain ⟨k, hslash, hpath, _⟩ := (plainRegistry_run hr hls).documents _ d hd
    rwa [userPath_injective hpath]

/-- Firestore takes the room of each message when no address has a slash. -/
theorem sent_eq_posts (hr : run (step norm) (start n) ls = some w) (hls : Plain ls)
    (hnorm : ∀ e, slash ∉ e → slash ∉ norm e) :
    Messages.sent ((toBackend norm).sent (start n) ls) = posts norm n ls := by
  rw [sent_eq_filter_posts hr]
  apply List.filter_eq_self.mpr
  intro m hm
  obtain ⟨r, hmem, hr'⟩ := List.mem_filterMap.mp hm
  obtain ⟨hsender, hreceiver, hne⟩ :=
    within_of_proper hr hls (proper_of_asked hr hls _ (Request.message?_eq_some.mp hr' ▸ hmem))
  apply isSome_chatsCollection
  · rw [Messages.roomOf, mem_getDocumentName, not_or]
    exact ⟨slash_not_mem_registered hr hls hnorm hsender,
      slash_not_mem_registered hr hls hnorm hreceiver⟩
  · intro hempty
    have hnone : ∀ u, u ∉ m.sender ∧ u ∉ m.receiver := by
      intro u
      rw [← not_or, ← mem_getDocumentName, ← Messages.roomOf, hempty]
      exact List.not_mem_nil
    apply hne
    rw [List.eq_nil_iff_forall_not_mem.mpr fun u => (hnone u).1,
      List.eq_nil_iff_forall_not_mem.mpr fun u => (hnone u).2]

/-- As long as the registered addresses have no overlap and the clocks of the messages differ, the
chat of two registered users shows the messages that one of them has sent to the other on some
phone, completely, once and by their times, exactly when none of them reads as the word `null`. -/
theorem world_conversation_iff (hr : run (step norm) (start n) ls = some w) (hls : Plain ls)
    (hnorm : ∀ e, slash ∉ e → slash ∉ norm e) (hoverlap : ¬ Overlap {a | Registered w.cloud a})
    (htimes : ((posts norm n ls).map Message.time).Nodup) {u f : Text}
    (hu : Registered w.cloud u) (hf : Registered w.cloud f) (huf : u ≠ f) :
    bubbles w.cloud.backend.chats u f =
        Conversation.shown u (Conversation.inTimeOrder
          (Conversation.conversation u f (posts norm n ls))) ↔
      Conversation.NoNullWord (posts norm n ls) u f := by
  have hposts := sent_eq_posts hr hls hnorm
  rw [← hposts] at htimes ⊢
  exact Conversation.bubbles_eq_shown_iff
    ((RoomPrivacy.roomIdsDistinct_iff_not_overlap _).mpr hoverlap)
    (within_of_mem_sent hr hls) ((toBackend norm).run_sent hr) htimes hu hf huf

theorem annMeetsBob_conversation :
    ∃ w, run (step lowerCase) (start 2) annMeetsBob = some w ∧
      bubbles w.cloud.backend.chats (text "bob@mail.com") (text "ann@mail.com") =
        Conversation.shown (text "bob@mail.com") (Conversation.inTimeOrder
          (Conversation.conversation (text "bob@mail.com") (text "ann@mail.com")
            (posts lowerCase 2 annMeetsBob))) := by
  have hr : run (step lowerCase) (start 2) annMeetsBob = some _ := rfl
  refine ⟨_, hr, (world_conversation_iff hr (by decide) (fun _ => slash_not_mem_lowerCase)
    (not_overlap_annMeetsBob hr) ?_ ?_ ?_ ?_).mpr ?_⟩
  · decide +kernel
  · rw [registered_iff hr, sent_annMeetsBob]
    exact Or.inl ⟨1, _, by decide, rfl, by decide⟩
  · rw [registered_iff hr, sent_annMeetsBob]
    exact Or.inl ⟨0, _, by decide, rfl, by decide⟩
  · decide
  · decide +kernel

end Chatsy.World
