import Chatsy.Systems.Abandoned

/-!
# What the screens come to show

The friends list leaves rows out by their positions, but never a name: it shows
exactly the friends that some call has entered. A friendship can be seen from
one side only while every call between the two stands between its first and its
second write. What a chat has shown it shows from then on, in the same order,
whatever the phones do. So does a friends list, as long as no address is
registered with a slash: such a registration can replace a document of the list.
-/

namespace Chatsy.Shown

open Foundation DiscoverScreen HomeScreen ChatScreen Friendship

/-- A name is left out only where it repeats a row that is shown. -/
theorem mem_listView {documents : List FriendDoc} {f : Text} :
    f ∈ HomeScreen.listView documents ↔ f ∈ names documents := by
  constructor
  · intro h
    obtain ⟨index, _, htile⟩ := List.mem_filterMap.mp h
    obtain ⟨name, hname, hshown⟩ := Option.bind_eq_some_iff.mp htile
    obtain ⟨_, hsame⟩ := Option.ite_none_left_eq_some.mp hshown
    obtain rfl := Option.some.inj hsame
    exact List.mem_of_getElem? hname
  · intro h
    obtain ⟨i, hi⟩ := List.mem_iff_getElem?.mp h
    obtain ⟨k, _, hk, hfirst⟩ := exists_first hi
    have hlt : k < documents.length := by
      have hlength := (List.getElem?_eq_some_iff.mp hk).1
      rwa [names, List.length_map] at hlength
    have hallowed : k ∉ uniqueListTiles documents := by
      rw [mem_uniqueListTiles]
      rintro ⟨j, hrepeats, _⟩
      exact hfirst j hrepeats
    apply List.mem_filterMap.mpr
    refine ⟨k, List.mem_range.mpr hlt, ?_⟩
    rw [HomeScreen.itemBuilder, hk, Option.bind_some, if_neg hallowed]

/-- In any order of its documents, the list shows the friends of its user. -/
theorem mem_listView_iff_hasFriend {s : Backend} {u f : Text} {documents : List FriendDoc}
    (hd : documents.Perm (s.friends u)) :
    f ∈ HomeScreen.listView documents ↔ HasFriend s u f := by
  rw [mem_listView, names, List.mem_map]
  exact exists_congr fun d => and_congr_left' hd.mem_iff

/-- A call has entered `f` for `u`: one of `u` for `f` by its first write, or one of `f` for `u` by
its second. -/
def Entered (s : Backend) (u f : Text) : Prop :=
  ∃ c ∈ s.calls, (c.user = u ∧ c.friendUser = f ∧ .own ∈ c.progress.written) ∨
    (c.friendUser = u ∧ c.user = f ∧ .friend ∈ c.progress.written)

theorem hasFriend_iff_entered {s : Backend} (ht : s.Traced) {u f : Text} :
    HasFriend s u f ↔ Entered s u f := by
  constructor
  · rintro ⟨d, hd, rfl⟩
    obtain ⟨i, c, hc, hcases⟩ := World.exists_call_of_friend ht hd
    refine ⟨c, List.mem_of_getElem? hc, ?_⟩
    rcases hcases with ⟨_, hu, hname, hw⟩ | ⟨_, hu, hname, hw⟩
    · exact Or.inl ⟨hu, hname, hw⟩
    · exact Or.inr ⟨hu, hname, hw⟩
  · rintro ⟨c, hc, hcases⟩
    obtain ⟨i, hi⟩ := List.mem_iff_getElem?.mp hc
    rcases hcases with ⟨rfl, rfl, hw⟩ | ⟨rfl, rfl, hw⟩
    · exact ⟨_, (ht (c.write i .own) trivial).mpr ⟨i, c, .own, hi, hw, rfl⟩, rfl⟩
    · exact ⟨_, (ht (c.write i .friend) trivial).mpr ⟨i, c, .friend, hi, hw, rfl⟩, rfl⟩

/-- The second write of a call comes after its first. -/
theorem own_mem_written {p : Progress} (h : .friend ∈ p.written) : .own ∈ p.written := by
  cases p with
  | awaiting w => cases w <;> revert h <;> decide
  | returned => decide
  | failed w => cases w <;> revert h <;> decide

/-- After any interleaving of calls and failures, and in whatever order the documents come, the
friends list shows exactly the friends that some call has entered. -/
theorem listed_iff_entered {ls : List Backend.Label} {s : Backend}
    (hr : run Backend.step Backend.empty ls = some s) {u f : Text} {documents : List FriendDoc}
    (hd : documents.Perm (s.friends u)) :
    f ∈ HomeScreen.listView documents ↔ Entered s u f := by
  rw [mem_listView_iff_hasFriend hd]
  exact hasFriend_iff_entered (Backend.traced_run hr)

theorem two_calls_listed :
    ∃ s, run Backend.step Backend.empty ExactlyOnce.twoCalls = some s ∧
      text "bob@mail.com" ∈ HomeScreen.listView (s.friends (text "ann@mail.com")) := by
  refine ⟨_, rfl, ?_⟩
  apply (listed_iff_entered (rfl : run Backend.step Backend.empty ExactlyOnce.twoCalls = some _)
    (List.Perm.refl _)).mpr
  exact ⟨_, List.mem_cons_self, by decide⟩

/-- Whatever has been written between `u` and `f` are first writes of calls of `u`. -/
def OneSided (s : Backend) (u f : Text) : Prop :=
  (∃ c ∈ s.calls, c.user = u ∧ c.friendUser = f ∧ .own ∈ c.progress.written) ∧
    ∀ c ∈ s.calls, s(c.user, c.friendUser) = s(u, f) → .own ∈ c.progress.written →
      c.user = u ∧ .friend ∉ c.progress.written

/-- A snapshot of a friends list of a reachable world shows the friends. -/
theorem mem_listView_of_snapshot {norm : Text → Text} {n : Nat} {ls : List World.Label} {w : World}
    (hr : run (World.step norm) (World.start n) ls = some w) (hls : World.Plain ls) {u f : Text}
    {documents : List FriendDoc} (hd : w.cloud.Snapshot u documents) :
    f ∈ HomeScreen.listView documents ↔ HasFriend w.cloud.backend u f := by
  rw [mem_listView, names, List.mem_map]
  exact exists_congr fun d => and_congr_left' ((hd.2 d).trans (World.lists_iff hr hls u d))

/-- However many phones interleave, `u` is shown `f` and `f` is not shown `u` exactly when between
the two only calls of `u` have written, and each only its first write. -/
theorem one_sided_iff {norm : Text → Text} {n : Nat} {ls : List World.Label} {w : World}
    (hr : run (World.step norm) (World.start n) ls = some w) (hls : World.Plain ls) {u f : Text}
    {documents documents' : List FriendDoc} (hu : w.cloud.Snapshot u documents)
    (hf : w.cloud.Snapshot f documents') :
    (f ∈ HomeScreen.listView documents ∧ u ∉ HomeScreen.listView documents') ↔
      OneSided w.cloud.backend u f := by
  have ht := World.traced_of_run hr
  rw [mem_listView_of_snapshot hr hls hu, mem_listView_of_snapshot hr hls hf,
    hasFriend_iff_entered ht, hasFriend_iff_entered ht]
  constructor
  · rintro ⟨⟨c, hc, hcases⟩, hnot⟩
    constructor
    · rcases hcases with hown | ⟨hu, hf, hw⟩
      · exact ⟨c, hc, hown⟩
      · exact absurd ⟨c, hc, Or.inl ⟨hf, hu, own_mem_written hw⟩⟩ hnot
    · intro c hc hpair hw
      rcases Sym2.eq_iff.mp hpair with ⟨hu, hf⟩ | ⟨hf, hu⟩
      · exact ⟨hu, fun hfriend => hnot ⟨c, hc, Or.inr ⟨hf, hu, hfriend⟩⟩⟩
      · exact absurd ⟨c, hc, Or.inl ⟨hf, hu, hw⟩⟩ hnot
  · rintro ⟨⟨c, hc, hown⟩, hall⟩
    refine ⟨⟨c, hc, Or.inl hown⟩, ?_⟩
    rintro ⟨c', hc', ⟨hf, hu, hw⟩ | ⟨hf, hu, hw⟩⟩
    · obtain ⟨huser, _⟩ := hall c' hc' (Sym2.eq_iff.mpr (Or.inr ⟨hf, hu⟩)) hw
      exact ((World.sound_run hr hls).calls c' hc').2.2 (hu.trans huser.symm)
    · obtain ⟨_, hnot⟩ := hall c' hc' (Sym2.eq_iff.mpr (Or.inl ⟨hu, hf⟩)) (own_mem_written hw)
      exact hnot hw

/-- The entries of a reachable world, each once, are a snapshot. -/
theorem snapshot_friends {norm : Text → Text} {n : Nat} {ls : List World.Label} {w : World}
    (hr : run (World.step norm) (World.start n) ls = some w) (hls : World.Plain ls) (u : Text) :
    w.cloud.Snapshot u (w.cloud.backend.friends u).dedup :=
  ⟨List.nodup_dedup _, fun d => List.mem_dedup.trans (World.lists_iff hr hls u d).symm⟩

theorem annStarts_one_sided :
    ∃ w, run (World.step lowerCase) (World.start 2) World.annStarts = some w ∧
      text "bob@mail.com" ∈
        HomeScreen.listView (w.cloud.backend.friends (text "ann@mail.com")).dedup ∧
      text "ann@mail.com" ∉
        HomeScreen.listView (w.cloud.backend.friends (text "bob@mail.com")).dedup := by
  have hr : run (World.step lowerCase) (World.start 2) World.annStarts = some _ := rfl
  have hls : World.Plain World.annStarts := by decide
  refine ⟨_, hr, ?_⟩
  apply (one_sided_iff hr hls (snapshot_friends hr hls _) (snapshot_friends hr hls _)).mpr
  refine ⟨⟨_, List.mem_cons_self, by decide⟩, ?_⟩
  intro c hc
  obtain rfl := List.mem_singleton.mp hc
  decide

/-- A step of the backend only appends to a chat room. -/
theorem chats_step {s t : Backend} {l : Backend.Label} (h : Backend.step s l = some t)
    (room : Text) : s.chats room <+: t.chats room := by
  have happly : ∀ (s : Backend) (wr : Write), s.chats room <+: (s.apply wr).chats room := by
    intro s wr
    rw [ExactlyOnce.chats_apply]
    exact List.prefix_append _ _
  cases l with
  | addToFriends user friendUser =>
      obtain rfl := Option.some.inj h
      exact List.prefix_refl _
  | write i =>
      obtain ⟨c, wr, _, _, rfl⟩ := Backend.step_write.mp h
      exact happly s (c.write i wr)
  | fail i =>
      obtain ⟨c, wr, _, _, rfl⟩ := Backend.step_fail.mp h
      exact List.prefix_refl _
  | send user friendEmail message now =>
      obtain rfl := Option.some.inj h
      exact happly { s with sends := s.sends + 1 } _

/-- The bubbles over a longer room are those over the shorter one with others between them. -/
theorem bubbles_sublist {chats chats' : Text → List ChatDoc} {u f : Text}
    (h : chats (getDocumentName u f) <+: chats' (getDocumentName u f)) :
    (bubbles chats u f).Sublist (bubbles chats' u f) := by
  obtain ⟨more, hmore⟩ := h
  rw [bubbles, bubbles, listView_eq_filterMap, listView_eq_filterMap, orderByTime, orderByTime,
    ← hmore]
  exact (insertionSort_append_sublist _ more).filterMap _

/-- The bubbles of a later state are those of an earlier one and others between them. -/
def BubblesStay (s t : Backend) : Prop :=
  ∀ u f, (bubbles s.chats u f).Sublist (bubbles t.chats u f)

/-- The friends of an earlier state are shown in a later one, in whatever order the documents
come. -/
def FriendsStay (c c' : Cloud) : Prop :=
  ∀ u documents documents', c.Snapshot u documents → c'.Snapshot u documents' →
    HomeScreen.listView documents ⊆ HomeScreen.listView documents'

/-- What a screen has shown of the servers, it shows after every continuation of the run, a friends
list as long as no address is registered with a slash. -/
theorem shown_stays {norm : Text → Text} {n : Nat} {ls ms : List World.Label} {w w' : World}
    (hr : run (World.step norm) (World.start n) ls = some w)
    (hms : run (World.step norm) w ms = some w') :
    BubblesStay w.cloud.backend w'.cloud.backend ∧
      (World.Plain (ls ++ ms) → FriendsStay w.cloud w'.cloud) := by
  constructor
  · intro u f
    apply bubbles_sublist
    have hsent := (World.toBackend norm).run_sent hms
    exact run_preserves Backend.step
      (I := fun t => w.cloud.backend.chats _ <+: t.chats _)
      (fun _ _ _ ht hs => ht.trans (chats_step hs _)) (List.prefix_refl _) hsent
  · intro hplain u documents documents' hd hd' f hf
    have hr' := (run_append_eq_some (World.step norm)).mpr ⟨w, hr, hms⟩
    have hls : World.Plain ls := fun l hl => hplain l (List.mem_append_left ms hl)
    rw [mem_listView_of_snapshot hr hls hd] at hf
    rw [mem_listView_of_snapshot hr' hplain hd']
    exact (Cloud.grows_run ((World.toCloud norm).run_sent hms)).hasFriend hf

theorem annStarts_stays_shown :
    ∃ w w', run (World.step lowerCase) (World.start 2) World.annStarts = some w ∧
      run (World.step lowerCase) w [.phone 0 (.write 0), .phone 0 (.write 0)] = some w' ∧
      BubblesStay w.cloud.backend w'.cloud.backend ∧ FriendsStay w.cloud w'.cloud := by
  have hr : run (World.step lowerCase) (World.start 2)
      (World.annStarts ++ [.phone 0 (.write 0), .phone 0 (.write 0)]) = some _ := rfl
  obtain ⟨w, hw, hcontinued⟩ := (run_append_eq_some (World.step lowerCase)).mp hr
  obtain ⟨hbubbles, hfriends⟩ := shown_stays hw hcontinued
  exact ⟨w, _, hw, hcontinued, hbubbles, hfriends (by decide)⟩

end Chatsy.Shown
