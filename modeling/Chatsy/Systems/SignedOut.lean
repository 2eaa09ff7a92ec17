import Chatsy.Systems.Device
import Chatsy.Systems.Friendship

/-!
# What a sign-out leaves behind

Sign Out pushes a Welcome screen over the old stack and cancels nothing. What
the old session can still do is exactly what is left of it: a `MainScreen` that
no Welcome screen covers, an entry that a call of the user still awaits, a
subscription whose page is mounted or whose user is the one who signed out. A
device with none of these stays signed out along every run without a Login
press or an app start, and a device with one of them has a run that does not.

## Implementation notes

An entry whose path Firestore refuses is never written, so a call that awaits
one is as good as ended, and so is a press of a user whose friends collection is
refused.
-/

namespace Chatsy.Device

open Foundation DiscoverScreen

/-- The label is a Login press or an app start. -/
def Label.starts : Label → Bool
  | .session l => l.starts
  | _ => false

/-- The document was written by a call of `u`. -/
def WrittenFor (u : Text) (b : Backend) (d : FriendDoc) : Prop :=
  ∃ i w c, d.id = .call i w ∧ b.calls[i]? = some c ∧ c.user = u

/-- No `MainScreen` is on top, and calls of `u` have written no entry since `s`. -/
def StaysOut (u : Text) (s t : Device) : Prop :=
  t.session.showsMain = false ∧
  ∀ k, ∀ d ∈ t.discovery.backend.friends k, WrittenFor u t.discovery.backend d →
    d ∈ s.discovery.backend.friends k

/-- No call of `u`, of this process or an earlier one, awaits an entry that Firestore takes. -/
def NoEntryAwaited (u : Text) (b : Backend) : Prop :=
  ∀ (i : Nat) (c : Call), b.calls[i]? = some c → c.user = u →
    ∀ w, c.progress = .awaiting w → w = .room ∨ (c.write i w).collection = none

/-- Nothing is left of the session of `u`: no `MainScreen` above the topmost Welcome screen, no
entry awaited by a call of `u`, and no Discover press with a mounted page, or of `u` when Firestore
takes entries of `u`. -/
structure Hermetic (u : Text) (s : Device) : Prop where
  covered : s.session.exposed = false
  written : NoEntryAwaited u s.discovery.backend
  severed : ∀ pr ∈ s.discovery.presses, ∀ v, pr.subscription.user = some v →
    pr.mounted = false ∧ (v = u → friendsCollection u = none)

/-- The documents are those of the calls, and mounted presses have their page on the screen. -/
structure Sane (s : Device) : Prop where
  traced : s.discovery.backend.Traced
  seated : ∀ pr ∈ s.discovery.presses, pr.mounted = true →
    s.session.showsDiscover pr.route = true

/-- Answered or not, a press keeps its route, its user and its mount. -/
theorem exists_press_of_mem {s t : Discovery} {l : Discovery.Label}
    (hl : Discovery.step s l = some t) (hanswers : l.answers = true) {pr : Press}
    (hpr : pr ∈ t.presses) :
    ∃ pr₀ ∈ s.presses, pr.route = pr₀.route ∧ pr.mounted = pr₀.mounted ∧
      pr.subscription.user = pr₀.subscription.user := by
  cases l with
  | press route user => exact Bool.noConfusion hanswers
  | located p =>
      obtain ⟨pr₀, hpr₀, _, rfl⟩ := Discovery.step_located.mp hl
      rcases List.mem_or_eq_of_mem_set hpr with hmem | rfl
      · exact ⟨pr, hmem, rfl, rfl, rfl⟩
      · exact ⟨pr₀, List.mem_of_getElem? hpr₀, rfl, rfl, rfl⟩
  | emit p event draw =>
      obtain ⟨pr₀, hpr₀, _, rfl⟩ := Discovery.step_emit.mp hl
      rcases List.mem_or_eq_of_mem_set hpr with hmem | rfl
      · exact ⟨pr, hmem, rfl, rfl, rfl⟩
      · have hroute : (pr₀.received event draw).route = pr₀.route ∧
            (pr₀.received event draw).mounted = pr₀.mounted := by
          unfold Press.received
          cases picked pr₀.subscription event draw <;> exact ⟨rfl, rfl⟩
        exact ⟨pr₀, List.mem_of_getElem? hpr₀, hroute.1, hroute.2,
          Discovery.user_received pr₀ event draw⟩
  | dispose route => exact Bool.noConfusion hanswers
  | write i => exact Bool.noConfusion hanswers
  | fail i => exact Bool.noConfusion hanswers

theorem traced_of_step {s t : Device} {l : Label} (hs : s.discovery.backend.Traced)
    (hl : step s l = some t) : t.discovery.backend.Traced := by
  obtain ⟨ls, hls, _⟩ := backend_step hl
  exact run_preserves Backend.step (fun _ _ _ => Backend.traced_step) hs
    (Backend.toSteps.run_sent hls)

/-- New screens leave mounted only the presses whose page they show. -/
theorem seated_withSession (s : Device) (l : Session.Label) (t : Session) :
    ∀ pr ∈ (s.withSession l t).discovery.presses, pr.mounted = true →
      (s.withSession l t).session.showsDiscover pr.route = true := by
  intro pr hpr hmounted
  by_cases hstart : l = .appStart
  · rw [withSession, if_pos hstart] at hpr
    exact absurd hpr List.not_mem_nil
  · rw [withSession, if_neg hstart] at hpr ⊢
    obtain ⟨pr₀, _, rfl⟩ := List.mem_map.mp hpr
    exact (Bool.and_eq_true_iff.mp hmounted).2

theorem seated_step {s t : Device} {l : Label} (hs : Sane s) (hl : step s l = some t) :
    ∀ pr ∈ t.discovery.presses, pr.mounted = true →
      t.session.showsDiscover pr.route = true := by
  rcases step_cases hl with ⟨l', t', _, _, rfl⟩ | ⟨id, user, hpage, hd, ht⟩ |
    ⟨l', hanswers, hd, _, hsession⟩ | ⟨ls, b, _, rfl, _⟩
  · exact seated_withSession s l' t'
  · intro pr hpr hmounted
    rw [ht]
    rw [← Option.some.inj hd] at hpr
    rcases List.mem_append.mp hpr with hold | hnew
    · exact hs.seated pr hold hmounted
    · obtain rfl := List.mem_singleton.mp hnew
      exact (Session.discoverPage_eq_some hpage).2
  · intro pr hpr hmounted
    obtain ⟨pr₀, hpr₀, hroute, hmount, _⟩ := exists_press_of_mem hd hanswers hpr
    have hbefore := hs.seated pr₀ hpr₀ (hmount ▸ hmounted)
    rw [hroute]
    rcases hsession with hsame | ⟨pr₁, _, event, draw, hpush⟩
    · rw [hsame]
      exact hbefore
    · rw [hpush]
      exact Session.showsDiscover_pushPicked hbefore pr₁ event draw
  · exact hs.seated

theorem sane_step {s t : Device} {l : Label} (hs : Sane s) (hl : step s l = some t) : Sane t where
  traced := traced_of_step hs.traced hl
  seated := seated_step hs hl

/-- Every reachable device is sane. -/
theorem sane_run {ls : List Label} {s : Device} (hr : run step installed ls = some s) :
    Sane s :=
  run_preserves step (fun _ _ _ => sane_step)
    ⟨Backend.traced_empty, fun _ hpr => absurd hpr List.not_mem_nil⟩ hr

/-- What is severed stays so when presses are answered. -/
theorem severed_of_discovery {u : Text} {s : Device} {d : Discovery} {l : Discovery.Label}
    (hs : Hermetic u s) (hl : Discovery.step s.discovery l = some d) (hanswers : l.answers = true) :
    ∀ pr ∈ d.presses, ∀ v, pr.subscription.user = some v →
      pr.mounted = false ∧ (v = u → friendsCollection u = none) := by
  intro pr hpr v hv
  obtain ⟨pr₀, hpr₀, _, hmount, huser⟩ := exists_press_of_mem hl hanswers hpr
  rw [hmount]
  exact hs.severed pr₀ hpr₀ v (huser ▸ hv)

/-- The document was written by a call of somebody else than `u`. -/
def Foreign (u : Text) (b : Backend) (d : FriendDoc) : Prop :=
  ∃ i w c, d.id = .call i w ∧ b.calls[i]? = some c ∧ c.user ≠ u

theorem foreign_run {u : Text} {b b' : Backend} {ls : List Backend.Label} {d : FriendDoc}
    (h : Foreign u b d) (hr : run Backend.request b ls = some b') : Foreign u b' d := by
  obtain ⟨i, w, c, hid, hc, hne⟩ := h
  obtain ⟨c', hc', huser⟩ := Backend.exists_call_of_run (Backend.toSteps.run_sent hr) hc
  exact ⟨i, w, c', hid, hc', huser ▸ hne⟩

theorem not_writtenFor_of_foreign {u : Text} {b : Backend} {d : FriendDoc}
    (h : Foreign u b d) : ¬ WrittenFor u b d := by
  obtain ⟨i, w, c, hid, hc, hne⟩ := h
  rintro ⟨j, w', c', hid', hc', heq⟩
  obtain ⟨rfl, _⟩ := DocId.call.inj (hid.symm.trans hid')
  obtain rfl : c = c' := Option.some.inj (hc.symm.trans hc')
  exact hne heq

/-- The entry that a call writes carries the call's number. -/
theorem id_of_write {c : Call} {i : Nat} {w : FriendWrite} {k : Text} {d : FriendDoc}
    (h : c.write i w = .addFriend k d) : d.id = .call i w ∧ w ≠ .room := by
  cases w with
  | own =>
      obtain ⟨_, rfl⟩ := Write.addFriend.inj h
      exact ⟨rfl, by decide⟩
  | friend =>
      obtain ⟨_, rfl⟩ := Write.addFriend.inj h
      exact ⟨rfl, by decide⟩
  | room => exact Write.noConfusion h

/-- A step whose path is taken makes no call of `u` await an entry that is taken. -/
theorem noEntryAwaited_step {u : Text} {b b' : Backend} {l : Backend.Label}
    (hb : NoEntryAwaited u b) (htakes : b.takes l = true) (hl : Backend.step b l = some b')
    (hcall : ∀ friendUser, l = .addToFriends u friendUser → friendsCollection u = none) :
    NoEntryAwaited u b' := by
  intro i c hc hu
  cases l with
  | addToFriends user friendUser =>
      obtain rfl := Option.some.inj hl
      rcases Backend.getElem?_call.mp hc with hold | ⟨_, rfl⟩
      · exact hb i c hold hu
      · intro w hw
        obtain rfl := Progress.awaiting.inj hw
        obtain rfl : user = u := hu
        exact Or.inr (hcall friendUser rfl)
  | write j =>
      obtain ⟨c₀, w₀, hc₀, hw₀, rfl⟩ := Backend.step_write.mp hl
      rcases (Backend.getElem?_setProgress (by rwa [Backend.apply_calls])).mp hc with
        ⟨rfl, rfl⟩ | ⟨_, hold⟩
      · rw [Backend.takes_write hc₀ hw₀] at htakes
        rcases hb i c₀ hc₀ hu w₀ hw₀ with rfl | hrefused
        · exact fun w hw => Progress.noConfusion hw
        · rw [hrefused] at htakes
          exact Bool.noConfusion htakes
      · exact hb i c (by rwa [Backend.apply_calls] at hold) hu
  | fail j =>
      obtain ⟨c₀, w₀, hc₀, _, rfl⟩ := Backend.step_fail.mp hl
      rcases (Backend.getElem?_setProgress hc₀).mp hc with ⟨rfl, rfl⟩ | ⟨_, hold⟩
      · exact fun w hw => Progress.noConfusion hw
      · exact hb i c hold hu
  | send user friendEmail message now =>
      obtain rfl := Option.some.inj hl
      exact hb i c (by rwa [Backend.apply_calls] at hc) hu

/-- And it adds only entries of other users. -/
theorem foreign_of_new {u : Text} {b b' : Backend} {l : Backend.Label}
    (hb : NoEntryAwaited u b) (htakes : b.takes l = true) (hl : Backend.step b l = some b')
    {k : Text} {d : FriendDoc} (hd : d ∈ b'.friends k) : d ∈ b.friends k ∨ Foreign u b' d := by
  rcases Backend.mem_friends_of_step hl hd with hold | ⟨i, c, w, rfl, hc, hw, hentry⟩
  · exact Or.inl hold
  · obtain ⟨hid, hroom⟩ := id_of_write hentry
    obtain ⟨c', hc', huser⟩ := Backend.exists_call_of_step hl hc
    refine Or.inr ⟨i, w, c', hid, hc', fun hu => ?_⟩
    rw [Backend.takes_write hc hw] at htakes
    rcases hb i c hc (huser.symm.trans hu) w hw with heq | hrefused
    · exact hroom heq
    · rw [hrefused] at htakes
      exact Bool.noConfusion htakes

/-- Requests without a call of `u`, unless its entries are refused, keep both. -/
theorem noEntryAwaited_run {u : Text} {b b' : Backend} {ls : List Backend.Label}
    (hb : NoEntryAwaited u b) (hr : run Backend.request b ls = some b')
    (hcall : ∀ friendUser, .addToFriends u friendUser ∈ ls → friendsCollection u = none) :
    NoEntryAwaited u b' ∧ ∀ k, ∀ d ∈ b'.friends k, d ∈ b.friends k ∨ Foreign u b' d := by
  refine run_induction Backend.request
    (motive := fun ls b' =>
      (∀ friendUser, .addToFriends u friendUser ∈ ls → friendsCollection u = none) →
      NoEntryAwaited u b' ∧ ∀ k, ∀ d ∈ b'.friends k, d ∈ b.friends k ∨ Foreign u b' d)
    (fun _ => ⟨hb, fun k d hd => Or.inl hd⟩) ?_ hr hcall
  intro ls l c c' _ ih hrequest hcall
  obtain ⟨hc, hentries⟩ := ih fun f hmem => hcall f (List.mem_append_left _ hmem)
  rcases Backend.request_cases hrequest with ⟨htakes, hl⟩ | ⟨_, _, rfl⟩
  · refine ⟨noEntryAwaited_step hc htakes hl fun f heq => hcall f (by simp [heq]), fun k d hd => ?_⟩
    rcases foreign_of_new hc htakes hl hd with hold | hnew
    · exact (hentries k d hold).imp_right fun hforeign =>
        foreign_run hforeign ((run_singleton _ _ _).trans hrequest)
    · exact Or.inr hnew
  · exact ⟨hc, hentries⟩

/-- A listener of another user whose page is gone pushes nothing. -/
theorem pushPicked_of_severed {u : Text} {s : Device} (hs : Hermetic u s) {pr : Press}
    (hpr : pr ∈ s.discovery.presses) (event : List UserDoc) (draw : Nat) :
    s.session.pushPicked pr event draw = s.session := by
  apply if_neg
  rintro ⟨hmounted, hpicked⟩
  obtain ⟨⟨v, friendUser⟩, hpick⟩ := Option.isSome_iff_exists.mp hpicked
  obtain ⟨huser, _⟩ := picked_eq_some.mp hpick
  rw [(hs.severed pr hpr v huser).1] at hmounted
  exact Bool.noConfusion hmounted

/-- A device without the session of `u` starts no call of `u` whose entries are taken. -/
theorem exists_backend_run {u : Text} {s t : Device} {l : Label} (hs : Hermetic u s)
    (hl : step s l = some t) :
    ∃ ls, run Backend.request s.discovery.backend ls = some t.discovery.backend ∧
      ∀ friendUser, .addToFriends u friendUser ∈ ls → friendsCollection u = none := by
  obtain ⟨ls, hls, hcall⟩ := backend_step hl
  refine ⟨ls, hls, fun friendUser hmem => ?_⟩
  obtain ⟨pr, hpr, huser⟩ := hcall u friendUser hmem
  exact (hs.severed pr hpr u huser).2 rfl

theorem hermetic_session {u : Text} {s : Device} (hs : Hermetic u s) {l : Session.Label}
    (hstart : l.starts = false) {t : Session} (ht : Session.step s.session l = some t) :
    Hermetic u (s.withSession l t) := by
  have hne : l ≠ .appStart := by
    rintro rfl
    exact Bool.noConfusion hstart
  rw [withSession, if_neg hne]
  refine ⟨Session.exposed_step hs.covered hstart ht, hs.written, ?_⟩
  intro pr hpr v hv
  obtain ⟨pr₀, hpr₀, rfl⟩ := List.mem_map.mp hpr
  obtain ⟨hmounted, hne⟩ := hs.severed pr₀ hpr₀ v hv
  exact ⟨by rw [Press.keep, hmounted, Bool.false_and], hne⟩

/-- Without a Login press or an app start nothing of the session of `u` comes back. -/
theorem hermetic_step {u : Text} {s t : Device} {l : Label} (hs : Hermetic u s)
    (hstart : l.starts = false) (hl : step s l = some t) : Hermetic u t := by
  obtain ⟨bs, hbs, hcall⟩ := exists_backend_run hs hl
  have hwritten := (noEntryAwaited_run hs.written hbs hcall).1
  rcases step_cases hl with ⟨l', t', rfl, ht', rfl⟩ | ⟨id, user, hpage, _, _⟩ |
    ⟨l', hanswers, hd, _, hsession⟩ | ⟨_, b, _, rfl, _⟩
  · exact hermetic_session hs hstart ht'
  · have hexposed := Session.exposed_of_showsMain (Session.discoverPage_eq_some hpage).1
    rw [hs.covered] at hexposed
    exact Bool.noConfusion hexposed
  · have hsame : t.session = s.session := by
      rcases hsession with hsame | ⟨pr, hpr, event, draw, hpush⟩
      · exact hsame
      · exact hpush.trans (pushPicked_of_severed hs hpr event draw)
    constructor
    · rw [hsame]
      exact hs.covered
    · exact hwritten
    · exact severed_of_discovery hs hd hanswers
  · exact ⟨hs.covered, hwritten, hs.severed⟩

/-- A device without the session of `u` stays signed out along every run without a Login
press or an app start. -/
theorem staysOut_of_hermetic {u : Text} {s t : Device} (hs : Hermetic u s) {ls : List Label}
    (hls : ∀ l ∈ ls, l.starts = false) (hr : run step s ls = some t) : StaysOut u s t := by
  have hinv : Hermetic u t ∧ ∀ k, ∀ d ∈ t.discovery.backend.friends k,
      d ∈ s.discovery.backend.friends k ∨ Foreign u t.discovery.backend d := by
    refine run_induction step (motive := fun ls t => (∀ l ∈ ls, l.starts = false) →
      Hermetic u t ∧ ∀ k, ∀ d ∈ t.discovery.backend.friends k,
        d ∈ s.discovery.backend.friends k ∨ Foreign u t.discovery.backend d) ?_ ?_ hr hls
    · exact fun _ => ⟨hs, fun k d hd => Or.inl hd⟩
    · intro ls l t v _ ih hv hls
      obtain ⟨ht, hentries⟩ := ih fun l' hl' => hls l' (List.mem_append_left _ hl')
      have hstart : l.starts = false := hls l (by simp)
      obtain ⟨bs, hbs, hcall⟩ := exists_backend_run ht hv
      refine ⟨hermetic_step ht hstart hv, fun k d hd => ?_⟩
      rcases (noEntryAwaited_run ht.written hbs hcall).2 k d hd with hold | hnew
      · exact (hentries k d hold).imp_right fun hforeign => foreign_run hforeign hbs
      · exact Or.inr hnew
  refine ⟨?_, fun k d hd hwritten => ?_⟩
  · apply Bool.eq_false_iff.mpr
    intro hmain
    have hexposed := Session.exposed_of_showsMain hmain
    rw [hinv.1.covered] at hexposed
    exact Bool.noConfusion hexposed
  · rcases hinv.2 k d hd with hold | hforeign
    · exact hold
    · exact absurd hwritten (not_writtenFor_of_foreign hforeign)

/-- Back presses uncover a `MainScreen` that no Welcome screen covers. -/
theorem exists_run_back {s : Device} (h : s.session.exposed = true) :
    ∃ ls t, (∀ l ∈ ls, l = .session .back) ∧ run step s ls = some t ∧
      t.session.showsMain = true := by
  induction hstack : s.session.stack generalizing s with
  | nil =>
      rw [Session.exposed, hstack] at h
      exact Bool.noConfusion h
  | cons r below ih =>
      by_cases hmain : r.screen.isMain = true
      · refine ⟨[], s, by simp, rfl, ?_⟩
        rw [Session.showsMain, Session.top, hstack]
        exact hmain
      · have hwelcome : r.screen ≠ .welcome := by
          intro hr
          rw [Session.exposed, hstack, List.takeWhile_cons_of_neg (by simp [hr])] at h
          exact Bool.noConfusion h
        have hbelow : (below.takeWhile fun r => r.screen ≠ .welcome).any
            (fun r => r.screen.isMain) = true := by
          rw [Session.exposed, hstack, List.takeWhile_cons_of_pos (by simp [hwelcome]),
            List.any_cons, Bool.or_eq_true_iff] at h
          exact h.resolve_left hmain
        have hne : below ≠ [] := by
          rintro rfl
          exact Bool.noConfusion hbelow
        have hpop : Session.step s.session .back = some { s.session with stack := below } := by
          simp [Session.step, Session.maybePop, hstack, hwelcome, hne]
        have hback : step s (.session .back) =
            some (s.withSession .back { s.session with stack := below }) :=
          step_session.mpr ⟨_, hpop, rfl⟩
        obtain ⟨ls, t, hls, hrun, hshows⟩ :=
          ih (s := s.withSession .back { s.session with stack := below }) hbelow rfl
        refine ⟨.session .back :: ls, t, ?_, by rw [run_cons, hback]; exact hrun, hshows⟩
        intro l hl
        rcases List.mem_cons.mp hl with rfl | hl
        · rfl
        · exact hls l hl

/-- An awaited write that is taken can be made, by the process of its call or after it. -/
theorem exists_step_write {s : Device} {i : Nat} {c : Call} {w : FriendWrite}
    (hc : s.discovery.backend.calls[i]? = some c) (hw : c.progress = .awaiting w)
    (htaken : (c.write i w).collection.isSome = true) :
    ∃ l t, l.starts = false ∧ step s l = some t ∧ t.discovery.backend.Holds (c.write i w) := by
  by_cases hi : s.process ≤ i
  · obtain ⟨b, hb, _, hholds⟩ := Backend.exists_request_write hc hw htaken
    refine ⟨.write i, s.withBackend b, rfl, ?_, hholds⟩
    rw [step, if_pos hi, hb]
    rfl
  · obtain ⟨b, hb, hholds⟩ := Backend.exists_run_lateWrite hc hw htaken
    refine ⟨.lateWrite i, s.withBackend b, rfl, ?_, hholds⟩
    rw [step, if_pos (Nat.lt_of_not_le hi), hb]
    rfl

/-- A call of `u` that still awaits an entry can write it. -/
theorem exists_write {u : Text} {s : Device} (hs : s.discovery.backend.Traced) {i : Nat}
    {c : Call} {w : FriendWrite} (hc : s.discovery.backend.calls[i]? = some c) (hu : c.user = u)
    (hw : c.progress = .awaiting w) (hroom : w ≠ .room)
    (htaken : (c.write i w).collection.isSome = true) :
    ∃ l t, l.starts = false ∧ step s l = some t ∧ ∃ k d, d ∈ t.discovery.backend.friends k ∧
      WrittenFor u t.discovery.backend d ∧ d ∉ s.discovery.backend.friends k := by
  obtain ⟨k, d, hentry⟩ : ∃ k d, c.write i w = .addFriend k d := by
    cases w with
    | own => exact ⟨_, _, rfl⟩
    | friend => exact ⟨_, _, rfl⟩
    | room => exact absurd rfl hroom
  obtain ⟨l, t, hstart, hstep, hholds⟩ := exists_step_write hc hw htaken
  obtain ⟨bs, hbs, _⟩ := backend_step hstep
  obtain ⟨c', hc', huser⟩ := Backend.exists_call_of_run (Backend.toSteps.run_sent hbs) hc
  have hnot := Friendship.not_holds_of_awaiting hs hc hw
  rw [hentry] at hholds hnot
  exact ⟨l, t, hstart, hstep, k, d, hholds,
    ⟨i, w, c', (id_of_write hentry).1, hc', huser.trans hu⟩, hnot⟩

/-- An emission with two documents of other users makes any listener of a user pick. -/
theorem exists_pick {sub : Subscription} {v : Text} (hv : sub.user = some v) :
    ∃ event friendUser, picked sub event 0 = some (v, friendUser) := by
  have hother : ∀ w : Text, 0 :: w ≠ w := fun w h => by simpa using congrArg List.length h
  let d : UserDoc := ⟨none, none, some (0 :: v), none⟩
  have hothers : others v [d, d] = [0 :: v, 0 :: v] := by
    simp [others, d, hother v]
  have hlt : 0 < (sub.randomUserString ++ others v [d, d]).length := by
    rw [List.length_append, hothers, List.length_cons]
    omega
  exact ⟨[d, d], _, picked_eq_some.mpr ⟨hv, Nat.le_refl 2, List.getElem?_eq_getElem hlt⟩⟩

/-- A press can be brought to listen. -/
theorem exists_listening {s : Device} {p : Nat} {pr : Press}
    (hpr : s.discovery.presses[p]? = some pr) :
    ∃ ls t, (∀ l ∈ ls, l.starts = false) ∧ run step s ls = some t ∧
      t.discovery.presses[p]? = some { pr with listening := true } ∧
      t.session = s.session ∧ t.discovery.backend = s.discovery.backend := by
  cases hlistening : pr.listening with
  | true =>
      refine ⟨[], s, by simp, rfl, ?_, rfl, rfl⟩
      rw [hpr, ← hlistening]
  | false =>
      have hlocated : Discovery.step s.discovery (.located p) = some { s.discovery with
          presses := s.discovery.presses.set p { pr with listening := true } } :=
        Discovery.step_located.mpr ⟨pr, hpr, hlistening, rfl⟩
      refine ⟨[.located p], { s with discovery := { s.discovery with
        presses := s.discovery.presses.set p { pr with listening := true } } },
        by simp [Label.starts], ?_, ?_, rfl, rfl⟩
      · simp only [run_cons, step, hlocated, Option.map_some, Option.bind_some, run_nil]
      · exact List.getElem?_set_self (List.getElem?_eq_some_iff.mp hpr).1

/-- A listening press of a user can be made to pick somebody. -/
theorem exists_emit {s : Device} {p : Nat} {pr : Press}
    (hpr : s.discovery.presses[p]? = some pr) (hlistening : pr.listening = true) {v : Text}
    (hv : pr.subscription.user = some v) :
    ∃ event friendUser t, step s (.emit p event 0) = some t ∧
      picked pr.subscription event 0 = some (v, friendUser) ∧
      t.discovery.backend = s.discovery.backend.call v friendUser ∧
      t.session = s.session.pushPicked pr event 0 := by
  obtain ⟨event, friendUser, hpick⟩ := exists_pick hv
  have hemit : Discovery.step s.discovery (.emit p event 0) = some
      { presses := s.discovery.presses.set p (pr.received event 0)
        backend := Discovery.called s.discovery.backend pr event 0 } :=
    Discovery.step_emit.mpr ⟨pr, hpr, hlistening, rfl⟩
  refine ⟨event, friendUser, { s with
    session := s.session.pushPicked pr event 0
    discovery :=
      { presses := s.discovery.presses.set p (pr.received event 0)
        backend := Discovery.called s.discovery.backend pr event 0 } },
    ?_, hpick, ?_, rfl⟩
  · simp only [step, hpr, Option.bind_some, hemit, Option.map_some]
  · simp [Discovery.called, hpick]

/-- A press with a mounted page can push a `MainScreen`. -/
theorem exists_run_push {s : Device} (hs : Sane s) {pr : Press}
    (hmem : pr ∈ s.discovery.presses) {v : Text} (hv : pr.subscription.user = some v)
    (hmounted : pr.mounted = true) :
    ∃ ls t, (∀ l ∈ ls, l.starts = false) ∧ run step s ls = some t ∧
      t.session.showsMain = true := by
  obtain ⟨p, hpr⟩ := List.mem_iff_getElem?.mp hmem
  obtain ⟨ls, t, hls, hrun, hlisten, hsession, _⟩ := exists_listening hpr
  obtain ⟨event, friendUser, t', hemit, hpick, _, hsession'⟩ :=
    exists_emit hlisten rfl (v := v) hv
  refine ⟨ls ++ [.emit p event 0], t', ?_, (run_concat_eq_some step).mpr ⟨t, hrun, hemit⟩, ?_⟩
  · intro l hl
    rcases List.mem_append.mp hl with hl | hl
    · exact hls l hl
    · rw [List.mem_singleton.mp hl]
      rfl
  · have hroute := Session.mounted_of_showsDiscover (hs.seated pr hmem hmounted)
    rw [hsession', hsession, Session.pushPicked, if_pos ⟨hmounted, by rw [hpick]; rfl⟩,
      Session.pushFrom, if_pos hroute]
    rfl

/-- A press of `u` can write an entry of `u` that is taken. -/
theorem exists_run_write {u : Text} {s : Device} (hs : Sane s) {pr : Press}
    (hmem : pr ∈ s.discovery.presses) (hu : pr.subscription.user = some u)
    (htaken : (friendsCollection u).isSome = true) :
    ∃ ls t, (∀ l ∈ ls, l.starts = false) ∧ run step s ls = some t ∧
      ∃ k d, d ∈ t.discovery.backend.friends k ∧ WrittenFor u t.discovery.backend d ∧
        d ∉ s.discovery.backend.friends k := by
  obtain ⟨p, hpr⟩ := List.mem_iff_getElem?.mp hmem
  obtain ⟨ls, t, hls, hrun, hlisten, _, hbackend⟩ := exists_listening hpr
  obtain ⟨event, friendUser, t', hemit, _, hcall, _⟩ :=
    exists_emit hlisten rfl (v := u) hu
  have hrun' : run step s (ls ++ [.emit p event 0]) = some t' :=
    (run_concat_eq_some step).mpr ⟨t, hrun, hemit⟩
  have htraced : t'.discovery.backend.Traced :=
    run_preserves step (I := fun s => s.discovery.backend.Traced)
      (fun _ _ _ => traced_of_step) hs.traced hrun'
  have hnew : t'.discovery.backend.calls[s.discovery.backend.calls.length]? =
      some ⟨u, friendUser, .awaiting .own⟩ := by
    rw [hcall, hbackend]
    exact Backend.getElem?_call.mpr (Or.inr ⟨rfl, rfl⟩)
  obtain ⟨l, t'', hstart, hwrite, k, d, hd, hwritten, hnot⟩ :=
    exists_write htraced hnew rfl rfl (by decide) htaken
  refine ⟨ls ++ [.emit p event 0] ++ [l], t'', ?_,
    (run_concat_eq_some step).mpr ⟨t', hrun', hwrite⟩, k, d, hd, hwritten, ?_⟩
  · intro l' hl'
    rcases List.mem_append.mp hl' with hl' | hl'
    · rcases List.mem_append.mp hl' with hl' | hl'
      · exact hls l' hl'
      · rw [List.mem_singleton.mp hl']
        rfl
    · rw [List.mem_singleton.mp hl']
      exact hstart
  · rw [hcall, hbackend] at hnot
    exact hnot

/-- A device that stays signed out along every run has nothing left of the session. -/
theorem hermetic_of_staysOut {u : Text} {s : Device} (hs : Sane s)
    (h : ∀ ls t, (∀ l ∈ ls, l.starts = false) → run step s ls = some t → StaysOut u s t) :
    Hermetic u s where
  covered := by
    apply Bool.eq_false_iff.mpr
    intro hexposed
    obtain ⟨ls, t, hls, hrun, hshows⟩ := exists_run_back hexposed
    have hstays := h ls t (fun l hl => by rw [hls l hl]; rfl) hrun
    rw [hstays.1] at hshows
    exact Bool.noConfusion hshows
  written := by
    intro i c hc hu w hw
    by_contra hno
    obtain ⟨hroom, htaken⟩ := not_or.mp hno
    obtain ⟨l, t, hstart, hwrite, k, d, hd, hwritten, hnot⟩ :=
      exists_write hs.traced hc hu hw hroom (Option.isSome_iff_ne_none.mpr htaken)
    have hstays := h [l] t (by simpa using hstart) ((run_singleton _ _ _).trans hwrite)
    exact hnot (hstays.2 k d hd hwritten)
  severed := by
    intro pr hpr v hv
    constructor
    · apply Bool.eq_false_iff.mpr
      intro hmounted
      obtain ⟨ls, t, hls, hrun, hshows⟩ := exists_run_push hs hpr hv hmounted
      have hstays := h ls t hls hrun
      rw [hstays.1] at hshows
      exact Bool.noConfusion hshows
    · rintro rfl
      by_contra htaken
      obtain ⟨ls, t, hls, hrun, k, d, hd, hwritten, hnot⟩ :=
        exists_run_write hs hpr hv (Option.isSome_iff_ne_none.mpr htaken)
      exact hnot ((h ls t hls hrun).2 k d hd hwritten)

/-- New screens that still show the Discover pages of a sane device leave its presses alone. -/
theorem step_session_of_shows {s : Device} (hs : Sane s) {l : Session.Label} {t : Session}
    (hl : l ≠ .appStart) (ht : Session.step s.session l = some t)
    (hshows : ∀ id, s.session.showsDiscover id = true → t.showsDiscover id = true) :
    step s (.session l) = some { s with session := t } := by
  have hkeep : s.discovery.presses.map (Press.keep t.showsDiscover) = s.discovery.presses := by
    refine (List.map_congr_left fun pr hpr => ?_).trans (List.map_id _)
    have hseated := hs.seated pr hpr
    obtain ⟨route, subscription, mounted, listening, calls, pushes⟩ := pr
    cases mounted with
    | false => rfl
    | true => simp [Press.keep, hshows route (hseated rfl)]
  refine step_session.mpr ⟨t, ht, ?_⟩
  rw [withSession, if_neg hl, Discovery.keepMounted, hkeep]

/-- The answer to the sign-out request clears the user and changes nothing else that a
hermetic device depends on. -/
theorem hermetic_signOutDone {u : Text} {s t : Device} (hs : Sane s)
    (hl : step s (.session .signOutDone) = some t) : Hermetic u t ↔ Hermetic u s := by
  obtain ⟨t', ht', _⟩ := step_session.mp hl
  obtain ⟨_, hsession⟩ := Option.ite_none_right_eq_some.mp ht'
  have hstep := step_session_of_shows hs (by simp) ht' fun id h => by
    rw [← Option.some.inj hsession]
    exact h
  obtain rfl := Option.some.inj (hstep.symm.trans hl)
  obtain rfl := Option.some.inj hsession
  exact ⟨fun h => ⟨h.covered, h.written, h.severed⟩, fun h => ⟨h.covered, h.written, h.severed⟩⟩

/-- When a sign-out completes, every run without a Login press or an app start stays signed
out exactly when nothing is left of the session. -/
theorem stays_out_iff_hermetic {u : Text} {b : List Label} {s t : Device}
    (hr : run step installed b = some s)
    (hdone : step s (.session .signOutDone) = some t) :
    (∀ ls v, (∀ l ∈ ls, l.starts = false) → run step t ls = some v → StaysOut u t v) ↔
      Hermetic u s := by
  have hs := sane_run hr
  rw [← hermetic_signOutDone hs hdone]
  constructor
  · exact hermetic_of_staysOut (sane_step hs hdone)
  · exact fun h ls v hls hv => staysOut_of_hermetic h hls hv

/-- `ann` logs in. -/
def logIn : List Label :=
  [.session .appStart, .session .openLogin,
    .session (.loginPress (text "ann@mail.com") (text "secret")), .session .loginPrefsWritten,
    .session (.signInSucceeds 0 (text "ann@mail.com")),
    .session (.main 2 (.currentUser (some (text "ann@mail.com"))))]

/-- The Sign Out item of a route is tapped, up to the answer of the sign-out request. -/
def signOutFrom (id : Nat) : List Label :=
  [.session (.main id (.onTap 3)), .session (.main id .frame), .session (.signOutContinues 0)]

/-- `ann` logs in and signs out with no press of Discover between: she stays signed out. -/
theorem ann_stays_out :
    ∃ s t, run step installed (logIn ++ signOutFrom 2) = some s ∧
      step s (.session .signOutDone) = some t ∧
      ∀ ls v, (∀ l ∈ ls, l.starts = false) → run step t ls = some v →
        StaysOut (text "ann@mail.com") t v := by
  refine ⟨_, _, rfl, rfl, (stays_out_iff_hermetic (b := logIn ++ signOutFrom 2) rfl rfl).mpr
    ⟨rfl, ?_, ?_⟩⟩
  · intro i c hc
    exact absurd hc (by simp [installed, Discovery.start, Backend.empty])
  · intro pr hpr
    exact absurd hpr List.not_mem_nil

/-- `ann` presses Discover and picks a friend, which pushes a second `MainScreen`. -/
def discover : List Label :=
  [.session (.main 2 (.onTap 0)), .session (.main 2 .frame), .press, .located 0,
    .emit 0 [⟨none, none, some (text "bob@mail.com"), none⟩,
      ⟨none, none, some (text "eve@mail.com"), none⟩] 0, .write 0, .write 0, .write 0]

/-- `ann` signs out from the second `MainScreen`, and the next emission to her old press brings
a third one on top of the Welcome screen and writes an entry for her. -/
theorem emission_after_signOut :
    ∃ s t v, run step installed (logIn ++ discover ++ signOutFrom 3) = some s ∧
      step s (.session .signOutDone) = some t ∧
      t.session.currentUser = none ∧ t.session.isLoggedIn = some false ∧
      run step t [.emit 0 [⟨none, none, some (text "bob@mail.com"), none⟩,
        ⟨none, none, some (text "eve@mail.com"), none⟩] 0, .write 1] = some v ∧
      v.session.showsMain = true ∧ ¬ StaysOut (text "ann@mail.com") t v ∧
      (t.discovery.backend.friends (text "ann@mail.com")).length = 1 ∧
      (v.discovery.backend.friends (text "ann@mail.com")).length = 2 := by
  refine ⟨_, _, _, rfl, rfl, rfl, rfl, rfl, rfl, ?_, by decide, by decide⟩
  intro hstays
  exact Bool.noConfusion hstays.1

end Chatsy.Device
