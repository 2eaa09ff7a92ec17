import Chatsy.Systems.WorldSafety
import Mathlib.Data.List.DropRight

/-!
# Messages as they were typed

What a press of Send posts follows from what the user has done on the phone
since its last app start: the page belongs to the friend of the tile that opened
it, and the text is the last edit made on it. So the messages posted in a run
are those typed in it, one for each press and in the order of the presses,
whatever completes in between and whatever the other phones do.

## Implementation notes

A message whose room Firestore refuses is posted, and not sent.
-/

namespace Chatsy

open Foundation

namespace Phone

/-- The tile that a label opens. -/
def tile : Label → Option Text
  | .tapTile snapshot index => HomeScreen.itemBuilder snapshot index
  | _ => none

/-- The text that a label puts into the box of page `k`. -/
def edit (k : Nat) : Label → Option Text
  | .compose m (.edit value) => if m = k then some value else none
  | _ => none

/-- The labels since the last app start. -/
def process (ls : List Label) : List Label := ls.rtakeWhile fun l => l ≠ .session .appStart

/-- The friends of the tiles opened since the last app start. -/
def opened (ls : List Label) : List Text := (process ls).filterMap tile

/-- The last edit on page `k` since the last app start. -/
def draft (k : Nat) (ls : List Label) : Option Text := ((process ls).filterMap (edit k)).getLast?

/-- The message of page `k`. -/
def message (p : Phone) (k : Nat) : Option Text := p.pages[k]?.bind fun page =>
  page.composer.message

/-- The pages are the tiles opened, each with its draft. -/
structure Typed (ls : List Label) (p : Phone) : Prop where
  friends : p.pages.map ChatPage.friendEmail = opened ls
  messages : ∀ k, p.message k = draft k ls

theorem process_concat {l : Label} (h : l ≠ .session .appStart) (ls : List Label) :
    process (ls ++ [l]) = process ls ++ [l] := by
  rw [process, List.rtakeWhile_concat, if_pos (by simpa using h), process]

theorem process_appStart (ls : List Label) : process (ls ++ [.session .appStart]) = [] := by
  rw [process, List.rtakeWhile_concat]
  rfl

theorem opened_concat {l : Label} (h : l ≠ .session .appStart) (ls : List Label) :
    opened (ls ++ [l]) = opened ls ++ (tile l).toList := by
  rw [opened, process_concat h, filterMap_concat, opened]

theorem draft_concat {l : Label} (h : l ≠ .session .appStart) (k : Nat) (ls : List Label) :
    draft k (ls ++ [l]) = (edit k l).or (draft k ls) := by
  rw [draft, process_concat h, getLast?_filterMap_concat, draft]

/-- A label that opens no tile and edits nothing. -/
theorem typed_silent {ls : List Label} {p p' : Phone} {l : Label} (h : Typed ls p)
    (hl : l ≠ .session .appStart) (htile : tile l = none) (hedit : ∀ k, edit k l = none)
    (hpages : p'.pages = p.pages) : Typed (ls ++ [l]) p' where
  friends := by rw [hpages, h.friends, opened_concat hl, htile, Option.toList_none, List.append_nil]
  messages := by
    intro k
    rw [draft_concat hl, hedit k, Option.none_or, ← h.messages k, message, hpages, message]

/-- Nothing is typed on a page that is not there. -/
theorem typed_tapTile {ls : List Label} {p : Phone} (h : Typed ls p) {snapshot : List FriendDoc}
    {index : Nat} {route : Nat} {user friendEmail : Text}
    (htile : HomeScreen.itemBuilder snapshot index = some friendEmail) (session : Session) :
    Typed (ls ++ [.tapTile snapshot index])
      { p with
        session := session
        pages := p.pages ++ [⟨route, user, friendEmail, Composer.start⟩] } where
  friends := by
    rw [opened_concat (by simp), tile, htile, List.map_append, h.friends]
    rfl
  messages := by
    intro k
    rw [draft_concat (by simp), ← h.messages k, message, message]
    change (p.pages ++ [_])[k]?.bind _ = p.pages[k]?.bind _
    rcases Nat.lt_trichotomy k p.pages.length with hlt | rfl | hgt
    · rw [List.getElem?_append_left hlt]
    · rw [List.getElem?_concat_length, List.getElem?_eq_none (Nat.le_refl _)]
      rfl
    · rw [List.getElem?_eq_none (by simp; omega), List.getElem?_eq_none hgt.le]

/-- An edit is the message of its page, and nothing else changes a message. -/
theorem typed_compose {ls : List Label} {p : Phone} (h : Typed ls p) {k : Nat} {page : ChatPage}
    (hpage : p.pages[k]? = some page) {l : Composer.Label} {composer : Composer}
    (hl : Composer.step page.user page.friendEmail page.composer l = some composer) :
    Typed (ls ++ [.compose k l])
      { p with pages := p.pages.set k { page with composer := composer } } where
  friends := by
    have hsame : (p.pages.set k { page with composer := composer }).map ChatPage.friendEmail =
        p.pages.map ChatPage.friendEmail := map_set_of_eq _ hpage rfl
    rw [opened_concat (by simp), hsame, h.friends]
    exact (List.append_nil _).symm
  messages := by
    intro m
    rw [draft_concat (by simp), message]
    by_cases hkm : k = m
    · subst hkm
      rw [List.getElem?_set_self (List.getElem?_eq_some_iff.mp hpage).1, ← h.messages k, message,
        hpage]
      cases l with
      | edit value =>
          obtain rfl := Option.some.inj hl
          simp [edit]
      | send now =>
          obtain rfl := Option.some.inj hl
          rfl
      | added number =>
          obtain ⟨_, rfl⟩ := guarded_eq_some.mp hl
          rfl
    · have hedit : edit m (.compose k l) = none := by
        cases l with
        | edit value => exact if_neg hkm
        | send now => rfl
        | added number => rfl
      rw [List.getElem?_set_ne hkm, hedit, Option.none_or, ← h.messages m, message]

variable {norm : Text → Text}

theorem typed_step {ls : List Label} {c : Cloud} {p p' : Phone} {l : Label} {rs : List Request}
    (h : Typed ls p) (hstep : step norm c p l = some (p', rs)) : Typed (ls ++ [l]) p' := by
  cases stepped_of_step hstep with
  | @session l t _ _ =>
      by_cases hstart : l = .appStart
      · subst hstart
        constructor
        · rw [opened, process_appStart]
          rfl
        · intro k
          rw [draft, process_appStart]
          rfl
      · apply typed_silent h _ rfl (fun _ => rfl)
        · rw [withSession, if_neg hstart]
        · simpa using hstart
  | tapTile _ _ htile _ => exact typed_tapTile h htile _
  | compose hpage hcomposer => exact typed_compose h hpage hcomposer
  | lateUser _ _ => exact typed_silent h (by simp) rfl (fun _ => rfl) rfl
  | position pos _ => exact typed_silent h (by simp) rfl (fun _ => rfl) rfl
  | press _ => exact typed_silent h (by simp) rfl (fun _ => rfl) rfl
  | located _ => exact typed_silent h (by simp) rfl (fun _ => rfl) rfl
  | emit keys draw _ _ => exact typed_silent h (by simp) rfl (fun _ => rfl) rfl
  | write _ => exact typed_silent h (by simp) rfl (fun _ => rfl) rfl
  | fail _ => exact typed_silent h (by simp) rfl (fun _ => rfl) rfl
  | register es _ => exact typed_silent h (by simp) rfl (fun _ => rfl) rfl
  | accountCreated _ _ => exact typed_silent h (by simp) rfl (fun _ => rfl) rfl
  | accountFails i => exact typed_silent h (by simp) rfl (fun _ => rfl) rfl
  | profileWritten i _ => exact typed_silent h (by simp) rfl (fun _ => rfl) rfl
  | profileFails i => exact typed_silent h (by simp) rfl (fun _ => rfl) rfl

/-- The receiver, the text and the time of the message that a label posts, after the labels before
it. -/
def typed (ls : List Label) : Label → Option (Text × Option Text × Nat)
  | .compose k (.send now) => (opened ls)[k]?.map fun friendEmail => (friendEmail, draft k ls, now)
  | _ => none

/-- A press posts what has been typed on its page, to its friend, and no other step posts. -/
theorem messages_of_step {ls : List Label} {c : Cloud} {p p' : Phone} {l : Label}
    {rs : List Request} (h : Typed ls p) (hstep : step norm c p l = some (p', rs)) :
    (rs.filterMap Request.message?).map (fun m => (m.receiver, m.text, m.time)) =
      (typed ls l).toList := by
  cases stepped_of_step hstep with
  | @compose k l page composer hpage _ =>
      cases l with
      | send now =>
          have hfriend : (opened ls)[k]? = some page.friendEmail := by
            rw [← h.friends, List.getElem?_map, hpage]
            rfl
          have hdraft : draft k ls = page.composer.message := by
            rw [← h.messages k, message, hpage]
            rfl
          rw [typed, hfriend, hdraft]
          rfl
      | edit value => rfl
      | added number => rfl
  | @position id m pos _ => cases m.user <;> rfl
  | @emit k pr keys draw _ _ =>
      cases DiscoverScreen.picked pr.subscription (event c keys) draw with
      | none => rfl
      | some _ => rfl
  | session _ _ => rfl
  | lateUser _ _ => rfl
  | tapTile _ _ _ _ => rfl
  | press _ => rfl
  | located _ => rfl
  | write _ => rfl
  | fail _ => rfl
  | register es _ => rfl
  | accountCreated _ _ => rfl
  | accountFails i => rfl
  | profileWritten i _ => rfl
  | profileFails i => rfl

end Phone

namespace World

variable {norm : Text → Text} {n : Nat} {ls : List Label} {w w' : World} {l : Label}

/-- The receiver, the text and the time of the message that a label posts, after the labels before
it. -/
def typed (ls : List Label) : Label → Option (Text × Option Text × Nat)
  | .phone k l => Phone.typed (own k ls) l
  | _ => none

/-- The messages typed in a run, in the order of the presses. -/
def letters (ls : List Label) : List (Text × Option Text × Nat) :=
  (List.range ls.length).filterMap fun i => ls[i]?.bind (typed (ls.take i))

theorem letters_concat (ls : List Label) (l : Label) :
    letters (ls ++ [l]) = letters ls ++ (typed ls l).toList := by
  have hold : ∀ i ∈ List.range ls.length, ((ls ++ [l])[i]?.bind (typed ((ls ++ [l]).take i))) =
      ls[i]?.bind (typed (ls.take i)) := by
    intro i hi
    have hlt := List.mem_range.mp hi
    rw [List.getElem?_append_left hlt, List.take_append_of_le_length hlt.le]
  rw [letters, List.length_append, List.length_singleton, List.range_succ, filterMap_concat,
    List.filterMap_congr hold, letters, List.getElem?_concat_length, List.take_left]
  rfl

/-- The pages of the phones are those that their users have opened and typed on. -/
theorem typed_run (hr : run (step norm) (start n) ls = some w) :
    ∀ k p, w.phones[k]? = some p → Phone.Typed (own k ls) p := by
  apply phone_run (I := fun ls _ k p => Phone.Typed (own k ls) p) _ _ _ hr
  · exact fun k => ⟨rfl, fun _ => rfl⟩
  · intro ls w l w' k p _ _ hl ih
    rwa [own_concat_other hl]
  · intro ls w l w' k p p' rs _ _ hstep _ ih
    rw [own_concat_self]
    exact Phone.typed_step ih hstep

/-- One more step posts what it types. -/
theorem posts_concat (hr : run (step norm) (start n) ls = some w) (l : Label) :
    posts norm n (ls ++ [l]) = posts norm n ls ++
      (requests norm w l).filterMap Request.message? := by
  rw [posts, Simulation.sent, trace_concat _ _ hr]
  exact List.filterMap_append

theorem messages_of_requests (hr : run (step norm) (start n) ls = some w)
    (h : step norm w l = some w') :
    ((requests norm w l).filterMap Request.message?).map (fun m => (m.receiver, m.text, m.time)) =
      (typed ls l).toList := by
  obtain ⟨rs, hmoves, _⟩ := (step_eq_some norm).mp h
  rw [requests, hmoves]
  obtain ⟨phones', cloud'⟩ := w'
  cases moved_of_moves norm hmoves with
  | @phone k l p q rs hp hstep => exact Phone.messages_of_step (typed_run hr k p hp) hstep
  | @lateWrite i _ =>
      have hnone : (lateRequests w.cloud.backend i).filterMap Request.message? = [] := by
        apply List.filterMap_eq_nil_iff.mpr
        intro r hr
        rcases mem_lateRequests hr with rfl | rfl
        · rfl
        · rfl
      exact congrArg (List.map _) hnone
  | lateAccount _ => rfl
  | lateProfile _ => rfl

theorem map_posts (hr : run (step norm) (start n) ls = some w) :
    (posts norm n ls).map (fun m => (m.receiver, m.text, m.time)) = letters ls := by
  refine run_induction (step norm) (motive := fun ls _ =>
    (posts norm n ls).map (fun m => (m.receiver, m.text, m.time)) = letters ls) rfl ?_ hr
  intro ls l w w' hw ih h
  rw [posts_concat hw, List.map_append, ih, letters_concat, messages_of_requests hw h]

/-- The messages posted in a run are those typed in it, in their order: each press of Send posts one
message, to the friend of the tile that opened its page and with the last edit made on it. Those
whose room Firestore takes are sent. -/
theorem posts_as_typed (hr : run (step norm) (start n) ls = some w) :
    (posts norm n ls).map (fun m => (m.receiver, m.text, m.time)) = letters ls ∧
      Messages.sent ((toBackend norm).sent (start n) ls) =
        (posts norm n ls).filter fun m => (chatsCollection (Messages.roomOf m)).isSome :=
  ⟨map_posts hr, sent_eq_filter_posts hr⟩

theorem annMeetsBob_typed :
    (posts lowerCase 2 annMeetsBob).map (fun m => (m.receiver, m.text, m.time)) =
      [(text "bob@mail.com", some (text "hi"), 1)] := by
  rw [(posts_as_typed (rfl : run (step lowerCase) (start 2) annMeetsBob = some _)).1]
  decide +kernel

end World

end Chatsy
