import Chatsy.Foundation.Runs
import Chatsy.Screens.ChatScreen

/-!
# The message composer of a ChatScreen

The text of a message exists twice, as the content of the text box and in the
field `message`. An edit sets both; Send reads the field, and the completion of
its `add` clears the box and leaves the field. Any number of edits and presses
can lie between a press and its completion.

## Implementation notes

A press writes its document at once and waits for the answer of the server. An
`add` that never completes is a run without its completion.
-/

namespace Chatsy

open Foundation

/-- The content of the text box, the field `message`, the documents written by the screen, and
the presses whose `add` has not completed. -/
structure Composer where
  box : Text
  message : Option Text
  documents : List ChatDoc
  awaiting : List Nat
  deriving DecidableEq, Repr

namespace Composer

/-- The screen has been opened. -/
def start : Composer where
  box := []
  message := none
  documents := []
  awaiting := []

/-- The steps of the composer: the user edits the box, presses Send, or an `add` completes. -/
inductive Label
  | edit (value : Text)
  | send (now : Nat)
  | added (number : Nat)
  deriving DecidableEq, Repr

variable (user friendEmail : Text)

/-- The document that a press of Send writes. -/
def written (s : Composer) (now : Nat) : ChatDoc :=
  ChatScreen.sendDocument (.send s.documents.length) user friendEmail s.message now

def step (s : Composer) : Label → Option Composer
  | .edit value => some { s with box := value, message := some value }
  | .send now =>
      some { s with
        documents := s.documents ++ [s.written user friendEmail now]
        awaiting := s.awaiting ++ [s.documents.length] }
  | .added number =>
      if number ∈ s.awaiting then
        some { s with box := [], awaiting := s.awaiting.erase number }
      else none

/-- A press writes the content of the box, and nothing when the box is empty. -/
def SentAsShown (s : Composer) : Label → Composer → Prop
  | .send _, t =>
      if s.box = [] then t.documents = s.documents
      else ∃ d, t.documents = s.documents ++ [d] ∧ d.text = some s.box
  | _, _ => True

/-- Send is pressed with something in the box. -/
def BoxFilled (s : Composer) : Label → Prop
  | .send _ => s.box ≠ []
  | _ => True

instance : ∀ s l, Decidable (BoxFilled s l)
  | s, .send _ => inferInstanceAs (Decidable (s.box ≠ []))
  | _, .edit _ => isTrue trivial
  | _, .added _ => isTrue trivial

/-- The text of an edit. -/
def edited : Label → Option Text
  | .edit value => some value
  | _ => none

/-- The content that the last edit has left in the box. -/
def lastEdit (ls : List Label) : Option Text := (ls.filterMap edited).getLast?

/-- The completion of a press takes from the box of `u` exactly the text that the press wrote, and
what the user has typed since the press is still in the box of `v`. -/
def DraftKept (number : Nat) (mid : List Label) (u v : Composer) : Prop :=
  (∃ d, u.documents[number]? = some d ∧ d.text = some u.box) ∧
    ∀ value, lastEdit mid = some value → v.box = value

/-- A press. -/
def Label.isSend : Label → Bool
  | .send _ => true
  | _ => false

/-- The press in `s` wrote the content of the box, and neither an edit nor a completion came since;
or it wrote the empty text, and the last edit since, if any, has emptied the box. -/
def Undisturbed (s : Composer) (mid : List Label) : Prop :=
  (s.message = some s.box ∧ ∀ l ∈ mid, l.isSend = true) ∨
    (s.message = some [] ∧ ∀ value, lastEdit mid = some value → value = [])

/-- The box is empty or holds the message. -/
def Agrees (s : Composer) : Prop := s.box = [] ∨ s.message = some s.box

variable {user friendEmail}

theorem agrees_step {s t : Composer} {l : Label} (hs : s.Agrees)
    (hl : step user friendEmail s l = some t) : t.Agrees := by
  cases l with
  | edit value =>
      obtain rfl := Option.some.inj hl
      exact Or.inr rfl
  | send now =>
      obtain rfl := Option.some.inj hl
      exact hs
  | added number =>
      obtain ⟨_, rfl⟩ := guarded_eq_some.mp hl
      exact Or.inl rfl

theorem agrees_run {ls : List Label} {s : Composer}
    (hr : run (step user friendEmail) start ls = some s) : s.Agrees :=
  run_preserves (step user friendEmail) (fun _ _ _ => agrees_step) (Or.inl rfl) hr

/-- A press sends what is shown exactly when the box is filled. -/
theorem sentAsShown_iff_boxFilled {s t : Composer} {l : Label} (hs : s.Agrees)
    (hl : step user friendEmail s l = some t) : SentAsShown s l t ↔ BoxFilled s l := by
  cases l with
  | edit value => exact Iff.rfl
  | added number => exact Iff.rfl
  | send now =>
      obtain rfl := Option.some.inj hl
      simp only [SentAsShown, BoxFilled]
      by_cases hbox : s.box = []
      · rw [if_pos hbox]
        exact iff_of_false (by simp) fun h => h hbox
      · rw [if_neg hbox]
        exact iff_of_true ⟨_, rfl, hs.resolve_left hbox⟩ hbox

/-- Every press of a run sends what the box shows exactly when none is made with an empty box. -/
theorem sent_as_shown_iff_box_filled {ls : List Label} {s : Composer}
    (hr : run (step user friendEmail) start ls = some s) :
    (∀ pre l post t v, ls = pre ++ l :: post → run (step user friendEmail) start pre = some t →
      step user friendEmail t l = some v → SentAsShown t l v) ↔
      Meets (step user friendEmail) BoxFilled start ls :=
  steps_iff_meets (I := Agrees) (fun _ _ _ => agrees_step)
    (fun _ _ _ => sentAsShown_iff_boxFilled) (Or.inl rfl) hr

/-- `ann` sends a message, and another one when the first is complete. -/
def twoMessages : List Label :=
  [.edit (text "hi"), .send 1, .added 0, .edit (text "yo"), .send 2]

theorem two_messages_as_shown :
    ∃ s, run (step (text "ann@mail.com") (text "bob@mail.com")) start twoMessages = some s ∧
      ∀ pre l post t v, twoMessages = pre ++ l :: post →
        run (step (text "ann@mail.com") (text "bob@mail.com")) start pre = some t →
        step (text "ann@mail.com") (text "bob@mail.com") t l = some v → SentAsShown t l v :=
  ⟨_, rfl, (sent_as_shown_iff_box_filled
    (rfl : run (step (text "ann@mail.com") (text "bob@mail.com")) start twoMessages =
      some _)).mpr (by decide)⟩

/-- `ann` presses Send again after the box has been cleared: the first message is sent once more. -/
theorem cleared_box_sent :
    ∃ s t, run (step (text "ann@mail.com") (text "bob@mail.com")) start
        [.edit (text "hi"), .send 1, .added 0] = some s ∧
      step (text "ann@mail.com") (text "bob@mail.com") s (.send 2) = some t ∧
      s.box = [] ∧ t.documents.map ChatDoc.text = [some (text "hi"), some (text "hi")] ∧
      ¬ SentAsShown s (.send 2) t :=
  ⟨_, _, rfl, rfl, rfl, rfl, fun h => absurd (congrArg List.length h) (by decide)⟩

theorem lastEdit_concat (ls : List Label) (l : Label) :
    lastEdit (ls ++ [l]) = (edited l).or (lastEdit ls) :=
  getLast?_filterMap_concat edited ls l

theorem lastEdit_of_sends {ls : List Label} (h : ∀ l ∈ ls, l.isSend = true) :
    lastEdit ls = none := by
  have hnone : ls.filterMap edited = [] := by
    rw [List.filterMap_eq_nil_iff]
    intro l hl
    have hsend := h l hl
    cases l with
    | edit value => exact Bool.noConfusion hsend
    | send now => rfl
    | added number => rfl
  rw [lastEdit, hnone, List.getLast?_nil]

/-- Documents are only appended. -/
theorem documents_run {ls : List Label} {s t : Composer}
    (hr : run (step user friendEmail) s ls = some t) : s.documents <+: t.documents := by
  refine run_preserves (step user friendEmail) (I := fun t => s.documents <+: t.documents) ?_
    (List.prefix_refl _) hr
  intro t l v ht hl
  cases l with
  | edit value =>
      obtain rfl := Option.some.inj hl
      exact ht
  | send now =>
      obtain rfl := Option.some.inj hl
      exact ht.trans (List.prefix_append _ _)
  | added number =>
      obtain ⟨_, rfl⟩ := guarded_eq_some.mp hl
      exact ht

/-- Presses leave the box, and after anything else it is empty or holds the last edit. -/
theorem box_run {ls : List Label} {s t : Composer}
    (hr : run (step user friendEmail) s ls = some t) :
    ((∀ l ∈ ls, l.isSend = true) ∧ t.box = s.box) ∨
      ((¬ ∀ l ∈ ls, l.isSend = true) ∧ (t.box = [] ∨ lastEdit ls = some t.box)) := by
  refine run_induction (step user friendEmail) (motive := fun ls t =>
    ((∀ l ∈ ls, l.isSend = true) ∧ t.box = s.box) ∨
      ((¬ ∀ l ∈ ls, l.isSend = true) ∧ (t.box = [] ∨ lastEdit ls = some t.box))) ?_ ?_ hr
  · exact Or.inl ⟨by simp, rfl⟩
  · intro ls l t v _ ih hl
    cases l with
    | edit value =>
        obtain rfl := Option.some.inj hl
        refine Or.inr ⟨fun hall => ?_, Or.inr ?_⟩
        · exact Bool.noConfusion (hall (.edit value) (by simp))
        · rw [lastEdit_concat]
          rfl
    | send now =>
        obtain rfl := Option.some.inj hl
        have hall : (∀ l ∈ ls ++ [Label.send now], l.isSend = true) ↔
            ∀ l ∈ ls, l.isSend = true := by
          simp only [List.mem_append, List.mem_singleton, or_imp, forall_and, forall_eq]
          exact and_iff_left rfl
        rw [hall, lastEdit_concat]
        exact ih
    | added number =>
        obtain ⟨_, rfl⟩ := guarded_eq_some.mp hl
        refine Or.inr ⟨fun hall => ?_, Or.inl rfl⟩
        exact Bool.noConfusion (hall (.added number) (by simp))

/-- What a press has written stays as it is, so it is the content of the box exactly when the
message of that moment is. -/
theorem written_iff {s u : Composer} {mid : List Label} {now : Nat}
    (hmid : run (step user friendEmail)
      { s with
        documents := s.documents ++ [s.written user friendEmail now]
        awaiting := s.awaiting ++ [s.documents.length] } mid = some u) :
    (∃ d, u.documents[s.documents.length]? = some d ∧ d.text = some u.box) ↔
      s.message = some u.box := by
  have hwritten : u.documents[s.documents.length]? = some (s.written user friendEmail now) := by
    obtain ⟨documents, hdocuments⟩ := documents_run hmid
    rw [← hdocuments, List.append_assoc, List.getElem?_append_right (Nat.le_refl _),
      Nat.sub_self]
    rfl
  rw [hwritten]
  constructor
  · rintro ⟨d, hd, htext⟩
    obtain rfl := Option.some.inj hd
    exact htext
  · exact fun h => ⟨_, rfl, h⟩

/-- The completion of a press removes its text and no draft exactly when nothing has happened to
the box since the press. -/
theorem draft_kept_iff_undisturbed {pre mid : List Label} {s t u v : Composer} {now : Nat}
    (hpre : run (step user friendEmail) start pre = some s)
    (hsend : step user friendEmail s (.send now) = some t)
    (hmid : run (step user friendEmail) t mid = some u)
    (hadded : step user friendEmail u (.added s.documents.length) = some v) :
    DraftKept s.documents.length mid u v ↔ Undisturbed s mid := by
  have hagrees := agrees_run hpre
  obtain rfl := Option.some.inj hsend
  obtain ⟨_, rfl⟩ := guarded_eq_some.mp hadded
  have hbox := box_run hmid
  rw [DraftKept, written_iff hmid]
  constructor
  · rintro ⟨hmessage, htyped⟩
    rcases hbox with ⟨hsends, hsame⟩ | ⟨_, hempty | hlast⟩
    · exact Or.inl ⟨hsame ▸ hmessage, hsends⟩
    · exact Or.inr ⟨hempty ▸ hmessage, fun value hvalue => (htyped value hvalue).symm⟩
    · rw [← htyped u.box hlast] at hmessage
      exact Or.inr ⟨hmessage, fun value hvalue => (htyped value hvalue).symm⟩
  · rintro (⟨hmessage, hsends⟩ | ⟨hmessage, htyped⟩)
    · have hsame : u.box = s.box := by
        rcases hbox with ⟨_, hsame⟩ | ⟨hnot, _⟩
        · exact hsame
        · exact absurd hsends hnot
      refine ⟨hsame ▸ hmessage, fun value hvalue => ?_⟩
      rw [lastEdit_of_sends hsends] at hvalue
      exact absurd hvalue (Option.some_ne_none value).symm
    · have hempty : u.box = [] := by
        rcases hbox with ⟨_, hsame⟩ | ⟨_, hempty | hlast⟩
        · rcases hagrees with hbox | hbox
          · exact hsame.trans hbox
          · exact hsame.trans (Option.some.inj (hbox.symm.trans hmessage))
        · exact hempty
        · exact htyped u.box hlast
      exact ⟨hempty ▸ hmessage, fun value hvalue => (htyped value hvalue).symm⟩

/-- Nothing happens between the press and its completion but a second press. -/
theorem pressed_twice_kept :
    ∃ s t u v, run (step (text "ann@mail.com") (text "bob@mail.com")) start
        [.edit (text "hi")] = some s ∧
      step (text "ann@mail.com") (text "bob@mail.com") s (.send 1) = some t ∧
      run (step (text "ann@mail.com") (text "bob@mail.com")) t [.send 2] = some u ∧
      step (text "ann@mail.com") (text "bob@mail.com") u (.added 0) = some v ∧
      DraftKept 0 [.send 2] u v :=
  ⟨_, _, _, _, rfl, rfl, rfl, rfl, (draft_kept_iff_undisturbed
    (rfl : run (step (text "ann@mail.com") (text "bob@mail.com")) start [.edit (text "hi")] =
      some _) rfl rfl rfl).mpr (Or.inl ⟨rfl, by decide⟩)⟩

/-- `ann` goes on typing while her message is on the way: its completion takes all of it. -/
theorem draft_lost :
    ∃ s t u v, run (step (text "ann@mail.com") (text "bob@mail.com")) start
        [.edit (text "hi")] = some s ∧
      step (text "ann@mail.com") (text "bob@mail.com") s (.send 1) = some t ∧
      run (step (text "ann@mail.com") (text "bob@mail.com")) t [.edit (text "how are you")] =
        some u ∧
      step (text "ann@mail.com") (text "bob@mail.com") u (.added 0) = some v ∧
      u.box = text "how are you" ∧ v.box = [] ∧
      ¬ DraftKept 0 [.edit (text "how are you")] u v :=
  ⟨_, _, _, _, rfl, rfl, rfl, rfl, rfl, rfl, fun h =>
    absurd (h.2 (text "how are you") rfl) (by decide)⟩

end Composer

end Chatsy
