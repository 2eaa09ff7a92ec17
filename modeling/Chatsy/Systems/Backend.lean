import Chatsy.Foundation.Simulation
import Chatsy.Screens.ChatScreen
import Chatsy.Screens.DiscoverScreen
import Mathlib.Logic.Function.Basic

/-!
# Firestore under concurrent addToFriends calls and Send presses

The state holds the friends collections, the chat rooms and every call of
`addToFriends` started so far with the write it awaits. Each awaited write
succeeds or fails on its own, so a run is any interleaving of the writes of
any number of calls by any users with Send presses.

## Implementation notes

A call keeps its number when it ends, so that the documents it wrote can be
traced to it. A collection is keyed by the address or the room name that is
pasted into its path. A step takes any path, and a write that Firestore refuses
is one that fails; a request is a step whose path Firestore takes.
-/

namespace Chatsy

open DiscoverScreen

/-- The collections and the calls in progress. -/
structure Backend where
  friends : Text → List FriendDoc
  chats : Text → List ChatDoc
  calls : List Call
  sends : Nat

namespace Backend

/-- No friends, no chats and no calls. -/
def empty : Backend where
  friends := fun _ => []
  chats := fun _ => []
  calls := []
  sends := 0

/-- Adds a document to the collection at a path. -/
def addDocument {δ : Type} (collection : Text → List δ) (path : Text) (d : δ) :
    Text → List δ :=
  Function.update collection path (collection path ++ [d])

theorem mem_addDocument {δ : Type} {collection : Text → List δ} {path k : Text} {d e : δ} :
    e ∈ addDocument collection path d k ↔ e ∈ collection k ∨ (k = path ∧ e = d) := by
  by_cases h : k = path
  · subst h
    simp [addDocument]
  · simp [addDocument, h]

theorem filterMap_addDocument {δ ε : Type} (f : δ → Option ε) (collection : Text → List δ)
    (path k : Text) (d : δ) :
    (addDocument collection path d k).filterMap f =
      (collection k).filterMap f ++ if k = path then (f d).toList else [] := by
  by_cases h : k = path
  · subst h
    rw [addDocument, Function.update_self, Foundation.filterMap_concat, if_pos rfl]
  · simp [addDocument, h]

/-- A write request taking effect. -/
def apply (s : Backend) : Write → Backend
  | .addFriend owner d => { s with friends := addDocument s.friends owner d }
  | .setChat room d => { s with chats := addDocument s.chats room d }

@[simp] theorem apply_calls (s : Backend) (wr : Write) : (s.apply wr).calls = s.calls := by
  cases wr <;> rfl

/-- The document of a write request is in its collection. -/
def Holds (s : Backend) : Write → Prop
  | .addFriend owner d => d ∈ s.friends owner
  | .setChat room d => d ∈ s.chats room

theorem holds_apply {s : Backend} {w v : Write} :
    (s.apply w).Holds v ↔ s.Holds v ∨ v = w := by
  cases w <;> cases v <;> simp [apply, Holds, mem_addDocument]

/-- The steps of the backend. -/
inductive Label
  | addToFriends (user friendUser : Text)
  | write (call : Nat)
  | fail (call : Nat)
  | send (user friendEmail : Text) (message : Option Text) (now : Nat)
  deriving DecidableEq, Repr

/-- The write that call number `i` awaits. -/
def awaited (s : Backend) (i : Nat) : Option (Call × FriendWrite) :=
  match s.calls[i]? with
  | some c =>
      match c.progress with
      | .awaiting w => some (c, w)
      | _ => none
  | none => none

theorem awaited_eq_some {s : Backend} {i : Nat} {c : Call} {w : FriendWrite} :
    s.awaited i = some (c, w) ↔ s.calls[i]? = some c ∧ c.progress = .awaiting w := by
  unfold awaited
  constructor
  · intro h
    cases hc : s.calls[i]? with
    | none => simp [hc] at h
    | some c' =>
        cases hp : c'.progress with
        | awaiting w' =>
            simp only [hc, hp, Option.some.injEq, Prod.mk.injEq] at h
            obtain ⟨rfl, rfl⟩ := h
            exact ⟨rfl, hp⟩
        | returned => simp [hc, hp] at h
        | failed w' => simp [hc, hp] at h
  · rintro ⟨hc, hp⟩
    simp [hc, hp]

/-- Records the progress of a call. -/
def setProgress (s : Backend) (i : Nat) (c : Call) (p : Progress) : Backend :=
  { s with calls := s.calls.set i { c with progress := p } }

/-- A new call of `addToFriends`, awaiting its first write. -/
def call (s : Backend) (user friendUser : Text) : Backend :=
  { s with calls := s.calls ++ [⟨user, friendUser, .awaiting .own⟩] }

/-- No call of `addToFriends` is in progress. -/
def Quiescent (s : Backend) : Prop := ∀ c ∈ s.calls, c.progress.inProgress = false

instance (s : Backend) : Decidable (Quiescent s) :=
  inferInstanceAs (Decidable (∀ c ∈ s.calls, c.progress.inProgress = false))

/-- The calls after a new one: the earlier ones under their numbers, and the new one. -/
theorem getElem?_call {s : Backend} {user friendUser : Text} {i : Nat} {c : Call} :
    (s.call user friendUser).calls[i]? = some c ↔
      s.calls[i]? = some c ∨
        (i = s.calls.length ∧ c = ⟨user, friendUser, .awaiting .own⟩) := by
  rcases lt_trichotomy i s.calls.length with hi | hi | hi
  · rw [call, List.getElem?_append_left hi]
    have hne : i ≠ s.calls.length := Nat.ne_of_lt hi
    simp [hne]
  · subst hi
    simp [call, eq_comm]
  · have hcall : (s.call user friendUser).calls[i]? = none :=
      List.getElem?_eq_none (by simp [call]; omega)
    have hnone : s.calls[i]? = none := List.getElem?_eq_none (Nat.le_of_lt hi)
    have hne : i ≠ s.calls.length := (Nat.ne_of_lt hi).symm
    simp [hcall, hnone, hne]

/-- The document that a Send press adds to the room of its screen. -/
def sendWrite (number : Nat) (user friendEmail : Text) (message : Option Text) (now : Nat) :
    Write :=
  .setChat (ChatScreen.getDocumentName user friendEmail)
    (ChatScreen.sendDocument (.send number) user friendEmail message now)

def step (s : Backend) : Label → Option Backend
  | .addToFriends user friendUser => some (s.call user friendUser)
  | .write i =>
      (s.awaited i).map fun (c, w) => (s.apply (c.write i w)).setProgress i c (next w)
  | .fail i => (s.awaited i).map fun (c, w) => s.setProgress i c (.failed w)
  | .send user friendEmail message now =>
      some (({ s with sends := s.sends + 1 } : Backend).apply
        (sendWrite s.sends user friendEmail message now))

/-- Firestore takes the path of the write or of the Send press. -/
def takes (s : Backend) : Label → Bool
  | .write i => (s.awaited i).any fun (c, w) => (c.write i w).collection.isSome
  | .send user friendEmail _ _ =>
      (chatsCollection (ChatScreen.getDocumentName user friendEmail)).isSome
  | _ => true

/-- The label is a Send press. -/
def Label.isSend : Label → Bool
  | .send _ _ _ _ => true
  | _ => false

/-- A step whose path Firestore may refuse: a refused write can only fail, and a refused Send press
sends nothing. -/
def request (s : Backend) (l : Label) : Option Backend :=
  if s.takes l then step s l else if l.isSend then some s else none

/-- The write of a call that nobody goes on with: it takes effect, and the call ends. -/
def lateWrite (s : Backend) (i : Nat) : List Label :=
  match s.awaited i with
  | some (_, .room) => [.write i]
  | _ => [.write i, .fail i]

theorem mem_lateWrite {s : Backend} {i : Nat} {l : Label} (h : l ∈ s.lateWrite i) :
    l = .write i ∨ l = .fail i := by
  unfold lateWrite at h
  split at h
  · exact Or.inl (List.mem_singleton.mp h)
  · simpa using h

private theorem map_awaited_eq_some {s t : Backend} {i : Nat}
    {f : Call × FriendWrite → Backend} :
    (s.awaited i).map f = some t ↔
      ∃ c w, s.calls[i]? = some c ∧ c.progress = .awaiting w ∧ t = f (c, w) := by
  constructor
  · intro h
    obtain ⟨⟨c, w⟩, hcw, rfl⟩ := Option.map_eq_some_iff.mp h
    obtain ⟨hc, hp⟩ := awaited_eq_some.mp hcw
    exact ⟨c, w, hc, hp, rfl⟩
  · rintro ⟨c, w, hc, hp, rfl⟩
    rw [awaited_eq_some.mpr ⟨hc, hp⟩]
    rfl

theorem step_write {s t : Backend} {i : Nat} :
    step s (.write i) = some t ↔
      ∃ c w, s.calls[i]? = some c ∧ c.progress = .awaiting w ∧
        t = (s.apply (c.write i w)).setProgress i c (next w) :=
  map_awaited_eq_some

theorem step_fail {s t : Backend} {i : Nat} :
    step s (.fail i) = some t ↔
      ∃ c w, s.calls[i]? = some c ∧ c.progress = .awaiting w ∧
        t = s.setProgress i c (.failed w) :=
  map_awaited_eq_some

theorem holds_setProgress {s : Backend} {i : Nat} {c : Call} {p : Progress} {wr : Write} :
    (s.setProgress i c p).Holds wr ↔ s.Holds wr := by
  cases wr <;> rfl

/-- The calls after one call's progress changes. -/
theorem getElem?_setProgress {s : Backend} {i j : Nat} {c d : Call} {p : Progress}
    (hc : s.calls[i]? = some c) :
    (s.setProgress i c p).calls[j]? = some d ↔
      (j = i ∧ d = { c with progress := p }) ∨ (j ≠ i ∧ s.calls[j]? = some d) := by
  have hi : i < s.calls.length := (List.getElem?_eq_some_iff.mp hc).1
  by_cases hj : j = i
  · subst hj
    simp [setProgress, hi, eq_comm]
  · have hij : i ≠ j := fun h => hj h.symm
    simp [setProgress, hj, List.getElem?_set_ne hij]

/-- The write requests that the calls of a state have put into effect. -/
def Performed (s : Backend) (wr : Write) : Prop :=
  ∃ (i : Nat) (c : Call) (w : FriendWrite),
    s.calls[i]? = some c ∧ w ∈ c.progress.written ∧ c.write i w = wr

/-- A change of progress that adds the writes `ws` performs exactly those. -/
theorem performed_setProgress {s : Backend} {i : Nat} {c : Call} {p : Progress}
    {ws : List FriendWrite} {wr : Write} (hc : s.calls[i]? = some c)
    (hp : p.written = c.progress.written ++ ws) :
    (s.setProgress i c p).Performed wr ↔
      s.Performed wr ∨ ∃ w ∈ ws, c.write i w = wr := by
  constructor
  · rintro ⟨j, d, w, hd, hw, rfl⟩
    rcases (getElem?_setProgress hc).mp hd with ⟨rfl, rfl⟩ | ⟨_, hd⟩
    · rcases List.mem_append.mp (hp ▸ hw) with hw | hw
      · exact Or.inl ⟨j, c, w, hc, hw, rfl⟩
      · exact Or.inr ⟨w, hw, rfl⟩
    · exact Or.inl ⟨j, d, w, hd, hw, rfl⟩
  · rintro (⟨j, d, w, hd, hw, rfl⟩ | ⟨w, hw, rfl⟩)
    · by_cases hj : j = i
      · subst hj
        obtain rfl : c = d := Option.some.inj (hc.symm.trans hd)
        exact ⟨j, { c with progress := p }, w, (getElem?_setProgress hc).mpr (Or.inl ⟨rfl, rfl⟩),
          hp ▸ List.mem_append_left ws hw, rfl⟩
      · exact ⟨j, d, w, (getElem?_setProgress hc).mpr (Or.inr ⟨hj, hd⟩), hw, rfl⟩
    · exact ⟨i, { c with progress := p }, w, (getElem?_setProgress hc).mpr (Or.inl ⟨rfl, rfl⟩),
        hp ▸ List.mem_append_right _ hw, rfl⟩

theorem performed_call {s : Backend} {user friendUser : Text} {wr : Write} :
    (s.call user friendUser).Performed wr ↔ s.Performed wr := by
  constructor
  · rintro ⟨i, c, w, hc, hw, rfl⟩
    rcases getElem?_call.mp hc with hc | ⟨_, rfl⟩
    · exact ⟨i, c, w, hc, hw, rfl⟩
    · exact absurd hw List.not_mem_nil
  · rintro ⟨i, c, w, hc, hw, rfl⟩
    exact ⟨i, c, w, getElem?_call.mpr (Or.inl hc), hw, rfl⟩

/-- A request that some `addToFriends` call may make, as opposed to a Send press. -/
def OfCall : Write → Prop
  | .addFriend _ _ => True
  | .setChat _ d => ∃ i w, d.id = .call i w

theorem ofCall_write (c : Call) (i : Nat) (w : FriendWrite) : OfCall (c.write i w) := by
  cases w with
  | own => trivial
  | friend => trivial
  | room => exact ⟨i, .room, rfl⟩

theorem not_ofCall_sendWrite (n : Nat) (user friendEmail : Text) (message : Option Text)
    (now : Nat) : ¬ OfCall (sendWrite n user friendEmail message now) := by
  rintro ⟨i, w, h⟩
  exact DocId.noConfusion h

/-- The collections hold, of the calls' documents, exactly what the calls performed. -/
def Traced (s : Backend) : Prop := ∀ wr, OfCall wr → (s.Holds wr ↔ s.Performed wr)

theorem traced_empty : Traced empty := by
  intro wr _
  constructor
  · intro h
    cases wr <;> exact absurd h List.not_mem_nil
  · rintro ⟨i, c, w, hc, _⟩
    exact absurd hc (by simp [empty])

theorem traced_step {s t : Backend} {l : Label} (hs : Traced s) (hl : step s l = some t) :
    Traced t := by
  intro wr hwr
  cases l with
  | addToFriends user friendUser =>
      obtain rfl := Option.some.inj hl
      exact (hs wr hwr).trans performed_call.symm
  | write i =>
      obtain ⟨c, w, hc, hp, rfl⟩ := step_write.mp hl
      have hwritten : (next w).written = c.progress.written ++ [w] := by
        rw [written_next, hp]
        rfl
      rw [holds_setProgress, holds_apply, hs wr hwr,
        performed_setProgress (by rwa [apply_calls]) hwritten]
      have hone : (∃ w' ∈ [w], c.write i w' = wr) ↔ wr = c.write i w := by
        simp only [List.mem_singleton, exists_eq_left]
        exact eq_comm
      rw [hone]
      simp only [Performed, apply_calls]
  | fail i =>
      obtain ⟨c, w, hc, hp, rfl⟩ := step_fail.mp hl
      have hwritten : (Progress.failed w).written = c.progress.written ++ [] := by
        rw [hp, List.append_nil]
        rfl
      rw [holds_setProgress, hs wr hwr, performed_setProgress hc hwritten]
      simp only [List.not_mem_nil, false_and, exists_false, or_false]
  | send user friendEmail message now =>
      obtain rfl := Option.some.inj hl
      have hne : wr ≠ sendWrite s.sends user friendEmail message now := fun h =>
        not_ofCall_sendWrite s.sends user friendEmail message now (h ▸ hwr)
      have hperf : (({ s with sends := s.sends + 1 } : Backend).apply
          (sendWrite s.sends user friendEmail message now)).Performed wr ↔ s.Performed wr := by
        simp only [Performed, apply_calls]
      rw [holds_apply, or_iff_left hne, hperf]
      exact hs wr hwr

/-- In every reachable state the calls account for their documents. -/
theorem traced_run {s : Backend} {ls : List Label}
    (hr : Foundation.run step empty ls = some s) : Traced s :=
  Foundation.run_preserves step (fun _ _ _ => traced_step) traced_empty hr

/-- A document that is stored stays stored. -/
theorem holds_step {s t : Backend} {l : Label} (h : step s l = some t) {wr : Write}
    (hs : s.Holds wr) : t.Holds wr := by
  cases l with
  | addToFriends user friendUser =>
      obtain rfl := Option.some.inj h
      cases wr <;> exact hs
  | write i =>
      obtain ⟨c, w, _, _, rfl⟩ := step_write.mp h
      exact holds_setProgress.mpr (holds_apply.mpr (Or.inl hs))
  | fail i =>
      obtain ⟨c, w, _, _, rfl⟩ := step_fail.mp h
      exact holds_setProgress.mpr hs
  | send user friendEmail message now =>
      obtain rfl := Option.some.inj h
      apply holds_apply.mpr
      cases wr <;> exact Or.inl hs

/-- The two users of each call of a later state are those of a call that was there, or those of
the step that makes the call. -/
theorem exists_call_of_mem {s t : Backend} {l : Label} (h : step s l = some t)
    {c : Call} (hc : c ∈ t.calls) :
    (∃ c₀ ∈ s.calls, c.user = c₀.user ∧ c.friendUser = c₀.friendUser) ∨
      l = .addToFriends c.user c.friendUser := by
  cases l with
  | addToFriends user friendUser =>
      obtain rfl := Option.some.inj h
      rcases List.mem_append.mp hc with hc | hc
      · exact Or.inl ⟨c, hc, rfl, rfl⟩
      · obtain rfl := List.mem_singleton.mp hc
        exact Or.inr rfl
  | write i =>
      obtain ⟨c₀, w, hc₀, _, rfl⟩ := step_write.mp h
      rcases List.mem_or_eq_of_mem_set hc with hc | rfl
      · exact Or.inl ⟨c, by rwa [apply_calls] at hc, rfl, rfl⟩
      · exact Or.inl ⟨c₀, List.mem_of_getElem? hc₀, rfl, rfl⟩
  | fail i =>
      obtain ⟨c₀, w, hc₀, _, rfl⟩ := step_fail.mp h
      rcases List.mem_or_eq_of_mem_set hc with hc | rfl
      · exact Or.inl ⟨c, hc, rfl, rfl⟩
      · exact Or.inl ⟨c₀, List.mem_of_getElem? hc₀, rfl, rfl⟩
  | send user friendEmail message now =>
      obtain rfl := Option.some.inj h
      exact Or.inl ⟨c, by rwa [apply_calls] at hc, rfl, rfl⟩

/-- The calls keep their numbers and users. -/
theorem exists_call_of_step {b b' : Backend} {l : Label}
    (h : step b l = some b') {i : Nat} {c : Call} (hc : b.calls[i]? = some c) :
    ∃ c', b'.calls[i]? = some c' ∧ c'.user = c.user := by
  have hset : ∀ (b₀ : Backend) (j : Nat) (c₀ : Call) (p : Progress), b₀.calls[i]? = some c →
      b₀.calls[j]? = some c₀ → ∃ c', (b₀.setProgress j c₀ p).calls[i]? = some c' ∧
        c'.user = c.user := by
    intro b₀ j c₀ p hi hj
    by_cases hij : i = j
    · subst hij
      obtain rfl : c = c₀ := Option.some.inj (hi.symm.trans hj)
      exact ⟨_, (getElem?_setProgress hj).mpr (Or.inl ⟨rfl, rfl⟩), rfl⟩
    · exact ⟨c, (getElem?_setProgress hj).mpr (Or.inr ⟨hij, hi⟩), rfl⟩
  cases l with
  | addToFriends user friendUser =>
      obtain rfl := Option.some.inj h
      exact ⟨c, getElem?_call.mpr (Or.inl hc), rfl⟩
  | write j =>
      obtain ⟨c₀, w, hc₀, _, rfl⟩ := step_write.mp h
      exact hset (b.apply (c₀.write j w)) j c₀ (next w) (by rwa [apply_calls])
        (by rwa [apply_calls])
  | fail j =>
      obtain ⟨c₀, w, hc₀, _, rfl⟩ := step_fail.mp h
      exact hset b j c₀ (.failed w) hc hc₀
  | send user friendEmail message now =>
      obtain rfl := Option.some.inj h
      exact ⟨c, by rwa [apply_calls], rfl⟩

theorem exists_call_of_run {b b' : Backend} {ls : List Label}
    (h : Foundation.run step b ls = some b') {i : Nat} {c : Call} (hc : b.calls[i]? = some c) :
    ∃ c', b'.calls[i]? = some c' ∧ c'.user = c.user := by
  refine Foundation.run_preserves step
    (I := fun b' => ∃ c', b'.calls[i]? = some c' ∧ c'.user = c.user) ?_ ⟨c, hc, rfl⟩ h
  rintro b₁ l b₂ ⟨c₁, hc₁, huser⟩ hstep
  obtain ⟨c₂, hc₂, huser₂⟩ := exists_call_of_step hstep hc₁
  exact ⟨c₂, hc₂, huser₂.trans huser⟩

theorem takes_write {s : Backend} {i : Nat} {c : Call} {w : FriendWrite}
    (hc : s.calls[i]? = some c) (hw : c.progress = .awaiting w) :
    s.takes (.write i) = (c.write i w).collection.isSome := by
  rw [takes, awaited_eq_some.mpr ⟨hc, hw⟩]
  rfl

/-- A request is a step whose path is taken, or a refused Send press. -/
theorem request_cases {s t : Backend} {l : Label} (h : request s l = some t) :
    (s.takes l = true ∧ step s l = some t) ∨ (s.takes l = false ∧ l.isSend = true ∧ s = t) := by
  unfold request at h
  split at h
  · next htakes => exact Or.inl ⟨htakes, h⟩
  · next htakes =>
    obtain ⟨hsend, rfl⟩ := Foundation.guarded_eq_some.mp h
    exact Or.inr ⟨Bool.eq_false_iff.mpr htakes, hsend, rfl⟩

theorem request_of_takes {s : Backend} {l : Label} (h : s.takes l = true) :
    request s l = step s l :=
  if_pos h

/-- The steps of a request: itself, or none when its path is refused. -/
def taken (s : Backend) (l : Label) : List Label := if s.takes l then [l] else []

/-- A run of requests is a run of the steps that are taken. -/
def toSteps : Foundation.Simulation request step where
  view := id
  acts := taken
  follows := by
    intro s l t h
    rcases request_cases h with ⟨htakes, hstep⟩ | ⟨htakes, _, rfl⟩
    · rw [taken, if_pos htakes]
      exact (Foundation.run_singleton step s l).trans hstep
    · rw [taken, if_neg (Bool.eq_false_iff.mp htakes)]
      rfl

/-- An awaited write whose path is taken can take effect. -/
theorem exists_request_write {b : Backend} {i : Nat} {c : Call} {w : FriendWrite}
    (hc : b.calls[i]? = some c) (hw : c.progress = .awaiting w)
    (htaken : (c.write i w).collection.isSome = true) :
    ∃ b', request b (.write i) = some b' ∧ b'.calls[i]? = some { c with progress := next w } ∧
      b'.Holds (c.write i w) := by
  refine ⟨(b.apply (c.write i w)).setProgress i c (next w), ?_, ?_,
    holds_setProgress.mpr (holds_apply.mpr (Or.inr rfl))⟩
  · rw [request_of_takes ((takes_write hc hw).trans htaken)]
    exact step_write.mpr ⟨c, w, hc, hw, rfl⟩
  · exact (getElem?_setProgress (by rwa [apply_calls])).mpr (Or.inl ⟨rfl, rfl⟩)

/-- And so can that of a call that nobody goes on with. -/
theorem exists_run_lateWrite {b : Backend} {i : Nat} {c : Call} {w : FriendWrite}
    (hc : b.calls[i]? = some c) (hw : c.progress = .awaiting w)
    (htaken : (c.write i w).collection.isSome = true) :
    ∃ b', Foundation.run request b (b.lateWrite i) = some b' ∧ b'.Holds (c.write i w) := by
  obtain ⟨b', hb', hcall, hholds⟩ := exists_request_write hc hw htaken
  have hends : ∀ w', next w = .awaiting w' → ∃ b'',
      Foundation.run request b [.write i, .fail i] = some b'' ∧ b''.Holds (c.write i w) := by
    intro w' hnext
    have hfail := step_fail.mpr ⟨{ c with progress := next w }, w', hcall, hnext, rfl⟩
    refine ⟨_, ?_, holds_step hfail hholds⟩
    simp only [Foundation.run_cons, hb', Option.bind_some, Foundation.run_nil]
    rw [request_of_takes rfl, hfail]
    rfl
  rw [lateWrite, awaited_eq_some.mpr ⟨hc, hw⟩]
  cases w with
  | own => exact hends .friend rfl
  | friend => exact hends .room rfl
  | room => exact ⟨b', (Foundation.run_singleton _ _ _).trans hb', hholds⟩

/-- Only a new call changes the number of calls. -/
theorem calls_length_step {b b' : Backend} {l : Label} (h : step b l = some b')
    (hl : ∀ user friendUser, l ≠ .addToFriends user friendUser) :
    b'.calls.length = b.calls.length := by
  cases l with
  | addToFriends user friendUser => exact absurd rfl (hl user friendUser)
  | write i =>
      obtain ⟨c, w, _, _, rfl⟩ := step_write.mp h
      rw [setProgress, List.length_set, apply_calls]
  | fail i =>
      obtain ⟨c, w, _, _, rfl⟩ := step_fail.mp h
      exact List.length_set
  | send user friendEmail message now =>
      obtain rfl := Option.some.inj h
      rw [apply_calls]

theorem calls_length_request {b b' : Backend} {l : Label} (h : request b l = some b')
    (hl : ∀ user friendUser, l ≠ .addToFriends user friendUser) :
    b'.calls.length = b.calls.length := by
  rcases request_cases h with ⟨_, hstep⟩ | ⟨_, _, rfl⟩
  · exact calls_length_step hstep hl
  · rfl

theorem calls_length_run {b b' : Backend} {ls : List Label}
    (hr : Foundation.run request b ls = some b')
    (hls : ∀ user friendUser, .addToFriends user friendUser ∉ ls) :
    b'.calls.length = b.calls.length := by
  refine Foundation.run_induction request
    (motive := fun ls b' => (∀ user friendUser, .addToFriends user friendUser ∉ ls) →
      b'.calls.length = b.calls.length) (fun _ => rfl) ?_ hr hls
  intro ls l c c' _ ih h hls
  rw [← ih fun u f hmem => hls u f (List.mem_append_left _ hmem)]
  exact calls_length_request h fun u f heq => hls u f (by simp [heq])

/-- A late write is one of a call. -/
theorem lt_of_run_lateWrite {b b' : Backend} {i : Nat}
    (hr : Foundation.run request b (b.lateWrite i) = some b') : i < b.calls.length := by
  obtain ⟨rest, hrest⟩ : ∃ rest, b.lateWrite i = .write i :: rest := by
    unfold lateWrite
    split
    · exact ⟨[], rfl⟩
    · exact ⟨[.fail i], rfl⟩
  rw [hrest] at hr
  obtain ⟨c, hstep, _⟩ := Option.bind_eq_some_iff.mp hr
  rcases request_cases hstep with ⟨_, hstep⟩ | ⟨_, hsend, _⟩
  · obtain ⟨call, _, hcall, _⟩ := step_write.mp hstep
    exact (List.getElem?_eq_some_iff.mp hcall).1
  · exact Bool.noConfusion hsend

/-- A new entry of a friends collection is the awaited write of a call. -/
theorem mem_friends_of_step {b b' : Backend} {l : Label}
    (h : step b l = some b') {k : Text} {d : FriendDoc} (hd : d ∈ b'.friends k) :
    d ∈ b.friends k ∨ ∃ i c w, l = .write i ∧ b.calls[i]? = some c ∧
      c.progress = .awaiting w ∧ c.write i w = .addFriend k d := by
  cases l with
  | addToFriends user friendUser =>
      obtain rfl := Option.some.inj h
      exact Or.inl hd
  | write i =>
      obtain ⟨c, w, hc, hw, rfl⟩ := step_write.mp h
      rcases (holds_apply (v := .addFriend k d)).mp hd with hold | hnew
      · exact Or.inl hold
      · exact Or.inr ⟨i, c, w, rfl, hc, hw, hnew.symm⟩
  | fail i =>
      obtain ⟨c, w, _, _, rfl⟩ := step_fail.mp h
      exact Or.inl hd
  | send user friendEmail message now =>
      obtain rfl := Option.some.inj h
      exact Or.inl hd

end Backend

end Chatsy
