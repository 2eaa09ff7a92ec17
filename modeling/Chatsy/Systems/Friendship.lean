import Chatsy.Systems.Backend
import Mathlib.Data.Sym.Sym2

/-!
# Friendship as an unordered relation

A friendship is meant to be one fact about two users. The code stores it as
two entries and a placeholder, written by three awaited requests with nothing
that undoes the earlier ones. `Befriended` is the unordered relation of the
calls that returned; in a state without calls in progress the collections
represent it exactly as long as no call failed after its first write.
-/

namespace Chatsy.Friendship

open Foundation DiscoverScreen Backend

/-- An entry with name `f` is in `User/u/friends`. -/
def HasFriend (s : Backend) (u f : Text) : Prop := ∃ d ∈ s.friends u, d.name = f

/-- The chat room of `u` and `f` holds a placeholder document. -/
def HasPlaceholder (s : Backend) (u f : Text) : Prop :=
  ∃ id, placeholder id ∈ s.chats (chatRoomName u f)

/-- An entry's presence can be looked up. -/
instance (s : Backend) (u f : Text) : Decidable (HasFriend s u f) :=
  inferInstanceAs (Decidable (∃ d ∈ s.friends u, d.name = f))

/-- No failed call has left a document in either collection or in the room. -/
def FailuresUndone (s : Backend) : Prop :=
  ∀ (i : Nat) (c : Call), s.calls[i]? = some c → ∀ w, c.progress = .failed w →
    ∀ w', ¬ s.Holds (c.write i w')

/-- Friendship is symmetric and comes with its room, and failures leave no trace. -/
def Whole (s : Backend) : Prop :=
  (Quiescent s → ∀ u f, (HasFriend s u f ↔ HasFriend s f u) ∧
    (HasFriend s u f → HasPlaceholder s u f)) ∧
  FailuresUndone s

/-- A call fails, if at all, at its first write. -/
def FailsFirst (s : Backend) : Label → Prop
  | .fail i => ∀ p ∈ s.awaited i, p.2 = .own
  | _ => True

instance : ∀ s l, Decidable (FailsFirst s l)
  | s, .fail i => inferInstanceAs (Decidable (∀ p ∈ s.awaited i, p.2 = .own))
  | _, .addToFriends _ _ => isTrue trivial
  | _, .write _ => isTrue trivial
  | _, .send _ _ _ _ => isTrue trivial

/-- The unordered pairs of users whose call has returned. -/
def Befriended (s : Backend) (p : Sym2 Text) : Prop :=
  ∃ (i : Nat) (c : Call), s.calls[i]? = some c ∧ c.progress = .returned ∧
    s(c.user, c.friendUser) = p

/-- Every failed call failed at its first write. -/
def NoHalf (s : Backend) : Prop :=
  ∀ (i : Nat) (c : Call), s.calls[i]? = some c → ∀ w, c.progress = .failed w → w = .own

theorem noHalf_setProgress {s : Backend} {i : Nat} {c : Call} {p : Progress}
    (hs : NoHalf s) (hc : s.calls[i]? = some c) (hp : ∀ w, p = .failed w → w = .own) :
    NoHalf (s.setProgress i c p) := by
  intro j d hd w hw
  rcases (getElem?_setProgress hc).mp hd with ⟨_, rfl⟩ | ⟨_, hd⟩
  · exact hp w hw
  · exact hs j d hd w hw

theorem noHalf_step {s t : Backend} {l : Label} (hs : NoHalf s) (hok : FailsFirst s l)
    (hl : step s l = some t) : NoHalf t := by
  cases l with
  | addToFriends user friendUser =>
      obtain rfl := Option.some.inj hl
      intro i c hc w hw
      rcases getElem?_call.mp hc with hc | ⟨_, rfl⟩
      · exact hs i c hc w hw
      · exact Progress.noConfusion hw
  | write i =>
      obtain ⟨c, w, hc, _, rfl⟩ := step_write.mp hl
      apply noHalf_setProgress (s := s.apply (c.write i w)) (by simpa [NoHalf] using hs)
        (by simpa using hc)
      intro w' hw'
      cases w <;> exact Progress.noConfusion hw'
  | fail i =>
      obtain ⟨c, w, hc, hp, rfl⟩ := step_fail.mp hl
      apply noHalf_setProgress hs hc
      intro w' hw'
      exact Progress.failed.inj hw' ▸ hok (c, w) (awaited_eq_some.mpr ⟨hc, hp⟩)
  | send user friendEmail message now =>
      obtain rfl := Option.some.inj hl
      simpa [NoHalf] using hs

/-- With no call in progress and no half-failed call, whatever has been written
belongs to a call that returned. -/
theorem returned_of_written {s : Backend} (hq : Quiescent s) (hn : NoHalf s) {i : Nat}
    {c : Call} {w : FriendWrite} (hc : s.calls[i]? = some c) (hw : w ∈ c.progress.written) :
    c.progress = .returned := by
  have hended := hq c (List.mem_of_getElem? hc)
  cases hp : c.progress with
  | awaiting w' =>
      rw [hp] at hended
      exact Bool.noConfusion hended
  | returned => rfl
  | failed w' =>
      obtain rfl := hn i c hc w' hp
      rw [hp] at hw
      exact absurd hw List.not_mem_nil

theorem holds_of_returned {s : Backend} (ht : Traced s) {i : Nat} {c : Call}
    (hc : s.calls[i]? = some c) (hp : c.progress = .returned) (w : FriendWrite) :
    s.Holds (c.write i w) := by
  refine (ht _ (ofCall_write c i w)).mpr ⟨i, c, w, hc, ?_, rfl⟩
  rw [hp]
  cases w <;> decide

/-- The friends collections represent exactly the unordered pairs of the
calls that returned. -/
theorem hasFriend_iff_befriended {s : Backend} (ht : Traced s) (hq : Quiescent s)
    (hn : NoHalf s) (u f : Text) : HasFriend s u f ↔ Befriended s s(u, f) := by
  constructor
  · rintro ⟨d, hd, rfl⟩
    obtain ⟨i, c, w, hc, hw, hwrite⟩ := (ht (.addFriend u d) trivial).mp hd
    refine ⟨i, c, hc, returned_of_written hq hn hc hw, ?_⟩
    cases w with
    | own =>
        obtain ⟨rfl, rfl⟩ := Write.addFriend.inj hwrite
        rfl
    | friend =>
        obtain ⟨rfl, rfl⟩ := Write.addFriend.inj hwrite
        exact Sym2.eq_swap
    | room => exact Write.noConfusion hwrite
  · rintro ⟨i, c, hc, hp, hpair⟩
    rcases Sym2.eq_iff.mp hpair with ⟨rfl, rfl⟩ | ⟨rfl, rfl⟩
    · exact ⟨_, holds_of_returned ht hc hp .own, rfl⟩
    · exact ⟨_, holds_of_returned ht hc hp .friend, rfl⟩

/-- Both users of a returned call have its placeholder in their room. -/
theorem hasPlaceholder_of_befriended {s : Backend} (ht : Traced s) {u f : Text}
    (h : Befriended s s(u, f)) : HasPlaceholder s u f := by
  obtain ⟨i, c, hc, hp, hpair⟩ := h
  refine ⟨.call i .room, ?_⟩
  have hroom := holds_of_returned ht hc hp .room
  rcases Sym2.eq_iff.mp hpair with ⟨rfl, rfl⟩ | ⟨rfl, rfl⟩
  · exact hroom
  · rw [chatRoomName_comm]
    exact hroom

/-- The requests of different calls, and the different requests of one call,
are told apart by their document ids. -/
theorem write_injective {c d : Call} {i j : Nat} {w v : FriendWrite}
    (h : c.write i w = d.write j v) : i = j ∧ w = v := by
  cases w <;> cases v <;>
    simp only [Call.write, addToFriends, Write.addFriend.injEq, Write.setChat.injEq,
      FriendDoc.mk.injEq, DocId.call.injEq, placeholder, ChatDoc.mk.injEq, reduceCtorEq,
      false_and, and_false] at h
  · exact ⟨h.2.1.1, rfl⟩
  · exact ⟨h.2.1.1, rfl⟩
  · exact ⟨h.2.1.1, rfl⟩

/-- The write a call awaits has not been made. -/
theorem not_holds_of_awaiting {b : Backend} (ht : b.Traced) {i : Nat} {c : Call}
    {w : FriendWrite} (hc : b.calls[i]? = some c) (hw : c.progress = .awaiting w) :
    ¬ b.Holds (c.write i w) := by
  intro hholds
  obtain ⟨j, c', w', hc', hw', hwrite⟩ := (ht _ (ofCall_write c i w)).mp hholds
  obtain ⟨rfl, rfl⟩ := write_injective hwrite
  obtain rfl : c = c' := Option.some.inj (hc.symm.trans hc')
  rw [hw] at hw'
  cases w' with
  | own => exact absurd hw' List.not_mem_nil
  | friend => exact absurd hw' (by decide)
  | room => exact absurd hw' (by decide)

theorem whole_of_noHalf {s : Backend} (ht : Traced s) (hn : NoHalf s) : Whole s := by
  constructor
  · intro hq u f
    constructor
    · rw [hasFriend_iff_befriended ht hq hn, hasFriend_iff_befriended ht hq hn, Sym2.eq_swap]
    · intro h
      exact hasPlaceholder_of_befriended ht ((hasFriend_iff_befriended ht hq hn u f).mp h)
  · intro i c hc w hp w' hholds
    obtain ⟨j, d, v, hd, hv, hwrite⟩ := (ht _ (ofCall_write c i w')).mp hholds
    obtain ⟨rfl, rfl⟩ := write_injective hwrite
    obtain rfl : c = d := Option.some.inj (hc.symm.trans hd)
    rw [hp, hn _ c hc w hp] at hv
    exact absurd hv List.not_mem_nil

/-- A call that fails after its first write leaves that write behind. -/
theorem not_whole_of_fail {s t : Backend} (ht : Traced s) {l : Label}
    (hno : ¬ FailsFirst s l) (hl : step s l = some t) : ¬ Whole t := by
  cases l with
  | fail i =>
      obtain ⟨c, w, hc, hp, rfl⟩ := step_fail.mp hl
      intro hwhole
      apply hno
      intro p hawaited
      obtain rfl : (c, w) = p :=
        Option.some.inj ((awaited_eq_some.mpr ⟨hc, hp⟩).symm.trans hawaited)
      by_contra hw
      have hown : s.Holds (c.write i .own) := by
        refine (ht _ (ofCall_write c i .own)).mpr ⟨i, c, .own, hc, ?_, rfl⟩
        rw [hp]
        cases w with
        | own => exact absurd rfl hw
        | friend => decide
        | room => decide
      exact hwhole.2 i { c with progress := .failed w }
        ((getElem?_setProgress hc).mpr (Or.inl ⟨rfl, rfl⟩)) w rfl .own
        (holds_setProgress.mpr hown)
  | addToFriends _ _ => exact absurd trivial hno
  | write _ => exact absurd trivial hno
  | send _ _ _ _ => exact absurd trivial hno

/-- Friendship is whole in every state of a run exactly when each failing call
fails at its first write. -/
theorem friendship_whole_iff {ls : List Label} {s : Backend}
    (hr : run step empty ls = some s) :
    (∀ pre post t, ls = pre ++ post → run step empty pre = some t → Whole t) ↔
      Meets step FailsFirst empty ls := by
  refine safe_iff_meets (I := fun s => Traced s ∧ NoHalf s) ?_ ?_ ?_ ?_ hr
  · exact fun s hs => whole_of_noHalf hs.1 hs.2
  · exact fun s l t hs hok hl => ⟨traced_step hs.1 hl, noHalf_step hs.2 hok hl⟩
  · exact fun s l t hs hno hl => not_whole_of_fail hs.1 hno hl
  · exact ⟨traced_empty, fun i c hc => absurd hc (by simp [empty])⟩

/-- `ann` befriends `bob`, and the call of `bob` for `eve` fails at its first write. -/
def firstFailure : List Label :=
  [.addToFriends (text "ann@mail.com") (text "bob@mail.com"), .write 0,
    .addToFriends (text "bob@mail.com") (text "eve@mail.com"), .write 0, .fail 1, .write 0]

theorem friendship_whole_first_failure :
    ∃ s, run step empty firstFailure = some s ∧
      ∀ pre post t, firstFailure = pre ++ post → run step empty pre = some t → Whole t :=
  ⟨_, rfl, (friendship_whole_iff rfl).mpr (by decide)⟩

/-- The second write of a call fails: `bob` is a friend of `ann` for good, and
`ann` is no friend of `bob`. -/
theorem half_friendship :
    ∃ s, run step empty [.addToFriends (text "ann@mail.com") (text "bob@mail.com"),
      .write 0, .fail 0] = some s ∧ ¬ Whole s := by
  refine ⟨_, rfl, fun hwhole => ?_⟩
  have hsymm := (hwhole.1 (by decide) (text "ann@mail.com") (text "bob@mail.com")).1
  exact absurd (hsymm.mp (by decide)) (by decide)

end Chatsy.Friendship
