import Chatsy.Systems.WorldSafety

/-!
# Who acts on which phone

The servers take what the phones send without asking who is signed in. The
phones keep to it by themselves: a phone acts only for users that have been
signed in on it before, however late the answers and emissions come and whoever
has signed in since. So every message, every call and every location is made on
a phone of its user.
-/

namespace Chatsy.World

open Foundation DiscoverScreen

variable {norm : Text → Text} {n : Nat}

/-- The user was signed in on phone `k` at some moment of the run. -/
def WasUser (norm : Text → Text) (n : Nat) (ls : List Label) (k : Nat) (u : Text) : Prop :=
  ∃ pre t p, pre <+: ls ∧ run (step norm) (start n) pre = some t ∧ t.phones[k]? = some p ∧
    p.session.currentUser = some u

/-- The user for whom a request is made. A write is made for the user of its call. -/
def actor (c : Cloud) : Request → Option Text
  | .backend (.addToFriends user _) => some user
  | .backend (.send user _ _ _) => some user
  | .backend (.write i) => c.backend.calls[i]?.map Call.user
  | .backend (.fail _) => none
  | .registry (.locate user _) => some user
  | .registry _ => none

theorem WasUser.append {ls : List Label} {k : Nat} {u : Text} (h : WasUser norm n ls k u)
    (ms : List Label) : WasUser norm n (ls ++ ms) k u := by
  obtain ⟨pre, t, p, hpre, ht, hp, hu⟩ := h
  exact ⟨pre, t, p, hpre.trans (List.prefix_append ls ms), ht, hp, hu⟩

/-- Whom a phone holds was signed in on it, and so was the user of each call it waits for. -/
structure Signed (norm : Text → Text) (n : Nat) (ls : List Label) (c : Cloud) (k : Nat)
    (p : Phone) : Prop where
  holds : ∀ u, p.Holds u → WasUser norm n ls k u
  calls : ∀ i ∈ p.calls, ∃ call, c.backend.calls[i]? = some call ∧ WasUser norm n ls k call.user

/-- A phone that has not moved stays signed. -/
theorem Signed.mono {ls : List Label} {c c' : Cloud} {k : Nat} {p : Phone} {rs : List Request}
    (h : Signed norm n ls c k p) (hrun : run (Cloud.step norm) c rs = some c') (l : Label) :
    Signed norm n (ls ++ [l]) c' k p where
  holds := fun u hu => (h.holds u hu).append [l]
  calls := by
    intro i hi
    obtain ⟨call, hcall, hwas⟩ := h.calls i hi
    obtain ⟨call', hcall', huser⟩ :=
      Backend.exists_call_of_run ((Cloud.toBackend norm).run_sent hrun) hcall
    exact ⟨call', hcall', huser ▸ hwas.append [l]⟩

/-- The step of a phone: it comes to hold its signed-in user, and a new call is for a user that it
holds. -/
theorem signed_of_spec {ls : List Label} {w : World} {c' : Cloud} {k : Nat} {p p' : Phone}
    {rs : List Request} (hr : run (step norm) (start n) ls = some w)
    (hp : w.phones[k]? = some p) (h : Signed norm n ls w.cloud k p)
    (hspec : Phone.Spec norm w.cloud p p' rs)
    (hrun : run (Cloud.step norm) w.cloud rs = some c') (l : Label) :
    Signed norm n (ls ++ [l]) c' k p' where
  holds := by
    intro u hu
    rcases hspec.holds u hu with hold | hcurrent
    · exact (h.holds u hold).append [l]
    · exact WasUser.append ⟨ls, w, p, List.prefix_refl ls, hr, hp, hcurrent⟩ [l]
  calls := by
    intro i hi
    rcases hspec.calls i hi with hold | ⟨rfl, user, friendUser, rfl⟩
    · exact (h.mono hrun l).calls i hold
    · obtain ⟨pr, hpr, huser, _⟩ := hspec.requests _ (List.mem_singleton.mpr rfl)
      obtain ⟨c₁, hstep, hnil⟩ := Option.bind_eq_some_iff.mp hrun
      obtain rfl := Option.some.inj hnil
      obtain rfl := Option.some.inj hstep
      refine ⟨_, Backend.getElem?_call.mpr (Or.inr ⟨rfl, rfl⟩), ?_⟩
      exact (h.holds user (Or.inr (Or.inl ⟨pr, hpr, huser⟩))).append [l]

/-- Along every run each phone holds only users that were signed in on it. -/
theorem signed_run {ls : List Label} {w : World} (hr : run (step norm) (start n) ls = some w) :
    ∀ k p, w.phones[k]? = some p → Signed norm n ls w.cloud k p := by
  apply phone_run (I := fun ls w k p => Signed norm n ls w.cloud k p) _ _ _ hr
  · intro k
    constructor
    · rintro u (⟨r, hr, _⟩ | ⟨pr, hpr, _⟩ | ⟨page, hpage, _⟩)
      · exact absurd hr List.not_mem_nil
      · exact absurd hpr List.not_mem_nil
      · exact absurd hpage List.not_mem_nil
    · exact fun i hi => absurd hi List.not_mem_nil
  · intro ls w l w' k p _ h _ ih
    obtain ⟨rs, _, hrun⟩ := (step_eq_some norm).mp h
    exact ih.mono hrun l
  · intro ls w l w' k p p' rs hw hp hstep hrun ih
    exact signed_of_spec hw hp ih (Phone.spec_step hstep) hrun _

/-- The user for whom a phone may ask something was signed in on it. -/
theorem wasUser_of_mayAsk {ls : List Label} {c : Cloud} {k : Nat} {p : Phone} {r : Request}
    {u : Text} (h : Signed norm n ls c k p) (hask : p.MayAsk c r) (hu : actor c r = some u) :
    WasUser norm n ls k u := by
  cases r with
  | backend l =>
      cases l with
      | addToFriends user friendUser =>
          obtain rfl := Option.some.inj hu
          obtain ⟨pr, hpr, huser, _⟩ := hask
          exact h.holds user (Or.inr (Or.inl ⟨pr, hpr, huser⟩))
      | send user friendEmail message now =>
          obtain rfl := Option.some.inj hu
          obtain ⟨page, hpage, huser, _⟩ := hask
          exact h.holds user (Or.inr (Or.inr ⟨page, hpage, huser⟩))
      | write i =>
          obtain ⟨call, hcall, hwas⟩ := h.calls i hask
          have hsame : actor c (.backend (.write i)) = some call.user := by
            rw [actor, hcall]
            rfl
          obtain rfl := Option.some.inj (hsame.symm.trans hu)
          exact hwas
      | fail i => exact absurd hu (Option.some_ne_none u).symm
  | registry l =>
      cases l with
      | locate user location =>
          obtain rfl := Option.some.inj hu
          exact h.holds user hask
      | press es => exact absurd hu (Option.some_ne_none u).symm
      | accountCreated i => exact absurd hu (Option.some_ne_none u).symm
      | accountFails i => exact absurd hu (Option.some_ne_none u).symm
      | profileWritten i => exact absurd hu (Option.some_ne_none u).symm
      | profileFails i => exact absurd hu (Option.some_ne_none u).symm

/-- The user of a phone's request was signed in on that phone. -/
theorem wasUser_of_mem_requests {ls : List Label} {w w' : World} {k : Nat} {l : Phone.Label}
    (hr : run (step norm) (start n) ls = some w) (h : step norm w (.phone k l) = some w')
    {r : Request} (hmem : r ∈ requests norm w (.phone k l)) {u : Text}
    (hu : actor w.cloud r = some u) : WasUser norm n ls k u := by
  obtain ⟨rs, hmoves, _⟩ := (step_eq_some norm).mp h
  rw [requests, hmoves] at hmem
  obtain ⟨phones', cloud'⟩ := w'
  cases moved_of_moves norm hmoves with
  | phone hp hstep =>
      exact wasUser_of_mayAsk (signed_run hr k _ hp) ((Phone.spec_step hstep).requests r hmem) hu

/-- A step of the run in which a phone sends a message, to the friend `y` in the name of `x`, who
has been signed in on that phone before. -/
def SentOn (norm : Text → Text) (n : Nat) (ls : List Label) (x y : Text) (message : Option Text)
    (now : Nat) : Prop :=
  ∃ pre k l post t, ls = pre ++ .phone k l :: post ∧ run (step norm) (start n) pre = some t ∧
    .backend (.send x y message now) ∈ requests norm t (.phone k l) ∧ WasUser norm n pre k x

/-- A message in the trace of a run was sent on a phone on which its sender was signed in. -/
theorem sentOn_of_mem_sent {ls : List Label} {w : World}
    (hr : run (step norm) (start n) ls = some w) {x y : Text} {message : Option Text} {now : Nat}
    (hmem : .send x y message now ∈ (toBackend norm).sent (start n) ls) :
    SentOn norm n ls x y message now := by
  obtain ⟨pre, l, post, t, rfl, ht, hacts⟩ := exists_step_of_mem_trace _ _ hmem
  obtain ⟨t₁, hstep, _⟩ := exists_step_of_split _ hr ht
  have hrequest : .backend (.send x y message now) ∈ requests norm t l :=
    Cloud.mem_of_mem_sent hacts
  rcases phone_of_mem_requests hstep hrequest with ⟨k, l, _, _, _, rfl, _⟩ | ⟨i, hi⟩
  · exact ⟨pre, k, l, post, t, rfl, ht, hrequest, wasUser_of_mem_requests ht hstep hrequest rfl⟩
  · simp at hi

/-- Every step of the run asks for something in the name of a user only on a phone on which that
user has been signed in before, and every stored message was sent by a step of a phone of its
sender, to its receiver and with its text and time. -/
structure Authentic (norm : Text → Text) (n : Nat) (ls : List Label) (w : World) : Prop where
  requests : ∀ pre k l post t, ls = pre ++ .phone k l :: post →
    run (step norm) (start n) pre = some t → ∀ r ∈ requests norm t (.phone k l),
      ∀ u, actor t.cloud r = some u → WasUser norm n pre k u
  messages : ∀ room, ∀ d ∈ w.cloud.backend.chats room, ∀ x, d.sender = some x →
    ∃ y now, d.receiver = some y ∧ d.time = some now ∧ room = ChatScreen.getDocumentName x y ∧
      SentOn norm n ls x y d.text now

/-- Whatever comes late and whoever signs in, the phones act for their own users only. -/
theorem phones_act_for_their_users {ls : List Label} {w : World}
    (hr : run (step norm) (start n) ls = some w) : Authentic norm n ls w where
  requests := by
    rintro pre k l post t rfl ht r hmem u hu
    obtain ⟨t₁, hstep, _⟩ := exists_step_of_split _ hr ht
    exact wasUser_of_mem_requests ht hstep hmem hu
  messages := by
    intro room d hd x hx
    have hrun := (toBackend norm).run_sent hr
    cases hm : d.message? with
    | none =>
        obtain ⟨id, rfl⟩ := Messages.shaped_run hrun room d hd hm
        exact absurd hx (Option.some_ne_none x).symm
    | some m =>
        obtain ⟨hsender, hreceiver, htext, htime⟩ := Messages.message?_eq_some.mp hm
        obtain rfl : m.sender = x := Option.some.inj (hsender.symm.trans hx)
        obtain ⟨hsent, hroom⟩ := Messages.mem_sent_of_mem hrun hd hm
        refine ⟨m.receiver, m.time, hreceiver, htime, hroom.symm, ?_⟩
        rw [htext]
        exact sentOn_of_mem_sent hr (Messages.mem_sent.mp hsent)

theorem annMeetsBob_authentic :
    ∃ w, run (step lowerCase) (start 2) annMeetsBob = some w ∧
      Authentic lowerCase 2 annMeetsBob w :=
  ⟨_, rfl, phones_act_for_their_users
    (rfl : run (step lowerCase) (start 2) annMeetsBob = some _)⟩

end Chatsy.World
