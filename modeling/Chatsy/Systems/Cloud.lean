import Chatsy.Foundation.Simulation
import Chatsy.Systems.Friendship
import Chatsy.Systems.Messages
import Chatsy.Systems.Registration

/-!
# The servers that all phones share

Firebase Auth and the profiles on one side, the friends collections and the
chat rooms on the other. A request is a step of one of the two. The app deletes
no account, no profile, no friends entry and no message, so whatever the calls
and presses have stored the servers hold from then on.

## Implementation notes

A write whose path Firestore refuses can only fail. A Send press with such a
path sends nothing. A registration whose address leads below a friends
collection writes a document of that collection, beside those of the calls; it
is kept with the other documents of the registrations.
-/

namespace Chatsy

open Foundation

namespace Registry

/-- The collection `User` has a document at a key. -/
def HasProfile (s : Registry) (k : Text) : Prop := ∃ d, s.users k = some d

/-- The address leads to a document. -/
def HasDocument (s : Registry) (address : Text) : Prop :=
  ∃ path d, userDocument address = some path ∧ s.documents path = some d

variable {norm : Text → Text}

/-- No step removes an account. -/
theorem accounts_step {s t : Registry} {l : Label} (h : step norm s l = some t) {k : Text}
    (hk : k ∈ s.accounts) : k ∈ t.accounts := by
  cases l with
  | press es =>
      obtain rfl := step_press.mp h
      exact hk
  | accountCreated i =>
      obtain ⟨r, _, _, rfl⟩ := step_accountCreated.mp h
      exact List.mem_append_left _ hk
  | accountFails i =>
      obtain ⟨r, _, _, rfl⟩ := step_accountFails.mp h
      exact hk
  | profileWritten i =>
      obtain ⟨r, _, _, rfl⟩ := step_profileWritten.mp h
      exact hk
  | profileFails i =>
      obtain ⟨r, _, _, rfl⟩ := step_profileFails.mp h
      exact hk
  | locate email location =>
      obtain rfl := Option.some.inj h
      exact hk

/-- No step removes a profile. -/
theorem hasProfile_step {s t : Registry} {l : Label} (h : step norm s l = some t) {k : Text}
    (hk : s.HasProfile k) : t.HasProfile k := by
  cases l with
  | press es =>
      obtain rfl := step_press.mp h
      exact hk
  | accountCreated i =>
      obtain ⟨r, _, _, rfl⟩ := step_accountCreated.mp h
      exact hk
  | accountFails i =>
      obtain ⟨r, _, _, rfl⟩ := step_accountFails.mp h
      exact hk
  | profileWritten i =>
      obtain ⟨r, _, ⟨_, htaken⟩, rfl⟩ := step_profileWritten.mp h
      obtain ⟨path, hpath⟩ := Option.isSome_iff_exists.mp htaken
      by_cases heq : userPath k = path
      · subst heq
        exact ⟨r.requests.setData.2, by simp [users, answer, RegistrationScreen.setData, hpath]⟩
      · obtain ⟨d, hd⟩ := hk
        refine ⟨d, ?_⟩
        simp only [users, answer, RegistrationScreen.setData, hpath, Function.update_of_ne heq]
        exact hd
  | profileFails i =>
      obtain ⟨r, _, _, rfl⟩ := step_profileFails.mp h
      exact hk
  | locate email location =>
      obtain rfl := Option.some.inj h
      have hstored : ∃ d, s.documents (userPath k) = some d := hk
      cases userDocument email with
      | none => exact hstored
      | some path => exact exists_updateLocation.mpr hstored

/-- The documents of a friends collection are none of the documents of plain registrations. -/
theorem Plain.not_typed {s : Registry} (hs : s.Plain) {user id : Text} {p : Path}
    (hp : friendsCollection user = some p) : s.documents (p ++ [id]) = none := by
  apply Option.eq_none_iff_forall_ne_some.mpr
  intro d hd
  obtain ⟨k, _, hk, _, _⟩ := hs.documents _ d hd
  exact friendsCollection_ne_userPath hp hk

/-- In a plain registry the address of a profile leads to it. -/
theorem Plain.hasDocument {s : Registry} (hs : s.Plain) {k : Text} (hk : s.HasProfile k) :
    s.HasDocument k := by
  obtain ⟨d, hd⟩ := hk
  obtain ⟨k', hslash, hpath, _, hne⟩ := hs.documents _ d hd
  obtain rfl := userPath_injective hpath
  exact ⟨userPath k, d, (userDocument_of_slashless hslash).trans (if_neg hne), hd⟩

/-- In a plain registry a document is found under its own e-mail. -/
theorem Plain.hasProfile {s : Registry} (hs : s.Plain) {k : Text} {d : UserDoc}
    (hd : s.users k = some d) : d.email = some k := by
  obtain ⟨k', _, hk, hemail, _⟩ := hs.documents _ d hd
  rw [userPath_injective hk, hemail]

end Registry

/-- The friends collections and chat rooms, and the accounts and profiles. -/
structure Cloud where
  backend : Backend
  registry : Registry

/-- What a phone can ask of the servers. -/
inductive Request
  | backend (l : Backend.Label)
  | registry (l : Registry.Label)
  deriving DecidableEq, Repr

/-- The message of a press of Send. -/
def Request.message? : Request → Option Message
  | .backend l => Messages.ofLabel l
  | .registry _ => none

theorem Request.message?_eq_some {r : Request} {m : Message} :
    r.message? = some m ↔ r = .backend (.send m.sender m.receiver m.text m.time) := by
  cases r with
  | backend l =>
      rw [message?, Messages.ofLabel_eq_some, Request.backend.injEq]
  | registry l => simp [message?]

namespace Cloud

/-- Nothing has been stored. -/
def empty : Cloud := ⟨Backend.empty, Registry.empty⟩

/-- The document is one of `User/<user>/friends`: a call has added it, or a registration has written
it under an id that was typed. -/
def lists (c : Cloud) (user : Text) (d : FriendDoc) : Bool :=
  match d.id with
  | .typed id => (friendsCollection user).any fun path =>
      (c.registry.documents (path ++ [id])).any fun doc => doc.name = some d.name
  | _ => d ∈ c.backend.friends user

/-- The documents of a snapshot of `User/<user>/friends`, in some order. -/
def Snapshot (c : Cloud) (user : Text) (documents : List FriendDoc) : Prop :=
  documents.Nodup ∧ ∀ d, d ∈ documents ↔ c.lists user d = true

/-- The friends collection of the user has a document with this name. -/
def HasTile (c : Cloud) (user friendUser : Text) : Prop :=
  ∃ d, c.lists user d = true ∧ d.name = friendUser

/-- When no address is registered with a slash, the entries of a friends collection are those of
the calls. -/
theorem mem_friends_of_lists {c : Cloud} (hc : c.registry.Plain) {u : Text} {d : FriendDoc}
    (h : c.lists u d = true) : d ∈ c.backend.friends u := by
  obtain ⟨id, name⟩ := d
  cases id with
  | call number write => exact of_decide_eq_true h
  | send number => exact of_decide_eq_true h
  | typed id =>
      obtain ⟨path, hpath, hdoc⟩ := (Option.any_eq_true _ _).mp h
      rw [hc.not_typed hpath] at hdoc
      exact Bool.noConfusion hdoc

theorem lists_of_mem_friends {c : Cloud} {u : Text} {d : FriendDoc} (h : d ∈ c.backend.friends u)
    {i : Nat} {write : FriendWrite} (hid : d.id = .call i write) : c.lists u d = true := by
  rw [lists, hid]
  exact decide_eq_true h

theorem hasFriend_of_hasTile {c : Cloud} (hc : c.registry.Plain) {u f : Text}
    (h : c.HasTile u f) : Friendship.HasFriend c.backend u f := by
  obtain ⟨d, hd, hname⟩ := h
  exact ⟨d, mem_friends_of_lists hc hd, hname⟩

variable (norm : Text → Text)

def step (c : Cloud) : Request → Option Cloud
  | .backend l => (Backend.request c.backend l).map fun b => { c with backend := b }
  | .registry l => (Registry.step norm c.registry l).map fun r => { c with registry := r }

variable {norm} in
/-- A request to the backend is a step of it, or a Send press whose path is refused. -/
theorem step_backend {c c' : Cloud} {l : Backend.Label} (h : step norm c (.backend l) = some c') :
    (c.backend.takes l = true ∧
      ∃ b, Backend.step c.backend l = some b ∧ { c with backend := b } = c') ∨
    (c.backend.takes l = false ∧ l.isSend = true ∧ c = c') := by
  obtain ⟨b, hb, rfl⟩ := Option.map_eq_some_iff.mp h
  rcases Backend.request_cases hb with ⟨htakes, hstep⟩ | ⟨htakes, hsend, rfl⟩
  · exact Or.inl ⟨htakes, b, hstep, rfl⟩
  · exact Or.inr ⟨htakes, hsend, rfl⟩

/-- The friends collections and chat rooms follow the requests made to them. -/
def toBackend : Simulation (step norm) Backend.step where
  view := Cloud.backend
  acts := fun c r =>
    match r with
    | .backend l => c.backend.taken l
    | .registry _ => []
  follows := by
    intro c r c' h
    cases r with
    | backend l =>
        obtain ⟨b, hb, rfl⟩ := Option.map_eq_some_iff.mp h
        exact Backend.toSteps.follows c.backend l b hb
    | registry l =>
        obtain ⟨r, _, rfl⟩ := Option.map_eq_some_iff.mp h
        rfl

/-- The accounts and profiles follow the requests made to them. -/
def toRegistry : Simulation (step norm) (Registry.step norm) where
  view := Cloud.registry
  acts := fun _ r =>
    match r with
    | .backend _ => []
    | .registry l => [l]
  follows := by
    intro c r c' h
    cases r with
    | backend l =>
        rcases step_backend h with ⟨_, b, _, rfl⟩ | ⟨_, _, rfl⟩
        · rfl
        · rfl
    | registry l =>
        obtain ⟨r, hr, rfl⟩ := Option.map_eq_some_iff.mp h
        exact (run_singleton (Registry.step norm) c.registry l).trans hr

/-- Everything the servers hold is still there later. -/
structure Grows (c c' : Cloud) : Prop where
  stored : ∀ wr, c.backend.Holds wr → c'.backend.Holds wr
  accounts : ∀ k ∈ c.registry.accounts, k ∈ c'.registry.accounts
  profiles : ∀ k, c.registry.HasProfile k → c'.registry.HasProfile k

theorem Grows.refl (c : Cloud) : c.Grows c :=
  ⟨fun _ h => h, fun _ h => h, fun _ h => h⟩

theorem Grows.trans {c c' c'' : Cloud} (h : c.Grows c') (h' : c'.Grows c'') : c.Grows c'' where
  stored := fun wr hwr => h'.stored wr (h.stored wr hwr)
  accounts := fun k hk => h'.accounts k (h.accounts k hk)
  profiles := fun k hk => h'.profiles k (h.profiles k hk)

/-- A friend stays a friend. -/
theorem Grows.hasFriend {c c' : Cloud} (h : c.Grows c') {u f : Text}
    (hf : Friendship.HasFriend c.backend u f) : Friendship.HasFriend c'.backend u f := by
  obtain ⟨d, hd, hname⟩ := hf
  exact ⟨d, h.stored (.addFriend u d) hd, hname⟩

variable {norm}

theorem grows_step {c c' : Cloud} {r : Request} (h : step norm c r = some c') : c.Grows c' := by
  cases r with
  | backend l =>
      rcases step_backend h with ⟨_, b, hb, rfl⟩ | ⟨_, _, rfl⟩
      · exact ⟨fun _ => Backend.holds_step hb, fun _ hk => hk, fun _ hk => hk⟩
      · exact Grows.refl c
  | registry l =>
      obtain ⟨r, hr, rfl⟩ := Option.map_eq_some_iff.mp h
      exact ⟨fun _ hwr => hwr, fun _ => Registry.accounts_step hr,
        fun _ => Registry.hasProfile_step hr⟩

/-- Requests to the backend are a run of it. -/
theorem run_backend {c c' : Cloud} {ls : List Backend.Label}
    (h : run (step norm) c (ls.map .backend) = some c') :
    run Backend.request c.backend ls = some c'.backend := by
  induction ls generalizing c with
  | nil =>
      obtain rfl := Option.some.inj h
      rfl
  | cons l ls ih =>
      obtain ⟨c₁, hstep, h⟩ := Option.bind_eq_some_iff.mp h
      obtain ⟨b, hb, rfl⟩ := Option.map_eq_some_iff.mp hstep
      rw [run_cons, hb]
      exact ih h

/-- Requests to the registry leave the backend alone. -/
theorem backend_of_registry {c c' : Cloud} {rs : List Request}
    (h : run (step norm) c rs = some c') (hrs : ∀ r ∈ rs, ∃ l, r = .registry l) :
    c'.backend = c.backend := by
  induction rs generalizing c with
  | nil =>
      obtain rfl := Option.some.inj h
      rfl
  | cons r rs ih =>
      obtain ⟨c₁, hstep, h⟩ := Option.bind_eq_some_iff.mp h
      obtain ⟨l, rfl⟩ := hrs r List.mem_cons_self
      obtain ⟨registry, _, rfl⟩ := Option.map_eq_some_iff.mp hstep
      have hrest := ih h fun r' hr' => hrs r' (List.mem_cons_of_mem _ hr')
      exact hrest

/-- The calls after some requests are those from before and those the requests make. -/
theorem exists_call_of_run {c c' : Cloud} {rs : List Request}
    (h : run (step norm) c rs = some c') {call : DiscoverScreen.Call}
    (hcall : call ∈ c'.backend.calls) :
    (∃ call₀ ∈ c.backend.calls, call.user = call₀.user ∧ call.friendUser = call₀.friendUser) ∨
      .backend (.addToFriends call.user call.friendUser) ∈ rs := by
  induction rs generalizing c with
  | nil =>
      obtain rfl := Option.some.inj h
      exact Or.inl ⟨call, hcall, rfl, rfl⟩
  | cons r rs ih =>
      obtain ⟨c₁, hstep, h⟩ := Option.bind_eq_some_iff.mp h
      rcases ih h with ⟨call₁, hcall₁, huser, hfriend⟩ | hmem
      · rw [huser, hfriend]
        cases r with
        | backend l =>
            rcases step_backend hstep with ⟨_, b, hb, rfl⟩ | ⟨_, _, rfl⟩
            · rcases Backend.exists_call_of_mem hb hcall₁ with hold | rfl
              · exact Or.inl hold
              · exact Or.inr List.mem_cons_self
            · exact Or.inl ⟨call₁, hcall₁, rfl, rfl⟩
        | registry l =>
            obtain ⟨r, _, rfl⟩ := Option.map_eq_some_iff.mp hstep
            exact Or.inl ⟨call₁, hcall₁, rfl, rfl⟩
      · exact Or.inr (List.mem_cons_of_mem r hmem)

/-- A created account is there. -/
theorem mem_accounts_of_created {c c' : Cloud} {i : Nat} {r : Registration}
    (hr : c.registry.registrations[i]? = some r)
    (h : run (step norm) c [.registry (.accountCreated i)] = some c') :
    norm r.requests.createUser.1 ∈ c'.registry.accounts := by
  obtain ⟨c₁, hstep, hrun⟩ := Option.bind_eq_some_iff.mp h
  obtain rfl := Option.some.inj hrun
  obtain ⟨s, hs, rfl⟩ := Option.map_eq_some_iff.mp hstep
  obtain ⟨r', hr', _, rfl⟩ := Registry.step_accountCreated.mp hs
  obtain rfl : r = r' := Option.some.inj (hr.symm.trans hr')
  exact List.mem_append_right _ (List.mem_singleton.mpr rfl)

/-- What the backend is sent by some requests is among them. -/
theorem mem_of_mem_sent {c : Cloud} {rs : List Request} {l : Backend.Label}
    (h : l ∈ (toBackend norm).sent c rs) : .backend l ∈ rs := by
  obtain ⟨pre, r, post, _, rfl, _, hl⟩ := exists_step_of_mem_trace _ _ h
  cases r with
  | backend l' =>
      obtain ⟨_, hl⟩ := List.mem_ite_nil_right.mp hl
      obtain rfl := List.mem_singleton.mp hl
      exact List.mem_append_right pre List.mem_cons_self
  | registry l' => exact absurd hl List.not_mem_nil

/-- What the registry is sent by some requests is among them. -/
theorem mem_of_mem_sent_registry {c : Cloud} {rs : List Request} {l : Registry.Label}
    (h : l ∈ (toRegistry norm).sent c rs) : .registry l ∈ rs := by
  obtain ⟨pre, r, post, _, rfl, _, hl⟩ := exists_step_of_mem_trace _ _ h
  cases r with
  | backend l' => exact absurd hl List.not_mem_nil
  | registry l' =>
      obtain rfl := List.mem_singleton.mp hl
      exact List.mem_append_right pre List.mem_cons_self

/-- The messages that the backend is sent are those of the presses whose room Firestore takes. -/
theorem messages_sent {c c' : Cloud} {rs : List Request} (h : run (step norm) c rs = some c') :
    Messages.sent ((toBackend norm).sent c rs) =
      (rs.filterMap Request.message?).filter fun m =>
        (chatsCollection (Messages.roomOf m)).isSome := by
  refine run_induction (step norm) (motive := fun rs _ =>
    Messages.sent ((toBackend norm).sent c rs) = (rs.filterMap Request.message?).filter fun m =>
      (chatsCollection (Messages.roomOf m)).isSome) rfl ?_ h
  intro rs r d d' hd ih _
  rw [Simulation.sent, trace_concat _ _ hd, Messages.sent, List.filterMap_append, ← Messages.sent,
    ih, filterMap_concat, List.filter_append]
  congr 1
  cases r with
  | registry l => rfl
  | backend l =>
      change (if d.backend.takes l then [l] else []).filterMap Messages.ofLabel =
        (Messages.ofLabel l).toList.filter _
      cases hm : Messages.ofLabel l with
      | none => split <;> simp [hm]
      | some m =>
          obtain rfl := Messages.ofLabel_eq_some.mp hm
          have htakes : d.backend.takes (.send m.sender m.receiver m.text m.time) =
            (chatsCollection (Messages.roomOf m)).isSome := rfl
          by_cases h : (chatsCollection (Messages.roomOf m)).isSome = true
          · simp [htakes, h, hm]
          · simp [htakes, h]

theorem grows_run {c c' : Cloud} {rs : List Request} (h : run (step norm) c rs = some c') :
    c.Grows c' :=
  run_preserves (step norm) (I := c.Grows) (fun _ _ _ hc hs => hc.trans (grows_step hs))
    (Grows.refl c) h

end Cloud

end Chatsy
