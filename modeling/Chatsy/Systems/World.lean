import Chatsy.Systems.Conversation
import Chatsy.Systems.Phone

/-!
# Any number of phones on one set of servers

A run of the world interleaves the steps of the phones, and the servers follow
it on the requests sent. From what a phone may ask it follows, for every run in
which no address is registered with a slash, what can be stored: calls are made
by accounts for addresses with a profile, and messages are sent by accounts to
their friends.

## Implementation notes

A write of `addToFriends` or of a registration that is under way when its
process ends can still take effect. That of `addToFriends` is then the last of
its call, as nobody goes on with it. A location is taken to be recorded with its
answer, so none is under way when a process ends.
-/

namespace Chatsy

open Foundation

/-- The phones, and the servers they share. -/
structure World where
  phones : List Phone
  cloud : Cloud

namespace World

/-- The app is installed on `n` phones, and nothing has been stored. -/
def start (n : Nat) : World := ⟨List.replicate n Phone.installed, Cloud.empty⟩

/-- The steps of the world: a phone makes a step, or a request of a process that has ended takes
effect. -/
inductive Label
  | phone (k : Nat) (l : Phone.Label)
  | lateWrite (i : Nat)
  | lateAccount (i : Nat)
  | lateProfile (i : Nat)
  deriving DecidableEq, Repr

/-- A press of Register has no slash in its e-mail. -/
def Label.plain : Label → Bool
  | .phone _ (.register es) => (Registry.Label.press es).plain
  | _ => true

/-- No press of Register in the run has a slash in its e-mail. -/
def Plain (ls : List Label) : Prop := ∀ l ∈ ls, l.plain = true

instance (ls : List Label) : Decidable (Plain ls) :=
  inferInstanceAs (Decidable (∀ l ∈ ls, l.plain = true))

theorem plain_concat {ls : List Label} {l : Label} :
    Plain (ls ++ [l]) ↔ Plain ls ∧ l.plain = true := by
  simp [Plain, or_imp, forall_and]

/-- The labels of phone `k`. -/
def own (k : Nat) (ls : List Label) : List Phone.Label :=
  ls.filterMap fun
    | .phone j l => if j = k then some l else none
    | _ => none

theorem own_concat_self (k : Nat) (ls : List Label) (l : Phone.Label) :
    own k (ls ++ [.phone k l]) = own k ls ++ [l] := by
  rw [own, filterMap_concat]
  simp [own]

theorem own_concat_other {k : Nat} {l : Label} (h : ∀ l', l ≠ .phone k l') (ls : List Label) :
    own k (ls ++ [l]) = own k ls := by
  rw [own, filterMap_concat]
  cases l with
  | phone j l =>
      have hjk : j ≠ k := fun hjk => h l (hjk ▸ rfl)
      simp [own, hjk]
  | lateWrite i => exact List.append_nil _
  | lateAccount i => exact List.append_nil _
  | lateProfile i => exact List.append_nil _

/-- A write of a call that nobody goes on with. -/
def lateRequests (b : Backend) (i : Nat) : List Request := (b.lateWrite i).map Request.backend

theorem mem_lateRequests {b : Backend} {i : Nat} {r : Request} (h : r ∈ lateRequests b i) :
    r = .backend (.write i) ∨ r = .backend (.fail i) := by
  obtain ⟨l, hl, rfl⟩ := List.mem_map.mp h
  rcases Backend.mem_lateWrite hl with rfl | rfl
  · exact Or.inl rfl
  · exact Or.inr rfl

variable (norm : Text → Text)

/-- The phones after a step, and the requests sent in it. -/
def moves (w : World) : Label → Option (List Phone × List Request)
  | .phone k l =>
      w.phones[k]?.bind fun p =>
        (Phone.step norm w.cloud p l).map fun (p', rs) => (w.phones.set k p', rs)
  | .lateWrite i =>
      if w.phones.all fun p => i ∉ p.calls then some (w.phones, lateRequests w.cloud.backend i)
      else none
  | .lateAccount i =>
      if w.phones.all fun p => !p.registers i then
        some (w.phones, [.registry (.accountCreated i)])
      else none
  | .lateProfile i =>
      if w.phones.all fun p => !p.registers i then
        some (w.phones, [.registry (.profileWritten i)])
      else none

def step (w : World) (l : Label) : Option World :=
  (moves norm w l).bind fun (phones, rs) =>
    (run (Cloud.step norm) w.cloud rs).map fun c => ⟨phones, c⟩

/-- What a step of the world is: the phones after it and the requests sent. -/
inductive Moved (w : World) : Label → List Phone → List Request → Prop
  | phone {k : Nat} {l : Phone.Label} {p p' : Phone} {rs : List Request}
      (hp : w.phones[k]? = some p) (hstep : Phone.step norm w.cloud p l = some (p', rs)) :
      Moved w (.phone k l) (w.phones.set k p') rs
  | lateWrite {i : Nat} (hdetached : ∀ p ∈ w.phones, i ∉ p.calls) :
      Moved w (.lateWrite i) w.phones (lateRequests w.cloud.backend i)
  | lateAccount {i : Nat} (hdetached : ∀ p ∈ w.phones, p.registers i = false) :
      Moved w (.lateAccount i) w.phones [.registry (.accountCreated i)]
  | lateProfile {i : Nat} (hdetached : ∀ p ∈ w.phones, p.registers i = false) :
      Moved w (.lateProfile i) w.phones [.registry (.profileWritten i)]

theorem moved_of_moves {w : World} {l : Label} {phones : List Phone} {rs : List Request}
    (h : moves norm w l = some (phones, rs)) : Moved norm w l phones rs := by
  cases l with
  | phone k l =>
      obtain ⟨p, hp, h⟩ := Option.bind_eq_some_iff.mp h
      obtain ⟨⟨p', rs'⟩, hstep, heq⟩ := Option.map_eq_some_iff.mp h
      obtain ⟨rfl, rfl⟩ := Prod.mk.inj heq
      exact .phone hp hstep
  | lateWrite i =>
      obtain ⟨hdetached, heq⟩ := guarded_eq_some.mp h
      obtain ⟨rfl, rfl⟩ := Prod.mk.inj heq
      exact .lateWrite (by simpa using hdetached)
  | lateAccount i =>
      obtain ⟨hdetached, heq⟩ := guarded_eq_some.mp h
      obtain ⟨rfl, rfl⟩ := Prod.mk.inj heq
      exact .lateAccount (by simpa using hdetached)
  | lateProfile i =>
      obtain ⟨hdetached, heq⟩ := guarded_eq_some.mp h
      obtain ⟨rfl, rfl⟩ := Prod.mk.inj heq
      exact .lateProfile (by simpa using hdetached)

theorem step_eq_some {w w' : World} {l : Label} :
    step norm w l = some w' ↔ ∃ rs, moves norm w l = some (w'.phones, rs) ∧
      run (Cloud.step norm) w.cloud rs = some w'.cloud := by
  simp only [step, Option.bind_eq_some_iff, Option.map_eq_some_iff]
  constructor
  · rintro ⟨⟨phones, rs⟩, hmoves, c, hc, rfl⟩
    exact ⟨rs, hmoves, hc⟩
  · rintro ⟨rs, hmoves, hc⟩
    exact ⟨(w'.phones, rs), hmoves, w'.cloud, hc, rfl⟩

/-- The requests of a step. -/
def requests (w : World) (l : Label) : List Request := ((moves norm w l).map Prod.snd).getD []

/-- The servers follow the requests sent to them. -/
def toCloud : Simulation (step norm) (Cloud.step norm) where
  view := World.cloud
  acts := requests norm
  follows := by
    intro w l w' h
    obtain ⟨rs, hmoves, hrun⟩ := (step_eq_some norm).mp h
    rw [requests, hmoves]
    exact hrun

/-- The friends collections and chat rooms behind a run of the world. -/
def toBackend : Simulation (step norm) Backend.step := (toCloud norm).comp (Cloud.toBackend norm)

/-- The accounts and profiles behind a run of the world. -/
def toRegistry : Simulation (step norm) (Registry.step norm) :=
  (toCloud norm).comp (Cloud.toRegistry norm)

/-- The address is that of an account or the key of a profile. -/
def Registered (c : Cloud) (a : Text) : Prop :=
  a ∈ c.registry.accounts ∨ c.registry.HasProfile a

/-- A call is made by an account for another address with a profile, and a message is sent by an
account to a friend. -/
def Proper (c : Cloud) : Backend.Label → Prop
  | .addToFriends user friendUser =>
      user ∈ c.registry.accounts ∧ c.registry.HasProfile friendUser ∧ friendUser ≠ user
  | .send user friendEmail _ _ =>
      user ∈ c.registry.accounts ∧ Friendship.HasFriend c.backend user friendEmail
  | .write _ => True
  | .fail _ => True

/-- The users of the phones are accounts, the addresses found by their presses have profiles and
are not the user's, chats are open on friends, and calls join an account and another profile. -/
structure Sound (w : World) : Prop where
  accounts : ∀ p ∈ w.phones, ∀ u, p.session.currentUser = some u ∨ p.Holds u →
    u ∈ w.cloud.registry.accounts
  collected : ∀ p ∈ w.phones, ∀ pr ∈ p.presses, ∀ f ∈ pr.subscription.randomUserString,
    w.cloud.registry.HasProfile f ∧ pr.subscription.user ≠ some f
  pages : ∀ p ∈ w.phones, ∀ page ∈ p.pages,
    Friendship.HasFriend w.cloud.backend page.user page.friendEmail
  calls : ∀ c ∈ w.cloud.backend.calls, c.user ∈ w.cloud.registry.accounts ∧
    w.cloud.registry.HasProfile c.friendUser ∧ c.friendUser ≠ c.user

variable {norm}

theorem grows_step {w w' : World} {l : Label} (h : step norm w l = some w') :
    w.cloud.Grows w'.cloud := by
  obtain ⟨rs, _, hrun⟩ := (step_eq_some norm).mp h
  exact Cloud.grows_run hrun

/-- A phone is as before a step of others, or has made the step. -/
theorem phone_of_step {w w' : World} {l : Label} (h : step norm w l = some w') {k : Nat}
    {p' : Phone} (hp' : w'.phones[k]? = some p') :
    ∃ p, w.phones[k]? = some p ∧ ((p' = p ∧ ∀ l', l ≠ .phone k l') ∨ ∃ l' rs, l = .phone k l' ∧
      Phone.step norm w.cloud p l' = some (p', rs) ∧
      run (Cloud.step norm) w.cloud rs = some w'.cloud) := by
  obtain ⟨rs, hmoves, hrun⟩ := (step_eq_some norm).mp h
  obtain ⟨phones', cloud'⟩ := w'
  cases moved_of_moves norm hmoves with
  | @phone j l p q rs hp hstep =>
      change (w.phones.set j q)[k]? = some p' at hp'
      by_cases hjk : j = k
      · subst hjk
        rw [List.getElem?_set_self (List.getElem?_eq_some_iff.mp hp).1] at hp'
        obtain rfl := Option.some.inj hp'
        exact ⟨p, hp, Or.inr ⟨l, rs, rfl, hstep, hrun⟩⟩
      · rw [List.getElem?_set_ne hjk] at hp'
        exact ⟨p', hp', Or.inl ⟨rfl, fun l' hl => hjk (Label.phone.inj hl).1⟩⟩
  | lateWrite _ => exact ⟨p', hp', Or.inl ⟨rfl, by simp⟩⟩
  | lateAccount _ => exact ⟨p', hp', Or.inl ⟨rfl, by simp⟩⟩
  | lateProfile _ => exact ⟨p', hp', Or.inl ⟨rfl, by simp⟩⟩

/-- What holds of a phone that has just been installed, and is kept by its own steps and those of
others, holds of every phone along every run. -/
theorem phone_run {n : Nat} {I : List Label → World → Nat → Phone → Prop}
    (hinstalled : ∀ k, I [] (start n) k Phone.installed)
    (hother : ∀ ls w l w' k p, run (step norm) (start n) ls = some w → step norm w l = some w' →
      (∀ l', l ≠ .phone k l') → I ls w k p → I (ls ++ [l]) w' k p)
    (hown : ∀ ls w l w' k p p' rs, run (step norm) (start n) ls = some w →
      w.phones[k]? = some p → Phone.step norm w.cloud p l = some (p', rs) →
      run (Cloud.step norm) w.cloud rs = some w'.cloud → I ls w k p →
      I (ls ++ [.phone k l]) w' k p')
    {ls : List Label} {w : World} (hr : run (step norm) (start n) ls = some w) :
    ∀ k p, w.phones[k]? = some p → I ls w k p := by
  refine run_induction (step norm)
    (motive := fun ls w => ∀ k p, w.phones[k]? = some p → I ls w k p) ?_ ?_ hr
  · intro k p hp
    obtain rfl := List.eq_of_mem_replicate (List.mem_of_getElem? hp)
    exact hinstalled k
  · intro ls l w w' hw ih h k p' hp'
    obtain ⟨p, hp, ⟨rfl, hl⟩ | ⟨l', rs, rfl, hstep, hrun⟩⟩ := phone_of_step h hp'
    · exact hother ls w l w' k p' hw h hl (ih k p' hp)
    · exact hown ls w l' w' k p p' rs hw hp hstep hrun (ih k p hp)

/-- A phone of the next state is one from before, or has made the step, which did to it what a step
of a phone does. -/
theorem mem_phones_of_step {w w' : World} {l : Label} (h : step norm w l = some w') {p' : Phone}
    (hp' : p' ∈ w'.phones) : p' ∈ w.phones ∨ ∃ p ∈ w.phones, ∃ rs,
      Phone.Spec norm w.cloud p p' rs ∧ run (Cloud.step norm) w.cloud rs = some w'.cloud := by
  obtain ⟨k, hk⟩ := List.mem_iff_getElem?.mp hp'
  obtain ⟨p, hp, ⟨rfl, _⟩ | ⟨l', rs, _, hstep, hrun⟩⟩ := phone_of_step h hk
  · exact Or.inl (List.mem_of_getElem? hp)
  · exact Or.inr ⟨p, List.mem_of_getElem? hp, rs, Phone.spec_step hstep, hrun⟩

/-- A request is sent by a step of a phone, or belongs to a process that has ended. -/
theorem phone_of_mem_requests {w w' : World} {l : Label} (h : step norm w l = some w')
    {r : Request} (hr : r ∈ requests norm w l) :
    (∃ k l' p p' rs, l = .phone k l' ∧ w.phones[k]? = some p ∧
      Phone.step norm w.cloud p l' = some (p', rs) ∧ r ∈ rs) ∨
    ∃ i, r = .backend (.write i) ∨ r = .backend (.fail i) ∨
      r = .registry (.accountCreated i) ∨ r = .registry (.profileWritten i) := by
  obtain ⟨rs, hmoves, _⟩ := (step_eq_some norm).mp h
  rw [requests, hmoves] at hr
  obtain ⟨phones', cloud'⟩ := w'
  cases moved_of_moves norm hmoves with
  | @phone k l p q rs hp hstep => exact Or.inl ⟨k, l, p, q, rs, rfl, hp, hstep, hr⟩
  | @lateWrite i _ =>
      refine Or.inr ⟨i, ?_⟩
      rcases mem_lateRequests hr with rfl | rfl
      · exact Or.inl rfl
      · exact Or.inr (Or.inl rfl)
  | @lateAccount i _ => exact Or.inr ⟨i, Or.inr (Or.inr (Or.inl (List.mem_singleton.mp hr)))⟩
  | @lateProfile i _ => exact Or.inr ⟨i, Or.inr (Or.inr (Or.inr (List.mem_singleton.mp hr)))⟩

theorem Proper.mono {c c' : Cloud} (h : c.Grows c') {l : Backend.Label} (hl : Proper c l) :
    Proper c' l := by
  cases l with
  | addToFriends user friendUser =>
      exact ⟨h.accounts user hl.1, h.profiles friendUser hl.2.1, hl.2.2⟩
  | send user friendEmail message now => exact ⟨h.accounts user hl.1, h.hasFriend hl.2⟩
  | write i => trivial
  | fail i => trivial

/-- A document is found under its own e-mail. -/
theorem hasProfile_of_listed {c : Cloud} (hplain : c.registry.Plain) {f : Text}
    (h : Phone.Listed c f) : c.registry.HasProfile f := by
  obtain ⟨k, d, hd, _, rfl⟩ := h
  rw [hplain.hasProfile hd]
  exact ⟨d, hd⟩

/-- A phone of a sound world asks for nothing improper. -/
theorem proper_of_mayAsk {w : World} (hw : Sound w)
    (hplain : w.cloud.registry.Plain) {p : Phone}
    (hp : p ∈ w.phones) {l : Backend.Label} (h : p.MayAsk w.cloud (.backend l)) :
    Proper w.cloud l := by
  cases l with
  | addToFriends user friendUser =>
      obtain ⟨pr, hpr, huser, hfriend⟩ := h
      have haccount : user ∈ w.cloud.registry.accounts :=
        hw.accounts p hp user (Or.inr (Or.inr (Or.inl ⟨pr, hpr, huser⟩)))
      rcases hfriend with hfriend | ⟨hne, hlisted⟩
      · obtain ⟨hprofile, hne⟩ := hw.collected p hp pr hpr friendUser hfriend
        refine ⟨haccount, hprofile, fun heq => hne ?_⟩
        rw [huser, heq]
      · exact ⟨haccount, hasProfile_of_listed hplain hlisted, hne⟩
  | send user friendEmail message now =>
      obtain ⟨page, hpage, rfl, rfl⟩ := h
      exact ⟨hw.accounts p hp page.user (Or.inr (Or.inr (Or.inr ⟨page, hpage, rfl⟩))),
        hw.pages p hp page hpage⟩
  | write i => trivial
  | fail i => trivial

/-- What a step sends to the backend is proper. -/
theorem proper_of_mem_requests {w w' : World} {l : Label} (hw : Sound w)
    (hplain : w.cloud.registry.Plain)
    (h : step norm w l = some w') {l' : Backend.Label}
    (hl' : .backend l' ∈ requests norm w l) : Proper w.cloud l' := by
  rcases phone_of_mem_requests h hl' with ⟨k, l, p, p', rs, _, hp, hstep, hmem⟩ | ⟨i, hi⟩
  · exact proper_of_mayAsk hw hplain (List.mem_of_getElem? hp)
      ((Phone.spec_step hstep).requests _ hmem)
  · rcases hi with hi | hi | hi | hi
    · obtain rfl := Request.backend.inj hi
      trivial
    · obtain rfl := Request.backend.inj hi
      trivial
    · exact Request.noConfusion hi
    · exact Request.noConfusion hi

theorem sound_start (n : Nat) : Sound (start n) := by
  have hinstalled : ∀ p ∈ (start n).phones, p = Phone.installed := fun p hp =>
    List.eq_of_mem_replicate hp
  constructor
  · intro p hp u hu
    rw [hinstalled p hp] at hu
    rcases hu with hu | hu | ⟨pr, hpr, _⟩ | ⟨page, hpage, _⟩
    · exact absurd hu (Option.some_ne_none u).symm
    · obtain ⟨r, hr, _⟩ := hu
      exact absurd hr List.not_mem_nil
    · exact absurd hpr List.not_mem_nil
    · exact absurd hpage List.not_mem_nil
  · intro p hp pr hpr
    rw [hinstalled p hp] at hpr
    exact absurd hpr List.not_mem_nil
  · intro p hp page hpage
    rw [hinstalled p hp] at hpage
    exact absurd hpage List.not_mem_nil
  · exact fun c hc => absurd hc List.not_mem_nil

/-- A new account of the phone is one of the servers. -/
theorem mem_accounts_of_spec {c c' : Cloud} {p p' : Phone} {rs : List Request}
    (hspec : Phone.Spec norm c p p' rs) (hrun : run (Cloud.step norm) c rs = some c')
    (hp : ∀ u, p.session.currentUser = some u ∨ p.Holds u → u ∈ c.registry.accounts) {u : Text}
    (hu : p'.session.currentUser = some u ∨ p'.Holds u) : u ∈ c'.registry.accounts := by
  have hgrows := Cloud.grows_run hrun
  rcases hu with hu | hu
  · rcases hspec.currentUser u hu with hold | haccount | ⟨i, r, rfl, hr, rfl⟩
    · exact hgrows.accounts u (hp u (Or.inl hold))
    · exact hgrows.accounts u haccount
    · exact Cloud.mem_accounts_of_created hr hrun
  · rcases hspec.holds u hu with hold | hcurrent
    · exact hgrows.accounts u (hp u (Or.inr hold))
    · exact hgrows.accounts u (hp u (Or.inl hcurrent))

theorem sound_step {w w' : World} {l : Label} (hw : Sound w)
    (hplain : w.cloud.registry.Plain)
    (h : step norm w l = some w') : Sound w' := by
  have hgrows := grows_step h
  constructor
  · intro p' hp' u hu
    rcases mem_phones_of_step h hp' with hold | ⟨p, hp, rs, hspec, hrun⟩
    · exact hgrows.accounts u (hw.accounts p' hold u hu)
    · exact mem_accounts_of_spec hspec hrun (hw.accounts p hp) hu
  · intro p' hp' pr' hpr' f hf
    rcases mem_phones_of_step h hp' with hold | ⟨p, hp, rs, hspec, _⟩
    · obtain ⟨hprofile, hne⟩ := hw.collected p' hold pr' hpr' f hf
      exact ⟨hgrows.profiles f hprofile, hne⟩
    · rcases hspec.presses pr' hpr' with hnil | ⟨pr, hpr, huser, hlist⟩
      · rw [hnil] at hf
        exact absurd hf List.not_mem_nil
      · rw [huser]
        rcases hlist f hf with hold | ⟨hne, hlisted⟩
        · obtain ⟨hprofile, hne⟩ := hw.collected p hp pr hpr f hold
          exact ⟨hgrows.profiles f hprofile, hne⟩
        · exact ⟨hgrows.profiles f (hasProfile_of_listed hplain hlisted), hne⟩
  · intro p' hp' page' hpage'
    rcases mem_phones_of_step h hp' with hold | ⟨p, hp, rs, hspec, _⟩
    · exact hgrows.hasFriend (hw.pages p' hold page' hpage')
    · rcases hspec.pages page' hpage' with ⟨page, hpage, huser, hfriend⟩ | hfriend
      · rw [huser, hfriend]
        exact hgrows.hasFriend (hw.pages p hp page hpage)
      · exact hgrows.hasFriend (Cloud.hasFriend_of_hasTile hplain hfriend)
  · intro c hc
    rcases Cloud.exists_call_of_run ((toCloud norm).follows w l w' h) hc with
      ⟨c₀, hc₀, huser, hfriend⟩ | hmem
    · rw [huser, hfriend]
      obtain ⟨haccount, hprofile, hne⟩ := hw.calls c₀ hc₀
      exact ⟨hgrows.accounts _ haccount, hgrows.profiles _ hprofile, hne⟩
    · exact (proper_of_mem_requests hw hplain h hmem).mono hgrows

/-- A step that types no slash requests no registration with one. -/
theorem plain_of_mem_requests {w w' : World} {l : Label} (hl : l.plain = true)
    (h : step norm w l = some w') {l' : Registry.Label}
    (hmem : .registry l' ∈ requests norm w l) : l'.plain = true := by
  cases l' with
  | press es =>
      rcases phone_of_mem_requests h hmem with ⟨k, l, p, p', rs, rfl, _, hstep, hrs⟩ | ⟨i, hi⟩
      · obtain rfl := Phone.register_of_press hstep hrs
        exact hl
      · simp at hi
  | accountCreated i => rfl
  | accountFails i => rfl
  | profileWritten i => rfl
  | profileFails i => rfl
  | locate email location => rfl

theorem plainRegistry_step {w w' : World} {l : Label} (hw : w.cloud.registry.Plain)
    (hl : l.plain = true) (h : step norm w l = some w') : w'.cloud.registry.Plain := by
  have hsent : ∀ l' ∈ (toRegistry norm).acts w l, l'.plain = true := fun l' hl' =>
    plain_of_mem_requests hl h (Cloud.mem_of_mem_sent_registry hl')
  refine run_induction (Registry.step norm)
    (motive := fun ls r => (∀ l' ∈ ls, l'.plain = true) → r.Plain) (fun _ => hw) ?_
    ((toRegistry norm).follows w l w' h) hsent
  intro ls l r r' _ ih hr' hls
  exact Registry.plain_step (ih fun l' hl' => hls l' (List.mem_append_left _ hl'))
    (hls l (by simp)) hr'

/-- As long as no address is registered with a slash, the documents are those of `User`. -/
theorem plainRegistry_run {n : Nat} {ls : List Label} {w : World}
    (hr : run (step norm) (start n) ls = some w) (hls : Plain ls) : w.cloud.registry.Plain := by
  refine run_induction (step norm) (motive := fun ls w => Plain ls → w.cloud.registry.Plain)
    (fun _ => Registry.plain_empty) ?_ hr hls
  intro ls l w w' _ ih h hls
  obtain ⟨hls, hl⟩ := plain_concat.mp hls
  exact plainRegistry_step (ih hls) hl h

theorem sound_run {n : Nat} {ls : List Label} {w : World}
    (hr : run (step norm) (start n) ls = some w) (hls : Plain ls) : Sound w := by
  refine run_induction (step norm) (motive := fun ls w => Plain ls → Sound w)
    (fun _ => sound_start n) ?_ hr hls
  intro ls l w w' hw ih h hls
  obtain ⟨hls, _⟩ := plain_concat.mp hls
  exact sound_step (ih hls) (plainRegistry_run hw hls) h

end World

end Chatsy
