import Chatsy.Systems.SessionSound
import Chatsy.Systems.WorldSafety

/-!
# What a phone remembers between app starts

Of all that a process does, the preference `isLoggedIn` and the user of Firebase
Auth outlive it. They are written by different answers, in any order: a Login
press and a sign-out write the first, a sign-in, a new account and a completed
sign-out the second. An app start reads the first alone to choose its screen,
which then asks for the second.

## Implementation notes

The user of a new account is named by its registration, so the statements are
over any list of requests that begins with those of the run.
-/

namespace Chatsy

open Foundation RegistrationScreen

namespace Session

theorem isLoggedIn_pushPicked (s : Session) (pr : Press) (event : List UserDoc) (draw : Nat) :
    (s.pushPicked pr event draw).isLoggedIn = s.isLoggedIn := by
  unfold pushPicked
  split
  · exact isLoggedIn_pushFrom _ _ _
  · rfl

end Session

namespace Phone

/-- The value that a label writes into the preference. -/
def pref : Label → Option Bool
  | .session l => Session.pref l
  | _ => none

/-- The user that a label leaves signed in, or nobody. -/
def auth (norm : Text → Text) (rs : List Requests) : Label → Option (Option Text)
  | .session l => Session.auth l
  | .accountCreated i => some (rs[i]?.map fun r => norm r.createUser.1)
  | _ => none

variable {norm : Text → Text}

/-- The preference and the user of a phone after a step. -/
theorem remembered_of_step {c : Cloud} {p p' : Phone} {l : Label} {rs : List Request}
    {sent : List Requests} (h : step norm c p l = some (p', rs))
    (hsent : c.registry.registrations.map Registration.requests <+: sent) :
    p'.session.isLoggedIn = (pref l).or p.session.isLoggedIn ∧
      p'.session.currentUser = (auth norm sent l).getD p.session.currentUser := by
  cases stepped_of_step h with
  | @session l t _ ht =>
      rw [session_withSession]
      exact Session.remembered_step ht
  | tapTile _ _ _ ht => exact Session.remembered_step ht
  | @emit k pr keys draw _ _ =>
      exact ⟨Session.isLoggedIn_pushPicked _ _ _ _, Session.currentUser_pushPicked _ _ _ _⟩
  | @accountCreated i reg t hreg ht =>
      obtain ⟨more, rfl⟩ := hsent
      have hrequest : (c.registry.registrations.map Registration.requests ++ more)[i]? =
          some reg.requests := by
        rw [List.getElem?_append_left, List.getElem?_map, hreg]
        · rfl
        · simpa using (List.getElem?_eq_some_iff.mp hreg).1
      rw [auth, hrequest]
      exact Session.remembered_step ht
  | profileWritten i ht =>
      rcases ht with rfl | ht
      · exact ⟨rfl, rfl⟩
      · exact Session.remembered_step ht
  | lateUser _ _ => exact ⟨rfl, rfl⟩
  | position pos _ => exact ⟨rfl, rfl⟩
  | compose _ _ => exact ⟨rfl, rfl⟩
  | press _ => exact ⟨rfl, rfl⟩
  | located _ => exact ⟨rfl, rfl⟩
  | write _ => exact ⟨rfl, rfl⟩
  | fail _ => exact ⟨rfl, rfl⟩
  | register es _ => exact ⟨rfl, rfl⟩
  | accountFails i => exact ⟨rfl, rfl⟩
  | profileFails i => exact ⟨rfl, rfl⟩

end Phone

namespace World

variable {norm : Text → Text} {n k : Nat} {ls : List Label} {w w' : World}

/-- The forms sent in a run. -/
def forms (norm : Text → Text) (n : Nat) (ls : List Label) : List Requests :=
  Registry.requests ((toRegistry norm).sent (start n) ls)

/-- The last value written into the preference of a phone. -/
def lastPref (k : Nat) (ls : List Label) : Option Bool :=
  ((own k ls).filterMap Phone.pref).getLast?

/-- The user left by the last answer of Firebase Auth to a phone, of forms that begin with `rs`. -/
def lastUser (norm : Text → Text) (rs : List Requests) (k : Nat) (ls : List Label) : Option Text :=
  ((own k ls).filterMap (Phone.auth norm rs)).getLast?.join

/-- The preference and the user of a phone are the last ones written. -/
structure Remembers (norm : Text → Text) (rs : List Requests) (ls : List Label) (k : Nat)
    (p : Phone) : Prop where
  isLoggedIn : p.session.isLoggedIn = lastPref k ls
  currentUser : p.session.currentUser = lastUser norm rs k ls

theorem join_or (o o' : Option (Option Text)) : (o.or o').join = o.getD o'.join := by
  cases o <;> rfl

theorem remembers_step {rs : List Requests} {ls : List Label} {c : Cloud} {p p' : Phone}
    {l : Phone.Label} {sent : List Request} (h : Remembers norm rs ls k p)
    (hstep : Phone.step norm c p l = some (p', sent))
    (hrs : c.registry.registrations.map Registration.requests <+: rs) :
    Remembers norm rs (ls ++ [.phone k l]) k p' := by
  obtain ⟨hpref, huser⟩ := Phone.remembered_of_step hstep hrs
  constructor
  · rw [hpref, h.isLoggedIn, lastPref, lastPref, own_concat_self, getLast?_filterMap_concat]
  · rw [huser, h.currentUser, lastUser, lastUser, own_concat_self, getLast?_filterMap_concat,
      join_or]

/-- The forms of a run are those of its registrations. -/
theorem forms_eq (hr : run (step norm) (start n) ls = some w) :
    w.cloud.registry.registrations.map Registration.requests = forms norm n ls :=
  (Registry.follows_run ((toRegistry norm).run_sent hr)).sent

theorem prefix_forms (hr : run (step norm) (start n) ls = some w) (l : Label) :
    forms norm n ls <+: forms norm n (ls ++ [l]) := by
  rw [forms, forms, Simulation.sent, trace_concat _ _ hr, Registry.requests, Registry.requests,
    List.filterMap_append]
  exact List.prefix_append _ _

theorem remembers_run (hr : run (step norm) (start n) ls = some w) {rs : List Requests}
    (hrs : forms norm n ls <+: rs) : ∀ k p, w.phones[k]? = some p → Remembers norm rs ls k p := by
  intro k p hp
  refine phone_run (I := fun ls _ k p => forms norm n ls <+: rs → Remembers norm rs ls k p)
    ?_ ?_ ?_ hr k p hp hrs
  · exact fun k _ => ⟨rfl, rfl⟩
  · intro ls w l w' k p hw _ hl ih hrs
    have hold := ih ((prefix_forms hw l).trans hrs)
    constructor
    · rw [hold.isLoggedIn, lastPref, lastPref, own_concat_other hl]
    · rw [hold.currentUser, lastUser, lastUser, own_concat_other hl]
  · intro ls w l w' k p p' sent hw _ hstep _ ih hrs
    have hbefore := (prefix_forms hw _).trans hrs
    exact remembers_step (ih hbefore) hstep ((forms_eq hw).symm ▸ hbefore)

/-- An app start shows a `MainScreen` exactly when the last preference written on the phone is that
of a Login press, and the user it will get is the one left by the last answer of Firebase Auth,
whichever came later. -/
theorem restart_shows_iff (hr : run (step norm) (start n) ls = some w) {p : Phone}
    (h : step norm w (.phone k (.session .appStart)) = some w') (hp : w'.phones[k]? = some p) :
    (p.session.showsMain = true ↔ lastPref k ls = some true) ∧
      p.session.currentUser = lastUser norm (forms norm n ls) k ls := by
  obtain ⟨q, hq, ⟨_, hother⟩ | ⟨l, rs, hl, hstep, _⟩⟩ := phone_of_step h hp
  · exact absurd rfl (hother (.session .appStart))
  · obtain rfl := (Label.phone.inj hl).2
    obtain ⟨rfl, _⟩ := Prod.mk.inj (Option.some.inj hstep)
    have hremembers := remembers_run hr (List.prefix_refl _) k q hq
    rw [← hremembers.isLoggedIn, ← hremembers.currentUser]
    exact ⟨Session.isMain_home q.session.isLoggedIn, rfl⟩

/-- `ann` registers, and the app is started again before she logs in. -/
def annRestarts : List Label :=
  [.phone 0 (.session .appStart), .phone 0 (.session .openRegistration),
    .phone 0 (.register [.name (text "Ann"), .email (text "Ann@mail.com"),
      .password (text "secret")]), .phone 0 (.accountCreated 0)]

theorem annRestarts_signed_in :
    ∃ w w' p, run (step lowerCase) (start 1) annRestarts = some w ∧
      step lowerCase w (.phone 0 (.session .appStart)) = some w' ∧ w'.phones[0]? = some p ∧
      p.session.showsMain = false ∧ p.session.currentUser = some (text "ann@mail.com") := by
  have hr : run (step lowerCase) (start 1) annRestarts = some _ := rfl
  have hrestart : run (step lowerCase) (start 1)
      (annRestarts ++ [.phone 0 (.session .appStart)]) = some _ := rfl
  obtain ⟨w, hw, h⟩ := (run_concat_eq_some (step lowerCase)).mp hrestart
  obtain rfl := Option.some.inj (hr.symm.trans hw)
  obtain ⟨hmain, huser⟩ := restart_shows_iff hr h rfl
  refine ⟨_, _, _, hr, h, rfl, Bool.eq_false_iff.mpr fun hshows => ?_, huser.trans ?_⟩
  · exact absurd (hmain.mp hshows) (by decide)
  · decide +kernel

end World

end Chatsy
