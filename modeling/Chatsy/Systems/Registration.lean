import Chatsy.Foundation.Runs
import Chatsy.Foundation.Weights
import Chatsy.Screens.RegistrationScreen

/-!
# Accounts and profiles under concurrent registrations

A press of Register starts an account creation and a profile write, which
succeed or fail on their own and in any order, between those of other presses.
Firebase Auth knows an account by the normalised address, and the profile is
written where the address leads as it was typed; the other screens look the
profile up under the address of the account.

## Implementation notes

The normalisation is a parameter. `MainScreen`, `HomeScreen` and
`ProfileScreen` all paste the address of the account itself into the path. The
location update of a `MainScreen` is the one other write to these documents. A
write to a path that Firestore refuses can only fail.
-/

namespace Chatsy

open RegistrationScreen

/-- A registration and the answers to its two requests. -/
structure Registration where
  requests : Requests
  created : Option Bool
  written : Option Bool
  deriving DecidableEq, Repr

/-- The accounts by their addresses, the documents written by registrations, and the
registrations so far. -/
structure Registry where
  accounts : List Text
  documents : Documents
  registrations : List Registration

namespace Registry

open Foundation

/-- No account, no document and no registration. -/
def empty : Registry where
  accounts := []
  documents := fun _ => none
  registrations := []

/-- The documents of the collection `User`. -/
def users (s : Registry) : Users := fun id => s.documents (userPath id)

/-- The steps of the registry. -/
inductive Label
  | press (es : List Edit)
  | accountCreated (i : Nat)
  | accountFails (i : Nat)
  | profileWritten (i : Nat)
  | profileFails (i : Nat)
  | locate (email : Text) (location : GeoPoint)
  deriving DecidableEq, Repr

/-- `updateData` of the location: it changes the one field of an existing document. -/
def updateLocation {K : Type} [DecidableEq K] (documents : K → Option UserDoc) (key : K)
    (location : GeoPoint) : K → Option UserDoc :=
  match documents key with
  | some d => Function.update documents key (some { d with location := some location })
  | none => documents

/-- Replaces a registration. -/
def answer (s : Registry) (i : Nat) (r : Registration) : Registry :=
  { s with registrations := s.registrations.set i r }

variable (norm : Text → Text)

/-- An address in use is refused by Firebase Auth, and a path with no document by Firestore. -/
def step (s : Registry) : Label → Option Registry
  | .press es =>
      match onPressed (edited es) with
      | some r => some { s with registrations := s.registrations ++ [⟨r, none, none⟩] }
      | none => some s
  | .accountCreated i =>
      s.registrations[i]?.bind fun r =>
        if r.created = none ∧ norm r.requests.createUser.1 ∉ s.accounts then
          some (({ s with accounts := s.accounts ++ [norm r.requests.createUser.1] } :
            Registry).answer i { r with created := some true })
        else none
  | .accountFails i =>
      s.registrations[i]?.bind fun r =>
        if r.created = none then some (s.answer i { r with created := some false }) else none
  | .profileWritten i =>
      s.registrations[i]?.bind fun r =>
        if r.written = none ∧ (userDocument r.requests.setData.1).isSome = true then
          some (({ s with
            documents := setData s.documents r.requests.setData.1 r.requests.setData.2 } :
              Registry).answer i { r with written := some true })
        else none
  | .profileFails i =>
      s.registrations[i]?.bind fun r =>
        if r.written = none then some (s.answer i { r with written := some false }) else none
  | .locate email location =>
      some { s with
        documents := (userDocument email).elim s.documents fun path =>
          updateLocation s.documents path location }

/-- No registration is in progress. -/
def Quiet (s : Registry) : Prop :=
  ∀ r ∈ s.registrations, r.created.isSome = true ∧ r.written.isSome = true

instance (s : Registry) : Decidable s.Quiet :=
  inferInstanceAs (Decidable (∀ r ∈ s.registrations, _))

/-- Every account has its profile: its address leads to a document of `User` with that address. -/
def Profiled (s : Registry) : Prop :=
  ∀ k ∈ s.accounts, ∃ id d, userDocument k = some (userPath id) ∧ s.users id = some d ∧
    d.email = some k

/-- The requests of a label. -/
def requested : Label → Option Requests
  | .press es => onPressed (edited es)
  | _ => none

/-- The requests of a run, in the order of the presses. -/
def requests (ls : List Label) : List Requests := ls.filterMap requested

/-- A request with key `k` was answered in the run. -/
def Done {K : Type} (answered : Nat → Label) (key : Requests → K) (ls : List Label) (k : K) :
    Prop :=
  ∃ i r, answered i ∈ ls ∧ (requests ls)[i]? = some r ∧ key r = k

/-- The account with address `k` was created in the run. -/
def Created (ls : List Label) (k : Text) : Prop :=
  Done .accountCreated (fun r => norm r.createUser.1) ls k

/-- A press had its profile written at the path in the run. -/
def Written (ls : List Label) (path : Path) : Prop :=
  Done .profileWritten (fun r => userDocument r.setData.1) ls (some path)

variable {norm}

theorem step_press {s t : Registry} {es : List Edit} :
    step norm s (.press es) = some t ↔
      t = { s with registrations :=
        s.registrations ++ (requested (.press es)).toList.map fun r => ⟨r, none, none⟩ } := by
  cases hr : onPressed (edited es) with
  | none =>
      simp only [step, requested, hr, Option.toList_none, List.map_nil, List.append_nil,
        Option.some.injEq]
      exact eq_comm
  | some r => simp [step, requested, hr, eq_comm]

theorem step_accountCreated {s t : Registry} {i : Nat} :
    step norm s (.accountCreated i) = some t ↔
      ∃ r, s.registrations[i]? = some r ∧
        (r.created = none ∧ norm r.requests.createUser.1 ∉ s.accounts) ∧
        t = ({ s with accounts := s.accounts ++ [norm r.requests.createUser.1] } :
          Registry).answer i { r with created := some true } := by
  simp only [step, Option.bind_eq_some_iff, Option.ite_none_right_eq_some, Option.some.injEq,
    eq_comm (a := t)]

theorem step_accountFails {s t : Registry} {i : Nat} :
    step norm s (.accountFails i) = some t ↔
      ∃ r, s.registrations[i]? = some r ∧ r.created = none ∧
        t = s.answer i { r with created := some false } := by
  simp only [step, Option.bind_eq_some_iff, Option.ite_none_right_eq_some, Option.some.injEq,
    eq_comm (a := t)]

theorem step_profileWritten {s t : Registry} {i : Nat} :
    step norm s (.profileWritten i) = some t ↔
      ∃ r, s.registrations[i]? = some r ∧
        (r.written = none ∧ (userDocument r.requests.setData.1).isSome = true) ∧
        t = ({ s with
          documents := setData s.documents r.requests.setData.1 r.requests.setData.2 } :
            Registry).answer i { r with written := some true } := by
  simp only [step, Option.bind_eq_some_iff, Option.ite_none_right_eq_some, Option.some.injEq,
    eq_comm (a := t)]

theorem step_profileFails {s t : Registry} {i : Nat} :
    step norm s (.profileFails i) = some t ↔
      ∃ r, s.registrations[i]? = some r ∧ r.written = none ∧
        t = s.answer i { r with written := some false } := by
  simp only [step, Option.bind_eq_some_iff, Option.ite_none_right_eq_some, Option.some.injEq,
    eq_comm (a := t)]

theorem requests_concat (ls : List Label) (l : Label) :
    requests (ls ++ [l]) = requests ls ++ (requested l).toList :=
  Foundation.filterMap_concat requested ls l

/-- One more label answers one more request, or none. -/
theorem done_concat {K : Type} {answered : Nat → Label} {key : Requests → K} {ls : List Label}
    (hknown : ∀ i, answered i ∈ ls → i < (requests ls).length)
    (hsilent : ∀ i, requested (answered i) = none) (l : Label) (k : K) :
    Done answered key (ls ++ [l]) k ↔ Done answered key ls k ∨
      ∃ i r, l = answered i ∧ (requests ls)[i]? = some r ∧ key r = k := by
  rw [Done, requests_concat]
  constructor
  · rintro ⟨i, r, hmem, hr, hk⟩
    rcases List.mem_append.mp hmem with hmem | hmem
    · rw [List.getElem?_append_left (hknown i hmem)] at hr
      exact Or.inl ⟨i, r, hmem, hr, hk⟩
    · obtain rfl := List.mem_singleton.mp hmem
      rw [hsilent, Option.toList_none, List.append_nil] at hr
      exact Or.inr ⟨i, r, rfl, hr, hk⟩
  · rintro (⟨i, r, hmem, hr, hk⟩ | ⟨i, r, rfl, hr, hk⟩)
    · refine ⟨i, r, List.mem_append_left _ hmem, ?_, hk⟩
      rw [List.getElem?_append_left (hknown i hmem)]
      exact hr
    · refine ⟨i, r, by simp, ?_, hk⟩
      rw [hsilent, Option.toList_none, List.append_nil]
      exact hr

/-- The accounts and the paths of the documents of a state are those of the run. -/
structure Follows (norm : Text → Text) (ls : List Label) (s : Registry) : Prop where
  sent : s.registrations.map Registration.requests = requests ls
  accounts : ∀ k, k ∈ s.accounts ↔ Created norm ls k
  documents : ∀ p, (∃ d, s.documents p = some d) ↔ Written ls p
  created : ∀ i, .accountCreated i ∈ ls → i < (requests ls).length
  written : ∀ i, .profileWritten i ∈ ls → i < (requests ls).length

theorem mem_requests {ls : List Label} {r : Requests} (h : r ∈ requests ls) :
    r.setData.2.email = some r.setData.1 := by
  obtain ⟨l, _, hl⟩ := List.mem_filterMap.mp h
  cases l with
  | press es =>
      obtain ⟨_, _, _, _, _, _, hdoc⟩ := onPressed_eq_some hl
      rw [hdoc]
  | accountCreated i => exact absurd hl (Option.some_ne_none r).symm
  | accountFails i => exact absurd hl (Option.some_ne_none r).symm
  | profileWritten i => exact absurd hl (Option.some_ne_none r).symm
  | profileFails i => exact absurd hl (Option.some_ne_none r).symm
  | locate email location => exact absurd hl (Option.some_ne_none r).symm

/-- The answers known after one more label. -/
theorem known_concat {answered : Nat → Label} {ls : List Label} {l : Label}
    (hknown : ∀ i, answered i ∈ ls → i < (requests ls).length)
    (hl : ∀ i, l = answered i → i < (requests ls).length) :
    ∀ i, answered i ∈ ls ++ [l] → i < (requests (ls ++ [l])).length := by
  intro i hmem
  rw [requests_concat, List.length_append]
  rcases List.mem_append.mp hmem with hmem | hmem
  · have hlt := hknown i hmem
    omega
  · have hlt := hl i (List.mem_singleton.mp hmem).symm
    omega

/-- The request that an answer belongs to, found in the state and in the labels. -/
theorem exists_request_iff {K : Type} {ls : List Label} {s : Registry} (h : Follows norm ls s)
    {answered : Nat → Label} {key : Requests → K} {l : Label} {k : K} :
    (∃ i r, l = answered i ∧ (requests ls)[i]? = some r ∧ key r = k) ↔
      ∃ i r, l = answered i ∧ s.registrations[i]? = some r ∧ key r.requests = k := by
  simp only [← h.sent, List.getElem?_map, Option.map_eq_some_iff]
  constructor
  · rintro ⟨i, r, hl, ⟨reg, hreg, rfl⟩, hk⟩
    exact ⟨i, reg, hl, hreg, hk⟩
  · rintro ⟨i, reg, hl, hreg, hk⟩
    exact ⟨i, reg.requests, hl, ⟨reg, hreg, rfl⟩, hk⟩

/-- The accounts after a label, from those before it. -/
theorem created_concat {ls : List Label} {s : Registry} (h : Follows norm ls s) (l : Label)
    (k : Text) : Created norm (ls ++ [l]) k ↔ k ∈ s.accounts ∨
      ∃ i r, l = .accountCreated i ∧ s.registrations[i]? = some r ∧
        norm r.requests.createUser.1 = k := by
  rw [Created, done_concat h.created (fun _ => rfl) l k, ← Created, ← h.accounts k,
    exists_request_iff h]

/-- The documents after a label, from those before it. -/
theorem written_concat {ls : List Label} {s : Registry} (h : Follows norm ls s) (l : Label)
    (p : Path) : Written (ls ++ [l]) p ↔ (∃ d, s.documents p = some d) ∨
      ∃ i r, l = .profileWritten i ∧ s.registrations[i]? = some r ∧
        userDocument r.requests.setData.1 = some p := by
  rw [Written, done_concat h.written (fun _ => rfl) l (some p), ← Written, ← h.documents p,
    exists_request_iff h]

theorem exists_updateLocation {K : Type} [DecidableEq K] {documents : K → Option UserDoc} {key : K}
    {location : GeoPoint} {k : K} :
    (∃ d, updateLocation documents key location k = some d) ↔ ∃ d, documents k = some d := by
  unfold updateLocation
  cases hd : documents key with
  | none => rfl
  | some d =>
      by_cases hk : k = key
      · subst hk
        simp [hd]
      · simp [hk]

/-- A location is recorded in a document that is there, and its other fields stay. -/
theorem updateLocation_eq_some {K : Type} [DecidableEq K] {documents : K → Option UserDoc}
    {key k : K} {location : GeoPoint} {d : UserDoc}
    (h : updateLocation documents key location k = some d) :
    ∃ d₀, documents k = some d₀ ∧ d.email = d₀.email := by
  cases hd₀ : documents key with
  | none =>
      simp only [updateLocation, hd₀] at h
      exact ⟨d, h, rfl⟩
  | some d₀ =>
      simp only [updateLocation, hd₀] at h
      by_cases hk : k = key
      · subst hk
        rw [Function.update_self] at h
        obtain rfl := Option.some.inj h
        exact ⟨d₀, hd₀, rfl⟩
      · rw [Function.update_of_ne hk] at h
        exact ⟨d, h, rfl⟩

/-- An answer changes no request. -/
theorem requests_answer {s : Registry} {i : Nat} {r q : Registration}
    (hr : s.registrations[i]? = some r) (hq : q.requests = r.requests) :
    (s.answer i q).registrations.map Registration.requests =
      s.registrations.map Registration.requests :=
  map_set_of_eq _ hr hq

/-- A label that is no answer with an effect leaves the accounts and profiles of the run alone. -/
theorem follows_silent {ls : List Label} {s t : Registry} {l : Label} (h : Follows norm ls s)
    (hcreated : ∀ i, l ≠ .accountCreated i) (hwritten : ∀ i, l ≠ .profileWritten i)
    (hsent : t.registrations.map Registration.requests =
      s.registrations.map Registration.requests ++ (requested l).toList)
    (haccounts : t.accounts = s.accounts)
    (hdocuments : ∀ p, (∃ d, t.documents p = some d) ↔ ∃ d, s.documents p = some d) :
    Follows norm (ls ++ [l]) t where
  sent := by rw [hsent, h.sent, requests_concat]
  accounts := by
    intro k
    rw [created_concat h, haccounts]
    exact (or_iff_left fun ⟨i, _, hl, _⟩ => hcreated i hl).symm
  documents := by
    intro p
    rw [written_concat h, hdocuments p]
    exact (or_iff_left fun ⟨i, _, hl, _⟩ => hwritten i hl).symm
  created := known_concat h.created fun i hl => absurd hl (hcreated i)
  written := known_concat h.written fun i hl => absurd hl (hwritten i)

theorem lt_requests {ls : List Label} {s : Registry} (h : Follows norm ls s) {i : Nat}
    {r : Registration} (hr : s.registrations[i]? = some r) : i < (requests ls).length := by
  rw [← h.sent, List.length_map]
  exact (List.getElem?_eq_some_iff.mp hr).1

theorem follows_accountCreated {ls : List Label} {s t : Registry} {i : Nat}
    (h : Follows norm ls s) (hl : step norm s (.accountCreated i) = some t) :
    Follows norm (ls ++ [.accountCreated i]) t := by
  obtain ⟨r, hr, _, rfl⟩ := step_accountCreated.mp hl
  constructor
  · rw [requests_concat, ← h.sent]
    exact (requests_answer (q := { r with created := some true }) hr rfl).trans
      (List.append_nil _).symm
  · intro k
    rw [created_concat h]
    simp only [answer, List.mem_append, List.mem_singleton]
    constructor
    · rintro (hold | rfl)
      · exact Or.inl hold
      · exact Or.inr ⟨i, r, rfl, hr, rfl⟩
    · rintro (hold | ⟨j, r', hj, hr', hk⟩)
      · exact Or.inl hold
      · obtain rfl := Label.accountCreated.inj hj
        obtain rfl : r = r' := Option.some.inj (hr.symm.trans hr')
        exact Or.inr hk.symm
  · intro p
    rw [written_concat h]
    simp [answer]
  · exact known_concat h.created fun j hj => by
      rw [← Label.accountCreated.inj hj]
      exact lt_requests h hr
  · exact known_concat h.written fun j hj => Label.noConfusion hj

theorem follows_profileWritten {ls : List Label} {s t : Registry} {i : Nat}
    (h : Follows norm ls s) (hl : step norm s (.profileWritten i) = some t) :
    Follows norm (ls ++ [.profileWritten i]) t := by
  obtain ⟨r, hr, ⟨_, htaken⟩, rfl⟩ := step_profileWritten.mp hl
  obtain ⟨path, hpath⟩ := Option.isSome_iff_exists.mp htaken
  constructor
  · rw [requests_concat, ← h.sent]
    exact (requests_answer (q := { r with written := some true }) hr rfl).trans
      (List.append_nil _).symm
  · intro k
    rw [created_concat h]
    simp [answer]
  · intro p
    rw [written_concat h]
    simp only [answer, setData, hpath]
    by_cases hp : p = path
    · subst hp
      rw [Function.update_self]
      exact iff_of_true ⟨_, rfl⟩ (Or.inr ⟨i, r, rfl, hr, hpath⟩)
    · rw [Function.update_of_ne hp]
      constructor
      · exact Or.inl
      · rintro (hold | ⟨j, r', hj, hr', hp'⟩)
        · exact hold
        · obtain rfl := Label.profileWritten.inj hj
          obtain rfl : r = r' := Option.some.inj (hr.symm.trans hr')
          exact absurd (Option.some.inj (hp'.symm.trans hpath)) hp
  · exact known_concat h.created fun j hj => Label.noConfusion hj
  · exact known_concat h.written fun j hj => by
      rw [← Label.profileWritten.inj hj]
      exact lt_requests h hr

theorem follows_step {ls : List Label} {s t : Registry} {l : Label} (h : Follows norm ls s)
    (hl : step norm s l = some t) : Follows norm (ls ++ [l]) t := by
  cases l with
  | press es =>
      obtain rfl := step_press.mp hl
      refine follows_silent h (by simp) (by simp) ?_ rfl fun _ => Iff.rfl
      simp [List.map_append, Function.comp_def]
  | accountCreated i => exact follows_accountCreated h hl
  | accountFails i =>
      obtain ⟨r, hr, _, rfl⟩ := step_accountFails.mp hl
      refine follows_silent h (by simp) (by simp) ?_ rfl fun _ => Iff.rfl
      exact (requests_answer (q := { r with created := some false }) hr rfl).trans
        (List.append_nil _).symm
  | profileWritten i => exact follows_profileWritten h hl
  | profileFails i =>
      obtain ⟨r, hr, _, rfl⟩ := step_profileFails.mp hl
      refine follows_silent h (by simp) (by simp) ?_ rfl fun _ => Iff.rfl
      exact (requests_answer (q := { r with written := some false }) hr rfl).trans
        (List.append_nil _).symm
  | locate email location =>
      obtain rfl := Option.some.inj hl
      refine follows_silent h (by simp) (by simp) (List.append_nil _).symm rfl fun p => ?_
      cases userDocument email with
      | none => exact Iff.rfl
      | some path => exact exists_updateLocation

theorem follows_run {ls : List Label} {s : Registry}
    (hr : run (step norm) empty ls = some s) : Follows norm ls s := by
  refine run_induction (step norm) (motive := Follows norm) ?_ ?_ hr
  · constructor
    · rfl
    · intro k
      simp [empty, Created, Done]
    · intro k
      simp [empty, Written, Done]
    · simp
    · simp
  · exact fun ls l t u _ ih hu => follows_step ih hu

/-- A press of Register has no slash in its e-mail. -/
def Label.plain : Label → Bool
  | .press es => (edited es).email.all fun email => slash ∉ email
  | _ => true

theorem slash_not_mem_of_requested {l : Label} (hl : l.plain = true) {r : Requests}
    (hr : requested l = some r) : slash ∉ r.createUser.1 := by
  cases l with
  | press es =>
      obtain ⟨_, _, _, _, hemail, hcreate, _⟩ := onPressed_eq_some hr
      rw [Label.plain, hemail] at hl
      rw [hcreate]
      exact of_decide_eq_true hl
  | accountCreated i => exact absurd hr (Option.some_ne_none r).symm
  | accountFails i => exact absurd hr (Option.some_ne_none r).symm
  | profileWritten i => exact absurd hr (Option.some_ne_none r).symm
  | profileFails i => exact absurd hr (Option.some_ne_none r).symm
  | locate email location => exact absurd hr (Option.some_ne_none r).symm

/-- No registration has a slash in its address, and the documents are those of `User`, each with its
id for its e-mail. -/
structure Plain (s : Registry) : Prop where
  registrations : ∀ r ∈ s.registrations, slash ∉ r.requests.setData.1 ∧
    r.requests.setData.2.email = some r.requests.setData.1
  documents : ∀ p d, s.documents p = some d →
    ∃ k, slash ∉ k ∧ p = userPath k ∧ d.email = some k ∧ k ≠ []

theorem plain_empty : empty.Plain where
  registrations := fun _ hr => absurd hr List.not_mem_nil
  documents := fun _ d hd => absurd hd (Option.some_ne_none d).symm

/-- An answer leaves the requests of the registrations as they are. -/
theorem plain_answer {s : Registry} (hs : s.Plain) {i : Nat} {r q : Registration}
    (hr : s.registrations[i]? = some r) (hq : q.requests = r.requests) :
    ∀ r' ∈ (s.answer i q).registrations, slash ∉ r'.requests.setData.1 ∧
      r'.requests.setData.2.email = some r'.requests.setData.1 := by
  intro r' hr'
  rcases List.mem_or_eq_of_mem_set hr' with hold | rfl
  · exact hs.registrations r' hold
  · rw [hq]
    exact hs.registrations r (List.mem_of_getElem? hr)

theorem plain_step {s t : Registry} {l : Label} (hs : s.Plain) (hl : l.plain = true)
    (h : step norm s l = some t) : t.Plain := by
  cases l with
  | press es =>
      obtain rfl := step_press.mp h
      refine ⟨fun r hr => ?_, hs.documents⟩
      rcases List.mem_append.mp hr with hold | hnew
      · exact hs.registrations r hold
      · obtain ⟨q, hq, rfl⟩ := List.mem_map.mp hnew
        obtain ⟨_, _, _, _, hemail, _, hdoc⟩ := onPressed_eq_some (Option.mem_toList.mp hq)
        rw [Label.plain, hemail] at hl
        exact ⟨of_decide_eq_true hl, by rw [hdoc]⟩
  | accountCreated i =>
      obtain ⟨r, hr, _, rfl⟩ := step_accountCreated.mp h
      exact ⟨plain_answer hs hr rfl, hs.documents⟩
  | accountFails i =>
      obtain ⟨r, hr, _, rfl⟩ := step_accountFails.mp h
      exact ⟨plain_answer hs hr rfl, hs.documents⟩
  | profileWritten i =>
      obtain ⟨r, hr, ⟨_, htaken⟩, rfl⟩ := step_profileWritten.mp h
      obtain ⟨hslash, hemail⟩ := hs.registrations r (List.mem_of_getElem? hr)
      have hne : r.requests.setData.1 ≠ [] := by
        intro hempty
        rw [hempty] at htaken
        exact Bool.noConfusion htaken
      have hpath : userDocument r.requests.setData.1 = some (userPath r.requests.setData.1) :=
        (userDocument_of_slashless hslash).trans (if_neg hne)
      refine ⟨plain_answer hs hr rfl, fun p d hd => ?_⟩
      simp only [answer, setData, hpath] at hd
      by_cases hp : p = userPath r.requests.setData.1
      · rw [hp, Function.update_self] at hd
        obtain rfl := Option.some.inj hd
        exact ⟨r.requests.setData.1, hslash, hp, hemail, hne⟩
      · rw [Function.update_of_ne hp] at hd
        exact hs.documents p d hd
  | profileFails i =>
      obtain ⟨r, hr, _, rfl⟩ := step_profileFails.mp h
      exact ⟨plain_answer hs hr rfl, hs.documents⟩
  | locate email location =>
      obtain rfl := Option.some.inj h
      refine ⟨hs.registrations, fun p d hd => ?_⟩
      cases hpath : userDocument email with
      | none =>
          rw [hpath] at hd
          exact hs.documents p d hd
      | some path =>
          rw [hpath] at hd
          obtain ⟨d₀, hd₀, hemail⟩ := updateLocation_eq_some hd
          rw [hemail]
          exact hs.documents p d₀ hd₀

/-- The answer to the account creation of a press. -/
def accountAnswer (i : Nat) (o : Outcome) : Label :=
  if o.created then .accountCreated i else .accountFails i

/-- The answer to the profile write of a press. -/
def profileAnswer (i : Nat) (o : Outcome) : Label :=
  if o.written then .profileWritten i else .profileFails i

/-- The account creation touches no document and no request. -/
theorem step_accountAnswer {s t : Registry} {i : Nat} {o : Outcome}
    (h : step norm s (accountAnswer i o) = some t) :
    t.documents = s.documents ∧ t.registrations.map Registration.requests =
      s.registrations.map Registration.requests := by
  unfold accountAnswer at h
  split at h
  · obtain ⟨r, hr, _, rfl⟩ := step_accountCreated.mp h
    exact ⟨rfl, requests_answer (q := { r with created := some true }) hr rfl⟩
  · obtain ⟨r, hr, _, rfl⟩ := step_accountFails.mp h
    exact ⟨rfl, requests_answer (q := { r with created := some false }) hr rfl⟩

/-- The profile write changes the documents by its own request. -/
theorem step_profileAnswer {s t : Registry} {i : Nat} {o : Outcome} {r : Requests}
    (h : step norm s (profileAnswer i o) = some t)
    (hr : (s.registrations.map Registration.requests)[i]? = some r) :
    t.documents =
      if o.written then setData s.documents r.setData.1 r.setData.2 else s.documents := by
  rw [List.getElem?_map] at hr
  obtain ⟨reg, hreg, rfl⟩ := Option.map_eq_some_iff.mp hr
  unfold profileAnswer at h
  split at h
  · obtain ⟨reg', hreg', _, rfl⟩ := step_profileWritten.mp h
    obtain rfl : reg = reg' := Option.some.inj (hreg.symm.trans hreg')
    rw [if_pos ‹_›]
    rfl
  · obtain ⟨reg', _, _, rfl⟩ := step_profileFails.mp h
    rw [if_neg ‹_›]
    rfl

/-- A press and its two answers, in either order, do to the documents what `register` says. -/
theorem documents_of_press {s t : Registry} {es : List Edit} {o : Outcome} {ls : List Label}
    (hpress : onPressed (edited es) ≠ none)
    (hls : ls = [accountAnswer s.registrations.length o, profileAnswer s.registrations.length o] ∨
      ls = [profileAnswer s.registrations.length o, accountAnswer s.registrations.length o])
    (hr : run (step norm) s (.press es :: ls) = some t) :
    t.documents = register s.documents (edited es) o := by
  obtain ⟨r, hsent⟩ := Option.ne_none_iff_exists'.mp hpress
  have hregister : register s.documents (edited es) o =
      if o.written then setData s.documents r.setData.1 r.setData.2 else s.documents := by
    rw [register, hsent]
  obtain ⟨s₁, hs₁, hrun⟩ := Option.bind_eq_some_iff.mp hr
  obtain rfl := step_press.mp hs₁
  have hlast : (({ s with registrations := s.registrations ++
      (requested (.press es)).toList.map fun r => ⟨r, none, none⟩ } :
        Registry).registrations.map Registration.requests)[s.registrations.length]? = some r := by
    simp [requested, hsent]
  rw [hregister]
  rcases hls with rfl | rfl
  · obtain ⟨s₂, hs₂, hrun⟩ := Option.bind_eq_some_iff.mp hrun
    obtain ⟨s₃, hs₃, hrun⟩ := Option.bind_eq_some_iff.mp hrun
    obtain rfl : s₃ = t := Option.some.inj hrun
    obtain ⟨hdocuments, hrequests⟩ := step_accountAnswer hs₂
    rw [step_profileAnswer hs₃ (hrequests ▸ hlast), hdocuments]
  · obtain ⟨s₂, hs₂, hrun⟩ := Option.bind_eq_some_iff.mp hrun
    obtain ⟨s₃, hs₃, hrun⟩ := Option.bind_eq_some_iff.mp hrun
    obtain rfl : s₃ = t := Option.some.inj hrun
    obtain ⟨hdocuments, _⟩ := step_accountAnswer hs₃
    rw [hdocuments, step_profileAnswer hs₂ hlast]

end Registry

end Chatsy
