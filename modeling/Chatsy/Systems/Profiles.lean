import Chatsy.Systems.Registration

/-!
# Whose form a profile shows

A profile is written as a whole and its location by itself, and both writes come
from anywhere at any time. So the document at a path is the form of the last
registration written there, with the last location recorded since. A
registration that leads to a document in use drops the location recorded before
it. An account has its profile exactly when the last form written where its
address leads was typed with that very address.

## Implementation notes

A registration is named by its place among the requests of the run, so the
statements are over any list of requests that begins with those of the run.
-/

namespace Chatsy.Registry

open Foundation RegistrationScreen

/-- The location that a label records at a path. -/
def located (p : Path) : Label → Option GeoPoint
  | .locate email location => if userDocument email = some p then some location else none
  | _ => none

/-- The last location recorded at a path. -/
def lastLocation (p : Path) (ls : List Label) : Option GeoPoint :=
  (ls.filterMap (located p)).getLast?

/-- The label writes the profile of a request whose address leads to the path. -/
def WritesAt (rs : List Requests) (p : Path) (l : Label) : Prop :=
  ∃ i r, l = .profileWritten i ∧ rs[i]? = some r ∧ userDocument r.setData.1 = some p

/-- The last profile written at the path is that of `r`, and `post` is what came after. -/
def LastWritten (rs : List Requests) (ls : List Label) (p : Path) (r : Requests)
    (post : List Label) : Prop :=
  ∃ pre i, ls = pre ++ .profileWritten i :: post ∧ rs[i]? = some r ∧
    userDocument r.setData.1 = some p ∧ ∀ l ∈ post, ¬ WritesAt rs p l

variable {norm : Text → Text} {rs : List Requests} {ls post : List Label} {l : Label} {p : Path}
  {r r' : Requests}

theorem lastLocation_concat (p : Path) (ls : List Label) (l : Label) :
    lastLocation p (ls ++ [l]) = (located p l).or (lastLocation p ls) :=
  getLast?_filterMap_concat (located p) ls l

theorem not_lastWritten_nil : ¬ LastWritten rs [] p r post := by
  rintro ⟨pre, i, hsplit, _⟩
  simp at hsplit

/-- After a write at the path, the last one is that write. -/
theorem lastWritten_concat_of_writes {i : Nat} (hr : rs[i]? = some r)
    (hp : userDocument r.setData.1 = some p) :
    LastWritten rs (ls ++ [.profileWritten i]) p r' post ↔ r' = r ∧ post = [] := by
  constructor
  · rintro ⟨pre, j, hsplit, hr', _, hpost⟩
    rcases List.eq_nil_or_concat post with rfl | ⟨post', x, rfl⟩
    · have hlast := (List.append_inj' hsplit rfl).2
      obtain rfl : i = j := by simpa using hlast
      exact ⟨Option.some.inj (hr'.symm.trans hr), rfl⟩
    · rw [List.concat_eq_append, ← List.cons_append, ← List.append_assoc] at hsplit
      obtain rfl : Label.profileWritten i = x := by simpa using (List.append_inj' hsplit rfl).2
      exact absurd ⟨i, r, rfl, hr, hp⟩ (hpost (.profileWritten i) (by simp))
  · rintro ⟨rfl, rfl⟩
    exact ⟨ls, i, rfl, hr, hp, by simp⟩

/-- Any other label is one more after the last write. -/
theorem lastWritten_concat_of_not (hl : ¬ WritesAt rs p l) :
    LastWritten rs (ls ++ [l]) p r post ↔
      ∃ post', post = post' ++ [l] ∧ LastWritten rs ls p r post' := by
  constructor
  · rintro ⟨pre, i, hsplit, hr, hp, hpost⟩
    rcases List.eq_nil_or_concat post with rfl | ⟨post', x, rfl⟩
    · obtain rfl : l = .profileWritten i := by simpa using (List.append_inj' hsplit rfl).2
      exact absurd ⟨i, r, rfl, hr, hp⟩ hl
    · rw [List.concat_eq_append, ← List.cons_append, ← List.append_assoc] at hsplit
      obtain ⟨hfront, hlast⟩ := List.append_inj' hsplit rfl
      obtain rfl : l = x := by simpa using hlast
      rw [List.concat_eq_append] at hpost ⊢
      exact ⟨post', rfl, pre, i, hfront, hr, hp,
        fun l' hl' => hpost l' (List.mem_append_left _ hl')⟩
  · rintro ⟨post', rfl, pre, i, rfl, hr, hp, hpost⟩
    refine ⟨pre, i, by simp, hr, hp, fun l' hl' => ?_⟩
    rcases List.mem_append.mp hl' with hl' | hl'
    · exact hpost l' hl'
    · obtain rfl := List.mem_singleton.mp hl'
      exact hl

/-- The documents of a state are the last forms written in the run with the locations since. -/
def ProfilesFollow (rs : List Requests) (ls : List Label) (s : Registry) : Prop :=
  ∀ p d, s.documents p = some d ↔ ∃ r post, LastWritten rs ls p r post ∧
    d = { r.setData.2 with location := lastLocation p post }

/-- A label that neither writes at the path nor records a location there. -/
theorem exists_lastWritten_concat (hl : ¬ WritesAt rs p l) (hlocated : located p l = none)
    {d : UserDoc} :
    (∃ r post, LastWritten rs (ls ++ [l]) p r post ∧
      d = { r.setData.2 with location := lastLocation p post }) ↔
      ∃ r post, LastWritten rs ls p r post ∧
        d = { r.setData.2 with location := lastLocation p post } := by
  constructor
  · rintro ⟨r, post, hlast, rfl⟩
    obtain ⟨post', rfl, hbefore⟩ := (lastWritten_concat_of_not hl).mp hlast
    exact ⟨r, post', hbefore, by rw [lastLocation_concat, hlocated, Option.none_or]⟩
  · rintro ⟨r, post, hlast, rfl⟩
    refine ⟨r, post ++ [l], (lastWritten_concat_of_not hl).mpr ⟨post, rfl, hlast⟩, ?_⟩
    rw [lastLocation_concat, hlocated, Option.none_or]

theorem profilesFollow_silent {s t : Registry} (h : ProfilesFollow rs ls s)
    (hdocuments : t.documents = s.documents) (hl : ∀ p, ¬ WritesAt rs p l)
    (hlocated : ∀ p, located p l = none) : ProfilesFollow rs (ls ++ [l]) t := by
  intro p d
  rw [hdocuments, exists_lastWritten_concat (hl p) (hlocated p)]
  exact h p d

/-- A location is recorded in the document that is there. -/
theorem profilesFollow_locate {s : Registry} (h : ProfilesFollow rs ls s) {email : Text}
    {path : Path} (hpath : userDocument email = some path) (location : GeoPoint) :
    ProfilesFollow rs (ls ++ [.locate email location])
      { s with documents := updateLocation s.documents path location } := by
  intro p d
  have hl : ¬ WritesAt rs p (.locate email location) := by
    rintro ⟨i, r, hl, _⟩
    exact Label.noConfusion hl
  by_cases hp : path = p
  · subst hp
    have hlocated : located path (.locate email location) = some location := if_pos hpath
    have hsome : updateLocation s.documents path location path =
        (s.documents path).map fun d => { d with location := some location } := by
      unfold updateLocation
      cases hd : s.documents path with
      | none => exact hd
      | some d => exact Function.update_self _ _ _
    change updateLocation s.documents path location path = some d ↔ _
    rw [hsome, Option.map_eq_some_iff]
    constructor
    · rintro ⟨d₀, hd₀, rfl⟩
      obtain ⟨r, post, hlast, rfl⟩ := (h path d₀).mp hd₀
      refine ⟨r, _, (lastWritten_concat_of_not hl).mpr ⟨post, rfl, hlast⟩, ?_⟩
      rw [lastLocation_concat, hlocated, Option.some_or]
    · rintro ⟨r, post, hlast, rfl⟩
      obtain ⟨post', rfl, hbefore⟩ := (lastWritten_concat_of_not hl).mp hlast
      refine ⟨_, (h path _).mpr ⟨r, post', hbefore, rfl⟩, ?_⟩
      rw [lastLocation_concat, hlocated, Option.some_or]
  · have hsame : updateLocation s.documents path location p = s.documents p := by
      unfold updateLocation
      cases s.documents path with
      | none => rfl
      | some d => exact Function.update_of_ne (Ne.symm hp) _ _
    have hlocated : located p (.locate email location) = none := by
      apply if_neg
      rw [hpath]
      exact fun heq => hp (Option.some.inj heq)
    change updateLocation s.documents path location p = some d ↔ _
    rw [hsame, exists_lastWritten_concat hl hlocated]
    exact h p d

/-- A form is written over the document that is there. -/
theorem profilesFollow_written {s : Registry} (h : ProfilesFollow rs ls s) {i : Nat}
    (hr : rs[i]? = some r) {path : Path} (hpath : userDocument r.setData.1 = some path)
    (hform : r.setData.2.location = none) :
    ProfilesFollow rs (ls ++ [.profileWritten i])
      { s with documents := Function.update s.documents path (some r.setData.2) } := by
  intro p d
  change Function.update s.documents path (some r.setData.2) p = some d ↔ _
  by_cases hp : path = p
  · subst hp
    have hdoc : r.setData.2 = { r.setData.2 with location := lastLocation path [] } := by
      change _ = { r.setData.2 with location := none }
      rw [← hform]
    rw [Function.update_self]
    constructor
    · intro hd
      obtain rfl := Option.some.inj hd
      exact ⟨r, [], (lastWritten_concat_of_writes hr hpath).mpr ⟨rfl, rfl⟩, hdoc⟩
    · rintro ⟨r', post, hlast, rfl⟩
      obtain ⟨rfl, rfl⟩ := (lastWritten_concat_of_writes hr hpath).mp hlast
      exact congrArg some hdoc
  · have hl : ¬ WritesAt rs p (.profileWritten i) := by
      rintro ⟨j, r', hj, hr', hp'⟩
      obtain rfl := Label.profileWritten.inj hj
      obtain rfl : r = r' := Option.some.inj (hr.symm.trans hr')
      exact hp (Option.some.inj (hpath.symm.trans hp'))
    rw [Function.update_of_ne (Ne.symm hp), exists_lastWritten_concat hl rfl]
    exact h p d

/-- A form has no location. -/
theorem location_of_mem_requests (h : r ∈ requests ls) : r.setData.2.location = none := by
  obtain ⟨l, _, hl⟩ := List.mem_filterMap.mp h
  cases l with
  | press es =>
      obtain ⟨_, _, _, _, _, _, hdoc⟩ := onPressed_eq_some hl
      rw [hdoc]
  | accountCreated i => exact absurd hl (Option.some_ne_none r).symm
  | accountFails i => exact absurd hl (Option.some_ne_none r).symm
  | profileWritten i => exact absurd hl (Option.some_ne_none r).symm
  | profileFails i => exact absurd hl (Option.some_ne_none r).symm
  | locate email location => exact absurd hl (Option.some_ne_none r).symm

theorem profilesFollow_step {s t : Registry} (hfollows : Follows norm ls s)
    (h : ProfilesFollow rs ls s) (hrs : requests ls <+: rs) (hl : step norm s l = some t) :
    ProfilesFollow rs (ls ++ [l]) t := by
  cases l with
  | press es =>
      obtain rfl := step_press.mp hl
      exact profilesFollow_silent h rfl (by simp [WritesAt]) fun _ => rfl
  | accountCreated i =>
      obtain ⟨r, _, _, rfl⟩ := step_accountCreated.mp hl
      exact profilesFollow_silent h rfl (by simp [WritesAt]) fun _ => rfl
  | accountFails i =>
      obtain ⟨r, _, _, rfl⟩ := step_accountFails.mp hl
      exact profilesFollow_silent h rfl (by simp [WritesAt]) fun _ => rfl
  | profileWritten i =>
      obtain ⟨r, hr, ⟨_, htaken⟩, rfl⟩ := step_profileWritten.mp hl
      obtain ⟨path, hpath⟩ := Option.isSome_iff_exists.mp htaken
      have hrequest : (requests ls)[i]? = some r.requests := by
        rw [← hfollows.sent, List.getElem?_map, hr]
        rfl
      have hmem := List.mem_of_getElem? hrequest
      obtain ⟨more, rfl⟩ := hrs
      have hkept : (requests ls ++ more)[i]? = some r.requests := by
        rw [List.getElem?_append_left (List.getElem?_eq_some_iff.mp hrequest).1, hrequest]
      have hset : setData s.documents r.requests.setData.1 r.requests.setData.2 =
          Function.update s.documents path (some r.requests.setData.2) := by
        rw [setData, hpath]
      rw [hset]
      exact profilesFollow_written h hkept hpath (location_of_mem_requests hmem)
  | profileFails i =>
      obtain ⟨r, hr, _, rfl⟩ := step_profileFails.mp hl
      exact profilesFollow_silent h rfl (by simp [WritesAt]) fun _ => rfl
  | locate email location =>
      obtain rfl := Option.some.inj hl
      cases hpath : userDocument email with
      | none =>
          refine profilesFollow_silent h rfl (by simp [WritesAt]) fun p => if_neg ?_
          rw [hpath]
          exact (Option.some_ne_none p).symm
      | some path => exact profilesFollow_locate h hpath location

theorem profilesFollow_run {s : Registry} (hr : run (step norm) empty ls = some s)
    (hrs : requests ls <+: rs) : ProfilesFollow rs ls s := by
  refine run_induction (step norm)
    (motive := fun ls s => ∀ rs, requests ls <+: rs → ProfilesFollow rs ls s) ?_ ?_ hr rs hrs
  · intro rs _ p d
    apply iff_of_false
    · exact (Option.some_ne_none d).symm
    · rintro ⟨r, post, hlast, _⟩
      exact not_lastWritten_nil hlast
  · intro ls l s t hs ih hl rs hrs
    rw [requests_concat] at hrs
    have hbefore : requests ls <+: rs := (List.prefix_append _ _).trans hrs
    exact profilesFollow_step (follows_run hs) (ih rs hbefore) hbefore hl

/-- The location of a document has been recorded under an address that leads to it. -/
theorem exists_locate_of_location {s : Registry} (hr : run (step norm) empty ls = some s)
    {d : UserDoc} (hd : s.documents p = some d) {location : GeoPoint}
    (hlocation : d.location = some location) :
    ∃ email, userDocument email = some p ∧ .locate email location ∈ ls := by
  obtain ⟨r, post, ⟨pre, i, rfl, _⟩, rfl⟩ := (profilesFollow_run hr (List.prefix_refl _) p d).mp hd
  obtain ⟨l, hl, hlocated⟩ := List.mem_filterMap.mp (List.mem_of_getLast? hlocation)
  cases l with
  | locate email location' =>
      obtain ⟨hemail, hsame⟩ := Option.ite_none_right_eq_some.mp hlocated
      obtain rfl := Option.some.inj hsame
      exact ⟨email, hemail, List.mem_append_right _ (List.mem_cons_of_mem _ hl)⟩
  | press es => exact absurd hlocated (Option.some_ne_none location).symm
  | accountCreated i => exact absurd hlocated (Option.some_ne_none location).symm
  | accountFails i => exact absurd hlocated (Option.some_ne_none location).symm
  | profileWritten i => exact absurd hlocated (Option.some_ne_none location).symm
  | profileFails i => exact absurd hlocated (Option.some_ne_none location).symm

/-- A document has the e-mail of the last form written at its path. -/
theorem exists_email_iff {s : Registry} (hr : run (step norm) empty ls = some s) (k : Text) :
    (∃ d, s.documents p = some d ∧ d.email = some k) ↔
      ∃ r post, LastWritten (requests ls) ls p r post ∧ r.setData.1 = k := by
  have hfollow := profilesFollow_run hr (List.prefix_refl (requests ls)) p
  constructor
  · rintro ⟨d, hd, hemail⟩
    obtain ⟨r, post, hlast, rfl⟩ := (hfollow d).mp hd
    have hmem : r ∈ requests ls := by
      obtain ⟨_, _, _, hr, _⟩ := hlast
      exact List.mem_of_getElem? hr
    exact ⟨r, post, hlast, Option.some.inj ((mem_requests hmem).symm.trans hemail)⟩
  · rintro ⟨r, post, hlast, rfl⟩
    have hmem : r ∈ requests ls := by
      obtain ⟨_, _, _, hr, _⟩ := hlast
      exact List.mem_of_getElem? hr
    exact ⟨_, (hfollow _).mpr ⟨r, post, hlast, rfl⟩, mem_requests hmem⟩

/-- The address leads to a document of `User`, and the last press whose profile was written there
had typed exactly the address. -/
def Attested (ls : List Label) (k : Text) : Prop :=
  ∃ id, userDocument k = some (userPath id) ∧
    ∃ r post, LastWritten (requests ls) ls (userPath id) r post ∧ r.setData.1 = k

/-- In a reachable state without a registration in progress every account has its profile
exactly when, for each account created, the last profile written where its address leads was that
of a press that typed this very address. -/
theorem profiled_iff_written {s : Registry} (hr : run (step norm) empty ls = some s) :
    (s.Quiet → s.Profiled) ↔ (s.Quiet → ∀ k, Created norm ls k → Attested ls k) := by
  have h := follows_run hr
  apply imp_congr_right
  intro _
  constructor
  · intro hprofiled k hk
    obtain ⟨id, d, hpath, hd, hemail⟩ := hprofiled k ((h.accounts k).mpr hk)
    exact ⟨id, hpath, (exists_email_iff hr k).mp ⟨d, hd, hemail⟩⟩
  · intro hattested k hk
    obtain ⟨id, hpath, hlast⟩ := hattested k ((h.accounts k).mp hk)
    obtain ⟨d, hd, hemail⟩ := (exists_email_iff hr k).mpr hlast
    exact ⟨id, d, hpath, hd, hemail⟩

/-- `ann` registers in lower case, and both requests succeed. -/
def annRegisters : List Label :=
  [.press [.name (text "Ann"), .email (text "ann@mail.com"), .password (text "secret")],
    .profileWritten 0, .accountCreated 0]

theorem ann_profiled :
    ∃ s, run (step lowerCase) empty annRegisters = some s ∧ s.Quiet ∧ s.Profiled := by
  have hattested : ∀ k, Created lowerCase annRegisters k → Attested annRegisters k := by
    rintro k ⟨i, r, hmem, hr, rfl⟩
    have hi : i = 0 := by simpa [annRegisters] using hmem
    subst hi
    obtain rfl := Option.some.inj hr
    exact ⟨text "ann@mail.com", rfl, _, [.accountCreated 0],
      ⟨annRegisters.take 1, 0, rfl, rfl, rfl, by simp [WritesAt]⟩, by decide⟩
  refine ⟨_, rfl, by decide, ?_⟩
  exact (profiled_iff_written (rfl : run (step lowerCase) empty annRegisters = some _)).mpr
    (fun _ => hattested) (by decide)

/-- `Ann` types a capital letter: both requests succeed, and the account has no profile. -/
theorem capital_not_profiled :
    ∃ s, run (step lowerCase) empty
        [.press [.name (text "Ann"), .email (text "Ann@mail.com"), .password (text "secret")],
          .accountCreated 0, .profileWritten 0] = some s ∧
      s.Quiet ∧ ¬ s.Profiled ∧ s.accounts = [text "ann@mail.com"] ∧
      s.users (text "ann@mail.com") = none := by
  refine ⟨_, rfl, by decide, ?_, by decide, rfl⟩
  intro h
  obtain ⟨id, d, hpath, hd, _⟩ := h (text "ann@mail.com") (by decide)
  obtain rfl := userPath_injective (Option.some.inj hpath)
  exact Option.some_ne_none d hd.symm

/-- However registrations and locations interleave, the document at a path is the form of the
last registration written there, with the last location recorded there since. -/
theorem profile_iff_last_written {s : Registry} (hr : run (step norm) empty ls = some s) (p : Path)
    (d : UserDoc) : s.documents p = some d ↔ ∃ r post, LastWritten (requests ls) ls p r post ∧
      d = { r.setData.2 with location := lastLocation p post } :=
  profilesFollow_run hr (List.prefix_refl _) p d

/-- `ann` registers, a location is recorded, and her address is registered again with a slash. -/
def registeredAgain : List Label :=
  [.press [.name (text "Ann"), .email (text "ann@mail.com"), .password (text "secret")],
    .profileWritten 0, .locate (text "ann@mail.com") ⟨48, 16⟩,
    .press [.name (text "Eve"), .email (text "ann@mail.com/"), .password (text "other")],
    .profileWritten 1]

/-- The second form is in the document of `ann`, without the location. -/
theorem registeredAgain_profile :
    ∃ s, run (step lowerCase) empty registeredAgain = some s ∧
      s.users (text "ann@mail.com") =
        some ⟨some (text "Eve"), none, some (text "ann@mail.com/"), none⟩ := by
  refine ⟨_, rfl, ?_⟩
  apply (profile_iff_last_written
    (rfl : run (step lowerCase) empty registeredAgain = some _) _ _).mpr
  exact ⟨_, [], ⟨registeredAgain.take 4, 1, rfl, rfl, rfl, by simp⟩, rfl⟩

end Chatsy.Registry
