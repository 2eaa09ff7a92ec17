import Chatsy.Foundation.Covering
import Chatsy.Systems.PickCounts

/-!
# Whom a press of Discover can pick

The index is drawn below the length of the current emission minus one, which
counts the other users only when the own document is among the results, and it
is looked up in everything the press has collected. So the addresses within
reach are a prefix of the collected ones, the oldest first, and an emission of
one document or none leaves no index to draw.
-/

namespace Chatsy.Discovery

open Foundation DiscoverScreen

/-- The addresses of an emission, in its order. -/
def emails (event : List UserDoc) : List Text := event.map fun d => toStringOrNull d.email

/-- Over all draws, the listener picks exactly the other users of the emission. -/
def PicksExactly (sub : Subscription) (user : Text) (event : List UserDoc) : Prop :=
  ∀ friendUser, (∃ draw, picked sub event draw = some (user, friendUser)) ↔
    friendUser ∈ others user event

/-- The error is a `RangeError`. -/
def isRangeError : ListenerError → Bool
  | .noSuchMethod => false
  | .nextIntRange _ => true
  | .indexRange _ _ => true

/-- No draw ends the listener with a `RangeError`, and without other users in the emission no
friend is added. -/
def InRange (sub : Subscription) (user : Text) (event : List UserDoc) : Prop :=
  (∀ draw e, (listener sub event draw).2 = .error e → isRangeError e = false) ∧
  (others user event = [] → ∀ draw, picked sub event draw = none)

/-- The emission is empty, or it has the own document and the addresses collected before it, up
to the number of its other users, are in some order the last of its other users. -/
def Replayed (user : Text) (earlier : List Text) (event : List UserDoc) : Prop :=
  event = [] ∨
    (user ∈ emails event ∧
      (earlier.take (others user event).length).Perm
        ((others user event).drop ((others user event).length - earlier.length)))

instance (user : Text) (earlier : List Text) (event : List UserDoc) :
    Decidable (Replayed user earlier event) :=
  inferInstanceAs (Decidable (_ ∨ (_ ∧ _)))

theorem others_eq_filter (user : Text) (event : List UserDoc) :
    others user event = (emails event).filter (· ≠ user) := rfl

theorem nodup_others {event : List UserDoc} (h : (emails event).Nodup) (user : Text) :
    (others user event).Nodup := h.filter _

/-- With distinct addresses, an emission with the own document has one other user less. -/
theorem length_others_of_mem {event : List UserDoc} (h : (emails event).Nodup) {user : Text}
    (hown : user ∈ emails event) : (others user event).length + 1 = event.length := by
  have hcount := length_filter_ne h hown
  rw [emails, List.length_map] at hcount
  exact hcount

theorem length_others_of_not_mem {event : List UserDoc} {user : Text}
    (hown : user ∉ emails event) : (others user event).length = event.length := by
  have hall : others user event = emails event := by
    rw [others_eq_filter]
    apply List.filter_eq_self.mpr
    intro email hemail
    apply decide_eq_true
    rintro rfl
    exact hown hemail
  rw [hall, emails, List.length_map]

/-- With distinct addresses, all documents but at most one are those of other users. -/
theorem length_le_others {event : List UserDoc} (h : (emails event).Nodup) (user : Text) :
    event.length ≤ (others user event).length + 1 := by
  by_cases hown : user ∈ emails event
  · exact (length_others_of_mem h hown).ge
  · have hlength := length_others_of_not_mem hown
    omega

/-- The addresses within reach of a draw are the first ones collected, one less than the
emission has documents. -/
theorem exists_picked_iff_mem_take {sub : Subscription} {user : Text}
    (huser : sub.user = some user) (event : List UserDoc) (friendUser : Text) :
    (∃ draw, picked sub event draw = some (user, friendUser)) ↔
      friendUser ∈ (sub.randomUserString ++ others user event).take (event.length - 1) := by
  constructor
  · rintro ⟨draw, hpick⟩
    obtain ⟨_, htwo, hindex⟩ := picked_eq_some.mp hpick
    have hlt : draw % (event.length - 1) < event.length - 1 := Nat.mod_lt _ (by omega)
    apply List.mem_iff_getElem?.mpr
    exact ⟨draw % (event.length - 1), by rw [List.getElem?_take_of_lt hlt, hindex]⟩
  · intro hmem
    obtain ⟨index, hindex⟩ := List.mem_iff_getElem?.mp hmem
    have hlt : index < event.length - 1 := by
      have hlength := (List.getElem?_eq_some_iff.mp hindex).1
      rw [List.length_take] at hlength
      omega
    rw [List.getElem?_take_of_lt hlt] at hindex
    refine ⟨index, picked_eq_some.mpr ⟨huser, by omega, ?_⟩⟩
    rw [Nat.mod_eq_of_lt hlt, hindex]

/-- The listener picks exactly the others of an emission when what was collected before it is
replayed at its end. -/
theorem picksExactly_iff_replayed {sub : Subscription} {user : Text}
    (huser : sub.user = some user) {event : List UserDoc} (hdistinct : (emails event).Nodup) :
    PicksExactly sub user event ↔ Replayed user sub.randomUserString event := by
  have hothers := nodup_others hdistinct user
  simp only [PicksExactly, exists_picked_iff_mem_take huser]
  by_cases hown : user ∈ emails event
  · have hlength := length_others_of_mem hdistinct hown
    have hne : event ≠ [] := by
      rintro rfl
      exact List.not_mem_nil hown
    have hbound : event.length - 1 = (others user event).length := by omega
    rw [hbound, take_covers_iff _ hothers]
    simp only [Replayed, hne, hown, false_or, true_and]
  · have hlength := length_others_of_not_mem hown
    simp only [Replayed, hown, false_and, or_false]
    constructor
    · intro h
      by_contra hne
      have hpos := List.length_pos_iff.mpr hne
      have hshort : ((sub.randomUserString ++ others user event).take (event.length - 1)).length <
          (others user event).length := by
        rw [List.length_take]
        omega
      obtain ⟨friendUser, hmem, hout⟩ := exists_not_mem_of_length_lt hothers hshort
      exact hout ((h friendUser).mpr hmem)
    · rintro rfl friendUser
      simp [others]

/-- The listener stays in range exactly when the emission has two documents. -/
theorem inRange_iff_two_le {sub : Subscription} {user : Text} (huser : sub.user = some user)
    {event : List UserDoc} (hdistinct : (emails event).Nodup) :
    InRange sub user event ↔ 2 ≤ event.length := by
  have hle := length_le_others hdistinct user
  constructor
  · rintro ⟨hrange, _⟩
    by_contra htwo
    have hnext : nextInt (event.length - 1) 0 = .error (.nextIntRange (event.length - 1)) :=
      if_neg (by omega)
    have hlistener : (listener sub event 0).2 = .error (.nextIntRange (event.length - 1)) := by
      simp only [listener, huser, hnext, Except.bind]
    exact Bool.noConfusion (hrange 0 _ hlistener)
  · intro htwo
    have hpicks : ∀ draw, ∃ friendUser, picked sub event draw = some (user, friendUser) := by
      intro draw
      have hlt : draw % (event.length - 1) < event.length - 1 := Nat.mod_lt _ (by omega)
      have hindex : draw % (event.length - 1) <
          (sub.randomUserString ++ others user event).length := by
        rw [List.length_append]
        omega
      exact ⟨_, picked_eq_some.mpr ⟨huser, htwo, List.getElem?_eq_getElem hindex⟩⟩
    constructor
    · intro draw e herror
      obtain ⟨friendUser, hpick⟩ := hpicks draw
      unfold picked at hpick
      rw [huser, herror] at hpick
      exact absurd hpick (Option.some_ne_none _).symm
    · intro hnone
      rw [hnone, List.length_nil] at hle
      omega

/-- At each emission of a run to a press of a user, what the press has captured and the
emission meet the condition. -/
def EachEmission (b : Backend) (ok : Subscription → Text → List UserDoc → Prop)
    (ls : List Label) : Prop :=
  ∀ pre p event draw post, ls = pre ++ .emit p event draw :: post →
    ∀ s pr user, run step (start b) pre = some s → s.presses[p]? = some pr →
      pr.subscription.user = some user → ok pr.subscription user event

/-- At each emission of a run to a press of a user, the labels before it and the emission meet
the condition. -/
def EachReceived (ok : Text → List UserDoc → List UserDoc → Prop) (ls : List Label) : Prop :=
  ∀ pre p event draw post, ls = pre ++ .emit p event draw :: post →
    ∀ user, (pressers pre)[p]? = some (some user) → ok user (received (emissions p pre)) event

/-- The emissions of a run have distinct addresses. -/
def Distinct (ls : List Label) : Prop :=
  ∀ p event draw, .emit p event draw ∈ ls → (emails event).Nodup

/-- An emission with distinct addresses lands exactly when it has two documents. -/
theorem lands_iff_two_le {user : Text} {seen event : List UserDoc} {draw : Nat}
    (hdistinct : (emails event).Nodup) :
    lands user (seen ++ event) event draw = true ↔ 2 ≤ event.length := by
  have hle := length_le_others hdistinct user
  rw [lands, Bool.and_eq_true, decide_eq_true_eq, decide_eq_true_eq, and_iff_left_iff_imp]
  intro htwo
  have hlt : draw % (event.length - 1) < event.length - 1 := Nat.mod_lt _ (by omega)
  rw [others_append, List.length_append]
  omega

theorem landings_eq_countP {user : Text} {es : List (List UserDoc × Nat)}
    (hdistinct : ∀ e ∈ es, (emails e.1).Nodup) (seen : List UserDoc) :
    landings user seen es = es.countP fun e => 2 ≤ e.1.length := by
  induction es generalizing seen with
  | nil => rfl
  | cons e es ih =>
      obtain ⟨event, draw⟩ := e
      rw [landings, ih (fun e he => hdistinct e (List.mem_cons_of_mem _ he)), List.countP_cons]
      simp only [lands_iff_two_le (hdistinct (event, draw) List.mem_cons_self), decide_eq_true_eq]
      exact Nat.add_comm _ _

/-- With distinct addresses, each press receives at most one landing emission exactly when it
receives at most one emission with two documents. -/
theorem landOnce_iff_two_documents {ls : List Label} (hdistinct : Distinct ls) :
    LandOnce ls ↔ ∀ p user, (pressers ls)[p]? = some (some user) →
      ((emissions p ls).countP fun e => 2 ≤ e.1.length) ≤ 1 := by
  refine forall_congr' fun p => forall_congr' fun user => imp_congr_right fun _ => ?_
  rw [landings_eq_countP]
  rintro ⟨event, draw⟩ he
  obtain ⟨l, hl, hemission⟩ := List.mem_filterMap.mp he
  cases l with
  | emit q event' draw' =>
      obtain ⟨rfl, heq⟩ := guarded_eq_some.mp hemission
      obtain ⟨rfl, rfl⟩ := Prod.mk.inj heq
      exact hdistinct q event' draw' hl
  | _ => exact absurd hemission (Option.some_ne_none _).symm

/-- What a press has captured at an emission is what the labels before it have brought, so a
condition on the one is a condition on the other. -/
theorem eachEmission_iff {b : Backend} {ok : Subscription → Text → List UserDoc → Prop}
    {q : Text → List UserDoc → List UserDoc → Prop}
    (h : ∀ sub user seen event, sub.user = some user → sub.randomUserString = others user seen →
      (emails event).Nodup → (ok sub user event ↔ q user seen event))
    {ls : List Label} {s : Discovery} (hr : run step (start b) ls = some s)
    (hdistinct : Distinct ls) : EachEmission b ok ls ↔ EachReceived q ls := by
  constructor
  · rintro heach pre p event draw post rfl user hp
    obtain ⟨t, ht, _⟩ := (run_append_eq_some step).mp hr
    have hfollows := follows_run ht
    rw [← hfollows.pressers, List.getElem?_map] at hp
    obtain ⟨pr, hpr, huser⟩ := Option.map_eq_some_iff.mp hp
    have hcollected := (hfollows.tallied p pr hpr).collected user huser
    exact (h _ _ _ _ huser hcollected (hdistinct p event draw (by simp))).mp
      (heach pre p event draw post rfl t pr user ht hpr huser)
  · rintro heach pre p event draw post rfl t pr user ht hpr huser
    have hfollows := follows_run ht
    have hcollected := (hfollows.tallied p pr hpr).collected user huser
    apply (h _ _ _ _ huser hcollected (hdistinct p event draw (by simp))).mpr
    apply heach pre p event draw post rfl user
    rw [← hfollows.pressers, List.getElem?_map, hpr, Option.map_some, huser]

/-- Along a run each emission's picks are exactly its other users when each emission replays
what its press has collected before. -/
theorem picks_exactly_iff_replayed {b : Backend} {ls : List Label} {s : Discovery}
    (hr : run step (start b) ls = some s) (hdistinct : Distinct ls) :
    EachEmission b PicksExactly ls ↔
      EachReceived (fun user seen event => Replayed user (others user seen) event) ls :=
  eachEmission_iff (fun _ _ _ _ huser hcollected hevent =>
    hcollected ▸ picksExactly_iff_replayed huser hevent) hr hdistinct

/-- The document of an address. -/
def profile (email : Text) : UserDoc := ⟨none, none, some email, none⟩

/-- The list with `bob` arrives at the press of `ann`, and then the list with `eve` and `bob`. -/
def replaying : List Label :=
  [.press 0 (some (text "ann@mail.com")), .located 0,
    .emit 0 [profile (text "ann@mail.com"), profile (text "bob@mail.com")] 0,
    .emit 0 [profile (text "ann@mail.com"), profile (text "eve@mail.com"),
      profile (text "bob@mail.com")] 0]

theorem distinct_replaying : Distinct replaying := by
  intro p event draw hmem
  simp only [replaying, List.mem_cons, reduceCtorEq, Label.emit.injEq, List.not_mem_nil, or_false,
    false_or] at hmem
  rcases hmem with ⟨rfl, rfl, rfl⟩ | ⟨rfl, rfl, rfl⟩
  · decide
  · decide

/-- The emissions of `replaying`, with what came before them. -/
theorem eachReceived_replaying {ok : Text → List UserDoc → List UserDoc → Prop}
    (hfirst : ok (text "ann@mail.com") []
      [profile (text "ann@mail.com"), profile (text "bob@mail.com")])
    (hsecond : ok (text "ann@mail.com")
      [profile (text "ann@mail.com"), profile (text "bob@mail.com")]
      [profile (text "ann@mail.com"), profile (text "eve@mail.com"),
        profile (text "bob@mail.com")]) : EachReceived ok replaying := by
  intro pre p event draw post hsplit user hp
  rcases pre with _ | ⟨_, _ | ⟨_, _ | ⟨_, _ | ⟨_, pre⟩⟩⟩⟩
  · simp [replaying] at hsplit
  · simp [replaying] at hsplit
  · simp only [replaying, List.cons_append, List.nil_append, List.cons.injEq,
      Label.emit.injEq] at hsplit
    obtain ⟨rfl, rfl, ⟨rfl, rfl, rfl⟩, rfl⟩ := hsplit
    obtain rfl : text "ann@mail.com" = user := Option.some.inj (Option.some.inj hp)
    exact hfirst
  · simp only [replaying, List.cons_append, List.nil_append, List.cons.injEq,
      Label.emit.injEq] at hsplit
    obtain ⟨rfl, rfl, rfl, ⟨rfl, rfl, rfl⟩, rfl⟩ := hsplit
    obtain rfl : text "ann@mail.com" = user := Option.some.inj (Option.some.inj hp)
    exact hsecond
  · simp [replaying] at hsplit

theorem picks_exactly_replaying :
    ∃ s, run step (start Backend.empty) replaying = some s ∧
      EachEmission Backend.empty PicksExactly replaying :=
  ⟨_, rfl, (picks_exactly_iff_replayed (rfl : run step (start Backend.empty) replaying = some _)
    distinct_replaying).mpr (eachReceived_replaying (by decide) (by decide))⟩

/-- After the list with `bob` the list with `eve` arrives: only `bob` can be picked, who is not
in it. -/
theorem bob_picked_again :
    ∃ s pr, run step (start Backend.empty) [.press 0 (some (text "ann@mail.com")), .located 0,
        .emit 0 [profile (text "ann@mail.com"), profile (text "bob@mail.com")] 0] = some s ∧
      s.presses[0]? = some pr ∧ pr.listening = true ∧
      pr.subscription.user = some (text "ann@mail.com") ∧
      ¬ PicksExactly pr.subscription (text "ann@mail.com")
        [profile (text "ann@mail.com"), profile (text "eve@mail.com")] ∧
      ∀ draw, picked pr.subscription
        [profile (text "ann@mail.com"), profile (text "eve@mail.com")] draw =
          some (text "ann@mail.com", text "bob@mail.com") := by
  have hpick : ∀ draw, picked ⟨some (text "ann@mail.com"), [text "bob@mail.com"]⟩
      [profile (text "ann@mail.com"), profile (text "eve@mail.com")] draw =
        some (text "ann@mail.com", text "bob@mail.com") := by
    intro draw
    refine picked_eq_some.mpr ⟨rfl, by decide, ?_⟩
    change _[draw % 1]? = _
    rw [Nat.mod_one]
    rfl
  refine ⟨_, _, rfl, rfl, rfl, rfl, fun h => ?_, hpick⟩
  have hbob := (h (text "bob@mail.com")).mp ⟨0, hpick 0⟩
  exact absurd hbob (by decide)

/-- Along a run no emission is out of range exactly when each has two documents. -/
theorem in_range_iff_two_documents {b : Backend} {ls : List Label} {s : Discovery}
    (hr : run step (start b) ls = some s) (hdistinct : Distinct ls) :
    EachEmission b InRange ls ↔ EachReceived (fun _ _ event => 2 ≤ event.length) ls :=
  eachEmission_iff (q := fun _ _ event => 2 ≤ event.length)
    (fun _ _ _ _ huser _ hevent => inRange_iff_two_le huser hevent) hr hdistinct

theorem in_range_replaying :
    ∃ s, run step (start Backend.empty) replaying = some s ∧
      EachEmission Backend.empty InRange replaying :=
  ⟨_, rfl, (in_range_iff_two_documents (rfl : run step (start Backend.empty) replaying = some _)
    distinct_replaying).mpr (eachReceived_replaying (by decide) (by decide))⟩

/-- The only document near `ann` is her own: every draw ends in a range error. -/
theorem nobody_near :
    ∃ s pr, run step (start Backend.empty)
        [.press 0 (some (text "ann@mail.com")), .located 0] = some s ∧
      s.presses[0]? = some pr ∧ pr.listening = true ∧
      pr.subscription.user = some (text "ann@mail.com") ∧
      ¬ InRange pr.subscription (text "ann@mail.com") [profile (text "ann@mail.com")] ∧
      ∀ draw, (listener pr.subscription [profile (text "ann@mail.com")] draw).2 =
        .error (.nextIntRange 0) := by
  refine ⟨_, _, rfl, rfl, rfl, rfl, fun h => ?_, fun draw => rfl⟩
  exact Bool.noConfusion (h.1 0 _ rfl)

end Chatsy.Discovery
