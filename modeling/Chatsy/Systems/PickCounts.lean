import Chatsy.Foundation.Weights
import Chatsy.Systems.Discovery

/-!
# How many friends a press of Discover makes

The calls and pushes of a press are those of its listener, which runs on every
emission. An emission lands when it has two documents and the drawn index falls
inside what the press has received; every landing emission makes one more call
and one more push. The entries that a user's own calls write to the user's
collection balance against the calls of the user's presses.
-/

namespace Chatsy.Discovery

open Foundation DiscoverScreen

/-- The user of a press label. -/
def presser : Label → Option (Option Text)
  | .press _ user => some user
  | _ => none

/-- The users of the presses of a run, in their order. -/
def pressers (ls : List Label) : List (Option Text) := ls.filterMap presser

/-- What a label brings to press number `p`. -/
def emission (p : Nat) : Label → Option (List UserDoc × Nat)
  | .emit q event draw => if q = p then some (event, draw) else none
  | _ => none

/-- The emissions to press number `p` in a run, with their draws. -/
def emissions (p : Nat) (ls : List Label) : List (List UserDoc × Nat) := ls.filterMap (emission p)

/-- The documents of some emissions. -/
def received (es : List (List UserDoc × Nat)) : List UserDoc := es.flatMap Prod.fst

/-- The drawn index exists and falls inside the other users among the documents received. -/
def lands (user : Text) (seen event : List UserDoc) (draw : Nat) : Bool :=
  2 ≤ event.length && draw % (event.length - 1) < (others user seen).length

/-- The number of landing emissions, after the documents `seen`. -/
def landings (user : Text) (seen : List UserDoc) : List (List UserDoc × Nat) → Nat
  | [] => 0
  | (event, draw) :: es =>
      (if lands user (seen ++ event) event draw then 1 else 0) + landings user (seen ++ event) es

/-- The document is the entry that a call wrote for its own user. -/
def ownEntry (d : FriendDoc) : Bool :=
  match d.id with
  | .call _ .own => true
  | _ => false

/-- The number of entries in the collection of `u` that its own calls wrote. -/
def ownEntries (u : Text) (b : Backend) : Nat := (b.friends u).countP ownEntry

/-- Each press makes at most one call and one push, and so each collection grows by at most
one entry for each press of its user. -/
structure OneEach (b : Backend) (ls : List Label) (s : Discovery) : Prop where
  press : ∀ pr ∈ s.presses, pr.calls ≤ 1 ∧ pr.pushes ≤ 1
  growth : ∀ u, ownEntries u s.backend ≤ ownEntries u b + (pressers ls).count (some u)

/-- Each press of a signed-in user receives at most one landing emission. -/
def LandOnce (ls : List Label) : Prop :=
  ∀ p user, (pressers ls)[p]? = some (some user) → landings user [] (emissions p ls) ≤ 1

theorem pressers_concat (ls : List Label) (l : Label) :
    pressers (ls ++ [l]) = pressers ls ++ (presser l).toList :=
  Foundation.filterMap_concat presser ls l

theorem emissions_concat (p : Nat) (ls : List Label) (l : Label) :
    emissions p (ls ++ [l]) = emissions p ls ++ (emission p l).toList :=
  Foundation.filterMap_concat (emission p) ls l

theorem received_concat (es : List (List UserDoc × Nat)) (event : List UserDoc) (draw : Nat) :
    received (es ++ [(event, draw)]) = received es ++ event := by
  simp [received]

theorem landings_concat (user : Text) (seen : List UserDoc) (es : List (List UserDoc × Nat))
    (event : List UserDoc) (draw : Nat) :
    landings user seen (es ++ [(event, draw)]) =
      landings user seen es +
        if lands user (seen ++ received es ++ event) event draw then 1 else 0 := by
  induction es generalizing seen with
  | nil => simp [landings, received]
  | cons e es ih =>
      obtain ⟨event', draw'⟩ := e
      have hseen : seen ++ received ((event', draw') :: es) = seen ++ event' ++ received es := by
        simp [received]
      rw [List.cons_append, landings, landings, ih, hseen]
      omega

/-- The listener picks somebody exactly when the emission lands. -/
theorem exists_picked_iff {sub : Subscription} {user : Text} {seen event : List UserDoc}
    {draw : Nat} (huser : sub.user = some user)
    (hlist : sub.randomUserString = others user seen) :
    (∃ pick, picked sub event draw = some pick) ↔ lands user (seen ++ event) event draw = true := by
  have hlands : lands user (seen ++ event) event draw = true ↔
      2 ≤ event.length ∧
        draw % (event.length - 1) < (others user seen ++ others user event).length := by
    simp only [lands, others_append, Bool.and_eq_true, decide_eq_true_eq]
  rw [hlands]
  constructor
  · rintro ⟨⟨user', friendUser⟩, hpick⟩
    obtain ⟨huser', htwo, hindex⟩ := picked_eq_some.mp hpick
    obtain rfl : user = user' := Option.some.inj (huser.symm.trans huser')
    rw [hlist] at hindex
    exact ⟨htwo, (List.getElem?_eq_some_iff.mp hindex).1⟩
  · rintro ⟨htwo, hindex⟩
    refine ⟨(user, (others user seen ++ others user event)[draw % (event.length - 1)]), ?_⟩
    apply picked_eq_some.mpr
    refine ⟨huser, htwo, ?_⟩
    rw [hlist]
    exact List.getElem?_eq_getElem hindex

/-- What the fields of press number `p` say about the run. -/
structure Tallied (ls : List Label) (p : Nat) (pr : Press) : Prop where
  collected : ∀ user, pr.subscription.user = some user →
    pr.subscription.randomUserString = others user (received (emissions p ls))
  calls : ∀ user, pr.subscription.user = some user →
    pr.calls = landings user [] (emissions p ls)
  nobody : pr.subscription.user = none → pr.calls = 0
  pushes : pr.pushes ≤ pr.calls

/-- The presses of a state are those of the run, each with its tally. -/
structure Follows (ls : List Label) (s : Discovery) : Prop where
  pressers : s.presses.map (fun pr => pr.subscription.user) = pressers ls
  fresh : ∀ p, s.presses.length ≤ p → emissions p ls = []
  tallied : ∀ p pr, s.presses[p]? = some pr → Tallied ls p pr

theorem tallied_start {ls : List Label} {p : Nat} (h : emissions p ls = []) (route : Nat)
    (user : Option Text) : Tallied ls p (Press.start route user) where
  collected := fun _ _ => by simp [h, received, others, Press.start]
  calls := fun _ _ => by simp [h, landings, Press.start]
  nobody := fun _ => rfl
  pushes := Nat.le_refl 0

/-- Only the subscription, the calls and the pushes of a press are tallied, and only emissions
to it count. -/
theorem tallied_of_silent {ls : List Label} {p : Nat} {pr pr' : Press} {l : Label}
    (h : Tallied ls p pr) (hl : emission p l = none)
    (hsub : pr'.subscription = pr.subscription) (hcalls : pr'.calls = pr.calls)
    (hpushes : pr'.pushes = pr.pushes) : Tallied (ls ++ [l]) p pr' := by
  have hemissions : emissions p (ls ++ [l]) = emissions p ls := by
    rw [emissions_concat, hl, Option.toList_none, List.append_nil]
  constructor
  · rw [hemissions, hsub]
    exact h.collected
  · rw [hemissions, hsub, hcalls]
    exact h.calls
  · rw [hsub, hcalls]
    exact h.nobody
  · rw [hcalls, hpushes]
    exact h.pushes

/-- The calls of a press grow by one for each pick. -/
theorem calls_received (pr : Press) (event : List UserDoc) (draw : Nat) :
    (pr.received event draw).calls =
      pr.calls + (picked pr.subscription event draw).toList.length := by
  unfold Press.received
  cases picked pr.subscription event draw <;> rfl

/-- One emission keeps the tally of its press. -/
theorem tallied_received {ls : List Label} {p : Nat} {pr : Press} (h : Tallied ls p pr)
    (event : List UserDoc) (draw : Nat) :
    Tallied (ls ++ [.emit p event draw]) p (pr.received event draw) := by
  have hemissions : emissions p (ls ++ [.emit p event draw]) =
      emissions p ls ++ [(event, draw)] := by
    rw [emissions_concat, emission, if_pos rfl, Option.toList_some]
  constructor
  · intro user huser
    rw [user_received] at huser
    rw [hemissions, received_concat, subscription_received, listener_fst huser, others_append,
      h.collected user huser]
  · intro user huser
    rw [user_received] at huser
    rw [hemissions, landings_concat, calls_received, h.calls user huser, List.nil_append]
    have hpicked : (∃ pick, picked pr.subscription event draw = some pick) ↔
        lands user (received (emissions p ls) ++ event) event draw = true :=
      exists_picked_iff huser (h.collected user huser)
    cases hpick : picked pr.subscription event draw with
    | none =>
        have hlands : ¬ lands user (received (emissions p ls) ++ event) event draw = true := by
          rw [← hpicked, hpick]
          simp
        rw [if_neg hlands]
        rfl
    | some pick =>
        rw [if_pos (hpicked.mp ⟨pick, hpick⟩)]
        rfl
  · intro hnone
    rw [user_received] at hnone
    have hpick : picked pr.subscription event draw = none := by simp [picked, hnone]
    rw [calls_received, hpick]
    exact h.nobody hnone
  · have hpushes := h.pushes
    unfold Press.received
    cases picked pr.subscription event draw with
    | none => exact hpushes
    | some pick =>
        simp only
        split <;> omega

/-- A label that is no press keeps the presses in step when it replaces press number `p` by
one with the same user and the right tally. -/
theorem follows_set {ls : List Label} {s : Discovery} {p : Nat} {pr pr' : Press} {l : Label}
    (h : Follows ls s) (hpr : s.presses[p]? = some pr) (hl : presser l = none)
    (huser : pr'.subscription.user = pr.subscription.user)
    (hp : Tallied (ls ++ [l]) p pr') (hothers : ∀ q, q ≠ p → emission q l = none)
    (b : Backend) : Follows (ls ++ [l]) { presses := s.presses.set p pr', backend := b } where
  pressers := by
    rw [pressers_concat, hl, Option.toList_none, List.append_nil, ← h.pressers]
    exact map_set_of_eq _ hpr huser
  fresh := by
    intro q hq
    rw [List.length_set] at hq
    have hne : q ≠ p := by
      have hlt : p < s.presses.length := (List.getElem?_eq_some_iff.mp hpr).1
      omega
    rw [emissions_concat, hothers q hne, h.fresh q hq]
    rfl
  tallied := by
    intro q pr'' hq
    by_cases hne : q = p
    · subst hne
      have hlt : q < s.presses.length := (List.getElem?_eq_some_iff.mp hpr).1
      rw [List.getElem?_set_self hlt] at hq
      obtain rfl := Option.some.inj hq
      exact hp
    · rw [List.getElem?_set_ne (Ne.symm hne)] at hq
      exact tallied_of_silent (h.tallied q pr'' hq) (hothers q hne) rfl rfl rfl

/-- A label that is neither a press nor an emission keeps the presses in step when it changes
nothing that is tallied. -/
theorem follows_map {ls : List Label} {s : Discovery} {l : Label} (h : Follows ls s)
    (hl : presser l = none) (hemission : ∀ p, emission p l = none) (f : Press → Press)
    (hf : ∀ pr, (f pr).subscription = pr.subscription ∧ (f pr).calls = pr.calls ∧
      (f pr).pushes = pr.pushes) (b : Backend) :
    Follows (ls ++ [l]) { presses := s.presses.map f, backend := b } where
  pressers := by
    rw [pressers_concat, hl, Option.toList_none, List.append_nil, ← h.pressers, List.map_map]
    exact List.map_congr_left fun pr _ => congrArg Subscription.user (hf pr).1
  fresh := by
    intro p hp
    rw [List.length_map] at hp
    rw [emissions_concat, hemission, h.fresh p hp]
    rfl
  tallied := by
    intro p pr hpr
    rw [List.getElem?_map] at hpr
    obtain ⟨pr₀, hpr₀, rfl⟩ := Option.map_eq_some_iff.mp hpr
    obtain ⟨hsub, hcalls, hpushes⟩ := hf pr₀
    exact tallied_of_silent (h.tallied p pr₀ hpr₀) (hemission p) hsub hcalls hpushes

theorem follows_backend {ls : List Label} {s : Discovery} {l : Label} (h : Follows ls s)
    (hl : presser l = none) (hemission : ∀ p, emission p l = none) (b : Backend) :
    Follows (ls ++ [l]) { s with backend := b } := by
  have hmap := follows_map h hl hemission id (fun _ => ⟨rfl, rfl, rfl⟩) b
  rwa [List.map_id] at hmap

theorem follows_press {ls : List Label} {s : Discovery} (h : Follows ls s) (route : Nat)
    (user : Option Text) :
    Follows (ls ++ [.press route user])
      { s with presses := s.presses ++ [Press.start route user] } where
  pressers := by
    rw [pressers_concat, List.map_append, h.pressers]
    rfl
  fresh := by
    intro p hp
    rw [List.length_append, List.length_singleton] at hp
    rw [emissions_concat, h.fresh p (by omega)]
    rfl
  tallied := by
    intro p pr hpr
    rcases Nat.lt_or_ge p s.presses.length with hlt | hge
    · rw [List.getElem?_append_left hlt] at hpr
      exact tallied_of_silent (h.tallied p pr hpr) rfl rfl rfl rfl
    · rw [List.getElem?_append_right hge] at hpr
      have hstart : pr = Press.start route user := by
        have hmem := List.mem_of_getElem? hpr
        exact List.mem_singleton.mp hmem
      rw [hstart]
      apply tallied_start
      rw [emissions_concat, h.fresh p hge]
      rfl

theorem follows_step {ls : List Label} {s t : Discovery} {l : Label} (h : Follows ls s)
    (hl : step s l = some t) : Follows (ls ++ [l]) t := by
  cases l with
  | press route user =>
      obtain rfl := Option.some.inj hl
      exact follows_press h route user
  | located p =>
      obtain ⟨pr, hpr, _, rfl⟩ := step_located.mp hl
      have htallied : Tallied (ls ++ [.located p]) p { pr with listening := true } :=
        tallied_of_silent (h.tallied p pr hpr) rfl rfl rfl rfl
      have huser : ({ pr with listening := true } : Press).subscription.user =
          pr.subscription.user := rfl
      exact follows_set h hpr rfl huser htallied (fun _ _ => rfl) s.backend
  | emit p event draw =>
      obtain ⟨pr, hpr, _, rfl⟩ := step_emit.mp hl
      exact follows_set h hpr rfl (user_received pr event draw)
        (tallied_received (h.tallied p pr hpr) event draw)
        (fun q hq => if_neg fun hpq => hq hpq.symm) _
  | dispose route =>
      obtain rfl := Option.some.inj hl
      exact follows_map (l := .dispose route) h rfl (fun _ => rfl)
        (Press.keep fun id => id ≠ route) (fun _ => ⟨rfl, rfl, rfl⟩) s.backend
  | write i =>
      obtain ⟨b, _, rfl⟩ := Option.map_eq_some_iff.mp hl
      exact follows_backend h rfl (fun _ => rfl) b
  | fail i =>
      obtain ⟨b, _, rfl⟩ := Option.map_eq_some_iff.mp hl
      exact follows_backend h rfl (fun _ => rfl) b

theorem follows_run {b : Backend} {ls : List Label} {s : Discovery}
    (hr : run step (start b) ls = some s) : Follows ls s := by
  refine run_induction step (motive := Follows) ?_ ?_ hr
  · exact ⟨rfl, fun _ _ => rfl, fun _ _ hpr => by simp [start] at hpr⟩
  · exact fun ls l t u _ ih hu => follows_step ih hu

/-- A call that still awaits the entry in its own user's collection. -/
def pending (u : Text) (c : Call) : Nat :=
  if c.user = u ∧ c.progress = .awaiting .own then 1 else 0

/-- The calls of the presses of `u`. -/
def credit (u : Text) (pr : Press) : Nat :=
  if pr.subscription.user = some u then pr.calls else 0

/-- The entries written and still awaited stay within the calls of the user's presses. -/
def Balanced (u : Text) (n : Nat) (s : Discovery) : Prop :=
  ownEntries u s.backend + weight (pending u) s.backend.calls ≤ n + weight (credit u) s.presses

theorem pending_eq_zero {u : Text} {c : Call} (h : c.progress ≠ .awaiting .own) :
    pending u c = 0 := if_neg fun hc => h hc.2

/-- A write turns an awaited entry of `u` into an entry of `u`, and no write adds another. -/
theorem ownEntries_apply (u : Text) (b : Backend) (i : Nat) {c : Call} {w : FriendWrite}
    (hw : c.progress = .awaiting w) :
    ownEntries u (b.apply (c.write i w)) = ownEntries u b + pending u c := by
  cases w with
  | own =>
      by_cases huser : c.user = u
      · subst huser
        simp [ownEntries, Backend.apply, Call.write, addToFriends, Backend.addDocument, ownEntry,
          pending, hw]
      · have hne : u ≠ c.user := fun h => huser h.symm
        simp [ownEntries, Backend.apply, Call.write, addToFriends, Backend.addDocument,
          pending, huser, hne]
  | friend =>
      rw [pending_eq_zero (by rw [hw]; decide)]
      by_cases hfriend : u = c.friendUser
      · subst hfriend
        simp [ownEntries, Backend.apply, Call.write, addToFriends, Backend.addDocument, ownEntry]
      · simp [ownEntries, Backend.apply, Call.write, addToFriends, Backend.addDocument, hfriend]
  | room =>
      rw [pending_eq_zero (by rw [hw]; decide)]
      rfl

/-- A write of a call keeps the balance of its user. -/
theorem balance_write (u : Text) {b b' : Backend} {i : Nat}
    (h : Backend.step b (.write i) = some b') :
    ownEntries u b' + weight (pending u) b'.calls =
      ownEntries u b + weight (pending u) b.calls := by
  obtain ⟨c, w, hc, hw, rfl⟩ := Backend.step_write.mp h
  have hentries := ownEntries_apply u b i hw
  have hweight := weight_set (pending u) { c with progress := next w } hc
  have hzero : pending u { c with progress := next w } = 0 :=
    pending_eq_zero (by cases w <;> simp [next])
  have hcalls : ((b.apply (c.write i w)).setProgress i c (next w)).calls =
      b.calls.set i { c with progress := next w } := by
    rw [Backend.setProgress, Backend.apply_calls]
  have hfriends : ownEntries u ((b.apply (c.write i w)).setProgress i c (next w)) =
      ownEntries u (b.apply (c.write i w)) := rfl
  rw [hcalls, hfriends]
  omega

theorem balance_fail (u : Text) {b b' : Backend} {i : Nat}
    (h : Backend.step b (.fail i) = some b') :
    ownEntries u b' + weight (pending u) b'.calls ≤
      ownEntries u b + weight (pending u) b.calls := by
  obtain ⟨c, w, hc, hw, rfl⟩ := Backend.step_fail.mp h
  have hweight := weight_set (pending u) { c with progress := .failed w } hc
  have hzero : pending u { c with progress := .failed w } = 0 := pending_eq_zero (by simp)
  have hcalls : (b.setProgress i c (.failed w)).calls =
      b.calls.set i { c with progress := .failed w } := rfl
  have hfriends : ownEntries u (b.setProgress i c (.failed w)) = ownEntries u b := rfl
  rw [hcalls, hfriends]
  omega

/-- A pick adds one awaited entry and one call, both of the press's user. -/
theorem balance_called (u : Text) (b : Backend) (pr : Press) (event : List UserDoc)
    (draw : Nat) :
    ownEntries u (called b pr event draw) + weight (pending u) (called b pr event draw).calls +
        credit u pr =
      ownEntries u b + weight (pending u) b.calls + credit u (pr.received event draw) := by
  have hcredit : credit u (pr.received event draw) =
      if pr.subscription.user = some u
      then pr.calls + (picked pr.subscription event draw).toList.length else 0 := by
    rw [credit, user_received, calls_received]
  rw [hcredit]
  cases hpick : picked pr.subscription event draw with
  | none => simp [called, hpick, credit]
  | some pick =>
      obtain ⟨user, friendUser⟩ := pick
      obtain ⟨huser, _⟩ := picked_eq_some.mp hpick
      have hcalls : (called b pr event draw).calls =
          b.calls ++ [⟨user, friendUser, .awaiting .own⟩] := by simp [called, hpick, Backend.call]
      have hfriends : ownEntries u (called b pr event draw) = ownEntries u b := by
        simp [called, hpick, Backend.call, ownEntries]
      rw [hcalls, hfriends, weight_concat]
      by_cases hu : user = u
      · simp [pending, credit, huser, hu]
        omega
      · simp [pending, credit, huser, hu]

theorem balanced_step {u : Text} {n : Nat} {s t : Discovery} {l : Label}
    (h : Balanced u n s) (hl : step s l = some t) : Balanced u n t := by
  unfold Balanced at h ⊢
  cases l with
  | press route user =>
      obtain rfl := Option.some.inj hl
      dsimp only
      rw [weight_concat]
      omega
  | located p =>
      obtain ⟨pr, hpr, _, rfl⟩ := step_located.mp hl
      have hweight := weight_set (credit u) { pr with listening := true } hpr
      have hcredit : credit u { pr with listening := true } = credit u pr := rfl
      dsimp only
      omega
  | emit p event draw =>
      obtain ⟨pr, hpr, _, rfl⟩ := step_emit.mp hl
      have hweight := weight_set (credit u) (pr.received event draw) hpr
      have hcalled := balance_called u s.backend pr event draw
      dsimp only
      omega
  | dispose route =>
      obtain rfl := Option.some.inj hl
      have hweight : weight (credit u) (s.keepMounted fun id => id ≠ route).presses =
          weight (credit u) s.presses :=
        weight_map (g := Press.keep fun id => id ≠ route) _ (fun _ => rfl) _
      rw [hweight]
      exact h
  | write i =>
      obtain ⟨b, hb, rfl⟩ := Option.map_eq_some_iff.mp hl
      have hbalance := balance_write u hb
      dsimp only
      omega
  | fail i =>
      obtain ⟨b, hb, rfl⟩ := Option.map_eq_some_iff.mp hl
      have hbalance := balance_fail u hb
      dsimp only
      omega

/-- In every run from a store without calls in progress the user's entries stay balanced. -/
theorem balanced_run {b : Backend} (hb : b.Quiescent) (u : Text) {ls : List Label}
    {s : Discovery} (hr : run step (start b) ls = some s) :
    Balanced u (ownEntries u b) s := by
  refine run_preserves step (fun _ _ _ => balanced_step) ?_ hr
  have hzero : weight (pending u) b.calls = 0 := by
    apply weight_eq_zero
    intro c hc
    apply pending_eq_zero
    intro hawaiting
    have hended := hb c hc
    rw [hawaiting] at hended
    exact Bool.noConfusion hended
  show ownEntries u b + weight (pending u) b.calls ≤ ownEntries u b + 0
  omega

/-- With one call a press, the calls of the presses of `u` are no more than those presses. -/
theorem weight_credit_le {ls : List Label} {s : Discovery} (h : Follows ls s)
    (hone : ∀ pr ∈ s.presses, pr.calls ≤ 1) (u : Text) :
    weight (credit u) s.presses ≤ (pressers ls).count (some u) := by
  have hcount : (pressers ls).count (some u) =
      s.presses.countP fun pr => pr.subscription.user == some u := by
    rw [← h.pressers, List.count, List.countP_map]
    rfl
  rw [hcount]
  apply weight_le_countP
  intro pr hpr
  have hle := hone pr hpr
  by_cases huser : pr.subscription.user = some u
  · simp [credit, huser, hle]
  · simp [credit, huser]

/-- Each press of a run makes one friend at most exactly when each press of a signed-in user
receives at most one landing emission. -/
theorem one_each_iff_land_once {b : Backend} (hb : b.Quiescent) {ls : List Label}
    {s : Discovery} (hr : run step (start b) ls = some s) : OneEach b ls s ↔ LandOnce ls := by
  have hfollows := follows_run hr
  constructor
  · intro h p user hp
    rw [← hfollows.pressers, List.getElem?_map] at hp
    obtain ⟨pr, hpr, huser⟩ := Option.map_eq_some_iff.mp hp
    rw [← (hfollows.tallied p pr hpr).calls user huser]
    exact (h.press pr (List.mem_of_getElem? hpr)).1
  · intro h
    have hone : ∀ pr ∈ s.presses, pr.calls ≤ 1 := by
      intro pr hpr
      obtain ⟨p, hp⟩ := List.mem_iff_getElem?.mp hpr
      have htallied := hfollows.tallied p pr hp
      cases huser : pr.subscription.user with
      | none =>
          rw [htallied.nobody huser]
          exact Nat.zero_le 1
      | some user =>
          rw [htallied.calls user huser]
          apply h p user
          rw [← hfollows.pressers, List.getElem?_map, hp, Option.map_some, huser]
    constructor
    · intro pr hpr
      obtain ⟨p, hp⟩ := List.mem_iff_getElem?.mp hpr
      have hpushes := (hfollows.tallied p pr hp).pushes
      have hcalls := hone pr hpr
      exact ⟨hcalls, by omega⟩
    · intro u
      have hbalanced := balanced_run hb u hr
      have hcredit := weight_credit_le hfollows hone u
      unfold Balanced at hbalanced
      omega

/-- `ann` presses Discover and receives her own document first, then two documents. -/
def oneLanding : List Label :=
  [.press 0 (some (text "ann@mail.com")), .located 0,
    .emit 0 [⟨none, none, some (text "ann@mail.com"), none⟩] 0,
    .emit 0 [⟨none, none, some (text "ann@mail.com"), none⟩,
      ⟨none, none, some (text "bob@mail.com"), none⟩] 0, .write 0, .write 0]

theorem one_each_of_one_landing :
    ∃ s, run step (start Backend.empty) oneLanding = some s ∧
      OneEach Backend.empty oneLanding s := by
  refine ⟨_, rfl, (one_each_iff_land_once (by decide) rfl).mpr ?_⟩
  intro p user hp
  have hpressers : pressers oneLanding = [some (text "ann@mail.com")] := rfl
  rw [hpressers] at hp
  cases p with
  | zero =>
      obtain rfl : text "ann@mail.com" = user := by simpa using hp
      decide
  | succ p => simp at hp

/-- `ann` presses Discover once, and the result list arrives twice. -/
def twoLandings : List Label :=
  [.press 0 (some (text "ann@mail.com")), .located 0,
    .emit 0 [⟨none, none, some (text "ann@mail.com"), none⟩,
      ⟨none, none, some (text "bob@mail.com"), none⟩] 0, .write 0,
    .emit 0 [⟨none, none, some (text "ann@mail.com"), none⟩,
      ⟨none, none, some (text "bob@mail.com"), none⟩] 0, .write 1]

/-- The one press makes two calls and two pushes, and her collection grows by two entries. -/
theorem two_friends_of_one_press :
    ∃ s, run step (start Backend.empty) twoLandings = some s ∧
      ¬ OneEach Backend.empty twoLandings s ∧
      s.presses.map (fun pr => (pr.calls, pr.pushes)) = [(2, 2)] ∧
      ownEntries (text "ann@mail.com") s.backend = 2 := by
  refine ⟨_, rfl, fun h => ?_, by decide, by decide⟩
  exact absurd (h.growth (text "ann@mail.com")) (by decide)

end Chatsy.Discovery
