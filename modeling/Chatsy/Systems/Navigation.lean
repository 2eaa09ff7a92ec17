import Chatsy.Systems.WorldSafety

/-!
# The navigator of a phone

All screens push onto one stack, also from answers that come when another screen
is on top, and Back takes the top off unless it is the Welcome screen. The stack
keeps a shape all the same: every route has its own number, a chat lies on a
`MainScreen` and a registration on the Welcome screen. A Welcome screen is a
floor: it and all that lies below stay until the app is started again.
-/

namespace Chatsy

open Foundation

/-- A screen that is pushed on certain screens only. -/
def Screen.Over (above below : Screen) : Prop :=
  match above with
  | .chat _ => below.isMain = true
  | .registration => below = .welcome
  | _ => True

theorem Screen.Over.setMain {r r' : Route} (h : r.screen.Over r'.screen) (id : Nat)
    (m : MainScreen) : (r.setMain id m).screen.Over (r'.setMain id m).screen := by
  obtain ⟨k, screen⟩ := r
  cases screen with
  | welcome => trivial
  | login => trivial
  | registration => exact Session.setMain_eq_welcome.mpr h
  | main n =>
      by_cases hk : k = id
      · simp [Route.setMain, hk, Screen.Over]
      · simp [Route.setMain, hk, Screen.Over]
  | chat friendEmail => exact (Session.isMain_setMain id m r').trans h

namespace Session

/-- What a step other than an app start does to the stack and to the next number. -/
inductive Moved (stack : List Route) (routes : Nat) : List Route → Nat → Prop
  | keep : Moved stack routes stack routes
  | push {r : Route} {below : List Route} {screen : Screen} (hstack : stack = r :: below)
      (hover : screen.Over r.screen) : Moved stack routes (⟨routes, screen⟩ :: stack) (routes + 1)
  | pop {r r' : Route} {below : List Route} (hstack : stack = r :: r' :: below)
      (hr : r.screen ≠ .welcome) : Moved stack routes (r' :: below) routes
  | update (id : Nat) (m : MainScreen) : Moved stack routes (stack.map (Route.setMain id m)) routes

theorem moved_push_of_top {s : Session} {screen top : Screen} (htop : s.top = some top)
    (hover : screen.Over top) :
    Moved s.stack s.routes (s.push screen).stack (s.push screen).routes := by
  obtain ⟨r, hr, rfl⟩ := Option.map_eq_some_iff.mp htop
  obtain ⟨below, hstack⟩ := List.head?_eq_some_iff.mp hr
  exact .push hstack hover

theorem moved_pushFrom {s : Session} {id : Nat} {screen : Screen}
    (hover : ∀ below, screen.Over below) :
    Moved s.stack s.routes (s.pushFrom id screen).stack (s.pushFrom id screen).routes := by
  unfold pushFrom
  split
  · rename_i hmounted
    obtain ⟨r, hr, _⟩ := List.any_eq_true.mp hmounted
    obtain ⟨top, below, hstack⟩ := List.exists_cons_of_ne_nil (List.ne_nil_of_mem hr)
    exact .push hstack (hover _)
  · exact .keep

theorem moved_pushPicked (s : Session) (pr : Press) (event : List UserDoc) (draw : Nat) :
    Moved s.stack s.routes (s.pushPicked pr event draw).stack
      (s.pushPicked pr event draw).routes := by
  unfold pushPicked
  split
  · exact moved_pushFrom fun _ => trivial
  · exact .keep

theorem moved_maybePop {s t : Session} (h : s.maybePop = some t) :
    Moved s.stack s.routes t.stack t.routes := by
  unfold maybePop at h
  split at h
  · exact absurd h (Option.some_ne_none t).symm
  · rename_i r below hstack
    by_cases hr : r.screen = .welcome
    · rw [if_pos hr] at h
      obtain rfl := Option.some.inj h
      exact .keep
    · rw [if_neg hr] at h
      obtain ⟨hbelow, h⟩ := Option.ite_none_left_eq_some.mp h
      obtain rfl := Option.some.inj h
      obtain ⟨r', rest, rfl⟩ := List.exists_cons_of_ne_nil hbelow
      exact .pop hstack hr

theorem moved_step {s t : Session} {l : Label} (h : step s l = some t) (hl : l ≠ .appStart) :
    Moved s.stack s.routes t.stack t.routes := by
  cases l with
  | appStart => exact absurd rfl hl
  | openLogin =>
      obtain ⟨htop, rfl⟩ := guarded_eq_some.mp h
      exact moved_push_of_top htop trivial
  | openRegistration =>
      obtain ⟨htop, rfl⟩ := guarded_eq_some.mp h
      exact moved_push_of_top htop rfl
  | registered id =>
      obtain ⟨hshows, rfl⟩ := guarded_eq_some.mp h
      obtain ⟨r, hr, _⟩ := List.any_eq_true.mp hshows
      obtain ⟨top, below, hstack⟩ := List.exists_cons_of_ne_nil (List.ne_nil_of_mem hr)
      exact .push hstack trivial
  | accountCreated user =>
      obtain rfl := Option.some.inj h
      exact .keep
  | openChat friendEmail =>
      obtain ⟨hshows, rfl⟩ := guarded_eq_some.mp h
      unfold showsFriends at hshows
      split at hshows
      · rename_i m htop
        exact moved_push_of_top htop rfl
      · exact Bool.noConfusion hshows
  | back => exact moved_maybePop h
  | loginPress email password =>
      obtain ⟨htop, rfl⟩ := guarded_eq_some.mp h
      exact moved_push_of_top (s := s) htop trivial
  | loginPrefsWritten =>
      obtain ⟨_, rfl⟩ := guarded_eq_some.mp h
      exact .keep
  | signInSucceeds i user =>
      obtain ⟨_, rfl⟩ := guarded_eq_some.mp h
      exact .keep
  | signInFails i =>
      obtain ⟨_, rfl⟩ := guarded_eq_some.mp h
      exact .keep
  | main id e =>
      obtain ⟨_, h⟩ := Option.ite_none_right_eq_some.mp h
      obtain ⟨⟨m, signsOut⟩, _, rfl⟩ := Option.map_eq_some_iff.mp h
      exact .update id m
  | signOutContinues i =>
      obtain ⟨id, _, rfl⟩ := Option.map_eq_some_iff.mp h
      exact moved_pushFrom (s := { s with
        isLoggedIn := some false
        signOutCalls := s.signOutCalls.eraseIdx i
        signOuts := s.signOuts + 1 }) fun _ => trivial
  | signOutDone =>
      obtain ⟨_, rfl⟩ := guarded_eq_some.mp h
      exact .keep
  | signOutFails =>
      obtain ⟨_, rfl⟩ := guarded_eq_some.mp h
      exact .keep

/-- The shape of the stack: the numbers decrease from the top, each screen lies on one that it may
lie on, the lowest is the one of an app start, and nothing but the time before the first app start
leaves the stack empty. -/
structure WellStacked (stack : List Route) (routes : Nat) : Prop where
  numbers : stack.Pairwise fun r r' => r'.id < r.id
  fresh : ∀ r ∈ stack, r.id < routes
  layered : stack.IsChain fun r r' => r.screen.Over r'.screen
  root : ∀ r, stack.getLast? = some r → r.screen = .welcome ∨ r.screen.isMain = true
  started : routes ≠ 0 → stack ≠ []

variable {stack stack' : List Route} {routes routes' : Nat}

theorem wellStacked_push (h : WellStacked stack routes) {r : Route} {below : List Route}
    {screen : Screen} (hstack : stack = r :: below) (hover : screen.Over r.screen) :
    WellStacked (⟨routes, screen⟩ :: stack) (routes + 1) where
  numbers := List.pairwise_cons.mpr ⟨h.fresh, h.numbers⟩
  fresh := by
    intro r' hr'
    rcases List.mem_cons.mp hr' with rfl | hr'
    · exact Nat.lt_succ_self _
    · exact Nat.lt_succ_of_lt (h.fresh r' hr')
  layered := by
    apply h.layered.cons
    intro r' hr'
    rw [hstack, List.head?_cons] at hr'
    obtain rfl := Option.mem_some_iff.mp hr'
    exact hover
  root := by
    intro r' hr'
    apply h.root r'
    rwa [hstack, List.getLast?_cons_cons, ← hstack] at hr'
  started := fun _ => List.cons_ne_nil _ _

theorem wellStacked_pop {r r' : Route} {below : List Route}
    (h : WellStacked (r :: r' :: below) routes) : WellStacked (r' :: below) routes where
  numbers := h.numbers.of_cons
  fresh := fun r₀ hr₀ => h.fresh r₀ (List.mem_cons_of_mem r hr₀)
  layered := h.layered.tail
  root := fun r₀ hr₀ => h.root r₀ (by rwa [List.getLast?_cons_cons])
  started := fun _ => List.cons_ne_nil _ _

theorem wellStacked_update (h : WellStacked stack routes) (id : Nat) (m : MainScreen) :
    WellStacked (stack.map (Route.setMain id m)) routes where
  numbers := by
    rw [List.pairwise_map]
    simpa only [Route.id_setMain] using h.numbers
  fresh := by
    intro r hr
    obtain ⟨r₀, hr₀, rfl⟩ := List.mem_map.mp hr
    rw [Route.id_setMain]
    exact h.fresh r₀ hr₀
  layered := by
    rw [List.isChain_map]
    exact h.layered.imp fun r r' hover => hover.setMain id m
  root := by
    intro r hr
    rw [List.getLast?_map] at hr
    obtain ⟨r₀, hr₀, rfl⟩ := Option.map_eq_some_iff.mp hr
    rw [setMain_eq_welcome, isMain_setMain]
    exact h.root r₀ hr₀
  started := fun hroutes hnil => h.started hroutes (List.map_eq_nil_iff.mp hnil)

theorem wellStacked_moved (h : WellStacked stack routes)
    (hmoved : Moved stack routes stack' routes') : WellStacked stack' routes' := by
  cases hmoved with
  | keep => exact h
  | push hstack hover => exact wellStacked_push h hstack hover
  | pop hstack hr =>
      subst hstack
      exact wellStacked_pop h
  | update id m => exact wellStacked_update h id m

theorem wellStacked_appStart (page : Option Bool) (routes : Nat) :
    WellStacked [⟨routes, home page⟩] (routes + 1) where
  numbers := List.pairwise_singleton _ _
  fresh := by simp
  layered := List.isChain_singleton _
  root := by
    intro r hr
    obtain rfl := Option.some.inj hr
    unfold home
    split
    · exact Or.inr rfl
    · exact Or.inl rfl
  started := fun _ => List.cons_ne_nil _ _

/-- The topmost Welcome screen and what lies below it. -/
def floor (stack : List Route) : List Route := stack.dropWhile fun r => r.screen ≠ .welcome

/-- The numbers of the routes on the floor are kept. -/
theorem floor_moved (hmoved : Moved stack routes stack' routes') :
    (floor stack).map Route.id <:+ (floor stack').map Route.id := by
  cases hmoved with
  | keep => exact List.suffix_refl _
  | @push r below screen hstack hover =>
      by_cases hscreen : screen = .welcome
      · have hnew : floor (⟨routes, screen⟩ :: stack) = ⟨routes, screen⟩ :: stack := by
          rw [floor, List.dropWhile_cons_of_neg (by simp [hscreen])]
        rw [hnew]
        exact ((List.dropWhile_suffix _).trans (List.suffix_cons _ _)).map _
      · have hsame : floor (⟨routes, screen⟩ :: stack) = floor stack := by
          rw [floor, List.dropWhile_cons_of_pos (by simp [hscreen]), floor]
        rw [hsame]
  | @pop r r' below hstack hr =>
      subst hstack
      have hsame : floor (r :: r' :: below) = floor (r' :: below) := by
        rw [floor, List.dropWhile_cons_of_pos (by simp [hr]), floor]
      rw [hsame]
  | update id m =>
      have hsame : (floor (stack.map (Route.setMain id m))).map Route.id =
          (floor stack).map Route.id := by
        have hpred : ((fun r : Route => decide (r.screen ≠ .welcome)) ∘ Route.setMain id m) =
            fun r => decide (r.screen ≠ .welcome) := by
          funext r
          simp only [Function.comp_apply, ne_eq, setMain_eq_welcome]
        rw [floor, List.dropWhile_map, hpred, List.map_map, floor]
        exact List.map_congr_left fun r _ => Route.id_setMain id m r
      rw [hsame]

end Session

/-- What a step of a phone other than an app start does to its stack. -/
theorem Phone.moved_of_step {norm : Text → Text} {c : Cloud} {p p' : Phone} {l : Label}
    {rs : List Request} (h : step norm c p l = some (p', rs)) (hl : l ≠ .session .appStart) :
    Session.Moved p.session.stack p.session.routes p'.session.stack p'.session.routes := by
  cases stepped_of_step h with
  | @session l t _ ht =>
      rw [session_withSession]
      exact Session.moved_step ht fun hstart => hl (hstart ▸ rfl)
  | tapTile _ _ _ ht => exact Session.moved_step ht (by simp)
  | @emit k pr keys draw _ _ => exact Session.moved_pushPicked p.session pr (event c keys) draw
  | accountCreated _ ht => exact Session.moved_step ht (by simp)
  | profileWritten i ht =>
      rcases ht with rfl | ht
      · exact .keep
      · exact Session.moved_step ht (by simp)
  | lateUser _ _ => exact .keep
  | position pos _ => exact .keep
  | compose _ _ => exact .keep
  | press _ => exact .keep
  | located _ => exact .keep
  | write _ => exact .keep
  | fail _ => exact .keep
  | register es _ => exact .keep
  | accountFails i => exact .keep
  | profileFails i => exact .keep

namespace World

variable {norm : Text → Text} {n : Nat} {ls : List Label} {w w' : World}

theorem wellStacked_installed : Session.WellStacked Session.installed.stack 0 where
  numbers := List.Pairwise.nil
  fresh := fun _ hr => absurd hr List.not_mem_nil
  layered := List.isChain_nil
  root := fun r hr => absurd hr (Option.some_ne_none r).symm
  started := fun hroutes => absurd rfl hroutes

theorem wellStacked_run (hr : run (step norm) (start n) ls = some w) :
    ∀ (k : Nat) (p : Phone), w.phones[k]? = some p →
      Session.WellStacked p.session.stack p.session.routes := by
  apply phone_run (I := fun _ _ _ (p : Phone) =>
    Session.WellStacked p.session.stack p.session.routes) _ _ _ hr
  · exact fun k => wellStacked_installed
  · exact fun ls w l w' k p _ _ _ ih => ih
  · intro ls w l w' k p p' rs _ _ hstep _ ih
    by_cases hl : l = .session .appStart
    · subst hl
      obtain ⟨rfl, rfl⟩ := Prod.mk.inj (Option.some.inj hstep)
      exact Session.wellStacked_appStart _ _
    · exact Session.wellStacked_moved ih (Phone.moved_of_step hstep hl)

/-- Along every run the navigator of every phone keeps its shape. -/
theorem stacks_well_formed (hr : run (step norm) (start n) ls = some w) :
    ∀ p ∈ w.phones, Session.WellStacked p.session.stack p.session.routes := by
  intro p hp
  obtain ⟨k, hk⟩ := List.mem_iff_getElem?.mp hp
  exact wellStacked_run hr k p hk

theorem annMeetsBob_stacks :
    ∃ w, run (step lowerCase) (start 2) annMeetsBob = some w ∧
      ∀ p ∈ w.phones, Session.WellStacked p.session.stack p.session.routes :=
  ⟨_, rfl, stacks_well_formed (rfl : run (step lowerCase) (start 2) annMeetsBob = some _)⟩

/-- Until the app is started again on a phone, the routes from its topmost Welcome screen down stay
where they are, whatever is pushed, answered or taken back. -/
theorem floor_stays (hr : run (step norm) w ls = some w') {k : Nat} {p p' : Phone}
    (hp : w.phones[k]? = some p) (hp' : w'.phones[k]? = some p')
    (hls : .phone k (.session .appStart) ∉ ls) :
    (Session.floor p.session.stack).map Route.id <:+
      (Session.floor p'.session.stack).map Route.id := by
  refine run_induction (step norm) (motive := fun ls w' => .phone k (.session .appStart) ∉ ls →
    ∀ p', w'.phones[k]? = some p' → (Session.floor p.session.stack).map Route.id <:+
      (Session.floor p'.session.stack).map Route.id) ?_ ?_ hr hls p' hp'
  · intro _ q hq
    obtain rfl : p = q := Option.some.inj (hp.symm.trans hq)
    exact List.suffix_refl _
  · intro ls l t u _ ih h hls q' hq'
    obtain ⟨q, hq, hcases⟩ := phone_of_step h hq'
    have hkept := ih (fun hmem => hls (List.mem_append_left _ hmem)) q hq
    rcases hcases with ⟨rfl, _⟩ | ⟨l', rs, rfl, hstep, _⟩
    · exact hkept
    · have hl : l' ≠ .session .appStart := by
        rintro rfl
        exact hls (by simp)
      exact hkept.trans (Session.floor_moved (Phone.moved_of_step hstep hl))

/-- `ann` registers, logs in and signs out. -/
def annLeaves : List Label :=
  signUp 0 0 (text "ann@mail.com") ++ arrive 0 3 (text "ann@mail.com") ++
    [.phone 0 (.session (.main 3 (.onTap 3))), .phone 0 (.session (.main 3 .frame)),
      .phone 0 (.session (.signOutContinues 0))]

theorem annLeaves_floor :
    ∃ w w' p p', run (step lowerCase) (start 1) annLeaves = some w ∧
      run (step lowerCase) w [.phone 0 (.session .openLogin), .phone 0 (.session .back),
        .phone 0 (.session .back)] = some w' ∧
      w.phones[0]? = some p ∧ w'.phones[0]? = some p' ∧
      (Session.floor p.session.stack).map Route.id = [4, 3, 2, 1, 0] ∧
      (Session.floor p.session.stack).map Route.id <:+
        (Session.floor p'.session.stack).map Route.id := by
  have hr : run (step lowerCase) (start 1) annLeaves = some _ := rfl
  have hall : run (step lowerCase) (start 1) (annLeaves ++ [.phone 0 (.session .openLogin),
      .phone 0 (.session .back), .phone 0 (.session .back)]) = some _ := rfl
  obtain ⟨w, hw, hback⟩ := (run_append_eq_some (step lowerCase)).mp hall
  obtain rfl := Option.some.inj (hr.symm.trans hw)
  exact ⟨_, _, _, _, hr, hback, rfl, rfl, rfl, floor_stays (k := 0) hback rfl rfl (by simp)⟩

end World

end Chatsy
