import Chatsy.Systems.Navigation

/-!
# What a covered session can still do

A Welcome screen cancels nothing, but it hides what lies below. A phone on which
no `MainScreen` lies above the topmost Welcome screen, and whose presses of
Discover have lost their pages, is of no use to anybody before the next Login
press or app start: no `MainScreen` comes on top, Discover cannot be pressed, no
chat is opened and no message sent, whatever answers and emissions come late and
whatever the other phones do. Where a `MainScreen` lies above, Back leads to it.
-/

namespace Chatsy

open Foundation DiscoverScreen

namespace Session

theorem showsMain_of_homePage {s : Session} {u : Text} (h : s.homePage = some u) :
    s.showsMain = true := by
  unfold homePage at h
  split at h
  · rename_i m htop
    rw [showsMain, htop]
    rfl
  · exact absurd h (Option.some_ne_none u).symm

/-- A chat on top lies on a `MainScreen`. -/
theorem exposed_of_chat {s : Session} {routes : Nat} (h : WellStacked s.stack routes) {r : Route}
    {below : List Route} (hstack : s.stack = r :: below) {friendEmail : Text}
    (hr : r.screen = .chat friendEmail) : s.exposed = true := by
  have hlayered := h.layered
  have hroot := h.root
  rw [hstack] at hlayered hroot
  cases below with
  | nil =>
      have hbottom := hroot r rfl
      rw [hr] at hbottom
      rcases hbottom with hwelcome | hmain
      · exact Screen.noConfusion hwelcome
      · exact Bool.noConfusion hmain
  | cons r' below =>
      have hover := (List.isChain_cons_cons.mp hlayered).1
      rw [hr] at hover
      have hmain : r'.screen.isMain = true := hover
      have hwelcome : r'.screen ≠ .welcome := by
        intro heq
        rw [heq] at hmain
        exact Bool.noConfusion hmain
      simp [exposed, hstack, hr, hwelcome, hmain]

end Session

namespace Phone

variable {norm : Text → Text} {c : Cloud} {p p' : Phone} {l : Label} {rs : List Request}

/-- The route of an opened chat shows a chat as long as it is in the navigator. -/
def PagesOnRoutes (p : Phone) : Prop :=
  ∀ page ∈ p.pages, page.route < p.session.routes ∧
    ∀ r ∈ p.session.stack, r.id = page.route → ∃ friendEmail, r.screen = .chat friendEmail

/-- A route of a chat stays one. -/
theorem onRoute_moved {stack stack' : List Route} {routes routes' route : Nat}
    (h : route < routes ∧ ∀ r ∈ stack, r.id = route → ∃ f, r.screen = .chat f)
    (hmoved : Session.Moved stack routes stack' routes') :
    route < routes' ∧ ∀ r ∈ stack', r.id = route → ∃ f, r.screen = .chat f := by
  obtain ⟨hlt, hchat⟩ := h
  cases hmoved with
  | keep => exact ⟨hlt, hchat⟩
  | push _ _ =>
      refine ⟨Nat.lt_succ_of_lt hlt, fun r hr hid => ?_⟩
      rcases List.mem_cons.mp hr with rfl | hr
      · exact absurd hid (Nat.ne_of_gt hlt)
      · exact hchat r hr hid
  | pop hstack _ =>
      subst hstack
      exact ⟨hlt, fun r hr => hchat r (List.mem_cons_of_mem _ hr)⟩
  | update id m =>
      refine ⟨hlt, fun r hr hid => ?_⟩
      obtain ⟨r₀, hr₀, rfl⟩ := List.mem_map.mp hr
      rw [Route.id_setMain] at hid
      obtain ⟨f, hf⟩ := hchat r₀ hr₀ hid
      exact ⟨f, by rw [Route.setMain, hf, hf]⟩

/-- The pages after a step are those from before, on their routes, or a new one on the route that
is pushed for it. -/
theorem pages_of_step (h : step norm c p l = some (p', rs)) :
    ∀ page' ∈ p'.pages, (l ≠ .session .appStart ∧ ∃ page ∈ p.pages, page'.route = page.route) ∨
      (page'.route = p.session.routes ∧ ∃ friendEmail,
        p'.session = p.session.push (.chat friendEmail)) := by
  have hkept : l ≠ .session .appStart → ∀ page' ∈ p.pages, (l ≠ .session .appStart ∧
      ∃ page ∈ p.pages, page'.route = page.route) ∨ (page'.route = p.session.routes ∧
        ∃ friendEmail, p'.session = p.session.push (.chat friendEmail)) := fun hl page' hpage' =>
    Or.inl ⟨hl, page', hpage', rfl⟩
  cases stepped_of_step h with
  | @session l t _ ht =>
      by_cases hl : l = .appStart
      · subst hl
        exact fun page' hpage' => absurd hpage' List.not_mem_nil
      · have hpages : (p.withSession l t).pages = p.pages := by rw [withSession, if_neg hl]
        rw [hpages]
        exact hkept (by simpa using hl)
  | @tapTile snapshot index user friendEmail t _ _ _ ht =>
      intro page' hpage'
      rcases List.mem_append.mp hpage' with hold | hnew
      · exact hkept (by simp) page' hold
      · obtain rfl := List.mem_singleton.mp hnew
        obtain ⟨_, rfl⟩ := guarded_eq_some.mp ht
        exact Or.inr ⟨rfl, friendEmail, rfl⟩
  | @compose k l page composer hpage hcomposer =>
      intro page' hpage'
      rcases List.mem_or_eq_of_mem_set hpage' with hold | rfl
      · exact hkept (by simp) page' hold
      · exact Or.inl ⟨by simp, page, List.mem_of_getElem? hpage, rfl⟩
  | emit keys draw _ _ => exact hkept (by simp)
  | accountCreated _ _ => exact hkept (by simp)
  | profileWritten i _ => exact hkept (by simp)
  | lateUser _ _ => exact hkept (by simp)
  | position pos _ => exact hkept (by simp)
  | press _ => exact hkept (by simp)
  | located _ => exact hkept (by simp)
  | write _ => exact hkept (by simp)
  | fail _ => exact hkept (by simp)
  | register es _ => exact hkept (by simp)
  | accountFails i => exact hkept (by simp)
  | profileFails i => exact hkept (by simp)

theorem pagesOnRoutes_step (h : PagesOnRoutes p)
    (hstack : Session.WellStacked p.session.stack p.session.routes)
    (hstep : step norm c p l = some (p', rs)) : PagesOnRoutes p' := by
  intro page' hpage'
  rcases pages_of_step hstep page' hpage' with ⟨hl, page, hpage, hroute⟩ | ⟨hroute, f, hpush⟩
  · rw [hroute]
    exact onRoute_moved (h page hpage) (moved_of_step hstep hl)
  · rw [hroute, hpush]
    refine ⟨Nat.lt_succ_self _, fun r hr hid => ?_⟩
    rcases List.mem_cons.mp hr with rfl | hr
    · exact ⟨f, rfl⟩
    · exact absurd hid (Nat.ne_of_lt (hstack.fresh r hr))

/-- No `MainScreen` lies above the topmost Welcome screen, and no press of a user has its page. -/
structure Covered (p : Phone) : Prop where
  covered : p.session.exposed = false
  severed : ∀ pr ∈ p.presses, pr.mounted = true → pr.subscription.user = none

theorem Covered.showsMain (h : p.Covered) : p.session.showsMain = false := by
  apply Bool.eq_false_iff.mpr
  intro hmain
  have hexposed := Session.exposed_of_showsMain hmain
  rw [h.covered] at hexposed
  exact Bool.noConfusion hexposed

theorem mounted_received (pr : Press) (event : List UserDoc) (draw : Nat) :
    (pr.received event draw).mounted = pr.mounted := by
  unfold Press.received
  split <;> rfl

/-- A listener whose page is gone pushes nothing. -/
theorem Covered.pushPicked (h : p.Covered) {pr : Press} (hpr : pr ∈ p.presses)
    (event : List UserDoc) (draw : Nat) : p.session.pushPicked pr event draw = p.session := by
  apply if_neg
  rintro ⟨hmounted, hpicked⟩
  obtain ⟨⟨v, friendUser⟩, hpick⟩ := Option.isSome_iff_exists.mp hpicked
  obtain ⟨huser, _⟩ := picked_eq_some.mp hpick
  exact Option.some_ne_none v (huser.symm.trans (h.severed pr hpr hmounted))

/-- Without a Login press or an app start nothing uncovers the phone. -/
theorem covered_step (h : p.Covered) (hstep : step norm c p l = some (p', rs))
    (hstart : ∀ l', l = .session l' → l'.starts = false) : p'.Covered := by
  cases stepped_of_step hstep with
  | @session l t _ ht =>
      have hl := hstart l rfl
      have hne : l ≠ .appStart := by
        rintro rfl
        exact Bool.noConfusion hl
      refine ⟨?_, fun pr hpr hmounted => ?_⟩
      · rw [session_withSession]
        exact Session.exposed_step h.covered hl ht
      · rw [withSession, if_neg hne] at hpr
        obtain ⟨pr₀, hpr₀, rfl⟩ := List.mem_map.mp hpr
        exact h.severed pr₀ hpr₀ (Bool.and_eq_true_iff.mp hmounted).1
  | tapTile huser _ _ _ =>
      have hmain := Session.showsMain_of_homePage huser
      rw [h.showsMain] at hmain
      exact Bool.noConfusion hmain
  | press hpage =>
      have hmain := (Session.discoverPage_eq_some hpage).1
      rw [h.showsMain] at hmain
      exact Bool.noConfusion hmain
  | @located k pr hpr =>
      refine ⟨h.covered, fun pr' hpr' hmounted => ?_⟩
      rcases List.mem_or_eq_of_mem_set hpr' with hold | rfl
      · exact h.severed pr' hold hmounted
      · exact h.severed pr (List.mem_of_getElem? hpr) hmounted
  | @emit k pr keys draw hpr _ =>
      have hmem : pr ∈ p.presses := List.mem_of_getElem? hpr
      refine ⟨?_, fun pr' hpr' hmounted => ?_⟩
      · rw [h.pushPicked hmem]
        exact h.covered
      · rcases List.mem_or_eq_of_mem_set hpr' with hold | rfl
        · exact h.severed pr' hold hmounted
        · rw [Discovery.user_received]
          exact h.severed pr hmem ((mounted_received pr _ draw).symm.trans hmounted)
  | accountCreated _ ht => exact ⟨Session.exposed_step h.covered rfl ht, h.severed⟩
  | profileWritten i ht =>
      rcases ht with rfl | ht
      · exact h
      · exact ⟨Session.exposed_step h.covered rfl ht, h.severed⟩
  | lateUser _ _ => exact ⟨h.covered, h.severed⟩
  | position pos _ => exact ⟨h.covered, h.severed⟩
  | compose _ _ => exact ⟨h.covered, h.severed⟩
  | write _ => exact h
  | fail _ => exact h
  | register es _ => exact ⟨h.covered, h.severed⟩
  | accountFails i => exact h
  | profileFails i => exact h

end Phone

namespace World

variable {norm : Text → Text} {n k : Nat} {pre ls : List Label} {w w' : World} {p : Phone}

theorem pagesOnRoutes_run (hr : run (step norm) (start n) ls = some w) :
    ∀ (k : Nat) (p : Phone), w.phones[k]? = some p → p.PagesOnRoutes := by
  apply phone_run (I := fun _ _ _ (p : Phone) => p.PagesOnRoutes) _ _ _ hr
  · exact fun k page hpage => absurd hpage List.not_mem_nil
  · exact fun ls w l w' k p _ _ _ ih => ih
  · intro ls w l w' k p p' rs hw hp hstep _ ih
    exact Phone.pagesOnRoutes_step ih (wellStacked_run hw k p hp) hstep

/-- Nobody can use the phone: no `MainScreen` is on top, and there is no press of Discover, no tap
on a tile and no Send. -/
structure Idle (norm : Text → Text) (w : World) (k : Nat) : Prop where
  hidden : ∀ p : Phone, w.phones[k]? = some p → p.session.showsMain = false
  press : step norm w (.phone k .press) = none
  tapTile : ∀ snapshot index, step norm w (.phone k (.tapTile snapshot index)) = none
  send : ∀ j now, step norm w (.phone k (.compose j (.send now))) = none

theorem idle_of_covered (hr : run (step norm) (start n) ls = some w)
    (h : ∀ p : Phone, w.phones[k]? = some p → p.Covered) : Idle norm w k := by
  have hnone : ∀ l, (∀ p : Phone, w.phones[k]? = some p → ∀ p' rs,
      Phone.step norm w.cloud p l ≠ some (p', rs)) → step norm w (.phone k l) = none := by
    intro l hl
    apply Option.eq_none_iff_forall_ne_some.mpr
    intro w' hw'
    obtain ⟨rs, hmoves, _⟩ := (step_eq_some norm).mp hw'
    obtain ⟨phones', cloud'⟩ := w'
    cases moved_of_moves norm hmoves with
    | @phone _ _ p p' rs hp hstep => exact hl p hp p' rs hstep
  constructor
  · exact fun p hp => (h p hp).showsMain
  · apply hnone
    intro p hp p' rs hstep
    cases Phone.stepped_of_step hstep with
    | press hpage =>
        have hmain := (Session.discoverPage_eq_some hpage).1
        rw [(h p hp).showsMain] at hmain
        exact Bool.noConfusion hmain
  · intro snapshot index
    apply hnone
    intro p hp p' rs hstep
    cases Phone.stepped_of_step hstep with
    | tapTile huser _ _ _ =>
        have hmain := Session.showsMain_of_homePage huser
        rw [(h p hp).showsMain] at hmain
        exact Bool.noConfusion hmain
  · intro j now
    apply hnone
    intro p hp p' rs hstep
    obtain ⟨page, hpage, hstep⟩ := Option.bind_eq_some_iff.mp hstep
    obtain ⟨hadmits, _⟩ := Option.ite_none_right_eq_some.mp hstep
    obtain ⟨r, hr', hid⟩ := (Option.any_eq_true _ _).mp hadmits
    obtain ⟨below, hstack⟩ := List.head?_eq_some_iff.mp hr'
    obtain ⟨f, hchat⟩ := (pagesOnRoutes_run hr k p hp page (List.mem_of_getElem? hpage)).2 r
      (hstack ▸ List.mem_cons_self) (of_decide_eq_true hid)
    have hexposed := Session.exposed_of_chat (wellStacked_run hr k p hp) hstack hchat
    rw [(h p hp).covered] at hexposed
    exact Bool.noConfusion hexposed

/-- No Login press and no app start on the phone. -/
def NoStart (k : Nat) (ls : List Label) : Prop :=
  ∀ l, .phone k (.session l) ∈ ls → l.starts = false

theorem covered_run (h : ∀ p : Phone, w.phones[k]? = some p → p.Covered)
    (hr : run (step norm) w ls = some w') (hls : NoStart k ls) :
    ∀ p : Phone, w'.phones[k]? = some p → p.Covered := by
  refine run_induction (step norm) (motive := fun ls w' => NoStart k ls →
    ∀ p : Phone, w'.phones[k]? = some p → p.Covered) (fun _ => h) ?_ hr hls
  intro ls l t u _ ih hstep hls p' hp'
  have hbefore := ih fun l' hl' => hls l' (List.mem_append_left _ hl')
  obtain ⟨p, hp, ⟨rfl, _⟩ | ⟨l', rs, rfl, hphone, _⟩⟩ := phone_of_step hstep hp'
  · exact hbefore p' hp
  · apply Phone.covered_step (hbefore p hp) hphone
    rintro l rfl
    exact hls l (by simp)

/-- Back presses uncover a `MainScreen` above the topmost Welcome screen. -/
theorem exists_run_uncover (hp : w.phones[k]? = some p) (h : p.session.exposed = true) :
    ∃ ls w' p', (∀ l ∈ ls, l = .phone k (.session .back)) ∧ run (step norm) w ls = some w' ∧
      w'.phones[k]? = some p' ∧ p'.session.showsMain = true := by
  induction hstack : p.session.stack generalizing w p with
  | nil =>
      rw [Session.exposed, hstack] at h
      exact Bool.noConfusion h
  | cons r below ih =>
      by_cases hmain : r.screen.isMain = true
      · refine ⟨[], w, p, by simp, rfl, hp, ?_⟩
        rw [Session.showsMain, Session.top, hstack]
        exact hmain
      · have hwelcome : r.screen ≠ .welcome := by
          intro hr
          rw [Session.exposed, hstack, List.takeWhile_cons_of_neg (by simp [hr])] at h
          exact Bool.noConfusion h
        have hbelow : (below.takeWhile fun r => r.screen ≠ .welcome).any
            (fun r => r.screen.isMain) = true := by
          rw [Session.exposed, hstack, List.takeWhile_cons_of_pos (by simp [hwelcome]),
            List.any_cons, Bool.or_eq_true_iff] at h
          exact h.resolve_left hmain
        have hne : below ≠ [] := by
          rintro rfl
          exact Bool.noConfusion hbelow
        have hpop : Session.step p.session .back = some { p.session with stack := below } := by
          simp [Session.step, Session.maybePop, hstack, hwelcome, hne]
        let popped := p.withSession .back { p.session with stack := below }
        have hback : step norm w (.phone k (.session .back)) =
            some ⟨w.phones.set k popped, w.cloud⟩ := by
          simp [step, moves, hp, Phone.step, Phone.permits, hpop, popped]
        have hpopped : (w.phones.set k popped)[k]? = some popped :=
          List.getElem?_set_self (List.getElem?_eq_some_iff.mp hp).1
        obtain ⟨ls, w', p', hls, hrun, hp', hshows⟩ :=
          ih (w := ⟨w.phones.set k popped, w.cloud⟩) hpopped hbelow rfl
        refine ⟨.phone k (.session .back) :: ls, w', p', ?_, by rw [run_cons, hback]; exact hrun,
          hp', hshows⟩
        intro l hl
        rcases List.mem_cons.mp hl with rfl | hl
        · rfl
        · exact hls l hl

/-- With no page of Discover left, nobody can use the phone before the next Login press or app
start, whatever comes late and whatever the other phones do, exactly when no `MainScreen` lies above
the topmost Welcome screen. -/
theorem idle_iff_covered (hr : run (step norm) (start n) pre = some w) (hp : w.phones[k]? = some p)
    (hsevered : ∀ pr ∈ p.presses, pr.mounted = true → pr.subscription.user = none) :
    (∀ ls w', NoStart k ls → run (step norm) w ls = some w' → Idle norm w' k) ↔
      p.session.exposed = false := by
  constructor
  · intro h
    apply Bool.eq_false_iff.mpr
    intro hexposed
    obtain ⟨ls, w', p', hls, hrun, hp', hshows⟩ := exists_run_uncover hp hexposed
    have hstart : NoStart k ls := by
      intro l hl
      obtain rfl := Phone.Label.session.inj (Label.phone.inj (hls _ hl)).2
      rfl
    rw [(h ls w' hstart hrun).hidden p' hp'] at hshows
    exact Bool.noConfusion hshows
  · intro hexposed ls w' hls hrun
    apply idle_of_covered ((run_append_eq_some (step norm)).mpr ⟨w, hr, hrun⟩)
    refine covered_run (fun q hq => ?_) hrun hls
    obtain rfl := Option.some.inj (hp.symm.trans hq)
    exact ⟨hexposed, hsevered⟩

theorem annLeaves_idle :
    ∃ w, run (step lowerCase) (start 1) annLeaves = some w ∧
      ∀ ls w', NoStart 0 ls → run (step lowerCase) w ls = some w' → Idle lowerCase w' 0 := by
  have hr : run (step lowerCase) (start 1) annLeaves = some _ := rfl
  exact ⟨_, hr, (idle_iff_covered hr rfl fun pr hpr => absurd hpr List.not_mem_nil).mpr rfl⟩

end World

end Chatsy
