import Chatsy.Systems.SignedOut
import Chatsy.Systems.World

/-!
# One phone is one device

A world with a single phone makes only the steps of a device: its screens, its
presses and its calls are those of the device, and the servers take its other
requests beside them. What holds of every run of the device therefore holds of
the phone with its chats, registrations and popped screens, and so does what a
sign-out leaves behind.

## Implementation notes

The process of the phone waits for the calls that it has started, which are the
last ones, as nobody else calls. The number of the others is the `process` of
the device.
-/

namespace Chatsy

open Foundation

namespace Phone

/-- The device of a phone that is alone. -/
def device (p : Phone) (b : Backend) : Device where
  session := p.session
  discovery := ⟨p.presses, b⟩
  process := b.calls.length - p.calls.length

/-- The process waits for the last calls. -/
def AwaitsLast (p : Phone) (b : Backend) : Prop :=
  ∃ process, b.calls.length = process + p.calls.length ∧
    p.calls = List.range' process p.calls.length

theorem AwaitsLast.mem_iff {p : Phone} {b : Backend} (h : p.AwaitsLast b) {i : Nat} :
    i ∈ p.calls ↔ (p.device b).process ≤ i ∧ i < b.calls.length := by
  obtain ⟨process, hlength, hcalls⟩ := h
  have hprocess : (p.device b).process = process := by
    rw [device, hlength, Nat.add_sub_cancel]
  rw [hprocess, hlength, hcalls, List.length_range', List.mem_range'_1]

/-- The label is a Login press or an app start. -/
def Label.starts : Label → Bool
  | .session l => l.starts
  | _ => false

/-- The device makes the step `l` of a phone, and is still that of the phone. -/
def Followed (l : Label) (p p' : Phone) (b b' : Backend) : Prop :=
  p'.AwaitsLast b' ∧ ∃ ms, run Device.step (p.device b) ms = some (p'.device b') ∧
    (l.starts = false → ∀ m ∈ ms, m.starts = false)

variable {norm : Text → Text} {c c' : Cloud} {p p' : Phone} {b b' : Backend} {l : Label}

theorem device_of_length (hsession : p'.session = p.session) (hpresses : p'.presses = p.presses)
    (hcalls : p'.calls = p.calls) (hlength : b'.calls.length = b.calls.length) :
    p'.device b' = (p.device b).withBackend b' := by
  rw [device, device, Device.withBackend, hsession, hpresses, hcalls, hlength]

theorem AwaitsLast.of_length (h : p.AwaitsLast b) (hcalls : p'.calls = p.calls)
    (hlength : b'.calls.length = b.calls.length) : p'.AwaitsLast b' := by
  rw [AwaitsLast, hcalls, hlength]
  exact h

/-- What the device does not know of leaves it as it is. -/
theorem followed_of_same (h : p.AwaitsLast b) (hsession : p'.session = p.session)
    (hpresses : p'.presses = p.presses) (hcalls : p'.calls = p.calls) : Followed l p p' b b :=
  ⟨h.of_length hcalls rfl, [],
    congrArg some (device_of_length hsession hpresses hcalls rfl).symm,
    fun _ _ hm => absurd hm List.not_mem_nil⟩

/-- The device makes a request of the phone that is no call. -/
theorem followed_of_request (h : p.AwaitsLast b) (hsession : p'.session = p.session)
    (hpresses : p'.presses = p.presses) (hcalls : p'.calls = p.calls) {r : Backend.Label}
    (hrequest : Backend.request b r = some b')
    (hr : ∀ user friendUser, r ≠ .addToFriends user friendUser) {m : Device.Label}
    (hm : m.starts = false)
    (hstep : Device.step (p.device b) m = some ((p.device b).withBackend b')) :
    Followed l p p' b b' := by
  have hlength := Backend.calls_length_request hrequest hr
  refine ⟨h.of_length hcalls hlength, [m], ?_, fun _ m' hm' => ?_⟩
  · rw [device_of_length hsession hpresses hcalls hlength]
    exact (run_singleton _ _ _).trans hstep
  · rw [List.mem_singleton.mp hm']
    exact hm

/-- The device makes a step of the screens that goes on showing the Discover pages. -/
theorem followed_of_session (h : p.AwaitsLast b) (hs : Device.Sane (p.device b))
    (hpresses : p'.presses = p.presses) (hcalls : p'.calls = p.calls) {m : Session.Label}
    (hm : m.starts = false) (hstep : Session.step p.session m = some p'.session)
    (hshows : ∀ id, p.session.showsDiscover id = true → p'.session.showsDiscover id = true) :
    Followed l p p' b b := by
  have hstart : m ≠ .appStart := by
    rintro rfl
    exact Bool.noConfusion hm
  have hdevice := Device.step_session_of_shows hs hstart hstep hshows
  refine ⟨h.of_length hcalls rfl, [.session m], ?_, fun _ m' hm' => ?_⟩
  · rw [run_singleton, hdevice, device, device, hpresses, hcalls]
  · rw [List.mem_singleton.mp hm']
    exact hm

/-- New screens of the phone are those of the device. -/
theorem followed_withSession (h : p.AwaitsLast b) {m : Session.Label} {t : Session}
    (ht : Session.step p.session m = some t) :
    Followed (.session m) p (p.withSession m t) b b := by
  have hdevice : Device.step (p.device b) (.session m) =
      some ((p.device b).withSession m t) := Device.step_session.mpr ⟨t, ht, rfl⟩
  have hrun : run Device.step (p.device b) [.session m] =
      some ((p.device b).withSession m t) := (run_singleton _ _ _).trans hdevice
  have hstarts : m.starts = false → ∀ m' ∈ [Device.Label.session m], m'.starts = false := by
    intro hm m' hm'
    rw [List.mem_singleton.mp hm']
    exact hm
  by_cases hm : m = .appStart
  · rw [withSession, if_pos hm]
    refine ⟨⟨b.calls.length, rfl, rfl⟩, [.session m], hrun.trans ?_, hstarts⟩
    rw [Device.withSession, if_pos hm]
    rfl
  · rw [withSession, if_neg hm]
    refine ⟨h, [.session m], hrun.trans ?_, hstarts⟩
    rw [Device.withSession, if_neg hm]
    rfl

/-- The call of an emission is the one that the listener makes. -/
theorem backend_of_callRequests {pr : Press} {event : List UserDoc} {draw : Nat}
    (hrun : run (Cloud.step norm) c
      (callRequests (DiscoverScreen.picked pr.subscription event draw)) = some c') :
    c'.backend = Discovery.called c.backend pr event draw := by
  unfold Discovery.called
  cases hpick : DiscoverScreen.picked pr.subscription event draw with
  | none =>
      rw [hpick] at hrun
      obtain rfl := Option.some.inj hrun
      rfl
  | some pick =>
      rw [hpick] at hrun
      obtain rfl := Option.some.inj hrun
      rfl

/-- The process waits for the call that an emission makes as well. -/
theorem AwaitsLast.called (h : p.AwaitsLast b) {pr : Press} {event : List UserDoc} {draw : Nat}
    (hcalls : p'.calls = p.calls ++
      (DiscoverScreen.picked pr.subscription event draw).toList.map fun _ => b.calls.length) :
    p'.AwaitsLast (Discovery.called b pr event draw) ∧
      (p'.device (Discovery.called b pr event draw)).process = (p.device b).process := by
  obtain ⟨process, hlength, hrange⟩ := h
  unfold Discovery.called
  cases hpick : DiscoverScreen.picked pr.subscription event draw with
  | none =>
      rw [hpick] at hcalls
      have hsame : p'.calls = p.calls := hcalls.trans (List.append_nil _)
      rw [AwaitsLast, device, device, hsame]
      exact ⟨⟨process, hlength, hrange⟩, rfl⟩
  | some pick =>
      rw [hpick] at hcalls
      have hnew : p'.calls = p.calls ++ [b.calls.length] := hcalls
      have hcount : p'.calls.length = p.calls.length + 1 := by
        rw [hnew, List.length_append]
        rfl
      have hgrown : (b.call pick.1 pick.2).calls.length = b.calls.length + 1 := List.length_append
      change p'.AwaitsLast (b.call pick.1 pick.2) ∧
        (b.call pick.1 pick.2).calls.length - p'.calls.length = b.calls.length - p.calls.length
      refine ⟨⟨process, ?_, ?_⟩, ?_⟩
      · omega
      · rw [hcount, List.range'_1_concat, ← hrange, hnew, hlength]
      · omega

theorem followed_of_emit (h : p.AwaitsLast b) {k : Nat} {pr : Press} {event : List UserDoc}
    {draw : Nat} {d : Discovery} (hpr : p.presses[k]? = some pr)
    (hd : Discovery.step ⟨p.presses, b⟩ (.emit k event draw) = some d)
    (hsession : p'.session = p.session.pushPicked pr event draw) (hpresses : p'.presses = d.presses)
    (hcalls : p'.calls = p.calls ++
      (DiscoverScreen.picked pr.subscription event draw).toList.map fun _ => b.calls.length) :
    Followed l p p' b (Discovery.called b pr event draw) := by
  obtain ⟨hlast, hprocess⟩ := h.called hcalls
  refine ⟨hlast, [.emit k event draw], ?_, fun _ m hm => ?_⟩
  · obtain ⟨pr', hpr', _, rfl⟩ := Discovery.step_emit.mp hd
    obtain rfl : pr = pr' := Option.some.inj (hpr.symm.trans hpr')
    have hdevice : p'.device (Discovery.called b pr event draw) = { p.device b with
        session := p.session.pushPicked pr event draw
        discovery := ⟨p'.presses, Discovery.called b pr event draw⟩ } := by
      rw [device, hsession]
      exact congrArg (Device.mk _ _) hprocess
    rw [run_singleton, hdevice, hpresses]
    simp only [Device.step, device, hpr, Option.bind_some, hd, Option.map_some]
  · rw [List.mem_singleton.mp hm]
    rfl

/-- The device makes every step of the phone. -/
theorem followed_of_step (h : p.AwaitsLast c.backend) (hs : Device.Sane (p.device c.backend))
    {rs : List Request} (hstep : step norm c p l = some (p', rs))
    (hrun : run (Cloud.step norm) c rs = some c') : Followed l p p' c.backend c'.backend := by
  have hregistry : (∀ r ∈ rs, ∃ l, r = .registry l) → c'.backend = c.backend :=
    Cloud.backend_of_registry hrun
  have hrequest : ∀ m, rs = [.backend m] → Backend.request c.backend m = some c'.backend := by
    rintro m rfl
    have hbackend : run (Cloud.step norm) c ([m].map .backend) = some c' := hrun
    exact (run_singleton _ _ _).symm.trans (Cloud.run_backend hbackend)
  cases stepped_of_step hstep with
  | session _ ht =>
      rw [hregistry (by simp)]
      exact followed_withSession h ht
  | lateUser _ _ =>
      rw [hregistry (by simp)]
      exact followed_of_same h rfl rfl rfl
  | position pos _ =>
      rw [hregistry (by simp)]
      exact followed_of_same h rfl rfl rfl
  | tapTile _ _ _ ht =>
      rw [hregistry (by simp)]
      refine followed_of_session h hs rfl rfl rfl ht fun id hid => ?_
      obtain ⟨_, rfl⟩ := guarded_eq_some.mp ht
      exact Session.showsDiscover_push hid _
  | @compose k m page composer _ _ =>
      cases m with
      | edit value =>
          rw [hregistry (by simp [ChatPage.requests])]
          exact followed_of_same h rfl rfl rfl
      | added number =>
          rw [hregistry (by simp [ChatPage.requests])]
          exact followed_of_same h rfl rfl rfl
      | send now =>
          have hsend := hrequest _ rfl
          refine followed_of_request h rfl rfl rfl hsend (by simp)
            (m := .send page.user page.friendEmail page.composer.message now) rfl ?_
          rw [Device.step, device, hsend]
          rfl
  | press hpage =>
      rw [hregistry (by simp)]
      refine ⟨h, [.press], ?_, fun _ m hm => ?_⟩
      · rw [run_singleton]
        simp only [Device.step, device, hpage, Option.bind_some, Discovery.step, Option.map_some]
      · rw [List.mem_singleton.mp hm]
        rfl
  | @located k pr hpr =>
      rw [hregistry (by simp)]
      obtain ⟨d, hd, _⟩ := Option.map_eq_some_iff.mp hstep
      obtain ⟨pr', hpr', hlistening, _⟩ := Discovery.step_located.mp hd
      refine ⟨h, [.located k], ?_, fun _ m hm => ?_⟩
      · have hlocated := Discovery.step_located.mpr ⟨pr', hpr', hlistening, rfl⟩
        obtain rfl : pr = pr' := Option.some.inj (hpr.symm.trans hpr')
        rw [run_singleton, Device.step, device, hlocated]
        rfl
      · rw [List.mem_singleton.mp hm]
        rfl
  | @emit k pr keys draw hpr hhits =>
      rw [backend_of_callRequests hrun]
      obtain ⟨_, hpr', h'⟩ := Option.bind_eq_some_iff.mp hstep
      obtain rfl := Option.some.inj (hpr.symm.trans hpr')
      obtain ⟨_, h'⟩ := Option.ite_none_right_eq_some.mp h'
      obtain ⟨d, hd, heq⟩ := Option.map_eq_some_iff.mp h'
      exact followed_of_emit h hpr hd rfl (congrArg (fun q => q.1.presses) heq).symm rfl
  | @write i hi =>
      have hwrite := hrequest _ rfl
      refine followed_of_request h rfl rfl rfl hwrite (by simp) (m := .write i) rfl ?_
      rw [Device.step, if_pos (h.mem_iff.mp hi).1, device, hwrite]
      rfl
  | @fail i hi =>
      have hfail := hrequest _ rfl
      refine followed_of_request h rfl rfl rfl hfail (by simp) (m := .fail i) rfl ?_
      rw [Device.step, if_pos (h.mem_iff.mp hi).1, device, hfail]
      rfl
  | register es _ =>
      rw [hregistry (by simp)]
      exact followed_of_same h rfl rfl rfl
  | accountCreated _ ht =>
      rw [hregistry (by simp)]
      refine followed_of_session h hs rfl rfl rfl ht fun id hid => ?_
      obtain rfl := Option.some.inj ht
      exact hid
  | accountFails i =>
      rw [hregistry (by simp)]
      exact followed_of_same h rfl rfl rfl
  | profileWritten i ht =>
      rw [hregistry (by simp)]
      rcases ht with rfl | ht
      · exact followed_of_same h rfl rfl rfl
      · refine followed_of_session h hs rfl rfl rfl ht fun id hid => ?_
        obtain ⟨_, rfl⟩ := guarded_eq_some.mp ht
        exact Session.showsDiscover_push hid _
  | profileFails i =>
      rw [hregistry (by simp)]
      exact followed_of_same h rfl rfl rfl

end Phone

namespace World

variable {norm : Text → Text} {ls ms : List Label} {w w' : World} {p p' : Phone}

/-- The world has one phone, and the device is that of the phone. -/
def IsDevice (w : World) (s : Device) : Prop :=
  ∃ p, w.phones = [p] ∧ p.AwaitsLast w.cloud.backend ∧ Device.Sane s ∧
    s = p.device w.cloud.backend

/-- A step of a world with one phone is made by the device. -/
theorem isDevice_step {s : Device} {l : Label} (hw : w.IsDevice s) (h : step norm w l = some w') :
    ∃ ms s', run Device.step s ms = some s' ∧ w'.IsDevice s' ∧
      ((∀ l', l = .phone 0 (.session l') → l'.starts = false) → ∀ m ∈ ms, m.starts = false) := by
  obtain ⟨p, hp, hlast, hs, rfl⟩ := hw
  have hsane : ∀ {ms s'}, run Device.step (p.device w.cloud.backend) ms = some s' →
      Device.Sane s' := run_preserves Device.step (fun _ _ _ => Device.sane_step) hs
  obtain ⟨rs, hmoves, hrun⟩ := (step_eq_some norm).mp h
  obtain ⟨phones', cloud'⟩ := w'
  have hregistry : ∀ r : Registry.Label, rs = [.registry r] → phones' = w.phones →
      ∃ ms s', run Device.step (p.device w.cloud.backend) ms = some s' ∧
        IsDevice ⟨phones', cloud'⟩ s' ∧
        ((∀ l', l = .phone 0 (.session l') → l'.starts = false) →
          ∀ m ∈ ms, m.starts = false) := by
    rintro r rfl rfl
    have hsame : cloud'.backend = w.cloud.backend := Cloud.backend_of_registry hrun (by simp)
    refine ⟨[], _, rfl, ⟨p, hp, ?_, hs, ?_⟩, fun _ _ hm => absurd hm List.not_mem_nil⟩
    · exact hsame ▸ hlast
    · rw [hsame]
  cases moved_of_moves norm hmoves with
  | @phone k l q q' rs hq hstep =>
      rw [hp] at hq
      obtain ⟨rfl, rfl⟩ : k = 0 ∧ p = q := by
        cases k with
        | zero => exact ⟨rfl, Option.some.inj hq⟩
        | succ k => exact absurd hq.symm (Option.some_ne_none q)
      obtain ⟨hlast', ms, hms, hstarts⟩ := Phone.followed_of_step hlast hs hstep hrun
      refine ⟨ms, _, hms, ⟨q', by rw [hp]; rfl, hlast', hsane hms, rfl⟩, fun hl => hstarts ?_⟩
      cases l with
      | session l => exact hl l rfl
      | _ => rfl
  | @lateWrite i hdetached =>
      have hwrite := Cloud.run_backend hrun
      have hlength := Backend.calls_length_run hwrite fun user friendUser hmem => by
        rcases Backend.mem_lateWrite hmem with heq | heq
        · exact Backend.Label.noConfusion heq
        · exact Backend.Label.noConfusion heq
      have hi : i < (p.device w.cloud.backend).process := by
        by_contra hle
        exact hdetached p (by simp [hp])
          (hlast.mem_iff.mpr ⟨Nat.le_of_not_lt hle, Backend.lt_of_run_lateWrite hwrite⟩)
      have hdevice : run Device.step (p.device w.cloud.backend) [.lateWrite i] =
          some (p.device cloud'.backend) := by
        rw [run_singleton, Phone.device_of_length rfl rfl rfl hlength, Device.step, if_pos hi]
        exact congrArg (Option.map _) hwrite
      refine ⟨[.lateWrite i], _, hdevice, ⟨p, hp, hlast.of_length rfl hlength, hsane hdevice, rfl⟩,
        fun _ m hm => ?_⟩
      rw [List.mem_singleton.mp hm]
      rfl
  | lateAccount _ => exact hregistry _ rfl rfl
  | lateProfile _ => exact hregistry _ rfl rfl

theorem isDevice_start : (start 1).IsDevice Device.installed :=
  ⟨Phone.installed, rfl, ⟨0, rfl, rfl⟩, Device.sane_run (run_nil _ Device.installed), rfl⟩

/-- The phone of a world with one phone is reached as a device. -/
theorem device_run (hr : run (step norm) (start 1) ls = some w) :
    ∃ p ms, w.phones = [p] ∧ p.AwaitsLast w.cloud.backend ∧
      run Device.step Device.installed ms = some (p.device w.cloud.backend) := by
  obtain ⟨ms, s, hms, ⟨p, hp, hlast, _, rfl⟩, _⟩ :=
    exists_run_of_steps (R := IsDevice) (P := fun _ => True) (Q := fun _ => True)
      (fun _ _ _ _ hw _ h => by
        obtain ⟨ms, s, hms, hs, _⟩ := isDevice_step hw h
        exact ⟨ms, s, hms, hs, fun _ _ => trivial⟩)
      isDevice_start (fun _ _ => trivial) hr
  exact ⟨p, ms, hp, hlast, hms⟩

/-- When nothing is left of a session, the phone stays signed out along every run without a Login
press or an app start. -/
theorem staysOut_of_hermetic {u : Text} (hr : run (step norm) (start 1) ls = some w)
    (hp : w.phones = [p]) (hu : Device.Hermetic u (p.device w.cloud.backend))
    (hms : ∀ l, .phone 0 (.session l) ∈ ms → l.starts = false)
    (hr' : run (step norm) w ms = some w') (hp' : w'.phones = [p']) :
    Device.StaysOut u (p.device w.cloud.backend) (p'.device w'.cloud.backend) := by
  obtain ⟨q, ds, hq, hlast, hds⟩ := device_run hr
  obtain rfl : p = q := List.singleton_inj.mp (hp.symm.trans hq)
  have hw : w.IsDevice (p.device w.cloud.backend) := ⟨p, hp, hlast, Device.sane_run hds, rfl⟩
  obtain ⟨ds', s', hds', ⟨q', hq', _, _, rfl⟩, hstarts⟩ :=
    exists_run_of_steps (R := IsDevice)
      (P := fun l : Label => ∀ l', l = .phone 0 (.session l') → l'.starts = false)
      (Q := fun m : Device.Label => m.starts = false)
      (fun _ _ _ _ hw hl h => by
        obtain ⟨ms, s, hms, hs, hstarts⟩ := isDevice_step hw h
        exact ⟨ms, s, hms, hs, hstarts hl⟩)
      hw (fun l hl l' heq => hms l' (heq ▸ hl)) hr'
  obtain rfl : p' = q' := List.singleton_inj.mp (hp'.symm.trans hq')
  exact Device.staysOut_of_hermetic hu hstarts hds'

end World

end Chatsy
