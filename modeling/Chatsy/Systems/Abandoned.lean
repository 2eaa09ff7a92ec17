import Chatsy.Systems.Authenticity

/-!
# Calls that a restart cuts off

Between the writes of `addToFriends` the process of a phone waits. When it ends,
the write that is under way may still take effect, and nobody makes the ones
after it: no document tells that they are due. So a call in progress can return
exactly when a process waits for it or its last write is already under way, and
Firestore takes the paths of the writes that are missing.
-/

namespace Chatsy

open Foundation DiscoverScreen

namespace Backend

/-- A call is changed by the answers to its own writes only. -/
theorem call_of_step {s t : Backend} {l : Label} (h : step s l = some t) {i : Nat} {c : Call}
    (hc : s.calls[i]? = some c) (hwrite : l ≠ .write i) (hfail : l ≠ .fail i) :
    t.calls[i]? = some c := by
  cases l with
  | addToFriends user friendUser =>
      obtain rfl := Option.some.inj h
      exact getElem?_call.mpr (Or.inl hc)
  | write j =>
      obtain ⟨d, w, hd, _, rfl⟩ := step_write.mp h
      apply (getElem?_setProgress (by rwa [apply_calls])).mpr
      exact Or.inr ⟨fun hij => hwrite (hij ▸ rfl), by rwa [apply_calls]⟩
  | fail j =>
      obtain ⟨d, w, hd, _, rfl⟩ := step_fail.mp h
      apply (getElem?_setProgress hd).mpr
      exact Or.inr ⟨fun hij => hfail (hij ▸ rfl), hc⟩
  | send user friendEmail message now =>
      obtain rfl := Option.some.inj h
      rwa [apply_calls]

/-- Firestore refuses the path of a write that the call has not made. -/
def Refused (s : Backend) (i : Nat) : Prop :=
  ∃ c w, s.calls[i]? = some c ∧ w ∉ c.progress.written ∧ (c.write i w).collection = none

/-- A refused write is never made. -/
theorem refused_step {s t : Backend} {l : Label} (htakes : s.takes l = true)
    (h : step s l = some t) {i : Nat} (hs : s.Refused i) : t.Refused i := by
  obtain ⟨c, w, hc, hw, hnone⟩ := hs
  by_cases hwrite : l = .write i
  · subst hwrite
    obtain ⟨d, v, hd, hv, rfl⟩ := step_write.mp h
    obtain rfl : c = d := Option.some.inj (hc.symm.trans hd)
    rw [takes_write hc hv] at htakes
    refine ⟨{ c with progress := next v }, w, ?_, ?_, hnone⟩
    · exact (getElem?_setProgress (by rwa [apply_calls])).mpr (Or.inl ⟨rfl, rfl⟩)
    · rw [written_next, List.mem_append, List.mem_singleton, not_or]
      refine ⟨by rwa [hv] at hw, ?_⟩
      rintro rfl
      rw [hnone] at htakes
      exact Bool.noConfusion htakes
  · by_cases hfail : l = .fail i
    · subst hfail
      obtain ⟨d, v, hd, hv, rfl⟩ := step_fail.mp h
      obtain rfl : c = d := Option.some.inj (hc.symm.trans hd)
      refine ⟨{ c with progress := .failed v }, w, ?_, ?_, hnone⟩
      · exact (getElem?_setProgress hc).mpr (Or.inl ⟨rfl, rfl⟩)
      · rwa [hv] at hw
    · exact ⟨c, w, call_of_step h hc hwrite hfail, hw, hnone⟩

end Backend

namespace World

variable {norm : Text → Text} {n : Nat} {l : Label} {w w' : World} {i : Nat}

/-- A process waits for the call. -/
def Attended (w : World) (i : Nat) : Prop := ∃ p ∈ w.phones, i ∈ p.calls

/-- Some continuation of the run has the call returned. -/
def CanReturn (norm : Text → Text) (w : World) (i : Nat) : Prop :=
  ∃ ls w' c, run (step norm) w ls = some w' ∧ w'.cloud.backend.calls[i]? = some c ∧
    c.progress = .returned

/-- Nobody waits for the call, and it still needs somebody or has failed. -/
structure Abandoned (w : World) (i : Nat) : Prop where
  unattended : ¬ w.Attended i
  unfinished : ∃ c, w.cloud.backend.calls[i]? = some c ∧ c.progress ≠ .awaiting .room ∧
    c.progress ≠ .returned

/-- Firestore takes the paths of the writes that the call has not made. -/
def RestTaken (c : Call) (i : Nat) : Prop :=
  ∀ wr, wr ∉ c.progress.written → (c.write i wr).collection.isSome = true

theorem refused_run {ls : List Label} (hr : run (step norm) w ls = some w')
    (h : w.cloud.backend.Refused i) : w'.cloud.backend.Refused i := by
  refine run_preserves (Cloud.step norm) (I := fun c => c.backend.Refused i) ?_ h
    ((toCloud norm).run_sent hr)
  intro c r c' hc hstep
  cases r with
  | backend l =>
      rcases Cloud.step_backend hstep with ⟨htakes, b, hb, rfl⟩ | ⟨_, _, rfl⟩
      · exact Backend.refused_step htakes hb hc
      · exact hc
  | registry l =>
      obtain ⟨_, _, rfl⟩ := Option.map_eq_some_iff.mp hstep
      exact hc

/-- Only a call whose writes are all taken returns. -/
theorem restTaken_of_canReturn {c : Call} (hc : w.cloud.backend.calls[i]? = some c)
    (h : CanReturn norm w i) : RestTaken c i := by
  obtain ⟨ls, w', c', hr, hc', hreturned⟩ := h
  intro wr hwr
  by_contra hno
  obtain ⟨d, v, hd, hv, _⟩ :=
    refused_run hr ⟨c, wr, hc, hwr, Option.not_isSome_iff_eq_none.mp hno⟩
  obtain rfl : c' = d := Option.some.inj (hc'.symm.trans hd)
  rw [hreturned] at hv
  cases v <;> exact hv (by decide)

/-- Requests that answer no write of the call leave it as it is. -/
theorem call_of_requests {c c' : Cloud} {rs : List Request}
    (h : run (Cloud.step norm) c rs = some c')
    (hrs : ∀ r ∈ rs, r ≠ .backend (.write i) ∧ r ≠ .backend (.fail i)) {call : Call}
    (hcall : c.backend.calls[i]? = some call) : c'.backend.calls[i]? = some call := by
  induction rs generalizing c with
  | nil =>
      obtain rfl := Option.some.inj h
      exact hcall
  | cons r rs ih =>
      obtain ⟨c₁, hstep, h⟩ := Option.bind_eq_some_iff.mp h
      apply ih h (fun r' hr' => hrs r' (List.mem_cons_of_mem r hr'))
      cases r with
      | backend l =>
          rcases Cloud.step_backend hstep with ⟨_, b, hb, rfl⟩ | ⟨_, _, rfl⟩
          · obtain ⟨hwrite, hfail⟩ := hrs (.backend l) List.mem_cons_self
            apply Backend.call_of_step hb hcall
            · exact fun hl => hwrite (hl ▸ rfl)
            · exact fun hl => hfail (hl ▸ rfl)
          · exact hcall
      | registry l =>
          obtain ⟨_, _, rfl⟩ := Option.map_eq_some_iff.mp hstep
          exact hcall

/-- A phone starts to wait for new calls only. -/
theorem attended_of_step (h : step norm w l = some w') (hi : i < w.cloud.backend.calls.length)
    (hattended : w'.Attended i) : w.Attended i := by
  obtain ⟨p', hp', hcall⟩ := hattended
  rcases mem_phones_of_step h hp' with hold | ⟨p, hp, rs, hspec, _⟩
  · exact ⟨p', hold, hcall⟩
  · rcases hspec.calls i hcall with hold | ⟨hnew, _⟩
    · exact ⟨p, hp, hold⟩
    · exact absurd hnew hi.ne

/-- The late write of an unfinished call is followed by its end. -/
theorem unfinished_of_lateRequests {c c' : Cloud} {call : Call}
    (hcall : c.backend.calls[i]? = some call) (hroom : call.progress ≠ .awaiting .room)
    (h : run (Cloud.step norm) c (lateRequests c.backend i) = some c') :
    ∃ call', c'.backend.calls[i]? = some call' ∧ call'.progress ≠ .awaiting .room ∧
      call'.progress ≠ .returned := by
  have hlate : lateRequests c.backend i = [.backend (.write i), .backend (.fail i)] := by
    rw [lateRequests, Backend.lateWrite]
    split
    · next call' hawaited =>
      obtain ⟨hcall', hprogress⟩ := Backend.awaited_eq_some.mp hawaited
      obtain rfl := Option.some.inj (hcall.symm.trans hcall')
      exact absurd hprogress hroom
    · rfl
  rw [hlate] at h
  obtain ⟨c₁, _, h⟩ := Option.bind_eq_some_iff.mp h
  obtain ⟨c₂, hfail, h⟩ := Option.bind_eq_some_iff.mp h
  obtain rfl := Option.some.inj h
  rcases Cloud.step_backend hfail with ⟨_, b, hb, rfl⟩ | ⟨_, hsend, _⟩
  · obtain ⟨call', w, hcall', _, rfl⟩ := Backend.step_fail.mp hb
    refine ⟨{ call' with progress := .failed w }, ?_, by simp, by simp⟩
    exact (Backend.getElem?_setProgress hcall').mpr (Or.inl ⟨rfl, rfl⟩)
  · exact Bool.noConfusion hsend

theorem abandoned_step (h : Abandoned w i) (hstep : step norm w l = some w') :
    Abandoned w' i := by
  obtain ⟨call, hcall, hroom, hreturned⟩ := h.unfinished
  refine ⟨fun hattended => h.unattended ?_, ?_⟩
  · exact attended_of_step hstep (List.getElem?_eq_some_iff.mp hcall).1 hattended
  · obtain ⟨rs, hmoves, hrun⟩ := (step_eq_some norm).mp hstep
    have hframe : (∀ r ∈ rs, r ≠ .backend (.write i) ∧ r ≠ .backend (.fail i)) →
        ∃ c, w'.cloud.backend.calls[i]? = some c ∧ c.progress ≠ .awaiting .room ∧
          c.progress ≠ .returned := fun hrs =>
      ⟨call, call_of_requests hrun hrs hcall, hroom, hreturned⟩
    obtain ⟨phones', cloud'⟩ := w'
    cases moved_of_moves norm hmoves with
    | @phone k l p q rs hp hphone =>
        apply hframe
        intro r hr
        have hask := (Phone.spec_step hphone).requests r hr
        constructor
        · rintro rfl
          exact h.unattended ⟨p, List.mem_of_getElem? hp, hask⟩
        · rintro rfl
          exact h.unattended ⟨p, List.mem_of_getElem? hp, hask⟩
    | @lateWrite j _ =>
        by_cases hij : i = j
        · subst hij
          exact unfinished_of_lateRequests hcall hroom hrun
        · apply hframe
          intro r hr
          rcases mem_lateRequests hr with rfl | rfl
          · simpa using Ne.symm hij
          · simpa using Ne.symm hij
    | lateAccount _ => exact hframe (by simp)
    | lateProfile _ => exact hframe (by simp)

theorem not_canReturn_of_abandoned (h : Abandoned w i) : ¬ CanReturn norm w i := by
  rintro ⟨ls, w', c, hr, hc, hreturned⟩
  have hkept : Abandoned w' i :=
    run_preserves (step norm) (I := fun w => Abandoned w i)
      (fun _ _ _ hw hs => abandoned_step hw hs) h hr
  obtain ⟨c', hc', _, hnot⟩ := hkept.unfinished
  obtain rfl := Option.some.inj (hc.symm.trans hc')
  exact hnot hreturned

theorem CanReturn.of_step (hstep : step norm w l = some w') (h : CanReturn norm w' i) :
    CanReturn norm w i := by
  obtain ⟨ls, w'', c, hr, hc, hreturned⟩ := h
  refine ⟨l :: ls, w'', c, ?_, hc, hreturned⟩
  rw [run_cons, hstep]
  exact hr

theorem CanReturn.of_returned {c : Call} (hc : w.cloud.backend.calls[i]? = some c)
    (h : c.progress = .returned) : CanReturn norm w i := ⟨[], w, c, rfl, hc, h⟩

/-- A write that Firestore takes can be made. -/
theorem exists_cloud_write (norm : Text → Text) {c : Call} {wr : FriendWrite}
    (hc : w.cloud.backend.calls[i]? = some c) (hp : c.progress = .awaiting wr)
    (htaken : RestTaken c i) :
    ∃ b, Cloud.step norm w.cloud (.backend (.write i)) = some { w.cloud with backend := b } ∧
      b.calls[i]? = some { c with progress := next wr } := by
  have hwr : wr ∉ c.progress.written := by
    rw [hp]
    cases wr <;> decide
  obtain ⟨b, hb, hcall, _⟩ := Backend.exists_request_write hc hp (htaken wr hwr)
  refine ⟨b, ?_, hcall⟩
  rw [Cloud.step, hb]
  rfl

/-- A process that waits for a call goes on with it. -/
theorem exists_write_of_attended (h : w.Attended i) {c : Call} {wr : FriendWrite}
    (hc : w.cloud.backend.calls[i]? = some c) (hp : c.progress = .awaiting wr)
    (htaken : RestTaken c i) :
    ∃ l w', step norm w l = some w' ∧ w'.Attended i ∧
      w'.cloud.backend.calls[i]? = some { c with progress := next wr } := by
  obtain ⟨p, hmem, hi⟩ := h
  obtain ⟨k, hk⟩ := List.mem_iff_getElem?.mp hmem
  obtain ⟨b, hb, hcall⟩ := exists_cloud_write norm hc hp htaken
  refine ⟨.phone k (.write i), ⟨w.phones.set k p, { w.cloud with backend := b }⟩, ?_, ?_, hcall⟩
  · apply (step_eq_some norm).mpr
    refine ⟨[.backend (.write i)], ?_, (run_singleton _ _ _).trans hb⟩
    simp [moves, hk, Phone.step, hi]
  · exact ⟨p, List.mem_set (List.getElem?_eq_some_iff.mp hk).1 p, hi⟩

/-- The last write of a call needs nobody. -/
theorem canReturn_of_room {c : Call} (hc : w.cloud.backend.calls[i]? = some c)
    (hp : c.progress = .awaiting .room) (htaken : RestTaken c i) : CanReturn norm w i := by
  by_cases hattended : w.Attended i
  · obtain ⟨l, w', hstep, _, hcall⟩ := exists_write_of_attended hattended hc hp htaken
    exact (CanReturn.of_returned hcall rfl).of_step hstep
  · obtain ⟨b, hb, hcall⟩ := exists_cloud_write norm hc hp htaken
    have hnobody : (w.phones.all fun p => i ∉ p.calls) = true := by
      apply List.all_eq_true.mpr
      intro p hp
      exact decide_eq_true fun hi => hattended ⟨p, hp, hi⟩
    have hlate : lateRequests w.cloud.backend i = [.backend (.write i)] := by
      rw [lateRequests, Backend.lateWrite, Backend.awaited_eq_some.mpr ⟨hc, hp⟩]
      rfl
    have hstep : step norm w (.lateWrite i) =
        some ⟨w.phones, { w.cloud with backend := b }⟩ := by
      apply (step_eq_some norm).mpr
      refine ⟨[.backend (.write i)], ?_, (run_singleton _ _ _).trans hb⟩
      rw [moves, if_pos hnobody, hlate]
    exact (CanReturn.of_returned hcall rfl).of_step hstep

/-- The writes missing after one more are among those missing before. -/
theorem RestTaken.next {c : Call} {wr : FriendWrite} (h : RestTaken c i)
    (hp : c.progress = .awaiting wr) : RestTaken { c with progress := next wr } i := by
  intro v hv
  apply h v
  rw [hp]
  intro hmem
  apply hv
  rw [written_next]
  exact List.mem_append_left _ hmem

theorem canReturn_of_attended (h : w.Attended i) {c : Call}
    (hc : w.cloud.backend.calls[i]? = some c) (hp : c.progress.inProgress = true)
    (htaken : RestTaken c i) : CanReturn norm w i := by
  have hfriend : ∀ {w c}, w.Attended i → w.cloud.backend.calls[i]? = some c →
      c.progress = .awaiting .friend → RestTaken c i → CanReturn norm w i := by
    intro w c h hc hp htaken
    obtain ⟨l, w', hstep, _, hcall⟩ := exists_write_of_attended h hc hp htaken
    exact (canReturn_of_room hcall rfl (htaken.next hp)).of_step hstep
  cases hprogress : c.progress with
  | awaiting wr =>
      cases wr with
      | own =>
          obtain ⟨l, w', hstep, hattended, hcall⟩ :=
            exists_write_of_attended h hc hprogress htaken
          exact (hfriend hattended hcall rfl (htaken.next hprogress)).of_step hstep
      | friend => exact hfriend h hc hprogress htaken
      | room => exact canReturn_of_room hc hprogress htaken
  | returned => exact CanReturn.of_returned hc hprogress
  | failed wr =>
      rw [hprogress] at hp
      exact Bool.noConfusion hp

/-- No two phones wait for one call. -/
def Unshared (w : World) : Prop :=
  ∀ (k k' : Nat) (p p' : Phone), w.phones[k]? = some p → w.phones[k']? = some p' →
    ∀ i ∈ p.calls, i ∈ p'.calls → k = k'

theorem unshared_run {n : Nat} {ls : List Label} (hr : run (step norm) (start n) ls = some w) :
    Unshared w := by
  refine run_induction (step norm) (motive := fun _ w => Unshared w) ?_ ?_ hr
  · intro k k' p p' hp _ i hi _
    obtain rfl := List.eq_of_mem_replicate (List.mem_of_getElem? hp)
    exact absurd hi List.not_mem_nil
  · intro ls l w w' hw ih hstep
    have hlt : ∀ {k : Nat} {p : Phone}, w.phones[k]? = some p → ∀ {i}, i ∈ p.calls →
        i < w.cloud.backend.calls.length := by
      intro k p hp i hi
      obtain ⟨c, hc, _⟩ := (signed_run hw k p hp).calls i hi
      exact (List.getElem?_eq_some_iff.mp hc).1
    have hcases : ∀ {k : Nat} {q : Phone}, w'.phones[k]? = some q → ∀ {i}, i ∈ q.calls →
        (∃ p, w.phones[k]? = some p ∧ i ∈ p.calls) ∨
          (i = w.cloud.backend.calls.length ∧ ∃ l', l = .phone k l') := by
      intro k q hq i hi
      obtain ⟨p, hp, ⟨rfl, _⟩ | ⟨l', rs, rfl, hphone, _⟩⟩ := phone_of_step hstep hq
      · exact Or.inl ⟨q, hp, hi⟩
      · rcases (Phone.spec_step hphone).calls i hi with hold | ⟨hnew, _⟩
        · exact Or.inl ⟨p, hp, hold⟩
        · exact Or.inr ⟨hnew, l', rfl⟩
    intro k k' q q' hq hq' i hi hi'
    rcases hcases hq hi with ⟨p, hp, hold⟩ | ⟨hnew, l₁, hl₁⟩
    · rcases hcases hq' hi' with ⟨p', hp', hold'⟩ | ⟨hnew, _⟩
      · exact ih k k' p p' hp hp' i hold hold'
      · exact absurd hnew (hlt hp hold).ne
    · rcases hcases hq' hi' with ⟨p', hp', hold'⟩ | ⟨_, l₂, hl₂⟩
      · exact absurd hnew (hlt hp' hold').ne
      · exact (Label.phone.inj (hl₁.symm.trans hl₂)).1

/-- An app start leaves the servers alone, and its phone waits for nothing. -/
theorem restart_eq {k : Nat} (h : step norm w (.phone k (.session .appStart)) = some w') :
    w'.cloud = w.cloud ∧ ∃ p q, w.phones[k]? = some p ∧ w'.phones = w.phones.set k q ∧
      q.calls = [] := by
  obtain ⟨rs, hmoves, hrun⟩ := (step_eq_some norm).mp h
  obtain ⟨p, hp, hmoves⟩ := Option.bind_eq_some_iff.mp hmoves
  obtain ⟨⟨q, rs'⟩, hphone, heq⟩ := Option.map_eq_some_iff.mp hmoves
  obtain ⟨hphones, rfl⟩ := Prod.mk.inj heq
  obtain ⟨rfl, rfl⟩ := Prod.mk.inj (Option.some.inj hphone)
  exact ⟨(Option.some.inj hrun).symm, p, _, hp, hphones.symm, rfl⟩

/-- `ann` discovers `bob`, and only the entry in her own collection has been written. -/
def annStarts : List Label :=
  signUp 0 0 (text "ann@mail.com") ++ arrive 0 3 (text "ann@mail.com") ++
    (signUp 1 1 (text "bob@mail.com") ++ arrive 1 3 (text "bob@mail.com")) ++
    [.phone 0 (.session (.main 3 (.onTap 0))), .phone 0 (.session (.main 3 .frame)),
      .phone 0 .press, .phone 0 (.located 0),
      .phone 0 (.emit 0 [text "ann@mail.com", text "bob@mail.com"] 0), .phone 0 (.write 0)]

/-- A call in progress can return exactly when a process waits for it or its last write is under
way, and Firestore takes the writes that are missing. -/
theorem can_return_iff {c : Call} (hc : w.cloud.backend.calls[i]? = some c)
    (hp : c.progress.inProgress = true) :
    CanReturn norm w i ↔ (w.Attended i ∨ c.progress = .awaiting .room) ∧ RestTaken c i := by
  constructor
  · intro h
    refine ⟨?_, restTaken_of_canReturn hc h⟩
    by_contra hno
    obtain ⟨hunattended, hroom⟩ := not_or.mp hno
    refine not_canReturn_of_abandoned ⟨hunattended, c, hc, hroom, ?_⟩ h
    intro hreturned
    rw [hreturned] at hp
    exact Bool.noConfusion hp
  · rintro ⟨hattended | hroom, htaken⟩
    · exact canReturn_of_attended hattended hc hp htaken
    · exact canReturn_of_room hc hroom htaken

theorem annStarts_can_return :
    ∃ w, run (step lowerCase) (start 2) annStarts = some w ∧ CanReturn lowerCase w 0 := by
  refine ⟨_, rfl, ?_⟩
  refine (can_return_iff rfl rfl).mpr ⟨Or.inl ⟨_, List.mem_cons_self, by decide⟩, ?_⟩
  intro wr _
  cases wr <;> rfl

/-- When the app is started again while its phone waits for a call, the call can still return
exactly when only its last write is missing and Firestore takes it. -/
theorem return_after_restart_iff {n k : Nat} {ls : List Label} {p : Phone} {c : Call}
    (hr : run (step norm) (start n) ls = some w) (hk : w.phones[k]? = some p) (hi : i ∈ p.calls)
    (hc : w.cloud.backend.calls[i]? = some c) (hp : c.progress.inProgress = true)
    (h : step norm w (.phone k (.session .appStart)) = some w') :
    CanReturn norm w' i ↔ c.progress = .awaiting .room ∧ RestTaken c i := by
  obtain ⟨hcloud, p₀, q, hp₀, hphones, hcalls⟩ := restart_eq h
  have hunattended : ¬ w'.Attended i := by
    rintro ⟨p', hp', hi'⟩
    obtain ⟨k', hk'⟩ := List.mem_iff_getElem?.mp hp'
    rw [hphones] at hk'
    by_cases hkk : k = k'
    · subst hkk
      rw [List.getElem?_set_self (List.getElem?_eq_some_iff.mp hp₀).1] at hk'
      obtain rfl := Option.some.inj hk'
      rw [hcalls] at hi'
      exact absurd hi' List.not_mem_nil
    · rw [List.getElem?_set_ne hkk] at hk'
      exact hkk (unshared_run hr k k' p p' hk hk' i hi hi')
  rw [← hcloud] at hc
  constructor
  · intro hreturn
    refine ⟨?_, restTaken_of_canReturn hc hreturn⟩
    by_contra hroom
    refine not_canReturn_of_abandoned ⟨hunattended, c, hc, hroom, ?_⟩ hreturn
    intro hreturned
    rw [hreturned] at hp
    exact Bool.noConfusion hp
  · exact fun ⟨hroom, htaken⟩ => canReturn_of_room hc hroom htaken

theorem annStarts_cut_off :
    ∃ w w', run (step lowerCase) (start 2) annStarts = some w ∧
      step lowerCase w (.phone 0 (.session .appStart)) = some w' ∧ ¬ CanReturn lowerCase w' 0 := by
  have hr : run (step lowerCase) (start 2) annStarts = some _ := rfl
  have hrestart :
      run (step lowerCase) (start 2) (annStarts ++ [.phone 0 (.session .appStart)]) = some _ := rfl
  obtain ⟨w, hw, h⟩ := (run_concat_eq_some (step lowerCase)).mp hrestart
  obtain rfl := Option.some.inj (hr.symm.trans hw)
  refine ⟨_, _, hr, h, fun hreturn => ?_⟩
  obtain ⟨hroom, _⟩ :=
    (return_after_restart_iff hr rfl (List.mem_singleton.mpr rfl) rfl rfl h).mp hreturn
  exact absurd hroom (by decide)

end World

end Chatsy
