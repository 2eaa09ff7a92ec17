import Chatsy.Systems.Authenticity
import Chatsy.Systems.Profiles

/-!
# Who can be found

Discover finds the documents that have a location, and a document gets one from
a `MainScreen` of its user alone. So as long as no address is registered with a
slash, nobody is found before a phone on which they were signed in has recorded
where they are, whatever registrations, answers and emissions come in between.
-/

namespace Chatsy.World

open Foundation

variable {norm : Text → Text} {n : Nat} {ls : List Label} {w w' : World} {f : Text}

/-- A location has been recorded for the address in the run. -/
def Located (norm : Text → Text) (n : Nat) (ls : List Label) (f : Text) : Prop :=
  ∃ pos, .locate f pos ∈ (toRegistry norm).sent (start n) ls

/-- A phone on which the address was signed in has recorded its location in the run. -/
def RecordedByOwn (norm : Text → Text) (n : Nat) (ls : List Label) (f : Text) : Prop :=
  ∃ pre k l post t pos, ls = pre ++ .phone k l :: post ∧ run (step norm) (start n) pre = some t ∧
    .registry (.locate f pos) ∈ requests norm t (.phone k l) ∧ WasUser norm n pre k f

theorem Located.concat (hr : run (step norm) (start n) ls = some w) (h : Located norm n ls f)
    (l : Label) : Located norm n (ls ++ [l]) f := by
  obtain ⟨pos, hpos⟩ := h
  refine ⟨pos, ?_⟩
  rw [Simulation.sent, trace_concat _ _ hr]
  exact List.mem_append_left _ hpos

theorem recordedByOwn_of_located (hr : run (step norm) (start n) ls = some w)
    (h : Located norm n ls f) : RecordedByOwn norm n ls f := by
  obtain ⟨pos, hmem⟩ := h
  obtain ⟨pre, l, post, t, rfl, ht, hacts⟩ := exists_step_of_mem_trace _ _ hmem
  obtain ⟨t₁, hstep, _⟩ := exists_step_of_split _ hr ht
  have hrequest : .registry (.locate f pos) ∈ requests norm t l :=
    Cloud.mem_of_mem_sent_registry hacts
  rcases phone_of_mem_requests hstep hrequest with ⟨k, l, _, _, _, rfl, _⟩ | ⟨i, hi⟩
  · exact ⟨pre, k, l, post, t, pos, rfl, ht, hrequest,
      wasUser_of_mem_requests ht hstep hrequest rfl⟩
  · simp at hi

/-- Nobody with a slash in the address has been signed in. -/
theorem slash_not_mem_of_wasUser (hls : Plain ls) (hnorm : ∀ e, slash ∉ e → slash ∉ norm e)
    {k : Nat} (h : WasUser norm n ls k f) :
    slash ∉ f := by
  obtain ⟨pre, t, p, hpre, ht, hp, hu⟩ := h
  have hplain : Plain pre := fun l hl => hls l (hpre.subset hl)
  have haccount := (sound_run ht hplain).accounts p (List.mem_of_getElem? hp) f (Or.inl hu)
  exact slash_not_mem_account ht hplain hnorm f haccount

/-- Whoever is listed has been located. -/
theorem located_of_listed (hr : run (step norm) (start n) ls = some w) (hls : Plain ls)
    (hnorm : ∀ e, slash ∉ e → slash ∉ norm e) (h : Phone.Listed w.cloud f) :
    Located norm n ls f := by
  obtain ⟨k, d, hd, hlocation, rfl⟩ := h
  obtain ⟨pos, hpos⟩ := Option.isSome_iff_exists.mp hlocation
  obtain ⟨email, hpath, hmem⟩ :=
    Registry.exists_locate_of_location ((toRegistry norm).run_sent hr) hd hpos
  obtain ⟨pre, phone, _, _, _, _, rfl, _, _, hwas⟩ := recordedByOwn_of_located hr ⟨pos, hmem⟩
  have hslash := slash_not_mem_of_wasUser hls hnorm (hwas.append _)
  rw [userDocument_of_slashless hslash] at hpath
  obtain ⟨_, hsame⟩ := Option.ite_none_left_eq_some.mp hpath
  have hemail := (plainRegistry_run hr hls).hasProfile hd
  rw [hemail, toStringOrNull_some, ← userPath_injective (Option.some.inj hsame)]
  exact ⟨pos, hmem⟩

/-- Whoever a press has found has been located. -/
theorem located_run (hr : run (step norm) (start n) ls = some w) (hls : Plain ls)
    (hnorm : ∀ e, slash ∉ e → slash ∉ norm e) :
    ∀ p ∈ w.phones, ∀ pr ∈ p.presses, ∀ f ∈ pr.subscription.randomUserString,
      Located norm n ls f := by
  refine run_induction (step norm) (motive := fun ls w => Plain ls → ∀ p ∈ w.phones,
    ∀ pr ∈ p.presses, ∀ f ∈ pr.subscription.randomUserString, Located norm n ls f) ?_ ?_ hr hls
  · intro _ p hp pr hpr
    obtain rfl := List.eq_of_mem_replicate hp
    exact absurd hpr List.not_mem_nil
  · intro ls l w w' hw ih h hls p' hp' pr' hpr' f hf
    obtain ⟨hls, _⟩ := plain_concat.mp hls
    apply Located.concat hw
    rcases mem_phones_of_step h hp' with hold | ⟨p, hp, rs, hspec, _⟩
    · exact ih hls p' hold pr' hpr' f hf
    · rcases hspec.presses pr' hpr' with hnil | ⟨pr, hpr, _, hlist⟩
      · rw [hnil] at hf
        exact absurd hf List.not_mem_nil
      · rcases hlist f hf with hold | ⟨_, hlisted⟩
        · exact ih hls p hp pr hpr f hold
        · exact located_of_listed hw hls hnorm hlisted

/-- Nobody is called for as a friend before a phone on which they were signed in has recorded their
location. -/
theorem found_after_recorded (hr : run (step norm) (start n) ls = some w) (hls : Plain ls)
    (hnorm : ∀ e, slash ∉ e → slash ∉ norm e) :
    ∀ pre l post t, ls = pre ++ l :: post → run (step norm) (start n) pre = some t →
      ∀ u f, .backend (.addToFriends u f) ∈ requests norm t l → RecordedByOwn norm n pre f := by
  rintro pre l post t rfl ht u f hmem
  obtain ⟨t₁, hstep, _⟩ := exists_step_of_split _ hr ht
  have hpre : Plain pre := fun l' hl' => hls l' (List.mem_append_left _ hl')
  apply recordedByOwn_of_located ht
  rcases phone_of_mem_requests hstep hmem with ⟨_, _, p, _, _, _, hp, hphone, hrs⟩ | ⟨i, hi⟩
  · obtain ⟨pr, hpr, _, hfriend⟩ := (Phone.spec_step hphone).requests _ hrs
    rcases hfriend with hold | ⟨_, hlisted⟩
    · exact located_run ht hpre hnorm p (List.mem_of_getElem? hp) pr hpr f hold
    · exact located_of_listed ht hpre hnorm hlisted
  · simp at hi

theorem annMeetsBob_recorded :
    ∃ w, run (step lowerCase) (start 2) annMeetsBob = some w ∧
      ∀ pre l post t, annMeetsBob = pre ++ l :: post →
        run (step lowerCase) (start 2) pre = some t →
        ∀ u f, .backend (.addToFriends u f) ∈ requests lowerCase t l →
          RecordedByOwn lowerCase 2 pre f :=
  ⟨_, rfl, found_after_recorded (rfl : run (step lowerCase) (start 2) annMeetsBob = some _)
    (by decide) (fun _ => slash_not_mem_lowerCase)⟩

end Chatsy.World
