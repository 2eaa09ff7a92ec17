import Chatsy.Systems.Authenticity
import Chatsy.Systems.UploadOutcomes

/-!
# The profile pictures of all phones

Each phone has two preferences, the global variable `url` and its calls of
`uploadImage`. All phones share one storage, where a user has one object. A call
keeps the user of the page it was made on, whoever signs in or out before it
ends, and an opened profile shows what the preferences of the phone say, whoever
it belongs to.

## Implementation notes

The variable `url` belongs to the process, and the preferences outlive it. An
upload whose process has ended is detached: its delete and its put can still take
effect, and nobody waits for its answers. A press of the button on a page without
a user ends at the name of the object, before any request. `checkSharedPrefs`
ends at some time after the frame that opens the profile.
-/

namespace Chatsy

open Foundation RegistrationScreen ProfileScreen

/-- The page is a `ProfileScreen`. -/
def Page.isProfile : Page → Bool
  | .profileScreen _ => true
  | _ => false

namespace Session

/-- The value of the future of the profile on top. -/
def profilePage (s : Session) : Option (Option Text) :=
  match s.top with
  | some (.main m) =>
      match m.page with
      | some (.profileScreen user) => some user
      | _ => none
  | _ => none

/-- The next frame of the `MainScreen` shows a `ProfileScreen`, and the last one did not. -/
def opensProfile (s : Session) (id : Nat) : Bool :=
  (s.mainAt id).any fun m => m.build.1.page.any Page.isProfile && !m.page.any Page.isProfile

end Session

/-- A call of `uploadImage`, with the user of its page and whether its process has ended. -/
structure Upload where
  owner : Text
  call : UploadCall
  detached : Bool
  deriving DecidableEq, Repr

namespace Upload

/-- The process of the call ends. -/
def detach (x : Upload) : Upload := { x with detached := true }

/-- Of a detached call only the requests under way can still take effect. -/
def reaches (x : Upload) : UploadEvent → Bool
  | .deleted => true
  | .put _ => true
  | _ => !x.detached

end Upload

/-- The pictures on one phone: the preferences, the variable `url`, the number of
`checkSharedPrefs` under way, and the uploads. -/
structure Album where
  prefs : SharedPrefs
  url : Option Text
  checks : Nat
  uploads : List Upload
  deriving DecidableEq, Repr

namespace Album

/-- The app is installed. -/
def installed : Album := ⟨unset, some [], 0, []⟩

/-- What a step of the phone does to the album. -/
def follow (a : Album) (s : Session) : Phone.Label → Album
  | .session .appStart =>
      { a with
        url := some []
        checks := 0
        uploads := a.uploads.map Upload.detach }
  | .session (.main id .frame) =>
      { a with checks := a.checks + if s.opensProfile id then 1 else 0 }
  | .register es =>
      match onPressed (edited es) with
      | some r =>
          { a with prefs := { a.prefs with doProfilePicExists := some r.doProfilePicExists } }
      | none => a
  | _ => a

/-- A `checkSharedPrefs` ends. -/
def check (a : Album) : Album :=
  { a with url := checkSharedPrefs a.prefs a.url, checks := a.checks - 1 }

/-- A press of the upload button, on the page of the given user. -/
def upload (a : Album) (user : Option Text) : Album :=
  { a with uploads := a.uploads ++ user.toList.map fun owner => ⟨owner, UploadCall.begin, false⟩ }

/-- The uploads and the preferences after an event of upload `i`. -/
def answer (a : Album) (i : Nat) (x : Upload) (prefs : SharedPrefs) : Album :=
  { a with prefs := prefs, uploads := a.uploads.set i x }

end Album

/-- The object of each user, and the addresses given so far with the users of their objects. -/
structure Storage where
  objects : Text → Option StoredObject
  given : List (Text × Text)

namespace Storage

/-- The address that an event gives. -/
def gives (owner : Text) : UploadEvent → List (Text × Text)
  | .put url => [(owner, url)]
  | _ => []

/-- A put gives a new address. -/
def fresh (s : Storage) : UploadEvent → Bool
  | .put url => s.given.all fun x => x.2 ≠ url
  | _ => true

/-- The storage after an event of an upload of the user. -/
def serve (s : Storage) (owner : Text) (object : Option StoredObject) (e : UploadEvent) : Storage :=
  ⟨Function.update s.objects owner object, s.given ++ gives owner e⟩

theorem not_mem_given_of_fresh {s : Storage} {url : Text} (h : s.fresh (.put url) = true)
    (owner : Text) : (owner, url) ∉ s.given := by
  intro hmem
  simpa using List.all_eq_true.mp h _ hmem

end Storage

/-- The phones, what is on them of pictures, and the storage. -/
structure Gallery where
  world : World
  albums : Nat → Album
  storage : Storage

namespace Gallery

/-- The app is installed on `n` phones, and nothing has been stored. -/
def start (n : Nat) : Gallery := ⟨World.start n, fun _ => Album.installed, ⟨fun _ => none, []⟩⟩

/-- The steps: one of the world, the end of a `checkSharedPrefs`, a press of the upload button, an
event of an upload. -/
inductive Label
  | world (l : World.Label)
  | check (k : Nat)
  | upload (k : Nat)
  | event (k i : Nat) (e : UploadEvent)
  deriving DecidableEq, Repr

/-- The albums after a step of the world. -/
def follow (g : Gallery) : World.Label → Nat → Album
  | .phone k l =>
      Function.update g.albums k
        (g.world.phones[k]?.elim (g.albums k) fun p => (g.albums k).follow p.session l)
  | _ => g.albums

/-- What is stored of the pictures of a user, seen from phone `k`. -/
def picture (g : Gallery) (k : Nat) (u : Text) : StoredPicture :=
  ⟨g.storage.objects u, (g.albums k).prefs⟩

variable (norm : Text → Text)

def step (g : Gallery) : Label → Option Gallery
  | .world l => (World.step norm g.world l).map fun w => ⟨w, g.follow l, g.storage⟩
  | .check k =>
      if 0 < (g.albums k).checks then
        some { g with albums := Function.update g.albums k (g.albums k).check }
      else none
  | .upload k =>
      g.world.phones[k]?.bind fun p =>
        p.session.profilePage.map fun user =>
          { g with albums := Function.update g.albums k ((g.albums k).upload user) }
  | .event k i e =>
      (g.albums k).uploads[i]?.bind fun x =>
        if x.reaches e && g.storage.fresh e then
          (x.call.step (g.picture k x.owner) e).map fun (c, p) =>
            { g with
              albums :=
                Function.update g.albums k ((g.albums k).answer i { x with call := c } p.prefs)
              storage := g.storage.serve x.owner p.object e }
        else none

/-- The steps of the world in a run with pictures. -/
def toWorld : Simulation (step norm) (World.step norm) where
  view := Gallery.world
  acts := fun _ l =>
    match l with
    | .world l => [l]
    | _ => []
  follows := by
    intro g l g' h
    cases l with
    | world l =>
        obtain ⟨w, hw, rfl⟩ := Option.map_eq_some_iff.mp h
        exact (run_singleton _ _ _).trans hw
    | check k =>
        obtain ⟨_, rfl⟩ := guarded_eq_some.mp h
        rfl
    | upload k =>
        obtain ⟨p, _, h⟩ := Option.bind_eq_some_iff.mp h
        obtain ⟨user, _, rfl⟩ := Option.map_eq_some_iff.mp h
        rfl
    | event k i e =>
        obtain ⟨x, _, h⟩ := Option.bind_eq_some_iff.mp h
        obtain ⟨_, h⟩ := Option.ite_none_right_eq_some.mp h
        obtain ⟨⟨c, p⟩, _, rfl⟩ := Option.map_eq_some_iff.mp h
        rfl

variable {norm}

/-- A step of the world leaves an album as it is, or is one of its phone. -/
theorem follow_cases (g : Gallery) (l : World.Label) (k : Nat) :
    g.follow l k = g.albums k ∨ ∃ p l', l = .phone k l' ∧ g.world.phones[k]? = some p ∧
      g.follow l k = (g.albums k).follow p.session l' := by
  cases l with
  | phone j l =>
      by_cases hjk : k = j
      · subst hjk
        cases hp : g.world.phones[k]? with
        | none => exact Or.inl (by simp [follow, hp])
        | some p => exact Or.inr ⟨p, l, rfl, rfl, by simp [follow, hp]⟩
      · exact Or.inl (Function.update_of_ne hjk _ _)
  | lateWrite i => exact Or.inl rfl
  | lateAccount i => exact Or.inl rfl
  | lateProfile i => exact Or.inl rfl

theorem step_upload {g g' : Gallery} {k : Nat} :
    step norm g (.upload k) = some g' ↔ ∃ p user, g.world.phones[k]? = some p ∧
      p.session.profilePage = some user ∧
        g' = { g with albums := Function.update g.albums k ((g.albums k).upload user) } := by
  simp only [step, Option.bind_eq_some_iff, Option.map_eq_some_iff, exists_and_left,
    eq_comm (b := g')]

theorem step_event {g g' : Gallery} {k i : Nat} {e : UploadEvent} :
    step norm g (.event k i e) = some g' ↔ ∃ x c p, (g.albums k).uploads[i]? = some x ∧
      x.reaches e = true ∧ g.storage.fresh e = true ∧
      x.call.step (g.picture k x.owner) e = some (c, p) ∧
      g' = { g with
        albums := Function.update g.albums k ((g.albums k).answer i { x with call := c } p.prefs)
        storage := g.storage.serve x.owner p.object e } := by
  simp only [step, Option.bind_eq_some_iff, Option.ite_none_right_eq_some, Bool.and_eq_true,
    Option.map_eq_some_iff, Prod.exists, exists_and_left, and_assoc, eq_comm (b := g')]

end Gallery

end Chatsy
