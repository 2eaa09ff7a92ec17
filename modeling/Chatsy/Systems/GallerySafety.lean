import Chatsy.Systems.Gallery

/-!
# Whose pictures a phone shows

The preferences of a phone do not say whose picture they point to, and an answer
can come after another user has signed in. Still no picture gets from one phone
to another: the address that a phone remembers or shows is that of an object put
for a user of the phone. And a stored picture is put and deleted by uploads from
phones of its user alone.
-/

namespace Chatsy.Gallery

open Foundation RegistrationScreen ProfileScreen

variable {norm : Text → Text} {n : Nat} {ls : List Label} {g g' : Gallery}

/-- What is known of an album, where `W` are the users of the phone: they made its uploads, and the
addresses on the phone were given for objects of theirs. -/
structure Owned (W : Text → Prop) (given : List (Text × Text)) (a : Album) : Prop where
  owners : ∀ x ∈ a.uploads, W x.owner
  answered : ∀ x ∈ a.uploads, ∀ url, x.call.progress = .answered url → (x.owner, url) ∈ given
  prefs : ∀ url, a.prefs.storageImageURL = some url → ∃ u, W u ∧ (u, url) ∈ given
  shown : ∀ url, a.url = some url → url = [] ∨ url = defaultPicture ∨ ∃ u, W u ∧ (u, url) ∈ given

/-- The addresses of the stored objects have been given, each once, and the albums are owned. -/
structure Kept (W : Nat → Text → Prop) (g : Gallery) : Prop where
  objects : ∀ u o, g.storage.objects u = some o → (u, o.url) ∈ g.storage.given
  once : (g.storage.given.map Prod.snd).Nodup
  albums : ∀ k, Owned (W k) g.storage.given (g.albums k)

theorem Owned.mono {W W' : Text → Prop} {given given' : List (Text × Text)} {a : Album}
    (h : Owned W given a) (hW : ∀ u, W u → W' u) (hgiven : given ⊆ given') : Owned W' given' a where
  owners := fun x hx => hW x.owner (h.owners x hx)
  answered := fun x hx url hurl => hgiven (h.answered x hx url hurl)
  prefs := by
    intro url hurl
    obtain ⟨u, hu, hmem⟩ := h.prefs url hurl
    exact ⟨u, hW u hu, hgiven hmem⟩
  shown := by
    intro url hurl
    rcases h.shown url hurl with hnil | hdefault | ⟨u, hu, hmem⟩
    · exact Or.inl hnil
    · exact Or.inr (Or.inl hdefault)
    · exact Or.inr (Or.inr ⟨u, hW u hu, hgiven hmem⟩)

section Album

variable {W : Text → Prop} {given : List (Text × Text)} {a : Album}

end Album

/-- The users of phone `k` in a run with pictures. -/
def UserOf (norm : Text → Text) (n : Nat) (ls : List Label) (k : Nat) (u : Text) : Prop :=
  World.WasUser norm n ((toWorld norm).sent (start n) ls) k u

theorem UserOf.concat (hr : run (step norm) (start n) ls = some g) {k : Nat} {u : Text}
    (h : UserOf norm n ls k u) (l : Label) : UserOf norm n (ls ++ [l]) k u := by
  rw [UserOf, Simulation.sent, trace_concat _ _ hr]
  exact World.WasUser.append h _

end Chatsy.Gallery
