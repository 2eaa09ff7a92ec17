import Chatsy.Systems.Messages

/-!
# Who can read a chat room

A room belongs to an unordered pair of users, but its id is a bare
concatenation of two addresses. Two pairs of users with one room id read each
other's messages, so privacy of every run by a set of users is the same as
unambiguity of the ids of that set, and both are the absence of an overlap
between their addresses.
-/

namespace Chatsy.RoomPrivacy

open Foundation DiscoverScreen ChatScreen

/-- The white space code units of Dart's `trim`. -/
def whiteSpace : List Nat :=
  [0x09, 0x0A, 0x0B, 0x0C, 0x0D, 0x20, 0x85, 0xA0, 0x1680, 0x2000, 0x2001, 0x2002, 0x2003,
    0x2004, 0x2005, 0x2006, 0x2007, 0x2008, 0x2009, 0x200A, 0x2028, 0x2029, 0x202F, 0x205F,
    0x3000, 0xFEFF]

/-- A well-formed address: a nonempty local part, an at sign, a domain with a
dot, and neither a slash nor white space anywhere. -/
def WellFormed (a : Text) : Prop :=
  (∃ localPart domain, a = localPart ++ text "@" ++ domain ∧ localPart ≠ [] ∧
    text "." ⊆ domain) ∧
  ∀ u ∈ a, u ∉ text "/" ∧ u.val ∉ whiteSpace

/-- Both screens compute one room id for a pair. -/
theorem chatRoomName_eq_getDocumentName (a b : Text) :
    chatRoomName a b = getDocumentName a b := by
  rw [chatRoomName_eq_sortedJoin, getDocumentName_eq_sortedJoin]

/-- Equal room ids, computed on either screen, come from one unordered pair. -/
def RoomIdsDistinct (U : Set Text) : Prop :=
  ∀ a ∈ U, ∀ b ∈ U, ∀ c ∈ U, ∀ d ∈ U, a ≠ b → c ≠ d →
    (getDocumentName a b = getDocumentName c d ∨ chatRoomName a b = chatRoomName c d ∨
      getDocumentName a b = chatRoomName c d) → s(a, b) = s(c, d)

theorem roomIdsDistinct_iff_not_overlap (U : Set Text) : RoomIdsDistinct U ↔ ¬ Overlap U := by
  rw [← joinInjective_iff_not_overlap]
  simp only [RoomIdsDistinct, JoinInjective, chatRoomName_eq_getDocumentName,
    getDocumentName_eq_sortedJoin, or_self]

/-- The step is made by users of `U`, each with another user: the listener of Discover collects
nobody's own address, so neither a call nor a friends tile is for oneself. -/
def Within (U : Set Text) : Backend.Label → Prop
  | .addToFriends user friendUser => user ∈ U ∧ friendUser ∈ U ∧ user ≠ friendUser
  | .send user friendEmail _ _ => user ∈ U ∧ friendEmail ∈ U ∧ user ≠ friendEmail
  | .write _ => True
  | .fail _ => True

/-- No document with the sender and receiver of another pair is in the room
that `u` reads on the screen of `f`. -/
def Private (U : Set Text) (s : Backend) : Prop :=
  ∀ u ∈ U, ∀ f ∈ U, u ≠ f → ∀ d ∈ s.chats (getDocumentName u f),
    ∀ x y, d.sender = some x → d.receiver = some y → s(x, y) = s(u, f)

/-- Every run of users of `U` from an empty store stays private. -/
def NoLeak (U : Set Text) : Prop :=
  ∀ ls s, (∀ l ∈ ls, Within U l) → run Backend.step Backend.empty ls = some s → Private U s

/-- One Send by a pair that shares its room id with another pair is a leak. -/
theorem not_noLeak_of_overlap {U : Set Text} (h : Overlap U) : ¬ NoLeak U := by
  obtain ⟨a, ha, b, hb, c, hc, d, hd, hab, hcd, hjoin, hne⟩ := exists_collision_of_overlap h
  intro hleak
  have hroom : getDocumentName a b = getDocumentName c d := by
    rw [getDocumentName_eq_sortedJoin, getDocumentName_eq_sortedJoin, hjoin]
  have hprivate := hleak [.send c d none 0] _
    (by simp only [List.mem_singleton, forall_eq]; exact ⟨hc, hd, hcd⟩) rfl
  have hdoc : sendDocument (.send 0) c d none 0 ∈
      (({ Backend.empty with sends := 1 } : Backend).apply
        (Backend.sendWrite 0 c d none 0)).chats (getDocumentName a b) := by
    rw [hroom]
    exact (Backend.holds_apply (v := Backend.sendWrite 0 c d none 0)).mpr (Or.inr rfl)
  exact hne (hprivate a ha b hb hab _ hdoc c d rfl rfl).symm

theorem noLeak_iff_not_overlap (U : Set Text) : NoLeak U ↔ ¬ Overlap U := by
  constructor
  · intro h hov
    exact not_noLeak_of_overlap hov h
  · intro hno ls s hU hr u hu f hf huf d hd x y hx hy
    obtain ⟨m, hm, rfl, rfl, hroom⟩ := Messages.exists_sent_of_mem hr hd hx hy
    obtain ⟨hxU, hyU, hxy⟩ := hU _ (Messages.mem_sent.mp hm)
    have hids := (roomIdsDistinct_iff_not_overlap U).mpr hno
    exact hids _ hxU _ hyU u hu f hf hxy huf (Or.inl hroom)

/-- Room ids tell the pairs of `U` apart, and every run of its users stays
private, exactly when the addresses of `U` have no overlap. -/
theorem room_privacy_iff (U : Set Text) :
    (RoomIdsDistinct U ↔ ¬ Overlap U) ∧ (NoLeak U ↔ ¬ Overlap U) :=
  ⟨roomIdsDistinct_iff_not_overlap U, noLeak_iff_not_overlap U⟩

/-- `ann@mail.co` with `mike@mail.com` and `ann@mail.com` with `ike@mail.com`
are two pairs of well-formed addresses with one room id. -/
theorem wellFormed_overlap : Overlap {a | WellFormed a} := by
  have hwf : ∀ localPart domain : Text, localPart ≠ [] → text "." ⊆ domain →
      (localPart ++ text "@" ++ domain).all
        (fun u => u ∉ text "/" ∧ u.val ∉ whiteSpace) = true →
      WellFormed (localPart ++ text "@" ++ domain) :=
    fun localPart domain hl hd hu => ⟨⟨localPart, domain, rfl, hl, hd⟩,
      fun u hmem => of_decide_eq_true (List.all_eq_true.mp hu u hmem)⟩
  refine ⟨text "ann@mail.co", text "m", text "ike@mail.com", by decide, ?_, ?_, ?_, ?_,
    by decide, by decide⟩
  · exact hwf (text "ann") (text "mail.co") (by decide) (by decide) (by decide)
  · exact hwf (text "mike") (text "mail.com") (by decide) (by decide) (by decide)
  · exact hwf (text "ann") (text "mail.com") (by decide) (by decide) (by decide)
  · exact hwf (text "ike") (text "mail.com") (by decide) (by decide) (by decide)

/-- Well-formed addresses do not keep rooms apart, and a Send between two of
them shows on the screen of two others. -/
theorem wellFormed_not_private :
    ¬ RoomIdsDistinct {a | WellFormed a} ∧ ¬ NoLeak {a | WellFormed a} :=
  ⟨fun h => (roomIdsDistinct_iff_not_overlap _).mp h wellFormed_overlap,
    not_noLeak_of_overlap wellFormed_overlap⟩

end Chatsy.RoomPrivacy
